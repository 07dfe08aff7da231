/-
# EchoBot.HttpGet.Lifecycle — `thread_http_get` from its start to its end

Before the exchange the thread resolves the host, opens a socket, sets two options on it and
connects; `CHECK` ends the program when one of these calls returns -1. The thread makes every call
once and in order, so what it does is settled by what the calls return (`Network`).

What may be called when is a matter of the socket (`Phase`): options before `connect`, `send` on a
connected socket, `recv` behind the request, `close` behind the end of the response, nothing behind
`close` or `exit`. Every run keeps to that, and where it leaves the socket is read off the answers
(`ending`). One of the endings is a leak: behind an error of `recv` the thread returns without
`close`.
-/
import EchoBot.HttpGet.Exchange
import EchoBot.Memory.Decimal

namespace EchoBot.HttpGet

open EchoBot.Memory

/-! ## §1 — the thread. -/

/-- The options of `SOL_TLS` that are set. -/
inductive SockOpt where
  | secTagList
  | hostname
  deriving DecidableEq, Repr

/-- What happens in the thread. -/
inductive Action where
  | sleep (seconds : Nat)
  | tlsCredentialAdd
  | getaddrinfo (st : Int)
  | dumpAddrinfo
  | socket (sock : Int)
  | setsockopt (option : SockOpt) (ret : Int)
  | connect (ret : Int)
  /-- An event of the exchange, or a text. -/
  | event (e : Event)
  deriving DecidableEq, Repr

/-- What the calls return. -/
structure Network where
  getaddrinfo : Int
  socket : Int
  setsockopt : SockOpt → Int
  connect : Int
  /-- The bytes `send` accepts, `none` for -1. -/
  send : Option Nat
  recv : List Recv

/-- `%d`. -/
def signed (n : Int) : List UInt8 :=
  if n < 0 then literal "-" ++ decimal n.natAbs else decimal n.natAbs

/-- `printf` of a text. -/
def print (text : List UInt8) : Action := .event (.printf text)

/-- `CHECK(r)`: what follows is not reached when `r` is -1. -/
def check (r : Int) (text : String) (rest : List Action) : List Action :=
  if r = -1 then
    [print (literal "Error: " ++ literal text ++ literal "\n"), .event .exit]
  else rest

/-- `thread_http_get` behind `getaddrinfo`. -/
def openSocket (net : Network) : List Action :=
  .socket net.socket :: check net.socket "sock"
    (print (literal "sock = " ++ signed net.socket ++ literal "\n") ::
      .setsockopt .secTagList (net.setsockopt .secTagList) ::
      check (net.setsockopt .secTagList)
        "setsockopt(sock, SOL_TLS, TLS_SEC_TAG_LIST, sec_tag_opt, sizeof(sec_tag_opt))"
    (.setsockopt .hostname (net.setsockopt .hostname) :: check (net.setsockopt .hostname)
        "setsockopt(sock, SOL_TLS, TLS_HOSTNAME, HTTP_HOST, sizeof(HTTP_HOST))"
    (.connect net.connect :: check net.connect "connect(sock, res->ai_addr, res->ai_addrlen)"
    ((threadHttpGet net.send net.recv init).trace.map .event))))

/-- `thread_http_get`. -/
def runHttpGet (net : Network) : List Action :=
  [.sleep 10, .tlsCredentialAdd,
    print (literal "Preparing HTTP GET request for http://google.com:443/\n"),
    .getaddrinfo net.getaddrinfo,
    print (literal "getaddrinfo status: " ++ signed net.getaddrinfo ++ literal "\n")] ++
  if net.getaddrinfo ≠ 0 then [print (literal "Unable to resolve address, quitting\n")]
  else .dumpAddrinfo :: openSocket net

/-! ## §2 — what may be called when. -/

/-- What has become of the socket. -/
inductive Phase where
  | none
  | opened
  | connected
  /-- The request is out. -/
  | requested
  /-- `recv` returned 0. -/
  | drained
  /-- `recv` reported an error. -/
  | broken
  /-- A call that is checked returned -1. -/
  | refused
  | closed
  | exited
  deriving DecidableEq, Repr

/-- The result of a call that is checked. -/
def Phase.checked (r : Int) (next : Phase) : Phase := if r = -1 then .refused else next

/-- **The discipline of the socket**: the phase behind an action, `none` when it is out of place. -/
def Phase.next : Phase → Action → Option Phase
  | .exited, _ => Option.none
  | phase, .event (.printf _) => some phase
  | .none, .sleep _ => some .none
  | .none, .tlsCredentialAdd => some .none
  | .none, .getaddrinfo _ => some .none
  | .none, .dumpAddrinfo => some .none
  | .none, .socket sock => some (checked sock .opened)
  | .opened, .setsockopt _ ret => some (checked ret .opened)
  | .opened, .connect ret => some (checked ret .connected)
  | .connected, .event (.send _ _) => some .requested
  -- a `send` of -1 is no event of the exchange
  | .connected, .event .exit => some .exited
  | .requested, .event (.recv (.data _)) => some .requested
  | .requested, .event (.recv .closed) => some .drained
  | .requested, .event (.recv .error) => some .broken
  | .drained, .event .close => some .closed
  | .refused, .event .exit => some .exited
  | _, _ => Option.none

/-- Where the receive loop ends. -/
def recvEnding : List Recv → Phase
  | [] => .requested
  | .data _ :: results => recvEnding results
  | .closed :: _ => .closed
  | .error :: _ => .broken

/-- A call whose result is checked returned -1. -/
def Network.Refuses (net : Network) : Prop :=
  net.socket = -1 ∨ net.setsockopt .secTagList = -1 ∨ net.setsockopt .hostname = -1 ∨
    net.connect = -1 ∨ net.send = none

instance (net : Network) : Decidable net.Refuses := by
  unfold Network.Refuses
  infer_instance

/-- Where the thread ends. -/
def Network.ending (net : Network) : Phase :=
  if net.getaddrinfo ≠ 0 then .none
  else if net.Refuses then .exited
  else recvEnding net.recv

/-- `recv` gives from 1 up to the bytes it is asked for, or 0, or an error. -/
def Network.Bounded (net : Network) : Prop :=
  ∀ chunk, .data chunk ∈ net.recv → 1 ≤ chunk.length ∧ chunk.length ≤ responseSize - 1

/-! ## §3 — every run keeps to it. -/

/-- The phase behind some actions. -/
def Phase.follow (phase : Phase) (actions : List Action) : Option Phase :=
  actions.foldlM Phase.next phase

theorem follow_cons (phase : Phase) (a : Action) (actions : List Action) :
    phase.follow (a :: actions) = (phase.next a).bind fun next => next.follow actions := by
  rw [Phase.follow, List.foldlM_cons]
  rfl

/-- **`CHECK`**: the thread goes on, or ends in `exit`. -/
theorem follow_check (r : Int) (text : String) (rest : List Action) (next : Phase) :
    (Phase.checked r next).follow (check r text rest) =
      if r = -1 then some .exited else next.follow rest := by
  by_cases hr : r = -1
  · rw [Phase.checked, check, if_pos hr, if_pos hr, if_pos hr]
    rfl
  · rw [Phase.checked, check, if_neg hr, if_neg hr, if_neg hr]

/-- The buffer keeps its size. -/
theorem length_storeChunk {chunk : List UInt8} {t : Thread}
    (hchunk : chunk.length < t.response.length) :
    (storeChunk chunk t).response.length = t.response.length := by
  rw [storeChunk_response hchunk, List.length_append, List.length_cons, List.length_drop]
  omega

/-- **The receive loop**: by induction on the answers, each piece fits in front of a terminator. -/
theorem receiveLoop_follows {results : List Recv}
    (hresults : ∀ chunk, .data chunk ∈ results → chunk.length < responseSize) {t : Thread}
    (ht : t.response.length = responseSize) :
    ∃ events, (receiveLoop results t).trace = t.trace ++ events ∧
      Phase.requested.follow (events.map .event) = some (recvEnding results) := by
  induction results generalizing t with
  | nil => exact ⟨[], (List.append_nil _).symm, rfl⟩
  | cons result results ih =>
    cases result with
    | error =>
      refine ⟨[.recv .error, .printf (literal "Error reading response\n")], ?_, rfl⟩
      simp [receiveLoop, Thread.log]
    | closed =>
      refine ⟨[.recv .closed, .printf (literal "\n"), .close], ?_, rfl⟩
      simp [receiveLoop, Thread.log]
    | data chunk =>
      have hfits : chunk.length < (t.log (.recv (.data chunk))).response.length := by
        show chunk.length < t.response.length
        rw [ht]
        exact hresults chunk List.mem_cons_self
      have hlen : ((storeChunk chunk (t.log (.recv (.data chunk)))).log
          (.printf (cString chunk))).response.length = responseSize :=
        (length_storeChunk hfits).trans ht
      obtain ⟨events, htrace, hfollow⟩ :=
        ih (fun chunk' h => hresults chunk' (List.mem_cons_of_mem _ h)) hlen
      refine ⟨.recv (.data chunk) :: .printf (cString chunk) :: events, ?_, hfollow⟩
      rw [receiveLoop, printResponse_storeChunk hfits, htrace]
      simp [Thread.log, storeChunk]

/-- The exchange. -/
theorem threadHttpGet_follows {net : Network} (hnet : net.Bounded) :
    Phase.connected.follow ((threadHttpGet net.send net.recv init).trace.map .event) =
      some (if net.send = none then .exited else recvEnding net.recv) := by
  cases hsend : net.send with
  | none => rfl
  | some accepted =>
    have hresults : ∀ chunk, .data chunk ∈ net.recv → chunk.length < responseSize := by
      intro chunk hchunk
      have hle := (hnet chunk hchunk).2
      have hsize : responseSize = 1024 := rfl
      omega
    obtain ⟨events, htrace, hfollow⟩ := receiveLoop_follows hresults
      (t := (init.log (.send request accepted)).log (.printf (literal "Response:\n\n")))
      List.length_replicate
    rw [threadHttpGet, htrace, if_neg (Option.some_ne_none accepted)]
    exact hfollow

/-- Behind `getaddrinfo`. -/
theorem openSocket_follows {net : Network} (hnet : net.Bounded) :
    Phase.none.follow (openSocket net) =
      some (if net.Refuses then .exited else recvEnding net.recv) := by
  simp only [openSocket, print, follow_cons, Phase.next, Option.bind_some, follow_check,
    threadHttpGet_follows hnet]
  by_cases hrefuses : net.Refuses
  · rw [if_pos hrefuses]
    rcases hrefuses with h | h | h | h | h <;> simp [h]
  · rw [if_neg hrefuses]
    simp only [Network.Refuses, not_or] at hrefuses
    obtain ⟨hsocket, htag, hname, hconnect, hsend⟩ := hrefuses
    rw [if_neg hsocket, if_neg htag, if_neg hname, if_neg hconnect, if_neg hsend]

/-- **The discipline of the socket.** Whatever the calls return: each is made where it may be made,
no piece of the response is printed past the end of its buffer, and the socket is left as the
answers say. It is closed when the response came to its end, and left open when `recv` failed. -/
theorem socket_discipline (net : Network) (hnet : net.Bounded) :
    Phase.none.follow (runHttpGet net) = some net.ending := by
  rw [runHttpGet, Network.ending]
  split
  · rfl
  · exact openSocket_follows hnet

/-- A response that breaks off behind its first byte: the thread returns with the socket open. -/
theorem socket_discipline_broken :
    Phase.none.follow (runHttpGet ⟨0, 3, fun _ => 0, 0, some 36, [.data [72], .error]⟩) =
      some .broken :=
  socket_discipline ⟨0, 3, fun _ => 0, 0, some 36, [.data [72], .error]⟩ (by
    intro chunk hchunk
    obtain rfl : chunk = [72] := by simpa using hchunk
    decide)

end EchoBot.HttpGet
