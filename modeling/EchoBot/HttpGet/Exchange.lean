/-
# EchoBot.HttpGet.Exchange — one request and one response of `thread_http_get`

The client sends its request with one `send`, and prints the response in the pieces in which `recv`
gives it. Both steps take a shortcut. `send` may accept a part of the request, and the rest is never
sent; the result is compared with -1 alone. And each piece is printed as a C string, which ends at
the first NUL the server sent.

So the exchange is what it should be exactly when `send` took the whole request and the response
holds no NUL (`exchange_iff`). The model begins at the connected socket.
-/
import EchoBot.Memory.CString

namespace EchoBot.HttpGet

open EchoBot.Memory

/-! ## §1 — the program. -/

/-- `REQUEST`. -/
def request : List UInt8 := literal "GET / HTTP/1.0\r\nHost: google.com\r\n\r\n"

/-- `sizeof(response)`. -/
def responseSize : Nat := 1024

/-- The results of `recv`. -/
inductive Recv where
  /-- A positive number of bytes. -/
  | data (chunk : List UInt8)
  /-- 0. -/
  | closed
  /-- A negative value. -/
  | error
  deriving DecidableEq, Repr

inductive Event where
  /-- `send(data)`; the first `accepted` bytes were accepted. -/
  | send (data : List UInt8) (accepted : Nat)
  | recv (result : Recv)
  /-- Text on the console. -/
  | printf (text : List UInt8)
  /-- `%s` found no NUL in `response` and read on behind it. -/
  | overread
  | close
  | exit
  deriving DecidableEq, Repr

/-- The thread: `response` is static. -/
structure Thread where
  response : List UInt8
  trace : List Event

/-- One more event. -/
def Thread.log (t : Thread) (e : Event) : Thread := { t with trace := t.trace ++ [e] }

/-- `printf("%s", response)`. -/
def printResponse (t : Thread) : Thread :=
  match strlen t.response with
  | none => t.log .overread
  | some len => t.log (.printf (t.response.take len))

/-- The bytes of a `recv` in `response`, and the terminator behind them. -/
def storeChunk (chunk : List UInt8) (t : Thread) : Thread :=
  { t with response := (chunk ++ t.response.drop chunk.length).set chunk.length 0 }

/-- `while (1)` and what follows it. -/
def receiveLoop : List Recv → Thread → Thread
  | [], t => t
  | .error :: _, t => (t.log (.recv .error)).log (.printf (literal "Error reading response\n"))
  | .closed :: _, t => ((t.log (.recv .closed)).log (.printf (literal "\n"))).log .close
  | .data chunk :: results, t =>
    receiveLoop results (printResponse (storeChunk chunk (t.log (.recv (.data chunk)))))

/-- `thread_http_get` from the connected socket on. `sent` is the result of `send`, `none` for
-1. -/
def threadHttpGet (sent : Option Nat) (results : List Recv) (t : Thread) : Thread :=
  match sent with
  | none =>
    (t.log (.printf (literal "Error: send(sock, REQUEST, SSTRLEN(REQUEST), 0)\n"))).log .exit
  | some accepted =>
    receiveLoop results
      ((t.log (.send request accepted)).log (.printf (literal "Response:\n\n")))

/-- The thread at start-up. -/
def init : Thread where
  response := List.replicate responseSize 0
  trace := []

/-! ## §2 — exchanges without an error. -/

/-- The choices of the network in an exchange without an error: how much of the request `send`
accepts, and the pieces in which the response comes. -/
structure Exchange where
  accepted : Nat
  accepted_pos : 1 ≤ accepted
  accepted_le : accepted ≤ request.length
  chunks : List (List UInt8)
  length_chunk : ∀ chunk ∈ chunks, 1 ≤ chunk.length ∧ chunk.length ≤ responseSize - 1

/-- The response. -/
def Exchange.response (e : Exchange) : List UInt8 := e.chunks.flatten

/-- What happens in the exchange. -/
def Exchange.trace (e : Exchange) : List Event :=
  (threadHttpGet (some e.accepted) (e.chunks.map .data ++ [.closed]) init).trace

/-- The bytes the peer was given. -/
def given (t : List Event) : List UInt8 :=
  t.flatMap fun
    | .send data accepted => data.take accepted
    | _ => []

/-- The text on the console. -/
def console (t : List Event) : List UInt8 :=
  t.flatMap fun
    | .printf text => text
    | _ => []

/-- What happens before the first `recv`. -/
def beforeRecv (t : List Event) : List Event :=
  t.takeWhile fun
    | .recv _ => false
    | _ => true

/-- **`Exchanged e`** — the peer has the whole request before the first `recv`; the console shows
the response between the banner and the last newline; and every exchange with that response, however
it is split, shows the same. -/
structure Exchanged (e : Exchange) : Prop where
  given : given (beforeRecv e.trace) = request
  console : console e.trace = literal "Response:\n\n" ++ e.response ++ literal "\n"
  split : ∀ e' : Exchange, e'.response = e.response →
    HttpGet.console e'.trace = HttpGet.console e.trace

/-! ## §3 — what an exchange shows. -/

/-- The buffer behind a `recv`: the piece, its terminator, and what earlier pieces left. -/
theorem storeChunk_response {chunk : List UInt8} {t : Thread}
    (hchunk : chunk.length < t.response.length) :
    (storeChunk chunk t).response = chunk ++ 0 :: t.response.drop (chunk.length + 1) := by
  rw [storeChunk, List.set_append_right _ _ (Nat.le_refl _), Nat.sub_self,
    List.drop_eq_getElem_cons hchunk]
  rfl

/-- What is printed of a piece. -/
theorem printResponse_storeChunk {chunk : List UInt8} {t : Thread}
    (hchunk : chunk.length < t.response.length) :
    printResponse (storeChunk chunk t) = (storeChunk chunk t).log (.printf (cString chunk)) := by
  have hstring : cString (storeChunk chunk t).response = cString chunk := by
    rw [storeChunk_response hchunk, cString_append_zero]
  have hnul : 0 ∈ (storeChunk chunk t).response := by
    rw [storeChunk_response hchunk]
    simp
  rw [printResponse, strlen_of_mem hnul]
  show (storeChunk chunk t).log (.printf ((storeChunk chunk t).response.take
    (cString (storeChunk chunk t).response).length)) = _
  rw [take_length_cString, hstring]

/-- **The events of the loop**: every piece is received and printed as a string. -/
theorem receiveLoop_data {chunks : List (List UInt8)}
    (hchunks : ∀ chunk ∈ chunks, chunk.length < responseSize) {t : Thread}
    (ht : t.response.length = responseSize) :
    (receiveLoop (chunks.map .data ++ [.closed]) t).trace =
      t.trace ++ (chunks.flatMap fun chunk => [.recv (.data chunk), .printf (cString chunk)]) ++
        [.recv .closed, .printf (literal "\n"), .close] := by
  induction chunks generalizing t with
  | nil => simp [receiveLoop, Thread.log]
  | cons chunk chunks ih =>
    obtain ⟨hchunk, hrest⟩ := List.forall_mem_cons.mp hchunks
    have hfits : chunk.length < (t.log (.recv (.data chunk))).response.length := by
      show chunk.length < t.response.length
      rwa [ht]
    have hlen : ((storeChunk chunk (t.log (.recv (.data chunk)))).log
        (.printf (cString chunk))).response.length = responseSize := by
      show (storeChunk chunk (t.log (.recv (.data chunk)))).response.length = _
      rw [storeChunk_response hfits]
      show (chunk ++ 0 :: t.response.drop (chunk.length + 1)).length = _
      rw [List.length_append, List.length_cons, List.length_drop, ht]
      omega
    rw [List.map_cons, List.cons_append, receiveLoop, printResponse_storeChunk hfits,
      ih hrest hlen]
    simp [Thread.log, storeChunk]

theorem Exchange.trace_eq (e : Exchange) :
    e.trace = [.send request e.accepted, .printf (literal "Response:\n\n")] ++
      (e.chunks.flatMap fun chunk => [.recv (.data chunk), .printf (cString chunk)]) ++
        [.recv .closed, .printf (literal "\n"), .close] := by
  have hchunks : ∀ chunk ∈ e.chunks, chunk.length < responseSize := by
    intro chunk hchunk
    have hlen := (e.length_chunk chunk hchunk).2
    have hsize : responseSize = 1024 := rfl
    omega
  rw [Exchange.trace, threadHttpGet, receiveLoop_data hchunks (List.length_replicate ..)]
  rfl

/-- The peer is given what `send` accepted. -/
theorem Exchange.given_beforeRecv (e : Exchange) :
    given (beforeRecv e.trace) = request.take e.accepted := by
  rw [e.trace_eq]
  cases e.chunks with
  | nil => simp [beforeRecv, given]
  | cons chunk chunks => simp [beforeRecv, given]

theorem console_append (t t' : List Event) : console (t ++ t') = console t ++ console t' :=
  List.flatMap_append

/-- The console shows the strings of the pieces. -/
theorem Exchange.console_trace (e : Exchange) :
    console e.trace =
      literal "Response:\n\n" ++ e.chunks.flatMap cString ++ literal "\n" := by
  have hpieces : ∀ chunks : List (List UInt8),
      console (chunks.flatMap fun chunk => [.recv (.data chunk), .printf (cString chunk)]) =
        chunks.flatMap cString := by
    intro chunks
    induction chunks with
    | nil => rfl
    | cons chunk chunks ih =>
      rw [List.flatMap_cons, console_append, ih, List.flatMap_cons]
      simp [console]
  rw [e.trace_eq, console_append, console_append, hpieces]
  rfl

/-- **When an exchange is what it should be**: when `send` took the whole request and the response
holds no NUL. -/
theorem exchange_iff (e : Exchange) :
    Exchanged e ↔ e.accepted = request.length ∧ ∀ c ∈ e.response, c ≠ 0 := by
  have hshown : ∀ e : Exchange, (∀ c ∈ e.response, c ≠ 0) →
      console e.trace = literal "Response:\n\n" ++ e.response ++ literal "\n" := by
    intro e hnul
    rw [e.console_trace, flatMap_cString_eq_flatten_iff.mpr hnul]
    rfl
  constructor
  · rintro ⟨hgiven, hconsole, -⟩
    refine ⟨?_, ?_⟩
    · have hlen := congrArg List.length hgiven
      have hle := e.accepted_le
      rw [e.given_beforeRecv, List.length_take] at hlen
      omega
    · rw [e.console_trace, List.append_left_inj, List.append_right_inj] at hconsole
      exact flatMap_cString_eq_flatten_iff.mp hconsole
  · rintro ⟨haccepted, hnul⟩
    refine ⟨?_, hshown e hnul, ?_⟩
    · rw [e.given_beforeRecv, haccepted, List.take_length]
    · intro e' hresponse
      rw [hshown e hnul, hshown e' (hresponse ▸ hnul), hresponse]

/-- A request accepted in part, and a response of one byte. -/
def shortSend : Exchange where
  accepted := 4
  accepted_pos := by decide
  accepted_le := by decide
  chunks := [[0x61]]
  length_chunk := by simp [responseSize]

/-- A response with a NUL in it, in one piece. -/
def nulResponse : Exchange where
  accepted := request.length
  accepted_pos := by decide
  accepted_le := by decide
  chunks := [[0x61, 0, 0x62]]
  length_chunk := by simp [responseSize]

/-- Of the request the peer gets `GET `, and of `a`, NUL, `b` the console shows `a`. -/
theorem exchange_cut_short :
    given (beforeRecv shortSend.trace) ≠ request ∧
      console nulResponse.trace ≠
        literal "Response:\n\n" ++ nulResponse.response ++ literal "\n" ∧
      ¬ ∀ e : Exchange, Exchanged e := by
  have hgiven : given (beforeRecv shortSend.trace) ≠ request := by
    rw [shortSend.given_beforeRecv]
    decide
  have hconsole : console nulResponse.trace ≠
      literal "Response:\n\n" ++ nulResponse.response ++ literal "\n" := by
    rw [nulResponse.console_trace]
    decide
  exact ⟨hgiven, hconsole, fun hclaim => hgiven (hclaim shortSend).given⟩

end EchoBot.HttpGet
