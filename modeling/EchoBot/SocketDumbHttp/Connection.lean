/-
# EchoBot.SocketDumbHttp.Connection — connection after connection

The server handles one client at a time, and leaves the handling of one in five ways: the client
closes, `recv` fails, `send` fails, the content is sent, or there is no content. All of them meet at
`close_client`. The thread is a machine that rests in its socket calls (`Point`) and takes the
answer of each; a run is a list of answers, and every list is one. What is printed in between is
left out.

What must hold of the calls is said of the history alone (`LifecycleEvent`): a call on a client
needs that client to be open, a further `accept` needs the one before it to be closed once, and
behind a call that finishes the connection (`Done`) nothing is called but its `close`. Where the
machine rests says which of these is the case (`Resting`).
-/
import EchoBot.SocketDumbHttp.Request
import EchoBot.Stream.History

namespace EchoBot.SocketDumbHttp

open EchoBot.Stream

/-! ## §1 — the accept loop. -/

/-- `content`: its `sizeof` is a `size_t`. -/
structure Content where
  bytes : List UInt8
  length_lt : bytes.length < UInt32.size

/-- The socket call in which the thread is. -/
inductive Point where
  | accept
  | recv (client : Int) (reqState : Nat)
  /-- `data` is an offset into `content`. -/
  | send (client : Int) (data : Int) (len : UInt32)
  | close (client : Int)
  deriving DecidableEq, Repr

/-- What the call in which the thread is returns, `errno` behind it, and the byte of a `recv`. -/
structure Answer where
  ret : Int
  errno : Errno
  c : UInt8
  deriving DecidableEq, Repr

/-- The calls that have returned. -/
inductive Event where
  | accept (ret : Int)
  | recv (client : Int) (ret : Int) (errno : Errno)
  | send (client : Int) (data : Int) (len : UInt32) (ret : Int)
  | close (client : Int) (ret : Int)
  deriving DecidableEq, Repr

structure Server where
  point : Point
  trace : List Event
  deriving DecidableEq, Repr

/-- `while (len)`: a further `send`, or what follows the loop. -/
def whileLen (client data : Int) (len : UInt32) : Point :=
  if len = 0 then .close client else .send client data len

/-- What follows `accept`. -/
def afterAccept (a : Answer) : Point := if a.ret < 0 then .accept else .recv a.ret 0

/-- What follows `recv`. -/
def afterRecv (content : Content) (client : Int) (reqState : Nat) (a : Answer) : Point :=
  if a.ret = 0 then .close client
  else if a.ret < 0 then
    if a.errno = .eagain ∨ a.errno = .eintr then .recv client reqState else .close client
  else
    match nextState reqState a.c with
    | some reqState => .recv client reqState
    | none => whileLen client 0 (UInt32.ofNat content.bytes.length)

/-- What follows `send`. -/
def afterSend (client data : Int) (len : UInt32) (a : Answer) : Point :=
  if a.ret = -1 then .close client
  else whileLen client (data + a.ret) (len - UInt32.ofInt a.ret)

/-- The thread takes the answer of its call. -/
def step (content : Content) (s : Server) (a : Answer) : Server :=
  match s.point with
  | .accept => ⟨afterAccept a, s.trace ++ [.accept a.ret]⟩
  | .recv client reqState =>
    ⟨afterRecv content client reqState a, s.trace ++ [.recv client a.ret a.errno]⟩
  | .send client data len =>
    ⟨afterSend client data len a, s.trace ++ [.send client data len a.ret]⟩
  | .close client => ⟨.accept, s.trace ++ [.close client a.ret]⟩

def run (content : Content) (answers : List Answer) (s : Server) : Server :=
  answers.foldl (step content) s

/-- The thread behind `listen`. -/
def listening : Server where
  point := .accept
  trace := []

/-! ## §2 — the request is read as before. -/

/-- An outcome of `recv` as the answer it is. -/
def Recv.answer : Recv → Answer
  | .byte c => ⟨1, .other, c⟩
  | .closed => ⟨0, .other, 0⟩
  | .error errno => ⟨-1, errno, 0⟩

/-- **The inner loop is `discardRequest`**: it is left at the same outcome, for the same place. -/
theorem run_recv_eq (content : Content) (client : Int) (reqState : Nat) (outcomes : List Recv)
    (t : List Event) :
    ∃ t', run content (outcomes.map Recv.answer) ⟨.recv client reqState, t⟩ =
      match discardRequest reqState outcomes with
      | .respond rest => run content (rest.map Recv.answer)
        ⟨whileLen client 0 (UInt32.ofNat content.bytes.length), t'⟩
      | .closeClient rest => run content (rest.map Recv.answer) ⟨.close client, t'⟩
      | .receiving q => ⟨.recv client q, t'⟩ := by
  induction outcomes generalizing reqState t with
  | nil => exact ⟨t, rfl⟩
  | cons outcome outcomes ih =>
    cases outcome with
    | byte c =>
      obtain ⟨t', hrest⟩ := ih ((nextState reqState c).getD 0) (t ++ [.recv client 1 .other])
      rw [List.map_cons, run, List.foldl_cons, discardRequest]
      show ∃ t', run content _ ⟨(match nextState reqState c with
        | some reqState => .recv client reqState
        | none => whileLen client 0 (UInt32.ofNat content.bytes.length)), _⟩ = _
      cases hnext : nextState reqState c with
      | none => exact ⟨_, rfl⟩
      | some q =>
        rw [hnext] at hrest
        exact ⟨t', hrest⟩
    | closed => exact ⟨_, rfl⟩
    | error errno =>
      rw [List.map_cons, run, List.foldl_cons, discardRequest]
      show ∃ t', run content _ ⟨(if errno = .eagain ∨ errno = .eintr then .recv client reqState
        else .close client), _⟩ = _
      split
      · exact ih reqState _
      · exact ⟨_, rfl⟩

/-! ## §3 — what must hold of the calls. -/

def IsAccept : Event → Prop
  | .accept _ => True
  | _ => False

/-- The sockets closed. -/
def closes (t : List Event) : List Int :=
  t.filterMap fun
    | .close client _ => some client
    | _ => none

/-- `recv` reported the end of the stream, or an error that is not retried. -/
def RecvFailed : Event → Prop
  | .recv _ ret errno => ret = 0 ∨ (ret < 0 ∧ errno ≠ .eagain ∧ errno ≠ .eintr)
  | _ => False

/-- **`Open client t`** — `client` is the socket accepted last, and has not been closed. -/
def Open (client : Int) (t : List Event) : Prop :=
  0 ≤ client ∧ ∃ mid, LastMark IsAccept t (.accept client) mid ∧ closes mid = []

/-- **`Healthy client t`** — and no `recv` on it has failed. -/
def Healthy (client : Int) (t : List Event) : Prop :=
  0 ≤ client ∧ ∃ mid, LastMark IsAccept t (.accept client) mid ∧ closes mid = [] ∧
    ∀ e ∈ mid, ¬ RecvFailed e

/-- **`ClosedOnce t`** — the socket accepted last, if there is one, has been closed once since, and
no other has. -/
def ClosedOnce (t : List Event) : Prop :=
  ∀ client mid, LastMark IsAccept t (.accept client) mid → 0 ≤ client → closes mid = [client]

/-- What a call needs of the calls before it. -/
def MayBeCalled (before : List Event) : Event → Prop
  | .accept _ => ClosedOnce before
  | .recv client _ _ => Open client before
  | .send client _ _ _ => Healthy client before
  | .close client _ => Open client before

/-- **`Finishes client e`** — the call ends the connection: a `recv` that failed, a `send` that
failed, or one that took all that was left of the content. -/
def Finishes (client : Int) (e : Event) : Prop :=
  match e with
  | .recv client' _ _ => client' = client ∧ RecvFailed e
  | .send client' _ len ret => client' = client ∧ (ret = -1 ∨ UInt32.ofInt ret = len)
  | _ => False

/-- **`Done client t`** — the last call that returned is one of these. -/
def Done (client : Int) (t : List Event) : Prop := ∃ e, t.getLast? = some e ∧ Finishes client e

/-- **`LifecycleEvent before e`** — `e` may be called behind `before`; and if that has finished a
connection, `e` closes it. -/
def LifecycleEvent (before : List Event) (e : Event) : Prop :=
  MayBeCalled before e ∧ ∀ client, Done client before → ∃ ret, e = .close client ret

/-! ## §4 — every run. -/

/-- **`Resting p t`** — what the place where the thread rests says about the calls that returned. -/
def Resting : Point → List Event → Prop
  | .accept, t => ClosedOnce t
  | .recv client _, t => Healthy client t
  | .send client _ _, t => Healthy client t
  | .close client, t => Open client t

section Calls

variable {client : Int} {t : List Event} {e : Event}

theorem Healthy.open (h : Healthy client t) : Open client t := by
  obtain ⟨hclient, mid, hlast, hcloses, -⟩ := h
  exact ⟨hclient, mid, hlast, hcloses⟩

/-- A successful `accept` opens its socket. -/
theorem healthy_accept {ret : Int} (hret : 0 ≤ ret) (t : List Event) :
    Healthy ret (t ++ [.accept ret]) := by
  refine ⟨hret, [], lastMark_snoc_iff.mpr (Or.inl ⟨trivial, rfl, rfl⟩), rfl, ?_⟩
  exact fun _ h => absurd h List.not_mem_nil

/-- A failed one leaves nothing to close. -/
theorem closedOnce_accept {ret : Int} (hret : ret < 0) (t : List Event) :
    ClosedOnce (t ++ [.accept ret]) := by
  intro client mid hlast hclient
  rcases lastMark_snoc_iff.mp hlast with ⟨-, heq, -⟩ | ⟨hne, -⟩
  · cases heq
    exact absurd hclient (Int.not_le.mpr hret)
  · exact absurd trivial hne

/-- A call that is neither `accept` nor `close` leaves the socket open. -/
theorem Open.snoc (h : Open client t) (haccept : ¬ IsAccept e) (hclose : closes [e] = []) :
    Open client (t ++ [e]) := by
  obtain ⟨hclient, mid, hlast, hcloses⟩ := h
  refine ⟨hclient, mid ++ [e], lastMark_snoc_iff.mpr (Or.inr ⟨haccept, mid, rfl, hlast⟩), ?_⟩
  rw [closes, List.filterMap_append, ← closes, ← closes, hcloses, hclose]
  rfl

/-- And healthy, unless it is a `recv` that fails. -/
theorem Healthy.snoc (h : Healthy client t) (haccept : ¬ IsAccept e) (hclose : closes [e] = [])
    (hrecv : ¬ RecvFailed e) : Healthy client (t ++ [e]) := by
  obtain ⟨hclient, mid, hlast, hcloses, hmid⟩ := h
  refine ⟨hclient, mid ++ [e], lastMark_snoc_iff.mpr (Or.inr ⟨haccept, mid, rfl, hlast⟩), ?_, ?_⟩
  · rw [closes, List.filterMap_append, ← closes, ← closes, hcloses, hclose]
    rfl
  · rw [List.forall_mem_append, List.forall_mem_singleton]
    exact ⟨hmid, hrecv⟩

/-- **The `close` of an open socket is its only one.** -/
theorem Open.close (h : Open client t) (ret : Int) : ClosedOnce (t ++ [.close client ret]) := by
  obtain ⟨-, mid, hlast, hcloses⟩ := h
  intro client' mid' hlast' _
  rcases lastMark_snoc_iff.mp hlast' with ⟨haccept, -⟩ | ⟨-, init, rfl, hinit⟩
  · exact absurd haccept id
  · obtain ⟨heq, rfl⟩ := hlast.unique hinit
    cases heq
    rw [closes, List.filterMap_append, ← closes, hcloses]
    rfl

end Calls

theorem done_snoc_iff {client : Int} {t : List Event} {e : Event} :
    Done client (t ++ [e]) ↔ Finishes client e := by
  unfold Done
  rw [List.getLast?_concat]
  constructor
  · rintro ⟨e', heq, hfin⟩
    cases heq
    exact hfin
  · exact fun hfin => ⟨e, rfl, hfin⟩

/-- The end of the response loop, or a further turn of it. -/
theorem resting_whileLen {client : Int} {t : List Event} (h : Healthy client t) (data : Int)
    (len : UInt32) : Resting (whileLen client data len) t := by
  unfold whileLen
  split
  · exact h.open
  · exact h

/-- **Every way out of the loops leads to `close_client`.** -/
theorem afterRecv_of_failed {content : Content} {client : Int} {reqState : Nat} {a : Answer}
    (h : RecvFailed (.recv client a.ret a.errno)) :
    afterRecv content client reqState a = .close client := by
  unfold afterRecv
  rcases h with hzero | ⟨hneg, hagain, hintr⟩
  · rw [if_pos hzero]
  · rw [if_neg (Int.ne_of_lt hneg), if_pos hneg, if_neg (not_or.mpr ⟨hagain, hintr⟩)]

theorem afterSend_of_done {client data : Int} {len : UInt32} {a : Answer}
    (h : a.ret = -1 ∨ UInt32.ofInt a.ret = len) : afterSend client data len a = .close client := by
  unfold afterSend
  rcases h with hfail | hall
  · rw [if_pos hfail]
  · split
    · rfl
    · rw [whileLen, if_pos (by rw [hall, UInt32.sub_self])]

/-- **The step lemma for a finished connection**: the thread goes on to its `close`. -/
theorem done_step {content : Content} {s : Server} {a : Answer} {client : Int}
    (h : Done client (step content s a).trace) : (step content s a).point = .close client := by
  obtain ⟨point, t⟩ := s
  cases point with
  | accept =>
    cases done_snoc_iff.mp h
  | recv client' reqState =>
    obtain ⟨rfl, hfailed⟩ := done_snoc_iff.mp h
    exact afterRecv_of_failed hfailed
  | send client' data len =>
    obtain ⟨rfl, hdone⟩ := done_snoc_iff.mp h
    exact afterSend_of_done hdone
  | close client' =>
    cases done_snoc_iff.mp h

/-- **The step lemma**: the call that returned was one that may be made, and the thread rests where
the calls let it. -/
theorem Resting.step {s : Server} (hs : Resting s.point s.trace)
    (hdone : ∀ client, Done client s.trace → s.point = .close client) (content : Content)
    (a : Answer) :
    ∃ e, (step content s a).trace = s.trace ++ [e] ∧ LifecycleEvent s.trace e ∧
      Resting (step content s a).point (step content s a).trace := by
  obtain ⟨point, t⟩ := s
  cases point with
  | accept =>
    refine ⟨.accept a.ret, rfl, ⟨hs, fun client h => by cases hdone client h⟩, ?_⟩
    show Resting (afterAccept a) (t ++ [.accept a.ret])
    unfold afterAccept
    split
    · next hneg => exact closedOnce_accept hneg t
    · next hneg => exact healthy_accept (Int.not_lt.mp hneg) t
  | recv client reqState =>
    have hhealthy : Healthy client t := hs
    refine ⟨.recv client a.ret a.errno, rfl,
      ⟨hhealthy.open, fun client h => by cases hdone client h⟩, ?_⟩
    show Resting (afterRecv content client reqState a) (t ++ [.recv client a.ret a.errno])
    have hopen : Open client (t ++ [.recv client a.ret a.errno]) := hhealthy.open.snoc id rfl
    -- the loop goes on, or is left for the response, only behind a `recv` that did not fail
    have hgood : ¬ RecvFailed (.recv client a.ret a.errno) →
        Healthy client (t ++ [.recv client a.ret a.errno]) := hhealthy.snoc id rfl
    unfold afterRecv
    split
    · exact hopen
    · next hzero =>
      split
      · split
        · next hretry =>
          apply hgood
          rintro (h | ⟨-, hagain, hintr⟩)
          · exact hzero h
          · exact hretry.elim hagain hintr
        · exact hopen
      · next hneg =>
        have hhealthy' := hgood (by
          rintro (h | ⟨h, -⟩)
          · exact hzero h
          · exact hneg h)
        split
        · exact hhealthy'
        · exact resting_whileLen hhealthy' _ _
  | send client data len =>
    have hhealthy : Healthy client t := hs
    refine ⟨.send client data len a.ret, rfl,
      ⟨hhealthy, fun client h => by cases hdone client h⟩, ?_⟩
    show Resting (afterSend client data len a) (t ++ [.send client data len a.ret])
    have hsent : Healthy client (t ++ [.send client data len a.ret]) := hhealthy.snoc id rfl id
    unfold afterSend
    split
    · exact hsent.open
    · exact resting_whileLen hsent _ _
  | close client =>
    have hopen : Open client t := hs
    refine ⟨.close client a.ret, rfl, ⟨hopen, fun client' h => ?_⟩, hopen.close a.ret⟩
    cases hdone client' h
    exact ⟨a.ret, rfl⟩

/-- **The connection lifecycle.** Whatever the calls of any number of connections return: an
`accept` is called only when the socket accepted before has been closed, once; every `recv`, `send`
and `close` is called on the socket accepted last, which has not been closed; no `send` is called
behind a `recv` that failed; and behind the end of the stream, a `recv` that failed, a `send` that
failed or the last of the response the thread's next call is the `close` of that socket. The call
in which the thread is at the end is bound by this as those before it. -/
theorem connection_lifecycle (content : Content) (answers : List Answer) :
    let s := run content answers listening
    Always LifecycleEvent s.trace ∧ Resting s.point s.trace ∧
      ∀ client, Done client s.trace → s.point = .close client := by
  intro s
  induction answers using List.reverseRecOn with
  | nil =>
    refine ⟨always_nil _, ?_, ?_⟩
    · intro client mid hlast
      exact absurd hlast not_lastMark_nil
    · rintro client ⟨e, he, -⟩
      cases he
  | append_singleton answers a ih =>
    obtain ⟨halways, hresting, hdone⟩ := ih
    have hlast : s = step content (run content answers listening) a := List.foldl_append
    obtain ⟨e, htrace, hevent, hnext⟩ := hresting.step hdone content a
    rw [hlast]
    refine ⟨?_, hnext, fun client h => done_step h⟩
    rw [htrace, always_snoc]
    exact ⟨halways, hevent⟩

end EchoBot.SocketDumbHttp
