/-
# EchoBot.SocketDumbHttp.Service — what a client gets for what it sends

The request detector and the response loop are parts of one accept loop. Here they are put together
over whole runs: at every moment, the calls on the socket accepted last (`calls`, which keep the
bytes that the trace leaves out) are a request, then a response. No byte of `content` goes out
before the client has sent a blank line, no byte of the request is read behind the one that ended
it, and what has gone out is a prefix of `content`. When the socket is closed, all of it has gone
out exactly if the request was seen to its end and no `send` failed.
-/
import EchoBot.SocketDumbHttp.Response

namespace EchoBot.SocketDumbHttp

open EchoBot.Stream

/-! ## §1 — the thread and its calls. -/

/-- What the calls that set up the listening socket return. -/
structure Setup where
  socket : Int
  bind : Int
  listen : Int

/-- `thread_socket_dumb_http`; `none` is the `exit` of a `CHECK`. -/
def threadSocketDumbHttp (content : Content) (setup : Setup) (answers : List Answer) :
    Option Server :=
  if setup.socket = -1 then none
  else if setup.bind = -1 then none
  else if setup.listen = -1 then none
  else some (run content answers listening)

/-- A call that returned: the place where the thread rested in it, and its answer. -/
structure Call where
  point : Point
  answer : Answer
  deriving DecidableEq, Repr

/-- The calls of a run. -/
def calls (content : Content) : List Answer → Server → List Call
  | [], _ => []
  | a :: answers, s => ⟨s.point, a⟩ :: calls content answers (step content s a)

/-- What a call leaves in the trace. -/
def Call.event (call : Call) : Event :=
  match call.point with
  | .accept => .accept call.answer.ret
  | .recv client _ => .recv client call.answer.ret call.answer.errno
  | .send client data len => .send client data len call.answer.ret
  | .close client => .close client call.answer.ret

/-- The byte a call received. -/
def Call.byte? (call : Call) : Option UInt8 :=
  match call.point with
  | .recv _ _ => if 0 < call.answer.ret then some call.answer.c else none
  | _ => none

/-- The bytes some calls received. -/
def requestBytes (mid : List Call) : List UInt8 := mid.filterMap Call.byte?

/-- The trace of some calls. -/
def events (mid : List Call) : List Event := mid.map Call.event

/-- A call of `accept`. -/
def Call.IsAccept (call : Call) : Prop := call.point = .accept

/-- `send` returns -1, or from 1 up to what it is offered. -/
def Call.Obliging (call : Call) : Prop :=
  match call.point with
  | .send _ _ len => call.answer.ret = -1 ∨ 1 ≤ call.answer.ret ∧ call.answer.ret ≤ len.toNat
  | _ => True

instance : (call : Call) → Decidable call.Obliging
  | ⟨.accept, _⟩ => isTrue trivial
  | ⟨.recv _ _, _⟩ => isTrue trivial
  | ⟨.send _ _ len, a⟩ =>
    inferInstanceAs (Decidable (a.ret = -1 ∨ 1 ≤ a.ret ∧ a.ret ≤ len.toNat))
  | ⟨.close _, _⟩ => isTrue trivial

/-- A `send`. -/
def IsSend : Event → Prop
  | .send _ _ _ _ => True
  | _ => False

/-- **`Served content mid p`** — what a client whose calls are `mid` has got, when the thread rests
in `p`. -/
structure Served (content : Content) (mid : List Call) (p : Point) : Prop where
  /-- A response is given for a request that has been seen to its end, and read no further. -/
  asked : (∃ e ∈ events mid, IsSend e) → First (fun s => scan s = none) (requestBytes mid)
  /-- Which has a blank line in it. -/
  blank : (∃ e ∈ events mid, IsSend e) → blankLine <:+ requestBytes mid
  isPrefix : accepted content (events mid) <+: content.bytes
  /-- The client has been closed. -/
  whole : p = .accept → (accepted content (events mid) = content.bytes ↔
    scan (requestBytes mid) = none ∧ ∀ e ∈ events mid, ¬ SendFailed e)

/-! ## §2 — one call more. -/

theorem calls_snoc (content : Content) (answers : List Answer) (a : Answer) (s : Server) :
    calls content (answers ++ [a]) s =
      calls content answers s ++ [⟨(run content answers s).point, a⟩] := by
  induction answers generalizing s with
  | nil => rfl
  | cons a' answers ih =>
    rw [List.cons_append, calls, ih, calls]
    rfl

theorem run_snoc (content : Content) (answers : List Answer) (a : Answer) (s : Server) :
    run content (answers ++ [a]) s = step content (run content answers s) a := by
  rw [run, List.foldl_append]
  rfl

theorem step_trace (content : Content) (s : Server) (a : Answer) :
    (step content s a).trace = s.trace ++ [Call.event ⟨s.point, a⟩] := by
  obtain ⟨point, t⟩ := s
  cases point <;> rfl

/-- The calls tell the trace. -/
theorem run_trace (content : Content) (answers : List Answer) (s : Server) :
    (run content answers s).trace = s.trace ++ events (calls content answers s) := by
  induction answers using List.reverseRecOn with
  | nil => exact (List.append_nil _).symm
  | append_singleton answers a ih =>
    rw [run_snoc, step_trace, ih, calls_snoc, events, events, List.map_append, List.append_assoc]
    rfl

theorem events_snoc (mid : List Call) (call : Call) :
    events (mid ++ [call]) = events mid ++ [call.event] := by
  rw [events, List.map_append]
  rfl

/-- A matched request stays matched. -/
theorem scan_eq_none_of_isPrefix {u s : List UInt8} (hu : u <+: s) (hscan : scan u = none) :
    scan s = none := by
  obtain ⟨r, rfl⟩ := hu
  induction r using List.reverseRecOn with
  | nil => rwa [List.append_nil]
  | append_singleton r c ih => rw [← List.append_assoc, scan_snoc, ih, Option.bind_none]

/-- The byte that ends the matcher is the first to do so. -/
theorem first_scan_snoc {s : List UInt8} {q : Nat} {c : UInt8} (hs : scan s = some q)
    (hc : nextState q c = none) : First (fun s => scan s = none) (s ++ [c]) := by
  refine ⟨?_, fun u hu hscan => ?_⟩
  · show scan (s ++ [c]) = none
    rw [scan_snoc, hs]
    exact hc
  · rcases List.prefix_concat_iff.mp hu with rfl | hu
    · rfl
    · rw [scan_eq_none_of_isPrefix hu hscan] at hs
      cases hs

/-! ## §3 — request, response, end. -/

/-- **`Matched mid`** — the request ends with the bytes received last. -/
structure Matched (mid : List Call) : Prop where
  first : First (fun s => scan s = none) (requestBytes mid)
  blank : blankLine <:+ requestBytes mid

/-- **`Over content mid`** — the client gets no more: the request broke off, or the response is
through. -/
def Over (content : Content) (mid : List Call) : Prop :=
  (scan (requestBytes mid) ≠ none ∧ ∀ e ∈ events mid, ¬ IsSend e) ∨
    (Matched mid ∧ accepted content (events mid) <+: content.bytes ∧
      (accepted content (events mid) = content.bytes ↔ ∀ e ∈ events mid, ¬ SendFailed e))

/-- **`Serving content client mid p`** — what the place where the thread rests says of the calls on
the client. -/
def Serving (content : Content) (client : Int) (mid : List Call) : Point → Prop
  | .accept => Over content mid
  | .recv client' q =>
    client' = client ∧ scan (requestBytes mid) = some q ∧ ∀ e ∈ events mid, ¬ IsSend e
  | .send client' data len =>
    Matched mid ∧ Responding content client (events mid) (.send client' data len)
  | .close _ => Over content mid

section Quiet

variable {content : Content} {mid : List Call} {call : Call}

/-- A call that receives nothing. -/
theorem requestBytes_snoc_none (h : call.byte? = none) :
    requestBytes (mid ++ [call]) = requestBytes mid := by
  rw [requestBytes, List.filterMap_append, List.filterMap_cons_none h]
  exact List.append_nil _

theorem requestBytes_snoc_some {c : UInt8} (h : call.byte? = some c) :
    requestBytes (mid ++ [call]) = requestBytes mid ++ [c] := by
  rw [requestBytes, List.filterMap_append, List.filterMap_cons_some h]
  rfl

/-- A call that is no `send` moves nothing. -/
theorem accepted_snoc_of_not_send (h : ¬ IsSend call.event) :
    accepted content (events (mid ++ [call])) = accepted content (events mid) := by
  rw [events_snoc, accepted, fills_append, accepted]
  cases hevent : call.event with
  | send client data len ret => exact absurd (hevent ▸ trivial) h
  | accept ret => exact congrArg Stream.taken (List.append_nil _)
  | recv client ret errno => exact congrArg Stream.taken (List.append_nil _)
  | close client ret => exact congrArg Stream.taken (List.append_nil _)

theorem not_sendFailed_of_not_isSend {e : Event} (h : ¬ IsSend e) : ¬ SendFailed e := by
  cases e with
  | send client data len ret => exact absurd trivial h
  | accept ret => exact id
  | recv client ret errno => exact id
  | close client ret => exact id

theorem forall_events_snoc {P : Event → Prop} (hmid : ∀ e ∈ events mid, P e)
    (hcall : P call.event) : ∀ e ∈ events (mid ++ [call]), P e := by
  rw [events_snoc, List.forall_mem_append, List.forall_mem_singleton]
  exact ⟨hmid, hcall⟩

/-- Nothing has been sent before the first `send`. -/
theorem accepted_eq_nil (h : ∀ e ∈ events mid, ¬ IsSend e) :
    accepted content (events mid) = [] := by
  induction mid using List.reverseRecOn with
  | nil => rfl
  | append_singleton mid call ih =>
    rw [events_snoc, List.forall_mem_append, List.forall_mem_singleton] at h
    rw [accepted_snoc_of_not_send h.2, ih h.1]

/-- The `close` changes nothing. -/
theorem Over.snoc (h : Over content mid) (hbyte : call.byte? = none)
    (hsend : ¬ IsSend call.event) : Over content (mid ++ [call]) := by
  rcases h with ⟨hscan, hnone⟩ | ⟨⟨hfirst, hblank⟩, htaken, hwhole⟩
  · refine Or.inl ⟨?_, forall_events_snoc hnone hsend⟩
    rwa [requestBytes_snoc_none hbyte]
  · refine Or.inr ⟨⟨?_, ?_⟩, ?_, ?_⟩
    · rwa [requestBytes_snoc_none hbyte]
    · rwa [requestBytes_snoc_none hbyte]
    · rwa [accepted_snoc_of_not_send hsend]
    · rw [accepted_snoc_of_not_send hsend, hwhole]
      constructor
      · exact fun hgood => forall_events_snoc hgood (not_sendFailed_of_not_isSend hsend)
      · intro hgood e he
        apply hgood
        rw [events_snoc]
        exact List.mem_append_left _ he

end Quiet

/-- Behind a request, the response loop says what is served. -/
theorem serving_of_responding {content : Content} {client : Int} {mid : List Call} {p : Point}
    (hmatched : Matched mid) (htaken : accepted content (events mid) <+: content.bytes)
    (h : Responding content client (events mid) p) : Serving content client mid p := by
  cases p with
  | send client' data len => exact ⟨hmatched, h⟩
  | close client' => exact Or.inr ⟨hmatched, htaken, h.2⟩
  | accept => exact absurd h id
  | recv client' q => exact absurd h id

/-- What is left over depends on what was accepted. -/
theorem Rest.of_accepted_eq {content : Content} {before before' : List Event} {data : Int}
    {len : UInt32} (h : Rest content before data len)
    (heq : accepted content before' = accepted content before) :
    Rest content before' data len :=
  ⟨heq ▸ h.data_eq, h.data_add_len, heq ▸ h.bytes⟩

/-- A `send` that takes a part of what is left takes it from the front. -/
theorem Rest.isPrefix_send {content : Content} {before : List Event} {data : Int} {len : UInt32}
    (h : Rest content before data len) (client ret : Int) :
    accepted content (before ++ [.send client data len ret]) <+: content.bytes := by
  rw [accepted_snoc, ← h.bytes, List.prefix_append_right_inj]
  exact List.take_prefix _ _

/-- **The step lemma for `recv`**: a byte moves the matcher on, or ends the request. -/
theorem serving_recv {content : Content} {client client' : Int} {mid : List Call} {q : Nat}
    (h : Serving content client mid (.recv client' q)) (a : Answer) :
    Serving content client (mid ++ [⟨.recv client' q, a⟩]) (afterRecv content client' q a) := by
  obtain ⟨rfl, hscan, hnone⟩ := h
  have hnone' : ∀ e ∈ events (mid ++ [⟨.recv client' q, a⟩]), ¬ IsSend e :=
    forall_events_snoc hnone id
  have hbyte : Call.byte? ⟨.recv client' q, a⟩ = if 0 < a.ret then some a.c else none := rfl
  -- without a byte the matcher stays where it is
  have hstays : ¬ 0 < a.ret → scan (requestBytes (mid ++ [⟨.recv client' q, a⟩])) = some q := by
    intro hret
    rw [if_neg hret] at hbyte
    rwa [requestBytes_snoc_none hbyte]
  have hover : ¬ 0 < a.ret → Over content (mid ++ [⟨.recv client' q, a⟩]) := by
    intro hret
    refine Or.inl ⟨?_, hnone'⟩
    rw [hstays hret]
    exact Option.some_ne_none q
  unfold afterRecv
  split
  · next hzero => exact hover (by omega)
  · next hzero =>
    split
    · next hneg =>
      split
      · exact ⟨rfl, hstays (by omega), hnone'⟩
      · exact hover (by omega)
    · next hneg =>
      rw [if_pos (by omega)] at hbyte
      have hbytes := @requestBytes_snoc_some mid _ _ hbyte
      split
      · next q' hnext =>
        refine ⟨rfl, ?_, hnone'⟩
        rw [hbytes, scan_snoc, hscan]
        exact hnext
      · next hnext =>
        have hnil := @accepted_eq_nil content _ hnone'
        apply serving_of_responding
        · refine ⟨?_, ?_⟩
          · rw [hbytes]
            exact first_scan_snoc hscan hnext
          · rw [hbytes]
            exact blankLine_of_nextState (scanned_of_scan hscan) hnext
        · rw [hnil]
          exact List.nil_prefix
        · apply responding_whileLen ((rest_start content).of_accepted_eq hnil)
          exact fun e he => not_sendFailed_of_not_isSend (hnone' e he)

/-- **The step lemma for `send`.** -/
theorem serving_send {content : Content} {client client' data : Int} {len : UInt32}
    {mid : List Call} (h : Serving content client mid (.send client' data len))
    (a : SendAnswer len) :
    Serving content client (mid ++ [⟨.send client' data len, a.val⟩])
      (afterSend client' data len a.val) := by
  obtain ⟨⟨hfirst, hblank⟩, hresponding⟩ := h
  have hbyte : Call.byte? ⟨.send client' data len, a.val⟩ = none := rfl
  have hrest : Rest content (events mid) data len := hresponding.2.2.1
  apply serving_of_responding
  · refine ⟨?_, ?_⟩
    · rwa [requestBytes_snoc_none hbyte]
    · rwa [requestBytes_snoc_none hbyte]
  · rw [events_snoc]
    exact hrest.isPrefix_send client' a.val.ret
  · rw [events_snoc]
    exact hresponding.send a

/-! ## §4 — every run. -/

/-- **The run lemma**: every connection is served. -/
theorem serving_run (content : Content) (answers : List Answer)
    (hanswers : ∀ call ∈ calls content answers listening, call.Obliging) {a : Answer}
    {mid : List Call}
    (hlast : LastMark Call.IsAccept (calls content answers listening) ⟨.accept, a⟩ mid)
    (hret : 0 ≤ a.ret) :
    Serving content a.ret mid (run content answers listening).point := by
  induction answers using List.reverseRecOn generalizing a mid with
  | nil => exact absurd hlast not_lastMark_nil
  | append_singleton answers a' ih =>
    rw [calls_snoc] at hlast hanswers
    rw [List.forall_mem_append, List.forall_mem_singleton] at hanswers
    rw [run_snoc]
    generalize run content answers listening = s at *
    obtain ⟨point, t⟩ := s
    rcases lastMark_snoc_iff.mp hlast with ⟨haccept, heq, rfl⟩ | ⟨haccept, init, rfl, hinit⟩
    · cases heq
      show Serving content a'.ret [] (afterAccept a')
      rw [afterAccept, if_neg (Int.not_lt.mpr hret)]
      exact ⟨rfl, rfl, fun e he => absurd he List.not_mem_nil⟩
    · have hserving := ih hanswers.1 hinit hret
      cases point with
      | accept => exact absurd rfl haccept
      | recv client q => exact serving_recv hserving a'
      | send client data len => exact serving_send hserving ⟨a', hanswers.2⟩
      | close client =>
        have hover : Over content init := hserving
        exact hover.snoc rfl id

section Connection

variable {content : Content} {client : Int} {mid : List Call} {p : Point}

theorem Over.matched (h : Over content mid) (hsend : ∃ e ∈ events mid, IsSend e) : Matched mid := by
  rcases h with ⟨-, hnone⟩ | ⟨hmatched, -⟩
  · obtain ⟨e, he, hsend⟩ := hsend
    exact absurd hsend (hnone e he)
  · exact hmatched

theorem Over.isPrefix (h : Over content mid) : accepted content (events mid) <+: content.bytes := by
  rcases h with ⟨-, hnone⟩ | ⟨-, htaken, -⟩
  · rw [accepted_eq_nil hnone]
    exact List.nil_prefix
  · exact htaken

/-- The response is whole when the request was, and nothing failed. -/
theorem Over.whole (h : Over content mid) (hcontent : content.bytes ≠ []) :
    accepted content (events mid) = content.bytes ↔
      scan (requestBytes mid) = none ∧ ∀ e ∈ events mid, ¬ SendFailed e := by
  rcases h with ⟨hscan, hnone⟩ | ⟨hmatched, -, hwhole⟩
  · rw [accepted_eq_nil hnone]
    exact iff_of_false hcontent.symm fun h => hscan h.1
  · rw [hwhole, and_iff_right hmatched.first.1]

theorem Serving.matched (h : Serving content client mid p) (hsend : ∃ e ∈ events mid, IsSend e) :
    Matched mid := by
  cases p with
  | accept => exact Over.matched h hsend
  | recv client' q =>
    obtain ⟨e, he, hsend⟩ := hsend
    exact absurd hsend (h.2.2 e he)
  | send client' data len => exact h.1
  | close client' => exact Over.matched h hsend

theorem Serving.isPrefix (h : Serving content client mid p) :
    accepted content (events mid) <+: content.bytes := by
  cases p with
  | accept => exact Over.isPrefix h
  | recv client' q =>
    rw [accepted_eq_nil h.2.2]
    exact List.nil_prefix
  | send client' data len =>
    have hrest : Rest content (events mid) data len := h.2.2.2.1
    exact ⟨_, hrest.bytes⟩
  | close client' => exact Over.isPrefix h

/-- **A connection that is served is served as it should be.** -/
theorem Serving.served (h : Serving content client mid p) (hcontent : content.bytes ≠ []) :
    Served content mid p := by
  refine ⟨fun hsend => (h.matched hsend).first, fun hsend => (h.matched hsend).blank,
    h.isPrefix, ?_⟩
  rintro rfl
  exact Over.whole h hcontent

end Connection

/-- **What a client gets for what it sends.** At every moment of every run, whatever the calls of
any number of connections return, for the client accepted last: nothing goes out before a request
has been seen to its end, which has a blank line, and of which no byte behind that end is read; what
has gone out is a prefix of the content; and once the client is closed, it is the whole content
exactly if the request was seen to its end and no `send` failed. -/
theorem clients_are_served (content : Content) (hcontent : content.bytes ≠ []) (setup : Setup)
    (answers : List Answer) (hanswers : ∀ call ∈ calls content answers listening, call.Obliging)
    {s : Server} (hs : threadSocketDumbHttp content setup answers = some s) :
    s.trace = events (calls content answers listening) ∧
      ∀ a mid, LastMark Call.IsAccept (calls content answers listening) ⟨.accept, a⟩ mid →
        0 ≤ a.ret → Served content mid s.point := by
  have hrun : s = run content answers listening := by
    unfold threadSocketDumbHttp at hs
    split_ifs at hs
    cases hs
    rfl
  subst hrun
  refine ⟨run_trace content answers listening, fun a mid hlast hret => ?_⟩
  exact (serving_run content answers hanswers hlast hret).served hcontent

/-- A client that asks, and gets a response of one byte. -/
theorem clients_are_served_byte :
    Served ⟨[65], by decide⟩
      [⟨.recv 4 0, ⟨1, .other, 13⟩⟩, ⟨.recv 4 1, ⟨1, .other, 10⟩⟩, ⟨.recv 4 2, ⟨1, .other, 13⟩⟩,
        ⟨.recv 4 3, ⟨1, .other, 10⟩⟩, ⟨.send 4 0 1, ⟨1, .other, 0⟩⟩, ⟨.close 4, ⟨0, .other, 0⟩⟩]
      .accept := by
  have hserved := clients_are_served ⟨[65], by decide⟩ (by decide) ⟨3, 0, 0⟩
    [⟨4, .other, 0⟩, ⟨1, .other, 13⟩, ⟨1, .other, 10⟩, ⟨1, .other, 13⟩, ⟨1, .other, 10⟩,
      ⟨1, .other, 0⟩, ⟨0, .other, 0⟩] (by decide) rfl
  exact hserved.2 ⟨4, .other, 0⟩ _ ⟨[], rfl, rfl, by simp [Call.IsAccept]⟩ (by decide)

end EchoBot.SocketDumbHttp
