/-
# EchoBot.SocketDumbHttp.Response — the loop that sends `content`

`send` takes what it likes of the bytes it is offered, and the loop offers it the rest. It keeps a
pointer and a count for that, and moves both by what `send` returned: one forward, the other, which
is unsigned, down. They belong together as long as each meets the other at the end of `content`
(`Rest`), and then the count cannot underflow, no byte is sent twice, and none is left out.

The loop is the part of the accept loop that rests in `send`. Its answers are the network's, which
may look at everything that happened. `ssize_t` and `int` have the 32 bits of `size_t` here, so
`sent_len` is what `send` returned.
-/
import EchoBot.Program.While
import EchoBot.SocketDumbHttp.Connection
import EchoBot.Stream.Fill

namespace EchoBot.SocketDumbHttp

open EchoBot.Program EchoBot.Stream

/-! ## §1 — the loop. -/

/-- What a `send` of `len` bytes answers: -1, or from 1 up to `len`. -/
abbrev SendAnswer (len : UInt32) := { a : Answer // a.ret = -1 ∨ 1 ≤ a.ret ∧ a.ret ≤ len.toNat }

/-- The network: the answer of every `send`, for the calls before it. Every sequence of answers is
the one of some network. -/
abbrev Net := List Event → (len : UInt32) → SendAnswer len

/-- The condition of `while (len)`. -/
def inSend (s : Server) : Bool :=
  match s.point with
  | .send _ _ _ => true
  | _ => false

/-- A turn of the loop: the `send` returns, and what follows it. -/
def turn (content : Content) (net : Net) (s : Server) : Server :=
  match s.point with
  | .send _ _ len => step content s (net s.trace len).val
  | _ => s

/-- `data = content`, `len = sizeof(content)`, and where that leads. -/
def startResponse (content : Content) (client : Int) (t : List Event) : Server :=
  ⟨whileLen client 0 (UInt32.ofNat content.bytes.length), t⟩

/-- The loop, with fuel. -/
def responseLoop (content : Content) (net : Net) : Nat → Server → Option Server :=
  whileFuel inSend fun _ s => some (turn content net s)

/-! ## §2 — what the sends hand over. -/

/-- The bytes `send` is offered. -/
def offeredBytes (content : Content) (data : Int) (len : UInt32) : List UInt8 :=
  (content.bytes.drop data.toNat).take len.toNat

/-- The sends, as fills of the network. -/
def fills (content : Content) (t : List Event) : List (Fill UInt8) :=
  t.filterMap fun
    | .send _ data len ret => some ⟨offeredBytes content data len, ret.toNat⟩
    | _ => none

/-- The bytes the network accepted, in order. -/
def accepted (content : Content) (t : List Event) : List UInt8 := taken (fills content t)

/-- **`Rest content before data len`** — `data` and `len` are what the sends before left over. -/
structure Rest (content : Content) (before : List Event) (data : Int) (len : UInt32) : Prop where
  data_eq : data = (accepted content before).length
  data_add_len : data + len.toNat = content.bytes.length
  bytes : accepted content before ++ offeredBytes content data len = content.bytes

/-- `send` returned -1. -/
def SendFailed : Event → Prop
  | .send _ _ _ ret => ret = -1
  | _ => False

/-- What a call of the loop is: a `send` to the client of what is left. -/
def ResponseEvent (content : Content) (client : Int) (before : List Event) : Event → Prop
  | .send client' data len _ => client' = client ∧ Rest content before data len
  | _ => False

/-- **`Responded content client t s`** — the response behind the calls `t` is over. -/
structure Responded (content : Content) (client : Int) (t : List Event) (s : Server) : Prop where
  /-- The client is closed next. -/
  point : s.point = .close client
  sends : ∃ sends, s.trace = t ++ sends ∧
    Always (ResponseEvent content client) sends ∧
    accepted content sends <+: content.bytes ∧
    (accepted content sends = content.bytes ↔ ∀ e ∈ sends, ¬ SendFailed e)

/-! ## §3 — one `send`. -/

theorem fills_append (content : Content) (t u : List Event) :
    fills content (t ++ u) = fills content t ++ fills content u :=
  List.filterMap_append

/-- What one more `send` adds. -/
theorem accepted_snoc (content : Content) (t : List Event) (client data : Int) (len : UInt32)
    (ret : Int) : accepted content (t ++ [.send client data len ret]) =
      accepted content t ++ (offeredBytes content data len).take ret.toNat := by
  rw [accepted, fills_append, taken_append]
  exact congrArg (accepted content t ++ ·) (List.append_nil _)

theorem rest_start (content : Content) :
    Rest content [] 0 (UInt32.ofNat content.bytes.length) := by
  have hlen : (UInt32.ofNat content.bytes.length).toNat = content.bytes.length :=
    UInt32.toNat_ofNat_of_lt content.length_lt
  refine ⟨rfl, ?_, ?_⟩
  · rw [hlen, Int.zero_add]
  · show (content.bytes.drop 0).take _ = _
    rw [hlen, List.drop_zero, List.take_length]

/-- **The count does not underflow.** -/
theorem toNat_sub_ofInt {len : UInt32} {ret : Int} (hret : 0 ≤ ret) (hle : ret ≤ len.toNat) :
    (len - UInt32.ofInt ret).toNat = len.toNat - ret.toNat := by
  obtain ⟨n, rfl⟩ := Int.eq_ofNat_of_zero_le hret
  have hn : n ≤ len.toNat := Int.ofNat_le.mp hle
  have hlt : n < UInt32.size := Nat.lt_of_le_of_lt hn len.toNat_lt
  have hcount : (UInt32.ofInt n).toNat = n := by
    have hmod : (n : Int) % 2 ^ 32 = n := Int.emod_eq_of_lt hret (Int.ofNat_lt.mpr hlt)
    rw [UInt32.ofInt, hmod, Int.toNat_natCast]
    exact UInt32.toNat_ofNat_of_lt hlt
  rw [UInt32.toNat_sub_of_le _ _ (UInt32.le_iff_toNat_le.mpr (hcount.symm ▸ hn)), hcount,
    Int.toNat_natCast]

section Sends

variable {content : Content} {before : List Event} {data : Int} {len : UInt32}

/-- What `send` is offered has the length it is told. -/
theorem Rest.length_offeredBytes (h : Rest content before data len) :
    (offeredBytes content data len).length = len.toNat := by
  have hend := h.data_add_len
  have hbytes := congrArg List.length h.bytes
  rw [List.length_append] at hbytes
  rw [h.data_eq] at hend
  omega

/-- **What was accepted moves the pointer and the count together.** -/
theorem Rest.send (h : Rest content before data len) (client : Int) {ret : Int} (hret : 0 ≤ ret)
    (hle : ret ≤ len.toNat) :
    Rest content (before ++ [.send client data len ret]) (data + ret) (len - UInt32.ofInt ret) := by
  have hlen := toNat_sub_ofInt hret hle
  obtain ⟨n, rfl⟩ := Int.eq_ofNat_of_zero_le hret
  rw [Int.toNat_natCast] at hlen
  have hoffered := h.length_offeredBytes
  have hdata := h.data_eq
  have hend := h.data_add_len
  have haccepted : (accepted content (before ++ [.send client data len n])).length =
      (accepted content before).length + n := by
    rw [accepted_snoc, List.length_append, List.length_take, hoffered, Int.toNat_natCast,
      Nat.min_eq_left (Int.ofNat_le.mp hle)]
  refine ⟨?_, ?_, ?_⟩
  · rw [haccepted, hdata, Int.natCast_add]
  · rw [hlen]
    omega
  · have hdrop : offeredBytes content (data + n) (len - UInt32.ofInt n) =
        (offeredBytes content data len).drop n := by
      have hsum : (data + n).toNat = data.toNat + n := by omega
      rw [offeredBytes, offeredBytes, hlen, List.drop_take, List.drop_drop, hsum]
    rw [accepted_snoc, hdrop, Int.toNat_natCast, List.append_assoc, List.take_append_drop]
    exact h.bytes

/-- Nothing is left over: everything was accepted. -/
theorem Rest.done (h : Rest content before data 0) : accepted content before = content.bytes := by
  have hnil : offeredBytes content data 0 = [] := List.take_zero
  have hbytes := h.bytes
  rwa [hnil, List.append_nil] at hbytes

end Sends

/-- The sends of a response offer what is left. -/
theorem resumed_fills {content : Content} {client : Int} {sends : List Event}
    (h : Always (ResponseEvent content client) sends) :
    Resumed content.bytes (fills content sends) := by
  induction sends using List.reverseRecOn with
  | nil => exact resumed_nil _
  | append_singleton sends e ih =>
    obtain ⟨hsends, he⟩ := always_snoc.mp h
    rw [fills_append]
    cases e with
    | send client' data len ret => exact resumed_snoc.mpr ⟨ih hsends, he.2.bytes⟩
    | accept ret => exact absurd he id
    | recv client' ret errno => exact absurd he id
    | close client' ret => exact absurd he id

/-! ## §4 — the loop ends. -/

/-- **`Responding content client sends p`** — what the place where the thread rests says of the
sends made. -/
def Responding (content : Content) (client : Int) (sends : List Event) : Point → Prop
  | .send client' data len =>
    client' = client ∧ len ≠ 0 ∧ Rest content sends data len ∧ ∀ e ∈ sends, ¬ SendFailed e
  | .close client' =>
    client' = client ∧ (accepted content sends = content.bytes ↔ ∀ e ∈ sends, ¬ SendFailed e)
  | _ => False

/-- The variant of the loop. -/
def remaining : Point → Nat
  | .send _ _ len => len.toNat + 1
  | _ => 0

section Turns

variable {content : Content} {client data : Int} {len : UInt32} {sends : List Event}

theorem responding_whileLen (hrest : Rest content sends data len)
    (hgood : ∀ e ∈ sends, ¬ SendFailed e) :
    Responding content client sends (whileLen client data len) := by
  unfold whileLen
  split
  · next hzero =>
    subst hzero
    exact ⟨rfl, iff_of_true hrest.done hgood⟩
  · next hne => exact ⟨rfl, hne, hrest, hgood⟩

/-- **The step lemma**: a `send` that fails leaves something over, any other leaves less. -/
theorem Responding.send {client' : Int}
    (h : Responding content client sends (.send client' data len)) (a : SendAnswer len) :
    Responding content client (sends ++ [.send client' data len a.val.ret])
      (afterSend client' data len a.val) := by
  obtain ⟨rfl, hne, hrest, hgood⟩ := h
  unfold afterSend
  split
  · next hfailed =>
    refine ⟨rfl, iff_of_false ?_ ?_⟩
    · intro hall
      rw [accepted_snoc, hfailed, ← hrest.bytes] at hall
      have hlen := hrest.length_offeredBytes
      rw [← List.append_cancel_left hall] at hlen
      exact hne (UInt32.toNat_inj.mp hlen.symm)
    · intro hnone
      exact hnone _ (List.mem_append_right _ (List.mem_singleton.mpr rfl)) hfailed
  · next hsent =>
    obtain ⟨hpos, hle⟩ := a.property.resolve_left hsent
    apply responding_whileLen (hrest.send client' (by omega) hle)
    rw [List.forall_mem_append, List.forall_mem_singleton]
    exact ⟨hgood, hsent⟩

/-- Where the loop is left, the client is closed. -/
theorem Responding.closed {s : Server} (h : Responding content client sends s.point)
    (hexit : inSend s = false) :
    s.point = .close client ∧
      (accepted content sends = content.bytes ↔ ∀ e ∈ sends, ¬ SendFailed e) := by
  obtain ⟨point, t⟩ := s
  cases point with
  | close client' =>
    obtain ⟨rfl, hwhole⟩ := h
    exact ⟨rfl, hwhole⟩
  | send client' data len => cases hexit
  | accept => exact absurd h id
  | recv client' reqState => exact absurd h id

theorem remaining_afterSend (client data : Int) (a : SendAnswer len) :
    remaining (afterSend client data len a.val) < remaining (.send client data len) := by
  unfold afterSend
  split
  · exact Nat.succ_pos _
  · next hsent =>
    obtain ⟨hpos, hle⟩ := a.property.resolve_left hsent
    have hlen := toNat_sub_ofInt (by omega) hle
    unfold whileLen
    split
    · exact Nat.succ_pos _
    · apply Nat.succ_lt_succ
      omega

end Turns

/-- **`InResponse content client t s`** — the loop behind the calls `t`. -/
def InResponse (content : Content) (client : Int) (t : List Event) (s : Server) : Prop :=
  ∃ sends, s.trace = t ++ sends ∧ Always (ResponseEvent content client) sends ∧
    Responding content client sends s.point

theorem inResponse_start (content : Content) (client : Int) (t : List Event) :
    InResponse content client t (startResponse content client t) :=
  ⟨[], (List.append_nil t).symm, always_nil _,
    responding_whileLen (rest_start content) fun _ h => absurd h List.not_mem_nil⟩

/-- A turn is a step of the thread, keeps the invariant and lowers the variant. -/
theorem InResponse.turn {content : Content} {client : Int} {t : List Event} {s : Server}
    (h : InResponse content client t s) (hs : inSend s = true) (net : Net) :
    InResponse content client t (turn content net s) ∧
      remaining (turn content net s).point < remaining s.point ∧
      ∃ a, turn content net s = step content s a := by
  obtain ⟨point, u⟩ := s
  cases point with
  | send client' data len =>
    obtain ⟨sends, htrace, halways, hpoint⟩ := h
    change u = t ++ sends at htrace
    subst htrace
    refine ⟨⟨sends ++ [.send client' data len (net (t ++ sends) len).val.ret], ?_, ?_, ?_⟩, ?_,
      _, rfl⟩
    · exact List.append_assoc _ _ _
    · exact always_snoc.mpr ⟨halways, hpoint.1, hpoint.2.2.1⟩
    · exact hpoint.send _
    · exact remaining_afterSend client' data _
  | accept => cases hs
  | recv client' reqState => cases hs
  | close client' => cases hs

/-- **The response.** For every content and every network: the loop ends, with the client to be
closed; every `send` is offered what of the content was not accepted before, at the pointer and the
count that meet at its end; and what was accepted is a prefix of the content, and all of it exactly
when no `send` returned -1. -/
theorem response_delivered (content : Content) (net : Net) (client : Int) (t : List Event) :
    ∃ s, Returns (fun fuel => responseLoop content net fuel (startResponse content client t)) s ∧
      Responded content client t s ∧
      ∃ answers, s = run content answers (startResponse content client t) := by
  have hturn : ∀ s, (InResponse content client t s ∧
      ∃ answers, s = run content answers (startResponse content client t)) → inSend s = true →
      ∃ s₁, Returns (fun _ => some (turn content net s)) s₁ ∧
        (InResponse content client t s₁ ∧
          ∃ answers, s₁ = run content answers (startResponse content client t)) ∧
        remaining s₁.point < remaining s.point := by
    rintro s ⟨hloop, answers, hrun⟩ hs
    obtain ⟨hnext, hless, a, hstep⟩ := hloop.turn hs net
    refine ⟨_, ⟨0, fun _ _ => rfl⟩, ⟨hnext, answers ++ [a], ?_⟩, hless⟩
    rw [hstep, hrun, run, run, List.foldl_append]
    rfl
  obtain ⟨s, hreturns, ⟨⟨sends, htrace, halways, hpoint⟩, hrun⟩, hexit⟩ :=
    returns_while Nat.lt_wfRel.wf (fun s : Server => remaining s.point) hturn
      ⟨inResponse_start content client t, [], rfl⟩
  obtain ⟨hclose, hwhole⟩ := hpoint.closed hexit
  exact ⟨s, hreturns, ⟨hclose, sends, htrace, halways, (resumed_fills halways).taken_isPrefix,
    hwhole⟩, hrun⟩

end EchoBot.SocketDumbHttp
