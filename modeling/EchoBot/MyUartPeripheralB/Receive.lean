/-
# EchoBot.MyUartPeripheralB.Receive — the receive loop refines the bounded framer

The inner loop of `uart_int_handler` is the framer of `EchoBot.Stream.Framer` in an array: one byte
is one `push`, and what the push cuts off decides what the byte makes visible (`receiveByte_push`).
Nothing else on the board touches the receive side, so the refinement holds in every state of every
run (`rxInv_run`), whatever else runs in between and however the interrupts split the stream.

From it, at every buffer size: the lines delivered are the whole lines of the stream, and only an
`OK` line releases the guard, exactly when every line of the stream fits
(`delivers_whole_lines_iff`). The tail of a longer line IS delivered: the full buffer is emptied,
and nothing remembers that the rest belongs to it.
-/
import EchoBot.MyUartPeripheralB.Steps
import EchoBot.Stream.Framer
import EchoBot.Stream.History
import EchoBot.Stream.Lines

namespace EchoBot.MyUartPeripheralB

open EchoBot.Memory
open EchoBot.Stream
open EchoBot.Zephyr

variable {ρ τ : Type}

/-! ## §1 — one byte is one push. -/

theorem checkSendingGuard_iff (buf : List UInt8) (len : Nat) :
    checkSendingGuard buf len = true ↔ okPrefix <+: buf.take len := by
  rw [List.prefix_iff_eq_take, List.take_take, checkSendingGuard]
  show _ ↔ okPrefix = buf.take (min 2 len)
  by_cases hlen : len < 2
  · have hne : okPrefix ≠ buf.take (min 2 len) := by
      intro heq
      have hlength := congrArg List.length heq
      have hle := List.length_take_le (min 2 len) buf
      simp only [okPrefix, List.length_cons, List.length_nil] at hlength
      omega
    simp [hlen, hne]
  · rw [Nat.min_eq_left (Nat.not_lt.mp hlen), if_neg hlen]
    constructor
    · intro h
      split at h
      · next heq => exact heq.symm
      · cases h
    · intro h
      rw [if_pos h.symm]

/-- What a cut makes visible, apart from the sends of the callback. -/
def cutEvents : Option (Segment UInt8) → List Event
  | none => []
  | some (.full bytes) => [.discarded bytes]
  | some (.line line) =>
    (if okPrefix <+: line then [.guardReleased line] else []) ++ [.callback line]

/-- The data the callback sends at a cut, called behind the trace `t`. -/
def cutSends (cb : Callback) (t : List Event) : Option (Segment UInt8) → List (List UInt8)
  | some (.line line) => cb t line
  | _ => []

section Byte

/-- The release at the end of a line. -/
theorem releaseGuard_trace (b : Board ρ τ) :
    (releaseGuard b).trace =
      b.trace ++ (if okPrefix <+: rxLine b then [.guardReleased (rxLine b)] else []) ∧
    (releaseGuard b).rxBuf = b.rxBuf ∧ (releaseGuard b).rxDataLen = b.rxDataLen ∧
    (releaseGuard b).callback = b.callback := by
  rcases releaseGuard_cases b with ⟨hcheck, heq⟩ | ⟨hcheck, heq⟩
  · have hok : ¬ okPrefix <+: rxLine b := by
      rw [rxLine, ← checkSendingGuard_iff, hcheck]
      simp
    rw [heq, if_neg hok]
    exact ⟨by simp, rfl, rfl, rfl⟩
  · have hok : okPrefix <+: rxLine b := (checkSendingGuard_iff _ _).mp hcheck
    rw [heq, if_pos hok]
    exact ⟨rfl, rfl, rfl, rfl⟩

variable [ItemRing ρ] (cfg : Config) (stack : Stack)

/-- **The simulation step**: with a callback registered, the loop body is one `push`. -/
theorem receiveByte_push {p : Partial isTerminator cfg.rxBufSize} {b : Board ρ τ} {cb : Callback}
    (hstored : Stored 0 b.rxBuf b.rxDataLen p) (hcb : b.callback = some cb) (c : UInt8) :
    Stored 0 (receiveByte cfg stack c b).rxBuf (receiveByte cfg stack c b).rxDataLen (p.push c).1 ∧
    (receiveByte cfg stack c b).callback = some cb ∧
    ∃ (t : List Event) (calls : List SendCall),
      calls.map SendCall.data = cutSends cb t (p.push c).2 ∧
      (∀ call ∈ calls, call.Exact) ∧
      (receiveByte cfg stack c b).trace =
        b.trace ++ [.fifoRead c b.rxDataLen] ++ cutEvents (p.push c).2 ++
          calls.map .userSendData := by
  have hline : rxLine (storeByte c b) = p.bytes ++ [c] := hstored.take_set c
  cases hc : isTerminator c with
  | true =>
    rw [receiveByte_of_terminator cfg stack hc, Partial.push_of_term hc, hcb]
    obtain ⟨htrace, hbuf, hlen, hcb'⟩ := releaseGuard_trace (storeByte c b)
    have hrel : rxLine (releaseGuard (storeByte c b)) = p.bytes ++ [c] := by
      rw [rxLine, hbuf, hlen, ← rxLine, hline]
    obtain ⟨calls, hdata, hexact, hsent⟩ := sendAll_trace cfg stack
      (cb (releaseGuard (storeByte c b)).trace (p.bytes ++ [c]))
      ((releaseGuard (storeByte c b)).log (.callback (p.bytes ++ [c])))
    -- the callback runs between the release of the guard and the reset of `rx_buf`
    refine ⟨Stored.reset p, ?_, _, calls, hdata, hexact, ?_⟩
    · show (callCallback cfg stack (some cb) _).callback = some cb
      rw [callCallback, sendAll_callback, Board.log_toMyUartData, hcb']
      exact hcb
    · show (callCallback cfg stack (some cb) _).trace = _
      rw [callCallback, hrel, hsent, Board.log_trace, htrace, hline, storeByte]
      simp [cutEvents]
  | false =>
    by_cases hfull : b.rxDataLen + 1 = cfg.rxBufSize
    · rw [receiveByte_of_full cfg stack hc hfull,
        Partial.push_of_full hc (hstored.len_eq ▸ hfull), hline]
      exact ⟨Stored.reset p, hcb, [], [], rfl, by simp, by simp [resetRx, storeByte, cutEvents]⟩
    · rw [receiveByte_of_room cfg stack hc hfull]
      obtain ⟨-, hnone⟩ := Partial.push_of_room hc (hstored.len_eq ▸ hfull)
      rw [hnone]
      exact ⟨hstored.push_of_room hc hfull, hcb, [], [], rfl, by simp,
        by simp [storeByte, cutEvents]⟩

end Byte

/-! ## §2 — the refinement along a run. -/

/-- The segments of a trace: the lines delivered and the pieces discarded, in order. -/
def segments (t : List Event) : List (Segment UInt8) :=
  t.filterMap fun
    | .callback line => some (.line line)
    | .discarded bytes => some (.full bytes)
    | _ => none

@[simp] theorem segments_append (t u : List Event) : segments (t ++ u) = segments t ++ segments u :=
  List.filterMap_append

/-- The lines delivered are the segments that end with a terminator. -/
theorem delivered_eq_segments (t : List Event) :
    delivered t = (segments t).filterMap Segment.line? := by
  rw [delivered, segments, List.filterMap_filterMap]
  refine List.filterMap_congr fun e _ => ?_
  cases e <;> rfl

theorem segments_cutEvents (o : Option (Segment UInt8)) : segments (cutEvents o) = o.toList := by
  rcases o with _ | line | bytes
  · rfl
  · simp only [cutEvents, segments_append]
    split <;> rfl
  · rfl

theorem received_cutEvents (o : Option (Segment UInt8)) : received (cutEvents o) = [] := by
  rcases o with _ | line | bytes
  · rfl
  · simp only [cutEvents, received_append]
    split <;> rfl
  · rfl

theorem fifoRead_notMem_cutEvents (o : Option (Segment UInt8)) (c : UInt8) (i : Nat) :
    Event.fifoRead c i ∉ cutEvents o := by
  rcases o with _ | line | bytes
  · simp [cutEvents]
  · simp only [cutEvents]
    split <;> simp
  · simp [cutEvents]

/-- **A reading of the receive side** finds nothing in the other events. -/
theorem filterMap_of_not_isRx {α : Type} {f : Event → Option α}
    (hsend : ∀ call, f (.userSendData call) = none)
    (hfill : ∀ time buf taken, f (.fifoFill time buf taken) = none)
    (hexpired : ∀ time, f (.timerExpired time) = none) {evs : List Event}
    (hevs : ∀ e ∈ evs, e.isRx = false) : evs.filterMap f = [] := by
  refine List.filterMap_eq_nil_iff.mpr fun e he => ?_
  cases e with
  | userSendData call => exact hsend call
  | fifoFill time buf taken => exact hfill time buf taken
  | timerExpired time => exact hexpired time
  | fifoRead c index => cases hevs _ he
  | guardReleased line => cases hevs _ he
  | callback line => cases hevs _ he
  | discarded bytes => cases hevs _ he

theorem received_of_not_isRx {evs : List Event} (hevs : ∀ e ∈ evs, e.isRx = false) :
    received evs = [] := filterMap_of_not_isRx (fun _ => rfl) (fun _ _ _ => rfl) (fun _ => rfl) hevs

theorem segments_of_not_isRx {evs : List Event} (hevs : ∀ e ∈ evs, e.isRx = false) :
    segments evs = [] := filterMap_of_not_isRx (fun _ => rfl) (fun _ _ _ => rfl) (fun _ => rfl) hevs

theorem sends_not_isRx (calls : List SendCall) :
    ∀ e ∈ calls.map Event.userSendData, e.isRx = false := by
  intro e he
  obtain ⟨call, -, rfl⟩ := List.mem_map.mp he
  rfl

section Invariant

variable {cfg : Config} (hN : 0 < cfg.rxBufSize)

/-- **`RxInv hN b`** — a callback is registered, `rx_buf` holds what the framer keeps of the bytes
received so far, the trace shows the framer's segments, and no byte was stored outside `rx_buf`. -/
structure RxInv (b : Board ρ τ) : Prop where
  registered : b.callback.isSome = true
  stored : Stored 0 b.rxBuf b.rxDataLen (framed isTerminator hN (received b.trace)).1
  segments : segments b.trace = (framed isTerminator hN (received b.trace)).2
  index : ∀ c i, Event.fifoRead c i ∈ b.trace → i < cfg.rxBufSize

variable {hN} {b b' : Board ρ τ}

theorem RxInv.frame (hinv : RxInv hN b) (hframe : RxFrame b b') : RxInv hN b' := by
  obtain ⟨hbuf, hlen, hcb, evs, htrace, hevs⟩ := hframe
  have hr := received_of_not_isRx hevs
  have hs := segments_of_not_isRx hevs
  have hreceived : received b'.trace = received b.trace := by
    rw [htrace, received_append, hr, List.append_nil]
  refine ⟨hcb ▸ hinv.registered, ?_, ?_, ?_⟩
  · rw [hbuf, hlen, hreceived]
    exact hinv.stored
  · rw [hreceived, htrace, segments_append, hs, List.append_nil]
    exact hinv.segments
  · intro c i hmem
    rw [htrace, List.mem_append] at hmem
    rcases hmem with hmem | hmem
    · exact hinv.index c i hmem
    · exact absurd (hevs _ hmem) (by simp [Event.isRx])

/-- A step that does not take the callback away. -/
def Step.Registers : Step → Prop
  | .userSetCallback none => False
  | _ => True

theorem RxInv.userSetCallback {cb : Option Callback} (hcb : (Step.userSetCallback cb).Registers)
    (hinv : RxInv hN b) : RxInv hN (userSetCallback cb b) := by
  cases cb with
  | none => cases hcb
  | some cb => exact ⟨rfl, hinv.stored, hinv.segments, hinv.index⟩

variable [ItemRing ρ] {stack : Stack}

theorem RxInv.receiveByte (hinv : RxInv hN b) (c : UInt8) :
    RxInv hN (receiveByte cfg stack c b) := by
  obtain ⟨cb, hcb⟩ := Option.isSome_iff_exists.mp hinv.registered
  obtain ⟨hstored, hcb', -, calls, -, -, htrace⟩ := receiveByte_push cfg stack hinv.stored hcb c
  have hr := received_of_not_isRx (sends_not_isRx calls)
  have hs := segments_of_not_isRx (sends_not_isRx calls)
  have hreceived : received (MyUartPeripheralB.receiveByte cfg stack c b).trace =
      received b.trace ++ [c] := by
    rw [htrace, received_append, received_append, received_append, hr, received_cutEvents]
    simp [received]
  refine ⟨by rw [hcb']; rfl, ?_, ?_, ?_⟩
  · rw [hreceived, framed_snoc]
    exact hstored
  · rw [hreceived, framed_snoc, htrace, segments_append, segments_append, segments_append, hs,
      segments_cutEvents, hinv.segments]
    simp [MyUartPeripheralB.segments]
  · intro c' i hmem
    rw [htrace] at hmem
    simp only [List.mem_append, or_assoc] at hmem
    rcases hmem with hmem | hmem | hmem | hmem
    · exact hinv.index c' i hmem
    · obtain ⟨rfl, rfl⟩ : c' = c ∧ i = b.rxDataLen := by simpa using hmem
      exact hinv.stored.len_lt
    · exact absurd hmem (fifoRead_notMem_cutEvents _ c' i)
    · exact absurd (sends_not_isRx calls _ hmem) (by simp [Event.isRx])

theorem rxInv_init [OneShotTimer τ] (cb : Callback) :
    RxInv hN (userSetCallback (some cb) (init cfg) : Board ρ τ) :=
  ⟨rfl, Stored.empty 0 hN, rfl, by simp [userSetCallback, init]⟩

/-- **The receive side refines the framer in every state of every run.** -/
theorem rxInv_run [OneShotTimer τ] {steps : List (Nat × Step)}
    (hreg : ∀ s ∈ steps, s.2.Registers) (hb : RxInv hN b) : RxInv hN (run cfg stack steps b) :=
  rx_run_induction (fun _ _ hframe hb => hb.frame hframe) (fun _ _ hcb hb => hb.userSetCallback hcb)
    (fun _ c hb => hb.receiveByte c) hreg hb

end Invariant

/-! ## §3 — when the lines delivered are the lines of the stream. -/

/-- What the receive side promises of each event, given the trace before it: a delivery is the
whole line just completed, and one that fits; the guard is released by an `OK` line. -/
def WholeLineEvent (N : Nat) (before : List Event) : Event → Prop
  | .callback line => CompletedLine isTerminator (received before) line ∧ line.length ≤ N
  | .guardReleased _ =>
    ∃ line, CompletedLine isTerminator (received before) line ∧ okPrefix <+: line
  | _ => True

/-- **`WholeLines N t`** — in the trace `t` every payload of the callback is a whole line of at most
`N` bytes, so that no part of a longer line is delivered, and reception releases the guard only for
a whole line that begins with `OK`. -/
def WholeLines (N : Nat) (t : List Event) : Prop := Always (WholeLineEvent N) t

theorem wholeLines_append_of_not_isRx {N : Nat} {t evs : List Event}
    (hevs : ∀ e ∈ evs, e.isRx = false) : WholeLines N (t ++ evs) ↔ WholeLines N t := by
  refine always_append_of_trivial fun e he before => ?_
  have hrx := hevs e he
  cases e with
  | callback line => cases hrx
  | guardReleased line => cases hrx
  | fifoRead c index => trivial
  | discarded bytes => trivial
  | userSendData call => trivial
  | fifoFill time buf taken => trivial
  | timerExpired time => trivial

/-- **The step of the comparison**: a byte keeps the promise exactly when it does not complete a
line that is too long. `kept` is what is left of the open line in the buffer. -/
theorem wholeLines_push {N : Nat} {t : List Event} {p : Partial isTerminator N} {i : Nat}
    (hkept : p.bytes = leftover N (openLine isTerminator (received t))) (c : UInt8) :
    WholeLines N (t ++ [.fifoRead c i] ++ cutEvents (p.push c).2) ↔
      WholeLines N t ∧
        (isTerminator c = true → (openLine isTerminator (received t)).length < N) := by
  have hN : 0 < N := Nat.zero_lt_of_lt p.short
  have hread : WholeLines N (t ++ [.fifoRead c i]) ↔ WholeLines N t :=
    always_snoc.trans (and_iff_left trivial)
  have hbytes : received (t ++ [.fifoRead c i]) = received t ++ [c] := by simp [received]
  cases hc : isTerminator c with
  | false =>
    have hcut : ∀ e ∈ cutEvents (p.push c).2, ∀ before, WholeLineEvent N before e := by
      by_cases hfull : p.bytes.length + 1 = N
      · simp [Partial.push_of_full hc hfull, cutEvents, WholeLineEvent]
      · simp [(Partial.push_of_room hc hfull).2, cutEvents]
    rw [WholeLines, always_append_of_trivial hcut, ← WholeLines, hread]
    simp
  | true =>
    -- the piece delivered is the whole line exactly when no block was cut off it before
    have hwhole : CompletedLine isTerminator (received t ++ [c]) (p.bytes ++ [c]) ↔
        (openLine isTerminator (received t)).length < N := by
      rw [completedLine_snoc_iff, hkept, List.append_left_inj, leftover_eq_self_iff hN]
      exact and_iff_right hc
    have hshort : (p.bytes ++ [c]).length ≤ N := by
      have := p.short
      simp only [List.length_append, List.length_singleton]
      omega
    rw [Partial.push_of_term hc]
    simp only [cutEvents, true_imp_iff]
    by_cases hok : okPrefix <+: p.bytes ++ [c]
    · have hbytes' : received (t ++ [.fifoRead c i] ++ [.guardReleased (p.bytes ++ [c])]) =
          received t ++ [c] := by
        rw [received_append, hbytes]
        simp [received]
      rw [if_pos hok, ← List.append_assoc, WholeLines, always_snoc, always_snoc, ← WholeLines,
        hread]
      simp only [WholeLineEvent, hbytes, hbytes', hwhole, and_iff_left hshort]
      constructor
      · rintro ⟨⟨ht, -⟩, hlt⟩
        exact ⟨ht, hlt⟩
      · rintro ⟨ht, hlt⟩
        exact ⟨⟨ht, p.bytes ++ [c], hwhole.mpr hlt, hok⟩, hlt⟩
    · rw [if_neg hok, List.nil_append, WholeLines, always_snoc, ← WholeLines, hread]
      simp only [WholeLineEvent, hbytes, hwhole, and_iff_left hshort]

section Whole

variable {cfg : Config} {hN : 0 < cfg.rxBufSize} {b b' : Board ρ τ}

/-- The comparison, as an invariant of runs. -/
structure WholeInv (hN : 0 < cfg.rxBufSize) (b : Board ρ τ) : Prop extends RxInv hN b where
  whole : WholeLines cfg.rxBufSize b.trace ↔
    ∀ l ∈ lines isTerminator (received b.trace), l.body.length < cfg.rxBufSize

theorem WholeInv.frame (hinv : WholeInv hN b) (hframe : RxFrame b b') : WholeInv hN b' := by
  obtain ⟨-, -, -, evs, htrace, hevs⟩ := id hframe
  refine ⟨hinv.toRxInv.frame hframe, ?_⟩
  rw [htrace, wholeLines_append_of_not_isRx hevs, received_append, received_of_not_isRx hevs,
    List.append_nil]
  exact hinv.whole

theorem WholeInv.receiveByte [ItemRing ρ] {stack : Stack} (hinv : WholeInv hN b) (c : UInt8) :
    WholeInv hN (receiveByte cfg stack c b) := by
  refine ⟨hinv.toRxInv.receiveByte c, ?_⟩
  obtain ⟨cb, hcb⟩ := Option.isSome_iff_exists.mp hinv.registered
  obtain ⟨-, -, -, calls, -, -, htrace⟩ := receiveByte_push cfg stack hinv.stored hcb c
  have hkept := (framed_eq isTerminator hN (received b.trace)).1
  have hrest := received_of_not_isRx (sends_not_isRx calls)
  rw [htrace, wholeLines_append_of_not_isRx (sends_not_isRx calls), wholeLines_push hkept,
    hinv.whole, received_append, received_append, received_append, hrest, received_cutEvents,
    List.append_nil, List.append_nil]
  show _ ↔ ∀ l ∈ lines isTerminator (received b.trace ++ [c]), _
  rw [lines_snoc]
  by_cases hc : isTerminator c = true
  · simp [hc, or_imp, forall_and]
  · simp [hc]

theorem WholeInv.userSetCallback {cb : Option Callback} (hcb : (Step.userSetCallback cb).Registers)
    (hinv : WholeInv hN b) : WholeInv hN (userSetCallback cb b) :=
  ⟨hinv.toRxInv.userSetCallback hcb, hinv.whole⟩

variable [ItemRing ρ] [OneShotTimer τ]

theorem wholeInv_run {stack : Stack} {steps : List (Nat × Step)}
    (hreg : ∀ s ∈ steps, s.2.Registers) (cb : Callback) :
    WholeInv hN (run cfg stack steps (userSetCallback (some cb) (init cfg) : Board ρ τ)) := by
  refine rx_run_induction (fun _ _ hframe hb => WholeInv.frame hb hframe)
    (fun _ _ hcb hb => hb.userSetCallback hcb) (fun _ c hb => hb.receiveByte c) hreg ?_
  refine ⟨rxInv_init cb, ?_⟩
  simp [WholeLines, MyUartPeripheralB.userSetCallback, init, received]

end Whole

/-! ## §4 — the stream of a run. -/

section Stream

theorem received_foldl {α : Type*} {f : Board ρ τ → α → Board ρ τ} {bytes : α → List UInt8}
    (hf : ∀ b a, received (f b a).trace = received b.trace ++ bytes a) (as : List α)
    (b : Board ρ τ) : received (as.foldl f b).trace = received b.trace ++ as.flatMap bytes := by
  induction as generalizing b with
  | nil => simp
  | cons a as ih => rw [List.foldl_cons, ih, hf, List.flatMap_cons, List.append_assoc]

theorem RxFrame.received_eq {b b' : Board ρ τ} (h : RxFrame b b') :
    received b'.trace = received b.trace := by
  obtain ⟨evs, htrace, hevs⟩ := h.trace
  rw [htrace, received_append, received_of_not_isRx hevs, List.append_nil]

variable [ItemRing ρ] (cfg : Config) (stack : Stack)

/-- One byte in, one byte received, whatever the byte sets off. -/
theorem received_receiveByte (b : Board ρ τ) (c : UInt8) :
    received (receiveByte cfg stack c b).trace = received b.trace ++ [c] := by
  have hstore : received (storeByte c b).trace = received b.trace ++ [c] := by
    simp [storeByte, received]
  cases hc : isTerminator c with
  | true =>
    rw [receiveByte_of_terminator cfg stack hc]
    have hrelease : received (releaseGuard (storeByte c b)).trace = received b.trace ++ [c] := by
      rw [(releaseGuard_trace _).1, received_append, hstore]
      split <;> simp [received]
    show received (callCallback cfg stack b.callback (releaseGuard (storeByte c b))).trace = _
    cases b.callback with
    | none => exact hrelease
    | some cb =>
      obtain ⟨calls, -, -, htrace⟩ := sendAll_trace cfg stack
        (cb (releaseGuard (storeByte c b)).trace (rxLine (releaseGuard (storeByte c b))))
        ((releaseGuard (storeByte c b)).log (.callback (rxLine (releaseGuard (storeByte c b)))))
      rw [callCallback, htrace, received_append, received_sends, Board.log_trace, received_append,
        hrelease]
      simp [received]
  | false =>
    by_cases hfull : b.rxDataLen + 1 = cfg.rxBufSize
    · rw [receiveByte_of_full cfg stack hc hfull]
      show received ((storeByte c b).trace ++ [_]) = _
      rw [received_append, hstore]
      simp [received]
    · rw [receiveByte_of_room cfg stack hc hfull, hstore]

variable [OneShotTimer τ]

/-- **The bytes read in a run are its stream**, however the interrupts split it. -/
theorem received_run (steps : List (Nat × Step)) (b : Board ρ τ) :
    received (run cfg stack steps b).trace = received b.trace ++ rxStream steps := by
  have hpass : ∀ (b : Board ρ τ) (p : Pass),
      received (handlerPass cfg stack p b).trace = received b.trace ++ p.rx := by
    intro b p
    have hrx := received_foldl (fun b c => received_receiveByte cfg stack b c) p.rx b
    rw [List.flatMap_singleton'] at hrx
    unfold handlerPass
    cases p.txReady with
    | none => exact hrx
    | some room => exact ((transmit_rxFrame cfg stack room _).received_eq).trans hrx
  refine received_foldl (fun b s => ?_) steps b
  unfold step
  cases s.2 with
  | userSendData data =>
    simpa [Step.rx] using (userSendData_rxFrame cfg stack data { b with now := s.1 }).received_eq
  | userSetCallback callback => simp [Step.rx, userSetCallback]
  | uartInterrupt passes => exact received_foldl hpass passes { b with now := s.1 }
  | timerInterrupt =>
    simpa [Step.rx] using (timerInterrupt_rxFrame { b with now := s.1 }).received_eq

end Stream

/-! ## §5 — the lines of a stream, delivered. -/

section Lines

variable [ItemRing ρ] [OneShotTimer τ]

/-- **The lines delivered are whole lines exactly when every line fits.** For every buffer size,
every callback and every run: each payload is a whole line, no part of a longer line is delivered,
and only an `OK` line releases the guard, if and only if no terminated line of the stream is longer
than the buffer. -/
theorem delivers_whole_lines_iff (cfg : Config) (stack : Stack) (cb : Callback)
    (steps : List (Nat × Step)) (hN : 1 ≤ cfg.rxBufSize) (hreg : ∀ s ∈ steps, s.2.Registers) :
    WholeLines cfg.rxBufSize
        (run cfg stack steps (userSetCallback (some cb) (init cfg) : Board ρ τ)).trace ↔
      ∀ l ∈ lines isTerminator (rxStream steps), l.bytes.length ≤ cfg.rxBufSize := by
  have hinv : WholeInv hN
      (run cfg stack steps (userSetCallback (some cb) (init cfg) : Board ρ τ)) :=
    wholeInv_run hreg cb
  have hstream : received (userSetCallback (some cb) (init cfg) : Board ρ τ).trace = [] := rfl
  rw [hinv.whole, received_run, hstream, List.nil_append]
  simp only [Line.length_bytes, Nat.succ_le_iff]

/-- Two short lines, split over two interrupts. -/
theorem delivers_whole_lines_iff_short :
    WholeLines 4
        (run { rxBufSize := 4 } (fun _ _ => 0)
          [(0, .uartInterrupt [⟨[0x61, 0x62], none⟩]), (1, .uartInterrupt [⟨[10, 0x63, 13], none⟩])]
          (userSetCallback (some appCallback) (init { rxBufSize := 4 }) :
            Board WordRing DeadlineTimer)).trace ↔
      ∀ l ∈ lines isTerminator [0x61, 0x62, 10, 0x63, 13], l.bytes.length ≤ 4 :=
  delivers_whole_lines_iff { rxBufSize := 4 } (fun _ _ => 0) appCallback
    [(0, .uartInterrupt [⟨[0x61, 0x62], none⟩]), (1, .uartInterrupt [⟨[10, 0x63, 13], none⟩])]
    (by decide) (by simp [Step.Registers])

/-- A line of 64 letters and `OK`: while a message waits for its answer, the first 64 bytes are
dropped, and the tail `OK` is delivered as a line and releases the guard. -/
def longLineSteps : List (Nat × Step) :=
  [(0, .userSendData [0x68, 0x69]), (1, .uartInterrupt [⟨[], some 64⟩]),
    (2, .uartInterrupt [⟨List.replicate 64 0x61 ++ [0x4F, 0x4B, 10], none⟩])]

theorem tail_of_long_line_delivered :
    ¬ WholeLines Config.default.rxBufSize
        (run .default (fun _ _ => 0) longLineSteps (userSetCallback (some appCallback)
          (init .default) : Board WordRing DeadlineTimer)).trace ∧
      Event.guardReleased [0x4F, 0x4B, 10] ∈
        (run .default (fun _ _ => 0) longLineSteps (userSetCallback (some appCallback)
          (init .default) : Board WordRing DeadlineTimer)).trace := by
  have hN : 0 < Config.default.rxBufSize := by decide
  constructor
  · have hinv : WholeInv hN (run .default (fun _ _ => 0) longLineSteps
        (userSetCallback (some appCallback) (init .default) : Board WordRing DeadlineTimer)) :=
      wholeInv_run (by simp [longLineSteps, Step.Registers]) appCallback
    rw [hinv.whole, received_run]
    decide +kernel
  · decide +kernel

end Lines

end EchoBot.MyUartPeripheralB
