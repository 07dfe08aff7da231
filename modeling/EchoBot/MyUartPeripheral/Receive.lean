/-
# EchoBot.MyUartPeripheral.Receive — the receive loop refines the bounded framer

The loop of `uart_int_handler` is the framer of `EchoBot.Stream.Framer` at the terminator NUL, and
here BOTH kinds of segment reach the callback: a string with `is_string`, a full buffer without
(`receiveByte_push`). The API calls in between, the ones a callback makes included, leave the
receive side alone (`runSetters_frame`), so the refinement holds in every state of every run in
which a callback stays registered (`rxInv_run`).
-/
import EchoBot.MyUartPeripheral.Driver
import EchoBot.Stream.Framer

namespace EchoBot.MyUartPeripheral

open EchoBot.Stream

variable {κ υ : Type}

/-! ## §1 — logging, and the readings of a longer trace. -/

namespace Board

variable (b : Board κ υ) (e : Event κ υ)

@[simp] theorem log_trace : (b.log e).trace = b.trace ++ [e] := rfl
@[simp] theorem log_toMyUartData : (b.log e).toMyUartData = b.toMyUartData := rfl

end Board

@[simp] theorem received_append (t u : List (Event κ υ)) :
    received (t ++ u) = received t ++ received u := List.filterMap_append

@[simp] theorem wire_append (t u : List (Event κ υ)) : wire (t ++ u) = wire t ++ wire u :=
  List.filterMap_append

/-- The segments of a trace: what the callback was called with, as the framer's segments. -/
def segments (t : List (Event κ υ)) : List (Segment UInt8) :=
  t.filterMap fun
    | .callback _ data true _ => some (.line data)
    | .callback _ data false _ => some (.full data)
    | _ => none

@[simp] theorem segments_append (t u : List (Event κ υ)) :
    segments (t ++ u) = segments t ++ segments u := List.filterMap_append

/-- A call of the callback, as the framer sees it. -/
def callOf : Segment UInt8 → List UInt8 × Bool
  | .line data => (data, true)
  | .full data => (data, false)

/-- The segments are the calls of the callback, one each. -/
theorem calls_eq_segments (t : List (Event κ υ)) : calls t = (segments t).map callOf := by
  rw [calls, segments, List.map_filterMap]
  refine List.filterMap_congr fun e _ => ?_
  cases e with
  | callback cb data isString userData => cases isString <;> rfl
  | pollIn c index => rfl
  | pollOut c => rfl
  | assertFailed => rfl
  | strOverread => rfl

/-- An event of the receive side. -/
def Event.isRx : Event κ υ → Bool
  | .pollIn _ _ => true
  | .callback _ _ _ _ => true
  | _ => false

/-- **A reading of the receive side** finds nothing in the other events. -/
theorem filterMap_of_not_isRx {α : Type} {f : Event κ υ → Option α}
    (hout : ∀ c, f (.pollOut c) = none) (hassert : f .assertFailed = none)
    (hover : f .strOverread = none) {evs : List (Event κ υ)}
    (hevs : ∀ e ∈ evs, e.isRx = false) : evs.filterMap f = [] := by
  refine List.filterMap_eq_nil_iff.mpr fun e he => ?_
  cases e with
  | pollOut c => exact hout c
  | assertFailed => exact hassert
  | strOverread => exact hover
  | pollIn c index => cases hevs _ he
  | callback cb data isString userData => cases hevs _ he

theorem received_of_not_isRx {evs : List (Event κ υ)} (hevs : ∀ e ∈ evs, e.isRx = false) :
    received evs = [] := filterMap_of_not_isRx (fun _ => rfl) rfl rfl hevs

theorem segments_of_not_isRx {evs : List (Event κ υ)} (hevs : ∀ e ∈ evs, e.isRx = false) :
    segments evs = [] := filterMap_of_not_isRx (fun _ => rfl) rfl rfl hevs

/-! ## §2 — what leaves the receive side alone. -/

/-- **`RxFrame b b'`** — from `b` to `b'` the receive side stays as it is. -/
structure RxFrame (b b' : Board κ υ) : Prop where
  rxBuf : b'.rxBuf = b.rxBuf
  rxDataLen : b'.rxDataLen = b.rxDataLen
  trace : ∃ evs, b'.trace = b.trace ++ evs ∧ ∀ e ∈ evs, e.isRx = false

theorem RxFrame.refl (b : Board κ υ) : RxFrame b b := ⟨rfl, rfl, [], by simp, by simp⟩

theorem RxFrame.trans {b b' b'' : Board κ υ} (h : RxFrame b b') (h' : RxFrame b' b'') :
    RxFrame b b'' := by
  obtain ⟨evs, htrace, hevs⟩ := h.trace
  obtain ⟨evs', htrace', hevs'⟩ := h'.trace
  refine ⟨h'.rxBuf.trans h.rxBuf, h'.rxDataLen.trans h.rxDataLen, evs ++ evs', ?_, ?_⟩
  · rw [htrace', htrace, List.append_assoc]
  · intro e he
    rcases List.mem_append.mp he with he | he
    · exact hevs e he
    · exact hevs' e he

theorem RxFrame.of_log (b : Board κ υ) {e : Event κ υ} (he : e.isRx = false) :
    RxFrame b (b.log e) := ⟨rfl, rfl, [e], rfl, by simpa using he⟩

theorem RxFrame.foldl {α : Type} {f : Board κ υ → α → Board κ υ}
    (hf : ∀ b x, RxFrame b (f b x)) (xs : List α) (b : Board κ υ) :
    RxFrame b (xs.foldl f b) := by
  induction xs generalizing b with
  | nil => exact .refl b
  | cons x xs ih => exact (hf b x).trans (ih (f b x))

variable (cfg : Config) (app : App κ υ)

theorem runSetter_frame (b : Board κ υ) (s : Setter κ υ) : RxFrame b (runSetter cfg s b) := by
  cases s with
  | setString string =>
    show RxFrame b (userSetString cfg string b)
    unfold userSetString
    split
    · have hstore : ∀ (b : Board κ υ) (s : Nat × UInt8), RxFrame b (storeStr b s) :=
        fun b s => ⟨rfl, rfl, [], (List.append_nil _).symm, by simp⟩
      exact .foldl hstore _ b
    · exact .of_log b rfl
  | setCallback callback userData => exact ⟨rfl, rfl, [], (List.append_nil _).symm, by simp⟩

theorem transmitString_frame (b : Board κ υ) : RxFrame b (transmitString b) := by
  unfold transmitString
  split
  · exact .of_log b rfl
  · exact (RxFrame.foldl (fun b c => .of_log b rfl) _ b).trans (.of_log _ rfl)

/-- A call that does not take the callback away. -/
def Setter.Registers : Setter κ υ → Prop
  | .setCallback none _ => False
  | _ => True

/-- An application whose callbacks keep a callback registered. -/
def App.Registers (app : App κ υ) : Prop :=
  ∀ t cb data isString userData, ∀ s ∈ app t cb data isString userData, s.Registers

variable {cfg app}

theorem registered_runSetter {b : Board κ υ} {s : Setter κ υ} (hs : s.Registers)
    (hb : b.stringCallback.isSome = true) : (runSetter cfg s b).stringCallback.isSome = true := by
  cases s with
  | setString string =>
    show (userSetString cfg string b).stringCallback.isSome = true
    unfold userSetString
    split
    · refine List.foldlRecOn (motive := fun b : Board κ υ => b.stringCallback.isSome = true)
        _ _ hb ?_
      exact fun _ h _ _ => h
    · exact hb
  | setCallback callback userData =>
    cases callback with
    | none => cases hs
    | some cb => rfl

/-- What the API calls of a callback keep. -/
theorem runSetters_frame (setters : List (Setter κ υ)) (b : Board κ υ) :
    RxFrame b (setters.foldl (fun b s => runSetter cfg s b) b) :=
  .foldl (runSetter_frame cfg) setters b

theorem registered_runSetters {setters : List (Setter κ υ)} (hs : ∀ s ∈ setters, s.Registers)
    {b : Board κ υ} (hb : b.stringCallback.isSome = true) :
    (setters.foldl (fun b s => runSetter cfg s b) b).stringCallback.isSome = true :=
  List.foldlRecOn (motive := fun b : Board κ υ => b.stringCallback.isSome = true) setters _ hb
    fun _ h s hmem => registered_runSetter (hs s hmem) h

/-! ## §3 — one byte is one push. -/

/-- The event a segment makes visible. -/
def cutEvent (cb : κ) (userData : Option υ) : Segment UInt8 → Event κ υ
  | .line data => .callback cb data true userData
  | .full data => .callback cb data false userData

/-- The callback's call: one event, and then what the callback does. -/
theorem callCallback_some (cb : κ) (isString : Bool) (b : Board κ υ) :
    RxFrame (b.log (.callback cb (rxData b) isString b.userData))
      (callCallback cfg app (some cb) isString b) := runSetters_frame _ _

/-- A byte that ends a string. -/
theorem receiveByte_of_nul (callback : Option κ) {c : UInt8} (hc : isNul c = true)
    (b : Board κ υ) : receiveByte cfg app callback c b =
      resetRx cfg (callCallback cfg app callback true (storeByte c b)) := if_pos hc

/-- A byte that fills the buffer. -/
theorem receiveByte_of_full (callback : Option κ) {c : UInt8} (hc : isNul c = false)
    {b : Board κ υ} (hfull : b.rxDataLen + 1 = cfg.rxBufSize) : receiveByte cfg app callback c b =
      resetRx cfg (callCallback cfg app callback false (storeByte c b)) := by
  have hcap : (cfg.rxBufSize : Int) - (storeByte c b).rxDataLen = 0 := by
    simp only [storeByte, Board.log_toMyUartData, ← hfull]
    omega
  exact (if_neg (by simpa [isNul] using hc)).trans (if_pos hcap)

/-- Any other byte. -/
theorem receiveByte_of_room (callback : Option κ) {c : UInt8} (hc : isNul c = false)
    {b : Board κ υ} (hroom : b.rxDataLen + 1 ≠ cfg.rxBufSize) :
    receiveByte cfg app callback c b = storeByte c b := by
  have hcap : (cfg.rxBufSize : Int) - (storeByte c b).rxDataLen ≠ 0 := by
    simp only [storeByte, Board.log_toMyUartData]
    omega
  exact (if_neg (by simpa [isNul] using hc)).trans (if_neg hcap)

/-- **The simulation step**: with a callback registered, the loop body is one `push`. -/
theorem receiveByte_push {p : Partial isNul cfg.rxBufSize} {b : Board κ υ}
    (hstored : Stored 0 b.rxBuf b.rxDataLen p) (cb : κ) (c : UInt8) :
    Stored 0 (receiveByte cfg app (some cb) c b).rxBuf
      (receiveByte cfg app (some cb) c b).rxDataLen (p.push c).1 ∧
    ∃ evs, (∀ e ∈ evs, e.isRx = false) ∧
      (receiveByte cfg app (some cb) c b).trace =
        b.trace ++ [.pollIn c b.rxDataLen] ++ (p.push c).2.toList.map (cutEvent cb b.userData) ++
          evs := by
  have hdata : rxData (storeByte c b) = p.bytes ++ [c] := hstored.take_set c
  cases hc : isNul c with
  | true =>
    obtain ⟨-, -, evs, htrace, hevs⟩ := callCallback_some cb true (storeByte c b)
    rw [receiveByte_of_nul (some cb) hc, Partial.push_of_term hc]
    refine ⟨Stored.reset p, evs, hevs, htrace.trans ?_⟩
    rw [hdata]
    rfl
  | false =>
    by_cases hfull : b.rxDataLen + 1 = cfg.rxBufSize
    · obtain ⟨-, -, evs, htrace, hevs⟩ := callCallback_some cb false (storeByte c b)
      rw [receiveByte_of_full (some cb) hc hfull,
        Partial.push_of_full hc (hstored.len_eq ▸ hfull)]
      refine ⟨Stored.reset p, evs, hevs, htrace.trans ?_⟩
      rw [hdata]
      rfl
    · rw [receiveByte_of_room (some cb) hc hfull,
        (Partial.push_of_room hc (hstored.len_eq ▸ hfull)).2]
      refine ⟨hstored.push_of_room hc hfull, [], by simp, ?_⟩
      simp [storeByte]

/-! ## §4 — the refinement along a run. -/

/-- The bytes the UART receives in a step. -/
def Step.rx : Step κ υ → List UInt8
  | .uartInterrupt rx => rx.getD []
  | _ => []

/-- The byte stream of a run, however the interrupts split it. -/
def rxStream (steps : List (Step κ υ)) : List UInt8 := steps.flatMap Step.rx

/-- A step that does not take the callback away. -/
def Step.Registers : Step κ υ → Prop
  | .set s => s.Registers
  | _ => True

/-- **`RxInv hN s b`** — a callback is registered, the bytes received are `s`, `rx_buf` holds what
the framer keeps of them, the callback was called with the framer's segments, and no byte was
stored outside `rx_buf`. -/
structure RxInv (hN : 0 < cfg.rxBufSize) (s : List UInt8) (b : Board κ υ) : Prop where
  registered : b.stringCallback.isSome = true
  received : received b.trace = s
  stored : Stored 0 b.rxBuf b.rxDataLen (framed isNul hN s).1
  segments : segments b.trace = (framed isNul hN s).2
  index : ∀ c i, Event.pollIn c i ∈ b.trace → i < cfg.rxBufSize

section Invariant

variable {hN : 0 < cfg.rxBufSize} {s : List UInt8} {b b' : Board κ υ}

theorem RxInv.frame (hinv : RxInv hN s b) (hframe : RxFrame b b')
    (hreg : b'.stringCallback.isSome = true) : RxInv hN s b' := by
  obtain ⟨hbuf, hlen, evs, htrace, hevs⟩ := hframe
  have hr := received_of_not_isRx hevs
  have hs := segments_of_not_isRx hevs
  refine ⟨hreg, ?_, ?_, ?_, ?_⟩
  · rw [htrace, received_append, hr, List.append_nil]
    exact hinv.received
  · rw [hbuf, hlen]
    exact hinv.stored
  · rw [htrace, segments_append, hs, List.append_nil]
    exact hinv.segments
  · intro c i hmem
    rw [htrace, List.mem_append] at hmem
    rcases hmem with hmem | hmem
    · exact hinv.index c i hmem
    · exact absurd (hevs _ hmem) (by simp [Event.isRx])

theorem registered_receiveByte (happ : app.Registers) (hb : b.stringCallback.isSome = true)
    (cb : κ) (c : UInt8) : (receiveByte cfg app (some cb) c b).stringCallback.isSome = true := by
  have hcall : ∀ isString,
      (callCallback cfg app (some cb) isString (storeByte c b)).stringCallback.isSome = true :=
    fun isString => registered_runSetters (happ _ _ _ _ _) hb
  unfold receiveByte
  dsimp only
  split
  · exact hcall true
  · split
    · exact hcall false
    · exact hb

theorem RxInv.receiveByte (hinv : RxInv hN s b) (happ : app.Registers) (cb : κ) (c : UInt8) :
    RxInv hN (s ++ [c]) (receiveByte cfg app (some cb) c b) := by
  obtain ⟨hstored, evs, hevs, htrace⟩ := @receiveByte_push κ υ cfg app _ b hinv.stored cb c
  have hr := received_of_not_isRx hevs
  have hs := segments_of_not_isRx hevs
  have hcut : ∀ gs : List (Segment UInt8), MyUartPeripheral.received
      (gs.map (cutEvent cb b.userData)) = [] ∧
      MyUartPeripheral.segments (gs.map (cutEvent cb b.userData)) = gs := by
    intro gs
    induction gs with
    | nil => exact ⟨rfl, rfl⟩
    | cons g gs ih => cases g <;> exact ⟨ih.1, congrArg _ ih.2⟩
  refine ⟨registered_receiveByte happ hinv.registered cb c, ?_, ?_, ?_, ?_⟩
  · rw [htrace, received_append, received_append, received_append, hr, (hcut _).1, hinv.received]
    simp [MyUartPeripheral.received]
  · rw [framed_snoc]
    exact hstored
  · rw [framed_snoc, htrace, segments_append, segments_append, segments_append, hs, (hcut _).2,
      hinv.segments]
    simp [MyUartPeripheral.segments]
  · intro c' i hmem
    rw [htrace] at hmem
    simp only [List.mem_append, or_assoc] at hmem
    rcases hmem with hmem | hmem | hmem | hmem
    · exact hinv.index c' i hmem
    · obtain ⟨rfl, rfl⟩ : c' = c ∧ i = b.rxDataLen := by simpa using hmem
      exact hinv.stored.len_lt
    · obtain ⟨g, -, hg⟩ := List.mem_map.mp hmem
      cases g <;> cases hg
    · exact absurd (hevs _ hmem) (by simp [Event.isRx])

theorem RxInv.uartIntHandler (hinv : RxInv hN s b) (happ : app.Registers)
    (rx : Option (List UInt8)) :
    RxInv hN (s ++ rx.getD []) (uartIntHandler cfg app rx b) := by
  cases rx with
  | none => simpa [MyUartPeripheral.uartIntHandler] using hinv
  | some bytes =>
    obtain ⟨cb, hcb⟩ := Option.isSome_iff_exists.mp hinv.registered
    simp only [MyUartPeripheral.uartIntHandler, hcb, Option.getD_some]
    clear hcb
    induction bytes generalizing s b with
    | nil => simpa using hinv
    | cons c bytes ih => simpa using ih (hinv.receiveByte happ cb c)

theorem rxInv_init (cb : κ) (userData : Option υ) (initialString : List UInt8) :
    RxInv hN [] (userSetStringCallback (some cb) userData (init cfg initialString)) :=
  ⟨rfl, rfl, Stored.empty 0 hN, rfl, by simp [userSetStringCallback, init]⟩

/-- **The receive side refines the framer in every state of every run.** -/
theorem rxInv_run (happ : app.Registers) {steps : List (Step κ υ)}
    (hreg : ∀ s ∈ steps, s.Registers) (hinv : RxInv hN s b) :
    RxInv hN (s ++ rxStream steps) (run cfg app steps b) := by
  induction steps generalizing s b with
  | nil => simpa [rxStream, run] using hinv
  | cons st steps ih =>
    obtain ⟨hst, hrest⟩ := List.forall_mem_cons.mp hreg
    have hone : RxInv hN (s ++ st.rx) (step cfg app b st) := by
      cases st with
      | set setter =>
        show RxInv hN (s ++ []) _
        rw [List.append_nil]
        exact hinv.frame (runSetter_frame cfg b setter) (registered_runSetter hst hinv.registered)
      | button =>
        show RxInv hN (s ++ []) _
        rw [List.append_nil]
        apply hinv.frame (transmitString_frame b)
        show (transmitString b).stringCallback.isSome = true
        unfold transmitString
        split
        · exact hinv.registered
        · exact List.foldlRecOn (motive := fun b : Board κ υ => b.stringCallback.isSome = true) _ _
            hinv.registered fun _ h _ _ => h
      | uartInterrupt rx => exact hinv.uartIntHandler happ rx
    have hrun := ih hrest hone
    rwa [List.append_assoc] at hrun

end Invariant

end EchoBot.MyUartPeripheral
