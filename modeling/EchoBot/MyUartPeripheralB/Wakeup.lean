/-
# EchoBot.MyUartPeripheralB.Wakeup — interrupts in the middle of a send, of an expiry, of a disable

`Driver` makes every step in one piece. On the device a thread is interrupted between its
`ring_buf_item_put` and its `uart_irq_tx_enable`, and the expiry function between clearing the guard
and enabling the interrupt. Here these are steps of their own (`Slice`), and so is the
`uart_irq_tx_disable` with which the handler answers a transmit interrupt it has no use for.

Nothing is lost by the first two: whoever makes work enables the interrupt AFTER that, so that a
disable in between is made up for (`Awake`). The third one is different. The handler disables the
interrupt because it SAW the guard set, and if the timer may interrupt it there, the expiry clears
the guard and enables the interrupt in vain. So the wake-up is safe exactly when the timer's
interrupt does not preempt the UART's (`wakeup_is_safe_iff`).
-/
import EchoBot.MyUartPeripheralB.Transmit

namespace EchoBot.MyUartPeripheralB

open EchoBot.Zephyr

variable {ρ τ : Type}

/-! ## §1 — the contexts. -/

/-- A board, and who is in the middle of what. -/
structure Contexts (ρ τ : Type) extends Board ρ τ where
  /-- The threads between `ring_buf_item_put` and `uart_irq_tx_enable`. -/
  sending : Nat
  /-- The expiry function has cleared the guard and not yet enabled the interrupt. -/
  expiring : Bool
  /-- The handler is about to call `uart_irq_tx_disable`. -/
  holding : Bool

/-- A stretch of code that is not interrupted. -/
inductive Slice where
  /-- `user_send_data` on a thread, up to its `ring_buf_item_put`. -/
  | put (data : List UInt8)
  /-- Its `uart_irq_tx_enable`. -/
  | sendEnable
  /-- `sending_guard_timer_expired_function`, up to `sending_guard = false`. -/
  | expire
  /-- Its `uart_irq_tx_enable`. -/
  | expireEnable
  /-- A run of `uart_int_handler` that nothing interrupts. -/
  | uartInterrupt (passes : List Pass)
  /-- The handler's transmit branch, up to its `uart_irq_tx_disable` if it comes to that. -/
  | transmitTest (room : Nat)
  /-- That `uart_irq_tx_disable`. -/
  | disable
  deriving DecidableEq, Repr

/-- Who can run. Threads wait for all handlers, a handler for itself; of the two handlers the
timer's may preempt the UART's (`timerFirst`), or the UART's the timer's. -/
def enabled (timerFirst : Bool) (m : Contexts ρ τ) : Slice → Bool
  | .put _ => !m.holding && !m.expiring
  | .sendEnable => decide (0 < m.sending) && !m.holding && !m.expiring
  | .expire => !m.expiring && (timerFirst || !m.holding)
  | .expireEnable => m.expiring && (timerFirst || !m.holding)
  | .uartInterrupt _ => !m.holding && (!timerFirst || !m.expiring)
  | .transmitTest _ => !m.holding && (!timerFirst || !m.expiring)
  | .disable => m.holding && (!timerFirst || !m.expiring)

section Next

variable [ItemRing ρ] [OneShotTimer τ] (cfg : Config) (stack : Stack)

/-- The put of a send. -/
def putSlice (data : List UInt8) (m : Contexts ρ τ) : Contexts ρ τ :=
  match itemPut m.txRb (sendItem cfg stack data m.toBoard) with
  | none =>
    { m with toBoard := m.toBoard.log (.userSendData (sendCall cfg stack data m.toBoard false)) }
  | some rb =>
    { m with
      toBoard := { m.toBoard with txRb := rb }.log
        (.userSendData (sendCall cfg stack data m.toBoard true))
      sending := m.sending + 1 }

/-- The first statement of an expiry, if the timer is due. -/
def expireSlice (m : Contexts ρ τ) : Contexts ρ τ :=
  match deadline m.sendingGuardTimer with
  | none => m
  | some due =>
    if due ≤ m.now then
      { m with
        toBoard := { m.toBoard with
          sendingGuardTimer := timerExpire m.sendingGuardTimer
          sendingGuard := false }.log (.timerExpired m.now)
        expiring := true }
    else m

/-- The transmit branch up to the disable. -/
def transmitTest (room : Nat) (m : Contexts ρ τ) : Contexts ρ τ :=
  if m.sendingGuard then { m with holding := true }
  else
    match itemGet m.txRb (UInt8.ofNat cfg.txBufWords) with
    | .emsgsize => { m with holding := true }
    | .eagain => { m with holding := true }
    | .ok _ _ => { m with toBoard := transmit cfg stack room m.toBoard }

/-- What a slice does, at the time it is made. -/
def next (m : Contexts ρ τ) (s : Nat × Slice) : Contexts ρ τ :=
  let m := { m with now := s.1 }
  match s.2 with
  | .put data => putSlice cfg stack data m
  | .sendEnable => { m with txIrq := true, sending := m.sending - 1 }
  | .expire => expireSlice m
  | .expireEnable => { m with txIrq := true, expiring := false }
  | .uartInterrupt passes => { m with toBoard := uartIntHandler cfg stack passes m.toBoard }
  | .transmitTest room => transmitTest cfg stack room m
  | .disable => { m with txIrq := false, holding := false }

/-- Whether the slices can run from `m`, in this order. -/
def isInterleaving (timerFirst : Bool) : List (Nat × Slice) → Contexts ρ τ → Bool
  | [], _ => true
  | s :: slices, m =>
    enabled timerFirst m s.2 && isInterleaving timerFirst slices (next cfg stack m s)

/-- A run of slices. -/
def interleave (slices : List (Nat × Slice)) (m : Contexts ρ τ) : Contexts ρ τ :=
  slices.foldl (next cfg stack) m

/-- Nobody in the middle of anything. -/
def quiet (b : Board ρ τ) : Contexts ρ τ := ⟨b, 0, false, false⟩

/-- What the test decides: to disable, as `transmit` does in one piece, or to do what `transmit`
does. -/
theorem transmitTest_cases (room : Nat) (m : Contexts ρ τ) :
    ((m.sendingGuard = true ∨ itemGet m.txRb (UInt8.ofNat cfg.txBufWords) = .eagain ∨
        itemGet m.txRb (UInt8.ofNat cfg.txBufWords) = .emsgsize) ∧
      transmitTest cfg stack room m = { m with holding := true } ∧
      transmit cfg stack room m.toBoard = { m.toBoard with txIrq := false }) ∨
    transmitTest cfg stack room m = { m with toBoard := transmit cfg stack room m.toBoard } := by
  unfold transmitTest transmit
  cases hguard : m.sendingGuard with
  | true => exact Or.inl ⟨Or.inl rfl, rfl, rfl⟩
  | false =>
    cases hget : itemGet m.txRb (UInt8.ofNat cfg.txBufWords) with
    | eagain => exact Or.inl ⟨Or.inr (Or.inl rfl), rfl, rfl⟩
    | emsgsize => exact Or.inl ⟨Or.inr (Or.inr rfl), rfl, rfl⟩
    | ok item rb => exact Or.inr rfl

/-- **Without an interrupt in between**, the test and the disable are the transmit branch. -/
theorem disable_transmitTest (room : Nat) (b : Board ρ τ) :
    transmitTest cfg stack room (quiet b) = quiet (transmit cfg stack room b) ∨
      next cfg stack (transmitTest cfg stack room (quiet b)) (b.now, .disable) =
        quiet (transmit cfg stack room b) := by
  rcases transmitTest_cases cfg stack room (quiet b) with ⟨-, htest, heq⟩ | htest
  · refine Or.inr ?_
    rw [htest]
    exact congrArg quiet heq.symm
  · exact Or.inl htest

end Next

/-! ## §2 — the wake-up. -/

section Interleaved

variable [ItemRing ρ] [OneShotTimer τ] {cfg : Config} {stack : Stack} {m : Contexts ρ τ}

/-- An enable is coming. -/
def Contexts.Coming (m : Contexts ρ τ) : Prop := 0 < m.sending ∨ m.expiring = true

/-- **`Safe cfg m`** — the board is awake, and a disable that is coming is harmless. -/
structure Safe (cfg : Config) (m : Contexts ρ τ) : Prop where
  awake : Awake cfg m.Coming m.toBoard
  harmless : m.holding = true → items m.txRb ≠ [] → m.sendingGuard = true

/-- The sends of a trace are among those of what follows. -/
theorem ShortSends.of_prefix {t u : List Event} (h : ShortSends cfg u) (htu : t <+: u) :
    ShortSends cfg t := by
  exact fun call hcall => h call (sendCalls_mono htu call hcall)

/-- **The step lemma**: with the UART's handler not preempted by the timer's, a slice keeps the
wake-up safe. -/
theorem Safe.next (hm : Safe cfg m) {s : Nat × Slice} (hs : enabled false m s.2 = true)
    (hW : cfg.txBufWords < 256) (hshort : ShortSends cfg (next cfg stack m s).trace) :
    Safe cfg (next cfg stack m s) := by
  obtain ⟨⟨hfits, hirq⟩, hharmless⟩ := hm
  obtain ⟨time, s⟩ := s
  cases s with
  | put data =>
    obtain ⟨hholding, -⟩ : m.holding = false ∧ m.expiring = false := by
      simpa [enabled] using hs
    simp only [MyUartPeripheralB.next, putSlice] at hshort ⊢
    cases hput : itemPut m.txRb (sendItem cfg stack data { m.toBoard with now := time }) with
    | none =>
      simp only [hput] at hshort ⊢
      exact ⟨⟨hfits, hirq⟩, hharmless⟩
    | some rb =>
      simp only [hput] at hshort ⊢
      have hdata : data.length + 5 < cfg.txBufWords * 4 := by
        refine hshort (sendCall cfg stack data { m.toBoard with now := time } true) ?_
          (by rw [sendCall_eq])
        simp [sendCalls]
      -- the thread that put the item has its enable before it
      refine ⟨⟨fits_of_itemPut hput hfits hdata hW, fun _ _ => Or.inr (Or.inl ?_)⟩, ?_⟩
      · exact Nat.succ_pos _
      · intro hheld
        exact absurd (hholding.symm.trans hheld) (by decide)
  | sendEnable => exact ⟨⟨hfits, fun _ _ => Or.inl rfl⟩, hharmless⟩
  | expire =>
    obtain ⟨-, hholding⟩ : m.expiring = false ∧ m.holding = false := by
      simpa [enabled] using hs
    simp only [MyUartPeripheralB.next, expireSlice]
    cases hdue : deadline m.sendingGuardTimer with
    | none => exact ⟨⟨hfits, hirq⟩, hharmless⟩
    | some due =>
      by_cases hle : due ≤ time
      · simp only [if_pos hle]
        refine ⟨⟨hfits, fun _ _ => Or.inr (Or.inr rfl)⟩, fun hheld => ?_⟩
        exact absurd (hholding.symm.trans hheld) (by decide)
      · simp only [if_neg hle]
        exact ⟨⟨hfits, hirq⟩, hharmless⟩
  | expireEnable => exact ⟨⟨hfits, fun _ _ => Or.inl rfl⟩, hharmless⟩
  | uartInterrupt passes =>
    have hholding : m.holding = false := by simpa [enabled] using hs
    have hnow : Awake cfg m.Coming { m.toBoard with now := time } := ⟨hfits, hirq⟩
    refine ⟨hnow.uartIntHandler passes hW hshort, fun hheld => ?_⟩
    exact absurd (hholding.symm.trans hheld) (by decide)
  | transmitTest room =>
    have hholding : m.holding = false := by simpa [enabled] using hs
    have hnow : Awake cfg m.Coming { m.toBoard with now := time } := ⟨hfits, hirq⟩
    simp only [MyUartPeripheralB.next] at hshort ⊢
    rcases transmitTest_cases cfg stack room { m with now := time } with ⟨hwhy, htest, -⟩ | htest
    · rw [htest]
      refine ⟨⟨hfits, hirq⟩, fun _ hne => ?_⟩
      rcases hwhy with hguard | hget | hget
      · exact hguard
      · exact absurd (items_of_itemGet_eagain hget) hne
      · exact absurd hget (hnow.itemGet_ne_emsgsize hW)
    · rw [htest]
      refine ⟨hnow.transmit room hW, fun hheld => ?_⟩
      exact absurd (hholding.symm.trans hheld) (by decide)
  | disable =>
    obtain hholding : m.holding = true := by simpa [enabled] using hs
    refine ⟨⟨hfits, fun hne hclear => ?_⟩, by simp [MyUartPeripheralB.next]⟩
    -- nothing ran since the test, so the guard it saw set is set still
    exact absurd ((hharmless hholding hne).symm.trans hclear) (by decide)

/-- A slice only adds to the trace. -/
theorem trace_prefix_next (m : Contexts ρ τ) (s : Nat × Slice) :
    m.trace <+: (next cfg stack m s).trace := by
  obtain ⟨time, s⟩ := s
  cases s with
  | put data =>
    simp only [next, putSlice]
    cases itemPut m.txRb (sendItem cfg stack data { m.toBoard with now := time }) with
    | none => exact List.prefix_append _ _
    | some rb => exact List.prefix_append _ _
  | sendEnable => exact List.prefix_rfl
  | expire =>
    simp only [next, expireSlice]
    cases deadline m.sendingGuardTimer with
    | none => exact List.prefix_rfl
    | some due =>
      by_cases hle : due ≤ time
      · simp only [if_pos hle]
        exact List.prefix_append _ _
      · simp only [if_neg hle]
        exact List.prefix_rfl
  | expireEnable => exact List.prefix_rfl
  | uartInterrupt passes =>
    exact trace_prefix_run [(time, .uartInterrupt passes)] m.toBoard
  | transmitTest room =>
    simp only [next]
    rcases transmitTest_cases cfg stack room { m with now := time } with ⟨-, htest, -⟩ | htest
    · exact (congrArg (m.trace <+: ·.trace) htest).mpr List.prefix_rfl
    · refine (congrArg (m.trace <+: ·.trace) htest).mpr ?_
      rcases transmit_trace cfg stack room { m.toBoard with now := time } with
        htrace | ⟨buf, taken, htrace⟩
      · exact (congrArg (m.trace <+: ·) htrace).mpr List.prefix_rfl
      · exact (congrArg (m.trace <+: ·) htrace).mpr (List.prefix_append _ _)
  | disable => exact List.prefix_rfl

theorem trace_prefix_interleave (slices : List (Nat × Slice)) (m : Contexts ρ τ) :
    m.trace <+: (interleave cfg stack slices m).trace := by
  refine List.foldlRecOn (motive := fun m' : Contexts ρ τ => m.trace <+: m'.trace) slices _
    List.prefix_rfl fun m' hm' s _ => ?_
  exact hm'.trans (trace_prefix_next m' s)

/-- **The wake-up is safe along every interleaving** in which the timer does not preempt the UART's
handler. -/
theorem Safe.interleave (hW : cfg.txBufWords < 256) (slices : List (Nat × Slice))
    (hm : Safe cfg m) (hslices : isInterleaving cfg stack false slices m = true)
    (hshort : ShortSends cfg (interleave cfg stack slices m).trace) :
    Safe cfg (interleave cfg stack slices m) := by
  induction slices generalizing m with
  | nil => exact hm
  | cons s slices ih =>
    rw [isInterleaving, Bool.and_eq_true] at hslices
    have hnext : Safe cfg (MyUartPeripheralB.next cfg stack m s) :=
      hm.next hslices.1 hW (hshort.of_prefix (trace_prefix_interleave slices _))
    exact ih hnext hslices.2 hshort

end Interleaved

/-! ## §3 — when it is safe. -/

/-- **`NeverLost m`** — if nobody is in the middle of anything, something is queued and the guard is
clear, then the TX interrupt is enabled. -/
def NeverLost [ItemRing ρ] (m : Contexts ρ τ) : Prop :=
  m.sending = 0 → m.expiring = false → m.holding = false → items m.txRb ≠ [] →
    m.sendingGuard = false → m.txIrq = true

/-- The handler sees the guard of the first message; the expiry clears it and enables the interrupt;
then the handler disables it. -/
def preemptedDisable : List (Nat × Slice) :=
  [(0, .put [0x41]), (0, .sendEnable), (0, .put [0x42]), (0, .sendEnable),
    (0, .uartInterrupt [⟨[], some 100⟩]), (5000, .transmitTest 100), (5000, .expire),
    (5000, .expireEnable), (5000, .disable)]

/-- **When no wake-up is lost.** With the default sizes and messages shorter than the transmit
buffer, over all interleavings of threads, timer and UART handler: exactly when the timer's
interrupt does not preempt the UART's. -/
theorem wakeup_is_safe_iff (timerFirst : Bool) :
    (∀ (ρ τ : Type) [ItemRing ρ] [OneShotTimer τ] (stack : Stack) (slices : List (Nat × Slice)),
      isInterleaving .default stack timerFirst slices
        (quiet (init .default) : Contexts ρ τ) = true →
      ShortSends .default
        (interleave .default stack slices (quiet (init .default) : Contexts ρ τ)).trace →
      NeverLost (interleave .default stack slices (quiet (init .default) : Contexts ρ τ))) ↔
      timerFirst = false := by
  constructor
  · intro hsafe
    rw [← Bool.not_eq_true]
    rintro rfl
    have hlost := hsafe WordRing DeadlineTimer (fun _ _ => 0) preemptedDisable (by decide +kernel)
      (by unfold ShortSends; decide +kernel) (by decide +kernel) (by decide +kernel)
      (by decide +kernel) (by decide +kernel) (by decide +kernel)
    exact absurd hlost (by decide +kernel)
  · rintro rfl ρ τ _ _ stack slices hslices hshort hsending hexpiring - hitems hguard
    have hinit : Safe .default (quiet (init .default) : Contexts ρ τ) :=
      ⟨⟨by simp [quiet, init], by simp [quiet, init]⟩, by simp [quiet]⟩
    have hsafe := Safe.interleave (by decide) slices hinit hslices hshort
    rcases hsafe.awake.irq hitems hguard with hirq | hcoming | hcoming
    · exact hirq
    · omega
    · exact absurd (hexpiring.symm.trans hcoming) (by decide)

end EchoBot.MyUartPeripheralB
