/-
# EchoBot.MyUartPeripheralB.Initialisation — the driver's start-up, with interrupts in it

`init_my_uart_peripheral_b` enables the receive interrupt first, and initialises the ring buffer and
the timer last. In between the handler runs on a `tx_rb` and a `sending_guard_timer` that are
zeroed memory; and it goes on running when the initialisation is given up because of the GPIO.

It does no harm. Without a callback nothing is sent, an empty ring buffer gives no item, and so the
timer is not started either. What the handler does in the window it would have done behind it: the
start-up could as well be the one step that `init` makes of it (`start_up_is_atomic`).
-/
import EchoBot.MyUartPeripheralB.Steps

namespace EchoBot.MyUartPeripheralB

open EchoBot.Zephyr

variable {ρ τ : Type}

/-! ## §1 — the program. -/

/-- `ENODEV`. -/
def enodev : Int := 19

/-- What the start-up learns from the hardware. -/
structure Hardware where
  /-- `device_is_ready(conf->uart_dev)`. -/
  uartReady : Bool
  /-- `device_is_ready(conf->gpio_spec.port)`. -/
  gpioReady : Bool
  /-- The result of `gpio_pin_configure_dt`. -/
  gpioPinConfigure : Int
  deriving DecidableEq, Repr

/-- The hardware is as the start-up needs it. -/
def Hardware.Works (hw : Hardware) : Prop :=
  hw.uartReady = true ∧ hw.gpioReady = true ∧ hw.gpioPinConfigure = 0

/-- Where the start-up is. -/
inductive InitPoint where
  | initUart
  | initGpio
  | ringBufItemInit
  | timerInit
  | returned (ret : Int)
  deriving DecidableEq, Repr

structure Boot (ρ τ : Type) where
  point : InitPoint
  /-- Whether the UART's RX interrupt is enabled. -/
  rxIrq : Bool
  board : Board ρ τ
  /-- The interrupts that have been served. -/
  served : List (Nat × Step)

/-- The zeroed memory of the driver: a ring buffer and a timer that have not been initialised. -/
structure Zeroed (ρ τ : Type) where
  txRb : ρ
  sendingGuardTimer : τ

/-- An interrupt, as far as its source is enabled. -/
inductive Interrupt where
  | uart (passes : List Pass)
  | timer
  deriving DecidableEq, Repr

inductive BootStep where
  /-- The next step of `init_my_uart_peripheral_b`. -/
  | init
  | interrupt (time : Nat) (source : Interrupt)
  deriving DecidableEq, Repr

/-- `gpio_pin_configure_dt` in `init_gpio`. -/
def initGpio (hw : Hardware) : Int := hw.gpioPinConfigure

section Program

variable [ItemRing ρ] [OneShotTimer τ] (cfg : Config) (stack : Stack) (hw : Hardware)

/-- A step of `init_my_uart_peripheral_b`. -/
def initStep (s : Boot ρ τ) : Boot ρ τ :=
  match s.point with
  | .initUart =>
    if !hw.uartReady then { s with point := .returned (-enodev) }
    else { s with rxIrq := true, point := .initGpio }
  | .initGpio =>
    if !hw.gpioReady then { s with point := .returned (-enodev) }
    else if initGpio hw ≠ 0 then { s with point := .returned (-enodev) }
    else { s with point := .ringBufItemInit }
  | .ringBufItemInit =>
    { s with
      board := { s.board with txRb := itemInit cfg.txBufferingBufWords }
      point := .timerInit }
  | .timerInit =>
    { s with
      board := { s.board with sendingGuardTimer := timerInit }
      point := .returned 0 }
  | .returned _ => s

/-- The step of the driver that an interrupt makes. -/
def Interrupt.step : Interrupt → Step
  | .uart passes => .uartInterrupt passes
  | .timer => .timerInterrupt

/-- Whether an interrupt is served. -/
def Interrupt.enabled (rxIrq : Bool) : Interrupt → Bool
  | .uart _ => rxIrq
  | .timer => true

def serve (time : Nat) (source : Interrupt) (s : Boot ρ τ) : Boot ρ τ :=
  if source.enabled s.rxIrq then
    { s with
      board := step cfg stack s.board (time, source.step)
      served := s.served ++ [(time, source.step)] }
  else s

def bootStep (s : Boot ρ τ) (a : BootStep) : Boot ρ τ :=
  match a with
  | .init => initStep cfg hw s
  | .interrupt time source => serve cfg stack time source s

/-- The driver's memory before its start-up. -/
def powerOn (zeroed : Zeroed ρ τ) : Boot ρ τ where
  point := .initUart
  rxIrq := false
  board := { (init cfg : Board ρ τ) with
    txRb := zeroed.txRb
    sendingGuardTimer := zeroed.sendingGuardTimer }
  served := []

def boot (zeroed : Zeroed ρ τ) (steps : List BootStep) : Boot ρ τ :=
  steps.foldl (bootStep cfg stack hw) (powerOn cfg zeroed)

end Program

/-! ## §2 — a board without work. -/

/-- `b` with another ring buffer and another timer. -/
def Board.fit (b : Board ρ τ) (z : Zeroed ρ τ) : Board ρ τ :=
  { b with txRb := z.txRb, sendingGuardTimer := z.sendingGuardTimer }

/-- The ring buffer and the timer of a board. -/
def Board.fitted (b : Board ρ τ) : Zeroed ρ τ := ⟨b.txRb, b.sendingGuardTimer⟩

/-- **`Unused b`** — nothing has been given to send, and nothing has been sent or delivered. -/
structure Unused (b : Board ρ τ) : Prop where
  callback : b.callback = none
  sendingGuard : b.sendingGuard = false
  filled : filled b.trace = []
  delivered : delivered b.trace = []
  sendCalls : sendCalls b.trace = []

/-- **`Blank z`** — an empty ring buffer and a timer that is not running. -/
structure Blank [ItemRing ρ] [OneShotTimer τ] (z : Zeroed ρ τ) : Prop where
  items : items z.txRb = []
  deadline : deadline z.sendingGuardTimer = none

/-- An event that is neither a call of the driver nor one by it. -/
theorem unused_log {b : Board ρ τ} (hb : Unused b) {e : Event} (hfilled : filled [e] = [])
    (hdelivered : delivered [e] = []) (hcalls : sendCalls [e] = []) : Unused (b.log e) := by
  refine ⟨hb.callback, hb.sendingGuard, ?_, ?_, ?_⟩
  · rw [Board.log_trace, filled_append, hb.filled, hfilled, List.nil_append]
  · rw [Board.log_trace, delivered_append, hb.delivered, hdelivered, List.nil_append]
  · rw [Board.log_trace, sendCalls_append, hb.sendCalls, hcalls, List.nil_append]

section Harmless

variable [ItemRing ρ] [OneShotTimer τ]

/-- **`Harmless f`** — on a board without work, `f` leaves it without work, does not touch the ring
buffer and the timer, and does the same whatever blank ones they are. -/
def Harmless (f : Board ρ τ → Board ρ τ) : Prop :=
  ∀ (b : Board ρ τ) (z : Zeroed ρ τ), Unused b → Blank b.fitted → Blank z →
    f (b.fit z) = (f b).fit z ∧ Unused (f b) ∧ (f b).fitted = b.fitted

theorem Harmless.id : Harmless (fun b : Board ρ τ => b) := fun _ _ hb _ _ => ⟨rfl, hb, rfl⟩

theorem Harmless.comp {f g : Board ρ τ → Board ρ τ} (hg : Harmless g) (hf : Harmless f) :
    Harmless fun b => g (f b) := by
  intro b z hb hfitted hz
  obtain ⟨heq, hunused, hkept⟩ := hf b z hb hfitted hz
  obtain ⟨heq', hunused', hkept'⟩ := hg (f b) z hunused (hkept ▸ hfitted) hz
  refine ⟨?_, hunused', hkept'.trans hkept⟩
  show g (f (b.fit z)) = _
  rw [heq, heq']

theorem Harmless.foldl {α : Type} {f : Board ρ τ → α → Board ρ τ}
    (hf : ∀ a, Harmless fun b => f b a) (as : List α) : Harmless fun b => as.foldl f b := by
  induction as with
  | nil => exact Harmless.id
  | cons a as ih => exact ih.comp (hf a)

variable (cfg : Config) (stack : Stack)

/-- A byte that is stored. -/
theorem harmless_storeByte (c : UInt8) : Harmless (storeByte c : Board ρ τ → Board ρ τ) := by
  intro b z hb _ _
  have hstored : Unused { b with
      rxBuf := b.rxBuf.set b.rxDataLen c
      rxDataLen := b.rxDataLen + 1 } :=
    ⟨hb.callback, hb.sendingGuard, hb.filled, hb.delivered, hb.sendCalls⟩
  exact ⟨rfl, unused_log hstored rfl rfl rfl, rfl⟩

theorem harmless_resetRx : Harmless (resetRx cfg : Board ρ τ → Board ρ τ) :=
  fun _ _ hb _ _ =>
    ⟨rfl, ⟨hb.callback, hb.sendingGuard, hb.filled, hb.delivered, hb.sendCalls⟩, rfl⟩

/-- An `OK` line clears a guard that is clear. -/
theorem harmless_releaseGuard : Harmless (releaseGuard : Board ρ τ → Board ρ τ) := by
  intro b z hb _ _
  have hcheck : checkSendingGuard (b.fit z).rxBuf (b.fit z).rxDataLen =
      checkSendingGuard b.rxBuf b.rxDataLen := rfl
  rcases releaseGuard_cases b with ⟨hno, heq⟩ | ⟨hyes, heq⟩
  · rcases releaseGuard_cases (b.fit z) with ⟨-, heq'⟩ | ⟨hyes, -⟩
    · rw [heq, heq']
      exact ⟨rfl, hb, rfl⟩
    · rw [hcheck, hno] at hyes
      cases hyes
  · rcases releaseGuard_cases (b.fit z) with ⟨hno, -⟩ | ⟨-, heq'⟩
    · rw [hcheck, hyes] at hno
      cases hno
    · rw [heq, heq']
      have hclear : Unused { b with sendingGuard := false, txIrq := true } :=
        ⟨hb.callback, rfl, hb.filled, hb.delivered, hb.sendCalls⟩
      exact ⟨rfl, unused_log hclear rfl rfl rfl, rfl⟩

theorem harmless_receiveByte (c : UInt8) :
    Harmless (receiveByte cfg stack c : Board ρ τ → Board ρ τ) := by
  intro b z hb hfitted hz
  have hnone : (b.fit z).callback = none := hb.callback
  cases hc : isTerminator c with
  | true =>
    rw [receiveByte_of_terminator cfg stack hc, receiveByte_of_terminator cfg stack hc, hb.callback,
      hnone]
    exact ((harmless_resetRx cfg).comp (harmless_releaseGuard.comp (harmless_storeByte c)))
      b z hb hfitted hz
  | false =>
    by_cases hfull : b.rxDataLen + 1 = cfg.rxBufSize
    · have hfull' : (b.fit z).rxDataLen + 1 = cfg.rxBufSize := hfull
      rw [receiveByte_of_full cfg stack hc hfull, receiveByte_of_full cfg stack hc hfull']
      have hlog : Harmless fun b : Board ρ τ => b.log (.discarded (rxLine b)) :=
        fun _ _ hb _ _ => ⟨rfl, unused_log hb rfl rfl rfl, rfl⟩
      exact ((harmless_resetRx cfg).comp (hlog.comp (harmless_storeByte c))) b z hb hfitted hz
    · have hroom : (b.fit z).rxDataLen + 1 ≠ cfg.rxBufSize := hfull
      rw [receiveByte_of_room cfg stack hc hfull, receiveByte_of_room cfg stack hc hroom]
      exact harmless_storeByte c b z hb hfitted hz

/-- **An empty ring buffer gives nothing to send.** -/
theorem harmless_transmit (room : Nat) :
    Harmless (transmit cfg stack room : Board ρ τ → Board ρ τ) := by
  intro b z hb hfitted hz
  have hidle : ∀ b : Board ρ τ, b.sendingGuard = false → items b.txRb = [] →
      transmit cfg stack room b = { b with txIrq := false } := by
    intro b hguard hitems
    unfold transmit
    rw [if_neg (by rw [hguard]; exact Bool.false_ne_true), ItemRing.itemGet_nil hitems]
  have hguard : (b.fit z).sendingGuard = false := hb.sendingGuard
  rw [hidle b hb.sendingGuard hfitted.items, hidle (b.fit z) hguard hz.items]
  exact ⟨rfl, ⟨hb.callback, hb.sendingGuard, hb.filled, hb.delivered, hb.sendCalls⟩, rfl⟩

/-- A timer that is not running does not expire. -/
theorem harmless_timerInterrupt : Harmless (timerInterrupt : Board ρ τ → Board ρ τ) := by
  intro b z hb hfitted hz
  have hstopped : ∀ b : Board ρ τ, deadline b.sendingGuardTimer = none → timerInterrupt b = b := by
    intro b hnone
    rw [timerInterrupt, hnone]
  rw [hstopped b hfitted.deadline, hstopped (b.fit z) hz.deadline]
  exact ⟨rfl, hb, rfl⟩

theorem harmless_handlerPass (p : Pass) :
    Harmless (handlerPass cfg stack p : Board ρ τ → Board ρ τ) := by
  have hrx := Harmless.foldl (fun c => harmless_receiveByte (ρ := ρ) (τ := τ) cfg stack c) p.rx
  unfold handlerPass
  cases p.txReady with
  | none => exact hrx
  | some room => exact (harmless_transmit cfg stack room).comp hrx

/-- **An interrupt does no harm.** -/
theorem harmless_interrupt (time : Nat) (source : Interrupt) :
    Harmless fun b : Board ρ τ => step cfg stack b (time, source.step) := by
  have hstamp : Harmless fun b : Board ρ τ => { b with now := time } :=
    fun _ _ hb _ _ =>
      ⟨rfl, ⟨hb.callback, hb.sendingGuard, hb.filled, hb.delivered, hb.sendCalls⟩, rfl⟩
  cases source with
  | uart passes => exact (Harmless.foldl (harmless_handlerPass cfg stack) passes).comp hstamp
  | timer => exact harmless_timerInterrupt.comp hstamp

end Harmless

/-! ## §3 — every start-up. -/

section Boot

variable [ItemRing ρ] [OneShotTimer τ]

/-- The run that the interrupts served make of the board of `init`. -/
def modelled (cfg : Config) (stack : Stack) (s : Boot ρ τ) : Board ρ τ :=
  run cfg stack s.served (init cfg)

/-- **`Twin cfg stack s`** — the board is that of the run, but for the ring buffer and the timer,
and with them as far as they have been initialised. -/
structure Twin (cfg : Config) (stack : Stack) (s : Boot ρ τ) : Prop where
  unused : Unused (modelled cfg stack s)
  fitted : (modelled cfg stack s).fitted = (init cfg : Board ρ τ).fitted
  board : s.board = (modelled cfg stack s).fit s.board.fitted
  blank : Blank s.board.fitted
  txRb : s.point = .timerInit ∨ s.point = .returned 0 →
    s.board.txRb = (init cfg : Board ρ τ).txRb
  sendingGuardTimer : s.point = .returned 0 →
    s.board.sendingGuardTimer = (init cfg : Board ρ τ).sendingGuardTimer

/-- **`Answers hw s`** — what the point says about the hardware. -/
structure Answers (hw : Hardware) (s : Boot ρ τ) : Prop where
  uartReady : s.point = .initGpio → hw.uartReady = true
  works : s.point = .ringBufItemInit ∨ s.point = .timerInit ∨ s.point = .returned 0 → hw.Works
  failed : ∀ ret, s.point = .returned ret → ret ≠ 0 → ret = -enodev ∧ ¬ hw.Works

/-- The steps that are left to the start-up, at most. -/
def InitPoint.left : InitPoint → Nat
  | .initUart => 4
  | .initGpio => 3
  | .ringBufItemInit => 2
  | .timerInit => 1
  | .returned _ => 0

variable {cfg : Config} {stack : Stack} {hw : Hardware}

theorem blank_init : Blank (init cfg : Board ρ τ).fitted :=
  ⟨ItemRing.items_itemInit _, OneShotTimer.deadline_timerInit⟩

theorem Twin.serve {s : Boot ρ τ} (h : Twin cfg stack s) (time : Nat) (source : Interrupt) :
    Twin cfg stack (serve cfg stack time source s) := by
  unfold MyUartPeripheralB.serve
  split
  · obtain ⟨heq, hunused, hkept⟩ := harmless_interrupt cfg stack time source
      (modelled cfg stack s) s.board.fitted h.unused (h.fitted ▸ blank_init) h.blank
    have hmodel : modelled cfg stack { s with
        board := step cfg stack s.board (time, source.step)
        served := s.served ++ [(time, source.step)] } =
        step cfg stack (modelled cfg stack s) (time, source.step) := List.foldl_append
    have hboard : step cfg stack s.board (time, source.step) =
        (step cfg stack (modelled cfg stack s) (time, source.step)).fit s.board.fitted := by
      rw [← heq, ← h.board]
    have hfitted : (step cfg stack s.board (time, source.step)).fitted = s.board.fitted := by
      rw [hboard]
      rfl
    refine ⟨?_, ?_, ?_, ?_, ?_, ?_⟩
    · rwa [hmodel]
    · rw [hmodel]
      exact hkept.trans h.fitted
    · rw [hmodel]
      show step cfg stack s.board (time, source.step) = _
      rw [hfitted]
      exact hboard
    · show Blank (step cfg stack s.board (time, source.step)).fitted
      rw [hfitted]
      exact h.blank
    · intro hpoint
      exact (congrArg Zeroed.txRb hfitted).trans (h.txRb hpoint)
    · intro hpoint
      exact (congrArg Zeroed.sendingGuardTimer hfitted).trans (h.sendingGuardTimer hpoint)
  · exact h

/-- A step of the start-up that initialises nothing of the driver's data. -/
theorem Twin.moved {s : Boot ρ τ} (h : Twin cfg stack s) {point : InitPoint} (rxIrq : Bool)
    (htimer : point ≠ .timerInit) (hdone : point ≠ .returned 0) :
    Twin cfg stack { s with point, rxIrq } :=
  ⟨h.unused, h.fitted, h.board, h.blank, fun hpoint => (hpoint.elim htimer hdone).elim,
    fun hpoint => (hdone hpoint).elim⟩

theorem Twin.initStep {s : Boot ρ τ} (h : Twin cfg stack s) :
    Twin cfg stack (initStep cfg hw s) := by
  obtain ⟨point, rxIrq, board, served⟩ := s
  cases point with
  | initUart =>
    unfold MyUartPeripheralB.initStep
    dsimp only
    split
    · exact h.moved rxIrq nofun nofun
    · exact h.moved true nofun nofun
  | initGpio =>
    unfold MyUartPeripheralB.initStep
    dsimp only
    split
    · exact h.moved rxIrq nofun nofun
    · split
      · exact h.moved rxIrq nofun nofun
      · exact h.moved rxIrq nofun nofun
  | ringBufItemInit =>
    refine ⟨h.unused, h.fitted, ?_, ⟨ItemRing.items_itemInit _, h.blank.deadline⟩, fun _ => rfl,
      nofun⟩
    show { board with txRb := _ } = _
    rw [show board = _ from h.board]
    rfl
  | timerInit =>
    refine ⟨h.unused, h.fitted, ?_, ⟨h.blank.items, OneShotTimer.deadline_timerInit⟩,
      fun _ => h.txRb (.inl rfl), fun _ => rfl⟩
    show { board with sendingGuardTimer := (timerInit : τ) } = _
    rw [show board = _ from h.board]
    rfl
  | returned ret => exact h

theorem Answers.serve {s : Boot ρ τ} (h : Answers hw s) (time : Nat) (source : Interrupt) :
    Answers hw (serve cfg stack time source s) := by
  unfold MyUartPeripheralB.serve
  split
  · exact ⟨h.uartReady, h.works, h.failed⟩
  · exact h

theorem Answers.initStep {s : Boot ρ τ} (h : Answers hw s) :
    Answers hw (initStep cfg hw s) := by
  obtain ⟨point, rxIrq, board, served⟩ := s
  have hfail : ∀ board : Board ρ τ, ¬ hw.Works →
      Answers hw ⟨.returned (-enodev), rxIrq, board, served⟩ := by
    intro board hnot
    refine ⟨nofun, ?_, ?_⟩
    · rintro (hpoint | hpoint | hpoint) <;> cases hpoint
    · intro ret hret _
      cases hret
      exact ⟨rfl, hnot⟩
  cases point with
  | initUart =>
    unfold MyUartPeripheralB.initStep
    dsimp only
    split
    · exact hfail board fun hworks => by simp_all [Hardware.Works]
    · refine ⟨fun _ => by simp_all, ?_, nofun⟩
      rintro (hpoint | hpoint | hpoint) <;> cases hpoint
  | initGpio =>
    unfold MyUartPeripheralB.initStep
    dsimp only
    split
    · exact hfail board fun hworks => by simp_all [Hardware.Works]
    · split
      · exact hfail board fun hworks => by simp_all [Hardware.Works, initGpio]
      · refine ⟨nofun, fun _ => ⟨h.uartReady rfl, ?_, ?_⟩, nofun⟩
        · simp_all
        · simp_all [initGpio]
  | ringBufItemInit => exact ⟨nofun, fun _ => h.works (.inl rfl), nofun⟩
  | timerInit =>
    refine ⟨nofun, fun _ => h.works (.inr (.inl rfl)), ?_⟩
    intro ret hret hne
    cases hret
    exact (hne rfl).elim
  | returned ret => exact h

theorem initStep_left (s : Boot ρ τ) : (initStep cfg hw s).point.left ≤ s.point.left - 1 := by
  obtain ⟨point, rxIrq, board, served⟩ := s
  cases point with
  | initUart =>
    unfold initStep
    dsimp only
    split <;> simp [InitPoint.left]
  | initGpio =>
    unfold initStep
    dsimp only
    split
    · simp [InitPoint.left]
    · split <;> simp [InitPoint.left]
  | ringBufItemInit => exact Nat.le_refl _
  | timerInit => exact Nat.le_refl _
  | returned ret => exact Nat.le_refl _

theorem serve_point (time : Nat) (source : Interrupt) (s : Boot ρ τ) :
    (serve cfg stack time source s).point = s.point := by
  unfold serve
  split <;> rfl

/-- The run lemma: what the steps of a start-up keep, and how far it has come. -/
theorem boot_induction {zeroed : Zeroed ρ τ} (hzeroed : Blank zeroed) (steps : List BootStep) :
    Twin cfg stack (boot cfg stack hw zeroed steps) ∧
      Answers hw (boot cfg stack hw zeroed steps) ∧
      (boot cfg stack hw zeroed steps).point.left ≤ 4 - steps.count .init := by
  induction steps using List.reverseRecOn with
  | nil =>
    refine ⟨⟨⟨rfl, rfl, rfl, rfl, rfl⟩, rfl, rfl, hzeroed, ?_, nofun⟩, ⟨nofun, ?_, nofun⟩,
      Nat.le_refl _⟩
    · rintro (hpoint | hpoint) <;> cases hpoint
    · rintro (hpoint | hpoint | hpoint) <;> cases hpoint
  | append_singleton steps a ih =>
    obtain ⟨htwin, hanswers, hleft⟩ := ih
    have hlast : boot cfg stack hw zeroed (steps ++ [a]) =
        bootStep cfg stack hw (boot cfg stack hw zeroed steps) a := List.foldl_append
    rw [hlast, List.count_append]
    cases a with
    | init =>
      have hstep := @initStep_left ρ τ _ _ cfg hw (boot cfg stack hw zeroed steps)
      refine ⟨htwin.initStep, hanswers.initStep, ?_⟩
      show (initStep cfg hw _).point.left ≤ 4 - (steps.count .init + 1)
      omega
    | interrupt time source =>
      refine ⟨htwin.serve time source, hanswers.serve time source, ?_⟩
      show (serve cfg stack time source _).point.left ≤ 4 - (steps.count .init + 0)
      rw [serve_point]
      omega

/-- **The start-up is one step, whatever interrupts it.** The driver's own steps are four, and they
and the interrupts send nothing and deliver nothing. When the start-up returns 0 the hardware is in
order, and the board is the one that the same interrupts make of `init`; when it returns anything
else, that is `-ENODEV` and the hardware is not in order. -/
theorem start_up_is_atomic {zeroed : Zeroed ρ τ} (hzeroed : Blank zeroed)
    (steps : List BootStep) :
    let s := boot cfg stack hw zeroed steps
    Unused s.board ∧ Blank s.board.fitted ∧
      (4 ≤ steps.count .init → ∃ ret, s.point = .returned ret) ∧
      (s.point = .returned 0 → hw.Works ∧ s.board = run cfg stack s.served (init cfg)) ∧
      (∀ ret, s.point = .returned ret → ret ≠ 0 → ret = -enodev ∧ ¬ hw.Works) := by
  intro s
  obtain ⟨htwin, hanswers, hleft⟩ :=
    @boot_induction ρ τ _ _ cfg stack hw zeroed hzeroed steps
  have hboard : s.board = (modelled cfg stack s).fit s.board.fitted := htwin.board
  have hunused : Unused s.board := by
    rw [hboard]
    exact ⟨htwin.unused.callback, htwin.unused.sendingGuard, htwin.unused.filled,
      htwin.unused.delivered, htwin.unused.sendCalls⟩
  refine ⟨hunused, htwin.blank, ?_, ?_, hanswers.failed⟩
  · intro hfour
    have hzero : s.point.left = 0 := by
      have hle : s.point.left ≤ 4 - steps.count .init := hleft
      omega
    cases hpoint : s.point with
    | returned ret => exact ⟨ret, rfl⟩
    | _ =>
      rw [hpoint] at hzero
      cases hzero
  · intro hdone
    refine ⟨hanswers.works (.inr (.inr hdone)), ?_⟩
    have hfitted : s.board.fitted = (modelled cfg stack s).fitted := by
      rw [htwin.fitted]
      exact congrArg₂ Zeroed.mk (htwin.txRb (.inr hdone)) (htwin.sendingGuardTimer hdone)
    rw [hboard, hfitted]
    rfl

/-- An `OK` line between the first step and the second, with the transmitter ready. -/
def okInWindow : List BootStep :=
  [.init, .interrupt 1 (.uart [⟨[0x4F, 0x4B, 10], some 16⟩]), .interrupt 2 .timer, .init, .init,
    .init]

theorem start_up_is_atomic_ok :
    let s : Boot WordRing DeadlineTimer :=
      boot .default (fun _ _ => 0) ⟨true, true, 0⟩ ⟨⟨0, []⟩, ⟨none⟩⟩ okInWindow
    filled s.board.trace = [] ∧ s.served.length = 2 ∧
      s.board = run .default (fun _ _ => 0) s.served (init .default) := by
  obtain ⟨hunused, -, -, hdone, -⟩ := @start_up_is_atomic WordRing DeadlineTimer _ _ .default
    (fun _ _ => 0) ⟨true, true, 0⟩ ⟨⟨0, []⟩, ⟨none⟩⟩ ⟨rfl, rfl⟩ okInWindow
  exact ⟨hunused.filled, rfl, (hdone rfl).2⟩

end Boot

end EchoBot.MyUartPeripheralB
