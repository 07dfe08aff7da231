/-
# EchoBot.MainCdcAcm.Startup — `main_cdc_acm`: waiting for DTR with a timer and a work item

The echo may begin when the host has set DTR. The program does not wait for that in a thread: a
one-shot timer submits a work item, the work handler looks at DTR, and starts the timer again or
registers the interrupt handler. Timer, work queue and interrupts interleave freely.

What keeps this in order is that there is ONE token: it is with the timer, with the work queue, with
the handler, or the start-up is over (`Starting.stage`). So DTR is looked at every 100 ms at the
most, the interrupt handler is registered once, behind the one look that found DTR set, and all that
the echo does from there is a run of `EchoBot.MainCdcAcm.Echo` (`startup_has_one_token`). And the
token moves: a round of timer and work queue with DTR set ends the start-up (`startup_ends`).
-/
import EchoBot.MainCdcAcm.Echo
import Mathlib.Order.Nat

namespace EchoBot.MainCdcAcm

open EchoBot.Zephyr

variable {ρ τ : Type}

/-! ## §1 — the program. -/

/-- The lines of `uart_line_ctrl_set`. -/
inductive LineCtrl where
  | dcd
  | dsr
  deriving DecidableEq, Repr

/-- What the start-up does. -/
inductive Notice where
  /-- `uart_line_ctrl_get(dev, UART_LINE_CTRL_DTR, &dtr)`; `dtr` stays 0 where it fails. -/
  | lineCtrlGet (time : Nat) (dtr : Bool)
  | lineCtrlSet (line : LineCtrl)
  /-- `uart_irq_callback_user_data_set(dev, interrupt_handler, NULL)`. -/
  | callbackUserDataSet
  /-- `uart_irq_rx_enable(dev)`. -/
  | rxEnable
  /-- The log lines of `main_cdc_acm` about a device that is not ready, and about the USB. -/
  | deviceNotReady
  | usbEnableFailed
  deriving DecidableEq, Repr

/-- The board, `my_timer` and `my_work`. -/
structure System (ρ τ : Type) extends Board ρ where
  now : Nat
  myTimer : τ
  /-- `my_work` is in the system work queue. -/
  workSubmitted : Bool
  /-- The work queue has taken it and is in `my_work_handler`. -/
  working : Bool
  /-- The device has an interrupt handler. -/
  handlerSet : Bool
  notices : List Notice

def System.note (s : System ρ τ) (n : Notice) : System ρ τ := { s with notices := s.notices ++ [n] }

/-- `k_work_submit(&my_work)`. -/
def myTimerHandler (s : System ρ τ) : System ρ τ := { s with workSubmitted := true }

/-- `uart_line_set`. What the calls return is only logged. -/
def uartLineSet (s : System ρ τ) : System ρ τ :=
  (s.note (.lineCtrlSet .dcd)).note (.lineCtrlSet .dsr)

variable [OneShotTimer τ]

/-- `my_work_handler`. -/
def myWorkHandler (dtr : Bool) (s : System ρ τ) : System ρ τ :=
  let s := s.note (.lineCtrlGet s.now dtr)
  if dtr = false then { s with myTimer := timerStart s.myTimer s.now 100 }
  else
    let s := uartLineSet s
    let s := { s with handlerSet := true }.note .callbackUserDataSet
    s.note .rxEnable

variable [ByteRing ρ]

/-- `main_cdc_acm`. -/
def mainCdcAcm (deviceIsReady : Bool) (usbEnable : Int) (s : System ρ τ) : System ρ τ :=
  if !deviceIsReady then s.note .deviceNotReady
  else if usbEnable ≠ 0 then s.note .usbEnableFailed
  else
    { s with
      rb := ringInit ringBufSize
      myTimer := timerStart timerInit s.now 100
      workSubmitted := false }

/-- What happens on the board. -/
inductive SystemStep where
  /-- A step of the echo: an interrupt of the device, or a call of `send_cdc_acm`. -/
  | echo (s : Step)
  /-- The kernel looks for timers that are due. -/
  | timerInterrupt
  /-- The work queue takes `my_work`, if it was submitted. -/
  | takeWork
  /-- `my_work_handler` runs, and finds DTR so. -/
  | myWorkHandler (dtr : Bool)

def timerInterrupt (s : System ρ τ) : System ρ τ :=
  match deadline s.myTimer with
  | none => s
  | some due =>
    if due ≤ s.now then myTimerHandler { s with myTimer := timerExpire s.myTimer } else s

/-- A device without a handler drops its interrupts. -/
def echoStep (s : System ρ τ) (e : Step) : System ρ τ :=
  match e with
  | .sendCdcAcm data => { s with toBoard := sendCdcAcm data s.toBoard }
  | .interrupt passes =>
    if s.handlerSet then { s with toBoard := interruptHandler passes s.toBoard } else s

def systemStep (s : System ρ τ) : SystemStep → System ρ τ
  | .echo e => echoStep s e
  | .timerInterrupt => timerInterrupt s
  | .takeWork =>
    if s.workSubmitted && !s.working then { s with workSubmitted := false, working := true } else s
  | .myWorkHandler dtr => if s.working then { myWorkHandler dtr s with working := false } else s

/-- Some steps, each at its time. -/
def systemRun (steps : List (Nat × SystemStep)) (s : System ρ τ) : System ρ τ :=
  steps.foldl (fun s st => systemStep { s with now := st.1 } st.2) s

/-- The board at power-up. -/
def power (now : Nat) : System ρ τ where
  rb := ringInit 0
  txIrq := false
  trace := []
  now
  myTimer := timerInit
  workSubmitted := false
  working := false
  handlerSet := false
  notices := []

/-! ## §2 — one token. -/

/-- The times at which DTR was looked at, and what was found. -/
def polls (ns : List Notice) : List (Nat × Bool) :=
  ns.filterMap fun
    | .lineCtrlGet time dtr => some (time, dtr)
    | _ => none

/-- What was done about it. -/
def setup (ns : List Notice) : List Notice :=
  ns.filter fun
    | .lineCtrlGet _ _ => false
    | _ => true

/-- Who has the token. -/
inductive Stage where
  /-- The timer, which is due then. -/
  | waiting (due : Nat)
  /-- The work queue. -/
  | submitted
  /-- The work handler. -/
  | working
  /-- Nobody: the interrupt handler is registered. -/
  | ready
  deriving DecidableEq, Repr

/-- Timer, work queue, work handler and registration at a stage. -/
def Stage.flags : Stage → Option Nat × Bool × Bool × Bool
  | .waiting due => (some due, false, false, false)
  | .submitted => (none, true, false, false)
  | .working => (none, false, true, false)
  | .ready => (none, false, false, true)

def System.flags (s : System ρ τ) : Option Nat × Bool × Bool × Bool :=
  (deadline s.myTimer, s.workSubmitted, s.working, s.handlerSet)

/-- The looks at DTR made by a stage: all were in vain, but for the last one once the start-up is
over; and the next one will be 100 ms behind them. -/
def Stage.Polled (now : Nat) (ps : List (Nat × Bool)) : Stage → Prop
  | .waiting due => due ≤ now + 100 ∧ ∀ p ∈ ps, p.1 + 100 ≤ due ∧ p.2 = false
  | .submitted => ∀ p ∈ ps, p.1 + 100 ≤ now ∧ p.2 = false
  | .working => ∀ p ∈ ps, p.1 + 100 ≤ now ∧ p.2 = false
  | .ready => ∃ earlier time, ps = earlier ++ [(time, true)] ∧ ∀ p ∈ earlier, p.2 = false

/-- **`Starting s`** — the token is in one place; the looks at DTR are 100 ms apart; and the lines,
the handler and the interrupt were set up once and in order, at the end of it all. -/
structure Starting (s : System ρ τ) : Prop where
  stage : ∃ stage : Stage, s.flags = stage.flags ∧ stage.Polled s.now (polls s.notices)
  paced : (polls s.notices).Pairwise fun p q => p.1 + 100 ≤ q.1
  setup : setup s.notices = if s.handlerSet then
    [.lineCtrlSet .dcd, .lineCtrlSet .dsr, .callbackUserDataSet, .rxEnable] else []

section Token

variable {s : System ρ τ}

omit [OneShotTimer τ] [ByteRing ρ] in
theorem Stage.Polled.mono {stage : Stage} {now now' : Nat} {ps : List (Nat × Bool)}
    (h : stage.Polled now ps) (hle : now ≤ now') : stage.Polled now' ps := by
  cases stage with
  | waiting due => exact ⟨by have := h.1; omega, h.2⟩
  | submitted => exact fun p hp => ⟨(h p hp).1.trans hle, (h p hp).2⟩
  | working => exact fun p hp => ⟨(h p hp).1.trans hle, (h p hp).2⟩
  | ready => exact h

omit [ByteRing ρ] in
/-- Time goes by. -/
theorem Starting.at (h : Starting s) {t : Nat} (ht : s.now ≤ t) : Starting { s with now := t } := by
  obtain ⟨stage, hflags, hpolled⟩ := h.stage
  exact ⟨⟨stage, hflags, hpolled.mono ht⟩, h.paced, h.setup⟩

omit [ByteRing ρ] in
/-- The timer hands the token to the work queue. -/
theorem Starting.timerInterrupt (h : Starting s) : Starting (timerInterrupt s) := by
  obtain ⟨stage, hflags, hpolled⟩ := h.stage
  unfold MainCdcAcm.timerInterrupt
  split
  · exact h
  · next due hdue =>
    split
    · next hle =>
      cases stage with
      | waiting due' =>
        simp only [System.flags, Stage.flags, Prod.mk.injEq] at hflags
        obtain ⟨hdeadline, hsub, hwork, hset⟩ := hflags
        obtain rfl : due' = due := Option.some.inj (hdeadline.symm.trans hdue)
        refine ⟨⟨.submitted, ?_, fun p hp => ⟨(hpolled.2 p hp).1.trans hle, (hpolled.2 p hp).2⟩⟩,
          h.paced, h.setup⟩
        simp [System.flags, Stage.flags, myTimerHandler, hwork, hset]
      | submitted => simp [System.flags, Stage.flags, hdue] at hflags
      | working => simp [System.flags, Stage.flags, hdue] at hflags
      | ready => simp [System.flags, Stage.flags, hdue] at hflags
    · exact h

omit [ByteRing ρ] in
/-- The work handler gives the token back to the timer, or ends the start-up. -/
theorem Starting.myWorkHandler (h : Starting s) (hworking : s.working = true) (dtr : Bool) :
    Starting { myWorkHandler dtr s with working := false } := by
  obtain ⟨stage, hflags, hpolled⟩ := h.stage
  have hstage : stage = .working := by
    cases stage with
    | working => rfl
    | waiting due => simp [System.flags, Stage.flags, hworking] at hflags
    | submitted => simp [System.flags, Stage.flags, hworking] at hflags
    | ready => simp [System.flags, Stage.flags, hworking] at hflags
  subst hstage
  simp only [System.flags, Stage.flags, Prod.mk.injEq] at hflags
  obtain ⟨hdeadline, hsub, -, hset⟩ := hflags
  have hpaced : (polls s.notices ++ [(s.now, dtr)]).Pairwise fun p q => p.1 + 100 ≤ q.1 := by
    refine List.pairwise_append.mpr ⟨h.paced, List.pairwise_singleton _ _, ?_⟩
    intro p hp q hq
    rw [List.mem_singleton.mp hq]
    exact (hpolled p hp).1
  have hnone := h.setup
  rw [hset] at hnone
  cases dtr with
  | false =>
    have hpolls : polls (s.notices ++ [.lineCtrlGet s.now false]) =
        polls s.notices ++ [(s.now, false)] := List.filterMap_append
    refine ⟨⟨.waiting (s.now + 100), ?_, Nat.le_refl _, ?_⟩, ?_, ?_⟩
    · simp [System.flags, Stage.flags, MainCdcAcm.myWorkHandler, System.note, hsub, hset]
    · show ∀ p ∈ polls (s.notices ++ [.lineCtrlGet s.now false]), _
      rw [hpolls, List.forall_mem_append]
      refine ⟨fun p hp => ⟨?_, (hpolled p hp).2⟩, fun p hp => ?_⟩
      · have := (hpolled p hp).1
        omega
      · rw [List.mem_singleton.mp hp]
        exact ⟨Nat.le_refl _, rfl⟩
    · show (polls (s.notices ++ [.lineCtrlGet s.now false])).Pairwise _
      rw [hpolls]
      exact hpaced
    · show MainCdcAcm.setup (s.notices ++ [.lineCtrlGet s.now false]) =
        if s.handlerSet then _ else _
      rw [hset, MainCdcAcm.setup, List.filter_append]
      exact (List.append_nil _).trans hnone
  | true =>
    have hnotices : (MainCdcAcm.myWorkHandler true s).notices =
        s.notices ++ [.lineCtrlGet s.now true, .lineCtrlSet .dcd, .lineCtrlSet .dsr,
          .callbackUserDataSet, .rxEnable] := by
      simp [MainCdcAcm.myWorkHandler, uartLineSet, System.note]
    have hpolls : polls (MainCdcAcm.myWorkHandler true s).notices =
        polls s.notices ++ [(s.now, true)] := by
      rw [hnotices]
      exact List.filterMap_append
    refine ⟨⟨.ready, ?_, polls s.notices, s.now, hpolls, fun p hp => (hpolled p hp).2⟩, ?_, ?_⟩
    · simp [System.flags, Stage.flags, MainCdcAcm.myWorkHandler, uartLineSet, System.note,
        hdeadline, hsub]
    · show (polls (MainCdcAcm.myWorkHandler true s).notices).Pairwise _
      rw [hpolls]
      exact hpaced
    · show MainCdcAcm.setup (MainCdcAcm.myWorkHandler true s).notices = _
      rw [hnotices, MainCdcAcm.setup, List.filter_append]
      exact (congrArg (· ++ _) hnone).trans (List.nil_append _)

/-- **Every step keeps the token.** -/
theorem Starting.step (h : Starting s) (st : SystemStep) : Starting (systemStep s st) := by
  cases st with
  | echo e =>
    cases e with
    | sendCdcAcm data => exact ⟨h.stage, h.paced, h.setup⟩
    | interrupt passes =>
      show Starting (if s.handlerSet then _ else s)
      split
      · exact ⟨h.stage, h.paced, h.setup⟩
      · exact h
  | timerInterrupt => exact h.timerInterrupt
  | takeWork =>
    show Starting (if s.workSubmitted && !s.working then _ else s)
    split
    · next htake =>
      obtain ⟨hsub, -⟩ : s.workSubmitted = true ∧ s.working = false := by simpa using htake
      obtain ⟨stage, hflags, hpolled⟩ := h.stage
      cases stage with
      | submitted =>
        simp only [System.flags, Stage.flags, Prod.mk.injEq] at hflags
        obtain ⟨hdeadline, -, -, hset⟩ := hflags
        exact ⟨⟨.working, by simp [System.flags, Stage.flags, hdeadline, hset], hpolled⟩, h.paced,
          h.setup⟩
      | waiting due => simp [System.flags, Stage.flags, hsub] at hflags
      | working => simp [System.flags, Stage.flags, hsub] at hflags
      | ready => simp [System.flags, Stage.flags, hsub] at hflags
    · exact h
  | myWorkHandler dtr =>
    show Starting (if s.working then _ else s)
    split
    · next hworking => exact h.myWorkHandler hworking dtr
    · exact h

/-- The board is one that a run of the echo leaves. -/
def Echoes (b : Board ρ) : Prop := ∃ steps, b = run steps init

omit [OneShotTimer τ] in
theorem Echoes.step {b : Board ρ} (h : Echoes b) (e : Step) : Echoes (MainCdcAcm.step b e) := by
  obtain ⟨steps, rfl⟩ := h
  refine ⟨steps ++ [e], ?_⟩
  rw [run, run, List.foldl_append]
  rfl

/-- What a step does to the board is a step of the echo, or nothing. -/
theorem Echoes.systemStep (h : Echoes s.toBoard) (st : SystemStep) :
    Echoes (systemStep s st).toBoard := by
  cases st with
  | echo e =>
    cases e with
    | sendCdcAcm data => exact h.step (.sendCdcAcm data)
    | interrupt passes =>
      show Echoes (System.toBoard (if s.handlerSet then _ else s))
      split
      · exact h.step (.interrupt passes)
      · exact h
  | timerInterrupt =>
    show Echoes (timerInterrupt s).toBoard
    unfold timerInterrupt
    split
    · exact h
    · split <;> exact h
  | takeWork =>
    show Echoes (System.toBoard (if s.workSubmitted && !s.working then _ else s))
    split <;> exact h
  | myWorkHandler dtr =>
    show Echoes (System.toBoard (if s.working then _ else s))
    split
    · cases dtr <;> exact h
    · exact h

/-- The token at the end of `main_cdc_acm`: the timer has it. -/
theorem starting_mainCdcAcm (now : Nat) :
    Starting (mainCdcAcm true 0 (power now) : System ρ τ) := by
  refine ⟨⟨.waiting (now + 100), ?_, Nat.le_refl _, ?_⟩, List.Pairwise.nil, rfl⟩
  · simp [System.flags, Stage.flags, mainCdcAcm, power]
  · intro p hp
    cases hp

omit [ByteRing ρ] in
@[simp] theorem timerInterrupt_now (s : System ρ τ) : (timerInterrupt s).now = s.now := by
  unfold timerInterrupt
  split
  · rfl
  · split <;> rfl

/-- The clock is set by the runs. -/
theorem systemStep_now (s : System ρ τ) (st : SystemStep) : (systemStep s st).now = s.now := by
  cases st with
  | echo e =>
    cases e with
    | sendCdcAcm data => rfl
    | interrupt passes =>
      show System.now (if s.handlerSet then _ else s) = _
      split <;> rfl
  | timerInterrupt => exact timerInterrupt_now s
  | takeWork =>
    show System.now (if s.workSubmitted && !s.working then _ else s) = _
    split <;> rfl
  | myWorkHandler dtr =>
    show System.now (if s.working then _ else s) = _
    split
    · cases dtr <;> rfl
    · rfl

/-- **The run lemma.** -/
theorem Starting.run {s : System ρ τ} {steps : List (Nat × SystemStep)} (hs : Starting s)
    (hecho : Echoes s.toBoard) (hclock : (s.now :: steps.map Prod.fst).Pairwise (· ≤ ·)) :
    Starting (systemRun steps s) ∧ Echoes (systemRun steps s).toBoard := by
  induction steps generalizing s with
  | nil => exact ⟨hs, hecho⟩
  | cons st steps ih =>
    obtain ⟨hfirst, hrest⟩ := List.pairwise_cons.mp hclock
    have hnow := systemStep_now { s with now := st.1 } st.2
    refine ih ((hs.at (hfirst st.1 (by simp))).step st.2) ?_ ?_
    · exact Echoes.systemStep (s := { s with now := st.1 }) hecho st.2
    · rw [hnow]
      exact hrest

/-- **The start-up, in every run.** However timer, work queue, DTR and interrupts interleave, as
long as the clock does not go back: there is one token; DTR is looked at 100 ms apart; the interrupt
handler is registered once, at the look that found DTR set and not before, behind the control lines
and before the RX interrupt; and the board is one that a run of the echo leaves. -/
theorem startup_has_one_token (now : Nat) (steps : List (Nat × SystemStep))
    (hclock : (now :: steps.map Prod.fst).Pairwise (· ≤ ·)) :
    Starting (systemRun steps (mainCdcAcm true 0 (power now)) : System ρ τ) ∧
      Echoes (systemRun steps (mainCdcAcm true 0 (power now)) : System ρ τ).toBoard :=
  (starting_mainCdcAcm now).run ⟨[], rfl⟩ hclock

end Token

/-- A host that sets DTR after the first look. -/
theorem startup_has_one_token_late :
    let s : System OctetRing DeadlineTimer := systemRun [(100, .timerInterrupt), (100, .takeWork),
      (101, .echo (.interrupt [⟨[0x61], none⟩])), (102, .myWorkHandler false),
      (202, .timerInterrupt), (203, .takeWork), (203, .myWorkHandler true),
      (204, .echo (.interrupt [⟨[0x61], some 64⟩]))] (mainCdcAcm true 0 (power 0))
    Starting s ∧ Echoes s.toBoard :=
  startup_has_one_token 0 _ (by decide)

/-! ## §3 — the token moves. -/

/-- Where a step leads from a stage. -/
def Stage.next (now : Nat) : Stage → SystemStep → Stage
  | .waiting due, .timerInterrupt => if due ≤ now then .submitted else .waiting due
  | .submitted, .takeWork => .working
  | .working, .myWorkHandler dtr => if dtr = false then .waiting (now + 100) else .ready
  | stage, _ => stage

section Progress

variable {s : System ρ τ}

/-- **The stages simulate the system.** -/
theorem flags_systemStep {stage : Stage} (h : s.flags = stage.flags) (st : SystemStep) :
    (systemStep s st).flags = (stage.next s.now st).flags := by
  cases st with
  | echo e =>
    have hsame : (systemStep s (.echo e)).flags = s.flags := by
      cases e with
      | sendCdcAcm data => rfl
      | interrupt passes =>
        show System.flags (if s.handlerSet then _ else s) = _
        split <;> rfl
    have hnext : stage.next s.now (.echo e) = stage := by cases stage <;> rfl
    rw [hsame, h, hnext]
  | timerInterrupt =>
    show (timerInterrupt s).flags = _
    cases stage with
    | waiting due =>
      simp only [System.flags, Stage.flags, Prod.mk.injEq] at h
      obtain ⟨hdeadline, hsub, hwork, hset⟩ := h
      simp only [timerInterrupt, hdeadline, Stage.next]
      split
      · simp [System.flags, Stage.flags, myTimerHandler, hwork, hset]
      · simp [System.flags, Stage.flags, hdeadline, hsub, hwork, hset]
    | submitted => simpa [timerInterrupt, (Prod.mk.inj h).1, Stage.next] using h
    | working => simpa [timerInterrupt, (Prod.mk.inj h).1, Stage.next] using h
    | ready => simpa [timerInterrupt, (Prod.mk.inj h).1, Stage.next] using h
  | takeWork =>
    show System.flags (if s.workSubmitted && !s.working then _ else s) = _
    simp only [System.flags, Prod.ext_iff] at h
    cases stage <;> simp_all [Stage.flags, Stage.next, System.flags]
  | myWorkHandler dtr =>
    show System.flags (if s.working then _ else s) = _
    simp only [System.flags, Prod.ext_iff] at h
    cases stage <;> cases dtr <;>
      simp_all [Stage.flags, Stage.next, System.flags, myWorkHandler, uartLineSet, System.note]

/-- How far a stage is. -/
def Stage.rank : Stage → Nat
  | .waiting _ => 0
  | .submitted => 1
  | .working => 2
  | .ready => 3

/-- **`Reached n limit s`** — the token has come `n` places far, and a timer that has it is due by
`limit`. -/
def Reached (n limit : Nat) (s : System ρ τ) : Prop :=
  ∃ stage : Stage, s.flags = stage.flags ∧ n ≤ stage.rank ∧
    ∀ due, stage = .waiting due → due ≤ limit

/-- The steps at which DTR is looked at find it set. -/
def DtrSet (steps : List (Nat × SystemStep)) : Prop :=
  ∀ st ∈ steps, st.2 ≠ .myWorkHandler false

omit [OneShotTimer τ] [ByteRing ρ] in
/-- With DTR set, no step takes the token back, and none starts the timer. -/
theorem Stage.next_forward (stage : Stage) {st : SystemStep} (hst : st ≠ .myWorkHandler false)
    (t : Nat) : stage.rank ≤ (stage.next t st).rank ∧
      ∀ due, stage.next t st = .waiting due → stage = .waiting due := by
  cases stage with
  | waiting due =>
    cases st with
    | timerInterrupt =>
      by_cases hdue : due ≤ t
      · simp [Stage.next, Stage.rank, hdue]
      · simp [Stage.next, hdue]
    | echo e => exact ⟨Nat.le_refl 0, fun _ h => h⟩
    | takeWork => exact ⟨Nat.le_refl 0, fun _ h => h⟩
    | myWorkHandler dtr => exact ⟨Nat.le_refl 0, fun _ h => h⟩
  | submitted =>
    cases st with
    | takeWork => exact ⟨Nat.le_succ 1, fun _ h => nomatch h⟩
    | echo e => exact ⟨Nat.le_refl 1, fun _ h => h⟩
    | timerInterrupt => exact ⟨Nat.le_refl 1, fun _ h => h⟩
    | myWorkHandler dtr => exact ⟨Nat.le_refl 1, fun _ h => h⟩
  | working =>
    cases st with
    | myWorkHandler dtr =>
      cases dtr with
      | false => exact absurd rfl hst
      | true => exact ⟨Nat.le_succ 2, fun _ h => nomatch h⟩
    | echo e => exact ⟨Nat.le_refl 2, fun _ h => h⟩
    | timerInterrupt => exact ⟨Nat.le_refl 2, fun _ h => h⟩
    | takeWork => exact ⟨Nat.le_refl 2, fun _ h => h⟩
  | ready => exact ⟨Nat.le_refl 3, fun _ h => h⟩

theorem Reached.step {n limit : Nat} (h : Reached n limit s) {st : SystemStep}
    (hst : st ≠ .myWorkHandler false) (t : Nat) :
    Reached n limit (systemStep { s with now := t } st) := by
  obtain ⟨stage, hflags, hrank, hdue⟩ := h
  obtain ⟨hforward, htimer⟩ := stage.next_forward hst t
  exact ⟨stage.next t st, flags_systemStep (s := { s with now := t }) hflags st,
    hrank.trans hforward, fun due h => hdue due (htimer due h)⟩

theorem Reached.run {n limit : Nat} {steps : List (Nat × SystemStep)} (hdtr : DtrSet steps)
    (h : Reached n limit s) : Reached n limit (systemRun steps s) :=
  List.foldlRecOn (motive := Reached n limit) steps _ h
    fun _ hs st hst => hs.step (hdtr st hst) st.1

/-- **Each of the three moves the token on.** -/
theorem Reached.timerInterrupt {limit : Nat} (h : Reached 0 limit s) {t : Nat} (ht : limit ≤ t) :
    Reached 1 limit (systemStep { s with now := t } .timerInterrupt) := by
  obtain ⟨stage, hflags, -, hdue⟩ := h
  refine ⟨stage.next t .timerInterrupt,
    flags_systemStep (s := { s with now := t }) hflags .timerInterrupt, ?_⟩
  cases stage with
  | waiting due =>
    rw [Stage.next, if_pos ((hdue due rfl).trans ht)]
    exact ⟨Nat.le_refl 1, fun due' h' => nomatch h'⟩
  | submitted => exact ⟨Nat.le_refl 1, fun due' h' => nomatch h'⟩
  | working => exact ⟨Nat.le_succ 1, fun due' h' => nomatch h'⟩
  | ready => exact ⟨Nat.le_add_left 1 2, fun due' h' => nomatch h'⟩

theorem Reached.takeWork {limit : Nat} (h : Reached 1 limit s) (t : Nat) :
    Reached 2 limit (systemStep { s with now := t } .takeWork) := by
  obtain ⟨stage, hflags, hrank, -⟩ := h
  refine ⟨stage.next t .takeWork, flags_systemStep (s := { s with now := t }) hflags .takeWork, ?_⟩
  cases stage with
  | waiting due => simp [Stage.rank] at hrank
  | submitted => exact ⟨Nat.le_refl 2, fun due' h' => nomatch h'⟩
  | working => exact ⟨Nat.le_refl 2, fun due' h' => nomatch h'⟩
  | ready => exact ⟨Nat.le_succ 2, fun due' h' => nomatch h'⟩

theorem Reached.myWorkHandler {limit : Nat} (h : Reached 2 limit s) (t : Nat) :
    Reached 3 limit (systemStep { s with now := t } (.myWorkHandler true)) := by
  obtain ⟨stage, hflags, hrank, -⟩ := h
  refine ⟨stage.next t (.myWorkHandler true),
    flags_systemStep (s := { s with now := t }) hflags (.myWorkHandler true), ?_⟩
  cases stage with
  | waiting due => simp [Stage.rank] at hrank
  | submitted => simp [Stage.rank] at hrank
  | working => exact ⟨Nat.le_refl 3, fun due' h' => nomatch h'⟩
  | ready => exact ⟨Nat.le_refl 3, fun due' h' => nomatch h'⟩

omit [ByteRing ρ] in
theorem Reached.handlerSet {limit : Nat} (h : Reached 3 limit s) : s.handlerSet = true := by
  obtain ⟨stage, hflags, hrank, -⟩ := h
  cases stage with
  | waiting due => simp [Stage.rank] at hrank
  | submitted => simp [Stage.rank] at hrank
  | working => simp [Stage.rank] at hrank
  | ready => exact (Prod.mk.inj (Prod.mk.inj (Prod.mk.inj hflags).2).2).2

/-- **`Round limit steps`** — somewhere in the steps, among whatever else, the kernel looks for
timers at `limit` or later, the work queue then takes its work, and the work handler then runs. -/
def Round (limit : Nat) (steps : List (Nat × SystemStep)) : Prop :=
  ∃ before t₁ between t₂ between' t₃ after,
    steps = before ++ (t₁, .timerInterrupt) :: (between ++ (t₂, .takeWork) ::
      (between' ++ (t₃, .myWorkHandler true) :: after)) ∧ limit ≤ t₁

omit [ByteRing ρ] in
theorem Starting.reached (h : Starting s) : Reached 0 (s.now + 100) s := by
  obtain ⟨stage, hflags, hpolled⟩ := h.stage
  refine ⟨stage, hflags, Nat.zero_le _, ?_⟩
  rintro due rfl
  exact hpolled.1

end Progress

/-- **The start-up ends.** Behind every run, wherever it has left the token: if DTR is set from then
on, one round of timer and work queue, 100 ms or more later, leaves the interrupt handler
registered, whatever happens in between. -/
theorem startup_ends (now : Nat) (steps : List (Nat × SystemStep))
    (hclock : (now :: steps.map Prod.fst).Pairwise (· ≤ ·)) (more : List (Nat × SystemStep))
    (hdtr : DtrSet more)
    (hround : Round ((systemRun steps (mainCdcAcm true 0 (power now)) : System ρ τ).now + 100)
      more) :
    (systemRun more (systemRun steps (mainCdcAcm true 0 (power now))) :
      System ρ τ).handlerSet = true := by
  have hstarting : Starting (systemRun steps (mainCdcAcm true 0 (power now)) : System ρ τ) :=
    ((starting_mainCdcAcm now).run ⟨[], rfl⟩ hclock).1
  have hstart := hstarting.reached
  clear hstarting
  generalize (systemRun steps (mainCdcAcm true 0 (power now)) : System ρ τ) = s at hround hstart ⊢
  obtain ⟨before, t₁, between, t₂, between', t₃, after, rfl, hlimit⟩ := hround
  simp only [DtrSet, List.forall_mem_append, List.forall_mem_cons] at hdtr
  obtain ⟨hbefore, -, hbetween, -, hbetween', -, hafter⟩ := hdtr
  have hdue := (hstart.run hbefore).timerInterrupt hlimit
  have htaken := (hdue.run hbetween).takeWork t₂
  have hready := (htaken.run hbetween').myWorkHandler t₃
  have hlast := (hready.run hafter).handlerSet
  simpa only [systemRun, List.foldl_append, List.foldl_cons] using hlast

theorem startup_ends_late :
    (systemRun [(202, .timerInterrupt), (203, .takeWork), (203, .myWorkHandler true),
        (204, .timerInterrupt)] (systemRun [(100, .timerInterrupt), (100, .takeWork),
          (102, .myWorkHandler false)] (mainCdcAcm true 0 (power 0))) :
      System OctetRing DeadlineTimer).handlerSet = true :=
  @startup_ends OctetRing DeadlineTimer _ _ 0 [(100, .timerInterrupt), (100, .takeWork),
    (102, .myWorkHandler false)] (by decide) [(202, .timerInterrupt), (203, .takeWork),
    (203, .myWorkHandler true), (204, .timerInterrupt)] (by simp [DtrSet])
    ⟨[], 202, [], 203, [], 203, [(204, .timerInterrupt)], rfl, by decide⟩

end EchoBot.MainCdcAcm
