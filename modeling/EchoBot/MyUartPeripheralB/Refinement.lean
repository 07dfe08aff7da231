/-
# EchoBot.MyUartPeripheralB.Refinement — the driver is a stop-and-wait sender with a timeout

`EchoBot.Protocol.StopAndWait` says what a stop-and-wait sender is: a queue, and a time until which
an answer is awaited. The driver keeps its queue as items of words in a ring buffer, and its wait as
a flag beside a kernel timer that an `OK` line does not stop. `Represents` relates the two, and
`run_refines_sender` is the simulation: whatever a run of the driver shows is a run of the abstract
sender, with the guard set exactly while that one awaits an answer.

From the abstract sender the driver inherits its pace (`fills_are_paced`): a peer that stays silent
is sent one message each 5000 ms and no more, and every `OK` line is worth one message. It inherits
the conservation of messages, too, and both together say how the ring buffer fills up
(`backlog_grows`).
-/
import EchoBot.MyUartPeripheralB.StopAndWait
import EchoBot.Protocol.StopAndWait

namespace EchoBot.MyUartPeripheralB

open EchoBot.Protocol
open EchoBot.Zephyr

variable {ρ τ : Type}

/-! ## §1 — the simulation relation. -/

/-- What an event is to the abstract sender. -/
def action : Event → Option (Action (List UInt8))
  | .userSendData call => if call.queued then some (.submit (sendPrefix ++ call.data)) else none
  | .fifoFill time buf _ => some (.transmit time buf)
  | .guardReleased _ => some .acknowledge
  | .timerExpired time => some (.expire time)
  | _ => none

def actions (t : List Event) : List (Action (List UInt8)) := t.filterMap action

@[simp] theorem actions_append (t u : List Event) : actions (t ++ u) = actions t ++ actions u :=
  List.filterMap_append

theorem actions_of_isNeutral {e : Event} (he : e.isNeutral = true) : actions [e] = [] :=
  Event.neutral_cases (P := fun e => actions [e] = []) he (fun _ _ => rfl) (fun _ => rfl)
    fun _ => rfl

section Simulation

variable [ItemRing ρ] [OneShotTimer τ]

/-- **`Represents cfg b s`** — the items carry the messages that wait, the guard is set exactly
while an answer is awaited, and the timer is due when that wait ends. -/
structure Represents (cfg : Config) (b : Board ρ τ) (s : Sender (List UInt8)) : Prop where
  pending : List.Forall₂ Carries (items b.txRb) s.pending
  fitting : ∀ msg ∈ s.pending, msg.length ≤ cfg.txBufWords * 4
  guarded : b.sendingGuard = s.waiting.isSome
  armed : ∀ due ∈ s.waiting, deadline b.sendingGuardTimer = some due

/-- **`Simulated cfg b`** — what the trace of `b` shows is a run of the abstract sender, from idle
to a state that `b` represents. -/
def Simulated (cfg : Config) (b : Board ρ τ) : Prop :=
  ∃ s, Run 5000 .idle (actions b.trace) s ∧ Represents cfg b s

variable {cfg : Config} {stack : Stack} {b b' : Board ρ τ}

/-- A step the abstract sender does not see. -/
theorem Simulated.of_silent (hb : Simulated cfg b) (hrb : b'.txRb = b.txRb)
    (hguard : b'.sendingGuard = b.sendingGuard)
    (htimer : b'.sendingGuardTimer = b.sendingGuardTimer)
    (htrace : actions b'.trace = actions b.trace) : Simulated cfg b' := by
  obtain ⟨s, hrun, hrep⟩ := hb
  refine ⟨s, htrace ▸ hrun, ?_, hrep.fitting, ?_, ?_⟩
  · rw [hrb]
    exact hrep.pending
  · rw [hguard]
    exact hrep.guarded
  · rw [htimer]
    exact hrep.armed

/-- A step the abstract sender makes as well. -/
theorem Simulated.of_action {s s' : Sender (List UInt8)} {a : Action (List UInt8)}
    (hrun : Run 5000 .idle (actions b.trace) s) {e : Event} (htrace : b'.trace = b.trace ++ [e])
    (he : action e = some a) (hstep : Protocol.Step 5000 s a s') (hrep : Represents cfg b' s') :
    Simulated cfg b' := by
  refine ⟨s', ?_, hrep⟩
  have hone : actions [e] = [a] := by simp [actions, he]
  rw [htrace, actions_append, hone]
  exact hrun.snoc hstep

theorem Simulated.releaseGuard (hb : Simulated cfg b) : Simulated cfg (releaseGuard b) := by
  rcases releaseGuard_cases b with ⟨-, heq⟩ | ⟨-, heq⟩
  · rwa [heq]
  · rw [heq]
    obtain ⟨s, hrun, hrep⟩ := hb
    exact .of_action hrun (Board.log_trace _ _) rfl .acknowledge
      ⟨hrep.pending, hrep.fitting, rfl, by simp⟩

theorem Simulated.timerInterrupt (hb : Simulated cfg b) : Simulated cfg (timerInterrupt b) := by
  rcases timerInterrupt_cases b with heq | ⟨due, hdue, hle, heq⟩
  · rwa [heq]
  · rw [heq]
    obtain ⟨s, hrun, hrep⟩ := hb
    refine .of_action hrun (Board.log_trace _ _) rfl (.expire b.now ?_)
      ⟨hrep.pending, hrep.fitting, rfl, by simp⟩
    -- while an answer is awaited, the timer that went off is the one of that wait
    intro due' hwaiting
    obtain rfl : due = due' := Option.some.inj (hdue.symm.trans (hrep.armed due' hwaiting))
    exact hle

theorem Simulated.userSendData (hb : Simulated cfg b) (data : List UInt8)
    (hW : cfg.txBufWords < 255) (hfit : Fitting cfg (userSendData cfg stack data b).trace) :
    Simulated cfg (userSendData cfg stack data b) := by
  rcases userSendData_cases cfg stack data b with ⟨rb, hput, heq⟩ | ⟨-, heq⟩
  · rw [heq] at hfit ⊢
    have hdata : data.length + 5 ≤ cfg.txBufWords * 4 := by
      have hcall := hfit (sendCall cfg stack data b true) (by simp [sendCalls])
      rwa [sendCall_eq] at hcall
    obtain ⟨s, hrun, hrep⟩ := hb
    refine .of_action hrun (Board.log_trace _ _) ?_ (.submit (sendPrefix ++ data)) ⟨?_, ?_, ?_, ?_⟩
    · rw [sendCall_eq]
      rfl
    · show List.Forall₂ Carries (items rb) _
      rw [ItemRing.itemPut_some hput]
      exact List.rel_append hrep.pending
        (.cons (sendItem_carries cfg stack b (by omega)) .nil)
    · intro msg hmsg
      rcases List.mem_append.mp hmsg with hold | hnew
      · exact hrep.fitting msg hold
      · rw [List.mem_singleton.mp hnew, List.length_append, Nat.add_comm]
        exact hdata
    · exact hrep.guarded
    · exact hrep.armed
  · rw [heq]
    refine hb.of_silent rfl rfl rfl ?_
    rw [Board.log_trace, actions_append, sendCall_eq]
    exact List.append_nil _

theorem Simulated.transmit (hb : Simulated cfg b) (room : Nat) (hW : cfg.txBufWords < 255) :
    Simulated cfg (transmit cfg stack room b) := by
  rcases transmit_cases cfg stack room b with
    ⟨-, heq⟩ | ⟨-, -, heq⟩ | ⟨-, -, heq⟩ | ⟨item, rb, hguard, hget, heq⟩
  · rw [heq]
    exact hb.of_silent rfl rfl rfl rfl
  · rw [heq]
    exact hb.of_silent rfl rfl rfl rfl
  · rw [heq]
    exact hb.of_silent rfl rfl rfl rfl
  · rw [heq]
    obtain ⟨⟨pending, waiting⟩, hrun, hrep⟩ := hb
    -- a clear guard is a sender that awaits nothing
    obtain rfl : waiting = none := by
      have hnone := hrep.guarded.symm.trans hguard
      simpa using hnone
    -- the item that left the ring carries the oldest message, and is filled as it
    have hcarry := hrep.pending
    rw [(items_of_itemGet_ok hget).1] at hcarry
    obtain ⟨msg, rest, hmsg, hrest, hpending⟩ := List.forall₂_cons_left_iff.mp hcarry
    obtain rfl : pending = msg :: rest := hpending
    obtain ⟨hmsgLen, hrestLen⟩ := List.forall_mem_cons.mp hrep.fitting
    have hbytes : itemBytes stack item b = msg := itemBytes_of_carries stack hmsg (by omega) b
    refine .of_action hrun (Board.log_trace _ _) ?_ (.transmit b.now msg rest)
      ⟨hrest, hrestLen, rfl, ?_⟩
    · rw [hbytes]
      rfl
    · rintro due ⟨⟩
      exact OneShotTimer.deadline_timerStart _ _ _

/-- The board behind initialization is the idle sender. -/
theorem simulated_init : Simulated cfg (init cfg : Board ρ τ) :=
  ⟨.idle, .nil, by simp [init, Sender.idle], by simp [Sender.idle], rfl, by simp [Sender.idle]⟩

/-- **The simulation along a run.** -/
theorem Simulated.run (hb : Simulated cfg b) (hW : cfg.txBufWords < 255) (steps : List (Nat × Step))
    (hfit : Fitting cfg (run cfg stack steps b).trace) :
    Simulated cfg (run cfg stack steps b) := by
  refine tx_run_induction_of_sends ?_ ?_ ?_ ?_ ?_ steps hb hfit
  · intro b b' hframe hb
    refine hb.of_silent hframe.txRb hframe.sendingGuard hframe.sendingGuardTimer ?_
    rcases hframe.trace with htrace | ⟨e, htrace, he⟩
    · rw [htrace]
    · rw [htrace, actions_append, actions_of_isNeutral he, List.append_nil]
  · intro b hb
    exact hb.releaseGuard
  · intro b data hcalls hb
    exact hb.userSendData data hW hcalls
  · intro b room hb
    exact hb.transmit room hW
  · intro b hb
    exact hb.timerInterrupt

/-- **The driver refines the abstract sender.** In every state of every run whose messages fit the
transmit buffer, whatever the callback does and however sends, received bytes, expiries and transmit
interrupts follow each other: the trace is a run of a stop-and-wait sender with a timeout of 5000
ms, and the board represents the state that run ends in. -/
theorem run_refines_sender (cfg : Config) (hW : cfg.txBufWords < 255) (stack : Stack)
    (steps : List (Nat × Step))
    (hfit : Fitting cfg (run cfg stack steps (init cfg) : Board ρ τ).trace) :
    Simulated cfg (run cfg stack steps (init cfg) : Board ρ τ) :=
  simulated_init.run hW steps hfit

/-- A message acknowledged, one that times out behind a stale deadline, and one that waits. -/
def threeSends : List (Nat × Step) :=
  [(0, .userSendData [0x41]), (0, .userSendData [0x42]), (0, .userSendData [0x43]),
    (0, .uartInterrupt [⟨[], some 100⟩]), (2000, .uartInterrupt [⟨[0x4F, 0x4B, 10], some 100⟩]),
    (5000, .timerInterrupt), (7000, .timerInterrupt)]

theorem run_refines_sender_three :
    Simulated .default (run .default (fun _ _ => 0) threeSends
      (init .default) : Board WordRing DeadlineTimer) :=
  run_refines_sender .default (by decide) _ _ (by unfold Fitting; decide +kernel)

end Simulation

/-! ## §2 — the clock of a run. -/

/-- The lines that released the guard. -/
def released (t : List Event) : List (List UInt8) :=
  t.filterMap fun
    | .guardReleased line => some line
    | _ => none

theorem transmitted_actions (t : List Event) : transmitted (actions t) = filled t := by
  rw [transmitted, actions, List.filterMap_filterMap, filled]
  refine List.filterMap_congr fun e _ => ?_
  cases e with
  | userSendData call => cases hq : call.queued <;> simp [action, hq]
  | _ => rfl

theorem submitted_actions (t : List Event) : submitted (actions t) = queued t := by
  rw [submitted, actions, List.filterMap_filterMap, queued]
  refine List.filterMap_congr fun e _ => ?_
  cases e with
  | userSendData call => cases hq : call.queued <;> simp [action, hq]
  | _ => rfl

theorem answers_actions (t : List Event) : answers (actions t) = (released t).length := by
  induction t with
  | nil => rfl
  | cons e t ih =>
    have hcons : actions (e :: t) = actions [e] ++ actions t := actions_append [e] t
    rw [hcons, answers_append, ih]
    cases e with
    | userSendData call => cases hq : call.queued <;> simp [actions, action, hq, released, answers]
    | guardReleased line => exact Nat.add_comm 1 _
    | _ => exact Nat.zero_add _

/-- **`Clocked start b`** — the times in the trace do not go back, and lie between `start` and
now. -/
structure Clocked (start : Nat) (b : Board ρ τ) : Prop where
  ordered : (start :: times (actions b.trace)).Pairwise (· ≤ ·)
  past : ∀ t ∈ start :: times (actions b.trace), t ≤ b.now

section Clock

variable {start : Nat} {b b' : Board ρ τ}

/-- The times of the actions are those of the events. -/
theorem times_actions (t : List Event) : times (actions t) = t.filterMap Event.time? := by
  rw [times, actions, List.filterMap_filterMap]
  refine List.filterMap_congr fun e _ => ?_
  cases e with
  | userSendData call => cases hq : call.queued <;> simp [action, hq, Event.time?]
  | _ => rfl

theorem Clocked.frame (hb : Clocked start b) (hframe : EventFrame b b') : Clocked start b' := by
  rcases hframe.trace with htrace | ⟨e, htrace, he⟩
  · exact ⟨htrace ▸ hb.ordered, htrace ▸ hframe.now ▸ hb.past⟩
  · have htimes : start :: times (actions b'.trace) =
        (start :: times (actions b.trace)) ++ e.time?.toList := by
      rw [times_actions, times_actions, htrace, List.filterMap_append, List.cons_append]
      cases htime : e.time? <;> simp [htime]
    have hone : e.time?.toList.Pairwise (· ≤ ·) := by
      cases e.time? with
      | none => exact .nil
      | some t => exact List.pairwise_singleton _ t
    have hpresent : ∀ t ∈ e.time?.toList, t = b.now := fun t ht => he t (Option.mem_toList.mp ht)
    refine ⟨?_, ?_⟩
    · rw [htimes, List.pairwise_append]
      refine ⟨hb.ordered, hone, fun t ht u hu => ?_⟩
      rw [hpresent u hu]
      exact hb.past t ht
    · intro t ht
      rw [htimes, List.mem_append] at ht
      rw [hframe.now]
      rcases ht with ht | ht
      · exact hb.past t ht
      · exact (hpresent t ht).le

variable [ItemRing ρ] [OneShotTimer τ] {cfg : Config} {stack : Stack}

/-- A step of the clock's run: the clock is set to the step's time, and the step keeps it. -/
theorem Clocked.step (hb : Clocked start b) {s : Nat × Step} (hs : b.now ≤ s.1) :
    Clocked start (step cfg stack b s) ∧ (step cfg stack b s).now = s.1 := by
  refine event_step_induction (I := fun b => Clocked start b ∧ b.now = s.1) ?_
    ⟨⟨hb.ordered, fun t ht => (hb.past t ht).trans hs⟩, rfl⟩
  rintro b b' hframe ⟨hclock, htime⟩
  exact ⟨hclock.frame hframe, hframe.now.trans htime⟩

/-- **The clock of a run**: it shows the time of the latest step. -/
theorem Clocked.run (hb : Clocked start b) {steps : List (Nat × Step)}
    (hsteps : (b.now :: steps.map Prod.fst).Pairwise (· ≤ ·)) :
    Clocked start (run cfg stack steps b) ∧
      ∀ now, b.now ≤ now → (∀ s ∈ steps, s.1 ≤ now) → (run cfg stack steps b).now ≤ now := by
  induction steps generalizing b with
  | nil => exact ⟨hb, fun now hnow _ => hnow⟩
  | cons s steps ih =>
    obtain ⟨hfirst, hrest⟩ := List.pairwise_cons.mp hsteps
    obtain ⟨hclock, hnow⟩ := @Clocked.step ρ τ start b _ _ cfg stack hb s (hfirst s.1 (by simp))
    obtain ⟨hrun, hlast⟩ := ih hclock (hnow ▸ hrest)
    refine ⟨hrun, fun now _ hle => hlast now ?_ fun s hs => hle s (List.mem_cons_of_mem _ hs)⟩
    rw [hnow]
    exact hle s List.mem_cons_self

end Clock

/-! ## §3 — the pace of the driver. -/

section Pace

variable [ItemRing ρ] [OneShotTimer τ]

variable {cfg : Config} {stack : Stack} {steps : List (Nat × Step)} {now : Nat}

/-- The abstract run of the driver, and its pace. -/
theorem paced_run (hW : cfg.txBufWords < 255) (hclock : (steps.map Prod.fst).Pairwise (· ≤ ·))
    (hnow : ∀ s ∈ steps, s.1 ≤ now)
    (hfit : Fitting cfg (run cfg stack steps (init cfg) : Board ρ τ).trace) :
    ∃ s, Run 5000 .idle (actions (run cfg stack steps (init cfg) : Board ρ τ).trace) s ∧
      Represents cfg (run cfg stack steps (init cfg) : Board ρ τ) s ∧
      5000 * (filled (run cfg stack steps (init cfg) : Board ρ τ).trace).length ≤ now +
        5000 * ((released (run cfg stack steps (init cfg) : Board ρ τ).trace).length + 1) := by
  obtain ⟨s, hrun, hrep⟩ : Simulated cfg (run cfg stack steps (init cfg) : Board ρ τ) :=
    simulated_init.run hW steps hfit
  have hstart : Clocked 0 (init cfg : Board ρ τ) := ⟨by simp [init, actions, times],
    by simp [init, actions, times]⟩
  obtain ⟨hclocked, hlast⟩ := @Clocked.run ρ τ 0 (init cfg) _ _ cfg stack hstart steps
    (List.pairwise_cons.mpr ⟨fun t _ => Nat.zero_le t, hclock⟩)
  have hpacing := hrun.pacing hclocked.ordered fun t ht =>
    (hclocked.past t ht).trans (hlast now (Nat.zero_le now) hnow)
  rw [transmitted_actions, answers_actions, Nat.add_zero] at hpacing
  exact ⟨s, hrun, hrep, hpacing⟩

/-- **The driver's pace.** In every run between the times 0 and `now`, the messages filled are at
most one for each line that released the guard, one for each full 5000 ms, and one more. -/
theorem fills_are_paced (cfg : Config) (hW : cfg.txBufWords < 255) (stack : Stack)
    (steps : List (Nat × Step)) (hclock : (steps.map Prod.fst).Pairwise (· ≤ ·)) (now : Nat)
    (hnow : ∀ s ∈ steps, s.1 ≤ now)
    (hfit : Fitting cfg (run cfg stack steps (init cfg) : Board ρ τ).trace) :
    5000 * (filled (run cfg stack steps (init cfg) : Board ρ τ).trace).length ≤
      now + 5000 * ((released (run cfg stack steps (init cfg) : Board ρ τ).trace).length + 1) := by
  obtain ⟨-, -, -, hpace⟩ := @paced_run ρ τ _ _ cfg stack steps now hW hclock hnow hfit
  exact hpace

theorem fills_are_paced_three :
    5000 * (filled (run .default (fun _ _ => 0) threeSends
        (init .default) : Board WordRing DeadlineTimer).trace).length ≤
      7000 + 5000 * ((released (run .default (fun _ _ => 0) threeSends
        (init .default) : Board WordRing DeadlineTimer).trace).length + 1) :=
  fills_are_paced .default (by decide) _ _ (by decide) 7000 (by decide)
    (by unfold Fitting; decide +kernel)

/-- **The backlog.** What is accepted beyond the pace waits in `tx_rb`, so that a user who goes on
sending faster fills it. -/
theorem backlog_grows (hW : cfg.txBufWords < 255) (hclock : (steps.map Prod.fst).Pairwise (· ≤ ·))
    (hnow : ∀ s ∈ steps, s.1 ≤ now)
    (hfit : Fitting cfg (run cfg stack steps (init cfg) : Board ρ τ).trace) :
    5000 * (queued (run cfg stack steps (init cfg) : Board ρ τ).trace).length ≤
      now + 5000 * ((released (run cfg stack steps (init cfg) : Board ρ τ).trace).length + 1) +
        5000 * (items (run cfg stack steps (init cfg) : Board ρ τ).txRb).length := by
  obtain ⟨s, hrun, hrep, hpace⟩ :=
    @paced_run ρ τ _ _ cfg stack steps now hW hclock hnow hfit
  have hconserved := congrArg List.length hrun.conserves
  rw [submitted_actions, transmitted_actions, List.length_append, ← hrep.pending.length_eq]
    at hconserved
  omega

end Pace

end EchoBot.MyUartPeripheralB
