/-
# EchoBot.Program.Response — what a component does in so many steps of its own

In a run, a component's own steps and those of others alternate as they please. What it has to do
takes a known amount of `work`, which its own steps lower and no step of the others raises. Then it
is done after as many of its own steps as that, whatever came in between (`reached_within`).

The amount need only behave so until the goal is reached: a component that has reached it may turn
to other work.

Nothing here names a program.
-/
import Mathlib.Data.List.Basic

namespace EchoBot.Program

variable {σ α : Type*}

/-- **`Works step own inv goal work`** — toward `goal`, as long as `inv` holds, own steps lower
`work` and others do not raise it. -/
structure Works (step : σ → α → σ) (own : α → Bool) (inv goal : σ → Prop) (work : σ → Nat) :
    Prop where
  inv_step : ∀ {s}, inv s → ∀ a, inv (step s a)
  /-- A goal that is reached stays reached. -/
  goal_step : ∀ {s}, inv s → goal s → ∀ a, goal (step s a)
  done : ∀ {s}, inv s → work s = 0 → goal s
  own_step : ∀ {s a}, inv s → own a = true → ¬ goal s → work (step s a) < work s
  other_step : ∀ {s a}, inv s → own a = false → work (step s a) ≤ work s

variable {step : σ → α → σ} {own : α → Bool} {inv goal : σ → Prop} {work : σ → Nat}

theorem Works.goal_run (h : Works step own inv goal work) {s : σ} (hinv : inv s) (hgoal : goal s)
    (schedule : List α) : goal (schedule.foldl step s) := by
  induction schedule generalizing s with
  | nil => exact hgoal
  | cons a schedule ih => exact ih (h.inv_step hinv a) (h.goal_step hinv hgoal a)

/-- **Bounded response**: the goal is reached within as many own steps as there is work. -/
theorem Works.reached_within (h : Works step own inv goal work) {s : σ} (hinv : inv s)
    {schedule : List α} (hown : work s ≤ schedule.countP own) : goal (schedule.foldl step s) := by
  induction schedule generalizing s with
  | nil => exact h.done hinv (Nat.le_zero.mp hown)
  | cons a schedule ih =>
    by_cases hgoal : goal s
    · exact h.goal_run hinv hgoal (a :: schedule)
    · apply ih (h.inv_step hinv a)
      cases ha : own a with
      | true =>
        have hless := h.own_step hinv ha hgoal
        rw [List.countP_cons_of_pos ha] at hown
        omega
      | false =>
        rw [List.countP_cons_of_neg (by simp [ha])] at hown
        exact Nat.le_trans (h.other_step hinv ha) hown

end EchoBot.Program
