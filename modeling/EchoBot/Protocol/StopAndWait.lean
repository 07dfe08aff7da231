/-
# EchoBot.Protocol.StopAndWait — a stop-and-wait sender with a timeout, as an abstract machine

A `Sender` keeps the messages waiting and, while one it sent is unanswered, the time at which it
stops waiting for the answer. It may submit, transmit its oldest message when it waits for nothing,
be acknowledged, and give up waiting once the time has come (`Sender.Step`).

What a sender promises is proved of its runs:

* §2 nothing is lost, reordered or duplicated (`Run.conserves`);
* §3 PACING: the messages transmitted are at most the acknowledgements and one more, and one for
  each full timeout that has passed (`Run.pacing`). So a silent peer costs one timeout a message,
  and an answering one none.

Nothing here names a program: the messages are arbitrary.
-/
import Mathlib.Data.List.Basic
import Mathlib.Data.List.Pairwise
import Mathlib.Order.Nat

namespace EchoBot.Protocol

variable {μ : Type*}

/-! ## §1 — the machine. -/

/-- What can happen to a sender. Times are absolute. -/
inductive Action (μ : Type*) where
  /-- The user hands over `m`. -/
  | submit (m : μ)
  /-- `m` goes out at `time`. -/
  | transmit (time : Nat) (m : μ)
  /-- The peer answered. -/
  | acknowledge
  /-- The timer went off at `time`. -/
  | expire (time : Nat)
  deriving DecidableEq, Repr

structure Sender (μ : Type*) where
  /-- The messages to send, oldest first. -/
  pending : List μ
  /-- The time until which an answer is awaited, if one is. -/
  waiting : Option Nat

/-- The sender with nothing to do. -/
def Sender.idle : Sender μ := ⟨[], none⟩

/-- **`Step timeout s a s'`** — the sender `s` may do `a` and is `s'` then. -/
inductive Step (timeout : Nat) : Sender μ → Action μ → Sender μ → Prop
  | submit {s : Sender μ} (m : μ) :
      Step timeout s (.submit m) ⟨s.pending ++ [m], s.waiting⟩
  | transmit (time : Nat) (m : μ) (rest : List μ) :
      Step timeout ⟨m :: rest, none⟩ (.transmit time m) ⟨rest, some (time + timeout)⟩
  | acknowledge {s : Sender μ} : Step timeout s .acknowledge ⟨s.pending, none⟩
  /-- A timer that goes off early is not one of the machine's. -/
  | expire {s : Sender μ} (time : Nat) (hdue : ∀ due ∈ s.waiting, due ≤ time) :
      Step timeout s (.expire time) ⟨s.pending, none⟩

/-- **`Run timeout s as s'`** — the sender goes from `s` to `s'` by the actions `as`. -/
inductive Run (timeout : Nat) (s : Sender μ) : List (Action μ) → Sender μ → Prop
  | nil : Run timeout s [] s
  | snoc {as : List (Action μ)} {s₁ s₂ : Sender μ} {a : Action μ}
      (hrun : Run timeout s as s₁) (hstep : Step timeout s₁ a s₂) : Run timeout s (as ++ [a]) s₂

/-! ## §2 — nothing is lost. -/

/-- The messages handed over. -/
def submitted (as : List (Action μ)) : List μ :=
  as.filterMap fun
    | .submit m => some m
    | _ => none

/-- The messages that went out. -/
def transmitted (as : List (Action μ)) : List μ :=
  as.filterMap fun
    | .transmit _ m => some m
    | _ => none

/-- The number of answers. -/
def answers (as : List (Action μ)) : Nat :=
  as.countP fun
    | .acknowledge => true
    | _ => false

@[simp] theorem submitted_append (as bs : List (Action μ)) :
    submitted (as ++ bs) = submitted as ++ submitted bs := List.filterMap_append

@[simp] theorem transmitted_append (as bs : List (Action μ)) :
    transmitted (as ++ bs) = transmitted as ++ transmitted bs := List.filterMap_append

@[simp] theorem answers_append (as bs : List (Action μ)) :
    answers (as ++ bs) = answers as + answers bs := List.countP_append

variable {timeout : Nat} {s s' : Sender μ} {as : List (Action μ)}

/-- **The messages sent and those waiting are the messages handed over**, in order. -/
theorem Run.conserves (hrun : Run timeout .idle as s) :
    submitted as = transmitted as ++ s.pending := by
  induction hrun with
  | nil => rfl
  | snoc hrun hstep ih =>
    rw [submitted_append, transmitted_append, ih]
    cases hstep with
    | submit m => simp [submitted, transmitted]
    | transmit time m rest => simp [submitted, transmitted]
    | acknowledge => simp [submitted, transmitted]
    | expire time hdue => simp [submitted, transmitted]

/-! ## §3 — the pace. -/

/-- The times of the actions that carry one. -/
def times (as : List (Action μ)) : List Nat :=
  as.filterMap fun
    | .transmit time _ => some time
    | .expire time => some time
    | _ => none

@[simp] theorem times_append (as bs : List (Action μ)) : times (as ++ bs) = times as ++ times bs :=
  List.filterMap_append

/-- **`Paced timeout start now n answered waiting`** — the account of a sender that sent `n`
messages since `start`, had `answered` of them answered and awaits an answer until `waiting`: the
messages are paid for by the time passed until `now`, or until the wait under way ends, and by the
answers, each worth a timeout. -/
structure Paced (timeout start now n answered : Nat) (waiting : Option Nat) : Prop where
  account : timeout * n + start ≤ waiting.getD now + timeout * answered
  horizon : ∀ due ∈ waiting, due ≤ now + timeout

theorem getD_le {waiting : Option Nat} {now t : Nat} (hdue : ∀ due ∈ waiting, due ≤ t)
    (hnow : now ≤ t) : waiting.getD now ≤ t := by
  cases waiting with
  | none => exact hnow
  | some due => exact hdue due rfl

namespace Paced

variable {start now now' n answered : Nat} {waiting : Option Nat}

/-- At the latest a timeout behind now, all is paid for. -/
theorem spent (h : Paced timeout start now n answered waiting) :
    timeout * n + start ≤ now + timeout * (answered + 1) := by
  have hwait : waiting.getD now ≤ now + timeout := getD_le h.horizon (Nat.le_add_right _ _)
  have haccount := h.account
  rw [Nat.mul_succ]
  omega

/-- Time passes. -/
theorem later (h : Paced timeout start now n answered waiting) (hnow : now ≤ now') :
    Paced timeout start now' n answered waiting := by
  refine ⟨h.account.trans (Nat.add_le_add_right ?_ _), fun due hdue => ?_⟩
  · cases waiting with
    | none => exact hnow
    | some due => exact Nat.le_refl due
  · exact (h.horizon due hdue).trans (Nat.add_le_add_right hnow _)

/-- **The step lemma**: an action at the time `now` keeps the account. -/
theorem step {a : Action μ} (hstep : Step timeout s a s')
    (hs : Paced timeout start now (transmitted as).length (answers as) s.waiting)
    (htime : ∀ t ∈ times [a], t = now) :
    Paced timeout start now (transmitted (as ++ [a])).length (answers (as ++ [a]))
      s'.waiting := by
  rw [transmitted_append, answers_append, List.length_append]
  cases hstep with
  | submit m => exact hs
  | transmit time m rest =>
    obtain rfl : time = now := htime time (by simp [times])
    refine ⟨?_, by simp⟩
    have hfree : timeout * (transmitted as).length + start ≤ time + timeout * answers as :=
      hs.account
    show timeout * ((transmitted as).length + 1) + start ≤ time + timeout + timeout * answers as
    rw [Nat.mul_succ]
    omega
  | acknowledge => exact ⟨hs.spent, by simp⟩
  | expire time hdue =>
    obtain rfl : time = now := htime time (by simp [times])
    -- the wait is over, so the account is at `time` anyway
    exact ⟨hs.account.trans (Nat.add_le_add_right (getD_le hdue le_rfl) _), by simp⟩

end Paced

/-- **Pacing.** In a run whose times do not go back and lie between `start` and `now`, what went out
is paid for by answers, by the time that passed, and by one timeout more. -/
theorem Run.pacing (hrun : Run timeout .idle as s) {start now : Nat}
    (htimes : (start :: times as).Pairwise (· ≤ ·)) (hnow : ∀ t ∈ start :: times as, t ≤ now) :
    timeout * (transmitted as).length + start ≤ now + timeout * (answers as + 1) := by
  -- the account is kept at the time of the latest action
  have hpaced : ∃ latest ∈ start :: times as,
      Paced timeout start latest (transmitted as).length (answers as) s.waiting ∧
        ∀ t ∈ start :: times as, t ≤ latest := by
    clear hnow
    induction hrun with
    | nil =>
      exact ⟨start, by simp, ⟨by simp [transmitted, Sender.idle], by simp [Sender.idle]⟩,
        by simp [times]⟩
    | @snoc as s₁ s₂ a hrun hstep ih =>
      rw [times_append, ← List.cons_append, List.pairwise_append] at htimes
      obtain ⟨hbefore, -, hbehind⟩ := htimes
      obtain ⟨latest, hmem, hpaced, hmax⟩ := ih hbefore
      rw [times_append, ← List.cons_append]
      have hone : times [a] = [] ∨ ∃ time, times [a] = [time] := by
        cases a with
        | submit m => exact Or.inl rfl
        | acknowledge => exact Or.inl rfl
        | transmit time m => exact Or.inr ⟨time, rfl⟩
        | expire time => exact Or.inr ⟨time, rfl⟩
      rcases hone with hsilent | ⟨time, htime⟩
      · rw [hsilent, List.append_nil]
        exact ⟨latest, hmem, hpaced.step hstep (by simp [hsilent]), hmax⟩
      · -- the action's time is the latest now
        have hle : latest ≤ time := hbehind latest hmem time (by simp [htime])
        rw [htime]
        refine ⟨time, by simp, (hpaced.later hle).step hstep (by simp [htime]), ?_⟩
        intro t ht
        rcases List.mem_append.mp ht with ht | ht
        · exact (hmax t ht).trans hle
        · exact (List.mem_singleton.mp ht).le
  obtain ⟨latest, hmem, hpaced, -⟩ := hpaced
  exact hpaced.spent.trans (Nat.add_le_add_right (hnow latest hmem) _)

end EchoBot.Protocol
