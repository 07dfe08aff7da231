/-
# EchoBot.Program.While — loops that may not end, and the rule that says they do

A loop is run with fuel and has no result when the fuel runs out. `Returns f a` says that `f` gives
`a` with all the fuel that is enough, so that a result does not depend on how much there was. The
body of a loop is itself given fuel: loops nest.

`returns_while` is the rule for total correctness: an invariant, and a variant that every turn
lowers in some well-founded order. `invariant_of_returns_while` is the rule for partial correctness,
and `diverges_while` the rule for loops that never return: an invariant under which the condition
does not fail.

Nothing here names a program.
-/
import Mathlib.Order.WellFounded

namespace EchoBot.Program

variable {α β σ : Type*}

/-- **`Returns f a`** — with enough fuel, `f` gives `a`. -/
def Returns (f : Nat → Option α) (a : α) : Prop := ∃ enough, ∀ fuel, enough ≤ fuel → f fuel = some a

/-- What returns can be used by what follows. -/
theorem Returns.map {f : Nat → Option α} {a : α} (hf : Returns f a) (g : α → β) :
    Returns (fun fuel => (f fuel).map g) (g a) := by
  obtain ⟨enough, h⟩ := hf
  refine ⟨enough, fun fuel hfuel => ?_⟩
  show (f fuel).map g = some (g a)
  rw [h fuel hfuel, Option.map_some]

/-- `while (cond) body`, with fuel for the turns and for the body. -/
def whileFuel (cond : σ → Bool) (body : Nat → σ → Option σ) : Nat → σ → Option σ
  | 0, _ => none
  | fuel + 1, s => if cond s then (body fuel s).bind (whileFuel cond body fuel) else some s

variable {cond : σ → Bool} {body : Nat → σ → Option σ}

/-- A loop whose condition fails ends at once. -/
theorem returns_while_exit {s : σ} (hcond : cond s = false) :
    Returns (fun fuel => whileFuel cond body fuel s) s := by
  refine ⟨1, fun fuel hfuel => ?_⟩
  obtain ⟨fuel, rfl⟩ := Nat.exists_eq_add_of_le' hfuel
  simp [whileFuel, hcond]

/-- A turn, and the loop from where it leads. -/
theorem returns_while_turn {s s₁ s' : σ} (hcond : cond s = true)
    (hbody : Returns (fun fuel => body fuel s) s₁)
    (hrest : Returns (fun fuel => whileFuel cond body fuel s₁) s') :
    Returns (fun fuel => whileFuel cond body fuel s) s' := by
  obtain ⟨m, hm⟩ := hbody
  obtain ⟨n, hn⟩ := hrest
  refine ⟨m + n + 1, fun fuel hfuel => ?_⟩
  obtain ⟨fuel, rfl⟩ := Nat.exists_eq_add_of_le' (Nat.le_trans (Nat.le_add_left 1 (m + n)) hfuel)
  have hone := hm fuel (by omega)
  have htwo := hn fuel (by omega)
  dsimp only at hone htwo ⊢
  rw [whileFuel, if_pos hcond, hone, Option.bind_some, htwo]

/-- **Total correctness of a loop.** If every turn from a state of the invariant returns, keeps the
invariant and lowers the variant, the loop returns a state of the invariant at which its condition
fails. -/
theorem returns_while {r : α → α → Prop} (hwf : WellFounded r) (variant : σ → α) {I : σ → Prop}
    (hturn : ∀ s, I s → cond s = true →
      ∃ s₁, Returns (fun fuel => body fuel s) s₁ ∧ I s₁ ∧ r (variant s₁) (variant s))
    {s : σ} (hs : I s) :
    ∃ s', Returns (fun fuel => whileFuel cond body fuel s) s' ∧ I s' ∧ cond s' = false := by
  -- induction on the variant
  obtain ⟨a, ha⟩ : ∃ a, variant s = a := ⟨_, rfl⟩
  induction a using hwf.induction generalizing s with
  | _ a ih =>
    cases hcond : cond s with
    | false => exact ⟨s, returns_while_exit hcond, hs, hcond⟩
    | true =>
      obtain ⟨s₁, hbody, hs₁, hless⟩ := hturn s hs hcond
      obtain ⟨s', hrest, hs', hexit⟩ := ih (variant s₁) (ha ▸ hless) hs₁ rfl
      exact ⟨s', returns_while_turn hcond hbody hrest, hs', hexit⟩

/-- **Partial correctness of a loop.** If no turn leaves the invariant, a loop that returns does so
in a state of it, at which its condition fails. -/
theorem invariant_of_returns_while {I : σ → Prop}
    (hturn : ∀ s, I s → cond s = true → ∀ fuel s₁, body fuel s = some s₁ → I s₁) {s s' : σ}
    (hs : I s) (h : Returns (fun fuel => whileFuel cond body fuel s) s') :
    I s' ∧ cond s' = false := by
  obtain ⟨enough, h⟩ := h
  have hsome := h enough (Nat.le_refl _)
  clear h
  dsimp only at hsome
  induction enough generalizing s with
  | zero => cases hsome
  | succ fuel ih =>
    rw [whileFuel] at hsome
    split at hsome
    · next hcond =>
      obtain ⟨s₁, hbody, hrest⟩ := Option.bind_eq_some_iff.mp hsome
      exact ih (hturn s hs hcond fuel s₁ hbody) hrest
    · next hcond =>
      obtain rfl := Option.some.inj hsome
      exact ⟨hs, by simpa using hcond⟩

/-- **Divergence of a loop.** If the condition holds in every state of the invariant, and no turn
leaves it, the loop has no result, however much fuel there is. -/
theorem diverges_while {I : σ → Prop}
    (hturn : ∀ s, I s → cond s = true ∧ ∀ fuel s₁, body fuel s = some s₁ → I s₁)
    {s : σ} (hs : I s) (fuel : Nat) : whileFuel cond body fuel s = none := by
  induction fuel generalizing s with
  | zero => rfl
  | succ fuel ih =>
    obtain ⟨hcond, hnext⟩ := hturn s hs
    rw [whileFuel, if_pos hcond]
    cases hbody : body fuel s with
    | none => rfl
    | some s₁ => exact ih (hnext fuel s₁ hbody)

/-- What diverges does not return. -/
theorem not_returns_of_diverges {f : Nat → Option α} (hf : ∀ fuel, f fuel = none) (a : α) :
    ¬ Returns f a := by
  rintro ⟨enough, h⟩
  have hsome := h enough (Nat.le_refl _)
  rw [hf] at hsome
  cases hsome

end EchoBot.Program
