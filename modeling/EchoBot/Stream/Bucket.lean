/-
# EchoBot.Stream.Bucket — a buffer between bursts that come and a drain that takes a few at a time

A burst comes, what does not fit is lost, and then the drain takes up to `drain` symbols. So the
level alone decides what is lost: `admitted` is what gets in, and it is everything exactly when the
level never passes the capacity (`admitted_eq_flatten_iff`).

A drain that is slower than the bursts is no cause of loss by itself, only in the long run
(`Fits.length_le`); bursts no larger than the drain are safe for ever (`fits_of_length_le`).
-/
import Mathlib.Data.List.Basic
import Mathlib.Order.Nat

namespace EchoBot.Stream

variable {α : Type*} (cap drain : Nat)

/-- **`admitted cap drain level ss`** — what gets in of the bursts `ss`, from a buffer of `cap`
symbols that holds `level`. -/
def admitted : Nat → List (List α) → List α
  | _, [] => []
  | level, s :: ss =>
    s.take (cap - level) ++ admitted (min cap (level + s.length) - drain) ss

/-- **`Fits cap drain level ss`** — the level never passes the capacity. -/
def Fits : Nat → List (List α) → Prop
  | _, [] => True
  | level, s :: ss => level + s.length ≤ cap ∧ Fits (level + s.length - drain) ss

instance decidableFits : (level : Nat) → (ss : List (List α)) → Decidable (Fits cap drain level ss)
  | _, [] => isTrue trivial
  | level, s :: ss =>
    have := decidableFits (level + s.length - drain) ss
    inferInstanceAs (Decidable (_ ∧ _))

@[simp] theorem admitted_nil (level : Nat) : admitted cap drain level ([] : List (List α)) = [] :=
  rfl

@[simp] theorem admitted_cons (level : Nat) (s : List α) (ss : List (List α)) :
    admitted cap drain level (s :: ss) =
      s.take (cap - level) ++ admitted cap drain (min cap (level + s.length) - drain) ss := rfl

variable {cap drain} {level : Nat} {ss : List (List α)}

/-- What gets in keeps its order. -/
theorem admitted_sublist : (admitted cap drain level ss).Sublist ss.flatten := by
  induction ss generalizing level with
  | nil => exact List.Sublist.slnil
  | cons s ss ih =>
    rw [admitted_cons, List.flatten_cons]
    exact (List.take_sublist _ _).append ih

/-- **Nothing is lost exactly when the level never passes the capacity.** -/
theorem admitted_eq_flatten_iff (hlevel : level ≤ cap) :
    admitted cap drain level ss = ss.flatten ↔ Fits cap drain level ss := by
  induction ss generalizing level with
  | nil => exact iff_of_true rfl trivial
  | cons s ss ih =>
    rw [admitted_cons, List.flatten_cons, Fits]
    by_cases hfits : level + s.length ≤ cap
    · have htake : s.take (cap - level) = s := List.take_of_length_le (by omega)
      rw [htake, List.append_right_inj, and_iff_right hfits, Nat.min_eq_right hfits]
      exact ih (by omega)
    · -- the first burst is cut, and what follows cannot make up for it
      refine iff_of_false (fun heq => ?_) fun h => hfits h.1
      have hrest := (@admitted_sublist α cap drain (min cap (level + s.length) - drain)
        ss).length_le
      have hlen := congrArg List.length heq
      simp only [List.length_append, List.length_take] at hlen
      omega

/-- **The rate**: what fits into `n` bursts is a buffer full, and what was drained in between. -/
theorem Fits.length_le (h : Fits cap drain level ss) (hlevel : level ≤ cap) :
    level + ss.flatten.length ≤ cap + drain * (ss.length - 1) := by
  induction ss generalizing level with
  | nil => simpa using hlevel
  | cons s ss ih =>
    obtain ⟨hfirst, hrest⟩ := h
    have hle := ih hrest (by omega)
    rw [List.flatten_cons, List.length_append, List.length_cons]
    cases ss with
    | nil => simpa using hfirst
    | cons s' ss =>
      simp only [List.length_cons, Nat.add_sub_cancel] at hle ⊢
      rw [Nat.mul_add, Nat.mul_one]
      omega

/-- **Bursts no larger than the drain always fit**, once one does. -/
theorem fits_of_length_le (hlevel : level + drain ≤ cap) (hss : ∀ s ∈ ss, s.length ≤ drain) :
    Fits cap drain level ss := by
  induction ss generalizing level with
  | nil => trivial
  | cons s ss ih =>
    obtain ⟨hs, hrest⟩ := List.forall_mem_cons.mp hss
    exact ⟨by omega, ih (by omega) hrest⟩

end EchoBot.Stream
