/-
# EchoBot.Stream.History — predicates on the order of events in a finite history

A run leaves a history: the list of its events, oldest first. Most protocol properties say what
must have happened BEFORE an event (`Always`) or BETWEEN two events (`Separated`). Both are stated
over the whole history and come with the one rule an induction over a run needs: what it takes for
the property to survive the append of one more event (`always_snoc`, `separated_snoc`).

What is said since the last event of a kind is said through `LastMark`, which a history has at most
one of.

Nothing here names a program: the event type is arbitrary.
-/
import Mathlib.Data.List.Basic
import Mathlib.Data.List.Induction

namespace EchoBot.Stream

variable {ε : Type*}

/-- Where an event of `h ++ [e]` stands: it is the last one, or it is an event of `h`. -/
theorem snoc_eq_append_cons {h before after : List ε} {e x : ε}
    (heq : h ++ [e] = before ++ x :: after) :
    (h = before ∧ e = x ∧ after = []) ∨ ∃ init, after = init ++ [e] ∧ h = before ++ x :: init := by
  rcases List.eq_nil_or_concat' after with rfl | ⟨init, y, rfl⟩
  · obtain ⟨hh, hx⟩ := List.append_inj' heq rfl
    exact Or.inl ⟨hh, by simpa using hx, rfl⟩
  · rw [← List.cons_append, ← List.append_assoc] at heq
    obtain ⟨hh, hy⟩ := List.append_inj' heq rfl
    obtain rfl : e = y := by simpa using hy
    exact Or.inr ⟨init, rfl, hh⟩

/-! ## §1 — what holds of every event, given the events before it. -/

/-- **`Always P h`** — every event `e` of the history `h` satisfies `P before e`, where `before` is
the part of the history that precedes it. -/
def Always (P : List ε → ε → Prop) (h : List ε) : Prop :=
  ∀ before e after, h = before ++ e :: after → P before e

@[simp] theorem always_nil (P : List ε → ε → Prop) : Always P [] := by
  intro before e after h
  simp at h

/-- The step rule: one more event keeps `Always P` exactly when `P` holds of it. -/
theorem always_snoc {P : List ε → ε → Prop} {h : List ε} {e : ε} :
    Always P (h ++ [e]) ↔ Always P h ∧ P h e := by
  constructor
  · intro hall
    refine ⟨?_, hall h e [] rfl⟩
    intro before e' after heq
    exact hall before e' (after ++ [e]) (by simp [heq])
  · rintro ⟨hall, hlast⟩ before e' after heq
    rcases snoc_eq_append_cons heq with ⟨rfl, rfl, -⟩ | ⟨init, -, hh⟩
    · exact hlast
    · exact hall before e' init hh

/-- Several more events at once, none of which `P` constrains. -/
theorem always_append_of_trivial {P : List ε → ε → Prop} {h k : List ε}
    (htriv : ∀ e ∈ k, ∀ before, P before e) : Always P (h ++ k) ↔ Always P h := by
  induction k using List.reverseRecOn with
  | nil => simp
  | append_singleton k e ih =>
    rw [← List.append_assoc, always_snoc, ih fun e' he' => htriv e' (by simp [he'])]
    exact and_iff_left (htriv e (by simp) _)

/-! ## §2 — what must happen between two events. -/

/-- **`Separated mark sep h`** — between any two `mark` events of `h` there is a `sep` event. -/
def Separated (mark sep : ε → Prop) (h : List ε) : Prop :=
  ∀ pre a mid b post, h = pre ++ a :: (mid ++ b :: post) → mark a → mark b → ∃ e ∈ mid, sep e

/-- **`Settled mark sep h`** — every `mark` event of `h` has a `sep` event after it: the histories
after which a further `mark` keeps the separation. -/
def Settled (mark sep : ε → Prop) (h : List ε) : Prop :=
  ∀ pre a post, h = pre ++ a :: post → mark a → ∃ e ∈ post, sep e

variable {mark sep : ε → Prop} {h : List ε} {e : ε}

@[simp] theorem separated_nil (mark sep : ε → Prop) : Separated mark sep [] := by
  intro pre a mid b post heq
  simp at heq

@[simp] theorem settled_nil (mark sep : ε → Prop) : Settled mark sep [] := by
  intro pre a post heq
  simp at heq

/-- A `sep` event that is not itself a `mark` settles every history. -/
theorem settled_snoc_of_sep (he : sep e) (hm : ¬ mark e) : Settled mark sep (h ++ [e]) := by
  intro pre a post heq ha
  rcases snoc_eq_append_cons heq with ⟨-, rfl, -⟩ | ⟨init, rfl, -⟩
  · exact absurd ha hm
  · exact ⟨e, by simp, he⟩

/-- An event that is not a `mark` leaves a settled history settled. -/
theorem settled_snoc_of_not_mark (hs : Settled mark sep h) (hm : ¬ mark e) :
    Settled mark sep (h ++ [e]) := by
  intro pre a post heq ha
  rcases snoc_eq_append_cons heq with ⟨-, rfl, -⟩ | ⟨init, rfl, hh⟩
  · exact absurd ha hm
  · obtain ⟨x, hx, hsep⟩ := hs pre a init hh ha
    exact ⟨x, by simp [hx], hsep⟩

/-- The step rule: one more event keeps the separation when it is no `mark`, or when every earlier
`mark` has been settled. -/
theorem separated_snoc (hsep : Separated mark sep h) (hnew : mark e → Settled mark sep h) :
    Separated mark sep (h ++ [e]) := by
  intro pre a mid b post heq ha hb
  have heq' : h ++ [e] = (pre ++ a :: mid) ++ b :: post := by simp [heq]
  rcases snoc_eq_append_cons heq' with ⟨rfl, rfl, -⟩ | ⟨init, -, hh⟩
  · exact hnew hb pre a mid rfl ha
  · exact hsep pre a mid b init (by simp [hh]) ha hb

/-! ## §3 — the first moment at which something holds. -/

/-- **`First P h`** — `P` holds of the history `h`, and of no earlier moment of it. -/
def First (P : List ε → Prop) (h : List ε) : Prop := P h ∧ ∀ u, u <+: h → P u → u = h

/-- What holds at some moment of a history has a first one. -/
theorem exists_first {P : List ε → Prop} {h : List ε} (hP : ∃ u, u <+: h ∧ P u) :
    ∃ u, u <+: h ∧ First P u := by
  induction h using List.reverseRecOn with
  | nil =>
    obtain ⟨u, hu, hPu⟩ := hP
    refine ⟨u, hu, hPu, fun v hv _ => ?_⟩
    rw [List.prefix_nil.mp (hv.trans hu), List.prefix_nil.mp hu]
  | append_singleton h e ih =>
    by_cases hearlier : ∃ u, u <+: h ∧ P u
    · obtain ⟨u, hu, hfirst⟩ := ih hearlier
      exact ⟨u, hu.trans (List.prefix_append h [e]), hfirst⟩
    · obtain ⟨u, hu, hPu⟩ := hP
      refine ⟨u, hu, hPu, fun v hv hPv => ?_⟩
      rcases List.prefix_concat_iff.mp hu with rfl | hu
      · rcases List.prefix_concat_iff.mp hv with rfl | hv
        · rfl
        · exact absurd ⟨v, hv, hPv⟩ hearlier
      · exact absurd ⟨u, hu, hPu⟩ hearlier

/-- Dropping an event behind which nothing holds yet. -/
theorem first_cons {P : List ε → Prop} (hnil : ¬ P []) {e : ε} {h : List ε} :
    First P (e :: h) ↔ First (fun u => P (e :: u)) h := by
  refine and_congr_right fun _ => ?_
  constructor
  · intro hmin u hu hPu
    exact List.cons_injective (hmin (e :: u) (List.cons_prefix_cons.mpr ⟨rfl, hu⟩) hPu)
  · intro hmin u hu hPu
    rcases List.prefix_cons_iff.mp hu with rfl | ⟨v, rfl, hv⟩
    · exact absurd hPu hnil
    · rw [hmin v hv hPu]

/-- **The first moment, one event on**: it is behind the next event, or among what follows it. -/
theorem exists_first_cons {P : List ε → Prop} (hnil : ¬ P []) {e : ε} {h rest : List ε} :
    (∃ pre, e :: h = pre ++ rest ∧ First P pre) ↔
      (P [e] ∧ rest = h) ∨
        (¬ P [e] ∧ ∃ pre, h = pre ++ rest ∧ First (fun u => P (e :: u)) pre) := by
  constructor
  · rintro ⟨pre, hpre, hfirst⟩
    cases pre with
    | nil => exact absurd hfirst.1 hnil
    | cons e' pre =>
      obtain ⟨rfl, rfl⟩ := List.cons_eq_cons.mp hpre
      by_cases hP : P [e]
      · have hone := hfirst.2 [e] (List.cons_prefix_cons.mpr ⟨rfl, List.nil_prefix⟩) hP
        rw [← List.cons_injective hone]
        exact Or.inl ⟨hP, rfl⟩
      · exact Or.inr ⟨hP, pre, rfl, (first_cons hnil).mp hfirst⟩
  · rintro (⟨hP, rfl⟩ | ⟨-, pre, rfl, hfirst⟩)
    · refine ⟨[e], rfl, hP, fun u hu hPu => ?_⟩
      rcases List.prefix_cons_iff.mp hu with rfl | ⟨v, rfl, hv⟩
      · exact absurd hPu hnil
      · rw [List.prefix_nil.mp hv]
    · exact ⟨e :: pre, rfl, (first_cons hnil).mpr hfirst⟩

/-! ## §4 — the last event of a kind. -/

/-- **`LastMark mark h a mid`** — `a` is the last `mark` event of `h`, and `mid` is what follows. -/
def LastMark (mark : ε → Prop) (h : List ε) (a : ε) (mid : List ε) : Prop :=
  ∃ pre, h = pre ++ a :: mid ∧ mark a ∧ ∀ e ∈ mid, ¬ mark e

theorem not_lastMark_nil {a : ε} {mid : List ε} : ¬ LastMark mark [] a mid := by
  rintro ⟨pre, heq, -⟩
  simp at heq

/-- **The step rule**: one more event is the last mark itself, or stands behind it. -/
theorem lastMark_snoc_iff {a : ε} {mid : List ε} :
    LastMark mark (h ++ [e]) a mid ↔
      (mark e ∧ a = e ∧ mid = []) ∨
        (¬ mark e ∧ ∃ init, mid = init ++ [e] ∧ LastMark mark h a init) := by
  constructor
  · rintro ⟨pre, heq, ha, hmid⟩
    rcases snoc_eq_append_cons heq with ⟨-, rfl, rfl⟩ | ⟨init, rfl, hh⟩
    · exact Or.inl ⟨ha, rfl, rfl⟩
    · refine Or.inr ⟨hmid e (by simp), init, rfl, pre, hh, ha, ?_⟩
      exact fun x hx => hmid x (List.mem_append_left _ hx)
  · rintro (⟨he, rfl, rfl⟩ | ⟨he, init, rfl, pre, rfl, ha, hinit⟩)
    · exact ⟨h, rfl, he, fun _ hx => absurd hx List.not_mem_nil⟩
    · refine ⟨pre, by simp, ha, ?_⟩
      intro x hx
      rcases List.mem_append.mp hx with hx | hx
      · exact hinit x hx
      · rwa [List.mem_singleton.mp hx]

/-- There is at most one. -/
theorem LastMark.unique {a a' : ε} {mid mid' : List ε} (hm : LastMark mark h a mid)
    (hm' : LastMark mark h a' mid') : a = a' ∧ mid = mid' := by
  induction h using List.reverseRecOn generalizing mid mid' with
  | nil => exact absurd hm not_lastMark_nil
  | append_singleton h e ih =>
    rcases lastMark_snoc_iff.mp hm with ⟨he, rfl, rfl⟩ | ⟨he, init, rfl, hinit⟩
    · rcases lastMark_snoc_iff.mp hm' with ⟨-, rfl, rfl⟩ | ⟨hne, -⟩
      · exact ⟨rfl, rfl⟩
      · exact absurd he hne
    · rcases lastMark_snoc_iff.mp hm' with ⟨hmark, -⟩ | ⟨-, init', rfl, hinit'⟩
      · exact absurd hmark he
      · obtain ⟨rfl, rfl⟩ := ih hinit hinit'
        exact ⟨rfl, rfl⟩

end EchoBot.Stream
