/-
# EchoBot.Stream.Fill — what a sink that may take less than it is offered has taken

A producer offers a sink one buffer after the other, and the sink takes a prefix of each. The bytes
taken are the bytes offered exactly when every buffer was taken whole (`taken_eq_offered_iff`), and
a prefix of them as soon as every buffer but the last one was (`taken_prefix_offered`).

A producer that has one content to hand over offers it again from the first symbol that was not
taken (`Resumed`). Whatever is taken of each buffer, what it has handed over is then a prefix.
-/
import EchoBot.Stream.History

namespace EchoBot.Stream

variable {α : Type*}

/-- A buffer offered, and the number of its symbols taken. -/
structure Fill (α : Type*) where
  buf : List α
  taken : Nat
  deriving DecidableEq, Repr

/-- The symbols taken. -/
def Fill.symbols (f : Fill α) : List α := f.buf.take f.taken

/-- The whole buffer was taken. -/
def Fill.Whole (f : Fill α) : Prop := f.buf.length ≤ f.taken

instance (f : Fill α) : Decidable f.Whole := inferInstanceAs (Decidable (_ ≤ _))

theorem Fill.symbols_of_whole {f : Fill α} (hf : f.Whole) : f.symbols = f.buf :=
  List.take_of_length_le hf

/-- The symbols taken from some buffers, in order. -/
def taken (fs : List (Fill α)) : List α := fs.flatMap Fill.symbols

/-- The symbols of some buffers, in order. -/
def offered (fs : List (Fill α)) : List α := fs.flatMap Fill.buf

@[simp] theorem taken_append (fs gs : List (Fill α)) : taken (fs ++ gs) = taken fs ++ taken gs :=
  List.flatMap_append

@[simp] theorem offered_append (fs gs : List (Fill α)) :
    offered (fs ++ gs) = offered fs ++ offered gs := List.flatMap_append

theorem length_taken_le (fs : List (Fill α)) : (taken fs).length ≤ (offered fs).length := by
  induction fs with
  | nil => exact Nat.le_refl _
  | cons f fs ih =>
    simp only [taken, offered, List.flatMap_cons, List.length_append] at ih ⊢
    exact Nat.add_le_add (List.length_take_le' _ _) ih

/-- What is taken keeps its order, and each symbol is taken once. -/
theorem taken_sublist_offered (fs : List (Fill α)) : (taken fs).Sublist (offered fs) := by
  induction fs with
  | nil => exact List.Sublist.slnil
  | cons f fs ih =>
    rw [taken, offered, List.flatMap_cons, List.flatMap_cons]
    exact (List.take_sublist _ _).append ih

/-- **Nothing is lost exactly when every buffer is taken whole.** -/
theorem taken_eq_offered_iff {fs : List (Fill α)} : taken fs = offered fs ↔ ∀ f ∈ fs, f.Whole := by
  induction fs with
  | nil => simp [taken, offered]
  | cons f fs ih =>
    rw [List.forall_mem_cons, ← ih]
    constructor
    · intro h
      -- what follows is no longer than what was offered, so the first buffer is not short
      have hrest := length_taken_le fs
      have hlen := congrArg List.length h
      have hfirst : f.buf.length ≤ f.taken := by
        simp only [taken, offered, List.flatMap_cons, List.length_append, Fill.symbols,
          List.length_take] at hlen hrest
        omega
      refine ⟨hfirst, ?_⟩
      rw [taken, offered, List.flatMap_cons, List.flatMap_cons, Fill.symbols_of_whole hfirst] at h
      exact List.append_cancel_left h
    · rintro ⟨hfirst, hrest⟩
      rw [taken, offered, List.flatMap_cons, List.flatMap_cons, Fill.symbols_of_whole hfirst]
      exact congrArg (f.buf ++ ·) hrest

/-- **A short buffer at the end loses nothing before it.** -/
theorem taken_prefix_offered {fs : List (Fill α)} (hfs : ∀ f ∈ fs.dropLast, f.Whole) :
    taken fs <+: offered fs := by
  rcases List.eq_nil_or_concat' fs with rfl | ⟨init, f, rfl⟩
  · exact List.prefix_rfl
  · rw [List.dropLast_concat] at hfs
    rw [taken_append, offered_append, taken_eq_offered_iff.mpr hfs, List.prefix_append_right_inj]
    simpa [taken, offered, Fill.symbols] using List.take_prefix f.taken f.buf

/-! ## Offering what is left. -/

/-- **`Resumed s fs`** — every buffer is what is left of `s` behind the symbols taken before. -/
def Resumed (s : List α) (fs : List (Fill α)) : Prop :=
  Always (fun before f => taken before ++ f.buf = s) fs

theorem resumed_nil (s : List α) : Resumed s [] := always_nil _

theorem resumed_snoc {s : List α} {fs : List (Fill α)} {f : Fill α} :
    Resumed s (fs ++ [f]) ↔ Resumed s fs ∧ taken fs ++ f.buf = s := always_snoc

/-- **What was taken is a prefix**, however much was taken at a time. -/
theorem Resumed.taken_isPrefix {s : List α} {fs : List (Fill α)} (h : Resumed s fs) :
    taken fs <+: s := by
  rcases List.eq_nil_or_concat' fs with rfl | ⟨init, f, rfl⟩
  · exact List.nil_prefix
  · obtain ⟨-, hleft⟩ := resumed_snoc.mp h
    rw [taken_append, ← hleft, List.prefix_append_right_inj]
    simpa [taken, Fill.symbols] using List.take_prefix f.taken f.buf

end EchoBot.Stream
