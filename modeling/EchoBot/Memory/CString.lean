/-
# EchoBot.Memory.CString — byte arrays read as C strings

A C string ends at the first NUL of its array, and an array without one is read beyond its end. So
`strlen` has no value there. Copying counted bytes into an array and reading them back as a string
agrees on bytes that hold no NUL, and cuts the others short (`cString_append_zero`,
`flatMap_cString_eq_flatten_iff`).

An array may be read as a string while it is stored to, as long as its last byte is a NUL and stays
one (`Sealed`).

Nothing here names a program.
-/
import Mathlib.Data.List.Basic
import Mathlib.Data.List.TakeWhile

namespace EchoBot.Memory

/-- The bytes of a literal. -/
def literal (s : String) : List UInt8 := s.toList.map fun c => UInt8.ofNat c.toNat

/-- The bytes before the first NUL. -/
def cString (array : List UInt8) : List UInt8 := array.takeWhile (· != 0)

/-- `strlen`; `none` when the array holds no NUL. -/
def strlen (array : List UInt8) : Option Nat := array.findIdx? (· == 0)

variable {array s t : List UInt8}

@[simp] theorem cString_nil : cString [] = [] := rfl

theorem cString_cons_of_ne {c : UInt8} (hc : c ≠ 0) (s : List UInt8) :
    cString (c :: s) = c :: cString s := List.takeWhile_cons_of_pos (by simpa using hc)

@[simp] theorem cString_zero_cons (s : List UInt8) : cString (0 :: s) = [] := rfl

theorem cString_isPrefix (s : List UInt8) : cString s <+: s := List.takeWhile_prefix _

theorem ne_zero_of_mem_cString {c : UInt8} (hc : c ∈ cString s) : c ≠ 0 := by
  simpa using List.mem_takeWhile_imp hc

/-- Bytes without a NUL are their own string. -/
theorem cString_eq_self_iff : cString s = s ↔ ∀ c ∈ s, c ≠ 0 := by
  rw [cString, List.takeWhile_eq_self_iff]
  simp

/-- What stands behind a terminator does not matter. -/
@[simp] theorem cString_append_zero (s t : List UInt8) : cString (s ++ 0 :: t) = cString s := by
  induction s with
  | nil => rfl
  | cons c s ih =>
    by_cases hc : c = 0
    · subst hc
      rfl
    · rw [List.cons_append, cString_cons_of_ne hc, cString_cons_of_ne hc, ih]

/-- Bytes without a NUL are read through. -/
theorem cString_append_of_ne_zero (hs : ∀ c ∈ s, c ≠ 0) (t : List UInt8) :
    cString (s ++ t) = s ++ cString t :=
  List.takeWhile_append_of_pos fun c hc => by simpa using hs c hc

/-- An array with a NUL is a string, the NUL, and what stands behind it. -/
theorem exists_eq_cString_append (h : 0 ∈ array) : ∃ rest, array = cString array ++ 0 :: rest := by
  induction array with
  | nil => cases h
  | cons c array ih =>
    by_cases hc : c = 0
    · subst hc
      exact ⟨array, rfl⟩
    · rcases List.mem_cons.mp h with h | h
      · exact absurd h.symm hc
      · obtain ⟨rest, hrest⟩ := ih h
        refine ⟨rest, ?_⟩
        rw [cString_cons_of_ne hc, List.cons_append, ← hrest]

/-- **The length of a string**, and when there is one. -/
theorem strlen_eq (array : List UInt8) :
    strlen array = if 0 ∈ array then some (cString array).length else none := by
  induction array with
  | nil => rfl
  | cons c array ih =>
    rw [strlen, List.findIdx?_cons]
    by_cases hc : c = 0
    · simp [hc]
    · have hmem : 0 ∈ c :: array ↔ 0 ∈ array := by simp [Ne.symm hc]
      rw [cString_cons_of_ne hc, ← strlen, ih]
      simp only [hmem, beq_iff_eq, hc, if_false]
      split <;> rfl

theorem strlen_of_mem (h : 0 ∈ array) : strlen array = some (cString array).length := by
  rw [strlen_eq, if_pos h]

theorem take_length_cString (array : List UInt8) :
    array.take (cString array).length = cString array :=
  (List.prefix_iff_eq_take.mp (cString_isPrefix array)).symm

/-- The next byte of a string is the next byte of its array. -/
theorem exists_getElem_of_lt_length_cString {i : Nat} (hi : i < (cString array).length) :
    ∃ c, array[i]? = some c ∧ (cString array).drop i = c :: (cString array).drop (i + 1) := by
  refine ⟨(cString array)[i], ?_, List.drop_eq_getElem_cons hi⟩
  rw [(cString_isPrefix array).getElem hi]
  exact List.getElem?_eq_getElem _

/-- **Printing pieces as strings** prints all of them exactly when no piece holds a NUL. -/
theorem flatMap_cString_eq_flatten_iff {pieces : List (List UInt8)} :
    pieces.flatMap cString = pieces.flatten ↔ ∀ c ∈ pieces.flatten, c ≠ 0 := by
  have hlen : ∀ pieces : List (List UInt8),
      (pieces.flatMap cString).length ≤ pieces.flatten.length := by
    intro pieces
    induction pieces with
    | nil => exact Nat.le_refl _
    | cons p pieces ih =>
      rw [List.flatMap_cons, List.flatten_cons, List.length_append, List.length_append]
      exact Nat.add_le_add (cString_isPrefix p).length_le ih
  induction pieces with
  | nil => simp
  | cons p pieces ih =>
    rw [List.flatMap_cons, List.flatten_cons, List.forall_mem_append, ← cString_eq_self_iff]
    constructor
    · intro h
      -- the rest is no longer than it was, so the first piece was not cut
      have hwhole : cString p = p := by
        have hsum := congrArg List.length h
        have hrest := hlen pieces
        rw [List.length_append, List.length_append] at hsum
        exact (cString_isPrefix p).eq_of_length_le (by omega)
      rw [hwhole] at h
      exact ⟨hwhole, ih.mp (List.append_cancel_left h)⟩
    · rintro ⟨hp, hpieces⟩
      rw [hp, ih.mpr hpieces]

/-! ## Arrays that end with a NUL. -/

/-- **`Sealed n array`** — the array ends at the index `n`, with a NUL. Whatever stands before it,
the string ends inside the array. -/
structure Sealed (n : Nat) (array : List UInt8) : Prop where
  length_eq : array.length = n + 1
  last : array[n]? = some 0

namespace Sealed

variable {n : Nat}

theorem zero_mem (h : Sealed n array) : 0 ∈ array := List.mem_of_getElem? h.last

theorem length_cString_le (h : Sealed n array) : (cString array).length ≤ n := by
  obtain ⟨rest, hrest⟩ := exists_eq_cString_append h.zero_mem
  have hlen := congrArg List.length hrest
  rw [h.length_eq, List.length_append, List.length_cons] at hlen
  omega

/-- **A store keeps the seal**, unless it breaks it itself. -/
theorem set (h : Sealed n array) {i : Nat} {c : UInt8} (hstore : i < n ∨ c = 0) :
    Sealed n (array.set i c) := by
  refine ⟨(List.length_set ..).trans h.length_eq, ?_⟩
  by_cases hi : i = n
  · have hc : c = 0 := hstore.resolve_left (Nat.not_lt_of_le (Nat.le_of_eq hi.symm))
    have hlt : n < array.length := h.length_eq.symm ▸ Nat.lt_succ_self n
    rw [hi, hc, List.getElem?_set_self hlt]
  · rw [List.getElem?_set_ne hi]
    exact h.last

end Sealed

end EchoBot.Memory
