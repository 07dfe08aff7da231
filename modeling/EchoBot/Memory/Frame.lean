/-
# EchoBot.Memory.Frame — byte memory seen through one pointer, read back as 32-bit words

A `Frame` is the memory a local array's pointer reaches: one byte at every offset, and the log of
the offsets that were stored to. The array's size is NOT part of the frame. C stores where it is
told to, so the model does too, and whether an access lies inside the array is a statement about
the log and never a side condition of the store.

A word is the little-endian value of its four bytes. The two facts the rest needs: a `memcpy` right
behind known bytes extends them (`bytes_memcpy`), and words written back as bytes are the bytes
they were read from (`bytesOfWords_words`).
-/
import Mathlib.Data.List.Basic
import Mathlib.Data.List.Range
import Mathlib.Tactic.Ring

namespace EchoBot.Memory

/-! ## §1 — the frame and its accesses. -/

structure Frame where
  /-- The byte at each offset from the pointer. -/
  cell : Nat → UInt8
  /-- The offsets stored to, oldest first. -/
  stores : List Nat := []

namespace Frame

/-- `memcpy(ptr + off, src, src.length)`. -/
def memcpy (f : Frame) (off : Nat) (src : List UInt8) : Frame where
  cell i := if off ≤ i then (src[i - off]?).getD (f.cell i) else f.cell i
  stores := f.stores ++ (List.range src.length).map (off + ·)

/-- The first `n` bytes behind the pointer. -/
def bytes (f : Frame) (n : Nat) : List UInt8 := (List.range n).map f.cell

@[simp] theorem length_bytes (f : Frame) (n : Nat) : (f.bytes n).length = n := by
  simp [bytes]

theorem bytes_add (f : Frame) (m n : Nat) :
    f.bytes (m + n) = f.bytes m ++ (List.range n).map fun i => f.cell (m + i) := by
  simp [bytes, List.range_add]

theorem take_bytes (f : Frame) {m n : Nat} (h : m ≤ n) : (f.bytes n).take m = f.bytes m := by
  obtain ⟨k, rfl⟩ := Nat.exists_eq_add_of_le h
  rw [bytes_add, List.take_left' (length_bytes f m)]

/-- **A copy behind known bytes extends them.** -/
theorem bytes_memcpy (f : Frame) (off : Nat) (src : List UInt8) :
    (f.memcpy off src).bytes (off + src.length) = f.bytes off ++ src := by
  rw [bytes_add]
  congr 1
  · refine List.map_congr_left fun i hi => ?_
    have hlt : i < off := List.mem_range.mp hi
    simp [memcpy, Nat.not_le.mpr hlt]
  · apply List.ext_getElem
    · simp
    · intro i _ hi
      simp [memcpy, hi]

@[simp] theorem memcpy_stores (f : Frame) (off : Nat) (src : List UInt8) :
    (f.memcpy off src).stores = f.stores ++ (List.range src.length).map (off + ·) := rfl

end Frame

/-! ## §2 — words. -/

/-- A `uint32_t` from its four bytes in memory, least significant first. -/
def wordOfBytes (b₀ b₁ b₂ b₃ : UInt8) : UInt32 :=
  UInt32.ofNat (b₀.toNat + 256 * (b₁.toNat + 256 * (b₂.toNat + 256 * b₃.toNat)))

/-- The four bytes of a `uint32_t` in memory. -/
def wordBytes (w : UInt32) : List UInt8 :=
  [UInt8.ofNat w.toNat, UInt8.ofNat (w.toNat / 256), UInt8.ofNat (w.toNat / 256 / 256),
    UInt8.ofNat (w.toNat / 256 / 256 / 256)]

@[simp] theorem length_wordBytes (w : UInt32) : (wordBytes w).length = 4 := rfl

theorem wordBytes_wordOfBytes (b₀ b₁ b₂ b₃ : UInt8) :
    wordBytes (wordOfBytes b₀ b₁ b₂ b₃) = [b₀, b₁, b₂, b₃] := by
  have h₀ := b₀.toNat_lt
  have h₁ := b₁.toNat_lt
  have h₂ := b₂.toNat_lt
  have h₃ := b₃.toNat_lt
  simp only [wordBytes, wordOfBytes, List.cons.injEq, and_true, ← UInt8.toNat_inj,
    UInt8.toNat_ofNat', UInt32.toNat_ofNat']
  refine ⟨?_, ?_, ?_, ?_⟩ <;> omega

/-- The bytes of some words in memory. -/
def bytesOfWords (ws : List UInt32) : List UInt8 := ws.flatMap wordBytes

@[simp] theorem length_bytesOfWords (ws : List UInt32) :
    (bytesOfWords ws).length = 4 * ws.length := by
  induction ws with
  | nil => rfl
  | cons w ws ih =>
    simp only [bytesOfWords, List.flatMap_cons, List.length_append, length_wordBytes,
      List.length_cons] at ih ⊢
    omega

namespace Frame

/-- The word at `((uint32_t *)ptr)[i]`. -/
def word (f : Frame) (i : Nat) : UInt32 :=
  wordOfBytes (f.cell (4 * i)) (f.cell (4 * i + 1)) (f.cell (4 * i + 2)) (f.cell (4 * i + 3))

/-- The first `n` words behind the pointer. -/
def words (f : Frame) (n : Nat) : List UInt32 := (List.range n).map f.word

@[simp] theorem length_words (f : Frame) (n : Nat) : (f.words n).length = n := by
  simp [words]

/-- **Words are exact**: written back, `n` words are the `4 n` bytes they were read from. -/
theorem bytesOfWords_words (f : Frame) (n : Nat) : bytesOfWords (f.words n) = f.bytes (4 * n) := by
  induction n with
  | zero => rfl
  | succ n ih =>
    have hwords : f.words (n + 1) = f.words n ++ [f.word n] := by
      simp [words, List.range_succ]
    rw [hwords, bytesOfWords, List.flatMap_append, ← bytesOfWords, ih, Nat.mul_succ, bytes_add]
    simp [word, wordBytes_wordOfBytes, List.range_succ]

end Frame

end EchoBot.Memory
