/-
# EchoBot.Memory.Decimal — numbers printed in decimal, and read back

`decimal n` is what `%u` prints, `padded w n` what `%0wu` does. Read back they give the number
(`readDecimal_padded`), whatever zeros were put in front. What ends a number in a text is the first
byte that is no digit (`readNumber_append`), so a text of numbers with separators can be taken apart
again.

Nothing here names a program.
-/
import EchoBot.Memory.CString
import Mathlib.Algebra.Group.Nat.Defs
import Mathlib.Data.List.TakeWhile

namespace EchoBot.Memory

/-- A digit. -/
def digit (d : Nat) : UInt8 := UInt8.ofNat (48 + d)

/-- `%u`. -/
def decimal (n : Nat) : List UInt8 := (Nat.toDigits 10 n).map fun c => UInt8.ofNat c.toNat

/-- `%0wu`: at least `w` digits. -/
def padded (w n : Nat) : List UInt8 :=
  List.replicate (w - (decimal n).length) (digit 0) ++ decimal n

def isDigit (c : UInt8) : Bool := 48 ≤ c.toNat && c.toNat ≤ 57

/-- The number that some digits are. -/
def readDecimal (s : List UInt8) : Nat := s.foldl (fun n c => 10 * n + (c.toNat - 48)) 0

/-- The number at the start of a text, and what follows it. -/
def readNumber (s : List UInt8) : Nat × List UInt8 :=
  (readDecimal (s.takeWhile isDigit), s.dropWhile isDigit)

/-! ## Printing. -/

/-- The last digit comes off the end. -/
theorem decimal_eq (n : Nat) :
    decimal n = (if n < 10 then [] else decimal (n / 10)) ++ [digit (n % 10)] := by
  have hchar : ∀ d < 10, UInt8.ofNat (Nat.digitChar d).toNat = digit d := by
    intro d hd
    rw [Nat.toNat_digitChar_of_lt_ten hd]
    rfl
  unfold decimal
  rw [Nat.toDigits_eq_if (by decide)]
  split
  · next hn => simp [hchar n hn, Nat.mod_eq_of_lt hn]
  · simp [hchar (n % 10) (Nat.mod_lt _ (by decide))]

theorem isDigit_digit {d : Nat} (hd : d < 10) : isDigit (digit d) = true := by
  have hval : (digit d).toNat = 48 + d := by
    rw [digit, UInt8.toNat_ofNat']
    omega
  simp only [isDigit, hval, Bool.and_eq_true, decide_eq_true_eq]
  omega

/-- A property of lists that the last digit keeps holds of every number. -/
theorem decimal_induction {p : Nat → List UInt8 → Prop}
    (hsmall : ∀ n < 10, p n [digit n])
    (hstep : ∀ n, 10 ≤ n → p (n / 10) (decimal (n / 10)) →
      p n (decimal (n / 10) ++ [digit (n % 10)])) (n : Nat) : p n (decimal n) := by
  induction n using Nat.strongRecOn with
  | ind n ih =>
    rw [decimal_eq]
    by_cases hn : n < 10
    · rw [if_pos hn, List.nil_append, Nat.mod_eq_of_lt hn]
      exact hsmall n hn
    · rw [if_neg hn]
      exact hstep n (Nat.le_of_not_lt hn) (ih (n / 10) (Nat.div_lt_self (by omega) (by decide)))

theorem isDigit_of_mem_decimal (n : Nat) : ∀ c ∈ decimal n, isDigit c = true := by
  refine decimal_induction (p := fun _ s => ∀ c ∈ s, isDigit c = true) ?_ ?_ n
  · intro n hn c hc
    rw [List.mem_singleton.mp hc]
    exact isDigit_digit hn
  · intro n _ ih c hc
    rcases List.mem_append.mp hc with hc | hc
    · exact ih c hc
    · rw [List.mem_singleton.mp hc]
      exact isDigit_digit (Nat.mod_lt _ (by decide))

theorem isDigit_of_mem_padded (w n : Nat) : ∀ c ∈ padded w n, isDigit c = true := by
  intro c hc
  rcases List.mem_append.mp hc with hc | hc
  · rw [(List.mem_replicate.mp hc).2]
    rfl
  · exact isDigit_of_mem_decimal n c hc

/-- A number below `10 ^ (k + 1)` has at most `k + 1` digits. -/
theorem length_decimal_le {k n : Nat} (hn : n < 10 ^ (k + 1)) : (decimal n).length ≤ k + 1 := by
  induction k generalizing n with
  | zero =>
    rw [decimal_eq, if_pos (by simpa using hn)]
    exact Nat.le_refl 1
  | succ k ih =>
    rw [decimal_eq, List.length_append, List.length_singleton]
    refine Nat.succ_le_succ ?_
    split
    · exact Nat.zero_le _
    · rw [Nat.pow_succ] at hn
      exact ih (by omega)

/-- A number that fits fills its width exactly. -/
theorem length_padded {k n : Nat} (hn : n < 10 ^ (k + 1)) : (padded (k + 1) n).length = k + 1 := by
  have hle := length_decimal_le hn
  rw [padded, List.length_append, List.length_replicate]
  omega

/-! ## Reading. -/

theorem readDecimal_snoc (s : List UInt8) (c : UInt8) :
    readDecimal (s ++ [c]) = 10 * readDecimal s + (c.toNat - 48) := List.foldl_append

theorem readDecimal_digit {d : Nat} (hd : d < 10) (s : List UInt8) :
    readDecimal (s ++ [digit d]) = 10 * readDecimal s + d := by
  have hval : (digit d).toNat = 48 + d := by
    rw [digit, UInt8.toNat_ofNat']
    omega
  rw [readDecimal_snoc, hval, Nat.add_sub_cancel_left]

/-- Zeros in front do not matter. -/
theorem readDecimal_replicate (m : Nat) (s : List UInt8) :
    readDecimal (List.replicate m (digit 0) ++ s) = readDecimal s := by
  induction m with
  | zero => rfl
  | succ m ih => exact ih

/-- **Reading back what was printed.** -/
theorem readDecimal_decimal (n : Nat) : readDecimal (decimal n) = n := by
  refine decimal_induction (p := fun n s => readDecimal s = n) ?_ ?_ n
  · intro n hn
    have hone := readDecimal_digit hn []
    rwa [List.nil_append, show readDecimal [] = 0 from rfl, Nat.mul_zero, Nat.zero_add] at hone
  · intro n _ ih
    rw [readDecimal_digit (Nat.mod_lt _ (by decide)), ih]
    exact Nat.div_add_mod n 10

theorem readDecimal_padded (w n : Nat) : readDecimal (padded w n) = n := by
  rw [padded, readDecimal_replicate, readDecimal_decimal]

/-- **A number ends where no digit follows.** -/
theorem readNumber_append {s : List UInt8} (hs : ∀ c ∈ s, isDigit c = true) {t : List UInt8}
    (ht : ∀ c ∈ t.head?, isDigit c = false) : readNumber (s ++ t) = (readDecimal s, t) := by
  have htake : t.takeWhile isDigit = [] ∧ t.dropWhile isDigit = t := by
    cases t with
    | nil => exact ⟨rfl, rfl⟩
    | cons c t =>
      have hc : isDigit c = false := ht c rfl
      exact ⟨List.takeWhile_cons_of_neg (by simp [hc]), List.dropWhile_cons_of_neg (by simp [hc])⟩
  rw [readNumber, List.takeWhile_append_of_pos hs, List.dropWhile_append_of_pos hs, htake.1,
    htake.2, List.append_nil]

end EchoBot.Memory
