/-
# EchoBot.MyI2cMcp9808.Codec — the register format of the MCP9808 and its decimal reading

The temperature register holds sixteenths of a degree in 12-bit two's complement, a separate sign
bit, and three alert bits above it. The code goes to and fro between that and a C `int`: the encoder
masks the `int`, the decoder uses an xor and an unsigned negation, and `channel_get` splits the
decoded number into degrees and millionths.

Both directions are first read as arithmetic (`toNat_tempRegFromSigned`,
`toInt_tempSignedFromReg`); the codec is then exact on the 8192 values the register can hold, and
on no others (`codec_exact`).

Signed arithmetic that overflows is undefined in C. The model does it in `int32`, which has no value
then, so that a reading is the result of in-range steps alone.
-/
import Mathlib.Algebra.Order.Group.Unbundled.Int
import Mathlib.Data.Nat.Bitwise

namespace EchoBot.MyI2cMcp9808

/-! ## §1 — the header: the register format. -/

/-- `MY_I2C_MCP9808_TEMP_SCALE_CEL`. -/
def tempScaleCel : Int := 16

/-- `MY_I2C_MCP9808_TEMP_SIGN_BIT`. -/
def tempSignBit : UInt32 := (1 : UInt32) <<< 12

/-- `MY_I2C_MCP9808_TEMP_ABS_MASK`. -/
def tempAbsMask : UInt16 := (tempSignBit - 1).toUInt16

/-- `MY_I2C_MCP9808_TEMP_LWR_BIT`, `.._UPR_BIT` and `.._CRT_BIT`. -/
def tempAlertBits : UInt16 := (1 : UInt16) <<< 13 ||| (1 : UInt16) <<< 14 ||| (1 : UInt16) <<< 15

/-- The mask, promoted to `int`. -/
def intAbsMask : Int32 := tempAbsMask.toUInt32.toInt32

/-- `my_i2c_mcp9808_temp_reg_from_signed`. -/
def tempRegFromSigned (temp : Int32) : UInt16 :=
  let rv := (temp &&& intAbsMask).toUInt32.toUInt16
  if temp < 0 then (rv.toUInt32 ||| tempSignBit).toUInt16 else rv

/-- `my_i2c_mcp9808_temp_signed_from_reg`. -/
def tempSignedFromReg (reg : UInt16) : Int32 :=
  let rv := reg.toUInt32.toInt32 &&& intAbsMask
  if reg.toUInt32 &&& tempSignBit ≠ 0 then (-(1 + (rv ^^^ intAbsMask).toUInt32)).toInt32 else rv

/-! ## §2 — `channel_get`. -/

/-- An `int` result; `none` when it is out of range. -/
def int32 (x : Int) : Option Int32 :=
  if -2 ^ 31 ≤ x ∧ x < 2 ^ 31 then some (Int32.ofInt x) else none

/-- `struct sensor_value`. -/
structure SensorValue where
  val1 : Int32
  val2 : Int32
  deriving DecidableEq, Repr

/-- The arithmetic of `my_i2c_mcp9808_channel_get` on `temp`. -/
def splitTemp (temp : Int32) : Option SensorValue := do
  let val1 ← int32 (temp.toInt.tdiv tempScaleCel)
  let whole ← int32 (val1.toInt * tempScaleCel)
  let temp ← int32 (temp.toInt - whole.toInt)
  let scaled ← int32 (temp.toInt * 1000000)
  let val2 ← int32 (scaled.toInt.tdiv tempScaleCel)
  return { val1, val2 }

/-- `my_i2c_mcp9808_channel_get`, of the sample `reg_val`. -/
def channelGet (regVal : UInt16) : Option SensorValue := splitTemp (tempSignedFromReg regVal)

/-! ## §3 — the format as arithmetic. -/

/-- An `int` and the same bits as an unsigned number. -/
theorem toInt_eq_cond (t : Int32) :
    t.toInt = if 2 * t.toUInt32.toNat < 2 ^ 32 then (t.toUInt32.toNat : Int)
      else t.toUInt32.toNat - 2 ^ 32 := by
  rw [← Int32.toInt_toBitVec, BitVec.toInt_eq_toNat_cond, Int32.toNat_toBitVec]
  rfl

/-- Flipping the lower `n` bits. -/
theorem xor_two_pow_sub_one {n x : Nat} (hx : x < 2 ^ n) :
    x ^^^ (2 ^ n - 1) = 2 ^ n - 1 - x := by
  have hflip : 2 ^ n - 1 - x = 2 ^ n - (x + 1) := by omega
  rw [hflip]
  apply Nat.eq_of_testBit_eq
  intro i
  rw [Nat.testBit_xor, Nat.testBit_two_pow_sub_one, Nat.testBit_two_pow_sub_succ hx]
  by_cases hi : i < n
  · simp [hi]
  · have hhigh : x.testBit i = false := by
      apply Nat.testBit_lt_two_pow
      exact Nat.lt_of_lt_of_le hx (Nat.pow_le_pow_right (by decide) (Nat.not_lt.mp hi))
    simp [hi, hhigh]

theorem toNat_and_intAbsMask (t : Int32) :
    (t &&& intAbsMask).toUInt32.toNat = t.toUInt32.toNat % 4096 := by
  have hmask : intAbsMask.toUInt32.toNat = 2 ^ 12 - 1 := by decide
  rw [Int32.toUInt32_and, UInt32.toNat_and, hmask, Nat.and_two_pow_sub_one_eq_mod]

/-- The sign bit of a register value. -/
theorem and_tempSignBit_eq_zero_iff (reg : UInt16) :
    reg.toUInt32 &&& tempSignBit = 0 ↔ reg.toNat / 4096 % 2 = 0 := by
  have hbit : tempSignBit.toNat = 2 ^ 12 := by decide
  rw [← UInt32.toNat_inj, UInt32.toNat_and, hbit, UInt16.toNat_toUInt32, Nat.and_two_pow]
  show (reg.toNat.testBit 12).toNat * 2 ^ 12 = 0 ↔ _
  rw [Nat.testBit_eq_decide_div_mod_eq]
  by_cases hone : reg.toNat / 4096 % 2 = 1
  · simp [hone]
  · simp [hone]
    omega

/-- **The encoder**: the number modulo 4096, and bit 12 for a negative one. -/
theorem toNat_tempRegFromSigned (t : Int32) :
    ((tempRegFromSigned t).toNat : Int) = t.toInt % 4096 + if t.toInt < 0 then 4096 else 0 := by
  have hcond := toInt_eq_cond t
  have hlt := t.toUInt32.toNat_lt
  have hfield := toNat_and_intAbsMask t
  have hneg : t < 0 ↔ t.toInt < 0 := Int32.lt_iff_toInt_lt
  unfold tempRegFromSigned
  dsimp only
  have hrv : (t &&& intAbsMask).toUInt32.toUInt16.toNat = t.toUInt32.toNat % 4096 := by
    rw [UInt32.toNat_toUInt16, hfield]
    omega
  by_cases ht : t.toInt < 0
  · have hor : ((t &&& intAbsMask).toUInt32.toUInt16.toUInt32 ||| tempSignBit).toUInt16.toNat =
        t.toUInt32.toNat % 4096 + 4096 := by
      have hbit : tempSignBit.toNat = 2 ^ 12 * 1 := by decide
      have hlow : t.toUInt32.toNat % 4096 < 2 ^ 12 := Nat.mod_lt _ (by decide)
      have hdisjoint := Nat.two_pow_add_eq_or_of_lt hlow 1
      rw [UInt32.toNat_toUInt16, UInt32.toNat_or, UInt16.toNat_toUInt32, hrv, hbit, Nat.or_comm]
      omega
    rw [if_pos (hneg.mpr ht), if_pos ht, hor]
    split at hcond <;> omega
  · rw [if_neg (mt hneg.mp ht), if_neg ht, hrv]
    split at hcond <;> omega

/-- **The decoder**: the lower 12 bits, less 4096 if bit 12 is set. -/
theorem toInt_tempSignedFromReg (reg : UInt16) :
    (tempSignedFromReg reg).toInt =
      (reg.toNat % 4096 : Nat) - if reg.toNat / 4096 % 2 = 0 then (0 : Int) else 4096 := by
  have hfield := toNat_and_intAbsMask reg.toUInt32.toInt32
  have hreg : reg.toUInt32.toInt32.toUInt32.toNat = reg.toNat := UInt16.toNat_toUInt32 reg
  rw [hreg] at hfield
  have hlow : reg.toNat % 4096 < 2 ^ 12 := Nat.mod_lt _ (by decide)
  unfold tempSignedFromReg
  dsimp only
  by_cases hsign : reg.toNat / 4096 % 2 = 0
  · have hcond := toInt_eq_cond (reg.toUInt32.toInt32 &&& intAbsMask)
    rw [if_neg (not_not.mpr ((and_tempSignBit_eq_zero_iff reg).mpr hsign)), if_pos hsign]
    split at hcond <;> omega
  · rw [if_pos (mt (and_tempSignBit_eq_zero_iff reg).mp hsign), if_neg hsign]
    have hmask : intAbsMask.toUInt32.toNat = 2 ^ 12 - 1 := by decide
    have hflip : ((reg.toUInt32.toInt32 &&& intAbsMask) ^^^ intAbsMask).toUInt32.toNat =
        4095 - reg.toNat % 4096 := by
      rw [Int32.toUInt32_xor, UInt32.toNat_xor, hfield, hmask]
      exact xor_two_pow_sub_one hlow
    have hcond := toInt_eq_cond
      (-(1 + ((reg.toUInt32.toInt32 &&& intAbsMask) ^^^ intAbsMask).toUInt32)).toInt32
    have hsize : UInt32.size = 2 ^ 32 := rfl
    rw [UInt32.toUInt32_toInt32, UInt32.toNat_neg, UInt32.toNat_add, UInt32.toNat_one, hflip,
      hsize] at hcond
    split at hcond <;> omega

/-! ## §4 — the codec. -/

/-- The temperatures the register can hold, in sixteenths of a degree. -/
def Representable (t : Int32) : Prop := -4096 ≤ t.toInt ∧ t.toInt ≤ 4095

instance (t : Int32) : Decidable (Representable t) := inferInstanceAs (Decidable (_ ∧ _))

/-- Decoding looks at the lower 13 bits only. -/
theorem tempSignedFromReg_congr {r r' : UInt16} (h : r.toNat % 8192 = r'.toNat % 8192) :
    tempSignedFromReg r = tempSignedFromReg r' := by
  apply Int32.toInt_inj.mp
  have hlow : r.toNat % 4096 = r'.toNat % 4096 := by omega
  have hsign : r.toNat / 4096 % 2 = r'.toNat / 4096 % 2 := by omega
  rw [toInt_tempSignedFromReg, toInt_tempSignedFromReg, hlow, hsign]

theorem decode_encode_iff (t : Int32) :
    tempSignedFromReg (tempRegFromSigned t) = t ↔ Representable t := by
  have henc := toNat_tempRegFromSigned t
  have hdec := toInt_tempSignedFromReg (tempRegFromSigned t)
  unfold Representable
  rw [← Int32.toInt_inj]
  split at henc <;> split at hdec <;> omega

/-- Clearing the alert bits. -/
theorem toNat_and_not_tempAlertBits (r : UInt16) :
    (r &&& ~~~tempAlertBits).toNat = r.toNat % 8192 := by
  have hmask : (~~~tempAlertBits).toNat = 2 ^ 13 - 1 := by decide
  rw [UInt16.toNat_and, hmask, Nat.and_two_pow_sub_one_eq_mod]

theorem encode_decode (r : UInt16) :
    tempRegFromSigned (tempSignedFromReg r) = r &&& ~~~tempAlertBits := by
  have henc := toNat_tempRegFromSigned (tempSignedFromReg r)
  have hdec := toInt_tempSignedFromReg r
  apply UInt16.toNat_inj.mp
  rw [toNat_and_not_tempAlertBits]
  split at henc <;> split at hdec <;> omega

/-- Alert bits set above a register value that has none. -/
theorem toNat_or_tempAlertBits {r : UInt16} (hr : r.toNat < 8192) (alerts : UInt16) :
    (r ||| (alerts &&& tempAlertBits)).toNat % 8192 = r.toNat := by
  have hbits : tempAlertBits.toNat % 2 ^ 13 = 0 := by decide
  show _ % 2 ^ 13 = _
  rw [UInt16.toNat_or, UInt16.toNat_and, Nat.or_mod_two_pow, Nat.and_mod_two_pow, hbits,
    Nat.and_zero, Nat.or_zero]
  exact Nat.mod_eq_of_lt hr

theorem int32_of_range {x : Int} (hlo : -2 ^ 31 ≤ x) (hhi : x < 2 ^ 31) :
    int32 x = some (Int32.ofInt x) ∧ (Int32.ofInt x).toInt = x :=
  ⟨if_pos ⟨hlo, hhi⟩, Int32.toInt_ofInt_of_le hlo hhi⟩

/-- C's division truncates toward zero. -/
theorem tdiv_tempScaleCel (x : Int) :
    x.tdiv tempScaleCel = if 0 ≤ x then x / 16 else -(-x / 16) := by
  unfold tempScaleCel
  split
  · next hx => exact Int.tdiv_eq_ediv_of_nonneg hx
  · next hx =>
    rw [← Int.neg_neg (x.tdiv 16), ← Int.neg_tdiv, Int.tdiv_eq_ediv_of_nonneg (by omega)]

/-- **The decimal split is exact**, and no step of it leaves the range of `int`. -/
theorem splitTemp_exact {t : Int32} (ht : Representable t) :
    ∃ v, splitTemp t = some v ∧ v.val1.toInt * 1000000 + v.val2.toInt = 62500 * t.toInt ∧
      |v.val2.toInt| < 1000000 ∧ 0 ≤ v.val1.toInt * v.val2.toInt := by
  obtain ⟨hlo, hhi⟩ := ht
  -- the whole degrees `d` and the sixteenths `r` left over have the sign of the temperature
  obtain ⟨d, hd⟩ : ∃ d, t.toInt.tdiv tempScaleCel = d := ⟨_, rfl⟩
  obtain ⟨r, hr⟩ : ∃ r, t.toInt - d * 16 = r := ⟨_, rfl⟩
  have hsigns : (0 ≤ d ∧ 0 ≤ r) ∨ (d ≤ 0 ∧ r ≤ 0) := by
    rw [tdiv_tempScaleCel] at hd
    split at hd <;> omega
  have hdrange : -256 ≤ d ∧ d ≤ 255 := by
    rw [tdiv_tempScaleCel] at hd
    split at hd <;> omega
  have hrrange : -16 < r ∧ r < 16 := by
    rw [tdiv_tempScaleCel] at hd
    split at hd <;> omega
  have hval2 : (r * 1000000).tdiv tempScaleCel = r * 62500 := by
    have hfactor : r * 1000000 = r * 62500 * 16 := by omega
    rw [hfactor]
    exact Int.mul_tdiv_cancel _ (by decide)
  obtain ⟨hval1Eq, hval1⟩ := @int32_of_range d (by omega) (by omega)
  obtain ⟨hwholeEq, hwhole⟩ := @int32_of_range (d * 16) (by omega) (by omega)
  obtain ⟨hrestEq, hrest⟩ := @int32_of_range r (by omega) (by omega)
  obtain ⟨hscaledEq, hscaled⟩ := @int32_of_range (r * 1000000) (by omega) (by omega)
  obtain ⟨hval2Eq, hval2'⟩ := @int32_of_range (r * 62500) (by omega) (by omega)
  refine ⟨⟨Int32.ofInt d, Int32.ofInt (r * 62500)⟩, ?_, ?_, ?_, ?_⟩
  · simp only [splitTemp, hd, hval1Eq, hval1, Option.bind_eq_bind, Option.bind_some]
    show (int32 (d * 16)).bind _ = _
    simp only [hwholeEq, hwhole, Option.bind_some, hr, hrestEq, hrest, hscaledEq, hscaled, hval2,
      hval2Eq]
    rfl
  · rw [hval1, hval2']
    omega
  · rw [hval2', abs_lt]
    omega
  · rw [hval1, hval2']
    rcases hsigns with ⟨hd0, hr0⟩ | ⟨hd0, hr0⟩
    · exact Int.mul_nonneg hd0 (by omega)
    · exact Int.mul_nonneg_of_nonpos_of_nonpos hd0 (by omega)

/-- **The codec is exact.** Encoding and decoding give a number back exactly when the register can
hold it; decoding and encoding give a register value back with its alert bits cleared; and whatever
the alert bits of an encoded temperature, the reading of it is exact, with both parts of one sign
and every step of it in range. -/
theorem codec_exact :
    (∀ t : Int32, tempSignedFromReg (tempRegFromSigned t) = t ↔ Representable t) ∧
    (∀ r : UInt16, tempRegFromSigned (tempSignedFromReg r) = r &&& ~~~tempAlertBits) ∧
    ∀ (t : Int32) (alerts : UInt16), Representable t →
      ∃ v, channelGet (tempRegFromSigned t ||| (alerts &&& tempAlertBits)) = some v ∧
        v.val1.toInt * 1000000 + v.val2.toInt = 62500 * t.toInt ∧
        |v.val2.toInt| < 1000000 ∧ 0 ≤ v.val1.toInt * v.val2.toInt := by
  refine ⟨decode_encode_iff, encode_decode, fun t alerts ht => ?_⟩
  have hencoded : (tempRegFromSigned t).toNat < 8192 := by
    have henc := toNat_tempRegFromSigned t
    split at henc <;> omega
  have hdecoded : tempSignedFromReg (tempRegFromSigned t ||| (alerts &&& tempAlertBits)) = t := by
    refine Eq.trans (tempSignedFromReg_congr ?_) ((decode_encode_iff t).mpr ht)
    rw [toNat_or_tempAlertBits hencoded, Nat.mod_eq_of_lt hencoded]
  rw [channelGet, hdecoded]
  exact splitTemp_exact ht

/-- A sixteenth below -255, the alert bits set. -/
theorem codec_exact_negative :
    ∃ v, channelGet (tempRegFromSigned (-4081) ||| (0xA000 &&& tempAlertBits)) = some v ∧
      v.val1.toInt * 1000000 + v.val2.toInt = 62500 * (-4081 : Int32).toInt ∧
      |v.val2.toInt| < 1000000 ∧ 0 ≤ v.val1.toInt * v.val2.toInt :=
  codec_exact.2.2 (-4081) 0xA000 (by decide)

end EchoBot.MyI2cMcp9808
