/-
# EchoBot.MyI2cMcp9808.Sample — fetching a sample and what a failed fetch leaves of the last one

`my_i2c_mcp9808_reg_read` has the bus read straight into the stored sample and swaps its bytes only
when the transfer succeeded. A failed transfer is reported by its code, and whatever it wrote before
it failed stays in `reg_val`, in bus order. The callers look at the code before they ask for the
temperature; `channel_get` itself cannot tell.

`failed_fetch_eq_iff` says which failures are harmless, `sample_is_latest` what the sample is worth
after a run: it is that of the latest successful fetch if every later failure was harmless.
-/
import EchoBot.MyI2cMcp9808.Codec

namespace EchoBot.MyI2cMcp9808

/-! ## §1 — the driver. -/

/-- The `uint16_t` whose bytes in memory are `byte0` and `byte1`, on a little-endian host. -/
def load16 (byte0 byte1 : UInt8) : UInt16 := UInt16.ofNat (byte0.toNat + 256 * byte1.toNat)

/-- The first byte of a `uint16_t` in memory. -/
def byte0 (val : UInt16) : UInt8 := UInt8.ofNat (val.toNat % 256)

/-- The second byte. -/
def byte1 (val : UInt16) : UInt8 := UInt8.ofNat (val.toNat / 256)

/-- `sys_be16_to_cpu`. -/
def sysBe16ToCpu (val : UInt16) : UInt16 := load16 (byte1 val) (byte0 val)

/-- The outcomes of reading two bytes over the bus. -/
inductive I2c where
  /-- 0, with the bytes in the order in which they came. -/
  | ok (first second : UInt8)
  /-- A code other than 0; a byte of the destination may have been overwritten or not. -/
  | error (rc : Int) (nonzero : rc ≠ 0) (first second : Option UInt8)

/-- `MY_I2C_MCP9808_REG_TEMP_AMB`. -/
def regTempAmb : UInt8 := 0x05

/-- `i2c_write_read_dt` of the register `reg` into `val`. The bus answers `bus reg`. -/
def i2cWriteReadDt (bus : UInt8 → I2c) (reg : UInt8) (val : UInt16) : UInt16 × Int :=
  match bus reg with
  | .ok first second => (load16 first second, 0)
  | .error rc _ first second => (load16 (first.getD (byte0 val)) (second.getD (byte1 val)), rc)

/-- `my_i2c_mcp9808_reg_read`. -/
def regRead (bus : UInt8 → I2c) (reg : UInt8) (val : UInt16) : UInt16 × Int :=
  let (val, rc) := i2cWriteReadDt bus reg val
  let val := if rc = 0 then sysBe16ToCpu val else val
  (val, rc)

inductive SensorChannel where
  | all
  | ambientTemp
  | other
  deriving DecidableEq, Repr

/-- `struct my_i2c_mcp9808_data`. -/
structure Data where
  regVal : UInt16
  deriving DecidableEq, Repr

/-- A call of `sample_fetch`: a channel that passes the assertion, and the bus. -/
structure Fetch where
  chan : SensorChannel
  asserted : chan = .all ∨ chan = .ambientTemp
  bus : UInt8 → I2c

/-- `my_i2c_mcp9808_sample_fetch`. -/
def sampleFetch (f : Fetch) (data : Data) : Data × Int :=
  let (regVal, rc) := regRead f.bus regTempAmb data.regVal
  ({ data with regVal }, rc)

/-- The sample after some fetches. -/
def run (fetches : List Fetch) (data : Data) : Data :=
  fetches.foldl (fun data f => (sampleFetch f data).1) data

/-- The driver's data at start-up. -/
def init : Data := { regVal := 0 }

/-! ## §2 — one fetch. -/

/-- What the bus did in a fetch. -/
def Fetch.outcome (f : Fetch) : I2c := f.bus regTempAmb

/-- The bus reported an error. -/
def Fetch.Failed (f : Fetch) : Prop := ∀ first second, f.outcome ≠ .ok first second

theorem byte0_load16 (a b : UInt8) : byte0 (load16 a b) = a := by
  have ha := a.toNat_lt
  have hb := b.toNat_lt
  apply UInt8.toNat_inj.mp
  rw [byte0, load16, UInt8.toNat_ofNat', UInt16.toNat_ofNat']
  omega

theorem byte1_load16 (a b : UInt8) : byte1 (load16 a b) = b := by
  have ha := a.toNat_lt
  have hb := b.toNat_lt
  apply UInt8.toNat_inj.mp
  rw [byte1, load16, UInt8.toNat_ofNat', UInt16.toNat_ofNat']
  omega

theorem load16_bytes (v : UInt16) : load16 (byte0 v) (byte1 v) = v := by
  have hv := v.toNat_lt
  apply UInt16.toNat_inj.mp
  rw [byte0, byte1, load16, UInt16.toNat_ofNat', UInt8.toNat_ofNat', UInt8.toNat_ofNat']
  omega

/-- **`Harmless v o`** — the transfer `o` into `v` leaves `v` as it was unless it succeeds: a failed
one overwrote no byte, or with the value it had. -/
def Harmless (v : UInt16) : I2c → Prop
  | .ok _ _ => True
  | .error _ _ first second => first.getD (byte0 v) = byte0 v ∧ second.getD (byte1 v) = byte1 v

/-- A successful fetch stores the big-endian number the bus gave. -/
theorem sampleFetch_ok {f : Fetch} {first second : UInt8} (hf : f.outcome = .ok first second)
    (data : Data) : sampleFetch f data = ({ regVal := load16 second first }, 0) := by
  unfold Fetch.outcome at hf
  simp only [sampleFetch, regRead, i2cWriteReadDt, hf, if_true, sysBe16ToCpu, byte0_load16,
    byte1_load16]

/-- A failed fetch returns its code and leaves a mixture. -/
theorem sampleFetch_error {f : Fetch} {rc : Int} {hrc : rc ≠ 0} {first second : Option UInt8}
    (hf : f.outcome = .error rc hrc first second) (data : Data) :
    sampleFetch f data =
      (⟨load16 (first.getD (byte0 data.regVal)) (second.getD (byte1 data.regVal))⟩, rc) := by
  unfold Fetch.outcome at hf
  simp only [sampleFetch, regRead, i2cWriteReadDt, hf, if_neg hrc]

/-- The code tells the failures from the successes. -/
theorem sampleFetch_rc_ne_zero {f : Fetch} (hf : f.Failed) (data : Data) :
    (sampleFetch f data).2 ≠ 0 := by
  cases hout : f.outcome with
  | ok first second => exact absurd hout (hf first second)
  | error rc hrc first second =>
    rw [sampleFetch_error hout]
    exact hrc

/-- **Which failed fetches leave the sample as it was**: the harmless ones. -/
theorem failed_fetch_eq_iff {f : Fetch} (hf : f.Failed) (data : Data) :
    (sampleFetch f data).1 = data ↔ Harmless data.regVal f.outcome := by
  cases hout : f.outcome with
  | ok first second => exact absurd hout (hf first second)
  | error rc hrc first second =>
    rw [sampleFetch_error hout]
    constructor
    · intro h
      have hval : load16 (first.getD (byte0 data.regVal)) (second.getD (byte1 data.regVal)) =
          data.regVal := congrArg Data.regVal h
      have hfirst := congrArg byte0 hval
      have hsecond := congrArg byte1 hval
      rw [byte0_load16] at hfirst
      rw [byte1_load16] at hsecond
      exact ⟨hfirst, hsecond⟩
    · rintro ⟨hfirst, hsecond⟩
      rw [hfirst, hsecond, load16_bytes]

/-! ## §3 — runs. -/

theorem run_append (fetches more : List Fetch) (data : Data) :
    run (fetches ++ more) data = run more (run fetches data) := List.foldl_append

/-- Failures that are all harmless leave the sample as it was. -/
theorem run_harmless {fetches : List Fetch} {data : Data} (hfailed : ∀ f ∈ fetches, f.Failed)
    (hharmless : ∀ pre f post, fetches = pre ++ f :: post →
      Harmless (run pre data).regVal f.outcome) : run fetches data = data := by
  induction fetches with
  | nil => rfl
  | cons f fetches ih =>
    obtain ⟨hf, hrest⟩ := List.forall_mem_cons.mp hfailed
    have hone : (sampleFetch f data).1 = data :=
      (failed_fetch_eq_iff hf data).mpr (hharmless [] f fetches rfl)
    have hstep : ∀ more, run (f :: more) data = run more data := by
      intro more
      rw [run, List.foldl_cons, hone]
      rfl
    rw [hstep]
    apply ih hrest
    intro pre g post heq
    rw [← hstep]
    exact hharmless (f :: pre) g post (by rw [heq]; rfl)

/-- **What the sample is worth.** A failed fetch reports a code other than 0, and leaves the sample
as it was exactly when it is harmless; and when every fetch behind a successful one failed
harmlessly, `channel_get` reports the temperature of that one. -/
theorem sample_is_latest (fetches : List Fetch) :
    (∀ pre f post, fetches = pre ++ f :: post → f.Failed →
      (sampleFetch f (run pre init)).2 ≠ 0 ∧
        (run (pre ++ [f]) init = run pre init ↔ Harmless (run pre init).regVal f.outcome)) ∧
    ∀ pre f post first second, fetches = pre ++ f :: post → f.outcome = .ok first second →
      (∀ g ∈ post, g.Failed) →
      (∀ mid g rest, post = mid ++ g :: rest →
        Harmless (run (pre ++ f :: mid) init).regVal g.outcome) →
      channelGet (run fetches init).regVal =
        channelGet (UInt16.ofNat (256 * first.toNat + second.toNat)) := by
  refine ⟨?_, ?_⟩
  · intro pre f post _ hf
    refine ⟨sampleFetch_rc_ne_zero hf _, ?_⟩
    rw [run_append]
    exact failed_fetch_eq_iff hf _
  · intro pre f post first second hfetches hok hfailed hharmless
    have hafter : ∀ more, run (pre ++ f :: more) init =
        run more { regVal := load16 second first } := by
      intro more
      rw [run_append, run, List.foldl_cons, sampleFetch_ok hok]
      rfl
    have hkept : run post { regVal := load16 second first } =
        { regVal := load16 second first } := by
      apply run_harmless hfailed
      intro mid g rest heq
      rw [← hafter]
      exact hharmless mid g rest heq
    rw [hfetches, hafter, hkept, load16, Nat.add_comm]

/-- A fetch of the ambient temperature. -/
def fetchOf (outcome : I2c) : Fetch where
  chan := .ambientTemp
  asserted := Or.inr rfl
  bus _ := outcome

/-- 25 °C, and then a failure that reached neither byte. -/
theorem sample_is_latest_untouched :
    channelGet (run [fetchOf (.ok 0x01 0x90), fetchOf (.error (-5) (by decide) none none)]
        init).regVal =
      channelGet (UInt16.ofNat (256 * (0x01 : UInt8).toNat + (0x90 : UInt8).toNat)) :=
  (sample_is_latest [fetchOf (.ok 0x01 0x90), fetchOf (.error (-5) (by decide) none none)]).2
    [] (fetchOf (.ok 0x01 0x90)) [fetchOf (.error (-5) (by decide) none none)] 0x01 0x90 rfl rfl
    (by simp [Fetch.Failed, Fetch.outcome, fetchOf])
    (by
      intro mid g rest heq
      cases mid with
      | nil =>
        cases heq
        exact ⟨rfl, rfl⟩
      | cons x mid => simp at heq)

/-- 25 °C, and then a failure that overwrote the second byte of `reg_val` with 0: the sample is not
what it was, and its reading is 9 °C. -/
theorem failed_fetch_changes_sample :
    (¬ ∀ (fetches : List Fetch) (f : Fetch), f.Failed →
      run (fetches ++ [f]) init = run fetches init) ∧
    ¬ ∀ (fetches : List Fetch) (f g : Fetch) (first second : UInt8),
      f.outcome = .ok first second → g.Failed →
      channelGet (run (fetches ++ [f, g]) init).regVal =
        channelGet (UInt16.ofNat (256 * first.toNat + second.toNat)) := by
  have hfailed : (fetchOf (.error (-5) (by decide) none (some 0))).Failed := by
    simp [Fetch.Failed, Fetch.outcome, fetchOf]
  refine ⟨fun hclaim => ?_, fun hclaim => ?_⟩
  · have hsame := hclaim [fetchOf (.ok 0x01 0x90)] _ hfailed
    exact absurd hsame (by decide +kernel)
  · have hreading := hclaim [] (fetchOf (.ok 0x01 0x90)) _ 0x01 0x90 rfl hfailed
    exact absurd hreading (by decide +kernel)

end EchoBot.MyI2cMcp9808
