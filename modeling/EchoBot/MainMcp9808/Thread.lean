/-
# EchoBot.MainMcp9808.Thread — the thread that prints the temperature, and its time stamps

Every two seconds the thread fetches a sample and prints the time and the temperature. The driver
may be left with a mixture of two samples by a fetch that failed (`EchoBot.MyI2cMcp9808.Sample`).
The thread is none the worse for it, because its first failure is its last turn: whatever it prints
was on the bus in the same turn (`thread_prints_what_it_fetched`). That is said of the arguments of
`printf`: what `%g` prints of a temperature has six digits, and from 100 degrees on that is less
than all of it.

A time stamp is the uptime in milliseconds as `H:MM:SS.mmm`, written to an array of 16 bytes. It
fits, for every value of the 32-bit clock, and is the clock's value: read back, it gives it again
(`now_str_reads_back`).

`CONFIG_MCP9808_TRIGGER` is defined nowhere in the repository, so the branches under it are not part
of the program.
-/
import EchoBot.Memory.Decimal
import EchoBot.MyI2cMcp9808.Sample
import Mathlib.Data.Rat.Cast.Order
import Mathlib.Tactic.Linarith

namespace EchoBot.MainMcp9808

open EchoBot.Memory
open EchoBot.MyI2cMcp9808 (Data Fetch I2c SensorValue channelGet sampleFetch sampleFetch_ok
  sampleFetch_error splitTemp_exact tempSignedFromReg toInt_tempSignedFromReg regTempAmb load16)

/-! ## §1 — `now_str`. -/

/-- `MSEC_PER_SEC`. -/
def msecPerSec : UInt32 := 1000

/-- `':'` and `'.'`. -/
def colon : UInt8 := 58
def point : UInt8 := 46

/-- The text of the format `%u:%02u:%02u.%03u`. -/
def timeText (h min s ms : Nat) : List UInt8 :=
  decimal h ++ colon :: (padded 2 min ++ colon :: (padded 2 s ++ point :: padded 3 ms))

/-- `snprintf(buf, sizeof(buf), ..)` of a text: as much of it as fits before a NUL. -/
def snprintf (text buf : List UInt8) : List UInt8 :=
  let text := text.take (buf.length - 1)
  text ++ 0 :: buf.drop (text.length + 1)

/-- `now_str`, for the uptime `now`. The array `buf` is static. -/
def nowStr (now : UInt32) (buf : List UInt8) : List UInt8 :=
  let ms := now % msecPerSec
  let now := now / msecPerSec
  let s := now % 60
  let now := now / 60
  let min := now % 60
  let now := now / 60
  let h := now
  snprintf (timeText h.toNat min.toNat s.toNat ms.toNat) buf

/-- The milliseconds that a time stamp says. -/
def readTime (text : List UInt8) : Nat :=
  let (h, rest) := readNumber text
  let (min, rest) := readNumber rest.tail
  let (s, rest) := readNumber rest.tail
  let (ms, _) := readNumber rest.tail
  ((h * 60 + min) * 60 + s) * 1000 + ms

/-- Reading a text back gives its numbers. -/
theorem readTime_timeText (h min s ms : Nat) :
    readTime (timeText h min s ms) = ((h * 60 + min) * 60 + s) * 1000 + ms := by
  have hstop : ∀ (c : UInt8) (t : List UInt8), isDigit c = false →
      ∀ c' ∈ (c :: t).head?, isDigit c' = false := by
    intro c t hc c' hc'
    obtain rfl := Option.some.inj hc'
    exact hc
  have hlast := @readNumber_append (padded 3 ms) (isDigit_of_mem_padded 3 ms) []
    fun c hc => nomatch hc
  rw [List.append_nil] at hlast
  unfold readTime timeText
  rw [readNumber_append (isDigit_of_mem_decimal h) (hstop _ _ rfl)]
  dsimp only [List.tail_cons]
  rw [readNumber_append (isDigit_of_mem_padded 2 min) (hstop _ _ rfl)]
  dsimp only [List.tail_cons]
  rw [readNumber_append (isDigit_of_mem_padded 2 s) (hstop _ _ rfl)]
  dsimp only [List.tail_cons]
  rw [hlast]
  dsimp only
  rw [readDecimal_decimal, readDecimal_padded, readDecimal_padded, readDecimal_padded]

/-- What was printed, and the NUL: a text that fits is a C string of the array. -/
theorem cString_snprintf {text buf : List UInt8} (htext : ∀ c ∈ text, c ≠ 0)
    (hfits : text.length < buf.length) :
    cString (snprintf text buf) = text ∧ (snprintf text buf).length = buf.length := by
  have htake : text.take (buf.length - 1) = text := List.take_of_length_le (by omega)
  unfold snprintf
  rw [htake]
  refine ⟨?_, ?_⟩
  · rw [cString_append_zero, cString_eq_self_iff.mpr htext]
  · rw [List.length_append, List.length_cons, List.length_drop]
    omega

/-- A time stamp holds digits and separators. -/
theorem ne_zero_of_mem_timeText {h min s ms : Nat} : ∀ c ∈ timeText h min s ms, c ≠ 0 := by
  have hdigit : ∀ c : UInt8, isDigit c = true → c ≠ 0 := by
    rintro c hc rfl
    cases hc
  intro c hc
  simp only [timeText, List.mem_append, List.mem_cons] at hc
  rcases hc with hc | rfl | hc | rfl | hc | rfl | hc
  · exact hdigit c (isDigit_of_mem_decimal h c hc)
  · decide
  · exact hdigit c (isDigit_of_mem_padded 2 min c hc)
  · decide
  · exact hdigit c (isDigit_of_mem_padded 2 s c hc)
  · decide
  · exact hdigit c (isDigit_of_mem_padded 3 ms c hc)

/-- **The text of a time stamp**, which fits `buf` with its NUL: its numbers are the parts of the
uptime. -/
theorem nowStr_text (now : UInt32) {buf : List UInt8} (hbuf : buf.length = 16) :
    (nowStr now buf).length = 16 ∧
      ∃ h min s ms, cString (nowStr now buf) = timeText h min s ms ∧ min < 60 ∧ s < 60 ∧
        ms < 1000 ∧ ((h * 60 + min) * 60 + s) * 1000 + ms = now.toNat := by
  have hnow := now.toNat_lt
  -- the four numbers, as natural numbers
  obtain ⟨h, hh⟩ : ∃ h, now.toNat / 1000 / 60 / 60 = h := ⟨_, rfl⟩
  obtain ⟨min, hmin⟩ : ∃ min, now.toNat / 1000 / 60 % 60 = min := ⟨_, rfl⟩
  obtain ⟨s, hs⟩ : ∃ s, now.toNat / 1000 % 60 = s := ⟨_, rfl⟩
  obtain ⟨ms, hms⟩ : ∃ ms, now.toNat % 1000 = ms := ⟨_, rfl⟩
  have htext : nowStr now buf = snprintf (timeText h min s ms) buf := by
    have hsec : msecPerSec.toNat = 1000 := rfl
    have hsixty : (60 : UInt32).toNat = 60 := rfl
    simp only [nowStr, UInt32.toNat_mod, UInt32.toNat_div, hsec, hsixty, hh, hmin, hs, hms]
  have hh4 : (decimal h).length ≤ 4 := length_decimal_le (k := 3) (by omega)
  have hmin2 : (padded 2 min).length = 2 := length_padded (k := 1) (by omega)
  have hs2 : (padded 2 s).length = 2 := length_padded (k := 1) (by omega)
  have hms3 : (padded 3 ms).length = 3 := length_padded (k := 2) (by omega)
  have hlen : (timeText h min s ms).length < buf.length := by
    simp only [timeText, List.length_append, List.length_cons, hmin2, hs2, hms3, hbuf]
    omega
  obtain ⟨hstring, hsize⟩ := cString_snprintf ne_zero_of_mem_timeText hlen
  rw [htext, hsize, hstring]
  exact ⟨hbuf, h, min, s, ms, rfl, by omega, by omega, by omega, by omega⟩

/-- **A time stamp is the time.** For every uptime and whatever `buf` holds: the text fits `buf`
with its NUL, so that nothing of it is cut off; its minutes and seconds are below 60 and have two
digits, its milliseconds three; and it reads back as the uptime. -/
theorem now_str_reads_back (now : UInt32) (buf : List UInt8) (hbuf : buf.length = 16) :
    (nowStr now buf).length = 16 ∧
      (∃ h min s ms, cString (nowStr now buf) = timeText h min s ms ∧ min < 60 ∧ s < 60 ∧
        ms < 1000 ∧ (padded 2 min).length = 2 ∧ (padded 2 s).length = 2 ∧
        (padded 3 ms).length = 3) ∧
      readTime (cString (nowStr now buf)) = now.toNat := by
  obtain ⟨hlen, h, min, s, ms, htext, hmin, hs, hms, hparts⟩ := nowStr_text now hbuf
  have hmin2 : (padded 2 min).length = 2 := length_padded (k := 1) (by omega)
  have hs2 : (padded 2 s).length = 2 := length_padded (k := 1) (by omega)
  have hms3 : (padded 3 ms).length = 3 := length_padded (k := 2) (by omega)
  refine ⟨hlen, ⟨h, min, s, ms, htext, hmin, hs, hms, hmin2, hs2, hms3⟩, ?_⟩
  rw [htext, readTime_timeText, hparts]

theorem now_str_reads_back_max :
    let text := nowStr 4294967295 (List.replicate 16 0)
    text.length = 16 ∧
      (∃ h min s ms, cString text = timeText h min s ms ∧ min < 60 ∧ s < 60 ∧ ms < 1000 ∧
        (padded 2 min).length = 2 ∧ (padded 2 s).length = 2 ∧ (padded 3 ms).length = 3) ∧
      readTime (cString text) = (4294967295 : UInt32).toNat :=
  now_str_reads_back 4294967295 (List.replicate 16 0) rfl

/-! ## §2 — `thread_mcp9808`. -/

inductive Output where
  /-- `Device not found.` -/
  | notFound
  /-- `Device %s is not ready.` -/
  | notReady
  /-- `sensor_sample_fetch error: %d`. -/
  | fetchError (rc : Int)
  /-- `%s: %g C`, with the arguments of the `printf`, which prints six digits of the second. -/
  | reading (time : List UInt8) (celsius : Rat)
  /-- An `int` of `channel_get` overflowed; from there on the output is not the C program's. -/
  | overflow
  deriving DecidableEq, Repr

/-- `sensor_value_to_double`, without rounding: a `double` holds the number, since a reading is a
whole number of sixteenths. -/
def sensorValueToDouble (val : SensorValue) : Rat := val.val1.toInt + val.val2.toInt / 1000000

/-- The thread, the driver's data, and the array of `now_str`. -/
structure Thread where
  data : Data
  buf : List UInt8
  running : Bool
  output : List Output

/-- What a turn of the loop meets: the uptime and the bus. -/
structure Turn where
  now : UInt32
  bus : UInt8 → I2c

/-- `sensor_sample_fetch`. -/
def Turn.fetch (r : Turn) : Fetch where
  chan := .all
  asserted := Or.inl rfl
  bus := r.bus

/-- One turn of the loop. `channel_get` always returns 0. -/
def turn (t : Thread) (r : Turn) : Thread :=
  if t.running then
    let (data, rc) := sampleFetch r.fetch t.data
    let t := { t with data }
    if rc ≠ 0 then { t with output := t.output ++ [.fetchError rc], running := false }
    else
      match channelGet t.data.regVal with
      | none => { t with output := t.output ++ [.overflow] }
      | some temp =>
        let t := { t with buf := nowStr r.now t.buf }
        { t with output := t.output ++ [.reading (cString t.buf) (sensorValueToDouble temp)] }
  else t

/-- `thread_mcp9808` up to the loop. The driver has not been used before. -/
def enter (deviceFound deviceIsReady : Bool) : Thread :=
  let t : Thread := ⟨MyI2cMcp9808.init, List.replicate 16 0, true, []⟩
  if !deviceFound then { t with output := [.notFound], running := false }
  else if !deviceIsReady then { t with output := [.notReady], running := false }
  else t

/-- `thread_mcp9808`. -/
def threadMcp9808 (deviceFound deviceIsReady : Bool) (turns : List Turn) : Thread :=
  turns.foldl turn (enter deviceFound deviceIsReady)

/-- **`Shows r o`** — the line `o` is of the time of the turn `r` and of the temperature that the
bus gave in it, in sixteenths of a degree. -/
def Shows (r : Turn) (o : Output) : Prop :=
  ∃ first second time celsius, r.bus regTempAmb = .ok first second ∧ o = .reading time celsius ∧
    readTime time = r.now.toNat ∧ celsius = (tempSignedFromReg (load16 second first)).toInt / 16

/-- **`Fails r o`** — the line `o` is the error that the bus gave in the turn `r`. -/
def Fails (r : Turn) (o : Output) : Prop :=
  ∃ rc nonzero first second, r.bus regTempAmb = .error rc nonzero first second ∧ o = .fetchError rc

/-- An exact decimal split is the number. -/
theorem sensorValueToDouble_eq {val : SensorValue} {t : Int32}
    (hexact : val.val1.toInt * 1000000 + val.val2.toInt = 62500 * t.toInt) :
    sensorValueToDouble val = t.toInt / 16 := by
  have hcast : (val.val1.toInt : Rat) * 1000000 + val.val2.toInt = 62500 * t.toInt := by
    exact_mod_cast hexact
  unfold sensorValueToDouble
  linarith

/-- A turn of the running thread prints what it fetched, or the error and stops. -/
theorem turn_spec {t : Thread} (hrunning : t.running = true) (hbuf : t.buf.length = 16) (r : Turn) :
    ∃ o, (turn t r).output = t.output ++ [o] ∧ (turn t r).buf.length = 16 ∧
      ((turn t r).running = true ∧ Shows r o ∨ (turn t r).running = false ∧ Fails r o) := by
  cases hbus : r.bus regTempAmb with
  | ok first second =>
    have hfetch : sampleFetch r.fetch t.data = ({ regVal := load16 second first }, 0) :=
      @sampleFetch_ok r.fetch first second hbus t.data
    -- every register value is in the range of the format
    have hrange := toInt_tempSignedFromReg (load16 second first)
    have hrep : MyI2cMcp9808.Representable (tempSignedFromReg (load16 second first)) := by
      unfold MyI2cMcp9808.Representable
      split at hrange <;> omega
    obtain ⟨temp, htemp, hexact, -, -⟩ := splitTemp_exact hrep
    obtain ⟨hlen, h, min, s, ms, htext, -, -, -, hparts⟩ := nowStr_text r.now hbuf
    refine ⟨.reading (cString (nowStr r.now t.buf)) (sensorValueToDouble temp), ?_, ?_,
      Or.inl ⟨?_, ?_⟩⟩
    · simp [turn, hrunning, hfetch, channelGet, htemp]
    · simp [turn, hrunning, hfetch, channelGet, htemp, hlen]
    · simp [turn, hrunning, hfetch, channelGet, htemp]
    · refine ⟨first, second, _, _, hbus, rfl, ?_, sensorValueToDouble_eq hexact⟩
      rw [htext, readTime_timeText, hparts]
  | error rc nonzero first second =>
    have hfetch := sampleFetch_error (f := r.fetch) hbus t.data
    refine ⟨.fetchError rc, ?_, ?_, Or.inr ⟨?_, rc, nonzero, first, second, hbus, rfl⟩⟩
    · simp [turn, hrunning, hfetch, nonzero]
    · simpa [turn, hrunning, hfetch, nonzero] using hbuf
    · simp [turn, hrunning, hfetch, nonzero]

/-- A thread that has stopped does nothing. -/
theorem foldl_turn_of_stopped {t : Thread} (hstopped : t.running = false) (turns : List Turn) :
    turns.foldl turn t = t := by
  induction turns with
  | nil => rfl
  | cons r turns ih =>
    have hone : turn t r = t := by
      rw [turn, hstopped]
      rfl
    rw [List.foldl_cons, hone, ih]

/-- **The thread prints what it fetched.** In every run of a device that is there, each turn up to
the first failed fetch hands `printf` the time and the temperature that the bus gave in that very
turn; the failed one prints its error; and nothing is printed behind it. So no reading is ever
stale, whatever a failed fetch leaves in the driver. -/
theorem thread_prints_what_it_fetched (turns : List Turn) :
    ∃ good rest lines, turns = good ++ rest ∧ List.Forall₂ Shows good lines ∧
      ((rest = [] ∧ (threadMcp9808 true true turns).running = true ∧
          (threadMcp9808 true true turns).output = lines) ∨
        ∃ r later error, rest = r :: later ∧ Fails r error ∧
          (threadMcp9808 true true turns).running = false ∧
          (threadMcp9808 true true turns).output = lines ++ [error]) := by
  -- the same from any thread that runs
  have hrun : ∀ (turns : List Turn) (t : Thread), t.running = true → t.buf.length = 16 →
      ∃ good rest lines, turns = good ++ rest ∧ List.Forall₂ Shows good lines ∧
        ((rest = [] ∧ (turns.foldl turn t).running = true ∧
            (turns.foldl turn t).output = t.output ++ lines) ∨
          ∃ r later error, rest = r :: later ∧ Fails r error ∧
            (turns.foldl turn t).running = false ∧
            (turns.foldl turn t).output = t.output ++ (lines ++ [error])) := by
    intro turns
    induction turns with
    | nil =>
      exact fun t ht _ => ⟨[], [], [], rfl, .nil, Or.inl ⟨rfl, ht, (List.append_nil _).symm⟩⟩
    | cons r turns ih =>
      intro t ht hbuf
      obtain ⟨o, hout, hbuf', ⟨hgoes, hshows⟩ | ⟨hstops, hfails⟩⟩ := turn_spec ht hbuf r
      · obtain ⟨good, rest, lines, hturns, hlines, hend⟩ := ih (turn t r) hgoes hbuf'
        refine ⟨r :: good, rest, o :: lines, by rw [hturns]; rfl, .cons hshows hlines, ?_⟩
        rw [List.foldl_cons]
        rcases hend with ⟨hrest, hrunning, houtput⟩ | ⟨r', later, error, hrest, hf, hs, houtput⟩
        · exact Or.inl ⟨hrest, hrunning, by rw [houtput, hout, List.append_assoc]; rfl⟩
        · exact Or.inr ⟨r', later, error, hrest, hf, hs, by
            rw [houtput, hout, List.append_assoc]
            rfl⟩
      · refine ⟨[], r :: turns, [], rfl, .nil, Or.inr ⟨r, turns, o, rfl, hfails, ?_, ?_⟩⟩
        · rw [List.foldl_cons, foldl_turn_of_stopped hstops]
          exact hstops
        · rw [List.foldl_cons, foldl_turn_of_stopped hstops, hout]
          rfl
  exact hrun turns (enter true true) rfl rfl

end EchoBot.MainMcp9808
