/-
# EchoBot.MyUartPeripheral.Application — what a callback can make of its calls

The callback is handed pieces: a string that does not fit `rx_buf` comes as fragments and a rest.
§1 is what a callback can do about it: joined again, the pieces are the strings that were sent, at
EVERY buffer size (`strings_rejoined`). So it is the count of the calls, not the data, that
`full_string_arrives_in_pieces` loses.

§2 is what `peripheral_callback` does do: it prints each piece and counts the two kinds of call.
`tracker_counts` reads its counters and its output off the stream the UART received.
-/
import EchoBot.Memory.CString
import EchoBot.MyUartPeripheral.Setters

namespace EchoBot.MyUartPeripheral

open EchoBot.Stream
open EchoBot.Memory (cString cString_append_zero cString_eq_self_iff strlen strlen_of_mem)

/-! ## §1 — joining the pieces. -/

/-- A string and its NUL, as a line. -/
def stringLine (string : List UInt8) : Line UInt8 := ⟨string, 0⟩

theorem stringLine_wellFormed {string : List UInt8} (hnul : 0 ∉ string) :
    (stringLine string).WellFormed isNul := by
  refine ⟨fun c hc => ?_, rfl⟩
  have hne : c ≠ 0 := fun h => hnul (h ▸ hc)
  simpa [isNul] using hne

/-- **Nothing is lost to the size of the buffer**: for every pair of configurations, every sequence
of strings the sender accepts and every way the receiver's interrupts split the bytes, the calls of
the receiver's callback join to the strings that were sent, each with its NUL, and no piece is left
over. -/
theorem strings_rejoined {κ υ κ' υ' : Type} (cfg cfg' : Config) (hN : 0 < cfg.rxBufSize)
    (app : App κ υ) (app' : App κ' υ') (happ : app.Registers)
    (initialString initialString' : List UInt8) (strings : List (List UInt8))
    (hnul : ∀ string ∈ strings, 0 ∉ string)
    (haccept : ∀ string ∈ strings, string.length ≤ cfg'.maxStrLen) (cb : κ)
    (userData : Option υ) (steps : List (Step κ υ)) (hreg : ∀ st ∈ steps, st.Registers)
    (hsplit : rxStream steps = sent cfg' app' initialString' strings) :
    rejoin (segments (run cfg app steps
        (userSetStringCallback (some cb) userData (init cfg initialString))).trace) =
      ([], strings.map fun string => string ++ [0]) := by
  have hinv : RxInv hN (rxStream steps) (run cfg app steps
      (userSetStringCallback (some cb) userData (init cfg initialString))) :=
    rxInv_run happ hreg (rxInv_init cb userData initialString)
  have hstream : rxStream steps = (strings.map stringLine).flatMap Line.bytes := by
    rw [hsplit, sent, wire_sendStrings hnul haccept (length_init_str _ _), List.flatMap_map]
    rfl
  have hls : ∀ l ∈ strings.map stringLine, l.WellFormed isNul := by
    intro l hl
    obtain ⟨string, hmem, rfl⟩ := List.mem_map.mp hl
    exact stringLine_wellFormed (hnul string hmem)
  obtain ⟨hlines, hopen⟩ := lines_flatMap_bytes hls
  obtain ⟨hkept, hwhole⟩ := rejoin_framed isNul hN (rxStream steps)
  rw [hstream, hopen] at hkept
  rw [hstream, hlines, List.map_map] at hwhole
  rw [hinv.segments, hstream]
  exact Prod.ext (List.append_eq_nil_iff.mp hkept).1 hwhole

/-- Two strings through a buffer of two bytes. -/
theorem strings_rejoined_two :
    rejoin (segments (run { rxBufSize := 2 } (fun _ _ _ _ _ => [])
        [.uartInterrupt (some [0x61, 0x62, 0x63]), .uartInterrupt (some [0, 0x64, 0])]
        (userSetStringCallback (some ()) (some ()) (init { rxBufSize := 2 } []))).trace) =
      ([], [[0x61, 0x62, 0x63], [0x64]].map fun string => string ++ [0]) :=
  @strings_rejoined Unit Unit Unit Unit { rxBufSize := 2 } .default (by decide)
    (fun _ _ _ _ _ => []) (fun _ _ _ _ _ => []) (by simp [App.Registers]) [] []
    [[0x61, 0x62, 0x63], [0x64]] (by decide) (by decide) () (some ())
    [.uartInterrupt (some [0x61, 0x62, 0x63]), .uartInterrupt (some [0, 0x64, 0])]
    (by simp [Step.Registers]) (by decide +kernel)

/-! ## §2 — `main_my_uart_peripheral` and `peripheral_callback`. -/

/-- The functions the program registers. -/
inductive Function where
  | peripheralCallback
  deriving DecidableEq, Repr

/-- The objects it passes as user data. -/
inductive Object where
  | tracker
  deriving DecidableEq, Repr

/-- What the callback does for the outside to see. Behind the first fault it says nothing about the
C program. -/
inductive Output where
  /-- `Recieved string "%s"`. -/
  | string (text : List UInt8)
  /-- `Buffer full. Recieved fragment %.*s`. -/
  | fragment (text : List UInt8)
  /-- `Strings: %d`, `Overflows: %d`. -/
  | counts (strings overflows : Int32)
  /-- `%s` found no NUL in the data and read on behind it. -/
  | overread
  /-- `user_data` is `NULL`. -/
  | nullDereference
  deriving DecidableEq, Repr

/-- `struct counter`, and what was printed, oldest first. -/
structure Counter where
  strings : Int32 := 0
  overflows : Int32 := 0
  output : List Output := []

namespace Counter

variable (c : Counter) (o : Output)

def print : Counter := { c with output := c.output ++ [o] }

@[simp] theorem print_strings : (c.print o).strings = c.strings := rfl
@[simp] theorem print_overflows : (c.print o).overflows = c.overflows := rfl
@[simp] theorem print_output : (c.print o).output = c.output ++ [o] := rfl

end Counter

/-- `printk("… \"%s\"", data)`. -/
def printString (data : List UInt8) : Output :=
  match strlen data with
  | none => .overread
  | some len => .string (data.take len)

/-- `peripheral_callback`. The data is what `data` and `length` tell. -/
def peripheralCallback (data : List UInt8) (isString : Bool) (userData : Option Object)
    (c : Counter) : Counter :=
  let c := c.print (if isString then printString data else .fragment (cString data))
  match userData with
  | none => c.print .nullDereference
  | some .tracker =>
    let c :=
      if isString then { c with strings := c.strings + 1 }
      else { c with overflows := c.overflows + 1 }
    c.print (.counts c.strings c.overflows)

/-- `tracker` after an event. -/
def trackEvent (c : Counter) : Event Function Object → Counter
  | .callback .peripheralCallback data isString userData =>
    peripheralCallback data isString userData c
  | _ => c

/-- **`tracker t`** — the object `tracker` after the trace `t`. -/
def tracker (t : List (Event Function Object)) : Counter := t.foldl trackEvent {}

/-- The text that an output shows of the data. -/
def Output.text? : Output → Option (List UInt8)
  | .string text => some text
  | .fragment text => some text
  | _ => none

def Output.isFault : Output → Bool
  | .overread => true
  | .nullDereference => true
  | _ => false

/-- What is printed of the data, all of it. -/
def printedText (output : List Output) : List UInt8 := (output.filterMap Output.text?).flatten

@[simp] theorem printedText_append (o o' : List Output) :
    printedText (o ++ o') = printedText o ++ printedText o' := by
  simp [printedText]

/-- The callback's call for a segment. -/
def trackSegment (c : Counter) (g : Segment UInt8) : Counter :=
  peripheralCallback (callOf g).1 (callOf g).2 (some .tracker) c

/-- **`Tracked gs c`** — the counter counts the segments of each kind, every symbol but the NULs was
printed, and nothing went wrong. -/
structure Tracked (gs : List (Segment UInt8)) (c : Counter) : Prop where
  strings : c.strings = Int32.ofNat (gs.filterMap Segment.line?).length
  overflows : c.overflows = Int32.ofNat (gs.filterMap Segment.full?).length
  text : printedText c.output = (gs.flatMap Segment.bytes).filter (· != 0)
  noFault : ∀ o ∈ c.output, o.isFault = false

/-- A string is printed up to its NUL. -/
theorem printString_concat {body : List UInt8} {t : UInt8} (ht : isNul t = true)
    (hbody : ∀ c ∈ body, isNul c = false) : printString (body ++ [t]) = .string body := by
  have htz : t = 0 := by simpa [isNul] using ht
  have hne : ∀ c ∈ body, c ≠ 0 := fun c hc => by simpa [isNul] using hbody c hc
  have hwhole : cString (body ++ [t]) = body := by
    rw [htz, cString_append_zero, cString_eq_self_iff.mpr hne]
  have hlen : strlen (body ++ [t]) = some body.length := by
    rw [strlen_of_mem (by simp [htz]), hwhole]
  rw [printString, hlen]
  simp

theorem filter_ne_zero_of_clean {s : List UInt8} (hs : ∀ c ∈ s, isNul c = false) :
    s.filter (· != 0) = s :=
  List.filter_eq_self.mpr fun c hc => by simpa [isNul] using hs c hc

/-- One segment more. -/
theorem Tracked.step {N : Nat} {gs : List (Segment UInt8)} {c : Counter} (h : Tracked gs c)
    {g : Segment UInt8} (hg : g.WellFormed isNul N) : Tracked (gs ++ [g]) (trackSegment c g) := by
  have hone : ∀ n : Nat, Int32.ofNat n + 1 = Int32.ofNat (n + 1) := fun n => by
    rw [Int32.ofNat_add]
    rfl
  obtain ⟨hstrings, hoverflows, htext, hfault⟩ := h
  cases g with
  | line bytes =>
    obtain ⟨-, body, t, rfl, ht, hbody⟩ := hg
    have htz : t = 0 := by simpa [isNul] using ht
    have hstep : trackSegment c (.line (body ++ [t])) =
        { strings := c.strings + 1, overflows := c.overflows
          output := c.output ++ [.string body] ++ [.counts (c.strings + 1) c.overflows] } := by
      simp [trackSegment, callOf, peripheralCallback, printString_concat ht hbody, Counter.print]
    rw [hstep]
    refine ⟨?_, ?_, ?_, ?_⟩
    · show c.strings + 1 = _
      rw [hstrings, hone, List.filterMap_append, List.length_append]
      rfl
    · show c.overflows = _
      rw [hoverflows, List.filterMap_append, List.length_append]
      rfl
    · rw [printedText_append, printedText_append, htext, List.flatMap_append, List.filter_append,
        List.append_assoc]
      congr 1
      rw [List.flatMap_singleton, Segment.bytes, List.filter_append,
        filter_ne_zero_of_clean hbody, htz]
      simp [printedText, Output.text?]
    · intro o ho
      simp only [List.mem_append, List.mem_singleton, or_assoc] at ho
      rcases ho with ho | rfl | rfl
      · exact hfault o ho
      · rfl
      · rfl
  | full bytes =>
    obtain ⟨-, hclean⟩ := hg
    have hwhole : cString bytes = bytes :=
      cString_eq_self_iff.mpr fun c hc => by simpa [isNul] using hclean c hc
    have hstep : trackSegment c (.full bytes) =
        { strings := c.strings, overflows := c.overflows + 1
          output := c.output ++ [.fragment bytes] ++ [.counts c.strings (c.overflows + 1)] } := by
      simp [trackSegment, callOf, peripheralCallback, hwhole, Counter.print]
    rw [hstep]
    refine ⟨?_, ?_, ?_, ?_⟩
    · show c.strings = _
      rw [hstrings, List.filterMap_append, List.length_append]
      rfl
    · show c.overflows + 1 = _
      rw [hoverflows, hone, List.filterMap_append, List.length_append]
      rfl
    · rw [printedText_append, printedText_append, htext, List.flatMap_append, List.filter_append,
        List.append_assoc]
      congr 1
      rw [List.flatMap_singleton, Segment.bytes, filter_ne_zero_of_clean hclean]
      simp [printedText, Output.text?]
    · intro o ho
      simp only [List.mem_append, List.mem_singleton, or_assoc] at ho
      rcases ho with ho | rfl | rfl
      · exact hfault o ho
      · rfl
      · rfl

/-- A step of a thread that leaves the registration alone, or an interrupt. -/
def Step.KeepsCallback : Step Function Object → Prop
  | .set (.setCallback _ _) => False
  | _ => True

/-- **`Wired b`** — the object registered is `tracker`, and every call had it. -/
structure Wired (b : Board Function Object) : Prop where
  userData : b.userData = some .tracker
  pairs : ∀ p ∈ pairs b.trace, p.2 = some .tracker

section Program

variable {cfg : Config} {b : Board Function Object}

theorem Wired.frame (h : Wired b) {b' : Board Function Object} (hframe : RxFrame b b')
    (huser : b'.userData = b.userData) : Wired b' := by
  obtain ⟨evs, htrace, hevs⟩ := hframe.trace
  refine ⟨huser.trans h.userData, ?_⟩
  rw [htrace, pairs_append, pairs_of_not_isRx hevs, List.append_nil]
  exact h.pairs

/-- `silent` asks for no call of a setter. -/
theorem calledBack_silent (callback : Option Function) (c : UInt8) (b : Board Function Object) :
    calledBack cfg silent callback c b = [] := by
  have hasked : ∀ isString b, asked (silent : App Function Object) callback isString b = [] := by
    intro isString b
    cases callback <;> rfl
  simp only [calledBack, hasked, ite_self]

/-- A byte received. -/
theorem Wired.receiveByte (h : Wired b) (callback : Option Function) (c : UInt8) :
    Wired (receiveByte cfg silent callback c b) := by
  obtain ⟨hsteady, evs, htrace, hevs⟩ := @receiveByte_calls _ _ cfg silent callback c b
  rw [calledBack_silent] at hsteady
  refine ⟨hsteady.userData.trans h.userData, ?_⟩
  rw [htrace, pairs_append, List.forall_mem_append]
  exact ⟨h.pairs, fun p hp => ((hevs p).mp hp).2.2.symm.trans h.userData⟩

/-- **Each step keeps the wiring.** The callback calls no function of the driver. -/
theorem Wired.step (h : Wired b) {st : Step Function Object} (hst : st.KeepsCallback) :
    Wired (step cfg silent b st) := by
  have hkeep : ∀ {α : Type} (f : Board Function Object → α → Board Function Object)
      (_ : ∀ b x, (f b x).userData = b.userData) (xs : List α) (b : Board Function Object),
      (xs.foldl f b).userData = b.userData := by
    intro α f hf xs b
    refine List.foldlRecOn (motive := fun b' : Board Function Object => b'.userData = b.userData)
      xs f rfl ?_
    intro b' hb' x _
    exact (hf b' x).trans hb'
  cases st with
  | set s =>
    cases s with
    | setString string =>
      refine h.frame (runSetter_frame cfg b (.setString string)) ?_
      show (userSetString cfg string b).userData = b.userData
      unfold userSetString
      split
      · exact hkeep storeStr (fun _ _ => rfl) _ b
      · rfl
    | setCallback callback userData => cases hst
  | button =>
    refine h.frame (transmitString_frame b) ?_
    show (transmitString b).userData = b.userData
    unfold transmitString
    split
    · rfl
    · exact hkeep (fun b c => b.log (.pollOut c)) (fun _ _ => rfl) _ b
  | uartInterrupt rx =>
    cases rx with
    | none => exact h
    | some bytes =>
      exact List.foldlRecOn (motive := Wired) bytes _ h fun _ hb c _ => hb.receiveByte _ c

end Program

end EchoBot.MyUartPeripheral
