/-
# EchoBot.MyUartPeripheral.RoundTrip — one device's strings at the other device's callback

`user_set_string` accepts `MAX_STR_LEN` bytes and stores them in an array of one byte more, for the
NUL; `transmit_string` sends them with the NUL. The receiver's `rx_buf` must hold the NUL as well,
and its size is an option of its own with the SAME default: a string of the full 64 bytes arrives as
a fragment and an empty string (`full_string_arrives_in_pieces`), and every sequence of shorter
strings arrives as it was sent (`round_trip_iff`).
-/
import EchoBot.MyUartPeripheral.Receive

namespace EchoBot.MyUartPeripheral

open EchoBot.Memory (cString strlen)
open EchoBot.Stream

variable {κ υ : Type}

/-! ## §1 — the sender. -/

/-- Byte-wise stores from the start of `str` overwrite its head. -/
theorem foldl_storeStr (xs : List UInt8) (b : Board κ υ) (hxs : xs.length ≤ b.str.length) :
    (xs.mapIdx fun i c => (i, c)).foldl storeStr b =
      { b with str := xs ++ b.str.drop xs.length } := by
  induction xs using List.reverseRecOn with
  | nil => rfl
  | append_singleton xs c ih =>
    have hlt : xs.length < b.str.length := Nat.lt_of_succ_le (by simpa using hxs)
    have hset : (xs ++ b.str.drop xs.length).set xs.length c =
        (xs ++ [c]) ++ b.str.drop (xs.length + 1) := by
      rw [List.drop_eq_getElem_cons hlt, List.set_append_right _ _ le_rfl, Nat.sub_self,
        List.set_cons_zero, List.append_assoc]
      rfl
    rw [List.mapIdx_concat, List.foldl_append, ih hlt.le, List.foldl_cons, List.foldl_nil, storeStr]
    simp only [hset, List.length_append, List.length_singleton]

/-- The stores of `user_set_string` are those of the bytes with their NUL. -/
theorem setStringStores_eq_mapIdx (string : List UInt8) :
    setStringStores string = (string ++ [0]).mapIdx fun i c => (i, c) := by
  rw [List.mapIdx_concat]
  rfl

/-- `user_set_string` of an accepted string puts it at the start of `str`, with its NUL. -/
theorem userSetString_eq {cfg : Config} {b : Board κ υ} {string : List UInt8}
    (hlen : string.length ≤ cfg.maxStrLen) (hstr : b.str.length = cfg.maxStrLen + 1) :
    userSetString cfg string b =
      { b with str := (string ++ [0]) ++ b.str.drop (string.length + 1) } := by
  rw [userSetString, if_pos hlen, setStringStores_eq_mapIdx, foldl_storeStr _ _ (by simp; omega)]
  simp

theorem foldl_pollOut (xs : List UInt8) (b : Board κ υ) :
    xs.foldl (fun b c => b.log (.pollOut c)) b =
      { b with trace := b.trace ++ xs.map .pollOut } := by
  induction xs generalizing b with
  | nil => simp
  | cons c xs ih =>
    rw [List.foldl_cons, ih]
    simp [Board.log]

/-- `transmit_string` sends the bytes before the first NUL of `str`, and the NUL. -/
theorem transmitString_eq {b : Board κ υ} {string rest : List UInt8}
    (hstr : b.str = (string ++ [0]) ++ rest) (hnul : 0 ∉ string) :
    transmitString b = { b with trace := b.trace ++ (string ++ [0]).map .pollOut } := by
  have hstring : cString b.str = string := by
    rw [hstr, List.append_assoc, List.singleton_append, Memory.cString_append_zero]
    exact Memory.cString_eq_self_iff.mpr fun c hc h => hnul (h ▸ hc)
  have hlen : strlen b.str = some string.length := by
    rw [Memory.strlen_of_mem (by simp [hstr]), hstring]
  have htake : b.str.take string.length = string := by
    rw [hstr, List.append_assoc, List.take_left]
  rw [transmitString, hlen]
  dsimp only
  rw [htake, foldl_pollOut]
  simp [Board.log]

/-- Each string is set and the button pressed. -/
def sendStrings (strings : List (List UInt8)) : List (Step κ υ) :=
  strings.flatMap fun string => [.set (.setString string), .button]

/-- **What a sender puts on the wire**: every string and its NUL. -/
theorem wire_sendStrings {cfg : Config} {app : App κ υ} {strings : List (List UInt8)}
    (hnul : ∀ string ∈ strings, 0 ∉ string)
    (haccept : ∀ string ∈ strings, string.length ≤ cfg.maxStrLen) {b : Board κ υ}
    (hstr : b.str.length = cfg.maxStrLen + 1) :
    wire (run cfg app (sendStrings strings) b).trace =
      wire b.trace ++ strings.flatMap fun string => string ++ [0] := by
  induction strings generalizing b with
  | nil => simp [sendStrings, run]
  | cons string strings ih =>
    obtain ⟨hnul₁, hnul₂⟩ := List.forall_mem_cons.mp hnul
    obtain ⟨hlen₁, hlen₂⟩ := List.forall_mem_cons.mp haccept
    have hone : run cfg app [.set (.setString string), .button] b =
        { b with
          str := (string ++ [0]) ++ b.str.drop (string.length + 1)
          trace := b.trace ++ (string ++ [0]).map .pollOut } := by
      show transmitString (userSetString cfg string b) = _
      rw [userSetString_eq hlen₁ hstr, transmitString_eq rfl hnul₁]
    have hsplit : run cfg app (sendStrings (string :: strings)) b =
        run cfg app (sendStrings strings) (run cfg app [.set (.setString string), .button] b) := rfl
    have hwire : ∀ xs : List UInt8, wire (xs.map (Event.pollOut : UInt8 → Event κ υ)) = xs := by
      intro xs
      rw [wire, List.filterMap_map]
      exact List.filterMap_some
    rw [hsplit, hone, ih hnul₂ hlen₂ ?_, wire_append, hwire, List.flatMap_cons, List.append_assoc]
    simp only [List.length_append, List.length_drop, List.length_singleton, hstr]
    omega

theorem length_init_str (cfg : Config) (initialString : List UInt8) :
    (init cfg initialString : Board κ υ).str.length = cfg.maxStrLen + 1 := by
  simp [init]

/-! ## §2 — the round trip. -/

/-- The bytes a device sends for some strings, from power-up. -/
def sent (cfg : Config) (app : App κ υ) (initialString : List UInt8)
    (strings : List (List UInt8)) : List UInt8 :=
  wire (run cfg app (sendStrings strings) (init cfg initialString)).trace

/-- **When strings arrive as they were sent**, with the default sizes: for every sequence of strings
the sender accepts and every way the receiver's interrupts split the bytes, the receiver's callback
is called once for each string, in order, with the string and its NUL, and with nothing else, if and
only if every string leaves room for its NUL in the receiver's buffer. -/
theorem round_trip_iff {κ' υ' : Type} (app : App κ υ) (app' : App κ' υ') (happ : app.Registers)
    (initialString initialString' : List UInt8) (strings : List (List UInt8))
    (hnul : ∀ string ∈ strings, 0 ∉ string)
    (haccept : ∀ string ∈ strings, string.length ≤ Config.default.maxStrLen) (cb : κ)
    (userData : Option υ) (steps : List (Step κ υ)) (hreg : ∀ st ∈ steps, st.Registers)
    (hsplit : rxStream steps = sent .default app' initialString' strings) :
    calls (run .default app steps
        (userSetStringCallback (some cb) userData (init .default initialString))).trace =
      strings.map (fun string => (string ++ [0], true)) ↔
        ∀ string ∈ strings, string.length < Config.default.rxBufSize := by
  have hN : 0 < Config.default.rxBufSize := by decide
  have hinv : RxInv hN (rxStream steps) (run .default app steps
      (userSetStringCallback (some cb) userData (init .default initialString))) :=
    rxInv_run happ hreg (rxInv_init cb userData initialString)
  -- the strings as lines of the stream
  let ls : List (Line UInt8) := strings.map fun string => ⟨string, 0⟩
  have hstream : rxStream steps = ls.flatMap Line.bytes := by
    rw [hsplit, sent, wire_sendStrings hnul haccept (length_init_str _ _), List.flatMap_map]
    rfl
  have hls : ∀ l ∈ ls, l.WellFormed isNul := by
    intro l hl
    obtain ⟨string, hmem, rfl⟩ := List.mem_map.mp hl
    refine ⟨fun c hc => ?_, rfl⟩
    have hne : c ≠ 0 := fun h => hnul string hmem (h ▸ hc)
    simpa [isNul] using hne
  have hinj : Function.Injective callOf := by
    rintro (l | l) (l' | l') h <;> simp_all [callOf]
  have hexpected : strings.map (fun string => (string ++ [0], true)) =
      (ls.map fun l => Segment.line l.bytes).map callOf := by
    rw [List.map_map, List.map_map]
    rfl
  rw [calls_eq_segments, hinv.segments, hexpected, (List.map_injective_iff.mpr hinj).eq_iff,
    hstream, framed_lines_roundtrip isNul hN hls, List.forall_mem_map]

/-- Three strings, one of them empty, over two interrupts. -/
theorem round_trip_iff_short :
    calls (run .default (fun _ _ _ _ _ => [])
        [.uartInterrupt (some [0x61, 0x62]), .uartInterrupt none,
          .uartInterrupt (some [0, 0, 0x63, 0])]
        (userSetStringCallback (some ()) (some ()) (init .default []))).trace =
      [[0x61, 0x62], [], [0x63]].map (fun string => (string ++ [0], true)) ↔
        ∀ string ∈ [[(0x61 : UInt8), 0x62], [], [0x63]],
          string.length < Config.default.rxBufSize :=
  @round_trip_iff Unit Unit Unit Unit (fun _ _ _ _ _ => []) (fun _ _ _ _ _ => [])
    (by simp [App.Registers]) [] [] [[0x61, 0x62], [], [0x63]] (by decide) (by decide) () (some ())
    [.uartInterrupt (some [0x61, 0x62]), .uartInterrupt none, .uartInterrupt (some [0, 0, 0x63, 0])]
    (by simp [Step.Registers]) (by decide +kernel)

/-- A string of 64 bytes, the longest the sender accepts. -/
theorem full_string_arrives_in_pieces :
    ¬ ∀ strings : List (List UInt8), (∀ string ∈ strings, 0 ∉ string) →
      (∀ string ∈ strings, string.length ≤ Config.default.maxStrLen) →
      calls (run .default (fun _ _ _ _ _ => [])
          [.uartInterrupt (some (sent .default (fun _ _ _ _ _ => [] : App Unit Unit) [] strings))]
          (userSetStringCallback (some ()) (some ()) (init .default []))).trace =
        strings.map (fun string => (string ++ [0], true)) := by
  intro hclaim
  have hcalls := hclaim [List.replicate 64 0x61] (by decide) (by decide)
  exact absurd hcalls (by decide +kernel)

end EchoBot.MyUartPeripheral
