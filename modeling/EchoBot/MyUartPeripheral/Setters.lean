/-
# EchoBot.MyUartPeripheral.Setters — the setters, store by store, with interrupts in between

Nothing keeps the interrupts out of `user_set_string` and `user_set_string_callback`. So a call of
the thread is here a sequence of stores, and an interrupt may come between any two. Behind the first
store of a call and before its last the data is torn: a new callback beside the user data of the old
one, or the head of a new string before the tail of the old one.

A callback may call the setters itself, and its calls are whole. But one that falls between two
stores of a call of the thread leaves the data torn behind that call, too (`Call.Tears`); and one
that registers leaves its own handler with the old callback, which it goes on calling, now with the
new user data.

The system keeps account of what is torn (`seam`, `pairTorn`), and `Inv` says that the account is
true. From it follows when an interrupt shows torn data: a button press sends both sides of the
seam, a received string reaches the pair (`setters_atomic_iff`).
-/
import EchoBot.Memory.CString
import EchoBot.MyUartPeripheral.RoundTrip

namespace EchoBot.MyUartPeripheral

open EchoBot.Memory (cString Sealed)

variable {κ υ : Type}

/-! ## §1 — the program. -/

/-- A string that `user_set_string` accepts. -/
abbrev Text (cfg : Config) := { string : List UInt8 // string.length ≤ cfg.maxStrLen }

/-- A call of a setter whose assertion holds. -/
inductive Call (cfg : Config) (κ υ : Type) where
  | setString (string : Text cfg)
  | setCallback (callback : Option κ) (userData : Option υ)

/-- A single store to the driver's data. -/
inductive Store (κ υ : Type) where
  | str (i : Nat) (c : UInt8)
  | stringCallback (callback : Option κ)
  | userData (userData : Option υ)

def runStore (b : Board κ υ) : Store κ υ → Board κ υ
  | .str i c => storeStr b (i, c)
  | .stringCallback callback => { b with stringCallback := callback }
  | .userData userData => { b with userData := userData }

variable {cfg : Config}

/-- The stores of a call, in their order. -/
def Call.stores : Call cfg κ υ → List (Store κ υ)
  | .setString string => (setStringStores string.val).map fun s => .str s.1 s.2
  | .setCallback callback userData => [.stringCallback callback, .userData userData]

/-- The call as it is without interrupts. -/
def Call.setter : Call cfg κ υ → Setter κ υ
  | .setString string => .setString string.val
  | .setCallback callback userData => .setCallback callback userData

/-- **All stores of a call are the call.** -/
theorem foldl_stores (c : Call cfg κ υ) (b : Board κ υ) :
    c.stores.foldl runStore b = runSetter cfg c.setter b := by
  cases c with
  | setString string =>
    show ((setStringStores string.val).map fun s => Store.str s.1 s.2).foldl runStore b =
      userSetString cfg string.val b
    rw [List.foldl_map, userSetString, if_pos string.property]
    rfl
  | setCallback callback userData => rfl

/-- What callbacks do: the calls they make. -/
abbrev Callbacks (cfg : Config) (κ υ : Type) :=
  List (Event κ υ) → κ → List UInt8 → Bool → Option υ → List (Call cfg κ υ)

def Callbacks.app (callbacks : Callbacks cfg κ υ) : App κ υ :=
  fun t cb data isString userData => (callbacks t cb data isString userData).map Call.setter

/-- A callback that calls no setter, as `peripheral_callback`. -/
def silent : App κ υ := fun _ _ _ _ _ => []

/-- A place where `str` holds two strings: from `first` up to `next` the bytes of `string`, and its
NUL if they reach so far, and around them those of others. -/
structure Seam (cfg : Config) where
  string : Text cfg
  first : Nat
  next : Nat

/-- The driver, and the account of the calls. -/
structure System (cfg : Config) (κ υ : Type) extends Board κ υ where
  /-- The call of the thread that runs, with the number of its stores made. -/
  running : Option (Call cfg κ υ × Nat)
  /-- The calls begun, by the thread and by callbacks. -/
  begun : List (Call cfg κ υ)
  /-- The stores it had made when a callback last called the same setter, or 0. -/
  split : Nat
  /-- Where `str` is torn. -/
  seam : Option (Seam cfg)
  /-- Whether `string_callback` and `user_data` are of two calls. -/
  pairTorn : Bool

inductive Move (cfg : Config) (κ υ : Type) where
  /-- The thread calls a setter. -/
  | call (c : Call cfg κ υ)
  /-- The call that runs makes its next store. -/
  | store
  /-- The button is pressed: `transmit_string`. -/
  | button
  | uartInterrupt (rx : Option (List UInt8))

/-- A call begins when none runs. -/
def System.call (c : Call cfg κ υ) (s : System cfg κ υ) : System cfg κ υ :=
  match s.running with
  | some _ => s
  | none => { s with running := some (c, 0), begun := s.begun ++ [c], split := 0 }

/-- **`c.Tears split next`** — the data is torn behind `next` stores of the call: they are not all
of them, or a callback's call came between them. -/
def Call.Tears (c : Call cfg κ υ) (split next : Nat) : Prop :=
  next < c.stores.length ∨ split ≠ 0

instance (c : Call cfg κ υ) (split next : Nat) : Decidable (c.Tears split next) :=
  inferInstanceAs (Decidable (_ ∨ _))

def System.store (s : System cfg κ υ) : System cfg κ υ :=
  match s.running with
  | none => s
  | some (c, n) =>
    match c.stores[n]? with
    | none => { s with running := none }
    | some store =>
      { s with
        toBoard := runStore s.toBoard store
        running := if n + 1 < c.stores.length then some (c, n + 1) else none
        seam := match c with
          | .setString string =>
            if c.Tears s.split (n + 1) then some ⟨string, s.split, n + 1⟩ else none
          | .setCallback _ _ => s.seam
        pairTorn := match c with
          | .setString _ => s.pairTorn
          | .setCallback _ _ => decide (c.Tears s.split (n + 1)) }

/-- A callback makes a call. -/
def System.callBack (s : System cfg κ υ) (c : Call cfg κ υ) : System cfg κ υ :=
  match c with
  | .setString string =>
    { s with
      toBoard := userSetString cfg string.val s.toBoard
      begun := s.begun ++ [c]
      split := match s.running with
        | some (.setString _, n) => n
        | _ => s.split
      seam := none }
  | .setCallback callback userData =>
    { s with
      toBoard := userSetStringCallback callback userData s.toBoard
      begun := s.begun ++ [c]
      split := match s.running with
        | some (.setCallback _ _, n) => n
        | _ => s.split
      pairTorn := false }

/-- What a call of the callback, unless it is `NULL`, asks of `f`. -/
def asked {α : Type} (f : List (Event κ υ) → κ → List UInt8 → Bool → Option υ → List α)
    (callback : Option κ) (isString : Bool) (b : Board κ υ) : List α :=
  match callback with
  | none => []
  | some cb => f b.trace cb (rxData b) isString b.userData

/-- What the byte `c` asks of it: the callback is called when the byte ends a string or fills the
buffer. -/
def calledBack {α : Type} (cfg : Config)
    (f : List (Event κ υ) → κ → List UInt8 → Bool → Option υ → List α) (callback : Option κ)
    (c : UInt8) (b : Board κ υ) : List α :=
  let b := storeByte c b
  let rxBufCapacity : Int := cfg.rxBufSize - b.rxDataLen
  if c == 0 then asked f callback true b
  else if rxBufCapacity = 0 then asked f callback false b
  else []

/-- The handler receives a byte. -/
def System.receive (callbacks : Callbacks cfg κ υ) (callback : Option κ) (s : System cfg κ υ)
    (c : UInt8) : System cfg κ υ :=
  { (calledBack cfg callbacks callback c s.toBoard).foldl System.callBack s with
    toBoard := receiveByte cfg callbacks.app callback c s.toBoard }

/-- Some bytes, in one run of the handler. -/
def System.receiveAll (callbacks : Callbacks cfg κ υ) (s : System cfg κ υ) (bytes : List UInt8) :
    System cfg κ υ :=
  bytes.foldl (System.receive callbacks s.stringCallback) s

def System.move (callbacks : Callbacks cfg κ υ) (s : System cfg κ υ) :
    Move cfg κ υ → System cfg κ υ
  | .call c => s.call c
  | .store => s.store
  | .button => { s with toBoard := transmitString s.toBoard }
  | .uartInterrupt none => s
  | .uartInterrupt (some bytes) => s.receiveAll callbacks bytes

def System.run (callbacks : Callbacks cfg κ υ) (schedule : List (Move cfg κ υ))
    (s : System cfg κ υ) : System cfg κ υ :=
  schedule.foldl (System.move callbacks) s

/-- The driver behind its initialization, which enables its interrupts. -/
def System.init (initial : Text cfg) : System cfg κ υ where
  toBoard := MyUartPeripheral.init cfg initial.val
  running := none
  begun := []
  split := 0
  seam := none
  pairTorn := false

/-- **The interrupt is the driver's handler.** -/
theorem toBoard_receiveAll (callbacks : Callbacks cfg κ υ) (s : System cfg κ υ)
    (bytes : List UInt8) :
    (s.receiveAll callbacks bytes).toBoard =
      uartIntHandler cfg callbacks.app (some bytes) s.toBoard := by
  have hfold : ∀ (callback : Option κ) (s : System cfg κ υ),
      (bytes.foldl (System.receive callbacks callback) s).toBoard =
        bytes.foldl (fun b c => receiveByte cfg callbacks.app callback c b) s.toBoard := by
    intro callback
    induction bytes with
    | nil => exact fun s => rfl
    | cons c bytes ih => exact fun s => ih (s.receive callbacks callback c)
  exact hfold s.stringCallback s

/-! ## §2 — what the setters are to be. -/

/-- The callback and the user data of every call of the callback. -/
def pairs (t : List (Event κ υ)) : List (κ × Option υ) :=
  t.filterMap fun
    | .callback cb _ _ userData => some (cb, userData)
    | _ => none

/-- What came to the trace between two states. -/
def emitted (before after : System cfg κ υ) : List (Event κ υ) :=
  after.trace.drop before.trace.length

/-- The initial string, or one a call supplied. -/
def Supplied (initial : Text cfg) (begun : List (Call cfg κ υ)) (x : List UInt8) : Prop :=
  x = initial.val ∨ ∃ string, Call.setString string ∈ begun ∧ x = string.val

section Atomic

variable (callbacks : Callbacks cfg κ υ)

/-- **`AtomicMove callbacks initial s a`** — the move shows nothing torn: a button press sends a
supplied string and a NUL, and each time the callback is called, it is with user data that was
registered together with it. -/
def AtomicMove (initial : Text cfg) (s : System cfg κ υ) : Move cfg κ υ → Prop
  | .button => ∃ x, Supplied initial s.begun x ∧
      wire (emitted s (s.move callbacks .button)) = x ++ [0]
  | .uartInterrupt (some bytes) => ∀ pre c post, bytes = pre ++ c :: post →
      ∀ p ∈ pairs (emitted (s.receiveAll callbacks pre) (s.receiveAll callbacks (pre ++ [c]))),
        Call.setCallback (some p.1) p.2 ∈ (s.receiveAll callbacks pre).begun
  | _ => True

/-- **`Atomic callbacks initial schedule`** — no move of the schedule shows anything torn. -/
def Atomic (initial : Text cfg) (schedule : List (Move cfg κ υ)) : Prop :=
  ∀ pre a post, schedule = pre ++ a :: post →
    AtomicMove callbacks initial ((System.init initial).run callbacks pre) a

/-- The byte ends a string or fills the buffer. -/
def Completes (cfg : Config) (rxDataLen : Nat) (c : UInt8) : Prop :=
  c = 0 ∨ rxDataLen + 1 = cfg.rxBufSize

/-- What is read of `str` across a seam, when no NUL stands before it. -/
def Seam.across (seam : Seam cfg) (str : List UInt8) : List UInt8 :=
  str.take seam.first ++ (seam.string.val.take seam.next).drop seam.first ++
    if seam.next ≤ seam.string.val.length then cString (str.drop seam.next) else []

/-- The calls that callbacks made from `before` to `after`, both in one run of the handler. -/
def madeSince (before after : System cfg κ υ) : List (Call cfg κ υ) :=
  after.begun.drop before.begun.length

/-- **`Harmless callbacks initial s a`** — where an interrupt meets torn data, it happens to be
whole: what is read across the seam is a supplied string, or the string ends before the seam; the
callback of the handler was registered with that user data before. A handler meets torn data when
the pair was torn as it began, and behind each registration that its own callback makes. -/
def Harmless (initial : Text cfg) (s : System cfg κ υ) : Move cfg κ υ → Prop
  | .button => ∀ seam, s.seam = some seam →
      0 ∈ s.str.take seam.first ∨ Supplied initial s.begun (seam.across s.str)
  | .uartInterrupt (some bytes) => ∀ pre c post, bytes = pre ++ c :: post →
      Completes cfg (s.receiveAll callbacks pre).rxDataLen c →
      s.pairTorn = true ∨
        (∃ callback userData, .setCallback callback userData ∈
          madeSince s (s.receiveAll callbacks pre)) →
      ∀ cb, s.stringCallback = some cb →
        Call.setCallback (some cb) (s.receiveAll callbacks pre).userData ∈
          (s.receiveAll callbacks pre).begun
  | _ => True

end Atomic

/-! ## §3 — what the interrupts do. -/

theorem pairs_append (t u : List (Event κ υ)) : pairs (t ++ u) = pairs t ++ pairs u :=
  List.filterMap_append

theorem pairs_of_not_isRx {evs : List (Event κ υ)} (hevs : ∀ e ∈ evs, e.isRx = false) :
    pairs evs = [] := filterMap_of_not_isRx (fun _ => rfl) rfl rfl hevs

/-- **`Steady b b'`** — what the setters set is as it was. -/
structure Steady (b b' : Board κ υ) : Prop where
  str : b'.str = b.str
  stringCallback : b'.stringCallback = b.stringCallback
  userData : b'.userData = b.userData

/-- What a setter stores does not depend on the rest of the board. -/
theorem Steady.runSetter {b b' : Board κ υ} (h : Steady b b') (s : Setter κ υ) :
    Steady (runSetter cfg s b) (runSetter cfg s b') := by
  cases s with
  | setString string =>
    show Steady (userSetString cfg string b) (userSetString cfg string b')
    unfold userSetString
    split
    · have hstores : ∀ (stores : List (Nat × UInt8)) (b b' : Board κ υ), Steady b b' →
          Steady (stores.foldl storeStr b) (stores.foldl storeStr b') := by
        intro stores
        induction stores with
        | nil => exact fun b b' h => h
        | cons store stores ih =>
          intro b b' h
          refine ih _ _ ⟨?_, h.stringCallback, h.userData⟩
          show b'.str.set store.1 store.2 = b.str.set store.1 store.2
          rw [h.str]
      exact hstores _ _ _ h
    · exact ⟨h.str, h.stringCallback, h.userData⟩
  | setCallback callback userData => exact ⟨h.str, rfl, rfl⟩

theorem Steady.runSetters {b b' : Board κ υ} (h : Steady b b') (setters : List (Setter κ υ)) :
    Steady (setters.foldl (fun b s => MyUartPeripheral.runSetter cfg s b) b)
      (setters.foldl (fun b s => MyUartPeripheral.runSetter cfg s b) b') := by
  induction setters generalizing b b' with
  | nil => exact h
  | cons s setters ih => exact ih (h.runSetter s)

/-- A call of the callback, with the calls it makes. -/
theorem callCallback_calls (app : App κ υ) (callback : Option κ) (isString : Bool)
    (b : Board κ υ) :
    Steady ((asked app callback isString b).foldl (fun b s => runSetter cfg s b) b)
      (callCallback cfg app callback isString b) ∧
    ∃ evs, (callCallback cfg app callback isString b).trace = b.trace ++ evs ∧
      ∀ p, p ∈ pairs evs ↔ callback = some p.1 ∧ b.userData = p.2 := by
  cases callback with
  | none =>
    refine ⟨⟨rfl, rfl, rfl⟩, [], (List.append_nil _).symm, fun p => iff_of_false ?_ nofun⟩
    exact List.not_mem_nil
  | some cb =>
    have hlog : Steady b (b.log (.callback cb (rxData b) isString b.userData)) := ⟨rfl, rfl, rfl⟩
    obtain ⟨-, -, evs, htrace, hevs⟩ := @callCallback_some κ υ cfg app cb isString b
    refine ⟨hlog.runSetters _, .callback cb (rxData b) isString b.userData :: evs, ?_, ?_⟩
    · refine htrace.trans ?_
      rw [Board.log_trace, List.append_assoc, List.singleton_append]
    · rintro ⟨cb', userData⟩
      rw [← List.singleton_append, pairs_append, pairs_of_not_isRx hevs, List.append_nil]
      simp [pairs, eq_comm]

/-- **One byte received**, whatever the callback does: the calls it makes are made, and it is called
when the byte ends a string or fills the buffer. -/
theorem receiveByte_calls (app : App κ υ) (callback : Option κ) (c : UInt8) (b : Board κ υ) :
    Steady ((calledBack cfg app callback c b).foldl (fun b s => runSetter cfg s b) b)
      (receiveByte cfg app callback c b) ∧
    ∃ evs, (receiveByte cfg app callback c b).trace = b.trace ++ evs ∧
      ∀ p, p ∈ pairs evs ↔
        Completes cfg b.rxDataLen c ∧ callback = some p.1 ∧ b.userData = p.2 := by
  have hstored : Steady b (storeByte c b) := ⟨rfl, rfl, rfl⟩
  -- a segment is complete
  have hcall : ∀ isString,
      Steady ((asked app callback isString (storeByte c b)).foldl
          (fun b s => runSetter cfg s b) b)
        (resetRx cfg (callCallback cfg app callback isString (storeByte c b))) ∧
      ∃ evs, (resetRx cfg (callCallback cfg app callback isString (storeByte c b))).trace =
          b.trace ++ evs ∧
        ∀ p, p ∈ pairs evs ↔ callback = some p.1 ∧ b.userData = p.2 := by
    intro isString
    obtain ⟨hstr, hcallback, huser⟩ := @Steady.runSetters κ υ cfg b (storeByte c b) hstored
      (asked app callback isString (storeByte c b))
    obtain ⟨hcalled, evs, htrace, hevs⟩ :=
      @callCallback_calls κ υ cfg app callback isString (storeByte c b)
    refine ⟨⟨hcalled.str.trans hstr, hcalled.stringCallback.trans hcallback,
      hcalled.userData.trans huser⟩, .pollIn c b.rxDataLen :: evs, ?_, fun p => hevs p⟩
    refine htrace.trans ?_
    rw [storeByte, Board.log_trace, List.append_assoc, List.singleton_append]
  by_cases hnul : c = 0
  · have hbyte : (c == 0) = true := by simpa using hnul
    have hends : Completes cfg b.rxDataLen c := Or.inl hnul
    rw [receiveByte_of_nul callback hbyte, calledBack, if_pos hbyte]
    obtain ⟨hsteady, evs, htrace, hevs⟩ := hcall true
    exact ⟨hsteady, evs, htrace, fun p => by rw [hevs, and_iff_right hends]⟩
  · have hbyte : isNul c = false := by simpa [isNul] using hnul
    have hother : ¬ (c == 0) = true := by simpa using hnul
    have hcapacity : (cfg.rxBufSize : Int) - (storeByte c b).rxDataLen = 0 ↔
        b.rxDataLen + 1 = cfg.rxBufSize := by
      simp only [storeByte, Board.log_toMyUartData]
      omega
    rw [calledBack, if_neg hother]
    by_cases hfull : b.rxDataLen + 1 = cfg.rxBufSize
    · have hfills : Completes cfg b.rxDataLen c := Or.inr hfull
      rw [receiveByte_of_full callback hbyte hfull, if_pos (hcapacity.mpr hfull)]
      obtain ⟨hsteady, evs, htrace, hevs⟩ := hcall false
      exact ⟨hsteady, evs, htrace, fun p => by rw [hevs, and_iff_right hfills]⟩
    · have hopen : ¬ Completes cfg b.rxDataLen c := not_or.mpr ⟨hnul, hfull⟩
      rw [receiveByte_of_room callback hbyte hfull, if_neg (mt hcapacity.mp hfull)]
      exact ⟨hstored, [.pollIn c b.rxDataLen], rfl,
        fun p => iff_of_false List.not_mem_nil fun h => hopen h.1⟩

/-- **A button press**: it sends the string in `str`. -/
theorem transmitString_of_mem {b : Board κ υ} (hnul : 0 ∈ b.str) :
    transmitString b = { b with trace := b.trace ++ (cString b.str ++ [0]).map .pollOut } := by
  obtain ⟨rest, hrest⟩ := Memory.exists_eq_cString_append hnul
  have hstr : b.str = (cString b.str ++ [0]) ++ rest := by
    rw [List.append_assoc]
    exact hrest
  exact transmitString_eq hstr fun h => Memory.ne_zero_of_mem_cString h rfl

/-! ## §4 — what the data is. -/

/-- **`Whole initial begun str`** — `str` holds a supplied string. -/
def Whole (initial : Text cfg) (begun : List (Call cfg κ υ)) (str : List UInt8) : Prop :=
  ∃ x rest, Supplied initial begun x ∧ str = x ++ 0 :: rest

/-- **`Sewn initial begun str seam`** — `str` is torn at `seam`: between its ends are the bytes of
its string, and before it the head of a supplied one. -/
structure Sewn (initial : Text cfg) (begun : List (Call cfg κ υ)) (str : List UInt8)
    (seam : Seam cfg) : Prop where
  supplied : Call.setString seam.string ∈ begun
  first_lt : seam.first < seam.next
  next_le : seam.next ≤ seam.string.val.length + 1
  piece : (str.take seam.next).drop seam.first =
    ((seam.string.val ++ [0]).take seam.next).drop seam.first
  head : ∃ x rest, Supplied initial begun x ∧
    str.take seam.first = (x ++ 0 :: rest).take seam.first

/-- **`Inv initial s`** — the account of the calls is true. -/
structure Inv (initial : Text cfg) (s : System cfg κ υ) : Prop where
  /-- The array ends with a NUL, whatever was stored. -/
  sealed : Sealed cfg.maxStrLen s.str
  running : ∀ c n, s.running = some (c, n) → c ∈ s.begun ∧ n < c.stores.length ∧ s.split ≤ n
  whole : s.seam = none → Whole initial s.begun s.str
  sewn : ∀ seam, s.seam = some seam → Sewn initial s.begun s.str seam
  /-- Within a call of `user_set_string` the seam is where its stores and a callback's call meet. -/
  copying : ∀ string n, s.running = some (.setString string, n) →
    (s.split < n → s.seam = some ⟨string, s.split, n⟩) ∧ (0 < n → s.split = n → s.seam = none)
  registered : s.pairTorn = false → ∀ cb, s.stringCallback = some cb →
    Call.setCallback (some cb) s.userData ∈ s.begun
  registering : ∀ callback userData, s.running = some (.setCallback callback userData, 1) →
    s.split = 0 → s.stringCallback = callback

theorem Supplied.mono {initial : Text cfg} {begun begun' : List (Call cfg κ υ)} {x : List UInt8}
    (h : Supplied initial begun x) (hsub : begun ⊆ begun') : Supplied initial begun' x := by
  rcases h with h | ⟨string, hmem, h⟩
  · exact Or.inl h
  · exact Or.inr ⟨string, hsub hmem, h⟩

theorem Whole.mono {initial : Text cfg} {begun begun' : List (Call cfg κ υ)} {str : List UInt8}
    (h : Whole initial begun str) (hsub : begun ⊆ begun') : Whole initial begun' str := by
  obtain ⟨x, rest, hx, heq⟩ := h
  exact ⟨x, rest, hx.mono hsub, heq⟩

theorem Sewn.mono {initial : Text cfg} {begun begun' : List (Call cfg κ υ)} {str : List UInt8}
    {seam : Seam cfg} (h : Sewn initial begun str seam) (hsub : begun ⊆ begun') :
    Sewn initial begun' str seam := by
  obtain ⟨x, rest, hx, heq⟩ := h.head
  exact ⟨hsub h.supplied, h.first_lt, h.next_le, h.piece, x, rest, hx.mono hsub, heq⟩

theorem length_stores_setString (string : Text cfg) :
    (Call.setString string : Call cfg κ υ).stores.length = string.val.length + 1 := by
  simp [Call.stores, setStringStores]

/-- The stores of `user_set_string` are the bytes of the string and its NUL, in order. -/
theorem getElem?_stores_setString (string : Text cfg) (n : Nat) :
    (Call.setString string : Call cfg κ υ).stores[n]? =
      (string.val ++ [0])[n]?.map fun c => Store.str n c := by
  show ((setStringStores string.val).map fun s => Store.str s.1 s.2)[n]? = _
  rw [setStringStores_eq_mapIdx, List.getElem?_map, List.getElem?_mapIdx, Option.map_map]
  rfl

/-- One more byte of a piece. -/
theorem piece_set {α : Type} {l t : List α} {m n : Nat} {v : α} (hmn : m ≤ n)
    (h : (l.take n).drop m = (t.take n).drop m) (hlen : n < l.length) (hv : t[n]? = some v) :
    ((l.set n v).take (n + 1)).drop m = (t.take (n + 1)).drop m := by
  have htlen : n < t.length := (List.getElem?_eq_some_iff.mp hv).1
  have hl : m ≤ (l.take n).length := by
    rw [List.length_take]
    omega
  have ht : m ≤ (t.take n).length := by
    rw [List.length_take]
    omega
  rw [List.take_add_one, List.take_add_one, List.take_set_of_le (Nat.le_refl n),
    List.getElem?_set_self hlen, hv, List.drop_append_of_le_length hl,
    List.drop_append_of_le_length ht, h]

section Steps

variable {initial : Text cfg} {s : System cfg κ υ}

/-- What leaves the data alone. -/
theorem Inv.steady (h : Inv initial s) {b : Board κ υ} (hb : Steady s.toBoard b) :
    Inv initial { s with toBoard := b } := by
  obtain ⟨hstr, hcallback, huser⟩ := hb
  refine ⟨?_, h.running, ?_, ?_, h.copying, ?_, ?_⟩
  · show Sealed _ b.str
    rw [hstr]
    exact h.sealed
  · intro hnone
    show Whole initial s.begun b.str
    rw [hstr]
    exact h.whole hnone
  · intro seam hseam
    show Sewn initial s.begun b.str seam
    rw [hstr]
    exact h.sewn seam hseam
  · intro htorn cb hcb
    show Call.setCallback (some cb) b.userData ∈ s.begun
    rw [huser]
    exact h.registered htorn cb (hcallback.symm.trans hcb)
  · intro callback userData hrun hsplit
    exact hcallback.trans (h.registering callback userData hrun hsplit)

/-- **A call begins.** -/
theorem Inv.call (h : Inv initial s) (c : Call cfg κ υ) : Inv initial (s.call c) := by
  unfold System.call
  cases hrun : s.running with
  | some running => exact h
  | none =>
    have hsub : s.begun ⊆ s.begun ++ [c] := List.subset_append_left _ _
    refine ⟨h.sealed, ?_, fun hnone => (h.whole hnone).mono hsub,
      fun seam hseam => (h.sewn seam hseam).mono hsub, ?_,
      fun htorn cb hcb => hsub (h.registered htorn cb hcb), ?_⟩
    · intro c' n heq
      cases heq
      refine ⟨List.mem_append_right _ List.mem_cons_self, ?_, Nat.le_refl 0⟩
      cases c with
      | setString string =>
        rw [length_stores_setString]
        exact Nat.succ_pos _
      | setCallback callback userData => exact Nat.two_pos
    · intro string n heq
      cases heq
      exact ⟨fun hlt => absurd hlt (Nat.not_lt_zero 0), fun hpos => absurd hpos (Nat.not_lt_zero 0)⟩
    · intro callback userData heq
      cases heq

/-- A store of `user_set_string`. -/
theorem System.store_setString {string : Text cfg} {n : Nat} {v : UInt8}
    (hrun : s.running = some (.setString string, n)) (hv : (string.val ++ [0])[n]? = some v) :
    s.store =
      { s with
        toBoard := storeStr s.toBoard (n, v)
        running := if n + 1 < string.val.length + 1 then some (.setString string, n + 1) else none
        seam := if n + 1 < string.val.length + 1 ∨ s.split ≠ 0 then some ⟨string, s.split, n + 1⟩
          else none } := by
  have hstore : (Call.setString string : Call cfg κ υ).stores[n]? = some (.str n v) := by
    rw [getElem?_stores_setString, hv]
    rfl
  rw [System.store, hrun]
  dsimp only
  rw [hstore]
  simp only [Call.Tears, length_stores_setString]
  rfl

theorem Inv.storeString (h : Inv initial s) {string : Text cfg} {n : Nat}
    (hrun : s.running = some (.setString string, n)) : Inv initial s.store := by
  obtain ⟨hmem, hn, hsplit⟩ := h.running _ _ hrun
  rw [length_stores_setString] at hn
  obtain ⟨hseam, hfresh⟩ := h.copying string n hrun
  have hmax := string.property
  have hbound : n < (string.val ++ [0]).length := by simpa using hn
  obtain ⟨v, hv⟩ : ∃ v, (string.val ++ [0])[n]? = some v :=
    ⟨_, List.getElem?_eq_getElem hbound⟩
  have hin : n < s.str.length := by
    rw [h.sealed.length_eq]
    omega
  have hseal : Sealed cfg.maxStrLen (s.str.set n v) := by
    apply h.sealed.set
    -- the last byte of the array is only ever stored to by the terminator
    by_cases hend : n < string.val.length
    · exact Or.inl (Nat.lt_of_lt_of_le hend hmax)
    · have hfull : n = string.val.length := by omega
      rw [hfull, List.getElem?_concat_length] at hv
      exact Or.inr (Option.some.inj hv).symm
  -- from the split on, the bytes are the string's; before it, they are as the callback left them
  have hpiece : ((s.str.set n v).take (n + 1)).drop s.split =
      ((string.val ++ [0]).take (n + 1)).drop s.split := by
    apply piece_set hsplit _ hin hv
    rcases Nat.lt_or_eq_of_le hsplit with hlt | heq
    · exact (h.sewn _ (hseam hlt)).piece
    · rw [heq, List.drop_of_length_le (by simp), List.drop_of_length_le (by simp)]
  have hhead : ∃ x rest, Supplied initial s.begun x ∧
      (s.str.set n v).take s.split = (x ++ 0 :: rest).take s.split := by
    rw [List.take_set_of_le hsplit]
    rcases Nat.lt_or_eq_of_le hsplit with hlt | heq
    · exact (h.sewn _ (hseam hlt)).head
    · rcases Nat.eq_zero_or_pos n with hzero | hpos
      · exact ⟨initial.val, [], Or.inl rfl, by rw [heq, hzero, List.take_zero, List.take_zero]⟩
      · obtain ⟨x, rest, hx, hstr⟩ := h.whole (hfresh hpos heq)
        exact ⟨x, rest, hx, by rw [hstr]⟩
  have hother : ∀ callback userData,
      s.running ≠ some ((.setCallback callback userData : Call cfg κ υ), 1) := by
    intro callback userData heq
    rw [hrun] at heq
    cases heq
  rw [System.store_setString hrun hv]
  refine ⟨hseal, ?_, ?_, ?_, ?_, h.registered, ?_⟩
  · intro c m heq
    dsimp only at heq
    split at heq
    · next hmore =>
      cases heq
      exact ⟨hmem, by rwa [length_stores_setString], Nat.le_succ_of_le hsplit⟩
    · cases heq
  · intro hnone
    dsimp only at hnone
    split at hnone
    · cases hnone
    · next hlast =>
      obtain ⟨hend, hzero⟩ := not_or.mp hlast
      have hall : (string.val ++ [0]).take (n + 1) = string.val ++ [0] :=
        List.take_of_length_le (by simp; omega)
      rw [not_not.mp hzero, List.drop_zero, List.drop_zero, hall] at hpiece
      refine ⟨string.val, (s.str.set n v).drop (n + 1), Or.inr ⟨string, hmem, rfl⟩, ?_⟩
      show s.str.set n v = _
      rw [← List.singleton_append, ← List.append_assoc, ← hpiece, List.take_append_drop]
  · intro seam hsome
    dsimp only at hsome
    split at hsome
    · cases hsome
      exact ⟨hmem, Nat.lt_succ_of_le hsplit, hn, hpiece, hhead⟩
    · cases hsome
  · intro string' m heq
    dsimp only at heq
    split at heq
    · next hmore =>
      cases heq
      refine ⟨fun _ => if_pos (Or.inl hmore), fun _ hsame => ?_⟩
      exact absurd hsame (Nat.ne_of_lt (Nat.lt_succ_of_le hsplit))
    · cases heq
  · intro callback userData heq
    dsimp only at heq
    split at heq
    · cases heq
    · cases heq

/-- The stores of `user_set_string_callback`. -/
theorem System.store_stringCallback {callback : Option κ} {userData : Option υ}
    (hrun : s.running = some (.setCallback callback userData, 0)) :
    s.store =
      { s with
        toBoard := { s.toBoard with stringCallback := callback }
        running := some (.setCallback callback userData, 1)
        pairTorn := true } := by
  rw [System.store, hrun]
  rfl

theorem System.store_userData {callback : Option κ} {userData : Option υ}
    (hrun : s.running = some (.setCallback callback userData, 1)) :
    s.store =
      { s with
        toBoard := { s.toBoard with userData }
        running := none
        pairTorn := decide (s.split ≠ 0) } := by
  have htears : (Call.setCallback callback userData : Call cfg κ υ).Tears s.split 2 ↔
      s.split ≠ 0 := or_iff_right (Nat.lt_irrefl 2)
  rw [System.store, hrun, ← decide_eq_decide.mpr htears]
  rfl

theorem Inv.storeCallback (h : Inv initial s) {callback : Option κ} {userData : Option υ} {n : Nat}
    (hrun : s.running = some (.setCallback callback userData, n)) : Inv initial s.store := by
  obtain ⟨hmem, hn, hsplit⟩ := h.running _ _ hrun
  have hn : n = 0 ∨ n = 1 := by
    change n < 2 at hn
    omega
  rcases hn with rfl | rfl
  · -- the callback is stored, the user data is the old one
    rw [System.store_stringCallback hrun]
    refine ⟨h.sealed, ?_, h.whole, h.sewn, ?_, ?_, ?_⟩
    · intro c m heq
      cases heq
      exact ⟨hmem, Nat.one_lt_two, Nat.le_succ_of_le hsplit⟩
    · intro string m heq
      cases heq
    · intro htorn
      cases htorn
    · intro callback' userData' heq _
      cases heq
      rfl
  · rw [System.store_userData hrun]
    refine ⟨h.sealed, ?_, h.whole, h.sewn, ?_, ?_, ?_⟩
    · intro c m heq
      cases heq
    · intro string m heq
      cases heq
    · intro htorn cb hcb
      -- no callback registered in between
      have hzero : s.split = 0 := not_not.mp (of_decide_eq_false htorn)
      have hstored : callback = some cb := (h.registering _ _ hrun hzero).symm.trans hcb
      rw [← hstored]
      exact hmem
    · intro callback' userData' heq
      cases heq

/-- **A store.** -/
theorem Inv.store (h : Inv initial s) : Inv initial s.store := by
  cases hrun : s.running with
  | none =>
    have hnone : s.store = s := by
      rw [System.store, hrun]
    rw [hnone]
    exact h
  | some running =>
    obtain ⟨c, n⟩ := running
    cases c with
    | setString string => exact h.storeString hrun
    | setCallback callback userData => exact h.storeCallback hrun

/-- What a call stores to the last byte of `str` is a NUL. -/
theorem lt_or_nul_of_mem_setStringStores {string : List UInt8}
    (hlen : string.length ≤ cfg.maxStrLen) {store : Nat × UInt8}
    (hstore : store ∈ setStringStores string) : store.1 < cfg.maxStrLen ∨ store.2 = 0 := by
  rcases List.mem_append.mp hstore with hbyte | hnul
  · obtain ⟨i, hi, rfl⟩ := List.mem_mapIdx.mp hbyte
    exact Or.inl (Nat.lt_of_lt_of_le hi hlen)
  · rw [List.mem_singleton.mp hnul]
    exact Or.inr rfl

theorem sealed_userSetString {b : Board κ υ} (h : Sealed cfg.maxStrLen b.str)
    (string : List UInt8) : Sealed cfg.maxStrLen (userSetString cfg string b).str := by
  unfold userSetString
  split
  · next hlen =>
    exact List.foldlRecOn (motive := fun b : Board κ υ => Sealed cfg.maxStrLen b.str) _ _ h
      fun _ h _ hstore => h.set (lt_or_nul_of_mem_setStringStores hlen hstore)
  · exact h

/-- **A callback's call.** -/
theorem Inv.callBack (h : Inv initial s) (c : Call cfg κ υ) : Inv initial (s.callBack c) := by
  have hsub : s.begun ⊆ s.begun ++ [c] := List.subset_append_left _ _
  have hlast : c ∈ s.begun ++ [c] := List.mem_append_right _ List.mem_cons_self
  cases c with
  | setString string =>
    have hboard := userSetString_eq string.property h.sealed.length_eq
    unfold System.callBack
    refine ⟨sealed_userSetString h.sealed _, ?_, fun _ => ?_, nofun, ?_, ?_, ?_⟩
    · intro c n heq
      obtain ⟨hmem, hn, hsplit⟩ := h.running c n heq
      refine ⟨hsub hmem, hn, ?_⟩
      cases c with
      | setString string' =>
        dsimp only at heq ⊢
        rw [heq]
      | setCallback callback userData =>
        dsimp only at heq ⊢
        rw [heq]
        exact hsplit
    · refine ⟨string.val, s.str.drop (string.val.length + 1), Or.inr ⟨string, hlast, rfl⟩, ?_⟩
      show (userSetString cfg string.val s.toBoard).str = _
      rw [hboard]
      exact List.append_assoc _ _ _
    · intro string' n heq
      dsimp only at heq ⊢
      rw [heq]
      exact ⟨fun hlt => absurd hlt (Nat.lt_irrefl n), fun _ _ => rfl⟩
    · intro htorn cb hcb
      dsimp only at hcb ⊢
      rw [hboard] at hcb ⊢
      exact hsub (h.registered htorn cb hcb)
    · intro callback userData heq hzero
      dsimp only at heq hzero ⊢
      rw [heq] at hzero
      rw [hboard]
      exact h.registering callback userData heq hzero
  | setCallback callback userData =>
    unfold System.callBack
    refine ⟨h.sealed, ?_, fun hnone => (h.whole hnone).mono hsub,
      fun seam hseam => (h.sewn seam hseam).mono hsub, ?_, ?_, ?_⟩
    · intro c n heq
      obtain ⟨hmem, hn, hsplit⟩ := h.running c n heq
      refine ⟨hsub hmem, hn, ?_⟩
      cases c with
      | setString string =>
        dsimp only at heq ⊢
        rw [heq]
        exact hsplit
      | setCallback callback' userData' =>
        dsimp only at heq ⊢
        rw [heq]
    · intro string n heq
      dsimp only at heq ⊢
      rw [heq]
      exact h.copying string n heq
    · intro _ cb hcb
      have hstored : callback = some cb := hcb
      rw [← hstored]
      exact hlast
    · intro callback' userData' heq hzero
      dsimp only at heq hzero
      rw [heq] at hzero
      cases hzero

/-! ### A run of the handler. -/

theorem toBoard_callBack (s : System cfg κ υ) (c : Call cfg κ υ) :
    (s.callBack c).toBoard = runSetter cfg c.setter s.toBoard := by
  cases c <;> rfl

theorem begun_callBack (s : System cfg κ υ) (c : Call cfg κ υ) :
    (s.callBack c).begun = s.begun ++ [c] := by
  cases c <;> rfl

/-- A call of `user_set_string` leaves the user data alone. -/
theorem userData_userSetString (string : List UInt8) (b : Board κ υ) :
    (userSetString cfg string b).userData = b.userData := by
  unfold userSetString
  split
  · exact List.foldlRecOn (motive := fun b' : Board κ υ => b'.userData = b.userData) _ _ rfl
      fun _ h _ _ => h
  · rfl

/-- The calls a callback makes, one after the other. -/
theorem foldl_callBack (calls : List (Call cfg κ υ)) (s : System cfg κ υ) :
    (calls.foldl System.callBack s).toBoard =
        (calls.map Call.setter).foldl (fun b s => runSetter cfg s b) s.toBoard ∧
      (calls.foldl System.callBack s).begun = s.begun ++ calls ∧
      ((∀ callback userData, .setCallback callback userData ∉ calls) →
        (calls.foldl System.callBack s).userData = s.userData) := by
  induction calls generalizing s with
  | nil => exact ⟨rfl, (List.append_nil _).symm, fun _ => rfl⟩
  | cons c calls ih =>
    obtain ⟨hboard, hbegun, huser⟩ := ih (s.callBack c)
    refine ⟨?_, ?_, fun hnone => ?_⟩
    · rw [List.foldl_cons, hboard, toBoard_callBack]
      rfl
    · rw [List.foldl_cons, hbegun, begun_callBack, List.append_assoc, List.singleton_append]
    · refine (huser fun callback userData hmem => hnone callback userData
        (List.mem_cons_of_mem _ hmem)).trans ?_
      cases c with
      | setString string => exact userData_userSetString _ _
      | setCallback callback userData => exact absurd List.mem_cons_self (hnone callback userData)

variable {callbacks : Callbacks cfg κ υ}

theorem calledBack_app (callback : Option κ) (c : UInt8) (b : Board κ υ) :
    calledBack cfg callbacks.app callback c b =
      (calledBack cfg callbacks callback c b).map Call.setter := by
  have hasked : ∀ isString b, asked callbacks.app callback isString b =
      (asked callbacks callback isString b).map Call.setter := by
    intro isString b
    cases callback <;> rfl
  unfold calledBack
  dsimp only
  split
  · exact hasked true _
  · split
    · exact hasked false _
    · rfl

/-- **What a byte does**: the calls it asks of the callback are begun and made. -/
theorem receive_spec (callback : Option κ) (s : System cfg κ υ) (c : UInt8) :
    Steady ((calledBack cfg callbacks callback c s.toBoard).foldl System.callBack s).toBoard
      (s.receive callbacks callback c).toBoard := by
  rw [(foldl_callBack _ s).1, ← calledBack_app]
  exact (receiveByte_calls callbacks.app callback c s.toBoard).1

theorem Inv.receive (h : Inv initial s) (callback : Option κ) (c : UInt8) :
    Inv initial (s.receive callbacks callback c) := by
  have hcalls : Inv initial
      ((calledBack cfg callbacks callback c s.toBoard).foldl System.callBack s) :=
    List.foldlRecOn (motive := Inv initial) _ _ h fun _ h c _ => h.callBack c
  exact hcalls.steady (receive_spec callback s c)

theorem Inv.receiveAll (h : Inv initial s) (bytes : List UInt8) :
    Inv initial (s.receiveAll callbacks bytes) :=
  List.foldlRecOn (motive := Inv initial) bytes _ h fun _ h c _ => h.receive s.stringCallback c

/-- The thread's call stays where it is. -/
theorem running_receiveAll (s : System cfg κ υ) (bytes : List UInt8) :
    (s.receiveAll callbacks bytes).running = s.running := by
  refine List.foldlRecOn (motive := fun s' : System cfg κ υ => s'.running = s.running) bytes _ rfl
    fun s' hs' c _ => ?_
  refine List.foldlRecOn (motive := fun s' : System cfg κ υ => s'.running = s.running) _ _ hs'
    fun s' hs' call _ => ?_
  cases call with
  | setString string => exact hs'
  | setCallback callback userData => exact hs'

theorem receiveAll_concat (s : System cfg κ υ) (pre : List UInt8) (c : UInt8) :
    s.receiveAll callbacks (pre ++ [c]) =
      (s.receiveAll callbacks pre).receive callbacks s.stringCallback c := List.foldl_append

/-- **The user data changes with the registrations alone.** -/
theorem receiveAll_begun (s : System cfg κ υ) (pre : List UInt8) :
    s.begun <+: (s.receiveAll callbacks pre).begun ∧
      ((∀ callback userData, .setCallback callback userData ∉
          madeSince s (s.receiveAll callbacks pre)) →
        (s.receiveAll callbacks pre).userData = s.userData) := by
  induction pre using List.reverseRecOn with
  | nil => exact ⟨List.prefix_rfl, fun _ => rfl⟩
  | append_singleton pre c ih =>
    obtain ⟨⟨made, hmade⟩, huser⟩ := ih
    obtain ⟨-, hbegun, hcalls⟩ := foldl_callBack (calledBack cfg callbacks s.stringCallback c
      (s.receiveAll callbacks pre).toBoard) (s.receiveAll callbacks pre)
    have hnow : (s.receiveAll callbacks (pre ++ [c])).begun = s.begun ++ (made ++
        calledBack cfg callbacks s.stringCallback c (s.receiveAll callbacks pre).toBoard) := by
      rw [receiveAll_concat, ← List.append_assoc, hmade]
      exact hbegun
    refine ⟨⟨_, hnow.symm⟩, fun hnone => ?_⟩
    simp only [madeSince, hnow, ← hmade, List.drop_left] at hnone huser
    rw [receiveAll_concat, (receive_spec s.stringCallback (s.receiveAll callbacks pre) c).userData,
      hcalls fun callback userData h => hnone callback userData (List.mem_append_right _ h)]
    exact huser fun callback userData h => hnone callback userData (List.mem_append_left _ h)

end Steps

/-! ### Every run. -/

theorem str_init (initial : Text cfg) :
    (MyUartPeripheral.init cfg initial.val : Board κ υ).str =
      initial.val ++ 0 :: List.replicate (cfg.maxStrLen - initial.val.length) 0 := by
  have hlen := initial.property
  show (initial.val ++ List.replicate (cfg.maxStrLen + 1) 0).take (cfg.maxStrLen + 1) = _
  rw [List.take_append, List.take_of_length_le (by omega), List.take_replicate,
    ← List.replicate_succ]
  congr 2
  omega

theorem sealed_init (initial : Text cfg) :
    Sealed cfg.maxStrLen (MyUartPeripheral.init cfg initial.val : Board κ υ).str := by
  have hlen := initial.property
  rw [str_init]
  refine ⟨?_, ?_⟩
  · rw [List.length_append, List.length_cons, List.length_replicate]
    omega
  · rw [List.getElem?_append_right hlen, ← List.replicate_succ, List.getElem?_replicate]
    exact if_pos (Nat.lt_succ_self _)

theorem inv_init (initial : Text cfg) : Inv initial (System.init initial : System cfg κ υ) := by
  refine ⟨sealed_init initial, ?_, fun _ => ⟨initial.val, _, Or.inl rfl, str_init initial⟩, nofun,
    ?_, ?_, ?_⟩
  · intro c n heq
    cases heq
  · intro string n heq
    cases heq
  · intro _ cb heq
    cases heq
  · intro callback userData heq
    cases heq

theorem inv_run (callbacks : Callbacks cfg κ υ) (initial : Text cfg)
    (schedule : List (Move cfg κ υ)) :
    Inv initial ((System.init initial).run callbacks schedule) := by
  refine List.foldlRecOn schedule _ (inv_init initial) fun s hs a _ => ?_
  cases a with
  | call c => exact hs.call c
  | store => exact hs.store
  | button =>
    apply hs.steady
    rw [transmitString_of_mem hs.sealed.zero_mem]
    exact ⟨rfl, rfl, rfl⟩
  | uartInterrupt rx =>
    cases rx with
    | none => exact hs
    | some bytes => exact hs.receiveAll bytes

/-- A call whose string holds no NUL. -/
def Call.NulFree : Call cfg κ υ → Prop
  | .setString string => 0 ∉ string.val
  | .setCallback _ _ => True

/-- Every call begun is one of the schedule or of a callback. -/
theorem nulFree_begun_run {callbacks : Callbacks cfg κ υ} {initial : Text cfg}
    {schedule : List (Move cfg κ υ)} (hcalls : ∀ c, Move.call c ∈ schedule → c.NulFree)
    (hcallbacks : ∀ t cb data isString userData,
      ∀ c ∈ callbacks t cb data isString userData, c.NulFree) :
    ∀ c ∈ ((System.init initial).run callbacks schedule).begun, c.NulFree := by
  have hcalled : ∀ (callback : Option κ) (byte : UInt8) (b : Board κ υ),
      ∀ c ∈ calledBack cfg callbacks callback byte b, c.NulFree := by
    intro callback byte b
    have hasked : ∀ isString b, ∀ c ∈ asked callbacks callback isString b, c.NulFree := by
      intro isString b
      cases callback with
      | none => exact fun c hc => absurd hc List.not_mem_nil
      | some cb => exact hcallbacks _ _ _ _ _
    unfold calledBack
    dsimp only
    split
    · exact hasked true _
    · split
      · exact hasked false _
      · exact fun c hc => absurd hc List.not_mem_nil
  refine List.foldlRecOn (motive := fun s : System cfg κ υ => ∀ c ∈ s.begun, c.NulFree) schedule _
    (fun c hc => absurd hc List.not_mem_nil) fun s hs a ha => ?_
  cases a with
  | call c =>
    show ∀ c' ∈ (s.call c).begun, _
    unfold System.call
    split
    · exact hs
    · exact List.forall_mem_append.mpr ⟨hs, List.forall_mem_singleton.mpr (hcalls c ha)⟩
  | store =>
    show ∀ c' ∈ s.store.begun, _
    unfold System.store
    split
    · exact hs
    · split
      · exact hs
      · exact hs
  | button => exact hs
  | uartInterrupt rx =>
    cases rx with
    | none => exact hs
    | some bytes =>
      refine List.foldlRecOn (motive := fun s : System cfg κ υ => ∀ c ∈ s.begun, c.NulFree) bytes _
        hs fun s' hs' byte _ => ?_
      show ∀ c ∈ ((calledBack cfg callbacks s.stringCallback byte s'.toBoard).foldl
        System.callBack s').begun, _
      rw [(foldl_callBack _ s').2.1]
      exact List.forall_mem_append.mpr ⟨hs', hcalled _ _ _⟩

/-! ## §5 — when an interrupt shows something torn. -/

section Interrupts

variable {initial : Text cfg} {s : System cfg κ υ} {callbacks : Callbacks cfg κ υ}

/-- What a button press sends. -/
theorem Inv.wire_button (h : Inv initial s) :
    wire (emitted s (s.move callbacks .button)) = cString s.str ++ [0] := by
  have hemitted : emitted s (s.move callbacks .button) =
      (cString s.str ++ [0]).map .pollOut := by
    show (transmitString s.toBoard).trace.drop _ = _
    rw [transmitString_of_mem h.sealed.zero_mem]
    exact List.drop_left
  rw [hemitted, wire, List.filterMap_map]
  exact List.filterMap_some

/-- **What is read of a torn `str`**: the head, if it holds a NUL, and else everything across the
seam. -/
theorem Sewn.cString_eq {begun : List (Call cfg κ υ)} {str : List UInt8} {seam : Seam cfg}
    (h : Sewn initial begun str seam) (hnul : ∀ x, Supplied initial begun x → ∀ c ∈ x, c ≠ 0) :
    (0 ∈ str.take seam.first → Supplied initial begun (cString str)) ∧
      (0 ∉ str.take seam.first → cString str = seam.across str) := by
  constructor
  · intro hzero
    obtain ⟨x, rest, hx, hhead⟩ := h.head
    have hclean := hnul x hx
    -- the string that a callback set ends before the seam
    have hshort : x.length < seam.first := by
      by_contra hle
      rw [hhead, List.take_append_of_le_length (Nat.not_lt.mp hle)] at hzero
      exact hclean 0 (List.mem_of_mem_take hzero) rfl
    have htake : str.take seam.first = x ++ 0 :: rest.take (seam.first - x.length - 1) := by
      rw [hhead, List.take_append, List.take_of_length_le hshort.le,
        List.take_cons (Nat.sub_pos_of_lt hshort)]
    rw [← List.take_append_drop seam.first str, htake, List.append_assoc, List.cons_append,
      Memory.cString_append_zero, Memory.cString_eq_self_iff.mpr hclean]
    exact hx
  · intro hzero
    have hfirst : ∀ c ∈ str.take seam.first, c ≠ 0 := fun c hc heq => hzero (heq ▸ hc)
    have hstring : ∀ c ∈ seam.string.val, c ≠ 0 := hnul _ (Or.inr ⟨_, h.supplied, rfl⟩)
    have hpiece : ∀ c ∈ (seam.string.val.take seam.next).drop seam.first, c ≠ 0 := fun c hc =>
      hstring c (List.mem_of_mem_take (List.mem_of_mem_drop hc))
    have hlt := h.first_lt
    have hle := h.next_le
    -- `str` is the head, the piece, and what stands behind it
    have hstr : str = str.take seam.first ++
        (((seam.string.val ++ [0]).take seam.next).drop seam.first ++ str.drop seam.next) := by
      have hhead : str.take seam.first = (str.take seam.next).take seam.first := by
        rw [List.take_take, Nat.min_eq_left hlt.le]
      rw [← h.piece, ← List.append_assoc, hhead, List.take_append_drop, List.take_append_drop]
    unfold Seam.across
    conv_lhs => rw [hstr]
    rw [Memory.cString_append_of_ne_zero hfirst, List.append_assoc]
    congr 1
    split
    · next hmore =>
      rw [List.take_append_of_le_length hmore, Memory.cString_append_of_ne_zero hpiece]
    · next hend =>
      have hall : seam.next = seam.string.val.length + 1 := by omega
      have hwhole : (seam.string.val ++ [0]).take seam.next = seam.string.val ++ [0] :=
        List.take_of_length_le (by simp [hall])
      have hbody : seam.string.val.take seam.next = seam.string.val :=
        List.take_of_length_le (by omega)
      rw [hbody] at hpiece ⊢
      rw [hwhole, List.drop_append_of_le_length (by omega), List.append_assoc,
        List.singleton_append, Memory.cString_append_zero, List.append_nil]
      exact Memory.cString_eq_self_iff.mpr hpiece

/-- **A button press shows nothing torn** exactly when it is harmless. -/
theorem Inv.button_iff (h : Inv initial s)
    (hnul : ∀ x, Supplied initial s.begun x → ∀ c ∈ x, c ≠ 0) :
    AtomicMove callbacks initial s .button ↔ Harmless callbacks initial s .button := by
  have hsent : AtomicMove callbacks initial s .button ↔
      Supplied initial s.begun (cString s.str) := by
    show (∃ x, Supplied initial s.begun x ∧
      wire (emitted s (s.move callbacks .button)) = x ++ [0]) ↔ _
    rw [h.wire_button]
    constructor
    · rintro ⟨x, hx, heq⟩
      rwa [List.append_cancel_right heq]
    · exact fun hx => ⟨_, hx, rfl⟩
  rw [hsent]
  cases hseam : s.seam with
  | none =>
    obtain ⟨x, rest, hx, heq⟩ := h.whole hseam
    rw [heq, Memory.cString_append_zero, Memory.cString_eq_self_iff.mpr (hnul x hx)]
    refine iff_of_true hx fun seam hsome => ?_
    rw [hseam] at hsome
    cases hsome
  | some seam =>
    obtain ⟨hhead, hacross⟩ := (h.sewn seam hseam).cString_eq hnul
    constructor
    · intro hx seam' hsome
      obtain rfl : seam = seam' := Option.some.inj (hseam.symm.trans hsome)
      by_cases hzero : 0 ∈ s.str.take seam.first
      · exact Or.inl hzero
      · exact Or.inr (hacross hzero ▸ hx)
    · intro hharmless
      by_cases hzero : 0 ∈ s.str.take seam.first
      · exact hhead hzero
      · rw [hacross hzero]
        exact (hharmless seam hseam).resolve_left hzero

/-- The calls of the callback that a byte brings. -/
theorem pairs_byte_iff (pre : List UInt8) (c : UInt8) :
    (∀ p ∈ pairs (emitted (s.receiveAll callbacks pre) (s.receiveAll callbacks (pre ++ [c]))),
        Call.setCallback (some p.1) p.2 ∈ (s.receiveAll callbacks pre).begun) ↔
      (Completes cfg (s.receiveAll callbacks pre).rxDataLen c → ∀ cb, s.stringCallback = some cb →
        Call.setCallback (some cb) (s.receiveAll callbacks pre).userData ∈
          (s.receiveAll callbacks pre).begun) := by
  obtain ⟨-, evs, htrace, hevs⟩ := @receiveByte_calls κ υ cfg callbacks.app s.stringCallback c
    (s.receiveAll callbacks pre).toBoard
  have hemitted : emitted (s.receiveAll callbacks pre) (s.receiveAll callbacks (pre ++ [c])) =
      evs := by
    rw [receiveAll_concat]
    show (receiveByte cfg callbacks.app s.stringCallback c
      (s.receiveAll callbacks pre).toBoard).trace.drop _ = _
    rw [htrace]
    exact List.drop_left
  rw [hemitted]
  constructor
  · intro hall hcompletes cb hcb
    exact hall (cb, (s.receiveAll callbacks pre).userData) ((hevs _).mpr ⟨hcompletes, hcb, rfl⟩)
  · rintro hall ⟨cb, userData⟩ hp
    obtain ⟨hcompletes, hcb, rfl⟩ := (hevs _).mp hp
    exact hall hcompletes cb hcb

/-- **A UART interrupt shows nothing torn** exactly when it is harmless. -/
theorem Inv.uartInterrupt_iff (h : Inv initial s) (rx : Option (List UInt8)) :
    AtomicMove callbacks initial s (.uartInterrupt rx) ↔
      Harmless callbacks initial s (.uartInterrupt rx) := by
  cases rx with
  | none => exact Iff.rfl
  | some bytes =>
    constructor
    · intro hall pre c post heq hcompletes _ cb hcb
      exact (pairs_byte_iff pre c).mp (hall pre c post heq) hcompletes cb hcb
    · intro hharmless pre c post heq
      refine (pairs_byte_iff pre c).mpr fun hcompletes cb hcb => ?_
      by_cases htorn : s.pairTorn = true ∨ ∃ callback userData,
          .setCallback callback userData ∈ madeSince s (s.receiveAll callbacks pre)
      · exact hharmless pre c post heq hcompletes htorn cb hcb
      · -- the pair is the one that the handler found, and that one is whole
        obtain ⟨hwhole, hnone⟩ := not_or.mp htorn
        obtain ⟨hbegun, huser⟩ := @receiveAll_begun κ υ cfg callbacks s pre
        rw [huser fun callback userData hmem => hnone ⟨callback, userData, hmem⟩]
        exact hbegun.subset (h.registered (Bool.eq_false_iff.mpr hwhole) cb hcb)

end Interrupts

/-- **When the setters are atomic.** For every sequence of calls with strings free of NUL, whatever
callbacks do, and every placing of the interrupts between the stores: no interrupt shows anything
torn if and only if every interrupt that meets torn data is harmless. -/
theorem setters_atomic_iff (callbacks : Callbacks cfg κ υ) (initial : Text cfg)
    (schedule : List (Move cfg κ υ)) (hinitial : 0 ∉ initial.val)
    (hcalls : ∀ c, Move.call c ∈ schedule → c.NulFree)
    (hcallbacks : ∀ t cb data isString userData,
      ∀ c ∈ callbacks t cb data isString userData, c.NulFree) :
    Atomic callbacks initial schedule ↔ ∀ pre a post, schedule = pre ++ a :: post →
      Harmless callbacks initial ((System.init initial).run callbacks pre) a := by
  have hmove : ∀ pre a post, schedule = pre ++ a :: post →
      (AtomicMove callbacks initial ((System.init initial).run callbacks pre) a ↔
        Harmless callbacks initial ((System.init initial).run callbacks pre) a) := by
    intro pre a post heq
    have hinv : Inv initial ((System.init initial).run callbacks pre) :=
      inv_run callbacks initial pre
    have hnul : ∀ x, Supplied initial ((System.init initial).run callbacks pre).begun x →
        ∀ c ∈ x, c ≠ 0 := by
      rintro x (rfl | ⟨string, hmem, rfl⟩) c hc rfl
      · exact hinitial hc
      · refine nulFree_begun_run (fun c hmem => hcalls c ?_) hcallbacks _ hmem hc
        rw [heq]
        exact List.mem_append_left _ hmem
    cases a with
    | call c => exact Iff.rfl
    | store => exact Iff.rfl
    | button => exact hinv.button_iff hnul
    | uartInterrupt rx => exact hinv.uartInterrupt_iff rx
  constructor
  · intro hatomic pre a post heq
    exact (hmove pre a post heq).mp (hatomic pre a post heq)
  · intro hharmless pre a post heq
    exact (hmove pre a post heq).mpr (hharmless pre a post heq)

/-- The strings `ab`, `c`, `cde` and `X`. -/
def textAb : Text .default := ⟨[0x61, 0x62], by decide⟩

def textC : Text .default := ⟨[0x63], by decide⟩

def textCde : Text .default := ⟨[0x63, 0x64, 0x65], by decide⟩

def textX : Text .default := ⟨[0x58], by decide⟩

/-- A callback that calls no setter. -/
def callsNone : Callbacks .default Unit Unit := fun _ _ _ _ _ => []

/-- A callback that sets `X`. -/
def setsX : Callbacks .default Unit Unit := fun _ _ _ _ _ => [.setString textX]

/-- A callback that registers another one, without user data. -/
def registersOther : Callbacks .default Bool Unit :=
  fun _ _ _ _ _ => [.setCallback (some true) none]

/-- A string set, with a callback in between that sets another one. -/
theorem setters_atomic_iff_whole :
    Atomic setsX textAb ([.call (.setString textC), .store, .uartInterrupt (some [0]), .store,
        .button] : List (Move .default Unit Unit)) ↔
      ∀ pre a post, ([.call (.setString textC), .store, .uartInterrupt (some [0]), .store,
          .button] : List (Move .default Unit Unit)) = pre ++ a :: post →
        Harmless setsX textAb ((System.init textAb).run setsX pre) a :=
  setters_atomic_iff setsX textAb
    [.call (.setString textC), .store, .uartInterrupt (some [0]), .store, .button] (by decide)
    (by simp [Call.NulFree, textC]) (by simp [setsX, Call.NulFree, textX])

/-- What a move shows behind a schedule that starts with the string `ab`. -/
def shown (callbacks : Callbacks .default κ υ) (schedule : List (Move .default κ υ))
    (a : Move .default κ υ) : List (Event κ υ) :=
  emitted ((System.init textAb).run callbacks schedule)
    (((System.init textAb).run callbacks schedule).move callbacks a)

/-- A string received behind the first store of the first registration runs the callback with NULL;
a button press behind the first store of `c` over `ab` sends `cb`; one behind all stores of `cde`
sends `Xde`, when a callback set `X` behind the first of them; and a handler whose callback
registers another one calls the first again, with the user data of the other. -/
theorem setters_torn :
    ((), none) ∈ pairs (shown callsNone [.call (.setCallback (some ()) (some ())), .store]
      (.uartInterrupt (some [0]))) ∧
    wire (shown callsNone [.call (.setString textC), .store] .button) = [0x63, 0x62, 0] ∧
    wire (shown setsX [.call (.setCallback (some ()) none), .store, .store,
      .call (.setString textCde), .store, .uartInterrupt (some [0]), .store, .store, .store]
      .button) = [0x58, 0x64, 0x65, 0] ∧
    (false, none) ∈ pairs (shown registersOther
      [.call (.setCallback (some false) (some ())), .store, .store]
      (.uartInterrupt (some [0, 0]))) ∧
    ¬ ∀ (callbacks : Callbacks .default Unit Unit) (initial : Text .default)
      (schedule : List (Move .default Unit Unit)), 0 ∉ initial.val →
      (∀ c, Move.call c ∈ schedule → c.NulFree) →
      (∀ t cb data isString userData, ∀ c ∈ callbacks t cb data isString userData, c.NulFree) →
      Atomic callbacks initial schedule := by
  have hsent : wire (shown callsNone [.call (.setString textC), .store] .button) =
      [0x63, 0x62, 0] := by decide +kernel
  refine ⟨by decide +kernel, hsent, by decide +kernel, by decide +kernel, fun hclaim => ?_⟩
  have hatomic := hclaim callsNone textAb [.call (.setString textC), .store, .button] (by decide)
    (by simp [Call.NulFree, textC]) (by simp [callsNone])
  obtain ⟨x, hx, hwire⟩ := hatomic [.call (.setString textC), .store] .button [] rfl
  have hcb : [0x63, 0x62] = x := List.append_cancel_right (hsent.symm.trans hwire)
  -- the only strings supplied are `ab` and `c`
  rcases hx with rfl | ⟨string, hmem, rfl⟩
  · exact absurd hcb (by decide)
  · rcases List.mem_singleton.mp hmem with heq
    cases heq
    exact absurd hcb (by decide)

end EchoBot.MyUartPeripheral
