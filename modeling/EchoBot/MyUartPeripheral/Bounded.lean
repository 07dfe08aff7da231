/-
# EchoBot.MyUartPeripheral.Bounded — `transmit_string` stays in `str`, whatever is being stored

While `user_set_string` copies a longer string over a shorter one, the NUL of the old string is gone
and the NUL of the new one is not there yet; behind the bytes copied stand those of strings long
gone. What stops `strlen` there is the last byte of the array: nothing but a terminator is ever
stored to it, since a string of the greatest length ends just before.

That takes no more than each store taken alone. So the stores of a `memcpy` may here come in any
order, and calls may overlap, as when a callback sets a string while the thread it interrupted does.
The calls of `Setters`, one after the other and each in order, are among these
(`system_simulated`).
-/
import EchoBot.MyUartPeripheral.Setters

namespace EchoBot.MyUartPeripheral

open EchoBot.Memory (cString Sealed strlen)

variable {κ υ : Type} {cfg : Config}

/-! ## §1 — the program. -/

/-- The stores of the `memcpy` of `user_set_string`. -/
def memcpyStores (string : List UInt8) : List (Nat × UInt8) := string.mapIdx fun i c => (i, c)

theorem lt_of_mem_memcpyStores {string : List UInt8} {s : Nat × UInt8}
    (hs : s ∈ memcpyStores string) : s.1 < string.length := by
  obtain ⟨i, hi, rfl⟩ := List.mem_mapIdx.mp hs
  exact hi

/-- A call of `user_set_string` on its way, with the stores of its `memcpy` that are to come. -/
structure Copy (cfg : Config) where
  string : Text cfg
  todo : List (Nat × UInt8)
  todo_lt : ∀ s ∈ todo, s.1 < string.val.length

/-- The call begins. -/
def Copy.start (string : Text cfg) : Copy cfg where
  string := string
  todo := memcpyStores string.val
  todo_lt _ := lt_of_mem_memcpyStores

/-- The store at `j` has been made. -/
def Copy.made (c : Copy cfg) (j : Nat) : Copy cfg where
  string := c.string
  todo := c.todo.eraseIdx j
  todo_lt s hs := c.todo_lt s (List.mem_of_mem_eraseIdx hs)

/-- The driver, and the calls of `user_set_string` on their way. -/
structure Busy (cfg : Config) (κ υ : Type) extends Board κ υ where
  copies : List (Copy cfg)

inductive Turn (cfg : Config) (κ υ : Type) where
  /-- `user_set_string` is called, by a thread or by a callback. -/
  | setString (string : Text cfg)
  /-- The call at `k` makes the store at `j` of those to come. -/
  | storeByte (k j : Nat)
  /-- The call at `k` stores its terminator, and returns. -/
  | terminate (k : Nat)
  /-- The stores of `user_set_string_callback`. -/
  | storeCallback (callback : Option κ)
  | storeUserData (userData : Option υ)
  /-- The button is pressed: `transmit_string`. -/
  | button
  /-- With the calls that callbacks make at once. -/
  | uartInterrupt (rx : Option (List UInt8))

def Busy.storeByte (k j : Nat) (s : Busy cfg κ υ) : Busy cfg κ υ :=
  match s.copies[k]? with
  | none => s
  | some c =>
    match c.todo[j]? with
    | none => s
    | some store => ⟨storeStr s.toBoard store, s.copies.set k (c.made j)⟩

/-- `data->str[length] = '\0'` follows the `memcpy`. -/
def Busy.terminate (k : Nat) (s : Busy cfg κ υ) : Busy cfg κ υ :=
  match s.copies[k]? with
  | none => s
  | some c =>
    if c.todo = [] then ⟨storeStr s.toBoard (c.string.val.length, 0), s.copies.eraseIdx k⟩ else s

def Busy.turn (app : App κ υ) (s : Busy cfg κ υ) : Turn cfg κ υ → Busy cfg κ υ
  | .setString string => { s with copies := s.copies ++ [.start string] }
  | .storeByte k j => s.storeByte k j
  | .terminate k => s.terminate k
  | .storeCallback callback => { s with toBoard := runStore s.toBoard (.stringCallback callback) }
  | .storeUserData userData => { s with toBoard := runStore s.toBoard (.userData userData) }
  | .button => { s with toBoard := transmitString s.toBoard }
  | .uartInterrupt rx => { s with toBoard := uartIntHandler cfg app rx s.toBoard }

def Busy.run (app : App κ υ) (turns : List (Turn cfg κ υ)) (s : Busy cfg κ υ) : Busy cfg κ υ :=
  turns.foldl (Busy.turn app) s

/-- The driver behind its initialization. -/
def Busy.init (initial : Text cfg) : Busy cfg κ υ where
  toBoard := MyUartPeripheral.init cfg initial.val
  copies := []

/-- **`Bounded cfg b`** — `transmit_string` stays in `str`: it finds a NUL there, and sends no more
than the bytes before it, and a NUL. -/
structure Bounded (cfg : Config) (b : Board κ υ) : Prop where
  length_str : b.str.length = cfg.maxStrLen + 1
  nul : ∃ i ≤ cfg.maxStrLen, b.str[i]? = some 0
  transmit : ∃ len ≤ cfg.maxStrLen, strlen b.str = some len ∧
    (transmitString b).trace = b.trace ++ (b.str.take len ++ [0]).map .pollOut
  /-- Nor did it ever leave `str` before. -/
  noOverread : Event.strOverread ∉ b.trace

/-! ## §2 — the stores of a call, in any order. -/

theorem setStringStores_eq (string : List UInt8) :
    setStringStores string = memcpyStores string ++ [(string.length, 0)] := rfl

/-- **A `memcpy` may make its stores in any order**: with the terminator, they are the call. -/
theorem foldl_storeStr_perm {string : Text cfg} {stores : List (Nat × UInt8)}
    (hperm : stores.Perm (memcpyStores string.val)) (b : Board κ υ) :
    storeStr (stores.foldl storeStr b) (string.val.length, 0) =
      userSetString cfg string.val b := by
  have hcomm : ∀ s ∈ stores, ∀ t ∈ stores, ∀ b : Board κ υ,
      storeStr (storeStr b s) t = storeStr (storeStr b t) s := by
    intro s hs t ht b
    obtain ⟨i, hi, rfl⟩ := List.mem_mapIdx.mp (hperm.subset hs)
    obtain ⟨j, hj, rfl⟩ := List.mem_mapIdx.mp (hperm.subset ht)
    by_cases hij : i = j
    · subst hij
      rfl
    · simp only [storeStr]
      rw [List.set_comm _ _ hij]
  rw [userSetString, if_pos string.property, setStringStores_eq, List.foldl_append,
    hperm.foldl_eq' hcomm b]
  rfl

/-! ## §3 — the last byte of `str`. -/

/-- **`Guarded cfg b`** — `str` ends with a NUL, and has not been read beyond. -/
structure Guarded (cfg : Config) (b : Board κ υ) : Prop where
  sealed : Sealed cfg.maxStrLen b.str
  noOverread : Event.strOverread ∉ b.trace

namespace Guarded

variable {b : Board κ υ}

theorem log (h : Guarded cfg b) {e : Event κ υ} (he : e ≠ .strOverread) :
    Guarded cfg (b.log e) := by
  refine ⟨h.sealed, fun hmem => ?_⟩
  rcases List.mem_append.mp hmem with hmem | hmem
  · exact h.noOverread hmem
  · exact he (List.mem_singleton.mp hmem).symm

/-- A store. -/
theorem storeStr (h : Guarded cfg b) {s : Nat × UInt8} (hs : s.1 < cfg.maxStrLen ∨ s.2 = 0) :
    Guarded cfg (storeStr b s) := ⟨h.sealed.set hs, h.noOverread⟩

/-- A whole call. -/
theorem runSetter (h : Guarded cfg b) (s : Setter κ υ) : Guarded cfg (runSetter cfg s b) := by
  cases s with
  | setString string =>
    show Guarded cfg (userSetString cfg string b)
    unfold userSetString
    split
    · next hlen =>
      exact List.foldlRecOn (motive := Guarded cfg) _ _ h fun _ h _ hs =>
        h.storeStr (lt_or_nul_of_mem_setStringStores hlen hs)
    · exact h.log nofun
  | setCallback callback userData => exact ⟨h.sealed, h.noOverread⟩

/-- A button press. -/
theorem transmitString (h : Guarded cfg b) : Guarded cfg (transmitString b) := by
  rw [transmitString_of_mem h.sealed.zero_mem]
  refine ⟨h.sealed, fun hmem => ?_⟩
  rcases List.mem_append.mp hmem with hmem | hmem
  · exact h.noOverread hmem
  · obtain ⟨c, -, hc⟩ := List.mem_map.mp hmem
    cases hc

/-- The callback's call, and the calls it makes. -/
theorem callCallback (h : Guarded cfg b) (app : App κ υ) (callback : Option κ) (isString : Bool) :
    Guarded cfg (callCallback cfg app callback isString b) := by
  cases callback with
  | none => exact h
  | some cb =>
    exact List.foldlRecOn (motive := Guarded cfg) _ _ (h.log nofun) fun _ h s _ => h.runSetter s

theorem receiveByte (h : Guarded cfg b) (app : App κ υ) (callback : Option κ) (c : UInt8) :
    Guarded cfg (receiveByte cfg app callback c b) := by
  have hstored : Guarded cfg { b with
      rxBuf := b.rxBuf.set b.rxDataLen c
      rxDataLen := b.rxDataLen + 1 } := ⟨h.sealed, h.noOverread⟩
  have hbyte : Guarded cfg (storeByte c b) := hstored.log nofun
  have hcalled : ∀ isString, Guarded cfg
      (resetRx cfg (MyUartPeripheral.callCallback cfg app callback isString (storeByte c b))) := by
    intro isString
    obtain ⟨hsealed, htrace⟩ := hbyte.callCallback app callback isString
    exact ⟨hsealed, htrace⟩
  cases hc : isNul c with
  | true =>
    rw [receiveByte_of_nul callback hc]
    exact hcalled true
  | false =>
    by_cases hfull : b.rxDataLen + 1 = cfg.rxBufSize
    · rw [receiveByte_of_full callback hc hfull]
      exact hcalled false
    · rw [receiveByte_of_room callback hc hfull]
      exact hbyte

/-- A run of `uart_int_handler`. -/
theorem uartIntHandler (h : Guarded cfg b) (app : App κ υ) (rx : Option (List UInt8)) :
    Guarded cfg (uartIntHandler cfg app rx b) := by
  cases rx with
  | none => exact h
  | some bytes =>
    exact List.foldlRecOn (motive := Guarded cfg) bytes _ h fun _ h c _ => h.receiveByte app _ c

/-- **What the last byte is worth.** -/
theorem bounded (h : Guarded cfg b) : Bounded cfg b := by
  have hlen : strlen b.str = some (cString b.str).length := Memory.strlen_of_mem h.sealed.zero_mem
  refine ⟨h.sealed.length_eq, ⟨_, le_rfl, h.sealed.last⟩, ⟨_, h.sealed.length_cString_le, hlen, ?_⟩,
    h.noOverread⟩
  rw [transmitString_of_mem h.sealed.zero_mem, Memory.take_length_cString]

end Guarded

/-! ## §4 — every run. -/

/-- **The step lemma**: no store of any call breaks the seal. -/
theorem Guarded.turn {app : App κ υ} {s : Busy cfg κ υ} (h : Guarded cfg s.toBoard)
    (a : Turn cfg κ υ) : Guarded cfg (s.turn app a).toBoard := by
  cases a with
  | setString string => exact h
  | storeByte k j =>
    show Guarded cfg (s.storeByte k j).toBoard
    unfold Busy.storeByte
    split
    · exact h
    · next c _ =>
      split
      · exact h
      · next store hstore =>
        have hlt := c.todo_lt store (List.mem_of_getElem? hstore)
        exact h.storeStr (Or.inl (Nat.lt_of_lt_of_le hlt c.string.property))
  | terminate k =>
    show Guarded cfg (s.terminate k).toBoard
    unfold Busy.terminate
    split
    · exact h
    · split
      · exact h.storeStr (Or.inr rfl)
      · exact h
  | storeCallback callback => exact ⟨h.sealed, h.noOverread⟩
  | storeUserData userData => exact ⟨h.sealed, h.noOverread⟩
  | button => exact h.transmitString
  | uartInterrupt rx => exact h.uartIntHandler app rx

theorem guarded_run (app : App κ υ) (initial : Text cfg) (turns : List (Turn cfg κ υ)) :
    Guarded cfg ((Busy.init initial).run app turns).toBoard :=
  List.foldlRecOn (motive := fun s : Busy cfg κ υ => Guarded cfg s.toBoard) turns _
    ⟨sealed_init initial, List.not_mem_nil⟩ fun _ h a _ => h.turn a

/-- **Transmission is bounded.** For every size of `str` and every initial string that fits, in
every state that any calls of `user_set_string` lead to, with any bytes and between any two of their
stores: `str` holds a NUL at an index of at most `MAX_STR_LEN`, and `transmit_string` reads up to
it, sends the bytes before it, and a NUL. -/
theorem transmission_bounded (app : App κ υ) (initial : Text cfg) (turns : List (Turn cfg κ υ)) :
    Bounded cfg ((Busy.init initial).run app turns).toBoard :=
  (guarded_run app initial turns).bounded

/-! ## §5 — the calls of `Setters` are among these. -/

/-- The calls on their way when a call of the thread runs with some of its stores made. -/
def OnTheirWay (copies : List (Copy cfg)) : Option (Call cfg κ υ × Nat) → Prop
  | some (.setString string, n) =>
    ∃ c, copies = [c] ∧ c.string = string ∧ c.todo = (memcpyStores string.val).drop n
  | _ => copies = []

section Simulation

variable {callbacks : Callbacks cfg κ υ} {initial : Text cfg} {s : System cfg κ υ}
  {d : Busy cfg κ υ}

/-- A store of `user_set_string` is the first of those to come. -/
theorem simulated_storeString (hinv : Inv initial s) (hboard : d.toBoard = s.toBoard)
    {string : Text cfg} {n : Nat} (hrun : s.running = some (.setString string, n))
    (hcopies : OnTheirWay d.copies s.running) :
    ∃ turns, (d.run callbacks.app turns).toBoard = s.store.toBoard ∧
      OnTheirWay (d.run callbacks.app turns).copies s.store.running := by
  obtain ⟨-, hn, -⟩ := hinv.running _ _ hrun
  rw [length_stores_setString] at hn
  rw [hrun] at hcopies
  obtain ⟨c, hcopies, rfl, htodo⟩ := hcopies
  have hfirst : d.copies[0]? = some c := by
    rw [hcopies]
    rfl
  by_cases hmore : n < c.string.val.length
  · have hbyte : c.string.val[n]? = some c.string.val[n] := List.getElem?_eq_getElem hmore
    have hv : (c.string.val ++ [0])[n]? = some c.string.val[n] := by
      rw [List.getElem?_append_left hmore, hbyte]
    have hnext : c.todo[0]? = some (n, c.string.val[n]) := by
      rw [htodo, List.getElem?_drop, Nat.add_zero, memcpyStores, List.getElem?_mapIdx, hbyte]
      rfl
    have hturn : d.storeByte 0 0 =
        ⟨storeStr s.toBoard (n, c.string.val[n]), [c.made 0]⟩ := by
      rw [Busy.storeByte, hfirst]
      dsimp only
      rw [hnext, hboard, hcopies]
      rfl
    refine ⟨[.storeByte 0 0], ?_⟩
    show (d.storeByte 0 0).toBoard = _ ∧ OnTheirWay (d.storeByte 0 0).copies _
    rw [hturn, System.store_setString hrun hv, if_pos (Nat.succ_lt_succ hmore)]
    refine ⟨rfl, c.made 0, rfl, rfl, ?_⟩
    show c.todo.eraseIdx 0 = _
    rw [htodo, List.eraseIdx_zero, List.tail_drop]
  · have hend : n = c.string.val.length := by omega
    have hv : (c.string.val ++ [0])[n]? = some 0 := by
      rw [hend, List.getElem?_concat_length]
    have hnone : c.todo = [] := by
      rw [htodo, hend]
      exact List.drop_of_length_le (Nat.le_of_eq List.length_mapIdx)
    have hturn : d.terminate 0 = ⟨storeStr s.toBoard (n, 0), []⟩ := by
      rw [Busy.terminate, hfirst]
      dsimp only
      rw [if_pos hnone, hboard, hcopies, hend]
      rfl
    refine ⟨[.terminate 0], ?_⟩
    show (d.terminate 0).toBoard = _ ∧ OnTheirWay (d.terminate 0).copies _
    rw [hturn, System.store_setString hrun hv, if_neg (fun h => hmore (Nat.lt_of_succ_lt_succ h))]
    exact ⟨rfl, rfl⟩

/-- A store of any call. -/
theorem simulated_store (hinv : Inv initial s) (hboard : d.toBoard = s.toBoard)
    (hcopies : OnTheirWay d.copies s.running) :
    ∃ turns, (d.run callbacks.app turns).toBoard = s.store.toBoard ∧
      OnTheirWay (d.run callbacks.app turns).copies s.store.running := by
  cases hrun : s.running with
  | none =>
    have hstay : s.store = s := by
      rw [System.store, hrun]
    rw [hstay]
    exact ⟨[], hboard, hcopies⟩
  | some running =>
    obtain ⟨c, n⟩ := running
    cases c with
    | setString string => exact simulated_storeString hinv hboard hrun hcopies
    | setCallback callback userData =>
      obtain ⟨-, hn, -⟩ := hinv.running _ _ hrun
      have hn : n = 0 ∨ n = 1 := by
        change n < 2 at hn
        omega
      rw [hrun] at hcopies
      rcases hn with rfl | rfl
      · rw [System.store_stringCallback hrun]
        exact ⟨[.storeCallback callback], congrArg (runStore · (.stringCallback callback)) hboard,
          hcopies⟩
      · rw [System.store_userData hrun]
        exact ⟨[.storeUserData userData], congrArg (runStore · (.userData userData)) hboard,
          hcopies⟩

/-- **The simulation step.** -/
theorem simulated_move (hinv : Inv initial s) (hboard : d.toBoard = s.toBoard)
    (hcopies : OnTheirWay d.copies s.running) (a : Move cfg κ υ) :
    ∃ turns, (d.run callbacks.app turns).toBoard = (s.move callbacks a).toBoard ∧
      OnTheirWay (d.run callbacks.app turns).copies (s.move callbacks a).running := by
  cases a with
  | call c =>
    show ∃ turns, _ = (s.call c).toBoard ∧ OnTheirWay _ (s.call c).running
    cases hrun : s.running with
    | some running =>
      have hstay : s.call c = s := by
        rw [System.call, hrun]
      rw [hstay]
      exact ⟨[], hboard, hcopies⟩
    | none =>
      rw [hrun] at hcopies
      have hempty : d.copies = [] := hcopies
      rw [System.call, hrun]
      cases c with
      | setString string =>
        refine ⟨[.setString string], hboard, .start string, ?_, rfl, rfl⟩
        show d.copies ++ [.start string] = _
        rw [hempty]
        rfl
      | setCallback callback userData => exact ⟨[], hboard, hempty⟩
  | store => exact simulated_store hinv hboard hcopies
  | button => exact ⟨[.button], congrArg transmitString hboard, hcopies⟩
  | uartInterrupt rx =>
    cases rx with
    | none => exact ⟨[], hboard, hcopies⟩
    | some bytes =>
      refine ⟨[.uartInterrupt (some bytes)], ?_, ?_⟩
      · show uartIntHandler cfg callbacks.app (some bytes) d.toBoard =
          (s.receiveAll callbacks bytes).toBoard
        rw [hboard, toBoard_receiveAll]
      · show OnTheirWay d.copies (s.receiveAll callbacks bytes).running
        rw [running_receiveAll]
        exact hcopies

end Simulation

/-- **Calls one after the other, each in order, are calls.** -/
theorem system_simulated (callbacks : Callbacks cfg κ υ) (initial : Text cfg)
    (schedule : List (Move cfg κ υ)) :
    ∃ turns, ((Busy.init initial).run callbacks.app turns).toBoard =
      ((System.init initial).run callbacks schedule).toBoard := by
  have hrun : ∃ turns,
      ((Busy.init initial).run callbacks.app turns).toBoard =
        ((System.init initial).run callbacks schedule).toBoard ∧
      OnTheirWay ((Busy.init initial).run callbacks.app turns).copies
        ((System.init initial).run callbacks schedule).running := by
    induction schedule using List.reverseRecOn with
    | nil => exact ⟨[], rfl, rfl⟩
    | append_singleton schedule a ih =>
      obtain ⟨turns, hboard, hcopies⟩ := ih
      obtain ⟨more, hboard', hcopies'⟩ :=
        simulated_move (inv_run callbacks initial schedule) hboard hcopies a
      refine ⟨turns ++ more, ?_⟩
      rw [Busy.run, System.run, List.foldl_append, List.foldl_append]
      exact ⟨hboard', hcopies'⟩
  obtain ⟨turns, hboard, -⟩ := hrun
  exact ⟨turns, hboard⟩

end EchoBot.MyUartPeripheral
