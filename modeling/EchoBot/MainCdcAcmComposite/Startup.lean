/-
# EchoBot.MainCdcAcmComposite.Startup — `threadA`, one assignment at a time, under interrupts

`threadA` waits for DTR of both devices and then wires them up with six assignments. Nothing keeps
the interrupts out meanwhile. What saves the bridge is the ORDER: a device has no handler before its
registration, and by the first of the two registrations the pointers and the rings are there. So no
interrupt ever finds a null pointer, and the board behind the last assignment is the bridge of
`EchoBot.MainCdcAcmComposite.Bridge`, whatever came in between (`wiring_is_safe`).

The waiting itself has a gap: both loops share the variable `dtr`, and a read that fails leaves it
as it is. So a first read of the second device that fails lets the thread through.
-/
import EchoBot.MainCdcAcmComposite.Bridge

namespace EchoBot.MainCdcAcmComposite

open EchoBot.Stream
open EchoBot.Zephyr

variable {ρ : Type} [ByteRing ρ]

/-! ## §1 — the thread. -/

/-- The assignments of `threadA`, in their order. -/
def assignments : List (Board ρ → Board ρ) :=
  [fun b => b.setPeer .acm0 { b.peers .acm0 with data := some .acm1 },
    fun b => b.setPeer .acm1 { b.peers .acm1 with data := some .acm0 },
    fun b => b.setPeer .acm0 { b.peers .acm0 with rb := .init ringBufSize },
    fun b => b.setPeer .acm1 { b.peers .acm1 with rb := .init ringBufSize },
    fun b => b.callbackUserDataSet (b.peers .acm1).dev .acm0,
    fun b => b.callbackUserDataSet (b.peers .acm0).dev .acm1]

/-- The board behind the first `n` assignments, without interrupts. -/
def wired (n : Nat) (b : Board ρ) : Board ρ := (assignments.take n).foldl (fun b f => f b) b

/-- **All of them are `threadA`.** -/
theorem wired_assignments (b : Board ρ) : wired 6 b = threadA b := rfl

/-- Where `threadA` stands. -/
inductive Place where
  /-- It has returned: a device is not ready, or the USB not enabled. -/
  | returned
  /-- In the loop that waits for the device's DTR. -/
  | waitDtr (dev : Port)
  /-- Behind some of the assignments. -/
  | wiring (n : Nat)
  deriving DecidableEq, Repr

/-- The board, and the thread with its variable `dtr`. -/
structure System (ρ : Type) [ByteRing ρ] extends Board ρ where
  place : Place
  dtr : Bool
  /-- What `uart_line_ctrl_get(dev, UART_LINE_CTRL_DTR, &dtr)` found; `none` where it failed. -/
  gets : List (Port × Option Bool)

/-- What happens on the board. -/
inductive SystemStep where
  /-- The thread goes on: it looks at DTR, or makes an assignment. -/
  | thread (get : Option Bool)
  | interrupt (dev : Port) (passes : List Pass)

/-- The thread goes on. A read of DTR that fails leaves `dtr` as it was. -/
def System.thread (get : Option Bool) (s : System ρ) : System ρ :=
  match s.place with
  | .returned => s
  | .waitDtr dev =>
    let s := { s with dtr := get.getD s.dtr, gets := s.gets ++ [(dev, get)] }
    if s.dtr then
      { s with
        place := match dev with
          | .acm0 => .waitDtr .acm1
          | .acm1 => .wiring 0 }
    else s
  | .wiring n =>
    match (assignments : List (Board ρ → Board ρ))[n]? with
    | none => s
    | some f => { s with toBoard := f s.toBoard, place := .wiring (n + 1) }

def systemStep (s : System ρ) : SystemStep → System ρ
  | .thread get => s.thread get
  | .interrupt dev passes => { s with toBoard := interruptHandler dev passes s.toBoard }

def systemRun (steps : List SystemStep) (s : System ρ) : System ρ := steps.foldl systemStep s

/-- `threadA` up to the first loop. -/
def enter (deviceIsReady : Port → Bool) (usbEnable : Int) (txIrq : Port → Bool) : System ρ where
  toBoard := boot txIrq
  place := if deviceIsReady .acm0 && deviceIsReady .acm1 && usbEnable == 0 then .waitDtr .acm0
    else .returned
  dtr := false
  gets := []

/-! ## §2 — interrupts before and between the registrations. -/

/-- The board with other registrations. -/
def Board.withUserData (u : Port → Option Port) (b : Board ρ) : Board ρ := { b with userData := u }

@[simp] theorem Board.withUserData_peers (u : Port → Option Port) (b : Board ρ) :
    (b.withUserData u).peers = b.peers := rfl

/-- **The handler does not look at the registrations**, and leaves them alone. -/
theorem withUserData_handlerPass (u : Port → Option Port) (dev peer : Port) (b : Board ρ)
    (p : Pass) :
    (handlerPass dev peer b p).withUserData u = handlerPass dev peer (b.withUserData u) p := by
  have hput : ∀ (buf : List Byte) (b : Board ρ),
      (putReceived peer buf b).withUserData u = putReceived peer buf (b.withUserData u) := by
    intro buf b
    unfold putReceived
    rw [Board.withUserData_peers]
    cases (b.peers peer).data with
    | none => rfl
    | some data =>
      by_cases hdrop : ((b.peers data).rb.put buf).2 < buf.length
      · by_cases hzero : ((b.peers data).rb.put buf).2 = 0
        · simp only [if_pos hdrop, if_pos hzero]
          rfl
        · simp only [if_pos hdrop, if_neg hzero]
          rfl
      · by_cases hzero : ((b.peers data).rb.put buf).2 = 0
        · simp only [if_neg hdrop, if_pos hzero]
          rfl
        · simp only [if_neg hdrop, if_neg hzero]
          rfl
  have hrx : (receive dev peer p.rx b).withUserData u =
      receive dev peer p.rx (b.withUserData u) := by
    cases p.rx with
    | idle => rfl
    | failed => exact hput [] _
    | fifo bytes => exact hput _ _
  unfold handlerPass
  rw [← hrx]
  cases p.txReady with
  | none => rfl
  | some room =>
    show (transmit dev peer room _).withUserData u =
      transmit dev peer room (Board.withUserData u _)
    unfold transmit
    dsimp only
    split
    · next hempty => exact (if_pos hempty).symm
    · next hsome => exact (if_neg hsome).symm

theorem withUserData_passes (u : Port → Option Port) (dev peer : Port) (passes : List Pass)
    (b : Board ρ) : (passes.foldl (handlerPass dev peer) b).withUserData u =
      passes.foldl (handlerPass dev peer) (b.withUserData u) := by
  induction passes generalizing b with
  | nil => rfl
  | cons p passes ih => rw [List.foldl_cons, ih, withUserData_handlerPass, List.foldl_cons]

theorem userData_passes (dev peer : Port) (passes : List Pass) (b : Board ρ) :
    (passes.foldl (handlerPass dev peer) b).userData = b.userData := by
  have hsame := withUserData_passes b.userData dev peer passes b
  have hself : b.withUserData b.userData = b := rfl
  rw [hself] at hsame
  exact (congrArg Board.userData hsame).symm

/-- The board as if all registrations were made. -/
def Board.complete (b : Board ρ) : Board ρ := b.withUserData fun p => some p.other

/-- The registrations made by the first `n` assignments. -/
def registered (n : Nat) : Port → Option Port
  | .acm1 => if 5 ≤ n then some .acm0 else none
  | .acm0 => if 6 ≤ n then some .acm1 else none

/-- **`Safe n b`** — behind `n` assignments: before the first registration the board is as the
assignments made it, and from then on it is the bridge's but for the registrations not made. -/
structure Safe (n : Nat) (b : Board ρ) : Prop where
  userData : ∀ d, b.userData d = registered n d
  early : n < 5 → ∃ txIrq, b = wired n (boot txIrq)
  late : 5 ≤ n → Bridged b.complete

section Safe

variable {n : Nat} {b : Board ρ}

/-- **An interrupt is safe**, wherever the thread is. -/
theorem Safe.interrupt (h : Safe n b) (dev : Port) (passes : List Pass) :
    Safe n (interruptHandler dev passes b) := by
  unfold interruptHandler
  cases hdev : b.userData dev with
  | none => exact h
  | some peer =>
    -- the device is registered, so the other one's record is what it finds
    have hlate : 5 ≤ n ∧ peer = dev.other := by
      rw [h.userData] at hdev
      cases dev with
      | acm0 =>
        obtain ⟨hn, hpeer⟩ : 6 ≤ n ∧ Port.acm1 = peer := by simpa [registered] using hdev
        exact ⟨Nat.le_of_succ_le hn, hpeer.symm⟩
      | acm1 =>
        obtain ⟨hn, hpeer⟩ : 5 ≤ n ∧ Port.acm0 = peer := by simpa [registered] using hdev
        exact ⟨hn, hpeer.symm⟩
    obtain ⟨hn, rfl⟩ := hlate
    refine ⟨?_, fun hlt => absurd hn (Nat.not_le_of_lt hlt), fun _ => ?_⟩
    · dsimp only
      rw [userData_passes]
      exact h.userData
    · dsimp only
      rw [Board.complete, withUserData_passes]
      exact List.foldlRecOn passes _ (h.late hn) fun b hb p _ => hb.pass dev p

/-- **An assignment is safe.** -/
theorem Safe.assign (h : Safe n b) {f : Board ρ → Board ρ} (hf : assignments[n]? = some f) :
    Safe (n + 1) (f b) := by
  rcases Nat.lt_or_ge n 5 with hearly | hlate
  · obtain ⟨txIrq, rfl⟩ := h.early hearly
    have hnext : f (wired n (boot txIrq)) = wired (n + 1) (boot txIrq) := by
      rw [wired, wired, List.take_add_one, hf, List.foldl_append]
      rfl
    have huser : ∀ m < 6, ∀ d, (wired m (boot txIrq) : Board ρ).userData d = registered m d := by
      intro m hm d
      match m, hm with
      | 0, _ => cases d <;> rfl
      | 1, _ => cases d <;> rfl
      | 2, _ => cases d <;> rfl
      | 3, _ => cases d <;> rfl
      | 4, _ => cases d <;> rfl
      | 5, _ => cases d <;> rfl
    have hbridge : (wired 5 (boot txIrq) : Board ρ).complete = threadA (boot txIrq) := by
      have hreg : (threadA (boot txIrq) : Board ρ).userData = fun p => some p.other := by
        funext p
        cases p <;> rfl
      rw [Board.complete, ← hreg]
      rfl
    rw [hnext]
    refine ⟨huser (n + 1) (Nat.succ_lt_succ hearly), fun _ => ⟨txIrq, rfl⟩, fun hn => ?_⟩
    obtain rfl : n = 4 := by omega
    rw [hbridge]
    exact bridged_threadA txIrq
  · have hlt : n < 6 := (List.getElem?_eq_some_iff.mp hf).1
    obtain rfl : n = 5 := by omega
    obtain rfl : (fun b : Board ρ => b.callbackUserDataSet (b.peers .acm0).dev .acm1) = f :=
      Option.some.inj hf
    have hbridged := h.late hlate
    have hdev : (b.peers .acm0).dev = .acm0 := hbridged.dev .acm0
    refine ⟨fun d => ?_, fun hn => absurd hn (by decide), fun _ => hbridged⟩
    show Function.update b.userData (b.peers .acm0).dev (some .acm1) d = _
    rw [hdev]
    cases d with
    | acm0 => exact Function.update_self ..
    | acm1 =>
      rw [Function.update_of_ne (by decide), h.userData]
      rfl

theorem Safe.noNullDeref (h : Safe n b) : Event.nullDeref ∉ b.trace := by
  rcases Nat.lt_or_ge n 5 with hearly | hlate
  · obtain ⟨txIrq, rfl⟩ := h.early hearly
    have hquiet : ∀ m < 5, (wired m (boot txIrq) : Board ρ).trace = [] := by
      intro m hm
      match m, hm with
      | 0, _ => rfl
      | 1, _ => rfl
      | 2, _ => rfl
      | 3, _ => rfl
      | 4, _ => rfl
    rw [hquiet n hearly]
    exact List.not_mem_nil
  · exact (h.late hlate).noNullDeref

end Safe

/-! ## §3 — the loops that wait for DTR. -/

/-- What the reads of a device's DTR found. -/
def getsOf (dev : Port) (gets : List (Port × Option Bool)) : List (Option Bool) :=
  (gets.filter fun g => g.1 = dev).map Prod.snd

theorem getsOf_snoc (dev dev' : Port) (gets : List (Port × Option Bool)) (get : Option Bool) :
    getsOf dev (gets ++ [(dev', get)]) =
      if dev' = dev then getsOf dev gets ++ [get] else getsOf dev gets := by
  rw [getsOf, List.filter_append, List.map_append]
  by_cases h : dev' = dev
  · simp [getsOf, h]
  · simp [getsOf, h]

/-- The second device was found ready, or was not asked properly: its first read failed. -/
def Passed (gets : List (Port × Option Bool)) : Prop :=
  some true ∈ getsOf .acm0 gets ∧
    (some true ∈ getsOf .acm1 gets ∨ (getsOf .acm1 gets).head? = some none)

/-- What the loops have found when the thread is at a place. -/
def Place.Waited (dtr : Bool) (gets : List (Port × Option Bool)) : Place → Prop
  | .returned => True
  | .waitDtr .acm0 => dtr = false ∧ getsOf .acm1 gets = []
  | .waitDtr .acm1 => some true ∈ getsOf .acm0 gets ∧ (dtr = true → getsOf .acm1 gets = [])
  | .wiring _ => Passed gets

/-- How many assignments are made at a place. -/
def Place.made : Place → Nat
  | .wiring n => n
  | _ => 0

/-- **`Booting s`** — the loops have found what the place says, and the board is safe. -/
structure Booting (s : System ρ) : Prop where
  waited : s.place.Waited s.dtr s.gets
  safe : Safe s.place.made s.toBoard

/-- **Every step of the thread keeps both.** -/
theorem Booting.thread {s : System ρ} (h : Booting s) (get : Option Bool) :
    Booting (s.thread get) := by
  obtain ⟨b, place, dtr, gets⟩ := s
  obtain ⟨hwaited, hsafe⟩ := h
  cases place with
  | returned => exact ⟨hwaited, hsafe⟩
  | waitDtr dev =>
    cases dev with
    | acm0 =>
      obtain ⟨hclear, hnone⟩ : dtr = false ∧ getsOf .acm1 gets = [] := hwaited
      subst hclear
      have hacm1 : getsOf .acm1 (gets ++ [(.acm0, get)]) = [] := by
        rw [getsOf_snoc, if_neg (by decide)]
        exact hnone
      match get with
      | some true =>
        refine ⟨⟨?_, fun _ => hacm1⟩, hsafe⟩
        show some true ∈ getsOf .acm0 (gets ++ [(.acm0, some true)])
        rw [getsOf_snoc, if_pos rfl]
        exact List.mem_append_right _ (List.mem_singleton.mpr rfl)
      | some false => exact ⟨⟨rfl, hacm1⟩, hsafe⟩
      | none => exact ⟨⟨rfl, hacm1⟩, hsafe⟩
    | acm1 =>
      obtain ⟨hfirst, hfresh⟩ : some true ∈ getsOf .acm0 gets ∧
        (dtr = true → getsOf .acm1 gets = []) := hwaited
      have hacm0 : some true ∈ getsOf .acm0 (gets ++ [(.acm1, get)]) := by
        rw [getsOf_snoc, if_neg (by decide)]
        exact hfirst
      have hacm1 : getsOf .acm1 (gets ++ [(.acm1, get)]) = getsOf .acm1 gets ++ [get] := by
        rw [getsOf_snoc, if_pos rfl]
      match get, dtr with
      | some true, _ =>
        refine ⟨⟨hacm0, Or.inl ?_⟩, hsafe⟩
        show some true ∈ getsOf .acm1 (gets ++ [(.acm1, some true)])
        rw [hacm1]
        exact List.mem_append_right _ (List.mem_singleton.mpr rfl)
      | some false, _ => exact ⟨⟨hacm0, fun hset => nomatch hset⟩, hsafe⟩
      | none, true =>
        -- the variable still has the first device's DTR
        refine ⟨⟨hacm0, Or.inr ?_⟩, hsafe⟩
        show (getsOf .acm1 (gets ++ [(.acm1, none)])).head? = _
        rw [hacm1, hfresh rfl]
        rfl
      | none, false => exact ⟨⟨hacm0, fun hset => nomatch hset⟩, hsafe⟩
  | wiring n =>
    show Booting (match (assignments : List (Board ρ → Board ρ))[n]? with
      | none => _
      | some f => _)
    cases hf : (assignments : List (Board ρ → Board ρ))[n]? with
    | none => exact ⟨hwaited, hsafe⟩
    | some f => exact ⟨hwaited, hsafe.assign hf⟩

/-- **The wiring is safe.** However the thread's steps and the interrupts of both devices
interleave, and whatever the reads of DTR find: no interrupt dereferences a null pointer; no
assignment is made before the first device's DTR was found set, and the second one's too unless
its first read failed; and behind the last assignment the board is the bridge's. -/
theorem wiring_is_safe (deviceIsReady : Port → Bool) (usbEnable : Int) (txIrq : Port → Bool)
    (steps : List SystemStep) :
    let s : System ρ := systemRun steps (enter deviceIsReady usbEnable txIrq)
    Event.nullDeref ∉ s.trace ∧ (∀ n, s.place = .wiring n → Passed s.gets) ∧
      (s.place = .wiring 6 → Bridged s.toBoard) := by
  intro s
  have hstart : Booting (enter deviceIsReady usbEnable txIrq : System ρ) := by
    have hsafe : Safe 0 (boot txIrq : Board ρ) :=
      ⟨fun d => by cases d <;> rfl, fun _ => ⟨txIrq, rfl⟩, fun hn => absurd hn (by decide)⟩
    unfold enter
    cases deviceIsReady .acm0 && deviceIsReady .acm1 && usbEnable == 0 with
    | false => exact ⟨trivial, hsafe⟩
    | true => exact ⟨⟨rfl, rfl⟩, hsafe⟩
  have hbooting : Booting s := by
    refine List.foldlRecOn steps _ hstart fun s hs st _ => ?_
    cases st with
    | thread get => exact hs.thread get
    | interrupt dev passes => exact ⟨hs.waited, hs.safe.interrupt dev passes⟩
  have hwaited := hbooting.waited
  have hsafe := hbooting.safe
  refine ⟨hsafe.noNullDeref, ?_, ?_⟩
  · intro n hn
    rw [hn] at hwaited
    exact hwaited
  · intro hn
    rw [hn] at hsafe
    have hcomplete : s.toBoard.complete = s.toBoard := by
      have huser : s.userData = fun p => some p.other := by
        funext p
        rw [hsafe.userData]
        cases p <;> rfl
      rw [Board.complete, ← huser]
      rfl
    rw [← hcomplete]
    exact hsafe.late (Nat.le_succ 5)

end EchoBot.MainCdcAcmComposite
