/-
# EchoBot.MyUartPeripheralB.Steps — what one step of the driver can do

The one place that opens the functions of `Driver`. Every result about runs rests on

* the equations and frame facts of §1 and §2: a send appends its call to the trace and leaves the
  receive side alone, a byte either extends `rx_buf` or empties it;
* the run rules of §3 (`run_induction`, `receiveByte_induction`): a property kept by each piece of
  the code is kept by every run.
-/
import EchoBot.MyUartPeripheralB.Driver
import Mathlib.Data.List.Basic

namespace EchoBot.MyUartPeripheralB

open EchoBot.Memory
open EchoBot.Zephyr

variable {ρ τ : Type}

/-! ## §1 — logging, and the readings of a longer trace. -/

namespace Board

variable (b : Board ρ τ) (e : Event)

@[simp] theorem log_trace : (b.log e).trace = b.trace ++ [e] := rfl
@[simp] theorem log_toMyUartData : (b.log e).toMyUartData = b.toMyUartData := rfl

end Board

@[simp] theorem received_append (t u : List Event) : received (t ++ u) = received t ++ received u :=
  List.filterMap_append

@[simp] theorem delivered_append (t u : List Event) :
    delivered (t ++ u) = delivered t ++ delivered u := List.filterMap_append

@[simp] theorem sendCalls_append (t u : List Event) :
    sendCalls (t ++ u) = sendCalls t ++ sendCalls u := List.filterMap_append

@[simp] theorem queued_append (t u : List Event) : queued (t ++ u) = queued t ++ queued u :=
  List.filterMap_append

@[simp] theorem filled_append (t u : List Event) : filled (t ++ u) = filled t ++ filled u :=
  List.filterMap_append

theorem received_sends (calls : List SendCall) : received (calls.map .userSendData) = [] := by
  induction calls with
  | nil => rfl
  | cons call calls ih => exact ih

theorem delivered_sends (calls : List SendCall) : delivered (calls.map .userSendData) = [] := by
  induction calls with
  | nil => rfl
  | cons call calls ih => exact ih

theorem sendCalls_sends (calls : List SendCall) : sendCalls (calls.map .userSendData) = calls := by
  induction calls with
  | nil => rfl
  | cons call calls ih => exact congrArg (call :: ·) ih

/-! ## §2 — one call, one byte. -/

theorem toNat_size32 (size : Nat) : (size32 size).toNat = (size / 4 + 1) % 256 :=
  UInt8.toNat_ofNat'

section Calls

variable (cfg : Config) (stack : Stack)

/-- The accesses of a call depend on the length of its data alone. -/
theorem sendCall_eq (data : List UInt8) (b : Board ρ τ) (q : Bool) :
    sendCall cfg stack data b q =
      { data, stores := List.range (data.length + 5),
        reads := List.range (size32 (data.length + 5)).toNat, queued := q } := by
  -- the two copies store to the offsets 0..4 and 5.., which is one range
  have hstores : (sendBuf cfg stack data b).1.stores = List.range (data.length + 5) := by
    rw [Nat.add_comm, List.range_add]
    simp [sendBuf, buildUserSendData, sendPrefix, List.range_succ]
  have hsize : (sendBuf cfg stack data b).2 = data.length + 5 := rfl
  simp only [sendCall, hstores, hsize]

/-- `buf` holds the message. -/
theorem sendBuf_bytes (data : List UInt8) (b : Board ρ τ) :
    (sendBuf cfg stack data b).1.bytes (data.length + 5) = sendPrefix ++ data := by
  have hmemcpy := fun f : Frame => (f.memcpy 0 sendPrefix).bytes_memcpy 5 data
  have hhead := fun f : Frame => f.bytes_memcpy 0 sendPrefix
  rw [Nat.add_comm]
  simp only [sendBuf, buildUserSendData, hmemcpy]
  exact congrArg (· ++ data) (hhead _)

/-- The accesses of a call are those its data alone tells. -/
def SendCall.Exact (call : SendCall) : Prop :=
  call.stores = List.range (call.data.length + 5) ∧
    call.reads = List.range (size32 (call.data.length + 5)).toNat

theorem sendCall_exact (data : List UInt8) (b : Board ρ τ) (q : Bool) :
    (sendCall cfg stack data b q).Exact ∧ (sendCall cfg stack data b q).data = data := by
  rw [sendCall_eq]
  exact ⟨⟨rfl, rfl⟩, rfl⟩

/-- An event of the receive side. -/
def Event.isRx : Event → Bool
  | .fifoRead _ _ => true
  | .guardReleased _ => true
  | .callback _ => true
  | .discarded _ => true
  | _ => false

/-- **`RxFrame b b'`** — a step from `b` to `b'` that leaves the receive side alone. -/
structure RxFrame (b b' : Board ρ τ) : Prop where
  rxBuf : b'.rxBuf = b.rxBuf
  rxDataLen : b'.rxDataLen = b.rxDataLen
  callback : b'.callback = b.callback
  trace : ∃ evs, b'.trace = b.trace ++ evs ∧ ∀ e ∈ evs, e.isRx = false

theorem RxFrame.of_trace_eq {b b' : Board ρ τ} (hdata : b'.rxBuf = b.rxBuf)
    (hlen : b'.rxDataLen = b.rxDataLen) (hcb : b'.callback = b.callback)
    (htrace : b'.trace = b.trace) : RxFrame b b' :=
  ⟨hdata, hlen, hcb, [], by simp [htrace], by simp⟩

theorem RxFrame.of_log {b b' : Board ρ τ} {e : Event} (hdata : b'.rxBuf = b.rxBuf)
    (hlen : b'.rxDataLen = b.rxDataLen) (hcb : b'.callback = b.callback)
    (htrace : b'.trace = b.trace) (he : e.isRx = false) : RxFrame b (b'.log e) :=
  ⟨hdata, hlen, hcb, [e], by simp [htrace], by simpa using he⟩

/-- An event that is neither a send, a fill, nor a release of the guard. -/
def Event.isNeutral : Event → Bool
  | .fifoRead _ _ => true
  | .callback _ => true
  | .discarded _ => true
  | _ => false

/-- The neutral events. -/
theorem Event.neutral_cases {P : Event → Prop} {e : Event} (he : e.isNeutral = true)
    (hread : ∀ c i, P (.fifoRead c i)) (hcallback : ∀ line, P (.callback line))
    (hdiscarded : ∀ bytes, P (.discarded bytes)) : P e := by
  cases e with
  | fifoRead c index => exact hread c index
  | callback line => exact hcallback line
  | discarded bytes => exact hdiscarded bytes
  | guardReleased line => cases he
  | userSendData call => cases he
  | fifoFill time buf taken => cases he
  | timerExpired time => cases he

/-- **What the transmit side is asked about a trace** does not see a neutral event. -/
theorem readings_of_isNeutral {e : Event} (he : e.isNeutral = true) :
    queued [e] = [] ∧ filled [e] = [] ∧ sendCalls [e] = [] :=
  Event.neutral_cases (P := fun e => queued [e] = [] ∧ filled [e] = [] ∧ sendCalls [e] = []) he
    (fun _ _ => ⟨rfl, rfl, rfl⟩) (fun _ => ⟨rfl, rfl, rfl⟩) fun _ => ⟨rfl, rfl, rfl⟩

/-- **`TxFrame b b'`** — a step from `b` to `b'` that leaves the transmit side alone. -/
structure TxFrame (b b' : Board ρ τ) : Prop where
  txRb : b'.txRb = b.txRb
  sendingGuard : b'.sendingGuard = b.sendingGuard
  sendingGuardTimer : b'.sendingGuardTimer = b.sendingGuardTimer
  txIrq : b'.txIrq = b.txIrq
  trace : b'.trace = b.trace ∨ ∃ e, b'.trace = b.trace ++ [e] ∧ e.isNeutral = true

/-- What the test of a completed line does: nothing, or an accepted line releases the guard. -/
theorem releaseGuard_cases (b : Board ρ τ) :
    (checkSendingGuard b.rxBuf b.rxDataLen = false ∧ releaseGuard b = b) ∨
    (checkSendingGuard b.rxBuf b.rxDataLen = true ∧
      releaseGuard b =
        { b with sendingGuard := false, txIrq := true }.log (.guardReleased (rxLine b))) := by
  unfold releaseGuard
  cases checkSendingGuard b.rxBuf b.rxDataLen with
  | false => exact Or.inl ⟨rfl, rfl⟩
  | true => exact Or.inr ⟨rfl, rfl⟩

/-- What the timer interrupt does: nothing, or a due timer releases the guard. -/
theorem timerInterrupt_cases [OneShotTimer τ] (b : Board ρ τ) :
    timerInterrupt b = b ∨
    ∃ due, deadline b.sendingGuardTimer = some due ∧ due ≤ b.now ∧
      timerInterrupt b =
        { b with
          sendingGuardTimer := timerExpire b.sendingGuardTimer
          sendingGuard := false
          txIrq := true }.log (.timerExpired b.now) := by
  unfold timerInterrupt
  cases hdue : deadline b.sendingGuardTimer with
  | none => exact Or.inl rfl
  | some due =>
    by_cases hle : due ≤ b.now
    · exact Or.inr ⟨due, rfl, hle, by simp only [if_pos hle, sendingGuardTimerExpiredFunction]⟩
    · exact Or.inl (by simp only [if_neg hle])

theorem timerInterrupt_rxFrame [OneShotTimer τ] (b : Board ρ τ) :
    RxFrame b (timerInterrupt b) := by
  rcases timerInterrupt_cases b with heq | ⟨due, -, -, heq⟩
  · rw [heq]
    exact .of_trace_eq rfl rfl rfl rfl
  · rw [heq]
    exact .of_log rfl rfl rfl rfl rfl

variable [ItemRing ρ]

/-- What a `user_send_data` call does: the item is queued and the TX interrupt enabled, or it is
refused and nothing changes. -/
theorem userSendData_cases (data : List UInt8) (b : Board ρ τ) :
    (∃ rb, itemPut b.txRb (sendItem cfg stack data b) = some rb ∧
      userSendData cfg stack data b =
        { b with txRb := rb, txIrq := true }.log
          (.userSendData (sendCall cfg stack data b true))) ∨
    (itemPut b.txRb (sendItem cfg stack data b) = none ∧
      userSendData cfg stack data b =
        b.log (.userSendData (sendCall cfg stack data b false))) := by
  cases hput : itemPut b.txRb (sendItem cfg stack data b) with
  | none => exact Or.inr ⟨rfl, by simp only [userSendData, hput]⟩
  | some rb => exact Or.inl ⟨rb, rfl, by simp only [userSendData, hput]⟩

theorem userSendData_rxFrame (data : List UInt8) (b : Board ρ τ) :
    RxFrame b (userSendData cfg stack data b) := by
  rcases userSendData_cases cfg stack data b with ⟨rb, -, heq⟩ | ⟨-, heq⟩
  · rw [heq]
    exact .of_log rfl rfl rfl rfl rfl
  · rw [heq]
    exact .of_log rfl rfl rfl rfl rfl

theorem userSendData_trace (data : List UInt8) (b : Board ρ τ) :
    ∃ q, (userSendData cfg stack data b).trace =
      b.trace ++ [.userSendData (sendCall cfg stack data b q)] := by
  rcases userSendData_cases cfg stack data b with ⟨rb, -, heq⟩ | ⟨-, heq⟩
  · exact ⟨true, by rw [heq, Board.log_trace]⟩
  · exact ⟨false, by rw [heq, Board.log_trace]⟩

/-- The calls of a callback, as the trace shows them. -/
theorem sendAll_trace (datas : List (List UInt8)) (b : Board ρ τ) :
    ∃ calls : List SendCall, calls.map SendCall.data = datas ∧ (∀ call ∈ calls, call.Exact) ∧
      (sendAll cfg stack datas b).trace = b.trace ++ calls.map .userSendData := by
  induction datas generalizing b with
  | nil => exact ⟨[], rfl, by simp, by simp [sendAll]⟩
  | cons data datas ih =>
    obtain ⟨calls, hdata, hexact, htrace⟩ := ih (userSendData cfg stack data b)
    obtain ⟨q, hq⟩ := userSendData_trace cfg stack data b
    obtain ⟨hcall, hcallData⟩ := sendCall_exact cfg stack data b q
    refine ⟨sendCall cfg stack data b q :: calls, ?_, ?_, ?_⟩
    · rw [List.map_cons, hcallData, hdata]
    · exact List.forall_mem_cons.mpr ⟨hcall, hexact⟩
    · rw [sendAll, List.foldl_cons, ← sendAll, htrace, hq, List.append_assoc, List.map_cons,
        List.singleton_append]

theorem sendAll_callback (datas : List (List UInt8)) (b : Board ρ τ) :
    (sendAll cfg stack datas b).callback = b.callback := by
  induction datas generalizing b with
  | nil => rfl
  | cons data datas ih =>
    rw [sendAll, List.foldl_cons, ← sendAll, ih]
    exact (userSendData_rxFrame cfg stack data b).callback

/-- A byte that ends a line. -/
theorem receiveByte_of_terminator {c : UInt8} (hc : isTerminator c = true) (b : Board ρ τ) :
    receiveByte cfg stack c b =
      resetRx cfg (callCallback cfg stack b.callback (releaseGuard (storeByte c b))) := by
  simp only [receiveByte, if_pos hc]

/-- A byte that fills the buffer. -/
theorem receiveByte_of_full {c : UInt8} (hc : isTerminator c = false) {b : Board ρ τ}
    (hfull : b.rxDataLen + 1 = cfg.rxBufSize) :
    receiveByte cfg stack c b =
      resetRx cfg ((storeByte c b).log (.discarded (rxLine (storeByte c b)))) := by
  -- the capacity test comes after the count, so it sees the byte just stored
  have hcap : (cfg.rxBufSize : Int) - (storeByte c b).rxDataLen = 0 := by
    simp only [storeByte, Board.log_toMyUartData, ← hfull]
    omega
  simp only [receiveByte, hc, Bool.false_eq_true, if_false, if_pos hcap]

/-- Any other byte. -/
theorem receiveByte_of_room {c : UInt8} (hc : isTerminator c = false) {b : Board ρ τ}
    (hroom : b.rxDataLen + 1 ≠ cfg.rxBufSize) : receiveByte cfg stack c b = storeByte c b := by
  have hcap : (cfg.rxBufSize : Int) - (storeByte c b).rxDataLen ≠ 0 := by
    simp only [storeByte, Board.log_toMyUartData]
    omega
  simp only [receiveByte, hc, Bool.false_eq_true, if_false, if_neg hcap]

/-- What the transmit branch does: the guard holds, the buffer is empty, the oldest item is too
long, or the oldest item goes to the UART. -/
theorem transmit_cases [OneShotTimer τ] (room : Nat) (b : Board ρ τ) :
    (b.sendingGuard = true ∧ transmit cfg stack room b = { b with txIrq := false }) ∨
    (b.sendingGuard = false ∧ itemGet b.txRb (UInt8.ofNat cfg.txBufWords) = .eagain ∧
      transmit cfg stack room b = { b with txIrq := false }) ∨
    (b.sendingGuard = false ∧ itemGet b.txRb (UInt8.ofNat cfg.txBufWords) = .emsgsize ∧
      transmit cfg stack room b = { b with txIrq := false }) ∨
    (∃ item rb, b.sendingGuard = false ∧
      itemGet b.txRb (UInt8.ofNat cfg.txBufWords) = .ok item rb ∧
      transmit cfg stack room b =
        { b with
          txRb := rb
          sendingGuard := true
          sendingGuardTimer := timerStart b.sendingGuardTimer b.now 5000 }.log
            (.fifoFill b.now (itemBytes stack item b)
              (min room (itemBytes stack item b).length))) := by
  unfold transmit
  cases hguard : b.sendingGuard with
  | true => exact Or.inl ⟨rfl, rfl⟩
  | false =>
    cases hget : itemGet b.txRb (UInt8.ofNat cfg.txBufWords) with
    | eagain => exact Or.inr (Or.inl ⟨rfl, rfl, rfl⟩)
    | emsgsize => exact Or.inr (Or.inr (Or.inl ⟨rfl, rfl, rfl⟩))
    | ok item rb => exact Or.inr (Or.inr (Or.inr ⟨item, rb, rfl, rfl, rfl⟩))

/-- A pass over the transmit branch shows at most one fill. -/
theorem transmit_trace [OneShotTimer τ] (room : Nat) (b : Board ρ τ) :
    (transmit cfg stack room b).trace = b.trace ∨
      ∃ buf taken, (transmit cfg stack room b).trace = b.trace ++ [.fifoFill b.now buf taken] := by
  rcases transmit_cases cfg stack room b with
    ⟨-, heq⟩ | ⟨-, -, heq⟩ | ⟨-, -, heq⟩ | ⟨item, rb, -, -, heq⟩
  · exact Or.inl (by rw [heq])
  · exact Or.inl (by rw [heq])
  · exact Or.inl (by rw [heq])
  · exact Or.inr ⟨_, _, by rw [heq, Board.log_trace]⟩

theorem transmit_rxFrame [OneShotTimer τ] (room : Nat) (b : Board ρ τ) :
    RxFrame b (transmit cfg stack room b) := by
  rcases transmit_cases cfg stack room b with
    ⟨-, heq⟩ | ⟨-, -, heq⟩ | ⟨-, -, heq⟩ | ⟨item, rb, -, -, heq⟩
  · rw [heq]
    exact .of_trace_eq rfl rfl rfl rfl
  · rw [heq]
    exact .of_trace_eq rfl rfl rfl rfl
  · rw [heq]
    exact .of_trace_eq rfl rfl rfl rfl
  · rw [heq]
    exact .of_log rfl rfl rfl rfl rfl

end Calls

/-! ## §3 — the run rules. -/

section Rules

variable [ItemRing ρ] {cfg : Config} {stack : Stack} {I : Board ρ τ → Prop}

/-- What each send keeps, the sends of a callback keep. -/
theorem sendAll_induction (hsend : ∀ b data, I b → I (userSendData cfg stack data b))
    (datas : List (List UInt8)) (b : Board ρ τ) (hb : I b) : I (sendAll cfg stack datas b) :=
  List.foldlRecOn datas _ hb fun b hb data _ => hsend b data hb

/-- **The byte rule**: what the pieces of the receive loop keep, the loop body keeps. -/
theorem receiveByte_induction (hstore : ∀ b c, I b → I (storeByte c b))
    (hrelease : ∀ b, I b → I (releaseGuard b))
    (hcallback : ∀ b line, I b → I (b.log (.callback line)))
    (hsend : ∀ b data, I b → I (userSendData cfg stack data b))
    (hdiscard : ∀ b bytes, I b → I (b.log (.discarded bytes)))
    (hreset : ∀ b, I b → I (resetRx cfg b)) (b : Board ρ τ) (c : UInt8) (hb : I b) :
    I (receiveByte cfg stack c b) := by
  have hstored : I (storeByte c b) := hstore b c hb
  cases hc : isTerminator c with
  | true =>
    rw [receiveByte_of_terminator cfg stack hc]
    have hreleased : I (releaseGuard (storeByte c b)) := hrelease _ hstored
    apply hreset
    cases b.callback with
    | none => exact hreleased
    | some cb => exact sendAll_induction hsend _ _ (hcallback _ _ hreleased)
  | false =>
    by_cases hfull : b.rxDataLen + 1 = cfg.rxBufSize
    · rw [receiveByte_of_full cfg stack hc hfull]
      exact hreset _ (hdiscard _ _ hstored)
    · rw [receiveByte_of_room cfg stack hc hfull]
      exact hstored

/-- **The run rule**: what every atomic piece keeps holds at the end of every run. `ok` restricts
the steps of the run. -/
theorem run_induction [OneShotTimer τ] {ok : Step → Prop}
    (hnow : ∀ b t, I b → I { b with now := t })
    (hsend : ∀ b data, ok (.userSendData data) → I b → I (userSendData cfg stack data b))
    (hset : ∀ b cb, ok (.userSetCallback cb) → I b → I (userSetCallback cb b))
    (hbyte : ∀ b c, I b → I (receiveByte cfg stack c b))
    (htransmit : ∀ b room, I b → I (transmit cfg stack room b))
    (htimer : ∀ b, ok .timerInterrupt → I b → I (timerInterrupt b)) {steps : List (Nat × Step)}
    (hok : ∀ s ∈ steps, ok s.2) {b : Board ρ τ} (hb : I b) : I (run cfg stack steps b) := by
  -- one turn of the handler: its bytes, then the transmit branch if the UART is ready
  have hpass : ∀ b p, I b → I (handlerPass cfg stack p b) := by
    intro b p hb
    have hrx : I (p.rx.foldl (fun b c => receiveByte cfg stack c b) b) :=
      List.foldlRecOn p.rx _ hb fun b hb c _ => hbyte b c hb
    unfold handlerPass
    cases p.txReady with
    | none => exact hrx
    | some room => exact htransmit _ room hrx
  refine List.foldlRecOn steps _ hb fun b hb s hs => ?_
  have hstamped : I { b with now := s.1 } := hnow b s.1 hb
  have hoks := hok s hs
  unfold step
  cases hkind : s.2 with
  | userSendData data => exact hsend _ data (hkind ▸ hoks) hstamped
  | userSetCallback callback => exact hset _ callback (hkind ▸ hoks) hstamped
  | uartInterrupt passes =>
    exact List.foldlRecOn passes _ hstamped fun b hb p _ => hpass b p hb
  | timerInterrupt => exact htimer _ (hkind ▸ hoks) hstamped

/-- **The step rule**: what every atomic piece keeps, a step keeps, at its own time. -/
theorem step_induction [OneShotTimer τ] (hsend : ∀ b data, I b → I (userSendData cfg stack data b))
    (hset : ∀ b cb, I b → I (userSetCallback cb b))
    (hbyte : ∀ b c, I b → I (receiveByte cfg stack c b))
    (htransmit : ∀ b room, I b → I (transmit cfg stack room b))
    (htimer : ∀ b, I b → I (timerInterrupt b)) {b : Board ρ τ} {s : Nat × Step}
    (hb : I { b with now := s.1 }) : I (step cfg stack b s) := by
  obtain ⟨time, s⟩ := s
  cases s with
  | userSendData data => exact hsend _ data hb
  | userSetCallback callback => exact hset _ callback hb
  | timerInterrupt => exact htimer _ hb
  | uartInterrupt passes =>
    refine List.foldlRecOn passes _ hb fun b hb p _ => ?_
    have hrx : I (p.rx.foldl (fun b c => receiveByte cfg stack c b) b) :=
      List.foldlRecOn p.rx _ hb fun b hb c _ => hbyte b c hb
    unfold handlerPass
    cases p.txReady with
    | none => exact hrx
    | some room => exact htransmit _ room hrx

/-- The time an event shows. -/
def Event.time? : Event → Option Nat
  | .fifoFill time _ _ => some time
  | .timerExpired time => some time
  | _ => none

/-- **`EventFrame b b'`** — a step from `b` to `b'` at one moment, with at most one event, which
shows that moment if it shows a time. -/
structure EventFrame (b b' : Board ρ τ) : Prop where
  now : b'.now = b.now
  trace : b'.trace = b.trace ∨ ∃ e, b'.trace = b.trace ++ [e] ∧ ∀ t ∈ e.time?, t = b.now

/-- **The step rule of the trace**: what survives every piece with at most one event, a step
keeps. -/
theorem event_step_induction [OneShotTimer τ] (hframe : ∀ b b', EventFrame b b' → I b → I b')
    {b : Board ρ τ} {s : Nat × Step} (hb : I { b with now := s.1 }) :
    I (step cfg stack b s) := by
  have hsame : ∀ b b' : Board ρ τ, b'.now = b.now → b'.trace = b.trace → I b → I b' :=
    fun b b' hnow htrace => hframe b b' ⟨hnow, .inl htrace⟩
  have hlog : ∀ (b b' : Board ρ τ) (e : Event), b'.now = b.now → b'.trace = b.trace ++ [e] →
      (∀ t ∈ e.time?, t = b.now) → I b → I b' :=
    fun b b' e hnow htrace he => hframe b b' ⟨hnow, .inr ⟨e, htrace, he⟩⟩
  have hsend : ∀ (b : Board ρ τ) data, I b → I (userSendData cfg stack data b) := by
    intro b data hb
    rcases userSendData_cases cfg stack data b with ⟨rb, -, heq⟩ | ⟨-, heq⟩
    · rw [heq]
      exact hlog b _ _ rfl rfl (by simp [Event.time?]) hb
    · rw [heq]
      exact hlog b _ _ rfl rfl (by simp [Event.time?]) hb
  refine step_induction hsend ?_ ?_ ?_ ?_ hb
  · intro b cb hb
    exact hsame b _ rfl rfl hb
  · refine fun b c hb => receiveByte_induction ?_ ?_ ?_ hsend ?_ ?_ b c hb
    · intro b c hb
      exact hlog b _ _ rfl rfl (by simp [Event.time?]) hb
    · intro b hb
      rcases releaseGuard_cases b with ⟨-, heq⟩ | ⟨-, heq⟩
      · rwa [heq]
      · rw [heq]
        exact hlog b _ _ rfl rfl (by simp [Event.time?]) hb
    · intro b line hb
      exact hlog b _ _ rfl rfl (by simp [Event.time?]) hb
    · intro b bytes hb
      exact hlog b _ _ rfl rfl (by simp [Event.time?]) hb
    · intro b hb
      exact hsame b _ rfl rfl hb
  · intro b room hb
    rcases transmit_cases cfg stack room b with
      ⟨-, heq⟩ | ⟨-, -, heq⟩ | ⟨-, -, heq⟩ | ⟨item, rb, -, -, heq⟩
    · rw [heq]
      exact hsame b _ rfl rfl hb
    · rw [heq]
      exact hsame b _ rfl rfl hb
    · rw [heq]
      exact hsame b _ rfl rfl hb
    · rw [heq]
      exact hlog b _ _ rfl rfl (by simp [Event.time?]) hb
  · intro b hb
    rcases timerInterrupt_cases b with heq | ⟨due, -, -, heq⟩
    · rwa [heq]
    · rw [heq]
      exact hlog b _ _ rfl rfl (by simp [Event.time?]) hb

/-- **The run rule of the receive side**: what survives every step that leaves the receive side
alone needs a proof for the bytes and the callback only. -/
theorem rx_run_induction [OneShotTimer τ] {ok : Step → Prop}
    (hframe : ∀ b b', RxFrame b b' → I b → I b')
    (hset : ∀ b cb, ok (.userSetCallback cb) → I b → I (userSetCallback cb b))
    (hbyte : ∀ b c, I b → I (receiveByte cfg stack c b)) {steps : List (Nat × Step)}
    (hok : ∀ s ∈ steps, ok s.2) {b : Board ρ τ} (hb : I b) : I (run cfg stack steps b) := by
  refine run_induction ?_ ?_ hset hbyte ?_ ?_ hok hb
  · intro b t hb
    exact hframe b _ (.of_trace_eq rfl rfl rfl rfl) hb
  · intro b data _ hb
    exact hframe b _ (userSendData_rxFrame cfg stack data b) hb
  · intro b room hb
    exact hframe b _ (transmit_rxFrame cfg stack room b) hb
  · intro b _ hb
    exact hframe b _ (timerInterrupt_rxFrame b) hb

/-- **The run rule of the transmit side**: what survives every step that leaves the transmit side
alone needs a proof for the sends, the release, the transmit branch and the timer only. -/
theorem tx_run_induction [OneShotTimer τ] (hframe : ∀ b b', TxFrame b b' → I b → I b')
    (hrelease : ∀ b, I b → I (releaseGuard b))
    (hsend : ∀ b data, I b → I (userSendData cfg stack data b))
    (htransmit : ∀ b room, I b → I (transmit cfg stack room b))
    (htimer : ∀ b, I b → I (timerInterrupt b)) (steps : List (Nat × Step)) {b : Board ρ τ}
    (hb : I b) : I (run cfg stack steps b) := by
  -- storing a byte, clearing `rx_buf` and the clock change no field of a `TxFrame`
  have hsame : ∀ b b' : Board ρ τ, b'.txRb = b.txRb → b'.sendingGuard = b.sendingGuard →
      b'.sendingGuardTimer = b.sendingGuardTimer → b'.txIrq = b.txIrq → b'.trace = b.trace →
      I b → I b' :=
    fun b b' hrb hguard htimer hirq htrace => hframe b b' ⟨hrb, hguard, htimer, hirq, .inl htrace⟩
  have hlog : ∀ (b : Board ρ τ) (e : Event), e.isNeutral = true → I b → I (b.log e) :=
    fun b e he => hframe b _ ⟨rfl, rfl, rfl, rfl, .inr ⟨e, rfl, he⟩⟩
  have hbyte := @receiveByte_induction ρ τ _ cfg stack I
    (fun b c hb => hlog _ (.fifoRead c b.rxDataLen) rfl (hsame b _ rfl rfl rfl rfl rfl hb))
    hrelease (fun b line hb => hlog b _ rfl hb) hsend (fun b bytes hb => hlog b _ rfl hb)
    (fun b hb => hsame b _ rfl rfl rfl rfl rfl hb)
  exact @run_induction ρ τ _ cfg stack I _ (fun _ => True)
    (fun b t hb => hsame b _ rfl rfl rfl rfl rfl hb) (fun b data _ hb => hsend b data hb)
    (fun b cb _ hb => hsame b _ rfl rfl rfl rfl rfl hb) hbyte htransmit
    (fun b _ hb => htimer b hb) steps (fun _ _ => trivial) b hb

/-- **The run rule under a condition on the sends.** A call stays in the trace, so a condition on
the calls of the run's trace is one on the calls made so far, in every state of the run. -/
theorem tx_run_induction_of_sends [OneShotTimer τ] {P : SendCall → Prop}
    (hframe : ∀ b b', TxFrame b b' → I b → I b') (hrelease : ∀ b, I b → I (releaseGuard b))
    (hsend : ∀ b data, (∀ call ∈ sendCalls (userSendData cfg stack data b).trace, P call) →
      I b → I (userSendData cfg stack data b))
    (htransmit : ∀ b room, I b → I (transmit cfg stack room b))
    (htimer : ∀ b, I b → I (timerInterrupt b)) (steps : List (Nat × Step)) {b : Board ρ τ}
    (hb : I b) (hP : ∀ call ∈ sendCalls (run cfg stack steps b).trace, P call) :
    I (run cfg stack steps b) := by
  -- the calls of a shorter trace are among those of a longer one
  have hmono : ∀ {t u v : List Event}, u = t ++ v → (∀ call ∈ sendCalls u, P call) →
      ∀ call ∈ sendCalls t, P call := by
    rintro t u v rfl hu call hcall
    exact hu call (by rw [sendCalls_append]; exact List.mem_append_left _ hcall)
  refine @tx_run_induction ρ τ _ cfg stack
    (fun b => (∀ call ∈ sendCalls b.trace, P call) → I b) _ ?_ ?_ ?_ ?_ ?_ steps b (fun _ => hb) hP
  · intro b b' hstep hb hcalls
    refine hframe b b' hstep (hb ?_)
    rcases hstep.trace with htrace | ⟨e, htrace, -⟩
    · rwa [← htrace]
    · exact hmono htrace hcalls
  · intro b hb hcalls
    refine hrelease b (hb ?_)
    rcases releaseGuard_cases b with ⟨-, heq⟩ | ⟨-, heq⟩
    · rwa [heq] at hcalls
    · rw [heq] at hcalls
      exact hmono (Board.log_trace _ _) hcalls
  · intro b data hb hcalls
    obtain ⟨q, htrace⟩ := userSendData_trace cfg stack data b
    exact hsend b data hcalls (hb (hmono htrace hcalls))
  · intro b room hb hcalls
    refine htransmit b room (hb ?_)
    rcases transmit_trace cfg stack room b with htrace | ⟨buf, taken, htrace⟩
    · rwa [htrace] at hcalls
    · exact hmono htrace hcalls
  · intro b hb hcalls
    refine htimer b (hb ?_)
    rcases timerInterrupt_cases b with heq | ⟨due, -, -, heq⟩
    · rwa [heq] at hcalls
    · rw [heq] at hcalls
      exact hmono (Board.log_trace _ _) hcalls

end Rules

/-! ## §4 — the bytes a run receives. -/

/-- The bytes the UART receives in a step. -/
def Step.rx : Step → List UInt8
  | .uartInterrupt passes => passes.flatMap Pass.rx
  | _ => []

/-- The byte stream of a run: all its interrupts together, however they split it. -/
def rxStream (steps : List (Nat × Step)) : List UInt8 := steps.flatMap fun s => s.2.rx

/-! ## §5 — a trace grows. -/

theorem sendCalls_mono {t u : List Event} (h : t <+: u) : ∀ call ∈ sendCalls t,
    call ∈ sendCalls u := by
  obtain ⟨v, rfl⟩ := h
  intro call hcall
  rw [sendCalls_append]
  exact List.mem_append_left _ hcall

theorem queued_mono {t u : List Event} (h : t <+: u) : queued t <+: queued u := by
  obtain ⟨v, rfl⟩ := h
  rw [queued_append]
  exact List.prefix_append _ _

section Grows

variable [ItemRing ρ] [OneShotTimer τ] {cfg : Config} {stack : Stack}

theorem run_append (s₁ s₂ : List (Nat × Step)) (b : Board ρ τ) :
    run cfg stack (s₁ ++ s₂) b = run cfg stack s₂ (run cfg stack s₁ b) := List.foldl_append

/-- A run only adds to the trace. -/
theorem trace_prefix_run (steps : List (Nat × Step)) (b : Board ρ τ) :
    b.trace <+: (run cfg stack steps b).trace := by
  refine List.foldlRecOn (motive := fun b' : Board ρ τ => b.trace <+: b'.trace) steps _
    List.prefix_rfl fun b' hb s _ => ?_
  refine event_step_induction (I := fun b' : Board ρ τ => b.trace <+: b'.trace) ?_ hb
  rintro b₁ b₂ hframe hb
  rcases hframe.trace with htrace | ⟨e, htrace, -⟩
  · rwa [htrace]
  · rw [htrace]
    exact hb.trans (List.prefix_append _ _)

end Grows

end EchoBot.MyUartPeripheralB
