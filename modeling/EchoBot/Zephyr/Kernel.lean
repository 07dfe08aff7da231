/-
# EchoBot.Zephyr.Kernel — timers, message queues and UARTs as the code sees them

A one-shot `k_timer` enters as a class with the documented behaviour as laws: starting a timer,
running or not, puts its deadline `duration` after now, and an expiry leaves it stopped. So does a
`k_msgq`, a bounded FIFO that copies its messages.

A UART is driven by its interrupt handler alone. What one turn of the handler's outer loop learns
from the device is a `Pass`: the bytes it reads and the transmitter's answer. A run of a handler is
a list of passes, so that every behaviour of the device is one of the runs.
-/
import Mathlib.Data.List.Basic

namespace EchoBot.Zephyr

/-! ## §1 — one-shot timers. -/

/-- A `k_timer` started with period `K_NO_WAIT`. Times are in milliseconds. -/
class OneShotTimer (τ : Type) where
  /-- The timer after `k_timer_init`. -/
  timerInit : τ
  /-- When the timer is due, if it is running. -/
  deadline : τ → Option Nat
  /-- `k_timer_start(timer, K_MSEC(duration), K_NO_WAIT)` at the time `now`. -/
  timerStart : τ → (now duration : Nat) → τ
  /-- The timer after the kernel ran its expiry function. -/
  timerExpire : τ → τ
  deadline_timerInit : deadline timerInit = none
  deadline_timerStart : ∀ timer now duration,
    deadline (timerStart timer now duration) = some (now + duration)
  deadline_timerExpire : ∀ timer, deadline (timerExpire timer) = none

export OneShotTimer (timerInit deadline timerStart timerExpire)

attribute [simp] OneShotTimer.deadline_timerInit OneShotTimer.deadline_timerStart
  OneShotTimer.deadline_timerExpire

/-- A timer that is its deadline. -/
structure DeadlineTimer where
  due : Option Nat
  deriving DecidableEq, Repr

instance : OneShotTimer DeadlineTimer where
  timerInit := ⟨none⟩
  deadline := DeadlineTimer.due
  timerStart _ now duration := ⟨some (now + duration)⟩
  timerExpire _ := ⟨none⟩
  deadline_timerInit := rfl
  deadline_timerStart _ _ _ := rfl
  deadline_timerExpire _ := rfl

/-! ## §2 — message queues. -/

/-- A `k_msgq` of messages `α`. -/
class MsgQueue (μ : Type) (α : outParam Type) where
  /-- The messages waiting, oldest first. -/
  messages : μ → List α
  maxMsgs : μ → Nat
  /-- `K_MSGQ_DEFINE` with room for `max_msgs` messages. -/
  msgqInit : Nat → μ
  /-- `k_msgq_put(.., K_NO_WAIT)`; `none` is `-ENOMSG`, which leaves the queue as it was. -/
  msgqPut : μ → α → Option μ
  messages_msgqInit : ∀ n, messages (msgqInit n) = []
  maxMsgs_msgqInit : ∀ n, maxMsgs (msgqInit n) = n
  msgqPut_full : ∀ {q m}, maxMsgs q ≤ (messages q).length → msgqPut q m = none
  msgqPut_room : ∀ {q m}, (messages q).length < maxMsgs q →
    ∃ q', msgqPut q m = some q' ∧ messages q' = messages q ++ [m] ∧ maxMsgs q' = maxMsgs q

export MsgQueue (messages maxMsgs msgqInit msgqPut)

/-- A `k_msgq` whose messages are taken out as well. The kernel hands a message straight to a thread
that waits; here that is a put, and the get of that thread directly behind it. -/
class MsgQueueGet (μ : Type) (α : outParam Type) extends MsgQueue μ α where
  /-- `k_msgq_get(.., K_FOREVER)`; `none` is a caller that waits on. -/
  msgqGet : μ → Option (α × μ)
  msgqGet_empty : ∀ {q}, messages q = [] → msgqGet q = none
  msgqGet_cons : ∀ {q m ms}, messages q = m :: ms →
    ∃ q', msgqGet q = some (m, q') ∧ messages q' = ms ∧ maxMsgs q' = maxMsgs q

export MsgQueueGet (msgqGet)

/-- A queue that is its list of messages. -/
structure ListQueue (α : Type) where
  capacity : Nat
  queue : List α
  deriving DecidableEq, Repr

instance (α : Type) : MsgQueue (ListQueue α) α where
  messages := ListQueue.queue
  maxMsgs := ListQueue.capacity
  msgqInit n := ⟨n, []⟩
  msgqPut q m := if q.queue.length < q.capacity then some ⟨q.capacity, q.queue ++ [m]⟩ else none
  messages_msgqInit _ := rfl
  maxMsgs_msgqInit _ := rfl
  msgqPut_full h := if_neg (Nat.not_lt.mpr h)
  msgqPut_room h := ⟨_, if_pos h, rfl, rfl⟩

instance (α : Type) : MsgQueueGet (ListQueue α) α where
  msgqGet q := match q.queue with
    | [] => none
    | m :: ms => some (m, ⟨q.capacity, ms⟩)
  msgqGet_empty {q} h := by
    change q.queue = [] at h
    rw [h]
  msgqGet_cons {q m ms} h := by
    change q.queue = m :: ms at h
    exact ⟨⟨q.capacity, ms⟩, by rw [h], rfl, rfl⟩

section MsgQueue

variable {μ α : Type}

/-- When a put succeeds. -/
theorem room_of_msgqPut [MsgQueue μ α] {q q' : μ} {m : α} (h : msgqPut q m = some q') :
    (messages q).length < maxMsgs q := by
  by_contra hfull
  have hnone : msgqPut q m = none := MsgQueue.msgqPut_full (Nat.le_of_not_lt hfull)
  simp [hnone] at h

/-- What a put that succeeds does. -/
theorem messages_of_msgqPut [MsgQueue μ α] {q q' : μ} {m : α} (h : msgqPut q m = some q') :
    messages q' = messages q ++ [m] ∧ maxMsgs q' = maxMsgs q := by
  obtain ⟨q'', hput, hmessages, hmax⟩ := MsgQueue.msgqPut_room (m := m) (room_of_msgqPut h)
  obtain rfl : q'' = q' := Option.some.inj (hput.symm.trans h)
  exact ⟨hmessages, hmax⟩

/-- When a put fails. -/
theorem full_of_msgqPut [MsgQueue μ α] {q : μ} {m : α} (h : msgqPut q m = none) :
    maxMsgs q ≤ (messages q).length := by
  by_contra hroom
  obtain ⟨q', hput, -⟩ := MsgQueue.msgqPut_room (m := m) (Nat.lt_of_not_le hroom)
  simp [hput] at h

/-- What a get that returns does. -/
theorem messages_of_msgqGet [MsgQueueGet μ α] {q q' : μ} {m : α}
    (h : msgqGet q = some (m, q')) : messages q = m :: messages q' ∧ maxMsgs q' = maxMsgs q := by
  cases hq : messages q with
  | nil =>
    rw [MsgQueueGet.msgqGet_empty hq] at h
    cases h
  | cons m₀ ms =>
    obtain ⟨q₀, hget, hmessages, hmax⟩ := MsgQueueGet.msgqGet_cons hq
    obtain ⟨rfl, rfl⟩ : m₀ = m ∧ q₀ = q' := by simpa using hget.symm.trans h
    exact ⟨by rw [hmessages], hmax⟩

end MsgQueue

/-! ## §3 — interrupt-driven UARTs. -/

/-- One turn of `while (uart_irq_update(dev) && uart_irq_is_pending(dev))`. -/
structure Pass where
  /-- The bytes `uart_fifo_read` gives while `uart_irq_rx_ready` holds. -/
  rx : List UInt8
  /-- Whether `uart_irq_tx_ready` holds then, and how many bytes `uart_fifo_fill` has room for. -/
  txReady : Option Nat
  deriving DecidableEq, Repr

end EchoBot.Zephyr
