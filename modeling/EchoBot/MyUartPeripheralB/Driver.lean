/-
# EchoBot.MyUartPeripheralB.Driver — the driver `my_uart_peripheral_b`, function by function

A line-oriented UART peripheral. Received bytes are gathered in `rx_buf` and handed to a callback
line by line; data to send is queued in an item-mode ring buffer, one item a message, and one
message at a time goes out: `sending_guard` holds the next one back until the peer answered with an
`OK` line or 5000 ms have passed.

`Board` is the driver's data, the UART's TX interrupt enable, the clock and the TRACE: every call
the driver makes that the outside can see, and every access to a local array, oldest first. Each
function of the source is a function on boards.

Memory outside a local array is modelled as far as the pointer to the array reaches it
(`EchoBot.Memory.Frame`); what ELSE such an access does is not, so behind the first event with an
offset outside its array a trace says nothing about the C program.
-/
import EchoBot.Memory.Frame
import EchoBot.Zephyr.Kernel
import EchoBot.Zephyr.Ring

namespace EchoBot.MyUartPeripheralB

open EchoBot.Memory
open EchoBot.Zephyr

/-! ## §1 — data. -/

/-- The Kconfig sizes. -/
structure Config where
  /-- `MY_UART_PERIPHERAL_B_RX_BUF_SIZE`, in bytes. -/
  rxBufSize : Nat := 64
  /-- `MY_UART_PERIPHERAL_B_TX_BUF_WORDS`, in 32-bit words. -/
  txBufWords : Nat := 16
  /-- `MY_UART_PERIPHERAL_B_TX_BUFFERING_BUF_WORDS`, in 32-bit words. -/
  txBufferingBufWords : Nat := 128
  deriving DecidableEq, Repr

/-- The defaults of the driver's Kconfig. -/
def Config.default : Config := {}

/-- A call of `user_send_data`: its argument, the offsets stored to and the words read through the
local `buf`, and whether `ring_buf_item_put` took the item. -/
structure SendCall where
  data : List UInt8
  stores : List Nat
  reads : List Nat
  queued : Bool
  deriving DecidableEq, Repr

inductive Event where
  /-- `uart_fifo_read` gave `c`, which was stored to `rx_buf[index]`. -/
  | fifoRead (c : UInt8) (index : Nat)
  /-- `check_sending_guard` accepted `line`: the guard was cleared. -/
  | guardReleased (line : List UInt8)
  /-- The callback was called with `line`. -/
  | callback (line : List UInt8)
  /-- `rx_buf` was full and was emptied; `bytes` was its content. -/
  | discarded (bytes : List UInt8)
  | userSendData (call : SendCall)
  /-- `uart_fifo_fill(buf)` at `time`; the UART took the first `taken` bytes. -/
  | fifoFill (time : Nat) (buf : List UInt8) (taken : Nat)
  /-- The expiry function of `sending_guard_timer` ran at `time`. -/
  | timerExpired (time : Nat)
  deriving DecidableEq, Repr

/-- A receive callback, as far as the driver sees it: the data of the `user_send_data` calls it
makes for a line. It may keep a state of its own, so the trace up to the call is an argument. -/
abbrev Callback := List Event → List UInt8 → List (List UInt8)

/-- `struct my_uart_data`. -/
structure MyUartData (ρ τ : Type) where
  rxBuf : List UInt8
  rxDataLen : Nat
  callback : Option Callback
  txRb : ρ
  sendingGuard : Bool
  sendingGuardTimer : τ

structure Board (ρ τ : Type) extends MyUartData ρ τ where
  /-- Whether the UART's TX interrupt is enabled. -/
  txIrq : Bool
  /-- The time, in milliseconds. -/
  now : Nat
  trace : List Event

/-- One more event. -/
def Board.log {ρ τ : Type} (b : Board ρ τ) (e : Event) : Board ρ τ :=
  { b with trace := b.trace ++ [e] }

/-- `'\n'` or `'\r'`. -/
def isTerminator (c : UInt8) : Bool := c == 10 || c == 13

/-- `"SEND:"`. -/
def sendPrefix : List UInt8 := [0x53, 0x45, 0x4E, 0x44, 0x3A]

/-- `"OK"`. -/
def okPrefix : List UInt8 := [0x4F, 0x4B]

/-! ## §2 — sending: `build_user_send_data`, `user_send_data`. -/

/-- `build_user_send_data`: the buffer it filled and the size it returns. The parameter `buf_size`
is there in the source, and is not looked at there either. -/
def buildUserSendData (buf : Frame) (_bufSize : Nat) (data : List UInt8) : Frame × Nat :=
  let buf := buf.memcpy 0 sendPrefix
  let buf := buf.memcpy 5 data
  (buf, data.length + 5)

/-- `uint8_t size32 = (size / sizeof(uint32_t)) + 1`. -/
def size32 (size : Nat) : UInt8 := UInt8.ofNat (size / 4 + 1)

/-- `uint8_t value = size32 * sizeof(uint32_t) - size`. -/
def value (size : Nat) : UInt8 := size32 size * 4 - UInt8.ofNat size

variable {ρ τ : Type} [ItemRing ρ] [OneShotTimer τ]

/-- What a local array holds before it is written: anything, and not the same each time. -/
abbrev Stack := List Event → Nat → UInt8

variable (cfg : Config) (stack : Stack)

/-- `buf` and `size` of a `user_send_data` call. -/
def sendBuf (data : List UInt8) (b : Board ρ τ) : Frame × Nat :=
  buildUserSendData { cell := stack b.trace } (cfg.txBufWords * 4) data

/-- The item a `user_send_data` call offers to `tx_rb`. -/
def sendItem (data : List UInt8) (b : Board ρ τ) : Item :=
  let (buf, size) := sendBuf cfg stack data b
  { type := 0, value := value size, words := buf.words (size32 size).toNat }

/-- The call as the trace shows it. -/
def sendCall (data : List UInt8) (b : Board ρ τ) (queued : Bool) : SendCall :=
  let (buf, size) := sendBuf cfg stack data b
  { data, stores := buf.stores, reads := List.range (size32 size).toNat, queued }

/-- `user_send_data`. -/
def userSendData (data : List UInt8) (b : Board ρ τ) : Board ρ τ :=
  match itemPut b.txRb (sendItem cfg stack data b) with
  | none => b.log (.userSendData (sendCall cfg stack data b false))
  | some rb =>
    { b with txRb := rb, txIrq := true }.log (.userSendData (sendCall cfg stack data b true))

/-- The `user_send_data` calls of a callback, in order. -/
def sendAll (datas : List (List UInt8)) (b : Board ρ τ) : Board ρ τ :=
  datas.foldl (fun b data => userSendData cfg stack data b) b

/-- `user_set_callback`. -/
def userSetCallback (callback : Option Callback) (b : Board ρ τ) : Board ρ τ :=
  { b with callback }

/-! ## §3 — receiving: the inner loop of `uart_int_handler`. -/

/-- `check_sending_guard`. -/
def checkSendingGuard (data : List UInt8) (length : Nat) : Bool :=
  if length < 2 then false
  else if data.take 2 = okPrefix then true
  else false

/-- `data->rx_data_len = 0` and the `memset` over `rx_buf`. -/
def resetRx (b : Board ρ τ) : Board ρ τ :=
  { b with rxDataLen := 0, rxBuf := List.replicate cfg.rxBufSize 0 }

/-- The received bytes: `rx_buf[0 .. rx_data_len)`. -/
def rxLine (b : Board ρ τ) : List UInt8 := b.rxBuf.take b.rxDataLen

/-- `uart_fifo_read` gave `c`: store it. -/
def storeByte (c : UInt8) (b : Board ρ τ) : Board ρ τ :=
  { b with
    rxBuf := b.rxBuf.set b.rxDataLen c
    rxDataLen := b.rxDataLen + 1 }.log (.fifoRead c b.rxDataLen)

/-- The test of the line just completed: an `OK` line clears the guard. -/
def releaseGuard (b : Board ρ τ) : Board ρ τ :=
  if checkSendingGuard b.rxBuf b.rxDataLen then
    { b with sendingGuard := false, txIrq := true }.log (.guardReleased (rxLine b))
  else b

/-- The call of the callback, unless it is `NULL`. -/
def callCallback (callback : Option Callback) (b : Board ρ τ) : Board ρ τ :=
  match callback with
  | none => b
  | some cb => sendAll cfg stack (cb b.trace (rxLine b)) (b.log (.callback (rxLine b)))

/-- The body of `while (uart_irq_rx_ready(uart_dev))`, for the byte `c`. -/
def receiveByte (c : UInt8) (b : Board ρ τ) : Board ρ τ :=
  let callback := b.callback
  let b := storeByte c b
  let rxBufCapacity : Int := cfg.rxBufSize - b.rxDataLen
  if isTerminator c then
    resetRx cfg (callCallback cfg stack callback (releaseGuard b))
  else if rxBufCapacity = 0 then
    resetRx cfg (b.log (.discarded (rxLine b)))
  else b

/-! ## §4 — transmitting: the other half of the handler, and the timer. -/

/-- `my_size * sizeof(uint32_t) - my_value`, in `size_t`. -/
def itemSize (item : Item) : Nat :=
  ((UInt8.ofNat item.words.length).toUInt32 * 4 - item.value.toUInt32).toNat

/-- The bytes passed to `uart_fifo_fill`: the local `my_data`, into which the item was copied. -/
def itemBytes (item : Item) (b : Board ρ τ) : List UInt8 :=
  let myData : Frame := { cell := stack b.trace }
  let myData := myData.memcpy 0 (bytesOfWords item.words)
  myData.bytes (itemSize item)

/-- The branch of `if (uart_irq_tx_ready(uart_dev))`. The UART has room for `room` bytes; how many
it took is not looked at. -/
def transmit (room : Nat) (b : Board ρ τ) : Board ρ τ :=
  if b.sendingGuard then { b with txIrq := false }
  else
    match itemGet b.txRb (UInt8.ofNat cfg.txBufWords) with
    | .emsgsize => { b with txIrq := false }
    | .eagain => { b with txIrq := false }
    | .ok item rb =>
      let buf := itemBytes stack item b
      { b with
        txRb := rb
        sendingGuard := true
        sendingGuardTimer := timerStart b.sendingGuardTimer b.now 5000 }.log
          (.fifoFill b.now buf (min room buf.length))

/-- `sending_guard_timer_expired_function`. -/
def sendingGuardTimerExpiredFunction (b : Board ρ τ) : Board ρ τ :=
  { b with sendingGuard := false, txIrq := true }.log (.timerExpired b.now)

/-- The kernel's timer interrupt: it runs the expiry function of a timer that is due. -/
def timerInterrupt (b : Board ρ τ) : Board ρ τ :=
  match deadline b.sendingGuardTimer with
  | none => b
  | some due =>
    if due ≤ b.now then
      sendingGuardTimerExpiredFunction
        { b with sendingGuardTimer := timerExpire b.sendingGuardTimer }
    else b

/-! ## §5 — the handler and the runs. -/

/-- One turn of the handler's outer loop. -/
def handlerPass (p : Pass) (b : Board ρ τ) : Board ρ τ :=
  let b := p.rx.foldl (fun b c => receiveByte cfg stack c b) b
  match p.txReady with
  | none => b
  | some room => transmit cfg stack room b

/-- `uart_int_handler`. -/
def uartIntHandler (passes : List Pass) (b : Board ρ τ) : Board ρ τ :=
  passes.foldl (fun b p => handlerPass cfg stack p b) b

/-- What runs on the board. Steps do not interrupt each other. -/
inductive Step where
  /-- A thread calls `user_send_data`. -/
  | userSendData (data : List UInt8)
  /-- A thread calls `user_set_callback`. -/
  | userSetCallback (callback : Option Callback)
  | uartInterrupt (passes : List Pass)
  | timerInterrupt

/-- A step, at the time it is made. -/
def step (b : Board ρ τ) (s : Nat × Step) : Board ρ τ :=
  let b := { b with now := s.1 }
  match s.2 with
  | .userSendData data => userSendData cfg stack data b
  | .userSetCallback callback => userSetCallback callback b
  | .uartInterrupt passes => uartIntHandler cfg stack passes b
  | .timerInterrupt => timerInterrupt b

/-- A run of timestamped steps. -/
def run (steps : List (Nat × Step)) (b : Board ρ τ) : Board ρ τ := steps.foldl (step cfg stack) b

/-- The board after `INIT_MY_UART_PERIPHERAL_B` and `init_my_uart_peripheral_b`. -/
def init (cfg : Config) : Board ρ τ where
  rxBuf := List.replicate cfg.rxBufSize 0
  rxDataLen := 0
  callback := none
  txRb := itemInit cfg.txBufferingBufWords
  sendingGuard := false
  sendingGuardTimer := timerInit
  txIrq := false
  now := 0
  trace := []

/-- The application's callback: it echoes the line. -/
def appCallback : Callback := fun _ line => [line]

/-! ## §6 — reading a trace. -/

/-- The bytes read from the UART. -/
def received (t : List Event) : List UInt8 :=
  t.filterMap fun
    | .fifoRead c _ => some c
    | _ => none

/-- The lines given to the callback. -/
def delivered (t : List Event) : List (List UInt8) :=
  t.filterMap fun
    | .callback line => some line
    | _ => none

/-- The `user_send_data` calls. -/
def sendCalls (t : List Event) : List SendCall :=
  t.filterMap fun
    | .userSendData call => some call
    | _ => none

/-- The messages accepted into `tx_rb`. -/
def queued (t : List Event) : List (List UInt8) :=
  t.filterMap fun
    | .userSendData call => if call.queued then some (sendPrefix ++ call.data) else none
    | _ => none

/-- The buffers passed to `uart_fifo_fill`. -/
def filled (t : List Event) : List (List UInt8) :=
  t.filterMap fun
    | .fifoFill _ buf _ => some buf
    | _ => none

/-- The bytes the UART took. -/
def wire (t : List Event) : List UInt8 :=
  t.flatMap fun
    | .fifoFill _ buf taken => buf.take taken
    | _ => []

end EchoBot.MyUartPeripheralB
