/-
# EchoBot.MyUartPeripheral.Driver — the driver `my_uart_peripheral`, function by function

A UART peripheral that speaks NUL-terminated strings. A button press sends the string set last; the
bytes received are gathered in `rx_buf` and handed to a callback, as a string when a NUL arrives and
as a fragment when the buffer is full.

`Board` is the driver's data and the TRACE of what the outside sees, oldest first. A callback is a
function pointer; what it does to the driver is the calls it makes back into it, which the
application tells (`App`). A failed assertion and a read behind `str` are events: behind the first
of them a trace says nothing about the C program.
-/
import EchoBot.Memory.CString

namespace EchoBot.MyUartPeripheral

open EchoBot.Memory (strlen)

/-! ## §1 — data. -/

/-- The Kconfig sizes, in bytes. -/
structure Config where
  /-- `MY_UART_PERIPHERAL_RX_BUF_SIZE`. -/
  rxBufSize : Nat := 64
  /-- `MY_UART_PERIPHERAL_MAX_STR_LEN`. -/
  maxStrLen : Nat := 64
  deriving DecidableEq, Repr

/-- The defaults of the driver's Kconfig. -/
def Config.default : Config := {}

/-- `struct my_uart_data`. Function pointers are of type `κ`, user data pointers of type `υ`;
`none` is `NULL`. -/
structure MyUartData (κ υ : Type) where
  str : List UInt8
  rxBuf : List UInt8
  rxDataLen : Nat
  stringCallback : Option κ
  userData : Option υ

inductive Event (κ υ : Type) where
  /-- `uart_poll_in` gave `c`, which was stored to `rx_buf[index]`. -/
  | pollIn (c : UInt8) (index : Nat)
  | callback (callback : κ) (data : List UInt8) (isString : Bool) (userData : Option υ)
  /-- `uart_poll_out(c)`. -/
  | pollOut (c : UInt8)
  /-- The assertion of `user_set_string` failed. -/
  | assertFailed
  /-- `strlen` found no NUL in `str` and read on behind it. -/
  | strOverread
  deriving DecidableEq, Repr

structure Board (κ υ : Type) extends MyUartData κ υ where
  trace : List (Event κ υ)

/-- A call of the driver's API. -/
inductive Setter (κ υ : Type) where
  | setString (string : List UInt8)
  | setCallback (callback : Option κ) (userData : Option υ)

/-- What a callback does: the API calls it makes, for its arguments. It may keep a state of its own,
so the trace up to the call is an argument. -/
abbrev App (κ υ : Type) :=
  List (Event κ υ) → κ → List UInt8 → Bool → Option υ → List (Setter κ υ)

variable {κ υ : Type}

/-- One more event. -/
def Board.log (b : Board κ υ) (e : Event κ υ) : Board κ υ := { b with trace := b.trace ++ [e] }

/-- The byte that ends a string. -/
def isNul (c : UInt8) : Bool := c == 0

/-! ## §2 — the API: `user_set_string`, `user_set_string_callback`. -/

variable (cfg : Config)

/-- The stores of `user_set_string`: the `memcpy`, byte by byte, and the terminator. -/
def setStringStores (string : List UInt8) : List (Nat × UInt8) :=
  (string.mapIdx fun i c => (i, c)) ++ [(string.length, 0)]

/-- One store to `str`. -/
def storeStr (b : Board κ υ) (s : Nat × UInt8) : Board κ υ := { b with str := b.str.set s.1 s.2 }

/-- `user_set_string`. -/
def userSetString (string : List UInt8) (b : Board κ υ) : Board κ υ :=
  if string.length ≤ cfg.maxStrLen then (setStringStores string).foldl storeStr b
  else b.log .assertFailed

/-- `user_set_string_callback`. -/
def userSetStringCallback (callback : Option κ) (userData : Option υ) (b : Board κ υ) :
    Board κ υ :=
  { b with stringCallback := callback, userData }

def runSetter (s : Setter κ υ) (b : Board κ υ) : Board κ υ :=
  match s with
  | .setString string => userSetString cfg string b
  | .setCallback callback userData => userSetStringCallback callback userData b

/-! ## §3 — transmitting: `transmit_string`. -/

/-- `transmit_string`. -/
def transmitString (b : Board κ υ) : Board κ υ :=
  match strlen b.str with
  | none => b.log .strOverread
  | some len =>
    let b := (b.str.take len).foldl (fun b c => b.log (.pollOut c)) b
    b.log (.pollOut 0)

/-! ## §4 — receiving: `uart_int_handler`. -/

variable (app : App κ υ)

/-- `data->rx_data_len = 0` and the `memset` over `rx_buf`. -/
def resetRx (b : Board κ υ) : Board κ υ :=
  { b with rxDataLen := 0, rxBuf := List.replicate cfg.rxBufSize 0 }

/-- `rx_buf[0 .. rx_data_len)`. -/
def rxData (b : Board κ υ) : List UInt8 := b.rxBuf.take b.rxDataLen

/-- `uart_poll_in` gave `c`: store it. -/
def storeByte (c : UInt8) (b : Board κ υ) : Board κ υ :=
  { b with
    rxBuf := b.rxBuf.set b.rxDataLen c
    rxDataLen := b.rxDataLen + 1 }.log (.pollIn c b.rxDataLen)

/-- The call of the callback, unless it is `NULL`. -/
def callCallback (callback : Option κ) (isString : Bool) (b : Board κ υ) : Board κ υ :=
  match callback with
  | none => b
  | some cb =>
    (app b.trace cb (rxData b) isString b.userData).foldl (fun b s => runSetter cfg s b)
      (b.log (.callback cb (rxData b) isString b.userData))

/-- The body of `while (!uart_poll_in(uart_dev, &c))`, for the byte `c`. -/
def receiveByte (callback : Option κ) (c : UInt8) (b : Board κ υ) : Board κ υ :=
  let b := storeByte c b
  let rxBufCapacity : Int := cfg.rxBufSize - b.rxDataLen
  if c == 0 then resetRx cfg (callCallback cfg app callback true b)
  else if rxBufCapacity = 0 then resetRx cfg (callCallback cfg app callback false b)
  else b

/-- `uart_int_handler`. `rx` is `none` when `uart_irq_rx_ready` does not hold, and else the bytes
`uart_poll_in` gives. The callback is read once, before the loop. -/
def uartIntHandler (rx : Option (List UInt8)) (b : Board κ υ) : Board κ υ :=
  match rx with
  | none => b
  | some bytes =>
    let callback := b.stringCallback
    bytes.foldl (fun b c => receiveByte cfg app callback c b) b

/-! ## §5 — the runs. -/

/-- What runs on the board. Steps do not interrupt each other. -/
inductive Step (κ υ : Type) where
  /-- A thread calls the API. -/
  | set (s : Setter κ υ)
  /-- The button is pressed. -/
  | button
  | uartInterrupt (rx : Option (List UInt8))

def step (b : Board κ υ) (s : Step κ υ) : Board κ υ :=
  match s with
  | .set s => runSetter cfg s b
  | .button => transmitString b
  | .uartInterrupt rx => uartIntHandler cfg app rx b

def run (steps : List (Step κ υ)) (b : Board κ υ) : Board κ υ := steps.foldl (step cfg app) b

/-- The board after `INIT_MY_UART_PERIPHERAL`, with the device tree's `initial_string`. -/
def init (cfg : Config) (initialString : List UInt8) : Board κ υ where
  str := (initialString ++ List.replicate (cfg.maxStrLen + 1) 0).take (cfg.maxStrLen + 1)
  rxBuf := List.replicate cfg.rxBufSize 0
  rxDataLen := 0
  stringCallback := none
  userData := none
  trace := []

/-! ## §6 — reading a trace. -/

/-- The bytes read from the UART. -/
def received (t : List (Event κ υ)) : List UInt8 :=
  t.filterMap fun
    | .pollIn c _ => some c
    | _ => none

/-- The bytes sent. -/
def wire (t : List (Event κ υ)) : List UInt8 :=
  t.filterMap fun
    | .pollOut c => some c
    | _ => none

/-- The callback's calls: the data and `is_string`. -/
def calls (t : List (Event κ υ)) : List (List UInt8 × Bool) :=
  t.filterMap fun
    | .callback _ data isString _ => some (data, isString)
    | _ => none

end EchoBot.MyUartPeripheral
