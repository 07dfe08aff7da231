/-
# EchoBot.MyUartPeripheralB.Termination — the interrupt handler returns

`uart_int_handler` loops while an interrupt is pending, and has a loop over the received bytes
inside. Here both loops run against a UART with a state of its own: a RX FIFO that gives up one byte
a read, and a transmitter that is ready or not. An interrupt is pending while there are bytes in the
FIFO, or while the TX interrupt is enabled and the transmitter ready.

Progress is not monotone: the receive loop can clear the guard, enable the TX interrupt and fill the
queue that the transmit branch drains. But it empties the FIFO, and from then on every turn lowers
the `stage`: a turn that fills sets the guard, and a turn with the guard set disables the interrupt
(`stage_transmit`). So the loops end, whatever the transmitter answers, and the run of the handler
is one of the runs of `uartIntHandler` (`handler_returns`).
-/
import EchoBot.MyUartPeripheralB.Steps
import EchoBot.Program.While

namespace EchoBot.MyUartPeripheralB

open EchoBot.Program
open EchoBot.Zephyr

/-! ## §1 — the machine. -/

/-- A board and the state of its UART. -/
structure Machine (ρ τ : Type) extends Board ρ τ where
  /-- The bytes waiting. -/
  rxFifo : List UInt8
  /-- Whether the transmitter is ready. -/
  txReady : Bool

/-- How a transmitter behaves, given all that has happened: how many bytes it has room for, and
whether it is ready behind the transmit branch. -/
structure Transmitter where
  room : List Event → Nat
  answer : List Event → Bool

variable {ρ τ : Type}

/-- `uart_irq_is_pending`. -/
def isPending (m : Machine ρ τ) : Bool := !m.rxFifo.isEmpty || (m.txIrq && m.txReady)

/-- `uart_irq_rx_ready`. -/
def rxReady (m : Machine ρ τ) : Bool := !m.rxFifo.isEmpty

variable [ItemRing ρ] (cfg : Config) (stack : Stack)

/-! ## §2 — the inner loop. -/

/-- The body of `while (uart_irq_rx_ready(uart_dev))`: `uart_fifo_read` and what follows. -/
def readByte (m : Machine ρ τ) : Machine ρ τ :=
  match m.rxFifo with
  | [] => m
  | c :: rxFifo => { m with toBoard := receiveByte cfg stack c m.toBoard, rxFifo }

/-- The inner loop. -/
def receiveLoop (fuel : Nat) (m : Machine ρ τ) : Option (Machine ρ τ) :=
  whileFuel rxReady (fun _ m => some (readByte cfg stack m)) fuel m

/-- The machine once the bytes waiting have been received. -/
def drainRx (m : Machine ρ τ) : Machine ρ τ :=
  { m with
    toBoard := m.rxFifo.foldl (fun b c => receiveByte cfg stack c b) m.toBoard
    rxFifo := [] }

theorem drainRx_readByte (m : Machine ρ τ) :
    drainRx cfg stack (readByte cfg stack m) = drainRx cfg stack m := by
  unfold readByte
  cases hfifo : m.rxFifo with
  | nil => rfl
  | cons c rxFifo =>
    simp only [drainRx, hfifo]
    rfl

theorem drainRx_of_empty {m : Machine ρ τ} (hfifo : m.rxFifo = []) : drainRx cfg stack m = m := by
  cases m with
  | mk b rxFifo txReady =>
    subst hfifo
    rfl

/-- **The inner loop returns**, and has received the bytes that waited, in order. -/
theorem receiveLoop_returns (m : Machine ρ τ) :
    Returns (fun fuel => receiveLoop cfg stack fuel m) (drainRx cfg stack m) := by
  -- every byte read leaves less to read, and the same machine in the end
  have hturn : ∀ s : Machine ρ τ, drainRx cfg stack s = drainRx cfg stack m → rxReady s = true →
      ∃ s₁, Returns (fun _ => some (readByte cfg stack s)) s₁ ∧
        drainRx cfg stack s₁ = drainRx cfg stack m ∧ s₁.rxFifo.length < s.rxFifo.length := by
    intro s hs hready
    refine ⟨_, ⟨0, fun _ _ => rfl⟩, (drainRx_readByte cfg stack s).trans hs, ?_⟩
    unfold readByte
    cases hfifo : s.rxFifo with
    | nil => simp [rxReady, hfifo] at hready
    | cons c rxFifo => exact Nat.lt_succ_self _
  obtain ⟨s', hreturns, hs', hexit⟩ :=
    returns_while Nat.lt_wfRel.wf (fun s : Machine ρ τ => s.rxFifo.length) hturn rfl
  have hempty : s'.rxFifo = [] := by simpa [rxReady] using hexit
  rw [← hs', drainRx_of_empty cfg stack hempty]
  exact hreturns

/-! ## §3 — the outer loop. -/

variable [OneShotTimer τ] (uart : Transmitter)

/-- The branch of `if (uart_irq_tx_ready(uart_dev))`. -/
def transmitBranch (m : Machine ρ τ) : Machine ρ τ :=
  if m.txReady then
    let b := transmit cfg stack (uart.room m.trace) m.toBoard
    { m with toBoard := b, txReady := uart.answer b.trace }
  else m

/-- `uart_int_handler`. -/
def handlerLoop (fuel : Nat) (m : Machine ρ τ) : Option (Machine ρ τ) :=
  whileFuel isPending
    (fun fuel m => (receiveLoop cfg stack fuel m).map (transmitBranch cfg stack uart)) fuel m

/-- What the transmit side still has to do: fill the UART, and disable the interrupt. -/
def stage (b : Board ρ τ) : Nat := if b.txIrq then (if b.sendingGuard then 1 else 2) else 0

/-- A transmit branch entered with the interrupt enabled lowers the stage. -/
theorem stage_transmit (room : Nat) {b : Board ρ τ} (hirq : b.txIrq = true) :
    stage (transmit cfg stack room b) < stage b := by
  rcases transmit_cases cfg stack room b with
    ⟨hguard, heq⟩ | ⟨hguard, -, heq⟩ | ⟨hguard, -, heq⟩ | ⟨item, rb, hguard, -, heq⟩
  all_goals
    rw [heq]
    simp [stage, hirq, hguard, Board.log]

/-- One turn of the outer loop is a pass of the handler. -/
theorem transmitBranch_drainRx (m : Machine ρ τ) :
    ∃ p : Pass, (transmitBranch cfg stack uart (drainRx cfg stack m)).toBoard =
        handlerPass cfg stack p m.toBoard ∧
      (transmitBranch cfg stack uart (drainRx cfg stack m)).rxFifo = [] := by
  unfold transmitBranch
  cases hready : m.txReady with
  | false => exact ⟨⟨m.rxFifo, none⟩, by simp [drainRx, hready, handlerPass], by
      simp [drainRx, hready]⟩
  | true =>
    refine ⟨⟨m.rxFifo, some (uart.room (drainRx cfg stack m).trace)⟩, ?_, ?_⟩
    · simp [drainRx, hready, handlerPass]
    · simp [drainRx, hready]

/-- **The handler returns.** Whatever waits in the RX FIFO and in `tx_rb`, whatever the guard and
the TX interrupt are, and whatever the transmitter answers: both loops end, with the RX FIFO empty
and the TX interrupt disabled or the transmitter not ready; and the board is one that a run of
`uartIntHandler` leaves. -/
theorem handler_returns (m : Machine ρ τ) :
    ∃ m', Returns (fun fuel => handlerLoop cfg stack uart fuel m) m' ∧ m'.rxFifo = [] ∧
      (m'.txIrq = false ∨ m'.txReady = false) ∧
      ∃ passes, m'.toBoard = uartIntHandler cfg stack passes m.toBoard := by
  -- the variant: the bytes waiting, and then the stage
  have hturn : ∀ s : Machine ρ τ,
      (∃ passes, s.toBoard = uartIntHandler cfg stack passes m.toBoard) → isPending s = true →
      ∃ s₁, Returns (fun fuel => (receiveLoop cfg stack fuel s).map (transmitBranch cfg stack uart))
          s₁ ∧
        (∃ passes, s₁.toBoard = uartIntHandler cfg stack passes m.toBoard) ∧
        Prod.Lex (· < ·) (· < ·) (s₁.rxFifo.length, stage s₁.toBoard)
          (s.rxFifo.length, stage s.toBoard) := by
    rintro s ⟨passes, hs⟩ hpending
    obtain ⟨p, hboard, hfifo⟩ := transmitBranch_drainRx cfg stack uart s
    refine ⟨_, (receiveLoop_returns cfg stack s).map _, ⟨passes ++ [p], ?_⟩, ?_⟩
    · rw [hboard, hs, uartIntHandler, uartIntHandler, List.foldl_append]
      rfl
    · rw [hfifo]
      cases hwaiting : s.rxFifo with
      | cons c rxFifo => exact Prod.Lex.left _ _ (Nat.succ_pos _)
      | nil =>
        -- nothing waits, so the transmit side made the interrupt pending
        obtain ⟨hirq, hready⟩ : s.txIrq = true ∧ s.txReady = true := by
          simpa [isPending, hwaiting] using hpending
        rw [drainRx_of_empty cfg stack hwaiting, transmitBranch, if_pos hready]
        exact Prod.Lex.right _ (stage_transmit cfg stack _ hirq)
  obtain ⟨m', hreturns, hrun, hexit⟩ :=
    returns_while (Prod.lex Nat.lt_wfRel Nat.lt_wfRel).wf
      (fun s : Machine ρ τ => (s.rxFifo.length, stage s.toBoard)) hturn ⟨[], rfl⟩
  obtain ⟨hfifo, hquiet⟩ : m'.rxFifo = [] ∧ (m'.txIrq = true → m'.txReady = false) := by
    simpa [isPending] using hexit
  refine ⟨m', hreturns, hfifo, ?_, hrun⟩
  cases hirq : m'.txIrq with
  | false => exact Or.inl rfl
  | true => exact Or.inr (hquiet hirq)

end EchoBot.MyUartPeripheralB
