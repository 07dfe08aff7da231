/-
# EchoBot.MainCdcAcmComposite.Handler — the bridge's interrupt handler, and reads that fail

`uart_fifo_read` may fail, and the handler goes on as if it had read nothing. But it has read
nothing: the bytes are still there, so the interrupt is still pending, and the loop comes back. So
whether the handler returns is up to the reads: it does exactly when some number of them brings
enough successes to empty the RX FIFO, 64 bytes each (`interrupt_returns_iff`).
-/
import EchoBot.MainCdcAcmComposite.Bridge
import EchoBot.Program.While
import Mathlib.Order.Nat

namespace EchoBot.MainCdcAcmComposite

open EchoBot.Program
open EchoBot.Zephyr

variable {ρ : Type} [ByteRing ρ]

/-! ## §1 — the machine. -/

/-- A board, the RX FIFO of the device that is interrupted, and the reads made so far. -/
structure Machine (ρ : Type) [ByteRing ρ] extends Board ρ where
  rxFifo : List UInt8
  reads : Nat

/-- How a UART behaves: which reads fail, how many bytes the transmitter has room for, and whether
it is ready. -/
structure Uart (ρ : Type) [ByteRing ρ] where
  fails : Nat → Bool
  room : Machine ρ → Nat
  ready : Machine ρ → Bool

variable (uart : Uart ρ) (dev peer : Port)

/-- `uart_irq_rx_ready`. -/
def rxReady (m : Machine ρ) : Bool := !m.rxFifo.isEmpty

/-- `uart_irq_tx_ready`: the TX interrupt is enabled, and the transmitter ready. -/
def txReady (m : Machine ρ) : Bool := m.txIrq dev && uart.ready m

/-- `uart_irq_is_pending`. -/
def isPending (m : Machine ρ) : Bool := rxReady m || txReady uart dev m

/-- The branch of `if (uart_irq_rx_ready(dev))`. -/
def receiveBranch (m : Machine ρ) : Machine ρ :=
  if rxReady m then
    if uart.fails m.reads then
      { m with toBoard := receive dev peer .failed m.toBoard, reads := m.reads + 1 }
    else
      { toBoard := receive dev peer (.fifo m.rxFifo) m.toBoard
        rxFifo := m.rxFifo.drop 64
        reads := m.reads + 1 }
  else m

/-- The branch of `if (uart_irq_tx_ready(dev))`. -/
def transmitBranch (m : Machine ρ) : Machine ρ :=
  if txReady uart dev m then { m with toBoard := transmit dev peer (uart.room m) m.toBoard } else m

/-- One turn of the loop. -/
def turn (m : Machine ρ) : Machine ρ :=
  transmitBranch uart dev peer (receiveBranch uart dev peer m)

/-- `interrupt_handler`. -/
def handlerLoop (fuel : Nat) (m : Machine ρ) : Option (Machine ρ) :=
  whileFuel (isPending uart dev) (fun _ m => some (turn uart dev peer m)) fuel m

/-- The reads among the `n` from `start` that succeed. -/
def successes (fails : Nat → Bool) (start n : Nat) : Nat :=
  (List.range n).countP fun i => !fails (start + i)

/-- The reads of 64 bytes that some bytes take. -/
def readsNeeded (bytes : List UInt8) : Nat := (bytes.length + 63) / 64

/-! ## §2 — a turn. -/

theorem successes_succ (fails : Nat → Bool) (start n : Nat) :
    successes fails start (n + 1) =
      successes fails start n + if fails (start + n) then 0 else 1 := by
  rw [successes, List.range_succ, List.countP_append, List.countP_singleton]
  cases fails (start + n) <;> rfl

theorem successes_mono (fails : Nat → Bool) (start : Nat) {n k : Nat} (h : n ≤ k) :
    successes fails start n ≤ successes fails start k := by
  induction h with
  | refl => exact Nat.le_refl _
  | step _ ih =>
    rw [successes_succ]
    exact Nat.le_add_right_of_le ih

variable {uart dev peer}

@[simp] theorem transmitBranch_rxFifo (m : Machine ρ) :
    (transmitBranch uart dev peer m).rxFifo = m.rxFifo := by
  unfold transmitBranch
  split <;> rfl

@[simp] theorem transmitBranch_reads (m : Machine ρ) :
    (transmitBranch uart dev peer m).reads = m.reads := by
  unfold transmitBranch
  split <;> rfl

theorem receiveBranch_of_empty {m : Machine ρ} (h : m.rxFifo = []) :
    receiveBranch uart dev peer m = m := by
  rw [receiveBranch, rxReady, h]
  rfl

/-- A turn that finds bytes reads once, and if the read succeeds 64 bytes are gone. -/
theorem turn_reads {m : Machine ρ} (h : m.rxFifo ≠ []) :
    (turn uart dev peer m).reads = m.reads + 1 ∧
      (turn uart dev peer m).rxFifo =
        m.rxFifo.drop (64 * if uart.fails m.reads then 0 else 1) := by
  have hready : rxReady m = true := by simpa [rxReady] using h
  rw [turn, transmitBranch_reads, transmitBranch_rxFifo, receiveBranch, if_pos hready]
  split
  · exact ⟨rfl, rfl⟩
  · exact ⟨rfl, rfl⟩

/-- A turn is a pass of the handler. -/
theorem turn_pass (m : Machine ρ) : ∃ p : Pass,
    (turn uart dev peer m).toBoard = handlerPass dev peer m.toBoard p := by
  have hrx : ∃ rx, (receiveBranch uart dev peer m).toBoard = receive dev peer rx m.toBoard := by
    unfold receiveBranch
    split
    · split
      · exact ⟨.failed, rfl⟩
      · exact ⟨.fifo m.rxFifo, rfl⟩
    · exact ⟨.idle, rfl⟩
  obtain ⟨rx, hrx⟩ := hrx
  unfold turn transmitBranch
  split
  · exact ⟨⟨rx, some (uart.room (receiveBranch uart dev peer m))⟩, by rw [handlerPass, ← hrx]⟩
  · exact ⟨⟨rx, none⟩, hrx⟩

/-- What the transmit side still has to do: empty the ring, and disable the interrupt. -/
def stage (dev peer : Port) (b : Board ρ) : Nat :=
  (b.waiting peer).length + (b.txIrq dev).toNat

/-- A transmit branch entered with the interrupt enabled lowers the stage. -/
theorem stage_transmit (room : Nat) {b : Board ρ} (hirq : b.txIrq dev = true) :
    stage dev peer (transmit dev peer room b) < stage dev peer b := by
  have hget : ((b.peers peer).rb.get 64).2 = (b.waiting peer).take 64 := Marked.get_bytes _ _
  have hrest : ((b.peers peer).rb.get 64).1.bytes = (b.waiting peer).drop 64 :=
    Marked.bytes_get _ _
  have hring : ∀ b' : Board ρ, b'.peers =
      Function.update b.peers peer { b.peers peer with rb := ((b.peers peer).rb.get 64).1 } →
      (b'.waiting peer).length = (b.waiting peer).length - 64 := by
    intro b' hpeers
    rw [waiting_ring hpeers, if_pos rfl, hrest, List.length_drop]
  unfold transmit stage
  dsimp only
  by_cases hempty : ((b.peers peer).rb.get 64).2.length = 0
  · rw [if_pos hempty, hring _ rfl, hirq]
    show _ - 64 + (Function.update b.txIrq dev false dev).toNat < _ + 1
    rw [Function.update_self]
    show _ - 64 + 0 < _ + 1
    omega
  · rw [if_neg hempty, hring _ rfl]
    show _ - 64 + (b.txIrq dev).toNat < _
    rw [hget, List.length_take] at hempty
    omega

/-! ## §3 — when the handler returns. -/

/-- **`Behind m j s`** — `s` is where `j` reads have led from `m`. -/
def Behind (uart : Uart ρ) (m : Machine ρ) (j : Nat) (s : Machine ρ) : Prop :=
  s.reads = m.reads + j ∧ s.rxFifo = m.rxFifo.drop (64 * successes uart.fails m.reads j)

theorem Behind.turn {m s : Machine ρ} {j : Nat} (h : Behind uart m j s) (hne : s.rxFifo ≠ []) :
    Behind uart m (j + 1) (turn uart dev peer s) := by
  obtain ⟨hreads, hfifo⟩ := @turn_reads ρ _ uart dev peer s hne
  refine ⟨by rw [hreads, h.1, Nat.add_assoc], ?_⟩
  rw [hfifo, h.2, h.1, List.drop_drop, successes_succ, Nat.mul_add]

/-- Bytes are left exactly until the reads needed have succeeded. -/
theorem Behind.rxFifo_ne_nil_iff {m s : Machine ρ} {j : Nat} (h : Behind uart m j s) :
    s.rxFifo ≠ [] ↔ successes uart.fails m.reads j < readsNeeded m.rxFifo := by
  rw [h.2, ne_eq, List.drop_eq_nil_iff, readsNeeded]
  omega

/-- **When the handler returns.** Whatever the transmitter answers: it returns if and only if some
number of reads brings as many successes as the bytes waiting need. When it does, the RX FIFO is
empty, the TX interrupt disabled or the transmitter not ready, and the board one that passes of
`interruptHandler` leave. -/
theorem interrupt_returns_iff (uart : Uart ρ) (dev peer : Port) (m : Machine ρ) :
    ((∃ m', Returns (fun fuel => handlerLoop uart dev peer fuel m) m') ↔
      ∃ n, readsNeeded m.rxFifo ≤ successes uart.fails m.reads n) ∧
    ∀ m', Returns (fun fuel => handlerLoop uart dev peer fuel m) m' →
      m'.rxFifo = [] ∧ (m'.txIrq dev = true → uart.ready m' = false) ∧
        ∃ passes : List Pass, m'.toBoard = passes.foldl (handlerPass dev peer) m.toBoard := by
  refine ⟨?_, fun m' hreturns => ?_⟩
  rotate_left
  · have hturn : ∀ s : Machine ρ,
        (∃ passes : List Pass, s.toBoard = passes.foldl (handlerPass dev peer) m.toBoard) →
        isPending uart dev s = true → ∀ (_ : Nat) s₁, some (turn uart dev peer s) = some s₁ →
        ∃ passes : List Pass, s₁.toBoard = passes.foldl (handlerPass dev peer) m.toBoard := by
      rintro s ⟨passes, hs⟩ - _ s₁ ⟨⟩
      obtain ⟨p, hp⟩ := @turn_pass ρ _ uart dev peer s
      refine ⟨passes ++ [p], ?_⟩
      rw [hp, hs, List.foldl_append]
      rfl
    obtain ⟨hrun, hexit⟩ := invariant_of_returns_while hturn ⟨[], rfl⟩ hreturns
    obtain ⟨hfifo, hquiet⟩ : m'.rxFifo = [] ∧ (m'.txIrq dev = true → uart.ready m' = false) := by
      simpa [isPending, rxReady, txReady] using hexit
    exact ⟨hfifo, hquiet, hrun⟩
  constructor
  · rintro ⟨m', hreturns⟩
    by_contra hnever
    -- the bytes are never all read, so the interrupt stays pending
    have hless : ∀ j, successes uart.fails m.reads j < readsNeeded m.rxFifo :=
      fun j => Nat.lt_of_not_le fun hle => hnever ⟨j, hle⟩
    have hturn : ∀ s : Machine ρ, (∃ j, Behind uart m j s) → isPending uart dev s = true ∧
        ∀ (_ : Nat) s₁, some (turn uart dev peer s) = some s₁ → ∃ j, Behind uart m j s₁ := by
      rintro s ⟨j, hbehind⟩
      have hne : s.rxFifo ≠ [] := hbehind.rxFifo_ne_nil_iff.mpr (hless j)
      refine ⟨by simp [isPending, rxReady, hne], ?_⟩
      rintro _ s₁ ⟨⟩
      exact ⟨j + 1, hbehind.turn hne⟩
    exact not_returns_of_diverges (diverges_while hturn ⟨0, rfl, rfl⟩) m' hreturns
  · rintro ⟨n, hn⟩
    -- the variant: the reads until then, and the stage
    have hturn : ∀ s : Machine ρ, (∃ j, Behind uart m j s) → isPending uart dev s = true →
        ∃ s₁, Returns (fun _ => some (turn uart dev peer s)) s₁ ∧ (∃ j, Behind uart m j s₁) ∧
          Prod.Lex (· < ·) (· < ·) (m.reads + n - s₁.reads, stage dev peer s₁.toBoard)
            (m.reads + n - s.reads, stage dev peer s.toBoard) := by
      rintro s ⟨j, hbehind⟩ hpending
      by_cases hne : s.rxFifo = []
      · have htx : txReady uart dev s = true := by
          simpa [isPending, rxReady, hne] using hpending
        obtain ⟨hirq, -⟩ : s.txIrq dev = true ∧ uart.ready s = true := by simpa [txReady] using htx
        have heq : turn uart dev peer s =
            { s with toBoard := transmit dev peer (uart.room s) s.toBoard } := by
          rw [turn, receiveBranch_of_empty hne, transmitBranch, if_pos htx]
        refine ⟨_, ⟨0, fun _ _ => rfl⟩, ⟨j, ?_⟩, ?_⟩
        · rw [heq]
          exact hbehind
        · rw [heq]
          exact Prod.Lex.right _ (stage_transmit _ hirq)
      · have hmore : j < n := by
          by_contra hle
          have hmono := successes_mono uart.fails m.reads (Nat.le_of_not_lt hle)
          have hfew := hbehind.rxFifo_ne_nil_iff.mp hne
          omega
        refine ⟨_, ⟨0, fun _ _ => rfl⟩, ⟨j + 1, hbehind.turn hne⟩, Prod.Lex.left _ _ ?_⟩
        rw [(@Behind.turn ρ _ uart dev peer m s j hbehind hne).1, hbehind.1]
        omega
    obtain ⟨m', hreturns, -, -⟩ :=
      returns_while (Prod.lex Nat.lt_wfRel Nat.lt_wfRel).wf
        (fun s : Machine ρ => (m.reads + n - s.reads, stage dev peer s.toBoard)) hturn
        ⟨0, rfl, rfl⟩
    exact ⟨m', hreturns⟩

end EchoBot.MainCdcAcmComposite
