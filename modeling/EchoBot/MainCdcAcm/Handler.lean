/-
# EchoBot.MainCdcAcm.Handler — the echo's interrupt handler against a device that goes on sending

`interrupt_handler` loops while an interrupt is pending, and bytes may come while it does: each call
of `uart_irq_update` takes in what came since the last. The loops end all the same, whatever the
transmitter answers (`interrupt_returns`): no burst is endless, and with the RX FIFO empty each turn
takes something out of the ring or disables the TX interrupt.

A turn reads everything and sends 16 bytes. So even with a transmitter that is always ready and
takes every buffer whole, the ring is a leaky bucket: what is echoed of the bursts is what a bucket
of 256 bytes with a drain of 16 admits (`echo_is_leaky_bucket`).
-/
import EchoBot.MainCdcAcm.Echo
import EchoBot.Program.While
import EchoBot.Stream.Bucket

namespace EchoBot.MainCdcAcm

open EchoBot.Program
open EchoBot.Stream
open EchoBot.Zephyr

/-! ## §1 — the machine. -/

section Machine

variable {ρ : Type}

/-- A board and the state of its UART. -/
structure Machine (ρ : Type) extends Board ρ where
  /-- The bytes waiting. -/
  rxFifo : List UInt8
  /-- The bytes that will have come at the next calls of `uart_irq_update`, one list for each. -/
  coming : List (List UInt8)

/-- How a transmitter behaves: how many bytes it has room for, and whether it is ready. -/
structure Transmitter (ρ : Type) where
  room : Machine ρ → Nat
  ready : Machine ρ → Bool

variable (uart : Transmitter ρ)

/-- `uart_irq_update`. -/
def irqUpdate (m : Machine ρ) : Machine ρ :=
  match m.coming with
  | [] => m
  | s :: coming => { m with rxFifo := m.rxFifo ++ s, coming }

/-- `uart_irq_rx_ready`. -/
def rxReady (m : Machine ρ) : Bool := !m.rxFifo.isEmpty

/-- `uart_irq_tx_ready`: the TX interrupt is enabled, and the transmitter ready. -/
def txReady (m : Machine ρ) : Bool := m.txIrq && uart.ready m

/-- `uart_irq_is_pending`. -/
def isPending (m : Machine ρ) : Bool := rxReady m || txReady uart m

variable [ByteRing ρ]

/-- The body of `while (uart_irq_rx_ready(dev))`. -/
def readByte (m : Machine ρ) : Machine ρ :=
  match m.rxFifo with
  | [] => m
  | c :: rxFifo => { m with toBoard := sendCdcAcm [c] m.toBoard, rxFifo }

/-- The inner loop. -/
def receiveLoop (fuel : Nat) (m : Machine ρ) : Option (Machine ρ) :=
  whileFuel rxReady (fun _ m => some (readByte m)) fuel m

/-- The branch of `if (uart_irq_tx_ready(dev))`. -/
def transmitBranch (m : Machine ρ) : Machine ρ :=
  if txReady uart m then { m with toBoard := transmit (uart.room m) m.toBoard } else m

/-- `interrupt_handler`. -/
def handlerLoop (fuel : Nat) (m : Machine ρ) : Option (Machine ρ) :=
  whileFuel (isPending uart)
    (fun fuel m => (receiveLoop fuel m).map fun m => irqUpdate (transmitBranch uart m)) fuel
    (irqUpdate m)

/-- The device: an interrupt is raised for every burst, as long as one is to come. -/
def device (fuel : Nat) (m : Machine ρ) : Option (Machine ρ) :=
  whileFuel (fun m => !m.coming.isEmpty || isPending uart m) (handlerLoop uart) fuel m

/-- The machine once the bytes waiting have been received. -/
def drainRx (m : Machine ρ) : Machine ρ :=
  { m with
    toBoard := m.rxFifo.foldl (fun b c => sendCdcAcm [c] b) m.toBoard
    rxFifo := [] }

/-- One turn of the handler. -/
def turn (m : Machine ρ) : Machine ρ := irqUpdate (transmitBranch uart (drainRx m))

/-! ## §2 — the handler returns. -/

theorem drainRx_readByte (m : Machine ρ) : drainRx (readByte m) = drainRx m := by
  unfold readByte
  cases hfifo : m.rxFifo with
  | nil => rfl
  | cons c rxFifo =>
    simp only [drainRx, hfifo]
    rfl

theorem drainRx_of_empty {m : Machine ρ} (hfifo : m.rxFifo = []) : drainRx m = m := by
  cases m with
  | mk b rxFifo coming =>
    subst hfifo
    rfl

/-- **The inner loop returns**, and has received the bytes that waited, in order. -/
theorem receiveLoop_returns (m : Machine ρ) :
    Returns (fun fuel => receiveLoop fuel m) (drainRx m) := by
  -- every byte read leaves less to read, and the same machine in the end
  have hturn : ∀ s : Machine ρ, drainRx s = drainRx m → rxReady s = true →
      ∃ s₁, Returns (fun _ => some (readByte s)) s₁ ∧
        drainRx s₁ = drainRx m ∧ s₁.rxFifo.length < s.rxFifo.length := by
    intro s hs hready
    refine ⟨_, ⟨0, fun _ _ => rfl⟩, (drainRx_readByte s).trans hs, ?_⟩
    unfold readByte
    cases hfifo : s.rxFifo with
    | nil => simp [rxReady, hfifo] at hready
    | cons c rxFifo => exact Nat.lt_succ_self _
  obtain ⟨s', hreturns, hs', hexit⟩ :=
    returns_while Nat.lt_wfRel.wf (fun s : Machine ρ => s.rxFifo.length) hturn rfl
  have hempty : s'.rxFifo = [] := by simpa [rxReady] using hexit
  rw [← hs', drainRx_of_empty hempty]
  exact hreturns

theorem turn_returns (m : Machine ρ) :
    Returns (fun fuel => (receiveLoop fuel m).map fun m => irqUpdate (transmitBranch uart m))
      (turn uart m) :=
  (receiveLoop_returns m).map fun m => irqUpdate (transmitBranch uart m)

omit [ByteRing ρ] in
/-- What is still to be read is the same bytes in the same order. -/
theorem unread_irqUpdate (m : Machine ρ) :
    (irqUpdate m).rxFifo ++ (irqUpdate m).coming.flatten = m.rxFifo ++ m.coming.flatten := by
  unfold irqUpdate
  split
  · rfl
  · next s coming hcoming => rw [hcoming, List.flatten_cons, List.append_assoc]

omit [ByteRing ρ] in
@[simp] theorem irqUpdate_toBoard (m : Machine ρ) : (irqUpdate m).toBoard = m.toBoard := by
  unfold irqUpdate
  split <;> rfl

@[simp] theorem transmitBranch_rxFifo (m : Machine ρ) :
    (transmitBranch uart m).rxFifo = m.rxFifo := by
  unfold transmitBranch
  split <;> rfl

@[simp] theorem transmitBranch_coming (m : Machine ρ) :
    (transmitBranch uart m).coming = m.coming := by
  unfold transmitBranch
  split <;> rfl

/-- A turn is a pass of the handler: it reads the bytes waiting. -/
theorem turn_pass (m : Machine ρ) :
    ∃ p : Pass, p.rx = m.rxFifo ∧ (turn uart m).toBoard = handlerPass m.toBoard p := by
  unfold turn transmitBranch
  cases hready : txReady uart (drainRx m) with
  | false => exact ⟨⟨m.rxFifo, none⟩, rfl, by simp [drainRx, handlerPass]⟩
  | true =>
    exact ⟨⟨m.rxFifo, some (uart.room (drainRx m))⟩, rfl, by simp [drainRx, handlerPass]⟩

/-- What the transmit side still has to do: empty the ring, and disable the interrupt. -/
def stage (b : Board ρ) : Nat := (content b.rb).length + b.txIrq.toNat

/-- A transmit branch entered with the interrupt enabled lowers the stage. -/
theorem stage_transmit (room : Nat) {b : Board ρ} (hirq : b.txIrq = true) :
    stage (transmit room b) < stage b := by
  have hget : (ringGet b.rb 16).2 = (content b.rb).take 16 := ByteRing.ringGet_bytes _ _
  have hrest : content (ringGet b.rb 16).1 = (content b.rb).drop 16 := ByteRing.content_ringGet _ _
  unfold transmit stage
  by_cases hempty : (ringGet b.rb 16).2.length = 0
  · simp only [hempty, if_true, hrest, hirq, List.length_drop]
    show _ - 16 + 0 < _ + 1
    omega
  · simp only [hempty, if_false, Board.log, hrest, hirq, List.length_drop]
    rw [hget, List.length_take] at hempty
    omega

/-- **The variant of the outer loop**: the bursts to come, the bytes waiting, and the stage. -/
def variant (m : Machine ρ) : Nat × Nat × Nat := (m.coming.length, m.rxFifo.length, stage m.toBoard)

/-- The order of the variants. -/
def Lower : Nat × Nat × Nat → Nat × Nat × Nat → Prop :=
  Prod.Lex (· < ·) (Prod.Lex (· < ·) (· < ·))

theorem wellFounded_lower : WellFounded Lower :=
  (Prod.lex Nat.lt_wfRel (Prod.lex Nat.lt_wfRel Nat.lt_wfRel)).wf

theorem variant_turn {m : Machine ρ} (hpending : isPending uart m = true) :
    Lower (variant (turn uart m)) (variant m) := by
  unfold turn irqUpdate
  cases hcoming : m.coming with
  | cons s coming =>
    have hdrained : (transmitBranch uart (drainRx m)).coming = s :: coming := by
      rw [transmitBranch_coming]
      exact hcoming
    rw [hdrained]
    refine Prod.Lex.left _ _ ?_
    rw [hcoming]
    exact Nat.lt_succ_self _
  | nil =>
    have hdrained : (transmitBranch uart (drainRx m)).coming = m.coming := transmitBranch_coming ..
    rw [hdrained, hcoming]
    dsimp only
    rw [variant, variant, hdrained]
    refine Prod.Lex.right _ ?_
    rw [transmitBranch_rxFifo]
    cases hwaiting : m.rxFifo with
    | cons c rxFifo => exact Prod.Lex.left _ _ (Nat.succ_pos _)
    | nil =>
      -- nothing waits, so the transmit side made the interrupt pending
      have htx : txReady uart m = true := by simpa [isPending, rxReady, hwaiting] using hpending
      obtain ⟨hirq, -⟩ : m.txIrq = true ∧ uart.ready m = true := by simpa [txReady] using htx
      rw [drainRx_of_empty hwaiting, transmitBranch, if_pos htx, hwaiting]
      exact Prod.Lex.right _ (stage_transmit _ hirq)

/-- **The handler returns.** Whatever waits in the RX FIFO and in the ring, whatever bursts come
while it runs, and whatever the transmitter answers: both loops end, with the RX FIFO empty and the
TX interrupt disabled or the transmitter not ready; every byte that came by then was read, once and
in order; and the board is one that a run of `interruptHandler` leaves. -/
theorem interrupt_returns (m : Machine ρ) :
    ∃ m', Returns (fun fuel => handlerLoop uart fuel m) m' ∧ m'.rxFifo = [] ∧
      (m'.txIrq = true → uart.ready m' = false) ∧
      ∃ passes, m'.toBoard = interruptHandler passes m.toBoard ∧
        passes.flatMap Pass.rx ++ m'.coming.flatten = m.rxFifo ++ m.coming.flatten := by
  have hturn : ∀ s : Machine ρ, (∃ passes, s.toBoard = interruptHandler passes m.toBoard ∧
        passes.flatMap Pass.rx ++ (s.rxFifo ++ s.coming.flatten) =
          m.rxFifo ++ m.coming.flatten) → isPending uart s = true →
      ∃ s₁, Returns (fun fuel =>
          (receiveLoop fuel s).map fun m => irqUpdate (transmitBranch uart m)) s₁ ∧
        (∃ passes, s₁.toBoard = interruptHandler passes m.toBoard ∧
          passes.flatMap Pass.rx ++ (s₁.rxFifo ++ s₁.coming.flatten) =
            m.rxFifo ++ m.coming.flatten) ∧
        Lower (variant s₁) (variant s) := by
    rintro s ⟨passes, hboard, hbytes⟩ hpending
    obtain ⟨p, hrx, hpass⟩ := turn_pass uart s
    refine ⟨_, turn_returns uart s, ⟨passes ++ [p], ?_, ?_⟩, variant_turn uart hpending⟩
    · rw [hpass, hboard, interruptHandler, interruptHandler, List.foldl_append]
      rfl
    · rw [turn, unread_irqUpdate, transmitBranch_rxFifo, transmitBranch_coming,
        List.flatMap_append, List.append_assoc, List.flatMap_singleton, hrx, ← hbytes]
      rfl
  obtain ⟨m', hreturns, ⟨passes, hboard, hbytes⟩, hexit⟩ :=
    returns_while wellFounded_lower variant hturn (s := irqUpdate m)
      ⟨[], irqUpdate_toBoard m, unread_irqUpdate m⟩
  obtain ⟨hfifo, hquiet⟩ : m'.rxFifo = [] ∧ (m'.txIrq = true → uart.ready m' = false) := by
    simpa [isPending, rxReady, txReady] using hexit
  refine ⟨m', hreturns, hfifo, hquiet, passes, hboard, ?_⟩
  rwa [hfifo, List.nil_append] at hbytes

/-! ## §3 — the echo as a leaky bucket. -/

omit [ByteRing ρ] in
/-- A transmitter that is always ready and has room for what the handler offers. -/
structure Transmitter.Eager (uart : Transmitter ρ) : Prop where
  ready : ∀ m, uart.ready m = true
  room : ∀ m, 16 ≤ uart.room m

end Machine

section Bucket

variable {ρ : Type} [BoundedByteRing ρ]

/-- The bytes sent and those that wait in the ring. -/
def passedOn (b : Board ρ) : List UInt8 := taken (fills b.trace) ++ content b.rb

/-- **Bytes received**: the ring takes what it has room for, and nothing is sent. -/
theorem receive_bytes {b : Board ρ} (hb : Drained b) (bytes : List UInt8) :
    let b' := bytes.foldl (fun b c => sendCdcAcm [c] b) b
    Drained b' ∧ byteCapacity b'.rb = byteCapacity b.rb ∧ fills b'.trace = fills b.trace ∧
      content b'.rb = content b.rb ++ bytes.take (byteCapacity b.rb - (content b.rb).length) := by
  induction bytes generalizing b with
  | nil => exact ⟨hb, rfl, rfl, by simp⟩
  | cons c bytes ih =>
    obtain ⟨evs, -, hfills, heq⟩ := sendCdcAcm_eq [c] b
    have hstored : content (sendCdcAcm [c] b).rb =
        content b.rb ++ [c].take (byteCapacity b.rb - (content b.rb).length) := by
      rw [heq]
      show content (ringPut b.rb [c]).1 = _
      rw [ByteRing.content_ringPut, BoundedByteRing.ringPut_room, Nat.min_comm, ← List.take_take,
        List.take_length]
    have hcap : byteCapacity (sendCdcAcm [c] b).rb = byteCapacity b.rb := by
      rw [heq]
      exact BoundedByteRing.byteCapacity_ringPut ..
    have hsent : fills (sendCdcAcm [c] b).trace = fills b.trace := by
      rw [heq]
      show fills (b.trace ++ evs) = _
      rw [fills_append, hfills, List.append_nil]
    obtain ⟨hdrained, hcap', hfills', hcontent⟩ := ih (hb.sendCdcAcm [c])
    refine ⟨hdrained, hcap'.trans hcap, hfills'.trans hsent, hcontent.trans ?_⟩
    rw [hcap, hstored]
    cases hroom : byteCapacity b.rb - (content b.rb).length with
    | zero =>
      have hfull : byteCapacity b.rb - (content b.rb ++ ([] : List UInt8)).length = 0 := by
        rwa [List.append_nil]
      rw [List.take_zero, hfull, List.take_zero, List.take_zero, List.append_nil]
    | succ n =>
      have hnext : byteCapacity b.rb - (content b.rb ++ [c]).length = n := by
        rw [List.length_append, List.length_singleton]
        omega
      rw [List.take_succ_cons, List.take_nil, hnext, List.take_succ_cons, List.append_assoc]
      rfl

/-- **A turn with an eager transmitter** sends 16 bytes of the ring, if there are as many. -/
theorem transmitBranch_eager {uart : Transmitter ρ} (huart : uart.Eager) {m : Machine ρ}
    (hm : Drained m.toBoard) :
    Drained (transmitBranch uart m).toBoard ∧
      byteCapacity (transmitBranch uart m).rb = byteCapacity m.rb ∧
      passedOn (transmitBranch uart m).toBoard = passedOn m.toBoard ∧
      content (transmitBranch uart m).rb = (content m.rb).drop 16 := by
  have hget : (ringGet m.rb 16).2 = (content m.rb).take 16 := ByteRing.ringGet_bytes _ _
  have hrest : content (ringGet m.rb 16).1 = (content m.rb).drop 16 := ByteRing.content_ringGet _ _
  have hcap : byteCapacity (ringGet m.rb 16).1 = byteCapacity m.rb :=
    BoundedByteRing.byteCapacity_ringGet ..
  unfold transmitBranch
  cases hirq : m.txIrq with
  | false =>
    -- the interrupt is disabled, so the ring is empty
    have hnil : content m.rb = [] := by
      by_contra hne
      rw [hm.irq hne] at hirq
      cases hirq
    have htx : txReady uart m = false := by rw [txReady, hirq, Bool.false_and]
    rw [htx]
    exact ⟨hm, rfl, rfl, by simp [hnil]⟩
  | true =>
    have htx : txReady uart m = true := by rw [txReady, hirq, huart.ready, Bool.true_and]
    rw [htx, if_pos rfl]
    refine ⟨hm.transmit _, ?_⟩
    show byteCapacity (transmit (uart.room m) m.toBoard).rb = _ ∧
      passedOn (transmit (uart.room m) m.toBoard) = _ ∧
      content (transmit (uart.room m) m.toBoard).rb = _
    unfold transmit passedOn
    by_cases hempty : (ringGet m.rb 16).2.length = 0
    · have hnil : content m.rb = [] := by
        rw [hget, List.length_eq_zero_iff, List.take_eq_nil_iff] at hempty
        rcases hempty with h | h
        · cases h
        · exact h
      simp only [hempty, if_true]
      refine ⟨hcap, ?_, hrest⟩
      rw [hrest, hnil, List.drop_nil]
    · simp only [hempty, if_false]
      refine ⟨hcap, ?_, hrest⟩
      show taken (fills (m.trace ++ [_])) ++ content (ringGet m.rb 16).1 = _
      have hwhole : Fill.Whole ⟨(content m.rb).take 16,
          min (uart.room m) ((content m.rb).take 16).length⟩ := by
        have hroom := huart.room m
        show ((content m.rb).take 16).length ≤ min _ _
        rw [List.length_take]
        omega
      rw [fills_append, taken_append, hrest, List.append_assoc, hget]
      show taken (fills m.trace) ++ ((Fill.symbols ⟨_, _⟩ ++ []) ++ _) = _
      rw [List.append_nil, Fill.symbols_of_whole hwhole, List.take_append_drop]

omit [BoundedByteRing ρ] in
/-- With nothing waiting, the next burst is the first to come. -/
theorem admitted_irqUpdate {m : Machine ρ} (hfifo : m.rxFifo = []) (cap drain level : Nat) :
    admitted cap drain level ((irqUpdate m).rxFifo :: (irqUpdate m).coming) =
      admitted cap drain level m.coming := by
  obtain ⟨b, rxFifo, coming⟩ := m
  subst hfifo
  cases coming with
  | nil => simp [irqUpdate]
  | cons s coming => rfl

/-- **`Bucket total m`** — the bytes sent, those in the ring, and what a bucket of its level admits
of the bursts to come are `total`. -/
structure Bucket (total : List UInt8) (m : Machine ρ) : Prop where
  drained : Drained m.toBoard
  capacity : byteCapacity m.rb = ringBufSize
  level : (content m.rb).length ≤ ringBufSize
  total : passedOn m.toBoard ++
    admitted ringBufSize 16 (content m.rb).length (m.rxFifo :: m.coming) = total

variable {uart : Transmitter ρ} {total : List UInt8} {m : Machine ρ}

/-- **A turn keeps the bucket.** -/
theorem Bucket.turn (huart : uart.Eager) (h : Bucket total m) : Bucket total (turn uart m) := by
  obtain ⟨hdrained, hcap, hfills, hcontent⟩ := receive_bytes h.drained m.rxFifo
  obtain ⟨hdrained', hcap', hpassed, hrest⟩ :=
    @transmitBranch_eager _ _ _ huart (drainRx m) hdrained
  have hboard : (MainCdcAcm.turn uart m).toBoard = (transmitBranch uart (drainRx m)).toBoard :=
    irqUpdate_toBoard _
  have hlater : ∀ level, admitted ringBufSize 16 level
      ((MainCdcAcm.turn uart m).rxFifo :: (MainCdcAcm.turn uart m).coming) =
      admitted ringBufSize 16 level m.coming := by
    intro level
    rw [MainCdcAcm.turn, admitted_irqUpdate, transmitBranch_coming]
    · rfl
    · exact transmitBranch_rxFifo ..
  have hlevel := h.level
  refine ⟨hboard ▸ hdrained', ?_, ?_, ?_⟩
  · rw [hboard]
    exact hcap'.trans (hcap.trans h.capacity)
  · rw [hboard, hrest, show content (drainRx m).rb = _ from hcontent, h.capacity, List.length_drop,
      List.length_append, List.length_take]
    omega
  · rw [hlater, hboard, hpassed, hrest, ← h.total, admitted_cons, ← List.append_assoc]
    congr 1
    · show taken (fills (drainRx m).trace) ++ content (drainRx m).rb = _
      rw [show fills (drainRx m).trace = fills m.trace from hfills,
        show content (drainRx m).rb = _ from hcontent, h.capacity, passedOn, List.append_assoc]
    · rw [show content (drainRx m).rb = _ from hcontent, h.capacity, List.length_drop,
        List.length_append, List.length_take]
      congr 1
      omega

/-- **`Quiet m`** — nothing waits and nothing is pending. -/
structure Quiet (m : Machine ρ) : Prop where
  rxFifo : m.rxFifo = []
  ring : content m.rb = []
  txIrq : m.txIrq = false

/-- The handler with an eager transmitter leaves nothing behind. -/
theorem handlerLoop_eager (huart : uart.Eager) (h : Bucket total m) (hquiet : Quiet m)
    (hcoming : m.coming ≠ []) :
    ∃ m', Returns (fun fuel => handlerLoop uart fuel m) m' ∧ Bucket total m' ∧ Quiet m' ∧
      m'.coming.length < m.coming.length := by
  have hstart : Bucket total (irqUpdate m) ∧ (irqUpdate m).coming.length < m.coming.length := by
    refine ⟨⟨?_, ?_, ?_, ?_⟩, ?_⟩
    · rw [irqUpdate_toBoard]
      exact h.drained
    · rw [irqUpdate_toBoard]
      exact h.capacity
    · rw [irqUpdate_toBoard]
      exact h.level
    · rw [irqUpdate_toBoard, admitted_irqUpdate hquiet.rxFifo, ← h.total, admitted_cons,
        hquiet.rxFifo, hquiet.ring]
      simp
    · unfold irqUpdate
      cases hm : m.coming with
      | nil => exact absurd hm hcoming
      | cons s coming => exact Nat.lt_succ_self _
  have hfewer : ∀ s : Machine ρ, (MainCdcAcm.turn uart s).coming.length ≤ s.coming.length := by
    intro s
    have hsame : (transmitBranch uart (drainRx s)).coming = s.coming := transmitBranch_coming ..
    unfold MainCdcAcm.turn irqUpdate
    split
    · exact Nat.le_of_eq (congrArg List.length hsame)
    · next t coming hcons =>
      rw [← hsame, hcons]
      exact Nat.le_succ _
  have hturn : ∀ s : Machine ρ, Bucket total s ∧ s.coming.length < m.coming.length →
      isPending uart s = true →
      ∃ s₁, Returns (fun fuel =>
          (receiveLoop fuel s).map fun m => irqUpdate (transmitBranch uart m)) s₁ ∧
        (Bucket total s₁ ∧ s₁.coming.length < m.coming.length) ∧ Lower (variant s₁) (variant s) :=
    fun s hs hpending => ⟨_, turn_returns uart s,
      ⟨hs.1.turn huart, Nat.lt_of_le_of_lt (hfewer s) hs.2⟩, variant_turn uart hpending⟩
  obtain ⟨m', hreturns, ⟨hbucket, hless⟩, hexit⟩ :=
    returns_while wellFounded_lower variant hturn hstart
  obtain ⟨hfifo, hirq⟩ : m'.rxFifo = [] ∧ m'.txIrq = false := by
    simpa [isPending, rxReady, txReady, huart.ready] using hexit
  refine ⟨m', hreturns, hbucket, ⟨hfifo, ?_, hirq⟩, hless⟩
  by_contra hne
  rw [hbucket.drained.irq hne] at hirq
  cases hirq

/-- The device comes to rest, and has sent what the bucket admits. -/
theorem device_admits (huart : uart.Eager) (bursts : List (List UInt8)) :
    ∃ m', Returns (fun fuel => device uart fuel ⟨init, [], bursts⟩) m' ∧ m'.coming = [] ∧
      Quiet m' ∧ taken (fills m'.trace) = admitted 256 16 0 bursts := by
  let m : Machine ρ := ⟨init, [], bursts⟩
  have hinit : content (init : Board ρ).rb = [] := ByteRing.content_ringInit _
  have hstart : Bucket (admitted 256 16 0 bursts) m ∧ Quiet m := by
    refine ⟨⟨drained_run [], BoundedByteRing.byteCapacity_ringInit _, ?_, ?_⟩, rfl, hinit, rfl⟩
    · show (content (init : Board ρ).rb).length ≤ _
      rw [hinit]
      exact Nat.zero_le _
    · show taken (fills []) ++ content (init : Board ρ).rb ++
        admitted 256 16 (content (init : Board ρ).rb).length ([] :: bursts) = _
      rw [hinit]
      rfl
  have hturn : ∀ s : Machine ρ, Bucket (admitted 256 16 0 bursts) s ∧ Quiet s →
      (!s.coming.isEmpty || isPending uart s) = true →
      ∃ s₁, Returns (fun fuel => handlerLoop uart fuel s) s₁ ∧
        (Bucket (admitted 256 16 0 bursts) s₁ ∧ Quiet s₁) ∧ s₁.coming.length < s.coming.length := by
    rintro s ⟨hbucket, hquiet⟩ hmore
    have hcoming : s.coming ≠ [] := by
      simpa [isPending, rxReady, txReady, hquiet.rxFifo, hquiet.txIrq] using hmore
    obtain ⟨s₁, hreturns, hbucket₁, hquiet₁, hless⟩ :=
      handlerLoop_eager huart hbucket hquiet hcoming
    exact ⟨s₁, hreturns, ⟨hbucket₁, hquiet₁⟩, hless⟩
  obtain ⟨m', hreturns, ⟨hbucket, hquiet⟩, hexit⟩ :=
    returns_while Nat.lt_wfRel.wf (fun s : Machine ρ => s.coming.length) hturn hstart
  have hcoming : m'.coming = [] := by
    simpa using (Bool.or_eq_false_iff.mp hexit).1
  refine ⟨m', hreturns, hcoming, hquiet, ?_⟩
  rw [← hbucket.total, hcoming, passedOn, hquiet.ring, hquiet.rxFifo]
  simp

/-- **The echo is a leaky bucket.** With a transmitter that is always ready and takes every buffer
whole, and whatever bursts come, each while the handler runs or to raise it anew: the device comes
to rest, and what it has sent is what a bucket of 256 bytes with a drain of 16 admits. So the bursts
are echoed whole exactly when the level never passes 256. -/
theorem echo_is_leaky_bucket (huart : uart.Eager) (bursts : List (List UInt8)) :
    ∃ m', Returns (fun fuel => device uart fuel ⟨init, [], bursts⟩) m' ∧ m'.coming = [] ∧
      Quiet m' ∧ taken (fills m'.trace) = admitted 256 16 0 bursts ∧
      (taken (fills m'.trace) = bursts.flatten ↔ Fits 256 16 0 bursts) := by
  obtain ⟨m', hreturns, hcoming, hquiet, hsent⟩ := device_admits huart bursts
  refine ⟨m', hreturns, hcoming, hquiet, hsent, ?_⟩
  rw [hsent]
  exact admitted_eq_flatten_iff (Nat.zero_le _)

theorem echo_is_leaky_bucket_two :
    ∃ m', Returns (fun fuel => device ⟨fun _ => 64, fun _ => true⟩ fuel
        (⟨init, [], [[0x61, 0x62], [0x63]]⟩ : Machine OctetRing)) m' ∧ m'.coming = [] ∧
      Quiet m' ∧ taken (fills m'.trace) = admitted 256 16 0 [[0x61, 0x62], [0x63]] ∧
      (taken (fills m'.trace) = [[0x61, 0x62], [0x63]].flatten ↔
        Fits 256 16 0 [[(0x61 : UInt8), 0x62], [0x63]]) :=
  echo_is_leaky_bucket
    (⟨fun _ => rfl, fun _ => (by decide : 16 ≤ 64)⟩ : Transmitter.Eager ⟨fun _ => 64, _⟩)
    [[0x61, 0x62], [0x63]]

/-- **What is echoed whole**: bursts of at most 16 bytes, however many; and no more than the ring
and 16 bytes for each burst behind the first. -/
theorem echoed_whole_bounds (huart : uart.Eager) (bursts : List (List UInt8)) :
    ∃ m', Returns (fun fuel => device uart fuel ⟨init, [], bursts⟩) m' ∧
      ((∀ s ∈ bursts, s.length ≤ 16) → taken (fills m'.trace) = bursts.flatten) ∧
      (taken (fills m'.trace) = bursts.flatten →
        bursts.flatten.length ≤ 256 + 16 * (bursts.length - 1)) := by
  obtain ⟨m', hreturns, -, -, hsent⟩ := device_admits huart bursts
  have hwhole : taken (fills m'.trace) = bursts.flatten ↔ Fits 256 16 0 bursts := by
    rw [hsent]
    exact admitted_eq_flatten_iff (Nat.zero_le _)
  refine ⟨m', hreturns, fun hshort => ?_, fun heq => ?_⟩
  · exact hwhole.mpr (fits_of_length_le (by decide) hshort)
  · have hrate := (hwhole.mp heq).length_le (Nat.zero_le _)
    rwa [Nat.zero_add] at hrate

/-- Five full USB packets one after the other are echoed, the sixth is not. -/
example : Fits 256 16 0 (List.replicate 5 (List.replicate 64 (0 : UInt8))) ∧
    ¬ Fits 256 16 0 (List.replicate 6 (List.replicate 64 (0 : UInt8))) := by
  decide +kernel

end Bucket

end EchoBot.MainCdcAcm
