/-
# EchoBot.MainCdcAcm.Echo — bytes through the USB CDC ACM echo

Received bytes go into the ring buffer `sb.rb`, the interrupt handler drains it in pieces of 16 into
the TX FIFO. Both stages may accept a part: `ring_buf_put` reports it and the rest is logged as
dropped; `uart_fifo_fill` reports it too, but there the rest is gone from the ring buffer already,
and nobody looks.

`Drained` is what holds in every state of every run: the bytes accepted are the bytes OFFERED to the
FIFO and the content of the ring, and a ring that is not empty has the TX interrupt enabled. So the
equation with the bytes the FIFO TOOK holds exactly when it took every buffer whole
(`echo_conserves_iff`).
-/
import EchoBot.Stream.Fill
import EchoBot.Zephyr.Kernel
import EchoBot.Zephyr.Ring

namespace EchoBot.MainCdcAcm

open EchoBot.Stream
open EchoBot.Zephyr

variable {ρ : Type}

/-! ## §1 — the program. -/

/-- `RING_BUF_SIZE`. -/
def ringBufSize : Nat := 256

inductive Event where
  /-- `ring_buf_put(data)` stored the first `wrote` bytes. -/
  | ringBufPut (data : List UInt8) (wrote : Nat)
  /-- The log line about the bytes dropped. -/
  | drop (count : Nat)
  /-- `uart_fifo_fill(buf)`; the FIFO took the first `wrote` bytes. -/
  | fifoFill (buf : List UInt8) (wrote : Nat)
  deriving DecidableEq, Repr

structure Board (ρ : Type) where
  rb : ρ
  /-- Whether the TX interrupt is enabled. -/
  txIrq : Bool
  trace : List Event

/-- One more event. -/
def Board.log (b : Board ρ) (e : Event) : Board ρ := { b with trace := b.trace ++ [e] }

@[simp] theorem Board.log_trace (b : Board ρ) (e : Event) : (b.log e).trace = b.trace ++ [e] := rfl

variable [ByteRing ρ]

/-- `send_cdc_acm`. -/
def sendCdcAcm (data : List UInt8) (b : Board ρ) : Board ρ :=
  let (rb, wrote) := ringPut b.rb data
  let b := { b with rb }.log (.ringBufPut data wrote)
  let b := if wrote < data.length then b.log (.drop (data.length - wrote)) else b
  if wrote = 0 then b else { b with txIrq := true }

/-- The branch of `if (uart_irq_tx_ready(dev))`. The FIFO has room for `room` bytes; how many it
took is logged and not looked at. -/
def transmit (room : Nat) (b : Board ρ) : Board ρ :=
  let (rb, buf) := ringGet b.rb 16
  let b := { b with rb }
  if buf.length = 0 then { b with txIrq := false }
  else b.log (.fifoFill buf (min room buf.length))

/-- One turn of the handler's outer loop. -/
def handlerPass (b : Board ρ) (p : Pass) : Board ρ :=
  let b := p.rx.foldl (fun b c => sendCdcAcm [c] b) b
  match p.txReady with
  | none => b
  | some room => transmit room b

/-- `interrupt_handler`. -/
def interruptHandler (passes : List Pass) (b : Board ρ) : Board ρ := passes.foldl handlerPass b

inductive Step where
  /-- Somebody calls `send_cdc_acm`. -/
  | sendCdcAcm (data : List UInt8)
  | interrupt (passes : List Pass)

def step (b : Board ρ) : Step → Board ρ
  | .sendCdcAcm data => sendCdcAcm data b
  | .interrupt passes => interruptHandler passes b

def run (steps : List Step) (b : Board ρ) : Board ρ := steps.foldl step b

/-- The board once the handler is set up. -/
def init : Board ρ where
  rb := ringInit ringBufSize
  txIrq := false
  trace := []

/-- The bytes `ring_buf_put` accepted. -/
def accepted (t : List Event) : List UInt8 :=
  t.flatMap fun
    | .ringBufPut data wrote => data.take wrote
    | _ => []

/-- The fills of the TX FIFO. -/
def fills (t : List Event) : List (Fill UInt8) :=
  t.filterMap fun
    | .fifoFill buf wrote => some ⟨buf, wrote⟩
    | _ => none

omit [ByteRing ρ] in
@[simp] theorem accepted_append (t u : List Event) : accepted (t ++ u) = accepted t ++ accepted u :=
  List.flatMap_append

omit [ByteRing ρ] in
@[simp] theorem fills_append (t u : List Event) : fills (t ++ u) = fills t ++ fills u :=
  List.filterMap_append

/-! ## §2 — what holds in every state. -/

/-- **`Drained b`** — the bytes accepted have been offered to the FIFO or are in the ring, in order,
and a ring that is not empty has the TX interrupt enabled. -/
structure Drained (b : Board ρ) : Prop where
  bytes : offered (fills b.trace) ++ content b.rb = accepted b.trace
  irq : content b.rb ≠ [] → b.txIrq = true

/-- What a `send_cdc_acm` call does, whether it drops something or not. -/
theorem sendCdcAcm_eq (data : List UInt8) (b : Board ρ) :
    ∃ evs, accepted evs = data.take (ringPut b.rb data).2 ∧ fills evs = [] ∧
      sendCdcAcm data b =
        { rb := (ringPut b.rb data).1
          txIrq := if (ringPut b.rb data).2 = 0 then b.txIrq else true
          trace := b.trace ++ evs } := by
  have hirq : ∀ (n : Nat) (b : Board ρ), (if n = 0 then b else { b with txIrq := true }) =
      { b with txIrq := if n = 0 then b.txIrq else true } := by
    intro n b
    split <;> rfl
  unfold sendCdcAcm
  dsimp only
  rw [hirq]
  by_cases hdrop : (ringPut b.rb data).2 < data.length
  · refine ⟨[.ringBufPut data (ringPut b.rb data).2,
      .drop (data.length - (ringPut b.rb data).2)], by simp [accepted], rfl, ?_⟩
    rw [if_pos hdrop]
    simp only [Board.log, List.append_assoc, List.singleton_append]
  · refine ⟨[.ringBufPut data (ringPut b.rb data).2], by simp [accepted], rfl, ?_⟩
    rw [if_neg hdrop]
    rfl

theorem Drained.sendCdcAcm {b : Board ρ} (hb : Drained b) (data : List UInt8) :
    Drained (sendCdcAcm data b) := by
  obtain ⟨evs, haccepted, hfills, heq⟩ := sendCdcAcm_eq data b
  rw [heq]
  refine ⟨?_, ?_⟩
  · rw [fills_append, accepted_append, hfills, haccepted, List.append_nil, ByteRing.content_ringPut,
      ← List.append_assoc, hb.bytes]
  · intro hne
    dsimp only at hne ⊢
    split
    · next hzero =>
      -- nothing was stored, so the ring was not empty before
      rw [ByteRing.content_ringPut, hzero, List.take_zero, List.append_nil] at hne
      exact hb.irq hne
    · rfl

theorem Drained.transmit {b : Board ρ} (hb : Drained b) (room : Nat) :
    Drained (transmit room b) := by
  have hget : (ringGet b.rb 16).2 = (content b.rb).take 16 := ByteRing.ringGet_bytes _ _
  have hrest : content (ringGet b.rb 16).1 = (content b.rb).drop 16 := ByteRing.content_ringGet _ _
  unfold MainCdcAcm.transmit
  by_cases hempty : (ringGet b.rb 16).2.length = 0
  · have hnil : content b.rb = [] := by
      rw [hget, List.length_eq_zero_iff, List.take_eq_nil_iff] at hempty
      rcases hempty with h | h
      · cases h
      · exact h
    simp only [hempty, if_true]
    refine ⟨?_, fun hne => absurd ?_ hne⟩
    · show offered (fills b.trace) ++ content (ringGet b.rb 16).1 = _
      rw [hrest, hnil, List.drop_nil, ← hb.bytes, hnil]
    · show content (ringGet b.rb 16).1 = []
      rw [hrest, hnil, List.drop_nil]
  · simp only [hempty, if_false]
    refine ⟨?_, fun hne => hb.irq ?_⟩
    · show offered (fills (b.trace ++ [.fifoFill (ringGet b.rb 16).2 _])) ++
        content (ringGet b.rb 16).1 = accepted (b.trace ++ [_])
      rw [fills_append, offered_append, accepted_append, hrest]
      show offered (fills b.trace) ++ ((ringGet b.rb 16).2 ++ []) ++ _ = accepted b.trace ++ []
      rw [List.append_nil, List.append_nil, List.append_assoc, hget, List.take_append_drop,
        hb.bytes]
    · intro hnil
      apply hne
      show content (ringGet b.rb 16).1 = []
      rw [hrest, hnil, List.drop_nil]

/-- **Every state of every run is drained into the FIFO or waits in the ring.** -/
theorem drained_run (steps : List Step) : Drained (run steps init : Board ρ) := by
  have hpass : ∀ (b : Board ρ) (p : Pass), Drained b → Drained (handlerPass b p) := by
    intro b p hb
    have hrx : Drained (p.rx.foldl (fun b c => MainCdcAcm.sendCdcAcm [c] b) b) :=
      List.foldlRecOn p.rx _ hb fun b hb c _ => hb.sendCdcAcm [c]
    unfold handlerPass
    cases p.txReady with
    | none => exact hrx
    | some room => exact hrx.transmit room
  have hinit : Drained (init : Board ρ) :=
    ⟨by simp [init, fills, accepted, offered], by simp [init]⟩
  refine List.foldlRecOn steps _ hinit fun b hb s _ => ?_
  cases s with
  | sendCdcAcm data => exact hb.sendCdcAcm data
  | interrupt passes => exact List.foldlRecOn passes _ hb fun b hb p _ => hpass b p hb

/-! ## §3 — what the FIFO took. -/

/-- **`Conserved b`** — the bytes the FIFO took and the content of the ring are the bytes
`ring_buf_put` accepted, and a ring that is not empty has the TX interrupt enabled. -/
def Conserved (b : Board ρ) : Prop :=
  taken (fills b.trace) ++ content b.rb = accepted b.trace ∧ (content b.rb ≠ [] → b.txIrq = true)

/-- **When the echo conserves its bytes.** In the state any run reaches the equation holds if and
only if the FIFO took every buffer of the run whole. -/
theorem echo_conserves_iff (steps : List Step) :
    Conserved (run steps init : Board ρ) ↔
      ∀ f ∈ fills (run steps init : Board ρ).trace, f.Whole := by
  have hdrained : Drained (run steps init : Board ρ) := drained_run steps
  rw [Conserved, and_iff_left hdrained.irq, ← hdrained.bytes, List.append_left_inj]
  exact taken_eq_offered_iff

/-- A FIFO with room for one byte takes one of two, and the other one is gone. -/
theorem short_fill_loses_byte :
    ¬ ∀ steps : List Step, Conserved (run steps init : Board OctetRing) := by
  intro hclaim
  have hbytes := (hclaim [.sendCdcAcm [0x61, 0x62], .interrupt [⟨[], some 1⟩]]).1
  exact absurd hbytes (by decide)

end EchoBot.MainCdcAcm
