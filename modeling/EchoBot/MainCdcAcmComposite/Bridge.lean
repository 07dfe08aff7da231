/-
# EchoBot.MainCdcAcmComposite.Bridge — the two-port USB CDC ACM bridge

One handler serves both devices, and what it does with a byte is decided by pointers. Each device is
registered with the OTHER one's record; bytes read go to `peer->data->rb`, bytes to be sent come
from `peer->rb`, and the interrupt enabled is that of `peer->dev`. With the records crossed
(`Crossed`) the three agree: a byte received on a device goes to the ring with the device's own
number, which the other device drains.

Every byte carries the device it was received on and its number there. So the bytes sent can be
told apart even when they are equal, and "in order, once, and never back" is one statement about the
bytes received on the other device (`Bridged.bytes`).
-/
import EchoBot.Stream.Fill
import EchoBot.Zephyr.Ring
import Mathlib.Data.List.Nodup
import Mathlib.Logic.Function.Basic

namespace EchoBot.MainCdcAcmComposite

open EchoBot.Stream
open EchoBot.Zephyr
open scoped List

/-! ## §1 — the program. -/

/-- `RING_BUF_SIZE`. -/
def ringBufSize : Nat := 64 * 2

/-- The two CDC ACM devices, and the entries of `peers` with their numbers. -/
inductive Port where
  | acm0
  | acm1
  deriving DecidableEq, Repr

/-- Where a byte was received: the device, and how many bytes it had received before. -/
structure Origin where
  dev : Port
  index : Nat
  deriving DecidableEq, Repr

/-- A byte and its origin. -/
abbrev Byte := UInt8 × Origin

inductive Event where
  /-- `uart_fifo_read` gave `bytes`. -/
  | fifoRead (dev : Port) (bytes : List UInt8)
  /-- `uart_fifo_read` gave a negative value. -/
  | fifoReadFailed (dev : Port)
  /-- The log line about the bytes dropped. -/
  | drop (count : Nat)
  /-- `uart_fifo_fill(buf)`; the FIFO took the first `wrote` bytes. -/
  | fifoFill (dev : Port) (buf : List Byte) (wrote : Nat)
  /-- `peer->data` was NULL. -/
  | nullDeref
  deriving DecidableEq, Repr

/-- What a turn of the loop finds in the receiver. -/
inductive Rx where
  /-- `uart_irq_rx_ready` does not hold. -/
  | idle
  /-- `uart_fifo_read` will fail. -/
  | failed
  /-- The bytes in the FIFO. -/
  | fifo (bytes : List UInt8)
  deriving DecidableEq, Repr

/-- One turn of `while (uart_irq_update(dev) && uart_irq_is_pending(dev))`. -/
structure Pass where
  rx : Rx
  /-- Whether `uart_irq_tx_ready` holds then, and how many bytes `uart_fifo_fill` has room for. -/
  txReady : Option Nat
  deriving DecidableEq, Repr

section Program

variable {ρ : Type} [ByteRing ρ]

/-- `struct serial_peer`; `data` points to an entry of `peers` or is NULL. -/
structure SerialPeer (ρ : Type) [ByteRing ρ] where
  dev : Port
  data : Option Port
  rb : Marked ρ Origin

structure Board (ρ : Type) [ByteRing ρ] where
  peers : Port → SerialPeer ρ
  /-- The `user_data` with which `interrupt_handler` is registered for a device. -/
  userData : Port → Option Port
  /-- Whether the TX interrupt is enabled. -/
  txIrq : Port → Bool
  trace : List Event

/-- One more event. -/
def Board.log (b : Board ρ) (e : Event) : Board ρ := { b with trace := b.trace ++ [e] }

/-- An assignment to `peers[k]`. -/
def Board.setPeer (k : Port) (peer : SerialPeer ρ) (b : Board ρ) : Board ρ :=
  { b with peers := Function.update b.peers k peer }

/-- `uart_irq_tx_enable` and `uart_irq_tx_disable`. -/
def Board.setTxIrq (dev : Port) (enabled : Bool) (b : Board ρ) : Board ρ :=
  { b with txIrq := Function.update b.txIrq dev enabled }

/-- `uart_irq_callback_user_data_set(dev, interrupt_handler, &peers[k])`. -/
def Board.callbackUserDataSet (dev k : Port) (b : Board ρ) : Board ρ :=
  { b with userData := Function.update b.userData dev (some k) }

/-- The bytes received on a device. -/
def received (dev : Port) (t : List Event) : List UInt8 :=
  t.flatMap fun
    | .fifoRead d bytes => if d = dev then bytes else []
    | _ => []

/-- Bytes received on `dev` behind `start` others. -/
def stamp (dev : Port) (start : Nat) (bytes : List UInt8) : List Byte :=
  (bytes.zipIdx start).map fun x => (x.1, ⟨dev, x.2⟩)

/-- `ring_buf_put` and what follows it, for the bytes read. -/
def putReceived (peer : Port) (buf : List Byte) (b : Board ρ) : Board ρ :=
  match (b.peers peer).data with
  | none => b.log .nullDeref
  | some data =>
    let (rb, wrote) := (b.peers data).rb.put buf
    let b := b.setPeer data { b.peers data with rb }
    let b := if wrote < buf.length then b.log (.drop (buf.length - wrote)) else b
    if wrote = 0 then b else b.setTxIrq (b.peers peer).dev true

/-- The branch of `if (uart_irq_rx_ready(dev))`: at most `sizeof(buf)` bytes are read. -/
def receive (dev peer : Port) (rx : Rx) (b : Board ρ) : Board ρ :=
  match rx with
  | .idle => b
  | .failed => putReceived peer [] (b.log (.fifoReadFailed dev))
  | .fifo bytes =>
    putReceived peer (stamp dev (received dev b.trace).length (bytes.take 64))
      (b.log (.fifoRead dev (bytes.take 64)))

/-- The branch of `if (uart_irq_tx_ready(dev))`. The FIFO has room for `room` bytes; how many it
took is logged and not looked at. -/
def transmit (dev peer : Port) (room : Nat) (b : Board ρ) : Board ρ :=
  let (rb, buf) := (b.peers peer).rb.get 64
  let b := b.setPeer peer { b.peers peer with rb }
  if buf.length = 0 then b.setTxIrq dev false
  else b.log (.fifoFill dev buf (min room buf.length))

/-- One turn of the handler's loop. -/
def handlerPass (dev peer : Port) (b : Board ρ) (p : Pass) : Board ρ :=
  let b := receive dev peer p.rx b
  match p.txReady with
  | none => b
  | some room => transmit dev peer room b

/-- An interrupt of `dev`: `interrupt_handler` with the `user_data` registered. -/
def interruptHandler (dev : Port) (passes : List Pass) (b : Board ρ) : Board ρ :=
  match b.userData dev with
  | none => b
  | some peer => passes.foldl (handlerPass dev peer) b

/-- Some interrupts, in any order. -/
def run (interrupts : List (Port × List Pass)) (b : Board ρ) : Board ρ :=
  interrupts.foldl (fun b i => interruptHandler i.1 i.2 b) b

/-- `peers` as it is defined; nothing is known about the TX interrupts. -/
def boot (txIrq : Port → Bool) : Board ρ where
  peers k := { dev := k, data := none, rb := .init 0 }
  userData _ := none
  txIrq := txIrq
  trace := []

/-- `threadA` behind `uart_line_set`, up to the enabling of the RX interrupts. -/
def threadA (b : Board ρ) : Board ρ :=
  let b := b.setPeer .acm0 { b.peers .acm0 with data := some .acm1 }
  let b := b.setPeer .acm1 { b.peers .acm1 with data := some .acm0 }
  let b := b.setPeer .acm0 { b.peers .acm0 with rb := .init ringBufSize }
  let b := b.setPeer .acm1 { b.peers .acm1 with rb := .init ringBufSize }
  let b := b.callbackUserDataSet (b.peers .acm1).dev .acm0
  b.callbackUserDataSet (b.peers .acm0).dev .acm1

end Program

/-! ## §2 — what the bridge is to do. -/

/-- The other device. -/
def Port.other : Port → Port
  | .acm0 => .acm1
  | .acm1 => .acm0

/-- The bytes received on a device, each with its origin. -/
def receivedBytes (dev : Port) (t : List Event) : List Byte := stamp dev 0 (received dev t)

/-- The fills of a device's TX FIFO. -/
def fills (dev : Port) (t : List Event) : List (Fill Byte) :=
  t.filterMap fun
    | .fifoFill d buf wrote => if d = dev then some ⟨buf, wrote⟩ else none
    | _ => none

/-- The bytes sent on a device. -/
def sent (dev : Port) (t : List Event) : List Byte := taken (fills dev t)

variable {ρ : Type} [ByteRing ρ]

/-- **`BridgedTo d b`** — the device `d` has sent bytes of the other device only, in order and each
once; and while the ring its handler drains is not empty, its TX interrupt is enabled. -/
structure BridgedTo (d : Port) (b : Board ρ) : Prop where
  sublist : sent d b.trace <+ receivedBytes d.other b.trace
  bytes : (sent d b.trace).map Prod.fst <+ received d.other b.trace
  nodup : ((sent d b.trace).map Prod.snd).Nodup
  notBack : ∀ c ∈ sent d b.trace, c.2.dev ≠ d
  txIrq : ∀ peer, b.userData d = some peer → content (b.peers peer).rb.ring ≠ [] →
    b.txIrq d = true
  noNullDeref : Event.nullDeref ∉ b.trace

/-! ## §3 — the stages. -/

@[simp] theorem Port.other_other (d : Port) : d.other.other = d := by
  cases d <;> rfl

theorem Port.other_ne (d : Port) : d.other ≠ d := by
  cases d <;> decide

/-- There are two devices. -/
theorem Port.eq_other_of_ne {p d : Port} (h : p ≠ d) : p = d.other := by
  cases p <;> cases d <;> first | rfl | exact absurd rfl h

theorem received_append (d : Port) (t u : List Event) :
    received d (t ++ u) = received d t ++ received d u := List.flatMap_append

theorem fills_append (d : Port) (t u : List Event) : fills d (t ++ u) = fills d t ++ fills d u :=
  List.filterMap_append

theorem stamp_append (d : Port) (start : Nat) (bytes more : List UInt8) :
    stamp d start (bytes ++ more) = stamp d start bytes ++ stamp d (start + bytes.length) more := by
  rw [stamp, List.zipIdx_append, List.map_append]
  rfl

/-- The bytes of a stamped stream. -/
theorem map_fst_stamp (d : Port) (start : Nat) (bytes : List UInt8) :
    (stamp d start bytes).map Prod.fst = bytes := by
  rw [stamp, List.map_map]
  exact List.zipIdx_map_fst start bytes

/-- The origins of a stamped stream tell its bytes apart. -/
theorem nodup_stamp (d : Port) (start : Nat) (bytes : List UInt8) :
    ((stamp d start bytes).map Prod.snd).Nodup := by
  have horigins : (stamp d start bytes).map Prod.snd =
      (List.range' start bytes.length).map (Origin.mk d) := by
    rw [stamp, List.map_map, ← List.zipIdx_map_snd start bytes, List.map_map]
    rfl
  rw [horigins]
  apply List.Nodup.map
  · intro i j h
    exact congrArg Origin.index h
  · exact List.nodup_range'

theorem dev_of_mem_stamp {d : Port} {start : Nat} {bytes : List UInt8} {c : Byte}
    (hc : c ∈ stamp d start bytes) : c.2.dev = d := by
  obtain ⟨x, -, rfl⟩ := List.mem_map.mp hc
  rfl

/-- What is put into a ring: bytes the device just received. -/
theorem receivedBytes_fifoRead (d : Port) (t : List Event) (bytes : List UInt8) :
    receivedBytes d (t ++ [.fifoRead d bytes]) =
      receivedBytes d t ++ stamp d (received d t).length bytes := by
  rw [receivedBytes, received_append]
  show stamp d 0 (received d t ++ ((if d = d then bytes else []) ++ [])) = _
  rw [if_pos rfl, List.append_nil, stamp_append, Nat.zero_add]
  rfl

/-- The bytes in the ring of `peers[p]`. -/
def Board.waiting (p : Port) (b : Board ρ) : List Byte := (b.peers p).rb.bytes

/-- **`Crossed b`** — each device is registered with the record of the other one, which points back
to its own. -/
structure Crossed (b : Board ρ) : Prop where
  dev : ∀ p, (b.peers p).dev = p
  data : ∀ p, (b.peers p).data = some p.other
  userData : ∀ p, b.userData p = some p.other

section Ring

variable {b b' : Board ρ} {d : Port} {rb : Marked ρ Origin}

/-- A new content of one ring changes nothing else of the records. -/
theorem peers_ring (hpeers : b'.peers = Function.update b.peers d { b.peers d with rb := rb })
    (p : Port) :
    b'.peers p = { b.peers p with rb := if p = d then rb else (b.peers p).rb } := by
  rw [hpeers]
  by_cases hp : p = d
  · subst hp
    rw [Function.update_self, if_pos rfl]
  · rw [Function.update_of_ne hp, if_neg hp]

/-- So it leaves them crossed. -/
theorem Crossed.ring (hb : Crossed b) (hpeers : b'.peers =
    Function.update b.peers d { b.peers d with rb := rb }) (huser : b'.userData = b.userData) :
    Crossed b' := by
  refine ⟨?_, ?_, ?_⟩
  · intro p
    rw [peers_ring hpeers]
    exact hb.dev p
  · intro p
    rw [peers_ring hpeers]
    exact hb.data p
  · rw [huser]
    exact hb.userData

theorem waiting_ring (hpeers : b'.peers = Function.update b.peers d { b.peers d with rb := rb })
    (p : Port) : b'.waiting p = if p = d then rb.bytes else b.waiting p := by
  rw [Board.waiting, peers_ring hpeers]
  exact apply_ite Marked.bytes ..

end Ring

/-- **What `putReceived` does** once the records are crossed, whether it drops something or not: the
ring with the device's number takes a prefix, and if that is not empty the other device's TX
interrupt is enabled. -/
theorem putReceived_spec {b : Board ρ} (hb : Crossed b) (d : Port) (buf : List Byte) :
    ∃ wrote evs, (∀ p, received p evs = [] ∧ fills p evs = []) ∧ Event.nullDeref ∉ evs ∧
      Crossed (putReceived d.other buf b) ∧
      (putReceived d.other buf b).trace = b.trace ++ evs ∧
      (∀ p, (putReceived d.other buf b).waiting p =
        if p = d then b.waiting d ++ buf.take wrote else b.waiting p) ∧
      (putReceived d.other buf b).txIrq =
        if wrote = 0 then b.txIrq else Function.update b.txIrq d.other true := by
  have hdev : (Function.update b.peers d
      { b.peers d with rb := ((b.peers d).rb.put buf).1 } d.other).dev = d.other := by
    rw [Function.update_of_ne (Port.other_ne d)]
    exact hb.dev _
  have hirq : ∀ (n : Nat) (b : Board ρ), (if n = 0 then b else b.setTxIrq d.other true) =
      { b with txIrq := if n = 0 then b.txIrq else Function.update b.txIrq d.other true } := by
    intro n b
    split <;> rfl
  -- the three fields but for the log line, which does not matter to any of them
  obtain ⟨evs, hevs, hnull, heq⟩ : ∃ evs, (∀ p, received p evs = [] ∧ fills p evs = []) ∧
      Event.nullDeref ∉ evs ∧ putReceived d.other buf b =
        { b with
          peers := Function.update b.peers d { b.peers d with rb := ((b.peers d).rb.put buf).1 }
          txIrq := if ((b.peers d).rb.put buf).2 = 0 then b.txIrq
            else Function.update b.txIrq d.other true
          trace := b.trace ++ evs } := by
    unfold putReceived
    rw [hb.data, Port.other_other]
    dsimp only
    by_cases hdrop : ((b.peers d).rb.put buf).2 < buf.length
    · refine ⟨[.drop (buf.length - ((b.peers d).rb.put buf).2)], fun p => ⟨rfl, rfl⟩, by simp, ?_⟩
      rw [if_pos hdrop]
      change (if _ = 0 then _ else
        Board.setTxIrq (Function.update b.peers d _ d.other).dev true _) = _
      rw [hdev, hirq]
      rfl
    · refine ⟨[], fun p => ⟨rfl, rfl⟩, by simp, ?_⟩
      rw [if_neg hdrop, List.append_nil]
      change (if _ = 0 then _ else
        Board.setTxIrq (Function.update b.peers d _ d.other).dev true _) = _
      rw [hdev, hirq]
      rfl
  refine ⟨((b.peers d).rb.put buf).2, evs, hevs, hnull, ?_⟩
  rw [heq]
  refine ⟨hb.ring rfl rfl, rfl, ?_, rfl⟩
  intro p
  rw [waiting_ring (b := b) rfl, Marked.bytes_put]
  rfl

/-- **What `transmit` does** once the records are crossed: it takes bytes out of the ring with the
other device's number, or finds that ring empty. -/
theorem transmit_spec {b : Board ρ} (hb : Crossed b) (d : Port) (room : Nat) :
    Crossed (transmit d d.other room b) ∧
    ((b.waiting d.other = [] ∧ (transmit d d.other room b).trace = b.trace ∧
        (∀ p, (transmit d d.other room b).waiting p = b.waiting p) ∧
        (transmit d d.other room b).txIrq = Function.update b.txIrq d false) ∨
      ∃ wrote, (transmit d d.other room b).trace =
          b.trace ++ [.fifoFill d ((b.waiting d.other).take 64) wrote] ∧
        (∀ p, (transmit d d.other room b).waiting p =
          if p = d.other then (b.waiting d.other).drop 64 else b.waiting p) ∧
        (transmit d d.other room b).txIrq = b.txIrq) := by
  have hget : ((b.peers d.other).rb.get 64).2 = (b.waiting d.other).take 64 := Marked.get_bytes _ _
  have hrest : ((b.peers d.other).rb.get 64).1.bytes = (b.waiting d.other).drop 64 :=
    Marked.bytes_get _ _
  unfold transmit
  dsimp only
  by_cases hempty : ((b.peers d.other).rb.get 64).2.length = 0
  · have hnil : b.waiting d.other = [] := by
      rw [hget, List.length_eq_zero_iff, List.take_eq_nil_iff] at hempty
      rcases hempty with h | h
      · cases h
      · exact h
    rw [if_pos hempty]
    refine ⟨hb.ring rfl rfl, Or.inl ⟨hnil, rfl, ?_, rfl⟩⟩
    intro p
    rw [waiting_ring (b := b) rfl, hrest, hnil, List.drop_nil]
    split
    · next hp => rw [hp, hnil]
    · rfl
  · rw [if_neg hempty, hget]
    refine ⟨hb.ring rfl rfl, Or.inr ⟨_, rfl, ?_, rfl⟩⟩
    intro p
    rw [waiting_ring (b := b) rfl, hrest]

/-! ## §4 — every run. -/

/-- **`Bridged b`** — what holds in every state: a byte received on a device has been offered to the
other one, or waits in the ring, or was dropped; and a ring that is not empty has the TX interrupt
of the other device enabled. -/
structure Bridged (b : Board ρ) : Prop extends Crossed b where
  bytes : ∀ p, offered (fills p.other b.trace) ++ b.waiting p <+ receivedBytes p b.trace
  txIrq : ∀ p, b.waiting p ≠ [] → b.txIrq p.other = true
  noNullDeref : Event.nullDeref ∉ b.trace

section Stages

variable {b : Board ρ}

/-- **Bytes come in.** The event `e` is that `d` received `buf`, and the ring is offered them. -/
theorem Bridged.put (hb : Bridged b) (d : Port) {e : Event} {buf : List Byte}
    (hfills : ∀ p, fills p [e] = []) (hnull : e ≠ .nullDeref)
    (hreceived : ∀ p, receivedBytes p (b.trace ++ [e]) =
      receivedBytes p b.trace ++ if p = d then buf else []) :
    Bridged (putReceived d.other buf (b.log e)) := by
  have hlog : Crossed (b.log e) := ⟨hb.dev, hb.data, hb.userData⟩
  obtain ⟨wrote, evs, hevs, hnullEvs, hcrossed, htrace, hwaiting, hirq⟩ :=
    putReceived_spec hlog d buf
  change _ = (b.trace ++ [e]) ++ evs at htrace
  change _ = if wrote = 0 then b.txIrq else Function.update b.txIrq d.other true at hirq
  refine ⟨hcrossed, ?_, ?_, ?_⟩
  · intro p
    have hoffered : fills p.other ((b.trace ++ [e]) ++ evs) = fills p.other b.trace := by
      rw [fills_append, fills_append, hfills, (hevs p.other).2, List.append_nil, List.append_nil]
    have hrec : receivedBytes p ((b.trace ++ [e]) ++ evs) =
        receivedBytes p b.trace ++ if p = d then buf else [] := by
      rw [← hreceived, receivedBytes, received_append, (hevs p).1, List.append_nil]
      rfl
    rw [htrace, hoffered, hrec, hwaiting]
    by_cases hp : p = d
    · subst hp
      rw [if_pos rfl, if_pos rfl, ← List.append_assoc]
      exact (hb.bytes p).append (List.take_sublist _ _)
    · rw [if_neg hp, if_neg hp, List.append_nil]
      exact hb.bytes p
  · intro p hne
    rw [hwaiting] at hne
    rw [hirq]
    by_cases hp : p = d
    · subst hp
      rw [if_pos rfl] at hne
      split
      · next hzero =>
        -- nothing was stored, so the ring was not empty before
        rw [hzero, List.take_zero, List.append_nil] at hne
        exact hb.txIrq p hne
      · exact Function.update_self ..
    · rw [if_neg hp] at hne
      have hother : p.other ≠ d.other := by
        rw [Port.eq_other_of_ne hp]
        exact Port.other_ne _
      split
      · exact hb.txIrq p hne
      · rw [Function.update_of_ne hother]
        exact hb.txIrq p hne
  · rw [htrace]
    simp [hb.noNullDeref, hnullEvs, hnull.symm]

/-- **Bytes go out.** The device `d` drains the ring with the number of the other one. -/
theorem Bridged.transmit (hb : Bridged b) (d : Port) (room : Nat) :
    Bridged (transmit d d.other room b) := by
  obtain ⟨hcrossed, ⟨hnil, htrace, hwaiting, hirq⟩ | ⟨wrote, htrace, hwaiting, hirq⟩⟩ :=
    transmit_spec hb.toCrossed d room
  · refine ⟨hcrossed, ?_, ?_, ?_⟩
    · intro p
      rw [htrace, hwaiting]
      exact hb.bytes p
    · intro p hne
      rw [hwaiting] at hne
      -- the ring that was found empty is not this one
      have hp : p = d := by
        by_contra hp
        rw [Port.eq_other_of_ne hp] at hne
        exact hne hnil
      subst hp
      rw [hirq, Function.update_of_ne (Port.other_ne p)]
      exact hb.txIrq p hne
    · rw [htrace]
      exact hb.noNullDeref
  · refine ⟨hcrossed, ?_, ?_, ?_⟩
    · intro p
      have hreceived : ∀ buf, receivedBytes p (b.trace ++ [.fifoFill d buf wrote]) =
          receivedBytes p b.trace := by
        intro buf
        rw [receivedBytes, received_append]
        exact congrArg (stamp p 0) (List.append_nil _)
      rw [htrace, hreceived, hwaiting, fills_append, offered_append]
      by_cases hp : p = d.other
      · -- what leaves the ring is offered to the FIFO
        subst hp
        have hfill : offered (fills d.other.other
            [.fifoFill d ((b.waiting d.other).take 64) wrote]) =
              (b.waiting d.other).take 64 := by
          simp [fills, offered]
        rw [if_pos rfl, hfill, List.append_assoc, List.take_append_drop]
        exact hb.bytes d.other
      · have hfill : fills p.other [.fifoFill d ((b.waiting d.other).take 64) wrote] = [] := by
          have hne : d ≠ p.other := by
            rintro rfl
            exact hp (Port.other_other p).symm
          simp [fills, hne]
        rw [if_neg hp, hfill, show offered ([] : List (Fill Byte)) = [] from rfl, List.append_nil]
        exact hb.bytes p
    · intro p hne
      rw [hirq]
      apply hb.txIrq
      intro hnil
      apply hne
      rw [hwaiting]
      split
      · next hp => rw [← hp, hnil, List.drop_nil]
      · exact hnil
    · rw [htrace]
      simp [hb.noNullDeref]

/-- One turn of a handler. -/
theorem Bridged.pass (hb : Bridged b) (d : Port) (p : Pass) :
    Bridged (handlerPass d d.other b p) := by
  have hrx : Bridged (receive d d.other p.rx b) := by
    cases p.rx with
    | idle => exact hb
    | failed =>
      apply hb.put d (fun _ => rfl) (by simp)
      intro q
      rw [receivedBytes, received_append, ite_self, List.append_nil]
      exact congrArg (stamp q 0) (List.append_nil _)
    | fifo bytes =>
      apply hb.put d (fun _ => rfl) (by simp)
      intro q
      by_cases hq : q = d
      · subst hq
        rw [if_pos rfl, receivedBytes_fifoRead]
      · rw [if_neg hq, receivedBytes, received_append, List.append_nil]
        have hnone : received q [.fifoRead d (bytes.take 64)] = [] := by
          simp [received, Ne.symm hq]
        rw [hnone, List.append_nil]
        rfl
  unfold handlerPass
  cases p.txReady with
  | none => exact hrx
  | some room => exact hrx.transmit d room

/-- The wiring of `threadA`. -/
theorem bridged_threadA (txIrq : Port → Bool) : Bridged (threadA (boot txIrq) : Board ρ) := by
  have hempty : ∀ p, (threadA (boot txIrq) : Board ρ).waiting p = [] := by
    intro p
    cases p
    · exact Marked.bytes_init _
    · exact Marked.bytes_init _
  refine ⟨⟨?_, ?_, ?_⟩, ?_, ?_, List.not_mem_nil⟩
  · intro p
    cases p <;> rfl
  · intro p
    cases p <;> rfl
  · intro p
    cases p <;> rfl
  · intro p
    rw [hempty]
    exact List.Sublist.slnil
  · intro p hne
    exact absurd (hempty p) hne

/-- **Every run keeps the bridge.** -/
theorem bridged_run (interrupts : List (Port × List Pass)) (txIrq : Port → Bool) :
    Bridged (run interrupts (threadA (boot txIrq)) : Board ρ) := by
  refine List.foldlRecOn interrupts _ (bridged_threadA txIrq) fun b hb i _ => ?_
  obtain ⟨d, passes⟩ := i
  show Bridged (interruptHandler d passes b)
  rw [interruptHandler, hb.userData]
  exact List.foldlRecOn passes _ hb fun b hb p _ => hb.pass d p

end Stages

/-- **The bridge.** In the state behind every sequence of interrupts of the two devices, whatever is
received, whatever reads fail and however little the FIFOs take: each device has sent bytes received
on the other one only, in their order and each at most once; and its TX interrupt is enabled while
the ring its handler drains is not empty. -/
theorem bridge (interrupts : List (Port × List Pass)) (txIrq : Port → Bool) (d : Port) :
    BridgedTo d (run interrupts (threadA (boot txIrq)) : Board ρ) := by
  have hb : Bridged (run interrupts (threadA (boot txIrq)) : Board ρ) :=
    bridged_run interrupts txIrq
  generalize (run interrupts (threadA (boot txIrq)) : Board ρ) = b at hb
  have hsub : sent d b.trace <+ receivedBytes d.other b.trace := by
    have hother := hb.bytes d.other
    rw [Port.other_other] at hother
    exact (taken_sublist_offered _).trans ((List.sublist_append_left _ _).trans hother)
  refine ⟨hsub, ?_, ?_, ?_, ?_, hb.noNullDeref⟩
  · have hbytes := hsub.map Prod.fst
    rwa [receivedBytes, map_fst_stamp] at hbytes
  · exact (nodup_stamp d.other 0 _).sublist (hsub.map Prod.snd)
  · intro c hc
    rw [dev_of_mem_stamp (hsub.subset hc)]
    exact Port.other_ne d
  · intro peer hpeer hne
    obtain rfl : d.other = peer := Option.some.inj ((hb.userData d).symm.trans hpeer)
    have hirq := hb.txIrq d.other
    rw [Port.other_other] at hirq
    apply hirq
    intro hnil
    apply hne
    rw [← Marked.map_fst_bytes, show (b.peers d.other).rb.bytes = [] from hnil]
    rfl

end EchoBot.MainCdcAcmComposite
