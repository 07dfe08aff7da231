/-
# EchoBot.MainCdcAcmComposite.Conservation — when the bridge loses nothing

`bridge` says that what a device sends is a part of what the other one received. Here is the rest of
the account: a byte received was offered to the other device, waits in a ring, or was counted in a
log line `Drop %zu bytes` (`Balanced`). So the bridge is lossless exactly when there was no such
line and every buffer was taken whole by the TX FIFO (`bridge_conserves_iff`).
-/
import EchoBot.MainCdcAcmComposite.Bridge
import Mathlib.Order.Nat

namespace EchoBot.MainCdcAcmComposite

open EchoBot.Stream
open EchoBot.Zephyr
open scoped List

/-! ## §1 — counting both directions. -/

/-- The bytes in the log lines about bytes dropped. -/
def dropped : List Event → Nat
  | [] => 0
  | .drop count :: t => count + dropped t
  | _ :: t => dropped t

/-- A number for each device, added. -/
def both (f : Port → Nat) : Nat := f .acm0 + f .acm1

theorem dropped_append (t u : List Event) : dropped (t ++ u) = dropped t + dropped u := by
  induction t with
  | nil => exact (Nat.zero_add _).symm
  | cons e t ih =>
    cases e with
    | drop count => rw [List.cons_append, dropped, dropped, ih, Nat.add_assoc]
    | fifoRead dev bytes => exact ih
    | fifoReadFailed dev => exact ih
    | fifoFill dev buf wrote => exact ih
    | nullDeref => exact ih

/-- Every line counts, so without a count there is no line with bytes in it. -/
theorem le_dropped_of_mem {t : List Event} {count : Nat} (h : Event.drop count ∈ t) :
    count ≤ dropped t := by
  obtain ⟨before, after, rfl⟩ := List.append_of_mem h
  rw [dropped_append, dropped]
  omega

theorem dropped_eq_zero {t : List Event} (h : ∀ count, Event.drop count ∉ t) : dropped t = 0 := by
  induction t with
  | nil => rfl
  | cons e t ih =>
    have hrest := ih fun count hmem => h count (List.mem_cons_of_mem _ hmem)
    cases e with
    | drop count => exact absurd List.mem_cons_self (h count)
    | fifoRead dev bytes => exact hrest
    | fifoReadFailed dev => exact hrest
    | fifoFill dev buf wrote => exact hrest
    | nullDeref => exact hrest

theorem both_eq (f : Port → Nat) (d : Port) : both f = f d + f d.other := by
  cases d with
  | acm0 => rfl
  | acm1 => exact Nat.add_comm _ _

/-- Where each number is at least another one, equal sums make them equal. -/
theorem eq_of_both_le {f g : Port → Nat} (hle : ∀ d, f d ≤ g d) (hboth : both g ≤ both f)
    (d : Port) : f d = g d := by
  have hd := hle d
  have hother := hle d.other
  rw [both_eq f d, both_eq g d] at hboth
  omega

variable {ρ : Type} [ByteRing ρ]

/-- The bytes received on a device. -/
def receivedCount (t : List Event) (d : Port) : Nat := (received d t).length

/-- The bytes for a device's peer: those offered to its TX FIFO, and those that wait. -/
def handledCount (b : Board ρ) (d : Port) : Nat :=
  (offered (fills d.other b.trace) ++ b.waiting d).length

/-- **`Balanced b`** — a byte received was offered to the other device, or waits, or was dropped;
and a log line about bytes dropped is about some. -/
structure Balanced (b : Board ρ) : Prop extends Crossed b where
  count : both (receivedCount b.trace) = both (handledCount b) + dropped b.trace
  some : ∀ count, Event.drop count ∈ b.trace → 0 < count

/-! ## §2 — every step keeps the balance. -/

section Steps

variable {b : Board ρ}

/-- **What is put is stored or counted.** -/
theorem putReceived_count (hb : Crossed b) (d : Port) (buf : List Byte) :
    Crossed (putReceived d.other buf b) ∧
      (∃ evs, (putReceived d.other buf b).trace = b.trace ++ evs ∧
        (∀ p, received p evs = [] ∧ fills p evs = []) ∧
        (∀ count, Event.drop count ∈ evs → 0 < count) ∧
        ((putReceived d.other buf b).waiting d).length + dropped evs =
          (b.waiting d).length + buf.length) ∧
      (putReceived d.other buf b).waiting d.other = b.waiting d.other := by
  obtain ⟨-, -, -, -, hcrossed, -, -⟩ := putReceived_spec hb d buf
  have hstored : ((b.peers d).rb.put buf).1.bytes =
      b.waiting d ++ buf.take ((b.peers d).rb.put buf).2 := Marked.bytes_put _ _
  have hle : ((b.peers d).rb.put buf).2 ≤ buf.length := by
    have hput := ByteRing.ringPut_le (b.peers d).rb.ring (buf.map Prod.fst)
    rwa [List.length_map] at hput
  -- but for the log line and the TX interrupt, the ring is all that changes
  have hring : ∀ (b' : Board ρ), b'.peers =
      Function.update b.peers d { b.peers d with rb := ((b.peers d).rb.put buf).1 } →
      (b'.waiting d).length = (b.waiting d).length + ((b.peers d).rb.put buf).2 ∧
        b'.waiting d.other = b.waiting d.other := by
    intro b' hpeers
    rw [waiting_ring hpeers, waiting_ring hpeers, if_pos rfl, if_neg (Port.other_ne d), hstored,
      List.length_append, List.length_take, Nat.min_eq_left hle]
    exact ⟨rfl, rfl⟩
  obtain ⟨evs, hevs, hsome, hcount, htrace, hpeers⟩ : ∃ evs,
      (∀ p, received p evs = [] ∧ fills p evs = []) ∧
      (∀ count, Event.drop count ∈ evs → 0 < count) ∧
      dropped evs = buf.length - ((b.peers d).rb.put buf).2 ∧
      (putReceived d.other buf b).trace = b.trace ++ evs ∧
      (putReceived d.other buf b).peers =
        Function.update b.peers d { b.peers d with rb := ((b.peers d).rb.put buf).1 } := by
    unfold putReceived
    rw [hb.data, Port.other_other]
    dsimp only
    by_cases hdrop : ((b.peers d).rb.put buf).2 < buf.length
    · refine ⟨[.drop (buf.length - ((b.peers d).rb.put buf).2)], fun p => ⟨rfl, rfl⟩, ?_, rfl, ?_⟩
      · intro count hmem
        obtain rfl : count = _ := Event.drop.inj (List.mem_singleton.mp hmem)
        omega
      · rw [if_pos hdrop]
        split <;> exact ⟨rfl, rfl⟩
    · refine ⟨[], fun p => ⟨rfl, rfl⟩, by simp, ?_, ?_⟩
      · show 0 = _
        omega
      · rw [if_neg hdrop, List.append_nil]
        split <;> exact ⟨rfl, rfl⟩
  obtain ⟨hlen, hother⟩ := hring _ hpeers
  refine ⟨hcrossed, ⟨evs, htrace, hevs, hsome, ?_⟩, hother⟩
  rw [hlen, hcount]
  omega

/-- **Bytes come in.** The event `e` is that `d` received `buf`. -/
theorem Balanced.put (hb : Balanced b) (d : Port) {e : Event} {buf : List Byte}
    (hfills : ∀ p, fills p [e] = []) (hdrop : dropped [e] = 0) (hno : ∀ count, e ≠ .drop count)
    (hreceived : ∀ p, (received p [e]).length = if p = d then buf.length else 0) :
    Balanced (putReceived d.other buf (b.log e)) := by
  have hlog : Crossed (b.log e) := ⟨hb.dev, hb.data, hb.userData⟩
  obtain ⟨hcrossed, ⟨evs, htrace, hevs, hsome, hlen⟩, hother⟩ := putReceived_count hlog d buf
  change _ = (b.trace ++ [e]) ++ evs at htrace
  change _ + _ = (b.waiting d).length + buf.length at hlen
  change _ = b.waiting d.other at hother
  have hrec : ∀ p, receivedCount (putReceived d.other buf (b.log e)).trace p =
      receivedCount b.trace p + if p = d then buf.length else 0 := by
    intro p
    rw [receivedCount, htrace, received_append, received_append, (hevs p).1, List.append_nil,
      List.length_append, hreceived]
    rfl
  have hhandled : ∀ p, handledCount (putReceived d.other buf (b.log e)) p =
      (offered (fills p.other b.trace)).length +
        ((putReceived d.other buf (b.log e)).waiting p).length := by
    intro p
    rw [handledCount, htrace, fills_append, fills_append, hfills, (hevs p.other).2,
      List.append_nil, List.append_nil, List.length_append]
  have hlost : dropped (putReceived d.other buf (b.log e)).trace =
      dropped b.trace + dropped evs := by
    rw [htrace, dropped_append, dropped_append, hdrop, Nat.add_zero]
  have hold : ∀ p, handledCount b p =
      (offered (fills p.other b.trace)).length + (b.waiting p).length := by
    intro p
    rw [handledCount, List.length_append]
  refine ⟨hcrossed, ?_, ?_⟩
  · have hcount := hb.count
    rw [both_eq _ d, both_eq _ d] at hcount ⊢
    rw [hrec, hrec, if_pos rfl, if_neg (Port.other_ne d), hhandled, hhandled, hother, hlost]
    rw [hold, hold] at hcount
    omega
  · intro count hmem
    rw [htrace, List.mem_append, List.mem_append] at hmem
    rcases hmem with (hmem | hmem) | hmem
    · exact hb.some count hmem
    · exact absurd (List.mem_singleton.mp hmem).symm (hno count)
    · exact hsome count hmem

/-- **Bytes go out**: from the ring to the FIFO. -/
theorem Balanced.transmit (hb : Balanced b) (d : Port) (room : Nat) :
    Balanced (transmit d d.other room b) := by
  obtain ⟨hcrossed, ⟨-, htrace, hwaiting, -⟩ | ⟨wrote, htrace, hwaiting, -⟩⟩ :=
    transmit_spec hb.toCrossed d room
  · have hhandled : handledCount (MainCdcAcmComposite.transmit d d.other room b) =
        handledCount b := by
      funext p
      rw [handledCount, handledCount, htrace, hwaiting]
    refine ⟨hcrossed, ?_, htrace ▸ hb.some⟩
    rw [hhandled, htrace]
    exact hb.count
  · have hhandled : handledCount (MainCdcAcmComposite.transmit d d.other room b) =
        handledCount b := by
      funext p
      rw [handledCount, handledCount, htrace, hwaiting, fills_append, offered_append]
      by_cases hp : p = d.other
      · subst hp
        have hfill : offered (fills d.other.other
            [.fifoFill d ((b.waiting d.other).take 64) wrote]) = (b.waiting d.other).take 64 := by
          simp [fills, offered]
        rw [if_pos rfl, hfill, List.append_assoc, List.take_append_drop]
      · have hne : d ≠ p.other := by
          rintro rfl
          exact hp (Port.other_other p).symm
        have hfill : fills p.other [.fifoFill d ((b.waiting d.other).take 64) wrote] = [] := by
          simp [fills, hne]
        rw [if_neg hp, hfill, show offered ([] : List (Fill Byte)) = [] from rfl, List.append_nil]
    have hreceived : receivedCount (MainCdcAcmComposite.transmit d d.other room b).trace =
        receivedCount b.trace := by
      funext p
      rw [receivedCount, htrace, received_append]
      exact congrArg List.length (List.append_nil _)
    refine ⟨hcrossed, ?_, ?_⟩
    · rw [hhandled, hreceived, htrace, dropped_append]
      exact hb.count
    · intro count hmem
      rw [htrace, List.mem_append] at hmem
      rcases hmem with hmem | hmem
      · exact hb.some count hmem
      · cases List.mem_singleton.mp hmem

/-- One turn of a handler. -/
theorem Balanced.pass (hb : Balanced b) (d : Port) (p : Pass) :
    Balanced (handlerPass d d.other b p) := by
  have hrx : Balanced (receive d d.other p.rx b) := by
    cases p.rx with
    | idle => exact hb
    | failed => exact hb.put d (fun _ => rfl) rfl (fun _ h => nomatch h) fun q => (ite_self 0).symm
    | fifo bytes =>
      refine hb.put d (fun _ => rfl) rfl (fun _ h => nomatch h) fun q => ?_
      have hlen := congrArg List.length
        (map_fst_stamp d (received d b.trace).length (bytes.take 64))
      rw [List.length_map] at hlen
      rw [hlen]
      by_cases hq : q = d
      · simp [received, hq]
      · simp [received, hq, Ne.symm hq]
  unfold handlerPass
  cases p.txReady with
  | none => exact hrx
  | some room => exact hrx.transmit d room

theorem balanced_run (interrupts : List (Port × List Pass)) (txIrq : Port → Bool) :
    Balanced (run interrupts (threadA (boot txIrq)) : Board ρ) := by
  have hstart : Balanced (threadA (boot txIrq) : Board ρ) := by
    refine ⟨(bridged_threadA txIrq).toCrossed, ?_, fun count h => nomatch h⟩
    have hempty : ∀ p, (threadA (boot txIrq) : Board ρ).waiting p = [] := by
      intro p
      cases p
      · exact Marked.bytes_init _
      · exact Marked.bytes_init _
    rw [both_eq _ .acm0, both_eq _ .acm0, handledCount, handledCount, hempty, hempty]
    rfl
  refine List.foldlRecOn interrupts _ hstart fun b hb i _ => ?_
  obtain ⟨d, passes⟩ := i
  show Balanced (interruptHandler d passes b)
  rw [interruptHandler, hb.userData]
  exact List.foldlRecOn passes _ hb fun b hb p _ => hb.pass d p

end Steps

/-! ## §3 — the lossless runs. -/

/-- **When the bridge loses nothing.** In the state behind every sequence of interrupts: the bytes
each device sent, and those that wait for it, are the bytes received on the other device, if and
only if the FIFOs took every buffer whole and no byte was ever dropped. -/
theorem bridge_conserves_iff (interrupts : List (Port × List Pass)) (txIrq : Port → Bool) :
    let b : Board ρ := run interrupts (threadA (boot txIrq))
    (∀ d : Port, sent d.other b.trace ++ b.waiting d = receivedBytes d b.trace) ↔
      (∀ d, ∀ f ∈ fills d b.trace, f.Whole) ∧ ∀ count, Event.drop count ∉ b.trace := by
  intro b
  have hbridged : Bridged b := bridged_run interrupts txIrq
  have hbalanced : Balanced b := balanced_run interrupts txIrq
  have hstamped : ∀ d, (receivedBytes d b.trace).length = receivedCount b.trace d := by
    intro d
    have hlen := congrArg List.length (map_fst_stamp d 0 (received d b.trace))
    rwa [List.length_map] at hlen
  constructor
  · intro heq
    -- what was sent is no more than what was offered, and that no more than what was received
    have hlen : ∀ d : Port, receivedCount b.trace d =
        (sent d.other b.trace).length + (b.waiting d).length := by
      intro d
      rw [← hstamped, ← heq d, List.length_append]
    have hoffered : ∀ d : Port, (sent d.other b.trace).length ≤
        (offered (fills d.other b.trace)).length := fun d => length_taken_le _
    have hle : ∀ d, receivedCount b.trace d ≤ handledCount b d := by
      intro d
      rw [hlen, handledCount, List.length_append]
      exact Nat.add_le_add_right (hoffered d) _
    have hsame := eq_of_both_le hle (by rw [hbalanced.count]; exact Nat.le_add_right _ _)
    have hzero : dropped b.trace = 0 := by
      have hcount := hbalanced.count
      rw [both_eq _ .acm0, both_eq _ .acm0, hsame, hsame] at hcount
      omega
    refine ⟨fun d => ?_, fun count hmem => ?_⟩
    · rw [← taken_eq_offered_iff]
      have hd := hsame d.other
      rw [hlen, handledCount, List.length_append, Port.other_other] at hd
      exact (taken_sublist_offered _).eq_of_length (Nat.add_right_cancel hd)
    · have hpos := hbalanced.some count hmem
      have hle := le_dropped_of_mem hmem
      omega
  · rintro ⟨hwhole, hnone⟩ d
    have hcount := hbalanced.count
    rw [dropped_eq_zero hnone, Nat.add_zero] at hcount
    have hle : ∀ d, handledCount b d ≤ receivedCount b.trace d := by
      intro d
      rw [← hstamped]
      exact (hbridged.bytes d).length_le
    have hsame := eq_of_both_le hle (Nat.le_of_eq hcount) d
    rw [sent, taken_eq_offered_iff.mpr (hwhole d.other)]
    exact (hbridged.bytes d).eq_of_length (hsame.trans (hstamped d).symm)

end EchoBot.MainCdcAcmComposite
