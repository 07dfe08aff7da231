/-
# EchoBot.MyUartPeripheralB.StopAndWait — the stop-and-wait protocol over whole runs

The handler sends one message and holds the rest back until the guard is cleared. Two things could
go wrong. The items could reach the UART in another order or shape than their messages; and an `OK`
line clears the guard WITHOUT stopping the timer, so that a stale timer could release the next
message early.

* `Queue`: what `tx_rb` holds is, item for item, the messages accepted and not yet filled.
* `Guard`: the only deadline a timer ever has is 5000 ms behind the LATEST fill, because every fill
  restarts it; and a clear guard means that every fill has been followed by a release.

`stop_and_wait` puts them together. What it does not give is the wire: the number of bytes the UART
took is not looked at, so a short fill loses the rest of its message (`short_fill_skips_bytes`), and
the wire carries the messages when every fill that another one follows was taken whole
(`wire_is_prefix_of_messages`).
-/
import EchoBot.MyUartPeripheralB.Receive
import EchoBot.MyUartPeripheralB.Transmit
import EchoBot.Stream.Fill
import EchoBot.Stream.History
import Mathlib.Data.List.Forall2
import Mathlib.Data.List.Infix

namespace EchoBot.MyUartPeripheralB

open EchoBot.Memory
open EchoBot.Stream
open EchoBot.Zephyr

variable {ρ τ : Type}

/-! ## §1 — the queue. -/

/-- **`Fitting cfg t`** — the messages of all `user_send_data` calls fit the transmit buffer. -/
def Fitting (cfg : Config) (t : List Event) : Prop :=
  ∀ call ∈ sendCalls t, call.data.length + 5 ≤ cfg.txBufWords * 4

/-- **`Queue cfg b`** — `tx_rb` holds the messages accepted and not yet filled, and at no moment so
far was a buffer filled that was not the next message. -/
structure Queue [ItemRing ρ] (cfg : Config) (b : Board ρ τ) : Prop where
  pending : ∃ msgs, queued b.trace = filled b.trace ++ msgs ∧
    List.Forall₂ Carries (items b.txRb) msgs ∧ ∀ msg ∈ msgs, msg.length ≤ cfg.txBufWords * 4
  moments : ∀ u, u <+: b.trace → filled u <+: queued u

section QueueSteps

variable [ItemRing ρ] {cfg : Config} {stack : Stack} {b b' : Board ρ τ}

/-- An event later, the earlier moments are as they were. -/
theorem Queue.moments_snoc (hb : Queue cfg b) {e : Event} {t : List Event}
    (htrace : t = b.trace ++ [e]) (hnow : filled t <+: queued t) :
    ∀ u, u <+: t → filled u <+: queued u := by
  subst htrace
  intro u hu
  rcases List.prefix_concat_iff.mp hu with rfl | hu
  · exact hnow
  · exact hb.moments u hu

/-- A step that neither queues nor fills. -/
theorem Queue.of_silent (hb : Queue cfg b) (hrb : b'.txRb = b.txRb)
    (htrace : b'.trace = b.trace ∨ ∃ e, b'.trace = b.trace ++ [e] ∧
      queued [e] = [] ∧ filled [e] = []) : Queue cfg b' := by
  obtain ⟨msgs, hmsgs, hcarry, hlen⟩ := hb.pending
  rcases htrace with htrace | ⟨e, htrace, hq, hf⟩
  · exact ⟨⟨msgs, by rw [htrace, hmsgs], by rwa [hrb], hlen⟩, by rw [htrace]; exact hb.moments⟩
  · have hqueued : queued b'.trace = queued b.trace := by
      rw [htrace, queued_append, hq, List.append_nil]
    have hfilled : filled b'.trace = filled b.trace := by
      rw [htrace, filled_append, hf, List.append_nil]
    refine ⟨⟨msgs, by rw [hqueued, hfilled, hmsgs], by rwa [hrb], hlen⟩, ?_⟩
    apply hb.moments_snoc htrace
    rw [hqueued, hfilled, hmsgs]
    exact List.prefix_append _ _

theorem Queue.userSendData (hb : Queue cfg b) (data : List UInt8) (hW : cfg.txBufWords < 255)
    (hfit : Fitting cfg (userSendData cfg stack data b).trace) :
    Queue cfg (userSendData cfg stack data b) := by
  rcases userSendData_cases cfg stack data b with ⟨rb, hput, heq⟩ | ⟨-, heq⟩
  · rw [heq] at hfit ⊢
    have hdata : data.length + 5 ≤ cfg.txBufWords * 4 := by
      have hcall := hfit (sendCall cfg stack data b true) (by simp [sendCalls])
      rwa [sendCall_eq] at hcall
    have hnew : Carries (sendItem cfg stack data b) (sendPrefix ++ data) :=
      sendItem_carries cfg stack b (by omega)
    obtain ⟨msgs, hmsgs, hcarry, hlen⟩ := hb.pending
    have hqueued : queued (b.trace ++ [.userSendData (sendCall cfg stack data b true)]) =
        filled b.trace ++ (msgs ++ [sendPrefix ++ data]) := by
      rw [queued_append, hmsgs, List.append_assoc, sendCall_eq]
      rfl
    have hfilled : filled (b.trace ++ [.userSendData (sendCall cfg stack data b true)]) =
        filled b.trace := by
      rw [filled_append]
      exact List.append_nil _
    refine ⟨⟨msgs ++ [sendPrefix ++ data], ?_, ?_, ?_⟩, ?_⟩
    · rw [Board.log_trace, hqueued, hfilled]
    · show List.Forall₂ Carries (items rb) _
      rw [ItemRing.itemPut_some hput]
      exact List.rel_append hcarry (.cons hnew .nil)
    · intro msg hmsg
      rcases List.mem_append.mp hmsg with hold | hlast
      · exact hlen msg hold
      · rw [List.mem_singleton.mp hlast, List.length_append, Nat.add_comm]
        exact hdata
    · apply hb.moments_snoc (Board.log_trace _ _)
      rw [Board.log_trace, hqueued, hfilled]
      exact List.prefix_append _ _
  · rw [heq]
    refine hb.of_silent rfl (Or.inr ⟨_, Board.log_trace _ _, ?_, rfl⟩)
    rw [sendCall_eq]
    rfl

theorem Queue.transmit [OneShotTimer τ] (hb : Queue cfg b) (room : Nat)
    (hW : cfg.txBufWords < 255) : Queue cfg (transmit cfg stack room b) := by
  rcases transmit_cases cfg stack room b with
    ⟨-, heq⟩ | ⟨-, -, heq⟩ | ⟨-, -, heq⟩ | ⟨item, rb, -, hget, heq⟩
  · rw [heq]
    exact hb.of_silent rfl (Or.inl rfl)
  · rw [heq]
    exact hb.of_silent rfl (Or.inl rfl)
  · rw [heq]
    exact hb.of_silent rfl (Or.inl rfl)
  · rw [heq]
    obtain ⟨msgs, hmsgs, hcarry, hlen⟩ := hb.pending
    -- the oldest item carries the oldest pending message, and that is what is filled
    rw [(items_of_itemGet_ok hget).1] at hcarry
    obtain ⟨msg, rest, hmsg, hrest, rfl⟩ := List.forall₂_cons_left_iff.mp hcarry
    obtain ⟨hmsgLen, hrestLen⟩ := List.forall_mem_cons.mp hlen
    have hbytes : itemBytes stack item b = msg :=
      itemBytes_of_carries stack hmsg (by omega) b
    rw [hbytes]
    have hqueued : queued (b.trace ++ [.fifoFill b.now msg (min room msg.length)]) =
        queued b.trace := by
      rw [queued_append]
      exact List.append_nil _
    have hfilled : filled (b.trace ++ [.fifoFill b.now msg (min room msg.length)]) =
        filled b.trace ++ [msg] := filled_append _ _
    refine ⟨⟨rest, ?_, hrest, hrestLen⟩, ?_⟩
    · rw [Board.log_trace, hqueued, hfilled, hmsgs, List.append_assoc]
      rfl
    · apply hb.moments_snoc (Board.log_trace _ _)
      rw [Board.log_trace, hqueued, hfilled, hmsgs]
      exact ⟨rest, by simp⟩

/-- **The queue invariant holds along every run of fitting sends.** -/
theorem queue_run [OneShotTimer τ] (hW : cfg.txBufWords < 255) (steps : List (Nat × Step))
    (hfit : Fitting cfg (run cfg stack steps (init cfg) : Board ρ τ).trace) :
    Queue cfg (run cfg stack steps (init cfg) : Board ρ τ) := by
  refine tx_run_induction_of_sends ?_ ?_ ?_ ?_ ?_ steps ?_ hfit
  · intro b b' hframe hb
    refine hb.of_silent hframe.txRb (hframe.trace.imp_right ?_)
    rintro ⟨e, htrace, he⟩
    obtain ⟨hqueued, hfilled, -⟩ := readings_of_isNeutral he
    exact ⟨e, htrace, hqueued, hfilled⟩
  · intro b hb
    rcases releaseGuard_cases b with ⟨-, heq⟩ | ⟨-, heq⟩
    · rwa [heq]
    · rw [heq]
      exact hb.of_silent rfl (Or.inr ⟨_, Board.log_trace _ _, rfl, rfl⟩)
  · intro b data hcalls hb
    exact hb.userSendData data hW hcalls
  · intro b room hb
    exact hb.transmit room hW
  · intro b hb
    rcases timerInterrupt_cases b with heq | ⟨due, -, -, heq⟩
    · rwa [heq]
    · rw [heq]
      exact hb.of_silent rfl (Or.inr ⟨_, Board.log_trace _ _, rfl, rfl⟩)
  · refine ⟨⟨[], rfl, ?_, by simp⟩, ?_⟩
    · simp [init]
    · intro u hu
      rw [List.prefix_nil.mp hu]
      exact List.prefix_rfl

end QueueSteps

/-! ## §2 — the guard and its timer. -/

def Event.isFill : Event → Bool
  | .fifoFill _ _ _ => true
  | _ => false

/-- The events that clear the guard: `check_sending_guard` accepts a line, or the timer expires. -/
def Event.ClearsGuard : Event → Prop
  | .guardReleased line => checkSendingGuard line line.length = true
  | .timerExpired _ => True
  | _ => False

/-- When the latest fill was made. -/
def lastFill (t : List Event) : Option Nat :=
  (t.filterMap fun
    | .fifoFill time _ _ => some time
    | _ => none).getLast?

/-- An expiry comes no earlier than 5000 ms behind the latest fill. -/
def Punctual (before : List Event) : Event → Prop
  | .timerExpired time => ∃ t, lastFill before = some t ∧ t + 5000 ≤ time
  | _ => True

theorem lastFill_snoc_of_not_fill {e : Event} (he : e.isFill = false) (t : List Event) :
    lastFill (t ++ [e]) = lastFill t := by
  rw [lastFill, List.filterMap_append]
  cases e with
  | fifoFill time buf taken => cases he
  | fifoRead c index => exact congrArg List.getLast? (List.append_nil _)
  | guardReleased line => exact congrArg List.getLast? (List.append_nil _)
  | callback line => exact congrArg List.getLast? (List.append_nil _)
  | discarded bytes => exact congrArg List.getLast? (List.append_nil _)
  | userSendData call => exact congrArg List.getLast? (List.append_nil _)
  | timerExpired time => exact congrArg List.getLast? (List.append_nil _)

theorem lastFill_snoc_fill (t : List Event) (time : Nat) (buf : List UInt8) (taken : Nat) :
    lastFill (t ++ [.fifoFill time buf taken]) = some time := by
  rw [lastFill, List.filterMap_append]
  exact List.getLast?_concat

/-- **`Guard b`** — the guard, the timer and the history of fills and releases. -/
structure Guard [OneShotTimer τ] (b : Board ρ τ) : Prop where
  separated : Separated (·.isFill = true) Event.ClearsGuard b.trace
  settled : b.sendingGuard = false → Settled (·.isFill = true) Event.ClearsGuard b.trace
  armed : b.sendingGuard = true → (deadline b.sendingGuardTimer).isSome = true
  latest : ∀ due, deadline b.sendingGuardTimer = some due →
    ∃ t, lastFill b.trace = some t ∧ due = t + 5000
  punctual : Always Punctual b.trace

section GuardSteps

variable [OneShotTimer τ] {cfg : Config} {stack : Stack} {b b' : Board ρ τ}

/-- A step that shows nothing. -/
theorem Guard.of_trace_eq (hb : Guard b) (hguard : b'.sendingGuard = b.sendingGuard)
    (htimer : b'.sendingGuardTimer = b.sendingGuardTimer) (htrace : b'.trace = b.trace) :
    Guard b' := by
  refine ⟨?_, ?_, ?_, ?_, ?_⟩
  · exact htrace ▸ hb.separated
  · rw [hguard, htrace]
    exact hb.settled
  · rw [hguard, htimer]
    exact hb.armed
  · rw [htimer, htrace]
    exact hb.latest
  · exact htrace ▸ hb.punctual

/-- **The guard across an event that is not a fill.** It stays as it was unless the event clears
it, and the timer keeps its deadline or stops. -/
theorem Guard.of_event (hb : Guard b) {e : Event} (htrace : b'.trace = b.trace ++ [e])
    (he : e.isFill = false)
    (hclear : b'.sendingGuard = false → b.sendingGuard = false ∨ e.ClearsGuard)
    (harmed : b'.sendingGuard = true → (deadline b'.sendingGuardTimer).isSome = true)
    (hdue : ∀ due, deadline b'.sendingGuardTimer = some due →
      deadline b.sendingGuardTimer = some due)
    (hpunctual : Punctual b.trace e) : Guard b' := by
  have hmark : ¬ e.isFill = true := by simp [he]
  refine ⟨?_, ?_, harmed, ?_, ?_⟩
  · rw [htrace]
    exact separated_snoc hb.separated fun hm => absurd hm hmark
  · intro hfalse
    rw [htrace]
    rcases hclear hfalse with hwas | hsep
    · exact settled_snoc_of_not_mark (hb.settled hwas) hmark
    · exact settled_snoc_of_sep hsep hmark
  · intro due hd
    rw [htrace, lastFill_snoc_of_not_fill he]
    exact hb.latest due (hdue due hd)
  · rw [htrace]
    exact always_snoc.mpr ⟨hb.punctual, hpunctual⟩

theorem Guard.releaseGuard (hb : Guard b) : Guard (releaseGuard b) := by
  rcases releaseGuard_cases b with ⟨-, heq⟩ | ⟨hcheck, heq⟩
  · rwa [heq]
  · rw [heq]
    refine hb.of_event (Board.log_trace _ _) rfl (fun _ => Or.inr ?_) ?_ (fun due hd => hd) trivial
    · -- the driver passes `rx_buf` and its fill count, the event shows the line itself
      show checkSendingGuard (rxLine b) (rxLine b).length = true
      rw [checkSendingGuard_iff, List.take_length]
      exact (checkSendingGuard_iff _ _).mp hcheck
    · intro h
      cases h

theorem Guard.timerInterrupt (hb : Guard b) : Guard (timerInterrupt b) := by
  rcases timerInterrupt_cases b with heq | ⟨due, hdue, hle, heq⟩
  · rwa [heq]
  · rw [heq]
    refine hb.of_event (Board.log_trace _ _) rfl (fun _ => Or.inr trivial) ?_ ?_ ?_
    · intro h
      cases h
    · intro due' hd
      have hstopped := OneShotTimer.deadline_timerExpire b.sendingGuardTimer
      exact absurd (hstopped.symm.trans hd) (by simp)
    · -- the deadline it expired at belongs to the latest fill
      obtain ⟨t, hlast, rfl⟩ := hb.latest due hdue
      exact ⟨t, hlast, hle⟩

variable [ItemRing ρ]

theorem Guard.transmit (hb : Guard b) (room : Nat) : Guard (transmit cfg stack room b) := by
  rcases transmit_cases cfg stack room b with
    ⟨-, heq⟩ | ⟨-, -, heq⟩ | ⟨-, -, heq⟩ | ⟨item, rb, hclear, -, heq⟩
  · rw [heq]
    exact hb.of_trace_eq rfl rfl rfl
  · rw [heq]
    exact hb.of_trace_eq rfl rfl rfl
  · rw [heq]
    exact hb.of_trace_eq rfl rfl rfl
  · rw [heq]
    have hrestart := OneShotTimer.deadline_timerStart b.sendingGuardTimer b.now 5000
    refine ⟨?_, ?_, ?_, ?_, ?_⟩
    · exact separated_snoc hb.separated fun _ => hb.settled hclear
    · intro h
      cases h
    · intro _
      exact Option.isSome_of_eq_some hrestart
    · intro due hd
      refine ⟨b.now, lastFill_snoc_fill _ _ _ _, ?_⟩
      exact (Option.some.inj (hrestart.symm.trans hd)).symm
    · exact always_snoc.mpr ⟨hb.punctual, trivial⟩

/-- **The guard invariant holds along every run.** -/
theorem guard_run (steps : List (Nat × Step)) :
    Guard (run cfg stack steps (init cfg) : Board ρ τ) := by
  apply tx_run_induction
  · intro b b' hframe hb
    rcases hframe.trace with htrace | ⟨e, htrace, he⟩
    · exact hb.of_trace_eq hframe.sendingGuard hframe.sendingGuardTimer htrace
    · have hevent : e.isFill = false ∧ Punctual b.trace e :=
        Event.neutral_cases (P := fun e => e.isFill = false ∧ Punctual b.trace e) he
          (fun _ _ => ⟨rfl, trivial⟩) (fun _ => ⟨rfl, trivial⟩) fun _ => ⟨rfl, trivial⟩
      refine hb.of_event htrace hevent.1 ?_ ?_ ?_ hevent.2
      · rw [hframe.sendingGuard]
        exact Or.inl
      · rw [hframe.sendingGuard, hframe.sendingGuardTimer]
        exact hb.armed
      · rw [hframe.sendingGuardTimer]
        exact fun due hd => hd
  · intro b hb
    exact hb.releaseGuard
  · intro b data hb
    rcases userSendData_cases cfg stack data b with ⟨rb, -, heq⟩ | ⟨-, heq⟩
    · rw [heq]
      exact hb.of_event (Board.log_trace _ _) rfl Or.inl hb.armed (fun due hd => hd) trivial
    · rw [heq]
      exact hb.of_event (Board.log_trace _ _) rfl Or.inl hb.armed (fun due hd => hd) trivial
  · intro b room hb
    exact hb.transmit room
  · intro b hb
    exact hb.timerInterrupt
  · refine ⟨separated_nil _ _, fun _ => settled_nil _ _, ?_, ?_, always_nil _⟩
    · intro h
      cases h
    · intro due hd
      simp [init] at hd

end GuardSteps

/-! ## §3 — what reception accepts is a received line. -/

/-- The line that releases the guard is what was received last, and ends with a terminator. -/
def AckEvent (before : List Event) : Event → Prop
  | .guardReleased line =>
    line <:+ received before ∧ ∃ body c, line = body ++ [c] ∧ isTerminator c = true
  | _ => True

section Acks

variable {cfg : Config} {hN : 0 < cfg.rxBufSize} {b b' : Board ρ τ}

/-- **`Acks hN b`** — `rx_buf` holds what the framer keeps, callback or not, and every release by
reception was an `AckEvent`. -/
structure Acks (hN : 0 < cfg.rxBufSize) (b : Board ρ τ) : Prop where
  stored : Stored 0 b.rxBuf b.rxDataLen (framed isTerminator hN (received b.trace)).1
  acks : Always AckEvent b.trace

theorem always_ackEvent_append {t evs : List Event}
    (hevs : ∀ e ∈ evs, ∀ line, e ≠ .guardReleased line) :
    Always AckEvent (t ++ evs) ↔ Always AckEvent t := by
  refine always_append_of_trivial fun e he before => ?_
  cases e with
  | guardReleased line => exact absurd rfl (hevs _ he line)
  | fifoRead c index => trivial
  | callback line => trivial
  | discarded bytes => trivial
  | userSendData call => trivial
  | fifoFill time buf taken => trivial
  | timerExpired time => trivial

theorem Acks.frame (hb : Acks hN b) (hframe : RxFrame b b') : Acks hN b' := by
  obtain ⟨hbuf, hlen, -, evs, htrace, hevs⟩ := hframe
  have hreceived : received b'.trace = received b.trace := by
    rw [htrace, received_append, received_of_not_isRx hevs, List.append_nil]
  refine ⟨?_, ?_⟩
  · rw [hbuf, hlen, hreceived]
    exact hb.stored
  · rw [htrace]
    refine (always_ackEvent_append fun e he line heq => ?_).mpr hb.acks
    have hrx := hevs e he
    rw [heq] at hrx
    cases hrx

/-- The line in `rx_buf` when a terminator has been stored: what was kept of the open line, and the
terminator. Both have just been received. -/
theorem Acks.ackEvent (hb : Acks hN b) {c : UInt8} (hc : isTerminator c = true) :
    AckEvent (storeByte c b).trace (.guardReleased (rxLine (storeByte c b))) := by
  have hline : rxLine (storeByte c b) =
      (framed isTerminator hN (received b.trace)).1.bytes ++ [c] := hb.stored.take_set c
  have hbytes : received (storeByte c b).trace = received b.trace ++ [c] := received_append _ _
  refine ⟨?_, _, c, hline, hc⟩
  rw [hline, hbytes]
  refine ⟨(framed isTerminator hN (received b.trace)).2.flatMap Segment.bytes, ?_⟩
  rw [← List.append_assoc, framed_flatten]

/-- The test of a line that would be an acknowledgement received. -/
theorem always_ackEvent_releaseGuard (hacks : Always AckEvent b.trace)
    (hline : AckEvent b.trace (.guardReleased (rxLine b))) :
    Always AckEvent (releaseGuard b).trace ∧
      received (releaseGuard b).trace = received b.trace := by
  rcases releaseGuard_cases b with ⟨-, heq⟩ | ⟨-, heq⟩
  · rw [heq]
    exact ⟨hacks, rfl⟩
  · rw [heq, Board.log_trace, received_append]
    exact ⟨always_snoc.mpr ⟨hacks, hline⟩, List.append_nil _⟩

variable [ItemRing ρ] {stack : Stack}

/-- The callback's call shows neither bytes nor releases. -/
theorem callCallback_trace (callback : Option Callback) (b : Board ρ τ) :
    ∃ evs, (callCallback cfg stack callback b).trace = b.trace ++ evs ∧ received evs = [] ∧
      ∀ e ∈ evs, ∀ line, e ≠ .guardReleased line := by
  cases callback with
  | none => exact ⟨[], (List.append_nil _).symm, rfl, by simp⟩
  | some cb =>
    obtain ⟨calls, -, -, htrace⟩ :=
      sendAll_trace cfg stack (cb b.trace (rxLine b)) (b.log (.callback (rxLine b)))
    refine ⟨.callback (rxLine b) :: calls.map .userSendData, ?_, ?_, ?_⟩
    · rw [callCallback, htrace, Board.log_trace, List.append_assoc]
      rfl
    · exact received_sends calls
    · simp

theorem Acks.receiveByte (hb : Acks hN b) (c : UInt8) : Acks hN (receiveByte cfg stack c b) := by
  have hread : Always AckEvent (storeByte c b).trace :=
    always_snoc.mpr ⟨hb.acks, trivial⟩
  have hbytes : received (storeByte c b).trace = received b.trace ++ [c] :=
    received_append _ _
  cases hc : isTerminator c with
  | true =>
    obtain ⟨hreleased, hsame⟩ := always_ackEvent_releaseGuard hread (hb.ackEvent hc)
    obtain ⟨evs, htrace, hnone, hevs⟩ :=
      @callCallback_trace ρ τ cfg _ stack b.callback (releaseGuard (storeByte c b))
    have htrace' : (MyUartPeripheralB.receiveByte cfg stack c b).trace =
        (releaseGuard (storeByte c b)).trace ++ evs := by
      rw [receiveByte_of_terminator cfg stack hc]
      exact htrace
    refine ⟨?_, ?_⟩
    · rw [htrace', received_append, hnone, hsame, hbytes, List.append_nil, framed_snoc,
        Partial.push_of_term hc, receiveByte_of_terminator cfg stack hc]
      exact Stored.reset (framed isTerminator hN (received b.trace)).1
    · rw [htrace']
      exact (always_ackEvent_append hevs).mpr hreleased
  | false =>
    by_cases hfull : b.rxDataLen + 1 = cfg.rxBufSize
    · rw [receiveByte_of_full cfg stack hc hfull]
      refine ⟨?_, always_snoc.mpr ⟨hread, trivial⟩⟩
      have hsame : received ((storeByte c b).trace ++ [.discarded (rxLine (storeByte c b))]) =
          received b.trace ++ [c] := by
        rw [received_append, hbytes]
        exact List.append_nil _
      show Stored 0 (List.replicate cfg.rxBufSize 0) 0
        (framed isTerminator hN
          (received ((storeByte c b).trace ++ [.discarded (rxLine (storeByte c b))]))).1
      rw [hsame, framed_snoc, Partial.push_of_full hc (hb.stored.len_eq ▸ hfull)]
      exact Stored.reset (framed isTerminator hN (received b.trace)).1
    · rw [receiveByte_of_room cfg stack hc hfull]
      refine ⟨?_, hread⟩
      rw [hbytes, framed_snoc]
      exact hb.stored.push_of_room hc hfull

/-- **Every release by reception, in every run, is an acknowledgement received.** -/
theorem acks_run [OneShotTimer τ] (steps : List (Nat × Step)) :
    Acks hN (run cfg stack steps (init cfg) : Board ρ τ) := by
  refine @rx_run_induction ρ τ _ cfg stack (Acks hN) _ (fun _ => True) ?_ ?_ ?_ steps
    (fun _ _ => trivial) (init cfg) ?_
  · intro b b' hframe hb
    exact hb.frame hframe
  · intro b cb _ hb
    exact ⟨hb.stored, hb.acks⟩
  · intro b c hb
    exact hb.receiveByte c
  · exact ⟨Stored.empty 0 hN, always_nil _⟩

end Acks

/-! ## §4 — the protocol. -/

section Protocol

variable [ItemRing ρ] [OneShotTimer τ]

/-- **`StopAndWait b`** — the promises of the protocol. -/
structure StopAndWait (b : Board ρ τ) : Prop where
  /-- At every moment the buffers filled are the first of the messages accepted, in order, each
  once and byte for byte. -/
  inOrder : ∀ u, u <+: b.trace → filled u <+: queued u
  /-- Between two fills the guard was cleared. -/
  cleared : Separated (·.isFill = true) Event.ClearsGuard b.trace
  /-- A line that cleared it was received. -/
  acks : Always AckEvent b.trace
  /-- While the guard is set the timer runs, and it is due 5000 ms behind the latest fill. -/
  armed : b.sendingGuard = true →
    ∃ t, lastFill b.trace = some t ∧ deadline b.sendingGuardTimer = some (t + 5000)
  /-- No expiry, of a stale timer or another, came earlier than that. -/
  punctual : Always Punctual b.trace

/-- **The stop-and-wait protocol**, with the default sizes: every state of every run keeps its
promises, whatever the callback sends and however sends, acknowledgements, expiries and transmit
interrupts follow each other. -/
theorem stop_and_wait (stack : Stack) (steps : List (Nat × Step))
    (hfit : Fitting .default (run .default stack steps (init .default) : Board ρ τ).trace) :
    StopAndWait (run .default stack steps (init .default) : Board ρ τ) := by
  have hqueue := queue_run (by decide) steps hfit
  have hguard : Guard (run .default stack steps (init .default) : Board ρ τ) := guard_run steps
  have hN : 0 < Config.default.rxBufSize := by decide
  have hacks : Acks hN (run .default stack steps (init .default) : Board ρ τ) := acks_run steps
  refine ⟨hqueue.moments, hguard.separated, hacks.acks, ?_, hguard.punctual⟩
  intro hset
  obtain ⟨due, hdue⟩ := Option.isSome_iff_exists.mp (hguard.armed hset)
  obtain ⟨t, hlast, rfl⟩ := hguard.latest due hdue
  exact ⟨t, hlast, hdue⟩

/-- A stale timer at work: the first message is acknowledged and the second one filled at 3000,
which moves the deadline from 5000 to 8000. -/
theorem stop_and_wait_stale_timer :
    StopAndWait (run .default (fun _ _ => 0)
      [(0, .userSendData [0x41]), (0, .userSendData (List.replicate 58 0x42)),
        (0, .uartInterrupt [⟨[], some 100⟩]), (2000, .uartInterrupt [⟨[0x4F, 0x4B, 10], none⟩]),
        (3000, .uartInterrupt [⟨[], some 100⟩]), (5000, .timerInterrupt), (8000, .timerInterrupt)]
      (init .default) : Board WordRing DeadlineTimer) :=
  stop_and_wait _ _ (by unfold Fitting; decide +kernel)

/-! ## §5 — the wire. -/

/-- The fills of the UART. -/
def fills (t : List Event) : List (Fill UInt8) :=
  t.filterMap fun
    | .fifoFill _ buf taken => some ⟨buf, taken⟩
    | _ => none

theorem filled_flatten (t : List Event) : (filled t).flatten = offered (fills t) := by
  have hfilled : filled t = (fills t).map Fill.buf := by
    rw [filled, fills, List.map_filterMap]
    refine List.filterMap_congr fun e _ => ?_
    cases e <;> rfl
  rw [hfilled, ← List.flatMap_def, offered]

theorem wire_eq_taken (t : List Event) : wire t = taken (fills t) := by
  induction t with
  | nil => rfl
  | cons e t ih =>
    rw [wire, List.flatMap_cons, ← wire, ih]
    cases e <;> rfl

/-- **`TakenWhole t`** — every fill that another one follows was taken whole. -/
def TakenWhole (t : List Event) : Prop := ∀ f ∈ (fills t).dropLast, f.Whole

theorem TakenWhole.of_prefix {t u : List Event} (h : TakenWhole t) (hu : u <+: t) :
    TakenWhole u := by
  obtain ⟨v, rfl⟩ := hu
  intro f hf
  apply h
  rw [fills, List.filterMap_append, ← fills, ← fills, List.dropLast_append]
  split
  · exact hf
  · exact List.mem_append_left _ (List.mem_of_mem_dropLast hf)

/-- **The wire carries the messages**, with the default sizes: at every moment of a run in which
every fill that another one follows was taken whole, the bytes the UART took are a prefix of the
messages accepted. -/
theorem wire_is_prefix_of_messages (stack : Stack) (steps : List (Nat × Step))
    (hfit : Fitting .default (run .default stack steps (init .default) : Board ρ τ).trace)
    (hwhole : TakenWhole (run .default stack steps (init .default) : Board ρ τ).trace) :
    ∀ u, u <+: (run .default stack steps (init .default) : Board ρ τ).trace →
      wire u <+: (queued u).flatten := by
  intro u hu
  have hfilled : filled u <+: queued u := (queue_run (by decide) steps hfit).moments u hu
  calc wire u = taken (fills u) := wire_eq_taken u
    _ <+: offered (fills u) := taken_prefix_offered (hwhole.of_prefix hu)
    _ = (filled u).flatten := (filled_flatten u).symm
    _ <+: (queued u).flatten := hfilled.flatten

/-- Two messages, of which the second one is taken in part. -/
def lastShortSteps : List (Nat × Step) :=
  [(0, .userSendData [0x41]), (0, .userSendData [0x42]), (0, .uartInterrupt [⟨[], some 100⟩]),
    (1, .uartInterrupt [⟨[0x4F, 0x4B, 10], some 4⟩])]

theorem wire_is_prefix_of_messages_last_short :
    wire (run .default (fun _ _ => 0) lastShortSteps
        (init .default) : Board WordRing DeadlineTimer).trace <+:
      (queued (run .default (fun _ _ => 0) lastShortSteps
        (init .default) : Board WordRing DeadlineTimer).trace).flatten :=
  wire_is_prefix_of_messages _ _ (by unfold Fitting; decide +kernel)
    (by unfold TakenWhole; decide +kernel) _ List.prefix_rfl

/-- A UART with room for 4 bytes takes `SEND` of the first message; the rest of it is skipped when
the next one is filled. -/
theorem short_fill_skips_bytes :
    ¬ ∀ steps : List (Nat × Step),
      Fitting .default (run .default (fun _ _ => 0) steps (init .default) :
        Board WordRing DeadlineTimer).trace →
      ∀ u, u <+: (run .default (fun _ _ => 0) steps (init .default) :
          Board WordRing DeadlineTimer).trace →
        wire u <+: (queued u).flatten := by
  intro hclaim
  have hwire := hclaim
    [(0, .userSendData [0x41]), (0, .userSendData [0x42]), (0, .uartInterrupt [⟨[], some 4⟩]),
      (1, .uartInterrupt [⟨[0x4F, 0x4B, 10], some 100⟩])]
    (by unfold Fitting; decide +kernel) _ List.prefix_rfl
  exact absurd hwire (by decide +kernel)

end Protocol

end EchoBot.MyUartPeripheralB
