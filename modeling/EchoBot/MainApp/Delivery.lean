/-
# EchoBot.MainApp.Delivery — which messages the queue takes, and what becomes of them

`send_app` does not say whether its message was queued. The history does: a message is taken exactly
when its bytes fit an item and fewer than ten messages wait (`TakenEvent`). What is taken is printed
within ten turns of `thread_app`, and the two lines that are printed show the payload as the C
string it is, whatever the item had of zeros behind it.
-/
import EchoBot.MainApp.Queue
import EchoBot.Program.Response
import EchoBot.Stream.History
import Mathlib.Data.List.Infix

namespace EchoBot.MainApp

open EchoBot.Memory
open EchoBot.Program
open EchoBot.Stream
open EchoBot.Zephyr

/-! ## §1 — what is to be. -/

/-- A message is taken exactly when it fits and the queue has room. -/
def TakenEvent (before : List Event) (e : Event) : Prop :=
  ∀ c queued, e = .sendApp c queued → (queued = true ↔
    c.size ≤ msgBodySize ∧ (accepted before).length < (received before).length + 10)

/-- The text of `send_app` for a message that does not fit. -/
def sizeOver : List UInt8 := literal "send_app, size over, drop"

/-- What `recv_app` printed. -/
def reports (t : List Event) : List (List UInt8) :=
  t.filterMap fun
    | .printk text => if text = sizeOver then none else some text
    | _ => none

/-- The first line for a message. -/
def sizeLine (size : Nat) (type : UInt16) : List UInt8 :=
  literal "recv_app, size " ++ literal (toString size) ++ literal ", type " ++
    literal (toString type) ++ literal "\n"

/-- The second line. -/
def dataLine (text : List UInt8) : List UInt8 :=
  literal "recv_app, data = " ++ text ++ literal "\n"

/-- The lines for a message of `size` bytes that is the string `text`. -/
def report (size : Nat) (type : UInt16) (text : List UInt8) : List (List UInt8) :=
  [sizeLine size type, dataLine text]

/-- The lines for an item. -/
def itemReport (item : DataItem) : List (List UInt8) :=
  report item.size item.type (cString item.data.val)

/-- The lines for a call of `send_app`. -/
def callReport (c : Call) : List (List UInt8) :=
  report c.size c.type (cString (c.data.take c.size))

/-- A turn of `thread_app`. -/
def isThread : Step → Bool
  | .sendApp _ => false
  | .threadApp => true

/-! ## §2 — the payload of an item. -/

/-- The zeros behind the payload do not show. -/
theorem Carries.cString_eq {c : Call} {item : DataItem} (h : Carries c item) :
    cString item.data.val = cString (c.data.take c.size) := by
  have hsplit := List.take_append_drop c.size item.data.val
  have hzeros := h.zeros
  rw [h.data] at hsplit
  cases hdrop : item.data.val.drop c.size with
  | nil =>
    rw [hdrop, List.append_nil] at hsplit
    rw [hsplit]
  | cons b rest =>
    rw [hdrop] at hsplit hzeros
    obtain rfl : b = 0 := hzeros b List.mem_cons_self
    rw [← hsplit, cString_append_zero]

theorem Carries.itemReport_eq {c : Call} {item : DataItem} (h : Carries c item) :
    itemReport item = callReport c := by
  rw [itemReport, callReport, h.size, h.type, h.cString_eq]

theorem flatMap_itemReport {calls : List Call} {items : List DataItem}
    (h : List.Forall₂ Carries calls items) :
    items.flatMap itemReport = calls.flatMap callReport := by
  induction h with
  | nil => rfl
  | cons hone _ ih => rw [List.flatMap_cons, List.flatMap_cons, ih, hone.itemReport_eq]

/-! ## §3 — every run. -/

variable {μ : Type} [MsgQueueGet μ DataItem]

/-- **`Accounted s`** — the queue against the history. -/
structure Accounted (s : App μ) : Prop where
  kept : Kept s
  maxMsgs : maxMsgs s.appMsgq = 10
  waiting_le : (messages s.appMsgq).length ≤ 10
  taken : Always TakenEvent s.trace

theorem Accounted.length_eq {s : App μ} (h : Accounted s) :
    (accepted s.trace).length = (received s.trace).length + (messages s.appMsgq).length := by
  rw [h.kept.length_eq, List.length_append]

/-- A turn of `thread_app`: it waits, or receives the oldest message. -/
theorem threadApp_cases (s : App μ) :
    (messages s.appMsgq = [] ∧ threadApp s = s) ∨
    ∃ item q, messages s.appMsgq = item :: messages q ∧ maxMsgs q = maxMsgs s.appMsgq ∧
      threadApp s = recvApp item.data item.size item.type { s with appMsgq := q } := by
  cases hwaiting : messages s.appMsgq with
  | nil =>
    refine Or.inl ⟨rfl, ?_⟩
    rw [threadApp, MsgQueueGet.msgqGet_empty hwaiting]
  | cons item items =>
    obtain ⟨q, hget, hrest, hmax⟩ := MsgQueueGet.msgqGet_cons hwaiting
    refine Or.inr ⟨item, q, by rw [hrest], hmax, ?_⟩
    rw [threadApp, hget]

omit [MsgQueueGet μ DataItem] in
/-- What `recv_app` adds to the history. -/
theorem recvApp_trace (data : Body) (size : Nat) (type : UInt16) (s : App μ) :
    (recvApp data size type s).trace = s.trace ++ [.recvApp data size type,
      .printk (sizeLine size type),
      if 0 ∈ data.val then .printk (dataLine (cString data.val)) else .overread] := by
  unfold recvApp
  rw [strlen_eq]
  by_cases hnul : 0 ∈ data.val
  · simp [hnul, App.log, sizeLine, dataLine, take_length_cString]
  · simp [hnul, App.log, sizeLine]

/-- No line of `recv_app` is the text of `send_app`. -/
theorem reports_lines (size : Nat) (type : UInt16) (text : List UInt8) :
    reports [.printk (sizeLine size type), .printk (dataLine text)] = report size type text := by
  have hsize : sizeLine size type ≠ sizeOver := by
    intro h
    have hhead : (some 114 : Option UInt8) = some 115 := congrArg List.head? h
    exact absurd hhead (by decide)
  have hdata : dataLine text ≠ sizeOver := by
    intro h
    have hhead : (some 114 : Option UInt8) = some 115 := congrArg List.head? h
    exact absurd hhead (by decide)
  simp [reports, hsize, hdata, report]

/-- A call of `send_app`: the message does not fit, the queue is full, or the message is taken. -/
theorem sendApp_history (c : Call) (s : App μ) :
    (msgBodySize < c.size ∧ sendApp c s = (s.log (.printk sizeOver)).log (.sendApp c false)) ∨
    (maxMsgs s.appMsgq ≤ (messages s.appMsgq).length ∧
      sendApp c s = s.log (.sendApp c false)) ∨
    ∃ hsize : c.size ≤ msgBodySize, ∃ q, (messages s.appMsgq).length < maxMsgs s.appMsgq ∧
      messages q = messages s.appMsgq ++ [txBuf c hsize] ∧ maxMsgs q = maxMsgs s.appMsgq ∧
      sendApp c s = { s with appMsgq := q }.log (.sendApp c true) := by
  unfold sendApp
  split
  · next hover => exact Or.inl ⟨hover, rfl⟩
  · next hfits =>
    split
    · next hput => exact Or.inr (Or.inl ⟨full_of_msgqPut hput, rfl⟩)
    · next q hput =>
      obtain ⟨hmessages, hmax⟩ := messages_of_msgqPut hput
      exact Or.inr (Or.inr ⟨Nat.le_of_not_lt hfits, q, room_of_msgqPut hput, hmessages, hmax, rfl⟩)

/-- A call of `send_app` that is logged as it should be. -/
theorem taken_snoc {t : List Event} (ht : Always TakenEvent t) {c : Call} {queued : Bool}
    (hqueued : queued = true ↔
      c.size ≤ msgBodySize ∧ (accepted t).length < (received t).length + 10) :
    Always TakenEvent (t ++ [.sendApp c queued]) := by
  refine always_snoc.mpr ⟨ht, ?_⟩
  intro c' queued' heq
  cases heq
  exact hqueued

/-- Any other event. -/
theorem takenEvent_of_not_sendApp {e : Event} (he : ∀ c queued, e ≠ .sendApp c queued)
    (before : List Event) : TakenEvent before e :=
  fun c queued heq => absurd heq (he c queued)

/-- **The step lemma of the account.** -/
theorem Accounted.step {s : App μ} (h : Accounted s) (a : Step) : Accounted (step s a) := by
  have hkept := h.kept.step a
  have hlen := h.length_eq
  have hmax := h.maxMsgs
  cases a with
  | sendApp c =>
    change Kept (sendApp c s) at hkept
    show Accounted (sendApp c s)
    rcases sendApp_history c s with ⟨hover, hsend⟩ | ⟨hfull, hsend⟩ |
      ⟨hsize, q, hroom, hmessages, hmaxq, hsend⟩
    · rw [hsend] at hkept ⊢
      refine ⟨hkept, hmax, h.waiting_le, taken_snoc ?_ ?_⟩
      · exact always_snoc.mpr ⟨h.taken, takenEvent_of_not_sendApp (by simp) _⟩
      · exact iff_of_false (by simp) fun hfits => absurd hfits.1 (Nat.not_le_of_lt hover)
    · rw [hsend] at hkept ⊢
      refine ⟨hkept, hmax, h.waiting_le, taken_snoc h.taken ?_⟩
      exact iff_of_false (by simp) fun hroom => by omega
    · rw [hsend] at hkept ⊢
      refine ⟨hkept, hmaxq.trans hmax, ?_, taken_snoc h.taken ?_⟩
      · show (messages q).length ≤ 10
        rw [hmessages, List.length_append, List.length_singleton]
        omega
      · exact iff_of_true rfl ⟨hsize, by omega⟩
  | threadApp =>
    change Kept (threadApp s) at hkept
    show Accounted (threadApp s)
    rcases threadApp_cases s with ⟨-, hsame⟩ | ⟨item, q, hwaiting, hmaxq, hrecv⟩
    · rw [hsame]
      exact h
    · have hq := (recvApp_spec item.data item.size item.type { s with appMsgq := q }).1
      rw [hrecv] at hkept ⊢
      refine ⟨hkept, ?_, ?_, ?_⟩
      · rw [hq]
        exact hmaxq.trans hmax
      · have hle := h.waiting_le
        rw [hwaiting, List.length_cons] at hle
        rw [hq]
        exact Nat.le_of_succ_le hle
      · rw [recvApp_trace]
        refine (always_append_of_trivial fun e he => takenEvent_of_not_sendApp ?_).mpr h.taken
        rintro c queued rfl
        simp only [List.mem_cons, reduceCtorEq, List.not_mem_nil, or_false, false_or] at he
        split at he
        · cases he
        · cases he

theorem accounted_run (schedule : List Step) : Accounted (run schedule (init : App μ)) := by
  refine List.foldlRecOn schedule _ ?_ fun s hs a _ => hs.step a
  have hempty : messages (msgqInit 10 : μ) = [] := MsgQueue.messages_msgqInit 10
  refine ⟨kept_run [], MsgQueue.maxMsgs_msgqInit 10, ?_, always_nil _⟩
  show (messages (msgqInit 10 : μ)).length ≤ 10
  rw [hempty]
  exact Nat.zero_le _

/-! ## §4 — what is printed, and when. -/

theorem reports_append (t u : List Event) : reports (t ++ u) = reports t ++ reports u :=
  List.filterMap_append

/-- A call of `send_app` reports nothing and receives nothing. -/
theorem reports_sendApp (c : Call) (s : App μ) :
    reports (sendApp c s).trace = reports s.trace ∧
      received (sendApp c s).trace = received s.trace := by
  rcases sendApp_history c s with ⟨-, hsend⟩ | ⟨-, hsend⟩ | ⟨hsize, q, -, -, -, hsend⟩
  · rw [hsend]
    simp [App.log, reports, received]
  · rw [hsend]
    simp [App.log, reports, received]
  · rw [hsend]
    simp [App.log, reports, received]

/-- **The reports are those of the messages received**, as long as every print meets a NUL. -/
theorem reports_run {schedule : List Step}
    (hcalls : ∀ c, Step.sendApp c ∈ schedule → Terminated c) :
    reports (run schedule (init : App μ)).trace =
      (received (run schedule (init : App μ)).trace).flatMap itemReport := by
  induction schedule using List.reverseRecOn with
  | nil => rfl
  | append_singleton schedule a ih =>
    have hbefore : ∀ c, Step.sendApp c ∈ schedule → Terminated c :=
      fun c hc => hcalls c (List.mem_append_left _ hc)
    have hnul := (printed_run (μ := μ) hbefore).2
    have hreports := ih hbefore
    rw [run, List.foldl_append, ← run]
    show reports (step (run schedule init) a).trace =
      (received (step (run schedule init) a).trace).flatMap itemReport
    generalize run schedule (init : App μ) = s at hnul hreports
    cases a with
    | sendApp c =>
      obtain ⟨hsame, hreceived⟩ := reports_sendApp c s
      show reports (sendApp c s).trace = (received (sendApp c s).trace).flatMap itemReport
      rw [hsame, hreceived, hreports]
    | threadApp =>
      show reports (threadApp s).trace = (received (threadApp s).trace).flatMap itemReport
      rcases threadApp_cases s with ⟨-, hsame⟩ | ⟨item, q, hwaiting, -, hrecv⟩
      · rw [hsame, hreports]
      · have hitem : 0 ∈ item.data.val := hnul item (hwaiting ▸ List.mem_cons_self)
        have hreceived :=
          (recvApp_spec item.data item.size item.type { s with appMsgq := q }).2.2.1
        rw [hrecv, hreceived, recvApp_trace, if_pos hitem, reports_append, List.flatMap_append,
          ← hreports]
        exact congrArg (reports s.trace ++ ·) ((reports_lines ..).trans (List.append_nil _).symm)

/-- The messages received only grow, and by one when one waits. -/
theorem received_threadApp (s : App μ) :
    (messages s.appMsgq = [] ∧ received (threadApp s).trace = received s.trace) ∨
      ∃ item, received (threadApp s).trace = received s.trace ++ [item] := by
  rcases threadApp_cases s with ⟨hempty, hsame⟩ | ⟨item, q, -, -, hrecv⟩
  · exact Or.inl ⟨hempty, by rw [hsame]⟩
  · rw [hrecv]
    exact Or.inr ⟨_, (recvApp_spec item.data item.size item.type { s with appMsgq := q }).2.2.1⟩

theorem length_received_step (s : App μ) (a : Step) :
    (received s.trace).length ≤ (received (step s a).trace).length := by
  cases a with
  | sendApp c =>
    show _ ≤ (received (sendApp c s).trace).length
    rw [(reports_sendApp c s).2]
  | threadApp =>
    show _ ≤ (received (threadApp s).trace).length
    rcases received_threadApp s with ⟨-, hsame⟩ | ⟨item, hmore⟩
    · rw [hsame]
    · rw [hmore, List.length_append]
      exact Nat.le_add_right _ _

/-- The messages accepted only grow. -/
theorem accepted_step (s : App μ) (a : Step) : accepted s.trace <+: accepted (step s a).trace := by
  cases a with
  | sendApp c =>
    show _ <+: accepted (sendApp c s).trace
    rcases sendApp_cases c s with ⟨-, hsame, -⟩ | ⟨-, -, hmore, -⟩
    · rw [hsame]
    · rw [hmore]
      exact List.prefix_append _ _
  | threadApp =>
    show _ <+: accepted (threadApp s).trace
    rcases threadApp_cases s with ⟨-, hsame⟩ | ⟨item, q, -, -, hrecv⟩
    · rw [hsame]
    · rw [hrecv, (recvApp_spec item.data item.size item.type { s with appMsgq := q }).2.1]

/-- **`thread_app` gets on**: each turn receives a message as long as one of the first `n`
waits. -/
theorem works (n : Nat) :
    Works step isThread (fun s : App μ => Accounted s ∧ n ≤ (accepted s.trace).length)
      (fun s => n ≤ (received s.trace).length) (fun s => n - (received s.trace).length) where
  inv_step := by
    rintro s ⟨haccounted, hn⟩ a
    exact ⟨haccounted.step a, Nat.le_trans hn (accepted_step s a).length_le⟩
  goal_step := by
    rintro s - hgoal a
    exact Nat.le_trans hgoal (length_received_step s a)
  done := by
    rintro s - hwork
    exact Nat.sub_eq_zero_iff_le.mp hwork
  own_step := by
    rintro s a ⟨haccounted, hn⟩ ha hnot
    have hlen := haccounted.length_eq
    cases a with
    | sendApp c => cases ha
    | threadApp =>
      show n - (received (threadApp s).trace).length < n - (received s.trace).length
      rcases received_threadApp s with ⟨hempty, -⟩ | ⟨item, hmore⟩
      · rw [hempty, List.length_nil] at hlen
        omega
      · rw [hmore, List.length_append, List.length_singleton]
        omega
  other_step := by
    rintro s a - -
    exact Nat.sub_le_sub_left (length_received_step s a) n

/-- What is reported, told by the calls of `send_app`. -/
theorem reports_eq {schedule : List Step}
    (hcalls : ∀ c, Step.sendApp c ∈ schedule → Terminated c) :
    reports (run schedule (init : App μ)).trace =
      ((accepted (run schedule (init : App μ)).trace).take
        (received (run schedule (init : App μ)).trace).length).flatMap callReport := by
  rw [reports_run hcalls]
  exact flatMap_itemReport (List.forall₂_take_append _ _ _ (kept_run schedule))

/-- **What is taken is printed, and soon.** Under every schedule of calls none of which fills the
array with bytes other than NUL: `send_app` takes a message exactly when it fits and fewer than ten
wait; what `recv_app` prints are the lines of the messages taken, in order, each with its size, its
type and its payload as a string, and nothing else; and every message taken is printed within ten
further turns of `thread_app`, whatever is sent in between. -/
theorem taken_messages_are_printed (schedule more : List Step)
    (hcalls : ∀ c, Step.sendApp c ∈ schedule ++ more → Terminated c)
    (hmore : 10 ≤ more.countP isThread) :
    Always TakenEvent (run (schedule ++ more) (init : App μ)).trace ∧
      reports (run (schedule ++ more) (init : App μ)).trace <+:
        (accepted (run (schedule ++ more) (init : App μ)).trace).flatMap callReport ∧
      (accepted (run schedule (init : App μ)).trace).flatMap callReport <+:
        reports (run (schedule ++ more) (init : App μ)).trace := by
  rw [reports_eq hcalls]
  refine ⟨(accounted_run _).taken, (List.take_prefix _ _).flatMap _, ?_⟩
  have hbefore : Accounted (run schedule (init : App μ)) := accounted_run schedule
  have hgoal : (accepted (run schedule (init : App μ)).trace).length ≤
      (received (run (schedule ++ more) (init : App μ)).trace).length := by
    rw [run, run, List.foldl_append, ← run]
    refine (works _).reached_within ⟨hbefore, Nat.le_refl _⟩ ?_
    have hlen := hbefore.length_eq
    have hwaiting := hbefore.waiting_le
    omega
  have hgrown : accepted (run schedule (init : App μ)).trace <+:
      accepted (run (schedule ++ more) (init : App μ)).trace := by
    rw [run, run, List.foldl_append, ← run]
    generalize run schedule (init : App μ) = s
    refine List.foldlRecOn (motive := fun s' : App μ => accepted s.trace <+: accepted s'.trace)
      more _ List.prefix_rfl fun s' hs a _ => hs.trans (accepted_step s' a)
  apply List.IsPrefix.flatMap
  exact List.prefix_of_prefix_length_le hgrown (List.take_prefix _ _) (by
    rw [List.length_take]
    exact Nat.le_min.mpr ⟨hgoal, hgrown.length_le⟩)

/-- A message of two bytes. -/
def shortPayload : Call where
  data := [0x68, 0x69]
  size := 2
  type := 7
  size_le := by decide

/-- Its lines come out. -/
theorem taken_messages_are_printed_short :
    Always TakenEvent (run ([.sendApp shortPayload] ++ List.replicate 10 .threadApp)
        (init : App (ListQueue DataItem))).trace ∧
      reports (run ([.sendApp shortPayload] ++ List.replicate 10 .threadApp)
          (init : App (ListQueue DataItem))).trace <+:
        (accepted (run ([.sendApp shortPayload] ++ List.replicate 10 .threadApp)
          (init : App (ListQueue DataItem))).trace).flatMap callReport ∧
      (accepted (run [.sendApp shortPayload] (init : App (ListQueue DataItem))).trace).flatMap
          callReport <+:
        reports (run ([.sendApp shortPayload] ++ List.replicate 10 .threadApp)
          (init : App (ListQueue DataItem))).trace :=
  taken_messages_are_printed [.sendApp shortPayload] (List.replicate 10 .threadApp)
    (by
      intro c hc hfull
      obtain rfl : c = shortPayload := by simpa using hc
      exact absurd hfull (by decide))
    (by decide)

end EchoBot.MainApp
