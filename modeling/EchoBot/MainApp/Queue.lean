/-
# EchoBot.MainApp.Queue — counted bytes into the queue, a C string out of it

`send_app` copies `size` bytes into a zeroed item and queues the item; `thread_app` takes it out and
`recv_app` prints its bytes with `%s`. The queue itself keeps what it is given (`Kept`). The two
sides read the payload differently: the sender allows as many bytes as the array has, the receiver
needs one more for the NUL. They agree on every payload that is shorter than the array or holds a
NUL (`nul_mem_txBuf_iff`), and on no other.
-/
import EchoBot.Memory.CString
import EchoBot.Zephyr.Kernel
import Mathlib.Data.List.Forall2
import Mathlib.Data.List.Induction

namespace EchoBot.MainApp

open EchoBot.Memory
open EchoBot.Zephyr

/-! ## §1 — the program. -/

/-- `MSG_BODY_SIZE`. -/
def msgBodySize : Nat := 64

/-- The array `data` of an item. -/
abbrev Body := { data : List UInt8 // data.length = msgBodySize }

/-- `struct data_item_with_size_and_type`. -/
structure DataItem where
  size : Nat
  type : UInt16
  data : Body
  deriving DecidableEq, Repr

/-- The arguments of `send_app`. `data` is the memory at the pointer, which reaches as far as the
caller says. -/
structure Call where
  data : List UInt8
  size : Nat
  type : UInt16
  size_le : size ≤ data.length
  deriving DecidableEq, Repr

inductive Event where
  /-- `send_app` returned; `queued` is whether the message went into the queue. -/
  | sendApp (call : Call) (queued : Bool)
  /-- `recv_app` was called. -/
  | recvApp (data : Body) (size : Nat) (type : UInt16)
  | printk (text : List UInt8)
  /-- `%s` found no NUL in `data` and read on behind it. -/
  | overread
  deriving DecidableEq, Repr

structure App (μ : Type) where
  appMsgq : μ
  trace : List Event

/-- One more event. -/
def App.log {μ : Type} (s : App μ) (e : Event) : App μ := { s with trace := s.trace ++ [e] }

/-- `tx_buf` behind the `memcpy`: the first `size` bytes of a zeroed array are overwritten. -/
def txBuf (c : Call) (hsize : c.size ≤ msgBodySize) : DataItem where
  size := c.size
  type := c.type
  data := ⟨c.data.take c.size ++ (List.replicate msgBodySize 0).drop c.size, by
    rw [List.length_append, List.length_take, List.length_drop, List.length_replicate,
      Nat.min_eq_left c.size_le]
    omega⟩

/-- `recv_app`. -/
def recvApp {μ : Type} (data : Body) (size : Nat) (type : UInt16) (s : App μ) : App μ :=
  let s := s.log (.recvApp data size type)
  let s := s.log (.printk (literal "recv_app, size " ++ literal (toString size) ++
    literal ", type " ++ literal (toString type) ++ literal "\n"))
  match strlen data with
  | none => s.log .overread
  | some len =>
    s.log (.printk (literal "recv_app, data = " ++ data.val.take len ++ literal "\n"))

variable {μ : Type} [MsgQueueGet μ DataItem]

/-- `send_app`. The result of `k_msgq_put` is not looked at. -/
def sendApp (c : Call) (s : App μ) : App μ :=
  if hover : msgBodySize < c.size then
    (s.log (.printk (literal "send_app, size over, drop"))).log (.sendApp c false)
  else
    match msgqPut s.appMsgq (txBuf c (Nat.le_of_not_lt hover)) with
    | none => s.log (.sendApp c false)
    | some q => { s with appMsgq := q }.log (.sendApp c true)

/-- One turn of `thread_app`, which waits while the queue is empty. -/
def threadApp (s : App μ) : App μ :=
  match msgqGet s.appMsgq with
  | none => s
  | some (rxBuf, q) => recvApp rxBuf.data rxBuf.size rxBuf.type { s with appMsgq := q }

inductive Step where
  | sendApp (call : Call)
  | threadApp
  deriving DecidableEq, Repr

def step (s : App μ) : Step → App μ
  | .sendApp call => sendApp call s
  | .threadApp => threadApp s

def run (schedule : List Step) (s : App μ) : App μ := schedule.foldl step s

/-- The queue of `K_MSGQ_DEFINE`. -/
def init : App μ where
  appMsgq := msgqInit 10
  trace := []

/-! ## §2 — what the queue is to do. -/

/-- The calls whose message went into the queue. -/
def accepted (t : List Event) : List Call :=
  t.filterMap fun
    | .sendApp call true => some call
    | _ => none

/-- What `recv_app` was called with. -/
def received (t : List Event) : List DataItem :=
  t.filterMap fun
    | .recvApp data size type => some ⟨size, type, data⟩
    | _ => none

/-- **`Carries c item`** — the item has the size, the type and the bytes of the call, and zeros
behind them. -/
structure Carries (c : Call) (item : DataItem) : Prop where
  size : item.size = c.size
  type : item.type = c.type
  data : item.data.val.take c.size = c.data.take c.size
  zeros : ∀ b ∈ item.data.val.drop c.size, b = 0

/-- **`Delivered s`** — the messages received are the accepted ones, in order and each once; a call
with too many bytes would change nothing; and every print met a NUL. -/
structure Delivered (s : App μ) : Prop where
  inOrder : ∃ sent, sent <+: accepted s.trace ∧ List.Forall₂ Carries sent (received s.trace)
  oversize : ∀ c : Call, msgBodySize < c.size →
    (sendApp c s).appMsgq = s.appMsgq ∧ accepted (sendApp c s).trace = accepted s.trace
  printed : Event.overread ∉ s.trace

/-- **`Terminated c`** — the payload does not fill the array with bytes other than NUL. -/
def Terminated (c : Call) : Prop := c.size = msgBodySize → 0 ∈ c.data.take msgBodySize

/-! ## §3 — one item. -/

theorem carries_txBuf (c : Call) (hsize : c.size ≤ msgBodySize) : Carries c (txBuf c hsize) := by
  have hlen : (c.data.take c.size).length = c.size := by
    rw [List.length_take, Nat.min_eq_left c.size_le]
  refine ⟨rfl, rfl, ?_, ?_⟩
  · show (c.data.take c.size ++ _).take c.size = _
    rw [List.take_left' hlen]
  · intro b hb
    change b ∈ (c.data.take c.size ++ _).drop c.size at hb
    rw [List.drop_left' hlen] at hb
    exact List.eq_of_mem_replicate (List.mem_of_mem_drop hb)

/-- **Where both sides agree**: the array holds a NUL exactly when the payload left room for one or
has one. -/
theorem nul_mem_txBuf_iff (c : Call) (hsize : c.size ≤ msgBodySize) :
    0 ∈ (txBuf c hsize).data.val ↔ Terminated c := by
  show 0 ∈ c.data.take c.size ++ (List.replicate msgBodySize 0).drop c.size ↔ _
  rw [List.drop_replicate, List.mem_append, List.mem_replicate, Terminated]
  rcases Nat.lt_or_eq_of_le hsize with hlt | heq
  · have hroom : msgBodySize - c.size ≠ 0 := by omega
    exact iff_of_true (Or.inr ⟨hroom, rfl⟩) fun h => absurd h (Nat.ne_of_lt hlt)
  · simp [heq]

/-! ## §4 — every run. -/

/-- **`Kept s`** — the accepted messages are the received ones and those that wait. -/
def Kept (s : App μ) : Prop :=
  List.Forall₂ Carries (accepted s.trace) (received s.trace ++ messages s.appMsgq)

section Steps

variable {s : App μ}

/-- What `send_app` does: nothing to the queue, or one more message. -/
theorem sendApp_cases (c : Call) (s : App μ) :
    ((sendApp c s).appMsgq = s.appMsgq ∧ accepted (sendApp c s).trace = accepted s.trace ∧
      received (sendApp c s).trace = received s.trace) ∨
    ∃ hsize : c.size ≤ msgBodySize,
      messages (sendApp c s).appMsgq = messages s.appMsgq ++ [txBuf c hsize] ∧
      accepted (sendApp c s).trace = accepted s.trace ++ [c] ∧
      received (sendApp c s).trace = received s.trace := by
  unfold sendApp
  split
  · exact Or.inl (by simp [App.log, accepted, received])
  · rename_i hover
    split
    · exact Or.inl (by simp [App.log, accepted, received])
    · rename_i q hput
      refine Or.inr ⟨Nat.le_of_not_lt hover, (messages_of_msgqPut hput).1, ?_, ?_⟩
      · simp [App.log, accepted]
      · simp [App.log, received]

/-- No call of `send_app` prints a payload. -/
theorem overread_mem_sendApp_iff (c : Call) (s : App μ) :
    Event.overread ∈ (sendApp c s).trace ↔ Event.overread ∈ s.trace := by
  unfold sendApp
  split
  · simp [App.log]
  · split <;> simp [App.log]

omit [MsgQueueGet μ DataItem] in
/-- What `recv_app` does: one more message is received, and its print meets a NUL or does not. -/
theorem recvApp_spec (data : Body) (size : Nat) (type : UInt16) (s : App μ) :
    (recvApp data size type s).appMsgq = s.appMsgq ∧
      accepted (recvApp data size type s).trace = accepted s.trace ∧
      received (recvApp data size type s).trace = received s.trace ++ [⟨size, type, data⟩] ∧
      (Event.overread ∈ (recvApp data size type s).trace ↔
        Event.overread ∈ s.trace ∨ 0 ∉ data.val) := by
  unfold recvApp
  rw [strlen_eq]
  by_cases hnul : 0 ∈ data.val
  · simp [hnul, App.log, accepted, received]
  · simp [hnul, App.log, accepted, received]

/-- **The step lemma of the order.** -/
theorem Kept.step (hs : Kept s) (a : Step) : Kept (step s a) := by
  cases a with
  | sendApp c =>
    show Kept (sendApp c s)
    rcases sendApp_cases c s with ⟨hq, ha, hr⟩ | ⟨hsize, hq, ha, hr⟩
    · rwa [Kept, hq, ha, hr]
    · rw [Kept, hq, ha, hr, ← List.append_assoc]
      exact List.rel_append hs (List.Forall₂.cons (carries_txBuf c hsize) List.Forall₂.nil)
  | threadApp =>
    show Kept (threadApp s)
    unfold threadApp
    split
    · exact hs
    · rename_i rxBuf q hget
      obtain ⟨hq, ha, hr, -⟩ :=
        recvApp_spec rxBuf.data rxBuf.size rxBuf.type { s with appMsgq := q }
      rw [Kept, hq, ha, hr, List.append_assoc]
      rwa [Kept, (messages_of_msgqGet hget).1] at hs

/-- **The step lemma of the prints**: items with a NUL are printed in their array. -/
theorem printed_step {a : Step} (hcall : ∀ c, a = .sendApp c → Terminated c)
    (hs : Event.overread ∉ s.trace ∧ ∀ item ∈ messages s.appMsgq, 0 ∈ item.data.val) :
    Event.overread ∉ (step s a).trace ∧
      ∀ item ∈ messages (step s a).appMsgq, 0 ∈ item.data.val := by
  obtain ⟨hprinted, hwaiting⟩ := hs
  cases a with
  | sendApp c =>
    show Event.overread ∉ (sendApp c s).trace ∧ ∀ item ∈ messages (sendApp c s).appMsgq, _
    rw [overread_mem_sendApp_iff]
    refine ⟨hprinted, ?_⟩
    rcases sendApp_cases c s with ⟨hq, -, -⟩ | ⟨hsize, hq, -, -⟩
    · rwa [hq]
    · rw [hq, List.forall_mem_append]
      refine ⟨hwaiting, ?_⟩
      rw [List.forall_mem_singleton, nul_mem_txBuf_iff]
      exact hcall c rfl
  | threadApp =>
    show Event.overread ∉ (threadApp s).trace ∧ ∀ item ∈ messages (threadApp s).appMsgq, _
    unfold threadApp
    split
    · exact ⟨hprinted, hwaiting⟩
    · rename_i rxBuf q hget
      rw [(messages_of_msgqGet hget).1, List.forall_mem_cons] at hwaiting
      obtain ⟨hq, -, -, hread⟩ :=
        recvApp_spec rxBuf.data rxBuf.size rxBuf.type { s with appMsgq := q }
      rw [hread, hq]
      refine ⟨?_, hwaiting.2⟩
      rintro (h | h)
      · exact hprinted h
      · exact h hwaiting.1

end Steps

theorem kept_run (schedule : List Step) : Kept (run schedule (init : App μ)) := by
  refine List.foldlRecOn schedule _ ?_ fun s hs a _ => hs.step a
  show List.Forall₂ Carries [] ([] ++ messages (msgqInit 10 : μ))
  rw [MsgQueue.messages_msgqInit]
  exact List.Forall₂.nil

theorem printed_run {schedule : List Step}
    (hcalls : ∀ c, Step.sendApp c ∈ schedule → Terminated c) :
    Event.overread ∉ (run schedule (init : App μ)).trace ∧
      ∀ item ∈ messages (run schedule (init : App μ)).appMsgq, 0 ∈ item.data.val := by
  induction schedule using List.reverseRecOn with
  | nil =>
    refine ⟨List.not_mem_nil, ?_⟩
    show ∀ item ∈ messages (msgqInit 10 : μ), _
    rw [MsgQueue.messages_msgqInit]
    exact fun _ h => absurd h List.not_mem_nil
  | append_singleton schedule a ih =>
    rw [run, List.foldl_append]
    apply printed_step
    · rintro c rfl
      exact hcalls c (List.mem_append_right _ (List.mem_singleton.mpr rfl))
    · exact ih fun c hc => hcalls c (List.mem_append_left _ hc)

/-- Whatever was sent, the queue keeps the order, and a call with too many bytes does nothing. -/
theorem inOrder_run (schedule : List Step) :
    ∃ sent, sent <+: accepted (run schedule (init : App μ)).trace ∧
      List.Forall₂ Carries sent (received (run schedule (init : App μ)).trace) :=
  ⟨_, List.take_prefix _ _, List.forall₂_take_append _ _ _ (kept_run schedule)⟩

theorem sendApp_of_oversize {c : Call} (hover : msgBodySize < c.size) (s : App μ) :
    (sendApp c s).appMsgq = s.appMsgq ∧ accepted (sendApp c s).trace = accepted s.trace := by
  rcases sendApp_cases c s with ⟨hq, ha, -⟩ | ⟨hsize, -⟩
  · exact ⟨hq, ha⟩
  · exact absurd hsize (Nat.not_le_of_lt hover)

/-- A payload that fills the array is printed beyond it as soon as it is received. -/
theorem overread_of_not_terminated {c : Call} (hc : ¬ Terminated c) :
    Event.overread ∈ (run [.sendApp c, .threadApp] (init : App μ)).trace := by
  have hsize : c.size = msgBodySize := by
    by_contra h
    exact hc fun hfull => absurd hfull h
  have hover : ¬ msgBodySize < c.size := by omega
  have hempty : (messages (msgqInit 10 : μ)).length < maxMsgs (msgqInit 10 : μ) := by
    rw [MsgQueue.messages_msgqInit, MsgQueue.maxMsgs_msgqInit]
    decide
  obtain ⟨q, hput, hmessages, -⟩ :=
    MsgQueue.msgqPut_room (m := txBuf c (Nat.le_of_not_lt hover)) hempty
  rw [MsgQueue.messages_msgqInit, List.nil_append] at hmessages
  obtain ⟨q', hget, -⟩ := MsgQueueGet.msgqGet_cons hmessages
  have hsend : sendApp c (init : App μ) =
      App.log { (init : App μ) with appMsgq := q } (.sendApp c true) := by
    rw [sendApp, dif_neg hover]
    show (match msgqPut (msgqInit 10 : μ) _ with | none => _ | some q => _) = _
    rw [hput]
  show Event.overread ∈ (threadApp (sendApp c (init : App μ))).trace
  rw [hsend, threadApp, App.log, hget]
  apply (recvApp_spec ..).2.2.2.mpr
  exact Or.inr fun hnul => hc ((nul_mem_txBuf_iff c _).mp hnul)

/-- **What the queue delivers.** Under every schedule of calls none of which fills the array with
bytes other than NUL, every message is received as it was sent and printed inside its array; and
each call that does fill it so is printed beyond it when it is received. -/
theorem queue_delivers_exactly :
    (∀ schedule : List Step, (∀ c, Step.sendApp c ∈ schedule → Terminated c) →
      Delivered (run schedule (init : App μ))) ∧
    ∀ c : Call, ¬ Terminated c → ¬ Delivered (run [.sendApp c, .threadApp] (init : App μ)) := by
  constructor
  · intro schedule hcalls
    exact ⟨inOrder_run schedule, fun _ hover => sendApp_of_oversize hover _,
      (printed_run hcalls).1⟩
  · intro c hc hdelivered
    exact hdelivered.printed (overread_of_not_terminated hc)

/-- 64 bytes `A`. -/
def fullPayload : Call where
  data := List.replicate 64 0x41
  size := 64
  type := 1
  size_le := by decide

/-- The print of 64 bytes `A` reads beyond the array. -/
theorem full_payload_overread :
    Event.overread ∈
        (run [.sendApp fullPayload, .threadApp] (init : App (ListQueue DataItem))).trace ∧
      ¬ ∀ schedule : List Step, Delivered (run schedule (init : App (ListQueue DataItem))) := by
  have hread : Event.overread ∈
      (run [.sendApp fullPayload, .threadApp] (init : App (ListQueue DataItem))).trace := by
    decide +kernel
  exact ⟨hread, fun hclaim => (hclaim _).printed hread⟩

end EchoBot.MainApp
