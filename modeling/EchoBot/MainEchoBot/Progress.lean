/-
# EchoBot.MainEchoBot.Progress — what is queued is printed

`EchoBot.MainEchoBot.ThreadEchoBot` says that nothing wrong is printed; here is what is printed, and
how soon. What the thread still has to do for the messages queued so far can be counted in steps:
one for each byte, two for each call of `print_uart`, one for each `k_msgq_get` (`work`). Its own
steps lower the count. An interrupt does not raise it, whatever it receives: the messages it queues
stand behind.

The buffers bound the count. So each message queued is printed within 567 steps of the thread.
-/
import EchoBot.MainEchoBot.ThreadEchoBot
import EchoBot.Program.Response

namespace EchoBot.MainEchoBot

open EchoBot.Memory (cString literal)
open EchoBot.Program
open EchoBot.Stream
open EchoBot.Zephyr

variable {μ : Type}

/-! ## §1 — steps to come. -/

/-- The steps of some calls of `print_uart`. -/
def callSteps (array : Buf → List UInt8) : List Buf → Nat
  | [] => 0
  | buf :: todo => (cString (array buf)).length + 2 + callSteps array todo

/-- The steps up to the next `k_msgq_get`. -/
def stepsLeft (s : System μ) : Nat :=
  (match s.printing with
    | none => 0
    | some p => p.msgLen - p.i + 1) + callSteps s.array s.todo

/-- The steps for some messages: each is taken out, and printed behind 10 bytes and before 2. -/
def messageSteps : List (List UInt8) → Nat
  | [] => 0
  | m :: ms => (cString m).length + 19 + messageSteps ms

section Work

variable [MsgQueueGet μ (List UInt8)]

/-- Those of the first `n` messages queued that wait. -/
def ahead (n : Nat) (s : System μ) : List (List UInt8) :=
  (messages s.uartMsgq).take (n - (gets s.log).length)

/-- What is to be done for the first `n` messages queued. -/
def work (n : Nat) (s : System μ) : Nat := stepsLeft s + messageSteps (ahead n s)

/-- A step of the thread. -/
def isThread : Step → Bool
  | .serialCb _ => false
  | .thread => true

/-- **`Due sent s`** — the thread is somewhere in a run in which `sent` was queued first. -/
structure Due (sent : List (List UInt8)) (s : System μ) : Prop where
  inv : ∃ stream, Inv s stream
  sent : sent <+: queued s.log

/-- The messages are printed. -/
def Shown (sent : List (List UInt8)) (s : System μ) : Prop :=
  greeting ++ blocks sent <+: printed s.log

/-! ## §2 — the log grows. -/

theorem log_thread (s : System μ) : s.log <+: (threadEchoBot s).log := by
  unfold threadEchoBot
  split
  · unfold pollOut
    split
    · split
      · exact List.prefix_append _ _
      · exact List.prefix_append _ _
    · exact List.prefix_rfl
  · unfold printUart
    split
    · exact List.prefix_append _ _
    · exact List.prefix_rfl
  · unfold getMessage
    split
    · exact List.prefix_rfl
    · exact List.prefix_append _ _

theorem log_step (s : System μ) (a : Step) : s.log <+: (s.step a).log := by
  cases a with
  | serialCb rx => exact List.prefix_append _ _
  | thread => exact log_thread s

theorem Due.step {sent : List (List UInt8)} {s : System μ} (h : Due sent s) (a : Step) :
    Due sent (s.step a) := by
  obtain ⟨⟨stream, hinv⟩, hsent⟩ := h
  refine ⟨?_, hsent.trans ?_⟩
  · cases a with
    | serialCb rx => exact ⟨_, hinv.interrupt rx⟩
    | thread => exact ⟨_, hinv.thread⟩
  · exact (log_step s a).filterMap _

theorem Shown.step {sent : List (List UInt8)} {s : System μ} (h : Shown sent s) (a : Step) :
    Shown sent (s.step a) :=
  h.trans ((log_step s a).filterMap _)

/-! ## §3 — the count. -/

section Count

variable {sent : List (List UInt8)} {s : System μ}

/-- A thread that waits, with all of `sent` taken out, has printed `sent`. -/
theorem shown_of_idle (h : Due sent s) (hp : s.printing = none) (htodo : s.todo = [])
    (htaken : sent.length ≤ (gets s.log).length) : Shown sent s := by
  obtain ⟨⟨stream, hinv⟩, hsent⟩ := h
  have hout := hinv.prints.output
  rw [pending, hp, htodo, List.flatMap_nil, List.append_nil, List.append_nil] at hout
  have hgets : sent <+: gets s.log :=
    List.prefix_of_prefix_length_le hsent ⟨_, hinv.queue.order.symm⟩ htaken
  rw [Shown, hout, List.prefix_append_right_inj]
  exact hgets.flatMap _

/-- The messages not taken out wait in the queue. -/
theorem Due.length_le (h : Due sent s) :
    sent.length ≤ (gets s.log).length + (messages s.uartMsgq).length := by
  obtain ⟨⟨stream, hinv⟩, hsent⟩ := h
  rw [← List.length_append, ← hinv.queue.order]
  exact hsent.length_le

omit [MsgQueueGet μ (List UInt8)] in
/-- Only a thread that waits has no step left. -/
theorem idle_of_stepsLeft_eq_zero (hleft : stepsLeft s = 0) : s.printing = none ∧ s.todo = [] := by
  obtain ⟨hprinting, hcalls⟩ := Nat.add_eq_zero_iff.mp hleft
  constructor
  · cases hp : s.printing with
    | none => rfl
    | some p =>
      rw [hp] at hprinting
      exact absurd hprinting (Nat.succ_ne_zero _)
  · cases htodo : s.todo with
    | nil => rfl
    | cons buf todo =>
      rw [htodo, callSteps] at hcalls
      omega

/-- Where nothing of `sent` waits, all of it has been taken out. -/
theorem length_le_of_ahead_eq_nil (h : Due sent s) (hahead : ahead sent.length s = []) :
    sent.length ≤ (gets s.log).length := by
  have hle := h.length_le
  have hlen := congrArg List.length hahead
  rw [ahead, List.length_take, List.length_nil] at hlen
  omega

theorem shown_of_work_eq_zero (h : Due sent s) (hwork : work sent.length s = 0) :
    Shown sent s := by
  obtain ⟨hleft, hmessages⟩ := Nat.add_eq_zero_iff.mp hwork
  obtain ⟨hp, htodo⟩ := idle_of_stepsLeft_eq_zero hleft
  refine shown_of_idle h hp htodo (length_le_of_ahead_eq_nil h ?_)
  cases hahead : ahead sent.length s with
  | nil => rfl
  | cons m ms =>
    rw [hahead, messageSteps] at hmessages
    omega

omit [MsgQueueGet μ (List UInt8)] in
/-- A turn of the loop of `print_uart`, or its end. -/
theorem stepsLeft_pollOut {p : PrintUart} (hp : s.printing = some p) :
    stepsLeft (pollOut p s) + 1 = stepsLeft s := by
  have hbefore : stepsLeft s = p.msgLen - p.i + 1 + callSteps s.array s.todo := by
    rw [stepsLeft, hp]
  rw [hbefore]
  unfold pollOut
  split
  · next hlt =>
    have hturn : p.msgLen - (p.i + 1) + 1 + callSteps s.array s.todo + 1 =
        p.msgLen - p.i + 1 + callSteps s.array s.todo := by omega
    split
    · exact hturn
    · exact hturn
  · next hge =>
    show 0 + callSteps s.array s.todo + 1 = _
    omega

omit [MsgQueueGet μ (List UInt8)] in
/-- A call of `print_uart`. -/
theorem printUart_eq {buf : Buf} (hnul : 0 ∈ s.array buf) (todo : List Buf) :
    printUart buf { s with todo := todo } =
      { s with todo := todo, printing := some ⟨buf, (cString (s.array buf)).length, 0⟩ } := by
  have hstrlen : Memory.strlen (System.array { s with todo := todo } buf) =
      some (cString (s.array buf)).length := Memory.strlen_of_mem hnul
  unfold printUart
  rw [hstrlen]

/-- **What a step of the thread does**: it is one of those counted, or the thread waits, or takes
out a message and has its steps before it. -/
theorem thread_cases {stream : List UInt8} (hinv : Inv s stream) :
    (stepsLeft (threadEchoBot s) + 1 = stepsLeft s ∧
      gets (threadEchoBot s).log = gets s.log ∧ (threadEchoBot s).toBoard = s.toBoard) ∨
    (s.printing = none ∧ s.todo = [] ∧ messages s.uartMsgq = [] ∧ threadEchoBot s = s) ∨
    (s.printing = none ∧ s.todo = [] ∧ ∃ m ms, messages s.uartMsgq = m :: ms ∧
      messages (threadEchoBot s).uartMsgq = ms ∧
      gets (threadEchoBot s).log = gets s.log ++ [m] ∧
      stepsLeft (threadEchoBot s) = (cString m).length + 18) := by
  unfold threadEchoBot
  split
  · next p hp =>
    obtain ⟨-, hboard, hlog⟩ := hinv.prints.turn hp
    refine Or.inl ⟨stepsLeft_pollOut hp, ?_, hboard⟩
    rcases hlog with hlog | ⟨c, hlog⟩
    · rw [hlog]
    · simp [hlog, gets]
  · next buf todo hp htodo =>
    have hnul : 0 ∈ s.array buf := hinv.prints.todo buf (htodo ▸ List.mem_cons_self)
    rw [printUart_eq hnul]
    refine Or.inl ⟨?_, rfl, rfl⟩
    have hbefore : stepsLeft s =
        0 + ((cString (s.array buf)).length + 2 + callSteps s.array todo) := by
      rw [stepsLeft, hp, htodo, callSteps]
    rw [hbefore]
    show (cString (s.array buf)).length - 0 + 1 + callSteps s.array todo + 1 = _
    omega
  · next hp htodo =>
    cases hwaiting : messages s.uartMsgq with
    | nil =>
      refine Or.inr (Or.inl ⟨hp, htodo, rfl, ?_⟩)
      rw [getMessage, MsgQueueGet.msgqGet_empty hwaiting]
    | cons m ms =>
      obtain ⟨q, hget, hrest, -⟩ := MsgQueueGet.msgqGet_cons hwaiting
      refine Or.inr (Or.inr ⟨hp, htodo, m, ms, rfl, ?_, ?_, ?_⟩)
      · rw [getMessage, hget]
        exact hrest
      · rw [getMessage, hget]
        exact List.filterMap_append
      · rw [getMessage, hget]
        show (match s.printing with
          | none => 0
          | some p => p.msgLen - p.i + 1) + _ = _
        rw [hp]
        show 0 + ((cString (literal "Echo_xxx: " ++ [0])).length + 2 + ((cString m).length + 2 +
          ((cString (literal "\r\n" ++ [0])).length + 2 + 0))) = _
        have hecho : (cString (literal "Echo_xxx: " ++ [0])).length = 10 := by decide
        have hcrlf : (cString (literal "\r\n" ++ [0])).length = 2 := by decide
        rw [hecho, hcrlf]
        omega

/-- **The thread gets on**: every step of it is one step less to come. -/
theorem work_thread_lt (h : Due sent s) (hnot : ¬ Shown sent s) :
    work sent.length (threadEchoBot s) < work sent.length s := by
  have hle := h.length_le
  obtain ⟨stream, hinv⟩ := h.inv
  have hbehind : s.printing = none → s.todo = [] → (gets s.log).length < sent.length := by
    intro hp htodo
    by_contra htaken
    exact hnot (shown_of_idle h hp htodo (Nat.not_lt.mp htaken))
  rcases thread_cases hinv with ⟨hleft, hgets, hboard⟩ | ⟨hp, htodo, hwaiting, -⟩ |
    ⟨hp, htodo, m, ms, hwaiting, hrest, hgets, hleft⟩
  · rw [work, work, ahead, ahead, hgets, hboard]
    omega
  · have hlt := hbehind hp htodo
    rw [hwaiting, List.length_nil] at hle
    omega
  · -- the message at the head is one of `sent`, and its steps are now those of the thread
    have hlt := hbehind hp htodo
    have hbefore : ahead sent.length s =
        m :: ms.take (sent.length - ((gets s.log).length + 1)) := by
      have hcount : sent.length - (gets s.log).length =
          sent.length - ((gets s.log).length + 1) + 1 := by omega
      rw [ahead, hwaiting, hcount, List.take_succ_cons]
    have hafter : ahead sent.length (threadEchoBot s) =
        ms.take (sent.length - ((gets s.log).length + 1)) := by
      rw [ahead, hrest, hgets, List.length_append]
      rfl
    rw [work, work, hbefore, hafter, hleft, messageSteps]
    omega

/-- **An interrupt holds nothing up.** -/
theorem work_interrupt (h : Due sent s) (rx : Option (List UInt8)) :
    work sent.length (serialInterrupt rx s) = work sent.length s := by
  have hle := h.length_le
  obtain ⟨stream, hinv⟩ := h.inv
  obtain ⟨news, hputs, hqueue⟩ := hinv.queue.interrupt rx
  have hlog : (serialInterrupt rx s).log = s.log ++ news.map .put := by
    rw [serialInterrupt, hputs, List.drop_left]
  have hgets : gets (s.log ++ news.map .put) = gets s.log := by
    rw [gets, List.filterMap_append, List.filterMap_map]
    simp [gets]
  -- what is queued now stands behind
  have hmessages : messages (serialCb s.toBoard rx).uartMsgq =
      messages s.uartMsgq ++ queued (news.map .put) := by
    have horder := hqueue.order
    rw [hgets, queued, List.filterMap_append, ← queued, hinv.queue.order,
      List.append_assoc] at horder
    exact (List.append_cancel_left horder).symm
  have hahead : ahead sent.length (serialInterrupt rx s) = ahead sent.length s := by
    rw [ahead, ahead, hlog, hgets]
    show (messages (serialCb s.toBoard rx).uartMsgq).take _ = _
    rw [hmessages]
    exact List.take_append_of_le_length (by omega)
  rw [work, work, hahead]
  rfl

theorem works (sent : List (List UInt8)) :
    Works System.step isThread (Due sent) (Shown sent) (work (μ := μ) sent.length) where
  inv_step h a := h.step a
  goal_step _ h a := h.step a
  done h hwork := shown_of_work_eq_zero h hwork
  own_step := by
    intro s a h ha hnot
    cases a with
    | serialCb rx => cases ha
    | thread => exact work_thread_lt h hnot
  other_step := by
    intro s a h ha
    cases a with
    | serialCb rx => exact Nat.le_of_eq (work_interrupt h rx)
    | thread => cases ha

end Count

/-! ## §4 — the bound. -/

/-- The string of a message is shorter than its array. -/
theorem length_cString_le {m : List UInt8} (hm : m.length = msgSize ∧ 0 ∈ m) :
    (cString m).length ≤ msgSize - 1 := by
  obtain ⟨rest, hrest⟩ := Memory.exists_eq_cString_append hm.2
  have hlen := congrArg List.length hrest
  rw [List.length_append, List.length_cons, hm.1] at hlen
  change msgSize = (cString m).length + (rest.length + 1) at hlen
  omega

theorem messageSteps_le {ms : List (List UInt8)} (hms : ∀ m ∈ ms, m.length = msgSize ∧ 0 ∈ m) :
    messageSteps ms ≤ 50 * ms.length := by
  induction ms with
  | nil => exact Nat.le_refl 0
  | cons m ms ih =>
    obtain ⟨hm, hrest⟩ := List.forall_mem_cons.mp hms
    have hone := length_cString_le hm
    have hsize : msgSize = 32 := rfl
    have hmore := ih hrest
    rw [messageSteps, List.length_cons]
    omega

/-- The greeting takes 67 steps, and a message no more than 49 behind its `k_msgq_get`. -/
theorem stepsLeft_run_le (schedule : List Step) (txBuf : List UInt8) :
    stepsLeft ((start txBuf : System μ).run schedule) ≤ 67 := by
  induction schedule using List.reverseRecOn with
  | nil =>
    show (cString (literal "Hello! I'm your echo bot.\r\n" ++ [0])).length + 2 +
      ((cString (literal "Tell me something and press enter:\r\n" ++ [0])).length + 2 + 0) ≤ 67
    decide
  | append_singleton schedule a ih =>
    have hinv : Inv ((start txBuf : System μ).run schedule) (stream schedule) :=
      inv_run schedule txBuf
    rw [System.run, List.foldl_append]
    show stepsLeft (System.step ((start txBuf : System μ).run schedule) a) ≤ 67
    cases a with
    | serialCb rx => exact ih
    | thread =>
      rcases thread_cases hinv with ⟨hleft, -⟩ | ⟨-, -, -, hsame⟩ |
        ⟨-, -, m, ms, hwaiting, -, -, hleft⟩
      · show stepsLeft (threadEchoBot _) ≤ 67
        omega
      · show stepsLeft (threadEchoBot _) ≤ 67
        rwa [hsame]
      · have hm : m ∈ queued ((start txBuf : System μ).run schedule).log := by
          rw [hinv.queue.order, hwaiting]
          exact List.mem_append_right _ List.mem_cons_self
        have hone := length_cString_le (hinv.terminated m hm)
        have hsize : msgSize = 32 := rfl
        show stepsLeft (threadEchoBot _) ≤ 67
        omega

/-- **What is queued is printed, and soon.** Whatever was received and printed before: every message
in the queue or on its way through the thread is printed in its block, behind all those before it,
within 567 further steps of the thread, however many interrupts come in between and whatever they
receive. -/
theorem queued_messages_are_printed (schedule more : List Step) (txBuf : List UInt8)
    (hmore : 67 + 50 * 10 ≤ more.countP isThread) :
    greeting ++ blocks (queued ((start txBuf : System μ).run schedule).log) <+:
      printed ((start txBuf : System μ).run (schedule ++ more)).log := by
  have hinv : Inv ((start txBuf : System μ).run schedule) (stream schedule) :=
    inv_run schedule txBuf
  have hleft : stepsLeft ((start txBuf : System μ).run schedule) ≤ 67 :=
    stepsLeft_run_le schedule txBuf
  have hsplit : (start txBuf : System μ).run (schedule ++ more) =
      more.foldl System.step ((start txBuf : System μ).run schedule) := List.foldl_append
  rw [hsplit]
  generalize (start txBuf : System μ).run schedule = s at hinv hleft
  refine (works (queued s.log)).reached_within ⟨⟨_, hinv⟩, List.prefix_rfl⟩ ?_
  have hahead : messageSteps (ahead (queued s.log).length s) ≤ 50 * 10 := by
    refine Nat.le_trans (messageSteps_le fun m hm => hinv.terminated m ?_) ?_
    · rw [hinv.queue.order]
      exact List.mem_append_right _ (List.mem_of_mem_take hm)
    · have hlen := List.length_take_le' ((queued s.log).length - (gets s.log).length)
        (messages s.uartMsgq)
      have hcapacity := hinv.queue.length_le
      rw [ahead]
      omega
  rw [work]
  omega

end Work

/-- The line `hi`, received as one interrupt. -/
theorem queued_messages_are_printed_hi :
    greeting ++ blocks (queued ((start [] : System (ListQueue (List UInt8))).run
        [.serialCb (some [0x68, 0x69, 10])]).log) <+:
      printed ((start [] : System (ListQueue (List UInt8))).run
        ([.serialCb (some [0x68, 0x69, 10])] ++ List.replicate 567 .thread)).log :=
  queued_messages_are_printed [.serialCb (some [0x68, 0x69, 10])] (List.replicate 567 .thread) []
    (by
      rw [List.countP_replicate]
      decide)

end EchoBot.MainEchoBot
