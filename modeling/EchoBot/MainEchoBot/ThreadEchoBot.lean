/-
# EchoBot.MainEchoBot.ThreadEchoBot — the echo bot as producer and consumer

`serial_cb` interrupts `thread_echo_bot` anywhere: while it waits for a message, between two calls
of `print_uart`, between two bytes of one. So the thread is modelled call by call and byte by byte,
and a schedule says where the interrupts come.

The two meet in `uart_msgq` alone. `rx_buf` belongs to the interrupt and `tx_buf` to the thread, and
the queue copies between them; that is why a slow print never shows a later line. What carries the
proof is one equation for each side of the queue:

* the messages queued are those taken out and those that wait (`Queue.order`);
* the bytes printed and those still to be printed are the greeting and the blocks of the messages
  taken out (`Prints.output`).
-/
import EchoBot.MainEchoBot.SerialCb
import EchoBot.Stream.History

namespace EchoBot.MainEchoBot

open EchoBot.Memory (cString literal strlen)
open EchoBot.Stream
open EchoBot.Zephyr

/-! ## §1 — the program. -/

/-- The arguments of `print_uart`. -/
inductive Buf where
  | literal (text : String)
  | txBuf
  deriving DecidableEq, Repr

/-- `print_uart` in its loop. -/
structure PrintUart where
  buf : Buf
  msgLen : Nat
  i : Nat
  deriving DecidableEq, Repr

inductive Event where
  /-- `k_msgq_put` in `serial_cb`. -/
  | put (put : Put)
  /-- `k_msgq_get` returned `message`. -/
  | get (message : List UInt8)
  /-- `uart_poll_out`. -/
  | pollOut (c : UInt8)
  /-- `print_uart` read beyond its array. -/
  | overread
  deriving DecidableEq, Repr

structure System (μ : Type) extends Board μ where
  txBuf : List UInt8
  /-- The call of `print_uart` that runs. -/
  printing : Option PrintUart
  /-- The calls after it, up to the next `k_msgq_get`. -/
  todo : List Buf
  log : List Event

/-- The array at the pointer. -/
def System.array {μ : Type} (s : System μ) : Buf → List UInt8
  | .literal text => Memory.literal text ++ [0]
  | .txBuf => s.txBuf

/-- One turn of `for (int i = 0; i < msg_len; i++)`, or its end. -/
def pollOut {μ : Type} (p : PrintUart) (s : System μ) : System μ :=
  if p.i < p.msgLen then
    match (s.array p.buf)[p.i]? with
    | none => { s with printing := some { p with i := p.i + 1 }, log := s.log ++ [.overread] }
    | some c => { s with printing := some { p with i := p.i + 1 }, log := s.log ++ [.pollOut c] }
  else { s with printing := none }

/-- `print_uart(buf)` up to its loop. -/
def printUart {μ : Type} (buf : Buf) (s : System μ) : System μ :=
  match strlen (s.array buf) with
  | none => { s with log := s.log ++ [.overread] }
  | some msgLen => { s with printing := some ⟨buf, msgLen, 0⟩ }

variable {μ : Type} [MsgQueueGet μ (List UInt8)]

/-- `k_msgq_get(&uart_msgq, &tx_buf, K_FOREVER)`, and with a message the body of the loop. -/
def getMessage (s : System μ) : System μ :=
  match msgqGet s.uartMsgq with
  | none => s
  | some (message, q) =>
    { s with
      uartMsgq := q
      txBuf := message
      todo := [.literal "Echo_xxx: ", .txBuf, .literal "\r\n"]
      log := s.log ++ [.get message] }

/-- The next step of `thread_echo_bot`. -/
def threadEchoBot (s : System μ) : System μ :=
  match s.printing, s.todo with
  | some p, _ => pollOut p s
  | none, buf :: todo => printUart buf { s with todo := todo }
  | none, [] => getMessage s

/-- A run of `serial_cb`. -/
def serialInterrupt (rx : Option (List UInt8)) (s : System μ) : System μ :=
  let b := serialCb s.toBoard rx
  { s with toBoard := b, log := s.log ++ (b.puts.drop s.puts.length).map .put }

inductive Step where
  | serialCb (rx : Option (List UInt8))
  | thread
  deriving DecidableEq, Repr

def System.step (s : System μ) : Step → System μ
  | .serialCb rx => serialInterrupt rx s
  | .thread => threadEchoBot s

def System.run (schedule : List Step) (s : System μ) : System μ := schedule.foldl System.step s

/-- `thread_echo_bot` behind `uart_irq_rx_enable`, which it reaches when the device is ready:
`tx_buf` is a local array and holds anything. -/
def start (txBuf : List UInt8) : System μ where
  toBoard := init
  txBuf := txBuf
  printing := none
  todo := [.literal "Hello! I'm your echo bot.\r\n",
    .literal "Tell me something and press enter:\r\n"]
  log := []

/-! ## §2 — what the echo bot is to do. -/

/-- The calls of `k_msgq_put`. -/
def puts (t : List Event) : List Put :=
  t.filterMap fun
    | .put put => some put
    | _ => none

/-- The messages the queue took. -/
def queued (t : List Event) : List (List UInt8) :=
  t.filterMap fun
    | .put ⟨message, true⟩ => some message
    | _ => none

/-- The messages the thread took out. -/
def gets (t : List Event) : List (List UInt8) :=
  t.filterMap fun
    | .get message => some message
    | _ => none

/-- The bytes printed. -/
def printed (t : List Event) : List UInt8 :=
  t.filterMap fun
    | .pollOut c => some c
    | _ => none

def greeting : List UInt8 :=
  literal "Hello! I'm your echo bot.\r\n" ++ literal "Tell me something and press enter:\r\n"

/-- What is printed for a text. -/
def block (text : List UInt8) : List UInt8 := literal "Echo_xxx: " ++ text ++ literal "\r\n"

/-- What is printed for some messages. -/
def blocks (messages : List (List UInt8)) : List UInt8 :=
  messages.flatMap fun m => block (cString m)

/-- A message is lost only when 10 wait. -/
def LostEvent (before : List Event) (e : Event) : Prop :=
  ∀ message, e = .put ⟨message, false⟩ → ((queued before).drop (gets before).length).length = 10

/-- **`Echoed s stream`** — the echo bot is what it should be, in the state `s` reached when
`stream` has been received. -/
structure Echoed (s : System μ) (stream : List UInt8) : Prop where
  output : printed s.log <+: greeting ++ blocks (gets s.log)
  /-- A message is taken out when the blocks before it are complete. -/
  complete : ∀ earlier m, gets s.log = earlier ++ [m] →
    greeting ++ blocks earlier <+: printed s.log
  /-- A thread that waits has printed everything. -/
  idle : s.printing = none → s.todo = [] →
    printed s.log = greeting ++ blocks (gets s.log)
  order : gets s.log <+: queued s.log
  completed : (puts s.log).map (fun put => cString put.message) =
    (assembled stream).done.map fun m => cString (m.take (msgSize - 1))
  lost : Always LostEvent s.log
  rxBufPos : s.rxBufPos ≤ msgSize - 1
  terminated : ∀ m ∈ queued s.log, m.length = msgSize ∧ 0 ∈ m
  inBounds : Event.overread ∉ s.log

theorem blocks_concat (earlier : List (List UInt8)) (m : List UInt8) :
    blocks (earlier ++ [m]) = blocks earlier ++ block (cString m) := by
  rw [blocks, List.flatMap_append, List.flatMap_singleton]
  rfl

/-! ## §3 — the queue. -/

/-- **`Queue t q`** — the queue `q` against the history `t`. -/
structure Queue (t : List Event) (q : μ) : Prop where
  maxMsgs : maxMsgs q = 10
  length_le : (messages q).length ≤ 10
  order : queued t = gets t ++ messages q
  lost : Always LostEvent t

section Queue

variable {t : List Event} {q q' : μ} {m : List UInt8}

theorem Queue.waiting (h : Queue t q) : (queued t).drop (gets t).length = messages q := by
  rw [h.order, List.drop_left]

omit [MsgQueueGet μ (List UInt8)] in
/-- An event that loses no message. -/
theorem lost_snoc (h : Always LostEvent t) {e : Event} (he : ∀ message, e ≠ .put ⟨message, false⟩) :
    Always LostEvent (t ++ [e]) :=
  always_snoc.mpr ⟨h, fun message heq => absurd heq (he message)⟩

/-- A message queued. -/
theorem Queue.put (h : Queue t q) (hput : msgqPut q m = some q') :
    Queue (t ++ [.put ⟨m, true⟩]) q' := by
  obtain ⟨hmessages, hmax⟩ := messages_of_msgqPut hput
  have hroom := room_of_msgqPut hput
  have horder := h.order
  refine ⟨hmax.trans h.maxMsgs, ?_, ?_, lost_snoc h.lost (by simp)⟩
  · rw [h.maxMsgs] at hroom
    rw [hmessages, List.length_append]
    exact hroom
  · simp [queued, gets, hmessages] at horder ⊢
    rw [horder, List.append_assoc]

/-- A message lost. -/
theorem Queue.putFull (h : Queue t q) (hput : msgqPut q m = none) :
    Queue (t ++ [.put ⟨m, false⟩]) q := by
  have horder := h.order
  refine ⟨h.maxMsgs, h.length_le, ?_, ?_⟩
  · simpa [queued, gets] using horder
  · rw [always_snoc]
    refine ⟨h.lost, ?_⟩
    intro message _
    have hfull := full_of_msgqPut hput
    rw [h.maxMsgs] at hfull
    rw [h.waiting]
    exact Nat.le_antisymm h.length_le hfull

/-- A message taken out. -/
theorem Queue.get (h : Queue t q) (hget : msgqGet q = some (m, q')) :
    Queue (t ++ [.get m]) q' := by
  obtain ⟨hmessages, hmax⟩ := messages_of_msgqGet hget
  have horder := h.order
  have hlen := h.length_le
  rw [hmessages] at horder hlen
  refine ⟨hmax.trans h.maxMsgs, Nat.le_of_succ_le hlen, ?_, lost_snoc h.lost (by simp)⟩
  simp [queued, gets] at horder ⊢
  exact horder

/-- A byte printed. -/
theorem Queue.pollOut (h : Queue t q) (c : UInt8) : Queue (t ++ [.pollOut c]) q := by
  have horder := h.order
  refine ⟨h.maxMsgs, h.length_le, ?_, lost_snoc h.lost (by simp)⟩
  simpa [queued, gets] using horder

/-- What a received byte does to the queue. -/
theorem receiveByte_put (b : Board μ) (c : UInt8) :
    ((receiveByte b c).puts = b.puts ∧ (receiveByte b c).uartMsgq = b.uartMsgq) ∨
    (∃ m, (receiveByte b c).puts = b.puts ++ [⟨m, true⟩] ∧
      msgqPut b.uartMsgq m = some (receiveByte b c).uartMsgq) ∨
    ∃ m, (receiveByte b c).puts = b.puts ++ [⟨m, false⟩] ∧
      msgqPut b.uartMsgq m = none ∧ (receiveByte b c).uartMsgq = b.uartMsgq := by
  by_cases hend : isTerminator c = true ∧ 0 < b.rxBufPos
  · rw [receiveByte_of_end hend]
    unfold putMessage
    cases hput : msgqPut b.uartMsgq (b.rxBuf.set b.rxBufPos 0) with
    | none => exact Or.inr (Or.inr ⟨_, rfl, hput, rfl⟩)
    | some q => exact Or.inr (Or.inl ⟨_, rfl, hput⟩)
  · rw [receiveByte_of_keep hend]
    split
    · exact Or.inl ⟨rfl, rfl⟩
    · exact Or.inl ⟨rfl, rfl⟩

/-- **A run of `serial_cb`**: it adds its puts, one after the other. -/
theorem Queue.interrupt {b : Board μ} (h : Queue t b.uartMsgq) (rx : Option (List UInt8)) :
    ∃ news, (serialCb b rx).puts = b.puts ++ news ∧
      Queue (t ++ news.map .put) (serialCb b rx).uartMsgq := by
  cases rx with
  | none => exact ⟨[], (List.append_nil _).symm, by simpa [serialCb] using h⟩
  | some bytes =>
    show ∃ news, (bytes.foldl receiveByte b).puts = b.puts ++ news ∧
      Queue (t ++ news.map .put) (bytes.foldl receiveByte b).uartMsgq
    induction bytes generalizing b t with
    | nil => exact ⟨[], by simp, by simpa using h⟩
    | cons c bytes ih =>
      -- the puts of the first byte, and behind them those of the rest
      obtain ⟨first, hputs, hfirst⟩ : ∃ first, (receiveByte b c).puts = b.puts ++ first ∧
          Queue (t ++ first.map .put) (receiveByte b c).uartMsgq := by
        rcases receiveByte_put b c with ⟨hputs, hq⟩ | ⟨m, hputs, hput⟩ | ⟨m, hputs, hput, hq⟩
        · exact ⟨[], by simp [hputs], by simpa [hq] using h⟩
        · exact ⟨[⟨m, true⟩], hputs, h.put hput⟩
        · refine ⟨[⟨m, false⟩], hputs, ?_⟩
          rw [hq]
          exact h.putFull hput
      obtain ⟨news, hrest, hqueue⟩ := ih hfirst
      refine ⟨first ++ news, ?_, ?_⟩
      · rw [List.foldl_cons, hrest, hputs, List.append_assoc]
      · rw [List.map_append, ← List.append_assoc]
        exact hqueue

end Queue

/-! ## §4 — the prints. -/

/-- What the thread still prints before the next `k_msgq_get`. -/
def pending {μ : Type} (s : System μ) : List UInt8 :=
  (match s.printing with
    | none => []
    | some p => (cString (s.array p.buf)).drop p.i) ++
  s.todo.flatMap fun buf => cString (s.array buf)

/-- **`Prints s`** — the prints, with what is still to come, are the greeting and the blocks; the
arrays to be printed hold a NUL. -/
structure Prints {μ : Type} (s : System μ) : Prop where
  output : printed s.log ++ pending s = greeting ++ blocks (gets s.log)
  complete : ∀ earlier m, gets s.log = earlier ++ [m] →
    greeting ++ blocks earlier <+: printed s.log
  todo : ∀ buf ∈ s.todo, 0 ∈ s.array buf
  printing : ∀ p ∈ s.printing,
    p.msgLen = (cString (s.array p.buf)).length ∧ p.i ≤ p.msgLen
  inBounds : Event.overread ∉ s.log

omit [MsgQueueGet μ (List UInt8)] in
/-- One event more that takes no message out: what is printed with it is due. -/
theorem Prints.snoc {s s' : System μ} (h : Prints s) {e : Event} (hlog : s'.log = s.log ++ [e])
    (hgets : gets [e] = []) (hpending : printed [e] ++ pending s' = pending s)
    (htodo : ∀ buf ∈ s'.todo, 0 ∈ s'.array buf)
    (hprinting : ∀ p ∈ s'.printing,
      p.msgLen = (cString (s'.array p.buf)).length ∧ p.i ≤ p.msgLen)
    (hread : e ≠ .overread) : Prints s' := by
  have hg : gets s'.log = gets s.log := by
    rw [hlog, gets, List.filterMap_append, ← gets, ← gets, hgets, List.append_nil]
  have ho : printed s'.log = printed s.log ++ printed [e] := by
    rw [hlog, printed, List.filterMap_append]
    rfl
  refine ⟨?_, ?_, htodo, hprinting, ?_⟩
  · rw [ho, hg, List.append_assoc, hpending]
    exact h.output
  · intro earlier m hm
    rw [ho]
    exact (h.complete earlier m (hg ▸ hm)).trans (List.prefix_append _ _)
  · rw [hlog, List.mem_append, List.mem_singleton]
    rintro (hmem | rfl)
    · exact h.inBounds hmem
    · exact hread rfl

/-- A literal ends with a NUL. -/
theorem nul_mem_literal (text : String) : 0 ∈ literal text ++ [0] :=
  List.mem_append_right _ (List.mem_singleton.mpr rfl)

section Prints

variable {s : System μ}

omit [MsgQueueGet μ (List UInt8)] in
/-- A turn of the loop of `print_uart`. -/
theorem Prints.turn (h : Prints s) {p : PrintUart} (hp : s.printing = some p) :
    Prints (pollOut p s) ∧ (pollOut p s).toBoard = s.toBoard ∧
      ((pollOut p s).log = s.log ∨
        ∃ c, (pollOut p s).log = s.log ++ [.pollOut c]) := by
  obtain ⟨hlen, hi⟩ := h.printing p hp
  unfold pollOut
  by_cases hlt : p.i < p.msgLen
  · obtain ⟨c, hc, hdrop⟩ : ∃ c, (s.array p.buf)[p.i]? = some c ∧
        (cString (s.array p.buf)).drop p.i = c :: (cString (s.array p.buf)).drop (p.i + 1) :=
      Memory.exists_getElem_of_lt_length_cString (hlen ▸ hlt)
    rw [if_pos hlt, hc]
    refine ⟨h.snoc rfl rfl ?_ h.todo ?_ (by simp), rfl, Or.inr ⟨c, rfl⟩⟩
    · rw [pending, pending, hp]
      show c :: ((cString (s.array p.buf)).drop (p.i + 1) ++ _) = _
      rw [← List.cons_append]
      exact congrArg (· ++ _) hdrop.symm
    · intro p' hp'
      obtain rfl : _ = p' := Option.some.inj hp'
      exact ⟨hlen, hlt⟩
  · -- the loop ends: nothing of the array is left
    have hdone : (cString (s.array p.buf)).drop p.i = [] :=
      List.drop_eq_nil_of_le (by omega)
    rw [if_neg hlt]
    refine ⟨⟨?_, h.complete, h.todo, by simp, h.inBounds⟩, rfl, Or.inl rfl⟩
    have hout := h.output
    rw [pending, hp] at hout
    show printed s.log ++ ([] ++ s.todo.flatMap fun buf => cString (s.array buf)) = _
    rw [← hdone]
    exact hout

omit [MsgQueueGet μ (List UInt8)] in
/-- A call of `print_uart`. -/
theorem Prints.call (h : Prints s) (hp : s.printing = none) {buf : Buf} {todo : List Buf}
    (htodo : s.todo = buf :: todo) :
    ∃ p, printUart buf { s with todo := todo } =
        { s with todo := todo, printing := some p } ∧
      Prints { s with todo := todo, printing := some p } := by
  have hall := h.todo
  rw [htodo, List.forall_mem_cons] at hall
  obtain ⟨hnul, hrest⟩ := hall
  refine ⟨⟨buf, (cString (s.array buf)).length, 0⟩, ?_, ?_, h.complete, hrest, ?_, h.inBounds⟩
  · have hstrlen : strlen (s.array buf) = some (cString (s.array buf)).length :=
      Memory.strlen_of_mem hnul
    show (match strlen (s.array buf) with
      | none => _
      | some msgLen => _) = _
    rw [hstrlen]
  · have hout := h.output
    rw [pending, hp, htodo] at hout
    exact hout
  · intro p' hp'
    obtain rfl : _ = p' := Option.some.inj hp'
    exact ⟨rfl, Nat.zero_le _⟩

omit [MsgQueueGet μ (List UInt8)] in
/-- A message taken out: everything before it is printed, and its block is due. -/
theorem Prints.take (h : Prints s) (hp : s.printing = none) (htodo : s.todo = [])
    {message : List UInt8} (hnul : 0 ∈ message) (q : μ) :
    Prints { s with
      uartMsgq := q
      txBuf := message
      todo := [.literal "Echo_xxx: ", .txBuf, .literal "\r\n"]
      log := s.log ++ [.get message] } := by
  have hout := h.output
  rw [pending, hp, htodo, List.flatMap_nil, List.append_nil, List.append_nil] at hout
  have hg : gets (s.log ++ [.get message]) = gets s.log ++ [message] := by
    simp [gets]
  have ho : printed (s.log ++ [.get message]) = printed s.log := by
    simp [printed]
  refine ⟨?_, ?_, ?_, by simp [hp], ?_⟩
  · show printed (s.log ++ [.get message]) ++ _ = _ ++ blocks (gets (s.log ++ _))
    rw [ho, hg, hout, blocks_concat, ← List.append_assoc]
    apply congrArg
    rw [pending, hp]
    show ([] : List UInt8) ++ (cString (literal "Echo_xxx: " ++ [0]) ++
      (cString message ++ (cString (literal "\r\n" ++ [0]) ++ []))) = _
    have hecho : cString (literal "Echo_xxx: " ++ [0]) = literal "Echo_xxx: " := by decide
    have hcrlf : cString (literal "\r\n" ++ [0]) = literal "\r\n" := by decide
    rw [hecho, hcrlf, List.nil_append, List.append_nil, block, List.append_assoc]
  · intro earlier m hm
    change gets (s.log ++ [.get message]) = _ at hm
    show _ <+: printed (s.log ++ [.get message])
    rw [hg] at hm
    rw [ho, hout, (List.append_inj' hm rfl).1]
  · rw [List.forall_mem_cons, List.forall_mem_cons, List.forall_mem_singleton]
    exact ⟨nul_mem_literal _, hnul, nul_mem_literal _⟩
  · show Event.overread ∉ s.log ++ [.get message]
    rw [List.mem_append, List.mem_singleton]
    rintro (hmem | heq)
    · exact h.inBounds hmem
    · cases heq

end Prints

omit [MsgQueueGet μ (List UInt8)] in
/-- **The step lemma of the interrupt**: it prints nothing and leaves `tx_buf` alone. -/
theorem Prints.interrupt {s : System μ} (h : Prints s) (b : Board μ) (news : List Put) :
    Prints { s with toBoard := b, log := s.log ++ news.map .put } := by
  have hg : gets (s.log ++ news.map .put) = gets s.log := by
    rw [gets, List.filterMap_append, List.filterMap_map]
    simp [gets]
  have ho : printed (s.log ++ news.map .put) = printed s.log := by
    rw [printed, List.filterMap_append, List.filterMap_map]
    simp [printed]
  refine ⟨?_, ?_, h.todo, h.printing, ?_⟩
  · show printed (s.log ++ _) ++ _ = _ ++ blocks (gets (s.log ++ _))
    rw [hg, ho]
    exact h.output
  · intro earlier m hm
    show _ <+: printed (s.log ++ _)
    rw [ho]
    exact h.complete earlier m (hg ▸ hm)
  · show Event.overread ∉ s.log ++ news.map .put
    simpa using h.inBounds

/-! ## §5 — every run. -/

/-- **`Inv s stream`** — what holds when `stream` has been received. -/
structure Inv (s : System μ) (stream : List UInt8) : Prop where
  puts : puts s.log = s.puts
  buffered : Buffered s.toBoard (assembled stream)
  queue : Queue s.log s.uartMsgq
  prints : Prints s

section Inv

variable {s : System μ} {stream : List UInt8}

/-- Every message queued was a buffer with a NUL in it. -/
theorem Inv.terminated (h : Inv s stream) : ∀ m ∈ queued s.log, m.length = msgSize ∧ 0 ∈ m := by
  intro m hm
  obtain ⟨e, he, hsome⟩ := List.mem_filterMap.mp hm
  have hput : (⟨m, true⟩ : Put) ∈ s.puts := by
    rw [← h.puts]
    apply List.mem_filterMap.mpr
    refine ⟨e, he, ?_⟩
    split at hsome
    · cases hsome
      rfl
    · cases hsome
  exact h.buffered.terminated _ hput

/-- An interrupt. -/
theorem Inv.interrupt (h : Inv s stream) (rx : Option (List UInt8)) :
    Inv (serialInterrupt rx s) (stream ++ rx.getD []) := by
  obtain ⟨news, hputs, hqueue⟩ := h.queue.interrupt rx
  have heq : serialInterrupt rx s =
      { s with toBoard := serialCb s.toBoard rx, log := s.log ++ news.map .put } := by
    rw [serialInterrupt, hputs, List.drop_left]
  rw [heq]
  refine ⟨?_, h.buffered.serialCb rx, hqueue, h.prints.interrupt _ _⟩
  show MainEchoBot.puts (s.log ++ news.map .put) = _
  rw [hputs, ← h.puts, MainEchoBot.puts, List.filterMap_append, List.filterMap_map]
  simp [MainEchoBot.puts]

/-- A step of the thread. -/
theorem Inv.thread (h : Inv s stream) : Inv (threadEchoBot s) stream := by
  unfold threadEchoBot
  split
  · rename_i p hp
    obtain ⟨hprints, hboard, hlog⟩ := h.prints.turn hp
    have hputs : MainEchoBot.puts (pollOut p s).log = MainEchoBot.puts s.log := by
      rcases hlog with hlog | ⟨c, hlog⟩
      · rw [hlog]
      · simp [hlog, MainEchoBot.puts]
    have hqueue : Queue (pollOut p s).log s.uartMsgq := by
      rcases hlog with hlog | ⟨c, hlog⟩
      · rw [hlog]
        exact h.queue
      · rw [hlog]
        exact h.queue.pollOut c
    refine ⟨?_, ?_, ?_, hprints⟩
    · rw [hputs, hboard]
      exact h.puts
    · rw [hboard]
      exact h.buffered
    · rw [hboard]
      exact hqueue
  · rename_i buf todo hp htodo
    obtain ⟨p, heq, hprints⟩ := h.prints.call hp htodo
    rw [heq]
    exact ⟨h.puts, h.buffered, h.queue, hprints⟩
  · rename_i hp htodo
    unfold getMessage
    split
    · exact h
    · rename_i message q hget
      have hmem : message ∈ queued s.log := by
        rw [h.queue.order, (messages_of_msgqGet hget).1]
        exact List.mem_append_right _ List.mem_cons_self
      refine ⟨?_, ?_, h.queue.get hget, h.prints.take hp htodo (h.terminated _ hmem).2 q⟩
      · show MainEchoBot.puts (s.log ++ [.get message]) = _
        rw [← h.puts]
        simp [MainEchoBot.puts]
      · exact ⟨h.buffered.length_rxBuf, h.buffered.rxBufPos, h.buffered.rxBuf, h.buffered.puts⟩

end Inv

/-- The bytes received by a schedule. -/
def stream (schedule : List Step) : List UInt8 :=
  schedule.flatMap fun
    | .serialCb rx => rx.getD []
    | .thread => []

theorem inv_start (txBuf : List UInt8) : Inv (start txBuf : System μ) [] := by
  refine ⟨rfl, ?_, ?_, ?_⟩
  · exact ⟨List.length_replicate, rfl, rfl, List.Forall₂.nil⟩
  · have hempty : messages (msgqInit 10 : μ) = [] := MsgQueue.messages_msgqInit 10
    refine ⟨MsgQueue.maxMsgs_msgqInit 10, ?_, ?_, always_nil _⟩
    · show (messages (msgqInit 10 : μ)).length ≤ 10
      rw [hempty]
      exact Nat.zero_le _
    · show [] = [] ++ messages (msgqInit 10 : μ)
      rw [hempty]
      rfl
  · refine ⟨?_, ?_, ?_, by simp [start], List.not_mem_nil⟩
    · show cString (literal "Hello! I'm your echo bot.\r\n" ++ [0]) ++
        (cString (literal "Tell me something and press enter:\r\n" ++ [0]) ++ []) = greeting ++ []
      decide
    · intro earlier m hm
      cases earlier <;> cases hm
    · intro buf hbuf
      rcases List.mem_pair.mp hbuf with rfl | rfl
      · exact nul_mem_literal _
      · exact nul_mem_literal _

theorem inv_run (schedule : List Step) (txBuf : List UInt8) :
    Inv ((start txBuf : System μ).run schedule) (stream schedule) := by
  induction schedule using List.reverseRecOn with
  | nil => exact inv_start txBuf
  | append_singleton schedule a ih =>
    rw [System.run, List.foldl_append, stream, List.flatMap_append, List.flatMap_singleton]
    cases a with
    | serialCb rx => exact ih.interrupt rx
    | thread =>
      rw [List.append_nil]
      exact ih.thread

/-- **The echo bot.** Under every interleaving of interrupts and steps of the thread, whatever is
received and whatever `tx_buf` held: the bytes printed are the greeting and the blocks of the
messages taken out; these are the messages queued, in order and each once; a message is lost only
when 10 wait; and nothing is read beyond an array. -/
theorem echo_bot_echoes (schedule : List Step) (txBuf : List UInt8) :
    Echoed ((start txBuf : System μ).run schedule) (stream schedule) := by
  have hinv : Inv ((start txBuf : System μ).run schedule) (stream schedule) :=
    inv_run schedule txBuf
  generalize (start txBuf : System μ).run schedule = s at hinv
  have hout := hinv.prints.output
  refine ⟨⟨_, hout⟩, hinv.prints.complete, ?_, ⟨_, hinv.queue.order.symm⟩, ?_, hinv.queue.lost, ?_,
    hinv.terminated, hinv.prints.inBounds⟩
  · intro hp htodo
    rw [pending, hp, htodo, List.flatMap_nil, List.append_nil, List.append_nil] at hout
    exact hout
  · rw [hinv.puts]
    exact hinv.buffered.strings
  · rw [hinv.buffered.rxBufPos]
    exact Nat.min_le_right _ _

end EchoBot.MainEchoBot
