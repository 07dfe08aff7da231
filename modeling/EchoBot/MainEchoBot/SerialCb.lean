/-
# EchoBot.MainEchoBot.SerialCb — how the echo bot assembles its lines

`serial_cb` gathers bytes in `rx_buf` and puts the buffer into `uart_msgq` when a line ends. The
test for the end is joined with `rx_buf_pos > 0`, so that empty lines produce nothing; but the
branch behind it stores whatever comes, and a terminator at position 0 IS stored. It becomes the
first byte of the next message.

* `Assembled` is the accumulator without its array: the bytes kept since the last put.
* `assembled_cases` compares it with the lines of the stream. The two part at the first empty line
  that another terminator follows (`puts_are_lines_iff`), as in every CR LF with more input behind.
-/
import EchoBot.Memory.CString
import EchoBot.Stream.Lines
import EchoBot.Zephyr.Kernel
import Mathlib.Data.List.Basic
import Mathlib.Data.List.Forall2
import Mathlib.Data.List.Infix
import Mathlib.Tactic.Ring

namespace EchoBot.MainEchoBot

open EchoBot.Memory (cString)
open EchoBot.Stream
open EchoBot.Zephyr

/-! ## §1 — the program. -/

/-- `MSG_SIZE`. -/
def msgSize : Nat := 32

/-- `k_msgq_put` was called with `message`; `queued` is whether the queue had room. -/
structure Put where
  message : List UInt8
  queued : Bool
  deriving DecidableEq, Repr

structure Board (μ : Type) where
  rxBuf : List UInt8
  rxBufPos : Nat
  uartMsgq : μ
  /-- The calls of `k_msgq_put`, oldest first. -/
  puts : List Put

/-- `'\n'` or `'\r'`. -/
def isTerminator (c : UInt8) : Bool := c == 10 || c == 13

variable {μ : Type} [MsgQueue μ (List UInt8)]

/-- `k_msgq_put(&uart_msgq, &rx_buf, K_NO_WAIT)`; the result is not looked at. -/
def putMessage (b : Board μ) : Board μ :=
  match msgqPut b.uartMsgq b.rxBuf with
  | none => { b with puts := b.puts ++ [⟨b.rxBuf, false⟩] }
  | some q => { b with uartMsgq := q, puts := b.puts ++ [⟨b.rxBuf, true⟩] }

/-- The body of `while (uart_irq_rx_ready(uart_dev))`, for the byte `c`. -/
def receiveByte (b : Board μ) (c : UInt8) : Board μ :=
  if (c == 10 || c == 13) && decide (0 < b.rxBufPos) then
    let b := { b with rxBuf := b.rxBuf.set b.rxBufPos 0 }
    let b := putMessage b
    { b with rxBufPos := 0 }
  else if b.rxBufPos < msgSize - 1 then
    { b with rxBuf := b.rxBuf.set b.rxBufPos c, rxBufPos := b.rxBufPos + 1 }
  else b

/-- `serial_cb`. `rx` is `none` when `uart_irq_update` returned 0, and else the bytes
`uart_fifo_read` gives. -/
def serialCb (b : Board μ) (rx : Option (List UInt8)) : Board μ :=
  match rx with
  | none => b
  | some bytes => bytes.foldl receiveByte b

def run (interrupts : List (Option (List UInt8))) (b : Board μ) : Board μ :=
  interrupts.foldl serialCb b

/-- The board at start-up: `rx_buf` is static. -/
def init : Board μ where
  rxBuf := List.replicate msgSize 0
  rxBufPos := 0
  uartMsgq := msgqInit 10
  puts := []

/-- The bytes some interrupts receive. -/
def rxStream (interrupts : List (Option (List UInt8))) : List UInt8 :=
  interrupts.flatMap fun rx => rx.getD []

/-! ## §2 — the accumulator without its array. -/

/-- The messages put, before they are cut to the buffer, and the bytes kept since. -/
structure Assembled where
  done : List (List UInt8)
  kept : List UInt8

/-- One byte: a terminator ends a message that is not empty, everything else is kept. -/
def Assembled.push (a : Assembled) (c : UInt8) : Assembled :=
  if isTerminator c = true ∧ a.kept ≠ [] then ⟨a.done ++ [a.kept], []⟩ else ⟨a.done, a.kept ++ [c]⟩

def assembled (s : List UInt8) : Assembled := s.foldl Assembled.push ⟨[], []⟩

theorem assembled_snoc (s : List UInt8) (c : UInt8) :
    assembled (s ++ [c]) = (assembled s).push c := by
  rw [assembled, List.foldl_append]
  rfl

/-- **`Buffered b a`** — the board holds the accumulator `a`: the first 31 bytes of what is kept are
in `rx_buf`, and each array put had the first 31 bytes of a message done, and a NUL behind them. -/
structure Buffered (b : Board μ) (a : Assembled) : Prop where
  length_rxBuf : b.rxBuf.length = msgSize
  rxBufPos : b.rxBufPos = min a.kept.length (msgSize - 1)
  rxBuf : b.rxBuf.take b.rxBufPos = a.kept.take (msgSize - 1)
  puts : List.Forall₂ (fun put m => put.message.length = msgSize ∧
    ∃ rest, put.message = m.take (msgSize - 1) ++ 0 :: rest) b.puts a.done

theorem putMessage_eq (b : Board μ) :
    ∃ q queued, putMessage b = { b with uartMsgq := q, puts := b.puts ++ [⟨b.rxBuf, queued⟩] } := by
  unfold putMessage
  cases msgqPut b.uartMsgq b.rxBuf with
  | none => exact ⟨b.uartMsgq, false, rfl⟩
  | some q => exact ⟨q, true, rfl⟩

section Byte

variable {b : Board μ} {a : Assembled} {c : UInt8}

/-- A terminator behind at least one byte. -/
theorem receiveByte_of_end (hend : isTerminator c = true ∧ 0 < b.rxBufPos) :
    receiveByte b c =
      { putMessage { b with rxBuf := b.rxBuf.set b.rxBufPos 0 } with rxBufPos := 0 } := by
  apply if_pos
  rw [Bool.and_eq_true, decide_eq_true_eq]
  exact hend

/-- Every other byte, a terminator at position 0 among them. -/
theorem receiveByte_of_keep (hkeep : ¬ (isTerminator c = true ∧ 0 < b.rxBufPos)) :
    receiveByte b c =
      if b.rxBufPos < msgSize - 1 then
        { b with rxBuf := b.rxBuf.set b.rxBufPos c, rxBufPos := b.rxBufPos + 1 }
      else b := by
  apply if_neg
  rw [Bool.and_eq_true, decide_eq_true_eq]
  exact hkeep

omit [MsgQueue μ (List UInt8)] in
theorem Buffered.rxBufPos_pos_iff (hb : Buffered b a) : 0 < b.rxBufPos ↔ a.kept ≠ [] := by
  have hpos := hb.rxBufPos
  have hsize : msgSize = 32 := rfl
  rw [← List.length_pos_iff]
  omega

omit [MsgQueue μ (List UInt8)] in
/-- The array put for a message done: the bytes kept, the NUL, and whatever an earlier line left. -/
theorem Buffered.set_rxBuf (hb : Buffered b a) :
    b.rxBuf.set b.rxBufPos 0 =
      a.kept.take (msgSize - 1) ++ 0 :: b.rxBuf.drop (b.rxBufPos + 1) := by
  have hlt : b.rxBufPos < b.rxBuf.length := by
    have hpos := hb.rxBufPos
    have hlen := hb.length_rxBuf
    have hsize : msgSize = 32 := rfl
    omega
  rw [List.set_eq_take_append_cons_drop, if_pos hlt, hb.rxBuf]

/-- A message done. -/
theorem Buffered.putMessage (hb : Buffered b a) :
    Buffered { putMessage { b with rxBuf := b.rxBuf.set b.rxBufPos 0 } with rxBufPos := 0 }
      ⟨a.done ++ [a.kept], []⟩ := by
  have hlen : (b.rxBuf.set b.rxBufPos 0).length = msgSize := by
    rw [List.length_set]
    exact hb.length_rxBuf
  obtain ⟨q, queued, hput⟩ := putMessage_eq { b with rxBuf := b.rxBuf.set b.rxBufPos 0 }
  rw [hput]
  refine ⟨hlen, rfl, rfl, ?_⟩
  apply List.rel_append hb.puts
  exact List.Forall₂.cons ⟨hlen, _, hb.set_rxBuf⟩ List.Forall₂.nil

omit [MsgQueue μ (List UInt8)] in
/-- A byte kept: it is stored while there is room for it and the NUL. -/
theorem Buffered.keep (hb : Buffered b a) (c : UInt8) :
    Buffered (if b.rxBufPos < msgSize - 1 then
        { b with rxBuf := b.rxBuf.set b.rxBufPos c, rxBufPos := b.rxBufPos + 1 }
      else b) ⟨a.done, a.kept ++ [c]⟩ := by
  have hlen := hb.length_rxBuf
  have hpos := hb.rxBufPos
  have hsize : msgSize = 32 := rfl
  have hkept : (a.kept ++ [c]).length = a.kept.length + 1 := List.length_append
  by_cases hroom : b.rxBufPos < msgSize - 1
  · have hcount : b.rxBufPos = a.kept.length := by omega
    have hbefore : a.kept.take (msgSize - 1) = a.kept := List.take_of_length_le (by omega)
    have hafter : (a.kept ++ [c]).take (msgSize - 1) = a.kept ++ [c] :=
      List.take_of_length_le (by omega)
    rw [if_pos hroom]
    refine ⟨?_, ?_, ?_, hb.puts⟩
    · rw [List.length_set]
      exact hlen
    · show b.rxBufPos + 1 = min (a.kept ++ [c]).length (msgSize - 1)
      omega
    · show (b.rxBuf.set b.rxBufPos c).take (b.rxBufPos + 1) = (a.kept ++ [c]).take (msgSize - 1)
      rw [List.set_eq_take_append_cons_drop, if_pos (by omega), hb.rxBuf, hbefore, hafter, hcount,
        List.take_length_add_append]
      rfl
  · -- the buffer is full, and the byte changes no prefix of 31 bytes
    have hlong : msgSize - 1 ≤ a.kept.length := by omega
    rw [if_neg hroom]
    refine ⟨hlen, ?_, ?_, hb.puts⟩
    · show b.rxBufPos = min (a.kept ++ [c]).length (msgSize - 1)
      omega
    · rw [List.take_append_of_le_length hlong]
      exact hb.rxBuf

/-- **The simulation step.** -/
theorem Buffered.receiveByte (hb : Buffered b a) (c : UInt8) :
    Buffered (receiveByte b c) (a.push c) := by
  unfold Assembled.push
  by_cases hend : isTerminator c = true ∧ a.kept ≠ []
  · rw [if_pos hend, receiveByte_of_end ⟨hend.1, hb.rxBufPos_pos_iff.mpr hend.2⟩]
    exact hb.putMessage
  · have hkeep : ¬ (isTerminator c = true ∧ 0 < b.rxBufPos) := by
      rwa [hb.rxBufPos_pos_iff]
    rw [if_neg hend, receiveByte_of_keep hkeep]
    exact hb.keep c

end Byte

/-- One interrupt. -/
theorem Buffered.serialCb {b : Board μ} {s : List UInt8} (hb : Buffered b (assembled s))
    (rx : Option (List UInt8)) : Buffered (serialCb b rx) (assembled (s ++ rx.getD [])) := by
  cases rx with
  | none =>
    rw [Option.getD_none, List.append_nil]
    exact hb
  | some bytes =>
    show Buffered (bytes.foldl MainEchoBot.receiveByte b) (assembled (s ++ bytes))
    induction bytes generalizing b s with
    | nil => rwa [List.append_nil]
    | cons c bytes ih =>
      have hone : Buffered (MainEchoBot.receiveByte b c) (assembled (s ++ [c])) := by
        rw [assembled_snoc]
        exact hb.receiveByte c
      simpa using ih hone

/-- **The board holds the accumulator in every state of every run.** -/
theorem buffered_run {interrupts : List (Option (List UInt8))} {b : Board μ} {s : List UInt8}
    (hb : Buffered b (assembled s)) :
    Buffered (run interrupts b) (assembled (s ++ rxStream interrupts)) := by
  induction interrupts generalizing b s with
  | nil => simpa [rxStream, run] using hb
  | cons rx interrupts ih =>
    have hrun := ih (hb.serialCb rx)
    rwa [List.append_assoc] at hrun

omit [MsgQueue μ (List UInt8)] in
/-- The strings put: every message done, cut to the buffer and at its first NUL. -/
theorem Buffered.strings {b : Board μ} {a : Assembled} (hb : Buffered b a) :
    b.puts.map (fun put => cString put.message) =
      a.done.map fun m => cString (m.take (msgSize - 1)) := by
  rw [← List.forall₂_eq_eq_eq, List.forall₂_map_left_iff, List.forall₂_map_right_iff]
  apply hb.puts.imp
  rintro put m ⟨-, rest, hmessage⟩
  rw [hmessage]
  exact Memory.cString_append_zero _ _

omit [MsgQueue μ (List UInt8)] in
/-- Every array put holds a NUL. -/
theorem Buffered.terminated {b : Board μ} {a : Assembled} (hb : Buffered b a) :
    ∀ put ∈ b.puts, put.message.length = msgSize ∧ 0 ∈ put.message := by
  have hall : List.Forall₂ (fun put _ => (put.message.length = msgSize ∧ 0 ∈ put.message) ∧ True)
      b.puts a.done := by
    apply hb.puts.imp
    rintro put m ⟨hlen, rest, hmessage⟩
    refine ⟨⟨hlen, ?_⟩, trivial⟩
    rw [hmessage]
    exact List.mem_append_right _ List.mem_cons_self
  exact ((List.forall₂_and_left _ _).mp hall).1

/-- **`Held b a`** — the board holds the accumulator `a`: the first 31 bytes of what is kept are in
`rx_buf`, and each message put was, as a C string, the first 31 bytes of one done. -/
structure Held (b : Board μ) (a : Assembled) : Prop where
  length_rxBuf : b.rxBuf.length = msgSize
  rxBufPos : b.rxBufPos = min a.kept.length (msgSize - 1)
  rxBuf : b.rxBuf.take b.rxBufPos = a.kept.take (msgSize - 1)
  kept_nulFree : ∀ c ∈ a.kept, c ≠ 0
  puts : b.puts.map (fun put => cString put.message) = a.done.map (List.take (msgSize - 1))

/-- Every byte of the accumulator is one of the stream. -/
theorem mem_of_mem_assembled {s : List UInt8} {c : UInt8} :
    (c ∈ (assembled s).kept → c ∈ s) ∧ ∀ m ∈ (assembled s).done, c ∈ m → c ∈ s := by
  induction s using List.reverseRecOn with
  | nil => simp [assembled]
  | append_singleton s c' ih =>
    obtain ⟨hkept, hdone⟩ := ih
    rw [assembled_snoc, Assembled.push]
    split
    · refine ⟨fun h => absurd h List.not_mem_nil, ?_⟩
      intro m hm hc
      rcases List.mem_append.mp hm with hm | hm
      · exact List.mem_append_left _ (hdone m hm hc)
      · rw [List.mem_singleton.mp hm] at hc
        exact List.mem_append_left _ (hkept hc)
    · refine ⟨?_, fun m hm hc => List.mem_append_left _ (hdone m hm hc)⟩
      intro hc
      rcases List.mem_append.mp hc with hc | hc
      · exact List.mem_append_left _ (hkept hc)
      · exact List.mem_append_right _ hc

/-- Over a stream without a NUL the strings put are the messages themselves. -/
theorem held_run {interrupts : List (Option (List UInt8))} {b : Board μ} {s : List UInt8}
    (hb : Buffered b (assembled s)) (hnul : ∀ c ∈ s ++ rxStream interrupts, c ≠ 0) :
    Held (run interrupts b) (assembled (s ++ rxStream interrupts)) := by
  have hrun : Buffered (run interrupts b) _ := buffered_run hb
  have hmem := @mem_of_mem_assembled (s ++ rxStream interrupts)
  refine ⟨hrun.length_rxBuf, hrun.rxBufPos, hrun.rxBuf, fun c hc => hnul c (hmem.1 hc), ?_⟩
  rw [hrun.strings]
  apply List.map_congr_left
  intro m hm
  apply Memory.cString_eq_self_iff.mpr
  exact fun c hc => hnul c (hmem.2 m hm (List.mem_of_mem_take hc))

/-! ## §3 — the accumulator and the lines of the stream. -/

/-- What the echo bot should put for a stream: each line that is not empty, cut to 31 bytes. -/
def lineMessages (s : List UInt8) : List (List UInt8) :=
  (lines isTerminator s).filterMap fun l =>
    if l.body = [] then none else some (l.body.take (msgSize - 1))

/-- Lines that are not empty are put one by one. -/
theorem lineMessages_of_nonempty {ls : List (Line UInt8)} (hls : ∀ l ∈ ls, l.body ≠ []) :
    (ls.filterMap fun l => if l.body = [] then none else some (l.body.take (msgSize - 1))) =
      (ls.map Line.body).map (List.take (msgSize - 1)) := by
  rw [List.map_map, ← List.filterMap_eq_map]
  exact List.filterMap_congr fun l hl => if_neg (hls l hl)

/-- **The accumulator against the lines.** As long as no line is empty they agree; behind an empty
line its terminator is kept; and once another terminator has come, a message with it is done. -/
theorem assembled_cases (s : List UInt8) :
    ((∀ l ∈ lines isTerminator s, l.body ≠ []) ∧
      (assembled s).kept = openLine isTerminator s ∧
      (assembled s).done = (lines isTerminator s).map Line.body) ∨
    (∃ ls t, lines isTerminator s = ls ++ [⟨[], t⟩] ∧ (∀ l ∈ ls, l.body ≠ []) ∧
      (assembled s).kept = t :: openLine isTerminator s ∧ (assembled s).done = ls.map Line.body) ∨
    ((∃ l ∈ (lines isTerminator s).dropLast, l.body = []) ∧
      ∃ m ∈ (assembled s).done, ∃ t rest, m = t :: rest ∧ isTerminator t = true) := by
  induction s using List.reverseRecOn with
  | nil => exact Or.inl ⟨by simp, rfl, rfl⟩
  | append_singleton s c ih =>
    rw [assembled_snoc, lines_snoc, openLine_snoc, Assembled.push]
    by_cases hc : isTerminator c = true
    · simp only [hc, if_true, true_and]
      rcases ih with ⟨hls, hkept, hdone⟩ | ⟨ls, t, heq, hls, hkept, hdone⟩ |
        ⟨⟨l, hl, hbody⟩, m, hm, hmt⟩
      · by_cases hopen : openLine isTerminator s = []
        · -- an empty line: its terminator is kept
          refine Or.inr (Or.inl ⟨lines isTerminator s, c, ?_, hls, ?_, ?_⟩)
          · rw [hopen]
          · simp [hkept, hopen]
          · simp [hkept, hopen, hdone]
        · refine Or.inl ⟨?_, ?_, ?_⟩
          · intro l hl
            rcases List.mem_append.mp hl with hl | hl
            · exact hls l hl
            · rw [List.mem_singleton.mp hl]
              exact hopen
          · simp [hkept, hopen]
          · simp [hkept, hopen, hdone]
      · -- the terminator of the empty line begins the message that ends here
        refine Or.inr (Or.inr ⟨⟨⟨[], t⟩, ?_, rfl⟩, t :: openLine isTerminator s, ?_, t, _, rfl, ?_⟩)
        · rw [List.dropLast_concat, heq]
          exact List.mem_append_right _ (List.mem_singleton.mpr rfl)
        · simp [hkept]
        · have hmem : (⟨[], t⟩ : Line UInt8) ∈ lines isTerminator s := by
            rw [heq]
            exact List.mem_append_right _ (List.mem_singleton.mpr rfl)
          exact (wellFormed_of_mem_lines _ hmem).last_term
      · refine Or.inr (Or.inr ⟨⟨l, ?_, hbody⟩, m, ?_, hmt⟩)
        · rw [List.dropLast_concat]
          exact List.mem_of_mem_dropLast hl
        · split
          · exact List.mem_append_left _ hm
          · exact hm
    · simp only [hc, Bool.false_eq_true, if_false, false_and]
      rcases ih with ⟨hls, hkept, hdone⟩ | ⟨ls, t, heq, hls, hkept, hdone⟩ | ⟨hl, hm⟩
      · exact Or.inl ⟨hls, by rw [hkept], hdone⟩
      · exact Or.inr (Or.inl ⟨ls, t, heq, hls, by rw [hkept]; rfl, hdone⟩)
      · exact Or.inr (Or.inr ⟨hl, hm⟩)

/-- **When the messages are the lines**: when no empty line comes before another line. -/
theorem assembled_eq_lineMessages_iff (s : List UInt8) :
    (assembled s).done.map (List.take (msgSize - 1)) = lineMessages s ↔
      ∀ l ∈ (lines isTerminator s).dropLast, l.body ≠ [] := by
  rcases assembled_cases s with ⟨hls, -, hdone⟩ | ⟨ls, t, heq, hls, -, hdone⟩ |
    ⟨⟨l, hl, hbody⟩, m, hm, t, rest, rfl, ht⟩
  · refine iff_of_true ?_ fun l hl => hls l (List.mem_of_mem_dropLast hl)
    rw [lineMessages, lineMessages_of_nonempty hls, hdone]
  · apply iff_of_true
    · rw [lineMessages, heq, List.filterMap_append, lineMessages_of_nonempty hls, hdone]
      simp
    · rw [heq, List.dropLast_concat]
      exact hls
  · refine iff_of_false ?_ fun h => h l hl hbody
    -- a message of the code begins with a terminator, and no line has one in its body
    intro hsame
    have hmem : (t :: rest).take (msgSize - 1) ∈ lineMessages s :=
      hsame ▸ List.mem_map_of_mem hm
    obtain ⟨l', hl', hcut⟩ := List.mem_filterMap.mp hmem
    split at hcut
    · cases hcut
    · have hhead : t ∈ l'.body := by
        refine List.mem_of_mem_take (i := msgSize - 1) ?_
        rw [Option.some.inj hcut]
        exact List.mem_cons_self
      have hclean := (wellFormed_of_mem_lines _ hl').body_clean t hhead
      exact absurd (ht.symm.trans hclean) (by decide)

/-- **When the echo bot assembles the lines.** For every NUL-free stream and every split of it over
interrupts, from any content of the buffer with `rx_buf_pos = 0`: the C strings put into the queue
are the non-empty lines of the stream, cut to 31 bytes, if and only if no empty line of it is
followed by another line. -/
theorem puts_are_lines_iff (interrupts : List (Option (List UInt8))) (b : Board μ)
    (hnul : ∀ c ∈ rxStream interrupts, c ≠ 0) (hbuf : b.rxBuf.length = msgSize)
    (hpos : b.rxBufPos = 0) (hputs : b.puts = []) :
    (run interrupts b).puts.map (fun put => cString put.message) =
        lineMessages (rxStream interrupts) ↔
      ∀ l ∈ (lines isTerminator (rxStream interrupts)).dropLast, l.body ≠ [] := by
  have hstart : Buffered b (assembled []) :=
    ⟨hbuf, hpos, by rw [hpos]; rfl, by rw [hputs]; exact List.Forall₂.nil⟩
  have hheld := held_run hstart hnul
  rw [hheld.puts]
  exact assembled_eq_lineMessages_iff (rxStream interrupts)

/-- Two lines, each ended by one terminator. -/
theorem puts_are_lines_iff_lf :
    (run [some [0x68, 0x69], none, some [10, 0x6F, 10]]
        (init : Board (ListQueue (List UInt8)))).puts.map (fun put => cString put.message) =
        lineMessages [0x68, 0x69, 10, 0x6F, 10] ↔
      ∀ l ∈ (lines isTerminator [0x68, 0x69, 10, 0x6F, 10]).dropLast, l.body ≠ [] :=
  puts_are_lines_iff [some [0x68, 0x69], none, some [10, 0x6F, 10]] init (by simp [rxStream])
    (by decide) rfl rfl

/-- Two lines ended by CR LF: the LF of the first begins the message of the second. -/
theorem crlf_spoils_next_message :
    ¬ ∀ interrupts : List (Option (List UInt8)), (∀ c ∈ rxStream interrupts, c ≠ 0) →
      (run interrupts (init : Board (ListQueue (List UInt8)))).puts.map
          (fun put => cString put.message) =
        lineMessages (rxStream interrupts) := by
  intro hclaim
  have hputs := hclaim [some [0x68, 0x69, 13, 10, 0x6F, 13, 10]] (by simp [rxStream])
  exact absurd hputs (by decide)

end EchoBot.MainEchoBot
