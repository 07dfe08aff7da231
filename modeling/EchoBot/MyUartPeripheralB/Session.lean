/-
# EchoBot.MyUartPeripheralB.Session — `main_my_uart_peripheral_b` end to end

The application registers `app_callback` and leaves the rest to interrupts: lines come in, each goes
back as `SEND:` and the line. `echo_end_to_end` follows the bytes all the way, from the stream the
UART receives to the buffers it is given: through the framer (`Receive`), the echo (`Echo`), the
queue (`StopAndWait`), the ring buffer's room (§2), and the rounds that empty it (`Progress`).

The protocol has a flaw that none of the parts shows. The peer is to answer each message with an
`OK` line; but that is a line like any other, and is echoed. So each answer makes another message,
and after one line the two never fall silent again (`answers_never_end`).
-/
import EchoBot.MyUartPeripheralB.Echo
import EchoBot.MyUartPeripheralB.Progress

namespace EchoBot.MyUartPeripheralB

open EchoBot.Stream
open EchoBot.Zephyr

variable {ρ τ : Type}

/-- `main_my_uart_peripheral_b`: a device that is ready gets the callback. -/
def mainMyUartPeripheralB (deviceIsReady : Bool) (b : Board ρ τ) : Board ρ τ :=
  if deviceIsReady then userSetCallback (some appCallback) b else b

/-! ## §1 — the echo along runs of both interrupts. -/

/-- A step that no thread makes. -/
def Step.IsInterrupt : Step → Prop
  | .uartInterrupt _ => True
  | .timerInterrupt => True
  | _ => False

section Echo

variable [OneShotTimer τ] {cfg : Config} {hN : 0 < cfg.rxBufSize} {stack : Stack} {b : Board ρ τ}

theorem EchoInv.timerInterrupt (hinv : EchoInv hN b) : EchoInv hN (timerInterrupt b) := by
  have hframe := timerInterrupt_rxFrame b
  refine ⟨hinv.toRxInv.frame hframe, hframe.callback.trans hinv.echo, ?_, ?_⟩
  all_goals
    rcases timerInterrupt_cases b with heq | ⟨due, -, -, heq⟩
  · rw [heq]
    exact hinv.echoed
  · rw [heq]
    simpa [sendCalls, delivered] using hinv.echoed
  · rw [heq]
    exact hinv.exact
  · rw [heq]
    simpa [sendCalls] using hinv.exact

variable [ItemRing ρ]

/-- **The echo invariant holds along every run of interrupts**, the timer's included. -/
theorem echoInv_session {steps : List (Nat × Step)} (hsteps : ∀ s ∈ steps, s.2.IsInterrupt) :
    EchoInv hN (run cfg stack steps (mainMyUartPeripheralB true (init cfg)) : Board ρ τ) := by
  refine @run_induction ρ τ _ cfg stack (EchoInv hN) _ Step.IsInterrupt ?_ ?_ ?_ ?_ ?_ ?_ _ hsteps
    _ ?_
  · intro b t hb
    exact ⟨hb.toRxInv.frame (.of_trace_eq rfl rfl rfl rfl), hb.echo, hb.echoed, hb.exact⟩
  · intro b data hsend
    cases hsend
  · intro b cb hset
    cases hset
  · intro b c hb
    exact hb.receiveByte c
  · intro b room hb
    exact hb.transmit room
  · intro b _ hb
    exact hb.timerInterrupt
  · exact ⟨rxInv_init appCallback, rfl, rfl, by
      simp [mainMyUartPeripheralB, userSetCallback, init, sendCalls]⟩

/-- The data the application sent back: the last piece of each line of the stream, which is the
line if it fits `rx_buf`. -/
theorem echoed_lines {steps : List (Nat × Step)} (hsteps : ∀ s ∈ steps, s.2.IsInterrupt) :
    (sendCalls (run .default stack steps (mainMyUartPeripheralB true (init .default)) :
        Board ρ τ).trace).map SendCall.data =
      (lines isTerminator (rxStream steps)).map (lastPiece 64) := by
  have hpos : 0 < Config.default.rxBufSize := by decide
  have hinv : EchoInv hpos (run .default stack steps (mainMyUartPeripheralB true (init .default)) :
      Board ρ τ) := echoInv_session hsteps
  have hstream := received_run Config.default stack steps
    (mainMyUartPeripheralB true (init .default) : Board ρ τ)
  rw [hinv.echoed, delivered_eq_segments, hinv.segments, framed_lines, hstream]
  rfl

end Echo

/-! ## §2 — the room in `tx_rb`. -/

/-- The words a call's item takes in the ring buffer. -/
def SendCall.words (call : SendCall) : Nat := (size32 (call.data.length + 5)).toNat + 1

/-- The words all calls take. -/
def callWords (t : List Event) : Nat := ((sendCalls t).map SendCall.words).sum

theorem callWords_append (t u : List Event) : callWords (t ++ u) = callWords t + callWords u := by
  simp [callWords]

theorem usedWords_sendItem (cfg : Config) (stack : Stack) (data : List UInt8)
    (b : Board ρ τ) (q : Bool) :
    usedWords [sendItem cfg stack data b] = (sendCall cfg stack data b q).words := by
  rw [sendCall_eq]
  exact (Nat.add_zero _).trans (congrArg (· + 1) (EchoBot.Memory.Frame.length_words _ _))

section Room

variable [BoundedItemRing ρ] {cfg : Config} {stack : Stack} {b b' : Board ρ τ}

/-- **`Roomy cfg b`** — the queue takes no more words than the calls made so far, and if these fit
the ring buffer all of them were accepted. -/
structure Roomy (cfg : Config) (b : Board ρ τ) : Prop where
  capacity : capacity b.txRb = cfg.txBufferingBufWords
  used : usedWords (items b.txRb) ≤ callWords b.trace
  accepted : callWords b.trace ≤ cfg.txBufferingBufWords →
    ∀ call ∈ sendCalls b.trace, call.queued = true

theorem Roomy.of_silent (hb : Roomy cfg b) (hrb : b'.txRb = b.txRb)
    (hcalls : sendCalls b'.trace = sendCalls b.trace) : Roomy cfg b' := by
  refine ⟨hrb ▸ hb.capacity, ?_, ?_⟩
  · rw [hrb, callWords, hcalls]
    exact hb.used
  · rw [callWords, hcalls]
    exact hb.accepted

theorem Roomy.userSendData (hb : Roomy cfg b) (data : List UInt8) :
    Roomy cfg (userSendData cfg stack data b) := by
  have hwords : ∀ q, callWords (b.trace ++ [.userSendData (sendCall cfg stack data b q)]) =
      callWords b.trace + usedWords [sendItem cfg stack data b] := by
    intro q
    rw [callWords_append, usedWords_sendItem cfg stack data b q]
    simp [callWords, sendCalls]
  have hroom : usedWords (items b.txRb ++ [sendItem cfg stack data b]) ≤
      callWords b.trace + usedWords [sendItem cfg stack data b] := by
    rw [usedWords_append]
    exact Nat.add_le_add_right hb.used _
  rcases userSendData_cases cfg stack data b with ⟨rb, hput, heq⟩ | ⟨hput, heq⟩
  · rw [heq]
    refine ⟨(BoundedItemRing.capacity_itemPut hput).trans hb.capacity, ?_, ?_⟩
    · rw [Board.log_trace, hwords]
      exact (congrArg usedWords (ItemRing.itemPut_some hput)).trans_le hroom
    · rw [Board.log_trace, hwords]
      intro hfits call hcall
      rw [sendCalls_append, List.mem_append] at hcall
      rcases hcall with hold | hnew
      · exact hb.accepted (by omega) call hold
      · rw [List.mem_singleton.mp hnew, sendCall_eq]
  · rw [heq]
    refine ⟨hb.capacity, ?_, ?_⟩
    · rw [Board.log_trace, hwords]
      exact hb.used.trans (Nat.le_add_right _ _)
    · -- a call is refused for want of room only, and then the calls do not fit
      rw [Board.log_trace, hwords]
      intro hfits
      obtain ⟨rb, haccepted⟩ := BoundedItemRing.itemPut_room
        (hroom.trans (hfits.trans hb.capacity.ge))
      cases hput.symm.trans haccepted

theorem roomy_run [OneShotTimer τ] (steps : List (Nat × Step)) (hb : Roomy cfg b) :
    Roomy cfg (run cfg stack steps b) := by
  refine tx_run_induction ?_ ?_ ?_ ?_ ?_ steps hb
  · intro b b' hframe hb
    refine hb.of_silent hframe.txRb ?_
    rcases hframe.trace with htrace | ⟨e, htrace, he⟩
    · rw [htrace]
    · rw [htrace, sendCalls_append, (readings_of_isNeutral he).2.2, List.append_nil]
  · intro b hb
    rcases releaseGuard_cases b with ⟨-, heq⟩ | ⟨-, heq⟩
    · rwa [heq]
    · rw [heq]
      exact hb.of_silent rfl ((sendCalls_append _ _).trans (List.append_nil _))
  · intro b data hb
    exact hb.userSendData data
  · intro b room hb
    rcases transmit_cases cfg stack room b with
      ⟨-, heq⟩ | ⟨-, -, heq⟩ | ⟨-, -, heq⟩ | ⟨item, rb, -, hget, heq⟩
    · rw [heq]
      exact hb.of_silent rfl rfl
    · rw [heq]
      exact hb.of_silent rfl rfl
    · rw [heq]
      exact hb.of_silent rfl rfl
    · rw [heq]
      obtain ⟨hitems, -⟩ := items_of_itemGet_ok hget
      have hcalls : sendCalls (b.trace ++ [.fifoFill b.now (itemBytes stack item b)
          (min room (itemBytes stack item b).length)]) = sendCalls b.trace :=
        (sendCalls_append _ _).trans (List.append_nil _)
      have hless : usedWords (items rb) ≤ usedWords (items b.txRb) := by
        rw [hitems, ← List.singleton_append, usedWords_append]
        exact Nat.le_add_left _ _
      refine ⟨(BoundedItemRing.capacity_itemGet hget).trans hb.capacity, ?_, ?_⟩
      · rw [Board.log_trace, callWords, hcalls]
        exact hless.trans hb.used
      · rw [Board.log_trace, callWords, hcalls]
        exact hb.accepted
  · intro b hb
    rcases timerInterrupt_cases b with heq | ⟨due, -, -, heq⟩
    · rwa [heq]
    · rw [heq]
      exact hb.of_silent rfl ((sendCalls_append _ _).trans (List.append_nil _))

end Room

/-! ## §3 — end to end. -/

/-- What the application makes of a line: `SEND:` and the line, or the last piece of a line that
does not fit `rx_buf`. -/
def echo (l : Line UInt8) : List UInt8 := sendPrefix ++ lastPiece 64 l

/-- The words its item takes in the ring buffer. -/
def echoWords (l : Line UInt8) : Nat := ((lastPiece 64 l).length + 5) / 4 + 2

/-- The messages accepted are those of all calls, if no call was refused. -/
theorem queued_of_accepted {t : List Event} (h : ∀ call ∈ sendCalls t, call.queued = true) :
    queued t = ((sendCalls t).map SendCall.data).map (sendPrefix ++ ·) := by
  induction t with
  | nil => rfl
  | cons e t ih =>
    rw [← List.singleton_append, sendCalls_append] at h
    obtain ⟨hone, hrest⟩ := List.forall_mem_append.mp h
    rw [← List.singleton_append, queued_append, sendCalls_append, List.map_append, List.map_append,
      ih hrest]
    congr 1
    cases e with
    | userSendData call =>
      have hcall : call.queued = true := hone call (by simp [sendCalls])
      simp [queued, sendCalls, hcall]
    | _ => rfl

section EndToEnd

variable [BoundedItemRing ρ] [OneShotTimer τ]

/-- The session of the application: `main_my_uart_peripheral_b`, then interrupts. -/
def session (stack : Stack) (steps : List (Nat × Step)) : Board ρ τ :=
  run .default stack steps (mainMyUartPeripheralB true (init .default))

variable {stack : Stack} {steps : List (Nat × Step)}

/-- A session is one of the runs from the initial board. -/
theorem session_eq_run :
    (session stack steps : Board ρ τ) =
      run .default stack ((0, .userSetCallback (some appCallback)) :: steps) (init .default) := rfl

theorem data_session (hsteps : ∀ s ∈ steps, s.2.IsInterrupt) :
    (sendCalls (session stack steps : Board ρ τ).trace).map SendCall.data =
      (lines isTerminator (rxStream steps)).map (lastPiece 64) := echoed_lines hsteps

/-- The calls of a session whose lines all fit the transmit buffer. -/
theorem sendCalls_session (hsteps : ∀ s ∈ steps, s.2.IsInterrupt)
    (hlines : ∀ l ∈ lines isTerminator (rxStream steps), l.body.length % 64 + 1 ≤ 58) :
    ∀ call ∈ sendCalls (session stack steps : Board ρ τ).trace, call.data.length ≤ 58 := by
  intro call hcall
  have hdata : call.data ∈ (lines isTerminator (rxStream steps)).map (lastPiece 64) := by
    rw [← @data_session ρ τ _ _ stack steps hsteps]
    exact List.mem_map_of_mem hcall
  obtain ⟨l, hl, heq⟩ := List.mem_map.mp hdata
  rw [← heq, length_lastPiece]
  exact hlines l hl

/-- The words the calls of a session take. -/
theorem callWords_session (hsteps : ∀ s ∈ steps, s.2.IsInterrupt)
    (hlines : ∀ l ∈ lines isTerminator (rxStream steps), l.body.length % 64 + 1 ≤ 58) :
    callWords (session stack steps : Board ρ τ).trace =
      ((lines isTerminator (rxStream steps)).map echoWords).sum := by
  have hwords : ∀ call ∈ sendCalls (session stack steps : Board ρ τ).trace,
      call.words = (call.data.length + 5) / 4 + 2 := by
    intro call hcall
    have hlen := sendCalls_session hsteps hlines call hcall
    rw [SendCall.words, toNat_size32]
    omega
  calc callWords (session stack steps : Board ρ τ).trace
      = (((sendCalls (session stack steps : Board ρ τ).trace).map SendCall.data).map
          fun d => (d.length + 5) / 4 + 2).sum := by
        rw [callWords, List.map_congr_left hwords, List.map_map]
        rfl
    _ = ((lines isTerminator (rxStream steps)).map echoWords).sum := by
        rw [data_session hsteps, List.map_map]
        rfl

/-- **The messages of a session**, if their words fit the ring buffer: one for each line. -/
theorem queued_session (hsteps : ∀ s ∈ steps, s.2.IsInterrupt)
    (hlines : ∀ l ∈ lines isTerminator (rxStream steps), l.body.length % 64 + 1 ≤ 58)
    (hroom : ((lines isTerminator (rxStream steps)).map echoWords).sum ≤ 128) :
    queued (session stack steps : Board ρ τ).trace =
      (lines isTerminator (rxStream steps)).map echo := by
  have hroomy : Roomy .default (session stack steps : Board ρ τ) := by
    refine roomy_run steps ⟨BoundedItemRing.capacity_itemInit _, ?_, ?_⟩
    · simp [mainMyUartPeripheralB, userSetCallback, init, usedWords]
    · simp [mainMyUartPeripheralB, userSetCallback, init, sendCalls]
  have haccepted := hroomy.accepted ((callWords_session hsteps hlines).trans_le hroom)
  rw [queued_of_accepted haccepted, data_session hsteps, List.map_map]
  rfl

/-- **End to end.** `app_callback` registered, the default sizes, and interrupts in any order: if
each line's last piece fits the transmit buffer and the echoes' items fit the ring buffer, then what
the UART is given is the echo of the first lines received, in order, each once; and behind `n`
rounds, it is the echo of at least the first `n` of the lines received before them, answered or
not. -/
theorem echo_end_to_end (stack : Stack) (steps : List (Nat × Step))
    (hsteps : ∀ s ∈ steps, s.2.IsInterrupt)
    (hlines : ∀ l ∈ lines isTerminator (rxStream steps), l.body.length % 64 + 1 ≤ 58)
    (hroom : ((lines isTerminator (rxStream steps)).map echoWords).sum ≤ 128) :
    filled (session stack steps : Board ρ τ).trace <+:
        (lines isTerminator (rxStream steps)).map echo ∧
      ∀ (before : List (Nat × Step)) (now : Nat) (rounds : List Round),
        steps = before ++ rounds.flatMap Round.steps → (∀ s ∈ before, s.1 ≤ now) →
        Timely now rounds →
        ((lines isTerminator (rxStream before)).map echo).take rounds.length <+:
          filled (session stack steps : Board ρ τ).trace := by
  -- the calls fit, so the queue's promises hold
  have hdata := @sendCalls_session ρ τ _ _ stack _ hsteps hlines
  have hfit : Fitting .default (session stack steps : Board ρ τ).trace :=
    fun call hcall => (Nat.add_le_add_right (hdata call hcall) 5).trans (by decide)
  have hshort : ShortSends .default (session stack steps : Board ρ τ).trace :=
    fun call hcall _ => (Nat.add_le_add_right (hdata call hcall) 5).trans_lt (by decide)
  have hfilled : filled (session stack steps : Board ρ τ).trace <+:
      (lines isTerminator (rxStream steps)).map echo := by
    rw [← @queued_session ρ τ _ _ stack _ hsteps hlines hroom]
    exact (queue_run (by decide) ((0, .userSetCallback (some appCallback)) :: steps) hfit).moments _
      List.prefix_rfl
  refine ⟨hfilled, ?_⟩
  rintro before now rounds rfl hnow htimely
  -- the lines received before the rounds are the first of all lines
  have hstream : rxStream (before ++ rounds.flatMap Round.steps) =
      rxStream before ++ rxStream (rounds.flatMap Round.steps) := List.flatMap_append
  obtain ⟨later, hlater⟩ := @lines_prefix_lines_append _ isTerminator (rxStream before)
    (rxStream (rounds.flatMap Round.steps))
  rw [← hstream] at hlater
  have hqueued := @queued_session ρ τ _ _ stack before
    (fun s hs => hsteps s (List.mem_append_left _ hs))
    (fun l hl => hlines l (by rw [← hlater]; exact List.mem_append_left _ hl))
    (by rw [← hlater, List.map_append, List.sum_append] at hroom; omega)
  have hrounds := rounds_fill (ρ := ρ) (τ := τ) (by decide) rounds
    (List.forall_mem_cons.mpr ⟨Nat.zero_le _, hnow⟩ :
      ∀ s ∈ (0, .userSetCallback (some appCallback)) :: before, s.1 ≤ now) htimely hfit hshort
  rw [← session_eq_run, hqueued] at hrounds
  refine List.prefix_of_prefix_length_le ((List.take_prefix _ _).trans ?_) hfilled ?_
  · rw [← hlater, List.map_append]
    exact List.prefix_append _ _
  · rw [List.length_take]
    exact (le_min (Nat.min_le_right _ _) ((Nat.min_le_left _ _).trans
      (Nat.le_add_left _ _))).trans hrounds

/-- Two lines, and two rounds without an answer. -/
def twoLines : List (Nat × Step) :=
  [(0, .uartInterrupt [⟨[0x61, 10, 0x62], none⟩]), (1, .uartInterrupt [⟨[0x63, 13], some 100⟩])]

def silentRounds : List Round := [⟨5001, [], 5002, [], 100⟩, ⟨10002, [], 10003, [], 100⟩]

theorem echo_end_to_end_two :
    ((lines isTerminator (rxStream twoLines)).map echo).take 2 <+:
      filled (session (fun _ _ => 0) (twoLines ++ silentRounds.flatMap Round.steps) :
        Board WordRing DeadlineTimer).trace :=
  (echo_end_to_end _ (twoLines ++ silentRounds.flatMap Round.steps)
    (by simp [twoLines, silentRounds, Round.steps, Step.IsInterrupt]) (by decide +kernel)
    (by decide +kernel)).2 twoLines 1 silentRounds rfl (by decide)
    (by simp [silentRounds, Timely, Round.steps])

end EndToEnd

/-! ## §4 — the answers are echoed as well. -/

/-- `"OK\n"`. -/
def okLine : List UInt8 := [0x4F, 0x4B, 10]

section Answers

variable [BoundedItemRing ρ] {stack : Stack} {b : Board ρ τ}

/-- **`Between b`** — nothing is queued, `rx_buf` is empty, and the application listens. -/
structure Between (b : Board ρ τ) : Prop where
  items : items b.txRb = []
  capacity : capacity b.txRb = 128
  rxDataLen : b.rxDataLen = 0
  rxBuf : b.rxBuf = List.replicate 64 0
  callback : b.callback = some appCallback

/-- **`Reading b body b'`** — from `b` on, the bytes `body` of an open line have been received. -/
structure Reading (b : Board ρ τ) (body : List UInt8) (b' : Board ρ τ) : Prop where
  stored : ∃ p : Partial isTerminator 64, Stored 0 b'.rxBuf b'.rxDataLen p ∧ p.bytes = body
  txRb : b'.txRb = b.txRb
  sendingGuard : b'.sendingGuard = b.sendingGuard
  callback : b'.callback = b.callback
  filled : filled b'.trace = filled b.trace

/-- The body of a line is stored and changes nothing else. -/
theorem reading_body (hb : Between b) {body : List UInt8}
    (hbody : ∀ c ∈ body, isTerminator c = false) (hlen : body.length < 64) :
    Reading b body (body.foldl (fun b c => receiveByte .default stack c b) b) := by
  induction body using List.reverseRecOn with
  | nil =>
    refine ⟨⟨.empty (by decide), ?_, rfl⟩, rfl, rfl, rfl, rfl⟩
    simp only [List.foldl_nil, hb.rxBuf, hb.rxDataLen]
    exact Stored.empty 0 _
  | append_singleton body c ih =>
    rw [List.length_append, List.length_singleton] at hlen
    obtain ⟨⟨p, hstored, hbytes⟩, hrb, hguard, hcb, hfilled⟩ :=
      ih (fun x hx => hbody x (List.mem_append_left _ hx)) (by omega)
    have hc : isTerminator c = false := hbody c (by simp)
    rw [List.foldl_append, List.foldl_cons, List.foldl_nil]
    have hroom : p.bytes.length + 1 ≠ 64 := by
      rw [hbytes]
      omega
    rw [receiveByte_of_room .default stack hc (by rw [hstored.len_eq]; exact hroom)]
    refine ⟨⟨(p.push c).1, hstored.push_of_room hc (by rw [hstored.len_eq]; exact hroom), ?_⟩,
      hrb, hguard, hcb, ?_⟩
    · rw [(Partial.push_of_room hc hroom).1, hbytes]
    · exact (filled_append _ _).trans ((List.append_nil _).trans hfilled)

/-- The end of a line: the guard is clear or the line releases it, and its echo is queued. -/
theorem queued_line {body : List UInt8} {b' : Board ρ τ} (hb : Between b)
    (hread : Reading b body b') {c : UInt8} (hc : isTerminator c = true)
    (hlen : body.length + 1 ≤ 58)
    (hguard : b.sendingGuard = false ∨ okPrefix <+: body ++ [c]) :
    ∃ item, items (receiveByte .default stack c b').txRb = [item] ∧
      Carries item (sendPrefix ++ (body ++ [c])) ∧
      capacity (receiveByte .default stack c b').txRb = 128 ∧
      (receiveByte .default stack c b').sendingGuard = false ∧
      (receiveByte .default stack c b').rxDataLen = 0 ∧
      (receiveByte .default stack c b').rxBuf = List.replicate 64 0 ∧
      (receiveByte .default stack c b').callback = some appCallback ∧
      filled (receiveByte .default stack c b').trace = filled b.trace := by
  obtain ⟨⟨p, hstored, hbytes⟩, hrb, hguard', hcb, hfilled⟩ := hread
  have hline : rxLine (storeByte c b') = body ++ [c] := hbytes ▸ hstored.take_set c
  -- behind the test of the line, the guard is clear
  have hrelease : (releaseGuard (storeByte c b')).sendingGuard = false ∧
      (releaseGuard (storeByte c b')).txRb = b'.txRb ∧
      rxLine (releaseGuard (storeByte c b')) = body ++ [c] ∧
      (releaseGuard (storeByte c b')).callback = b'.callback ∧
      filled (releaseGuard (storeByte c b')).trace = filled b'.trace := by
    have hstore : filled (storeByte c b').trace = filled b'.trace :=
      (filled_append _ _).trans (List.append_nil _)
    rcases releaseGuard_cases (storeByte c b') with ⟨hcheck, heq⟩ | ⟨-, heq⟩
    · rw [heq]
      refine ⟨?_, rfl, hline, rfl, hstore⟩
      rcases hguard with hclear | hok
      · exact hguard'.trans hclear
      · rw [← hline] at hok
        have haccepted := (checkSendingGuard_iff (storeByte c b').rxBuf
          (storeByte c b').rxDataLen).mpr hok
        exact absurd (hcheck.symm.trans haccepted) (by decide)
    · rw [heq]
      exact ⟨rfl, rfl, hline, rfl, (filled_append _ _).trans ((List.append_nil _).trans hstore)⟩
  obtain ⟨hclear, hrb', hline', hcb', hfilled'⟩ := hrelease
  let called : Board ρ τ := (releaseGuard (storeByte c b')).log (.callback (body ++ [c]))
  have hcall : receiveByte .default stack c b' =
      resetRx .default (userSendData .default stack (body ++ [c]) called) := by
    rw [receiveByte_of_terminator .default stack hc, hcb, hb.callback, callCallback, hline']
    rfl
  have hcarries : Carries (sendItem .default stack (body ++ [c]) called)
      (sendPrefix ++ (body ++ [c])) := by
    apply sendItem_carries
    rw [List.length_append, List.length_singleton]
    omega
  have hempty : items called.txRb = [] := by
    show items (releaseGuard (storeByte c b')).txRb = []
    rw [hrb', hrb]
    exact hb.items
  have hcapacity : capacity called.txRb = 128 := by
    show capacity (releaseGuard (storeByte c b')).txRb = 128
    rw [hrb', hrb]
    exact hb.capacity
  -- one item has room in an empty ring buffer
  obtain ⟨rb, hput⟩ : ∃ rb, itemPut called.txRb (sendItem .default stack (body ++ [c]) called) =
      some rb := by
    refine BoundedItemRing.itemPut_room ?_
    rw [hempty, hcapacity, List.nil_append, usedWords, usedWords, hcarries.length_words]
    simp only [List.length_append, sendPrefix, List.length_cons, List.length_nil]
    omega
  rcases userSendData_cases .default stack (body ++ [c]) called with
    ⟨rb', hput', heq⟩ | ⟨hnone, -⟩
  · obtain rfl : rb = rb' := Option.some.inj (hput.symm.trans hput')
    rw [hcall, heq]
    refine ⟨_, ?_, hcarries, (BoundedItemRing.capacity_itemPut hput).trans hcapacity, hclear, rfl,
      rfl, ?_, ?_⟩
    · exact (ItemRing.itemPut_some hput).trans (by rw [hempty, List.nil_append])
    · exact hcb'.trans (hcb.trans hb.callback)
    · show filled (called.trace ++ [.userSendData _]) = filled b.trace
      rw [filled_append, ← hfilled, ← hfilled']
      exact (List.append_nil _).trans ((filled_append _ _).trans (List.append_nil _))
  · exact absurd (hput.symm.trans hnone) (by simp)

variable [OneShotTimer τ]

/-- **A line in, its echo out**, in one pass of the handler: the next line finds the board as this
one did, but for the guard. -/
theorem between_line (hb : Between b) {body : List UInt8} {c : UInt8}
    (hbody : ∀ c ∈ body, isTerminator c = false) (hc : isTerminator c = true)
    (hlen : body.length + 1 ≤ 58) (hguard : b.sendingGuard = false ∨ okPrefix <+: body ++ [c])
    (room : Nat) :
    Between (handlerPass .default stack ⟨body ++ [c], some room⟩ b) ∧
      filled (handlerPass .default stack ⟨body ++ [c], some room⟩ b).trace =
        filled b.trace ++ [sendPrefix ++ (body ++ [c])] := by
  have hread : Reading b body (body.foldl (fun b c => receiveByte .default stack c b) b) :=
    reading_body hb hbody (by omega)
  obtain ⟨item, hitems, hcarries, hcapacity, hclear, hdata, hbuf, hcb, hfilled⟩ :=
    @queued_line ρ τ _ stack b body _ hb hread c hc hlen hguard
  have hpass : handlerPass .default stack ⟨body ++ [c], some room⟩ b =
      transmit .default stack room (receiveByte .default stack c
        (body.foldl (fun b c => receiveByte .default stack c b) b)) := by
    simp only [handlerPass, List.foldl_append, List.foldl_cons, List.foldl_nil]
  have hmsg : (sendPrefix ++ (body ++ [c])).length = body.length + 6 := by
    simp only [List.length_append, sendPrefix, List.length_cons, List.length_nil]
    omega
  have hwords : item.words.length ≤ (UInt8.ofNat Config.default.txBufWords).toNat := by
    rw [hcarries.length_words, hmsg]
    show (body.length + 6) / 4 + 1 ≤ 16
    omega
  obtain ⟨rb, hget, hrest⟩ := ItemRing.itemGet_fit hitems hwords
  rw [hpass]
  rcases transmit_cases .default stack room (receiveByte .default stack c
    (body.foldl (fun b c => receiveByte .default stack c b) b)) with
    ⟨hset, -⟩ | ⟨-, hget', -⟩ | ⟨-, hget', -⟩ | ⟨item', rb', -, hget', heq⟩
  · exact absurd (hset.symm.trans hclear) (by decide)
  · cases hget.symm.trans hget'
  · cases hget.symm.trans hget'
  · obtain ⟨rfl, rfl⟩ : item = item' ∧ rb = rb' := by
      have hsame := hget.symm.trans hget'
      injection hsame with hitem hring
      exact ⟨hitem, hring⟩
    rw [heq]
    refine ⟨⟨hrest, (BoundedItemRing.capacity_itemGet hget).trans hcapacity, hdata, hbuf, hcb⟩, ?_⟩
    rw [Board.log_trace, filled_append, hfilled]
    exact congrArg (filled b.trace ++ [·]) (itemBytes_of_carries stack hcarries (by omega) _)

theorem run_cons (cfg : Config) (s : Nat × Step) (steps : List (Nat × Step)) (b : Board ρ τ) :
    run cfg stack (s :: steps) b = run cfg stack steps (step cfg stack b s) := rfl

theorem step_onePass (cfg : Config) (b : Board ρ τ) (time : Nat) (p : Pass) :
    step cfg stack b (time, .uartInterrupt [p]) = handlerPass cfg stack p { b with now := time } :=
  rfl

/-- **The answers never end.** One line of at most 58 bytes, and a peer that answers every message
with `OK`: each answer is echoed, so there is one more message to answer, for ever. -/
theorem answers_never_end (stack : Stack) (l : Line UInt8) (hl : l.WellFormed isTerminator)
    (hlen : l.body.length + 1 ≤ 58) (start room : Nat) (answers : List (Nat × Nat)) :
    filled (session stack ((start, .uartInterrupt [⟨l.bytes, some room⟩]) ::
        answers.map fun a => (a.1, .uartInterrupt [⟨okLine, some a.2⟩])) : Board ρ τ).trace =
      (sendPrefix ++ l.bytes) :: List.replicate answers.length (sendPrefix ++ okLine) := by
  have hinit : Between ({ (mainMyUartPeripheralB true (init .default)) with now := start } :
      Board ρ τ) :=
    ⟨ItemRing.items_itemInit _, BoundedItemRing.capacity_itemInit _, rfl, rfl, rfl⟩
  obtain ⟨hfirst, hfilled⟩ := @between_line ρ τ _ stack _ _ hinit l.body l.last hl.body_clean
    hl.last_term hlen (Or.inl rfl) room
  -- each answer adds one message, and leaves the board waiting for the next one
  have hanswers : ∀ b : Board ρ τ, Between b →
      filled (run .default stack (answers.map fun a => (a.1, .uartInterrupt [⟨okLine, some a.2⟩]))
        b).trace = filled b.trace ++ List.replicate answers.length (sendPrefix ++ okLine) := by
    induction answers with
    | nil => exact fun b _ => (List.append_nil _).symm
    | cons a answers ih =>
      intro b hb
      obtain ⟨hnext, hmore⟩ := @between_line ρ τ _ stack { b with now := a.1 } _
        ⟨hb.items, hb.capacity, hb.rxDataLen, hb.rxBuf, hb.callback⟩ [0x4F, 0x4B] 10
        (by simp [isTerminator]) (by decide) (by decide) (Or.inr ⟨[10], rfl⟩) a.2
      have hok : [0x4F, 0x4B] ++ [10] = okLine := rfl
      rw [hok] at hnext hmore
      rw [List.map_cons, run_cons, step_onePass, ih _ hnext, hmore, List.append_assoc,
        List.length_cons, List.replicate_succ, List.singleton_append]
  rw [session, run_cons, step_onePass]
  exact (hanswers _ hfirst).trans (congrArg (· ++ _) hfilled)

theorem answers_never_end_two :
    filled (session (fun _ _ => 0) ((0, .uartInterrupt [⟨[0x61, 10], some 100⟩]) ::
        [(1, 100), (2, 100)].map fun a => (a.1, .uartInterrupt [⟨okLine, some a.2⟩])) :
          Board WordRing DeadlineTimer).trace =
      (sendPrefix ++ [0x61, 10]) :: List.replicate 2 (sendPrefix ++ okLine) :=
  answers_never_end _ ⟨[0x61], 10⟩ ⟨by simp [isTerminator], by decide⟩ (by decide) 0 100
    [(1, 100), (2, 100)]

end Answers

end EchoBot.MyUartPeripheralB
