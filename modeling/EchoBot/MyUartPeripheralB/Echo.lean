/-
# EchoBot.MyUartPeripheralB.Echo — the echoing application and the transmit buffer

`app_callback` sends every line it is given back through `user_send_data`, which copies it behind a
prefix of 5 bytes into a local array of `TX_BUF_WORDS` words and lets `ring_buf_item_put` read
`size / 4 + 1` words of it. The receive limit, the prefix, the array and the rounding live in four
places. With the default sizes they fit exactly for lines of at most 58 bytes: a line of 59 makes
the put read one word behind the array, and from 60 bytes on the copy itself writes behind it.

`echo_inBounds_iff` states this of the byte STREAM, where a long line shows itself by the length of
its last piece modulo the receive buffer.
-/
import EchoBot.MyUartPeripheralB.Receive

namespace EchoBot.MyUartPeripheralB

open EchoBot.Stream
open EchoBot.Zephyr

variable {ρ τ : Type}

/-! ## §1 — the accesses of one call. -/

/-- Every store through the local `buf` and every word the put reads lies inside the array. -/
def SendCall.InBounds (cfg : Config) (call : SendCall) : Prop :=
  (∀ i ∈ call.stores, i < cfg.txBufWords * 4) ∧ ∀ i ∈ call.reads, i < cfg.txBufWords

/-- With the default sizes a call stays inside `buf` exactly for data of at most 58 bytes. -/
theorem SendCall.Exact.inBounds_iff {call : SendCall} (hcall : call.Exact) :
    call.InBounds .default ↔ call.data.length ≤ 58 := by
  obtain ⟨hstores, hreads⟩ := hcall
  have hbuf : Config.default.txBufWords = 16 := rfl
  simp only [SendCall.InBounds, hstores, hreads, List.mem_range, toNat_size32, hbuf]
  constructor
  · rintro ⟨hs, hr⟩
    have hfit := hs 64
    have hword := hr 16
    omega
  · intro hlen
    exact ⟨fun i hi => by omega, fun i hi => by omega⟩

/-! ## §2 — the echo along a run. -/

/-- **`Echoed cfg t`** — in the trace `t` every line given to the callback is sent back, in order,
without leaving the local array. -/
def Echoed (cfg : Config) (t : List Event) : Prop :=
  (sendCalls t).map SendCall.data = delivered t ∧ ∀ call ∈ sendCalls t, call.InBounds cfg

section Run

variable {cfg : Config} {hN : 0 < cfg.rxBufSize} {b b' : Board ρ τ}

/-- The state of a board on which only the echo sends. -/
structure EchoInv (hN : 0 < cfg.rxBufSize) (b : Board ρ τ) : Prop extends RxInv hN b where
  echo : b.callback = some appCallback
  echoed : (sendCalls b.trace).map SendCall.data = delivered b.trace
  exact : ∀ call ∈ sendCalls b.trace, call.Exact

theorem sendCalls_cutEvents (o : Option (Segment UInt8)) : sendCalls (cutEvents o) = [] := by
  rcases o with _ | line | bytes
  · rfl
  · simp only [cutEvents, sendCalls_append]
    split <;> rfl
  · rfl

theorem delivered_cutEvents (t : List Event) (o : Option (Segment UInt8)) :
    delivered (cutEvents o) = cutSends appCallback t o := by
  rcases o with _ | line | bytes
  · rfl
  · simp only [cutEvents, delivered_append]
    split <;> rfl
  · rfl

variable [ItemRing ρ] {stack : Stack}

theorem EchoInv.receiveByte (hinv : EchoInv hN b) (c : UInt8) :
    EchoInv hN (receiveByte cfg stack c b) := by
  obtain ⟨-, hcb, t, calls, hdata, hexact, htrace⟩ :=
    receiveByte_push cfg stack hinv.stored hinv.echo c
  have hcalls : sendCalls (MyUartPeripheralB.receiveByte cfg stack c b).trace =
      sendCalls b.trace ++ calls := by
    rw [htrace, sendCalls_append, sendCalls_append, sendCalls_append, sendCalls_sends,
      sendCalls_cutEvents]
    simp [sendCalls]
  refine ⟨hinv.toRxInv.receiveByte c, hcb, ?_, ?_⟩
  · rw [hcalls, List.map_append, hinv.echoed, hdata, htrace, delivered_append, delivered_append,
      delivered_append, delivered_sends, delivered_cutEvents t]
    simp [delivered]
  · intro call hcall
    rw [hcalls, List.mem_append] at hcall
    rcases hcall with hcall | hcall
    · exact hinv.exact call hcall
    · exact hexact call hcall

theorem EchoInv.transmit [OneShotTimer τ] (hinv : EchoInv hN b) (room : Nat) :
    EchoInv hN (transmit cfg stack room b) := by
  have hframe := transmit_rxFrame cfg stack room b
  refine ⟨hinv.toRxInv.frame hframe, hframe.callback.trans hinv.echo, ?_, ?_⟩
  all_goals
    rcases transmit_trace cfg stack room b with htrace | ⟨buf, taken, htrace⟩
  · rw [htrace]
    exact hinv.echoed
  · rw [htrace]
    simpa [sendCalls, delivered] using hinv.echoed
  · rw [htrace]
    exact hinv.exact
  · rw [htrace]
    simpa [sendCalls] using hinv.exact

/-- **The echo invariant holds along every run of interrupts.** -/
theorem echoInv_run [OneShotTimer τ] (interrupts : List (Nat × List Pass)) :
    EchoInv hN (run cfg stack (interrupts.map fun i => (i.1, .uartInterrupt i.2))
      (userSetCallback (some appCallback) (init cfg) : Board ρ τ)) := by
  let ok : Step → Prop := fun s => ∃ passes, s = .uartInterrupt passes
  refine @run_induction ρ τ _ cfg stack (EchoInv hN) _ ok ?_ ?_ ?_ ?_ ?_ ?_ _ ?_ _ ?_
  · intro b t hb
    exact ⟨hb.toRxInv.frame (.of_trace_eq rfl rfl rfl rfl), hb.echo, hb.echoed, hb.exact⟩
  · rintro b data ⟨passes, hstep⟩
    cases hstep
  · rintro b cb ⟨passes, hstep⟩
    cases hstep
  · intro b c hb
    exact hb.receiveByte c
  · intro b room hb
    exact hb.transmit room
  · rintro b ⟨passes, hstep⟩
    cases hstep
  · intro s hs
    obtain ⟨i, -, rfl⟩ := List.mem_map.mp hs
    exact ⟨i.2, rfl⟩
  · exact ⟨rxInv_init appCallback, rfl, rfl, by simp [userSetCallback, init, sendCalls]⟩

end Run

/-! ## §3 — the streams the echo survives. -/

section Stream

variable [ItemRing ρ] [OneShotTimer τ]

/-- The bytes some interrupts receive. -/
def interruptStream (interrupts : List (Nat × List Pass)) : List UInt8 :=
  interrupts.flatMap fun i => i.2.flatMap Pass.rx

theorem rxStream_interrupts (interrupts : List (Nat × List Pass)) :
    rxStream (interrupts.map fun i => (i.1, .uartInterrupt i.2)) = interruptStream interrupts := by
  rw [rxStream, List.flatMap_map]
  rfl

/-- **When the echo stays inside its buffer.** With the default sizes and `app_callback`
registered, for every stream and every split of it over interrupts: every delivered line is echoed
without leaving `buf` if and only if each line of the stream has a last piece of at most 58 bytes,
where a line longer than the receive buffer loses 64 bytes at a time from its front. -/
theorem echo_inBounds_iff (stack : Stack) (interrupts : List (Nat × List Pass)) :
    Echoed .default
        (run .default stack (interrupts.map fun i => (i.1, .uartInterrupt i.2))
          (userSetCallback (some appCallback) (init .default) : Board ρ τ)).trace ↔
      ∀ l ∈ lines isTerminator (interruptStream interrupts), l.body.length % 64 + 1 ≤ 58 := by
  have hN : 0 < Config.default.rxBufSize := by decide
  have hinv : EchoInv hN (run .default stack (interrupts.map fun i => (i.1, .uartInterrupt i.2))
      (userSetCallback (some appCallback) (init .default) : Board ρ τ)) := echoInv_run interrupts
  have hstream := received_run Config.default stack
    (interrupts.map fun i => (i.1, Step.uartInterrupt i.2))
    (userSetCallback (some appCallback) (init .default) : Board ρ τ)
  rw [rxStream_interrupts] at hstream
  have hcalls : (sendCalls (run .default stack (interrupts.map fun i => (i.1, .uartInterrupt i.2))
      (userSetCallback (some appCallback) (init .default) : Board ρ τ)).trace).map SendCall.data =
        (lines isTerminator (interruptStream interrupts)).map (lastPiece 64) := by
    rw [hinv.echoed, delivered_eq_segments, hinv.segments, framed_lines, hstream]
    rfl
  -- the calls are known by their data, and the data are the last pieces of the lines
  have hbounds : (∀ call ∈ sendCalls (run .default stack
      (interrupts.map fun i => (i.1, .uartInterrupt i.2))
      (userSetCallback (some appCallback) (init .default) : Board ρ τ)).trace,
        call.InBounds .default) ↔
      ∀ data ∈ (lines isTerminator (interruptStream interrupts)).map (lastPiece 64),
        data.length ≤ 58 := by
    rw [← hcalls, List.forall_mem_map]
    exact forall₂_congr fun call hcall => (hinv.exact call hcall).inBounds_iff
  rw [Echoed, and_iff_right hinv.echoed, hbounds, List.forall_mem_map]
  simp only [length_lastPiece]

/-- A line of 63 letters and its terminator fills the receive buffer, and its echo writes 5 bytes
behind `buf`. -/
theorem echo_of_full_line_overruns :
    ¬ Echoed .default
      (run .default (fun _ _ => 0) [(0, .uartInterrupt [⟨List.replicate 63 0x61 ++ [10], none⟩])]
        (userSetCallback (some appCallback) (init .default) :
          Board WordRing DeadlineTimer)).trace := by
  rintro ⟨-, hbounds⟩
  have hcall : (⟨List.replicate 63 0x61 ++ [10], List.range 69, List.range 18, true⟩ : SendCall) ∈
      sendCalls (run .default (fun _ _ => 0)
        [(0, .uartInterrupt [⟨List.replicate 63 0x61 ++ [10], none⟩])]
        (userSetCallback (some appCallback) (init .default) :
          Board WordRing DeadlineTimer)).trace := by
    decide +kernel
  have hstore := (hbounds _ hcall).1 68 (List.mem_range.mpr (by decide))
  exact absurd hstore (by decide)

end Stream

end EchoBot.MyUartPeripheralB
