/-
# EchoBot.Lossless — both UART drivers cut the stream into segments and lose nothing

The two receive loops share their shape: store the byte, count it, cut at a terminator or when the
buffer is full, clear the buffer. They differ in the terminator and in what becomes of a full
buffer. Both refine the framer of `EchoBot.Stream.Framer`, and `Lossless` is what that gives for the
arrays and for the trace: nothing lost, every segment well formed, the free part of the buffer zero,
no store outside it. That `rx_data_len` is counted up BEFORE the capacity test is harmless for this
reason alone.
-/
import EchoBot.MyUartPeripheral.Receive
import EchoBot.MyUartPeripheralB.Receive

namespace EchoBot

open EchoBot.Stream
open EchoBot.Zephyr

/-- **`Lossless N term stream segments rxBuf rxDataLen`** — the received `stream` is in the
completed `segments` and in `rx_buf`, byte for byte. -/
structure Lossless (N : Nat) (term : UInt8 → Bool) (stream : List UInt8)
    (segments : List (Segment UInt8)) (rxBuf : List UInt8) (rxDataLen : Nat) : Prop where
  stream_eq : stream = segments.flatMap Segment.bytes ++ rxBuf.take rxDataLen
  wellFormed : ∀ g ∈ segments, g.WellFormed term N
  rxDataLen_lt : rxDataLen < N
  length_rxBuf : rxBuf.length = N
  zeros : ∀ c ∈ rxBuf.drop rxDataLen, c = 0

/-- An array that holds what the framer keeps is lossless, with the framer's segments. -/
theorem Lossless.of_framed {N : Nat} {term : UInt8 → Bool} (hN : 0 < N) {stream rxBuf : List UInt8}
    {rxDataLen : Nat} (hstored : Stored 0 rxBuf rxDataLen (framed term hN stream).1) :
    Lossless N term stream (framed term hN stream).2 rxBuf rxDataLen := by
  have hlt := hstored.len_lt
  refine ⟨?_, framed_wellFormed term hN stream, hlt, ?_, ?_⟩
  · rw [hstored.take_eq, framed_flatten]
  · rw [hstored.buf_eq, List.length_append, List.length_replicate, ← hstored.len_eq]
    omega
  · rw [hstored.drop_eq]
    exact fun c hc => List.eq_of_mem_replicate hc

/-- **`MyUartPeripheral.Segmented cfg stream b`** — the board is lossless, its callback was called
once for each segment, with `is_string` telling the kind, and every store hit the buffer. -/
structure MyUartPeripheral.Segmented {κ υ : Type} (cfg : MyUartPeripheral.Config)
    (stream : List UInt8) (b : MyUartPeripheral.Board κ υ) : Prop where
  lossless : Lossless cfg.rxBufSize MyUartPeripheral.isNul stream
    (MyUartPeripheral.segments b.trace) b.rxBuf b.rxDataLen
  calls : MyUartPeripheral.calls b.trace =
    (MyUartPeripheral.segments b.trace).map MyUartPeripheral.callOf
  index : ∀ c i, MyUartPeripheral.Event.pollIn c i ∈ b.trace → i < cfg.rxBufSize

/-- **`MyUartPeripheralB.Segmented cfg stream b`** — the board is lossless, the segments that end
with a terminator were delivered once each and the others discarded, and every store hit the
buffer. -/
structure MyUartPeripheralB.Segmented {ρ τ : Type} (cfg : MyUartPeripheralB.Config)
    (stream : List UInt8) (b : MyUartPeripheralB.Board ρ τ) : Prop where
  lossless : Lossless cfg.rxBufSize MyUartPeripheralB.isTerminator stream
    (MyUartPeripheralB.segments b.trace) b.rxBuf b.rxDataLen
  delivered : MyUartPeripheralB.delivered b.trace =
    (MyUartPeripheralB.segments b.trace).filterMap Segment.line?
  index : ∀ c i, MyUartPeripheralB.Event.fifoRead c i ∈ b.trace → i < cfg.rxBufSize

section Drivers

variable {κ υ ρ τ : Type} [ItemRing ρ] [OneShotTimer τ]

/-- **Lossless segmentation in both drivers.** For every buffer size, every stream, every split of
it over interrupts and everything else that runs in between, with a callback registered throughout.
A state between two bytes is the last one of the run that stops there. -/
theorem segmentation_is_lossless
    (cfg : MyUartPeripheral.Config) (hN : 1 ≤ cfg.rxBufSize)
    (app : MyUartPeripheral.App κ υ) (happ : app.Registers) (cb : κ) (userData : Option υ)
    (initialString : List UInt8) (steps : List (MyUartPeripheral.Step κ υ))
    (hreg : ∀ s ∈ steps, s.Registers)
    (cfgB : MyUartPeripheralB.Config) (hNB : 1 ≤ cfgB.rxBufSize) (stack : MyUartPeripheralB.Stack)
    (cbB : MyUartPeripheralB.Callback) (stepsB : List (Nat × MyUartPeripheralB.Step))
    (hregB : ∀ s ∈ stepsB, s.2.Registers) :
    MyUartPeripheral.Segmented cfg (MyUartPeripheral.rxStream steps)
        (MyUartPeripheral.run cfg app steps
          (MyUartPeripheral.userSetStringCallback (some cb) userData
            (MyUartPeripheral.init cfg initialString))) ∧
      MyUartPeripheralB.Segmented cfgB (MyUartPeripheralB.rxStream stepsB)
        (MyUartPeripheralB.run cfgB stack stepsB
          (MyUartPeripheralB.userSetCallback (some cbB)
            (MyUartPeripheralB.init cfgB : MyUartPeripheralB.Board ρ τ))) := by
  constructor
  · have hinv := MyUartPeripheral.rxInv_run happ hreg
      (@MyUartPeripheral.rxInv_init κ υ cfg hN cb userData initialString)
    refine ⟨?_, MyUartPeripheral.calls_eq_segments _, hinv.index⟩
    rw [hinv.segments]
    exact .of_framed hN hinv.stored
  · have hinv : MyUartPeripheralB.RxInv hNB (MyUartPeripheralB.run cfgB stack stepsB
        (MyUartPeripheralB.userSetCallback (some cbB)
          (MyUartPeripheralB.init cfgB : MyUartPeripheralB.Board ρ τ))) :=
      MyUartPeripheralB.rxInv_run hregB (MyUartPeripheralB.rxInv_init cbB)
    have hstream := MyUartPeripheralB.received_run cfgB stack stepsB
      (MyUartPeripheralB.userSetCallback (some cbB)
        (MyUartPeripheralB.init cfgB : MyUartPeripheralB.Board ρ τ))
    refine ⟨?_, MyUartPeripheralB.delivered_eq_segments _, hinv.index⟩
    have hlossless : Lossless cfgB.rxBufSize MyUartPeripheralB.isTerminator _ _ _ _ :=
      .of_framed hNB hinv.stored
    rw [hinv.segments]
    rw [hstream] at hlossless ⊢
    exact hlossless

/-- Buffers of three bytes: a terminator as the third byte, and a full buffer. -/
theorem segmentation_is_lossless_three :
    MyUartPeripheral.Segmented { rxBufSize := 3 } [0x61, 0x62, 0, 0x63, 0x64, 0x65, 0x66]
        (MyUartPeripheral.run { rxBufSize := 3 } (fun _ _ _ _ _ => [])
          [.uartInterrupt (some [0x61, 0x62, 0, 0x63]), .uartInterrupt (some [0x64, 0x65, 0x66])]
          (MyUartPeripheral.userSetStringCallback (some ()) (some ())
            (MyUartPeripheral.init { rxBufSize := 3 } []))) ∧
      MyUartPeripheralB.Segmented { rxBufSize := 3 } [0x61, 0x62, 10, 0x63, 0x64, 0x65, 0x66]
        (MyUartPeripheralB.run { rxBufSize := 3 } (fun _ _ => 0)
          [(0, .uartInterrupt [⟨[0x61, 0x62, 10, 0x63], none⟩]),
            (1, .uartInterrupt [⟨[0x64, 0x65, 0x66], none⟩])]
          (MyUartPeripheralB.userSetCallback (some MyUartPeripheralB.appCallback)
            (MyUartPeripheralB.init { rxBufSize := 3 } :
              MyUartPeripheralB.Board WordRing DeadlineTimer))) :=
  segmentation_is_lossless { rxBufSize := 3 } (by decide) (fun _ _ _ _ _ => [])
    (by simp [MyUartPeripheral.App.Registers]) () (some ()) []
    [.uartInterrupt (some [0x61, 0x62, 0, 0x63]), .uartInterrupt (some [0x64, 0x65, 0x66])]
    (by simp [MyUartPeripheral.Step.Registers])
    { rxBufSize := 3 } (by decide) (fun _ _ => 0) MyUartPeripheralB.appCallback
    [(0, .uartInterrupt [⟨[0x61, 0x62, 10, 0x63], none⟩]),
      (1, .uartInterrupt [⟨[0x64, 0x65, 0x66], none⟩])]
    (by simp [MyUartPeripheralB.Step.Registers])

end Drivers

end EchoBot
