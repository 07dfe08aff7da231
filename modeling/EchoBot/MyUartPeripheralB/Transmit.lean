/-
# EchoBot.MyUartPeripheralB.Transmit — items, and a transmitter that does not get stuck

A message of `n` bytes travels through `tx_rb` as an item of `n / 4 + 1` words, whose `value` says
how many bytes of the last word are padding. `Carries` is what an item has to be for its message; a
send makes such an item (`sendItem_carries`) and the handler reads the message back from it
(`itemBytes_of_carries`), as long as the word count fits its eight bits.

The handler offers `TX_BUF_WORDS` words to `ring_buf_item_get`. A message that fills the transmit
buffer to the last byte makes an item of one word MORE, which the handler never gets: it stays at
the head of `tx_rb` with the TX interrupt off (`full_message_wedges`). With every accepted message
shorter than the buffer the transmitter never wedges (`transmitter_never_wedges`).
-/
import EchoBot.MyUartPeripheralB.Steps

namespace EchoBot.MyUartPeripheralB

open EchoBot.Memory
open EchoBot.Zephyr

variable {ρ τ : Type}

/-! ## §1 — items and messages. -/

/-- **`Carries item msg`** — the item is the message `msg`, padded to `msg.length / 4 + 1` words. -/
structure Carries (item : Item) (msg : List UInt8) : Prop where
  length_words : item.words.length = msg.length / 4 + 1
  value : item.value.toNat + msg.length = 4 * item.words.length
  bytes : (bytesOfWords item.words).take msg.length = msg

/-- The rounding is exact: `value` is the padding behind the last byte. -/
theorem toNat_value (size : Nat) :
    (value size).toNat = 4 * (size / 4 + 1) - size := by
  have hwords := toNat_size32 size
  rw [value, UInt8.toNat_sub, UInt8.toNat_mul, UInt8.toNat_ofNat', hwords]
  simp only [UInt8.toNat_ofNat]
  omega

/-- **A send makes an item that carries its message.** -/
theorem sendItem_carries (cfg : Config) (stack : Stack) {data : List UInt8} (b : Board ρ τ)
    (hdata : (data.length + 5) / 4 + 1 < 256) :
    Carries (sendItem cfg stack data b) (sendPrefix ++ data) := by
  have hlen : (sendPrefix ++ data).length = data.length + 5 := by
    simp [sendPrefix]
  have hwords : (size32 (data.length + 5)).toNat = (data.length + 5) / 4 + 1 := by
    rw [toNat_size32, Nat.mod_eq_of_lt hdata]
  have hcount : (sendItem cfg stack data b).words.length = (data.length + 5) / 4 + 1 :=
    (Frame.length_words _ _).trans hwords
  refine ⟨?_, ?_, ?_⟩
  · rw [hcount, hlen]
  · have hvalue : (sendItem cfg stack data b).value = value (data.length + 5) := rfl
    rw [hvalue, toNat_value, hcount, hlen]
    omega
  · have hbytes : (sendItem cfg stack data b).words =
        (sendBuf cfg stack data b).1.words (size32 (data.length + 5)).toNat := rfl
    rw [hbytes, Frame.bytesOfWords_words, hwords, hlen, Frame.take_bytes _ (by omega),
      sendBuf_bytes]

/-- The handler's size: no wrap-around, since the count fits 8 bits and the padding is smaller than
the words. -/
theorem itemSize_of_carries {item : Item} {msg : List UInt8} (hitem : Carries item msg)
    (hmsg : msg.length / 4 + 1 < 256) : itemSize item = msg.length := by
  have hvalue := hitem.value
  have hwords := hitem.length_words
  have hfour : (4 : UInt32).toNat = 4 := rfl
  have hcount : (UInt8.ofNat item.words.length).toNat = item.words.length := by
    rw [UInt8.toNat_ofNat']
    exact Nat.mod_eq_of_lt (by omega)
  rw [itemSize, UInt32.toNat_sub, UInt32.toNat_mul, UInt8.toNat_toUInt32, UInt8.toNat_toUInt32,
    hcount, hfour]
  omega

/-- **The handler reads the message back**, byte for byte and without the padding. -/
theorem itemBytes_of_carries (stack : Stack) {item : Item} {msg : List UInt8}
    (hitem : Carries item msg) (hmsg : msg.length / 4 + 1 < 256) (b : Board ρ τ) :
    itemBytes stack item b = msg := by
  have hwords := hitem.length_words
  have hcopied := Frame.bytes_memcpy { cell := stack b.trace } 0 (bytesOfWords item.words)
  rw [Nat.zero_add, length_bytesOfWords] at hcopied
  rw [itemBytes, itemSize_of_carries hitem hmsg,
    ← Frame.take_bytes _ (by omega : msg.length ≤ 4 * item.words.length), hcopied]
  exact hitem.bytes

/-! ## §2 — the transmitter invariant. -/

/-- **`ShortSends cfg t`** — every message that `tx_rb` accepted is shorter than the transmit
buffer, by at least one byte. -/
def ShortSends (cfg : Config) (t : List Event) : Prop :=
  ∀ call ∈ sendCalls t, call.queued = true → call.data.length + 5 < cfg.txBufWords * 4

/-- **`Awake cfg coming b`** — the handler can get every queued item, and a board with something to
send and nothing to wait for has the TX interrupt enabled, or an enable coming. -/
structure Awake [ItemRing ρ] (cfg : Config) (coming : Prop) (b : Board ρ τ) : Prop where
  fits : ∀ item ∈ items b.txRb, item.words.length ≤ cfg.txBufWords
  irq : items b.txRb ≠ [] → b.sendingGuard = false → b.txIrq = true ∨ coming

/-- **`Live cfg b`** — the board is awake, and no enable is needed. -/
abbrev Live [ItemRing ρ] (cfg : Config) (b : Board ρ τ) : Prop := Awake cfg False b

section Steps

variable {cfg : Config} {stack : Stack} {coming : Prop} {b b' : Board ρ τ}

theorem length_sendItem_le {data : List UInt8} (hdata : data.length + 5 < cfg.txBufWords * 4)
    (hW : cfg.txBufWords < 256) (b : Board ρ τ) :
    (sendItem cfg stack data b).words.length ≤ cfg.txBufWords := by
  rw [(sendItem_carries cfg stack b (by omega)).length_words]
  simp only [List.length_append, sendPrefix, List.length_cons, List.length_nil]
  omega

variable [ItemRing ρ]

/-- The items after a put that succeeds. -/
theorem fits_of_itemPut {rb : ρ} {data : List UInt8}
    (hput : itemPut b.txRb (sendItem cfg stack data b) = some rb)
    (hfits : ∀ item ∈ items b.txRb, item.words.length ≤ cfg.txBufWords)
    (hdata : data.length + 5 < cfg.txBufWords * 4) (hW : cfg.txBufWords < 256) :
    ∀ item ∈ items rb, item.words.length ≤ cfg.txBufWords := by
  intro item hitem
  rw [ItemRing.itemPut_some hput] at hitem
  rcases List.mem_append.mp hitem with hold | hnew
  · exact hfits item hold
  · rw [List.mem_singleton.mp hnew]
    exact length_sendItem_le hdata hW b

theorem Awake.userSendData (hb : Awake cfg coming b) (data : List UInt8)
    (hW : cfg.txBufWords < 256) (hshort : ShortSends cfg (userSendData cfg stack data b).trace) :
    Awake cfg coming (userSendData cfg stack data b) := by
  rcases userSendData_cases cfg stack data b with ⟨rb, hput, heq⟩ | ⟨-, heq⟩
  · rw [heq] at hshort ⊢
    have hdata : data.length + 5 < cfg.txBufWords * 4 := by
      refine hshort (sendCall cfg stack data b true) ?_ (by rw [sendCall_eq])
      simp [sendCalls]
    exact ⟨fits_of_itemPut hput hb.fits hdata hW, fun _ _ => Or.inl rfl⟩
  · rw [heq]
    exact ⟨hb.fits, hb.irq⟩

theorem Awake.releaseGuard (hb : Awake cfg coming b) : Awake cfg coming (releaseGuard b) := by
  rcases releaseGuard_cases b with ⟨-, heq⟩ | ⟨-, heq⟩
  · rwa [heq]
  · rw [heq]
    exact ⟨hb.fits, fun _ _ => Or.inl rfl⟩

/-- No queued item is longer than the handler's offer. -/
theorem Awake.itemGet_ne_emsgsize (hb : Awake cfg coming b) (hW : cfg.txBufWords < 256) :
    itemGet b.txRb (UInt8.ofNat cfg.txBufWords) ≠ .emsgsize := by
  intro hget
  obtain ⟨head, hmem, hbig⟩ := exists_of_itemGet_emsgsize hget
  have hle := hb.fits head hmem
  rw [UInt8.toNat_ofNat', Nat.mod_eq_of_lt hW] at hbig
  omega

variable [OneShotTimer τ]

theorem Awake.timerInterrupt (hb : Awake cfg coming b) : Awake cfg coming (timerInterrupt b) := by
  rcases timerInterrupt_cases b with heq | ⟨due, -, -, heq⟩
  · rwa [heq]
  · rw [heq]
    exact ⟨hb.fits, fun _ _ => Or.inl rfl⟩

theorem Awake.transmit (hb : Awake cfg coming b) (room : Nat) (hW : cfg.txBufWords < 256) :
    Awake cfg coming (transmit cfg stack room b) := by
  rcases transmit_cases cfg stack room b with
    ⟨hguard, heq⟩ | ⟨-, hget, heq⟩ | ⟨-, hget, heq⟩ | ⟨item, rb, -, hget, heq⟩
  · rw [heq]
    refine ⟨hb.fits, fun _ hclear => ?_⟩
    exact absurd (hguard.symm.trans hclear) (by decide)
  · rw [heq]
    exact ⟨hb.fits, fun hne => absurd (items_of_itemGet_eagain hget) hne⟩
  · exact absurd hget (hb.itemGet_ne_emsgsize hW)
  · rw [heq]
    obtain ⟨hitems, -⟩ := items_of_itemGet_ok hget
    refine ⟨fun i hi => ?_, fun _ hclear => by cases hclear⟩
    exact hb.fits i (by rw [hitems]; exact List.mem_cons_of_mem _ hi)

/-- **The board stays awake along every run of short sends.** -/
theorem Awake.run (hb : Awake cfg coming b) (steps : List (Nat × Step)) (hW : cfg.txBufWords < 256)
    (hshort : ShortSends cfg (run cfg stack steps b).trace) :
    Awake cfg coming (run cfg stack steps b) := by
  refine tx_run_induction_of_sends ?_ ?_ ?_ ?_ ?_ steps hb hshort
  · intro b b' hframe hb
    refine ⟨?_, ?_⟩
    · rw [hframe.txRb]
      exact hb.fits
    · rw [hframe.txRb, hframe.sendingGuard, hframe.txIrq]
      exact hb.irq
  · intro b hb
    exact hb.releaseGuard
  · intro b data hs hb
    exact hb.userSendData data hW hs
  · intro b room hb
    exact hb.transmit room hW
  · intro b hb
    exact hb.timerInterrupt

/-- A run of the handler. -/
theorem Awake.uartIntHandler (hb : Awake cfg coming b) (passes : List Pass)
    (hW : cfg.txBufWords < 256)
    (hshort : ShortSends cfg (uartIntHandler cfg stack passes b).trace) :
    Awake cfg coming (uartIntHandler cfg stack passes b) :=
  hb.run [(b.now, .uartInterrupt passes)] hW hshort

theorem live_run (hW : cfg.txBufWords < 256) (steps : List (Nat × Step))
    (hshort : ShortSends cfg (run cfg stack steps (init cfg) : Board ρ τ).trace) :
    Live cfg (run cfg stack steps (init cfg) : Board ρ τ) := by
  have hinit : Live cfg (init cfg : Board ρ τ) := ⟨by simp [init], by simp [init]⟩
  exact hinit.run steps hW hshort

end Steps

/-! ## §3 — the transmitter and the boundary length. -/

/-- **The transmitter never wedges**, with the default sizes, along every run whose accepted
messages are shorter than the transmit buffer: while something is queued and the guard is clear,
the TX interrupt is enabled. -/
theorem transmitter_never_wedges [ItemRing ρ] [OneShotTimer τ] (stack : Stack)
    (steps : List (Nat × Step))
    (hshort : ShortSends .default (run .default stack steps (init .default) : Board ρ τ).trace)
    (hitems : items (run .default stack steps (init .default) : Board ρ τ).txRb ≠ [])
    (hguard : (run .default stack steps (init .default) : Board ρ τ).sendingGuard = false) :
    (run .default stack steps (init .default) : Board ρ τ).txIrq = true :=
  ((live_run (by decide) steps hshort).irq hitems hguard).resolve_right id

/-- A message of 63 bytes waits behind one that was acknowledged. -/
theorem transmitter_never_wedges_ack :
    (run .default (fun _ _ => 0)
      [(0, .userSendData [0x41]), (1, .userSendData (List.replicate 58 0x42)),
        (2, .uartInterrupt [⟨[], some 100⟩]), (3, .uartInterrupt [⟨[0x4F, 0x4B, 10], none⟩])]
      (init .default) : Board WordRing DeadlineTimer).txIrq = true :=
  transmitter_never_wedges _ _ (by unfold ShortSends; decide +kernel) (by decide +kernel)
    (by decide +kernel)

/-- A message of 64 bytes fits `buf` and is accepted, and stays behind a disabled interrupt. -/
theorem full_message_wedges :
    ¬ ∀ steps : List (Nat × Step),
      (∀ call ∈ sendCalls (run .default (fun _ _ => 0) steps
        (init .default) : Board WordRing DeadlineTimer).trace,
          call.data.length + 5 ≤ Config.default.txBufWords * 4) →
      items (run .default (fun _ _ => 0) steps (init .default) :
        Board WordRing DeadlineTimer).txRb ≠ [] →
      (run .default (fun _ _ => 0) steps (init .default) :
        Board WordRing DeadlineTimer).sendingGuard = false →
      (run .default (fun _ _ => 0) steps (init .default) :
        Board WordRing DeadlineTimer).txIrq = true := by
  intro hclaim
  have hirq := hclaim
    [(0, .userSendData (List.replicate 59 0x61)), (1, .uartInterrupt [⟨[], some 100⟩])]
    (by decide +kernel) (by decide +kernel) (by decide +kernel)
  exact absurd hirq (by decide +kernel)

end EchoBot.MyUartPeripheralB
