/-
# EchoBot.MyUartPeripheralB.ItemSize — item sizes over the whole range of the configuration

Kconfig lets `TX_BUF_WORDS` be anything up to 511, and three quantities that grow with it are kept
in eight bits: `size32`, the word count of an item; `value`, its padding; and `my_size`, the number
of words the handler offers to `ring_buf_item_get`. The message bounds the first two, but `my_size`
is the configured size itself. So everything is exact up to 255 words, and from 256 on the handler
offers 256 words too few (`item_exact_iff`).
-/
import EchoBot.MyUartPeripheralB.Transmit

namespace EchoBot.MyUartPeripheralB

open EchoBot.Zephyr

variable {ρ τ : Type} [ItemRing ρ]

/-- **`ItemExact cfg stack data b`** — the eight-bit variables of a send of `data` and of the get
that follows hold what they would hold without a bound, and the get gives back the message. -/
structure ItemExact (cfg : Config) (stack : Stack) (data : List UInt8) (b : Board ρ τ) : Prop where
  size32 : (size32 (data.length + 5)).toNat = (data.length + 5) / 4 + 1
  value : (value (data.length + 5)).toNat = ((data.length + 5) / 4 + 1) * 4 - (data.length + 5)
  mySize : (UInt8.ofNat cfg.txBufWords).toNat = cfg.txBufWords
  get : ∃ item rb,
    itemGet (userSendData cfg stack data b).txRb (UInt8.ofNat cfg.txBufWords) = .ok item rb ∧
      (UInt8.ofNat item.words.length).toNat = (data.length + 5) / 4 + 1 ∧
      itemSize item = data.length + 5 ∧
      itemBytes stack item (userSendData cfg stack data b) = sendPrefix ++ data

variable {cfg : Config} {stack : Stack} {data : List UInt8} {b : Board ρ τ}

/-- A put that an empty `tx_rb` has room for leaves the item of the message alone in it. -/
theorem items_userSendData (hempty : items b.txRb = [])
    (hroom : itemPut b.txRb (sendItem cfg stack data b) ≠ none) :
    items (userSendData cfg stack data b).txRb = [sendItem cfg stack data b] := by
  rcases userSendData_cases cfg stack data b with ⟨rb, hput, heq⟩ | ⟨hfull, -⟩
  · rw [heq]
    show items rb = _
    rw [ItemRing.itemPut_some hput, hempty, List.nil_append]
  · exact absurd hfull hroom

/-- **When the item sizes are exact.** For every configuration and every message whose item fits
both buffers, sent through an empty `tx_rb` that has room for it: the eight-bit variables hold the
exact sizes and the handler gets the message back if and only if `TX_BUF_WORDS` is at most 255. -/
theorem item_exact_iff (cfg : Config) (stack : Stack) (data : List UInt8) (b : Board ρ τ)
    (hfits : (data.length + 5) / 4 + 1 ≤ cfg.txBufWords) (hempty : items b.txRb = [])
    (hroom : itemPut b.txRb (sendItem cfg stack data b) ≠ none) :
    ItemExact cfg stack data b ↔ cfg.txBufWords ≤ 255 := by
  have hoffered : (UInt8.ofNat cfg.txBufWords).toNat = cfg.txBufWords % 256 := UInt8.toNat_ofNat'
  constructor
  · intro hexact
    have hmySize := hexact.mySize
    omega
  · intro hW
    have hcount : (data.length + 5) / 4 + 1 < 256 := by omega
    have hlen : (sendPrefix ++ data).length = data.length + 5 := by
      simp [sendPrefix]
    have hcarries := sendItem_carries cfg stack b hcount
    have hwords := hcarries.length_words
    rw [hlen] at hwords
    have hmySize : (UInt8.ofNat cfg.txBufWords).toNat = cfg.txBufWords := by omega
    refine ⟨?_, ?_, hmySize, ?_⟩
    · rw [toNat_size32, Nat.mod_eq_of_lt hcount]
    · rw [toNat_value]
      omega
    · have hoffer : (sendItem cfg stack data b).words.length ≤
          (UInt8.ofNat cfg.txBufWords).toNat := by omega
      obtain ⟨rb, hget, -⟩ := ItemRing.itemGet_fit (items_userSendData hempty hroom) hoffer
      refine ⟨_, rb, hget, ?_, ?_, itemBytes_of_carries stack hcarries (by omega) _⟩
      · rw [UInt8.toNat_ofNat', hwords]
        omega
      · rw [itemSize_of_carries hcarries (by omega), hlen]

/-- The default configuration and a message of three bytes. -/
theorem item_exact_iff_default :
    ItemExact .default (fun _ _ => 0) [0x61, 0x62, 0x63]
        (init .default : Board WordRing DeadlineTimer) ↔
      Config.default.txBufWords ≤ 255 :=
  item_exact_iff .default (fun _ _ => 0) [0x61, 0x62, 0x63] (init .default) (by decide) rfl
    (by decide)

/-- With 256 words the handler offers none, and gets no message at all. -/
theorem item_of_256_words_refused :
    ¬ ∀ (cfg : Config) (stack : Stack) (data : List UInt8) (b : Board WordRing DeadlineTimer),
      cfg.txBufWords ≤ 511 → (data.length + 5) / 4 + 1 ≤ cfg.txBufWords → items b.txRb = [] →
      itemPut b.txRb (sendItem cfg stack data b) ≠ none → ItemExact cfg stack data b := by
  intro hclaim
  have hexact := hclaim { txBufWords := 256 } (fun _ _ => 0) [] (init { txBufWords := 256 })
    (by decide) (by decide) rfl (by decide)
  exact absurd hexact.mySize (by decide)

end EchoBot.MyUartPeripheralB
