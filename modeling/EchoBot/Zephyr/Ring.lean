/-
# EchoBot.Zephyr.Ring — what the code relies on of Zephyr's ring buffers

The ring buffers are Zephyr's and not part of this repository. They enter as classes: the calls the
code makes, an abstraction to the content, and the documented behaviour of each call as a law. All
results hold for every buffer that keeps the laws. `WordRing` and `OctetRing` are buffers that do,
bounded by a capacity, so that the model runs.

* item mode (`ring_buf_item_put`, `ring_buf_item_get`): a FIFO of items, each a type, an 8-bit
  value and some words;
* byte mode (`ring_buf_put`, `ring_buf_get`): a FIFO of bytes that accepts a prefix.

`Marked` keeps a mark beside each byte of a byte ring. Bytes can be equal; their marks tell them
apart, and say where a byte that leaves the ring had come from.
-/
import Mathlib.Data.List.Basic
import Mathlib.Tactic.SplitIfs

namespace EchoBot.Zephyr

/-! ## §1 — item mode. -/

/-- An item: `type` and `value` are the caller's, `words` the 32-bit words copied. -/
structure Item where
  type : UInt16
  value : UInt8
  words : List UInt32
  deriving DecidableEq, Repr

/-- The outcomes of `ring_buf_item_get`. -/
inductive ItemGet (ρ : Type) where
  /-- `-EAGAIN`: the buffer is empty. -/
  | eagain
  /-- `-EMSGSIZE`: the oldest item has more words than offered; it stays in the buffer. -/
  | emsgsize
  /-- The oldest item, removed. -/
  | ok (item : Item) (rb : ρ)

/-- Zephyr's ring buffer in item mode. -/
class ItemRing (ρ : Type) where
  /-- The items, oldest first. -/
  items : ρ → List Item
  /-- `ring_buf_item_init` over a buffer of `size` words. -/
  itemInit : Nat → ρ
  /-- `ring_buf_item_put`; `none` is `-EMSGSIZE`, which leaves the buffer as it was. -/
  itemPut : ρ → Item → Option ρ
  /-- `ring_buf_item_get` with room for `size32` words. -/
  itemGet : ρ → UInt8 → ItemGet ρ
  items_itemInit : ∀ size, items (itemInit size) = []
  itemPut_some : ∀ {rb item rb'}, itemPut rb item = some rb' → items rb' = items rb ++ [item]
  itemGet_nil : ∀ {rb size32}, items rb = [] → itemGet rb size32 = .eagain
  itemGet_big : ∀ {rb size32 item rest}, items rb = item :: rest →
    size32.toNat < item.words.length → itemGet rb size32 = .emsgsize
  itemGet_fit : ∀ {rb size32 item rest}, items rb = item :: rest →
    item.words.length ≤ size32.toNat → ∃ rb', itemGet rb size32 = .ok item rb' ∧ items rb' = rest

export ItemRing (items itemInit itemPut itemGet)

attribute [simp] ItemRing.items_itemInit

section ItemLaws

variable {ρ : Type} [ItemRing ρ] {rb rb' : ρ} {item : Item} {size32 : UInt8}

/-- A get that returns an item removed the oldest one. -/
theorem items_of_itemGet_ok (h : itemGet rb size32 = .ok item rb') :
    items rb = item :: items rb' ∧ item.words.length ≤ size32.toNat := by
  cases hitems : items rb with
  | nil =>
    rw [ItemRing.itemGet_nil hitems] at h
    cases h
  | cons head rest =>
    rcases Nat.lt_or_ge size32.toNat head.words.length with hbig | hfit
    · rw [ItemRing.itemGet_big hitems hbig] at h
      cases h
    · obtain ⟨rb'', hget, hrest⟩ := ItemRing.itemGet_fit hitems hfit
      rw [hget] at h
      cases h
      exact ⟨by rw [hrest], hfit⟩

/-- A get is refused for its size only by an item that is too long. -/
theorem exists_of_itemGet_emsgsize (h : itemGet rb size32 = .emsgsize) :
    ∃ head ∈ items rb, size32.toNat < head.words.length := by
  cases hitems : items rb with
  | nil =>
    rw [ItemRing.itemGet_nil hitems] at h
    cases h
  | cons head rest =>
    refine ⟨head, by simp, ?_⟩
    by_contra hfit
    obtain ⟨rb'', hget, -⟩ := ItemRing.itemGet_fit hitems (Nat.not_lt.mp hfit)
    rw [hget] at h
    cases h

/-- A get reports an empty buffer only when it is empty. -/
theorem items_of_itemGet_eagain (h : itemGet rb size32 = .eagain) : items rb = [] := by
  cases hitems : items rb with
  | nil => rfl
  | cons head rest =>
    rcases Nat.lt_or_ge size32.toNat head.words.length with hbig | hfit
    · rw [ItemRing.itemGet_big hitems hbig] at h
      cases h
    · obtain ⟨rb'', hget, -⟩ := ItemRing.itemGet_fit hitems hfit
      rw [hget] at h
      cases h

end ItemLaws

/-- An item ring over `capacity` words. An item takes one word of header. -/
structure WordRing where
  capacity : Nat
  queue : List Item
  deriving DecidableEq, Repr

/-- The words in use. -/
def WordRing.used (rb : WordRing) : Nat :=
  rb.queue.foldl (fun n item => n + (item.words.length + 1)) 0

instance : ItemRing WordRing where
  items := WordRing.queue
  itemInit size := ⟨size, []⟩
  itemPut rb item :=
    if rb.used + (item.words.length + 1) ≤ rb.capacity then
      some ⟨rb.capacity, rb.queue ++ [item]⟩
    else none
  itemGet rb size32 :=
    match rb.queue with
    | [] => .eagain
    | item :: rest =>
      if size32.toNat < item.words.length then .emsgsize else .ok item ⟨rb.capacity, rest⟩
  items_itemInit _ := rfl
  itemPut_some := by
    intro rb item rb' h
    split_ifs at h with hroom
    cases h
    rfl
  itemGet_nil := by
    intro rb size32 h
    simp only [h]
  itemGet_big := by
    intro rb size32 item rest h hbig
    simp only [h, if_pos hbig]
  itemGet_fit := by
    intro rb size32 item rest h hfit
    refine ⟨⟨rb.capacity, rest⟩, ?_, rfl⟩
    simp only [h, if_neg (Nat.not_lt.mpr hfit)]

/-- The words some items take, each with one word of header. -/
def usedWords : List Item → Nat
  | [] => 0
  | item :: its => item.words.length + 1 + usedWords its

@[simp] theorem usedWords_append (its jts : List Item) :
    usedWords (its ++ jts) = usedWords its + usedWords jts := by
  induction its with
  | nil => exact (Nat.zero_add _).symm
  | cons item its ih =>
    rw [List.cons_append, usedWords, usedWords, ih, Nat.add_assoc _ (usedWords _)]

/-- An item ring that refuses an item only for want of room. -/
class BoundedItemRing (ρ : Type) extends ItemRing ρ where
  /-- The size of the buffer, in words. -/
  capacity : ρ → Nat
  capacity_itemInit : ∀ size, capacity (itemInit size) = size
  itemPut_room : ∀ {rb item}, usedWords (items rb ++ [item]) ≤ capacity rb →
    ∃ rb', itemPut rb item = some rb'
  capacity_itemPut : ∀ {rb item rb'}, itemPut rb item = some rb' → capacity rb' = capacity rb
  capacity_itemGet : ∀ {rb size32 item rb'}, itemGet rb size32 = .ok item rb' →
    capacity rb' = capacity rb

export BoundedItemRing (capacity)

theorem WordRing.used_eq (rb : WordRing) : rb.used = usedWords rb.queue := by
  have hfold : ∀ (its : List Item) n,
      its.foldl (fun n item => n + (item.words.length + 1)) n = n + usedWords its := by
    intro its
    induction its with
    | nil => exact fun n => rfl
    | cons item its ih =>
      intro n
      rw [List.foldl_cons, ih, usedWords, Nat.add_assoc]
  rw [WordRing.used, hfold, Nat.zero_add]

instance : BoundedItemRing WordRing where
  capacity := WordRing.capacity
  capacity_itemInit _ := rfl
  itemPut_room := by
    intro rb item hroom
    rw [usedWords_append] at hroom
    refine ⟨⟨rb.capacity, rb.queue ++ [item]⟩, if_pos ?_⟩
    rw [WordRing.used_eq]
    exact hroom
  capacity_itemPut := by
    intro rb item rb' h
    simp only [itemPut] at h
    split_ifs at h
    cases h
    rfl
  capacity_itemGet := by
    intro rb size32 item rb' h
    simp only [itemGet] at h
    split at h
    · cases h
    · split_ifs at h
      cases h
      rfl

/-! ## §2 — byte mode. -/

/-- Zephyr's ring buffer in byte mode. -/
class ByteRing (ρ : Type) where
  /-- The bytes, oldest first. -/
  content : ρ → List UInt8
  /-- `ring_buf_init` over a buffer of `size` bytes. -/
  ringInit : Nat → ρ
  /-- `ring_buf_put`: the buffer and the number of bytes stored. -/
  ringPut : ρ → List UInt8 → ρ × Nat
  /-- `ring_buf_get` of at most `size` bytes: the buffer and the bytes removed. -/
  ringGet : ρ → Nat → ρ × List UInt8
  content_ringInit : ∀ size, content (ringInit size) = []
  ringPut_le : ∀ rb data, (ringPut rb data).2 ≤ data.length
  content_ringPut : ∀ rb data,
    content (ringPut rb data).1 = content rb ++ data.take (ringPut rb data).2
  ringGet_bytes : ∀ rb size, (ringGet rb size).2 = (content rb).take size
  content_ringGet : ∀ rb size, content (ringGet rb size).1 = (content rb).drop size

export ByteRing (content ringInit ringPut ringGet)

attribute [simp] ByteRing.content_ringInit ByteRing.content_ringPut ByteRing.ringGet_bytes
  ByteRing.content_ringGet

/-- A byte ring that stores the longest prefix that fits. -/
structure OctetRing where
  capacity : Nat
  queue : List UInt8
  deriving DecidableEq, Repr

instance : ByteRing OctetRing where
  content := OctetRing.queue
  ringInit size := ⟨size, []⟩
  ringPut rb data :=
    let n := min data.length (rb.capacity - rb.queue.length)
    (⟨rb.capacity, rb.queue ++ data.take n⟩, n)
  ringGet rb size := (⟨rb.capacity, rb.queue.drop size⟩, rb.queue.take size)
  content_ringInit _ := rfl
  ringPut_le _ _ := Nat.min_le_left _ _
  content_ringPut _ _ := rfl
  ringGet_bytes _ _ := rfl
  content_ringGet _ _ := rfl

/-- A byte ring that refuses a byte only for want of room. -/
class BoundedByteRing (ρ : Type) extends ByteRing ρ where
  /-- The size of the buffer, in bytes. -/
  byteCapacity : ρ → Nat
  byteCapacity_ringInit : ∀ size, byteCapacity (ringInit size) = size
  ringPut_room : ∀ rb data,
    (ringPut rb data).2 = min data.length (byteCapacity rb - (content rb).length)
  byteCapacity_ringPut : ∀ rb data, byteCapacity (ringPut rb data).1 = byteCapacity rb
  byteCapacity_ringGet : ∀ rb size, byteCapacity (ringGet rb size).1 = byteCapacity rb

export BoundedByteRing (byteCapacity)

attribute [simp] BoundedByteRing.byteCapacity_ringInit BoundedByteRing.byteCapacity_ringPut
  BoundedByteRing.byteCapacity_ringGet

instance : BoundedByteRing OctetRing where
  byteCapacity := OctetRing.capacity
  byteCapacity_ringInit _ := rfl
  ringPut_room _ _ := rfl
  byteCapacity_ringPut _ _ := rfl
  byteCapacity_ringGet _ _ := rfl

/-! ## §3 — byte mode, with a mark on every byte. -/

/-- A byte ring and the marks of its bytes. The ring is the program's, the marks are not. -/
structure Marked (ρ τ : Type) [ByteRing ρ] where
  ring : ρ
  marks : List τ
  length_marks : marks.length = (content ring).length

namespace Marked

variable {ρ τ : Type} [ByteRing ρ]

/-- The bytes with their marks, oldest first. -/
def bytes (rb : Marked ρ τ) : List (UInt8 × τ) := (content rb.ring).zip rb.marks

/-- `ring_buf_init`. -/
def init (size : Nat) : Marked ρ τ where
  ring := ringInit size
  marks := []
  length_marks := by simp

/-- `ring_buf_put`: the ring takes the bytes, and the marks of those it stored are kept. -/
def put (rb : Marked ρ τ) (data : List (UInt8 × τ)) : Marked ρ τ × Nat :=
  (⟨(ringPut rb.ring (data.map Prod.fst)).1,
    rb.marks ++ (data.map Prod.snd).take (ringPut rb.ring (data.map Prod.fst)).2, by
      simp [rb.length_marks]⟩, (ringPut rb.ring (data.map Prod.fst)).2)

/-- `ring_buf_get`. -/
def get (rb : Marked ρ τ) (size : Nat) : Marked ρ τ × List (UInt8 × τ) :=
  (⟨(ringGet rb.ring size).1, rb.marks.drop size, by simp [rb.length_marks]⟩,
    (ringGet rb.ring size).2.zip (rb.marks.take size))

@[simp] theorem bytes_init (size : Nat) : (init size : Marked ρ τ).bytes = [] := by
  simp [init, bytes]

@[simp] theorem map_fst_bytes (rb : Marked ρ τ) : rb.bytes.map Prod.fst = content rb.ring :=
  List.map_fst_zip (Nat.le_of_eq rb.length_marks.symm)

@[simp] theorem bytes_put (rb : Marked ρ τ) (data : List (UInt8 × τ)) :
    (rb.put data).1.bytes = rb.bytes ++ data.take (rb.put data).2 := by
  show (content (ringPut rb.ring (data.map Prod.fst)).1).zip (rb.marks ++ _) = _
  rw [ByteRing.content_ringPut, List.zip_append rb.length_marks.symm]
  apply congrArg
  rw [← List.map_take, ← List.map_take]
  exact (List.zip_of_prod rfl rfl).symm

@[simp] theorem get_bytes (rb : Marked ρ τ) (size : Nat) :
    (rb.get size).2 = rb.bytes.take size := by
  show (ringGet rb.ring size).2.zip (rb.marks.take size) = _
  rw [ByteRing.ringGet_bytes]
  exact List.take_zipWith.symm

@[simp] theorem bytes_get (rb : Marked ρ τ) (size : Nat) :
    (rb.get size).1.bytes = rb.bytes.drop size := by
  show (content (ringGet rb.ring size).1).zip (rb.marks.drop size) = _
  rw [ByteRing.content_ringGet]
  exact List.drop_zipWith.symm

end Marked

end EchoBot.Zephyr
