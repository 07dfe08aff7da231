/-
# EchoBot.Stream.Framer — a receiver that cuts a stream into segments with `N` cells of memory

The framer keeps the symbols since its last cut. It cuts after a terminator (`Segment.line`) and,
when `N` symbols are kept and none was a terminator, cuts all the same (`Segment.full`), keeping no
memory of having done so. The symbols kept are a `Partial`: shorter than `N` and free of
terminators BY CONSTRUCTION, so no run of the framer can leave its buffer.

Two readings of a run are proved:

* §2 nothing is lost and every segment is well formed (`framed_flatten`, `framed_wellFormed`);
* §3 the CLOSED FORM against the unbounded reading of `EchoBot.Stream.Lines`: a line is cut into
  blocks of `N` symbols and one last piece, which is the only one delivered as a line
  (`framed_eq`, `lineSegments`). So a line survives whole exactly when it fits.
-/
import EchoBot.Stream.Lines
import Mathlib.Data.List.Basic
import Mathlib.Tactic.Ring

namespace EchoBot.Stream

variable {α : Type*}

/-! ## §1 — the framer. -/

/-- What the framer cuts off: a piece that ends with a terminator, or a full buffer without one. -/
inductive Segment (α : Type*) where
  | line (bytes : List α)
  | full (bytes : List α)
  deriving DecidableEq, Repr

def Segment.bytes : Segment α → List α
  | .line bytes => bytes
  | .full bytes => bytes

/-- The symbols of a segment that ends with a terminator. -/
def Segment.line? : Segment α → Option (List α)
  | .line bytes => some bytes
  | .full _ => none

/-- The symbols of a full buffer. -/
def Segment.full? : Segment α → Option (List α)
  | .line _ => none
  | .full bytes => some bytes

/-- What the segment carries with it, whichever kind it is. -/
def Segment.WellFormed (term : α → Bool) (N : Nat) : Segment α → Prop
  | .line bytes => bytes.length ≤ N ∧ ∃ body t, bytes = body ++ [t] ∧ term t = true ∧
      ∀ b ∈ body, term b = false
  | .full bytes => bytes.length = N ∧ ∀ b ∈ bytes, term b = false

/-- The symbols kept since the last cut: fewer than `N`, none of them a terminator. -/
structure Partial (term : α → Bool) (N : Nat) where
  bytes : List α
  short : bytes.length < N
  clean : ∀ b ∈ bytes, term b = false

namespace Partial

variable {term : α → Bool} {N : Nat}

@[ext] theorem ext {p q : Partial term N} (h : p.bytes = q.bytes) : p = q := by
  cases p
  cases q
  cases h
  rfl

/-- The empty buffer of a framer with room for a symbol. -/
def empty (hN : 0 < N) : Partial term N := ⟨[], hN, by simp⟩

@[simp] theorem empty_bytes (hN : 0 < N) : (empty hN : Partial term N).bytes = [] := rfl

/-- The buffer after a cut. -/
def reset (p : Partial term N) : Partial term N := empty (Nat.zero_lt_of_lt p.short)

@[simp] theorem reset_bytes (p : Partial term N) : p.reset.bytes = [] := rfl

/-- One symbol received. -/
def push (p : Partial term N) (b : α) : Partial term N × Option (Segment α) :=
  if hb : term b = true then (p.reset, some (.line (p.bytes ++ [b])))
  else if hfull : p.bytes.length + 1 = N then (p.reset, some (.full (p.bytes ++ [b])))
  else
    (⟨p.bytes ++ [b],
      by have := p.short; simp only [List.length_append, List.length_singleton]; omega,
      by
        intro x hx
        rcases List.mem_append.mp hx with hx | hx
        · exact p.clean x hx
        · rw [List.mem_singleton.mp hx]
          simpa using hb⟩, none)

theorem push_of_term {p : Partial term N} {b : α} (hb : term b = true) :
    p.push b = (p.reset, some (.line (p.bytes ++ [b]))) := by
  rw [push, dif_pos hb]

theorem push_of_full {p : Partial term N} {b : α} (hb : term b = false)
    (hfull : p.bytes.length + 1 = N) : p.push b = (p.reset, some (.full (p.bytes ++ [b]))) := by
  rw [push, dif_neg (by simp [hb]), dif_pos hfull]

theorem push_of_room {p : Partial term N} {b : α} (hb : term b = false)
    (hroom : p.bytes.length + 1 ≠ N) :
    (p.push b).1.bytes = p.bytes ++ [b] ∧ (p.push b).2 = none := by
  rw [push, dif_neg (by simp [hb]), dif_neg hroom]
  exact ⟨rfl, rfl⟩

/-- One symbol keeps the count: what was kept, and the symbol, are in the segment or kept. -/
theorem push_flatten (p : Partial term N) (b : α) :
    (p.push b).2.toList.flatMap Segment.bytes ++ (p.push b).1.bytes = p.bytes ++ [b] := by
  by_cases hb : term b = true
  · simp [push_of_term hb, Segment.bytes]
  · rw [Bool.not_eq_true] at hb
    by_cases hfull : p.bytes.length + 1 = N
    · simp [push_of_full hb hfull, Segment.bytes]
    · obtain ⟨hbytes, hnone⟩ := push_of_room hb hfull
      simp [hbytes, hnone]

theorem push_wellFormed (p : Partial term N) (b : α) :
    ∀ g ∈ (p.push b).2, g.WellFormed term N := by
  have hshort := p.short
  by_cases hb : term b = true
  · rw [push_of_term hb]
    rintro g ⟨⟩
    exact ⟨by simp only [List.length_append, List.length_singleton]; omega,
      p.bytes, b, rfl, hb, p.clean⟩
  · rw [Bool.not_eq_true] at hb
    by_cases hfull : p.bytes.length + 1 = N
    · rw [push_of_full hb hfull]
      rintro g ⟨⟩
      refine ⟨by simp [hfull], ?_⟩
      intro x hx
      rcases List.mem_append.mp hx with hx | hx
      · exact p.clean x hx
      · rw [List.mem_singleton.mp hx, hb]
    · rw [(push_of_room hb hfull).2]
      rintro g ⟨⟩

end Partial

/-! ## §2 — a run: nothing is lost, and every segment is well formed. -/

section Run

variable (term : α → Bool) {N : Nat} (hN : 0 < N)

/-- **`framed term hN s`** — the state after the stream `s`, and the segments cut off, in order. -/
def framed (s : List α) : Partial term N × List (Segment α) :=
  s.foldl (fun r b => ((r.1.push b).1, r.2 ++ (r.1.push b).2.toList)) (Partial.empty hN, [])

@[simp] theorem framed_nil : framed term hN [] = (.empty hN, []) := rfl

/-- The step rule of a run. -/
theorem framed_snoc (s : List α) (b : α) :
    framed term hN (s ++ [b]) =
      (((framed term hN s).1.push b).1,
        (framed term hN s).2 ++ ((framed term hN s).1.push b).2.toList) := by
  simp only [framed, List.foldl_append, List.foldl_cons, List.foldl_nil]

/-- **Lossless**: the segments, in order, and the symbols kept are the stream. -/
theorem framed_flatten (s : List α) :
    (framed term hN s).2.flatMap Segment.bytes ++
      (framed term hN s).1.bytes = s := by
  induction s using List.reverseRecOn with
  | nil => simp
  | append_singleton s b ih =>
    rw [framed_snoc, List.flatMap_append, List.append_assoc, Partial.push_flatten,
      ← List.append_assoc, ih]

theorem framed_wellFormed (s : List α) :
    ∀ g ∈ (framed term hN s).2, g.WellFormed term N := by
  induction s using List.reverseRecOn with
  | nil => simp
  | append_singleton s b ih =>
    intro g hg
    rw [framed_snoc, List.mem_append, Option.mem_toList] at hg
    rcases hg with hg | hg
    · exact ih g hg
    · exact Partial.push_wellFormed _ b g hg

end Run

/-! ## §3 — the closed form: how a line of any length is cut. -/

/-- The blocks of `N` symbols that fit into `l`. -/
def blocks (N : Nat) (l : List α) : List (List α) :=
  (List.range (l.length / N)).map fun k => (l.drop (N * k)).take N

/-- What is left of `l` behind its blocks. -/
def leftover (N : Nat) (l : List α) : List α := l.drop (N * (l.length / N))

theorem length_leftover (N : Nat) (l : List α) : (leftover N l).length = l.length % N := by
  rw [leftover, List.length_drop]
  have := Nat.div_add_mod l.length N
  omega

/-- Nothing is cut off `l` exactly when it is shorter than a block. -/
theorem leftover_eq_self_iff {N : Nat} (hN : 0 < N) {l : List α} :
    leftover N l = l ↔ l.length < N := by
  constructor
  · intro h
    have hlen := congrArg List.length h
    rw [length_leftover] at hlen
    exact hlen ▸ Nat.mod_lt _ hN
  · intro h
    simp [leftover, Nat.div_eq_of_lt h]

@[simp] theorem blocks_nil (N : Nat) : blocks N ([] : List α) = [] := by simp [blocks]

@[simp] theorem leftover_nil (N : Nat) : leftover N ([] : List α) = [] := by simp [leftover]

theorem blocks_of_lt {N : Nat} {l : List α} (h : l.length < N) : blocks N l = [] := by
  simp [blocks, Nat.div_eq_of_lt h]

section Snoc

variable {N : Nat} {l : List α} {b : α}

/-- A symbol more that does not fill a block. -/
theorem blocks_snoc_of_room (hroom : (leftover N l).length + 1 ≠ N) (hN : 0 < N) :
    blocks N (l ++ [b]) = blocks N l ∧ leftover N (l ++ [b]) = leftover N l ++ [b] := by
  have hmod := Nat.mod_lt l.length hN
  have hdiv : (l.length + 1) / N = l.length / N := by
    rw [length_leftover] at hroom
    rw [Nat.succ_div, if_neg, Nat.add_zero]
    intro hdvd
    have hzero := Nat.mod_eq_zero_of_dvd hdvd
    rw [Nat.add_mod] at hzero
    rcases Nat.lt_or_ge (l.length % N + 1) N with hlt | hge
    · have : 1 % N = 1 := Nat.mod_eq_of_lt (by omega)
      rw [this, Nat.mod_eq_of_lt hlt] at hzero
      omega
    · omega
  have hle : ∀ k, k ≤ l.length / N → N * k ≤ l.length := fun k hk =>
    (Nat.mul_le_mul_left N hk).trans (Nat.mul_div_le _ _)
  constructor
  · simp only [blocks, List.length_append, List.length_singleton, hdiv]
    refine List.map_congr_left fun k hk => ?_
    have hk' : N * (k + 1) ≤ l.length := hle (k + 1) (List.mem_range.mp hk)
    rw [List.drop_append_of_le_length (hle k (List.mem_range.mp hk).le),
      List.take_append_of_le_length]
    rw [List.length_drop]
    have : N * (k + 1) = N * k + N := Nat.mul_succ N k
    omega
  · simp only [leftover, List.length_append, List.length_singleton, hdiv]
    exact List.drop_append_of_le_length (hle _ le_rfl)

/-- A symbol more that fills a block. -/
theorem blocks_snoc_of_full (hfull : (leftover N l).length + 1 = N) :
    blocks N (l ++ [b]) = blocks N l ++ [leftover N l ++ [b]] ∧ leftover N (l ++ [b]) = [] := by
  have hN : 0 < N := by omega
  rw [length_leftover] at hfull
  have hsplit := Nat.div_add_mod l.length N
  have hlen : l.length + 1 = N * (l.length / N + 1) := by
    rw [Nat.mul_succ]
    omega
  have hdiv : (l.length + 1) / N = l.length / N + 1 := by
    rw [hlen, Nat.mul_div_cancel_left _ hN]
  have hle : ∀ k, k ≤ l.length / N → N * k ≤ l.length := fun k hk =>
    (Nat.mul_le_mul_left N hk).trans (Nat.mul_div_le _ _)
  constructor
  · simp only [blocks, List.length_append, List.length_singleton, hdiv, List.range_succ,
      List.map_append, List.map_cons, List.map_nil]
    congr 1
    · refine List.map_congr_left fun k hk => ?_
      have hk' : N * (k + 1) ≤ l.length := hle (k + 1) (List.mem_range.mp hk)
      rw [List.drop_append_of_le_length (hle k (List.mem_range.mp hk).le),
        List.take_append_of_le_length]
      rw [List.length_drop]
      have : N * (k + 1) = N * k + N := Nat.mul_succ N k
      omega
    · rw [List.drop_append_of_le_length (hle _ le_rfl), List.take_of_length_le, leftover]
      simp only [List.length_append, List.length_drop, List.length_singleton]
      omega
  · simp only [leftover, List.length_append, List.length_singleton, hdiv]
    rw [← hlen, List.drop_of_length_le]
    simp

end Snoc

/-- **How a line is cut**: its body into full blocks, and the last piece with the terminator. -/
def lineSegments (N : Nat) (l : Line α) : List (Segment α) :=
  (blocks N l.body).map .full ++ [.line (leftover N l.body ++ [l.last])]

/-- **The closed form of a run.** Every line is cut on its own, and what is kept is the open line
behind its own blocks. -/
theorem framed_eq (term : α → Bool) {N : Nat} (hN : 0 < N) (s : List α) :
    (framed term hN s).1.bytes = leftover N (openLine term s) ∧
    (framed term hN s).2 =
      (lines term s).flatMap (lineSegments N) ++ (blocks N (openLine term s)).map .full := by
  induction s using List.reverseRecOn with
  | nil => simp
  | append_singleton s b ih =>
    obtain ⟨hkept, hsegs⟩ := ih
    rw [framed_snoc, lines_snoc, openLine_snoc]
    by_cases hb : term b = true
    · rw [Partial.push_of_term hb, hsegs, hkept, if_pos hb, if_pos hb]
      simp [lineSegments]
    · rw [if_neg hb, if_neg hb]
      rw [Bool.not_eq_true] at hb
      by_cases hfull : (leftover N (openLine term s)).length + 1 = N
      · obtain ⟨hblocks, hleft⟩ := blocks_snoc_of_full (b := b) hfull
        rw [Partial.push_of_full hb (hkept ▸ hfull), hsegs, hkept, hblocks, hleft]
        simp
      · obtain ⟨hblocks, hleft⟩ := blocks_snoc_of_room (b := b) hfull hN
        obtain ⟨hbytes, hnone⟩ := Partial.push_of_room hb (hkept ▸ hfull)
        rw [hbytes, hnone, hsegs, hkept, hblocks, hleft]
        simp

/-- The last piece of a line, the one delivered as a line. -/
def lastPiece (N : Nat) (l : Line α) : List α := leftover N l.body ++ [l.last]

theorem length_lastPiece (N : Nat) (l : Line α) :
    (lastPiece N l).length = l.body.length % N + 1 := by
  simp [lastPiece, length_leftover]

/-- **What a run delivers as lines**: the last piece of each line of the stream. -/
theorem framed_lines (term : α → Bool) {N : Nat} (hN : 0 < N) (s : List α) :
    (framed term hN s).2.filterMap Segment.line? = (lines term s).map (lastPiece N) := by
  have hfull : ∀ bs : List (List α), (bs.map Segment.full).filterMap Segment.line? = [] := by
    intro bs
    rw [List.filterMap_map, List.filterMap_eq_nil_iff]
    exact fun _ _ => rfl
  rw [(framed_eq term hN s).2, List.filterMap_append, hfull, List.append_nil]
  induction lines term s with
  | nil => rfl
  | cons l ls ih =>
    rw [List.flatMap_cons, List.filterMap_append, ih, lineSegments, List.filterMap_append, hfull]
    rfl

/-- A line that fits is cut in one piece. -/
theorem lineSegments_of_fits {N : Nat} {l : Line α} (h : l.body.length < N) :
    lineSegments N l = [.line l.bytes] := by
  have hN : 0 < N := Nat.zero_lt_of_lt h
  rw [lineSegments, blocks_of_lt h, (leftover_eq_self_iff hN).mpr h]
  rfl

/-- A line that does not fit loses a full block. -/
theorem exists_full_of_long {N : Nat} (hN : 0 < N) {l : Line α} (h : N ≤ l.body.length) :
    ∃ bytes, Segment.full bytes ∈ lineSegments N l := by
  have hblock : 0 < l.body.length / N := Nat.div_pos h hN
  refine ⟨(l.body.drop (N * 0)).take N, List.mem_append_left _ (List.mem_map_of_mem ?_)⟩
  exact List.mem_map.mpr ⟨0, List.mem_range.mpr hblock, rfl⟩

/-- **The round trip**: a sequence of lines comes back line by line exactly when each fits. -/
theorem framed_lines_roundtrip (term : α → Bool) {N : Nat} (hN : 0 < N) {ls : List (Line α)}
    (hls : ∀ l ∈ ls, l.WellFormed term) :
    (framed term hN (ls.flatMap Line.bytes)).2 = ls.map (fun l => .line l.bytes) ↔
      ∀ l ∈ ls, l.body.length < N := by
  obtain ⟨hlines, hopen⟩ := lines_flatMap_bytes hls
  rw [(framed_eq term hN _).2, hlines, hopen, blocks_nil, List.map_nil, List.append_nil]
  constructor
  · intro heq l hl
    by_contra hlong
    obtain ⟨bytes, hfull⟩ := exists_full_of_long hN (Nat.not_lt.mp hlong)
    have hmem : Segment.full bytes ∈ ls.map fun l => Segment.line l.bytes := by
      rw [← heq]
      exact List.mem_flatMap.mpr ⟨l, hl, hfull⟩
    obtain ⟨l', -, hl'⟩ := List.mem_map.mp hmem
    cases hl'
  · intro hfits
    rw [List.map_eq_flatMap]
    exact List.flatMap_congr fun l hl => lineSegments_of_fits (hfits l hl)

/-! ## §4 — joining the pieces again. -/

/-- One segment more: a full buffer is kept for later, a line is joined to what was kept. -/
def rejoinStep (r : List α × List (List α)) : Segment α → List α × List (List α)
  | .full bytes => (r.1 ++ bytes, r.2)
  | .line bytes => ([], r.2 ++ [r.1 ++ bytes])

/-- **`rejoin gs`** — what the user of a framer can make of its segments: the pieces of a line that
has not ended yet, and the whole lines. -/
def rejoin (gs : List (Segment α)) : List α × List (List α) := gs.foldl rejoinStep ([], [])

theorem rejoin_append (gs gs' : List (Segment α)) :
    rejoin (gs ++ gs') = gs'.foldl rejoinStep (rejoin gs) := List.foldl_append

/-- **The bound costs nothing**: at every size, the pieces of a bounded framer join to the lines of
the unbounded reading, and the open line is in the pieces kept and in the buffer. -/
theorem rejoin_framed (term : α → Bool) {N : Nat} (hN : 0 < N) (s : List α) :
    (rejoin (framed term hN s).2).1 ++ (framed term hN s).1.bytes = openLine term s ∧
      (rejoin (framed term hN s).2).2 = (lines term s).map Line.bytes := by
  induction s using List.reverseRecOn with
  | nil => exact ⟨rfl, rfl⟩
  | append_singleton s b ih =>
    obtain ⟨hopen, hlines⟩ := ih
    rw [framed_snoc, rejoin_append, openLine_snoc, lines_snoc]
    by_cases hb : term b = true
    · rw [Partial.push_of_term hb, if_pos hb, if_pos hb]
      refine ⟨rfl, ?_⟩
      show (rejoin _).2 ++ [(rejoin _).1 ++ (_ ++ [b])] = _
      rw [hlines, ← List.append_assoc, hopen, List.map_append]
      rfl
    · rw [if_neg hb, if_neg hb]
      rw [Bool.not_eq_true] at hb
      by_cases hfull : (framed term hN s).1.bytes.length + 1 = N
      · rw [Partial.push_of_full hb hfull]
        refine ⟨?_, hlines⟩
        show (rejoin _).1 ++ (_ ++ [b]) ++ [] = _
        rw [List.append_nil, ← List.append_assoc, hopen]
      · obtain ⟨hbytes, hnone⟩ := Partial.push_of_room hb hfull
        rw [hbytes, hnone, ← hopen, List.append_assoc]
        exact ⟨rfl, hlines⟩

/-! ## §5 — the framer in an array. -/

/-- **`Stored zero buf len p`** — an array `buf` with a fill count `len` holds the symbols `p`
keeps, and `zero` in every other cell. -/
structure Stored {term : α → Bool} {N : Nat} (zero : α) (buf : List α) (len : Nat)
    (p : Partial term N) : Prop where
  len_eq : len = p.bytes.length
  buf_eq : buf = p.bytes ++ List.replicate (N - len) zero

namespace Stored

variable {term : α → Bool} {N : Nat} {zero : α} {buf : List α} {len : Nat} {p : Partial term N}

/-- An array of zeros is the empty framer. -/
theorem empty (zero : α) (hN : 0 < N) :
    Stored zero (List.replicate N zero) 0 (Partial.empty hN : Partial term N) :=
  ⟨rfl, by simp⟩

theorem reset (p : Partial term N) : Stored zero (List.replicate N zero) 0 p.reset :=
  ⟨rfl, by simp⟩

theorem len_lt (h : Stored zero buf len p) : len < N := h.len_eq ▸ p.short

theorem take_eq (h : Stored zero buf len p) : buf.take len = p.bytes := by
  rw [h.buf_eq, h.len_eq, List.take_left]

theorem drop_eq (h : Stored zero buf len p) : buf.drop len = List.replicate (N - len) zero := by
  rw [h.buf_eq]
  conv_lhs => rw [h.len_eq]
  rw [List.drop_left, h.len_eq]

/-- Storing a symbol at the fill count appends it. -/
theorem set_eq (h : Stored zero buf len p) (b : α) :
    buf.set len b = (p.bytes ++ [b]) ++ List.replicate (N - (len + 1)) zero := by
  have hlt := h.len_lt
  obtain ⟨k, hk⟩ := Nat.exists_eq_add_of_lt hlt
  rw [h.buf_eq, show N - len = k + 1 by omega, show N - (len + 1) = k by omega, h.len_eq,
    List.replicate_succ, List.set_append_right _ _ le_rfl]
  simp

theorem take_set (h : Stored zero buf len p) (b : α) :
    (buf.set len b).take (len + 1) = p.bytes ++ [b] := by
  rw [h.set_eq b, List.take_left']
  simp [h.len_eq]

/-- A symbol that cuts nothing off. -/
theorem push_of_room (h : Stored zero buf len p) {b : α} (hb : term b = false)
    (hroom : len + 1 ≠ N) : Stored zero (buf.set len b) (len + 1) (p.push b).1 := by
  obtain ⟨hbytes, -⟩ := Partial.push_of_room hb (h.len_eq ▸ hroom)
  refine ⟨?_, ?_⟩
  · rw [hbytes, h.len_eq]
    simp
  · rw [hbytes]
    exact h.set_eq b

end Stored

end EchoBot.Stream
