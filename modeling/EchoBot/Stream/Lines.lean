/-
# EchoBot.Stream.Lines — the terminated lines of a stream, with no bound on their length

`lines term s` cuts the stream `s` after every symbol for which `term` holds; `openLine term s` is
what follows the last such symbol. This is the reading of a stream that needs unbounded memory, and
the yardstick for every receiver that has a bounded buffer: what a receiver delivers is compared
with the lines the sender wrote.

The cut loses nothing (`lines_flatMap_append_openLine`), is the only one into well-formed lines
(`lines_flatMap_bytes`), and is local: a symbol more either extends the open line or completes it
(`lines_snoc`, `openLine_snoc`).
-/
import Mathlib.Data.List.Basic
import Mathlib.Data.List.Induction

namespace EchoBot.Stream

variable {α : Type*}

/-! ## §1 — lines and the open rest. -/

/-- A terminated line: the symbols of its body and the terminator that ended it. -/
structure Line (α : Type*) where
  body : List α
  last : α
  deriving DecidableEq, Repr

/-- The symbols of the line as they stood in the stream. -/
def Line.bytes (l : Line α) : List α := l.body ++ [l.last]

@[simp] theorem Line.bytes_mk (body : List α) (t : α) : (Line.mk body t).bytes = body ++ [t] := rfl

@[simp] theorem Line.length_bytes (l : Line α) : l.bytes.length = l.body.length + 1 := by
  simp [Line.bytes]

/-- A line of `term`: no terminator in its body, one at its end. -/
structure Line.WellFormed (term : α → Bool) (l : Line α) : Prop where
  body_clean : ∀ b ∈ l.body, term b = false
  last_term : term l.last = true

variable (term : α → Bool)

/-- One symbol more: it ends the open line or extends it. -/
def lineStep (s : List (Line α) × List α) (b : α) : List (Line α) × List α :=
  if term b then (s.1 ++ [⟨s.2, b⟩], []) else (s.1, s.2 ++ [b])

/-- **`lines term s`** — the terminated lines of `s`, in order. -/
def lines (s : List α) : List (Line α) := (s.foldl (lineStep term) ([], [])).1

/-- **`openLine term s`** — the symbols of `s` since its last terminator. -/
def openLine (s : List α) : List α := (s.foldl (lineStep term) ([], [])).2

@[simp] theorem lines_nil : lines term [] = [] := rfl

@[simp] theorem openLine_nil : openLine term [] = [] := rfl

theorem lines_snoc (s : List α) (b : α) :
    lines term (s ++ [b]) =
      if term b then lines term s ++ [⟨openLine term s, b⟩] else lines term s := by
  simp only [lines, openLine, List.foldl_append, List.foldl_cons, List.foldl_nil, lineStep]
  split <;> rfl

theorem openLine_snoc (s : List α) (b : α) :
    openLine term (s ++ [b]) = if term b then [] else openLine term s ++ [b] := by
  simp only [openLine, List.foldl_append, List.foldl_cons, List.foldl_nil, lineStep]
  split <;> rfl

variable {term}

theorem openLine_clean (s : List α) : ∀ b ∈ openLine term s, term b = false := by
  induction s using List.reverseRecOn with
  | nil => simp
  | append_singleton s b ih =>
    rw [openLine_snoc]
    by_cases hb : term b = true
    · simp [hb]
    · intro x hx
      rw [if_neg hb, List.mem_append, List.mem_singleton] at hx
      rcases hx with hx | rfl
      · exact ih x hx
      · simpa using hb

theorem wellFormed_of_mem_lines {s : List α} : ∀ l ∈ lines term s, l.WellFormed term := by
  induction s using List.reverseRecOn with
  | nil => simp
  | append_singleton s b ih =>
    intro l hl
    rw [lines_snoc] at hl
    by_cases hb : term b = true
    · rw [if_pos hb, List.mem_append, List.mem_singleton] at hl
      rcases hl with hl | rfl
      · exact ih l hl
      · exact ⟨openLine_clean s, hb⟩
    · rw [if_neg hb] at hl
      exact ih l hl

/-- **Nothing is lost**: the lines followed by the open rest are the stream. -/
theorem lines_flatMap_append_openLine (s : List α) :
    (lines term s).flatMap Line.bytes ++ openLine term s = s := by
  induction s using List.reverseRecOn with
  | nil => simp
  | append_singleton s b ih =>
    rw [lines_snoc, openLine_snoc]
    by_cases hb : term b = true
    · rw [if_pos hb, if_pos hb, List.flatMap_append, List.append_nil]
      simp only [List.flatMap_singleton, Line.bytes_mk]
      rw [← List.append_assoc, ih]
    · rw [if_neg hb, if_neg hb, ← List.append_assoc, ih]

/-- What follows does not change the lines read so far. -/
theorem lines_prefix_lines_append (s t : List α) : lines term s <+: lines term (s ++ t) := by
  induction t using List.reverseRecOn with
  | nil => simp
  | append_singleton t b ih =>
    rw [← List.append_assoc, lines_snoc]
    split
    · exact ih.trans (List.prefix_append _ _)
    · exact ih

/-! ## §2 — reading a stream that was written line by line. -/

theorem lines_append_clean {s body : List α} (hbody : ∀ b ∈ body, term b = false) :
    lines term (s ++ body) = lines term s ∧
      openLine term (s ++ body) = openLine term s ++ body := by
  induction body using List.reverseRecOn with
  | nil => simp
  | append_singleton body b ih =>
    have hb : term b = false := hbody b (by simp)
    obtain ⟨ihl, iho⟩ := ih fun x hx => hbody x (by simp [hx])
    rw [← List.append_assoc, lines_snoc, openLine_snoc, hb, ihl, iho]
    simp

theorem lines_append_bytes {s : List α} {l : Line α} (hs : openLine term s = [])
    (hl : l.WellFormed term) :
    lines term (s ++ l.bytes) = lines term s ++ [l] ∧ openLine term (s ++ l.bytes) = [] := by
  obtain ⟨hlines, hopen⟩ := lines_append_clean (s := s) hl.body_clean
  rw [Line.bytes, ← List.append_assoc, lines_snoc, openLine_snoc, hl.last_term, hlines, hopen, hs]
  simp

/-- **Reading back what was written**: a stream written as well-formed lines has exactly these
lines, and nothing open. -/
theorem lines_flatMap_bytes {ls : List (Line α)} (hls : ∀ l ∈ ls, l.WellFormed term) :
    lines term (ls.flatMap Line.bytes) = ls ∧ openLine term (ls.flatMap Line.bytes) = [] := by
  induction ls using List.reverseRecOn with
  | nil => simp
  | append_singleton ls l ih =>
    obtain ⟨ihl, iho⟩ := ih fun x hx => hls x (by simp [hx])
    obtain ⟨hl, ho⟩ := lines_append_bytes iho (hls l (by simp))
    simp only [List.flatMap_append, List.flatMap_singleton]
    exact ⟨by rw [hl, ihl], ho⟩

/-! ## §3 — the line a symbol completes. -/

/-- **`CompletedLine term s l`** — `l` is the whole line that the last symbol of `s` completes: all
symbols since the previous terminator, or since the start, the final terminator included. -/
def CompletedLine (term : α → Bool) (s l : List α) : Prop :=
  ∃ pre body t, s = pre ++ l ∧ l = body ++ [t] ∧ term t = true ∧ (∀ b ∈ body, term b = false) ∧
    ∀ b ∈ pre.getLast?, term b = true

/-- The open line begins right after a terminator, or at the start. -/
theorem exists_prefix_openLine (s : List α) :
    ∃ pre, s = pre ++ openLine term s ∧ ∀ b ∈ pre.getLast?, term b = true := by
  refine ⟨(lines term s).flatMap Line.bytes, (lines_flatMap_append_openLine s).symm, ?_⟩
  intro b hb
  rcases List.eq_nil_or_concat' (lines term s) with hnil | ⟨ls, l, hls⟩
  · rw [hnil] at hb
    cases hb
  · -- what precedes the open line ends with the last line, and that with its terminator
    have hl : l ∈ lines term s := by
      rw [hls]
      exact List.mem_append_right _ (List.mem_singleton.mpr rfl)
    rw [hls, List.flatMap_append, List.flatMap_singleton, Line.bytes, ← List.append_assoc,
      List.getLast?_concat] at hb
    obtain rfl : l.last = b := by simpa using hb
    exact (wellFormed_of_mem_lines l hl).last_term

/-- The stream before a line leaves nothing open. -/
theorem openLine_eq_nil {pre : List α} (hpre : ∀ b ∈ pre.getLast?, term b = true) :
    openLine term pre = [] := by
  rcases List.eq_nil_or_concat' pre with rfl | ⟨init, b, rfl⟩
  · rfl
  · have hb : term b = true := hpre b (by simp)
    simp [openLine_snoc, hb]

/-- There is one completed line, and it is the open line with the terminator. -/
theorem completedLine_snoc_iff {s l : List α} {t : α} :
    CompletedLine term (s ++ [t]) l ↔ term t = true ∧ l = openLine term s ++ [t] := by
  constructor
  · rintro ⟨pre, body, t', hs, rfl, ht, hbody, hpre⟩
    rw [← List.append_assoc] at hs
    obtain ⟨rfl, htt⟩ := List.append_inj' hs rfl
    obtain rfl : t = t' := by simpa using htt
    refine ⟨ht, ?_⟩
    rw [(lines_append_clean hbody).2, openLine_eq_nil hpre, List.nil_append]
  · rintro ⟨ht, rfl⟩
    obtain ⟨pre, hs, hpre⟩ := @exists_prefix_openLine _ term s
    refine ⟨pre, openLine term s, t, ?_, rfl, ht, openLine_clean s, hpre⟩
    rw [← List.append_assoc, ← hs]

end EchoBot.Stream
