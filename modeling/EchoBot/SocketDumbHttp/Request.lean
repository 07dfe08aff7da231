/-
# EchoBot.SocketDumbHttp.Request — the request detector of `thread_socket_dumb_http`

The server reads the request byte by byte and throws it away; `req_state` counts how much of
CR LF CR LF has been matched, and the response goes out when all of it has. The pattern overlaps
itself, and the matcher does not fall back: every mismatch goes to state 0, also when the byte is a
CR that begins a new match. So a CR just before the blank line takes a CR of it away.

`request_detected_iff` says when that shows: the loop ends exactly where it should if and only if
the first blank line of the stream is preceded by an EVEN number of CRs. The states are told apart
by the parity of the CRs received last (`Scanned.parity`), which is why.
-/
import EchoBot.Stream.History
import Mathlib.Data.List.Infix

namespace EchoBot.SocketDumbHttp

open EchoBot.Stream

/-! ## §1 — the loop. -/

/-- The values of `errno` the loop tells apart. -/
inductive Errno where
  | eagain
  | eintr
  | other
  deriving DecidableEq, Repr

/-- The outcomes of `recv(client, &c, 1, 0)`. -/
inductive Recv where
  /-- It returned 1. -/
  | byte (c : UInt8)
  /-- It returned 0. -/
  | closed
  /-- It returned a negative value. -/
  | error (errno : Errno)
  deriving DecidableEq, Repr

/-- How the loop is left, and the outcomes not used up. -/
inductive Request where
  /-- `break`: the response follows. -/
  | respond (rest : List Recv)
  /-- `goto close_client`. -/
  | closeClient (rest : List Recv)
  /-- The loop is in `recv`. -/
  | receiving (reqState : Nat)
  deriving DecidableEq, Repr

/-- What a byte does to `req_state`; `none` is the `break`. -/
def nextState (reqState : Nat) (c : UInt8) : Option Nat :=
  if reqState = 0 ∧ c = 13 then some (reqState + 1)
  else if reqState = 1 ∧ c = 10 then some (reqState + 1)
  else if reqState = 2 ∧ c = 13 then some (reqState + 1)
  else if reqState = 3 ∧ c = 10 then none
  else some 0

/-- The loop that discards the request. -/
def discardRequest (reqState : Nat) : List Recv → Request
  | [] => .receiving reqState
  | .closed :: outcomes => .closeClient outcomes
  | .error errno :: outcomes =>
    if errno = .eagain ∨ errno = .eintr then discardRequest reqState outcomes
    else .closeClient outcomes
  | .byte c :: outcomes =>
    match nextState reqState c with
    | none => .respond outcomes
    | some reqState => discardRequest reqState outcomes

/-- The bytes some outcomes deliver. -/
def received (outcomes : List Recv) : List UInt8 :=
  outcomes.filterMap fun
    | .byte c => some c
    | _ => none

/-- A byte, or an error the loop retries. -/
def Recv.Retried : Recv → Prop
  | .byte _ => True
  | .closed => False
  | .error errno => errno = .eagain ∨ errno = .eintr

@[simp] theorem received_append (o p : List Recv) : received (o ++ p) = received o ++ received p :=
  List.filterMap_append

/-! ## §2 — the states of the matcher. -/

/-- CR LF CR LF. -/
def blankLine : List UInt8 := [13, 10, 13, 10]

/-- `req_state` after some bytes; `none` once the loop has been left. -/
def scan (s : List UInt8) : Option Nat := s.foldl (fun q c => q.bind (nextState · c)) (some 0)

theorem scan_snoc (s : List UInt8) (c : UInt8) :
    scan (s ++ [c]) = (scan s).bind (nextState · c) := by
  rw [scan, List.foldl_append]
  rfl

/-- The number of CRs at the end of `s`. -/
def trailingCRs (s : List UInt8) : Nat := (s.reverse.takeWhile (· == 13)).length

theorem trailingCRs_snoc (s : List UInt8) (c : UInt8) :
    trailingCRs (s ++ [c]) = if c = 13 then trailingCRs s + 1 else 0 := by
  rw [trailingCRs, List.reverse_append, List.reverse_singleton, List.singleton_append,
    List.takeWhile_cons]
  by_cases hc : c = 13
  · simp [hc, trailingCRs]
  · simp [hc]

/-- **`Scanned s q`** — what state `q` says about the bytes `s` that led to it. -/
structure Scanned (s : List UInt8) (q : Nat) : Prop where
  le : q ≤ 3
  parity : q % 2 = trailingCRs s % 2
  two : q = 2 → [13, 10] <:+ s
  three : q = 3 → [13, 10, 13] <:+ s

theorem suffix_snoc {p s : List UInt8} (h : p <:+ s) (c : UInt8) : p ++ [c] <:+ s ++ [c] := by
  obtain ⟨r, rfl⟩ := h
  exact ⟨r, by simp⟩

theorem cr_suffix_of_trailingCRs_pos {s : List UInt8} (hs : 0 < trailingCRs s) : [13] <:+ s := by
  rcases List.eq_nil_or_concat' s with rfl | ⟨r, c, rfl⟩
  · cases hs
  · rw [trailingCRs_snoc] at hs
    split at hs
    · next hc =>
      subst hc
      exact List.suffix_append r [13]
    · omega

/-- One byte keeps what the state says. The odd states are those behind an odd run of CRs: a CR
leads from an even state to an odd one and from an odd one to 0. -/
theorem Scanned.step {s : List UInt8} {q q' : Nat} (hs : Scanned s q) {c : UInt8}
    (hq : nextState q c = some q') : Scanned (s ++ [c]) q' := by
  have hparity := hs.parity
  have hle := hs.le
  have hcr := trailingCRs_snoc s c
  unfold nextState at hq
  split_ifs at hq with h0 h1 h2 h3
  · obtain ⟨rfl, rfl⟩ := h0
    cases hq
    rw [if_pos rfl] at hcr
    exact ⟨by omega, by omega, by omega, by omega⟩
  · obtain ⟨rfl, rfl⟩ := h1
    cases hq
    rw [if_neg (by decide)] at hcr
    have hlast : [13] <:+ s := cr_suffix_of_trailingCRs_pos (by omega)
    exact ⟨by omega, by omega, fun _ => suffix_snoc hlast 10, by omega⟩
  · obtain ⟨rfl, rfl⟩ := h2
    cases hq
    rw [if_pos rfl] at hcr
    exact ⟨by omega, by omega, by omega, fun _ => suffix_snoc (hs.two rfl) 13⟩
  · cases hq
    refine ⟨by omega, ?_, by omega, by omega⟩
    by_cases hc : c = 13
    · -- a CR that is no step forward: the state was odd
      have hodd : q % 2 = 1 := by
        have hne0 : q ≠ 0 := fun h => h0 ⟨h, hc⟩
        have hne2 : q ≠ 2 := fun h => h2 ⟨h, hc⟩
        omega
      rw [if_pos hc] at hcr
      omega
    · rw [if_neg hc] at hcr
      omega

theorem scanned_of_scan {s : List UInt8} {q : Nat} (hq : scan s = some q) : Scanned s q := by
  induction s using List.reverseRecOn generalizing q with
  | nil =>
    cases hq
    exact ⟨by omega, rfl, by omega, by omega⟩
  | append_singleton s c ih =>
    rw [scan_snoc] at hq
    obtain ⟨q', hq', hstep⟩ := Option.bind_eq_some_iff.mp hq
    exact (ih hq').step hstep

/-- The loop is left behind a blank line. -/
theorem blankLine_of_nextState {s : List UInt8} {q : Nat} (hs : Scanned s q) {c : UInt8}
    (hq : nextState q c = none) : blankLine <:+ s ++ [c] := by
  unfold nextState at hq
  split_ifs at hq with h0 h1 h2 h3
  obtain ⟨rfl, rfl⟩ := h3
  exact suffix_snoc (hs.three rfl) 10

/-- **No early end**: bytes that end the loop contain a blank line. -/
theorem exists_blankLine_of_scan {s : List UInt8} (hs : scan s = none) :
    ∃ u, u <+: s ∧ blankLine <:+ u := by
  induction s using List.reverseRecOn with
  | nil => cases hs
  | append_singleton s c ih =>
    cases hq : scan s with
    | none =>
      obtain ⟨u, hu, hblank⟩ := ih hq
      exact ⟨u, hu.trans (List.prefix_append s [c]), hblank⟩
    | some q =>
      rw [scan_snoc, hq] at hs
      exact ⟨s ++ [c], List.prefix_rfl, blankLine_of_nextState (scanned_of_scan hq) hs⟩

/-- The first blank line of a stream. -/
abbrev FirstBlankLine : List UInt8 → Prop := First (blankLine <:+ ·)

/-- **When the first blank line ends the loop**: when the CRs before it are even in number. -/
theorem scan_firstBlankLine {x : List UInt8} (hfirst : FirstBlankLine (x ++ blankLine)) :
    scan (x ++ blankLine) = none ↔ trailingCRs x % 2 = 0 := by
  -- no blank line comes before, so the loop is still running behind `x`
  have hearlier : ∀ u, u <+: x ++ blankLine → u.length < x.length + 4 → ¬ blankLine <:+ u := by
    intro u hu hlen hblank
    have heq := congrArg List.length (hfirst.2 u hu hblank)
    simp only [blankLine, List.length_append, List.length_cons, List.length_nil] at heq
    omega
  cases hq : scan x with
  | none =>
    obtain ⟨u, hu, hblank⟩ := exists_blankLine_of_scan hq
    have hlen := hu.length_le
    exact absurd hblank (hearlier u (hu.trans (List.prefix_append x blankLine)) (by omega))
  | some q =>
    have hs := scanned_of_scan hq
    have hrun : scan (x ++ blankLine) =
        (((nextState q 13).bind (nextState · 10)).bind (nextState · 13)).bind (nextState · 10) := by
      have hsplit : x ++ blankLine = x ++ [13] ++ [10] ++ [13] ++ [10] := by simp [blankLine]
      rw [hsplit, scan_snoc, scan_snoc, scan_snoc, scan_snoc, hq]
      rfl
    rw [hrun, ← hs.parity]
    have hle := hs.le
    have htwo : q ≠ 2 := by
      -- in state 2 the first half of the blank line would complete an earlier one
      intro h
      obtain ⟨r, hr⟩ := hs.two h
      refine hearlier (x ++ [13, 10]) ⟨[13, 10], by simp [blankLine]⟩ (by simp) ⟨r, ?_⟩
      rw [← hr]
      simp [blankLine]
    obtain rfl | rfl | rfl : q = 0 ∨ q = 1 ∨ q = 3 := by omega
    · decide
    · decide
    · decide

/-! ## §3 — the loop and the stream. -/

/-- The loop, begun behind the outcomes `past`, is left at the first outcome that ends the scan. -/
theorem discardRequest_behind {outcomes : List Recv} (hret : ∀ o ∈ outcomes, o.Retried)
    (rest : List Recv) {past : List Recv} {q : Nat} (hq : scan (received past) = some q) :
    discardRequest q outcomes = .respond rest ↔
      ∃ pre, outcomes = pre ++ rest ∧ First (fun o => scan (received (past ++ o)) = none) pre := by
  have hbegun : ∀ {past q}, scan (received past) = some q →
      ¬ scan (received (past ++ [])) = none := by
    intro past q hq
    rw [List.append_nil, hq]
    exact Option.some_ne_none q
  induction outcomes generalizing past q with
  | nil =>
    apply iff_of_false (by simp [discardRequest])
    rintro ⟨pre, hpre, hfirst, -⟩
    rw [(List.append_eq_nil_iff.mp hpre.symm).1] at hfirst
    exact hbegun hq hfirst
  | cons o outcomes ih =>
    obtain ⟨ho, hrest⟩ := List.forall_mem_cons.mp hret
    rw [exists_first_cons (hbegun hq)]
    -- behind an outcome that does not end the scan, the loop goes on as it began
    have hnext : ∀ {q'}, scan (received (past ++ [o])) = some q' →
        (discardRequest q' outcomes = .respond rest ↔
          (scan (received (past ++ [o])) = none ∧ rest = outcomes) ∨
            (¬ scan (received (past ++ [o])) = none ∧ ∃ pre, outcomes = pre ++ rest ∧
              First (fun u => scan (received (past ++ o :: u)) = none) pre)) := by
      intro q' hq'
      have hgoes : ¬ scan (received (past ++ [o])) = none := by
        rw [hq']
        exact Option.some_ne_none q'
      rw [or_iff_right fun h => hgoes h.1, and_iff_right hgoes]
      simpa only [List.append_assoc, List.singleton_append] using ih hrest hq'
    cases o with
    | closed => cases ho
    | error errno =>
      have hsame : scan (received (past ++ [.error errno])) = some q := by
        rw [received_append, ← hq]
        exact congrArg scan (List.append_nil _)
      have hretry : errno = .eagain ∨ errno = .eintr := ho
      rw [discardRequest, if_pos hretry]
      exact hnext hsame
    | byte c =>
      have hbyte : scan (received (past ++ [.byte c])) = nextState q c := by
        rw [received_append]
        show scan (received past ++ [c]) = _
        rw [scan_snoc, hq]
        rfl
      cases hstep : nextState q c with
      | some q' =>
        rw [discardRequest, hstep]
        exact hnext (hbyte.trans hstep)
      | none =>
        have hends : scan (received (past ++ [.byte c])) = none := hbyte.trans hstep
        rw [discardRequest, hstep]
        constructor
        · intro h
          cases h
          exact Or.inl ⟨hends, rfl⟩
        · rintro (⟨-, rfl⟩ | ⟨hgoes, -⟩)
          · rfl
          · exact absurd hends hgoes

/-- Bytes received at some moment are received behind some outcomes. -/
theorem exists_prefix_received {outcomes : List Recv} {s : List UInt8}
    (hs : s <+: received outcomes) : ∃ o, o <+: outcomes ∧ received o = s := by
  induction outcomes using List.reverseRecOn with
  | nil => exact ⟨[], List.prefix_rfl, (List.prefix_nil.mp hs).symm⟩
  | append_singleton outcomes o ih =>
    have hpast : s <+: received outcomes → ∃ p, p <+: outcomes ++ [o] ∧ received p = s := by
      intro h
      obtain ⟨p, hp, hps⟩ := ih h
      exact ⟨p, hp.trans (List.prefix_append _ _), hps⟩
    rw [received_append] at hs
    cases o with
    | byte c =>
      rcases List.prefix_concat_iff.mp hs with rfl | hs
      · exact ⟨_, List.prefix_rfl, received_append _ _⟩
      · exact hpast hs
    | closed => exact hpast (by simpa [received] using hs)
    | error errno => exact hpast (by simpa [received] using hs)

/-- A first moment among the outcomes is one among the bytes. -/
theorem first_bytes {P : List UInt8 → Prop} {pre : List Recv}
    (hfirst : First (fun o => P (received o)) pre) : First P (received pre) := by
  refine ⟨hfirst.1, fun v hv hPv => ?_⟩
  obtain ⟨o, ho, rfl⟩ := exists_prefix_received hv
  rw [hfirst.2 o ho hPv]

/-- Two properties whose first moments agree on the bytes have them at the same outcome. -/
theorem first_outcomes {P Q : List UInt8 → Prop} {pre : List Recv}
    (hPQ : First P (received pre) → First Q (received pre))
    (hfirst : First (fun o => P (received o)) pre) : First (fun o => Q (received o)) pre := by
  have hQ := hPQ (first_bytes hfirst)
  refine ⟨hQ.1, fun o ho hQo => hfirst.2 o ho ?_⟩
  have hsame : received o = received pre := by
    refine hQ.2 _ ?_ hQo
    obtain ⟨r, rfl⟩ := ho
    rw [received_append]
    exact List.prefix_append _ _
  show P (received o)
  rw [hsame]
  exact hfirst.1

/-- **`Detected outcomes`** — the loop goes on to the response exactly behind the first outcome at
which the last four bytes received are CR LF CR LF, and only if there is one. -/
def Detected (outcomes : List Recv) : Prop :=
  ∀ rest, discardRequest 0 outcomes = .respond rest ↔
    ∃ pre, outcomes = pre ++ rest ∧ First (fun o => blankLine <:+ received o) pre

/-- The end of the scan and the first blank line, moment for moment. -/
theorem first_scan_iff {s : List UInt8}
    (heven : ∀ x, x ++ blankLine <+: s → FirstBlankLine (x ++ blankLine) →
      trailingCRs x % 2 = 0) :
    First (fun u => scan u = none) s ↔ FirstBlankLine s := by
  have hends : ∀ u, u <+: s → FirstBlankLine u → First (fun u => scan u = none) u := by
    rintro u hu hfirst
    obtain ⟨x, rfl⟩ := hfirst.1
    refine ⟨(scan_firstBlankLine hfirst).mpr (heven x hu hfirst), fun v hv hscan => ?_⟩
    obtain ⟨w, hw, hblank⟩ := exists_blankLine_of_scan hscan
    have hwhole := hfirst.2 w (hw.trans hv) hblank
    exact hv.eq_of_length_le (hwhole ▸ hw.length_le)
  constructor
  · intro hscan
    obtain ⟨u, hu, hfirst⟩ := exists_first (exists_blankLine_of_scan hscan.1)
    rwa [← hscan.2 u hu (hends u hu hfirst).1]
  · exact hends s List.prefix_rfl

/-- **When the request is detected.** For every byte stream, with any retried errors between its
bytes: the loop ends exactly behind the first CR LF CR LF if and only if the number of CRs just
before that is even, or there is none at all. -/
theorem request_detected_iff (outcomes : List Recv) (hret : ∀ o ∈ outcomes, o.Retried) :
    Detected outcomes ↔
      ∀ x, x ++ blankLine <+: received outcomes → FirstBlankLine (x ++ blankLine) →
        trailingCRs x % 2 = 0 := by
  have hloop : ∀ rest, discardRequest 0 outcomes = .respond rest ↔
      ∃ pre, outcomes = pre ++ rest ∧ First (fun o => scan (received o) = none) pre :=
    fun rest => @discardRequest_behind outcomes hret rest [] 0 rfl
  constructor
  · intro hdetected x hx hfirst
    obtain ⟨o, ho, hbytes⟩ := exists_prefix_received hx
    have hblank : blankLine <:+ received o := hbytes ▸ hfirst.1
    obtain ⟨pre, hpre, hfirstPre⟩ :=
      @exists_first _ (fun o => blankLine <:+ received o) o ⟨o, List.prefix_rfl, hblank⟩
    have hpreBytes : received pre = x ++ blankLine := by
      refine hfirst.2 _ ?_ hfirstPre.1
      obtain ⟨r, rfl⟩ := hpre
      rw [← hbytes, received_append]
      exact List.prefix_append _ _
    obtain ⟨rest, hrest⟩ := hpre.trans ho
    have hrespond := (hdetected rest).mpr ⟨pre, hrest.symm, hfirstPre⟩
    obtain ⟨pre', hpre', hscan⟩ := (hloop rest).mp hrespond
    obtain rfl : pre = pre' := List.append_cancel_right (hrest.trans hpre')
    rw [← scan_firstBlankLine hfirst, ← hpreBytes]
    exact hscan.1
  · intro heven rest
    rw [hloop rest]
    refine exists_congr fun pre => and_congr_right fun hpre => ?_
    have hscan : First (fun u => scan u = none) (received pre) ↔ FirstBlankLine (received pre) := by
      refine first_scan_iff fun x hx => heven x (hx.trans ?_)
      rw [hpre, received_append]
      exact List.prefix_append _ _
    exact ⟨first_outcomes hscan.mp, first_outcomes hscan.mpr⟩

/-- A request line and a blank line, with a retry in the middle of it. -/
theorem request_detected_iff_retry :
    Detected [.byte 71, .byte 13, .byte 10, .error .eagain, .byte 13, .byte 10, .byte 72] ↔
      ∀ x, x ++ blankLine <+: [71, 13, 10, 13, 10, 72] → FirstBlankLine (x ++ blankLine) →
        trailingCRs x % 2 = 0 :=
  request_detected_iff
    [.byte 71, .byte 13, .byte 10, .error .eagain, .byte 13, .byte 10, .byte 72]
    (by simp [Recv.Retried])

/-- A CR and a blank line: the loop does not see it and waits for more. -/
theorem request_behind_cr_missed :
    ¬ Detected [.byte 13, .byte 13, .byte 10, .byte 13, .byte 10] := by
  intro hdetected
  have hend : First (fun o => blankLine <:+ received o)
      [.byte 13, .byte 13, .byte 10, .byte 13, .byte 10] := by
    have hinits : ∀ u ∈ List.inits [Recv.byte 13, .byte 13, .byte 10, .byte 13, .byte 10],
        blankLine <:+ received u → u = [.byte 13, .byte 13, .byte 10, .byte 13, .byte 10] := by
      decide
    exact ⟨by decide, fun u hu hblank => hinits u ((List.mem_inits u _).mpr hu) hblank⟩
  have hrespond := (hdetected []).mpr ⟨_, rfl, hend⟩
  exact absurd hrespond (by decide)

end EchoBot.SocketDumbHttp
