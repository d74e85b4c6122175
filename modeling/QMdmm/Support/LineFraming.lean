import Mathlib.Data.List.Basic
import Mathlib.Tactic.Linarith

/-! # A device that reads line by line

The stream is of any symbols; a line ends with `stop`, and carries it. -/

namespace LineFraming

variable {α σ τ : Type*} [DecidableEq α] (stop : α)

/-- The first line, and what comes after it. -/
def readLine : List α → Option (List α × List α)
  | [] => none
  | a :: l =>
    if a = stop then some ([a], l)
    else (readLine l).map fun p => (a :: p.1, p.2)

variable {stop}

theorem readLine_eq_none {l : List α} : readLine stop l = none ↔ stop ∉ l := by
  induction l with
  | nil => simp [readLine]
  | cons a l ih =>
    rw [readLine]
    split
    · next ha => simp [ha]
    · next ha => simp [ih, Ne.symm ha]

theorem readLine_eq_some {l line rest : List α} :
    readLine stop l = some (line, rest) ↔
      ∃ init, stop ∉ init ∧ line = init ++ [stop] ∧ l = init ++ stop :: rest := by
  induction l generalizing line with
  | nil => simp [readLine]
  | cons a l ih =>
    rw [readLine]
    constructor
    · intro h
      split at h
      · next ha =>
        cases h
        exact ⟨[], by simp, by simp [ha], by simp [ha]⟩
      · next ha =>
        obtain ⟨p, hp, hpair⟩ := Option.map_eq_some_iff.mp h
        obtain ⟨line', rest'⟩ := p
        obtain ⟨init, hinit, hline, hl⟩ := ih.mp (hp.trans (by cases hpair; rfl))
        cases hpair
        exact ⟨a :: init, by simp [hinit, Ne.symm ha], by simp [hline], by simp [hl]⟩
    · rintro ⟨init, hinit, rfl, hl⟩
      cases init with
      | nil =>
        cases hl
        simp
      | cons b init =>
        cases hl
        rw [List.mem_cons, not_or] at hinit
        rw [if_neg (Ne.symm hinit.1), ih.mpr ⟨init, hinit.2, rfl, rfl⟩]
        rfl

theorem readLine_append {l line rest : List α} (h : readLine stop l = some (line, rest))
    (m : List α) : readLine stop (l ++ m) = some (line, rest ++ m) := by
  obtain ⟨init, hinit, hline, rfl⟩ := readLine_eq_some.mp h
  exact readLine_eq_some.mpr ⟨init, hinit, hline, by simp⟩

theorem length_of_readLine {l line rest : List α} (h : readLine stop l = some (line, rest)) :
    l.length = line.length + rest.length ∧ 0 < line.length := by
  obtain ⟨init, -, rfl, rfl⟩ := readLine_eq_some.mp h
  constructor
  · simp only [List.length_append, List.length_cons, List.length_nil]
    omega
  · simp

/-- A line that starts with what holds no line is longer. -/
theorem length_lt_of_readLine_append {l m line rest : List α} (hstop : stop ∉ l)
    (h : readLine stop (l ++ m) = some (line, rest)) : l.length < line.length := by
  induction l generalizing line with
  | nil => exact (length_of_readLine h).2
  | cons a l ih =>
    rw [List.mem_cons, not_or] at hstop
    rw [List.cons_append, readLine, if_neg (Ne.symm hstop.1)] at h
    obtain ⟨⟨line', rest'⟩, hp, hpair⟩ := Option.map_eq_some_iff.mp h
    obtain ⟨rfl, rfl⟩ := Prod.mk.inj hpair
    have hlonger := ih hstop.2 hp
    simp only [List.length_cons]
    omega

variable (stop)

/-- The complete lines, and the symbols after the last of them. -/
def lines (l : List α) : List (List α) × List α :=
  match _h : readLine stop l with
  | none => ([], l)
  | some (line, rest) => (line :: (lines rest).1, (lines rest).2)
termination_by l.length
decreasing_by
  all_goals
    have hlength := length_of_readLine _h
    omega

/-- What a loop over the lines of a buffer leaves. -/
structure Drained (σ α : Type*) where
  state : σ
  buffer : List α
  /-- No line was refused. -/
  more : Bool

/-- Hand over the lines of a buffer, until one is refused. -/
def drain (accept : σ → List α → σ × Bool) (s : σ) (buffer : List α) : Drained σ α :=
  match _h : readLine stop buffer with
  | none => ⟨s, buffer, true⟩
  | some (line, rest) =>
    if (accept s line).2 then drain accept (accept s line).1 rest
    else ⟨(accept s line).1, rest, false⟩
termination_by buffer.length
decreasing_by
  have hlength := length_of_readLine _h
  omega

/-- What lines and the symbols after them come to, where a line may have `bound`
symbols: they are handed over in order up to the first that is refused or too long. -/
def judge (accept : σ → List α → σ × Bool) (giveUp : σ → σ) (bound : Nat) :
    σ → List (List α) → List α → σ × Bool
  | s, [], tail => if bound ≤ tail.length then (giveUp s, false) else (s, true)
  | s, line :: rest, tail =>
    if bound < line.length then (giveUp s, false)
    else if (accept s line).2 then judge accept giveUp bound (accept s line).1 rest tail
    else ((accept s line).1, false)

/-- What a whole stream comes to, and whether more of it would be read. -/
def outcome (accept : σ → List α → σ × Bool) (giveUp : σ → σ) (bound : Nat) (s : σ)
    (l : List α) : σ × Bool :=
  judge accept giveUp bound s (lines stop l).1 (lines stop l).2

variable {stop}

theorem lines_of_notMem {l : List α} (h : stop ∉ l) : lines stop l = ([], l) := by
  rw [lines]
  split
  · rfl
  · next hline => simp [readLine_eq_none.mpr h] at hline

theorem lines_of_readLine {l line rest : List α} (h : readLine stop l = some (line, rest)) :
    lines stop l = (line :: (lines stop rest).1, (lines stop rest).2) := by
  rw [lines]
  split
  · next hline => simp [h] at hline
  · next hline =>
    cases h.symm.trans hline
    rfl

variable (stop) in
theorem notMem_tail (l : List α) : stop ∉ (lines stop l).2 := by
  induction l using lines.induct stop with
  | case1 l h =>
    have hl := readLine_eq_none.mp h
    rwa [lines_of_notMem hl]
  | case2 l line rest h ih => rwa [lines_of_readLine h]

variable (stop) in
theorem length_tail_le (l : List α) : (lines stop l).2.length ≤ l.length := by
  induction l using lines.induct stop with
  | case1 l h => rw [lines_of_notMem (readLine_eq_none.mp h)]
  | case2 l line rest h ih =>
    have hlength := length_of_readLine h
    rw [lines_of_readLine h]
    exact ih.trans (by omega)

/-- A line cut in two by the arrival is still one line. -/
theorem lines_append (l m : List α) :
    lines stop (l ++ m) = ((lines stop l).1 ++ (lines stop ((lines stop l).2 ++ m)).1,
      (lines stop ((lines stop l).2 ++ m)).2) := by
  induction l using lines.induct stop with
  | case1 l h => simp [lines_of_notMem (readLine_eq_none.mp h)]
  | case2 l line rest h ih =>
    rw [lines_of_readLine (readLine_append h m), lines_of_readLine h, ih]
    rfl

section Drain

variable {accept : σ → List α → σ × Bool}

theorem drain_of_notMem {l : List α} (h : stop ∉ l) (s : σ) :
    drain stop accept s l = ⟨s, l, true⟩ := by
  rw [drain]
  split
  · rfl
  · next hline => simp [readLine_eq_none.mpr h] at hline

theorem drain_of_readLine {l line rest : List α} (h : readLine stop l = some (line, rest))
    (s : σ) :
    drain stop accept s l =
      if (accept s line).2 then drain stop accept (accept s line).1 rest
      else ⟨(accept s line).1, rest, false⟩ := by
  rw [drain]
  split
  · next hline => simp [h] at hline
  · next hline =>
    cases h.symm.trans hline
    rfl

/-- A loop that no line stopped leaves what is not a line. -/
theorem drain_buffer {s : σ} {l : List α} (h : (drain stop accept s l).more = true) :
    (drain stop accept s l).buffer = (lines stop l).2 := by
  induction l using lines.induct stop generalizing s with
  | case1 l hl =>
    have hl := readLine_eq_none.mp hl
    rw [drain_of_notMem hl, lines_of_notMem hl]
  | case2 l line rest hl ih =>
    rw [drain_of_readLine hl] at h ⊢
    rw [lines_of_readLine hl]
    split at h
    · next haccept => rw [if_pos haccept, ih h]
    · cases h

end Drain

section Judge

variable {accept : σ → List α → σ × Bool} {giveUp : σ → σ} {bound : Nat}

/-- Where a buffer cannot hold a line that is too long, the loop over it and the
test of what it leaves find what the stream comes to. -/
theorem outcome_eq_drain {l : List α} (h : l.length ≤ bound) (s : σ) :
    outcome stop accept giveUp bound s l =
      if (drain stop accept s l).more then
        if bound ≤ (drain stop accept s l).buffer.length then
          (giveUp (drain stop accept s l).state, false)
        else ((drain stop accept s l).state, true)
      else ((drain stop accept s l).state, false) := by
  induction l using lines.induct stop generalizing s with
  | case1 l hl =>
    have hl := readLine_eq_none.mp hl
    simp [outcome, lines_of_notMem hl, drain_of_notMem hl, judge]
  | case2 l line rest hl ih =>
    have hlength := length_of_readLine hl
    have hfits : ¬ bound < line.length := by omega
    have ih := ih (by omega) (accept s line).1
    rw [outcome] at ih ⊢
    rw [lines_of_readLine hl, drain_of_readLine hl, judge, if_neg hfits]
    cases haccept : (accept s line).2 with
    | true =>
      rw [if_pos rfl, if_pos rfl]
      exact ih
    | false => simp

omit [DecidableEq α] in
theorem judge_append {s : σ} {ls ms : List (List α)} {t t' : List α}
    (h : (judge accept giveUp bound s ls t).2 = true) :
    judge accept giveUp bound s (ls ++ ms) t' =
      judge accept giveUp bound (judge accept giveUp bound s ls t).1 ms t' := by
  induction ls generalizing s with
  | nil =>
    rw [judge] at h ⊢
    split at h
    · cases h
    · next hshort => rw [if_neg hshort, List.nil_append]
  | cons line ls ih =>
    rw [judge] at h
    rw [List.cons_append, judge]
    split at h
    · cases h
    · next hfits =>
      split at h
      · next haccept =>
        rw [judge, if_neg hfits, if_pos haccept, if_neg hfits, if_pos haccept]
        exact ih h
      · cases h

/-- A stream that goes on keeps less than one line waiting. -/
theorem length_tail_lt {s : σ} {l : List α}
    (h : (outcome stop accept giveUp bound s l).2 = true) : (lines stop l).2.length < bound := by
  suffices hjudge : ∀ {s : σ} {ls : List (List α)} {t : List α},
      (judge accept giveUp bound s ls t).2 = true → t.length < bound from hjudge h
  intro s ls t h
  induction ls generalizing s with
  | nil =>
    rw [judge] at h
    split at h
    · cases h
    · omega
  | cons line ls ih =>
    rw [judge] at h
    split at h
    · cases h
    · split at h
      · exact ih h
      · cases h

/-- A stream goes on with what it left waiting. -/
theorem outcome_append {s : σ} {l : List α}
    (h : (outcome stop accept giveUp bound s l).2 = true) (m : List α) :
    outcome stop accept giveUp bound s (l ++ m) =
      outcome stop accept giveUp bound (outcome stop accept giveUp bound s l).1
        ((lines stop l).2 ++ m) := by
  rw [outcome, lines_append]
  exact judge_append h

/-- No line that starts so fits. -/
theorem outcome_of_long {l : List α} (hstop : stop ∉ l) (hlong : bound ≤ l.length) (s : σ)
    (m : List α) : outcome stop accept giveUp bound s (l ++ m) = (giveUp s, false) := by
  cases hline : readLine stop (l ++ m) with
  | none =>
    have hlength : bound ≤ (l ++ m).length := by
      rw [List.length_append]
      omega
    rw [outcome, lines_of_notMem (readLine_eq_none.mp hline), judge, if_pos hlength]
  | some p =>
    obtain ⟨line, rest⟩ := p
    have hlonger := length_lt_of_readLine_append hstop hline
    have htoo : bound < line.length := by omega
    rw [outcome, lines_of_readLine hline, judge, if_pos htoo]

/-- Nothing that follows changes what ended. -/
theorem outcome_append_of_ended {s : σ} {l : List α}
    (h : (outcome stop accept giveUp bound s l).2 = false) (m : List α) :
    outcome stop accept giveUp bound s (l ++ m) = outcome stop accept giveUp bound s l := by
  rw [outcome, lines_append]
  have htail := notMem_tail stop l
  change (judge accept giveUp bound s (lines stop l).1 (lines stop l).2).2 = false at h
  rw [outcome]
  generalize (lines stop l).1 = ls at h
  generalize (lines stop l).2 = t at h htail
  induction ls generalizing s with
  | nil =>
    rw [judge] at h ⊢
    split at h
    · next hlong =>
      rw [if_pos hlong]
      exact outcome_of_long htail hlong s m
    · cases h
  | cons line ls ih =>
    rw [judge] at h
    rw [List.cons_append, judge, judge]
    split at h
    · next hlong => rw [if_pos hlong, if_pos hlong]
    · next hfits =>
      rw [if_neg hfits, if_neg hfits]
      split at h
      · next haccept =>
        rw [if_pos haccept, if_pos haccept]
        exact ih h
      · next hrefused => rw [if_neg hrefused, if_neg hrefused]

/-- Two ways of taking the lines that keep a relation, come to related ends. -/
theorem outcome_rel {R : Bool → σ → τ → Prop} {accept' : τ → List α → τ × Bool}
    {giveUp' : τ → τ}
    (haccept : ∀ s t line, R true s t → (accept s line).2 = (accept' t line).2 ∧
      R (accept s line).2 (accept s line).1 (accept' t line).1)
    (hgiveUp : ∀ s t, R true s t → R false (giveUp s) (giveUp' t)) {s : σ} {t : τ}
    (h : R true s t) (l : List α) :
    (outcome stop accept giveUp bound s l).2 = (outcome stop accept' giveUp' bound t l).2 ∧
      R (outcome stop accept giveUp bound s l).2 (outcome stop accept giveUp bound s l).1
        (outcome stop accept' giveUp' bound t l).1 := by
  rw [outcome, outcome]
  generalize (lines stop l).1 = ls
  generalize (lines stop l).2 = tail
  induction ls generalizing s t with
  | nil =>
    rw [judge, judge]
    split
    · exact ⟨rfl, hgiveUp s t h⟩
    · exact ⟨rfl, h⟩
  | cons line ls ih =>
    obtain ⟨hsame, hnext⟩ := haccept s t line h
    rw [judge, judge]
    split
    · exact ⟨rfl, hgiveUp s t h⟩
    · rw [← hsame]
      split
      · next hgoes =>
        rw [hgoes] at hnext
        exact ih hnext
      · next hrefused =>
        rw [Bool.not_eq_true] at hrefused
        rw [hrefused] at hnext
        exact ⟨rfl, hnext⟩

end Judge

end LineFraming
