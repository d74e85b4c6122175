import Mathlib.Data.List.Induction
import Mathlib.Logic.Relation

/-- A labelled transition system: where runs start, and what one labelled step
can do. -/
structure TransitionSystem (σ α : Type*) where
  init : σ → Prop
  step : σ → α → σ → Prop

namespace TransitionSystem

variable {σ α : Type*} (T : TransitionSystem σ α)

/-- The states some run from an initial state ends in. -/
inductive Reachable : σ → Prop where
  | init {s : σ} (hinit : T.init s) : Reachable s
  | step {s t : σ} {a : α} (hrun : Reachable s) (hstep : T.step s a t) : Reachable t

/-- The runs from one state, with the labels of their steps in order. -/
inductive Run : σ → List α → σ → Prop where
  | nil (s : σ) : Run s [] s
  | snoc {s t u : σ} {as : List α} {a : α} (hrun : Run s as t) (hstep : T.step t a u) :
      Run s (as ++ [a]) u

/-- The same system, taking only the steps that meet a condition on the state
before the step and on its label. -/
def guarded (G : σ → α → Prop) : TransitionSystem σ α where
  init := T.init
  step s a t := G s a ∧ T.step s a t

/-- The same system with a record of the run, which follows what each step does
and never decides it. -/
def recorded {H : Type*} (start : H) (note : σ → α → σ → H → H) : TransitionSystem (σ × H) α where
  init s := T.init s.1 ∧ s.2 = start
  step s a t := T.step s.1 a t.1 ∧ t.2 = note s.1 a t.1 s.2

/-- A predicate that holds where runs start and that every step keeps. -/
structure Invariant (I : σ → Prop) : Prop where
  init : ∀ s, T.init s → I s
  step : ∀ s a t, I s → T.step s a t → I t

variable {T}

theorem Invariant.of_reachable {I : σ → Prop} (hinv : T.Invariant I) {s : σ}
    (hs : T.Reachable s) : I s := by
  induction hs with
  | init hinit => exact hinv.init _ hinit
  | step _ hstep ih => exact hinv.step _ _ _ ih hstep

theorem Reachable.of_guarded {G : σ → α → Prop} {s : σ} (hs : (T.guarded G).Reachable s) :
    T.Reachable s := by
  induction hs with
  | init hinit => exact .init hinit
  | step _ hstep ih => exact .step ih hstep.2

theorem Reachable.guarded_mono {G H : σ → α → Prop} (hGH : ∀ s a, G s a → H s a) {s : σ}
    (hs : (T.guarded G).Reachable s) : (T.guarded H).Reachable s := by
  induction hs with
  | init hinit => exact .init hinit
  | step _ hstep ih => exact .step ih ⟨hGH _ _ hstep.1, hstep.2⟩

/-- A condition that every step meets excludes no run. -/
theorem Reachable.guarded_of_forall {G : σ → α → Prop} (hG : ∀ s a, G s a) {s : σ}
    (hs : T.Reachable s) : (T.guarded G).Reachable s := by
  induction hs with
  | init hinit => exact .init hinit
  | step _ hstep ih => exact .step ih ⟨hG _ _, hstep⟩

/-- A run with a record is a run. -/
theorem Reachable.of_recorded {H : Type*} {start : H} {note : σ → α → σ → H → H} {s : σ × H}
    (hs : (T.recorded start note).Reachable s) : T.Reachable s.1 := by
  induction hs with
  | init hinit => exact .init hinit.1
  | step _ hstep ih => exact .step ih hstep.1

theorem Reachable.run {s t : σ} {as : List α} (hs : T.Reachable s) (hrun : T.Run s as t) :
    T.Reachable t := by
  induction hrun with
  | nil => exact hs
  | snoc _ hstep ih => exact .step ih hstep

/-- A run that a step function computes. -/
theorem Reachable.foldlM {f : σ → α → Option σ} (hf : ∀ s a t, f s a = some t → T.step s a t)
    {s t : σ} {as : List α} (hs : T.Reachable s) (hrun : as.foldlM f s = some t) :
    T.Reachable t := by
  induction as generalizing s with
  | nil =>
    cases hrun
    exact hs
  | cons a as ih =>
    rw [List.foldlM_cons] at hrun
    obtain ⟨u, hstep, hrest⟩ := Option.bind_eq_some_iff.mp hrun
    exact ih (.step hs (hf s a u hstep)) hrest

/-- The same with a condition on the steps, and a test of the state it ends in. -/
theorem exists_reachable_foldlM {f : σ → α → Option σ} {guard : σ → α → Bool}
    (hf : ∀ s a t, f s a = some t → T.step s a t) {s : σ} {as : List α} {P : σ → Bool}
    (hs : T.init s)
    (hrun : (as.foldlM (fun s a => if guard s a then f s a else none) s).any P = true) :
    ∃ t, (T.guarded fun s a => guard s a = true).Reachable t ∧ P t = true := by
  cases hlast : as.foldlM (fun s a => if guard s a then f s a else none) s with
  | none => simp [hlast] at hrun
  | some last =>
    rw [hlast] at hrun
    refine ⟨last, .foldlM (fun s a t hstep => ?_) (.init hs) hlast, hrun⟩
    obtain ⟨hguard, hstep⟩ := Option.ite_none_right_eq_some.mp hstep
    exact ⟨hguard, hf s a t hstep⟩

/-- A step function, and the record of what it does. -/
def withRecord {H : Type*} (f : σ → α → Option σ) (note : σ → α → σ → H → H) (s : σ × H) (a : α) :
    Option (σ × H) :=
  (f s.1 a).map fun t => (t, note s.1 a t s.2)

/-- A run with a record that a step function computes, and a test of where it ends. -/
theorem exists_recorded_foldlM {H : Type*} {f : σ → α → Option σ} {note : σ → α → σ → H → H}
    (hf : ∀ s a t, f s a = some t → T.step s a t) {s : σ} {start : H} {as : List α}
    {P : σ × H → Bool} (hs : T.init s)
    (hrun : (as.foldlM (withRecord f note) (s, start)).any P = true) :
    ∃ t, (T.recorded start note).Reachable t ∧ P t = true := by
  obtain ⟨last, hlast, hP⟩ := (Option.any_eq_true _ _).mp hrun
  refine ⟨last, .foldlM (fun s a t hstep => ?_) (.init ⟨hs, rfl⟩) hlast, hP⟩
  obtain ⟨next, hnext, rfl⟩ := Option.map_eq_some_iff.mp hstep
  exact ⟨hf s.1 a next hnext, rfl⟩

theorem Run.foldlM {f : σ → α → Option σ} (hf : ∀ s a t, f s a = some t → T.step s a t)
    {s t : σ} {as : List α} (hrun : as.foldlM f s = some t) : T.Run s as t := by
  induction as using List.reverseRecOn generalizing t with
  | nil =>
    cases hrun
    exact .nil s
  | append_singleton as a ih =>
    rw [List.foldlM_append] at hrun
    obtain ⟨u, hinit, hlast⟩ := Option.bind_eq_some_iff.mp hrun
    rw [List.foldlM_cons] at hlast
    obtain ⟨v, hstep, hnil⟩ := Option.bind_eq_some_iff.mp hlast
    cases hnil
    exact .snoc (ih hinit) (hf u a _ hstep)

/-- An invariant of the guarded system only needs the steps that meet the
guard. -/
theorem Invariant.guarded {G : σ → α → Prop} {I : σ → Prop} (hinit : ∀ s, T.init s → I s)
    (hstep : ∀ s a t, G s a → I s → T.step s a t → I t) : (T.guarded G).Invariant I where
  init := hinit
  step s a t hs hst := hstep s a t hst.1 hs hst.2

/-- Guards that agree on the steps of every run let the same runs through. -/
theorem Run.guarded_congr {G H : σ → α → Prop}
    (hGH : ∀ s a t, T.Reachable s → T.step s a t → (G s a ↔ H s a)) {s t : σ} {as : List α}
    (hs : T.Reachable s) : (T.guarded G).Run s as t ↔ (T.guarded H).Run s as t := by
  suffices h : ∀ {G H : σ → α → Prop},
      (∀ s a t, T.Reachable s → T.step s a t → (G s a ↔ H s a)) →
      (T.guarded G).Run s as t → (T.guarded H).Run s as t ∧ T.Reachable t from
    ⟨fun hrun => (h hGH hrun).1, fun hrun =>
      (h (fun s a t hs hstep => (hGH s a t hs hstep).symm) hrun).1⟩
  intro G H hGH hrun
  induction hrun with
  | nil => exact ⟨.nil s, hs⟩
  | snoc _ hstep ih =>
    obtain ⟨hrun, hreach⟩ := ih
    exact ⟨.snoc hrun ⟨(hGH _ _ _ hreach hstep.2).mp hstep.1, hstep.2⟩, .step hreach hstep.2⟩

/-- A ranking for a kind of steps: each of them makes progress or uses up weight, so no
run of them without progress is longer than the weight it starts with. -/
theorem Run.progress_or_length_le {I : σ → Prop} {P : α → Prop} (progress weight : σ → Nat)
    (hstep : ∀ s a t, I s → P a → T.step s a t →
      I t ∧ (progress s < progress t ∨ progress s = progress t ∧ weight t < weight s))
    {s t : σ} {as : List α} (hs : I s) (has : ∀ a ∈ as, P a) (hrun : T.Run s as t) :
    I t ∧ (progress s < progress t ∨ progress s = progress t ∧ as.length + weight t ≤ weight s) := by
  induction hrun with
  | nil => exact ⟨hs, .inr ⟨rfl, Nat.le_of_eq (Nat.zero_add _)⟩⟩
  | snoc _ hlast ih =>
    obtain ⟨has, ha⟩ := List.forall_mem_append.mp has
    obtain ⟨hmiddle, hran⟩ := ih has
    obtain ⟨hend, hstep⟩ := hstep _ _ _ hmiddle (ha _ (List.mem_singleton_self _)) hlast
    refine ⟨hend, ?_⟩
    rw [List.length_append, List.length_singleton]
    omega

end TransitionSystem
