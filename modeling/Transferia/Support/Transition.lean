import Mathlib

/-!
# Executions of transition systems

Steps are taken in an arbitrary order by several parties.  A label names the
party that moves and the choice it makes, and `step s label` is `none` when that
move is not enabled.  A step invariant becomes an invariant of every execution,
and a measure bounds their length.
-/

namespace Transferia.Support
variable {σ ι : Type*} {step : σ → ι → Option σ} {s t : σ} {label : ι} {labels : List ι}
variable (step)

/-- The state reached from `s` by taking the named steps in order. -/
def exec : σ → List ι → Option σ
  | s, [] => some s
  | s, label :: labels => (step s label).bind (exec · labels)

/-- The states reached from `s` by some execution. -/
def Reachable (s t : σ) : Prop := ∃ labels, exec step s labels = some t

/-- No party can move. -/
def Stuck (s : σ) : Prop := ∀ label, step s label = none

variable {step}

theorem exec_cons (h : exec step s (label :: labels) = some t) :
    ∃ mid, step s label = some mid ∧ exec step mid labels = some t :=
  Option.bind_eq_some_iff.mp h

theorem Reachable.head {mid : σ} (hstep : step s label = some mid) (hreach : Reachable step mid t) :
    Reachable step s t := by
  obtain ⟨labels, hexec⟩ := hreach
  refine ⟨label :: labels, ?_⟩
  simp [exec, hstep, hexec]

theorem Reachable.single (hstep : step s label = some t) : Reachable step s t :=
  .head hstep ⟨[], rfl⟩

theorem Reachable.trans {mid : σ} (hfst : Reachable step s mid) (hrest : Reachable step mid t) :
    Reachable step s t := by
  obtain ⟨labels, hexec⟩ := hfst
  induction labels generalizing s with
  | nil =>
    cases hexec
    exact hrest
  | cons label labels ih =>
    obtain ⟨next, hstep, hlater⟩ := exec_cons hexec
    exact .head hstep (ih hlater)

/-- A predicate kept by every step is kept by every execution. -/
theorem exec_invariant {P : σ → Prop} (hstep : ∀ s label t, P s → step s label = some t → P t)
    (hexec : exec step s labels = some t) (hs : P s) : P t := by
  induction labels generalizing s with
  | nil =>
    cases hexec
    exact hs
  | cons label labels ih =>
    obtain ⟨mid, hfst, hrest⟩ := exec_cons hexec
    exact ih hrest (hstep s label mid hs hfst)

theorem Reachable.invariant {P : σ → Prop} (hreach : Reachable step s t)
    (hstep : ∀ s label t, P s → step s label = some t → P t) (hs : P s) : P t := by
  obtain ⟨labels, hexec⟩ := hreach
  exact exec_invariant hstep hexec hs

/-- The steps that meet a condition on the state and the label. -/
def guarded (step : σ → ι → Option σ) (allowed : σ → ι → Bool) (s : σ) (label : ι) : Option σ :=
  if allowed s label then step s label else none

theorem of_guarded {allowed : σ → ι → Bool} (hstep : guarded step allowed s label = some t) :
    allowed s label ∧ step s label = some t := by
  unfold guarded at hstep
  split at hstep
  · exact ⟨‹_›, hstep⟩
  · cases hstep

section
variable (measure : σ → ℕ) (hdec : ∀ s label t, step s label = some t → measure t < measure s)
include measure hdec

/-- When every step strictly decreases a natural measure, the measure bounds
the number of steps that are still possible. -/
theorem exec_length_add_le (hexec : exec step s labels = some t) :
    labels.length + measure t ≤ measure s := by
  induction labels generalizing s with
  | nil =>
    cases hexec
    simp
  | cons label labels ih =>
    obtain ⟨mid, hfst, hrest⟩ := exec_cons hexec
    have hlt := hdec s label mid hfst
    have hle := ih hrest
    simp only [List.length_cons]
    omega

/-- Under such a measure some execution runs until no party can move. -/
theorem exists_stuck (s : σ) : ∃ t, Reachable step s t ∧ Stuck step t := by
  induction hn : measure s using Nat.strong_induction_on generalizing s with
  | _ n ih =>
    by_cases hstuck : Stuck step s
    · exact ⟨s, ⟨[], rfl⟩, hstuck⟩
    obtain ⟨label, hen⟩ := not_forall.mp hstuck
    obtain ⟨mid, hmid⟩ := Option.ne_none_iff_exists'.mp hen
    have hlt := hdec s label mid hmid
    obtain ⟨t, hreach, ht⟩ := ih _ (hn ▸ hlt) mid rfl
    exact ⟨t, .head hmid hreach, ht⟩

end
end Transferia.Support
