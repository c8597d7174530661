import Mathlib

/-!
# Actions that change a state and may fail

The methods of a component change its state step by step and stop at the first
failure; what they changed before stays.  `outcome` is the result of an action
together with the state it leaves, and the rules below take the outcome of a
composed action apart into those of its steps.
-/

namespace Transferia.Support
variable {σ ε α β : Type}

abbrev Action (σ ε α : Type) := ExceptT ε (StateM σ) α

namespace Action
variable {action : Action σ ε α} {next : α → Action σ ε β} {checked : Except ε α}

/-- The result of an action and the state that it leaves. -/
def outcome (action : Action σ ε α) (s : σ) : Except ε α × σ := StateT.run (ExceptT.run action) s

/-- A check or a computation that does not touch the state. -/
def lift (result : Except ε α) : Action σ ε α := ExceptT.mk (pure result)

variable {s t : σ} {value : α} {result : β} {error : ε}

theorem outcome_bind : outcome (action >>= next) s =
      match outcome action s with
      | (.ok value, mid) => outcome (next value) mid
      | (.error error, mid) => (.error error, mid) := by
  simp only [outcome, ExceptT.run_bind, StateT.run_bind]
  show (match (ExceptT.run action).run s with | (a, b) => _) = _
  rcases (ExceptT.run action).run s with ⟨_ | _, mid⟩ <;> rfl

theorem bind_of_ok (h : outcome action s = (.ok value, t)) :
    outcome (action >>= next) s = outcome (next value) t := by
  rw [outcome_bind, h]

theorem bind_of_error (h : outcome action s = (.error error, t)) :
    outcome (action >>= next) s = (.error error, t) := by
  rw [outcome_bind, h]

theorem bind_ok : outcome (action >>= next) s = (.ok result, t) ↔ ∃ value mid,
    outcome action s = (.ok value, mid) ∧ outcome (next value) mid = (.ok result, t) := by
  rw [outcome_bind]
  rcases outcome action s with ⟨_ | value, mid⟩
  · simp
  constructor
  · intro h
    exact ⟨value, mid, rfl, h⟩
  rintro ⟨_, _, ⟨⟩, h⟩
  exact h

theorem bind_error : outcome (action >>= next) s = (.error error, t) ↔
    outcome action s = (.error error, t) ∨ ∃ value mid,
    outcome action s = (.ok value, mid) ∧ outcome (next value) mid = (.error error, t) := by
  rw [outcome_bind]
  rcases outcome action s with ⟨_ | value, mid⟩
  · simp
  constructor
  · intro h
    exact .inr ⟨value, mid, rfl, h⟩
  rintro (h | ⟨_, _, hfst, h⟩)
  · cases h
  cases hfst
  exact h

@[simp] theorem outcome_pure : outcome (pure value : Action σ ε α) s = (.ok value, s) := rfl

@[simp] theorem outcome_lift : outcome (lift checked : Action σ ε α) s = (checked, s) := rfl

theorem get_bind {next : σ → Action σ ε β} : outcome (get >>= next) s = outcome (next s) s := rfl

theorem modify_bind {change : σ → σ} {next : PUnit → Action σ ε β} :
    outcome (modify change >>= next) s = outcome (next ⟨⟩) (change s) :=
  rfl

/-- What a method leaves that returns the next state, or fails without an effect. -/
def settled (s : σ) (value : α) : Except ε σ → Except ε α × σ
  | .ok next => (.ok value, next)
  | .error error => (.error error, s)

theorem settled_of_error {next : Except ε σ} (h : (settled s value next).1 = .error error) :
    (settled s value next).2 = s := by
  cases next with
  | ok => cases h
  | error => rfl

theorem lift_bind_ok : outcome (lift checked >>= next) s = (.ok result, t) ↔
    ∃ value, checked = .ok value ∧ outcome (next value) s = (.ok result, t) := by
  cases checked with
  | error | ok => simp [outcome_bind]

theorem lift_bind_error :
    outcome (lift checked >>= next) s = (.error error, t) ↔ (checked = .error error ∧ s = t) ∨
    ∃ value, checked = .ok value ∧ outcome (next value) s = (.error error, t) := by
  cases checked with
  | error | ok => simp [outcome_bind]

/-- From a state with `P`, a result meets `Q` and a failure leaves a state with
`E`. -/
def Meets (P : σ → Prop) (action : Action σ ε α) (Q : α → σ → Prop) (E : σ → Prop) : Prop :=
  ∀ s, P s → (∀ value t, outcome action s = (.ok value, t) → Q value t) ∧
    ∀ error t, outcome action s = (.error error, t) → E t

namespace Meets
variable {P : σ → Prop} {Q : α → σ → Prop} {R : β → σ → Prop} {E : σ → Prop} {action : Action σ ε α}

theorem bind (hfst : Meets P action Q E) (hnext : ∀ value, Meets (Q value) (next value) R E) :
    Meets P (action >>= next) R E := by
  intro s hs
  obtain ⟨hok, herr⟩ := hfst s hs
  constructor
  · intro result t h
    obtain ⟨value, mid, hmid, h⟩ := bind_ok.mp h
    exact (hnext value mid (hok value mid hmid)).1 result t h
  intro error t h
  rcases bind_error.mp h with h | ⟨value, mid, hmid, h⟩
  · exact herr error t h
  · exact (hnext value mid (hok value mid hmid)).2 error t h

theorem pure (h : ∀ s, P s → Q value s) : Meets P (Pure.pure value : Action σ ε α) Q E := by
  intro s hs
  constructor
  · rintro result t ⟨⟩
    exact h s hs
  rintro error t ⟨⟩

theorem throw (h : ∀ s, P s → E s) : Meets P (throw error : Action σ ε α) Q E := by
  intro s hs
  constructor
  · rintro result t ⟨⟩
  rintro error t ⟨⟩
  exact h s hs

theorem lift (hok : ∀ s value, P s → checked = .ok value → Q value s) (herr : ∀ s, P s → E s) :
    Meets P (lift checked) Q E := by
  intro s hs
  constructor
  · rintro value t ⟨⟩
    exact hok s value hs rfl
  rintro error t ⟨⟩
  exact herr s hs

theorem get_bind {next : σ → Action σ ε β} (h : ∀ s, P s → Meets (· = s) (next s) R E) :
    Meets P (get >>= next) R E := by
  intro s hs
  exact h s hs s rfl

theorem set_bind {next : PUnit → Action σ ε β} (h : ∀ s, P s → Meets (· = t) (next ⟨⟩) R E) :
    Meets P (set t >>= next) R E := by
  intro s hs
  exact h s hs t rfl

theorem set {Q : PUnit → σ → Prop} (h : ∀ s, P s → Q ⟨⟩ t) :
    Meets P (set t : Action σ ε PUnit) Q E := by
  intro s hs
  constructor
  · rintro value t' ⟨⟩
    exact h s hs
  rintro error t' ⟨⟩

theorem modify {Q : PUnit → σ → Prop} {change : σ → σ} (h : ∀ s, P s → Q ⟨⟩ (change s)) :
    Meets P (modify change : Action σ ε PUnit) Q E := by
  intro s hs
  constructor
  · rintro value t ⟨⟩
    exact h s hs
  rintro error t ⟨⟩

/-- A condition that the state does not matter for. -/
theorem of_and {p : Prop} (h : p → Meets P action Q E) : Meets (fun s => p ∧ P s) action Q E :=
  fun s hs => h hs.1 s hs.2

theorem strengthen {P' : σ → Prop} (h : Meets P action Q E) (hP : ∀ s, P' s → P s) :
    Meets P' action Q E :=
  fun s hs => h s (hP s hs)

theorem imp {Q' : α → σ → Prop} (h : Meets P action Q E) (hQ : ∀ value s, Q value s → Q' value s) :
    Meets P action Q' E :=
  fun s hs => ⟨fun value t ht => hQ value t ((h s hs).1 value t ht), (h s hs).2⟩

theorem weaken {E' : σ → Prop} (h : Meets P action Q E) (hE : ∀ s, E s → E' s) :
    Meets P action Q E' :=
  fun s hs => ⟨(h s hs).1, fun error t ht => hE t ((h s hs).2 error t ht)⟩

end Meets
end Action
end Transferia.Support
