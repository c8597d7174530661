import Mathlib

/-!
# Successful results of checked computations

Fallible code returns `Except`, and readers pass their input along in a state.
These rules take a successful computation apart into its successful steps.
-/

namespace Transferia.Support
open List
universe u v
variable {ε : Type u} {α β σ : Type v} {x : Except ε α} {result : β}

theorem toOption_eq_some {value : α} : x.toOption = some value ↔ x = .ok value := by
  cases x <;> simp [Except.toOption]

theorem mapError_eq_ok {ε' : Type u} {f : ε → ε'} {value : α} :
    x.mapError f = .ok value ↔ x = .ok value := by
  cases x <;> simp [Except.mapError]

theorem bind_eq_ok {f : α → Except ε β} :
    (x >>= f) = .ok result ↔ ∃ value, x = .ok value ∧ f value = .ok result := by
  cases x with
  | error | ok => simp [bind, Except.bind]

theorem of_bind {f : α → Except ε β} (h : (x >>= f) = .ok result) :
    ∃ value, x = .ok value ∧ f value = .ok result :=
  bind_eq_ok.mp h

/-- A check comes before the computation that it guards. -/
theorem check_bind_eq_ok {β : Type} {check : Except ε Unit} {next : Unit → Except ε β}
    {result : β} : (check >>= next) = .ok result ↔ check = .ok () ∧ next () = .ok result := by
  cases check with
  | error | ok => simp [bind, Except.bind]

theorem after_check {β : Type} {check : Except ε Unit} {next : Unit → Except ε β} {result : β}
    (h : (check >>= next) = .ok result) : next () = .ok result :=
  (check_bind_eq_ok.mp h).2

theorem map_eq_ok {f : α → β} :
    x.map f = .ok result ↔ ∃ value, x = .ok value ∧ f value = result := by
  cases x with
  | error | ok => simp [Except.map]

theorem run_bind_eq_ok {x : StateT σ (Except ε) α} {f : α → StateT σ (Except ε) β}
    {before after : σ} : (x >>= f).run before = .ok (result, after) ↔
    ∃ value mid, x.run before = .ok (value, mid) ∧ (f value).run mid = .ok (result, after) := by
  rw [StateT.run_bind, bind_eq_ok]
  constructor
  · rintro ⟨⟨value, mid⟩, hx, hf⟩
    exact ⟨value, mid, hx, hf⟩
  rintro ⟨value, mid, hx, hf⟩
  exact ⟨⟨value, mid⟩, hx, hf⟩

/-- A loop of checks succeeds when every check does. -/
theorem forM_eq_ok {α : Type} {ε : Type u} {check : α → Except ε PUnit} {es : List α} :
    forM es check = .ok ⟨⟩ ↔ ∀ entry ∈ es, check entry = .ok ⟨⟩ := by
  induction es with
  | nil => simp [pure, Except.pure]
  | cons first rest ih =>
    rw [forM_cons, bind_eq_ok, forall_mem_cons, ih]
    constructor
    · rintro ⟨⟨⟩, hfst, hrest⟩
      exact ⟨hfst, hrest⟩
    rintro ⟨hfst, hrest⟩
    exact ⟨⟨⟩, hfst, hrest⟩

section
variable {α : Type} {ε : Type u} {β : Type} {f : α → Except ε β} {entries : List α}
  {results : List β}

/-- A checked map succeeds entry by entry. -/
theorem mapM_eq_ok : entries.mapM f = .ok results ↔
    List.Forall₂ (fun entry result => f entry = .ok result) entries results := by
  induction entries generalizing results with
  | nil =>
    rw [mapM_nil, forall₂_nil_left_iff]
    exact ⟨fun h => by cases h; rfl, fun h => by cases h; rfl⟩
  | cons first rest ih =>
    simp only [mapM_cons, bind_eq_ok, ih, forall₂_cons_left_iff]
    constructor
    · rintro ⟨result, hfst, others, hrest, ⟨⟩⟩
      exact ⟨result, others, hfst, hrest, rfl⟩
    rintro ⟨result, others, hfst, hrest, rfl⟩
    exact ⟨result, hfst, others, hrest, rfl⟩

/-- What a checked map produces, seen through `view`, is a function of its
input. -/
theorem mapM_map_eq {γ : Type} {view : β → γ} {expected : α → γ}
    (hview : ∀ entry res, f entry = .ok res → view res = expected entry)
    (h : entries.mapM f = .ok results) : results.map view = entries.map expected := by
  rw [mapM_eq_ok] at h
  induction h with
  | nil => rfl
  | cons hfst _ ih => rw [map_cons, map_cons, hview _ _ hfst, ih]

theorem mem_of_mapM_ok (h : entries.mapM f = .ok results) {result : β} (hmem : result ∈ results) :
    ∃ entry ∈ entries, f entry = .ok result := by
  rw [mapM_eq_ok] at h
  induction h with
  | nil => cases hmem
  | cons hfst _ ih =>
    rcases mem_cons.mp hmem with rfl | hmem
    · exact ⟨_, mem_cons_self, hfst⟩
    obtain ⟨entry, hentry, hok⟩ := ih hmem
    exact ⟨entry, mem_cons_of_mem _ hentry, hok⟩

theorem ok_of_mem_mapM (h : entries.mapM f = .ok results) {entry : α} (hmem : entry ∈ entries) :
    ∃ result, f entry = .ok result := by
  rw [mapM_eq_ok] at h
  induction h with
  | nil => cases hmem
  | cons hfst _ ih =>
    rcases mem_cons.mp hmem with rfl | hmem
    · exact ⟨_, hfst⟩
    · exact ih hmem

end

/-- What every round of a checked loop keeps, the loop keeps.  The property may
depend on the entries that are still to come. -/
theorem foldlM_induct {α : Type} {ε : Type u} {β : Type v} {round : β → α → Except ε β}
    {P : List α → β → Prop}
    (hround : ∀ entry rest before after,
      P (entry :: rest) before → round before entry = .ok after → P rest after) {es : List α}
    {first last : β} (hloop : es.foldlM round first = .ok last) (hfst : P es first) :
    P [] last := by
  induction es generalizing first with
  | nil =>
    cases hloop
    exact hfst
  | cons entry rest ih =>
    rw [foldlM_cons] at hloop
    obtain ⟨mid, hmid, hloop⟩ := of_bind hloop
    exact ih hloop (hround entry rest first mid hfst hmid)

end Transferia.Support
