import Mathlib

/-!
# Tables that keep the highest version

A versioned table holds for each key the image with the highest version that was
put there; the image of a deleted key is `none`.  Changes of a log have their
position plus one as version, and copied rows have version zero.  When the
changes from a position on are put, and every row at a later point is, the
versioned table shows the table at the end of the log.
-/

namespace Transferia.Support
open List Option Function
variable {K R : Type*} [DecidableEq K] {changes : List (K × Option R)} {key : K} {image : Option R}
  {version : ℕ}

/-- The table after some changes: the last image of a key counts. -/
def replay (changes : List (K × Option R)) (key : K) : Option R :=
  changes.foldl (fun held change => if change.1 = key then change.2 else held) none

theorem replay_concat (changes : List (K × Option R)) (chg : K × Option R) (key : K) :
    replay (changes ++ [chg]) key = if chg.1 = key then chg.2 else replay changes key := by
  simp [replay]

/-- A key that no later change names keeps its row. -/
theorem replay_of_unchanged {first last : ℕ} (hle : first ≤ last)
    (hother :
      ∀ place, first ≤ place → place < last → ∀ chg, changes[place]? = some chg → chg.1 ≠ key) :
    replay (changes.take last) key = replay (changes.take first) key := by
  induction last, hle using Nat.le_induction with
  | base => rfl
  | succ last hle ih =>
    have hih := ih fun place hfst hlast => hother place hfst (by omega)
    rw [take_add_one]
    cases hc : changes[last]? with
    | none => simpa using hih
    | some chg =>
      have hne := hother last hle (Nat.lt_succ_self last) chg hc
      rw [toList_some, replay_concat, if_neg hne]
      exact hih

/-- The last change of a key gives its row. -/
theorem replay_of_last {place : ℕ} (hc : changes[place]? = some (key, image))
    (hother : ∀ later, place < later → ∀ chg, changes[later]? = some chg → chg.1 ≠ key) :
    replay changes key = image := by
  have hlen : place < changes.length := by
    rw [getElem?_eq_some_iff] at hc
    exact hc.1
  have hrest : replay (changes.take changes.length) key = replay (changes.take (place + 1)) key :=
    replay_of_unchanged hlen fun later hlater _ => hother later hlater
  rw [take_length] at hrest
  rw [hrest, take_add_one, hc, toList_some, replay_concat, if_pos rfl]

abbrev VersionedTable (K R : Type*) := K → Option (ℕ × Option R)

/-- Keep the image unless a higher version is held. -/
def put (table : VersionedTable K R) (key : K) (version : ℕ)
    (image : Option R) : VersionedTable K R :=
  if (table key).all fun held => held.1 ≤ version then
    Function.update table key (some (version, image))
  else table

/-- The row that the table shows for a key. -/
def visible (table : VersionedTable K R) (key : K) : Option R := (table key).bind Prod.snd

/-- The table holds the version for the key, or a higher one. -/
def Landed (table : VersionedTable K R) (key : K) (version : ℕ) : Prop :=
  ∃ held, table key = some held ∧ version ≤ held.1

theorem landed_put (table : VersionedTable K R) (key : K) (version : ℕ) (image : Option R) :
    Landed (put table key version image) key version := by
  unfold put
  split
  · exact ⟨(version, image), update_self .., le_rfl⟩
  rename_i hheld
  rw [Bool.not_eq_true, Option.all_eq_false] at hheld
  obtain ⟨held, hheld, hlt⟩ := hheld
  simp only [decide_eq_false_iff_not, not_le] at hlt
  exact ⟨held, hheld, hlt.le⟩

variable {table : VersionedTable K R}

theorem Landed.put (h : Landed table key version) (other : K) (version' : ℕ) (image : Option R) :
    Landed (put table other version' image) key version := by
  obtain ⟨held, hheld, hle⟩ := h
  unfold Support.put
  split
  next hall =>
    by_cases hkey : key = other
    · subst hkey
      rw [hheld, all_some, decide_eq_true_eq] at hall
      exact ⟨(version', image), update_self .., hle.trans hall⟩
    exact ⟨held, by rw [update_of_ne hkey, hheld], hle⟩
  · exact ⟨held, hheld, hle⟩

omit [DecidableEq K] in
theorem Landed.le {held : ℕ × Option R} (h : Landed table key version)
    (hheld : table key = some held) : version ≤ held.1 := by
  obtain ⟨found, hget, hle⟩ := h
  cases hheld.symm.trans hget
  exact hle

theorem put_eq_some {other : K} {held : ℕ × Option R}
    (h : put table key version image other = some held) :
    table other = some held ∨ other = key ∧ held = (version, image) := by
  unfold put at h
  split at h
  · by_cases hkey : other = key
    · rw [hkey, update_self] at h
      exact .inr ⟨hkey, (some.inj h).symm⟩
    rw [update_of_ne hkey] at h
    exact .inl h
  exact .inl h

/-- Where an image of a key may come from: a change from `start` on, or a copy of
the table at a point that is not before `start`. -/
def Sourced (changes : List (K × Option R)) (start : ℕ) (key : K) (version : ℕ) (image : Option R) :
    Prop :=
  (version = 0 ∧ ∃ point, start ≤ point ∧ point ≤ changes.length ∧ replay (changes.take point) key =
    image) ∨ ∃ place, start ≤ place ∧ version = place + 1 ∧ changes[place]? = some (key, image)

/-- More changes do not take the source of an image away. -/
theorem Sourced.append {start : ℕ} (h : Sourced changes start key version image)
    (more : List (K × Option R)) : Sourced (changes ++ more) start key version image := by
  rcases h with ⟨hzero, point, hstart, hlen, himage⟩ | ⟨place, hstart, hv, hc⟩
  · refine .inl ⟨hzero, point, hstart, ?_, ?_⟩
    · rw [length_append]
      omega
    rwa [take_append_of_le_length hlen]
  have hplace := (List.getElem?_eq_some_iff.mp hc).1
  refine .inr ⟨place, hstart, hv, ?_⟩
  rwa [getElem?_append_left hplace]

theorem visible_eq_replay (start : ℕ)
    (hheld : ∀ held, table key = some held → Sourced changes start key held.1 held.2)
    (hchanges : ∀ place image, start ≤ place → changes[place]? = some (key, image) →
      Landed table key (place + 1))
    (hrows : ∃ point, start ≤ point ∧ point ≤ changes.length ∧ ∀ row,
      replay (changes.take point) key = some row → Landed table key 0) :
    visible table key = replay changes key := by
  -- Without a chg since `start`, every point shows the row of the end.
  have hp : (∀ place, start ≤ place → ∀ chg, changes[place]? = some chg → chg.1 ≠ key) →
      ∀ point, start ≤ point →
      point ≤ changes.length → replay changes key = replay (changes.take point) key := by
    intro hother point hstart hlen
    have hrest : replay (changes.take changes.length) key = replay (changes.take point) key :=
      replay_of_unchanged hlen fun place hplace _ => hother place (hstart.trans hplace)
    rwa [take_length] at hrest
  cases hget : table key with
  | none =>
    have hother : ∀ place, start ≤ place → ∀ chg, changes[place]? = some chg → chg.1 ≠ key := by
      rintro place hplace ⟨other, image⟩ hc rfl
      obtain ⟨held, hlanded, -⟩ := hchanges place image hplace hc
      cases hget.symm.trans hlanded
    obtain ⟨point, hstart, hlen, hrow⟩ := hrows
    rw [visible, hget, hp hother point hstart hlen]
    cases hreplay : replay (changes.take point) key with
    | none => rfl
    | some row =>
      obtain ⟨held, hlanded, -⟩ := hrow row hreplay
      cases hget.symm.trans hlanded
  | some held =>
    have hl : ∀ place, start ≤ place → held.1 ≤ place → ∀ chg,
        changes[place]? = some chg → chg.1 ≠ key := by
      rintro place hplace hv ⟨other, image⟩ hc rfl
      have hle := (hchanges place image hplace hc).le hget
      omega
    rw [visible, hget]
    rcases hheld held hget with
      ⟨hzero, point, hstart, hlen, himage⟩ |
      ⟨place, hstart, hv, hc⟩
    · have hother : ∀ place, start ≤ place → ∀ chg,
          changes[place]? = some chg → chg.1 ≠ key :=
        fun place hplace => hl place hplace (by omega)
      exact ((hp hother point hstart hlen).trans himage).symm
    have hother : ∀ later, place < later → ∀ chg, changes[later]? = some chg → chg.1 ≠ key :=
      fun later hplace => hl later (by omega) (by omega)
    exact (replay_of_last hc hother).symm

end Transferia.Support
