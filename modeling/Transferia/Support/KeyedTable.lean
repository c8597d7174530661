import Mathlib

/-!
# Keyed tables

A table is a partial map from keys to rows.  A change rewrites the row of one
key as a function of what the table held for it.  Changes of distinct keys do
not interact, so a list of them acts on every key at most once.
-/

namespace Transferia.Support
open List
variable {K R : Type*} [DecidableEq K] {key : K} {list : List (K × (Option R → Option R))}
  (table : K → Option R)

/-- Rewrite what the table holds for `key`. -/
def change (key : K) (effect : Option R → Option R) : K → Option R :=
  Function.update table key (effect (table key))

@[simp]
theorem change_self (key : K) (effect : Option R → Option R) :
    change table key effect key = effect (table key) := by
  simp [change]

theorem change_of_ne {other : K} (effect : Option R → Option R) (hne : other ≠ key) :
    change table key effect other = table other := by
  simp [change, hne]

/-- Apply changes one after the other. -/
def changes (list : List (K × (Option R → Option R))) : K → Option R :=
  list.foldl (fun table entry => change table entry.1 entry.2) table

theorem changes_cons (entry : K × (Option R → Option R)) (rest : List (K × (Option R → Option R))) :
    changes table (entry :: rest) = changes (change table entry.1 entry.2) rest := rfl

/-- A key without a change keeps its row. -/
theorem changes_of_not_mem (hkey : key ∉ list.map Prod.fst) (table : K → Option R) :
    changes table list key = table key := by
  induction list generalizing table with
  | nil => rfl
  | cons entry rest ih =>
    rw [map_cons, mem_cons, not_or] at hkey
    rw [changes_cons, ih hkey.2, change_of_ne _ _ hkey.1]

/-- With distinct keys, the change of a key is all that happens to it. -/
theorem changes_of_mem (hnodup : (list.map Prod.fst).Nodup) {effect : Option R → Option R}
    (hmem : (key, effect) ∈ list) (table : K → Option R) :
    changes table list key = effect (table key) := by
  induction list generalizing table with
  | nil => cases hmem
  | cons entry rest ih =>
    rw [map_cons, nodup_cons] at hnodup
    rw [changes_cons]
    rcases mem_cons.mp hmem with rfl | hrest
    · rw [changes_of_not_mem hnodup.1, change_self]
    have hne : key ≠ entry.1 := by
      rintro rfl
      exact hnodup.1 (mem_map.mpr ⟨_, hrest, rfl⟩)
    rw [ih hnodup.2 hrest, change_of_ne _ _ hne]

end Transferia.Support
