import Mathlib

/-!
# Totals over finite maps

Conservation arguments count something over the values of a finite map.  This
module contains the total of a weight and what inserting and erasing one key
does to it.
-/

namespace Transferia.Support
open List AList
variable {α β : Type*} [DecidableEq α] {map : AList fun _ : α => β} {key : α} {value : β}
  (weight : β → ℕ)

/-- The sum of `weight` over the values of a map. -/
def total (map : AList fun _ : α => β) : ℕ :=
  (map.entries.map (weight ·.2)).sum

omit [DecidableEq α] in
@[simp] theorem total_empty : total weight (∅ : AList fun _ : α => β) = 0 := rfl

omit [DecidableEq α] in
theorem total_le_total {weight bound : β → ℕ} (map : AList fun _ : α => β)
    (h : ∀ value, weight value ≤ bound value) : total weight map ≤ total bound map :=
  sum_le_sum fun entry _ => h entry.2

variable (h : map.lookup key = some value)
include h in
theorem total_erase : total weight (map.erase key) + weight value = total weight map := by
  have hmem : (⟨key, value⟩ : Sigma fun _ : α => β) ∈ map.entries := mem_lookup_iff.mp h
  obtain ⟨found, before, after, hnot, hsplit, herase⟩ := exists_of_kerase (mem_keys_of_mem hmem)
  have hget : value = found := by
    apply List.NodupKeys.eq_of_mk_mem map.nodupKeys hmem
    rw [hsplit]
    simp
  subst hget
  simp only [total, erase]
  rw [herase, hsplit]
  simp only [map_append, map_cons, sum_append, sum_cons]
  omega

theorem total_erase_of_none (h : map.lookup key = none) :
    total weight (map.erase key) = total weight map := by
  simp only [total, erase]
  rw [kerase_of_notMem_keys (dlookup_eq_none.mp h)]

theorem total_erase_le (map : AList fun _ : α => β) (key : α) :
    total weight (map.erase key) ≤ total weight map := by
  cases h : map.lookup key with
  | none => exact (total_erase_of_none weight h).le
  | some value =>
    have herase := total_erase weight h
    omega

include h in
theorem le_total_of_lookup : weight value ≤ total weight map := by
  have herase := total_erase weight h
  omega

/-- A total of positive weights vanishes over the empty map only. -/
theorem eq_empty_of_total_eq_zero {weight : β → ℕ}
    (hpos : ∀ key value, map.lookup key = some value → 0 < weight value)
    (h : total weight map = 0) : map = ∅ := by
  apply ext
  cases he : map.entries with
  | nil => rfl
  | cons entry rest =>
    have hlook : map.lookup entry.1 = some entry.2 := mem_lookup_iff.mpr (by simp [he])
    have hweight := hpos entry.1 entry.2 hlook
    have hle := le_total_of_lookup weight hlook
    omega

theorem total_insert (map : AList fun _ : α => β) (key : α) (value : β) :
    total weight (map.insert key value) = weight value + total weight (map.erase key) := by
  simp [total, AList.insert, AList.erase, List.kinsert]

include h in
/-- Replacing a value changes the total by the change of its weight. -/
theorem total_insert_of_lookup (next : β) :
    total weight (map.insert key next) + weight value = total weight map + weight next := by
  have herase := total_erase weight h
  rw [total_insert]
  omega

theorem total_insert_of_none (h : map.lookup key = none) (value : β) :
    total weight (map.insert key value) = total weight map + weight value := by
  rw [total_insert, total_erase_of_none weight h, Nat.add_comm]

theorem lookup_insert_cases {other : α} {found : β}
    (h : (map.insert key value).lookup other = some found) :
    (other = key ∧ found = value) ∨ map.lookup other = some found := by
  by_cases hkey : other = key
  · subst hkey
    rw [lookup_insert] at h
    exact .inl ⟨rfl, (Option.some.inj h).symm⟩
  rw [lookup_insert_ne hkey] at h
  exact .inr h

theorem lookup_of_lookup_erase {other : α} {found : β}
    (h : (map.erase key).lookup other = some found) : map.lookup other = some found := by
  by_cases hkey : other = key
  · subst hkey
    rw [lookup_erase] at h
    cases h
  rwa [lookup_erase_ne hkey] at h

include h in
/-- Erasing a key that occurs shortens the map. -/
theorem length_erase_lt : (map.erase key).entries.length < map.entries.length := by
  have hcount := total_erase (fun _ => 1) h
  have hlen : ∀ map : AList fun _ : α => β, total (fun _ => 1) map = map.entries.length := by
    intro map
    simp [total]
  rw [hlen, hlen] at hcount
  omega

end Transferia.Support
