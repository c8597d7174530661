import Mathlib

/-!
# Ranges of a list in key order

A reader that takes a sorted list page by page sees consecutive ranges of its
keys.  This module contains the range of the kept entries between two keys, how
two adjacent ranges join, and the range that one page covers.
-/

namespace Transferia.Support
open List
variable {α : Type*} (key : α → ℕ) (keep : α → Bool)

/-- The kept entries with a key above `low` and up to `high`. -/
def between (low high : ℕ) (entries : List α) : List α :=
  entries.filter fun entry => keep entry && decide (low < key entry) && decide (key entry ≤ high)

variable {key} {entries : List α}
  (hsorted : entries.Pairwise fun first second => key first < key second)
include hsorted in
theorem between_append {low mid high : ℕ} (hlower : low ≤ mid) (hhigh : mid ≤ high) :
    between key keep low mid entries ++ between key keep mid high entries =
      between key keep low high entries := by
  induction entries with
  | nil => rfl
  | cons first rest ih =>
    obtain ⟨hfst, hrest⟩ := pairwise_cons.mp hsorted
    have hih := ih hrest
    simp only [between, filter_cons] at hih ⊢
    by_cases hmid : key first ≤ mid
    · have hnot : ¬ mid < key first := Nat.not_lt.mpr hmid
      have hle := hmid.trans hhigh
      by_cases hkept : (keep first && decide (low < key first))
      · simp [hkept, hmid, hnot, hle, hih]
      · simp [hkept, hnot, hih]
    have hgt : mid < key first := Nat.lt_of_not_le hmid
    have hnone : (rest.filter
        fun entry => keep entry && decide (low < key entry) && decide (key entry ≤ mid)) = [] := by
      rw [filter_eq_nil_iff]
      intro entry hentry
      have hlt := hfst entry hentry
      simp only [Bool.and_eq_true, decide_eq_true_eq, not_and]
      omega
    rw [hnone, nil_append] at hih
    have hlt : low < key first := hlower.trans_lt hgt
    simp [hmid, hgt, hlt, hnone, hih]

include hsorted in
/-- Taking the first entries above `low` takes the kept entries up to the
largest kept key among them. -/
theorem between_take (low count : ℕ) :
    between key keep low
      ((((entries.filter (low < key ·)).take count).filter keep |>.map key).foldl max low) entries =
      ((entries.filter (low < key ·)).take count).filter keep := by
  set above := entries.filter fun entry => low < key entry with ha
  set taken := above.take count with htaken
  set high := ((taken.filter keep).map key).foldl max low with hhigh
  have hmax : (low :: (taken.filter keep).map key).max? = some high := max?_cons'
  obtain ⟨hmem, hbound⟩ := max?_eq_some_iff.mp hmax
  have hsplit : above = taken ++ above.drop count := (take_append_drop count above).symm
  have habovePairs := hsorted.filter (low < key ·)
  rw [← ha, hsplit] at habovePairs
  have hcross := (pairwise_append.mp habovePairs).2.2
  have hlater : ∀ entry ∈ above.drop count, high < key entry := by
    intro entry he
    rcases mem_cons.mp hmem with hlower | hkey
    · have hin := mem_of_mem_drop he
      rw [ha, mem_filter] at hin
      simpa [hlower] using hin.2
    obtain ⟨found, hget, heq⟩ := mem_map.mp hkey
    rw [← heq]
    exact hcross found (mem_filter.mp hget).1 entry he
  have hsame : between key keep low high entries = above.filter fun entry => keep entry && decide
      (key entry ≤ high) := by
    rw [ha, filter_filter]
    refine filter_congr fun entry _ => ?_
    cases keep entry <;> simp [Bool.and_comm]
  rw [hsame, hsplit, filter_append]
  have hnone :
      ((above.drop count).filter fun entry => keep entry && decide (key entry ≤ high)) = [] := by
    rw [filter_eq_nil_iff]
    intro entry he
    simp [hlater entry he]
  rw [hnone, append_nil]
  refine filter_congr fun entry he => ?_
  cases hkeep : keep entry with
  | false => rfl
  | true =>
    have hle : key entry ≤ high := hbound _ (mem_cons_of_mem _
      (mem_map.mpr ⟨entry, by simp [he, hkeep], rfl⟩))
    simp [hle]

end Transferia.Support
