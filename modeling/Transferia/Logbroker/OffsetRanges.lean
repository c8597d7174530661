import Transferia.Support.Checked

/-!
# Ranges of offsets

Commit requests name half-open ranges of offsets.  This module contains their
coalescing, which keeps the union of the ranges, and lists of ranges that join
without a gap, which coalescing turns into one range.
-/

namespace Transferia.Logbroker
open List Support

/-- The offsets from `start` up to but not including `stop`. -/
structure OffsetsRange where
  (start stop : ℤ)
  deriving DecidableEq

namespace OffsetsRange

def Contains (range : OffsetsRange) (offset : ℤ) : Prop :=
  range.start ≤ offset ∧ offset < range.stop

def render (range : OffsetsRange) : String :=
  "[" ++ toString range.start ++ ", " ++ toString range.stop ++ ")"

def Before (first second : OffsetsRange) : Prop := first.start < second.start ∨
    (first.start = second.start ∧ first.stop ≤ second.stop)

instance : DecidableRel Before := fun _ _ =>
  inferInstanceAs (Decidable (_ ∨ _ ∧ _))

theorem Before.start_le {first second : OffsetsRange} (h : Before first second) :
    first.start ≤ second.start := by
  rcases h with hlt | ⟨heq, _⟩
  · exact hlt.le
  · exact heq.le

instance : Std.Total Before where
  total first second := by
    unfold Before
    omega

instance : IsTrans OffsetsRange Before where
  trans first second third := by
    unfold Before
    omega

end OffsetsRange
open OffsetsRange

variable {range last : OffsetsRange} {coalesced : List OffsetsRange}

def checkRange (range : OffsetsRange) : Except String Unit :=
  if 0 ≤ range.start ∧ range.start < range.stop then .ok ()
  else .error ("Invalid YDB Topic commit range " ++ range.render)

/-- The loop over the sorted ranges; `last` is the range at the end of the
result so far, which a range that starts in it or right behind it extends. -/
def coalesceFrom (last : OffsetsRange) : List OffsetsRange → List OffsetsRange
  | [] => [last]
  | range :: rest =>
    if range.start ≤ last.stop then
      coalesceFrom { last with stop := max last.stop range.stop } rest
    else last :: coalesceFrom range rest

def coalesceSorted : List OffsetsRange → List OffsetsRange
  | [] => []
  | first :: rest => coalesceFrom first rest

def coalesceRanges (ranges : List OffsetsRange) : Except String (List OffsetsRange) := do
  forM ranges checkRange
  return coalesceSorted (ranges.insertionSort Before)

def Covers (ranges : List OffsetsRange) (offset : ℤ) : Prop :=
  ∃ range ∈ ranges, range.Contains offset

theorem covers_cons {rest : List OffsetsRange} {offset : ℤ} :
    Covers (range :: rest) offset ↔ range.Contains offset ∨ Covers rest offset := by
  simp [Covers]

theorem checkRange_ok : checkRange range = .ok () ↔ 0 ≤ range.start ∧ range.start < range.stop := by
  unfold checkRange
  split <;> simp_all

section
variable {ranges : List OffsetsRange}

theorem coalesceRanges_ok : coalesceRanges ranges = .ok coalesced ↔
    (∀ range ∈ ranges, 0 ≤ range.start ∧ range.start < range.stop) ∧
    coalesceSorted (ranges.insertionSort Before) = coalesced := by
  rw [coalesceRanges, bind_eq_ok]
  constructor
  · rintro ⟨⟨⟩, hchunks, ⟨⟩⟩
    exact ⟨fun range hmem => checkRange_ok.mp (forM_eq_ok.mp hchunks range hmem), rfl⟩
  rintro ⟨hvalid, rfl⟩
  exact ⟨⟨⟩, forM_eq_ok.mpr fun range hmem => checkRange_ok.mpr (hvalid range hmem), rfl⟩

theorem covers_coalesceFrom {offset : ℤ} (hsorted : (last :: ranges).Pairwise (·.start ≤ ·.start)) :
    Covers (coalesceFrom last ranges) offset ↔ Covers (last :: ranges) offset := by
  induction ranges generalizing last with
  | nil => rfl
  | cons range rest ih =>
    obtain ⟨hlast, hrest⟩ := pairwise_cons.mp hsorted
    obtain ⟨hfst, hlater⟩ := pairwise_cons.mp hrest
    unfold coalesceFrom
    split
    next hjoins =>
      have hstart := hlast range mem_cons_self
      have hjoined : Covers (coalesceFrom ⟨last.start, max last.stop range.stop⟩ rest) offset ↔
        Covers (⟨last.start, max last.stop range.stop⟩ :: rest) offset :=
        ih (pairwise_cons.mpr ⟨fun later hmem => hlast later (mem_cons_of_mem _ hmem), hlater⟩)
      rw [hjoined]
      simp only [covers_cons, ← or_assoc]
      apply or_congr_left
      simp only [Contains]
      omega
    · rw [covers_cons, ih hrest, ← covers_cons]

theorem coalesceFrom_valid (hlast : last.start < last.stop)
    (hranges : ∀ range ∈ ranges, range.start < range.stop) :
    ∀ range ∈ coalesceFrom last ranges, range.start < range.stop := by
  induction ranges generalizing last with
  | nil => simpa [coalesceFrom] using hlast
  | cons first rest ih =>
    obtain ⟨hfst, hrest⟩ := forall_mem_cons.mp hranges
    unfold coalesceFrom
    split
    · exact ih (hlast.trans_le (le_max_left _ _)) hrest
    · exact forall_mem_cons.mpr ⟨hlast, ih hfst hrest⟩

theorem coalesceRanges_valid (h : coalesceRanges ranges = .ok coalesced) :
    ∀ range ∈ coalesced, range.start < range.stop := by
  obtain ⟨hvalid, rfl⟩ := coalesceRanges_ok.mp h
  have hsorted : ∀ range ∈ ranges.insertionSort Before, range.start < range.stop := by
    intro range hmem
    exact (hvalid range ((mem_insertionSort Before).mp hmem)).2
  cases hlist : ranges.insertionSort Before with
  | nil => simp [coalesceSorted]
  | cons first rest =>
    rw [hlist] at hsorted
    obtain ⟨hfst, hrest⟩ := forall_mem_cons.mp hsorted
    exact coalesceFrom_valid hfst hrest

theorem covers_coalesceRanges (h : coalesceRanges ranges = .ok coalesced) (offset : ℤ) :
    Covers coalesced offset ↔ Covers ranges offset := by
  obtain ⟨_, rfl⟩ := coalesceRanges_ok.mp h
  have hperm := perm_insertionSort Before ranges
  have hsame : Covers (ranges.insertionSort Before) offset ↔ Covers ranges offset := by
    simp only [Covers, hperm.mem_iff]
  rw [← hsame]
  have hsorted := (pairwise_insertionSort Before ranges).imp Before.start_le
  cases hlist : ranges.insertionSort Before with
  | nil => rfl
  | cons first rest =>
    rw [hlist] at hsorted
    exact covers_coalesceFrom hsorted

end

/-- The ranges lead from one offset to another, each starting where the one
before it ends. -/
def Contiguous : ℤ → List OffsetsRange → ℤ → Prop
  | low, [], high => low = high
  | low, range :: rest, high =>
    range.start = low ∧ range.start < range.stop ∧ Contiguous range.stop rest high

variable {low mid high : ℤ} {first second ranges : List OffsetsRange}

theorem contiguous_append : Contiguous low (first ++ second) high ↔
    ∃ mid, Contiguous low first mid ∧ Contiguous mid second high := by
  induction first generalizing low with
  | nil => simp [Contiguous]
  | cons range rest ih =>
    simp only [cons_append, Contiguous, ih]
    constructor
    · rintro ⟨hstart, hlt, mid, hrest, hsnd⟩
      exact ⟨mid, ⟨hstart, hlt, hrest⟩, hsnd⟩
    rintro ⟨mid, ⟨hstart, hlt, hrest⟩, hsnd⟩
    exact ⟨hstart, hlt, mid, hrest, hsnd⟩

theorem contiguous_singleton : Contiguous low [range] high ↔
    range.start = low ∧ range.start < range.stop ∧ range.stop = high :=
  Iff.rfl

section
variable (h : Contiguous low ranges high)
include h

theorem Contiguous.le : low ≤ high := by
  induction ranges generalizing low with
  | nil => exact h.le
  | cons range rest ih =>
    obtain ⟨hstart, hlt, hrest⟩ := h
    have hle := ih hrest
    omega

theorem Contiguous.lt_of_ne_nil (hne : ranges ≠ []) : low < high := by
  cases ranges with
  | nil => exact absurd rfl hne
  | cons range rest =>
    obtain ⟨rfl, hlt, hrest⟩ := h
    exact hlt.trans_le hrest.le

theorem Contiguous.bounds (hmem : range ∈ ranges) :
    low ≤ range.start ∧ range.start < range.stop ∧ range.stop ≤ high := by
  induction ranges generalizing low with
  | nil => cases hmem
  | cons other rest ih =>
    obtain ⟨hstart, hlt, hrest⟩ := h
    rcases mem_cons.mp hmem with rfl | hlater
    · exact ⟨hstart.ge, hlt, hrest.le⟩
    obtain ⟨hlower, hmid, hhigh⟩ := ih hrest hlater
    exact ⟨by omega, hmid, hhigh⟩

theorem Contiguous.pairwise_before : ranges.Pairwise Before := by
  induction ranges generalizing low with
  | nil => exact Pairwise.nil
  | cons range rest ih =>
    obtain ⟨_, hlt, hrest⟩ := h
    refine pairwise_cons.mpr ⟨fun later hlater => ?_, ih hrest⟩
    obtain ⟨hlower, _, _⟩ := hrest.bounds hlater
    exact .inl (by omega)

end

theorem coalesceFrom_contiguous (h : Contiguous last.stop ranges high) :
    coalesceFrom last ranges = [⟨last.start, high⟩] := by
  induction ranges generalizing last with
  | nil =>
    cases h
    rfl
  | cons range rest ih =>
    obtain ⟨hstart, hlt, hrest⟩ := h
    have hmax : max last.stop range.stop = range.stop := max_eq_right (by omega)
    rw [coalesceFrom, if_pos hstart.le, hmax]
    exact ih hrest

theorem coalesceRanges_contiguous (h : Contiguous low ranges high) (hne : ranges ≠ [])
    (hok : coalesceRanges ranges = .ok coalesced) : coalesced = [⟨low, high⟩] := by
  obtain ⟨_, rfl⟩ := coalesceRanges_ok.mp hok
  rw [h.pairwise_before.insertionSort_eq]
  cases ranges with
  | nil => exact absurd rfl hne
  | cons range rest =>
    obtain ⟨rfl, _, hrest⟩ := h
    exact coalesceFrom_contiguous hrest

end Transferia.Logbroker
