import Mathlib

/-!
# Page ranges of equal work

The pages of a table are divided into bins of known work, and a part ends where
its share of the work does.  Every cut is moved behind the one before it, by the
greatest excess of a cut over its number, which the source looks for only next
to the ends of bins.  The arithmetic is exact.
-/

namespace Transferia.Postgres

open Finset

structure WeightedCtidLayout where
  (pages parts : ℕ)
  binWork : List ℚ
  parts_pos : 0 < parts
  parts_le : parts ≤ pages
  work_pos : ∀ work ∈ binWork, 0 < work
  bins_pos : 0 < binWork.length

namespace WeightedCtidLayout

/-- The seconds of the heap and of the output are quotients of the facts of a table. -/
def new (pages parts : ℕ) (weights : List ℚ) (heapSeconds outputSeconds : ℚ) :
    Except String WeightedCtidLayout :=
  let binWork := weights.map fun weight =>
    heapSeconds / weights.length + outputSeconds * (weight / weights.sum)
  if h : 0 < parts ∧ parts ≤ pages then
    if hbins : 0 < binWork.length then
      if hwork : ∀ work ∈ binWork, 0 < work then .ok ⟨pages, parts, binWork, h.1, h.2, hwork, hbins⟩
      else .error "weighted physical bin cost overflow"
    else .error "weighted physical ranges require an observation"
  else .error "weighted physical ranges require at least one page per part"

variable (layout : WeightedCtidLayout) (bin part : ℕ)

def cumulativeWork : ℚ := (layout.binWork.take bin).sum

def totalWork : ℚ := layout.cumulativeWork layout.binWork.length

/-- Where the work of the bins before `bin` ends, counted in parts. -/
def cut : ℚ := layout.cumulativeWork bin / layout.totalWork * layout.parts

def transitions : Finset ℕ :=
  insert 1 ((range (layout.binWork.length + 1)).biUnion fun bin =>
    let cut := ⌊layout.cut bin⌋₊
    {part ∈ {cut - 1, cut, cut + 1} | 0 < part ∧ part < layout.parts})

def target : ℚ := layout.totalWork * (part / layout.parts)

def rawBoundary : ℕ :=
  let bins := layout.binWork.length
  let bin := ((List.range bins).find? fun bin =>
    layout.target part < layout.cumulativeWork (bin + 1)).getD (bins - 1)
  let fraction := max 0 (min 1
    ((layout.target part - layout.cumulativeWork bin) / layout.binWork.getD bin 0))
  ⌊(bin + fraction) * layout.pages / bins + 1 / 2⌋₊

def excess : ℕ := layout.rawBoundary part - part

def boundary : ℕ :=
  if part = 0 then 0
  else if part = layout.parts then layout.pages
  else
    let shift := (insert part {cut ∈ layout.transitions | cut ≤ part}).sup layout.excess
    part + min shift (layout.pages - layout.parts)

variable {layout bin part} {other : ℕ}

theorem totalWork_pos : 0 < layout.totalWork := by
  rw [totalWork, cumulativeWork, List.take_length]
  exact List.sum_pos _ layout.work_pos (List.ne_nil_of_length_pos layout.bins_pos)

theorem cumulativeWork_le_target :
    layout.cumulativeWork bin ≤ layout.target part ↔ layout.cut bin ≤ part := by
  have hparts : (0 : ℚ) < layout.parts := mod_cast layout.parts_pos
  rw [target, cut, ← mul_div_assoc, le_div_iff₀ hparts, div_mul_eq_mul_div,
    div_le_iff₀ totalWork_pos, mul_comm layout.totalWork]

/-- The share of the work before the cut ends in the bin. -/
structure InBin (layout : WeightedCtidLayout) (bin part : ℕ) : Prop where
  bin_lt : bin < layout.binWork.length
  lower : layout.cut bin ≤ part
  upper : part < layout.cut (bin + 1)

theorem exists_inBin (hpartition : part < layout.parts) : ∃ bin, InBin layout bin part := by
  have hlast : (part : ℚ) < layout.cut (layout.binWork.length - 1 + 1) := by
    rw [Nat.sub_add_cancel layout.bins_pos, cut, ← totalWork, div_self totalWork_pos.ne', one_mul]
    exact mod_cast hpartition
  have hex : ∃ bin, (part : ℚ) < layout.cut (bin + 1) := ⟨_, hlast⟩
  classical
  refine ⟨Nat.find hex, ?_, ?_, Nat.find_spec hex⟩
  · have hle := Nat.find_min' hex hlast
    have hpos := layout.bins_pos
    omega
  cases hbin : Nat.find hex with
  | zero => simp [cut, cumulativeWork]
  | succ bin => exact not_lt.mp (Nat.find_min hex (hbin ▸ Nat.lt_succ_self bin))

def place (layout : WeightedCtidLayout) (bin part : ℕ) : ℚ :=
  (bin + (layout.target part - layout.cumulativeWork bin) / layout.binWork.getD bin 0) *
    layout.pages / layout.binWork.length

/-- The pages of a part whose share of the work lies in one bin. -/
def slope (layout : WeightedCtidLayout) (bin : ℕ) : ℚ :=
  layout.totalWork / layout.parts / layout.binWork.getD bin 0 * layout.pages / layout.binWork.length

section

variable (h : InBin layout bin part)
include h

theorem find_inBin :
    (List.range layout.binWork.length).find?
      (fun bin => layout.target part < layout.cumulativeWork (bin + 1)) = some bin := by
  refine List.find?_range_eq_some.mpr ⟨?_, List.mem_range.mpr h.bin_lt, fun other hother => ?_⟩
  · simpa [cumulativeWork_le_target, ← not_le] using h.upper
  have hle : layout.cumulativeWork (other + 1) ≤ layout.cumulativeWork bin := by
    apply (List.take_prefix_take_left (Nat.succ_le_of_lt hother)).sublist.sum_le_sum
    intro work hwork
    exact (layout.work_pos work (List.mem_of_mem_take hwork)).le
  simpa using hle.trans (cumulativeWork_le_target.mpr h.lower)

theorem rawBoundary_eq :
    0 ≤ layout.place bin part ∧ layout.rawBoundary part = ⌊layout.place bin part + 1 / 2⌋₊ := by
  have hwork : 0 < layout.binWork.getD bin 0 := by
    apply layout.work_pos
    simp [h.bin_lt]
  have hlower := cumulativeWork_le_target.mpr h.lower
  have hupper := not_le.mp (mt cumulativeWork_le_target.mp (not_le.mpr h.upper))
  have hzero : 0 ≤ (layout.target part - layout.cumulativeWork bin) / layout.binWork.getD bin 0 :=
    div_nonneg (sub_nonneg.mpr hlower) hwork.le
  constructor
  · rw [place]
    positivity
  simp only [rawBoundary, find_inBin h, Option.getD_some]
  rw [min_eq_right, max_eq_right hzero, place]
  rw [cumulativeWork, List.sum_take_succ _ _ h.bin_lt, ← cumulativeWork] at hupper
  rw [div_le_one hwork, List.getD_eq_getElem _ _ h.bin_lt]
  linarith

/-- The excess only grows towards a later cut of a bin with a page or more for each
part, or towards an earlier one of a bin with less. -/
theorem excess_le (hother : InBin layout bin other)
    (hslope : 0 ≤ (layout.slope bin - 1) * (other - part)) :
    layout.excess part ≤ layout.excess other := by
  have hplace : layout.place bin part + 1 / 2 + other ≤ layout.place bin other + 1 / 2 + part := by
    have hdiff :
        layout.place bin other = layout.place bin part + layout.slope bin * (other - part) := by
      rw [place, place, slope, target, target]
      ring
    linarith
  obtain ⟨hzero, hraw⟩ := rawBoundary_eq h
  obtain ⟨hzero', hraw'⟩ := rawBoundary_eq hother
  have hfloor := Nat.floor_mono hplace
  rw [Nat.floor_add_natCast (by linarith), Nat.floor_add_natCast (by linarith), ← hraw, ← hraw']
    at hfloor
  rw [excess, excess]
  omega

end

theorem mem_transitions (hbin : bin ≤ layout.binWork.length) (hpos : 0 < part)
    (hlt : part < layout.parts) (hlower : ⌊layout.cut bin⌋₊ ≤ part + 1)
    (hhigh : part ≤ ⌊layout.cut bin⌋₊ + 1) : part ∈ layout.transitions := by
  refine mem_insert_of_mem (mem_biUnion.mpr ⟨bin, mem_range.mpr (by omega), ?_⟩)
  simp only [mem_filter, mem_insert, mem_singleton]
  omega

theorem exists_transition (hpos : 0 < part) (hle : part ≤ other) (hlt : other < layout.parts) :
    ∃ best ∈ insert other {cut ∈ layout.transitions | cut ≤ other},
    layout.excess part ≤ layout.excess best := by
  obtain ⟨bin, hbin⟩ := exists_inBin (hle.trans_lt hlt)
  have hbins := hbin.bin_lt
  simp only [mem_insert, mem_filter]
  rcases le_total 1 (layout.slope bin) with hslope | hslope
  · -- The excess grows up to the last cut of the bin.
    have hgrow : ∀ best, part ≤ best → best < layout.cut (bin + 1) →
        layout.excess part ≤ layout.excess best := by
      intro best hbest hin
      have hcast : (part : ℚ) ≤ best := mod_cast hbest
      apply excess_le hbin ⟨hbins, hbin.lower.trans hcast, hin⟩
      exact mul_nonneg (sub_nonneg.mpr hslope) (sub_nonneg.mpr hcast)
    by_cases hin : other < layout.cut (bin + 1)
    · exact ⟨other, .inl rfl, hgrow other hle hin⟩
    have hend := Nat.ceil_le.mpr (not_lt.mp hin)
    have hstart := Nat.lt_ceil.mpr hbin.upper
    have hfloor := Nat.floor_le_ceil (layout.cut (bin + 1))
    have hceil := Nat.ceil_le_floor_add_one (layout.cut (bin + 1))
    refine ⟨⌈layout.cut (bin + 1)⌉₊ - 1, .inr ⟨?_, by omega⟩, ?_⟩
    · have hnext : bin + 1 ≤ layout.binWork.length := hbins
      exact mem_transitions hnext (by omega) (by omega) (by omega) (by omega)
    · exact hgrow _ (by omega) (Nat.lt_ceil.mp (by omega))
  · -- The excess falls from the first cut of the bin.
    have hstart := Nat.ceil_le.mpr hbin.lower
    have hfloor := Nat.floor_le_ceil (layout.cut bin)
    have hceil := Nat.ceil_le_floor_add_one (layout.cut bin)
    have hfirst : max 1 ⌈layout.cut bin⌉₊ ≤ part := max_le hpos hstart
    have hcast : ((max 1 ⌈layout.cut bin⌉₊ : ℕ) : ℚ) ≤ part := mod_cast hfirst
    refine ⟨max 1 ⌈layout.cut bin⌉₊, .inr ⟨?_, hfirst.trans hle⟩, ?_⟩
    · by_cases hzero : ⌈layout.cut bin⌉₊ = 0
      · simp [hzero, transitions]
      · exact mem_transitions hbins.le (by omega) (by omega) (by omega) (by omega)
    · apply excess_le hbin
        ⟨hbins, (Nat.le_ceil _).trans (mod_cast le_max_right _ _), hcast.trans_lt hbin.upper⟩
      exact mul_nonneg_of_nonpos_of_nonpos (sub_nonpos.mpr hslope) (sub_nonpos.mpr hcast)

theorem boundary_eq (hpos : 0 < part) (hlt : part < layout.parts) : layout.boundary part =
    part + min ((Icc 1 part).sup layout.excess) (layout.pages - layout.parts) := by
  have hsup : (insert part {cut ∈ layout.transitions | cut ≤ part}).sup layout.excess =
      (Icc 1 part).sup layout.excess := by
    apply le_antisymm
    · apply sup_mono
      intro cut hcut
      simp only [transitions, mem_insert, mem_filter, mem_biUnion] at hcut
      rw [mem_Icc]
      omega
    · apply Finset.sup_le
      intro cut hcut
      obtain ⟨hone, hle⟩ := mem_Icc.mp hcut
      obtain ⟨best, hbest, hexcess⟩ := exists_transition hone hle hlt
      exact hexcess.trans (le_sup hbest)
  simp only [boundary, if_neg hpos.ne', if_neg hlt.ne, hsup]

/-- The boundaries of the parts are the prefix maxima over all cuts and lead strictly
from the first page to the last one, so that every part has a page. -/
theorem boundary_prefix_maximum (layout : WeightedCtidLayout) :
    (∀ part, 0 < part → part < layout.parts → layout.boundary part =
      part + min ((Icc 1 part).sup layout.excess) (layout.pages - layout.parts)) ∧
    layout.boundary 0 = 0 ∧ layout.boundary layout.parts = layout.pages ∧
    ∀ part < layout.parts, layout.boundary part < layout.boundary (part + 1) := by
  have hparts := layout.parts_le
  have hend : layout.boundary layout.parts = layout.pages := by
    rw [boundary, if_neg layout.parts_pos.ne', if_pos rfl]
  refine ⟨fun _ => boundary_eq, by simp [boundary], hend, fun part hlt => ?_⟩
  rcases Nat.eq_zero_or_pos part with rfl | hpos
  · rw [boundary, if_pos rfl, boundary, if_neg (by omega)]
    split
    · exact layout.parts_pos.trans_le hparts
    · exact Nat.add_pos_left one_pos _
  rw [boundary_eq hpos hlt]
  by_cases hlast : part + 1 = layout.parts
  · rw [hlast, hend]
    omega
  · rw [boundary_eq (by omega) (by omega)]
    have hmono : (Icc 1 part).sup layout.excess ≤ (Icc 1 (part + 1)).sup layout.excess :=
      sup_mono (Icc_subset_Icc_right (Nat.le_succ _))
    omega

end WeightedCtidLayout
end Transferia.Postgres
