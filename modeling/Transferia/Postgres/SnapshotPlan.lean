import Transferia.Postgres.Chunk

/-!
# The descriptors of a snapshot decision

The descriptors of a decision with integer cuts pass the check of the snapshot queue, so
that every row is read by exactly one of them.  Weighted CTID pages are cut in floating
point and are left out.
-/

namespace Transferia.Postgres
open List

/-- A strategy that fits this number of parts, with the facts that place its cuts. -/
inductive PartStrategy (parts : ℕ)
  | single (one : parts = 1)
  | ctid (pages : ℕ) (fits : parts ≤ max pages 1)
  | indexed (cuts : ℕ) (fits : parts ≤ cuts + 1)
  | hashCtid

structure Decision where
  initialParts : ℕ
  strategy : PartStrategy initialParts
  parts_pos : 0 < initialParts

namespace Decision
variable (plan : Decision) (part : ℕ)

/-- Where a part starts: its page, the number of cuts before it, or its bucket. -/
def cut : ℕ :=
  match plan.strategy with
  | .single _ | .hashCtid => part
  | .ctid pages _ => part * pages / plan.initialParts
  | .indexed cuts _ => part * (cuts + 1) / plan.initialParts

/-- The boundary before a part.  The first part starts and the last one ends open. -/
def boundary : Option ℕ :=
  if part = 0 ∨ part = plan.initialParts then none
  else match plan.strategy with
    | .single _ | .hashCtid => none
    | .ctid .. => some (plan.cut part)
    | .indexed .. => some (plan.cut part - 1)

def kind : ChunkKind :=
  let lower := plan.boundary part
  let upper := plan.boundary (part + 1)
  match plan.strategy with
  | .single _ => .whole
  | .ctid .. => .ctid lower upper (plan.cut (part + 1))
  | .indexed .. => .indexed lower upper
  | .hashCtid => .hashCtid part plan.initialParts

def chunks : List Chunk := (range plan.initialParts).map fun part => ⟨plan.kind part⟩

variable {part}

theorem share_lt {parts total : ℕ} (hpos : 0 < parts) (hle : parts ≤ total) :
    part * total / parts < (part + 1) * total / parts := by
  rw [← Nat.succ_le_iff, Nat.succ_eq_add_one, ← Nat.add_div_right _ hpos, add_one_mul]
  exact Nat.div_le_div_right (Nat.add_le_add_left hle _)

theorem cut_lt (hmany : plan.initialParts ≠ 1) : plan.cut part < plan.cut (part + 1) := by
  obtain ⟨parts, strategy, hpos⟩ := plan
  cases strategy with
  | single _ | hashCtid => exact Nat.lt_succ_self part
  | ctid pages h => exact share_lt hpos (by dsimp only at *; omega)
  | indexed cuts h => exact share_lt hpos h

theorem checkChunk_ok (hpartition : part < plan.initialParts) :
    checkChunk plan.chunks part (plan.boundary part) ⟨plan.kind part⟩ =
      .ok (plan.boundary (part + 1)) := by
  have hlen : plan.chunks.length = plan.initialParts := by simp [chunks]
  have hstart : startsWith plan.chunks (plan.kind 0).strategy := by
    simp [startsWith, chunks, head?_range, plan.parts_pos.ne']
  have hlt := @cut_lt plan part
  have hbefore := @cut_lt plan (part - 1)
  by_cases hfirst : part = 0 <;> by_cases hlast : part + 1 = plan.initialParts <;>
    cases hstr : plan.strategy <;>
    simp_all [checkChunk, kind, boundary, ChunkKind.strategy, hpartition.ne]
  all_goals grind

/-- The descriptors of every such decision are accepted, and every row is selected by exactly
one of them. -/
theorem chunks_select_once :
    validateInitialCover plan.chunks = .ok () ∧
    ∀ row, plan.chunks.countP (·.predicate row) = 1 := by
  have hfrom : ∀ count index, index + count = plan.initialParts →
      validateFrom plan.chunks index (plan.boundary index)
      ((range' index count).map fun part => ⟨plan.kind part⟩) = .ok () := by
    intro count
    induction count with
    | zero => exact fun _ _ => rfl
    | succ count ih =>
      intro index hlen
      rw [range'_succ, map_cons, validateFrom, plan.checkChunk_ok (by omega)]
      exact ih (index + 1) (by omega)
  have hok : validateInitialCover plan.chunks = .ok () := by
    simpa [validateInitialCover, boundary, chunks, range_eq_range'] using hfrom _ 0 (zero_add _)
  apply And.intro hok
  apply validateInitialCover_count _ hok
  simpa [chunks] using plan.parts_pos.ne'

end Decision
end Transferia.Postgres
