import Transferia.Support.OrderedMap
import Transferia.Support.Checked

/-!
# Row totals of a finite pipeline attempt

Parsed deliveries wait in `pending` until the source has committed them.  The
reader validates the totals before it commits the source and applies them
afterwards, while the parser goes on registering later deliveries.
-/

namespace Transferia.Pipeline
open Support OrderedMap

/-- A dataset is identified by its dead-letter flag and its table. -/
abbrev DatasetKey := Bool ×ₗ String

structure OutputBatch where
  table : String
  isDlq : Bool
  rows : ℕ

namespace OutputBatch

def key (output : OutputBatch) : DatasetKey := toLex (output.isDlq, output.table)

end OutputBatch

structure OutputDatasetRowCount where
  table : String
  isDlq : Bool
  rows : ℕ

def OutputDatasetRowCount.dataset (count : OutputDatasetRowCount) : OutputBatch :=
  { table := count.table, isDlq := count.isDlq, rows := count.rows }

structure OutputRowCounts where
  committed : OrderedMap DatasetKey ℕ
  pending : OrderedMap ℕ (OrderedMap DatasetKey ℕ)

def checkedAdd (left right : ℕ) : Option ℕ :=
  if left + right < 2 ^ 64 then some (left + right) else none

namespace OutputRowCounts
variable (key : DatasetKey)

def describeDataset : String := "'" ++ (ofLex key).2 ++ "' (dlq=" ++ toString (ofLex key).1 ++ ")"

def rowCountOverflow : String := "snapshot row count overflow for dataset " ++ describeDataset key

def repeatedDataset : String := "snapshot row counter repeats dataset " ++ describeDataset key

def newRows : List DatasetKey → OrderedMap DatasetKey ℕ → Except String (OrderedMap DatasetKey ℕ)
  | [], rows => .ok rows
  | key :: rest, rows =>
    if rows.contains key then .error (repeatedDataset key)
    else newRows rest (rows.insert key 0)

def new (datasets : List DatasetKey) : Except String OutputRowCounts :=
  (newRows datasets .empty).map fun committed =>
    { committed, pending := .empty }

def admitDatasets (counts : OutputRowCounts) (outputs : List OutputBatch) : OutputRowCounts :=
  { counts with
    committed := outputs.foldl (fun committed output =>
        if committed.contains output.key then committed
        else committed.insert output.key 0)
      counts.committed }

def undiscoveredDataset : String := "pipeline produced undiscovered dataset " ++ describeDataset key

def observeOutputs (committed : OrderedMap DatasetKey ℕ) :
    List OutputBatch → OrderedMap DatasetKey ℕ → Except String (OrderedMap DatasetKey ℕ)
  | [], delivery => .ok delivery
  | output :: rest, delivery =>
    if committed.contains output.key then
      match checkedAdd ((delivery.find? output.key).getD 0) output.rows with
      | none => .error (rowCountOverflow output.key)
      | some rows => observeOutputs committed rest (delivery.insert output.key rows)
    else .error (undiscoveredDataset output.key)

def observedTwice (id : ℕ) : String := "snapshot row counter observed delivery " ++ toString id ++
    " more than once"

def observeDelivery (counts : OutputRowCounts) (id : ℕ)
    (outputs : List OutputBatch) : Except String OutputRowCounts :=
  if counts.pending.contains id then .error (observedTwice id)
  else
    (observeOutputs counts.committed outputs .empty).map fun delivery =>
      { counts with pending := counts.pending.insert id delivery }

def lostDataset : String := "snapshot row counter lost dataset " ++ describeDataset key

def addRows : List (DatasetKey × ℕ) → OrderedMap DatasetKey ℕ →
    Except String (OrderedMap DatasetKey ℕ)
  | [], next => .ok next
  | (key, rows) :: rest, next =>
    match next.find? key with
    | none => .error (lostDataset key)
    | some current =>
      match checkedAdd current rows with
      | none => .error (rowCountOverflow key)
      | some sum => addRows rest (next.insert key sum)

def rowsThrough (pending : OrderedMap ℕ (OrderedMap DatasetKey ℕ))
    (committed : ℕ) : List (DatasetKey × ℕ) :=
  (pending.entries.filter fun entry => decide (entry.1 ≤ committed)).flatMap (·.2.entries)

def unknownDelivery (id : ℕ) : String :=
  "snapshot row counter committed unknown delivery " ++ toString id

section
variable (counts : OutputRowCounts)

def validatedCommittedCounts (committed : ℕ) : Except String (OrderedMap DatasetKey ℕ) :=
  if counts.pending.contains committed then
    addRows (rowsThrough counts.pending committed) counts.committed
  else .error (unknownDelivery committed)

def validateCommitThrough (committed : ℕ) : Except String Unit :=
  (counts.validatedCommittedCounts committed).map fun _ => ()

def commitThrough (committed : ℕ) : Except String OutputRowCounts :=
  (counts.validatedCommittedCounts committed).map fun next =>
    { committed := next, pending := counts.pending.retain fun id => decide (committed < id) }

def snapshot : List OutputDatasetRowCount :=
  counts.committed.entries.map fun entry =>
    { table := (ofLex entry.1).2, isDlq := (ofLex entry.1).1, rows := entry.2 }

end

def unmergedDataset : String :=
  "snapshot row counter cannot merge unknown dataset " ++ describeDataset key

def mergeRows : List OutputDatasetRowCount → OrderedMap DatasetKey ℕ →
    Except String (OrderedMap DatasetKey ℕ)
  | [], next => .ok next
  | count :: rest, next =>
    let key : DatasetKey := toLex (count.isDlq, count.table)
    match next.find? key with
    | none => .error (unmergedDataset key)
    | some current =>
      match checkedAdd current count.rows with
      | none => .error (rowCountOverflow key)
      | some sum => mergeRows rest (next.insert key sum)

def merge (counts other : OutputRowCounts) : Except String OutputRowCounts :=
  (mergeRows other.snapshot counts.committed).map fun committed =>
    { counts with committed }

/-- What the runner does with the counters of an attempt that ended. -/
def mergeAttempt (runtimeSchema : Bool) (completed attempt : OutputRowCounts) :
    Except String OutputRowCounts :=
  if runtimeSchema then
    (completed.admitDatasets (attempt.snapshot.map OutputDatasetRowCount.dataset)).merge attempt
  else completed.merge attempt

def mergeAttempts (runtimeSchema : Bool) (completed : OutputRowCounts) :
    List OutputRowCounts → Except String OutputRowCounts
  | [] => .ok completed
  | attempt :: attempts =>
    match mergeAttempt runtimeSchema completed attempt with
    | .error reason => .error reason
    | .ok completed => mergeAttempts runtimeSchema completed attempts

variable {counts : OutputRowCounts} {id committed : ℕ} {next : OutputRowCounts}
  {outputs : List OutputBatch} {large small : OrderedMap DatasetKey ℕ}

def Valid (counts : OutputRowCounts) (id : ℕ) : Prop :=
  ∃ next, counts.validatedCommittedCounts id = .ok next

theorem valid_of_validate (h : counts.validateCommitThrough id = .ok ()) : counts.Valid id := by
  obtain ⟨next, hnext, -⟩ := map_eq_ok.mp h
  exact ⟨next, hnext⟩

theorem commitThrough_of_valid (h : counts.Valid id) :
    ∃ next, counts.commitThrough id = .ok next := by
  obtain ⟨next, hnext⟩ := h
  rw [commitThrough, hnext]
  exact ⟨_, rfl⟩

theorem validated_observeDelivery (hlt : committed < id)
    (h : counts.observeDelivery id outputs = .ok next) :
    next.validatedCommittedCounts committed = counts.validatedCommittedCounts committed := by
  unfold OutputRowCounts.observeDelivery at h
  split at h
  · cases h
  obtain ⟨delivery, hdelivery, h⟩ := of_bind h
  cases h
  have hr : rowsThrough
      (counts.pending.insert id delivery) committed = rowsThrough counts.pending committed := by
    have hout : decide (id ≤ committed) = false := by simpa using hlt
    have hfilter :=
      filter_insertEntry (fun id => decide (id ≤ committed)) delivery counts.pending.entries hout
    simp only [rowsThrough, OrderedMap.insert]
    rw [hfilter]
  have hcont : (counts.pending.insert id delivery).contains committed =
      counts.pending.contains committed := by
    rw [contains, find?_insert_ne _ _ hlt.ne, contains]
  rw [validatedCommittedCounts, validatedCommittedCounts]
  rw [hr, hcont]

theorem Valid.observeDelivery (hvalid : counts.Valid committed) (hlt : committed < id)
    (h : counts.observeDelivery id outputs = .ok next) : next.Valid committed := by
  obtain ⟨rows, hrows⟩ := hvalid
  exact ⟨rows, (validated_observeDelivery hlt h).trans hrows⟩

def Extends (large small : OrderedMap DatasetKey ℕ) : Prop :=
  ∀ key rows, small.find? key = some rows → large.find? key = some rows

theorem Extends.insert (h : Extends large small) (key : DatasetKey) (rows : ℕ) :
    Extends (large.insert key rows) (small.insert key rows) := by
  intro other found hget
  by_cases hother : other = key
  · subst hother
    rw [find?_insert_self] at hget ⊢
    exact hget
  rw [find?_insert_ne _ _ hother] at hget ⊢
  exact h other found hget

theorem addRows_of_extends {rows : List (DatasetKey × ℕ)} {next : OrderedMap DatasetKey ℕ}
    (h : Extends large small) (hok : addRows rows small = .ok next) :
    ∃ more, addRows rows large = .ok more ∧ Extends more next := by
  induction rows generalizing large small with
  | nil =>
    cases hok
    exact ⟨large, rfl, h⟩
  | cons row rest ih =>
    obtain ⟨key, count⟩ := row
    unfold addRows at hok ⊢
    split at hok
    · cases hok
    rename_i current hcur
    rw [h key current hcur]
    split at hok
    · cases hok
    rename_i sum hsum
    simp only [hsum]
    exact ih (h.insert key sum) hok

theorem extends_admitted (committed : OrderedMap DatasetKey ℕ) (outputs : List OutputBatch) :
    Extends
      (outputs.foldl
          (fun committed output =>
            if committed.contains output.key then committed else committed.insert output.key 0)
          committed) committed := by
  induction outputs generalizing committed with
  | nil =>
    intro key rows h
    exact h
  | cons output rest ih =>
    intro key rows hget
    rw [List.foldl_cons]
    apply ih
    split
    · exact hget
    rename_i hnew
    have hne : key ≠ output.key := by
      intro heq
      apply hnew
      rw [contains, ← heq, hget]
      rfl
    rw [find?_insert_ne _ _ hne]
    exact hget

theorem Valid.admitDatasets (h : counts.Valid committed) (outputs : List OutputBatch) :
    (counts.admitDatasets outputs).Valid committed := by
  obtain ⟨next, hnext⟩ := h
  unfold validatedCommittedCounts at hnext
  split at hnext
  next hcont =>
    obtain ⟨more, hmore, _⟩ := addRows_of_extends (extends_admitted counts.committed outputs) hnext
    refine ⟨more, ?_⟩
    exact (if_pos hcont).trans hmore
  · cases hnext

end OutputRowCounts
end Transferia.Pipeline
