import Transferia.Changelog.Meaning

/-!
# The two collapse paths

A batch whose old keys are its current keys collapses in the same way with and without
them: the map of one path is the image of the other's.
-/

namespace Transferia.Changelog
open List CollapsedRow
section
variable {rows columns : ℕ} {E : Type*}

def ValueSource.plain : ValueSource rows → ValueSource rows
  | .current row | .oldPrimaryKey row => .current row

/-- What the path without old keys makes of a collapsed row. -/
def CollapsedRow.plain (row : CollapsedRow rows columns) : CollapsedRow rows columns := { row with
    finalPosition := row.finalPosition / 2
    valueRows := fun column => (row.valueRows column).map ValueSource.plain }

def Latest.plain (latest : Latest E rows columns) : Latest E rows columns where
  entries := latest.entries.map (.map id fun _ => CollapsedRow.plain)
  nodupKeys := by
    have h := latest.nodupKeys
    rw [NodupKeys] at h ⊢
    simpa [keys, Function.comp_def, Sigma.map] using h

variable [DecidableEq E] {latest : Latest E rows columns} {key : E} {position version : ℕ}
  {op : ChangeOperation} {source : ValueSource rows} {changed : Fin columns → Bool}
  {indexes : List (Fin columns)} {row : CollapsedRow rows columns}

theorem plain_insert :
    Latest.plain (latest.insert key row) = (Latest.plain latest).insert key row.plain := by
  apply AList.ext
  simp only [Latest.plain, AList.entries_insert, kerase, eraseP_map]
  rfl

theorem plain_applyCollapsedEvent :
    applyCollapsedEvent (Latest.plain latest) key (position / 2) op source.plain changed indexes
      version =
      (applyCollapsedEvent latest key position op source changed indexes version).map
        Latest.plain := by
  have hlook : (Latest.plain latest).lookup key = (latest.lookup key).map plain := dlookup_map₂ key
  have hkeys (source : ValueSource rows) (column : Fin columns) : (keySources
      indexes source column).map ValueSource.plain = keySources indexes source.plain column := by
    simp [keySources]
  have hover (before : Fin columns → Option (ValueSource rows)) (column : Fin columns) :
      (overwriteSources changed source before column).map ValueSource.plain =
      overwriteSources changed source.plain (fun i => (before i).map .plain) column := by
    simp [overwriteSources, apply_ite (Option.map ValueSource.plain)]
  unfold applyCollapsedEvent
  rw [hlook]
  cases latest.lookup key with
  | none =>
    simp only [Option.map_none, Except.map, plain_insert, plain]
    split <;> simp [hkeys, hover]
  | some found =>
    cases op with
    | create | snapshotRead | delete => simp [Except.map, plain_insert, plain, hkeys]
    | update =>
      by_cases hdelete : found.operation = .delete <;>
        simp [hdelete, Except.map, plain_insert, plain, hover]

end
namespace ChangelogBatch
variable {V E : Type*} {schema : TableSchema} [DecidableEq E] {batch : ChangelogBatch V schema}
section
variable (batch : ChangelogBatch V schema)

abbrev withoutOldKeys : ChangelogBatch V schema :=
  { batch with oldPrimaryKeys := none }

/-- The old key of every update and delete is the current one. -/
def KeepsKeys (oldKeys : Fin batch.rowCount → batch.Key) : Prop :=
  ∀ row, batch.operations row = .update ∨ batch.operations row = .delete →
    oldKeys row = batch.key row

/-- Where the event of a row that keeps its key stands, and what it is taken from. -/
def keptPosition (row : Fin batch.rowCount) : ℕ :=
  if batch.operations row = .delete then row * 2 else row * 2 + 1

def keptSource (row : Fin batch.rowCount) : ValueSource batch.rowCount :=
  if batch.operations row = .delete then .oldPrimaryKey row else .current row

end
variable {oldKeys : Fin batch.rowCount → batch.Key} {encode : batch.Key → E} {mask : batch.Mask}
  {latest next : Latest E batch.rowCount batch.columnCount} {row : Fin batch.rowCount}
  {rows : List (Fin batch.rowCount)} (hold : batch.oldPrimaryKeys = some oldKeys)
  (hkeeps : batch.KeepsKeys oldKeys)
include hold hkeeps in
theorem collapseRow_kept :
    batch.collapseRow encode mask latest row =
      applyCollapsedEvent latest (encode (batch.key row)) (batch.keptPosition row)
        (batch.operations row) (batch.keptSource row) (mask row) batch.primaryKeyIndexes
        (batch.sourceVersions row) := by
  unfold collapseRow
  rw [hold]
  simp only [collapseWithOldValues]
  cases ho : batch.operations row with
  | create | snapshotRead => simp [keptPosition, keptSource, ho]
  | update => simp [keptPosition, keptSource, ho, hkeeps row (.inl ho)]
  | delete => simp [keptPosition, keptSource, ho, hkeeps row (.inr ho)]

include hold hkeeps in
theorem plain_collapseRows : batch.withoutOldKeys.collapseRows encode mask latest.plain rows =
    (batch.collapseRows encode mask latest rows).map Latest.plain := by
  have hrow (latest : Latest E batch.rowCount batch.columnCount) (row) :
      batch.withoutOldKeys.collapseRow encode mask latest.plain row =
      (batch.collapseRow encode mask latest row).map Latest.plain := by
    have hhalf : batch.keptPosition row / 2 = row := by
      rw [keptPosition]
      split <;> omega
    have hplain : (batch.keptSource row).plain = .current row := by
      rw [keptSource]
      split <;> rfl
    rw [collapseRow_kept hold hkeeps, ← plain_applyCollapsedEvent, hhalf, hplain]
    rfl
  induction rows generalizing latest with
  | nil => rfl
  | cons row rest ih =>
    simp only [collapseRows, hrow]
    cases batch.collapseRow encode mask latest row with
    | error => rfl
    | ok next => exact ih

variable (oldKeys)

/-- A row that keeps its key is collapsed at one position, and its old key stands only in a key
column and for the equal current key. -/
structure Kept (collapsed : CollapsedRow batch.rowCount batch.columnCount) : Prop where
  placed : ∃ row, collapsed.finalPosition = batch.keptPosition row
  sourced : ∀ column row, collapsed.valueRows column = some (.oldPrimaryKey row) →
    column ∈ batch.primaryKeyIndexes ∧ oldKeys row = batch.key row

def AllKept (latest : Latest E batch.rowCount batch.columnCount) : Prop :=
  ∀ entry ∈ latest.entries, Kept oldKeys entry.2

variable {oldKeys}
include hold hkeeps in
theorem AllKept.afterRow (h : AllKept oldKeys latest)
    (hok : batch.collapseRow encode mask latest row = .ok next) : AllKept oldKeys next := by
  have hsource (other) (heq : batch.keptSource row = .oldPrimaryKey other) :
      batch.operations row = .delete ∧ oldKeys other = batch.key other := by
    rw [keptSource] at heq
    split at heq <;> cases heq
    exact ⟨‹_›, hkeeps row (.inr ‹_›)⟩
  have hinsert (collapsed : CollapsedRow batch.rowCount batch.columnCount) (hnew : Kept
      oldKeys collapsed) : AllKept oldKeys (latest.insert (encode (batch.key row)) collapsed) := by
    intro entry hentry
    rcases mem_cons.mp hentry with rfl | hin
    · exact hnew
    · exact h entry ((kerase_sublist _ _).subset hin)
  have hkey (col other) (hfound : keySources batch.primaryKeyIndexes (batch.keptSource row) col =
      some (.oldPrimaryKey other)) :
      col ∈ batch.primaryKeyIndexes ∧ oldKeys other = batch.key other := by
    rw [keySources] at hfound
    split at hfound
    · exact ⟨‹_›, (hsource other (Option.some.inj hfound)).2⟩
    · cases hfound
  rw [collapseRow_kept hold hkeeps, applyCollapsedEvent] at hok
  cases hlook : latest.lookup (encode (batch.key row)) with
  | none =>
    rw [hlook] at hok
    cases hok
    refine hinsert _ ⟨⟨row, rfl⟩, fun col other hfound => ?_⟩
    by_cases hd : batch.operations row = .delete
    · exact hkey col other (by simpa [hd] using hfound)
    have : mask row col ∧ batch.keptSource row = .oldPrimaryKey other := by
      simpa [hd, overwriteSources] using hfound
    exact absurd (hsource other this.2).1 hd
  | some before =>
    rw [hlook] at hok
    cases ho : batch.operations row with
    | create | snapshotRead =>
      rw [ho] at hok hsource
      cases hok
      refine hinsert _ ⟨⟨row, rfl⟩, fun _ other hfound => ?_⟩
      cases (hsource other (Option.some.inj hfound)).1
    | update =>
      simp only [ho] at hok
      split at hok <;> cases hok
      refine hinsert _ ⟨⟨row, rfl⟩, fun col other hfound => ?_⟩
      simp only [overwriteSources] at hfound
      split at hfound
      · cases ho.symm.trans (hsource other (Option.some.inj hfound)).1
      · exact (h ⟨_, before⟩ (AList.mem_lookup_iff.mp hlook)).sourced col other hfound
    | delete =>
      rw [ho] at hok
      cases hok
      exact hinsert _ ⟨⟨row, rfl⟩, hkey⟩

include hold hkeeps in
theorem AllKept.afterRows (h : AllKept oldKeys latest)
    (hok : batch.collapseRows encode mask latest rows = .ok next) : AllKept oldKeys next := by
  induction rows generalizing latest with
  | nil =>
    cases hok
    exact h
  | cons row rest ih =>
    rw [collapseRows] at hok
    cases hrow : batch.collapseRow encode mask latest row with
    | error =>
      rw [hrow] at hok
      cases hok
    | ok mid =>
      rw [hrow] at hok
      exact ih (h.afterRow hold hkeeps hrow) hok

variable {collapsed first : CollapsedRow batch.rowCount batch.columnCount}
  {members rest : List (CollapsedRow batch.rowCount batch.columnCount)}
include hold in
theorem plain_collapsedValue (hrow : Kept oldKeys collapsed) :
    batch.withoutOldKeys.collapsedValue collapsed.plain = batch.collapsedValue collapsed := by
  ext1 column
  change ((collapsed.valueRows column).map ValueSource.plain).bind _ = _
  unfold collapsedValue
  rcases hsource : collapsed.valueRows column with _ | ⟨source | source⟩
  · rfl
  · rfl
  obtain ⟨hin, hkey⟩ := hrow.sourced column source hsource
  obtain ⟨i, rfl⟩ := mem_iff_get.mp hin
  refine Eq.trans ?_ (batch.sourceValue_oldPrimaryKey hold source i).symm
  rw [hkey]
  rfl

theorem sourceIndex_lt (batch : ChangelogBatch V schema) (source : ValueSource batch.rowCount) :
    batch.sourceIndex source < 2 ^ 32 := by
  have hcount := batch.rowCount_lt
  cases source with
  | current row | oldPrimaryKey row =>
    simp only [sourceIndex]
    omega

include hold in
theorem plain_materializeRun (hmem : ∀ row ∈ members, Kept oldKeys row) :
    batch.withoutOldKeys.materializeRun first.plain (members.map plain) =
      batch.materializeRun first members := by
  have hvals : members.map (batch.withoutOldKeys.collapsedValue ∘ plain) =
      members.map batch.collapsedValue :=
    map_congr_left fun row hrow => plain_collapsedValue hold (hmem row hrow)
  unfold materializeRun
  rw [if_pos fun _ _ _ source _ => sourceIndex_lt _ source,
    if_pos fun _ _ _ source _ => sourceIndex_lt _ source, map_map, map_map, hvals]
  rfl

include hold in
theorem plain_materializeFrom
    (hmem : ∀ row ∈ members, Kept oldKeys row)
    (hrest : ∀ row ∈ rest, Kept oldKeys row) :
    batch.withoutOldKeys.materializeFrom first.plain (members.map plain) (rest.map plain) =
      batch.materializeFrom first members rest := by
  have hinc (row : CollapsedRow batch.rowCount batch.columnCount) :
      batch.withoutOldKeys.included row.plain = batch.included row := by
    ext1 column
    exact Option.isSome_map
  induction rest generalizing first members with
  | nil => simp [materializeFrom, plain_materializeRun hold hmem]
  | cons row rest ih =>
    obtain ⟨hrow, hlater⟩ := forall_mem_cons.mp hrest
    simp only [map_cons, materializeFrom, hinc, plain_materializeRun hold hmem]
    have hone := @ih row [row] (forall_mem_singleton.mpr hrow) hlater
    have hall := @ih first (members ++ [row])
      (forall_mem_append.mpr ⟨hmem, forall_mem_singleton.mpr hrow⟩) hlater
    rw [map_append, map_singleton] at hall
    rw [map_singleton] at hone
    rw [hall, hone]
    cases batch.materializeRun first members <;> rfl

/-- Two creates, two updates and a delete over two keys, with their old keys. -/
def keptRows : ChangelogBatch ℕ ⟨2, [⟨1, Nat.one_lt_two⟩], nodup_singleton _⟩ where
  rowCount := 5
  cell row := ![row, row % 2]
  operations := ![.create, .create, .update, .update, .delete]
  sourceVersions row := row
  changedColumns row column := column.val = 1 || row.val < 2
  oldPrimaryKeys := some fun row _ => row % 2
  key_changed := by decide
  create_complete := by decide
  rowCount_lt := by decide

end ChangelogBatch
end Transferia.Changelog
