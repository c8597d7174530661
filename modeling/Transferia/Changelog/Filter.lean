import Transferia.Changelog.Meaning

/-!
# Filtering a changelog

The filter step keeps the rows of a batch whose column holds a given text.  It
looks at the cells of the event and not at the row that the event changes, so
filtering the changelog filters the table when the two agree.
-/

namespace Transferia.Changelog
open List Support

inductive ColumnType
  | utf8
  | largeUtf8
  | other (name : String)

/-- The names and types of a dataset's columns. -/
structure DatasetColumns (schema : TableSchema) where
  name : Fin schema.columnCount → String
  dataType : Fin schema.columnCount → ColumnType

structure FilterMiddleware where
  (field value : String)

def ChangelogBatch.select {V : Type*} {schema : TableSchema}
    (batch : ChangelogBatch V schema) (rows : List (Fin batch.rowCount))
    (hrows : rows <+ finRange batch.rowCount) : ChangelogBatch V schema where
  rowCount := rows.length
  cell i := batch.cell (rows.get i)
  operations i := batch.operations (rows.get i)
  sourceVersions i := batch.sourceVersions (rows.get i)
  changedColumns i := batch.changedColumns (rows.get i)
  oldPrimaryKeys := batch.oldPrimaryKeys.map fun keys i => keys (rows.get i)
  key_changed i := batch.key_changed (rows.get i)
  create_complete i := batch.create_complete (rows.get i)
  rowCount_lt := (hrows.length_le.trans_eq length_finRange).trans_lt batch.rowCount_lt

namespace FilterMiddleware
variable {V : Type*} {schema : TableSchema} (filter : FilterMiddleware)
  (columns : DatasetColumns schema)

def new (field value : String) : Except String FilterMiddleware :=
  if field = "" then .error "FilterMiddleware: field must not be empty"
  else .ok ⟨field, value⟩

def column? : Option (Fin schema.columnCount) :=
  (List.finRange schema.columnCount).find? (columns.name · = filter.field)

def unsupported (dataType : String) : String :=
  "FilterMiddleware: column '" ++ filter.field ++ "' is " ++ dataType ++
    ", only Utf8/LargeUtf8 supported"

/-- The check of the prepared dataset, whose schema stays as it is. -/
def outputSchema : Except String (DatasetColumns schema) :=
  match filter.column? columns with
  | none => .error ("FilterMiddleware: column '" ++ filter.field ++
      "' not found in discovered schema")
  | some column =>
    match columns.dataType column with
    | .other name => .error (filter.unsupported name)
    | _ => .ok columns

variable (text : V → Option String)

def passes (column : Fin schema.columnCount) (row : schema.Row V) : Bool :=
  text (row column) == some filter.value

def filterRecordBatch
    (column : Fin schema.columnCount) (batch : ChangelogBatch V schema) : ChangelogBatch V schema :=
  batch.select ((List.finRange batch.rowCount).filter fun row =>
    filter.passes text column (batch.cell row)) filter_sublist

def process (batch : ChangelogBatch V schema) : Except String (ChangelogBatch V schema) :=
  match filter.column? columns with
  | none =>
    .error ("FilterMiddleware: column '" ++ filter.field ++ "' not found in schema: " ++
      "Schema error: Unable to get field named " ++ filter.field.quote ++ ". Valid fields: " ++
      toString ((List.finRange schema.columnCount).map fun i => (columns.name i).quote))
  | some column =>
    match columns.dataType column with
    | .other name => .error (filter.unsupported name)
    | _ => .ok (filter.filterRecordBatch text column batch)

end FilterMiddleware
section
variable {V : Type*} [DecidableEq V] {schema : TableSchema} (keep : schema.Row V → Bool)

def filterTable (table : schema.Table V) : schema.Table V :=
  fun key => (table key).filter keep

/-- One event on a table; an update of an absent key does nothing. -/
abbrev ChangelogBatch.event (batch : ChangelogBatch V schema)
    (table : schema.Table V) (row : Fin batch.rowCount) : schema.Table V :=
  batch.applyEvent none batch.changedColumns table row

def applyChangelog (table : schema.Table V)
    (batches : List (ChangelogBatch V schema)) : schema.Table V :=
  batches.foldl (fun table batch => batch.applyEvents none batch.changedColumns table) table

/-- The event passes exactly if the row it changes passes, before and after. -/
def Steady (batch : ChangelogBatch V schema) (table : schema.Table V)
    (row : Fin batch.rowCount) : Prop :=
  ∀ key held, table key ≠ batch.event table row key → (table key = some held ∨
    batch.event table row key = some held) → keep held = keep (batch.cell row)

def SteadyRows (batch : ChangelogBatch V schema) : schema.Table V → List (Fin batch.rowCount) → Prop
  | _, [] => True
  | table, row :: rest => Steady keep batch table row ∧
      SteadyRows batch (batch.event table row) rest

/-- No update moves a row into or out of the filter, and every delete carries
the text of the row it removes. -/
def SteadyChangelog : schema.Table V → List (ChangelogBatch V schema) → Prop
  | _, [] => True
  | table, batch :: rest =>
    SteadyRows keep batch table (List.finRange batch.rowCount) ∧ SteadyChangelog
        (batch.applyEvents none batch.changedColumns table) rest

variable {keep} {batch : ChangelogBatch V schema} {table : schema.Table V}
  {row : Fin batch.rowCount}

theorem filterTable_change (table : schema.Table V) {key : schema.Key V}
    {effect : Option (schema.Row V) → Option (schema.Row V)}
    (heffect : effect ((table key).filter keep) = (effect (table key)).filter keep) :
    change (filterTable keep table) key effect = filterTable keep (change table key effect) := by
  funext other
  by_cases hother : other = key
  · subst hother
    simp only [filterTable, change_self, heffect]
  simp only [filterTable, change_of_ne _ _ hother]

theorem event_filterTable (hsteady : Steady keep batch table row) (hkeep : keep (batch.cell row)) :
    batch.event (filterTable keep table) row = filterTable keep (batch.event table row) := by
  have hset : Option.filter keep (some (batch.cell row)) = some (batch.cell row) := by simp [hkeep]
  unfold Steady at hsteady
  unfold ChangelogBatch.event ChangelogBatch.applyEvent at *
  cases ho : batch.operations row with
  | create | snapshotRead => exact filterTable_change table hset.symm
  | delete => exact filterTable_change table rfl
  | update =>
    simp only [ho] at hsteady ⊢
    split
    · have hremoved : (change (filterTable keep table) (batch.deletedKey row)
          fun _ => none) = filterTable keep (change table _ fun _ => none) :=
        filterTable_change table rfl
      rw [hremoved]
      exact filterTable_change _ hset.symm
    rename_i hsteady'
    apply filterTable_change table
    have hrow := hsteady (batch.key row)
    simp only [if_neg hsteady', change_self] at hrow ⊢
    -- the update is visible in the row or leaves it as it was
    cases hheld : table (batch.key row) with
    | none => rfl
    | some held =>
      by_cases hsame : held =
          overwrite (changedOnly (batch.changedColumns row) (batch.cell row)) held
      · grind
      · grind

theorem filterTable_event (hsteady : Steady keep batch table row)
    (hkeep : keep (batch.cell row) = false) :
    filterTable keep (batch.event table row) = filterTable keep table := by
  funext key
  have hrow := hsteady key
  unfold filterTable
  cases hbefore : table key <;> cases hafter : batch.event table row key <;> grind

theorem applyEvents_select
    (rows : List (Fin batch.rowCount)) (hrows : rows <+ finRange batch.rowCount)
    (table : schema.Table V) :
    (batch.select rows hrows).applyEvents none (batch.select rows hrows).changedColumns table =
      rows.foldl batch.event table := by
  have hev (table i) :
      (batch.select rows hrows).event table i = batch.event table (rows.get i) := by
    obtain ⟨_, _, _, _, _, oldKeys, _, _, _⟩ := batch
    cases oldKeys <;> rfl
  calc
    _ = (List.finRange rows.length).foldl
        (fun table i => batch.event table (rows.get i)) table := by
      unfold ChangelogBatch.applyEvents
      congr 1
      funext table i
      exact hev table i
    _ = _ := by rw [← foldl_map, map_get_finRange]

theorem foldl_filter_rows {rows : List (Fin batch.rowCount)}
    (hsteady : SteadyRows keep batch table rows) :
    (rows.filter fun row => keep (batch.cell row)).foldl batch.event (filterTable keep table) =
      filterTable keep (rows.foldl batch.event table) := by
  induction rows generalizing table with
  | nil => rfl
  | cons row rest ih =>
    obtain ⟨hrow, hrest⟩ := hsteady
    cases hkeep : keep (batch.cell row) with
    | true =>
      rw [filter_cons_of_pos (by simpa using hkeep), foldl_cons,
        foldl_cons, event_filterTable hrow hkeep]
      exact ih hrest
    | false =>
      rw [filter_cons_of_neg (by simp [hkeep]), foldl_cons, ← filterTable_event hrow hkeep]
      exact ih hrest

/-- An event without an old key changes its own key only, so it is steady if the rows there
pass exactly if it does. -/
theorem steady_of_key (hold : batch.oldPrimaryKeys = none)
    (hrows : (table (batch.key row)).toList ++ (batch.event table row (batch.key row)).toList ⊆
      [batch.cell row]) :
    Steady keep batch table row := by
  intro key held hne hheld
  by_cases hkey : key = batch.key row
  · subst hkey
    have hcell : held = batch.cell row := by simpa using @hrows held (by simpa using hheld)
    rw [hcell]
  refine absurd ?_ hne
  unfold ChangelogBatch.event ChangelogBatch.applyEvent
  have hmoves : batch.movesKey row = false := by simp [ChangelogBatch.movesKey, hold]
  have hdelete : batch.deletedKey row = batch.key row := by simp [ChangelogBatch.deletedKey, hold]
  cases batch.operations row <;> simp [hmoves, hdelete, change_of_ne _ _ hkey]

end
variable {V : Type*} [DecidableEq V] {schema : TableSchema}

/-- When preparation accepts the filter and every event passes exactly if the
rows it changes do, filtering the changelog filters the table. -/
theorem filtered_changelog_filters_table (filter : FilterMiddleware)
    (columns : DatasetColumns schema) (text : V → Option String)
    (haccepted : filter.outputSchema columns = .ok columns)
    (initial : schema.Table V) (batches : List (ChangelogBatch V schema))
    (hsteady : ∀ column, filter.column? columns = some column →
      SteadyChangelog (filter.passes text column) initial batches) :
    ∃ column filtered, filter.column? columns = some column ∧
      batches.mapM (filter.process columns text) = .ok filtered ∧
      applyChangelog (filterTable (filter.passes text column) initial) filtered =
        filterTable (filter.passes text column) (applyChangelog initial batches) := by
  unfold FilterMiddleware.outputSchema at haccepted
  cases hc : filter.column? columns with
  | none => simp [hc] at haccepted
  | some column =>
    have hproc : ∀ batch, filter.process columns text batch =
        .ok (filter.filterRecordBatch text column batch) := by
      intro batch
      unfold FilterMiddleware.process
      cases htype : columns.dataType column <;> simp_all
    have hb := hsteady column hc
    clear hsteady haccepted
    suffices hrun : ∃ filtered, batches.mapM (filter.process columns text) = .ok filtered ∧
        applyChangelog (filterTable (filter.passes text column) initial)
          filtered = filterTable (filter.passes text column) (applyChangelog initial batches) by
      obtain ⟨filtered, hrun⟩ := hrun
      exact ⟨column, filtered, rfl, hrun⟩
    induction batches generalizing initial with
    | nil => exact ⟨[], rfl, rfl⟩
    | cons batch rest ih =>
      obtain ⟨filtered, hmap, htable⟩ := ih _ hb.2
      refine ⟨filter.filterRecordBatch text column batch :: filtered, ?_, ?_⟩
      · rw [mapM_cons, hproc, hmap]
        rfl
      rw [applyChangelog, foldl_cons, FilterMiddleware.filterRecordBatch, applyEvents_select,
        foldl_filter_rows hb.1]
      exact htable

abbrev sampleSchema : TableSchema := ⟨2, [⟨0, Nat.zero_lt_two⟩], List.nodup_singleton _⟩

def sampleColumns : DatasetColumns sampleSchema where
  name := ![ "id", "status"]
  dataType := fun _ => .utf8

def statusFilter : FilterMiddleware := ⟨"status", "open"⟩

def sampleBatch (count : UInt8)
    (rows : Fin count.toNat → ChangeOperation × String × Option String) :
    ChangelogBatch (Option String) sampleSchema where
  rowCount := count.toNat
  cell row := ![some (rows row).2.1, (rows row).2.2]
  operations row := (rows row).1
  sourceVersions _ := 0
  changedColumns _ _ := true
  oldPrimaryKeys := none
  key_changed _ _ _ := rfl
  create_complete _ _ _ := rfl
  rowCount_lt := count.toNat_lt.trans (by decide)

/-- The row of the key `b` does not pass, and the last batch deletes the other one. -/
def sampleBatches : List (ChangelogBatch (Option String) sampleSchema) :=
  [sampleBatch 3 ![(.create, "a", some "open"), (.create, "b", some "done"),
      (.update, "a", some "open")],
    sampleBatch 1 fun _ => (.delete, "a", some "open")]

abbrev bareDelete : ChangelogBatch (Option String) sampleSchema :=
  sampleBatch 1 fun _ => (.delete, "a", none)

def sampleTable : sampleSchema.Table (Option String) :=
  fun key => if key = fun _ => some "a" then
    some ![some "a", some "open"] else none

theorem filtered_changelog_filters_table_of_sample :
    ∃ column filtered, statusFilter.column? sampleColumns = some column ∧
      sampleBatches.mapM (statusFilter.process sampleColumns id) = .ok filtered ∧
      applyChangelog (filterTable (statusFilter.passes id column) fun _ => none) filtered =
        filterTable (statusFilter.passes id column)
          (applyChangelog (fun _ => none) sampleBatches) := by
  apply filtered_changelog_filters_table statusFilter sampleColumns id rfl
  intro column _
  exact ⟨⟨steady_of_key rfl (by decide), steady_of_key rfl (by decide),
    steady_of_key rfl (by decide), trivial⟩, ⟨steady_of_key rfl (by decide), trivial⟩, trivial⟩

/-- The delete carries the key only, and is dropped. -/
theorem dropped_delete_leaves_row :
    ¬(applyChangelog (filterTable (statusFilter.passes id (1 : Fin 2)) sampleTable)
        [statusFilter.filterRecordBatch id (1 : Fin 2) bareDelete] =
      filterTable (statusFilter.passes id (1 : Fin 2))
        (applyChangelog sampleTable [bareDelete])) ∧
    [bareDelete].mapM (statusFilter.process sampleColumns id) =
      .ok [statusFilter.filterRecordBatch id (1 : Fin 2) bareDelete] := by
  refine ⟨fun h => ?_, rfl⟩
  have hrow := congrFun h (bareDelete.key (0 : Fin 1))
  exact absurd hrow (by decide)

end Transferia.Changelog
