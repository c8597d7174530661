import Transferia.Changelog.CollapseMeaning

/-!
# Row deltas of the Iceberg replica

A replica delivery becomes equality deletes for every key it touches and a data
row for every key it leaves in the table.  An equality delete hides the rows
with its key in earlier snapshots only.
-/

namespace Transferia.Changelog
open List Support
namespace ChangelogBatch
variable {V : Type*} [DecidableEq V] {schema : TableSchema} (batch : ChangelogBatch V schema)

def applyFullImage (table : schema.Table V) (row : Fin batch.rowCount) : schema.Table V :=
  match batch.operations row with
  | .create => change table (batch.key row) fun _ => some (batch.cell row)
  | .snapshotRead => change table (batch.key row) fun _ => some (batch.cell row)
  | .update =>
    if batch.movesKey row then
      change (change table (batch.deletedKey row) fun _ => none)
        (batch.key row) fun _ => some (batch.cell row)
    else change table (batch.key row) fun _ => some (batch.cell row)
  | .delete => change table (batch.deletedKey row) fun _ => none

def applyFullImages (table : schema.Table V) : schema.Table V :=
  (List.finRange batch.rowCount).foldl batch.applyFullImage table

theorem applyEvents_fullImage (found : schema.Row V) (table : schema.Table V) :
    batch.applyEvents (some found) (fun _ _ => true) table = batch.applyFullImages table := by
  unfold applyEvents applyFullImages
  congr 1
  funext table row
  unfold applyEvent applyFullImage
  cases batch.operations row with
  | create | snapshotRead | delete => rfl
  | update =>
    simp only
    split
    · rfl
    congr 1
    funext before
    cases before with
    | none | some held => rfl

end ChangelogBatch
end Transferia.Changelog
namespace Transferia.Iceberg
open List Support Changelog
variable {V : Type*} {schema : TableSchema}

/-- Keys of the equality deletes and rows of the data files of one snapshot. -/
structure RowDelta (V : Type*) (schema : TableSchema) where
  deletes : List (schema.Key V)
  data : List (schema.Row V)

/-- Arrow's refusal of an equality delete without its identifier. -/
def missingIdentifier : String := "Column is declared as non-nullable but contains null values"

def columnMismatch (found expected : ℕ) : String := "runtime Arrow batch has " ++ toString found ++
    " columns but Iceberg table has " ++ toString expected

def deltaRow (batch : ChangelogBatch V schema) (action : ChangelogAction)
    (value : Fin schema.columnCount → Option V) :
    Except String (schema.Key V × Option (schema.Row V)) :=
  match batch.rowKey value with
  | none => .error missingIdentifier
  | some key =>
    match action with
    | .delete => .ok (key, none)
    | .upsert =>
      match allSome value with
      | none =>
        .error (columnMismatch ((List.finRange schema.columnCount).countP fun column =>
            (value column).isSome)
          schema.columnCount)
      | some row => .ok (key, some row)

def deltaRows (batch : ChangelogBatch V schema) (action : ChangelogAction) :
    List (Fin schema.columnCount → Option V) →
      Except String (List (schema.Key V × Option (schema.Row V)))
  | [] => .ok []
  | value :: rest =>
    match deltaRow batch action value with
    | .error error => .error error
    | .ok row => (deltaRows batch action rest).map (row :: ·)

def runsDelta (batch : ChangelogBatch V schema) : List (ChangelogRun V schema.columnCount) →
      Except String (List (schema.Key V × Option (schema.Row V)))
  | [] => .ok []
  | run :: rest =>
    match deltaRows batch run.action run.batch with
    | .error error => .error error
    | .ok rows => (runsDelta batch rest).map (rows ++ ·)

def emptyDelta : String := "Iceberg replica row delta contains no rows after changelog collapse"

variable {E : Type*} [DecidableEq E]

def rowDelta (batch : ChangelogBatch V schema) (encode : schema.Key V → E) :
    Except String (RowDelta V schema) :=
  match batch.collapsedFullImageRuns encode with
  | .error error => .error error
  | .ok runs =>
    match runsDelta batch runs with
    | .error error => .error error
    | .ok [] => .error emptyDelta
    | .ok rows =>
      .ok { deletes := rows.map Prod.fst, data := rows.filterMap Prod.snd }

variable [DecidableEq V]

/-- The rows of the snapshots of a table that no later equality delete
hides. -/
def visibleRows : List (RowDelta V schema) → List (schema.Row V)
  | [] => []
  | delta :: later =>
    (delta.data.filter fun row =>
      !(later.any fun next => decide (schema.keyOf row ∈ next.deletes))) ++
      visibleRows later

/-- Reading the snapshots gives, for every key, the row of the table. -/
def Represents (deltas : List (RowDelta V schema)) (table : schema.Table V) : Prop :=
  ∀ key, (visibleRows deltas).filter (schema.keyOf · = key) = (table key).toList

theorem visibleRows_append (deltas : List (RowDelta V schema)) (delta : RowDelta V schema) :
    visibleRows (deltas ++ [delta]) =
      (visibleRows deltas).filter (fun row => !decide (schema.keyOf row ∈ delta.deletes)) ++
        delta.data := by
  induction deltas with
  | nil => simp [visibleRows]
  | cons first rest ih =>
    simp only [cons_append, visibleRows, filter_append, filter_filter, append_assoc, any_append,
      any_cons, any_nil, Bool.or_false, Bool.not_or]
    congr 1
    apply filter_congr
    intro row _
    rw [Bool.and_comm]

variable {batch : ChangelogBatch V schema} {action : ChangelogAction}
  {value : Fin schema.columnCount → Option V} {entry : schema.Key V × Option (schema.Row V)}
  {rows : List (schema.Key V × Option (schema.Row V))}
  {runs : List (ChangelogRun V schema.columnCount)} {encode : schema.Key V → E}
omit [DecidableEq V] in
theorem deltaRow_ok (hok : deltaRow batch action value = .ok entry) :
    batch.rowKey value = some entry.1 ∧ (action = .delete ∧
    entry.2 = none ∨ action = .upsert ∧ entry.2 ≠ none ∧ allSome value = entry.2) := by
  unfold deltaRow at hok
  split at hok
  · cases hok
  rename_i key hkey
  split at hok
  · cases hok
    exact ⟨hkey, .inl ⟨rfl, rfl⟩⟩
  split at hok
  · cases hok
  rename_i row hrow
  cases hok
  exact ⟨hkey, .inr ⟨rfl, by simp, hrow⟩⟩

omit [DecidableEq V] in
theorem keyOf_of_deltaRow {row : schema.Row V} (hok : deltaRow batch action value = .ok entry)
    (hrow : entry.2 = some row) : schema.keyOf row = entry.1 := by
  obtain ⟨hkey, hdelete | hupsert⟩ := deltaRow_ok hok
  · rw [hdelete.2] at hrow
    cases hrow
  have hval : allSome value = some row := hupsert.2.2.trans hrow
  funext i
  have hcell := of_allSome_eq_some hval (schema.primaryKeyIndexes.get i)
  have hname := of_allSome_eq_some hkey i
  exact Option.some.inj (hcell.symm.trans hname)

omit [DecidableEq V] in
theorem rowEffect_eq {op : ChangeOperation} (found : schema.Row V)
    (haction : action = operationAction op) (hok : deltaRow batch action value = .ok entry) :
    rowEffect (some found) op value = fun _ => entry.2 := by
  funext before
  obtain ⟨_, hd | ⟨hupsert, hsome, hrow⟩⟩ := deltaRow_ok hok
  · rw [hd.2]
    rw [hd.1] at haction
    cases op with
    | delete => rfl
    | create | snapshotRead | update =>
      simp [operationAction, ChangeOperation.writesCurrentValue] at haction
  rw [hupsert] at haction
  cases op with
  | delete => simp [operationAction, ChangeOperation.writesCurrentValue] at haction
  | create | snapshotRead => exact hrow
  | update =>
    obtain ⟨row, hentry⟩ := Option.ne_none_iff_exists'.mp hsome
    rw [hentry] at hrow ⊢
    have hcloses : ∀ held, overwrite value held = row := by
      intro held
      funext column
      simp [overwrite, of_allSome_eq_some hrow column]
    cases before with
    | none | some held => simp [rowEffect, hcloses]

def deltaChanges (rows : List (schema.Key V × Option (schema.Row V))) :
    List (schema.Key V × (Option (schema.Row V) → Option (schema.Row V))) :=
  rows.map fun entry => (entry.1, fun _ => entry.2)

omit [DecidableEq V] in
theorem deltaChanges_keys (rows : List (schema.Key V × Option (schema.Row V))) :
    (deltaChanges rows).map Prod.fst = rows.map Prod.fst := by
  rw [deltaChanges, map_map]
  rfl

theorem deltaChanges_append (left right : List (schema.Key V × Option (schema.Row V)))
    (table : schema.Table V) :
    changes table (deltaChanges (left ++ right)) =
      changes (changes table (deltaChanges left)) (deltaChanges right) := by
  rw [deltaChanges, map_append, changes, foldl_append]
  rfl

/-- Every row of the entries has the key it is inserted under. -/
def Keyed (rows : List (schema.Key V × Option (schema.Row V))) : Prop :=
  ∀ entry ∈ rows, ∀ row, entry.2 = some row → schema.keyOf row = entry.1

theorem deltaRows_ok {run : ChangelogRun V schema.columnCount}
    (haction : run.action = operationAction run.operation) (found : schema.Row V)
    {values : List (Fin schema.columnCount → Option V)}
    (hok : deltaRows batch run.action values = .ok rows) :
    rows.map (some ·.1) = values.map batch.rowKey ∧ Keyed rows ∧ ∀ table,
    values.foldl (batch.applyRunRow (some found) run.operation) table =
      changes table (deltaChanges rows) := by
  induction values generalizing rows with
  | nil =>
    cases hok
    exact ⟨rfl, by simp [Keyed], fun _ => rfl⟩
  | cons value rest ih =>
    unfold deltaRows at hok
    split at hok
    · cases hok
    rename_i entry he
    obtain ⟨others, hrest, hok⟩ := of_bind hok
    cases hok
    obtain ⟨hkeys, hkeyed, hchanges⟩ := ih hrest
    have hkey := (deltaRow_ok he).1
    refine ⟨?_, ?_, ?_⟩
    · rw [map_cons, map_cons, hkeys, hkey]
    · intro other hother row hrow
      rcases mem_cons.mp hother with rfl | hother
      · exact keyOf_of_deltaRow he hrow
      · exact hkeyed other hother row hrow
    intro table
    have hstep : batch.applyRunRow
        (some found) run.operation table value = change table entry.1 fun _ => entry.2 := by
      rw [ChangelogBatch.applyRunRow, hkey]
      simp only [rowEffect_eq found haction he]
    rw [foldl_cons, hchanges, hstep]
    rfl

theorem runsDelta_ok (found : schema.Row V)
    (haction : ∀ run ∈ runs, run.action = operationAction run.operation)
    (hok : runsDelta batch runs = .ok rows) :
    rows.map (some ·.1) = (runs.flatMap ChangelogRun.batch).map batch.rowKey ∧ Keyed rows ∧
    ∀ table, batch.applyRuns (some found) table runs = changes table (deltaChanges rows) := by
  induction runs generalizing rows with
  | nil =>
    cases hok
    exact ⟨rfl, by simp [Keyed], fun _ => rfl⟩
  | cons run rest ih =>
    unfold runsDelta at hok
    split at hok
    · cases hok
    rename_i written hwritten
    obtain ⟨others, hrest, hok⟩ := of_bind hok
    cases hok
    obtain ⟨hrowKeys, hrowKeyed, hrowChanges⟩ := deltaRows_ok (haction run mem_cons_self) found
        hwritten
    obtain ⟨hkeys, hkeyed, hchanges⟩ :=
      ih (fun other hother => haction other (mem_cons_of_mem _ hother)) hrest
    refine ⟨?_, ?_, ?_⟩
    · rw [map_append, flatMap_cons, map_append, hrowKeys, hkeys]
    · intro entry he
      rcases mem_append.mp he with he | he
      · exact hrowKeyed entry he
      · exact hkeyed entry he
    intro table
    rw [deltaChanges_append, ← hrowChanges table, ← hchanges]
    rfl

omit [DecidableEq V] in
theorem materializeFrom_action {first : CollapsedRow batch.rowCount batch.columnCount}
    {members rest : List (CollapsedRow batch.rowCount batch.columnCount)}
    {runs : List (ChangelogRun V batch.columnCount)}
    (hok : batch.materializeFrom first members rest = .ok runs) :
    ∀ run ∈ runs, run.action = operationAction run.operation := by
  have hsingle : ∀ {head members run},
      batch.materializeRun head members = .ok run → run.action = operationAction run.operation := by
    intro head members run hrun
    unfold ChangelogBatch.materializeRun at hrun
    split at hrun
    · cases hrun
      rfl
    · cases hrun
  induction rest generalizing first members runs with
  | nil =>
    obtain ⟨run, hrun, hok⟩ := of_bind hok
    cases hok
    simpa using hsingle hrun
  | cons row rest ih =>
    unfold ChangelogBatch.materializeFrom at hok
    split at hok
    · exact ih hok
    split at hok
    next => cases hok
    rename_i run hrun
    obtain ⟨later, hnext, hok⟩ := of_bind hok
    cases hok
    intro other hother
    rcases mem_cons.mp hother with rfl | hother
    · exact hsingle hrun
    · exact ih hnext other hother

omit [DecidableEq V] in
theorem fullImageRuns_action (hok : batch.collapsedFullImageRuns encode = .ok runs) :
    ∀ run ∈ runs, run.action = operationAction run.operation := by
  unfold ChangelogBatch.collapsedFullImageRuns ChangelogBatch.collapsedRunsWithChangedColumns at hok
  split at hok
  · cases hok
  unfold ChangelogBatch.materializeRuns at hok
  split at hok
  · cases hok
    simp
  exact materializeFrom_action hok

omit [DecidableEq V] in
theorem fullImageRuns_empty (hempty : batch.rowCount = 0)
    (hok : batch.collapsedFullImageRuns encode = .ok runs) : runs = [] := by
  have hrows : List.finRange batch.rowCount = [] := by simpa using hempty
  unfold ChangelogBatch.collapsedFullImageRuns ChangelogBatch.collapsedRunsWithChangedColumns at hok
  rw [hrows] at hok
  cases hok
  rfl

theorem rowDelta_ok (hinj : Function.Injective encode) {delta : RowDelta V schema}
    (hok : rowDelta batch encode = .ok delta) :
    ∃ rows : List (schema.Key V × Option (schema.Row V)), delta.deletes = rows.map Prod.fst ∧
    delta.data = rows.filterMap Prod.snd ∧ Keyed rows ∧ (rows.map Prod.fst).Nodup ∧ ∀ table,
    batch.applyFullImages table = changes table (deltaChanges rows) := by
  unfold rowDelta at hok
  split at hok
  · cases hok
  rename_i runs hruns
  split at hok
  · cases hok
  · cases hok
  rename_i rows hn hrows
  cases hok
  refine ⟨rows, rfl, rfl, ?_⟩
  have hsome : 0 < batch.rowCount := by
    by_contra hnone
    have hnil := fullImageRuns_empty (by omega) hruns
    subst hnil
    cases hrows
    exact hn rfl
  let found : schema.Row V := batch.cell ⟨0, hsome⟩
  have hcovers : batch.Covers fun _ _ => true := ⟨fun _ _ _ => rfl, fun _ _ _ => rfl⟩
  have hmeaning : ∀ table, batch.applyRuns
    (some found) table runs = batch.applyEvents (some found) (fun _ _ => true) table :=
    (ChangelogBatch.collapsedRunsWithChangedColumns_meaning (some found) hinj hcovers hruns).1
  have hkeys : ((runs.flatMap ChangelogRun.batch).map batch.rowKey).Nodup :=
    (ChangelogBatch.collapsedRunsWithChangedColumns_meaning (some found) hinj hcovers hruns).2.1
  obtain ⟨hrowKeys, hkeyed, hchanges⟩ := runsDelta_ok found (fullImageRuns_action hruns) hrows
  refine ⟨hkeyed, ?_, ?_⟩
  · rw [← hrowKeys] at hkeys
    apply List.Nodup.of_map (some : schema.Key V → _)
    rw [map_map]
    exact hkeys
  intro table
  rw [← hchanges, hmeaning, ChangelogBatch.applyEvents_fullImage batch found]

theorem filter_data_of_not_mem {key : schema.Key V} (hkeyed : Keyed rows)
    (hkey : key ∉ rows.map Prod.fst) :
    (rows.filterMap Prod.snd).filter (schema.keyOf · = key) = [] := by
  rw [filter_eq_nil_iff]
  intro row hrow hsame
  obtain ⟨entry, hentry, hval⟩ := mem_filterMap.mp hrow
  have hown := hkeyed entry hentry row hval
  have hsame : schema.keyOf row = key := of_decide_eq_true hsame
  exact hkey (hsame.symm.trans hown ▸ mem_map_of_mem hentry)

theorem filter_data_of_mem {key : schema.Key V} {value : Option (schema.Row V)}
    (hkeyed : Keyed rows) (hnodup : (rows.map Prod.fst).Nodup) (hentry : (key, value) ∈ rows) :
    (rows.filterMap Prod.snd).filter (schema.keyOf · = key) = value.toList := by
  induction rows with
  | nil => cases hentry
  | cons first rest ih =>
    rw [map_cons, nodup_cons] at hnodup
    have hrest : Keyed rest := fun entry hmem => hkeyed entry (mem_cons_of_mem _ hmem)
    rcases mem_cons.mp hentry with rfl | hentry
    · have hnone := filter_data_of_not_mem hrest hnodup.1
      cases value with
      | none => simpa using hnone
      | some row =>
        have hown := hkeyed _ mem_cons_self row rfl
        have hdata : ((key, some row) :: rest).filterMap Prod.snd =
            row :: rest.filterMap Prod.snd := rfl
        rw [hdata, filter_cons_of_pos, hnone]
        · rfl
        · exact decide_eq_true hown
    have hne : first.1 ≠ key := by
      intro hsame
      exact hnodup.1 (hsame ▸ mem_map_of_mem hentry)
    have hlater := ih hrest hnodup.2 hentry
    cases hval : first.2 with
    | none => rwa [filterMap_cons_none hval]
    | some row =>
      have hown := hkeyed _ mem_cons_self row hval
      rw [filterMap_cons_some hval, filter_cons_of_neg, hlater]
      intro hsame
      exact hne (hown.symm.trans (of_decide_eq_true hsame))

theorem represents_empty : Represents ([] : List (RowDelta V schema)) fun _ => none := by
  intro key
  rfl

/-- Committing the delta of a delivery turns the table read from the snapshots
into the table with the changes of that delivery applied one by one. -/
theorem represents_rowDelta (hinj : Function.Injective encode)
    {delta : RowDelta V schema} (hok : rowDelta batch encode = .ok delta)
    {deltas : List (RowDelta V schema)} {table : schema.Table V} (hread : Represents deltas table) :
    Represents (deltas ++ [delta]) (batch.applyFullImages table) := by
  obtain ⟨rows, hdeletes, hdata, hkeyed, hnodup, hchanges⟩ := rowDelta_ok hinj hok
  intro key
  rw [hchanges, visibleRows_append, filter_append, hdeletes, hdata, filter_filter]
  by_cases hkey : key ∈ rows.map Prod.fst
  · obtain ⟨⟨own, value⟩, hentry, hown⟩ := mem_map.mp hkey
    have hown : own = key := hown
    subst hown
    have hearlier : (visibleRows deltas).filter (fun row => decide (schema.keyOf row = own) &&
        !decide (schema.keyOf row ∈ rows.map Prod.fst)) = [] := by
      rw [filter_eq_nil_iff]
      intro row _ hboth
      simp only
        [Bool.and_eq_true, decide_eq_true_eq, Bool.not_eq_true', decide_eq_false_iff_not] at hboth
      exact hboth.2 (hboth.1 ▸ hkey)
    have hc : (own, fun _ => value) ∈ deltaChanges rows :=
      mem_map_of_mem (f := fun entry => (entry.1, fun _ => entry.2)) hentry
    rw [hearlier, filter_data_of_mem hkeyed hnodup hentry, nil_append,
      changes_of_mem (deltaChanges_keys rows ▸ hnodup) hc]
  have hkept : (visibleRows deltas).filter
      (fun row => decide (schema.keyOf row = key) && !decide (schema.keyOf row ∈ rows.map Prod.fst))
      = (visibleRows deltas).filter fun row => schema.keyOf row = key := by
    apply filter_congr
    intro row _
    by_cases hsame : schema.keyOf row = key
    · simp [hsame, hkey]
    · simp [hsame]
  rw [hkept, hread key, filter_data_of_not_mem hkeyed hkey, append_nil,
    changes_of_not_mem (deltaChanges_keys rows ▸ hkey)]

end Transferia.Iceberg
