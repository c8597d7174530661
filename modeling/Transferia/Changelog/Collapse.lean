import Mathlib

/-!
# Collapsing a changelog batch

State sinks merge all changes of one primary key into one collapsed row before
any side effect and write the collapsed rows as runs of one operation.  The
cells of a batch are addressed by row and column, so that an index out of range
cannot be built.
-/

namespace Transferia.Changelog

inductive ChangeOperation
  | create
  | update
  | delete
  | snapshotRead
  deriving DecidableEq

def ChangeOperation.writesCurrentValue : ChangeOperation → Bool
  | .create => true
  | .update => true
  | .snapshotRead => true
  | .delete => false

def ChangeOperation.replaces : ChangeOperation → Bool
  | .create => true
  | .snapshotRead => true
  | _ => false

/-- What the rows of one dataset have in common. -/
structure TableSchema where
  columnCount : ℕ
  primaryKeyIndexes : List (Fin columnCount)
  /-- The primary-key positions are listed once each. -/
  key_nodup : primaryKeyIndexes.Nodup

namespace TableSchema
section
variable (schema : TableSchema) (V : Type*)

abbrev Key : Type _ := Fin schema.primaryKeyIndexes.length → V

abbrev Row : Type _ := Fin schema.columnCount → V

abbrev Table : Type _ := schema.Key V → Option (schema.Row V)

end
variable {V : Type*} (schema : TableSchema)

def keyOf (row : schema.Row V) : schema.Key V :=
  fun i => row (schema.primaryKeyIndexes.get i)

end TableSchema

structure ChangelogBatch (V : Type*) (schema : TableSchema) where
  rowCount : ℕ
  cell : Fin rowCount → Fin schema.columnCount → V
  operations : Fin rowCount → ChangeOperation
  sourceVersions : Fin rowCount → ℕ
  changedColumns : Fin rowCount → Fin schema.columnCount → Bool
  oldPrimaryKeys : Option (Fin rowCount → Fin schema.primaryKeyIndexes.length → V)
  /-- No row omits a primary-key column. -/
  key_changed : ∀ row, ∀ column ∈ schema.primaryKeyIndexes, changedColumns row column
  /-- Create and snapshot-read omit no column. -/
  create_complete : ∀ row, (operations row).replaces → ∀ column, changedColumns row column
  /-- The operation column has a byte for each row and 32-bit offsets. -/
  rowCount_lt : rowCount < 2 ^ 31

inductive ChangelogAction
  | upsert
  | delete

def operationAction (operation : ChangeOperation) : ChangelogAction :=
  if operation.writesCurrentValue then .upsert else .delete

def sameSinkOperation (left right : ChangeOperation) : Bool :=
  (left.replaces && right.replaces) ||
    (left = .update && right = .update) || (left = .delete && right = .delete)

/-- Where a collapsed cell is taken from. -/
inductive ValueSource (rows : ℕ)
  | current (row : Fin rows)
  | oldPrimaryKey (row : Fin rows)

structure CollapsedRow (rows columns : ℕ) where
  finalPosition : ℕ
  operation : ChangeOperation
  valueRows : Fin columns → Option (ValueSource rows)
  sourceVersion : ℕ

abbrev Latest (E : Type*) (rows columns : ℕ) :=
  AList fun _ : E => CollapsedRow rows columns

/-- Rows of one run: the included columns of a row are its `some` cells. -/
structure ChangelogRun (V : Type*) (columns : ℕ) where
  action : ChangelogAction
  operation : ChangeOperation
  batch : List (Fin columns → Option V)
  sourceVersions : List ℕ

section
variable {E : Type*} [DecidableEq E] {rows columns : ℕ}

def keySources (primaryKeyIndexes : List (Fin columns))
    (source : ValueSource rows) : Fin columns → Option (ValueSource rows) :=
  fun column => if column ∈ primaryKeyIndexes then some source else none

/-- The changed columns, taken from `source`, and the others as before. -/
def overwriteSources (changed : Fin columns → Bool) (source : ValueSource rows)
    (before : Fin columns → Option (ValueSource rows)) : Fin columns → Option (ValueSource rows) :=
  fun column => if changed column then some source else before column

def updatesDeletedKey : String :=
  "changelog updates a deleted primary key without recreating it"

def applyCollapsedEvent (latest : Latest E rows columns) (key : E)
    (position : ℕ) (operation : ChangeOperation) (source : ValueSource rows)
    (changed : Fin columns → Bool) (primaryKeyIndexes : List (Fin columns))
    (sourceVersion : ℕ) : Except String (Latest E rows columns) :=
  match latest.lookup key with
  | none =>
    .ok (latest.insert key
      { finalPosition := position
        operation, valueRows := if operation = .delete then
            keySources primaryKeyIndexes source
          else overwriteSources changed source fun _ => none
        sourceVersion })
  | some collapsed =>
    match operation with
    | .create | .snapshotRead =>
      .ok (latest.insert key
        { finalPosition := position, operation, valueRows := fun _ => some source, sourceVersion })
    | .update =>
      if collapsed.operation = .delete then .error updatesDeletedKey
      else
        .ok (latest.insert key
          { finalPosition := position
            operation := if collapsed.operation.replaces then
              collapsed.operation else .update
            valueRows := overwriteSources changed source collapsed.valueRows
            sourceVersion })
    | .delete =>
      .ok (latest.insert key
        { finalPosition := position
          operation := .delete, valueRows := keySources primaryKeyIndexes source
          sourceVersion })

end
namespace ChangelogBatch
variable {V E : Type*} {schema : TableSchema} [DecidableEq E] (batch : ChangelogBatch V schema)

abbrev columnCount (_ : ChangelogBatch V schema) : ℕ := schema.columnCount

abbrev primaryKeyIndexes (batch : ChangelogBatch V schema) : List (Fin batch.columnCount) :=
  schema.primaryKeyIndexes

abbrev Key : Type _ := Fin batch.primaryKeyIndexes.length → V

abbrev Mask : Type := Fin batch.rowCount → Fin batch.columnCount → Bool

def key (row : Fin batch.rowCount) : batch.Key :=
  fun i => batch.cell row (batch.primaryKeyIndexes.get i)

def incompleteKeyChange : String :=
  "primary-key-changing changelog update must carry a complete current row"

variable (encode : batch.Key → E)

def collapseWithOldValues
    (oldKeys : Fin batch.rowCount → batch.Key) (mask : batch.Mask)
    (latest : Latest E batch.rowCount batch.columnCount) (row : Fin batch.rowCount) :
    Except String (Latest E batch.rowCount batch.columnCount) :=
  match batch.operations row with
  | .create =>
    applyCollapsedEvent latest (encode (batch.key row)) (row * 2 + 1) .create (.current row)
      (mask row) batch.primaryKeyIndexes (batch.sourceVersions row)
  | .snapshotRead =>
    applyCollapsedEvent latest (encode (batch.key row)) (row * 2 + 1) .snapshotRead (.current row)
      (mask row) batch.primaryKeyIndexes (batch.sourceVersions row)
  | .update =>
    if encode (oldKeys row) = encode (batch.key row) then
      applyCollapsedEvent latest (encode (batch.key row)) (row * 2 + 1) .update (.current row)
        (mask row) batch.primaryKeyIndexes (batch.sourceVersions row)
    else if ∀ column, mask row column then
      match applyCollapsedEvent latest (encode (oldKeys row)) (row * 2)
          .delete (.oldPrimaryKey row) (mask row) batch.primaryKeyIndexes
          (batch.sourceVersions row) with
      | .error reason => .error reason
      | .ok removed =>
        applyCollapsedEvent removed (encode (batch.key row)) (row * 2 + 1) .create (.current row)
          (mask row) batch.primaryKeyIndexes (batch.sourceVersions row)
    else .error incompleteKeyChange
  | .delete =>
    applyCollapsedEvent latest (encode (oldKeys row)) (row * 2) .delete (.oldPrimaryKey row)
      (mask row) batch.primaryKeyIndexes (batch.sourceVersions row)

section
variable (mask : batch.Mask) (latest : Latest E batch.rowCount batch.columnCount)
  (row : Fin batch.rowCount)

def collapseWithoutOldValues : Except String (Latest E batch.rowCount batch.columnCount) :=
  applyCollapsedEvent latest (encode (batch.key row)) row (batch.operations row) (.current row)
    (mask row) batch.primaryKeyIndexes (batch.sourceVersions row)

def collapseRow : Except String (Latest E batch.rowCount batch.columnCount) :=
  match batch.oldPrimaryKeys with
  | none => batch.collapseWithoutOldValues encode mask latest row
  | some oldKeys => batch.collapseWithOldValues encode oldKeys mask latest row

end

def collapseRows (encode : batch.Key → E) (mask : batch.Mask)
    (latest : Latest E batch.rowCount batch.columnCount) : List (Fin batch.rowCount) →
      Except String (Latest E batch.rowCount batch.columnCount)
  | [] => .ok latest
  | row :: rest =>
    match batch.collapseRow encode mask latest row with
    | .error reason => .error reason
    | .ok next => collapseRows encode mask next rest

def selectedRows (latest : Latest E batch.rowCount batch.columnCount) :
    List (CollapsedRow batch.rowCount batch.columnCount) :=
  (latest.entries.map Sigma.snd).insertionSort fun left right =>
    left.finalPosition ≤ right.finalPosition

/-- Positions of a concatenated current and old column are 32-bit. -/
def sourceIndex : ValueSource batch.rowCount → ℕ
  | .current row => row
  | .oldPrimaryKey row => batch.rowCount + row

def sourceValue (source : ValueSource batch.rowCount) (column : Fin batch.columnCount) : Option V :=
  match source with
  | .current row => some (batch.cell row column)
  | .oldPrimaryKey row =>
    match batch.oldPrimaryKeys, batch.primaryKeyIndexes.finIdxOf? column with
    | some oldKeys, some position => some (oldKeys row position)
    | _, _ => none

section
variable (row : CollapsedRow batch.rowCount batch.columnCount) (column : Fin batch.columnCount)

def collapsedValue : Option V :=
  (row.valueRows column).bind (batch.sourceValue · column)

def included : Bool :=
  (row.valueRows column).isSome

end

def indexOverflow : String := "out of range integral type conversion attempted"

/-- The run of the rows `members`, whose first row is `first`. -/
def materializeRun (first : CollapsedRow batch.rowCount batch.columnCount)
    (members : List (CollapsedRow batch.rowCount batch.columnCount)) :
    Except String (ChangelogRun V batch.columnCount) :=
  if ∀ row ∈ members, ∀ column, ∀ source ∈ row.valueRows column,
      batch.sourceIndex source < 2 ^ 32 then
    .ok
      { action := operationAction first.operation
        operation := first.operation, batch := members.map batch.collapsedValue
        sourceVersions := members.map CollapsedRow.sourceVersion }
  else .error indexOverflow

/-- Extend the run begun by `first` while the next row has the same sink
operation and the same included columns. -/
def materializeFrom (first : CollapsedRow batch.rowCount batch.columnCount)
    (members : List (CollapsedRow batch.rowCount batch.columnCount)) :
    List (CollapsedRow batch.rowCount batch.columnCount) →
      Except String (List (ChangelogRun V batch.columnCount))
  | [] => (batch.materializeRun first members).map fun run => [run]
  | row :: rest =>
    if sameSinkOperation row.operation first.operation &&
        decide (batch.included row = batch.included first) then
      materializeFrom first (members ++ [row]) rest
    else
      match batch.materializeRun first members with
      | .error reason => .error reason
      | .ok run => (materializeFrom row [row] rest).map (run :: ·)

def materializeRuns : List (CollapsedRow batch.rowCount batch.columnCount) →
      Except String (List (ChangelogRun V batch.columnCount))
  | [] => .ok []
  | first :: rest => batch.materializeFrom first [first] rest

def collapsedRunsWithChangedColumns (mask : batch.Mask) :
    Except String (List (ChangelogRun V batch.columnCount)) :=
  match batch.collapseRows encode mask ∅ (List.finRange batch.rowCount) with
  | .error reason => .error reason
  | .ok latest => batch.materializeRuns (batch.selectedRows latest)

def collapsedRuns : Except String (List (ChangelogRun V batch.columnCount)) :=
  batch.collapsedRunsWithChangedColumns encode batch.changedColumns

/-- The collapse for sinks whose every current row is a complete image. -/
def collapsedFullImageRuns : Except String (List (ChangelogRun V batch.columnCount)) :=
  batch.collapsedRunsWithChangedColumns encode fun _ _ => true

end ChangelogBatch
end Transferia.Changelog
