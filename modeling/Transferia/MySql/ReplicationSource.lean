import Transferia.Changelog.Collapse
import Transferia.MySql.OffsetTracker

/-!
# The MySQL replication source

The source buffers the rows of the active transaction and returns them as one
batch when the transaction commits.  The marker of a batch leads from the
position and the GTID set before the transaction to those after it.  After a
created table that the delivery selects, nothing is read until its marker is
committed.
-/

namespace Transferia.MySql
open Changelog (ChangeOperation)

structure BufferedRowChange (Value : Type) where
  tableIndex : ℕ
  operation : ChangeOperation
  (before after : Option (List Value))
  (messageIndex sourceTimestampSeconds sourceServerId sourceBinlogPosition sourceRowInEvent : ℕ)

structure BufferedTransaction (Value : Type) where
  marker : MySqlTransactionMarker
  changes : List (BufferedRowChange Value)
  (nextMessageIndex encodedBytes : ℕ)

structure MySqlReplicationMarker where
  (previousPosition nextPosition : MySqlBinlogPosition)
  (previousGtids nextGtids : GtidSet)

/-- The rows of one table in a batch. -/
structure TableChanges (Value : Type) where
  table : AuthoritativeTableIdentity
  changes : List (BufferedRowChange Value)

inductive SourceBatch (Value : Type)
  | typed (tables : List (TableChanges Value)) (commitMarker : MySqlReplicationMarker)
  | dataset (table : AuthoritativeTableIdentity) (commitMarker : MySqlReplicationMarker)

/-- An error is a text of its own, or wraps the error of a part. -/
inductive SourceError
  | message (text : String)
  | position (error : PositionError)
  | decode (error : BinlogDecodeError)
  | durable (error : MySqlFailure)

inductive NewTables
  | includeAutomatically
  | ignore
  deriving DecidableEq

/-- How the delivery selects tables: the databases it covers, and for a table
the conflicts with its rules and the rules that select it. -/
structure AdmissionConfig where
  includesDatabase : Bytes → Bool
  classificationIssues : TableName → List String
  selectedBy : TableName → List ℕ
  newTables : NewTables

/-- The conversion of row images, and the comparison of a table map with the
discovered table. -/
structure SourceLibrary (Raw Value : Type) extends BinlogLibrary where
  validateSelectedTableMap : AuthoritativeTableIdentity → TableMap → Except SourceError Unit
  normalizeBinlogRow : AuthoritativeTableIdentity → TableMap → List Raw →
    Except SourceError (List Value)

structure PendingTable where
  table : AuthoritativeTableIdentity
  position : MySqlBinlogPosition

structure MySqlReplicationSource (Value : Type) where
  decoder : MySqlBinlogDecoder
  tables : List AuthoritativeTableIdentity
  active : Option (BufferedTransaction Value)
  (committedPosition emittedPosition : MySqlBinlogPosition)
  (committedGtids emittedGtids : GtidSet)
  offsetTracker : MySqlReplicationOffsetTracker
  finished : Bool
  pendingTable : Option PendingTable

def changeOperation : MySqlRowOperation → ChangeOperation
  | .write => .create
  | .update => .update
  | .delete => .delete

namespace MySqlReplicationSource
variable {Raw Value : Type} (library : SourceLibrary Raw Value)
  (parser : SidParser) (config : MySqlReplicationConfig)

def new (tracker : MySqlReplicationOffsetTracker) : MySqlReplicationSource Value where
  decoder :=
    { currentPosition := tracker.identity.committedPosition
      activeTransaction := none, tableMaps := [], allowGtidAutoPositionRotate := true
      selectedTables := some
        (tracker.identity.authoritativeTables.map AuthoritativeTableIdentity.name) }
  tables := tracker.identity.authoritativeTables
  active := none
  committedPosition := tracker.identity.committedPosition
  emittedPosition := tracker.identity.committedPosition
  committedGtids := tracker.identity.committedGtids
  emittedGtids := tracker.identity.committedGtids
  offsetTracker := tracker
  finished := false
  pendingTable := none

def ensureSource (condition : Bool) (text : String) : Except SourceError Unit :=
  if condition then .ok () else .error (.message text)

variable (tables : List AuthoritativeTableIdentity)

def tableIndex (name : TableName) : Option ℕ :=
  tables.findIdx? (·.name = name)

def normalizeRow (table : AuthoritativeTableIdentity) (tableMap : TableMap) :
    Option (List Raw) → Except SourceError (Option (List Value))
  | none => .ok none
  | some row => do
    let values ← library.normalizeBinlogRow table tableMap row
    return some values

def bufferedRowChange (rows : DecodedRowsEvent Raw) (row : MySqlRowChange Raw)
    (tableIndex messageIndex : ℕ) (before after : Option (List Value)) :
    BufferedRowChange Value where
  tableIndex := tableIndex
  operation := changeOperation rows.operation
  before := before
  after := after
  messageIndex := messageIndex
  sourceTimestampSeconds := rows.sourceTimestampSeconds
  sourceServerId := rows.sourceServerId
  sourceBinlogPosition := rows.eventPosition.position
  sourceRowInEvent := row.rowInEvent

/-- The rows of one event join the transaction, numbered in their order. -/
def appendRowChanges (table : AuthoritativeTableIdentity) (tableIndex : ℕ)
    (rows : DecodedRowsEvent Raw) (active : BufferedTransaction Value) :
    List (MySqlRowChange Raw) → Except SourceError (BufferedTransaction Value)
  | [] => .ok active
  | row :: rest => do
    let before ← normalizeRow library table rows.table row.before
    let after ← normalizeRow library table rows.table row.after
    let change := bufferedRowChange rows row tableIndex active.nextMessageIndex before after
    appendRowChanges table tableIndex rows
      { active with
        changes := active.changes ++ [change]
        nextMessageIndex := active.nextMessageIndex + 1 } rest

def appendRows (active : BufferedTransaction Value) (rows : DecodedRowsEvent Raw) :
    Except SourceError (BufferedTransaction Value) := do
  ensureSource (active.marker = rows.transaction)
    "MySQL binlog row identity does not match the buffered transaction"
  match tableIndex tables rows.table.name with
  | none => return active
  | some index =>
    match tables[index]? with
    | none => throw (.message "MySQL configured table index disappeared during replication")
    | some table =>
      library.validateSelectedTableMap table rows.table
      ensureSource (rows.table.columns = table.columns.length)
        "MySQL binlog table has another number of columns than discovery declared"
      ensureSource (rows.eventPosition.filename = active.marker.beginPosition.filename)
        "MySQL rows event filename changed inside an active transaction"
      appendRowChanges library table index rows active rows.rows

def validateTableMap (tableMap : TableMap) : Except SourceError Unit :=
  match tableIndex tables tableMap.name with
  | none => .ok ()
  | some index =>
    match tables[index]? with
    | none => .error (.message "MySQL configured table index disappeared during replication")
    | some table => library.validateSelectedTableMap table tableMap

/-- The changes of a transaction, table by table in the order of the tables. -/
def groupChanges (changes : List (BufferedRowChange Value)) : List (TableChanges Value) :=
  (tables.zipIdx.map fun (table, index) =>
    ({ table, changes := changes.filter fun change =>
        change.tableIndex = index } : TableChanges Value)).filter fun group =>
      group.changes ≠ []

variable (self : MySqlReplicationSource Value)

def finishTransaction (committed : CommittedTransaction) :
    Except SourceError (SourceBatch Value × MySqlReplicationSource Value) := do
  match self.active with
  | none => throw (.message "MySQL binlog actor received commit without a transaction")
  | some active =>
    ensureSource (active.marker = committed.transaction)
      "MySQL binlog commit identity does not match the buffered transaction"
    ensureSource (committed.nextPosition = self.decoder.currentPosition)
      "MySQL binlog decoder commit position diverged from its current position"
    ensureSource (committed.encodedBytes = active.encodedBytes)
      "MySQL transaction encoded-byte accounting diverged from the binlog decoder"
    match active.marker.identity with
    | .gtid gtid =>
      ensureSource (active.changes.all (·.tableIndex < self.tables.length))
        "MySQL transaction refers to an unknown configured table index"
      match self.emittedGtids.includeTransaction parser gtid.sid gtid.tag gtid.gno with
      | .error error => throw (.position error)
      | .ok nextGtids =>
        let marker : MySqlReplicationMarker :=
          { previousPosition := self.emittedPosition
            nextPosition := committed.nextPosition, previousGtids := self.emittedGtids
            nextGtids }
        return (.typed (groupChanges self.tables active.changes) marker, { self with
            active := none, emittedPosition := marker.nextPosition
            emittedGtids := marker.nextGtids })
    | _ => throw (.message "MySQL GTID-mode replication emitted a row without an exact GTID")

variable (admission : AdmissionConfig)
section
variable (discovered : TableName → Except SourceError AuthoritativeTableIdentity)
  (self : MySqlReplicationSource Value)

/-- A created table is admitted when the delivery selects it.  `discovered` is
the table that the server describes under its name. -/
def admitCreatedTable (identity : TableName) (committed : CommittedTransaction) : Except SourceError
    (SourceBatch Value × MySqlReplicationSource Value) := do
  if !admission.includesDatabase identity.database then
    self.finishTransaction parser committed
  else
    ensureSource (admission.classificationIssues identity = [])
      "MySQL newly created table conflicts with configured table rules"
    if admission.selectedBy identity = [] ∨ admission.newTables = .ignore then
      self.finishTransaction parser committed
    else
      ensureSource self.pendingTable.isNone "MySQL dataset admission is already pending"
      ensureSource (self.tables.all (·.name.table ≠ identity.table))
        "MySQL newly created table has a name already used by another selected table"
      ensureSource (self.active.any (·.changes = []))
        "MySQL CREATE transaction unexpectedly contains rows; a snapshot is required"
      let table ← discovered identity
      ensureSource (table.name = identity)
        "MySQL replication runtime table identity differs from the authoritative discovery"
      let (batch, source) ← self.finishTransaction parser committed
      match batch with
      | .typed [] commitMarker =>
        return (.dataset table commitMarker, { source with
            pendingTable := some { table, position := committed.nextPosition } })
      | .typed (_ :: _) _ => throw (.message "MySQL CREATE produced unexpected row data")
      | .dataset _ _ => throw (.message "MySQL CREATE did not produce a durable marker")

def acceptEvent (eventBytes : ℕ) : DecodedBinlogEvent Raw → Except SourceError
    (Option (SourceBatch Value) × MySqlReplicationSource Value)
  | .tableCreated table committed => do
    let (batch, source) ← self.admitCreatedTable parser admission discovered table committed
    return (some batch, source)
  | .transactionStarted marker => do
    ensureSource self.active.isNone "MySQL binlog actor received overlapping transactions"
    return (none, { self with
      active := some { marker, changes := [], nextMessageIndex := 0, encodedBytes := eventBytes } })
  | .rows rows =>
    match self.active with
    | none => throw (.message "MySQL binlog actor received row changes without a transaction")
    | some active => do
      let active ← appendRows library self.tables active rows
      return (none, { self with active := some active })
  | .transactionCommitted committed => do
    let (batch, source) ← self.finishTransaction parser committed
    return (some batch, source)
  | .transactionRolledBack rolledBack =>
    match self.active with
    | none => throw (.message "MySQL binlog actor received rollback without a transaction")
    | some active => do
      ensureSource (active.marker = rolledBack.transaction)
        "MySQL binlog rollback identity does not match the buffered transaction"
      return (none, { self with active := none })
  | .tableMapped table => do
    validateTableMap library self.tables table
    ensureSource self.active.isSome "MySQL binlog actor received a table map without a transaction"
    return (none, self)
  | .ignored eventType _ insideTransaction => do
    ensureSource (!insideTransaction || eventType ≠ .tableMap || self.active.isSome)
      "MySQL binlog actor ignored a table map without a transaction"
    return (none, self)
  | .binlogRotated _ _ => .ok (none, self)

end

/-- The bytes of an event count for the transaction that is active before it. -/
def counting (decoder : MySqlBinlogDecoder) (eventBytes : ℕ) : MySqlReplicationSource Value :=
  { self with
    decoder, active := self.active.map fun transaction =>
      { transaction with encodedBytes := transaction.encodedBytes + eventBytes } }

def readEvent (discovered : TableName → Except SourceError AuthoritativeTableIdentity)
    (self : MySqlReplicationSource Value) (event : BinlogEvent Raw) :
    Except SourceError (Option (SourceBatch Value) × MySqlReplicationSource Value) :=
  if self.pendingTable.isSome then
    .error (.message "MySQL cannot read beyond CREATE before dataset admission is committed")
  else
    match self.decoder.decode config library.toBinlogLibrary event with
    | .error error => .error (.decode error)
    | .ok (decoded, decoder) =>
      acceptEvent library parser admission discovered
        (self.counting decoder event.header.eventBytes) event.header.eventBytes decoded

def followMarkers (position : MySqlBinlogPosition) (gtids : GtidSet) : List MySqlReplicationMarker →
      Except SourceError (MySqlBinlogPosition × GtidSet)
  | [] => .ok (position, gtids)
  | marker :: rest => do
    ensureSource (marker.previousPosition = position && marker.previousGtids = gtids)
      "MySQL replication commit markers are not one contiguous emitted prefix"
    match marker.nextPosition.validate with
    | .error error => throw (.position error)
    | .ok () =>
      match GtidSet.validate parser marker.nextGtids with
      | .error error => throw (.position error)
      | .ok () => followMarkers marker.nextPosition marker.nextGtids rest

/-- The position and the GTID set that a commit leads to, with the record that
it has to store. -/
def prepareCommit (markers : List MySqlReplicationMarker) :
    Except SourceError (MySqlBinlogPosition × GtidSet × Option ReplicationOffsetState) := do
  let (position, gtids) ← followMarkers parser self.committedPosition self.committedGtids markers
  ensureSource (markers ≠ []) "MySQL replication commit has no offset markers"
  let admitted := (self.pendingTable.filter fun pending =>
    pending.position = position).toList.map PendingTable.table
  match self.offsetTracker.storeAdmission parser position gtids admitted with
  | .error error => throw (.durable error)
  | .ok record => return (position, gtids, record)

/-- After the record is stored the pending table of that position takes part in
the reading. -/
def finishCommit (tracker : MySqlReplicationOffsetTracker)
    (position : MySqlBinlogPosition) (gtids : GtidSet) : MySqlReplicationSource Value :=
  let committed : MySqlReplicationSource Value :=
    { self with offsetTracker := tracker, committedPosition := position, committedGtids := gtids }
  match self.pendingTable with
  | none => committed
  | some pending =>
    if pending.position = position then
      let tables := self.tables ++ [pending.table]
      { committed with
        pendingTable := none, tables, decoder := { self.decoder with
          selectedTables := some (tables.map AuthoritativeTableIdentity.name) } }
    else committed

end MySqlReplicationSource
end Transferia.MySql
