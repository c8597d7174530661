import Transferia.Support.Transition
import Transferia.MySql.GtidSet
import Transferia.MySql.ReplicationSource

/-!
# Runs of the replication source

The server keeps a log of transactions and sends those that are missing in the
GTID set of the reader.  One process at a time prepares a source from the
durable record, reads events, and commits markers; it may crash at any point.  A
write whose answer is lost may reach the storage at any later time.
-/

namespace Transferia.MySql
open Registry Support

/-- The event that ends a transaction. -/
inductive TransactionEnd
  | xid (xid : ℕ)
  | query (schema statement : Bytes)

structure LoggedTransaction (Raw : Type) where
  file : Bytes
  rotation : EventHeader
  gtid : Gtid
  start : EventHeader
  body : List (BinlogEvent Raw)
  ending : TransactionEnd
  finish : EventHeader

/-- How a transaction ends. -/
inductive TransactionOutcome
  | committed
  | rolledBack
  | created (table : TableName)
  deriving DecidableEq

namespace LoggedTransaction
variable {Raw : Type} (transaction : LoggedTransaction Raw)

def startEvent : BinlogEvent Raw :=
  { header := transaction.start, data := .gtid transaction.gtid }

def endEvent : BinlogEvent Raw :=
  { header := transaction.finish
    data := match transaction.ending with
      | .xid xid => .xid xid
      | .query schema statement => .query schema statement }

def endPosition : MySqlBinlogPosition :=
  { filename := transaction.file, position := transaction.finish.logPos }

variable (library : BinlogLibrary)

/-- A statement that is none of the transaction statements creates a table; the
decoder refuses the others. -/
def outcome (transaction : LoggedTransaction Raw) : TransactionOutcome :=
  match transaction.ending with
  | .xid _ => .committed
  | .query schema statement =>
    if eqIgnoreAsciiCase (trimAscii statement) commitStatement then .committed
    else if eqIgnoreAsciiCase (trimAscii statement) rollbackStatement then
      .rolledBack
    else
      match library.createdTable (trimAscii statement) schema with
      | some table => .created table
      | none => .committed

def commits (transaction : LoggedTransaction Raw) : Bool :=
  transaction.outcome library ≠ .rolledBack

/-- The table that joins the delivery with this transaction: one that it
creates and that the delivery selects. -/
def admittedTable (admission : AdmissionConfig)
    (transaction : LoggedTransaction Raw) : Option TableName :=
  match transaction.outcome library with
  | .created table =>
    if admission.includesDatabase table.database &&
        admission.selectedBy table ≠ [] && admission.newTables ≠ .ignore then
      some table
    else none
  | _ => none

end LoggedTransaction

def EventData.isBody {Raw : Type} : EventData Raw → Bool
  | .query _ statement => eqIgnoreAsciiCase (trimAscii statement) beginStatement
  | .tableMap _ | .rows _ | .heartbeat | .rowsQuery | .ignorable => true
  | _ => false

def EventData.isQuiet {Raw : Type} (file : Option Bytes) : EventHeader → EventData Raw → Bool
  | _, .heartbeat | _, .ignorable | _, .formatDescription | _, .previousGtids
  | _, .stop => true
  | header, .rotate name _ => header.logPos = 0 && file = some name
  | _, _ => false

/-- A log in which transactions have numbers and end positions of their own. -/
structure WellFormedLog {Raw : Type} (history : List (LoggedTransaction Raw)) : Prop where
  gtids : (history.map LoggedTransaction.gtid).Nodup
  numbers : ∀ transaction ∈ history,
    0 < transaction.gtid.gno ∧ transaction.gtid.gno < maxEndExclusive
  positions : (history.map LoggedTransaction.endPosition).Nodup
  finish : ∀ transaction ∈ history, transaction.finish.logPos ≠ 0
  rotation : ∀ transaction ∈ history, transaction.rotation.logPos ≠ 0
  body : ∀ transaction ∈ history, ∀ event ∈ transaction.body, event.data.isBody
  ending : ∀ transaction ∈ history, transaction.endEvent.data.isBody = false

/-- What the server still has to send: the rest of one transaction, and the
transactions after it.  `file` is the file it is in. -/
structure Connection (Raw : Type) where
  file : Option Bytes
  current : List (BinlogEvent Raw)
  upcoming : List (LoggedTransaction Raw)

namespace Connection
variable {Raw : Type}

def connect (history : List (LoggedTransaction Raw)) (gtids : GtidSet) : Connection Raw where
  file := none
  current := []
  upcoming := history.filter (!gtids.contains ·.gtid)

def rotationEvent (file : Option Bytes) (transaction : LoggedTransaction Raw) : BinlogEvent Raw :=
  { header :=
      if file = none then { transaction.rotation with logPos := 0 }
      else transaction.rotation
    data := .rotate transaction.file 4 }

def next (connection : Connection Raw) : Option (BinlogEvent Raw × Connection Raw) :=
  match connection.current with
  | event :: rest => some (event, { connection with current := rest })
  | [] =>
    match connection.upcoming with
    | [] => none
    | transaction :: later =>
      if connection.file = some transaction.file then
        some (transaction.startEvent, { connection with
            current := transaction.body ++ [transaction.endEvent], upcoming := later })
      else
        some (rotationEvent connection.file transaction,
          { connection with file := some transaction.file })

end Connection

/-- A write that was sent and not answered.  `index` is the number of
transactions that it covers. -/
structure LateWrite where
  index : ℕ
  expectedRevision : Option ℕ
  payload : ReplicationOffsetState

/-- What is fixed for all executions of one delivery. -/
structure ReplicationSetting (Raw Value : Type) where
  library : SourceLibrary Raw Value
  parser : SidParser
  identity : ReplayIdentity
  admission : AdmissionConfig
  history : List (LoggedTransaction Raw)

/-- The state of the system.  The last fields observe the run: the records
written so far with the number of transactions they cover, the largest such
number that was handed to a commit, and for the current process the number it
started from, the GTID set it asked for, its batches, the markers whose commit
it confirmed, and the number of transactions that were complete when it last
read an event. -/
structure ReplicationRun (Raw Value : Type) where
  storage : DurableStorage ReplicationOffsetState
  lateWrites : List LateWrite
  source : Option (MySqlReplicationSource Value)
  connection : Connection Raw
  reading : Bool
  written : List (ℕ × ReplicationOffsetState)
  (acknowledged startedAt : ℕ)
  requested : GtidSet
  emitted : List (SourceBatch Value)
  accepted : List (List ℕ)
  completeAtRead : ℕ

inductive RunLabel (Raw : Type)
  | start (boundary : Option MySqlBinlogBoundary) (tables : List AuthoritativeTableIdentity)
      (executed purged : GtidSet) (answered : Bool)
  | read (discovered : TableName → Except SourceError AuthoritativeTableIdentity)
  | quiet (event : BinlogEvent Raw)
  | fail
  | cancel
  | commit (markers : List ℕ) (answered : Bool)
  | land (write : ℕ)
  | crash

def SourceBatch.tables {Value : Type} : SourceBatch Value → List (TableChanges Value)
  | .typed tables _ => tables
  | .dataset _ _ => []

def SourceBatch.commitMarker {Value : Type} : SourceBatch Value → MySqlReplicationMarker
  | .typed _ marker => marker
  | .dataset _ marker => marker

namespace ReplicationRun
variable {Raw Value : Type} (setting : ReplicationSetting Raw Value)

def initial : ReplicationRun Raw Value where
  storage := fun _ => none
  lateWrites := []
  source := none
  connection := { file := none, current := [], upcoming := [] }
  reading := false
  written := []
  acknowledged := 0
  startedAt := 0
  requested := []
  emitted := []
  accepted := []
  completeAtRead := 0

variable (run : ReplicationRun Raw Value)

/-- The number of markers that the current process has committed. -/
def committed : ℕ := run.accepted.flatten.length

/-- A process starts from a record that covers `index` transactions. -/
def launch (tracker : MySqlReplicationOffsetTracker) (index : ℕ) : ReplicationRun Raw Value :=
  { run with
    source := some (.new tracker)
    connection := .connect setting.history tracker.identity.committedGtids, reading := true
    startedAt := index, requested := tracker.identity.committedGtids, emitted := [], accepted := []
    completeAtRead := index }

def write (late : LateWrite) : Option (ReplicationRun Raw Value × ℕ) :=
  match run.storage.compareExchange replicationOffsetStateKey
      late.expectedRevision late.payload with
  | .ok (.applied value, storage) =>
    some ({ run with storage, written := run.written ++ [(late.index, late.payload)] },
      value.revision)
  | _ => none

def start (boundary : Option MySqlBinlogBoundary)
    (tables : List AuthoritativeTableIdentity) (executed purged : GtidSet)
    (answered : Bool) : Option (ReplicationRun Raw Value) :=
  match run.source with
  | some _ => none
  | none =>
    match validateIdentity setting.parser setting.identity tables boundary with
    | .error _ => none
    | .ok () =>
      match run.storage replicationOffsetStateKey with
      | some current =>
        match resume setting.parser setting.identity tables boundary executed purged current with
        | .error _ => none
        | .ok tracker =>
          some (run.launch setting tracker ((run.written.getLast?.map Prod.fst).getD 0))
      | none =>
        match initialState setting.parser setting.identity tables boundary executed purged with
        | .error _ => none
        | .ok state =>
          let late : LateWrite := { index := 0, expectedRevision := none, payload := state }
          if answered then
            (run.write late).map fun (run, revision) =>
              run.launch setting { revision, identity := state } 0
          else some { run with lateWrites := run.lateWrites ++ [late] }

def deliver (source : MySqlReplicationSource Value) (connection : Connection Raw)
    (discovered : TableName → Except SourceError AuthoritativeTableIdentity)
    (event : BinlogEvent Raw) : ReplicationRun Raw Value :=
  match source.readEvent setting.library setting.parser
      setting.identity.config setting.admission discovered event with
  | .error _ => { run with reading := false }
  | .ok (batch, source) =>
    { run with
      source := some source, connection, emitted := run.emitted ++ batch.toList
      completeAtRead := run.startedAt + run.emitted.length }

def read (discovered : TableName → Except SourceError AuthoritativeTableIdentity) :
    Option (ReplicationRun Raw Value) :=
  match run.source with
  | none => none
  | some source =>
    if !run.reading || source.finished then none
    else
      match run.connection.next with
      | none => none
      | some (event, connection) => some (run.deliver setting source connection discovered event)

def noDiscovery (_ : TableName) : Except SourceError AuthoritativeTableIdentity :=
  .error (.message "MySQL table discovery timed out")

def quiet (event : BinlogEvent Raw) : Option (ReplicationRun Raw Value) :=
  match run.source with
  | none => none
  | some source =>
    if !run.reading || source.finished ||
        !event.data.isQuiet run.connection.file event.header then none
    else some (run.deliver setting source run.connection noDiscovery event)

def confirm (source : MySqlReplicationSource Value) (markers : List ℕ) : ReplicationRun Raw Value :=
  { run with source := some source, accepted := run.accepted ++ [markers] }

def commit (markers : List ℕ) (answered : Bool) : Option (ReplicationRun Raw Value) :=
  match run.source, markers.mapM fun index => run.emitted[index]? with
  | some source, some batches =>
    match source.prepareCommit setting.parser (batches.map SourceBatch.commitMarker) with
    | .error _ => none
    | .ok (position, gtids, record) =>
      let index := run.startedAt + run.committed + markers.length
      let run := { run with acknowledged := max run.acknowledged index }
      match record with
      | none => some (run.confirm (source.finishCommit source.offsetTracker position gtids) markers)
      | some payload =>
        let late : LateWrite :=
          { index, expectedRevision := some source.offsetTracker.revision, payload }
        if answered then
          match run.write late with
          | none => some run
          | some (run, revision) =>
            some (run.confirm (source.finishCommit
              { revision, identity := payload } position gtids) markers)
        else some { run with lateWrites := run.lateWrites ++ [late] }
  | _, _ => none

def step : RunLabel Raw → Option (ReplicationRun Raw Value)
  | .start boundary tables executed purged answered =>
    run.start setting boundary tables executed purged answered
  | .read discovered => run.read setting discovered
  | .quiet event => run.quiet setting event
  | .fail => some { run with reading := false }
  | .cancel => run.source.map fun source =>
    { run with source := some { source with finished := true } }
  | .commit markers answered => run.commit setting markers answered
  | .land write =>
    match run.lateWrites[write]? with
    | none => none
    | some late => (run.write late).map Prod.fst
  | .crash => some { run with source := none, reading := false }

end ReplicationRun
end Transferia.MySql
