import Transferia.Registry.DurableStorage
import Transferia.MySql.Boundary
import Transferia.MySql.Decoder

/-!
# The durable replication offset

One record of the durable storage holds the committed position, the committed
GTID set and the tables that the delivery replicates.  It is created from an
exact boundary and replaced by compare-exchange under the revision that the
tracker knows.
-/

namespace Transferia.MySql
open Registry

structure AuthoritativeColumnIdentity where
  (name columnType : Bytes)
  primaryKeyOrdinal : Option ℕ
  deriving DecidableEq

structure AuthoritativeTableIdentity where
  name : TableName
  engine : Bytes
  columns : List AuthoritativeColumnIdentity
  deriving DecidableEq

structure MySqlSourceIdentity where
  (serverUuid database : String)
  deriving DecidableEq

def replicationOffsetStateKey : String := "mysql-replication-offset"

def stateVersion : ℕ := 2

structure ReplicationOffsetState where
  version : ℕ
  replayIdentity : String
  serverId : ℕ
  source : MySqlSourceIdentity
  authoritativeTables : List AuthoritativeTableIdentity
  initialBoundary : MySqlBinlogBoundary
  committedPosition : MySqlBinlogPosition
  committedGtids : GtidSet
  deriving DecidableEq

structure MySqlReplicationOffsetTracker where
  revision : ℕ
  identity : ReplicationOffsetState

/-- What an execution brings to its preparation. -/
structure ReplayIdentity where
  config : MySqlReplicationConfig
  source : MySqlSourceIdentity
  replayIdentity : String

def innoDb : Bytes := [0x49, 0x6E, 0x6E, 0x6F, 0x44, 0x42]

def ensureTable (condition : Bool) (text : String) (name : Bytes) : Except MySqlFailure Unit :=
  if condition then .ok () else .error (.table text name)

/-- The columns of one table in order, with the names and the primary-key
ordinals seen so far. -/
def validateColumns (table : Bytes) (columnNames : List Bytes) (primaryKeyOrdinals : List ℕ) :
    List AuthoritativeColumnIdentity → Except MySqlFailure Unit
  | [] => ensureTable (primaryKeyOrdinals ≠ [])
      "MySQL authoritative identity for table has no primary key" table
  | column :: rest => do
    ensureTable (column.name ≠ [] && column.columnType ≠ [] && column.name ∉ columnNames)
      "MySQL authoritative identity for table has an incomplete or duplicate column"
      table
    ensureTable (column.primaryKeyOrdinal.all fun ordinal =>
        0 < ordinal && ordinal ∉ primaryKeyOrdinals)
      "MySQL authoritative identity for table has an invalid primary-key ordinal"
      table
    validateColumns table (column.name :: columnNames)
      (column.primaryKeyOrdinal.toList ++ primaryKeyOrdinals) rest

def validateTablesFrom (tableNames : List TableName) :
    List AuthoritativeTableIdentity → Except MySqlFailure Unit
  | [] => .ok ()
  | table :: rest => do
    ensure (table.name.database ≠ [] && table.name.table ≠ [] &&
        eqIgnoreAsciiCase table.engine innoDb && table.columns ≠ [])
      "MySQL authoritative table identity is incomplete"
    ensureTable (table.name ∉ tableNames)
      "MySQL authoritative table identity repeats table" table.name.table
    validateColumns table.name.table [] [] table.columns
    validateTablesFrom (table.name :: tableNames) rest

def validateTableIdentities (tables : List AuthoritativeTableIdentity) :
    Except MySqlFailure Unit := do
  ensure (tables ≠ []) "MySQL replication requires at least one authoritative table"
  validateTablesFrom [] tables

def positionOrFail {α : Type} : Except PositionError α → Except MySqlFailure α
  | .ok value => .ok value
  | .error error => .error (.position "" error)

variable (parser : SidParser)

def boundaryPosition (boundary : MySqlBinlogBoundary) :
    Except MySqlFailure MySqlBinlogPosition := do
  let _ ← parseGtidSet parser "" boundary.gtidExecuted
  ensure (0 ≤ boundary.sourceTimestampMicros)
    "MySQL exact replication boundary timestamp precedes the Unix epoch"
  positionOrFail (MySqlBinlogPosition.new boundary.filename boundary.position)

section
variable (identity : ReplayIdentity) (tables : List AuthoritativeTableIdentity)
  (exactStartBoundary : Option MySqlBinlogBoundary)

def validateIdentity : Except MySqlFailure Unit := do
  ensure (0 < identity.config.maxEvents) "mysql.replication.max_events must be positive"
  ensure (identity.replayIdentity ≠ "") "MySQL replication replay identity must not be empty"
  ensure (identity.source.serverUuid ≠ "") "MySQL replication source identity is incomplete"
  validateTableIdentities tables
  match exactStartBoundary with
  | none => return ()
  | some boundary => do
    let _ ← boundaryPosition parser boundary
    return ()

def decodeAndValidate (state : ReplicationOffsetState) : Except MySqlFailure Unit := do
  ensure (state.version = stateVersion) "unsupported MySQL replication offset state version"
  ensure (state.replayIdentity = identity.replayIdentity &&
      state.serverId = identity.config.serverId &&
      state.source = identity.source && state.authoritativeTables = tables)
    "MySQL durable replication offset belongs to a different replay identity, source, server_id, or authoritative table schema"
  ensure (exactStartBoundary.all (state.initialBoundary = ·))
    "MySQL durable replication offset belongs to a different exact stream start boundary"
  let _ ← boundaryPosition parser state.initialBoundary
  positionOrFail state.committedPosition.validate
  positionOrFail (GtidSet.validate parser state.committedGtids)
  let initialGtids ← parseGtidSet parser "" state.initialBoundary.gtidExecuted
  ensure (initialGtids.isSubsetOf state.committedGtids)
    "MySQL durable committed GTID set does not contain its exact initial boundary"

end

def historyReset : String :=
  "the current MySQL executed GTID set does not contain every durably committed transaction; refusing a reset or reused binlog history"

def historyPurged : String :=
  "MySQL purged one or more transactions that this delivery has not durably committed"

/-- Nothing that the server has removed from its log is still to be read. -/
def checkPurged (committedGtids currentPurgedGtids : GtidSet) : Except MySqlFailure Unit :=
  ensure (currentPurgedGtids.isSubsetOf committedGtids) historyPurged

def validateGtidContinuity (committedGtids currentExecutedGtids currentPurgedGtids : GtidSet) :
    Except MySqlFailure Unit := do
  positionOrFail (GtidSet.validate parser committedGtids)
  positionOrFail (GtidSet.validate parser currentExecutedGtids)
  positionOrFail (GtidSet.validate parser currentPurgedGtids)
  ensure (committedGtids.isSubsetOf currentExecutedGtids) historyReset
  checkPurged committedGtids currentPurgedGtids

section
variable (identity : ReplayIdentity) (tables : List AuthoritativeTableIdentity)
  (exactStartBoundary : Option MySqlBinlogBoundary)
  (currentExecutedGtids currentPurgedGtids : GtidSet)

def initialState : Except MySqlFailure ReplicationOffsetState := do
  match exactStartBoundary with
  | none =>
    throw (.message
      "MySQL replication has no durable offset and no freshly captured exact start boundary; refusing to adopt a server position")
  | some boundary =>
    let committedPosition ← boundaryPosition parser boundary
    let committedGtids ← parseGtidSet parser "" boundary.gtidExecuted
    validateGtidContinuity parser committedGtids currentExecutedGtids currentPurgedGtids
    return { version := stateVersion
             replayIdentity := identity.replayIdentity, serverId := identity.config.serverId
             source := identity.source, authoritativeTables := tables, initialBoundary := boundary
             committedPosition, committedGtids }

def resume (current : DurableValue ReplicationOffsetState) : Except MySqlFailure
    MySqlReplicationOffsetTracker := do
  decodeAndValidate parser identity tables exactStartBoundary current.payload
  validateGtidContinuity parser current.payload.committedGtids
    currentExecutedGtids currentPurgedGtids
  return { revision := current.revision, identity := current.payload }

end

def admitTables (tables : List AuthoritativeTableIdentity) : List AuthoritativeTableIdentity →
      Except MySqlFailure (List AuthoritativeTableIdentity)
  | [] => .ok tables
  | table :: rest => do
    ensure (tables.all (·.name ≠ table.name))
      "MySQL dataset admission repeats an already committed table"
    admitTables (tables ++ [table]) rest

/-- The record that a commit writes; `none` when it would change nothing. -/
def MySqlReplicationOffsetTracker.storeAdmission (self : MySqlReplicationOffsetTracker)
    (committedPosition : MySqlBinlogPosition) (committedGtids : GtidSet)
    (added : List AuthoritativeTableIdentity) :
    Except MySqlFailure (Option ReplicationOffsetState) := do
  positionOrFail committedPosition.validate
  positionOrFail (GtidSet.validate parser committedGtids)
  ensure (self.identity.committedGtids.isSubsetOf committedGtids)
    "MySQL committed GTID state moved backwards"
  if committedPosition = self.identity.committedPosition ∧
      committedGtids = self.identity.committedGtids ∧ added = [] then
    return none
  else
    let authoritativeTables ← admitTables self.identity.authoritativeTables added
    if added ≠ [] then validateTableIdentities authoritativeTables
    else pure ()
    return some { self.identity with committedPosition, committedGtids, authoritativeTables }

end Transferia.MySql
