import Transferia.Delivery.Handoff
import Transferia.MySql.OffsetTracker

/-!
# The MySQL handoff

The record of the delivery carries the exact binlog boundary of the snapshot.
The snapshot sessions belong to connections, so a record in the snapshot phase
is never taken over; a claim is taken over before any side effect.
-/

namespace Transferia.MySql
open Delivery

/-- The fields of the record that the replay depends on. -/
structure SnapshotStreamIdentity where
  replayIdentity : String
  serverId : ℕ
  source : MySqlSourceIdentity
  configuredTables : List (String × String)
  deriving DecidableEq

def isAsciiHexdigit (c : Char) : Bool := c.isDigit || ('a' ≤ c && c ≤ 'f') || ('A' ≤ c && c ≤ 'F')

def validateServerUuid (serverUuid : String) : Except String Unit :=
  ensureText (serverUuid.utf8ByteSize = 36 && serverUuid.toList.zipIdx.all fun (c, index) =>
        if index ∈ [8, 13, 18, 23] then c = '-' else isAsciiHexdigit c)
    "MySQL server_uuid is not a canonical UUID"

def maxIdentifierChars : ℕ := 64

def validateIdentifier (kind value : String) : Except String Unit :=
  ensureText (value ≠ "" && value.toList.length ≤ maxIdentifierChars && '\x00' ∉ value.toList)
    (s!"invalid MySQL {kind} '{value}'; expected a non-empty identifier of at most {maxIdentifierChars} characters without NUL")

def validateNames (names : List (String × String)) : List (String × String) → Except String Unit
  | [] => .ok ()
  | (database, name) :: rest => do
    validateIdentifier "table" name
    ensureText ((database, name) ∉ names) (s!"MySQL batch_and_stream repeats table '{name}'")
    validateNames ((database, name) :: names) rest

def validateClaim (identity : SnapshotStreamIdentity) : Except String Unit := do
  ensureText (identity.serverId ≠ 0) "MySQL replication server_id must be non-zero"
  ensureText (identity.replayIdentity ≠ "")
    "MySQL batch_and_stream replay identity must not be empty"
  ensureText (identity.source.serverUuid ≠ "") "MySQL source identity is incomplete"
  validateServerUuid identity.source.serverUuid
  ensureText (identity.configuredTables ≠ []) "MySQL batch_and_stream requires at least one table"
  validateNames [] identity.configuredTables

/-- The text of a failure, without the position error behind a context. -/
def MySqlFailure.text : MySqlFailure → String
  | .message text => text
  | .table text _ => text
  | .position context _ => context

def boundaryText (result : Except MySqlFailure Unit) : Except String Unit :=
  match result with
  | .ok () => .ok ()
  | .error failure => .error failure.text

/-- The names of a table identity and the check of its engine and columns. -/
structure TableCatalog (Table : Type) where
  (database table : Table → String)
  validateAuthoritativeTable : Table → Except String Unit

variable {Table : Type}

def validateTables (catalog : TableCatalog Table) :
    List (Table × String × String) → Except String Unit
  | [] => .ok ()
  | (actual, database, name) :: rest => do
    ensureText (catalog.database actual = database && catalog.table actual = name)
      (s!"MySQL authoritative schema identity does not match configured table '{database}.{name}'")
    catalog.validateAuthoritativeTable actual
    validateTables catalog rest

def validateAuthoritativeIdentity (catalog : TableCatalog Table)
    (state : PersistedState SnapshotStreamIdentity Table MySqlBinlogBoundary)
    (tables : List Table) : Except String Unit := do
  let found := tables.length
  let expected := state.identity.configuredTables.length
  ensureText (found = expected)
    (s!"MySQL authoritative schema has {found} tables, expected {expected}")
  validateTables catalog (tables.zip state.identity.configuredTables)

/-- The protocol of the connector.  It observes nothing before it claims. -/
def snapshotStream (parser : SidParser) (catalog : TableCatalog Table) :
    HandoffConnector SnapshotStreamIdentity Unit Table Table MySqlBinlogBoundary where
  system := "MySQL"
  stateVersion := 1
  key := "mysql-snapshot-stream"
  validateClaim identity := violation (validateClaim identity)
  validateDurable actual :=
    match actual.state with
    | .claimed => .ok ()
    | .snapshot boundary | .streaming boundary => do
      boundaryText (validateBoundary parser boundary)
      match actual.authoritativeTables with
      | none => throw "authoritative schema is missing"
      | some tables => validateAuthoritativeIdentity catalog actual tables
  checkAbsent _ := .ok ()
  checkRecycle _ := .ok ()
  recycleConflict :=
    "MySQL batch_and_stream durable claim changed while recycling a pre-side-effect bootstrap"
  interrupted _ :=
    "MySQL batch_and_stream snapshot was interrupted after its exact GTID boundary was persisted; connection-owned snapshot sessions cannot survive process loss, so reset the destination snapshot attempt deliberately before retrying"
  authoritativeTables identity boundary tables := do
    boundaryText (validateBoundary parser boundary)
    validateAuthoritativeIdentity catalog identity tables
    return tables

end Transferia.MySql
