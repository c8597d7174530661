import Transferia.Delivery.Handoff

/-!
# The PostgreSQL handoff

The record belongs to one replication slot, whose name is the delivery.  The
exported snapshot dies with its process, so a record in the snapshot phase is
never taken over, and a claim is taken over only when its slot is gone.
-/

namespace Transferia.Postgres
open Delivery

structure PostgresSourceIdentity where
  systemIdentifier : ℕ
  database : String
  databaseOid : ℕ
  deriving DecidableEq

structure PersistedTable where
  (schema name : String)
  deriving DecidableEq

/-- The fields of the record that the replay depends on. -/
structure SnapshotStreamIdentity where
  (replayIdentity slot plugin : String)
  publication : Option String
  tables : List PersistedTable
  source : PostgresSourceIdentity
  deriving DecidableEq

def maxIdentifierBytes : ℕ := 63

def invalidSlot : String :=
  "PostgreSQL replication requires a transfer ID containing only lowercase ASCII letters, digits, and underscores, at most 63 bytes; the slot name must equal the transfer ID"

def replicationSlot (deliveryId : String) : Except String String :=
  if deliveryId ≠ "" ∧ deliveryId.utf8ByteSize ≤ maxIdentifierBytes ∧
      deliveryId.toList.all (fun c =>
        ('a' ≤ c && c ≤ 'z') || c.isDigit || c = '_') then
    .ok deliveryId
  else .error invalidSlot

/-- The publication is a part of the decoder; only `pgoutput` has one. -/
def persistedIdentity (publication : Option String)
    (tables : List PersistedTable) (source : PostgresSourceIdentity)
    (replayIdentity slot : String) : SnapshotStreamIdentity where
  replayIdentity := replayIdentity
  slot := slot
  plugin := if publication.isSome then "pgoutput" else "wal2json"
  publication := publication
  tables := tables
  source := source

variable {Discovered Table : Type}

/-- The protocol of the connector.  An observation tells whether the slot
exists, and `fromDiscovered` is the identity of a discovered table. -/
def snapshotStream (deliveryId : String) (fromDiscovered : Discovered → Except String Table) :
    HandoffConnector SnapshotStreamIdentity Bool Discovered Table ℕ where
  system := "PostgreSQL"
  stateVersion := 3
  key := "postgres-snapshot-stream-" ++ deliveryId
  validateClaim identity := do
    if identity.replayIdentity = "" then
      throw (.safetyViolation "PostgreSQL batch_and_stream replay identity must not be empty")
    match replicationSlot deliveryId with
    | .error text => throw (.other text)
    | .ok _ => return ()
  validateDurable _ := .ok ()
  checkAbsent slotExists := ensureText (!slotExists)
      ("PostgreSQL replication slot '" ++ deliveryId ++
        "' already exists without matching batch_and_stream durable ownership; refusing to replace or use it")
  checkRecycle slotExists := ensureText (!slotExists)
      ("PostgreSQL batch_and_stream snapshot bootstrap was interrupted before its exact WAL boundary was persisted and replication slot '"
        ++ deliveryId ++
        "' still exists; remove that exact slot deliberately before retrying")
  recycleConflict :=
    "PostgreSQL batch_and_stream durable state changed while recycling an interrupted slot-free bootstrap"
  interrupted slotExists :=
    "PostgreSQL batch_and_stream snapshot was interrupted before its exact WAL handoff and replication slot '"
      ++ deliveryId ++
      (if slotExists then
        "' still exists; the exported snapshot cannot survive process loss, so reset the destination snapshot attempt and remove that exact slot deliberately before retrying"
      else
        "' is absent; refusing to bootstrap a new snapshot because the destination may contain rows committed from the previous snapshot attempt, so reset that destination attempt deliberately before retrying")
  authoritativeTables _ _ tables := tables.mapM fromDiscovered

end Transferia.Postgres
