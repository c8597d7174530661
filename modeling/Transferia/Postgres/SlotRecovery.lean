import Transferia.Postgres.SnapshotStream
import Transferia.Support.Action

/-!
# Recovery of the replication slot

The position of a delivery is kept twice: as the confirmed LSN of its slot and
in a durable record.  A commit moves the record first and the slot after it; a
preparation reads both and repairs the slot, or refuses.  A process may crash
whenever it waits for an answer, and a compare-exchange in flight may reach the
storage later.  Between two calls anybody may drop, recreate or advance the
slot.
-/

namespace Transferia.Postgres
open Registry Support Support.Action
variable {Table : Type} [DecidableEq Table]

structure ReplicationIdentity (Table : Type) where
  (replayIdentity slot plugin : String)
  publication : Option String
  source : PostgresSourceIdentity
  authoritativeTables : List Table
  deriving DecidableEq

structure ReplicationOffsetState (Table : Type) where
  version : ℕ
  identity : ReplicationIdentity Table
  committedLsn : ℕ

/-- A row of `pg_replication_slots`. -/
structure SlotRow where
  plugin : String
  confirmedFlushLsn : Option ℕ
  database : Option String
  databaseOid : Option ℕ

def SlotRow.lsn (row : SlotRow) : ℕ := row.confirmedFlushLsn.getD 0

structure ExistingSlot where
  plugin : String
  committedLsn : ℕ

structure ReplicationSlotTracker (Table : Type) where
  revision : Option ℕ
  identity : ReplicationIdentity Table

inductive RecreatedSlotRecoveryPlan
  | verifyExact
  | catchUpThenVerifyExact

inductive RecoveryFailure
  | crashed
  | safetyViolation (text : String)
  | other (text : String)

/-- The durable storage, the slot, the writes in flight of crashed processes,
and the number of answers that the running process still gets. -/
structure RecoveryWorld (Table : Type) where
  storage : DurableStorage (ReplicationOffsetState Table)
  slot : Option SlotRow
  late : List (Option ℕ × ReplicationOffsetState Table)
  answers : ℕ

/-- What a call meets: the end of the server's log, the schema of the extension
that recreates slots, the LSN at which it does so, whether the lease is held,
and whether the storage gets a write late that a crash cuts off. -/
structure ServerAnswers where
  insertLsn : ℕ
  auxSchema : Option String
  created : Option ℕ
  (held inFlight : Bool)

abbrev Recovery (Table : Type) := Action (RecoveryWorld Table) RecoveryFailure

def hexUpper (value : ℕ) : String := String.ofList ((Nat.toDigits 16 value).map Char.toUpper)

def formatLsn (value : ℕ) : String := hexUpper (value / 2 ^ 32) ++ "/" ++ hexUpper (value % 2 ^ 32)

def ensureSafe (condition : Bool) (text : String) : Except RecoveryFailure Unit :=
  if condition then .ok () else .error (.safetyViolation text)

def requireSafe {α : Type} (text : String) : Option α → Except RecoveryFailure α
  | some value => .ok value
  | none => .error (.safetyViolation text)

def otherFailure {α : Type} : Except String α → Except RecoveryFailure α
  | .ok value => .ok value
  | .error text => .error (.other text)

def offsetStateVersion : ℕ := 3

def offsetStateKey (slot : String) : String := "postgres-replication-" ++ slot

def decodeState (expected : ReplicationIdentity Table)
    (state : ReplicationOffsetState Table) : Except RecoveryFailure ℕ := do
  ensureSafe (state.version = offsetStateVersion)
    ("unsupported PostgreSQL replication offset state version " ++ toString state.version)
  ensureSafe (state.identity = expected)
    ("PostgreSQL durable replication offset belongs to a different replay-affecting delivery, source, slot, plugin, or authoritative schema (stored slot '"
      ++ state.identity.slot ++ "' with plugin '" ++ state.identity.plugin ++
      "', expected slot '" ++ expected.slot ++ "' with plugin '" ++
      expected.plugin ++ "')")
  return state.committedLsn

def decodePersisted (expected : ReplicationIdentity Table) :
    Option (DurableValue (ReplicationOffsetState Table)) → Except RecoveryFailure (Option ℕ)
  | none => .ok none
  | some value => do
    let lsn ← decodeState expected value.payload
    return some lsn

def checkStart (persistedLsn exactStartLsn : Option ℕ) : Except RecoveryFailure Unit :=
  match persistedLsn, exactStartLsn with
  | some persisted, some start =>
    ensureSafe (start ≤ persisted)
      ("PostgreSQL durable replication offset " ++ formatLsn persisted ++
        " precedes exact snapshot boundary " ++ formatLsn start)
  | _, _ => .ok ()

/-- The process gets the answer to its last request, or crashes. -/
def answered : Recovery Table Unit := do
  let world ← get
  match world.answers with
  | 0 => throw .crashed
  | remaining + 1 => set { world with answers := remaining }

def readState (key : String) : Recovery Table
    (Option (DurableValue (ReplicationOffsetState Table))) := do
  let world ← get
  answered
  return world.storage key

def modifiedByAnother : String :=
  "PostgreSQL durable replication offset was modified by another writer"

variable (answers : ServerAnswers)

/-- A write that a crash cuts off is lost, in flight, or already applied. -/
def store (tracker : ReplicationSlotTracker Table)
    (committedLsn : ℕ) : Recovery Table (ReplicationSlotTracker Table) := do
  let world ← get
  let payload : ReplicationOffsetState Table :=
    { version := offsetStateVersion, identity := tracker.identity, committedLsn }
  if world.answers = 0 && answers.inFlight then do
    set { world with late := world.late ++ [(tracker.revision, payload)] }
    throw .crashed
  else
    match world.storage.compareExchange (offsetStateKey tracker.identity.slot)
        tracker.revision payload with
    | .error reason => throw (.other reason)
    | .ok (.conflict _, _) => do
      answered
      throw (.safetyViolation modifiedByAnother)
    | .ok (.applied value, storage) => do
      set { world with storage }
      answered
      return { tracker with revision := some value.revision }

def debugOption (text : Option String) : String :=
  match text with
  | none => "None"
  | some text => "Some(" ++ text ++ ")"

def validateSlotDatabase (source : PostgresSourceIdentity) (slot : String)
    (row : SlotRow) : Except RecoveryFailure Unit :=
  ensureSafe (row.database = some source.database && row.databaseOid = some source.databaseOid)
    ("PostgreSQL replication slot '" ++ slot ++ "' belongs to database " ++
      debugOption (row.database.map fun name => "\"" ++ name ++ "\"") ++
      " with OID " ++ debugOption (row.databaseOid.map toString) ++
      ", expected exact database '" ++ source.database ++ "' with OID " ++
      toString source.databaseOid)

def existingSlot (slot : String) (source : PostgresSourceIdentity) :
    Recovery Table (Option ExistingSlot) := do
  let world ← get
  answered
  match world.slot with
  | none => return none
  | some row => do
    lift (validateSlotDatabase source slot row)
    return some { plugin := row.plugin, committedLsn := row.lsn }

/-- `pg_replication_slot_advance` stops at the end of the log and refuses to
move backwards. -/
def advanceSlot (slot : String) (committedLsn : ℕ) : Recovery Table Unit := do
  let world ← get
  match world.slot with
  | none => throw (.other ("replication slot \"" ++ slot ++ "\" does not exist"))
  | some row =>
    if min committedLsn answers.insertLsn < row.lsn then
      throw (.other "cannot advance replication slot backwards")
    else do
      set { world with
        slot := some { row with confirmedFlushLsn := some (min committedLsn answers.insertLsn) } }
      answered
      lift (ensureSafe (min committedLsn answers.insertLsn = committedLsn)
        ("PostgreSQL replication slot advance returned slot '" ++ slot ++
          "' at LSN " ++ formatLsn (min committedLsn answers.insertLsn) ++
          ", expected '" ++ slot ++ "' at exact LSN " ++
          formatLsn committedLsn))

def recreateSlot (identity : ReplicationIdentity Table) : Recovery Table ℕ := do
  let world ← get
  match world.slot, answers.created with
  | none, some created => do
    set { world with
      slot := some
        { plugin := identity.plugin
          confirmedFlushLsn := some created, database := some identity.source.database
          databaseOid := some identity.source.databaseOid } }
    answered
    return created
  | _, _ => throw (.other "replication slot cannot be created")

def recreatedSlotRecoveryPlan (createdLsn requestedLsn : ℕ) :
    Except RecoveryFailure RecreatedSlotRecoveryPlan := do
  ensureSafe (createdLsn ≤ requestedLsn)
    ("pg_tm_aux recreated PostgreSQL replication slot at LSN " ++
      formatLsn createdLsn ++ " ahead of durable LSN " ++ formatLsn requestedLsn)
  return if createdLsn < requestedLsn then .catchUpThenVerifyExact
    else .verifyExact

def verifySlotExact (identity : ReplicationIdentity Table)
    (requestedLsn : ℕ) : Recovery Table Unit := do
  let existing ← existingSlot identity.slot identity.source
  let actual ← lift (requireSafe ("PostgreSQL replication slot '" ++ identity.slot ++
      "' disappeared before recovery verification") existing)
  lift (ensureSafe (actual.plugin = identity.plugin && actual.committedLsn = requestedLsn)
    ("PostgreSQL replication slot '" ++ identity.slot ++
      "' recovery verification failed: plugin '" ++ actual.plugin ++
      "' and confirmed LSN " ++ formatLsn actual.committedLsn ++
      ", expected plugin '" ++ identity.plugin ++
      "' and exact durable LSN " ++ formatLsn requestedLsn))

section
variable (identity : ReplicationIdentity Table) (requestedLsn : Option ℕ)

def recoverExisting (existing : ExistingSlot) : Recovery Table ℕ := do
  lift (ensureSafe (existing.plugin = identity.plugin)
    ("PostgreSQL slot '" ++ identity.slot ++ "' uses plugin '" ++
      existing.plugin ++ "', configuration requires '" ++ identity.plugin ++
      "'"))
  let committed ← lift (requireSafe ("PostgreSQL replication slot '" ++ identity.slot ++
      "' already exists, but this delivery has no durable offset or freshly created exact start position; refusing to adopt an unowned slot")
    requestedLsn)
  lift (ensureSafe (existing.committedLsn ≤ committed)
    ("PostgreSQL slot '" ++ identity.slot ++ "' confirmed LSN " ++
      formatLsn existing.committedLsn ++ " is ahead of durable LSN " ++
      formatLsn committed ++ "; refusing to skip uncommitted changes"))
  if existing.committedLsn < committed then do
    advanceSlot answers identity.slot committed
    return committed
  else return committed

def recoverMissing : Recovery Table ℕ := do
  let committed ← lift (requireSafe ("PostgreSQL replication slot '" ++ identity.slot ++
      "' does not exist and no durable committed LSN is available")
    requestedLsn)
  answered
  let _ ← lift (requireSafe ("PostgreSQL replication slot '" ++ identity.slot ++
      "' disappeared and pg_tm_aux is not installed") answers.auxSchema)
  let created ← recreateSlot answers identity
  let plan ← lift (recreatedSlotRecoveryPlan created committed)
  match plan with
  | .verifyExact => do
    verifySlotExact identity committed
    return committed
  | .catchUpThenVerifyExact => do
    advanceSlot answers identity.slot committed
    verifySlotExact identity committed
    return committed

end

/-- The arguments of one preparation. -/
structure Preparation (Table : Type) where
  plugin : String
  publication : Option String
  source : PostgresSourceIdentity
  authoritativeTables : Except String (List Table)
  exactStartLsn : Option ℕ
  replayIdentity : String

def Preparation.identity (preparation : Preparation Table) (deliveryId : String) :
    Except RecoveryFailure (ReplicationIdentity Table) := do
  ensureSafe (preparation.replayIdentity ≠ "")
    "PostgreSQL replication replay identity must not be empty"
  let slot ← otherFailure (replicationSlot deliveryId)
  match preparation.authoritativeTables with
  | .error text => throw (.safetyViolation text)
  | .ok authoritativeTables =>
    return { replayIdentity := preparation.replayIdentity
             slot, plugin := preparation.plugin
             publication := preparation.publication, source := preparation.source
             authoritativeTables }

def recover (identity : ReplicationIdentity Table)
    (requestedLsn : Option ℕ) : Recovery Table ℕ := do
  let existing ← existingSlot identity.slot identity.source
  match existing with
  | some existing => recoverExisting answers identity requestedLsn existing
  | none => recoverMissing answers identity requestedLsn

def storeNew (tracker : ReplicationSlotTracker Table)
    (persistedLsn : Option ℕ) (committedLsn : ℕ) : Recovery Table (ReplicationSlotTracker Table) :=
  if persistedLsn = some committedLsn then pure tracker
  else store answers tracker committedLsn

def prepare (deliveryId : String) (preparation : Preparation Table) (answers : ServerAnswers) :
    Recovery Table (ReplicationSlotTracker Table × ℕ) := do
  let identity ← lift (preparation.identity deliveryId)
  let persisted ← readState (offsetStateKey identity.slot)
  let persistedLsn ← lift (decodePersisted identity persisted)
  lift (checkStart persistedLsn preparation.exactStartLsn)
  let committedLsn ← recover answers identity (persistedLsn.or preparation.exactStartLsn)
  let tracker ← storeNew answers
    { revision := persisted.map DurableValue.revision, identity } persistedLsn
    committedLsn
  return (tracker, committedLsn)

/-- A prepared source. -/
structure PreparedSource (Table : Type) where
  tracker : ReplicationSlotTracker Table
  committedLsn : ℕ

def checkCommit (committedLsn : ℕ) : Option ℕ → Except RecoveryFailure ℕ
  | none => .error (.other "PostgreSQL replication commit has no markers")
  | some lsn =>
    if lsn < committedLsn then
      .error (.other "PostgreSQL replication commit LSN moved backwards")
    else .ok lsn

def slotLeaseLost : String :=
  "PostgreSQL replication execution lease was lost; refusing further reads or acknowledgements"

def commitOffsets (source : PreparedSource Table) (answers : ServerAnswers)
    (markers : List ℕ) : Recovery Table (PreparedSource Table) := do
  let lsn ← lift (checkCommit source.committedLsn markers.max?)
  answered
  lift (ensureSafe answers.held slotLeaseLost)
  let tracker ← store answers source.tracker lsn
  advanceSlot answers tracker.identity.slot lsn
  return { tracker, committedLsn := lsn }

/-- The state of the system.  `acknowledged` are the exact starts and the LSNs
that were handed to a commit, and `foreign` the LSNs at which somebody else, or
the server on its own choice, has put the slot. -/
structure RecoveryRun (Table : Type) where
  world : RecoveryWorld Table
  sources : ℕ → Option (PreparedSource Table)
  (acknowledged foreign : List ℕ)

inductive RecoveryLabel (Table : Type)
  | prepare (process : ℕ) (preparation : Preparation Table) (server : ServerAnswers) (answers : ℕ)
  | commit (process : ℕ) (markers : List ℕ) (server : ServerAnswers) (answers : ℕ)
  | change (slot : Option SlotRow)
  | land (write : ℕ)

namespace RecoveryRun
variable (deliveryId : String)

def initial : RecoveryRun Table where
  world := { storage := fun _ => none, slot := none, late := [], answers := 0 }
  sources := fun _ => none
  acknowledged := []
  foreign := []

/-- A process goes on with what its call returned, and ends when it failed. -/
def finish (run : RecoveryRun Table) (process : ℕ)
    (result : Except RecoveryFailure (PreparedSource Table) ×
      RecoveryWorld Table) : RecoveryRun Table :=
  { run with world := result.2, sources := Function.update run.sources process result.1.toOption }

def prepareAs (preparation : Preparation Table) (server : ServerAnswers) :
    Recovery Table (PreparedSource Table) := do
  let (tracker, committedLsn) ← prepare deliveryId preparation server
  return { tracker, committedLsn }

def step (run : RecoveryRun Table) : RecoveryLabel Table → Option (RecoveryRun Table)
  | .prepare process preparation server answers =>
    some (finish { run with
        acknowledged := run.acknowledged ++ preparation.exactStartLsn.toList
        foreign := run.foreign ++ server.created.toList }
      process (outcome (prepareAs deliveryId preparation server) { run.world with answers }))
  | .commit process markers server answers =>
    (run.sources process).map fun source =>
      finish { run with acknowledged := run.acknowledged ++ markers } process
        (outcome (commitOffsets source server markers) { run.world with answers })
  | .change slot => some
      { run with
        world := { run.world with slot }, foreign := run.foreign ++ (slot.map SlotRow.lsn).toList }
  | .land write =>
    match run.world.late[write]? with
    | none => none
    | some (expectedRevision, payload) =>
      match run.world.storage.compareExchange
          (offsetStateKey payload.identity.slot) expectedRevision payload with
      | .ok (_, storage) => some { run with world := { run.world with storage } }
      | .error _ => none

end RecoveryRun
end Transferia.Postgres
