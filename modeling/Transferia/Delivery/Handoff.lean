import Transferia.Registry.DurableHistory
import Transferia.Support.Checked
import Transferia.Support.Transition

/-!
# The handoff from a snapshot to a stream

A delivery that copies a snapshot and then follows the changes keeps one durable
record of its phase.  An execution claims the record, stores the exact boundary
of its snapshot, and marks the record as streaming when the snapshot is copied.
`HandoffConnector` holds what differs between PostgreSQL and MySQL.
-/

namespace Transferia.Delivery
open Registry Support

inductive PersistedPhase (Boundary : Type)
  | claimed
  | snapshot (boundary : Boundary)
  | streaming (startBoundary : Boundary)

/-- The durable record.  `identity` are the settings that the replay depends
on. -/
structure PersistedState (Identity Table Boundary : Type) where
  version : ℕ
  identity : Identity
  authoritativeTables : Option (List Table)
  state : PersistedPhase Boundary

inductive HandoffFailure
  | safetyViolation (text : String)
  | other (text : String)

structure SnapshotStreamTracker (Identity Table Boundary : Type) where
  revision : ℕ
  identity : PersistedState Identity Table Boundary

/-- What a connector brings to the protocol.  An `Observation` is what it sees
of the source before it claims, and `Discovered` are the tables as it finds
them in the snapshot. -/
structure HandoffConnector (Identity Observation Discovered Table Boundary : Type) where
  system : String
  stateVersion : ℕ
  key : String
  validateClaim : Identity → Except HandoffFailure Unit
  validateDurable : PersistedState Identity Table Boundary → Except String Unit
  (checkAbsent checkRecycle : Observation → Except String Unit)
  recycleConflict : String
  interrupted : Observation → String
  authoritativeTables : PersistedState Identity Table Boundary → Boundary →
    List Discovered → Except String (List Table)

variable {Identity Observation Discovered Table Boundary : Type}

def ensureText (condition : Bool) (text : String) : Except String Unit :=
  if condition then .ok () else .error text

def violation {α : Type} : Except String α → Except HandoffFailure α
  | .ok value => .ok value
  | .error text => .error (.safetyViolation text)

def PersistedPhase.isClaimed : PersistedPhase Boundary → Bool
  | .claimed => true
  | _ => false

/-- The next step of an execution that has read the record. -/
inductive ClaimDecision (Identity Table Boundary : Type)
  | streaming (tracker : SnapshotStreamTracker Identity Table Boundary) (startBoundary : Boundary)
  | write (expectedRevision : Option ℕ) (conflict : String)

namespace HandoffConnector
variable (connector : HandoffConnector Identity Observation Discovered Table Boundary)

def message (text : String) : String := connector.system ++ " batch_and_stream " ++ text

def persistedState (identity : Identity) : PersistedState Identity Table Boundary where
  version := connector.stateVersion
  identity := identity
  authoritativeTables := none
  state := .claimed

def decodeAndValidate [DecidableEq Identity]
    (actual expected : PersistedState Identity Table Boundary) :
    Except String Unit := do
  ensureText (actual.version = connector.stateVersion)
    ("unsupported " ++ connector.message ("state version " ++ toString actual.version))
  ensureText (actual.state.isClaimed = actual.authoritativeTables.isNone)
    (connector.message "durable state has inconsistent phase and authoritative schema")
  ensureText (actual.identity = expected.identity) (connector.message
      "durable state belongs to different replay-affecting delivery or source settings")
  connector.validateDurable actual

/-- Until its first write `claim_or_resume` depends on what it has read. -/
def claimOrResume [DecidableEq Identity] (identity : Identity) (observation : Observation)
    (current : Option (DurableValue (PersistedState Identity Table Boundary))) :
    Except HandoffFailure (ClaimDecision Identity Table Boundary) := do
  connector.validateClaim identity
  match current with
  | some current =>
    violation (connector.decodeAndValidate current.payload (connector.persistedState identity))
    match current.payload.state with
    | .streaming startBoundary =>
      return .streaming { revision := current.revision, identity := current.payload } startBoundary
    | .claimed =>
      violation (connector.checkRecycle observation)
      return .write (some current.revision) connector.recycleConflict
    | .snapshot _ => throw (.safetyViolation (connector.interrupted observation))
  | none =>
    violation (connector.checkAbsent observation)
    return .write none (connector.message "durable state was claimed by another execution")

def markSnapshotReady (identity : PersistedState Identity Table Boundary)
    (boundary : Boundary) (tables : List Discovered) :
    Except HandoffFailure (PersistedState Identity Table Boundary) := do
  violation (ensureText identity.state.isClaimed (connector.message "state is not claimed"))
  let authoritativeTables ← violation (connector.authoritativeTables identity boundary tables)
  return { identity with
    authoritativeTables := some authoritativeTables, state := .snapshot boundary }

/-- The record that `mark_streaming` stores, with the boundary it returns. -/
def markStreaming (identity : PersistedState Identity Table Boundary) :
    Except HandoffFailure (PersistedState Identity Table Boundary × Boundary) :=
  match identity.state with
  | .snapshot boundary =>
    match identity.authoritativeTables with
    | none => .error (.safetyViolation (connector.message "authoritative schema is missing"))
    | some _ => .ok ({ identity with state := .streaming boundary }, boundary)
  | _ => .error (.safetyViolation (connector.message "snapshot phase is not ready"))

end HandoffConnector

/-- One execution.  It reads the record when it claims, and writes it later. -/
inductive Execution (Identity Table Boundary : Type)
  | idle
  | claiming (identity : Identity) (expectedRevision : Option ℕ) (conflict : String)
  | tracking (tracker : SnapshotStreamTracker Identity Table Boundary)
  | failed (failure : HandoffFailure)
  | crashed

/-- The record, the executions that race over it, the records written so far
with their writers, and the boundaries that executions were told to stream
from. -/
structure HandoffRun (Identity Table Boundary : Type) where
  storage : DurableStorage (PersistedState Identity Table Boundary)
  executions : ℕ → Execution Identity Table Boundary
  written : List (ℕ × PersistedState Identity Table Boundary)
  reported : List (ℕ × Boundary)

inductive HandoffLabel (Identity Observation Discovered Boundary : Type)
  | claim (execution : ℕ) (identity : Identity) (observation : Observation)
  | write (execution : ℕ)
  | markSnapshotReady (execution : ℕ) (boundary : Boundary) (tables : List Discovered)
  | markStreaming (execution : ℕ)
  | crash (execution : ℕ)

namespace HandoffRun
variable (connector : HandoffConnector Identity Observation Discovered Table Boundary)

def initial : HandoffRun Identity Table Boundary where
  storage := fun _ => none
  executions := fun _ => .idle
  written := []
  reported := []

section
variable (run : HandoffRun Identity Table Boundary) (execution : ℕ)

def become (next : Execution Identity Table Boundary) : HandoffRun Identity Table Boundary :=
  { run with executions := Function.update run.executions execution next }

/-- One compare-exchange.  `report` is what the execution returns when it is
applied. -/
def store (expectedRevision : Option ℕ) (payload : PersistedState Identity Table Boundary)
    (conflict : String) (report : Option Boundary) : HandoffRun Identity Table Boundary :=
  match run.storage.compareExchange connector.key expectedRevision payload with
  | .error reason => run.become execution (.failed (.other reason))
  | .ok (.conflict _, _) => run.become execution (.failed (.safetyViolation conflict))
  | .ok (.applied value, storage) =>
    { run.become execution
        (.tracking { revision := value.revision, identity := payload }) with
      storage, written := run.written ++ [(execution, payload)]
      reported := run.reported ++ report.toList.map fun boundary => (execution, boundary) }

end

def step [DecidableEq Identity] (run : HandoffRun Identity Table Boundary) :
    HandoffLabel Identity Observation Discovered Boundary →
      Option (HandoffRun Identity Table Boundary)
  | .claim execution identity observation =>
    match run.executions execution with
    | .idle =>
      match connector.claimOrResume identity observation (run.storage connector.key) with
      | .error failure => some (run.become execution (.failed failure))
      | .ok (.streaming tracker boundary) =>
        some { run.become execution (.tracking tracker) with
          reported := run.reported ++ [(execution, boundary)] }
      | .ok (.write expectedRevision conflict) =>
        some (run.become execution (.claiming identity expectedRevision conflict))
    | _ => none
  | .write execution =>
    match run.executions execution with
    | .claiming identity expectedRevision conflict =>
      some (run.store connector execution expectedRevision
        (connector.persistedState identity) conflict none)
    | _ => none
  | .markSnapshotReady execution boundary tables =>
    match run.executions execution with
    | .tracking tracker =>
      match connector.markSnapshotReady tracker.identity boundary tables with
      | .error failure => some (run.become execution (.failed failure))
      | .ok next =>
        some (run.store connector execution (some tracker.revision) next (connector.message
            "durable phase was modified by another execution") none)
    | _ => none
  | .markStreaming execution =>
    match run.executions execution with
    | .tracking tracker =>
      match connector.markStreaming tracker.identity with
      | .error failure => some (run.become execution (.failed failure))
      | .ok (next, boundary) =>
        some (run.store connector execution (some tracker.revision) next (connector.message
            "durable phase was modified by another execution")
          (some boundary))
    | _ => none
  | .crash execution => some (run.become execution .crashed)

end HandoffRun
end Transferia.Delivery
