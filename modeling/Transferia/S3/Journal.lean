import Transferia.Registry.DurableStorage
import Transferia.Support.Transition

/-!
# The epoch journal of the S3 sink

Before an epoch is uploaded its manifest is written under a key made of the
object keys, and the record is closed once every object is durable.  Any number
of sinks may work on one manifest key.  Other calls may come between the read
and the compare-exchange of a call, the storage may fail, and the caller may
stop at any point.  The digest and the encoding of records are parameters.
-/

namespace Transferia.S3
open Support Registry

def journalVersion : ℕ := 1

structure ManifestObject where
  (key payloadSha256 : String)
  payloadBytes : ℕ
  deriving DecidableEq

inductive EpochState where
  | opened
  | closed

structure EpochRecord where
  version : ℕ
  state : EpochState
  objects : List ManifestObject

inductive OpenDisposition where
  | upload
  | alreadyClosed

structure ClosedObject where
  epochId : ℕ
  key : String
  payload : List UInt8
  rows : ℕ

/-- An encoding of records that reads back what it wrote. -/
structure RecordCodec (Bytes : Type*) where
  toVec : EpochRecord → Bytes
  fromSlice : Bytes → Except String EpochRecord
  fromSlice_toVec : ∀ record, fromSlice (toVec record) = .ok record

/-- A journal starts from an open record of the current version. -/
structure EpochJournal where
  key : String
  openRecord : EpochRecord
  version_eq : openRecord.version = journalVersion
  state_eq : openRecord.state = .opened

variable {Bytes : Type*} (codec : RecordCodec Bytes) (hexDigest : List UInt8 → String)

def manifestObject (object : ClosedObject) : ManifestObject where
  key := object.key
  payloadSha256 := hexDigest object.payload
  payloadBytes := object.payload.length

def manifestIdentity (objects : List ManifestObject) : List UInt8 :=
  objects.flatMap (·.key.toUTF8.toList ++ [0])

namespace EpochJournal

def new (partitionId : ℤ) (objects : List ClosedObject) : EpochJournal where
  key :=
    "s3/partition-" ++ toString partitionId ++ "/epoch-" ++
      hexDigest (manifestIdentity (objects.map (manifestObject hexDigest)))
  openRecord :=
    { version := journalVersion
      state := .opened, objects := objects.map (manifestObject hexDigest) }
  version_eq := rfl
  state_eq := rfl

def objects (journal : EpochJournal) : List ManifestObject := journal.openRecord.objects

variable (journal : EpochJournal)

def openBytes : Bytes := codec.toVec journal.openRecord

def closedBytes : Bytes := codec.toVec { journal.openRecord with state := .closed }

def invalidRecord (key reason : String) : String :=
  "invalid S3 durable epoch record '" ++ key ++ "': " ++ reason

def mismatchedRecord (key : String) : String := "S3 durable epoch record '" ++ key ++
    "' does not match replayed object keys and payloads"

def decodeAndValidate (payload : Bytes) : Except String EpochRecord :=
  match codec.fromSlice payload with
  | .error reason => .error (invalidRecord journal.key reason)
  | .ok record =>
    if record.version ≠ journalVersion ∨ record.objects ≠ journal.openRecord.objects then
      .error (mismatchedRecord journal.key)
    else .ok record

variable {codec}

theorem decodeAndValidate_toVec {journal : EpochJournal} {stored record : EpochRecord}
    (h : journal.decodeAndValidate codec (codec.toVec stored) = .ok record) :
    record = stored ∧ stored.objects = journal.objects := by
  simp only [decodeAndValidate, codec.fromSlice_toVec] at h
  split at h
  · cases h
  cases h
  exact ⟨rfl, not_not.mp (not_or.mp ‹_›).2⟩

end EpochJournal

inductive Operation where
  | ensureOpen
  | markClosed

inductive Outcome where
  | opened (disposition : OpenDisposition)
  | closed
  | failed (reason : String)

/-- Where a call stands, with the number of rounds it has after this one. -/
inductive Point (Bytes : Type*) where
  | reading (rounds : ℕ)
  | swapping (rounds : ℕ) (expectedRevision : Option ℕ)
  | swapped (rounds : ℕ) (result : CompareExchangeResult Bytes)
  | returned (outcome : Outcome)
  | crashed

structure Actor (Bytes : Type*) where
  journal : EpochJournal
  operation : Operation
  point : Point Bytes

inductive Choice where
  | proceed
  | fail (reason : String)
  | crash

namespace Actor
variable (actor : Actor Bytes)

def disappeared (key : String) : String :=
  "S3 durable epoch '" ++ key ++ "' disappeared before close"

def changedRepeatedly (operation : Operation) (key : String) : String :=
  "S3 durable epoch state changed repeatedly while " ++ (match operation with
      | .ensureOpen => "opening"
      | .markClosed => "closing") ++ " '" ++ key ++ "'"

def nextRound : ℕ → Point Bytes
  | 0 => .returned (.failed (changedRepeatedly actor.operation actor.journal.key))
  | rounds + 1 => .reading rounds

def afterRead (rounds : ℕ) : Option (DurableValue Bytes) → Point Bytes
  | none =>
    match actor.operation with
    | .ensureOpen => .swapping rounds none
    | .markClosed => .returned (.failed (disappeared actor.journal.key))
  | some current =>
    match actor.journal.decodeAndValidate codec current.payload with
    | .error reason => .returned (.failed reason)
    | .ok record =>
      match actor.operation, record.state with
      | .ensureOpen, .opened => .returned (.opened .upload)
      | .ensureOpen, .closed => .returned (.opened .alreadyClosed)
      | .markClosed, .closed => .returned .closed
      | .markClosed, .opened => .swapping rounds (some current.revision)

def payload : Bytes :=
  match actor.operation with
  | .ensureOpen => actor.journal.openBytes codec
  | .markClosed => actor.journal.closedBytes codec

def success : Outcome :=
  match actor.operation with
  | .ensureOpen => .opened .upload
  | .markClosed => .closed

def afterSwap (rounds : ℕ) : CompareExchangeResult Bytes → Point Bytes
  | .applied _ => .returned actor.success
  | .conflict _ => actor.nextRound rounds

/-- One step of a call: its next point and the storage it leaves.  A failed
swap may have taken effect, since its answer may be lost on the way back. -/
def step (storage : DurableStorage Bytes) : Choice → Option (Point Bytes × DurableStorage Bytes)
  | .proceed =>
    match actor.point with
    | .reading rounds => some (actor.afterRead codec rounds (storage actor.journal.key), storage)
    | .swapping rounds expected =>
      match storage.compareExchange actor.journal.key expected (actor.payload codec) with
      | .error reason => some (.returned (.failed reason), storage)
      | .ok (result, storage) => some (.swapped rounds result, storage)
    | .swapped rounds result => some (actor.afterSwap rounds result, storage)
    | .returned _ => none
    | .crashed => none
  | .fail reason =>
    match actor.point with
    | .returned _ => none
    | .crashed => none
    | _ => some (.returned (.failed reason), storage)
  | .crash =>
    match actor.point with
    | .returned _ => none
    | .crashed => none
    | _ => some (.crashed, storage)

end Actor

/-- What happened so far: the swaps the storage applied and the results the
callers received. -/
inductive JournalEvent where
  | applied (journal : EpochJournal) (operation : Operation)
  | returned (journal : EpochJournal) (outcome : Outcome)

structure JournalState (Bytes : Type*) where
  storage : DurableStorage Bytes
  actors : List (Actor Bytes)
  log : List JournalEvent

inductive JournalLabel where
  | call (partitionId : ℤ) (objects : List ClosedObject) (operation : Operation)
  | move (index : ℕ) (choice : Choice)

namespace JournalState

def init (storage : DurableStorage Bytes) : JournalState Bytes :=
  { storage, actors := [], log := [] }

def events (actor : Actor Bytes) : Point Bytes → List JournalEvent
  | .swapped _ (.applied _) => [.applied actor.journal actor.operation]
  | .returned outcome => [.returned actor.journal outcome]
  | _ => []

def step (state : JournalState Bytes) : JournalLabel → Option (JournalState Bytes)
  | .call partitionId objects operation =>
    some
      { state with
        actors := state.actors ++
          [{ journal := EpochJournal.new hexDigest partitionId objects
             operation, point := .reading 2 }] }
  | .move index choice =>
    match state.actors[index]? with
    | none => none
    | some actor =>
      (actor.step codec state.storage choice).map fun (point, storage) =>
        { storage
          actors := state.actors.set index { actor with point }
          log := state.log ++ events actor point }

end JournalState
end Transferia.S3
