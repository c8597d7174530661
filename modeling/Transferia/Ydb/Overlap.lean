import Transferia.Changelog.Collapse
import Transferia.Registry.DurableStorage
import Transferia.Support.VersionedTable
import Transferia.Ydb.TopicSession

/-!
# Snapshot and changefeed that overlap

A delivery of both captures the end offset of every changefeed, makes these
offsets durable, and only then copies the tables.  The stream starts every
changefeed at its captured offset, or at the committed one when that is larger.
Rows of the copy have version zero and a change has its offset plus one; the
destination keeps for each key the image with the highest version.  The label of
a step carries what the server answers.  Rows and changes that are read wait in
`queue` until the sink writes them, in any order.
-/

namespace Transferia.Ydb
open Transferia.Core Support Registry
open Changelog (ChangeOperation)
open Logbroker (Checked ensure okOr fatal OffsetsRange)

/-! ## Changes -/

inductive CdcValue (V : Type)
  | absent
  | null
  | present (value : V)
  deriving DecidableEq

namespace CdcValue
variable {V : Type}

def rank : CdcValue V → WithBot (WithBot V)
  | .absent => ⊥
  | .null => ((⊥ : WithBot V) : WithBot (WithBot V))
  | .present value => ((value : WithBot V) : WithBot (WithBot V))

theorem rank_injective : Function.Injective (rank (V := V)) := by
  intro first second h
  cases first <;> cases second <;> simp_all [rank]

instance [LinearOrder V] : LinearOrder (CdcValue V) := LinearOrder.lift' rank rank_injective

end CdcValue

abbrev Row (V : Type) := List (CdcValue V)

structure DecodedYdbCdcEvent (V : Type) where
  operation : ChangeOperation
  current : Row V
  changedColumns : List UInt8

def DecodedYdbCdcEvent.fullImage {V : Type} [DecidableEq V] (event : DecodedYdbCdcEvent V) : Bool :=
  event.operation = .delete || event.current.all (· ≠ .absent)

def cdcRowVersion (offset : ℤ) (overlap : Bool) : Checked ℕ := do
  ensure (0 ≤ offset) (fatal "out of range integral type conversion attempted")
  return offset.toNat + overlap.toNat

def reconcileOverlap {V : Type} [DecidableEq V] (event : DecodedYdbCdcEvent V) : Checked Unit :=
  if event.operation = .update then
    ensure (event.current.zipIdx.all fun column =>
        column.1 ≠ .absent && (event.changedColumns[column.2 / 8]?).any
          (·.toNat.testBit (column.2 % 8)))
      (fatal "YDB overlap upsert requires a complete current row and changed-column mask")
  else .ok ()

/-! ## Tables -/

structure OverlapTable where
  path : String
  topic : String
  partitionId : ℤ
  primaryKeyIndexes : List ℕ

def OverlapTable.key {V : Type} (table : OverlapTable) (row : Row V) : Row V :=
  table.primaryKeyIndexes.map (row.getD · .absent)

def DecodedYdbCdcEvent.image {V : Type} (event : DecodedYdbCdcEvent V) : Option (Row V) :=
  if event.operation = .delete then none else some event.current

def OverlapTable.applyEvent {V : Type} [LinearOrder V] (table : OverlapTable)
    (rows : OrderedMap (Row V) (Row V)) (event : DecodedYdbCdcEvent V) :
    OrderedMap (Row V) (Row V) :=
  match event.image with
  | none => rows.retain (· ≠ table.key event.current)
  | some row => rows.insert (table.key event.current) row

def OverlapTable.contents {V : Type} [LinearOrder V] (table : OverlapTable)
    (events : List (DecodedYdbCdcEvent V)) : OrderedMap (Row V) (Row V) :=
  events.foldl table.applyEvent .empty

/-! ## The durable state -/

def stateKey : String := "ydb-overlap"

def recovery : String :=
  "YDB overlapping snapshot was interrupted or its completion is uncertain; automatic restart is unsafe. Use a new delivery with a clean destination and a dedicated CDC consumer. No destination data has been automatically deleted."

structure OverlapState where
  version : ℕ
  deliveryId : String
  replayIdentity : String
  startOffsets : OrderedMap String ℤ
  streaming : Bool

structure OverlapConfig where
  deliveryId : String
  replayIdentity : String
  tables : List OverlapTable
  /-- The tables have different paths, and a changefeed belongs to one table. -/
  nodup : (tables.map OverlapTable.topic).Nodup
  session : SessionConfig

variable (config : OverlapConfig)

def OverlapConfig.topics : List (String × ℤ) :=
  config.tables.map fun table => (table.topic, table.partitionId)

variable (state : OverlapState)

def validateState (deliveryId replayIdentity : String) (topics : List String) : Checked Unit := do
  ensure (state.version = 1 ∧ state.deliveryId = deliveryId ∧ state.replayIdentity = replayIdentity)
    (fatal "YDB overlap durable state belongs to another delivery or replay identity")
  ensure (state.startOffsets.entries.length = topics.length ∧ topics.all fun topic =>
        (state.startOffsets.find? topic).any (0 ≤ ·))
    (fatal "YDB overlap durable offsets do not match the source topics")

def requireStreaming : Checked Unit :=
  ensure state.streaming (fatal recovery)

def streamingState (finished : Bool) : Checked OverlapState := do
  ensure finished (fatal "YDB snapshot has not finished")
  return { state with streaming := true }

def decodeResume (state : OverlapState) : Checked OverlapState := do
  validateState state config.deliveryId config.replayIdentity (config.topics.map Prod.fst)
  requireStreaming state
  return state

/-! ## The execution -/

structure OverlapExecution where
  startOffsets : OrderedMap String ℤ
  snapshotFinished : Bool
  snapshotClaimed : Bool
  stored : DurableValue OverlapState

def OverlapExecution.ofStored (stored : DurableValue OverlapState) : OverlapExecution where
  startOffsets := stored.payload.startOffsets
  snapshotFinished := stored.payload.streaming
  snapshotClaimed := stored.payload.streaming
  stored := stored

structure PartitionInfo where
  partitionId : ℤ
  active : Bool
  parentPartitionIds : List ℤ
  childPartitionIds : List ℤ
  partitionOffsets : Option OffsetsRange

/-- The end offset of a changefeed, from the description of its topic. -/
def captureOffset (partition : ℤ) (partitions : List PartitionInfo) : Checked ℤ := do
  ensure (partitions.length = 1) (fatal "YDB overlap topic partition count changed")
  let info ← okOr partitions.head? (fatal "YDB omitted overlap partition")
  ensure (info.partitionId = partition ∧ info.active ∧
      info.parentPartitionIds = [] ∧ info.childPartitionIds = [])
    (fatal "YDB overlap partition identity changed")
  let range ← okOr info.partitionOffsets (fatal "YDB omitted overlap offset range")
  ensure (0 ≤ range.start ∧ range.start ≤ range.stop) (fatal "YDB invalid overlap offset range")
  return range.stop

/-- The captured offsets are made durable before anything is read. -/
def persistOffsets (offsets : OrderedMap String ℤ) (storage : DurableStorage OverlapState) :
    Checked (DurableValue OverlapState × DurableStorage OverlapState) := do
  let state : OverlapState :=
    { version := 1
      deliveryId := config.deliveryId, replayIdentity := config.replayIdentity
      startOffsets := offsets, streaming := false }
  match ← (storage.compareExchange stateKey none state).mapError fatal with
  | (.applied value, storage) => return (value, storage)
  | (.conflict _, _) => throw (fatal recovery)

def checkFence (fenceLost : Bool) : Checked Unit :=
  ensure (!fenceLost) (fatal "YDB overlap execution fence lost")

def claimSnapshot (execution : OverlapExecution) (fenceLost : Bool) : Checked OverlapExecution := do
  ensure (!execution.snapshotClaimed) (fatal recovery)
  checkFence fenceLost
  return { execution with snapshotClaimed := true }

def completeSnapshot (execution : OverlapExecution) (fenceLost : Bool)
    (storage : DurableStorage OverlapState) :
    Checked (OverlapExecution × DurableStorage OverlapState) := do
  checkFence fenceLost
  if execution.stored.payload.streaming then return (execution, storage)
  else
    let next ← streamingState execution.stored.payload execution.snapshotFinished
    match ← (storage.compareExchange stateKey
        (some execution.stored.revision) next).mapError fatal with
    | (.applied value, storage) => return ({ execution with stored := value }, storage)
    | (.conflict _, _) => throw (fatal "YDB overlap phase changed unexpectedly")

/-! ## The snapshot -/

structure OverlapSnapshot (V : Type) where
  tableIndex : ℕ
  reader : Option (List (Row V))
  previousKey : Option (Row V)

/-- The keys of a batch follow one another, and the last key before it. -/
def validateSnapshotKeys {V : Type} [LinearOrder V] (table : OverlapTable)
    (rows : List (Row V)) (previous : Option (Row V)) :
    Checked (Option (Row V)) := do
  ensure (table.primaryKeyIndexes ≠ []) (fatal "YDB overlap snapshot requires a primary key")
  ensure (rows.all fun row => (table.key row).all (· ≠ .null))
    (fatal "YDB overlap snapshot has a null primary key")
  let keys := rows.map table.key
  ensure (((previous.toList ++ keys).zip (previous.toList ++ keys).tail).all
      fun pair => pair.1 < pair.2)
    (fatal ("YDB snapshot contains a duplicate or out-of-order primary key in table '"
      ++ table.path ++ "'"))
  return keys.getLast?.or previous

/-- A row on its way to the destination. -/
structure OverlapWrite (V : Type) where
  topic : String
  key : Row V
  version : ℕ
  image : Option (Row V)

def materializeSnapshot {V : Type} (table : OverlapTable)
    (rows : List (Row V)) : List (OverlapWrite V) :=
  rows.map fun row =>
    { topic := table.topic, key := table.key row, version := 0, image := some row }

/-! ## Runs -/

/-- What a process does after its preparation. -/
inductive OverlapActivity (V : Type)
  | idle
  | snapshot (snapshot : OverlapSnapshot V)
  | stream (startOffsets : OrderedMap String ℤ) (positions : String → Option ℤ)

inductive OverlapProcess (V : Type)
  | preparing (captured : OrderedMap String ℤ) (remaining : List (String × ℤ))
  | running (execution : OverlapExecution) (activity : OverlapActivity V) (fenceLost : Bool)

structure OverlapRun (V : Type) where
  /-- The changefeeds, and the tables they belong to. -/
  logs : String → List (DecodedYdbCdcEvent V)
  /-- The offsets that the server has committed for the consumer. -/
  committed : String → ℤ
  storage : DurableStorage OverlapState
  process : Option (OverlapProcess V)
  /-- What the process has read and the sink has not written. -/
  queue : List (OverlapWrite V)
  destination : String → VersionedTable (Row V) (Row V)

inductive OverlapLabel (V : Type)
  | change (topic : String) (event : DecodedYdbCdcEvent V)
  | start
  | capture (partitions : List PartitionInfo)
  | persist
  | loseFence
  | crash
  | abandon
  | claimSnapshot
  | readSnapshot (point count : ℕ)
  | write (place : ℕ)
  | completeSnapshot (fenceLostAfter : Bool)
  | buildStream
  | startSession (topic : String) (retainedStart : ℤ)
  | readRecord (topic : String)
  | commit (topic : String) (offset : ℤ)

namespace OverlapRun
variable {V : Type} [LinearOrder V]

def initial (logs : String → List (DecodedYdbCdcEvent V))
    (committed : String → ℤ) : OverlapRun V where
  logs
  committed
  storage := fun _ => none
  process := none
  queue := []
  destination := fun _ _ => none

variable (run : OverlapRun V)

def stop : OverlapRun V :=
  { run with process := none, queue := [] }

def change (topic : String) (event : DecodedYdbCdcEvent V) : Option (OverlapRun V) :=
  if event.fullImage then some
    { run with logs := Function.update run.logs topic (run.logs topic ++ [event]) }
  else none

def start (config : OverlapConfig) (run : OverlapRun V) : Option (OverlapRun V) :=
  match run.process with
  | some _ => none
  | none =>
    match run.storage stateKey with
    | none => some { run with process := some (.preparing .empty config.topics) }
    | some stored =>
      match decodeResume config stored.payload with
      | .error _ => some run
      | .ok _ => some { run with process := some (.running (.ofStored stored) .idle false) }

def capture (partitions : List PartitionInfo) : Option (OverlapRun V) :=
  match run.process with
  | some (.preparing captured ((topic, partition) :: remaining)) =>
    if partitions.all fun info => info.partitionOffsets.all fun range =>
        range.stop = ((run.logs topic).length : ℤ) then
      match captureOffset partition partitions with
      | .error _ => some run.stop
      | .ok offset => some
          { run with process := some (.preparing (captured.insert topic offset) remaining) }
    else none
  | _ => none

def persist (config : OverlapConfig) (run : OverlapRun V) : Option (OverlapRun V) :=
  match run.process with
  | some (.preparing captured []) =>
    match persistOffsets config captured run.storage with
    | .error _ => some run.stop
    | .ok (stored, storage) => some
        { run with storage, process := some (.running (.ofStored stored) .idle false) }
  | _ => none

def loseFence : Option (OverlapRun V) :=
  match run.process with
  | some (.running execution activity _) => some
      { run with process := some (.running execution activity true) }
  | _ => none

def abandon : Option (OverlapRun V) :=
  match run.process with
  | some (.running execution _ fenceLost) => some
      { run with process := some (.running execution .idle fenceLost), queue := [] }
  | _ => none

def beginSnapshot : Option (OverlapRun V) :=
  match run.process with
  | some (.running execution .idle fenceLost) =>
    match Ydb.claimSnapshot execution fenceLost with
    | .error _ => some run.stop
    | .ok execution => some
        { run with
          process := some (.running execution
            (.snapshot { tableIndex := 0, reader := none, previousKey := none })
            fenceLost) }
  | _ => none

/-- One round of the loop in `OverlapSnapshot::next`.  A reader that is opened
sees the table at `point`; a read returns at most `count` rows. -/
def readSnapshot (config : OverlapConfig) (run : OverlapRun V)
    (point count : ℕ) : Option (OverlapRun V) :=
  match run.process with
  | some (.running execution (.snapshot snapshot) fenceLost) =>
    if fenceLost then some run.stop
    else
      match config.tables[snapshot.tableIndex]? with
      | none => some
          { run with
            process := some (.running { execution with snapshotFinished := true }
              (.snapshot snapshot) fenceLost) }
      | some table =>
        match snapshot.reader with
        | none =>
          if (execution.startOffsets.find? table.topic).any (· ≤ (point : ℤ)) ∧
              point ≤ (run.logs table.topic).length then
            let rows := (table.contents ((run.logs table.topic).take point)).entries.map Prod.snd
            some
              { run with
                process := some (.running execution
                  (.snapshot { snapshot with reader := some rows })
                  fenceLost) }
          else none
        | some [] => some
            { run with
              process := some (.running execution
                (.snapshot
                  { tableIndex := snapshot.tableIndex + 1
                    reader := none, previousKey := none }) fenceLost) }
        | some (row :: rest) =>
          let rows := row :: rest.take count
          match validateSnapshotKeys table rows snapshot.previousKey with
          | .error _ => some run.stop
          | .ok previousKey => some
              { run with
                process := some (.running execution (.snapshot
                    { snapshot with reader := some (rest.drop count), previousKey }) fenceLost)
                queue := run.queue ++ materializeSnapshot table rows }
  | _ => none

def write (place : ℕ) : Option (OverlapRun V) :=
  match run.queue[place]? with
  | none => none
  | some row => some
      { run with
        queue := run.queue.eraseIdx place, destination := Function.update run.destination row.topic
          (put (run.destination row.topic) row.key row.version row.image) }

/-- The phase is completed once the source has finished and everything it read
is written. -/
def finishSnapshot (fenceLostAfter : Bool) : Option (OverlapRun V) :=
  match run.process with
  | some (.running execution (.snapshot _) fenceLost) =>
    if execution.snapshotFinished ∧ run.queue.isEmpty then
      match Ydb.completeSnapshot execution fenceLost run.storage with
      | .error _ => some run.stop
      | .ok (execution, storage) =>
        if fenceLostAfter then some (stop { run with storage })
        else some { run with storage, process := some (.running execution .idle fenceLost) }
    else none
  | _ => none

def openStream (config : OverlapConfig) (execution : OverlapExecution)
    (fenceLost : Bool) : Checked (OrderedMap String ℤ) := do
  ensure execution.stored.payload.streaming
    (fatal "YDB snapshot has not crossed the durable commit barrier")
  ensure (!fenceLost)
    (fatal "YDB replication global Coordination fence was lost before source construction")
  let session ← connect
    { config.session with topics := config.topics, startOffsets := execution.startOffsets }
  return session.startOffsets

def buildStream (config : OverlapConfig) (run : OverlapRun V) : Option (OverlapRun V) :=
  match run.process with
  | some (.running execution .idle fenceLost) =>
    match openStream config execution fenceLost with
    | .error _ => some run.stop
    | .ok startOffsets => some
        { run with
          process := some (.running execution (.stream startOffsets fun _ => none) fenceLost) }
  | _ => none

def readPosition (table : OverlapTable) (committed : ℤ) (start : Option ℤ)
    (retained : OffsetsRange) : Checked ℤ := do
  let offset ← startingOffset committed start retained
  validateRetainedOffset offset retained table.topic table.partitionId
  return max offset retained.start

def startSession (config : OverlapConfig) (run : OverlapRun V) (topic : String)
    (retainedStart : ℤ) : Option (OverlapRun V) :=
  match run.process with
  | some (.running execution (.stream startOffsets positions) fenceLost) =>
    match config.tables.find? (·.topic = topic) with
    | none => none
    | some table =>
      match readPosition table (run.committed topic) (startOffsets.find? (canonicalTopicPath topic))
          { start := retainedStart, stop := (run.logs topic).length } with
      | .error _ => some run.stop
      | .ok offset => some
          { run with
            process := some (.running execution (.stream startOffsets
                (Function.update positions topic (some offset)))
              fenceLost) }
  | _ => none

def decodeRecord (table : OverlapTable) (offset : ℤ) (overlap : Bool)
    (event : DecodedYdbCdcEvent V) : Checked (OverlapWrite V) := do
  (if overlap then reconcileOverlap event else .ok () : Checked Unit)
  let version ← cdcRowVersion offset overlap
  return { topic := table.topic, key := table.key event.current, version, image := event.image }

def readRecord (config : OverlapConfig) (run : OverlapRun V)
    (topic : String) : Option (OverlapRun V) :=
  match run.process with
  | some (.running execution (.stream startOffsets positions) fenceLost) =>
    match positions topic, config.tables.find? (·.topic = topic) with
    | some offset, some table =>
      match (run.logs topic)[offset.toNat]? with
      | none => none
      | some event =>
        match decodeRecord table offset (startOffsets.entries ≠ []) event with
        | .error _ => some run.stop
        | .ok row => some
            { run with
              process := some (.running execution (.stream startOffsets
                  (Function.update positions topic (some (offset + 1))))
                fenceLost)
              queue := run.queue ++ [row] }
    | _, _ => none
  | _ => none

def commit (topic : String) (offset : ℤ) : Option (OverlapRun V) :=
  match run.process with
  | some (.running _ (.stream _ positions) _) =>
    if (positions topic).any (offset ≤ ·) ∧
        run.queue.all fun row => row.topic ≠ topic || offset < row.version then
      some { run with committed := Function.update run.committed topic offset }
    else none
  | _ => none

def step (config : OverlapConfig) (run : OverlapRun V) : OverlapLabel V → Option (OverlapRun V)
  | .change topic event => run.change topic event
  | .start => run.start config
  | .capture partitions => run.capture partitions
  | .persist => run.persist config
  | .loseFence => run.loseFence
  | .crash => some run.stop
  | .abandon => run.abandon
  | .claimSnapshot => run.beginSnapshot
  | .readSnapshot point count => run.readSnapshot config point count
  | .write place => run.write place
  | .completeSnapshot fenceLostAfter => run.finishSnapshot fenceLostAfter
  | .buildStream => run.buildStream config
  | .startSession topic retainedStart => run.startSession config topic retainedStart
  | .readRecord topic => run.readRecord config topic
  | .commit topic offset => run.commit topic offset

def delivered (config : OverlapConfig) (run : OverlapRun V) : Bool :=
  match run.process with
  | some (.running _ (.stream _ positions) _) =>
    run.queue.isEmpty && config.tables.all fun table =>
      positions table.topic = some ((run.logs table.topic).length : ℤ)
  | _ => false

end OverlapRun
end Transferia.Ydb
