import Transferia.Contracts.DeliveryTracker
import Transferia.Core.Failure
import Transferia.Support.Transition

/-!
# The ClickHouse sink actor

The sink buffers the batches of its deliveries by table and writes them with
several concurrent inserts.  A changelog delivery is a barrier: it waits until
everything before it is written, and nothing is received until it is written
itself.  The label of a step carries what the environment decides: which insert
the transport answers, what a delivery is converted to, whether the transform
memory is under pressure.  `overflowed` says that a table once held more than a
machine word counts; no step reads it or the trace.
-/

namespace Transferia.ClickHouse
open Contracts Transferia.Core Support

def usizeMax : ℕ := 2 ^ 64 - 1

def saturatingAdd (left right : ℕ) : ℕ := min (left + right) usizeMax

/-! ## Deliveries -/

inductive SystemColumnKind
  | topic
  | partition
  | offset
  | messageIndex
  | writeTimestampMs
  | changeOperation
  | changedColumns
  deriving DecidableEq

/-- An Arrow batch with the memory size that Arrow reports for it. -/
structure RecordBatch (S R : Type*) where
  schema : S
  rows : List R
  arrayMemorySize : ℕ

structure SinkBatch (S R : Type*) where
  table : String
  batch : RecordBatch S R
  systemColumns : List SystemColumnKind

structure Delivery (S R : Type*) where
  id : ℕ
  outputs : List (SinkBatch S R)
  sourceMessages : ℕ

inductive ProjectedSinkBatch (S R K : Type*)
  | appendOnly (batch : RecordBatch S R)
  | changelog (changelog : K)

/-- What validation, projection and the conversion of changelogs answer while
one delivery is accepted.  The conversion reads current rows of the
destination, so that its answers differ from call to call. -/
structure Conversion (S R K : Type*) where
  validateBatch : SinkBatch S R → Except String Unit
  projectSinkBatch : SinkBatch S R → Except String (ProjectedSinkBatch S R K)
  clickhouseChangelogBatches : K → String → Except DataPlaneFailure (List (RecordBatch S R))

structure BufferedBatch (S R : Type*) where
  deliveryId : ℕ
  batch : RecordBatch S R
  (rows bytes : ℕ)

structure TableBuffer (S R : Type*) where
  table : String
  (firstSeen rows bytes : ℕ)
  batches : List (BufferedBatch S R)

structure ActiveInsert (S R : Type*) where
  table : String
  (rows bytes : ℕ)
  batches : List (BufferedBatch S R)

/-- The settings that the actor reads, as their validation leaves them. -/
structure ClickHouseSinkConfig where
  (insertTargetRows insertTargetBytes insertConcurrency flushIntervalMs retryMaxAttempts : ℕ)
  targetRows_pos : 0 < insertTargetRows
  targetBytes_pos : 0 < insertTargetBytes
  concurrency_range : 1 ≤ insertConcurrency ∧ insertConcurrency ≤ 32
  flushInterval_pos : 0 < flushIntervalMs
  retryMaxAttempts_pos : 0 < retryMaxAttempts

abbrev Buffers (S R : Type*) := AList fun _ : String => TableBuffer S R

variable {S R K : Type*}

def RecordBatch.numRows (batch : RecordBatch S R) : ℕ := batch.rows.length

def deliveryIsChangelog (delivery : Delivery S R) : Bool :=
  delivery.outputs.any (·.systemColumns.contains .changeOperation)

/-! ## Accepting a delivery -/

def validateBatches (conversion : Conversion S R K) :
    List (SinkBatch S R) → Except DataPlaneFailure Unit
  | [] => .ok ()
  | output :: rest =>
    match conversion.validateBatch output with
    | .error message => .error ⟨.fatal, message⟩
    | .ok () => validateBatches conversion rest

def nonEmpty (table : String) (batches : List (RecordBatch S R)) :
    List (String × RecordBatch S R) :=
  (batches.filter (0 < ·.numRows)).map fun batch => (table, batch)

def prepareOutput (conversion : Conversion S R K) (output : SinkBatch S R) :
    Except DataPlaneFailure (List (String × RecordBatch S R)) :=
  if output.batch.numRows = 0 then .ok []
  else
    match conversion.projectSinkBatch output with
    | .error message => .error ⟨.retryable, message⟩
    | .ok (.appendOnly batch) => .ok (nonEmpty output.table [batch])
    | .ok (.changelog changelog) =>
      (conversion.clickhouseChangelogBatches changelog output.table).map (nonEmpty output.table)

def prepareOutputs (conversion : Conversion S R K) : List (SinkBatch S R) →
      Except DataPlaneFailure (List (String × RecordBatch S R))
  | [] => .ok []
  | output :: rest =>
    match prepareOutput conversion output with
    | .error failure => .error failure
    | .ok prepared => (prepareOutputs conversion rest).map (prepared ++ ·)

def bufferedBatch (deliveryId : ℕ) (batch : RecordBatch S R) : BufferedBatch S R :=
  { deliveryId, batch, rows := batch.numRows, bytes := batch.arrayMemorySize }

def bufferBatch (now deliveryId : ℕ) (buffers : Buffers S R) (table : String)
    (batch : RecordBatch S R) : Buffers S R :=
  let buffer := (buffers.lookup table).getD
    { table, firstSeen := now, rows := 0, bytes := 0, batches := [] }
  buffers.insert table
    { buffer with
      rows := saturatingAdd buffer.rows batch.numRows
      bytes := saturatingAdd buffer.bytes batch.arrayMemorySize
      batches := buffer.batches ++ [bufferedBatch deliveryId batch] }

def bufferBatches (now deliveryId : ℕ) (buffers : Buffers S R) :
    List (String × RecordBatch S R) → Buffers S R
  | [] => buffers
  | (table, batch) :: rest =>
    bufferBatches now deliveryId (bufferBatch now deliveryId buffers table batch) rest

def TableBuffer.batchRows (buffer : TableBuffer S R) : ℕ :=
  (buffer.batches.map BufferedBatch.rows).sum

def TableBuffer.batchBytes (buffer : TableBuffer S R) : ℕ :=
  (buffer.batches.map BufferedBatch.bytes).sum

/-- The sums over the batches of every buffer fit into a machine word. -/
def countable (buffers : Buffers S R) : Bool :=
  buffers.entries.all fun entry =>
    decide (entry.2.batchRows ≤ usizeMax) && decide (entry.2.batchBytes ≤ usizeMax)

/-! ## Flushing -/

section
variable (config : ClickHouseSinkConfig) (now : ℕ) (inputClosed memoryPressure : Bool)

def wantedAt (buffer : TableBuffer S R) : ℕ :=
  if inputClosed || memoryPressure ||
      decide (config.insertTargetRows ≤ buffer.rows) ||
      decide (config.insertTargetBytes ≤ buffer.bytes) then now
  else buffer.firstSeen + config.flushIntervalMs

/-- The deadline of `next_flush`.  Its table is any one with this deadline:
the buffers are visited in no particular order. -/
def nextFlush (buffers : Buffers S R) : Option ℕ :=
  (buffers.entries.map (wantedAt config now inputClosed memoryPressure ·.2)).min?

end

/-- The loop of `take_insert`: the rows, the bytes and the number of the
batches that go into one insert. -/
def measureInsert [DecidableEq S] (config : ClickHouseSinkConfig) (firstSchema : Option S) :
    ℕ → ℕ → ℕ → List (BufferedBatch S R) → ℕ × ℕ × ℕ
  | rows, bytes, count, [] => (rows, bytes, count)
  | rows, bytes, count, buffered :: rest =>
    if 0 < count ∧ (config.insertTargetRows ≤ rows ∨ config.insertTargetBytes ≤ bytes ∨
          firstSchema.any (buffered.batch.schema ≠ ·)) then
      (rows, bytes, count)
    else
      measureInsert config firstSchema (saturatingAdd rows buffered.rows)
        (saturatingAdd bytes buffered.bytes) (count + 1) rest

def missingBuffer (table : String) : String :=
  "missing ClickHouse buffer for table '" ++ table ++ "'"

def takeInsert [DecidableEq S] (config : ClickHouseSinkConfig)
    (buffers : Buffers S R) (table : String) : Except String (ActiveInsert S R × Buffers S R) :=
  match buffers.lookup table with
  | none => .error (missingBuffer table)
  | some buffer =>
    let firstSchema := buffer.batches.head?.map (·.batch.schema)
    match measureInsert config firstSchema 0 0 0 buffer.batches with
    | (rows, bytes, count) =>
      let left := buffer.batches.drop count
      .ok ({ table := buffer.table, rows, bytes, batches := buffer.batches.take count },
          if left.isEmpty then buffers.erase table
          else buffers.insert table
            { buffer with
              rows := buffer.rows - rows, bytes := buffer.bytes - bytes, batches := left })

/-! ## Insert tasks -/

inductive InsertError
  | transient (message : String)
  | permanent (message : String)

/-- The task of one insert.  It asks the transport until it is told a final
result, and sleeps between two attempts. -/
structure InsertTask (S R : Type*) where
  insert : ActiveInsert S R
  attempts : ℕ
  sleeping : Bool
  outcome : Option (Except DataPlaneFailure Unit)

namespace InsertTask

def start (insert : ActiveInsert S R) : InsertTask S R :=
  { insert, attempts := 0, sleeping := false, outcome := none }

def retryLimit (message : String) : DataPlaneFailure :=
  ⟨.retryable, "ClickHouse retry limit exhausted: " ++ message⟩

/-- The transport answers an attempt; a timeout is a transient error. -/
def answer (config : ClickHouseSinkConfig) (task : InsertTask S R)
    (result : Except InsertError Unit) : Option (InsertTask S R) :=
  if task.outcome.isNone && !task.sleeping then
    let attempts := task.attempts + 1
    match result with
    | .ok () => some { task with attempts, outcome := some (.ok ()) }
    | .error (.permanent message) =>
      some { task with attempts, outcome := some (.error ⟨.fatal, message⟩) }
    | .error (.transient message) =>
      if config.retryMaxAttempts ≤ attempts then
        some { task with attempts, outcome := some (.error (retryLimit message)) }
      else some { task with attempts, sleeping := true }
  else none

def wake (task : InsertTask S R) : Option (InsertTask S R) :=
  if task.outcome.isNone && task.sleeping then
    some { task with sleeping := false }
  else none

def cancel (task : InsertTask S R) : Option (InsertTask S R) :=
  if task.outcome.isNone then
    some
      { task with
        outcome := some (.error ⟨.retryable,
          if task.sleeping then "ClickHouse retry cancelled"
          else "ClickHouse insert cancelled"⟩) }
  else none

end InsertTask

/-! ## The actor -/

/-- What a run shows to an observer. -/
inductive SinkTrace (S R : Type*)
  | received (id : ℕ) (changelog : Bool)
  | accepted (id : ℕ) (changelog : Bool) (batches : List (String × BufferedBatch S R))
  | insertStarted (index : ℕ) (table : String) (batches : List (BufferedBatch S R))
  | insertSucceeded (index : ℕ)
  | committedThrough (id : ℕ)

inductive Phase
  /-- At the top of the loop. -/
  | turning
  /-- In the loop that starts inserts. -/
  | flushing
  /-- In `select`, with the deadline it waits for. -/
  | waiting (deadline : Option ℕ)
  | returned (result : Except DataPlaneFailure Unit)

structure SinkState (S R : Type*) where
  buffers : Buffers S R
  progress : DeliveryTracker
  /-- The running inserts, numbered in the order in which they start. -/
  active : AList fun _ : ℕ => InsertTask S R
  inserts : ℕ
  inputClosed : Bool
  pendingChangelog : Option (Delivery S R)
  (serialChangelogActive cancelled : Bool)
  now : ℕ
  phase : Phase
  overflowed : Bool
  trace : List (SinkTrace S R)

inductive SinkLabel (S R K : Type*)
  | cancel
  | tick (elapsed : ℕ)
  | answer (index : ℕ) (result : Except InsertError Unit)
  | wake (index : ℕ)
  | cancelTask (index : ℕ)
  | turn (receiverOpen : Bool) (conversion : Conversion S R K)
  | flush (table : String) (pressured : Bool)
  | wait (pressured pressuredLater receiverOpen : Bool)
  | observeCancellation
  | complete (index : ℕ)
  | receive (delivery : Delivery S R) (conversion : Conversion S R K)
  | closeInput
  | timer
  | openSession

namespace SinkState

def start : SinkState S R :=
  { buffers := ∅
    progress := .new, active := ∅, inserts := 0, inputClosed := false, pendingChangelog := none
    serialChangelogActive := false, cancelled := false, now := 0, phase := .turning
    overflowed := false, trace := [] }

variable (s : SinkState S R)

def fail (failure : DataPlaneFailure) : SinkState S R :=
  { s with phase := .returned (.error failure) }

def idle : Bool := s.buffers.entries.isEmpty && s.active.entries.isEmpty

def accept (s : SinkState S R) (conversion : Conversion S R K)
    (delivery : Delivery S R) : Except DataPlaneFailure (SinkState S R) :=
  match validateBatches conversion delivery.outputs with
  | .error failure => .error failure
  | .ok () =>
    match prepareOutputs conversion delivery.outputs with
    | .error failure => .error failure
    | .ok prepared =>
      match s.progress.accept delivery.id prepared.length delivery.sourceMessages with
      | .error message => .error ⟨.retryable, message⟩
      | .ok progress =>
        let buffers := bufferBatches s.now delivery.id s.buffers prepared
        .ok
        { s with
          progress, buffers
          overflowed := s.overflowed || !countable buffers, trace := s.trace ++
            [.accepted delivery.id (deliveryIsChangelog delivery) (prepared.map fun entry =>
                (entry.1, bufferedBatch delivery.id entry.2))] }

def receiverClosed : DataPlaneFailure := ⟨.retryable, "sink event receiver closed"⟩

def emitCommitted (receiverOpen : Bool) : Except DataPlaneFailure (SinkState S R) :=
  match s.progress.takeCommitted with
  | (none, progress) => .ok { s with progress }
  | (some committed, progress) =>
    if receiverOpen then .ok
      { s with progress, trace := s.trace ++ [.committedThrough committed.through] }
    else .error receiverClosed

def completeBatches (progress : DeliveryTracker) :
    List (BufferedBatch S R) → Except String DeliveryTracker
  | [] => .ok progress
  | buffered :: rest =>
    match progress.complete buffered.deliveryId 1 with
    | .error message => .error message
    | .ok next => completeBatches next rest

def memoryPressure (pressured : Bool) : Bool :=
  pressured || s.pendingChangelog.isSome || s.serialChangelogActive

def clearSerial : SinkState S R :=
  if s.serialChangelogActive && s.idle then
    { s with serialChangelogActive := false }
  else s

/-- The pending changelog is accepted when everything before it is written. -/
def acceptPending (conversion : Conversion S R K) : Except DataPlaneFailure (SinkState S R) :=
  match s.pendingChangelog with
  | none => .ok s
  | some delivery =>
    if s.idle then
      (accept { s with pendingChangelog := none } conversion delivery).map
        fun s => { s with serialChangelogActive := true }
    else .ok s

/-- The top of the loop, up to the loop that starts inserts. -/
def turn (receiverOpen : Bool) (conversion : Conversion S R K) : Option (SinkState S R) :=
  match s.phase with
  | .turning =>
    match s.emitCommitted receiverOpen with
    | .error failure => some (s.fail failure)
    | .ok emitted =>
      match emitted.clearSerial.acceptPending conversion with
      | .error failure => some (emitted.fail failure)
      | .ok accepted => some { accepted with phase := .flushing }
  | _ => none

section
variable [DecidableEq S] (config : ClickHouseSinkConfig)
section
variable (s : SinkState S R)

/-- The smallest deadline, as the loop that starts inserts sees it. -/
def deadline (pressured : Bool) : Option ℕ :=
  nextFlush config s.now s.inputClosed (s.memoryPressure pressured) s.buffers

def hasSlot : Bool := s.active.entries.length < config.insertConcurrency

def flush (table : String) (pressured : Bool) : Option (SinkState S R) :=
  match s.phase, s.buffers.lookup table with
  | .flushing, some buffer =>
    let wanted := wantedAt config s.now s.inputClosed (s.memoryPressure pressured) buffer
    if s.hasSlot config && s.deadline config pressured = some wanted &&
        decide (wanted ≤ s.now) then
      match takeInsert config s.buffers table with
      | .error message => some (s.fail ⟨.retryable, message⟩)
      | .ok (insert, buffers) => some
          { s with
            buffers, active := s.active.insert s.inserts (.start insert)
            inserts := s.inserts + 1, trace := s.trace ++
              [.insertStarted s.inserts insert.table insert.batches] }
    else none
  | _, _ => none

def flushed (pressured : Bool) : Bool := !s.hasSlot config ||
    (s.deadline config pressured).all (s.now < ·)

def drained : Bool :=
  s.inputClosed && s.pendingChangelog.isNone && !s.serialChangelogActive && s.idle

end

def incompleteDeliveries : DataPlaneFailure :=
  ⟨.retryable, "sink input closed with incomplete deliveries"⟩

def finish (s : SinkState S R) (receiverOpen : Bool) : SinkState S R :=
  match s.emitCommitted receiverOpen with
  | .error failure => s.fail failure
  | .ok emitted =>
    if emitted.progress.isEmpty then
      { emitted with phase := .returned (.ok ()) }
    else emitted.fail incompleteDeliveries

def wait (s : SinkState S R) (pressured pressuredLater receiverOpen : Bool) :
    Option (SinkState S R) :=
  match s.phase with
  | .flushing =>
    if s.flushed config pressured then
      if s.drained then some (s.finish receiverOpen)
      else some
        { s with
          phase := .waiting
            (if s.hasSlot config then s.deadline config pressuredLater
            else none) }
    else none
  | _ => none

end

def isWaiting : Bool :=
  match s.phase with
  | .waiting _ => true
  | _ => false

/-- `select` sees the cancellation; the running inserts are dropped. -/
def observeCancellation : Option (SinkState S R) :=
  if s.isWaiting && s.cancelled then
    some { s with phase := .returned (.ok ()) }
  else none

def complete (index : ℕ) : Option (SinkState S R) :=
  if s.isWaiting then
    match s.active.lookup index with
    | none => none
    | some task =>
      match task.outcome with
      | none => none
      | some (.error failure) => some (s.fail failure)
      | some (.ok ()) =>
        match completeBatches s.progress task.insert.batches with
        | .error message => some (s.fail ⟨.retryable, message⟩)
        | .ok progress => some
            { s with progress, active := s.active.erase index, phase := .turning }
  else none

def observeReceived (delivery : Delivery S R) : SinkState S R :=
  { s with trace := s.trace ++ [.received delivery.id (deliveryIsChangelog delivery)] }

/-- The input is read while no changelog delivery is unfinished. -/
def readsInput : Bool := s.isWaiting && !s.inputClosed && s.pendingChangelog.isNone &&
    !s.serialChangelogActive

def receive (delivery : Delivery S R) (conversion : Conversion S R K) : Option (SinkState S R) :=
  if s.readsInput then
    if deliveryIsChangelog delivery then
      some { s.observeReceived delivery with pendingChangelog := some delivery, phase := .turning }
    else
      match (s.observeReceived delivery).accept conversion delivery with
      | .error failure => some ((s.observeReceived delivery).fail failure)
      | .ok accepted => some { accepted with phase := .turning }
  else none

def closeInput : Option (SinkState S R) :=
  if s.readsInput then
    some { s with inputClosed := true, phase := .turning }
  else none

def timer : Option (SinkState S R) :=
  match s.phase with
  | .waiting (some wanted) =>
    if wanted ≤ s.now then some { s with phase := .turning } else none
  | _ => none

def openSession : Option (SinkState S R) :=
  match s.phase with
  | .returned (.ok ()) =>
    if s.cancelled then none
    else some { s with inputClosed := false, phase := .turning }
  | _ => none

def live : Bool :=
  match s.phase with
  | .returned _ => false
  | _ => true

def changeTask (index : ℕ) (change : InsertTask S R → Option (InsertTask S R)) :
    Option (SinkState S R) :=
  if s.live then
    match s.active.lookup index with
    | none => none
    | some task => (change task).map fun next =>
      { s with active := s.active.insert index next }
  else none

def answer (s : SinkState S R) (config : ClickHouseSinkConfig) (index : ℕ)
    (result : Except InsertError Unit) : Option (SinkState S R) :=
  (s.changeTask index (·.answer config result)).map fun next =>
    match result with
    | .ok () => { next with trace := next.trace ++ [.insertSucceeded index] }
    | .error _ => next

def step [DecidableEq S] (config : ClickHouseSinkConfig) (s : SinkState S R) :
    SinkLabel S R K → Option (SinkState S R)
  | .cancel => some { s with cancelled := true }
  | .tick elapsed => some { s with now := s.now + elapsed }
  | .answer index result => s.answer config index result
  | .wake index => s.changeTask index InsertTask.wake
  | .cancelTask index =>
    if s.cancelled then s.changeTask index InsertTask.cancel else none
  | .turn receiverOpen conversion => s.turn receiverOpen conversion
  | .flush table pressured => s.flush config table pressured
  | .wait pressured pressuredLater receiverOpen =>
    s.wait config pressured pressuredLater receiverOpen
  | .observeCancellation => s.observeCancellation
  | .complete index => s.complete index
  | .receive delivery conversion => s.receive delivery conversion
  | .closeInput => s.closeInput
  | .timer => s.timer
  | .openSession => s.openSession

end SinkState
end Transferia.ClickHouse
