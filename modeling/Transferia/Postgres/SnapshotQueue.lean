import Transferia.Postgres.Chunk

/-!
# The snapshot task queue

A task is pending, owned by one lane attempt, read-complete, durably complete,
or retired by a split.  Every operation is one critical section of the queue
mutex, so that an interleaving of lanes is a list of calls.  A rejected call
returns its error text together with the state it leaves.
-/

namespace Transferia.Postgres

inductive TaskState
  | pending
  | owned
  | readComplete
  | durableComplete
  | retired
  deriving DecidableEq

structure Task where
  chunk : Chunk
  state : TaskState
  owner : Option (ℕ × ℕ)
  published : Bool
  rows : ℕ

def Task.fresh (chunk : Chunk) : Task :=
  { chunk, state := .pending, owner := none, published := false, rows := 0 }

structure MarkerRecord where
  (task sequence : ℕ)
  offset : ℤ
  taskEnd : Bool
  deriving DecidableEq

structure LaneState where
  attempt : ℕ
  active : Bool
  offset : ℤ
  nextSequence : ℕ
  outstanding : List MarkerRecord
  activeTask : Option ℕ
  unfinished : List ℕ

def LaneState.default : LaneState :=
  { attempt := 0, active := false, offset := 0, nextSequence := 0,
    outstanding := [], activeTask := none, unfinished := [] }

structure QueueState where
  tasks : List Task
  pending : List ℕ
  lanes : List LaneState
  leaves : ℕ
  maxParts : Option ℕ
  interrupted : Bool

/-- A durability marker of one queue epoch and one lane attempt. -/
structure SnapshotMarker where
  (epoch lane attempt : ℕ)
  record : MarkerRecord

/-- The dynamically typed marker a source hands to the pipeline. -/
inductive CommitMarker
  | snapshot (marker : SnapshotMarker)
  | foreign (typeName : String)

/-- The type name the compiler reports for `SnapshotMarker`. -/
def snapshotMarkerType : String :=
  "transferia_connector_postgres::connectors::postgres::src_batch::queue::SnapshotMarker"

def CommitMarker.value : CommitMarker → Except String SnapshotMarker
  | .snapshot marker => .ok marker
  | .foreign typeName =>
    .error ("commit marker type mismatch: expected '" ++ snapshotMarkerType ++
      "', received '" ++ typeName ++ "'")

structure ClaimedChunk where
  id : ℕ
  chunk : Chunk

/-- Exclusive attempt token of one lane. -/
structure LaneLease where
  (lane attempt : ℕ)
  closed : Bool

def LaneLease.marker (lease : LaneLease) (epoch : ℕ) (record : MarkerRecord) : SnapshotMarker :=
  { epoch, lane := lease.lane, attempt := lease.attempt, record }

def QueueState.new (chunks : List Chunk) (lanes : ℕ)
    (maxParts : Option ℕ) : Except String QueueState :=
  if chunks.isEmpty then
    .error "snapshot plan has no chunks"
  else if !(decide (0 < lanes) && decide (lanes ≤ chunks.length)) then
    .error "snapshot lane count must be positive and no greater than the chunk count"
  else if !maxParts.all (fun limit => decide (chunks.length ≤ limit)) then
    .error "snapshot plan exceeds maximum parts"
  else
    match validateInitialCover chunks with
    | .error reason => .error reason
    | .ok () =>
      .ok
        { tasks := chunks.map Task.fresh
          pending := List.range chunks.length, lanes := List.replicate lanes LaneState.default
          leaves := chunks.length, maxParts, interrupted := false }

namespace QueueState

def interruptedEpoch : String :=
  "PostgreSQL snapshot epoch was interrupted after publishing incomplete work; " ++
    "partial COPY cannot be replayed safely"

variable (queue : QueueState)

def lock : Except String Unit :=
  if queue.interrupted then .error interruptedEpoch else .ok ()

theorem lock_ok {queue : QueueState} (h : queue.lock = .ok ()) : queue.interrupted = false := by
  cases hi : queue.interrupted with
  | false => rfl
  | true =>
    rw [lock, hi] at h
    cases h

def setTask (id : ℕ) (f : Task → Task) : QueueState :=
  { queue with tasks := queue.tasks.modify id f }

def setLane (lane : ℕ) (f : LaneState → LaneState) : QueueState :=
  { queue with lanes := queue.lanes.modify lane f }

def startAttempt (lane attempt : ℕ) : QueueState :=
  queue.setLane lane fun state => { state with attempt, active := true }

def openLane (lane : ℕ) : Except String LaneLease × QueueState :=
  match queue.lock with
  | .error reason => (.error reason, queue)
  | .ok () =>
    match queue.lanes[lane]? with
    | none => (.error "snapshot lane does not exist", queue)
    | some slot =>
      if slot.active then
        (.error "snapshot lane already has an active attempt", queue)
      else if 2 ^ 64 ≤ slot.attempt + 1 then
        (.error "snapshot lane attempt overflow", queue)
      else
        (.ok { lane, attempt := slot.attempt + 1, closed := false },
          queue.startAttempt lane (slot.attempt + 1))

def check (lease : LaneLease) : Except String LaneState :=
  if lease.closed then .error "snapshot lane attempt is closed"
  else
    match queue.lanes[lease.lane]? with
    | none => .error "snapshot lane does not exist"
    | some lane =>
      if lane.active && lane.attempt == lease.attempt then .ok lane
      else .error "stale snapshot lane attempt"

def enter (lease : LaneLease) : Except String LaneState :=
  match queue.lock with
  | .error reason => .error reason
  | .ok () => queue.check lease

def insertUnfinished (id : ℕ) (unfinished : List ℕ) : List ℕ :=
  if id ∈ unfinished then unfinished
  else unfinished.orderedInsert (· ≤ ·) id

/-- Hand the first pending task `id` to the lane attempt `lease`. -/
def takeTask (lease : LaneLease) (id : ℕ) (rest : List ℕ) : QueueState :=
  ({ queue with pending := rest }.setTask id fun task =>
    { task with state := .owned, owner := some (lease.lane, lease.attempt) }).setLane
    lease.lane fun lane =>
      { lane with activeTask := some id, unfinished := insertUnfinished id lane.unfinished }

def claim (lease : LaneLease) : Except String (Option ClaimedChunk) × QueueState :=
  match queue.enter lease with
  | .error reason => (.error reason, queue)
  | .ok lane =>
    if lane.activeTask.isSome then
      (.error "snapshot lane already owns an unread task", queue)
    else
      match queue.pending with
      | [] => (.ok none, queue)
      | id :: rest =>
        match queue.tasks[id]? with
        | none => (.error "snapshot pending task is missing", queue)
        | some task =>
          if task.state ≠ .pending then
            (.error "snapshot pending task is already owned", queue)
          else
            (.ok (some { id, chunk := task.chunk }), queue.takeTask lease id rest)

def validateOwned (id : ℕ) (lease : LaneLease) : Except String Task :=
  match queue.tasks[id]? with
  | none => .error "snapshot task does not exist"
  | some task =>
    if task.state = .owned ∧ task.owner = some (lease.lane, lease.attempt) then
      .ok task
    else .error "snapshot task is not owned by this lane attempt"

def enterOwned (lease : LaneLease) (id : ℕ) : Except String (LaneState × Task) :=
  match queue.enter lease with
  | .error reason => .error reason
  | .ok lane =>
    match queue.validateOwned id lease with
    | .error reason => .error reason
    | .ok task => .ok (lane, task)

def publishRows (lane id rows : ℕ) (record : MarkerRecord) : QueueState :=
  (queue.setTask id fun task =>
    { task with published := true, rows := task.rows + rows }).setLane
    lane fun state =>
      { state with
        offset := record.offset, nextSequence := record.sequence
        outstanding := state.outstanding ++ [record] }

variable (epoch : ℕ)

def emitRows (queue : QueueState) (lease : LaneLease)
    (claimed : ClaimedChunk) (startOffset : ℤ) (rows : ℕ) :
    Except String (ℤ × SnapshotMarker) × QueueState :=
  if rows = 0 then
    (.error "snapshot row marker must describe a nonempty batch", queue)
  else
    match queue.enterOwned lease claimed.id with
    | .error reason => (.error reason, queue)
    | .ok (lane, task) =>
      if lane.offset ≠ startOffset then
        (.error "snapshot batch starts at an unexpected offset", queue)
      else if 2 ^ 63 ≤ rows then
        (.error "out of range integral type conversion attempted", queue)
      else if (2 : ℤ) ^ 63 ≤ startOffset + rows then
        (.error "PostgreSQL source offset overflow", queue)
      else if 2 ^ 64 ≤ task.rows + rows then
        (.error "snapshot task row count overflow", queue)
      else if 2 ^ 64 ≤ lane.nextSequence + 1 then
        (.error "snapshot marker sequence overflow", queue)
      else
        let record : MarkerRecord :=
          { task := claimed.id, sequence := lane.nextSequence + 1,
            offset := startOffset + rows, taskEnd := false }
        (.ok (startOffset + rows, lease.marker epoch record),
          queue.publishRows lease.lane claimed.id rows record)

/-- One comparison of the search for the largest pending task; among equals
the later one wins. -/
def preferLarger (best : Option (ℕ × ℕ)) (next : ℕ × ℕ) : Option (ℕ × ℕ) :=
  match best with
  | none => some next
  | some current => if current.2 ≤ next.2 then some next else some current

/-- The pending task with the most pages, with its page count. -/
def splitCandidate : Option (ℕ × ℕ) :=
  (queue.pending.filterMap fun id =>
      (queue.tasks[id]?.bind (·.chunk.pageSpan)).map
        fun pages => (id, pages)).foldl preferLarger none

def splitTask (id : ℕ) (left right : Chunk) : QueueState :=
  let first := queue.tasks.length
  { queue with
    tasks := (queue.tasks.modify id fun task =>
        { task with state := .retired }) ++ [Task.fresh left, Task.fresh right]
    pending := queue.pending.filter (· != id) ++ [first, first + 1]
    leaves := queue.leaves + 1 }

/-- `worthwhile` is the outcome of the floating-point comparison of the
predicted saving with one more query startup; it is a scheduling hint. -/
def adaptPending (completed : Chunk) (worthwhile : Bool) : QueueState :=
  match completed.pageSpan with
  | none | some 0 => queue
  | some _ =>
    if queue.lanes.length ≤ queue.pending.length ∨
        queue.maxParts.any (fun limit => decide (limit ≤ queue.leaves)) then
      queue
    else
      match queue.splitCandidate with
      | none => queue
      | some (id, _) =>
        if !worthwhile then queue
        else
          match queue.tasks[id]?.bind fun task => task.chunk.splitPending with
          | none => queue
          | some (left, right) => queue.splitTask id left right

def publishEnd (lane id : ℕ) (record : MarkerRecord) : QueueState :=
  (queue.setTask id fun task =>
    { task with state := .readComplete, published := true }).setLane
    lane fun state =>
      { state with
        nextSequence := record.sequence, outstanding := state.outstanding ++ [record]
        activeTask := none }

def finishRead (queue : QueueState) (lease : LaneLease)
    (claimed : ClaimedChunk) (worthwhile : Bool) : Except String SnapshotMarker × QueueState :=
  match queue.enterOwned lease claimed.id with
  | .error reason => (.error reason, queue)
  | .ok (lane, _) =>
    if 2 ^ 64 ≤ lane.nextSequence + 1 then
      (.error "snapshot marker sequence overflow", queue)
    else
      let record : MarkerRecord :=
        { task := claimed.id, sequence := lane.nextSequence + 1,
          offset := lane.offset, taskEnd := true }
      (.ok (lease.marker epoch record), (queue.publishEnd lease.lane claimed.id record).adaptPending
          claimed.chunk worthwhile)

/-- Validation of one marker against the oldest unacknowledged record. -/
def validateMarker (queue : QueueState) (lease : LaneLease)
    (marker : SnapshotMarker) (expected : MarkerRecord) : Except String Unit :=
  if !(marker.epoch == epoch && marker.lane == lease.lane && marker.attempt == lease.attempt) then
    .error "snapshot acknowledgement belongs to a different epoch or lane attempt"
  else if marker.record ≠ expected then
    .error "snapshot acknowledgement is duplicated, out of order, or has invalid progress"
  else
    match queue.tasks[expected.task]? with
    | none => .error "snapshot acknowledgement references a missing task"
    | some task =>
      if task.owner ≠ some (lease.lane, lease.attempt) then
        .error "snapshot acknowledgement references a foreign task"
      else if (if expected.taskEnd then task.state = .readComplete
          else task.state = .owned ∨ task.state = .readComplete) then .ok ()
      else .error "snapshot acknowledgement has an invalid task lifecycle"

def validateMarkers (epoch : ℕ) (queue : QueueState) (lease : LaneLease) :
    List SnapshotMarker → List MarkerRecord → Except String Unit
  | marker :: markers, expected :: outstanding =>
    match queue.validateMarker epoch lease marker expected with
    | .error reason => .error reason
    | .ok () => queue.validateMarkers epoch lease markers outstanding
  | _, _ => .ok ()

/-- Take the oldest outstanding record of a lane off the ledger. -/
def commitRecord (lane : ℕ) (record : MarkerRecord) : QueueState :=
  let popped := queue.setLane lane fun state =>
    { state with outstanding := state.outstanding.tail }
  if record.taskEnd then
    (popped.setTask record.task fun task =>
      { task with state := .durableComplete }).setLane lane fun state =>
        { state with unfinished := state.unfinished.erase record.task }
  else popped

def acknowledge (queue : QueueState) (lease : LaneLease) (markers : List CommitMarker) :
    Except String (List SnapshotMarker) × QueueState :=
  match markers.mapM CommitMarker.value with
  | .error reason => (.error reason, queue)
  | .ok typed =>
    match queue.enter lease with
    | .error reason => (.error reason, queue)
    | .ok lane =>
      if lane.outstanding.length < typed.length then
        (.error "snapshot acknowledgement repeats or exceeds published work", queue)
      else
        match queue.validateMarkers epoch lease typed lane.outstanding with
        | .error reason => (.error reason, queue)
        | .ok () =>
          (.ok typed, (lane.outstanding.take typed.length).foldl (fun queue record =>
              queue.commitRecord lease.lane record) queue)

def isPublished (id : ℕ) : Bool :=
  queue.tasks[id]?.any (·.published)

/-- Give back the unpublished tasks of a lane; published ones are counted as
ambiguous. -/
def releaseUnfinished (queue : QueueState) : List ℕ → List ℕ × Bool × QueueState
  | [] => ([], false, queue)
  | id :: rest =>
    if queue.isPublished id then
      let (returned, _, released) := queue.releaseUnfinished rest
      (returned, true, released)
    else
      let (returned, ambiguous, released) :=
        (queue.setTask id fun task =>
          { task with state := .pending, owner := none }).releaseUnfinished rest
      (id :: returned, ambiguous, released)

def abortedEpoch : String :=
  "PostgreSQL snapshot epoch aborted after publishing incomplete work; " ++
    "partial COPY cannot be replayed safely"

def close (lease : LaneLease) : Except String Unit × QueueState × LaneLease :=
  if lease.closed then (.ok (), queue, lease)
  else
    let unfinished := (queue.lanes[lease.lane]?.map LaneState.unfinished).getD []
    let (returned, ambiguous, released) := queue.releaseUnfinished unfinished
    let closed := ({ released with
          pending := released.pending ++ returned
          interrupted := released.interrupted || ambiguous }).setLane
        lease.lane fun lane =>
          { lane with
            active := false, activeTask := none
            unfinished := if ambiguous then lane.unfinished else [] }
    (if ambiguous then .error abortedEpoch else .ok (), closed, { lease with closed := true })

def ensureComplete : Except String Unit :=
  match queue.lock with
  | .error reason => .error reason
  | .ok () =>
    if !queue.tasks.all (fun task =>
        task.state = .durableComplete ∨ task.state = .retired) then
      .error "PostgreSQL snapshot still has tasks without destination durability acknowledgement"
    else if !queue.lanes.all (·.outstanding.isEmpty) then
      .error "PostgreSQL snapshot has outstanding durability markers"
    else .ok ()

end QueueState
end Transferia.Postgres
