import Transferia.Logbroker.TopicProtocol
import Transferia.Support.Action
import Transferia.Support.OrderedMap

/-!
# The topic source

The source keeps the partition sessions that the server assigned, turns read
responses into batches, one for each topic, and commits offsets when its owner
acknowledges the batches.  The label of a step carries what the server sends;
the request stream may be lost at any time.  A failure ends the run.  No step
reads the trace.
-/

namespace Transferia.Logbroker
open Transferia.Core Support
open Support.Action (lift)

/-! ## State -/

structure PartitionSessionState where
  topicPath : String
  (partitionId committedOffset readThrough : ℤ)
  (pendingGracefulStop invalidated : Bool)

/-- A session that was just assigned: nothing has been read in it. -/
def PartitionSessionState.fresh (session : PartitionSession)
    (committedOffset : ℤ) : PartitionSessionState :=
  { topicPath := session.path
    partitionId := session.partitionId, committedOffset, readThrough := committedOffset
    pendingGracefulStop := false, invalidated := false }

structure PartitionCommitMarker where
  topicPath : String
  (partitionId partitionSessionId : ℤ)
  ranges : List OffsetsRange
  deriving DecidableEq

structure YdbTopicCommitMarker where
  partitions : List PartitionCommitMarker
  deriving DecidableEq

structure SourceBatch where
  messages : List Message
  commitMarker : Option YdbTopicCommitMarker

inductive SessionEvent
  | batch (batch : SourceBatch)
  | commitAck
  | continueReading

inductive TopicEvent
  | sent (message : ClientMessage)
  | assigned (partitionSessionId committedOffset : ℤ)
  | received (bytesSize : ℤ)
  | read (batch : SourceBatch)
  | acknowledged (markers : List YdbTopicCommitMarker)

/-- Why a message is not sent. -/
inductive Outage
  | cancelled
  | streamClosed

def Outage.failure : Outage → DataPlaneFailure
  | .cancelled => retryable "YDB Topic session cancelled"
  | .streamClosed => retryable "YDB Topic request stream closed"

abbrev Sessions := OrderedMap ℤ PartitionSessionState

structure TopicSource where
  bufferedBatches : List SourceBatch
  partitionSessions : Sessions
  pendingCredit : ℤ
  uncommittedBatches : ℕ
  /-- The number of messages that are still sent before the stream is lost. -/
  outage : Option (ℕ × Outage)
  trace : List TopicEvent

structure SourceConfig where
  topicFilters : List (String × Option (List ℤ))
  allowTtlRewind : Bool
  readBufferBytes : ℕ
  codecs : Codecs

abbrev TopicAction (α : Type) := Action TopicSource DataPlaneFailure α

def record (event : TopicEvent) : TopicAction Unit :=
  modify fun source => { source with trace := source.trace ++ [event] }

def send (message : ClientMessage) : TopicAction Unit := do
  match (← get).outage with
  | some (0, outage) => throw outage.failure
  | some (left + 1, outage) =>
    modify fun source => { source with outage := some (left, outage) }
    record (.sent message)
  | none => record (.sent message)

/-! ## Partition sessions -/

def canonicalTopicPath (path : String) : String :=
  match path.toList with
  | '/' :: rest => String.ofList rest
  | _ => path

def topicPathsEqual (configured assigned : String) : Bool :=
  canonicalTopicPath configured = canonicalTopicPath assigned

variable (config : SourceConfig)

/-- The checks of an assignment before the session table is looked at. -/
def checkAssignment (session : PartitionSession)
    (request : StartPartitionSessionRequest) : Checked Unit := do
  let configured ← okOr
    ((config.topicFilters.find? (topicPathsEqual ·.1 session.path)).map Prod.snd)
    (fatal ("YDB Topic assigned unconfigured topic '" ++ session.path ++ "'"))
  ensure (configured.all (session.partitionId ∈ ·))
    (fatal ("YDB Topic assigned unconfigured partition " ++ session.path ++
      ":" ++ toString session.partitionId))
  match request.partitionOffsets with
  | none => return ()
  | some offsets =>
    ensure (0 ≤ offsets.start ∧ offsets.start ≤ offsets.stop)
      (retryable ("YDB Topic returned invalid partition offsets " ++ offsets.render))
    ensure (offsets.start ≤ request.committedOffset ∨ config.allowTtlRewind)
      (fatal ("YDB Topic committed offset " ++
        toString request.committedOffset ++ " for " ++ session.path ++ ":" ++
        toString session.partitionId ++
        " expired; the oldest retained offset is " ++
        toString offsets.start ++
        ". Set allow_ttl_rewind=true only if replaying from the " ++
        "retention boundary is acceptable"))

def setSession (partitionSessionId : ℤ) (state : PartitionSessionState) : TopicAction Unit :=
  modify fun source =>
    { source with partitionSessions := source.partitionSessions.insert partitionSessionId state }

variable (sessions : Sessions)

def assignedTwice (session : PartitionSession) : Bool :=
  sessions.entries.any fun entry =>
    !entry.2.invalidated && entry.2.topicPath = session.path &&
      entry.2.partitionId = session.partitionId

def assign (session : PartitionSession) (committedOffset : ℤ) : TopicAction Unit := do
  let sessions := (← get).partitionSessions
  match sessions.find? session.partitionSessionId with
  | some current =>
    lift <| ensure
      (current.topicPath = session.path ∧ current.partitionId = session.partitionId)
      (retryable ("YDB Topic reused partition session " ++
        toString session.partitionSessionId ++ " for a different partition"))
  | none =>
    lift <| ensure (!assignedTwice sessions session)
      (retryable ("YDB Topic assigned partition " ++ session.path ++ ":" ++
        toString session.partitionId ++ " twice in one read session"))
    setSession session.partitionSessionId (.fresh session committedOffset)
    record (.assigned session.partitionSessionId committedOffset)

def startPartitionSession (request : StartPartitionSessionRequest) : TopicAction SessionEvent := do
  let session ← lift <| okOr request.partitionSession
    (fatal "YDB Topic start request has no partition session")
  lift (checkAssignment config session request)
  assign session request.committedOffset
  send (.startPartitionSessionResponse session.partitionSessionId)
  return .continueReading

def confirm (offset : PartitionCommittedOffset) : Checked Sessions := do
  let state ← okOr (sessions.find? offset.partitionSessionId)
    (fatal ("YDB Topic acknowledged unknown partition session " ++
      toString offset.partitionSessionId))
  return sessions.insert offset.partitionSessionId
    { state with committedOffset := max state.committedOffset offset.committedOffset }

def commitOffsetResponse (committed : List PartitionCommittedOffset) :
    TopicAction SessionEvent := do
  lift <| ensure (committed ≠ [])
    (retryable "YDB Topic commit response contains no partition offsets")
  let sessions ← lift <| committed.foldlM confirm (← get).partitionSessions
  modify fun source => { source with partitionSessions := sessions }
  return .commitAck

def releasable (state : PartitionSessionState) : Bool := state.pendingGracefulStop && decide
    (state.readThrough ≤ state.committedOffset)

def releasableSessionIds : List ℤ :=
  (sessions.entries.filter (releasable ·.2)).map Prod.fst

def removeSession (partitionSessionId : ℤ) : TopicAction Unit :=
  modify fun source =>
    { source with
      partitionSessions := source.partitionSessions.retain (· ≠ partitionSessionId) }

def releaseSessions : List ℤ → TopicAction Unit
  | [] => return ()
  | partitionSessionId :: rest => do
    send (.stopPartitionSessionResponse partitionSessionId true)
    removeSession partitionSessionId
    releaseSessions rest

def releaseGracefullyStoppedSessions : TopicAction Unit := do
  releaseSessions (releasableSessionIds (← get).partitionSessions)

def stopPartitionSession (request : StopPartitionSessionRequest) : TopicAction SessionEvent := do
  match (← get).partitionSessions.find? request.partitionSessionId with
  | none =>
    send (.stopPartitionSessionResponse request.partitionSessionId request.graceful)
    return .continueReading
  | some state =>
    if request.graceful then
      setSession request.partitionSessionId
        { state with
          committedOffset := max state.committedOffset request.committedOffset
          pendingGracefulStop := true }
      releaseGracefullyStoppedSessions
      return .continueReading
    else
      setSession request.partitionSessionId { state with invalidated := true }
      send (.stopPartitionSessionResponse request.partitionSessionId false)
      if state.readThrough ≤ state.committedOffset then
        removeSession request.partitionSessionId
        return .continueReading
      else return .continueReading

/-- The answer to a message that only has to name a known session. -/
def knownSession (verb : String) (partitionSessionId : ℤ) : TopicAction SessionEvent := do
  lift <| ensure ((← get).partitionSessions.contains partitionSessionId)
    (retryable ("YDB Topic " ++ verb ++ " unknown partition session " ++
      toString partitionSessionId))
  return .continueReading

/-! ## Read responses -/

def partitionBatches (data : List PartitionData) : Checked (List SessionBatches) :=
  data.mapM fun part => do
    let state ← okOr (sessions.find? part.partitionSessionId)
      (fatal ("YDB Topic sent data for unknown partition session " ++
        toString part.partitionSessionId))
    ensure (!state.invalidated)
      (retryable ("YDB Topic sent data for invalidated partition session " ++
        toString part.partitionSessionId))
    return { partitionSessionId := part.partitionSessionId
             topicPath := state.topicPath, partitionId := state.partitionId
             batches := part.batches }

def messageData (parts : List SessionBatches) : List MessageData :=
  parts.flatMap (·.batches.flatMap Batch.messageData)

variable (parts : List SessionBatches)

def compressedBytes : Option ℕ :=
  checkedSum 0 ((messageData parts).map (·.data.length))

def declaredBytes : Option ℕ := (messageData parts).foldlM (fun total message =>
      if message.uncompressedSize < 0 then none
      else checkedAdd total (max message.uncompressedSize.toNat message.data.length)) 0

def metadataBytes : Option ℕ :=
  checkedSum 0 ((messageData parts).flatMap fun message =>
    message.metadataItems.flatMap fun item => [item.key.utf8ByteSize, item.value.length])

structure DecodedPart where
  data : SessionBatches
  decoded : DecodedBatch

def decodePart (data : SessionBatches) : Checked DecodedPart := do
  return { data, decoded := ← decodeBatches config.codecs data }

def decompressedBytes (decoded : List DecodedPart) : Option ℕ :=
  checkedSum 0 (decoded.flatMap fun part =>
    part.decoded.messages.flatMap fun message =>
      message.value.length :: headerSizes message.headers)

/-- The size checks and the decoding of a response.  `growth` is the answer of
the memory accounting. -/
def decodeParts (parts : List SessionBatches)
    (growth : Except String Unit) : Checked (List DecodedPart) := do
  let compressed ← okOr (compressedBytes parts) (fatal "YDB Topic compressed batch size overflow")
  let declared ← okOr (declaredBytes parts)
    (fatal "YDB Topic has an invalid uncompressed batch size")
  let metadata ← okOr (metadataBytes parts) (fatal "YDB Topic metadata size overflow")
  ensure (saturatingAdd declared metadata ≤ maxDecompressedBatchBytes)
    (retryable ("YDB Topic declared batch and metadata size exceeds limit " ++
      toString maxDecompressedBatchBytes))
  let decoded ← parts.mapM (decodePart config)
  let decompressed ← okOr (decompressedBytes decoded)
    (fatal "YDB Topic decoded batch size overflow")
  let _ ← okOr (checkedAdd compressed decompressed) (fatal "YDB Topic batch accounting overflow")
  growth.mapError retryable
  return decoded

def continuousCommitRange (previousReadThrough receivedReadThrough : ℤ) :
    Except String OffsetsRange :=
  if previousReadThrough < receivedReadThrough then
    .ok { start := previousReadThrough, stop := receivedReadThrough }
  else .error
    ("previous=" ++ toString previousReadThrough ++ ", received=" ++ toString receivedReadThrough)

abbrev TopicBatches := OrderedMap String (List Message × List PartitionCommitMarker)

/-- The loop body that adds the data of a session to the batch of its topic. -/
def readPart : Sessions × TopicBatches → DecodedPart → Checked (Sessions × TopicBatches)
  | (sessions, topicBatches), part => do
    let (messages, partitions) := (topicBatches.find? part.data.topicPath).getD ([], [])
    let messages := messages ++ part.decoded.messages
    if part.decoded.ranges = [] then
      return (sessions, topicBatches.insert part.data.topicPath (messages, partitions))
    else
      let session := toString part.data.partitionSessionId
      let readThrough ← okOr (part.decoded.ranges.map OffsetsRange.stop).max?
        (fatal "YDB Topic decoded partition has no offset upper bound")
      let state ← okOr (sessions.find? part.data.partitionSessionId)
        (fatal ("YDB Topic partition session " ++ session ++ " disappeared while decoding"))
      let range ← (continuousCommitRange state.readThrough
        readThrough).mapError fun cause => retryable
          ("YDB Topic read offsets did not advance for partition session " ++
            session ++ ": " ++ cause)
      let marker : PartitionCommitMarker :=
        { topicPath := part.data.topicPath
          partitionId := part.data.partitionId, partitionSessionId := part.data.partitionSessionId
          ranges := [range] }
      return (sessions.insert part.data.partitionSessionId
          { state with readThrough := max state.readThrough readThrough },
        topicBatches.insert part.data.topicPath (messages, partitions ++ [marker]))

def sourceBatch (messages : List Message) (partitions : List PartitionCommitMarker) : SourceBatch :=
  { messages, commitMarker := if partitions = [] then none else some ⟨partitions⟩ }

def sourceBatches (topicBatches : TopicBatches) : List SourceBatch :=
  topicBatches.entries.map fun entry => sourceBatch entry.2.1 entry.2.2

def markersOf (batches : List SourceBatch) : List YdbTopicCommitMarker :=
  batches.filterMap SourceBatch.commitMarker

def decodeResponse (response : ReadResponse)
    (growth : Except String Unit) : TopicAction SessionEvent := do
  lift <| ensure (0 < response.bytesSize)
    (retryable "YDB Topic ReadResponse.bytes_size must be positive")
  let source ← get
  let pendingCredit ← lift <| okOr (checkedI64 (source.pendingCredit + response.bytesSize))
    (fatal "YDB Topic read credit overflow")
  modify fun source => { source with pendingCredit }
  record (.received response.bytesSize)
  let parts ← lift (partitionBatches source.partitionSessions response.partitionData)
  if parts.all fun part => part.batches.isEmpty then
    return .continueReading
  else
    let decoded ← lift (decodeParts config parts growth)
    let (sessions, topicBatches) ← lift <|
      decoded.foldlM readPart (source.partitionSessions, .empty)
    let batches := sourceBatches topicBatches
    let uncommittedBatches ← lift <| okOr
      (checkedAdd source.uncommittedBatches (markersOf batches).length)
      (fatal "YDB Topic uncommitted batch count overflow")
    match batches with
    | [] => throw (fatal "YDB Topic decoded response contains no topic batch")
    | first :: rest =>
      modify fun source =>
        { source with
          partitionSessions := sessions, uncommittedBatches
          bufferedBatches := source.bufferedBatches ++ rest
          trace := source.trace ++ (first :: rest).map .read }
      return .batch first

def processMessage (growth : Except String Unit) : ServerMessage → TopicAction SessionEvent
  | .initResponse _ => throw (fatal "YDB Topic sent duplicate InitResponse")
  | .startPartitionSessionRequest request => startPartitionSession config request
  | .readResponse response => decodeResponse config response growth
  | .commitOffsetResponse committed => commitOffsetResponse committed
  | .stopPartitionSessionRequest request => stopPartitionSession request
  | .endPartitionSession id => knownSession "ended" id
  | .updatePartitionSession id => knownSession "updated" id
  | .partitionSessionStatusResponse => return .continueReading
  | .updateTokenResponse => return .continueReading

/-! ## Credit and commits -/

def takeReleasableCredit (pendingCredit : ℤ) (uncommittedBatches : ℕ) : ℤ × ℤ :=
  if pendingCredit ≤ 0 ∨ 0 < uncommittedBatches then (0, pendingCredit)
  else (pendingCredit, 0)

def replenishCredit : TopicAction Unit := do
  let source ← get
  let (credit, pendingCredit) := takeReleasableCredit source.pendingCredit source.uncommittedBatches
  modify fun source => { source with pendingCredit }
  if credit ≤ 0 then return ()
  else send (.readRequest credit)

/-- Markers that the owner may pass: those of this source, or of another. -/
inductive CommitMarker
  | topic (marker : YdbTopicCommitMarker)
  | foreign (typeName : String)

def CommitMarker.value : CommitMarker → Checked YdbTopicCommitMarker
  | .topic marker => .ok marker
  | .foreign typeName => .error (fatal
      ("commit marker type mismatch: expected 'YdbTopicCommitMarker', " ++
        "received '" ++ typeName ++ "'"))

def CommitMarker.topic? : CommitMarker → Option YdbTopicCommitMarker
  | .topic marker => some marker
  | .foreign _ => none

abbrev Grouped := OrderedMap ℤ (List OffsetsRange)

def groupPartition (grouped : Grouped) (partition : PartitionCommitMarker) : Checked Grouped := do
  let session := toString partition.partitionSessionId
  let state ← okOr (sessions.find? partition.partitionSessionId)
    (retryable ("YDB Topic partition session " ++ session ++ " ended before commit"))
  ensure (!state.invalidated)
    (retryable ("YDB Topic partition session " ++ session ++ " was revoked before commit"))
  ensure (state.topicPath = partition.topicPath ∧ state.partitionId = partition.partitionId)
    (retryable "YDB Topic commit marker session mismatch")
  return grouped.insert partition.partitionSessionId
    ((grouped.find? partition.partitionSessionId).getD [] ++ partition.ranges)

def groupMarker (grouped : Grouped) (marker : CommitMarker) : Checked Grouped := do
  let marker ← marker.value
  marker.partitions.foldlM (groupPartition sessions) grouped

def commitOffset (group : ℤ × List OffsetsRange) : Checked PartitionCommitOffset := do
  let offsets ← (coalesceRanges group.2).mapError retryable
  let _ ← okOr (offsets.map OffsetsRange.stop).max? (fatal "YDB Topic commit marker has no offsets")
  return { partitionSessionId := group.1, offsets }

def buildCommitRequest (markers : List CommitMarker) (sessions : Sessions) :
    Checked (List PartitionCommitOffset) := do
  let grouped ← markers.foldlM (groupMarker sessions) .empty
  grouped.entries.mapM commitOffset

def commitOffsets (markers : List CommitMarker) : TopicAction Unit := do
  if markers = [] then return ()
  else
    let request ← lift (buildCommitRequest markers (← get).partitionSessions)
    send (.commitOffsetRequest request)
    record (.acknowledged (markers.filterMap CommitMarker.topic?))
    let uncommitted := (← get).uncommittedBatches
    lift <| ensure (markers.length ≤ uncommitted)
      (fatal "YDB Topic commit count exceeds read batches")
    modify fun source =>
      { source with uncommittedBatches := uncommitted - markers.length }
    replenishCredit

/-! ## Runs -/

inductive TopicPhase
  | connecting
  | idle
  | waiting
  | stopped (failure : DataPlaneFailure)

structure TopicRun where
  source : TopicSource
  phase : TopicPhase
  /-- Markers of returned batches that the owner has not acknowledged. -/
  handedOut : List YdbTopicCommitMarker

inductive TopicLabel
  | lose (left : ℕ) (outage : Outage)
  | respond (response : FromServer) (growth : Except String Unit)
  | receiveFailed (failure : DataPlaneFailure)
  | callRead
  | commit (markers : List YdbTopicCommitMarker)

namespace TopicRun

def start : TopicRun :=
  { source :=
      { bufferedBatches := []
        partitionSessions := .empty, pendingCredit := 0, uncommittedBatches := 0, outage := none
        trace := [] }
    phase := .connecting, handedOut := [] }

variable (run : TopicRun)

def running : Bool :=
  match run.phase with
  | .stopped _ => false
  | _ => true

def perform {α : Type} (run : TopicRun) (action : TopicAction α)
    (next : α → TopicRun → TopicRun) : TopicRun :=
  match action.outcome run.source with
  | (.ok value, source) => next value { run with source }
  | (.error failure, source) => { run with source, phase := .stopped failure }

def handOut (batch : SourceBatch) : TopicRun :=
  { run with phase := .idle, handedOut := run.handedOut ++ batch.commitMarker.toList }

/-- One round of `await_init`; the last one grants the initial credit. -/
def awaitInit (config : SourceConfig) (response : FromServer)
    (growth : Except String Unit) : TopicAction TopicPhase := do
  lift (validateStatus response)
  match response.serverMessage with
  | none => throw (retryable "YDB Topic init response has no server message")
  | some (.initResponse sessionId) =>
    lift <| ensure (sessionId ≠ "") (retryable "YDB Topic returned an empty read session id")
    lift <| ensure ((config.readBufferBytes : ℤ) ≤ i64Max)
      (retryable "logbroker.read_buffer_bytes exceeds i64")
    send (.readRequest config.readBufferBytes)
    return .idle
  | some message =>
    match ← processMessage config growth message with
    | .batch _ => throw (retryable "YDB Topic sent data before InitResponse")
    | _ => return .connecting

def receiveEvent (config : SourceConfig) (response : FromServer)
    (growth : Except String Unit) : TopicAction (Option SourceBatch) := do
  lift (validateStatus response)
  match response.serverMessage with
  | none => throw (fatal "YDB Topic response has no server message")
  | some message =>
    match ← processMessage config growth message with
    | .batch batch => return some batch
    | _ =>
      replenishCredit
      return none

def respond (config : SourceConfig) (run : TopicRun) (response : FromServer)
    (growth : Except String Unit) : Option TopicRun :=
  match run.phase with
  | .connecting => some <| run.perform (awaitInit config response growth) fun phase run =>
        { run with phase }
  | .waiting => some <| run.perform (receiveEvent config response growth) fun batch run =>
        match batch with
        | none => run
        | some batch => run.handOut batch
  | _ => none

def receiveFailed (failure : DataPlaneFailure) : Option TopicRun :=
  match run.phase with
  | .connecting | .waiting => some { run with phase := .stopped failure }
  | _ => none

def callRead : Option TopicRun :=
  match run.phase with
  | .idle =>
    match run.source.bufferedBatches with
    | batch :: rest => some <| handOut
        { run with source := { run.source with bufferedBatches := rest } }
        batch
    | [] => some <| run.perform replenishCredit fun _ run =>
      { run with phase := .waiting }
  | _ => none

/-- The owner acknowledges returned batches, each at most once. -/
def commit (markers : List YdbTopicCommitMarker) : Option TopicRun :=
  match run.phase with
  | .idle =>
    if markers.Subperm run.handedOut then some <|
      run.perform (commitOffsets (markers.map .topic)) fun _ run =>
        { run with handedOut := run.handedOut.diff markers }
    else none
  | _ => none

def lose (left : ℕ) (outage : Outage) : Option TopicRun :=
  match run.source.outage with
  | none => some { run with source := { run.source with outage := some (left, outage) } }
  | some _ => none

def step (config : SourceConfig) (run : TopicRun) : TopicLabel → Option TopicRun
  | .lose left outage => run.lose left outage
  | .respond response growth => run.respond config response growth
  | .receiveFailed failure => run.receiveFailed failure
  | .callRead => run.callRead
  | .commit markers => run.commit markers

end TopicRun
end Transferia.Logbroker
