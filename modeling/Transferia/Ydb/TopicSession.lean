import Transferia.Logbroker.TopicProtocol
import Transferia.Support.Action
import Transferia.Support.OrderedMap

/-!
# The changefeed session

A changefeed is read from topics with one partition each.  The session hands out
one batch at a time, and reads no further until the batches it has read are
committed.  A commit waits for the acknowledgement of every partition session;
batches that arrive while it waits are kept for later reads.  The label of a
step carries what the server sends and what the memory accounting answers.  A
failure ends the run.  No step reads `serial`, `sent`, `assignments`, `reads`,
`settled` and `released`.
-/

namespace Transferia.Ydb
open Transferia.Core Support
open Logbroker (Checked ensure okOr fatal retryable checkedI64 i64Max
  StatusCode Codec OffsetsRange FromServer ServerMessage ReadResponse
  PartitionData Batch MessageData Timestamp PartitionSession
  StartPartitionSessionRequest StopPartitionSessionRequest
  PartitionCommittedOffset PartitionCommitOffset)
open Support.Action (lift)

/-! ## State -/

structure PartitionCommitMarker where
  topicPath : String
  partitionId : ℤ
  partitionSessionId : ℤ
  range : OffsetsRange
  serial : ℕ
  deriving DecidableEq

structure TopicCommitMarker where
  partitions : List PartitionCommitMarker
  retainedBytes : ℕ
  deriving DecidableEq

/-- A message of the changefeed; its payload lies in a buffer of `capacity`
bytes. -/
structure TopicRecord where
  topicPath : String
  partitionId : ℤ
  offset : ℤ
  writtenAtMs : ℤ
  payload : List UInt8
  capacity : ℕ
  serial : ℕ

structure TopicBatch where
  records : List TopicRecord
  commitMarker : TopicCommitMarker

structure PartitionSessionState where
  topicPath : String
  partitionId : ℤ
  committedOffset : ℤ
  commitResponseOffset : ℤ
  readThrough : ℤ
  pendingGracefulStop : Option ℤ
  invalidated : Bool
  serial : ℕ

inductive SessionEvent
  | batch (batch : TopicBatch)
  | commitAck (offsets : List PartitionCommittedOffset)
  | continueReading

inductive ClientMessage
  | readRequest (bytesSize : ℤ)
  | startPartitionSessionResponse (partitionSessionId readOffset : ℤ) (commitOffset : Option ℤ)
  | stopPartitionSessionResponse (partitionSessionId : ℤ) (graceful : Bool)
  | commitOffsetRequest (commitOffsets : List PartitionCommitOffset)

/-- Why a message is not sent. -/
inductive Outage
  | cancelled
  | streamClosed

def Outage.failure : Outage → DataPlaneFailure
  | .cancelled => retryable "YDB changefeed session cancelled"
  | .streamClosed => retryable "YDB Topic request stream closed"

abbrev Sessions := OrderedMap ℤ PartitionSessionState

structure TopicSession where
  configuredTopics : OrderedMap String ℤ
  startOffsets : OrderedMap String ℤ
  bootstrapCommits : OrderedMap ℤ ℤ
  partitionSessions : Sessions
  bufferedBatches : List TopicBatch
  retainedBatchBytes : ℕ
  pendingReleaseBatchBytes : ℕ
  pendingCredit : ℤ
  availableCredit : ℤ
  uncommittedBatches : ℕ
  /-- The number of messages that are still sent before the stream is lost. -/
  outage : Option (ℕ × Outage)
  sent : List ClientMessage
  /-- The start offset of every partition session so far. -/
  assignments : List ℤ
  reads : List TopicBatch
  /-- Committed batches whose memory is still held. -/
  settled : List TopicCommitMarker
  released : List TopicCommitMarker

/-- The sizes of the structures that hold a batch. -/
structure BatchLayout where
  record : ℕ
  marker : ℕ
  arcCounters : ℕ
  partitionMarker : ℕ

structure SessionConfig where
  topics : List (String × ℤ)
  startOffsets : OrderedMap String ℤ
  readBufferBytes : ℕ
  maxMessageBytes : ℕ
  maxBatchBytes : ℕ
  layout : BatchLayout

/-- The answers of the memory accounting to one response, and the capacities
that its buffers were given. -/
structure MemoryAnswers where
  response : Except String Unit
  decoded : Except String Unit
  buffered : Except String Unit
  payloadCapacity : ℤ → MessageData → ℕ
  recordsCapacity : ℕ
  partitionsCapacity : ℕ

abbrev TopicAction (α : Type) := Action TopicSession DataPlaneFailure α

def send (message : ClientMessage) : TopicAction Unit := do
  match (← get).outage with
  | some (0, outage) => throw outage.failure
  | some (left + 1, outage) =>
    modify fun session =>
      { session with outage := some (left, outage), sent := session.sent ++ [message] }
  | none => modify fun session =>
    { session with sent := session.sent ++ [message] }

def reserveSourceCompanion (context : String) (answer : Except String Unit) : Checked Unit :=
  answer.mapError fun cause => fatal (context ++ ": " ++ cause)

/-! ## Connecting -/

def canonicalTopicPath (path : String) : String :=
  match path.toList with
  | '/' :: rest => String.ofList rest
  | _ => path

def configureTopic (topics : OrderedMap String ℤ) (topic : String × ℤ) :
    Checked (OrderedMap String ℤ) := do
  ensure (0 ≤ topic.2)
    (fatal ("YDB replication configured a negative partition id for changefeed topic '"
      ++ topic.1 ++ "'"))
  ensure (!topics.contains (canonicalTopicPath topic.1))
    (fatal ("YDB replication repeats changefeed topic '" ++ topic.1 ++ "'"))
  return topics.insert (canonicalTopicPath topic.1) topic.2

def canonicalStartOffsets (offsets : OrderedMap String ℤ) : OrderedMap String ℤ :=
  offsets.entries.foldl
    (fun canonical entry => canonical.insert (canonicalTopicPath entry.1) entry.2) .empty

variable (config : SessionConfig)

def connect : Checked TopicSession := do
  ensure (config.topics ≠ []) (fatal "YDB changefeed topic list must not be empty")
  let configuredTopics ← config.topics.foldlM configureTopic .empty
  let startOffsets := canonicalStartOffsets config.startOffsets
  ensure (startOffsets.entries = [] ∨ (startOffsets.entries.length =
      configuredTopics.entries.length ∧ configuredTopics.entries.all fun topic =>
          (startOffsets.find? topic.1).any (0 ≤ ·)))
    (fatal "YDB overlap offsets do not match configured topics")
  return { configuredTopics
           startOffsets, bootstrapCommits := .empty
           partitionSessions := .empty, bufferedBatches := [], retainedBatchBytes := 0
           pendingReleaseBatchBytes := 0, pendingCredit := 0, availableCredit := 0
           uncommittedBatches := 0, outage := none, sent := [], assignments := [], reads := []
           settled := [], released := [] }

/-! ## Status codes -/

def isRetryableStatus (code : StatusCode) : Bool :=
  code ∈ [.aborted, .unavailable, .overloaded, .timeout, .badSession,
    .sessionExpired, .cancelled, .undetermined, .sessionBusy, .externalError]

def validateStatus (response : FromServer) : Checked Unit :=
  if response.status = 400000 then
    ensure (response.issues = [])
      (fatal "YDB Topic successful response unexpectedly contains issues")
  else
    let found := StatusCode.table.find? (·.2.1 = response.status)
    let name := (found.map (·.2.2)).getD "UNKNOWN"
    let message := "YDB Topic request failed with status " ++
      toString response.status ++ " (" ++ name ++ "), issues=" ++
      "; ".intercalate response.issues
    if found.any fun entry => isRetryableStatus entry.1 then
      .error (retryable message)
    else .error (fatal message)

/-! ## Partition sessions -/

def validateAssignedPartition (configuredTopics : OrderedMap String ℤ)
    (sessions : Sessions) (topicPath : String) (partitionId : ℤ) :
    Checked Unit := do
  let expected ← okOr (configuredTopics.find? topicPath)
    (fatal ("YDB Topic assigned unconfigured changefeed topic '" ++ topicPath ++ "'"))
  ensure (expected = partitionId) (fatal ("YDB Topic assigned changefeed topic '" ++ topicPath ++
      "' partition " ++ toString partitionId ++
      ", but discovery fixed the only safe partition at " ++
      toString expected))
  ensure (!sessions.entries.any (·.2.topicPath = topicPath))
    (fatal ("YDB Topic assigned more than one live session for fixed changefeed topic '"
      ++ topicPath ++ "'"))

def overlapReadOffset (committed baseline : ℤ) (retained : OffsetsRange) : Checked ℤ := do
  ensure (0 ≤ baseline ∧ 0 ≤ committed ∧ 0 ≤ retained.start ∧ retained.start ≤ retained.stop)
    (fatal "YDB overlap received invalid offsets")
  ensure (retained.start ≤ max committed baseline ∧ max committed baseline ≤ retained.stop)
    (fatal "YDB overlap replay position is outside the retained range; refusing to skip lost CDC records")
  return max committed baseline

def validateRetainedOffset (committedOffset : ℤ) (retained : OffsetsRange)
    (topicPath : String) (partitionId : ℤ) : Checked Unit :=
  ensure (0 ≤ retained.start ∧ retained.start ≤ retained.stop ∧
      retained.start ≤ committedOffset ∧ committedOffset ≤ retained.stop)
    (fatal ("YDB changefeed committed offset " ++ toString committedOffset ++
      " for " ++ topicPath ++ ":" ++ toString partitionId ++
      " is outside the retained range [" ++ toString retained.start ++ ", " ++
      toString retained.stop ++ "]"))

variable (sessions : Sessions)

def ensurePartitionSessionIdIsNew (partitionSessionId : ℤ) : Checked Unit :=
  ensure (!sessions.contains partitionSessionId)
    (fatal ("YDB Topic reused active partition session id " ++ toString partitionSessionId))

def startingOffset (committedOffset : ℤ) (startOffset : Option ℤ)
    (offsets : OffsetsRange) : Checked ℤ :=
  match startOffset with
  | some start => overlapReadOffset committedOffset start offsets
  | none => .ok committedOffset

def setSession (partitionSessionId : ℤ) (state : PartitionSessionState) : TopicAction Unit :=
  modify fun session =>
    { session with partitionSessions := session.partitionSessions.insert partitionSessionId state }

/-- The commit that goes with the start of a session is remembered. -/
def rememberBootstrap (commits : OrderedMap ℤ ℤ) (partitionSessionId : ℤ) :
    Option ℤ → OrderedMap ℤ ℤ
  | some offset => commits.insert partitionSessionId offset
  | none => commits

def assign (partitionSession : PartitionSession) (committedOffset : ℤ)
    (readThrough : ℤ) (bootstrapCommit : Option ℤ) : TopicAction Unit :=
  modify fun session =>
    { session with
      partitionSessions := session.partitionSessions.insert partitionSession.partitionSessionId
        { topicPath := canonicalTopicPath partitionSession.path
          partitionId := partitionSession.partitionId, committedOffset
          commitResponseOffset := committedOffset, readThrough, pendingGracefulStop := none
          invalidated := false, serial := session.assignments.length }
      bootstrapCommits := rememberBootstrap session.bootstrapCommits
        partitionSession.partitionSessionId bootstrapCommit
      assignments := session.assignments ++ [readThrough] }

def startPartitionSession (request : StartPartitionSessionRequest) : TopicAction SessionEvent := do
  let partitionSession ← lift <| okOr request.partitionSession
    (fatal "YDB Topic start request has no partition session")
  let topicPath := canonicalTopicPath partitionSession.path
  let session ← get
  lift (validateAssignedPartition session.configuredTopics
    session.partitionSessions topicPath partitionSession.partitionId)
  lift <| ensure (0 ≤ request.committedOffset)
    (fatal "YDB Topic returned negative committed offset")
  let offsets ← lift <| okOr request.partitionOffsets
    (fatal ("YDB Topic omitted the retained offset range for " ++
      partitionSession.path ++ ":" ++ toString partitionSession.partitionId ++
      "; expiration safety cannot be proven"))
  let startOffset := session.startOffsets.find? topicPath
  let committedOffset ← lift (startingOffset request.committedOffset startOffset offsets)
  lift (validateRetainedOffset committedOffset offsets
    partitionSession.path partitionSession.partitionId)
  let readThrough := max committedOffset offsets.start
  lift (ensurePartitionSessionIdIsNew session.partitionSessions partitionSession.partitionSessionId)
  let bootstrapCommit := startOffset.filter (request.committedOffset < ·)
  assign partitionSession committedOffset readThrough bootstrapCommit
  send (.startPartitionSessionResponse partitionSession.partitionSessionId
    readThrough bootstrapCommit)
  return .continueReading

/-- Acknowledgements of the offsets that the starts of sessions committed are
dropped. -/
def filterBootstrapAcks (pending : OrderedMap ℤ ℤ) :
    List PartitionCommittedOffset → OrderedMap ℤ ℤ × List PartitionCommittedOffset
  | [] => (pending, [])
  | offset :: rest =>
    if pending.find? offset.partitionSessionId = some offset.committedOffset then
      filterBootstrapAcks (pending.retain (· ≠ offset.partitionSessionId)) rest
    else
      let (pending, kept) := filterBootstrapAcks pending rest
      (pending, offset :: kept)

def commitOffsetResponse (committed : List PartitionCommittedOffset) :
    TopicAction SessionEvent := do
  lift <| ensure (committed ≠ []) (fatal "YDB Topic commit response contains no partition offsets")
  let (pending, offsets) := filterBootstrapAcks (← get).bootstrapCommits committed
  modify fun session => { session with bootstrapCommits := pending }
  if offsets = [] then return .continueReading
  else return .commitAck offsets

def settledInvalidated (state : PartitionSessionState) : Bool :=
  state.invalidated && decide (state.readThrough ≤ state.commitResponseOffset)

def gracefulStopReady (state : PartitionSessionState) : Bool := state.pendingGracefulStop.isSome &&
    decide (state.readThrough ≤ state.commitResponseOffset)

def readySessionIds : List ℤ :=
  (sessions.entries.filter (gracefulStopReady ·.2)).map Prod.fst

def releaseSessions : List ℤ → TopicAction Unit
  | [] => return ()
  | partitionSessionId :: rest => do
    send (.stopPartitionSessionResponse partitionSessionId true)
    let state ← lift <| okOr ((← get).partitionSessions.find? partitionSessionId)
      (fatal "YDB Topic graceful-stop session disappeared")
    setSession partitionSessionId { state with pendingGracefulStop := none, invalidated := true }
    releaseSessions rest

def releaseGracefullyStoppedSessions : TopicAction Unit := do
  releaseSessions (readySessionIds (← get).partitionSessions)

def stopPartitionSession (request : StopPartitionSessionRequest) : TopicAction SessionEvent := do
  match (← get).partitionSessions.find? request.partitionSessionId with
  | none =>
    send (.stopPartitionSessionResponse request.partitionSessionId request.graceful)
    return .continueReading
  | some state =>
    lift <| ensure (state.committedOffset ≤ request.committedOffset ∧
        request.committedOffset ≤ state.readThrough)
      (fatal ("YDB Topic stop request committed offset " ++
        toString request.committedOffset ++ " is outside [" ++
        toString state.committedOffset ++ ", " ++
        toString state.readThrough ++ "]"))
    if request.graceful then
      lift <| ensure (state.pendingGracefulStop = none)
        (fatal ("YDB Topic repeated graceful stop for partition session " ++
          toString request.partitionSessionId))
      setSession request.partitionSessionId
        { state with pendingGracefulStop := some request.committedOffset }
      releaseGracefullyStoppedSessions
      return .continueReading
    else
      setSession request.partitionSessionId
        { state with pendingGracefulStop := none, invalidated := true }
      send (.stopPartitionSessionResponse request.partitionSessionId false)
      return .continueReading

def rejectFixedPartitionEnd (partitionSessionId : ℤ) : Checked SessionEvent := do
  let state ← okOr (sessions.find? partitionSessionId)
    (fatal ("YDB Topic ended unknown partition session " ++ toString partitionSessionId))
  .error (fatal ("YDB Topic ended fixed changefeed partition " ++
    state.topicPath ++ ":" ++ toString state.partitionId ++
    "; the validated single-partition topology changed"))

def updatePartitionSession (partitionSessionId : ℤ) : TopicAction SessionEvent := do
  lift <| ensure ((← get).partitionSessions.contains partitionSessionId)
    (fatal ("YDB Topic updated unknown partition session " ++ toString partitionSessionId))
  return .continueReading

/-! ## Read responses -/

def consumeReadResponseCredit (availableCredit pendingCredit reportedBytes : ℤ) :
    Checked (ℤ × ℤ) := do
  ensure (0 < reportedBytes) (fatal "YDB Topic ReadResponse.bytes_size must be positive")
  ensure (0 < availableCredit)
    (fatal "YDB Topic sent a ReadResponse while the available read credit was not positive")
  let available ← okOr (checkedI64 (availableCredit - reportedBytes))
    (fatal "YDB Topic available read credit overflow")
  let pending ← okOr (checkedI64 (pendingCredit + reportedBytes))
    (fatal "YDB Topic pending read credit overflow")
  return (available, pending)

def timestampMillis (timestamp : Option Timestamp) : Checked ℤ := do
  let timestamp ← okOr timestamp
    (fatal "YDB changefeed message batch has no server written_at timestamp")
  ensure (0 ≤ timestamp.nanos ∧ timestamp.nanos < 1000000000)
    (fatal "YDB Topic timestamp has invalid nanoseconds")
  okOr (do
      let millis ← checkedI64 (timestamp.seconds * 1000)
      checkedI64 (millis + timestamp.nanos / 1000000))
    (fatal "YDB Topic timestamp exceeds milliseconds")

/-- What the loops over a response have found in one partition session. -/
structure PartitionProgress where
  state : PartitionSessionState
  records : List TopicRecord
  rawBytes : ℕ

def decodeMessage (capacity : MessageData → ℕ)
    (writtenAtMs : ℤ) (progress : PartitionProgress) (message : MessageData) :
    Checked PartitionProgress := do
  let state := progress.state
  let place := state.topicPath ++ ":" ++ toString state.partitionId
  ensure (0 ≤ message.offset) (fatal "YDB Topic returned negative offset")
  ensure (message.offset = state.readThrough)
    (fatal ("YDB changefeed offset gap for " ++ place ++ ": expected " ++
      toString state.readThrough ++ ", got " ++ toString message.offset))
  ensure (message.data.length ≤ config.maxMessageBytes)
    (fatal ("YDB changefeed message at " ++ place ++ ":" ++
      toString message.offset ++ " is " ++ toString message.data.length ++
      " bytes, exceeding max_message_bytes=" ++
      toString config.maxMessageBytes))
  let rawBytes ← okOr (checkedAdd progress.rawBytes message.data.length)
    (fatal "YDB changefeed batch size overflow")
  ensure (rawBytes ≤ config.maxBatchBytes)
    (fatal ("YDB changefeed batch exceeds max_batch_bytes=" ++
      toString config.maxBatchBytes ++ " before decoding"))
  let stop ← okOr (checkedI64 (message.offset + 1)) (fatal "YDB changefeed offset overflow")
  let record : TopicRecord :=
    { topicPath := state.topicPath
      partitionId := state.partitionId, offset := message.offset, writtenAtMs
      payload := message.data, capacity := capacity message, serial := state.serial }
  return { state := { state with readThrough := stop }
           records := progress.records ++ [record]
           rawBytes }

def decodeBatch (capacity : MessageData → ℕ) (progress : PartitionProgress) (batch : Batch) :
    Checked PartitionProgress := do
  let codec ← okOr (Codec.ofNumber? batch.codec)
    (fatal ("YDB Topic returned unknown codec " ++ toString batch.codec))
  ensure (codec = .raw) (fatal ("YDB changefeed returned unsupported codec " ++ codec.strName))
  let writtenAtMs ← timestampMillis batch.writtenAt
  batch.messageData.foldlM (decodeMessage config capacity writtenAtMs) progress

/-- What the loops over a response have found. -/
structure Decoding where
  sessions : Sessions
  records : List TopicRecord
  markers : List PartitionCommitMarker
  rawBytes : ℕ

def rangeMarkers (data : PartitionData) (start : ℤ)
    (state : PartitionSessionState) : List PartitionCommitMarker :=
  if start < state.readThrough then
    [{ topicPath := state.topicPath
       partitionId := state.partitionId, partitionSessionId := data.partitionSessionId
       range := { start, stop := state.readThrough }, serial := state.serial }]
  else []

def decodePartition (memory : MemoryAnswers)
    (decoding : Decoding) (data : PartitionData) : Checked Decoding := do
  let state ← okOr (decoding.sessions.find? data.partitionSessionId)
    (fatal ("YDB Topic sent data for unknown partition session " ++
      toString data.partitionSessionId))
  ensure (!state.invalidated ∧ state.pendingGracefulStop = none)
    (fatal "YDB Topic sent data for a stopped partition session")
  let progress ← data.batches.foldlM
    (decodeBatch config (memory.payloadCapacity data.partitionSessionId))
    { state, records := decoding.records, rawBytes := decoding.rawBytes }
  return { sessions :=
             decoding.sessions.insert data.partitionSessionId progress.state
           records := progress.records, markers := decoding.markers ++
             rangeMarkers data state.readThrough progress.state
           rawBytes := progress.rawBytes }

def checkedMul (value factor : ℕ) : Option ℕ :=
  if value * factor < usizeValues then some (value * factor) else none

def topicBatchRetainedLayoutBytes (layout : BatchLayout)
    (recordsCapacity payloadBytes partitionsCapacity : ℕ) : Option ℕ := do
  let bytes ← checkedMul recordsCapacity layout.record
  let bytes ← checkedAdd bytes payloadBytes
  let bytes ← checkedAdd bytes layout.marker
  let bytes ← checkedAdd bytes layout.arcCounters
  let partitions ← checkedMul partitionsCapacity layout.partitionMarker
  let bytes ← checkedAdd bytes partitions
  return max bytes 1

def topicBatchRetainedBytes (layout : BatchLayout) (records : List TopicRecord)
    (recordsCapacity partitionsCapacity : ℕ) : Checked ℕ := do
  let payloadBytes ← okOr ((records.map TopicRecord.capacity).foldlM checkedAdd 0)
    (fatal "YDB Topic retained payload accounting overflow")
  okOr (topicBatchRetainedLayoutBytes layout recordsCapacity payloadBytes partitionsCapacity)
    (fatal "YDB Topic retained batch accounting overflow")

def noteBatch (batch : TopicBatch) : TopicAction Unit := do
  let session ← get
  let retainedBatchBytes ← lift <| okOr
    (checkedAdd session.retainedBatchBytes batch.commitMarker.retainedBytes)
    (fatal "YDB Topic retained batch memory overflow")
  let uncommittedBatches ← lift <| okOr (checkedAdd session.uncommittedBatches 1)
    (fatal "YDB Topic uncommitted batch count overflow")
  set { session with retainedBatchBytes, uncommittedBatches, reads := session.reads ++ [batch] }

def decodeResponse (response : ReadResponse)
    (memory : MemoryAnswers) : TopicAction SessionEvent := do
  let session ← get
  let (availableCredit, pendingCredit) ← lift
    (consumeReadResponseCredit session.availableCredit session.pendingCredit response.bytesSize)
  modify fun session => { session with availableCredit, pendingCredit }
  lift (reserveSourceCompanion "account decoded YDB Topic response" memory.decoded)
  let decoding ← lift <| response.partitionData.foldlM (decodePartition config memory)
    { sessions := session.partitionSessions, records := [], markers := [], rawBytes := 0 }
  modify fun session => { session with partitionSessions := decoding.sessions }
  if decoding.records = [] then return .continueReading
  else
    let retainedBytes ← lift (topicBatchRetainedBytes config.layout decoding.records
        memory.recordsCapacity memory.partitionsCapacity)
    let batch : TopicBatch :=
      { records := decoding.records
        commitMarker := { partitions := decoding.markers, retainedBytes } }
    noteBatch batch
    return .batch batch

def processMessage (memory : MemoryAnswers) : ServerMessage → TopicAction SessionEvent
  | .initResponse _ => throw (fatal "YDB Topic sent duplicate InitResponse")
  | .startPartitionSessionRequest request => startPartitionSession request
  | .readResponse response => decodeResponse config response memory
  | .commitOffsetResponse committed => commitOffsetResponse committed
  | .stopPartitionSessionRequest request => stopPartitionSession request
  | .endPartitionSession id => do
    lift (rejectFixedPartitionEnd (← get).partitionSessions id)
  | .updatePartitionSession id => updatePartitionSession id
  | .partitionSessionStatusResponse => return .continueReading
  | .updateTokenResponse => return .continueReading

def receiveEvent (response : FromServer) (memory : MemoryAnswers) : TopicAction SessionEvent := do
  lift (reserveSourceCompanion "admit YDB Topic response processing" memory.response)
  lift (validateStatus response)
  let message ← lift <| okOr response.serverMessage
    (fatal "YDB Topic response has no server message")
  processMessage config memory message

/-! ## Credit and memory -/

def sendReadCredit (bytes : ℤ) : TopicAction Unit := do
  lift <| ensure (0 < bytes) (fatal "YDB Topic read credit must be positive")
  send (.readRequest bytes)
  let session ← get
  let availableCredit ← lift <| okOr (checkedI64 (session.availableCredit + bytes))
    (fatal "YDB Topic available read credit overflow")
  set { session with availableCredit }

def replenishCredit : TopicAction Unit := do
  let session ← get
  if session.pendingCredit ≤ 0 ∨ 0 < session.uncommittedBatches then return ()
  else
    sendReadCredit session.pendingCredit
    modify fun session => { session with pendingCredit := 0 }

def releaseCommittedBatchMemory : TopicAction Unit := do
  let session ← get
  if session.pendingReleaseBatchBytes = 0 then return ()
  else
    lift <| ensure (session.pendingReleaseBatchBytes ≤ session.retainedBatchBytes)
      (fatal "YDB Topic released more memory than it retained")
    set
      { session with
        retainedBatchBytes := session.retainedBatchBytes - session.pendingReleaseBatchBytes
        pendingReleaseBatchBytes := 0, settled := []
        released := session.released ++ session.settled }

def removeSettledInvalidatedSessions : TopicAction Unit :=
  modify fun session =>
    let sessions := session.partitionSessions.retain fun id =>
      (session.partitionSessions.find? id).all (!settledInvalidated ·)
    { session with
      partitionSessions := sessions
      bootstrapCommits := session.bootstrapCommits.retain (sessions.contains ·) }

def pushBufferedBatch (batch : TopicBatch) (memory : MemoryAnswers) : TopicAction Unit := do
  lift (reserveSourceCompanion "admit buffered YDB Topic batch" memory.buffered)
  modify fun session =>
    { session with bufferedBatches := session.bufferedBatches ++ [batch] }

/-! ## Reading -/

inductive ReadStart
  | batch (batch : TopicBatch)
  | nothing
  | wait

def beginRead : TopicAction ReadStart := do
  releaseCommittedBatchMemory
  removeSettledInvalidatedSessions
  let session ← get
  match session.bufferedBatches with
  | batch :: rest =>
    set { session with bufferedBatches := rest }
    return .batch batch
  | [] =>
    if 0 < session.uncommittedBatches then return .nothing
    else
      replenishCredit
      return .wait

def readRound (response : FromServer)
    (memory : MemoryAnswers) : TopicAction (Option TopicBatch) := do
  match ← receiveEvent config response memory with
  | .batch batch => return some batch
  | .commitAck _ => throw (fatal "YDB Topic sent an unsolicited commit acknowledgement")
  | .continueReading =>
    removeSettledInvalidatedSessions
    replenishCredit
    return none

/-! ## Committing -/

def byPartitionSession (first second : ℤ × OffsetsRange) : Prop := first.1 < second.1 ∨
    (first.1 = second.1 ∧ OffsetsRange.Before first.2 second.2)

instance : DecidableRel byPartitionSession := fun _ _ =>
  inferInstanceAs (Decidable (_ ∨ _ ∧ _))

def commitEntry (marker : PartitionCommitMarker) : Checked (ℤ × OffsetsRange) := do
  let state ← okOr (sessions.find? marker.partitionSessionId)
    (retryable ("YDB Topic partition session " ++
      toString marker.partitionSessionId ++ " ended before commit"))
  ensure (state.topicPath = marker.topicPath ∧ state.partitionId = marker.partitionId)
    (fatal "YDB Topic commit marker session mismatch")
  return (marker.partitionSessionId, marker.range)

/-- Ranges of one session are joined; the last group is still open. -/
def groupEntry (grouped : List (ℤ × OffsetsRange))
    (entry : ℤ × OffsetsRange) : Checked (List (ℤ × OffsetsRange)) :=
  match grouped.getLast? with
  | none => return [entry]
  | some (previousSession, previousRange) =>
    if previousSession = entry.1 then do
      ensure (previousRange.stop = entry.2.start)
        (fatal ("non-contiguous YDB Topic commit ranges for partition session "
          ++ toString entry.1))
      return grouped.dropLast ++ [(previousSession, { previousRange with stop := entry.2.stop })]
    else return grouped ++ [entry]

def commitOffset (group : ℤ × OffsetsRange) : Checked PartitionCommitOffset := do
  ensure (0 ≤ group.2.start ∧ group.2.start < group.2.stop)
    (fatal ("invalid YDB Topic commit range " ++ group.2.render))
  return { partitionSessionId := group.1, offsets := [group.2] }

structure CommitRequestParts where
  commits : List PartitionCommitOffset
  targets : List (ℤ × ℤ)
  committedBytes : ℕ

def buildCommitRequest (markers : List TopicCommitMarker)
    (sessions : Sessions) : Checked CommitRequestParts := do
  let committedBytes ← okOr ((markers.map TopicCommitMarker.retainedBytes).foldlM checkedAdd 0)
    (fatal "YDB Topic committed memory overflow")
  let entries ← (markers.flatMap TopicCommitMarker.partitions).mapM (commitEntry sessions)
  let grouped ← (entries.insertionSort byPartitionSession).foldlM groupEntry []
  let commits ← grouped.mapM commitOffset
  return { commits, targets := grouped.map fun group => (group.1, group.2.stop), committedBytes }

def ensureTargetLive (target : ℤ × ℤ) : Checked Unit := do
  let state ← okOr (sessions.find? target.1)
    (retryable ("YDB Topic partition session " ++ toString target.1 ++
      " ended before commit acknowledgement"))
  ensure (!state.invalidated) (retryable ("YDB Topic partition session " ++ toString target.1 ++
      " was revoked before commit acknowledgement"))

variable (targets : List (ℤ × ℤ))

def ensureTargetsLive (sessions : Sessions) : Checked Unit :=
  targets.forM (ensureTargetLive sessions)

def checkAck (sessions : Sessions) (offset : PartitionCommittedOffset) : Checked Unit := do
  let id := toString offset.partitionSessionId
  let target ← okOr (targets.find? (·.1 = offset.partitionSessionId))
    (fatal ("YDB Topic acknowledged partition session " ++ id ++ " outside the in-flight commit"))
  let state ← okOr (sessions.find? offset.partitionSessionId)
    (fatal ("YDB Topic acknowledged unknown partition session " ++ id))
  ensure (state.committedOffset ≤ offset.committedOffset ∧
      offset.committedOffset ≤ state.readThrough ∧
      offset.committedOffset ≤ target.2)
    (fatal ("YDB Topic acknowledged invalid offset " ++
      toString offset.committedOffset ++ " for partition session " ++ id ++
      " with in-flight target " ++ toString target.2))

def noteAck (offset : PartitionCommittedOffset) : Checked Sessions := do
  let state ← okOr (sessions.find? offset.partitionSessionId)
    (fatal "validated YDB Topic partition session disappeared")
  return sessions.insert offset.partitionSessionId
    { state with
      committedOffset := offset.committedOffset, commitResponseOffset := offset.committedOffset }

def applyCommitAck (sessions : Sessions)
    (offsets : List PartitionCommittedOffset) : Checked Sessions := do
  let sorted := offsets.insertionSort fun first second =>
    first.partitionSessionId ≤ second.partitionSessionId
  ensure ((sorted.zip sorted.tail).all fun pair =>
      pair.1.partitionSessionId ≠ pair.2.partitionSessionId)
    (fatal "YDB Topic commit acknowledgement repeats a partition session")
  sorted.forM (checkAck targets sessions)
  sorted.foldlM noteAck sessions

def ensureAckDoesNotExceedTarget (target : ℤ × ℤ) : Checked Unit := do
  let state ← okOr (sessions.find? target.1)
    (retryable ("YDB Topic partition session " ++ toString target.1 ++
      " ended before commit acknowledgement"))
  ensure (state.commitResponseOffset ≤ target.2) (fatal ("YDB Topic acknowledged offset " ++
      toString state.commitResponseOffset ++ " beyond requested target " ++
      toString target.2 ++ " for partition session " ++ toString target.1))

def ensureAckDoesNotExceedTargets (sessions : Sessions) : Checked Unit :=
  targets.forM (ensureAckDoesNotExceedTarget sessions)

/-- A commit that waits for acknowledgements. -/
structure InFlightCommit where
  targets : List (ℤ × ℤ)
  markers : List TopicCommitMarker
  committedBytes : ℕ
  deriving DecidableEq

def beginCommit (markers : List TopicCommitMarker)
    (admission : Except String Unit) : TopicAction InFlightCommit := do
  let session ← get
  lift <| ensure (markers.length ≤ session.uncommittedBatches)
    (fatal "YDB Topic commit count exceeds read batches")
  lift (reserveSourceCompanion "admit YDB Topic commit request" admission)
  let parts ← lift (buildCommitRequest markers session.partitionSessions)
  lift <| ensure (parts.committedBytes ≤ session.retainedBatchBytes)
    (fatal "YDB Topic commit memory exceeds retained batch bytes")
  lift (ensureTargetsLive parts.targets session.partitionSessions)
  send (.commitOffsetRequest parts.commits)
  return { targets := parts.targets, markers, committedBytes := parts.committedBytes }

def acknowledged (target : ℤ × ℤ) : Bool :=
  (sessions.find? target.1).any (target.2 ≤ ·.commitResponseOffset)

def finishCommit (commit : InFlightCommit) : TopicAction Unit := do
  removeSettledInvalidatedSessions
  let session ← get
  lift <| ensure (commit.markers.length ≤ session.uncommittedBatches)
    (fatal "YDB Topic commit count exceeds read batches")
  let pendingReleaseBatchBytes ← lift <| okOr
    (checkedAdd session.pendingReleaseBatchBytes commit.committedBytes)
    (fatal "YDB Topic committed memory overflow")
  set
    { session with
      uncommittedBatches := session.uncommittedBatches - commit.markers.length
      pendingReleaseBatchBytes, settled := session.settled ++ commit.markers }

/-- The head of the loop in `commit_offsets`; the result says whether it has
ended. -/
def commitHead (commit : InFlightCommit) : TopicAction Bool := do
  let session ← get
  if commit.targets.all (acknowledged session.partitionSessions) then
    finishCommit commit
    return true
  else
    lift (ensureTargetsLive commit.targets session.partitionSessions)
    return false

def commitEvent (memory : MemoryAnswers) : SessionEvent → TopicAction Unit
  | .batch batch => pushBufferedBatch batch memory
  | .commitAck offsets => do
    let sessions ← lift (applyCommitAck targets (← get).partitionSessions offsets)
    modify fun session => { session with partitionSessions := sessions }
    releaseGracefullyStoppedSessions
  | .continueReading => return ()

def commitRound (targets : List (ℤ × ℤ))
    (response : FromServer) (memory : MemoryAnswers) : TopicAction Unit := do
  let event ← receiveEvent config response memory
  commitEvent targets memory event
  lift (ensureAckDoesNotExceedTargets targets (← get).partitionSessions)

/-! ## Runs -/

inductive TopicPhase
  | connecting
  | idle
  | reading
  | committing (commit : InFlightCommit)
  | stopped (failure : DataPlaneFailure)
  deriving DecidableEq

structure TopicRun where
  session : TopicSession
  phase : TopicPhase
  returned : List TopicBatch
  /-- Markers of returned batches that are not committed. -/
  handedOut : List TopicCommitMarker

inductive TopicLabel
  | lose (left : ℕ) (outage : Outage)
  | respond (response : FromServer) (memory : MemoryAnswers)
  | receiveFailed (failure : DataPlaneFailure)
  | callRead
  | callCommit (markers : List TopicCommitMarker) (admission : Except String Unit)

namespace TopicRun

def start (session : TopicSession) : TopicRun :=
  { session, phase := .connecting, returned := [], handedOut := [] }

def perform {α : Type} (run : TopicRun) (action : TopicAction α)
    (next : α → TopicRun → TopicRun) : TopicRun :=
  match action.outcome run.session with
  | (.ok value, session) => next value { run with session }
  | (.error failure, session) => { run with session, phase := .stopped failure }

def handOut (batch : TopicBatch) (run : TopicRun) : TopicRun := { run with
    phase := .idle, returned := run.returned ++ [batch]
    handedOut := run.handedOut ++ [batch.commitMarker] }

def awaitInit (config : SessionConfig) (response : FromServer) : TopicAction Unit := do
  lift (validateStatus response)
  match response.serverMessage with
  | none => throw (fatal "YDB Topic init response has no server message")
  | some (.initResponse sessionId) =>
    lift <| ensure (sessionId ≠ "") (fatal "YDB Topic returned an empty changefeed read session id")
    lift <| ensure ((config.readBufferBytes : ℤ) ≤ i64Max)
      (fatal "out of range integral type conversion attempted")
    sendReadCredit config.readBufferBytes
  | some _ => throw (fatal "YDB Topic sent a non-init message before InitResponse")

def afterRead (found : Option TopicBatch) (run : TopicRun) : TopicRun :=
  match found with
  | none => run
  | some batch => run.handOut batch

def afterCommit (commit : InFlightCommit) (finished : Bool) (run : TopicRun) :
    TopicRun :=
  if finished then
    { run with phase := .idle, handedOut := run.handedOut.diff commit.markers }
  else { run with phase := .committing commit }

def respond (config : SessionConfig) (run : TopicRun) (response : FromServer)
    (memory : MemoryAnswers) : Option TopicRun :=
  match run.phase with
  | .connecting => some <| run.perform (awaitInit config response) fun _ run =>
        { run with phase := .idle }
  | .reading => some <| run.perform (readRound config response memory) afterRead
  | .committing commit => some <| run.perform (do
        commitRound config commit.targets response memory
        commitHead commit) (afterCommit commit)
  | _ => none

variable (run : TopicRun)

def receiveFailed (failure : DataPlaneFailure) : Option TopicRun :=
  match run.phase with
  | .connecting | .reading | .committing _ => some { run with phase := .stopped failure }
  | _ => none

def afterBegin (begun : ReadStart) (run : TopicRun) : TopicRun :=
  match begun with
  | .batch batch => run.handOut batch
  | .nothing => run
  | .wait => { run with phase := .reading }

def callRead : Option TopicRun :=
  match run.phase with
  | .idle => some (run.perform beginRead afterBegin)
  | _ => none

def callCommit (markers : List TopicCommitMarker)
    (admission : Except String Unit) : Option TopicRun :=
  match run.phase with
  | .idle =>
    if markers.Subperm run.handedOut then
      if markers = [] then some run
      else some <| run.perform (do
        let commit ← beginCommit markers admission
        return (commit, ← commitHead commit)) fun result => afterCommit result.1 result.2
    else none
  | _ => none

def lose (left : ℕ) (outage : Outage) : Option TopicRun :=
  match run.session.outage with
  | none => some { run with session := { run.session with outage := some (left, outage) } }
  | some _ => none

def step (config : SessionConfig) (run : TopicRun) : TopicLabel → Option TopicRun
  | .lose left outage => run.lose left outage
  | .respond response memory => run.respond config response memory
  | .receiveFailed failure => run.receiveFailed failure
  | .callRead => run.callRead
  | .callCommit markers admission => run.callCommit markers admission

end TopicRun
end Transferia.Ydb
