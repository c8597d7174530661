import Transferia.Core.Failure
import Transferia.Core.Memory
import Transferia.Logbroker.OffsetRanges

/-!
# Messages of a topic read session

What the server and the source say to each other in one read session, and how
the batches of a read response are decoded.  The decompressors are parameters:
`Codecs.gzip limit data` is what reading at most `limit` bytes from the
decompressed stream gives.
-/

namespace Transferia.Logbroker
open List Transferia.Core Support

variable {failure : DataPlaneFailure}

def fatal (message : String) : DataPlaneFailure := ⟨.fatal, message⟩

def retryable (message : String) : DataPlaneFailure := ⟨.retryable, message⟩

abbrev Checked (α : Type) := Except DataPlaneFailure α

def ensure (condition : Prop) [Decidable condition] (failure : DataPlaneFailure) : Checked Unit :=
  if condition then .ok () else .error failure

def okOr {α : Type} (value : Option α) (failure : DataPlaneFailure) : Checked α :=
  value.elim (.error failure) .ok

theorem ensure_ok {condition : Prop} [Decidable condition] :
    ensure condition failure = .ok () ↔ condition := by
  unfold ensure
  split <;> simp_all

theorem okOr_ok {α : Type} {value : Option α} {result : α} :
    okOr value failure = .ok result ↔ value = some result := by
  cases value <;> simp [okOr]

def i64Max : ℤ := 2 ^ 63 - 1

/-- The result of a signed 64-bit operation, if it does not overflow. -/
def checkedI64 (value : ℤ) : Option ℤ :=
  if -(2 ^ 63) ≤ value ∧ value ≤ i64Max then some value else none

theorem checkedI64_eq_some {value result : ℤ} (h : checkedI64 value = some result) :
    value = result := by
  unfold checkedI64 at h
  split at h
  · exact Option.some.inj h
  · cases h

def saturatingAdd (value added : ℕ) : ℕ := min (value + added) (usizeValues - 1)

inductive StatusCode
  | unspecified | success | badRequest | unauthorized | internalError | aborted
  | unavailable | overloaded | schemeError | genericError | timeout
  | badSession | preconditionFailed | alreadyExists | notFound
  | sessionExpired | cancelled | undetermined | unsupported | sessionBusy
  | externalError
  deriving DecidableEq

namespace StatusCode

def table : List (StatusCode × ℤ × String) :=
  [(.unspecified, 0, "STATUS_CODE_UNSPECIFIED"), (.success, 400000, "SUCCESS"),
    (.badRequest, 400010, "BAD_REQUEST"),
    (.unauthorized, 400020, "UNAUTHORIZED"),
    (.internalError, 400030, "INTERNAL_ERROR"),
    (.aborted, 400040, "ABORTED"),
    (.unavailable, 400050, "UNAVAILABLE"),
    (.overloaded, 400060, "OVERLOADED"),
    (.schemeError, 400070, "SCHEME_ERROR"),
    (.genericError, 400080, "GENERIC_ERROR"),
    (.timeout, 400090, "TIMEOUT"),
    (.badSession, 400100, "BAD_SESSION"),
    (.preconditionFailed, 400120, "PRECONDITION_FAILED"),
    (.alreadyExists, 400130, "ALREADY_EXISTS"),
    (.notFound, 400140, "NOT_FOUND"),
    (.sessionExpired, 400150, "SESSION_EXPIRED"),
    (.cancelled, 400160, "CANCELLED"),
    (.undetermined, 400170, "UNDETERMINED"),
    (.unsupported, 400180, "UNSUPPORTED"),
    (.sessionBusy, 400190, "SESSION_BUSY"),
    (.externalError, 400200, "EXTERNAL_ERROR")]

def isFatal (code : StatusCode) : Bool :=
  code ∈ [badRequest, unauthorized, schemeError, preconditionFailed, notFound, unsupported]

end StatusCode

structure MetadataItem where
  key : String
  value : List UInt8

structure MessageData where
  offset : ℤ
  data : List UInt8
  uncompressedSize : ℤ
  metadataItems : List MetadataItem

structure Timestamp where
  (seconds nanos : ℤ)

/-- Messages of one producer; its id is given by its bytes. -/
structure Batch where
  producerId : List UInt8
  codec : ℤ
  writtenAt : Option Timestamp
  messageData : List MessageData

structure PartitionData where
  partitionSessionId : ℤ
  batches : List Batch

structure ReadResponse where
  bytesSize : ℤ
  partitionData : List PartitionData

structure PartitionSession where
  partitionSessionId : ℤ
  path : String
  partitionId : ℤ

structure StartPartitionSessionRequest where
  partitionSession : Option PartitionSession
  committedOffset : ℤ
  partitionOffsets : Option OffsetsRange

structure PartitionCommittedOffset where
  (partitionSessionId committedOffset : ℤ)

structure StopPartitionSessionRequest where
  partitionSessionId : ℤ
  graceful : Bool
  committedOffset : ℤ

inductive ServerMessage
  | initResponse (sessionId : String)
  | startPartitionSessionRequest (request : StartPartitionSessionRequest)
  | readResponse (response : ReadResponse)
  | commitOffsetResponse (committed : List PartitionCommittedOffset)
  | stopPartitionSessionRequest (request : StopPartitionSessionRequest)
  | endPartitionSession (partitionSessionId : ℤ)
  | updatePartitionSession (partitionSessionId : ℤ)
  | partitionSessionStatusResponse
  | updateTokenResponse

structure FromServer where
  status : ℤ
  issues : List String
  serverMessage : Option ServerMessage

def validateStatus (response : FromServer) : Checked Unit :=
  if response.status = 0 ∨ response.status = 400000 then .ok ()
  else
    let found := StatusCode.table.find? (·.2.1 = response.status)
    let name := (found.map (·.2.2)).getD "UNKNOWN"
    let message := "YDB Topic StreamRead failed: status=" ++
      toString response.status ++ " (" ++ name ++ "), issues=" ++
      "; ".intercalate response.issues
    if found.any fun entry => entry.1.isFatal then .error (fatal message)
    else .error (retryable message)

structure PartitionCommitOffset where
  partitionSessionId : ℤ
  offsets : List OffsetsRange

inductive ClientMessage
  | readRequest (bytesSize : ℤ)
  | startPartitionSessionResponse (partitionSessionId : ℤ)
  | stopPartitionSessionResponse (partitionSessionId : ℤ) (graceful : Bool)
  | commitOffsetRequest (commitOffsets : List PartitionCommitOffset)

inductive Codec
  | unspecified | raw | gzip | lzop | zstd | custom
  deriving DecidableEq

namespace Codec

def ofNumber? : ℤ → Option Codec
  | 0 => some .unspecified
  | 1 => some .raw
  | 2 => some .gzip
  | 3 => some .lzop
  | 4 => some .zstd
  | 10000 => some .custom
  | _ => none

def strName : Codec → String
  | .unspecified => "CODEC_UNSPECIFIED"
  | .raw => "CODEC_RAW"
  | .gzip => "CODEC_GZIP"
  | .lzop => "CODEC_LZOP"
  | .zstd => "CODEC_ZSTD"
  | .custom => "CODEC_CUSTOM"

end Codec

structure Codecs where
  (gzip zstd : ℕ → List UInt8 → Except String (List UInt8))

def maxDecompressedMessageBytes : ℕ := 128 * 1024 * 1024

def maxDecompressedBatchBytes : ℕ := 128 * 1024 * 1024

def decodedMessageExceeds (maxBytes : ℕ) : String :=
  "YDB Topic decoded message exceeds " ++ toString maxBytes ++ " bytes"

def readBounded (read : ℕ → List UInt8 → Except String (List UInt8))
    (codec : String) (data : List UInt8) (maxBytes : ℕ) : Checked (List UInt8) :=
  match read (maxBytes + 1) data with
  | .error error => .error (fatal ("Invalid YDB Topic " ++ codec ++ " payload: " ++ error))
  | .ok decoded =>
    if maxBytes < decoded.length then
      .error (fatal (decodedMessageExceeds maxBytes))
    else .ok decoded

def decodeMessageBounded (codecs : Codecs) (codec : Codec) (data : List UInt8)
    (maxBytes : ℕ) : Checked (List UInt8) :=
  match codec with
  | .raw =>
    if data.length ≤ maxBytes then .ok data
    else .error (retryable (decodedMessageExceeds maxBytes))
  | .gzip => readBounded codecs.gzip "gzip" data maxBytes
  | .zstd => readBounded codecs.zstd "zstd" data maxBytes
  | .unspecified | .lzop | .custom => .error
      (fatal ("YDB Topic codec " ++ codec.strName ++ " is not supported"))

def decodeMessage (codecs : Codecs) (codec : Codec) (data : List UInt8) : Checked (List UInt8) :=
  decodeMessageBounded codecs codec data maxDecompressedMessageBytes

def timestampMillis (timestamp : Timestamp) : Checked ℤ := do
  ensure (0 ≤ timestamp.nanos ∧ timestamp.nanos < 1000000000)
    (retryable ("YDB Topic timestamp has invalid nanos " ++ toString timestamp.nanos))
  okOr (do
      let millis ← checkedI64 (timestamp.seconds * 1000)
      checkedI64 (millis + timestamp.nanos / 1000000))
    (fatal "YDB Topic timestamp overflows milliseconds")

structure MessageHeader where
  key : String
  value : Option (List UInt8)

/-- A message for the parser.  `session` is not part of the program's message:
it records the partition session that the message was read in. -/
structure Message where
  (value key : List UInt8)
  headers : List MessageHeader
  topic : String
  (partition offset : ℤ)
  writeTimestampMs : Option ℤ
  session : ℤ

def checkedSum (total : ℕ) (sizes : List ℕ) : Option ℕ := sizes.foldlM checkedAdd total

def headerSizes (headers : List MessageHeader) : List ℕ :=
  headers.flatMap fun header => [header.key.utf8ByteSize, (header.value.map List.length).getD 0]

/-- The session that data was sent for. -/
structure SessionBatches where
  partitionSessionId : ℤ
  topicPath : String
  partitionId : ℤ
  batches : List Batch

structure DecodedBatch where
  messages : List Message
  ranges : List OffsetsRange

/-- One message, its range of offsets and the size of the decoded data with
it. -/
def decodeMessageData (codecs : Codecs) (data : SessionBatches) (batch : Batch)
    (codec : Codec) (writtenAtMs : Option ℤ) (totalBytes : ℕ)
    (message : MessageData) : Checked ((Message × OffsetsRange) × ℕ) := do
  ensure (0 ≤ message.offset) (retryable "YDB Topic returned negative offset")
  let headers := message.metadataItems.map fun item =>
    ({ key := item.key, value := some item.value } : MessageHeader)
  let value ← decodeMessage codecs codec message.data
  let totalBytes ← okOr
    (checkedSum totalBytes (value.length :: batch.producerId.length :: headerSizes headers))
    (fatal "YDB Topic decoded batch size overflow")
  ensure (totalBytes ≤ maxDecompressedBatchBytes)
    (fatal ("YDB Topic decoded batch exceeds " ++ toString maxDecompressedBatchBytes ++ " bytes"))
  let stop ← okOr (checkedI64 (message.offset + 1)) (fatal "YDB Topic offset overflow")
  return (({ value
             key := batch.producerId, headers, topic := data.topicPath
             partition := data.partitionId, offset := message.offset
             writeTimestampMs := writtenAtMs, session := data.partitionSessionId },
           { start := message.offset, stop }), totalBytes)

def decodeMessages (codecs : Codecs) (data : SessionBatches) (batch : Batch)
    (codec : Codec) (writtenAtMs : Option ℤ) (totalBytes : ℕ) :
    List MessageData → Checked (List (Message × OffsetsRange) × ℕ)
  | [] => .ok ([], totalBytes)
  | message :: rest => do
    let (decoded, totalBytes) ← decodeMessageData codecs data batch codec
      writtenAtMs totalBytes message
    let (others, totalBytes) ← decodeMessages codecs data batch codec writtenAtMs totalBytes rest
    return (decoded :: others, totalBytes)

def decodeBatch (codecs : Codecs) (data : SessionBatches) (totalBytes : ℕ)
    (batch : Batch) : Checked (List (Message × OffsetsRange) × ℕ) := do
  let codec ← okOr (Codec.ofNumber? batch.codec)
    (fatal ("YDB Topic returned unknown codec " ++ toString batch.codec))
  let writtenAtMs ← batch.writtenAt.mapM timestampMillis
  decodeMessages codecs data batch codec writtenAtMs totalBytes batch.messageData

def decodeAll (codecs : Codecs) (data : SessionBatches) (totalBytes : ℕ) :
    List Batch → Checked (List (Message × OffsetsRange))
  | [] => .ok []
  | batch :: rest => do
    let (decoded, totalBytes) ← decodeBatch codecs data totalBytes batch
    let others ← decodeAll codecs data totalBytes rest
    return decoded ++ others

def decodeBatches (codecs : Codecs) (data : SessionBatches) : Checked DecodedBatch := do
  let decoded ← decodeAll codecs data 0 data.batches
  let ranges ← (coalesceRanges (decoded.map Prod.snd)).mapError retryable
  return { messages := decoded.map Prod.fst, ranges }

variable {totalBytes : ℕ} {decoded : DecodedBatch} {batch : Batch} {codec : Codec}
  {writtenAtMs : Option ℤ} {after : ℕ} {codecs : Codecs} {data : SessionBatches}

def Batch.offsets (batch : Batch) : List ℤ := batch.messageData.map MessageData.offset

/-- The offsets of the messages sent for a session, in the order of the
response. -/
def SessionBatches.offsets (data : SessionBatches) : List ℤ := data.batches.flatMap Batch.offsets

/-- A decoded message belongs to its session and is its own range. -/
def IsDecoded (session : ℤ) (decoded : Message × OffsetsRange) : Prop :=
  decoded.1.session = session ∧ decoded.2 = ⟨decoded.1.offset, decoded.1.offset + 1⟩

theorem decodeMessageData_ok {msg : MessageData} {decoded : Message × OffsetsRange}
    (h : decodeMessageData codecs data batch codec writtenAtMs totalBytes msg = .ok (decoded,
    after)) : decoded.1.offset = msg.offset ∧ IsDecoded data.partitionSessionId decoded := by
  obtain ⟨_, _, h⟩ := of_bind h
  obtain ⟨value, _, h⟩ := of_bind h
  obtain ⟨total, _, h⟩ := of_bind h
  obtain ⟨_, _, h⟩ := of_bind h
  obtain ⟨stop, hstop, h⟩ := of_bind h
  cases h
  have hnext := checkedI64_eq_some (okOr_ok.mp hstop)
  exact ⟨rfl, rfl, by rw [hnext]⟩

theorem decodeMessages_ok {msgs : List MessageData} {dcd : List (Message × OffsetsRange)}
    (h : decodeMessages codecs data batch codec writtenAtMs totalBytes msgs = .ok (dcd, after)) :
    dcd.map (·.1.offset) = msgs.map MessageData.offset ∧
    ∀ entry ∈ dcd, IsDecoded data.partitionSessionId entry := by
  induction msgs generalizing totalBytes dcd with
  | nil =>
    cases h
    simp
  | cons msg rest ih =>
    obtain ⟨⟨first, mid⟩, hfst, h⟩ := of_bind h
    obtain ⟨⟨others, last⟩, hothers, h⟩ := of_bind h
    cases h
    obtain ⟨hoff, hdec⟩ := decodeMessageData_ok hfst
    obtain ⟨hoffsets, hrest⟩ := ih hothers
    constructor
    · rw [map_cons, map_cons, hoff, hoffsets]
    · exact forall_mem_cons.mpr ⟨hdec, hrest⟩

theorem decodeAll_ok {bs : List Batch} {dcd : List (Message × OffsetsRange)}
    (h : decodeAll codecs data totalBytes bs = .ok dcd) : dcd.map (·.1.offset) =
    bs.flatMap Batch.offsets ∧ ∀ entry ∈ dcd, IsDecoded data.partitionSessionId entry := by
  induction bs generalizing totalBytes dcd with
  | nil =>
    cases h
    simp
  | cons batch rest ih =>
    obtain ⟨⟨first, mid⟩, hfst, h⟩ := of_bind h
    obtain ⟨others, hothers, h⟩ := of_bind h
    cases h
    obtain ⟨codec, _, hfst⟩ := of_bind hfst
    obtain ⟨writtenAtMs, _, hfst⟩ := of_bind hfst
    obtain ⟨hoffsets, hdec⟩ := decodeMessages_ok hfst
    obtain ⟨hmore, hrest⟩ := ih hothers
    constructor
    · rw [map_append, hoffsets, hmore, flatMap_cons]
      rfl
    intro entry hentry
    rcases mem_append.mp hentry with hin | hin
    · exact hdec entry hin
    · exact hrest entry hin

section
variable (h : decodeBatches codecs data = .ok decoded)
include h

/-- The decoded messages have the offsets that were sent, and the ranges cover
exactly these. -/
theorem decodeBatches_ok : decoded.messages.map Message.offset = data.offsets ∧
    (∀ msg ∈ decoded.messages, msg.session = data.partitionSessionId) ∧ (∀ range ∈ decoded.ranges,
    range.start < range.stop) ∧ ∀ off, Covers decoded.ranges off ↔ off ∈ data.offsets := by
  obtain ⟨es, hentries, h⟩ := of_bind h
  obtain ⟨ranges, hranges, h⟩ := of_bind h
  cases h
  obtain ⟨ho, hdec⟩ := decodeAll_ok hentries
  have ho : (es.map Prod.fst).map Message.offset = data.offsets := by
    rw [map_map]
    exact ho
  have hok : coalesceRanges (es.map Prod.snd) = .ok ranges := by
    cases hres : coalesceRanges (es.map Prod.snd) with
    | error msg => simp [hres, Except.mapError] at hranges
    | ok found => simpa [hres, Except.mapError] using hranges
  refine ⟨ho, ?_, coalesceRanges_valid hok, ?_⟩
  · intro msg hmsg
    obtain ⟨entry, he, rfl⟩ := mem_map.mp hmsg
    exact (hdec entry he).1
  intro off
  rw [covers_coalesceRanges hok, ← ho]
  simp only [Covers, mem_map, exists_exists_and_eq_and]
  refine exists_congr fun entry => and_congr_right fun he => ?_
  rw [(hdec entry he).2]
  simp only [OffsetsRange.Contains]
  omega

theorem decodeBatches_readThrough
    {readThrough : ℤ} (hmax : (decoded.ranges.map OffsetsRange.stop).max? = some readThrough) :
    readThrough - 1 ∈ data.offsets ∧ ∀ off ∈ data.offsets, off < readThrough := by
  obtain ⟨_, _, hvalid, hcovers⟩ := decodeBatches_ok h
  obtain ⟨hmem, hbound⟩ := max?_eq_some_iff.mp hmax
  constructor
  · obtain ⟨range, hr, rfl⟩ := mem_map.mp hmem
    have hlt := hvalid range hr
    exact (hcovers _).mp ⟨range, hr, by omega, by omega⟩
  intro off hoff
  obtain ⟨range, hr, hcont⟩ := (hcovers off).mpr hoff
  exact hcont.2.trans_le (hbound _ (mem_map_of_mem hr))

theorem decodeBatches_empty (hempty : decoded.ranges = []) : decoded.messages = [] := by
  obtain ⟨ho, _, _, hcovers⟩ := decodeBatches_ok h
  have hnone : data.offsets = [] := by
    refine eq_nil_iff_forall_not_mem.mpr fun off hoff => ?_
    have hcovered := (hcovers off).mpr hoff
    simp [hempty, Covers] at hcovered
  rw [hnone] at ho
  exact map_eq_nil_iff.mp ho

end
end Transferia.Logbroker
