import Transferia.Ydb.TopicSession

/-!
# The ledger of a changefeed session

The records of a partition session are numbered without a gap, every batch that
was read is returned once and in order, the credit is split between what the
server may use and what is to be returned, and the retained bytes are those of
the batches whose memory is still held.
-/

namespace Transferia.Ydb
open List Transferia.Core Support Support.Action PartitionSessionState Int OrderedMap
open Logbroker (Checked ensure okOr fatal retryable checkedI64
  ensure_ok okOr_ok checkedI64_eq_some OffsetsRange FromServer ServerMessage
  ReadResponse PartitionData Batch MessageData StartPartitionSessionRequest
  StopPartitionSessionRequest PartitionCommittedOffset Contiguous
  contiguous_append contiguous_singleton)

def offsetsFrom (start : ℤ) (count : ℕ) : List ℤ :=
  (List.range count).map fun place : ℕ => start + place

def recordsOf (batches : List TopicBatch) : List TopicRecord := batches.flatMap TopicBatch.records

def markersOf (batches : List TopicBatch) : List PartitionCommitMarker :=
  batches.flatMap (·.commitMarker.partitions)

def offsetsIn (records : List TopicRecord) (serial : ℕ) : List ℤ :=
  (records.filter (·.serial = serial)).map TopicRecord.offset

def rangesIn (markers : List PartitionCommitMarker) (serial : ℕ) : List OffsetsRange :=
  (markers.filter (·.serial = serial)).map PartitionCommitMarker.range

/-- A partition session has been read from `start` up to `stop`. -/
structure ReadTo (records : List TopicRecord)
    (markers : List PartitionCommitMarker) (serial : ℕ) (start stop : ℤ) : Prop where
  offsets : offsetsIn records serial = offsetsFrom start (stop - start).toNat
  ranges : Contiguous start (rangesIn markers serial) stop

/-- The partition sessions are where their records end. -/
structure SessionsAt (sessions : Sessions) (assignments : List ℤ)
    (records : List TopicRecord) (markers : List PartitionCommitMarker) : Prop where
  offsets : ∀ id state, sessions.find? id = some state → state.committedOffset ≤
    state.commitResponseOffset ∧ state.commitResponseOffset ≤ state.readThrough
  place : ∀ id state, sessions.find? id = some state → ∃ start, assignments[state.serial]? =
    some start ∧ ReadTo records markers state.serial start state.readThrough
  serials : ∀ id other state found, sessions.find? id = some state →
    sessions.find? other = some found → state.serial = found.serial → id = other
  log : ∀ serial start, assignments[serial]? = some start →
    ∃ stop, ReadTo records markers serial start stop
  recordsKnown : ∀ record ∈ records, record.serial < assignments.length
  markersKnown : ∀ marker ∈ markers, marker.serial < assignments.length

theorem offsetsFrom_append (start : ℤ) (first snd : ℕ) :
    offsetsFrom start first ++ offsetsFrom (start + first) snd =
      offsetsFrom start (first + snd) := by
  simp only [offsetsFrom, range_add, map_append, map_map]
  congr 1
  refine map_congr_left fun place _ => ?_
  simp only [Function.comp_apply]
  omega

theorem offsetsIn_append (first snd : List TopicRecord) (serial : ℕ) :
    offsetsIn (first ++ snd) serial = offsetsIn first serial ++ offsetsIn snd serial := by
  simp [offsetsIn]

theorem rangesIn_append (first snd : List PartitionCommitMarker) (serial : ℕ) :
    rangesIn (first ++ snd) serial = rangesIn first serial ++ rangesIn snd serial := by
  simp [rangesIn]

section
variable {sessions : Sessions} {assignments : List ℤ}
  {records : List TopicRecord} {markers : List PartitionCommitMarker}
  {id : ℤ} {state next : PartitionSessionState}

theorem SessionsAt.serial_lt (h : SessionsAt sessions assignments records markers)
    (hfind : sessions.find? id = some state) : state.serial < assignments.length := by
  obtain ⟨start, hstart, -⟩ := h.place id state hfind
  exact (List.getElem?_eq_some_iff.mp hstart).1

theorem find?_insert_cases {other : ℤ} {found : PartitionSessionState}
    (h : (sessions.insert id next).find? other = some found) :
    (other = id ∧ found = next) ∨ (other ≠ id ∧ sessions.find? other = some found) := by
  by_cases hother : other = id
  · subst hother
    rw [find?_insert_self] at h
    exact .inl ⟨rfl, (Option.some.inj h).symm⟩
  rw [find?_insert_ne _ _ hother] at h
  exact .inr ⟨hother, h⟩

theorem forall_find?_insert {P : ℤ → PartitionSessionState → Prop} (hnew : P id next)
    (hold : ∀ other found, sessions.find? other = some found → P other found) :
    ∀ other found, (sessions.insert id next).find? other = some found → P other found := by
  intro other found hget
  rcases find?_insert_cases hget with ⟨rfl, rfl⟩ | ⟨-, hget⟩
  · exact hnew
  · exact hold other found hget

section
variable (h : SessionsAt sessions assignments records markers)
include h

theorem SessionsAt.serials_insert
    (hfree :
      ∀ other found, other ≠ id → sessions.find? other = some found → found.serial ≠ next.serial) :
    ∀ first second one two, (sessions.insert id next).find? first = some one →
      (sessions.insert id next).find? second = some two → one.serial = two.serial →
      first = second := by
  intro first second one two hone htwo hsame
  rcases find?_insert_cases hone with ⟨hfst, hnew⟩ | ⟨hfst, hold⟩
  · rcases find?_insert_cases htwo with ⟨hsnd, -⟩ | ⟨hsnd, hother⟩
    · exact hfst.trans hsnd.symm
    · exact absurd (hnew ▸ hsame.symm) (hfree second two hsnd hother)
  rcases find?_insert_cases htwo with ⟨hsnd, hnew⟩ | ⟨hsnd, hother⟩
  · exact absurd (hnew ▸ hsame) (hfree first one hfst hold)
  · exact h.serials first second one two hold hother hsame

theorem SessionsAt.serial_free (hfind : sessions.find? id = some state) :
    ∀ other found, other ≠ id → sessions.find? other = some found → found.serial ≠ state.serial :=
  fun other found hother hget hsame => hother (h.serials other id found state hget hfind hsame)

theorem SessionsAt.set
    (hfind : sessions.find? id = some state) (hserial : next.serial = state.serial)
    (hread : next.readThrough = state.readThrough)
    (hcommitted : next.committedOffset ≤ next.commitResponseOffset)
    (hresp : next.commitResponseOffset ≤ next.readThrough) :
    SessionsAt (sessions.insert id next) assignments records markers where
  offsets := forall_find?_insert ⟨hcommitted, hresp⟩ h.offsets
  place := by
    refine forall_find?_insert ?_ h.place
    rw [hserial, hread]
    exact h.place id state hfind
  serials := h.serials_insert (hserial ▸ h.serial_free hfind)
  log := h.log
  recordsKnown := h.recordsKnown
  markersKnown := h.markersKnown

theorem SessionsAt.retain (keep : ℤ → Bool) :
    SessionsAt (sessions.retain keep) assignments records markers := by
  have hkept : ∀ other found, (sessions.retain keep).find? other = some found →
      sessions.find? other = some found := by
    intro other found hget
    rw [find?_retain, Option.ite_none_right_eq_some] at hget
    exact hget.2
  exact {
    offsets := fun other found hget => h.offsets other found (hkept other found hget)
    place := fun other found hget => h.place other found (hkept other found hget)
    serials := fun first second one two hone htwo =>
      h.serials first second one two (hkept first one hone) (hkept second two htwo)
    log := h.log, recordsKnown := h.recordsKnown, markersKnown := h.markersKnown }

theorem SessionsAt.readTo_unknown (start : ℤ) :
    ReadTo records markers assignments.length start start := by
  have hr : offsetsIn records assignments.length = [] := by
    rw [offsetsIn, map_eq_nil_iff, filter_eq_nil_iff]
    intro record hrec
    simpa using (h.recordsKnown record hrec).ne
  have hranges : rangesIn markers assignments.length = [] := by
    rw [rangesIn, map_eq_nil_iff, filter_eq_nil_iff]
    intro marker hm
    simpa using (h.markersKnown marker hm).ne
  constructor
  · rw [hr, sub_self]
    rfl
  rw [hranges]
  rfl

theorem SessionsAt.assign (hserial : next.serial = assignments.length)
    (hcommitted : next.committedOffset ≤ next.commitResponseOffset)
    (hresp : next.commitResponseOffset ≤ next.readThrough) :
    SessionsAt (sessions.insert id next) (assignments ++ [next.readThrough]) records markers := by
  have hold : ∀ (serial : ℕ) start, assignments[serial]? = some start →
      (assignments ++ [next.readThrough])[serial]? = some start := by
    intro serial start hstart
    rw [getElem?_append_left (List.getElem?_eq_some_iff.mp hstart).1]
    exact hstart
  refine {
    offsets := forall_find?_insert ⟨hcommitted, hresp⟩ h.offsets
    place := ?_, serials := ?_, log := ?_, recordsKnown := fun record hrec =>
      (h.recordsKnown record hrec).trans_le (by simp)
    markersKnown := fun marker hm => (h.markersKnown marker hm).trans_le (by simp) }
  · intro other found hget
    rcases find?_insert_cases hget with ⟨-, rfl⟩ | ⟨-, hget⟩
    · refine ⟨found.readThrough, ?_, ?_⟩
      · rw [hserial]
        simp
      rw [hserial]
      exact h.readTo_unknown _
    obtain ⟨start, hstart, hplace⟩ := h.place other found hget
    exact ⟨start, hold _ _ hstart, hplace⟩
  · refine h.serials_insert fun other found _ hget => ?_
    have hlt := h.serial_lt hget
    omega
  intro serial start hstart
  by_cases hlt : serial < assignments.length
  · rw [getElem?_append_left hlt] at hstart
    exact h.log serial start hstart
  have hlast : serial = assignments.length := by
    have hbound := (List.getElem?_eq_some_iff.mp hstart).1
    rw [length_append, length_singleton] at hbound
    omega
  exact ⟨start, hlast ▸ h.readTo_unknown start⟩

end

variable {serial : ℕ} {new : List TopicRecord} {start : ℤ} {more : List PartitionCommitMarker}
variable (state)

/-- Records that continue a session. -/
structure Continues (new : List TopicRecord) : Prop where
  serial : ∀ record ∈ new, record.serial = state.serial
  offsets : new.map TopicRecord.offset = offsetsFrom state.readThrough new.length

def PartitionSessionState.advance (count : ℕ) : PartitionSessionState :=
  { state with readThrough := state.readThrough + count }

variable {state}

theorem ReadTo.extend (h : ReadTo records markers serial start state.readThrough)
    (hserial : state.serial = serial) (hnew : Continues state new)
    (hmore :
      Contiguous state.readThrough (rangesIn more serial) (state.advance new.length).readThrough) :
    ReadTo (records ++ new) (markers ++ more) serial start
      (state.advance new.length).readThrough := by
  constructor
  · have hall : offsetsIn new serial = offsetsFrom state.readThrough new.length := by
      rw [← hnew.offsets, offsetsIn, filter_eq_self.mpr]
      intro record hrec
      simpa using (hnew.serial record hrec).trans hserial
    have hle := h.ranges.le
    rw [offsetsIn_append, h.offsets, hall]
    have hstart : state.readThrough = start + ((state.readThrough - start).toNat : ℤ) := by omega
    have hcount : (state.advance new.length).readThrough - start =
        (((state.readThrough - start).toNat + new.length : ℕ) : ℤ) := by
      simp only [advance]
      omega
    rw [hcount, toNat_natCast, ← offsetsFrom_append]
    rw [← hstart]
  rw [rangesIn_append]
  exact contiguous_append.mpr ⟨_, h.ranges, hmore⟩

theorem ReadTo.other {stop : ℤ} (h : ReadTo records markers serial start stop)
    (hnew : offsetsIn new serial = []) (hmore : rangesIn more serial = []) :
    ReadTo (records ++ new) (markers ++ more) serial start stop := by
  constructor
  · rw [offsetsIn_append, hnew, append_nil, h.offsets]
  rw [rangesIn_append, hmore, append_nil]
  exact h.ranges

theorem Continues.offsetsIn_other (hnew : Continues state new) (hserial : state.serial ≠ serial) :
    offsetsIn new serial = [] := by
  rw [offsetsIn, map_eq_nil_iff, filter_eq_nil_iff]
  intro record hrec
  rw [hnew.serial record hrec]
  simpa using hserial

theorem rangesIn_rangeMarkers (data : PartitionData)
    (state : PartitionSessionState) (count serial : ℕ) :
    rangesIn (rangeMarkers data state.readThrough (state.advance count)) serial =
      if 0 < count ∧ state.serial = serial then [⟨state.readThrough, state.readThrough + count⟩]
      else [] := by
  unfold rangeMarkers
  by_cases hcount : 0 < count
  · rw [if_pos (by simp only [advance]; omega)]
    by_cases hs : state.serial = serial
    · rw [if_pos ⟨hcount, hs⟩]
      simp [rangesIn, advance, hs]
    simp [rangesIn, advance, hs]
  rw [if_neg (by simp only [advance]; omega), if_neg fun h => hcount h.1]
  rfl

theorem contiguous_rangeMarkers (data : PartitionData) (state : PartitionSessionState) (count : ℕ) :
    Contiguous state.readThrough (rangesIn (rangeMarkers data
    state.readThrough (state.advance count)) state.serial) (state.advance count).readThrough := by
  rw [rangesIn_rangeMarkers]
  by_cases hcount : 0 < count
  · rw [if_pos ⟨hcount, rfl⟩, contiguous_singleton]
    exact ⟨rfl, by simpa using hcount, rfl⟩
  rw [if_neg fun h => hcount h.1]
  simp only [Contiguous, advance]
  omega

theorem SessionsAt.read (h : SessionsAt sessions assignments records markers)
    (hfind : sessions.find? id = some state) (hnew : Continues state new) (data : PartitionData) :
    SessionsAt (sessions.insert id (state.advance new.length)) assignments (records ++ new)
      (markers ++ rangeMarkers data state.readThrough (state.advance new.length)) := by
  have hranges : ∀ serial, state.serial ≠ serial →
      rangesIn (rangeMarkers data state.readThrough (state.advance new.length)) serial = [] := by
    intro serial hs
    rw [rangesIn_rangeMarkers, if_neg fun h => hs h.2]
  have hextend : ∀ start, ReadTo records markers state.serial start state.readThrough → ReadTo
    (records ++ new) (markers ++ rangeMarkers data state.readThrough (state.advance new.length))
    state.serial start (state.advance new.length).readThrough :=
    fun start hstart => hstart.extend rfl hnew (contiguous_rangeMarkers data state new.length)
  refine {
    offsets := ?_, place := ?_, serials := ?_, log := ?_, recordsKnown := ?_, markersKnown := ?_ }
  · refine forall_find?_insert ?_ h.offsets
    obtain ⟨hc, hresp⟩ := h.offsets id state hfind
    refine ⟨hc, ?_⟩
    simp only [advance]
    omega
  · intro other found hget
    rcases find?_insert_cases hget with ⟨-, rfl⟩ | ⟨hother, hget⟩
    · obtain ⟨start, hstart, hplace⟩ := h.place id state hfind
      exact ⟨start, hstart, hextend start hplace⟩
    obtain ⟨start, hstart, hplace⟩ := h.place other found hget
    have hs : state.serial ≠ found.serial :=
      fun hsame => hother (h.serials other id found state hget hfind hsame.symm)
    exact ⟨start, hstart, hplace.other (hnew.offsetsIn_other hs) (hranges _ hs)⟩
  · have hfree := h.serial_free hfind
    exact h.serials_insert hfree
  · intro serial start hstart
    by_cases hs : state.serial = serial
    · obtain ⟨found, hget, hplace⟩ := h.place id state hfind
      rw [hs, hstart] at hget
      cases hget
      exact ⟨_, hs ▸ hextend start hplace⟩
    obtain ⟨stop, hstop⟩ := h.log serial start hstart
    exact ⟨stop, hstop.other (hnew.offsetsIn_other hs) (hranges _ hs)⟩
  · intro record hrec
    rcases mem_append.mp hrec with hold | hadded
    · exact h.recordsKnown record hold
    rw [hnew.serial record hadded]
    exact h.serial_lt hfind
  intro marker hm
  rcases mem_append.mp hm with hold | hadded
  · exact h.markersKnown marker hold
  unfold rangeMarkers at hadded
  split at hadded
  · have hlt := h.serial_lt hfind
    cases mem_singleton.mp hadded
    exact hlt
  · cases hadded

end

/-- The loops over a partition have found `count` further records. -/
def Finds (before : PartitionProgress) (count : ℕ) (after : PartitionProgress) : Prop :=
  ∃ new : List TopicRecord, new.length = count ∧ Continues before.state new ∧
    after.records = before.records ++ new ∧ after.state = before.state.advance count

theorem Finds.none (progress : PartitionProgress) : Finds progress 0 progress := by
  refine ⟨[], rfl, ⟨?_, rfl⟩, (append_nil _).symm, ?_⟩
  · rintro record ⟨⟩
  · simp [advance]

theorem Finds.trans {first snd third : PartitionProgress} {one two : ℕ} (hone : Finds first one snd)
    (htwo : Finds snd two third) : Finds first (one + two) third := by
  obtain ⟨new, hlen, hnew, hr, hs⟩ := hone
  obtain ⟨more, hlengthMore, hmore, hrecordsMore, hstateMore⟩ := htwo
  subst hlen hlengthMore
  refine ⟨new ++ more, length_append, ⟨?_, ?_⟩, ?_, ?_⟩
  · intro record hrec
    rcases mem_append.mp hrec with hold | hadded
    · exact hnew.serial record hold
    rw [hmore.serial record hadded, hs]
    rfl
  · rw [map_append, hnew.offsets, hmore.offsets, hs, length_append, ← offsetsFrom_append]
    rfl
  · rw [hrecordsMore, hr, append_assoc]
  rw [hstateMore, hs]
  simp [advance, add_assoc]

theorem foldlM_finds {α : Type} {round : PartitionProgress → α → Checked PartitionProgress}
    (size : α → ℕ)
    (hround :
      ∀ before entry after, round before entry = .ok after → Finds before (size entry) after)
    {es : List α} {before after : PartitionProgress} (h : es.foldlM round before = .ok after) :
    Finds before (es.map size).sum after := by
  induction es generalizing before with
  | nil =>
    cases h
    exact Finds.none _
  | cons entry rest ih =>
    obtain ⟨mid, hmid, h⟩ := of_bind h
    exact (hround before entry mid hmid).trans (ih h)

section
variable {config : SessionConfig} {capacity : MessageData → ℕ} {before after : Decoding}
  {memory : MemoryAnswers} {data : PartitionData}

theorem decodeMessage_ok {writtenAtMs : ℤ} {before after : PartitionProgress}
    {msg : MessageData} (h : decodeMessage config capacity writtenAtMs before msg = .ok after) :
    Finds before 1 after := by
  replace h := after_check h
  obtain ⟨hoff, h⟩ := check_bind_eq_ok.mp h
  replace h := after_check h
  obtain ⟨rawBytes, -, h⟩ := of_bind h
  replace h := after_check h
  obtain ⟨stop, hstop, h⟩ := of_bind h
  cases h
  have hoff := ensure_ok.mp hoff
  have hstop := checkedI64_eq_some (okOr_ok.mp hstop)
  refine ⟨[_], rfl, ⟨fun record hrec => ?_, ?_⟩, rfl, ?_⟩
  · rw [mem_singleton.mp hrec]
  · simp [offsetsFrom, hoff]
  · simp [advance, ← hstop, hoff]

theorem decodeBatch_ok {before after : PartitionProgress} {batch : Batch}
    (h : decodeBatch config capacity before batch = .ok after) :
    Finds before batch.messageData.length after := by
  obtain ⟨codec, -, h⟩ := of_bind h
  replace h := after_check h
  obtain ⟨writtenAtMs, -, h⟩ := of_bind h
  have hfinds := foldlM_finds (fun _ => 1) (fun _ _ _ hround => decodeMessage_ok hround) h
  simpa using hfinds

/-- The number of messages in the data for one partition session. -/
def messageCount (data : PartitionData) : ℕ :=
  (data.batches.map (·.messageData.length)).sum

/-- One round of the loop over the partitions of a response. -/
structure Reads (data : PartitionData) (before after : Decoding)
    (state : PartitionSessionState) (new : List TopicRecord) : Prop where
  found : before.sessions.find? data.partitionSessionId = some state
  live : state.invalidated = false ∧ state.pendingGracefulStop = none
  count : new.length = messageCount data
  continues : Continues state new
  sessions :
    after.sessions = before.sessions.insert data.partitionSessionId (state.advance new.length)
  records : after.records = before.records ++ new
  markers :
    after.markers = before.markers ++ rangeMarkers data state.readThrough (state.advance new.length)

theorem decodePartition_ok (h : decodePartition config memory before data = .ok after) :
    ∃ state new, Reads data before after state new := by
  obtain ⟨state, hs, h⟩ := of_bind h
  obtain ⟨hlive, h⟩ := check_bind_eq_ok.mp h
  obtain ⟨progress, hp, h⟩ := of_bind h
  cases h
  obtain ⟨new, hlen, hnew, hr, hnext⟩ :=
    foldlM_finds _ (fun _ _ _ hround => decodeBatch_ok hround) hp
  have hlive := ensure_ok.mp hlive
  refine ⟨state, new, ⟨okOr_ok.mp hs, ⟨by simpa using hlive.1, hlive.2⟩,
    hlen, hnew, ?_, hr, ?_⟩⟩
  · rw [hlen, hnext]
  · rw [hlen, hnext]

/-- Where the loop over the partitions of a response has got to. -/
structure DecodingAt (assignments : List ℤ) (records : List TopicRecord)
    (markers : List PartitionCommitMarker) (decoding : Decoding) : Prop where
  sessions : SessionsAt decoding.sessions assignments
    (records ++ decoding.records) (markers ++ decoding.markers)
  empty : decoding.records = [] → decoding.markers = []

section
variable {assignments : List ℤ} {records : List TopicRecord} {markers : List PartitionCommitMarker}

theorem Reads.decodingAt {state : PartitionSessionState} {new : List TopicRecord}
    (hreads : Reads data before after state new) (h : DecodingAt assignments records markers before)
        :
    DecodingAt assignments records markers after := by
  refine ⟨?_, fun he => ?_⟩
  · rw [hreads.sessions, hreads.records, hreads.markers, ← append_assoc, ← append_assoc]
    exact h.sessions.read hreads.found hreads.continues data
  rw [hreads.records, append_eq_nil_iff] at he
  rw [hreads.markers, h.empty he.1, he.2]
  simp [rangeMarkers, advance]

theorem decodePartitions_at {data : List PartitionData}
    (hloop : data.foldlM (decodePartition config memory) before = .ok after)
    (h : DecodingAt assignments records markers before) :
    DecodingAt assignments records markers after :=
  foldlM_induct (P := fun _ => DecodingAt assignments records markers)
      (fun _ _ _ _ hbefore hround => by
      obtain ⟨state, new, hreads⟩ := decodePartition_ok hround
      exact hreads.decodingAt hbefore) hloop h

end
end
end Transferia.Ydb
