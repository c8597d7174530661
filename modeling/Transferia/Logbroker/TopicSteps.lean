import Transferia.Logbroker.TopicSource

/-!
# What the operations of the topic source do

`Processed` lists what the source can do with a message of the server.  The
other operations have one lemma each, and `Grows` says what an operation that
failed may have recorded.  The invariants of the source are derived from these.
-/

namespace Transferia.Logbroker
open List Transferia.Core Support Action OrderedMap
variable {s t : TopicSource} {config : SourceConfig}
  {growth : Except String Unit} {event : SessionEvent} {failure : DataPlaneFailure}

/-! ## Sending -/

namespace TopicSource
section
variable (s : TopicSource)

/-- Messages are sent, which may bring the loss of the stream closer. -/
def sends (outage : Option (ℕ × Outage)) (messages : List ClientMessage) : TopicSource :=
  { s with outage, trace := s.trace ++ messages.map .sent }

def receives (bytesSize : ℤ) : TopicSource :=
  { s with pendingCredit := s.pendingCredit + bytesSize, trace := s.trace ++ [.received bytesSize] }

/-- The batches of a response are queued and the first one is taken. -/
def reads (sessions : Sessions) (first : SourceBatch) (rest : List SourceBatch) : TopicSource :=
  { s with
    partitionSessions := sessions
    uncommittedBatches := s.uncommittedBatches + (markersOf (first :: rest)).length
    bufferedBatches := s.bufferedBatches ++ rest, trace := s.trace ++ (first :: rest).map .read }

def withSession (id : ℤ) (state : PartitionSessionState) : TopicSource :=
  { s with partitionSessions := s.partitionSessions.insert id state }

def withoutSessions (ids : List ℤ) : TopicSource :=
  { s with partitionSessions := s.partitionSessions.retain (· ∉ ids) }

def commits (outage : Option (ℕ × Outage)) (request : List PartitionCommitOffset)
    (markers : List YdbTopicCommitMarker) : TopicSource :=
  { s with
    outage, uncommittedBatches := s.uncommittedBatches - markers.length
    trace := s.trace ++ [.sent (.commitOffsetRequest request), .acknowledged markers] }

end
end TopicSource
open TopicSource
variable {msg : ClientMessage}

theorem send_ok (h : (send msg).outcome s = (.ok (), t)) : ∃ outage, t = s.sends outage [msg] := by
  obtain ⟨src, mid, ⟨⟩, h⟩ := bind_ok.mp h
  split at h
  · cases h
  all_goals
    cases h
    exact ⟨_, rfl⟩

theorem send_error (h : (send msg).outcome s = (.error failure, t)) : t = s := by
  rw [send, get_bind] at h
  split at h
  · cases h
    rfl
  · cases h
  · cases h

/-! ## Events that do not count -/

def TopicEvent.quiet : TopicEvent → Bool
  | .sent (.startPartitionSessionResponse _) => true
  | .sent (.stopPartitionSessionResponse _ _) => true
  | .assigned _ _ => true
  | .received _ => true
  | _ => false

def Grows (s t : TopicSource) : Prop :=
  ∃ events, t.trace = s.trace ++ events ∧ ∀ event ∈ events, event.quiet

theorem Grows.of_eq (h : t.trace = s.trace) : Grows s t := ⟨[], by simpa using h, by simp⟩

theorem Grows.trans {mid : TopicSource} (hfst : Grows s mid) (hsnd : Grows mid t) : Grows s t := by
  obtain ⟨first, htrace, hq⟩ := hfst
  obtain ⟨snd, htrace', hquiet'⟩ := hsnd
  refine ⟨first ++ snd, by rw [htrace', htrace, append_assoc], ?_⟩
  intro event hevent
  rcases mem_append.mp hevent with hin | hin
  · exact hq event hin
  · exact hquiet' event hin

/-! ## What a trace shows -/

def readBatches (trace : List TopicEvent) : List SourceBatch :=
  trace.filterMap fun event =>
    match event with
    | .read batch => some batch
    | _ => none

/-- The markers that the owner acknowledged and a commit request was sent
for. -/
def acknowledgedMarkers (trace : List TopicEvent) : List YdbTopicCommitMarker :=
  trace.flatMap fun event =>
    match event with
    | .acknowledged markers => markers
    | _ => []

section
variable {trace events : List TopicEvent}

@[simp] theorem readBatches_append :
    readBatches (trace ++ events) = readBatches trace ++ readBatches events :=
  filterMap_append

@[simp] theorem acknowledgedMarkers_append :
    acknowledgedMarkers (trace ++ events) =
      acknowledgedMarkers trace ++ acknowledgedMarkers events :=
  flatMap_append

theorem readBatches_of_quiet (h : ∀ event ∈ events, event.quiet) : readBatches events = [] := by
  refine filterMap_eq_nil_iff.mpr fun event hmem => ?_
  have hq := h event hmem
  cases event <;> first | rfl | cases hq

theorem acknowledgedMarkers_of_quiet (h : ∀ event ∈ events, event.quiet) :
    acknowledgedMarkers events = [] := by
  refine flatMap_eq_nil_iff.mpr fun event hmem => ?_
  have hq := h event hmem
  cases event <;> first | rfl | cases hq

theorem readBatches_map_read (batches : List SourceBatch) :
    readBatches (batches.map .read) = batches := by
  simp [readBatches]

theorem acknowledgedMarkers_map_read (bs : List SourceBatch) :
    acknowledgedMarkers (bs.map .read) = [] := by
  simp [acknowledgedMarkers]

end

def Quiet {α : Type} (action : TopicAction α) : Prop :=
  ∀ s result t, action.outcome s = (result, t) → Grows s t

namespace Quiet
variable {α β : Type}

theorem pure (value : α) : Quiet (Pure.pure value : TopicAction α) := by
  rintro s res t ⟨⟩
  exact .of_eq rfl

theorem lift (checked : Checked α) : Quiet (Action.lift checked) := by
  rintro s res t ⟨⟩
  exact .of_eq rfl

theorem bind {action : TopicAction α} {next : α → TopicAction β}
    (hfst : Quiet action) (hnext : ∀ value, Quiet (next value)) : Quiet (action >>= next) := by
  intro s res t h
  rw [outcome_bind] at h
  split at h
  next value mid hmid => exact (hfst s _ mid hmid).trans (hnext value mid res t h)
  rename_i error mid hmid
  cases h
  exact hfst s _ _ hmid

theorem get_bind {next : TopicSource → TopicAction β} (hnext : ∀ value, Quiet (next value)) :
    Quiet (get >>= next) := by
  intro s res t h
  exact hnext s s res t h

theorem setSession (id : ℤ) (state : PartitionSessionState) : Quiet (setSession id state) := by
  rintro s res t ⟨⟩
  exact .of_eq rfl

theorem removeSession (id : ℤ) : Quiet (removeSession id) := by
  rintro s res t ⟨⟩
  exact .of_eq rfl

theorem record {event : TopicEvent} (hq : event.quiet) : Quiet (record event) := by
  rintro s res t ⟨⟩
  exact ⟨[event], rfl, by simpa using hq⟩

theorem send (hq : (TopicEvent.sent msg).quiet) : Quiet (send msg) := by
  refine get_bind fun src => ?_
  split
  · rintro s res t ⟨⟩
    exact .of_eq rfl
  · rintro s res t ⟨⟩
    exact ⟨_, rfl, by simpa using hq⟩
  exact record hq

end Quiet

theorem quiet_releaseSessions (ids : List ℤ) : Quiet (releaseSessions ids) := by
  induction ids with
  | nil => exact .pure ()
  | cons id rest ih => exact .bind (.send rfl) fun _ => .bind (.removeSession id) fun _ => ih

theorem quiet_startPartitionSession (req : StartPartitionSessionRequest) :
    Quiet (startPartitionSession config req) := by
  refine .bind (.lift _) fun sess => .bind (.lift _) fun _ => ?_
  refine .bind ?_ fun _ => .bind (.send rfl) fun _ => .pure _
  refine .get_bind fun src => ?_
  dsimp only
  split
  · exact .lift _
  · exact .bind (.lift _) fun _ => .bind (.setSession _ _) fun _ => .record rfl

theorem quiet_stopPartitionSession (req : StopPartitionSessionRequest) :
    Quiet (stopPartitionSession req) := by
  refine .get_bind fun src => ?_
  split
  · exact .bind (.send rfl) fun _ => .pure _
  split
  · refine .bind (.setSession _ _) fun _ => ?_
    refine .bind (.get_bind fun _ => quiet_releaseSessions _) fun _ => ?_
    exact .pure _
  refine .bind (.setSession _ _) fun _ => .bind (.send rfl) fun _ => ?_
  split
  · exact .bind (.removeSession _) fun _ => .pure _
  · exact .pure _

/-! ## Messages of the server -/

variable {message : ServerMessage} {sessions sessions' : Sessions} {response : ReadResponse}

/-- What the source does with a message of the server. -/
inductive Processed (config : SourceConfig) (s : TopicSource) :
    ServerMessage → SessionEvent → TopicSource → Prop
  | startedAgain {request : StartPartitionSessionRequest} {session : PartitionSession}
      (outage : Option (ℕ × Outage)) (hsession : request.partitionSession = some session)
      (hknown : s.partitionSessions.find? session.partitionSessionId ≠ none) :
      Processed config s (.startPartitionSessionRequest request) .continueReading
      (s.sends outage [.startPartitionSessionResponse session.partitionSessionId])
  | started {request : StartPartitionSessionRequest}
      {session : PartitionSession} (outage : Option (ℕ × Outage))
      (hsession : request.partitionSession = some session)
      (hnew : s.partitionSessions.find? session.partitionSessionId = none) :
      Processed config s (.startPartitionSessionRequest request) .continueReading
        (({ s.withSession session.partitionSessionId
              (.fresh session request.committedOffset) with
            trace := s.trace ++ [.assigned session.partitionSessionId request.committedOffset]
              } : TopicSource).sends outage
          [.startPartitionSessionResponse session.partitionSessionId])
  | readNothing {response : ReadResponse} (hpositive : 0 < response.bytesSize) :
      Processed config s (.readResponse response) .continueReading (s.receives response.bytesSize)
  | read {response : ReadResponse} {parts : List SessionBatches}
      {decoded : List DecodedPart} {sessions : Sessions} {topicBatches : TopicBatches}
      {first : SourceBatch} {rest : List SourceBatch} (hpositive : 0 < response.bytesSize)
      (hparts : partitionBatches s.partitionSessions response.partitionData = .ok parts)
      (hdecoded : parts.mapM (decodePart config) = .ok decoded)
      (hread : decoded.foldlM readPart (s.partitionSessions, .empty) = .ok (sessions, topicBatches))
      (hbatches : sourceBatches topicBatches = first :: rest) : Processed config s (.readResponse
      response) (.batch first) ((s.receives response.bytesSize).reads sessions first rest)
  | confirmed {committed : List PartitionCommittedOffset} {sessions : Sessions}
      (hconfirm : committed.foldlM confirm s.partitionSessions = .ok sessions) : Processed config s
      (.commitOffsetResponse committed) .commitAck { s with partitionSessions := sessions }
  | stopUnknown {request : StopPartitionSessionRequest} (outage : Option (ℕ × Outage))
      (hunknown : s.partitionSessions.find? request.partitionSessionId = none) :
      Processed config s (.stopPartitionSessionRequest request) .continueReading
      (s.sends outage [.stopPartitionSessionResponse request.partitionSessionId request.graceful])
  | stopGracefully {request : StopPartitionSessionRequest}
      {state : PartitionSessionState} {marked : TopicSource} (outage : Option (ℕ × Outage))
      (hfind : s.partitionSessions.find? request.partitionSessionId = some state)
      (hgraceful : request.graceful)
      (hmarked : marked = s.withSession request.partitionSessionId { state with
          committedOffset := max state.committedOffset request.committedOffset
          pendingGracefulStop := true }) :
      Processed config s (.stopPartitionSessionRequest request) .continueReading
        ((marked.sends outage ((releasableSessionIds marked.partitionSessions).map
        fun id => .stopPartitionSessionResponse id true)).withoutSessions
        (releasableSessionIds marked.partitionSessions))
  | stopNow {request : StopPartitionSessionRequest}
      {state : PartitionSessionState} (outage : Option (ℕ × Outage))
      (hfind : s.partitionSessions.find? request.partitionSessionId = some state) :
      Processed config s (.stopPartitionSessionRequest request) .continueReading
        (((s.withSession request.partitionSessionId { state with invalidated := true }).sends outage
          [.stopPartitionSessionResponse request.partitionSessionId false]).withoutSessions
          (if state.readThrough ≤ state.committedOffset then
            [request.partitionSessionId] else []))
  | unchanged {message : ServerMessage} (hother : ∀ committed,
      message ≠ .commitOffsetResponse committed) : Processed config s message .continueReading s

@[simp] theorem withoutSessions_nil : s.withoutSessions [] = s := by simp [withoutSessions, retain]

theorem outcome_removeSession (id : ℤ) :
    (removeSession id).outcome s = (.ok (), s.withoutSessions [id]) := by
  simp [removeSession, withoutSessions]
  rfl

theorem releaseSessions_ok {ids : List ℤ} (h : (releaseSessions ids).outcome s = (.ok (), t)) :
    ∃ outage, t =
      (s.sends outage (ids.map fun id => .stopPartitionSessionResponse id true)).withoutSessions
        ids := by
  induction ids generalizing s with
  | nil =>
    cases h
    exact ⟨t.outage, by simp [sends]⟩
  | cons id rest ih =>
    obtain ⟨_, mid, hsend, h⟩ := bind_ok.mp h
    obtain ⟨_, rfl⟩ := send_ok hsend
    obtain ⟨_, mid, hremove, h⟩ := bind_ok.mp h
    cases hremove
    obtain ⟨outage, rfl⟩ := ih h
    refine ⟨outage, ?_⟩
    simp [sends, withoutSessions, retain_retain]

theorem startPartitionSession_ok {req : StartPartitionSessionRequest}
    (h : (startPartitionSession config req).outcome s = (.ok event, t)) :
    Processed config s (.startPartitionSessionRequest req) event t := by
  obtain ⟨sess, hsession, h⟩ := lift_bind_ok.mp h
  obtain ⟨_, _, h⟩ := lift_bind_ok.mp h
  obtain ⟨_, mid, ha, h⟩ := bind_ok.mp h
  obtain ⟨_, last, hsend, h⟩ := bind_ok.mp h
  obtain ⟨outage, rfl⟩ := send_ok hsend
  cases h
  have hsession := okOr_ok.mp hsession
  rw [assign, get_bind] at ha
  dsimp only at ha
  split at ha
  next cur hknown =>
    obtain ⟨_, rfl⟩ := Prod.mk.inj ha
    exact .startedAgain outage hsession (by simp [hknown])
  rename_i hnew
  obtain ⟨_, _, ha⟩ := lift_bind_ok.mp ha
  cases ha
  exact .started outage hsession hnew

theorem stopPartitionSession_ok {req : StopPartitionSessionRequest}
    (h : (stopPartitionSession req).outcome s = (.ok event, t)) :
    Processed config s (.stopPartitionSessionRequest req) event t := by
  rw [stopPartitionSession, get_bind] at h
  split at h
  next hunknown =>
    obtain ⟨_, mid, hsend, h⟩ := bind_ok.mp h
    obtain ⟨outage, rfl⟩ := send_ok hsend
    cases h
    exact .stopUnknown outage hunknown
  rename_i state hfind
  split at h
  next hgraceful =>
    obtain ⟨_, mid, ⟨⟩, h⟩ := bind_ok.mp h
    obtain ⟨_, mid, hrelease, h⟩ := bind_ok.mp h
    cases h
    obtain ⟨outage, rfl⟩ := releaseSessions_ok hrelease
    exact .stopGracefully outage hfind hgraceful rfl
  obtain ⟨_, mid, ⟨⟩, h⟩ := bind_ok.mp h
  obtain ⟨_, mid, hsend, h⟩ := bind_ok.mp h
  obtain ⟨outage, rfl⟩ := send_ok hsend
  have hstop : Processed config s _ _ _ := .stopNow outage hfind
  split at h
  next hdone =>
    obtain ⟨_, mid, hremove, h⟩ := bind_ok.mp h
    rw [outcome_removeSession] at hremove
    cases hremove
    cases h
    rwa [if_pos hdone] at hstop
  rename_i hdone
  cases h
  rwa [if_neg hdone, withoutSessions_nil] at hstop

theorem confirm_ok {off : PartitionCommittedOffset} (h : confirm sessions off = .ok sessions') :
    ∃ state, sessions.find? off.partitionSessionId = some state ∧
      sessions' =
        sessions.insert off.partitionSessionId
          { state with committedOffset := max state.committedOffset off.committedOffset } := by
  obtain ⟨state, hs, h⟩ := of_bind h
  cases h
  exact ⟨state, okOr_ok.mp hs, rfl⟩

/-- The marker that the data of a session adds to its batch. -/
def DecodedPart.marker (part : DecodedPart) (low high : ℤ) : PartitionCommitMarker :=
  { topicPath := part.data.topicPath
    partitionId := part.data.partitionId, partitionSessionId := part.data.partitionSessionId
    ranges := [⟨low, high⟩] }

theorem readPart_ok {topics topics' : TopicBatches} {part : DecodedPart}
    (h : readPart (sessions, topics) part = .ok (sessions', topics')) :
    ∃ msgs parts, (topics.find? part.data.topicPath).getD ([], []) = (msgs, parts) ∧
      ((part.decoded.ranges = [] ∧
        sessions' = sessions ∧
        topics' = topics.insert part.data.topicPath (msgs ++ part.decoded.messages, parts)) ∨
        ∃ state readThrough, (part.decoded.ranges.map OffsetsRange.stop).max? = some readThrough ∧
          sessions.find? part.data.partitionSessionId = some state ∧
          state.readThrough < readThrough ∧
          sessions' = sessions.insert part.data.partitionSessionId { state with readThrough } ∧
          topics' =
            topics.insert part.data.topicPath
              (msgs ++ part.decoded.messages, parts ++
                [part.marker state.readThrough readThrough])) := by
  unfold readPart at h
  rcases hentry : (topics.find? part.data.topicPath).getD ([], []) with ⟨msgs, parts⟩
  refine ⟨msgs, parts, rfl, ?_⟩
  simp only [hentry] at h
  split at h
  next hempty =>
    cases h
    exact .inl ⟨hempty, rfl, rfl⟩
  obtain ⟨readThrough, hmax, h⟩ := of_bind h
  obtain ⟨state, hs, h⟩ := of_bind h
  obtain ⟨range, hr, h⟩ := of_bind h
  cases h
  unfold continuousCommitRange at hr
  split at hr
  next hlt =>
    cases hr
    refine .inr ⟨state, readThrough, okOr_ok.mp hmax, okOr_ok.mp hs, hlt, ?_, rfl⟩
    rw [max_eq_right hlt.le]
  · cases hr

theorem markersOf_append (first second : List SourceBatch) :
    markersOf (first ++ second) = markersOf first ++ markersOf second :=
  filterMap_append

theorem markersOf_cons (batch : SourceBatch) (rest : List SourceBatch) :
    markersOf (batch :: rest) = batch.commitMarker.toList ++ markersOf rest := by
  cases h : batch.commitMarker <;> simp [markersOf, h]

theorem decodeParts_ok {parts : List SessionBatches} {decoded : List DecodedPart}
    (h : decodeParts config parts growth = .ok decoded) :
    parts.mapM (decodePart config) = .ok decoded := by
  iterate 4 obtain ⟨_, _, h⟩ := of_bind h
  obtain ⟨found, hget, h⟩ := of_bind h
  iterate 3 obtain ⟨_, _, h⟩ := of_bind h
  cases h
  exact hget

theorem decodeResponse_ok (h : (decodeResponse config response growth).outcome s = (.ok event, t)) :
    Processed config s (.readResponse response) event t := by
  obtain ⟨_, hpositive, h⟩ := lift_bind_ok.mp h
  rw [get_bind] at h
  obtain ⟨credit, hcredit, h⟩ := lift_bind_ok.mp h
  obtain ⟨_, mid, ⟨⟩, h⟩ := bind_ok.mp h
  obtain ⟨_, mid, ⟨⟩, h⟩ := bind_ok.mp h
  obtain ⟨parts, hparts, h⟩ := lift_bind_ok.mp h
  have hpositive := ensure_ok.mp hpositive
  obtain rfl := checkedI64_eq_some (okOr_ok.mp hcredit)
  split at h
  · cases h
    exact .readNothing hpositive
  obtain ⟨decoded, hdecoded, h⟩ := lift_bind_ok.mp h
  obtain ⟨⟨sessions, topicBatches⟩, hread, h⟩ := lift_bind_ok.mp h
  obtain ⟨uncommitted, hu, h⟩ := lift_bind_ok.mp h
  obtain ⟨_, rfl⟩ := checkedAdd_eq_some.mp (okOr_ok.mp hu)
  split at h
  · cases h
  rename_i first rest hbatches
  cases h
  have hread := Processed.read hpositive hparts (decodeParts_ok hdecoded) hread hbatches
  simpa [reads, receives, hbatches] using hread

theorem processMessage_ok (h : (processMessage config growth message).outcome s = (.ok event, t)) :
    Processed config s message event t := by
  cases message with
  | initResponse sessionId => cases h
  | startPartitionSessionRequest req => exact startPartitionSession_ok h
  | readResponse resp => exact decodeResponse_ok h
  | commitOffsetResponse committed =>
    obtain ⟨_, _, h⟩ := lift_bind_ok.mp h
    rw [get_bind] at h
    obtain ⟨sessions, hconfirm, h⟩ := lift_bind_ok.mp h
    cases h
    exact .confirmed hconfirm
  | stopPartitionSessionRequest req => exact stopPartitionSession_ok h
  | endPartitionSession id | updatePartitionSession id =>
    rw [processMessage, knownSession, get_bind] at h
    obtain ⟨_, _, h⟩ := lift_bind_ok.mp h
    cases h
    exact .unchanged (by simp)
  | partitionSessionStatusResponse | updateTokenResponse =>
    cases h
    exact .unchanged (by simp)

theorem decodeResponse_error
    (h : (decodeResponse config response growth).outcome s = (.error failure, t)) : Grows s t := by
  rcases lift_bind_error.mp h with ⟨_, rfl⟩ | ⟨_, _, h⟩
  · exact .of_eq rfl
  rw [get_bind] at h
  rcases lift_bind_error.mp h with ⟨_, rfl⟩ | ⟨credit, _, h⟩
  · exact .of_eq rfl
  rw [modify_bind, record, modify_bind] at h
  have hr : Grows s
      { s with pendingCredit := credit, trace := s.trace ++ [.received response.bytesSize] } :=
    ⟨_, rfl, by simp [TopicEvent.quiet]⟩
  rcases lift_bind_error.mp h with ⟨_, rfl⟩ | ⟨parts, _, h⟩
  · exact hr
  split at h
  · cases h
  rcases lift_bind_error.mp h with ⟨_, rfl⟩ | ⟨decoded, _, h⟩
  · exact hr
  rcases lift_bind_error.mp h with ⟨_, rfl⟩ | ⟨_, _, h⟩
  · exact hr
  rcases lift_bind_error.mp h with ⟨_, rfl⟩ | ⟨_, _, h⟩
  · exact hr
  split at h
  · cases h
    exact hr
  · cases h

theorem processMessage_error
    (h : (processMessage config growth message).outcome s = (.error failure, t)) : Grows s t := by
  cases message with
  | initResponse sessionId =>
    cases h
    exact .of_eq rfl
  | startPartitionSessionRequest req => exact quiet_startPartitionSession req s _ t h
  | readResponse resp => exact decodeResponse_error h
  | commitOffsetResponse committed =>
    rcases lift_bind_error.mp h with ⟨_, rfl⟩ | ⟨_, _, h⟩
    · exact .of_eq rfl
    rw [get_bind] at h
    rcases lift_bind_error.mp h with ⟨_, rfl⟩ | ⟨_, _, h⟩
    · exact .of_eq rfl
    · cases h
  | stopPartitionSessionRequest req => exact quiet_stopPartitionSession req s _ t h
  | endPartitionSession id | updatePartitionSession id =>
    exact Quiet.get_bind (fun _ => .bind (.lift _) fun _ => .pure _) s _ t h
  | partitionSessionStatusResponse | updateTokenResponse => cases h

/-! ## Credit and commits -/

theorem replenishCredit_ok (h : replenishCredit.outcome s = (.ok (), t)) :
    (s.uncommittedBatches = 0 ∧ 0 < s.pendingCredit ∧ ∃ outage,
    t = ({ s with pendingCredit := 0 } : TopicSource).sends outage [.readRequest s.pendingCredit]) ∨
    ((0 < s.uncommittedBatches ∨ s.pendingCredit ≤ 0) ∧ t = s) := by
  rw [replenishCredit, get_bind] at h
  unfold takeReleasableCredit at h
  dsimp only at h
  split_ifs at h with hheld hnone
  · cases h
    exact .inr ⟨hheld.symm, rfl⟩
  · exact absurd le_rfl hnone
  · omega
  obtain ⟨outage, rfl⟩ := send_ok h
  exact .inl ⟨by omega, by omega, outage, rfl⟩

theorem replenishCredit_error (h : replenishCredit.outcome s = (.error failure, t)) :
    t.trace = s.trace := by
  rw [replenishCredit, get_bind] at h
  rw [modify_bind] at h
  split at h
  · cases h
  · rw [send_error h]

theorem filterMap_topic (markers : List YdbTopicCommitMarker) :
    (markers.map CommitMarker.topic).filterMap CommitMarker.topic? = markers := by
  simp [Function.comp_def, CommitMarker.topic?]

section
variable {markers : List YdbTopicCommitMarker}

theorem commitOffsets_ok (h : (commitOffsets (markers.map .topic)).outcome s = (.ok (), t)) :
    (markers = [] ∧ t = s) ∨ (markers ≠ [] ∧ markers.length ≤ s.uncommittedBatches ∧
    ∃ req outage, buildCommitRequest (markers.map .topic) s.partitionSessions = .ok req ∧
    replenishCredit.outcome (s.commits outage req markers) = (.ok (), t)) := by
  unfold commitOffsets at h
  split at h
  next hnil =>
    cases h
    exact .inl ⟨by simpa using hnil, rfl⟩
  rename_i hne
  rw [get_bind] at h
  obtain ⟨req, hrequest, h⟩ := lift_bind_ok.mp h
  obtain ⟨_, mid, hsend, h⟩ := bind_ok.mp h
  obtain ⟨outage, rfl⟩ := send_ok hsend
  rw [record, modify_bind, get_bind, filterMap_topic] at h
  obtain ⟨_, hcount, h⟩ := lift_bind_ok.mp h
  rw [modify_bind] at h
  have hcount := ensure_ok.mp hcount
  rw [length_map] at hcount
  refine .inr ⟨by simpa using hne, hcount, req, outage, hrequest, ?_⟩
  simpa [commits, sends] using h

theorem commitOffsets_error
    (h : (commitOffsets (markers.map .topic)).outcome s = (.error failure, t)) :
    t.trace = s.trace ∨ ∃ req,
    buildCommitRequest (markers.map .topic) s.partitionSessions = .ok req ∧
    t.trace = s.trace ++ [.sent (.commitOffsetRequest req), .acknowledged markers] := by
  unfold commitOffsets at h
  split at h
  · cases h
  rw [get_bind] at h
  rcases lift_bind_error.mp h with ⟨_, rfl⟩ | ⟨req, hrequest, h⟩
  · exact .inl rfl
  rcases bind_error.mp h with hsend | ⟨_, mid, hsend, h⟩
  · exact .inl (congrArg trace (send_error hsend))
  obtain ⟨outage, rfl⟩ := send_ok hsend
  rw [record, modify_bind, get_bind, filterMap_topic] at h
  refine .inr ⟨req, hrequest, ?_⟩
  rcases lift_bind_error.mp h with ⟨_, rfl⟩ | ⟨_, _, h⟩
  · simp [sends]
  rw [replenishCredit_error h]
  simp [sends]

end

/-! ## Steps of a run -/

theorem Processed.grows (h : Processed config s message event t)
    (hevent : ∀ batch, event ≠ .batch batch) : Grows s t := by
  cases h with
  | startedAgain | readNothing | stopUnknown | stopNow => exact ⟨_, rfl, by simp [TopicEvent.quiet]⟩
  | started => exact ⟨_, append_assoc _ _ _, by simp [TopicEvent.quiet]⟩
  | read => exact absurd rfl (hevent _)
  | confirmed | unchanged => exact .of_eq rfl
  | stopGracefully outage hfind hgraceful hmarked =>
    subst hmarked
    exact ⟨_, rfl, by simp [TopicEvent.quiet]⟩

/-- What a step can do to a run. -/
inductive RunStep (config : SourceConfig) (run : TopicRun) :
    TopicLabel → TopicRun → Prop
  | lost (left : ℕ) (outage : Outage) : RunStep config run
      (.lose left outage) { run with source := { run.source with outage := some (left, outage) } }
  | stopped {label : TopicLabel} {t : TopicSource} (failure : DataPlaneFailure) (hgrows : Grows
      run.source t) : RunStep config run label { run with source := t, phase := .stopped failure }
  | stoppedWithData {response : FromServer} {growth : Except String Unit}
      {message : ServerMessage} {batch : SourceBatch} {t : TopicSource} (failure : DataPlaneFailure)
      (hphase : run.phase = .connecting) (hmessage : response.serverMessage = some message)
      (hprocessed : Processed config run.source message (.batch batch) t) : RunStep config run
      (.respond response growth) { run with source := t, phase := .stopped failure }
  | stoppedAfterCommit {markers : List YdbTopicCommitMarker} {request : List PartitionCommitOffset}
      {t : TopicSource} (failure : DataPlaneFailure) (hphase : run.phase = .idle)
      (hmarkers : markers.Subperm run.handedOut) (hrequest : buildCommitRequest
      (markers.map .topic) run.source.partitionSessions = .ok request) (htrace : t.trace =
      run.source.trace ++ [.sent (.commitOffsetRequest request), .acknowledged markers]) :
      RunStep config run (.commit markers) { run with source := t, phase := .stopped failure }
  | granted {response : FromServer} {growth : Except String Unit}
      {sessionId : String} (outage : Option (ℕ × Outage)) (hphase : run.phase = .connecting)
      (hmessage : response.serverMessage = some (.initResponse sessionId)) :
      RunStep config run (.respond response growth)
        { run with
          source := run.source.sends outage [.readRequest config.readBufferBytes], phase := .idle }
  | connecting {response : FromServer} {growth : Except String Unit} {message : ServerMessage}
      {event : SessionEvent} {t : TopicSource} (hphase : run.phase = .connecting)
      (hmessage : response.serverMessage = some message) (hprocessed : Processed
      config run.source message event t) (hevent : ∀ batch, event ≠ .batch batch) :
      RunStep config run (.respond response growth) { run with source := t, phase := .connecting }
  | processed {response : FromServer} {growth : Except String Unit} {message : ServerMessage}
      {event : SessionEvent} {mid t : TopicSource} (hphase : run.phase = .waiting) (hmessage :
      response.serverMessage = some message) (hprocessed : Processed config run.source message event
      mid) (hevent : ∀ batch, event ≠ .batch batch) (hreplenish : replenishCredit.outcome mid =
      (.ok (), t)) : RunStep config run (.respond response growth) { run with source := t }
  | read {response : FromServer} {growth : Except String Unit}
      {message : ServerMessage} {batch : SourceBatch} {t : TopicSource}
      (hphase : run.phase = .waiting) (hmessage : response.serverMessage = some message)
      (hprocessed : Processed config run.source message (.batch batch) t) : RunStep config run
      (.respond response growth) (TopicRun.handOut { run with source := t } batch)
  | popped {batch : SourceBatch} {rest : List SourceBatch} (hphase : run.phase = .idle)
      (hbuffered : run.source.bufferedBatches = batch :: rest) : RunStep config run .callRead
      (TopicRun.handOut { run with source := { run.source with bufferedBatches := rest } } batch)
  | waits {t : TopicSource} (hphase : run.phase = .idle) (hbuffered : run.source.bufferedBatches =
      []) (hreplenish : replenishCredit.outcome run.source = (.ok (), t)) :
      RunStep config run .callRead { run with source := t, phase := .waiting }
  | committedNothing (hphase : run.phase = .idle) : RunStep config run (.commit []) run
  | committed {markers : List YdbTopicCommitMarker} {request : List PartitionCommitOffset}
      {outage : Option (ℕ × Outage)} {t : TopicSource} (hphase : run.phase = .idle)
      (hmarkers : markers.Subperm run.handedOut) (hne : markers ≠ []) (hcount : markers.length ≤
      run.source.uncommittedBatches) (hrequest : buildCommitRequest (markers.map .topic)
      run.source.partitionSessions = .ok request) (hreplenish : replenishCredit.outcome
      (run.source.commits outage request markers) = (.ok (), t)) : RunStep config run
      (.commit markers) { run with source := t, handedOut := run.handedOut.diff markers }

namespace TopicRun
variable {run next : TopicRun} {response : FromServer}

theorem respond_connecting_cases (hphase : run.phase = .connecting)
    (h : run.respond config response growth = some next) :
    RunStep config run (.respond response growth) next := by
  rw [respond, hphase] at h
  simp only [perform, Option.some.injEq] at h
  split at h
  next phase t hok =>
    subst h
    obtain ⟨_, _, hok⟩ := lift_bind_ok.mp hok
    split at hok
    · cases hok
    next sessionId hmessage =>
      iterate 2 obtain ⟨_, _, hok⟩ := lift_bind_ok.mp hok
      obtain ⟨_, mid, hsend, hok⟩ := bind_ok.mp hok
      obtain ⟨outage, rfl⟩ := send_ok hsend
      cases hok
      exact .granted outage hphase hmessage
    rename_i msg hinit hmessage
    obtain ⟨event, mid, hproc, hok⟩ := bind_ok.mp hok
    have hprocessed := processMessage_ok hproc
    split at hok
    · cases hok
    rename_i hevent
    cases hok
    exact .connecting hphase hmessage hprocessed hevent
  rename_i fail t herr
  subst h
  rcases lift_bind_error.mp herr with ⟨_, rfl⟩ | ⟨_, _, herr⟩
  · exact .stopped fail (.of_eq rfl)
  split at herr
  · cases herr
    exact .stopped _ (.of_eq rfl)
  next sessionId hmessage =>
    iterate 2
      rcases lift_bind_error.mp herr with ⟨_, rfl⟩ | ⟨_, _, herr⟩
      · exact .stopped fail (.of_eq rfl)
    rcases bind_error.mp herr with hsend | ⟨_, _, _, herr⟩
    · rw [send_error hsend]
      exact .stopped fail (.of_eq rfl)
    · cases herr
  rename_i msg hinit hmessage
  rcases bind_error.mp herr with hproc | ⟨event, mid, hproc, herr⟩
  · exact .stopped fail (processMessage_error hproc)
  have hprocessed := processMessage_ok hproc
  split at herr
  · cases herr
    exact .stoppedWithData _ hphase hmessage hprocessed
  · cases herr

theorem respond_waiting_cases (hphase : run.phase = .waiting)
    (h : run.respond config response growth = some next) :
    RunStep config run (.respond response growth) next := by
  rw [respond, hphase] at h
  simp only [perform, Option.some.injEq] at h
  split at h
  next batch t hok =>
    subst h
    obtain ⟨_, _, hok⟩ := lift_bind_ok.mp hok
    split at hok
    · cases hok
    rename_i msg hmessage
    obtain ⟨event, mid, hproc, hok⟩ := bind_ok.mp hok
    have hprocessed := processMessage_ok hproc
    split at hok
    · cases hok
      exact .read hphase hmessage hprocessed
    rename_i hevent
    obtain ⟨_, last, hreplenish, hok⟩ := bind_ok.mp hok
    cases hok
    exact .processed hphase hmessage hprocessed hevent hreplenish
  rename_i fail t herr
  subst h
  rcases lift_bind_error.mp herr with ⟨_, rfl⟩ | ⟨_, _, herr⟩
  · exact .stopped fail (.of_eq rfl)
  split at herr
  · cases herr
    exact .stopped _ (.of_eq rfl)
  rcases bind_error.mp herr with hproc | ⟨event, mid, hproc, herr⟩
  · exact .stopped fail (processMessage_error hproc)
  have hprocessed := processMessage_ok hproc
  split at herr
  · cases herr
  rename_i hevent
  rcases bind_error.mp herr with hreplenish | ⟨_, _, _, herr⟩
  · exact .stopped fail
      ((hprocessed.grows hevent).trans (.of_eq (replenishCredit_error hreplenish)))
  · cases herr

theorem callRead_cases (h : run.callRead = some next) : RunStep config run .callRead next := by
  unfold callRead at h
  split at h
  next hphase =>
    split at h
    next batch rest hbuffered =>
      cases h
      exact .popped hphase hbuffered
    rename_i hbuffered
    simp only [perform, Option.some.injEq] at h
    split at h
    next t hok =>
      subst h
      exact .waits hphase hbuffered hok
    rename_i fail t herr
    subst h
    exact .stopped fail (.of_eq (replenishCredit_error herr))
  · cases h

theorem commit_cases {mks : List YdbTopicCommitMarker} (h : run.commit mks = some next) :
    RunStep config run (.commit mks) next := by
  unfold commit at h
  split at h
  next hphase =>
    rw [Option.ite_none_right_eq_some] at h
    obtain ⟨hmarkers, h⟩ := h
    simp only [perform, Option.some.injEq] at h
    split at h
    next t hok =>
      subst h
      obtain ⟨rfl, rfl⟩ | ⟨hne, hcount, req, outage, hrequest, hreplenish⟩ := commitOffsets_ok hok
      · exact .committedNothing hphase
      · exact .committed hphase hmarkers hne hcount hrequest hreplenish
    rename_i fail t herr
    subst h
    obtain htrace | ⟨req, hrequest, htrace⟩ := commitOffsets_error herr
    · exact .stopped fail (.of_eq htrace)
    · exact .stoppedAfterCommit fail hphase hmarkers hrequest htrace
  · cases h

theorem step_cases {label : TopicLabel} (h : run.step config label = some next) :
    RunStep config run label next := by
  cases label with
  | lose left outage =>
    simp only [step, lose] at h
    split at h
    · cases h
      exact .lost left outage
    · cases h
  | respond resp growth =>
    cases hphase : run.phase with
    | connecting => exact respond_connecting_cases hphase h
    | waiting => exact respond_waiting_cases hphase h
    | idle | stopped fail => simp [step, respond, hphase] at h
  | receiveFailed fail =>
    simp only [step, receiveFailed] at h
    split at h <;> cases h
    all_goals exact .stopped fail (.of_eq rfl)
  | callRead => exact callRead_cases h
  | commit markers => exact commit_cases h

end TopicRun
section Example

def exampleConfig : SourceConfig where
  topicFilters := [("t", none)]
  allowTtlRewind := false
  readBufferBytes := 100
  codecs := { gzip := fun _ data => .ok data, zstd := fun _ data => .ok data }

def serverLabel (message : ServerMessage) : TopicLabel :=
  .respond { status := 0, issues := [], serverMessage := some message } (.ok ())

def assignSession : List TopicLabel :=
  [serverLabel (.initResponse "session"), .callRead, serverLabel (.startPartitionSessionRequest
    { partitionSession := some { partitionSessionId := 1, path := "t", partitionId := 0 }
      committedOffset := 0, partitionOffsets := none })]

/-- A response of ten bytes with a batch of the messages at these offsets. -/
def readOffsets (offsets : List ℤ) : TopicLabel :=
  serverLabel (.readResponse
    { bytesSize := 10
      partitionData :=
        [{ partitionSessionId := 1
           batches :=
            [{ producerId := [], codec := 1, writtenAt := none
               messageData := offsets.map fun offset =>
                { offset, data := [7], uncompressedSize := 1, metadataItems := [] } }] }] })

def readOneMessage : List TopicLabel := assignSession ++ [readOffsets [3]]

def rangeMarker (range : OffsetsRange) : YdbTopicCommitMarker where
  partitions :=
    [{ topicPath := "t", partitionId := 0, partitionSessionId := 1, ranges := [range] }]

def exampleMarker : YdbTopicCommitMarker := rangeMarker ⟨0, 4⟩

end Example
end Transferia.Logbroker
