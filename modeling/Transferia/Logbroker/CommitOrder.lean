import Transferia.Logbroker.CommitRanges

/-!
# The order of commits

The history of a session is a chain of ranges without a gap: first those sent in
commit requests, then those in the markers of batches that were not
acknowledged.  The owner acknowledges batches in the order in which it received
them; the server sends the messages of a session in the order of their offsets,
and does not use the id of a session twice in one connection.
-/

namespace Transferia.Logbroker
open List Option Transferia.Core Support OrderedMap
variable {config : SourceConfig} {trace events : List TopicEvent} {id : ℤ}

/-! ## The history of a session -/

def initialOffset (id : ℤ) (trace : List TopicEvent) : Option ℤ :=
  trace.findSome? fun event =>
    match event with
    | .assigned assigned offset => if assigned = id then some offset else none
    | _ => none

def commitRequests (trace : List TopicEvent) : List (List PartitionCommitOffset) :=
  trace.filterMap fun event =>
    match event with
    | .sent (.commitOffsetRequest request) => some request
    | _ => none

/-- The ranges that were sent in commit requests for a session. -/
def committedRanges (id : ℤ) (trace : List TopicEvent) : List OffsetsRange :=
  (commitRequests trace).flatMap (requestRanges id)

/-- The markers that were read and not acknowledged, when batches are
acknowledged in the order of reading. -/
def unacknowledged (trace : List TopicEvent) : List YdbTopicCommitMarker :=
  (markersOf (readBatches trace)).drop (acknowledgedMarkers trace).length

section
variable (id : ℤ) (trace : List TopicEvent)

def Chain (high : ℤ) : Prop :=
  ∃ initial mid, initialOffset id trace = some initial ∧ Contiguous initial
    (committedRanges id trace) mid ∧ Contiguous mid (markerRanges id (unacknowledged trace)) high

/-- Nothing happened for this session. -/
structure Untouched : Prop where
  initial : initialOffset id trace = none
  committed : committedRanges id trace = []
  waiting : markerRanges id (unacknowledged trace) = []

def Accounted : Prop :=
  Untouched id trace ∨ ∃ high, Chain id trace high

end

theorem initialOffset_append :
    initialOffset id (trace ++ events) = (initialOffset id trace).or (initialOffset id events) :=
  findSome?_append

theorem commitRequests_append :
    commitRequests (trace ++ events) = commitRequests trace ++ commitRequests events :=
  filterMap_append

/-! ## Events without effect on the ranges -/

/-- Events that neither commit, nor read, nor acknowledge. -/
structure Neutral (events : List TopicEvent) : Prop where
  commits : commitRequests events = []
  reads : readBatches events = []
  acknowledges : acknowledgedMarkers events = []

theorem neutral_of_quiet (h : ∀ event ∈ events, event.quiet) : Neutral events where
  commits := by
    refine filterMap_eq_nil_iff.mpr fun event hmem => ?_
    have hq := h event hmem
    cases event with
    | sent msg =>
      cases msg with
      | commitOffsetRequest req => cases hq
      | _ => rfl
    | _ => rfl
  reads := readBatches_of_quiet h
  acknowledges := acknowledgedMarkers_of_quiet h

theorem neutral_readRequest (size : ℤ) : Neutral [.sent (.readRequest size)] := ⟨rfl, rfl, rfl⟩

namespace Neutral
section
variable (h : Neutral events)
include h

theorem committed : committedRanges id (trace ++ events) = committedRanges id trace := by
  simp [committedRanges, commitRequests_append, h.commits]

theorem waiting : unacknowledged (trace ++ events) = unacknowledged trace := by
  simp [unacknowledged, h.reads, h.acknowledges]

theorem chain {high : ℤ} (hchain : Chain id trace high) : Chain id (trace ++ events) high := by
  obtain ⟨initial, mid, hinit, hcommitted, hwait⟩ := hchain
  refine ⟨initial, mid, ?_, ?_, ?_⟩
  · rw [initialOffset_append, hinit, some_or]
  · rwa [h.committed]
  · rwa [h.waiting]

theorem chain_assigned (huntouched : Untouched id trace) {initial : ℤ}
    (hinit : initialOffset id events = some initial) : Chain id (trace ++ events) initial := by
  refine ⟨initial, initial, ?_, ?_, ?_⟩
  · rw [initialOffset_append, huntouched.initial, hinit, none_or]
  · rw [h.committed, huntouched.committed]
    rfl
  rw [h.waiting, huntouched.waiting]
  rfl

theorem accounted (haccounted : Accounted id trace) : Accounted id (trace ++ events) := by
  rcases haccounted with hu | ⟨high, hchain⟩
  · cases hinit : initialOffset id events with
    | none =>
      refine .inl ⟨?_, ?_, ?_⟩
      · rw [initialOffset_append, hu.initial, hinit]
        rfl
      · rw [h.committed, hu.committed]
      · rw [h.waiting, hu.waiting]
    | some initial => exact .inr ⟨initial, h.chain_assigned hu hinit⟩
  exact .inr ⟨high, h.chain hchain⟩

end
end Neutral

theorem Accounted.untouched (h : Accounted id trace) (hnone : initialOffset id trace = none) :
    Untouched id trace := by
  rcases h with hu | ⟨high, initial, mid, hinit, _⟩
  · exact hu
  · cases hnone.symm.trans hinit

/-! ## Reading -/

section
variable {bytesSize : ℤ} {batches : List SourceBatch}

def readEvents (bytesSize : ℤ) (batches : List SourceBatch) : List TopicEvent :=
  .received bytesSize :: batches.map .read

theorem readBatches_readEvents : readBatches (readEvents bytesSize batches) = batches :=
  readBatches_map_read batches

theorem acknowledgedMarkers_readEvents : acknowledgedMarkers (readEvents bytesSize batches) = [] :=
  acknowledgedMarkers_map_read batches

theorem commitRequests_readEvents : commitRequests (readEvents bytesSize batches) = [] := by
  simp [commitRequests, readEvents]

theorem initialOffset_readEvents : initialOffset id (readEvents bytesSize batches) = none := by
  simp [initialOffset, readEvents]

theorem unacknowledged_read (hack : acknowledgedMarkers trace <+: markersOf (readBatches trace)) :
    unacknowledged (trace ++ readEvents bytesSize batches) =
      unacknowledged trace ++ markersOf batches := by
  rw [unacknowledged, readBatches_append, acknowledgedMarkers_append,
    readBatches_readEvents, acknowledgedMarkers_readEvents, append_nil,
    markersOf_append, drop_append_of_le_length hack.length_le]
  rfl

theorem committedRanges_read :
    committedRanges id (trace ++ readEvents bytesSize batches) = committedRanges id trace := by
  simp [committedRanges, commitRequests_append, commitRequests_readEvents]

theorem Chain.read {low high : ℤ} (h : Chain id trace low)
    (hack : acknowledgedMarkers trace <+: markersOf (readBatches trace))
    (hranges : Contiguous low (markerRanges id (markersOf batches)) high) :
    Chain id (trace ++ readEvents bytesSize batches) high := by
  obtain ⟨initial, mid, hinit, hcommitted, hwait⟩ := h
  refine ⟨initial, mid, ?_, ?_, ?_⟩
  · rw [initialOffset_append, hinit, some_or]
  · rwa [committedRanges_read]
  rw [unacknowledged_read hack, markerRanges_append]
  exact contiguous_append.mpr ⟨low, hwait, hranges⟩

theorem Untouched.read (h : Untouched id trace)
    (hack : acknowledgedMarkers trace <+: markersOf (readBatches trace))
    (hranges : markerRanges id (markersOf batches) = []) :
    Untouched id (trace ++ readEvents bytesSize batches) where
  initial := by
    rw [initialOffset_append, h.initial, initialOffset_readEvents]
    rfl
  committed := by rw [committedRanges_read, h.committed]
  waiting := by
    rw [unacknowledged_read hack, markerRanges_append, h.waiting, hranges]
    rfl

end

/-! ## Committing -/

section
variable {markers rest : List YdbTopicCommitMarker}
  {request : List PartitionCommitOffset}
variable (request)

/-- A request has at most one entry for a session, with one range. -/
def OneRangeEach : Prop :=
  (request.map PartitionCommitOffset.partitionSessionId).Nodup ∧
    ∀ entry ∈ request, ∃ range, entry.offsets = [range]

def commitEvents (markers : List YdbTopicCommitMarker) : List TopicEvent :=
  [.sent (.commitOffsetRequest request), .acknowledged markers]

variable {request}

theorem readBatches_commit :
    readBatches (trace ++ commitEvents request markers) = readBatches trace := by
  simp [readBatches, commitEvents]

theorem acknowledgedMarkers_commit :
    acknowledgedMarkers (trace ++ commitEvents request markers) =
      acknowledgedMarkers trace ++ markers := by
  simp [acknowledgedMarkers, commitEvents]

theorem committedRanges_commit : committedRanges id (trace ++ commitEvents request markers) =
    committedRanges id trace ++ requestRanges id request := by
  simp [committedRanges, commitRequests, commitEvents]

theorem initialOffset_commit :
    initialOffset id (trace ++ commitEvents request markers) = initialOffset id trace := by
  simp [initialOffset, commitEvents]

theorem unacknowledged_commit (hwait : unacknowledged trace = markers ++ rest) :
    unacknowledged (trace ++ commitEvents request markers) = rest := by
  rw [unacknowledged, readBatches_commit, acknowledgedMarkers_commit, length_append, ← drop_drop]
  show (unacknowledged trace).drop markers.length = rest
  rw [hwait, drop_left]

theorem Accounted.contiguous_first (h : Accounted id trace)
    (hwait : unacknowledged trace = markers ++ rest) :
    ∃ low high, Contiguous low (markerRanges id markers) high := by
  rcases h with hu | ⟨high, initial, mid, _, _, hchain⟩
  · have hnil := hu.waiting
    rw [hwait, markerRanges_append, append_eq_nil_iff] at hnil
    rw [hnil.1]
    exact ⟨0, 0, rfl⟩
  rw [hwait, markerRanges_append] at hchain
  obtain ⟨next, hfst, _⟩ := contiguous_append.mp hchain
  exact ⟨mid, next, hfst⟩

theorem Chain.commit {high : ℤ} (h : Chain id trace high)
    (hwait : unacknowledged trace = markers ++ rest)
    (hreq : ∀ low high, Contiguous low (markerRanges id markers) high →
      Contiguous low (requestRanges id request) high) :
    Chain id (trace ++ commitEvents request markers) high := by
  obtain ⟨initial, mid, hinit, hc, hchain⟩ := h
  rw [hwait, markerRanges_append] at hchain
  obtain ⟨next, hfst, hrest⟩ := contiguous_append.mp hchain
  refine ⟨initial, next, ?_, ?_, ?_⟩
  · rwa [initialOffset_commit]
  · rw [committedRanges_commit]
    exact contiguous_append.mpr ⟨mid, hc, hreq mid next hfst⟩
  rwa [unacknowledged_commit hwait]

theorem Untouched.commit (h : Untouched id trace) (hwait : unacknowledged trace = markers ++ rest)
    (hreq : ∀ low high, Contiguous low (markerRanges id markers) high →
      Contiguous low (requestRanges id request) high) :
    Untouched id (trace ++ commitEvents request markers) := by
  have hnil := h.waiting
  rw [hwait, markerRanges_append, append_eq_nil_iff] at hnil
  refine ⟨?_, ?_, ?_⟩
  · rw [initialOffset_commit, h.initial]
  · have hempty : requestRanges id request = [] := by
      by_contra hne
      have hchain := hreq 0 0 (by rw [hnil.1]; rfl)
      exact lt_irrefl _ (hchain.lt_of_ne_nil hne)
    rw [committedRanges_commit, h.committed, hempty]
    rfl
  rw [unacknowledged_commit hwait, hnil.2]

end

/-! ## The invariant -/

/-- What holds of the trace, also when the run is over. -/
structure CommitHistory (trace : List TopicEvent) : Prop where
  requests : ∀ request ∈ commitRequests trace, OneRangeEach request
  accounted : ∀ id, Accounted id trace
  acknowledged : acknowledgedMarkers trace <+: markersOf (readBatches trace)
  covered : ∀ batch ∈ readBatches trace, batch.Covered

/-- How the state of a live run continues the history of the sessions. -/
structure CommitLive (run : TopicRun) : Prop where
  outstanding :
    unacknowledged run.source.trace = run.handedOut ++ markersOf run.source.bufferedBatches
  reading : ∀ id state, run.source.partitionSessions.find? id = some state →
    Chain id run.source.trace state.readThrough
  drained : run.phase = .waiting → run.source.bufferedBatches = []

structure CommitInv (run : TopicRun) : Prop where
  history : CommitHistory run.source.trace
  live : run.running → CommitLive run

namespace CommitHistory

theorem neutral (h : CommitHistory trace) (hneutral : Neutral events) :
    CommitHistory (trace ++ events) where
  requests := by
    rw [commitRequests_append, hneutral.commits, append_nil]
    exact h.requests
  accounted id := hneutral.accounted (h.accounted id)
  acknowledged := by
    rw [readBatches_append, acknowledgedMarkers_append, hneutral.reads,
      hneutral.acknowledges, append_nil, append_nil]
    exact h.acknowledged
  covered := by
    rw [readBatches_append, hneutral.reads, append_nil]
    exact h.covered

theorem grows {s t : TopicSource} (h : CommitHistory s.trace) (hgrows : Grows s t) :
    CommitHistory t.trace := by
  obtain ⟨events, ht, hq⟩ := hgrows
  rw [ht]
  exact h.neutral (neutral_of_quiet hq)

theorem commit (h : CommitHistory trace) {sessions : Sessions}
    {mks rest : List YdbTopicCommitMarker} {request : List PartitionCommitOffset}
    (hwait : unacknowledged trace = mks ++ rest)
    (hreq : buildCommitRequest (mks.map .topic) sessions = .ok request) :
    CommitHistory (trace ++ commitEvents request mks) ∧ ∀ id high, Chain id trace high →
    Chain id (trace ++ commitEvents request mks) high := by
  obtain ⟨hids, hsingle, hranges⟩ :=
    buildCommitRequest_contiguous hreq fun id => (h.accounted id).contiguous_first hwait
  have hchain := fun id high (hold : Chain id trace high) => hold.commit hwait (hranges id)
  refine ⟨⟨?_, fun id => ?_, ?_, ?_⟩, hchain⟩
  · rw [commitRequests_append]
    intro found hget
    rcases mem_append.mp hget with hold | hnew
    · exact h.requests found hold
    obtain rfl : found = request := by simpa [commitRequests, commitEvents] using hnew
    exact ⟨hids, hsingle⟩
  · rcases h.accounted id with hu | ⟨high, hold⟩
    · exact .inl (hu.commit hwait (hranges id))
    · exact .inr ⟨high, hchain id high hold⟩
  · obtain ⟨later, hlater⟩ := h.acknowledged
    have hdropped : unacknowledged trace = later := by rw [unacknowledged, ← hlater, drop_left]
    rw [readBatches_commit, acknowledgedMarkers_commit, ← hlater, ← hdropped, hwait, ← append_assoc]
    exact prefix_append _ _
  rw [readBatches_commit]
  exact h.covered

theorem read (h : CommitHistory trace) {sessions sessions' : Sessions} {size : ℤ}
    {bs : List SourceBatch}
    (hreading : ∀ id state, sessions.find? id = some state → Chain id trace state.readThrough)
    (habsent : ∀ id, sessions.find? id = none → sessions'.find? id = none ∧
      markerRanges id (markersOf bs) = [])
    (hpresent : ∀ id state, sessions.find? id = some state → ∃ now, sessions'.find? id = some now ∧
      Contiguous state.readThrough (markerRanges id (markersOf bs)) now.readThrough)
    (hcovered : ∀ batch ∈ bs, batch.Covered) :
    CommitHistory (trace ++ readEvents size bs) ∧ ∀ id state,
    sessions'.find? id = some state → Chain id (trace ++ readEvents size bs) state.readThrough := by
  have hchain : ∀ id state, sessions'.find? id = some state →
      Chain id (trace ++ readEvents size bs) state.readThrough := by
    intro id now hnow
    cases hfind : sessions.find? id with
    | none => cases ((habsent id hfind).1).symm.trans hnow
    | some state =>
      obtain ⟨found, hget, hranges⟩ := hpresent id state hfind
      obtain rfl := Option.some.inj (hget.symm.trans hnow)
      exact (hreading id state hfind).read h.acknowledged hranges
  refine ⟨⟨?_, fun id => ?_, ?_, ?_⟩, hchain⟩
  · rw [commitRequests_append, commitRequests_readEvents, append_nil]
    exact h.requests
  · cases hfind : sessions.find? id with
    | none =>
      obtain ⟨_, hnil⟩ := habsent id hfind
      rcases h.accounted id with hu | ⟨high, hold⟩
      · exact .inl (hu.read h.acknowledged hnil)
      · exact .inr ⟨high, hold.read h.acknowledged (hnil ▸ rfl)⟩
    | some state =>
      obtain ⟨now, hnow, _⟩ := hpresent id state hfind
      exact .inr ⟨_, hchain id now hnow⟩
  · rw [readBatches_append, acknowledgedMarkers_append,
      acknowledgedMarkers_readEvents, append_nil, markersOf_append]
    exact h.acknowledged.trans (prefix_append _ _)
  rw [readBatches_append, readBatches_readEvents]
  intro batch hbatch
  rcases mem_append.mp hbatch with hold | hnew
  · exact h.covered batch hold
  · exact hcovered batch hnew

end CommitHistory

/-! ## Sessions keep their place -/

/-- Every session of `after` was there before, and was read as far. -/
def SameReads (before after : Sessions) : Prop := ∀ id state, after.find? id = some state → ∃ old,
    before.find? id = some old ∧ old.readThrough = state.readThrough

namespace SameReads
variable {before after : Sessions}

theorem refl (sessions : Sessions) : SameReads sessions sessions :=
  fun _ state hfind => ⟨state, hfind, rfl⟩

theorem insert (h : SameReads before after) {old state : PartitionSessionState}
    (hfind : after.find? id = some old) (hread : old.readThrough = state.readThrough) :
    SameReads before (after.insert id state) := by
  intro other found hget
  by_cases hother : other = id
  · subst hother
    rw [find?_insert_self] at hget
    cases hget
    obtain ⟨first, hfst, hsame⟩ := h other old hfind
    exact ⟨first, hfst, hsame.trans hread⟩
  rw [find?_insert_ne _ _ hother] at hget
  exact h other found hget

theorem retain (h : SameReads before after) (keep : ℤ → Bool) :
    SameReads before (after.retain keep) := by
  intro id state hfind
  rw [find?_retain] at hfind
  split at hfind
  · exact h id state hfind
  · cases hfind

theorem confirm {committed : List PartitionCommittedOffset}
    (h : committed.foldlM confirm before = .ok after) : SameReads before after := by
  refine foldlM_induct (P := fun _ => SameReads before) ?_ h (.refl before)
  intro off _ mid last hmid hround
  obtain ⟨state, hs, rfl⟩ := confirm_ok hround
  exact hmid.insert hs rfl

end SameReads
variable {s t : TopicSource} {message : ServerMessage} {event : SessionEvent} {run : TopicRun}
  {batch : SourceBatch}

def assignEvents (id offset : ℤ) : List TopicEvent :=
  [.assigned id offset, .sent (.startPartitionSessionResponse id)]

theorem neutral_assignEvents (id off : ℤ) : Neutral (assignEvents id off) := ⟨rfl, rfl, rfl⟩

/-- What a message without a batch does to the sessions: they keep their place,
or a new one is assigned. -/
theorem Processed.places (h : Processed config s message event t)
    (hev : ∀ batch, event ≠ .batch batch) : t.bufferedBatches = s.bufferedBatches ∧
    ((Grows s t ∧ SameReads s.partitionSessions t.partitionSessions) ∨
    ∃ req sess, message = .startPartitionSessionRequest req ∧ req.partitionSession = some sess ∧
    s.partitionSessions.find? sess.partitionSessionId = none ∧ t.partitionSessions =
    s.partitionSessions.insert sess.partitionSessionId (.fresh sess req.committedOffset) ∧
    t.trace = s.trace ++ assignEvents sess.partitionSessionId req.committedOffset) := by
  have hgrows := h.grows hev
  cases h with
  | startedAgain | readNothing | stopUnknown | unchanged => exact ⟨rfl, .inl ⟨hgrows, .refl _⟩⟩
  | started outage hs hnew => exact ⟨rfl, .inr ⟨_, _, rfl, hs, hnew, rfl, append_assoc _ _ _⟩⟩
  | read => exact absurd rfl (hev _)
  | confirmed hconfirm => exact ⟨rfl, .inl ⟨hgrows, .confirm hconfirm⟩⟩
  | stopGracefully outage hfind hgraceful hmarked =>
    subst hmarked
    refine ⟨rfl, .inl ⟨hgrows, .retain (.insert (.refl _) hfind ?_) _⟩⟩
    rfl
  | stopNow outage hfind =>
    refine ⟨rfl, .inl ⟨hgrows, .retain (.insert (.refl _) hfind ?_) _⟩⟩
    rfl

/-! ## Each operation keeps the invariant -/

/-- A server message keeps the order when the id of a new session was not used
before, and the offsets of every session grow from where it was read to. -/
def orderlyMessage (source : TopicSource) : ServerMessage → Bool
  | .startPartitionSessionRequest request =>
    request.partitionSession.all fun session =>
      source.partitionSessions.contains session.partitionSessionId ||
        (initialOffset session.partitionSessionId source.trace).isNone
  | .readResponse response =>
    source.partitionSessions.entries.all fun entry =>
      inOrder entry.2.readThrough (dataOffsets entry.1 response.partitionData)
  | _ => true

def TopicRun.orderly (run : TopicRun) : TopicLabel → Bool
  | .respond response _ => response.serverMessage.all (orderlyMessage run.source)
  | .commit markers => markers.isPrefixOf run.handedOut
  | _ => true

theorem CommitLive.neutral (h : CommitLive run) (hneutral : Neutral events)
    (ht : t.trace = run.source.trace ++ events)
    (hsessions : SameReads run.source.partitionSessions t.partitionSessions)
    (hbuf : t.bufferedBatches = run.source.bufferedBatches) :
    CommitLive { run with source := t } where
  outstanding := by
    rw [ht, hneutral.waiting, hbuf]
    exact h.outstanding
  reading id state hfind := by
    obtain ⟨old, hold, hread⟩ := hsessions id state hfind
    rw [ht, ← hread]
    exact hneutral.chain (h.reading id old hold)
  drained hp := hbuf.trans (h.drained hp)

theorem CommitLive.assigned (h : CommitLive run) (haccounted : ∀ id, Accounted id run.source.trace)
    {state : PartitionSessionState} (hnone : initialOffset id run.source.trace = none)
    (hsessions : t.partitionSessions = run.source.partitionSessions.insert id state)
    (ht : t.trace = run.source.trace ++ assignEvents id state.readThrough)
    (hbuf : t.bufferedBatches = run.source.bufferedBatches) :
    CommitLive { run with source := t } where
  outstanding := by
    rw [ht, (neutral_assignEvents _ _).waiting, hbuf]
    exact h.outstanding
  reading other found hfind := by
    rw [ht]
    simp only [hsessions] at hfind
    by_cases hother : other = id
    · subst hother
      rw [find?_insert_self] at hfind
      cases hfind
      apply (neutral_assignEvents _ _).chain_assigned ((haccounted other).untouched hnone)
      simp [assignEvents, initialOffset]
    rw [find?_insert_ne _ _ hother] at hfind
    exact (neutral_assignEvents _ _).chain (h.reading other found hfind)
  drained hp := hbuf.trans (h.drained hp)

section
variable (h : CommitInv run) (hrun : run.running)
include h hrun

theorem CommitInv.processed (hprocessed : Processed config run.source message event t)
    (hev : ∀ batch, event ≠ .batch batch) (horderly : orderlyMessage run.source message) :
    CommitInv { run with source := t } := by
  have hlive := h.live hrun
  refine ⟨h.history.grows (hprocessed.grows hev), fun _ => ?_⟩
  obtain ⟨hbuf, ⟨⟨events, ht, hq⟩, hsessions⟩ | ⟨request, session, rfl, hs, hnew, hsessions, ht⟩⟩
      :=
    hprocessed.places hev
  · exact hlive.neutral (neutral_of_quiet hq) ht hsessions hbuf
  refine hlive.assigned h.history.accounted ?_ hsessions ht hbuf
  simpa [orderlyMessage, hs, OrderedMap.contains, hnew] using horderly

theorem CommitInv.replenish (hok : replenishCredit.outcome run.source = (.ok (), t)) :
    CommitInv { run with source := t } := by
  obtain ⟨_, _, outage, rfl⟩ | ⟨_, rfl⟩ := replenishCredit_ok hok
  · have hn := neutral_readRequest run.source.pendingCredit
    exact ⟨h.history.neutral hn, fun _ => (h.live hrun).neutral hn rfl (.refl _) rfl⟩
  exact h

theorem CommitInv.read_history (hprocessed : Processed config run.source message (.batch batch) t)
    (horderly : orderlyMessage run.source message) : CommitHistory t.trace ∧
    (∀ id state, t.partitionSessions.find? id = some state → Chain id t.trace state.readThrough) ∧
    ∃ size rest, t.bufferedBatches = run.source.bufferedBatches ++ rest ∧
    t.trace = run.source.trace ++ readEvents size (batch :: rest) := by
  cases hprocessed with
  | @read response parts decoded sessions topicBatches first rest hpositive hparts hdec hread hb =>
    have hord : ∀ id state, run.source.partitionSessions.find? id = some state →
        inOrder state.readThrough (dataOffsets id response.partitionData) := by
      intro id state hfind
      exact all_eq_true.mp horderly (id, state)
        (run.source.partitionSessions.mem_entries_iff.mpr hfind)
    obtain ⟨ha, hpresent, hc⟩ := read_ranges hparts hdec hread hord
    rw [hb] at ha hpresent hc
    obtain ⟨hhistory, hreading⟩ := h.history.read (h.live hrun).reading ha hpresent hc
    have ht : ((run.source.receives response.bytesSize).reads sessions batch rest).trace =
      run.source.trace ++ readEvents response.bytesSize (batch :: rest) := append_assoc _ _ _
    rw [ht]
    exact ⟨hhistory, hreading, _, _, rfl, rfl⟩

end

theorem CommitInv.read (h : CommitInv run) (hp : run.phase = .waiting)
    (hprocessed : Processed config run.source message (.batch batch) t)
    (horderly : orderlyMessage run.source message) :
    CommitInv (TopicRun.handOut { run with source := t } batch) := by
  have hrun : run.running := by simp [TopicRun.running, hp]
  have hlive := h.live hrun
  obtain ⟨hhistory, hreading, bytesSize, rest, hbuf, ht⟩ := h.read_history hrun hprocessed horderly
  refine ⟨hhistory, fun _ => ⟨?_, hreading, by simp [TopicRun.handOut]⟩⟩
  show unacknowledged t.trace = (run.handedOut ++ batch.commitMarker.toList) ++
    markersOf t.bufferedBatches
  have hdrained := hlive.drained hp
  have hwait := hlive.outstanding
  rw [hdrained] at hbuf hwait
  rw [ht, unacknowledged_read h.history.acknowledged, hwait, hbuf, markersOf_cons]
  simp [markersOf]

theorem CommitLive.popped (h : CommitLive run) {rest : List SourceBatch}
    (hbuf : run.source.bufferedBatches = batch :: rest) :
    CommitLive
      (TopicRun.handOut { run with source := { run.source with bufferedBatches := rest } }
          batch) := by
  have hwait := h.outstanding
  rw [hbuf, markersOf_cons, ← append_assoc] at hwait
  exact ⟨hwait, h.reading, by simp [TopicRun.handOut]⟩

theorem append_diff_left (mks rest : List YdbTopicCommitMarker) :
    (mks ++ rest).diff mks = rest := by
  induction mks with
  | nil => rfl
  | cons first others ih => rw [cons_append, diff_cons, erase_cons_head, ih]

theorem CommitInv.commit (h : CommitInv run) (hp : run.phase = .idle)
    {mks rest : List YdbTopicCommitMarker}
    {req : List PartitionCommitOffset} (outage : Option (ℕ × Outage))
    (hmarkers : run.handedOut = mks ++ rest)
    (hreq : buildCommitRequest (mks.map .topic) run.source.partitionSessions = .ok req) :
    CommitInv
      { run with
        source := run.source.commits outage req mks, handedOut := run.handedOut.diff mks } := by
  have hlive := h.live (by simp [TopicRun.running, hp])
  have hwait := hlive.outstanding
  rw [hmarkers, append_assoc] at hwait
  obtain ⟨hhistory, hchain⟩ := h.history.commit hwait hreq
  refine ⟨hhistory, fun _ => ⟨?_, ?_, hlive.drained⟩⟩
  · show unacknowledged (run.source.trace ++ commitEvents req mks) =
      run.handedOut.diff mks ++ markersOf run.source.bufferedBatches
    rw [unacknowledged_commit hwait, hmarkers, append_diff_left]
  intro id state hfind
  exact hchain id _ (hlive.reading id state hfind)

/-! ## Runs -/

namespace TopicRun
variable {next : TopicRun} {label : TopicLabel}

theorem commitInv_stopped {handedOut : List YdbTopicCommitMarker} (fail : DataPlaneFailure)
    (h : CommitHistory t.trace) : CommitInv { source := t, phase := .stopped fail, handedOut } :=
  ⟨h, by simp [running]⟩

theorem commitInv_step (h : CommitInv run) (hstep : RunStep config run label next)
    (horderly : run.orderly label) : CommitInv next := by
  cases hstep with
  | lost left outage => exact ⟨h.history, fun hrun => { h.live hrun with }⟩
  | stopped fail hgrows => exact commitInv_stopped fail (h.history.grows hgrows)
  | stoppedWithData fail hp hmsg hprocessed =>
    rw [orderly, hmsg] at horderly
    exact commitInv_stopped fail (h.read_history (by simp [running, hp]) hprocessed horderly).1
  | stoppedAfterCommit fail hp hmarkers hreq ht =>
    obtain ⟨rest, hrest⟩ := isPrefixOf_iff_prefix.mp horderly
    apply commitInv_stopped fail
    rw [ht]
    exact (h.commit hp none hrest.symm hreq).history
  | granted outage hp hmsg =>
    have hn := neutral_readRequest config.readBufferBytes
    have hlive := h.live (by simp [running, hp])
    have hnext := hlive.neutral (t := run.source.sends outage
      [.readRequest config.readBufferBytes]) hn rfl (.refl _) rfl
    exact ⟨h.history.neutral hn, fun _ => ⟨hnext.outstanding, hnext.reading, by simp⟩⟩
  | connecting hp hmsg hprocessed hev =>
    rw [orderly, hmsg] at horderly
    have hrun : run.running := by simp [running, hp]
    have hnext := h.processed hrun hprocessed hev horderly
    have hlive := hnext.live hrun
    exact ⟨hnext.history, fun _ => ⟨hlive.outstanding, hlive.reading, by simp⟩⟩
  | processed hp hmsg hprocessed hev hr =>
    rw [orderly, hmsg] at horderly
    have hrun : run.running := by simp [running, hp]
    exact (h.processed hrun hprocessed hev horderly).replenish hrun hr
  | read hp hmsg hprocessed =>
    rw [orderly, hmsg] at horderly
    exact h.read hp hprocessed horderly
  | popped hp hbuf =>
    have hlive := h.live (by simp [running, hp])
    exact ⟨h.history, fun _ => hlive.popped hbuf⟩
  | waits hp hbuf hr =>
    have hrun : run.running := by simp [running, hp]
    have hnext := h.replenish hrun hr
    have hlive := hnext.live hrun
    refine ⟨hnext.history, fun _ => ⟨hlive.outstanding, hlive.reading, fun _ => ?_⟩⟩
    obtain ⟨_, _, _, rfl⟩ | ⟨_, rfl⟩ := replenishCredit_ok hr
    · exact hbuf
    · exact hbuf
  | committedNothing hp => exact h
  | committed hp hmarkers hne hcount hreq hr =>
    obtain ⟨rest, hrest⟩ := isPrefixOf_iff_prefix.mp horderly
    exact (h.commit hp _ hrest.symm hreq).replenish (by simp [running, hp]) hr

theorem commitInv_of_reachable (hreach : Reachable (guarded (step config) orderly) start run) :
    CommitInv run := by
  refine hreach.invariant (fun _ _ _ h hstep => ?_) ?_
  · obtain ⟨horderly, hstep⟩ := of_guarded hstep
    exact commitInv_step h (step_cases hstep) horderly
  refine ⟨⟨?_, fun id => .inl ⟨rfl, rfl, rfl⟩, ?_, ?_⟩, fun _ => ?_⟩
  · simp [start, commitRequests]
  · exact prefix_rfl
  · simp [start, readBatches]
  · exact ⟨rfl, by simp [start], by simp [start]⟩

theorem not_covers_of_unacknowledged (h : CommitHistory trace) (hbatch : batch ∈ readBatches trace)
    (hnew : ∀ mk ∈ batch.commitMarker, mk ∉ acknowledgedMarkers trace) {msg : Message}
    (hmsg : msg ∈ batch.messages) : ¬ Covers (committedRanges msg.session trace) msg.offset := by
  rintro ⟨committed, hc, hin⟩
  obtain ⟨waiting, hwait, hcont⟩ := h.covered batch hbatch msg hmsg
  obtain ⟨mk, hm, hranges⟩ := mem_flatMap.mp hwait
  have hm := mem_toList.mp hm
  have hunacknowledged : mk ∈ unacknowledged trace := by
    obtain ⟨later, hl⟩ := h.acknowledged
    have hread : mk ∈ markersOf (readBatches trace) := mem_filterMap.mpr ⟨batch, hbatch, hm⟩
    rw [unacknowledged, ← hl, drop_left]
    rw [← hl] at hread
    exact (mem_append.mp hread).resolve_left (hnew mk hm)
  have hl : waiting ∈ markerRanges msg.session (unacknowledged trace) :=
    mem_flatMap.mpr ⟨mk, hunacknowledged, hranges⟩
  rcases h.accounted msg.session with hu | ⟨high, initial, mid, _, hbelow, habove⟩
  · rw [hu.committed] at hc
    cases hc
  have hlower := hbelow.bounds hc
  have hhigh := habove.bounds hl
  obtain ⟨_, hlt⟩ := hin
  obtain ⟨hle, _⟩ := hcont
  omega

/-- The ranges of the commit requests of a session are adjacent and start at its
initial offset, and every request has one range for each of its sessions.
Coalescing keeps the offsets that the ranges cover, and no range that was sent
covers a message of a batch that is not acknowledged. -/
theorem commits_contiguous (hreach : Reachable (guarded (step config) orderly) start run) :
    (∀ id, committedRanges id run.source.trace ≠ [] →
      ∃ initial high, initialOffset id run.source.trace = some initial ∧
        Contiguous initial (committedRanges id run.source.trace) high) ∧
    (∀ request ∈ commitRequests run.source.trace, OneRangeEach request) ∧
    (∀ ranges coalesced, coalesceRanges ranges = .ok coalesced →
      ∀ offset, Covers coalesced offset ↔ Covers ranges offset) ∧
    ∀ batch ∈ readBatches run.source.trace,
      (∀ marker ∈ batch.commitMarker, marker ∉ acknowledgedMarkers run.source.trace) →
      ∀ message ∈ batch.messages,
        ¬ Covers (committedRanges message.session run.source.trace) message.offset := by
  have h := (commitInv_of_reachable hreach).history
  refine ⟨?_, h.requests, ?_, ?_⟩
  · intro id hne
    rcases h.accounted id with hu | ⟨high, initial, mid, hinit, hc, _⟩
    · exact absurd hu.committed hne
    · exact ⟨initial, mid, hinit, hc⟩
  · intro ranges coalesced hok offset
    exact covers_coalesceRanges hok offset
  intro batch hbatch hnew message hmsg
  exact not_covers_of_unacknowledged h hbatch hnew hmsg

/-- The message at offset 3 is committed, then those at the offsets 5 and 6. -/
def commitTwice : List TopicLabel :=
  readOneMessage ++ [.commit [exampleMarker], .callRead, readOffsets [5, 6],
    .commit [rangeMarker ⟨4, 7⟩]]

set_option maxRecDepth 6000 in
theorem commits_contiguous_commitTwice :
    ∃ run, exec (guarded (step exampleConfig) orderly) start commitTwice = some run ∧
      committedRanges 1 run.source.trace = [⟨0, 4⟩, ⟨4, 7⟩] ∧
      ∃ initial high, initialOffset 1 run.source.trace = some initial ∧
        Contiguous initial (committedRanges 1 run.source.trace) high := by
  have hruns : ∃ run, exec (guarded (step exampleConfig) orderly) start commitTwice = some run ∧
      committedRanges 1 run.source.trace = [⟨0, 4⟩, ⟨4, 7⟩] := ⟨_, rfl, rfl⟩
  obtain ⟨run, hexec, hranges⟩ := hruns
  have hcontiguous := commits_contiguous ⟨_, hexec⟩
  exact ⟨run, hexec, hranges, hcontiguous.1 1 (by simp [hranges])⟩

end TopicRun
end Transferia.Logbroker
