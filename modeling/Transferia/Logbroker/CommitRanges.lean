import Transferia.Logbroker.TopicSteps

/-!
# Ranges of sessions in markers and commit requests

Reading data of a session adds a range to the marker of its batch that starts
where the session was read to.  A commit request gathers the ranges of its
markers by session.
-/

namespace Transferia.Logbroker
open List Transferia.Core Support OrderedMap

/-! ## Ranges by session -/

variable (id : ℤ)

def partitionRanges (partitions : List PartitionCommitMarker) : List OffsetsRange :=
  partitions.flatMap fun partition =>
    if partition.partitionSessionId = id then partition.ranges else []

def markerRanges (markers : List YdbTopicCommitMarker) : List OffsetsRange :=
  markers.flatMap (partitionRanges id ·.partitions)

def requestRanges (request : List PartitionCommitOffset) : List OffsetsRange :=
  request.flatMap fun entry =>
    if entry.partitionSessionId = id then entry.offsets else []

theorem partitionRanges_append (first second : List PartitionCommitMarker) :
    partitionRanges id (first ++ second) = partitionRanges id first ++ partitionRanges id second :=
  flatMap_append

theorem markerRanges_append (first second : List YdbTopicCommitMarker) :
    markerRanges id (first ++ second) = markerRanges id first ++ markerRanges id second :=
  flatMap_append

theorem partitionRanges_marker (part : DecodedPart) (low high : ℤ) :
    partitionRanges id [part.marker low high] =
      if part.data.partitionSessionId = id then [⟨low, high⟩] else [] := by
  simp [partitionRanges, DecodedPart.marker]

/-! ## Commit requests -/

section
variable {sessions : Sessions} {grouped grouped' : Grouped}
  {markers : List YdbTopicCommitMarker} {request : List PartitionCommitOffset}

theorem groupPartition_ok {part : PartitionCommitMarker}
    (h : groupPartition sessions grouped part = .ok grouped') (id : ℤ) :
    (grouped'.find? id).getD [] = (grouped.find? id).getD [] ++ partitionRanges id [part] := by
  obtain ⟨state, _, h⟩ := of_bind h
  iterate 2 obtain ⟨_, _, h⟩ := of_bind h
  cases h
  by_cases hid : id = part.partitionSessionId
  · subst hid
    simp [find?_insert_self, partitionRanges]
  have hother : ¬ part.partitionSessionId = id := fun heq => hid heq.symm
  simp [find?_insert_ne _ _ hid, partitionRanges, hother]

theorem groupPartitions_ok {partitions : List PartitionCommitMarker}
    (h : partitions.foldlM (groupPartition sessions) grouped = .ok grouped') (id : ℤ) :
    (grouped'.find? id).getD [] = (grouped.find? id).getD [] ++ partitionRanges id partitions := by
  induction partitions generalizing grouped with
  | nil =>
    cases h
    simp [partitionRanges]
  | cons first rest ih =>
    obtain ⟨mid, hfst, h⟩ := of_bind h
    rw [ih h, groupPartition_ok hfst id, append_assoc, ← partitionRanges_append, singleton_append]

theorem groupMarkers_ok {markers : List YdbTopicCommitMarker}
    (h : (markers.map CommitMarker.topic).foldlM (groupMarker sessions) grouped = .ok grouped')
    (id : ℤ) :
    (grouped'.find? id).getD [] = (grouped.find? id).getD [] ++ markerRanges id markers := by
  induction markers generalizing grouped with
  | nil =>
    cases h
    simp [markerRanges]
  | cons first rest ih =>
    obtain ⟨mid, hfst, h⟩ := of_bind h
    obtain ⟨_, ⟨⟩, hfst⟩ := of_bind hfst
    rw [ih h, groupPartitions_ok hfst id, append_assoc]
    rfl

def coalesced (ranges : List OffsetsRange) : List OffsetsRange :=
  (coalesceRanges ranges).toOption.getD []

theorem commitOffset_ok {group : ℤ × List OffsetsRange} {entry : PartitionCommitOffset}
    (h : commitOffset group = .ok entry) : coalesceRanges group.2 = .ok (coalesced group.2) ∧
    group.2 ≠ [] ∧ entry = ⟨group.1, coalesced group.2⟩ := by
  obtain ⟨offs, ho, h⟩ := of_bind h
  obtain ⟨_, hmax, h⟩ := of_bind h
  cases h
  cases hranges : coalesceRanges group.2 with
  | error msg => simp [hranges, Except.mapError] at ho
  | ok found =>
    rw [hranges] at ho
    cases ho
    refine ⟨by simp [coalesced, hranges, Except.toOption], ?_,
      by simp [coalesced, hranges, Except.toOption]⟩
    intro hnil
    rw [hnil] at hranges
    cases hranges
    cases hmax

theorem buildCommitRequest_ok (h : buildCommitRequest (markers.map .topic) sessions = .ok request) :
    ∃ grp : Grouped, (∀ id, (grp.find? id).getD [] = markerRanges id markers) ∧
    (∀ group ∈ grp.entries, group.2 ≠ [] ∧ coalesceRanges group.2 = .ok (coalesced group.2)) ∧
    request = grp.entries.map fun group => ⟨group.1, coalesced group.2⟩ := by
  obtain ⟨grp, hgroup, h⟩ := of_bind h
  refine ⟨grp, fun id => ?_, fun group hg => ?_, ?_⟩
  · have hranges := groupMarkers_ok hgroup id
    simpa using hranges
  · obtain ⟨entry, hentry⟩ := ok_of_mem_mapM h hg
    obtain ⟨hok, hne, _⟩ := commitOffset_ok hentry
    exact ⟨hne, hok⟩
  have hentries :
    request.map id = _ := mapM_map_eq (fun group entry hok => (commitOffset_ok hok).2.2) h
  simpa using hentries

theorem requestRanges_of_grouped (grp : Grouped) (id : ℤ) :
    requestRanges id (grp.entries.map fun group => ⟨group.1, coalesced group.2⟩) =
      ((grp.find? id).map coalesced).getD [] := by
  rw [← grp.flatMap_of_key id coalesced, requestRanges, flatMap_map]

/-- When the ranges of the markers have no gap, a request has one range for each
session, which is their union. -/
theorem buildCommitRequest_contiguous
    (h : buildCommitRequest (markers.map .topic) sessions = .ok request)
    (hcontiguous : ∀ id, ∃ low high, Contiguous low (markerRanges id markers) high) :
    (request.map PartitionCommitOffset.partitionSessionId).Nodup ∧
    (∀ entry ∈ request, ∃ range, entry.offsets = [range]) ∧ ∀ id low high,
    Contiguous low (markerRanges id markers) high →
    Contiguous low (requestRanges id request) high := by
  obtain ⟨grouped, hranges, hgroups, rfl⟩ := buildCommitRequest_ok h
  refine ⟨?_, ?_, ?_⟩
  · rw [map_map]
    exact pairwise_map.mpr (grouped.sorted.imp fun hlt => ne_of_lt hlt)
  · intro entry hentry
    obtain ⟨group, hgroup, rfl⟩ := mem_map.mp hentry
    obtain ⟨hne, hok⟩ := hgroups group hgroup
    obtain ⟨low, high, hchain⟩ := hcontiguous group.1
    rw [← hranges group.1, grouped.mem_entries_iff.mp hgroup] at hchain
    exact ⟨_, coalesceRanges_contiguous hchain hne hok⟩
  intro id low high hchain
  rw [requestRanges_of_grouped]
  rw [← hranges id] at hchain
  cases hfind : grouped.find? id with
  | none =>
    rw [hfind] at hchain
    exact hchain
  | some ranges =>
    rw [hfind] at hchain
    obtain ⟨hne, hok⟩ := hgroups _ (grouped.mem_entries_iff.mpr hfind)
    have hone : coalesced ranges = [⟨low, high⟩] := coalesceRanges_contiguous hchain hne hok
    have hlt := hchain.lt_of_ne_nil hne
    simpa [hone] using contiguous_singleton.mpr ⟨rfl, hlt, rfl⟩

end

/-! ## Read responses -/

variable {low : ℤ}

def rangesAt (topicBatches : TopicBatches) (topic : String) : List OffsetsRange :=
  partitionRanges id ((topicBatches.find? topic).getD ([], [])).2

theorem rangesAt_insert (topics : TopicBatches)
    (topic other : String) (msgs : List Message) (parts : List PartitionCommitMarker) :
    rangesAt id (topics.insert topic (msgs, parts)) other =
      if other = topic then partitionRanges id parts else rangesAt id topics other := by
  unfold rangesAt
  split
  next heq => rw [heq, find?_insert_self, Option.getD_some]
  next hne => rw [find?_insert_ne _ _ hne]

/-- A round of the loop leaves the ranges as they are or adds one range to those
of its session. -/
theorem readPart_ranges {sessions sessions' : Sessions}
    {topics topics' : TopicBatches} {part : DecodedPart}
    (h : readPart (sessions, topics) part = .ok (sessions', topics')) :
    (part.decoded.ranges = [] ∧ sessions' = sessions ∧ ∀ id topic,
      rangesAt id topics' topic = rangesAt id topics topic) ∨
    ∃ state readThrough, (part.decoded.ranges.map OffsetsRange.stop).max? = some readThrough ∧
      sessions.find? part.data.partitionSessionId = some state ∧
      state.readThrough < readThrough ∧
      sessions' = sessions.insert part.data.partitionSessionId { state with readThrough } ∧
      ∀ id topic, rangesAt id topics' topic = rangesAt id topics topic ++
          if topic = part.data.topicPath ∧ part.data.partitionSessionId = id
          then [⟨state.readThrough, readThrough⟩] else [] := by
  obtain ⟨msgs, partitions, hentry, hcases⟩ := readPart_ok h
  have hranges : ∀ id, rangesAt id topics part.data.topicPath = partitionRanges id partitions := by
    intro id
    rw [rangesAt, hentry]
  rcases hcases with ⟨hempty, rfl, rfl⟩ | ⟨state, readThrough, hmax, hs, hlt, rfl, rfl⟩
  · refine .inl ⟨hempty, rfl, fun id topic => ?_⟩
    rw [rangesAt_insert]
    split
    next heq => rw [heq, hranges]
    · rfl
  refine .inr ⟨state, readThrough, hmax, hs, hlt, rfl, fun id topic => ?_⟩
  rw [rangesAt_insert]
  split
  next heq =>
    rw [partitionRanges_append, partitionRanges_marker, heq, hranges]
    simp
  next hne => simp [hne]

def dataOffsets (data : List PartitionData) : List ℤ :=
  data.flatMap fun part =>
    if part.partitionSessionId = id then part.batches.flatMap Batch.offsets
    else []

def partOffsets (parts : List DecodedPart) : List ℤ :=
  parts.flatMap fun part =>
    if part.data.partitionSessionId = id then part.data.offsets else []

def inOrder (low : ℤ) (offsets : List ℤ) : Bool :=
  decide (offsets.Pairwise (· < ·)) && offsets.all (low ≤ ·)

theorem inOrder_iff {offs : List ℤ} :
    inOrder low offs ↔ offs.Pairwise (· < ·) ∧ ∀ offset ∈ offs, low ≤ offset := by
  simp [inOrder]

theorem inOrder_append {high : ℤ} {first snd : List ℤ} (h : inOrder low (first ++ snd))
    (hlast : high - 1 ∈ first) : inOrder high snd := by
  obtain ⟨hpairwise, _⟩ := inOrder_iff.mp h
  obtain ⟨_, hsnd, hacross⟩ := pairwise_append.mp hpairwise
  refine inOrder_iff.mpr ⟨hsnd, fun off hoff => ?_⟩
  have hlt := hacross _ hlast off hoff
  omega

theorem inOrder_of_append {first snd : List ℤ} (h : inOrder low (first ++ snd)) :
    inOrder low snd := by
  obtain ⟨hpairwise, hlower⟩ := inOrder_iff.mp h
  refine inOrder_iff.mpr ⟨(pairwise_append.mp hpairwise).2.1, ?_⟩
  exact fun off hoff => hlower off (mem_append_right _ hoff)

/-- Every message lies in a range that its own batch has for its session. -/
def Covered (messages : List Message) (partitions : List PartitionCommitMarker) : Prop :=
  ∀ message ∈ messages, Covers (partitionRanges message.session partitions) message.offset

/-- What holds when the parts `rest` of a response are still to be read. -/
structure ReadSoFar (config : SourceConfig) (before : Sessions)
    (rest : List DecodedPart) (result : Sessions × TopicBatches) : Prop where
  decoded : ∀ part ∈ rest, decodeBatches config.codecs part.data = .ok part.decoded
  topics : ∀ part ∈ rest, ∃ state,
    before.find? part.data.partitionSessionId = some state ∧ part.data.topicPath = state.topicPath
  absent : ∀ id, before.find? id = none →
    result.1.find? id = none ∧ ∀ topic, rangesAt id result.2 topic = []
  present : ∀ id state, before.find? id = some state → ∃ now, result.1.find? id = some now ∧
    (∀ topic, topic ≠ state.topicPath → rangesAt id result.2 topic = []) ∧
    Contiguous state.readThrough (rangesAt id result.2 state.topicPath) now.readThrough
  ahead :
    ∀ id state, result.1.find? id = some state → inOrder state.readThrough (partOffsets id rest)
  covered : ∀ topic messages partitions,
    result.2.find? topic = some (messages, partitions) → Covered messages partitions

namespace ReadSoFar
variable {config : SourceConfig} {before : Sessions} {part : DecodedPart} {rest : List DecodedPart}
  {result result' : Sessions × TopicBatches} {state : PartitionSessionState}
section
variable (h : ReadSoFar config before (part :: rest) result)
include h

theorem part_ahead (hs : result.1.find? part.data.partitionSessionId = some state) :
    inOrder state.readThrough
      (part.data.offsets ++ partOffsets part.data.partitionSessionId rest) := by
  have hahead := h.ahead _ state hs
  simpa [partOffsets] using hahead

theorem rest_ahead {id : ℤ} (hs : result.1.find? id = some state) :
    inOrder state.readThrough (partOffsets id rest) :=
  inOrder_of_append (h.ahead id state hs)

theorem covered_part {readThrough : ℤ}
    (hmax : (part.decoded.ranges.map OffsetsRange.stop).max? = some readThrough)
    (hs : result.1.find? part.data.partitionSessionId = some state) {msg : Message}
    (hmsg : msg ∈ part.decoded.messages) :
    msg.session = part.data.partitionSessionId ∧ state.readThrough ≤ msg.offset ∧
    msg.offset < readThrough := by
  have hdec := h.decoded part mem_cons_self
  obtain ⟨hoffsets, hsession, _⟩ := decodeBatches_ok hdec
  have hoff : msg.offset ∈ part.data.offsets := hoffsets ▸ mem_map_of_mem hmsg
  obtain ⟨_, hlower⟩ := inOrder_iff.mp (h.part_ahead hs)
  exact ⟨hsession msg hmsg, hlower _ (mem_append_left _ hoff),
    (decodeBatches_readThrough hdec hmax).2 _ hoff⟩

section
variable (hround : readPart result part = .ok result')
include hround

theorem covered_round : ∀ topic msgs partitions,
    result'.2.find? topic = some (msgs, partitions) → Covered msgs partitions := by
  obtain ⟨msgs, partitions, hentry, hcases⟩ := readPart_ok hround
  have hold : Covered msgs partitions := by
    cases hfind : result.2.find? part.data.topicPath with
    | none =>
      rw [hfind] at hentry
      cases hentry
      rintro msg ⟨⟩
    | some entry =>
      rw [hfind] at hentry
      cases hentry
      exact h.covered _ _ _ hfind
  have hnew : ∃ found, result'.2 = result.2.insert part.data.topicPath
      (msgs ++ part.decoded.messages, found) ∧ Covered (msgs ++ part.decoded.messages) found := by
    rcases hcases with ⟨hempty, _, hb⟩ | ⟨state, readThrough, hmax, hs, _, _, hb⟩
    · refine ⟨partitions, hb, ?_⟩
      rw [decodeBatches_empty (h.decoded part mem_cons_self) hempty, append_nil]
      exact hold
    refine ⟨_, hb, fun msg hmsg => ?_⟩
    rw [partitionRanges_append]
    rcases mem_append.mp hmsg with hmsg | hmsg
    · obtain ⟨range, hr, hcont⟩ := hold msg hmsg
      exact ⟨range, mem_append_left _ hr, hcont⟩
    obtain ⟨hsession, hlower, hhigh⟩ := h.covered_part hmax hs hmsg
    refine ⟨⟨state.readThrough, readThrough⟩, ?_, hlower, hhigh⟩
    rw [partitionRanges_marker, if_pos hsession.symm]
    exact mem_append_right _ mem_cons_self
  obtain ⟨found, hb, hcovered⟩ := hnew
  intro topic others markers hfind
  rw [hb] at hfind
  by_cases htop : topic = part.data.topicPath
  · rw [htop, find?_insert_self] at hfind
    cases hfind
    exact hcovered
  rw [find?_insert_ne _ _ htop] at hfind
  exact h.covered _ _ _ hfind

theorem absent_round (id : ℤ) (hnone : before.find? id = none) :
    result'.1.find? id = none ∧ ∀ topic, rangesAt id result'.2 topic = [] := by
  obtain ⟨known, hknown, _⟩ := h.topics part mem_cons_self
  have hother : id ≠ part.data.partitionSessionId := by
    rintro rfl
    simp [hnone] at hknown
  obtain ⟨hnow, hnil⟩ := h.absent id hnone
  rcases readPart_ranges hround with ⟨_, hsessions, hranges⟩ |
      ⟨state, readThrough, _, _, _, hsessions, hranges⟩
  · rw [hsessions]
    exact ⟨hnow, fun topic => (hranges id topic).trans (hnil topic)⟩
  rw [hsessions, find?_insert_ne _ _ hother]
  refine ⟨hnow, fun topic => ?_⟩
  rw [hranges, hnil topic, if_neg (fun hboth => hother hboth.2.symm)]
  rfl

theorem present_round (id : ℤ) (first : PartitionSessionState)
    (hfst : before.find? id = some first) : ∃ now, result'.1.find? id = some now ∧
    (∀ topic, topic ≠ first.topicPath → rangesAt id result'.2 topic = []) ∧
    Contiguous first.readThrough (rangesAt id result'.2 first.topicPath) now.readThrough := by
  obtain ⟨now, hnow, ho, hchain⟩ := h.present id first hfst
  rcases readPart_ranges hround with ⟨_, hsessions, hranges⟩ |
      ⟨state, readThrough, _, hs, hlt, hsessions, hranges⟩
  · rw [hsessions, hranges]
    exact ⟨now, hnow, fun topic hne => (hranges id topic).trans (ho topic hne), hchain⟩
  rw [hsessions]
  by_cases hid : id = part.data.partitionSessionId
  · subst hid
    obtain ⟨known, hknown, htop⟩ := h.topics part mem_cons_self
    obtain rfl := Option.some.inj (hknown.symm.trans hfst)
    obtain rfl := Option.some.inj (hs.symm.trans hnow)
    refine ⟨_, find?_insert_self _ _ _, fun topic hne => ?_, ?_⟩
    · rw [hranges, ho topic hne, if_neg (fun hboth => hne (hboth.1.trans htop))]
      rfl
    rw [hranges, if_pos ⟨htop.symm, rfl⟩]
    exact contiguous_append.mpr ⟨_, hchain, contiguous_singleton.mpr ⟨rfl, hlt, rfl⟩⟩
  have hsame : ∀ topic, rangesAt id result'.2 topic = rangesAt id result.2 topic := by
    intro topic
    rw [hranges, if_neg (fun hboth => hid hboth.2.symm), append_nil]
  rw [find?_insert_ne _ _ hid, hsame]
  exact ⟨now, hnow, fun topic hne => (hsame topic).trans (ho topic hne), hchain⟩

theorem ahead_round (id : ℤ) (later : PartitionSessionState)
    (hl : result'.1.find? id = some later) : inOrder later.readThrough (partOffsets id rest) := by
  rcases readPart_ranges hround with ⟨_, hsessions, _⟩ |
      ⟨state, readThrough, hmax, hs, _, hsessions, _⟩
  · rw [hsessions] at hl
    exact h.rest_ahead hl
  rw [hsessions] at hl
  by_cases hid : id = part.data.partitionSessionId
  · subst hid
    rw [find?_insert_self] at hl
    cases hl
    exact inOrder_append
      (h.part_ahead hs) (decodeBatches_readThrough (h.decoded part mem_cons_self) hmax).1
  rw [find?_insert_ne _ _ hid] at hl
  exact h.rest_ahead hl

theorem round : ReadSoFar config before rest result' where
  decoded later hl := h.decoded later (mem_cons_of_mem _ hl)
  topics later hl := h.topics later (mem_cons_of_mem _ hl)
  absent := h.absent_round hround
  present := h.present_round hround
  ahead := h.ahead_round hround
  covered := h.covered_round hround

end
end
end ReadSoFar

theorem partitionBatches_ok {sessions : Sessions} {data : List PartitionData}
    {parts : List SessionBatches} (h : partitionBatches sessions data = .ok parts) :
    (∀ part ∈ parts, ∃ state, sessions.find? part.partitionSessionId = some state ∧
      part.topicPath = state.topicPath) ∧
    parts.map (fun part => PartitionData.mk part.partitionSessionId part.batches) = data := by
  constructor
  · intro part hp
    obtain ⟨entry, _, he⟩ := mem_of_mapM_ok h hp
    obtain ⟨state, hs, he⟩ := of_bind he
    obtain ⟨_, _, he⟩ := of_bind he
    cases he
    exact ⟨state, okOr_ok.mp hs, rfl⟩
  have hdata : parts.map
      (fun part => PartitionData.mk part.partitionSessionId part.batches) = data.map id := by
    refine mapM_map_eq (fun entry part he => ?_) h
    obtain ⟨state, _, he⟩ := of_bind he
    obtain ⟨_, _, he⟩ := of_bind he
    cases he
    rfl
  rwa [map_id] at hdata

theorem decodePart_ok {cfg : SourceConfig} {data : SessionBatches}
    {part : DecodedPart} (h : decodePart cfg data = .ok part) :
    part.data = data ∧ decodeBatches cfg.codecs part.data = .ok part.decoded := by
  obtain ⟨decoded, hdec, h⟩ := of_bind h
  cases h
  exact ⟨rfl, hdec⟩

section
variable {config : SourceConfig} {sessions sessions' : Sessions}
  {data : List PartitionData} {parts : List SessionBatches}
  {decoded : List DecodedPart} {topicBatches : TopicBatches}

theorem readSoFar_start (hparts : partitionBatches sessions data = .ok parts)
    (hdec : parts.mapM (decodePart config) = .ok decoded)
    (hord : ∀ id state,
      sessions.find? id = some state → inOrder state.readThrough (dataOffsets id data)) :
    ReadSoFar config sessions decoded (sessions, .empty) := by
  obtain ⟨htopics, hdata⟩ := partitionBatches_ok hparts
  have hparts : decoded.map DecodedPart.data = parts.map id :=
    mapM_map_eq (fun entry part hok => (decodePart_ok hok).1) hdec
  rw [map_id] at hparts
  have hoffsets : ∀ id, partOffsets id decoded = dataOffsets id data := by
    rw [← hdata, ← hparts]
    simp [partOffsets, dataOffsets, flatMap_map, SessionBatches.offsets]
  exact
    { decoded := fun part hp => by
        obtain ⟨_, _, hok⟩ := mem_of_mapM_ok hdec hp
        exact (decodePart_ok hok).2
      topics := fun part hp => htopics part.data (hparts ▸ mem_map_of_mem hp)
      absent := fun id hnone => ⟨hnone, fun topic => by simp [rangesAt, partitionRanges]⟩
      present := fun id state hs => ⟨state, hs,
        fun topic _ => by simp [rangesAt, partitionRanges],
        by simp [rangesAt, partitionRanges, Contiguous]⟩
      ahead := fun id state hs => by
        rw [hoffsets]
        exact hord id state hs
      covered := fun topic messages partitions hfind => by simp at hfind }

theorem markerRanges_sourceBatches (id : ℤ) (topics : TopicBatches) :
    markerRanges id (markersOf (sourceBatches topics)) =
      topics.entries.flatMap fun entry => partitionRanges id entry.2.2 := by
  unfold sourceBatches
  induction topics.entries with
  | nil => rfl
  | cons entry rest ih =>
    rw [map_cons, flatMap_cons, ← ih]
    by_cases hnil : entry.2.2 = []
    · simp [markersOf, sourceBatch, hnil, partitionRanges]
    · simp [markersOf, sourceBatch, hnil, markerRanges]

theorem markerRanges_of_topic {id : ℤ} {topic : String}
    (hothers : ∀ other, other ≠ topic → rangesAt id topicBatches other = []) :
    markerRanges id (markersOf (sourceBatches topicBatches)) = rangesAt id topicBatches topic := by
  have hentries : ∀ entry ∈ topicBatches.entries, partitionRanges id entry.2.2 =
        if entry.1 = topic then partitionRanges id entry.2.2 else [] := by
    intro entry hentry
    split
    · rfl
    rename_i hne
    have hnil := hothers entry.1 hne
    rwa [rangesAt, topicBatches.mem_entries_iff.mp hentry] at hnil
  rw [markerRanges_sourceBatches, flatMap_congr hentries,
    topicBatches.flatMap_of_key topic (partitionRanges id ·.2)]
  rw [rangesAt]
  cases topicBatches.find? topic <;> rfl

/-- Every message of a batch lies in a range that the marker of the batch has
for the session of the message. -/
def SourceBatch.Covered (batch : SourceBatch) : Prop := ∀ message ∈ batch.messages,
    Covers (markerRanges message.session batch.commitMarker.toList) message.offset

theorem read_ranges (hparts : partitionBatches sessions data = .ok parts)
    (hdec : parts.mapM (decodePart config) = .ok decoded)
    (hread : decoded.foldlM readPart (sessions, .empty) = .ok (sessions', topicBatches))
    (hord : ∀ id state,
      sessions.find? id = some state → inOrder state.readThrough (dataOffsets id data)) :
    (∀ id, sessions.find? id = none →
        sessions'.find? id = none ∧ markerRanges id (markersOf (sourceBatches topicBatches)) = []) ∧
    (∀ id state, sessions.find? id = some state →
        ∃ now, sessions'.find? id = some now ∧
          Contiguous state.readThrough (markerRanges id (markersOf (sourceBatches topicBatches)))
            now.readThrough) ∧
    ∀ batch ∈ sourceBatches topicBatches, batch.Covered := by
  have hlast := foldlM_induct (P := ReadSoFar config sessions) (fun part
    rest before after hbef hround => hbef.round hround) hread (readSoFar_start hparts hdec hord)
  refine ⟨fun id hnone => ?_, fun id state hs => ?_, ?_⟩
  · obtain ⟨hnow, hnil⟩ := hlast.absent id hnone
    refine ⟨hnow, ?_⟩
    rw [markerRanges_of_topic fun other _ => hnil other]
    exact hnil ""
  · obtain ⟨now, hnow, hothers, hchain⟩ := hlast.present id state hs
    rw [markerRanges_of_topic hothers]
    exact ⟨now, hnow, hchain⟩
  intro batch hbatch msg hmsg
  obtain ⟨entry, hentry, rfl⟩ := mem_map.mp hbatch
  have hc :=
    hlast.covered entry.1 entry.2.1 entry.2.2 (topicBatches.mem_entries_iff.mp hentry) msg hmsg
  have hne : entry.2.2 ≠ [] := by
    intro hnil
    simp [hnil, partitionRanges, Covers] at hc
  simpa [sourceBatch, hne, markerRanges] using hc

end
end Transferia.Logbroker
