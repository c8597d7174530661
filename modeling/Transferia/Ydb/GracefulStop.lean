import Transferia.Ydb.LedgerSteps

/-!
# What a message does to a partition session

A session that is asked to stop gracefully is given up as soon as everything
read in it is acknowledged.  This module says what one message of the server does
to one session, and that no finished stop is left waiting between two messages.
-/

namespace Transferia.Ydb
open List Transferia.Core Support Support.Action OrderedMap PartitionSessionState Bool Int
open Logbroker (Checked ensure okOr fatal retryable ensure_ok okOr_ok
  FromServer ServerMessage ReadResponse PartitionData OffsetsRange
  StartPartitionSessionRequest StopPartitionSessionRequest
  PartitionCommittedOffset)

/-! ## Messages seen from one session -/

/-- The offsets that a list of acknowledgements names for a session. -/
def offsetsFor (id : ℤ) (offsets : List PartitionCommittedOffset) : List ℤ :=
  (offsets.filter (·.partitionSessionId = id)).map PartitionCommittedOffset.committedOffset

def ServerMessage.acks (id : ℤ) : ServerMessage → List ℤ
  | .commitOffsetResponse committed => offsetsFor id committed
  | _ => []

def countIn (id : ℤ) (data : List PartitionData) : ℕ :=
  ((data.filter (·.partitionSessionId = id)).map messageCount).sum

def ServerMessage.count (id : ℤ) : ServerMessage → ℕ
  | .readResponse response => countIn id response.partitionData
  | _ => 0

def ServerMessage.stops (id : ℤ) (graceful : Bool) : ServerMessage → Bool
  | .stopPartitionSessionRequest request =>
    request.partitionSessionId = id && request.graceful = graceful
  | _ => false

open ServerMessage (acks stops)
section
variable (state : PartitionSessionState)

def PartitionSessionState.released : PartitionSessionState :=
  { state with pendingGracefulStop := none, invalidated := true }

def PartitionSessionState.settle : PartitionSessionState :=
  if gracefulStopReady state then state.released else state

def PartitionSessionState.note (offset : ℤ) : PartitionSessionState :=
  { state with committedOffset := offset, commitResponseOffset := offset }

end

/-- What holds between two messages. -/
structure Quiet (sessions : Sessions) (bootstrapCommits : OrderedMap ℤ ℤ) : Prop where
  unready : ∀ id state, sessions.find? id = some state → gracefulStopReady state = false
  same :
    ∀ id state, sessions.find? id = some state → state.committedOffset = state.commitResponseOffset
  bootstrap : ∀ id offset, bootstrapCommits.find? id = some offset →
    ∃ state, sessions.find? id = some state ∧ offset ≤ state.commitResponseOffset

section
variable {sessions sessions' : Sessions} {bootstrapCommits : OrderedMap ℤ ℤ}
  {id : ℤ} {state : PartitionSessionState} {message : ServerMessage} {next : PartitionSessionState}
  {offset : ℤ}
variable (h : Quiet sessions bootstrapCommits)
include h in
theorem Quiet.settle_eq (hfind : sessions.find? id = some state) : state.settle = state := by
  rw [settle, h.unready id state hfind]
  rfl

variable (state)

theorem gracefulStopReady_settle : gracefulStopReady state.settle = false := by
  unfold settle
  cases hready : gracefulStopReady state with
  | false => simpa using hready
  | true => rfl

theorem settle_commitResponseOffset :
    state.settle.commitResponseOffset = state.commitResponseOffset := by
  unfold settle
  split <;> rfl

theorem settle_committedOffset : state.settle.committedOffset = state.committedOffset := by
  unfold settle
  split <;> rfl

variable {state}

/-! ## Releasing -/

def At (sessions : Sessions) (bootstrapCommits : OrderedMap ℤ ℤ) (session : TopicSession) : Prop :=
  session.partitionSessions = sessions ∧ session.bootstrapCommits = bootstrapCommits

theorem silent_at : Silent (At sessions bootstrapCommits) := fun _ _ _ h => h

theorem releaseSessions_meets (ids : List ℤ) :
    Meets (At sessions bootstrapCommits) (releaseSessions ids)
      (fun _ session => session.bootstrapCommits = bootstrapCommits ∧
        ∀ id, session.partitionSessions.find? id = (sessions.find? id).map fun state =>
            if id ∈ ids then state.released else state) fun _ => True := by
  induction ids generalizing sessions with
  | nil =>
    refine .pure fun session h => ⟨h.2, fun id => ?_⟩
    rw [h.1]
    simp
  | cons first rest ih =>
    refine .bind (keeps_send silent_at _) fun _ => ?_
    refine .get_bind fun session hsession => ?_
    obtain ⟨hsessions, hb⟩ := hsession
    refine .bind (Q := fun state s => s = session ∧ sessions.find? first = some state)
      (.lift (fun _ _ hs hstate => ⟨hs, hsessions ▸ okOr_ok.mp hstate⟩) fun _ _ => trivial)
          fun state => ?_
    intro s hs
    obtain ⟨hs, hfind⟩ := hs
    refine (Meets.bind (P := fun s => s = session)
      (Q := fun _ => At (sessions.insert first state.released) bootstrapCommits)
      (Meets.modify fun t ht => ?_) fun _ => ih.imp fun _ t ht => ⟨ht.1, fun id => ?_⟩) s hs
    · subst ht
      refine ⟨?_, hb⟩
      rw [hsessions]
      rfl
    rw [ht.2 id]
    by_cases hid : id = first
    · subst hid
      rw [find?_insert_self, hfind]
      simp [released]
    rw [find?_insert_ne _ _ hid]
    simp [hid]

theorem mem_readySessionIds : id ∈ readySessionIds sessions ↔
    ∃ state, sessions.find? id = some state ∧ gracefulStopReady state := by
  simp only [readySessionIds, mem_map, mem_filter]
  constructor
  · rintro ⟨⟨other, state⟩, ⟨hmem, hready⟩, rfl⟩
    exact ⟨state, sessions.mem_entries_iff.mp hmem, hready⟩
  rintro ⟨state, hfind, hready⟩
  exact ⟨(id, state), ⟨sessions.mem_entries_iff.mpr hfind, hready⟩, rfl⟩

theorem releaseGracefullyStoppedSessions_meets :
    Meets (At sessions bootstrapCommits) releaseGracefullyStoppedSessions
      (fun _ session => session.bootstrapCommits = bootstrapCommits ∧
          ∀ id, session.partitionSessions.find? id = (sessions.find? id).map settle)
      fun _ => True := by
  refine .get_bind fun session hsession => ?_
  refine ((releaseSessions_meets _).strengthen fun s hs => hs ▸ hsession).imp
    fun _ s hs => ⟨hs.1, fun id => ?_⟩
  rw [hs.2 id, hsession.1]
  cases hfind : sessions.find? id with
  | none => rfl
  | some state =>
    simp only
      [Option.map_some, settle, mem_readySessionIds, hfind, Option.some.injEq, exists_eq_left']

/-! ## The effect on one session -/

/-- How a session stands after a message. -/
structure Moved (message : ServerMessage) (id : ℤ) (state state' : PartitionSessionState) :
    Prop where
  response : state'.commitResponseOffset = (acks id message).foldl max state.commitResponseOffset
  read : state'.readThrough = state.readThrough + ServerMessage.count id message
  invalidated : state'.invalidated = (state.invalidated || ((state.pendingGracefulStop.isSome ||
    stops id true message) && decide (state'.readThrough ≤ state'.commitResponseOffset)))
  pending : state'.pendingGracefulStop.isSome = ((state.pendingGracefulStop.isSome ||
    stops id true message) && !decide (state'.readThrough ≤ state'.commitResponseOffset))
  closed : state.invalidated ∨ state.pendingGracefulStop.isSome → ServerMessage.count id message = 0

/-- What a message does to the sessions that it does not stop by force. -/
def Effect (message : ServerMessage) (sessions sessions' : Sessions) : Prop :=
  ∀ id state, sessions.find? id = some state → stops id false message = false →
    ∃ state', sessions'.find? id = some state' ∧ Moved message id state state'

theorem Moved.settle
    (hresp : next.commitResponseOffset = (acks id message).foldl max state.commitResponseOffset)
    (hread : next.readThrough = state.readThrough + ServerMessage.count id message)
    (hinvalidated : next.invalidated = state.invalidated)
    (hpend : next.pendingGracefulStop.isSome =
        (state.pendingGracefulStop.isSome || stops id true message))
    (hclosed :
      state.invalidated ∨ state.pendingGracefulStop.isSome → ServerMessage.count id message = 0) :
    Moved message id state next.settle := by
  have hready : gracefulStopReady next = (next.pendingGracefulStop.isSome &&
        decide (next.readThrough ≤ next.commitResponseOffset)) := rfl
  unfold PartitionSessionState.settle
  cases hsplit : gracefulStopReady next with
  | true =>
    rw [hsplit, hpend] at hready
    obtain ⟨hasked, hdone⟩ := and_eq_true_iff.mp hready.symm
    refine ⟨hresp, hread, ?_, ?_, hclosed⟩
    · rw [hasked]
      exact (or_eq_true_iff.mpr (.inr hdone)).symm
    rw [hasked]
    change false = !decide (next.readThrough ≤ next.commitResponseOffset)
    rw [hdone]
    rfl
  | false =>
    rw [hsplit, hpend] at hready
    refine ⟨hresp, hread, ?_, ?_, hclosed⟩
    · change next.invalidated = _
      rw [hinvalidated]
      change _ = (state.invalidated || (_ && decide (next.readThrough ≤ next.commitResponseOffset)))
      rw [← hready, Bool.or_false]
    change next.pendingGracefulStop.isSome = (_ &&
      !decide (next.readThrough ≤ next.commitResponseOffset))
    rw [hpend]
    cases hdone : decide (next.readThrough ≤ next.commitResponseOffset) with
    | false => rw [Bool.not_false, Bool.and_true]
    | true =>
      rw [hdone, Bool.and_true] at hready
      rw [← hready]
      rfl

theorem Moved.refl (hunready : gracefulStopReady state = false)
    (hacks : (acks id message).foldl max state.commitResponseOffset = state.commitResponseOffset)
    (hcount : ServerMessage.count id message = 0) (hstops : stops id true message = false) :
    Moved message id state state := by
  have hsettle : state.settle = state := by
    rw [PartitionSessionState.settle, hunready]
    rfl
  have hmoved : Moved message id state state.settle :=
    .settle hacks.symm (by simp [hcount]) rfl (by simp [hstops]) fun _ => hcount
  rwa [hsettle] at hmoved

include h in
theorem Effect.of_find?
    (hfind : ∀ id state, sessions.find? id = some state → sessions'.find? id = some state)
    (hacks : ∀ id state, sessions.find? id = some state →
      (acks id message).foldl max state.commitResponseOffset = state.commitResponseOffset)
    (hcount : ∀ id, ServerMessage.count id message = 0)
    (hstops : ∀ id, stops id true message = false) : Effect message sessions sessions' :=
  fun id state hs _ => ⟨state, hfind id state hs,
    .refl (h.unready id state hs) (hacks id state hs) (hcount id) (hstops id)⟩

/-! ## New sessions -/

theorem startingOffset_ok {committedOffset : ℤ} {startOffset : Option ℤ} {offs : OffsetsRange}
    (h : startingOffset committedOffset startOffset offs = .ok offset) :
    ∀ start ∈ startOffset, start ≤ offset := by
  rintro start rfl
  iterate 2 replace h := after_check h
  cases h
  exact le_max_right _ _

include h in
theorem Quiet.assign (hnew : sessions.find? id = none) (hpend : state.pendingGracefulStop = none)
    (hsame : state.committedOffset = state.commitResponseOffset) {bootstrapCommit : Option ℤ}
    (hbootstrap : ∀ offset ∈ bootstrapCommit, offset ≤ state.commitResponseOffset) :
    Quiet (sessions.insert id state) (rememberBootstrap bootstrapCommits id bootstrapCommit) := by
  refine ⟨?_, ?_, ?_⟩
  · exact forall_find?_insert (by simp [gracefulStopReady, hpend]) h.unready
  · exact forall_find?_insert hsame h.same
  intro other offset hget
  by_cases hother : other = id
  · subst hother
    refine ⟨state, find?_insert_self .., ?_⟩
    cases bootstrapCommit with
    | none =>
      obtain ⟨found, hfind, -⟩ := h.bootstrap other offset hget
      cases hnew.symm.trans hfind
    | some first =>
      rw [rememberBootstrap, find?_insert_self] at hget
      cases hget
      exact hbootstrap offset rfl
  have hold : bootstrapCommits.find? other = some offset := by
    cases bootstrapCommit with
    | none => exact hget
    | some first => rwa [rememberBootstrap, find?_insert_ne _ _ hother] at hget
  obtain ⟨found, hfind, hle⟩ := h.bootstrap other offset hold
  exact ⟨found, by rw [find?_insert_ne _ _ hother, hfind], hle⟩

/-- What is known after an event that is not an acknowledgement. -/
def Settled (message : ServerMessage) (sessions : Sessions) (session : TopicSession) : Prop :=
  Quiet session.partitionSessions session.bootstrapCommits ∧
    Effect message sessions session.partitionSessions

/-- What is known after an event.  The offsets of an acknowledgement are still
to be noted. -/
def Handled (message : ServerMessage) (sessions : Sessions)
    (bootstrapCommits : OrderedMap ℤ ℤ) : SessionEvent → TopicSession → Prop
  | .commitAck offsets => fun session =>
    session.partitionSessions = sessions ∧ ∃ committed, message = .commitOffsetResponse committed ∧
      filterBootstrapAcks bootstrapCommits committed = (session.bootstrapCommits, offsets)
  | _ => Settled message sessions

theorem silent_settled (msg : ServerMessage) : Silent (Settled msg sessions) := fun _ _ _ h => h

include h in
theorem startPartitionSession_settled (req : StartPartitionSessionRequest) :
    Meets (At sessions bootstrapCommits) (startPartitionSession req)
      (Handled (.startPartitionSessionRequest req) sessions bootstrapCommits) fun _ => True := by
  refine .bind keeps_lift fun partitionSession => ?_
  refine .get_bind fun sess hsession => ?_
  obtain ⟨rfl, rfl⟩ := hsession
  refine .bind keeps_lift fun _ => .bind keeps_lift fun _ => ?_
  refine .bind keeps_lift fun offs => ?_
  refine .bind (Q := fun committedOffset s => (∀ start ∈ sess.startOffsets.find? (canonicalTopicPath
    partitionSession.path), start ≤ committedOffset) ∧ s = sess) (.lift (fun _ _ hs hoff =>
    ⟨startingOffset_ok hoff, hs⟩) fun _ _ => trivial) fun committedOffset => .of_and fun hstart =>
        ?_
  refine .bind keeps_lift fun _ => ?_
  refine .bind (Q :=
    fun _ s => sess.partitionSessions.find? partitionSession.partitionSessionId = none ∧ s = sess)
    (.lift (fun _ _ hs hnew => ⟨?_, hs⟩) fun _ _ => trivial) fun _ => .of_and fun hnew => ?_
  · have habsent := ensure_ok.mp hnew
    simpa [OrderedMap.contains] using habsent
  refine .bind (Q := fun _ => Settled (.startPartitionSessionRequest req) sess.partitionSessions)
    (.modify fun s hs => ?_) fun _ => .bind
    (keeps_send (silent_settled _) _) fun _ => .pure fun _ hsettled => hsettled
  subst hs
  refine ⟨h.assign hnew rfl rfl fun off hoff => ?_, ?_⟩
  · exact hstart off (Option.mem_filter_iff.mp hoff).1
  refine Effect.of_find? h (fun id state hfind => ?_) (fun _ _ _ => rfl) (fun _ => rfl) fun _ => rfl
  have hother : id ≠ partitionSession.partitionSessionId := by
    intro hsame
    rw [hsame, hnew] at hfind
    cases hfind
  rw [find?_insert_ne _ _ hother]
  exact hfind

/-! ## Stops -/

theorem Quiet.of_settle {released : Sessions}
    (hsame : ∀ id state,
      sessions.find? id = some state → state.committedOffset = state.commitResponseOffset)
    (hbootstrap : ∀ id off, bootstrapCommits.find? id = some off →
      ∃ state, sessions.find? id = some state ∧ off ≤ state.commitResponseOffset)
    (hfind : ∀ id, released.find? id = (sessions.find? id).map settle) :
    Quiet released bootstrapCommits := by
  refine ⟨?_, ?_, ?_⟩
  · intro id state hs
    rw [hfind, Option.map_eq_some_iff] at hs
    obtain ⟨before, -, rfl⟩ := hs
    exact gracefulStopReady_settle before
  · intro id state hs
    rw [hfind, Option.map_eq_some_iff] at hs
    obtain ⟨before, hbefore, rfl⟩ := hs
    rw [settle_committedOffset, settle_commitResponseOffset]
    exact hsame id before hbefore
  intro id off hoff
  obtain ⟨state, hs, hle⟩ := hbootstrap id off hoff
  refine ⟨state.settle, by rw [hfind, hs, Option.map_some], ?_⟩
  rw [settle_commitResponseOffset]
  exact hle

include h in
theorem Quiet.set_same (hfind : sessions.find? id = some state)
    (hcommitted : next.committedOffset = state.committedOffset)
    (hresp : next.commitResponseOffset = state.commitResponseOffset) :
    (∀ other found, (sessions.insert id next).find? other = some found →
      found.committedOffset = found.commitResponseOffset) ∧
    ∀ other off, bootstrapCommits.find? other = some off → ∃ found,
    (sessions.insert id next).find? other = some found ∧ off ≤ found.commitResponseOffset := by
  constructor
  · refine forall_find?_insert ?_ h.same
    rw [hcommitted, hresp]
    exact h.same id state hfind
  intro other off hoff
  obtain ⟨found, hget, hle⟩ := h.bootstrap other off hoff
  by_cases hother : other = id
  · subst hother
    cases hfind.symm.trans hget
    exact ⟨next, find?_insert_self .., hresp ▸ hle⟩
  exact ⟨found, by rw [find?_insert_ne _ _ hother, hget], hle⟩

include h in
theorem stopPartitionSession_settled (req : StopPartitionSessionRequest) :
    Meets (At sessions bootstrapCommits) (stopPartitionSession req)
      (Handled (.stopPartitionSessionRequest req) sessions bootstrapCommits) fun _ => True := by
  refine .get_bind fun sess hsession => ?_
  obtain ⟨rfl, rfl⟩ := hsession
  have hother : ∀ id, id ≠ req.partitionSessionId → ∀ graceful,
      stops id graceful (.stopPartitionSessionRequest req) = false := by
    intro id hid graceful
    simp [stops, hid.symm]
  split
  next hnone =>
    refine .strengthen
      (P := Settled (.stopPartitionSessionRequest req) sess.partitionSessions) ?_ fun s hs => ?_
    · exact .bind (keeps_send (silent_settled _) _) fun _ => .pure fun _ hsettled => hsettled
    subst hs
    refine ⟨h, fun id state hstate _ => ⟨state, hstate, ?_⟩⟩
    refine .refl (h.unready id state hstate) rfl rfl (hother id ?_ _)
    rintro rfl
    cases hnone.symm.trans hstate
  rename_i state hstate
  refine .bind keeps_lift fun _ => ?_
  split
  next hg =>
    refine .bind keeps_lift fun _ => ?_
    refine .bind (Q := fun _ => At (sess.partitionSessions.insert req.partitionSessionId
        { state with pendingGracefulStop := some req.committedOffset })
        sess.bootstrapCommits)
      (.modify fun s hs => by subst hs; exact ⟨rfl, rfl⟩) fun _ => ?_
    refine .bind releaseGracefullyStoppedSessions_meets fun _ => .pure fun s hs => ⟨?_, ?_⟩
    · obtain ⟨hsame, hb⟩ := h.set_same hstate
        (rfl : ({ state with pendingGracefulStop := some req.committedOffset } :
            PartitionSessionState).committedOffset = _) rfl
      rw [hs.1]
      exact .of_settle hsame hb hs.2
    intro id found hget hforced
    rw [hs.2 id]
    by_cases hid : id = req.partitionSessionId
    · subst hid
      cases hstate.symm.trans hget
      rw [find?_insert_self, Option.map_some]
      refine ⟨_, rfl, .settle rfl (add_zero _).symm rfl ?_ fun _ => rfl⟩
      simp [stops, hg]
    rw [find?_insert_ne _ _ hid, hget, Option.map_some, h.settle_eq hget]
    exact ⟨found, rfl, .refl (h.unready id found hget) rfl rfl (hother id hid _)⟩
  rename_i hg
  refine .bind (Q := fun _ => Settled (.stopPartitionSessionRequest req) sess.partitionSessions)
    (.modify fun s hs => ?_) fun _ => .bind
    (keeps_send (silent_settled _) _) fun _ => .pure fun _ hsettled => hsettled
  subst hs
  obtain ⟨hsame, hb⟩ := h.set_same hstate
    (rfl : ({ state with pendingGracefulStop := none, invalidated := true } :
        PartitionSessionState).committedOffset = _) rfl
  refine ⟨⟨?_, hsame, hb⟩, ?_⟩
  · exact forall_find?_insert rfl h.unready
  intro id found hget hforced
  have hid : id ≠ req.partitionSessionId := by
    rintro rfl
    simp [stops, hg] at hforced
  refine ⟨found, ?_, .refl (h.unready id found hget) rfl rfl (hother id hid _)⟩
  rw [find?_insert_ne _ _ hid]
  exact hget

/-! ## Data -/

variable {config : SessionConfig} {memory : MemoryAnswers}
    {data : List PartitionData} {before after : Decoding}
section
variable (hf : data.foldlM (decodePartition config memory) before = .ok after) {id : ℤ}
include hf

theorem decodePartitions_find? (hfind : before.sessions.find? id = some state) :
    after.sessions.find? id = some (state.advance (countIn id data)) ∧
    (state.invalidated ∨ state.pendingGracefulStop.isSome → countIn id data = 0) := by
  induction data generalizing before state with
  | nil =>
    cases hf
    exact ⟨by simpa [countIn, advance] using hfind, fun _ => rfl⟩
  | cons part rest ih =>
    obtain ⟨mid, hmid, hf⟩ := of_bind hf
    obtain ⟨found, new, hreads⟩ := decodePartition_ok hmid
    by_cases hid : part.partitionSessionId = id
    · subst hid
      cases hreads.found.symm.trans hfind
      have hmidFind :
          mid.sessions.find? part.partitionSessionId = some (state.advance new.length) := by
        rw [hreads.sessions, find?_insert_self]
      obtain ⟨hlater, -⟩ := ih hf hmidFind
      have hcount : countIn part.partitionSessionId
          (part :: rest) = new.length + countIn part.partitionSessionId rest := by
        simp [countIn, hreads.count]
      refine ⟨?_, fun hstopped => ?_⟩
      · rw [hlater, hcount]
        simp [advance, add_assoc]
      obtain ⟨hvalid, hnone⟩ := hreads.live
      rcases hstopped with hinvalid | hpend
      · cases hvalid.symm.trans hinvalid
      rw [hnone] at hpend
      cases hpend
    have hmidFind : mid.sessions.find? id = some state := by
      rw [hreads.sessions, find?_insert_ne _ _ (Ne.symm hid)]
      exact hfind
    have hcount : countIn id (part :: rest) = countIn id rest := by simp [countIn, hid]
    rw [hcount]
    exact ih hf hmidFind

theorem decodePartitions_known (hfind : before.sessions.find? id = none) :
    after.sessions.find? id = none := by
  refine foldlM_induct (P := fun _ decoding => Decoding.sessions decoding |>.find? id |>.isNone)
    (fun part rest before after hb hround => ?_) hf (by simp [hfind]) |>
        Option.isNone_iff_eq_none.mp
  obtain ⟨found, new, hreads⟩ := decodePartition_ok hround
  have hid : id ≠ part.partitionSessionId := by
    rintro rfl
    rw [hreads.found] at hb
    cases hb
  rw [hreads.sessions, find?_insert_ne _ _ hid]
  exact hb

end

theorem noteBatch_at (batch : TopicBatch) :
    Keeps (At sessions bootstrapCommits) (noteBatch batch) := by
  refine .get_bind fun sess hs => ?_
  refine .bind keeps_lift fun _ => .bind keeps_lift fun _ => ?_
  exact .set fun _ _ => hs

include h in
theorem decodeResponse_settled (cfg : SessionConfig) (resp : ReadResponse) (mem : MemoryAnswers) :
    Meets (At sessions bootstrapCommits) (decodeResponse cfg resp mem)
      (Handled (.readResponse resp) sessions bootstrapCommits) fun _ => True := by
  refine .get_bind fun session hsession => ?_
  refine .strengthen (P := At sessions bootstrapCommits) ?_ fun _ hs => hs ▸ hsession
  refine .bind keeps_lift fun credit => ?_
  refine .bind (Q := fun _ => At sessions bootstrapCommits)
    (.modify fun _ hs => hs) fun _ => .bind keeps_lift fun _ => ?_
  refine .bind (Q := fun decoding s => resp.partitionData.foldlM (decodePartition cfg mem)
    { sessions := sessions, records := [], markers := [], rawBytes := 0 } = .ok decoding ∧
    At sessions bootstrapCommits s) (.lift (fun _ _ hs hd => ⟨hsession.1 ▸ hd, hs⟩)
    fun _ _ => trivial) fun decoding => .of_and fun hd => ?_
  have hq : Settled (.readResponse resp) sessions
      { session with
        partitionSessions := decoding.sessions, bootstrapCommits := bootstrapCommits } := by
    have hback : ∀ id found, decoding.sessions.find? id = some found → ∃ state, sessions.find? id =
        some state ∧ found = state.advance (countIn id resp.partitionData) ∧ (state.invalidated ∨
        state.pendingGracefulStop.isSome → countIn id resp.partitionData = 0) := by
      intro id found hget
      cases hb : sessions.find? id with
      | none => cases (decodePartitions_known hd hb).symm.trans hget
      | some state =>
        obtain ⟨ha, hc⟩ := decodePartitions_find? hd hb
        exact ⟨state, rfl, Option.some.inj (hget.symm.trans ha), hc⟩
    have hquiet : Quiet decoding.sessions bootstrapCommits := by
      refine ⟨?_, ?_, ?_⟩
      · intro id found hget
        obtain ⟨state, hstate, rfl, hc⟩ := hback id found hget
        have hunready := h.unready id state hstate
        cases hpend : state.pendingGracefulStop with
        | none => simp [gracefulStopReady, advance, hpend]
        | some off =>
          rw [hc (.inr (hpend ▸ rfl))]
          simpa [advance] using hunready
      · intro id found hget
        obtain ⟨state, hstate, rfl, -⟩ := hback id found hget
        exact h.same id state hstate
      intro id off hoff
      obtain ⟨state, hstate, hle⟩ := h.bootstrap id off hoff
      exact ⟨_, (decodePartitions_find? hd hstate).1, hle⟩
    refine ⟨hquiet, fun id state hstate _ => ?_⟩
    obtain ⟨ha, hc⟩ := decodePartitions_find? hd hstate
    refine ⟨_, ha, ?_⟩
    have hsettle : (state.advance (countIn id resp.partitionData)).settle = state.advance
        (countIn id resp.partitionData) := by
      rw [settle, if_neg]
      rw [not_eq_true]
      exact hquiet.unready id _ ha
    rw [← hsettle]
    exact .settle rfl rfl rfl (Bool.or_false _).symm hc
  refine .bind (Q := fun _ => At decoding.sessions bootstrapCommits)
    (.modify fun s hs => ⟨rfl, hs.2⟩) fun _ => ?_
  have hhandle :
      ∀ s, At decoding.sessions bootstrapCommits s → Settled (.readResponse resp) sessions s := by
    rintro s ⟨hsessions, hbootstrap⟩
    unfold Settled
    rw [hsessions, hbootstrap]
    exact hq
  split
  · exact .pure fun s hs => hhandle s hs
  refine .bind keeps_lift fun _ => ?_
  exact .bind (noteBatch_at _) fun _ => .pure fun s hs => hhandle s hs

/-! ## Acknowledgements -/

variable {pending : OrderedMap ℤ ℤ} {offsets : List PartitionCommittedOffset}
  {targets : List (ℤ × ℤ)}

theorem offsetsFor_cons (off : PartitionCommittedOffset)
    (rest : List PartitionCommittedOffset) (id : ℤ) :
    offsetsFor id (off :: rest) = if off.partitionSessionId = id then
        off.committedOffset :: offsetsFor id rest else offsetsFor id rest := by
  unfold offsetsFor
  by_cases hid : off.partitionSessionId = id
  · simp [hid]
  · simp [hid]

theorem filterBootstrapAcks_find?
    (h : (filterBootstrapAcks pending offsets).1.find? id = some offset) :
    pending.find? id = some offset := by
  induction offsets generalizing pending with
  | nil => exact h
  | cons first rest ih =>
    rw [filterBootstrapAcks] at h
    split at h
    · have hkept := ih h
      rw [find?_retain, Option.ite_none_right_eq_some] at hkept
      exact hkept.2
    exact ih h

theorem le_foldl_max (offs : List ℤ) (first : ℤ) : first ≤ offs.foldl max first := by
  induction offs generalizing first with
  | nil => exact le_rfl
  | cons off rest ih => exact (le_max_left _ _).trans (ih _)

theorem filterBootstrapAcks_max (offs : List PartitionCommittedOffset) {response : ℤ}
    (h : ∀ off, pending.find? id = some off → off ≤ response) :
    (offsetsFor id (filterBootstrapAcks pending offs).2).foldl max response =
      (offsetsFor id offs).foldl max response := by
  induction offs generalizing pending response with
  | nil => rfl
  | cons first rest ih =>
    rw [filterBootstrapAcks, offsetsFor_cons]
    split
    next hd =>
      have hrest : ∀ off, (pending.retain fun other => other ≠ first.partitionSessionId).find? id =
          some off → off ≤ response := by
        intro off hoff
        rw [find?_retain, Option.ite_none_right_eq_some] at hoff
        exact h off hoff.2
      rw [ih hrest]
      split
      next hid =>
        rw [hid] at hd
        rw [foldl_cons, max_eq_left (h _ hd)]
      · rfl
    · rw [offsetsFor_cons]
      split
      · exact ih fun off hoff => (h off hoff).trans (le_max_left _ _)
      exact ih h

theorem noteAcks_find? (h : offsets.foldlM noteAck sessions = .ok sessions') (id : ℤ) :
    sessions'.find? id =
    (sessions.find? id).map fun state => (offsetsFor id offsets).foldl note state := by
  induction offsets generalizing sessions with
  | nil =>
    cases h
    simp [offsetsFor]
  | cons first rest ih =>
    obtain ⟨mid, hmid, h⟩ := of_bind h
    obtain ⟨state, hs, rfl⟩ := noteAck_ok hmid
    rw [ih h, offsetsFor_cons]
    by_cases hid : first.partitionSessionId = id
    · subst hid
      rw [find?_insert_self, hs, if_pos rfl]
      rfl
    rw [find?_insert_ne _ _ (Ne.symm hid), if_neg hid]

theorem pairwise_lt_of_neighbours
    (hsorted :
      offsets.Pairwise fun first second => first.partitionSessionId ≤ second.partitionSessionId)
    (hdiffer : (offsets.zip offsets.tail).all
      fun pair => pair.1.partitionSessionId ≠ pair.2.partitionSessionId) :
    offsets.Pairwise (·.partitionSessionId < ·.partitionSessionId) := by
  induction offsets with
  | nil => exact .nil
  | cons first rest ih =>
    obtain ⟨hfst, hrest⟩ := pairwise_cons.mp hsorted
    cases rest with
    | nil => exact pairwise_singleton _ _
    | cons second others =>
      simp only [tail_cons, zip_cons_cons, all_cons, and_eq_true, decide_eq_true_eq] at hdiffer
      have hl := ih hrest (by simpa using hdiffer.2)
      have hlt : first.partitionSessionId < second.partitionSessionId :=
        lt_of_le_of_ne (hfst second mem_cons_self) hdiffer.1
      refine pairwise_cons.mpr ⟨fun off hoff => ?_, hl⟩
      rcases mem_cons.mp hoff with rfl | hmem
      · exact hlt
      · exact hlt.trans ((pairwise_cons.mp hl).1 off hmem)

theorem offsetsFor_of_pairwise_lt
    (h : offsets.Pairwise fun first second => first.partitionSessionId < second.partitionSessionId)
    (id : ℤ) :
    offsetsFor id offsets = [] ∨ ∃ off ∈ offsets, off.partitionSessionId = id ∧
    offsetsFor id offsets = [off.committedOffset] := by
  induction offsets with
  | nil => exact .inl rfl
  | cons first rest ih =>
    obtain ⟨hfst, hrest⟩ := pairwise_cons.mp h
    rw [offsetsFor_cons]
    by_cases hid : first.partitionSessionId = id
    · refine .inr ⟨first, mem_cons_self, hid, ?_⟩
      have hnone : offsetsFor id rest = [] := by
        rw [offsetsFor, map_eq_nil_iff, filter_eq_nil_iff]
        intro off hoff
        have hlt := hfst off hoff
        rw [hid] at hlt
        simpa using hlt.ne'
      rw [if_pos hid, hnone]
    rw [if_neg hid]
    rcases ih hrest with hnone | ⟨off, hmem, hsame, hone⟩
    · exact .inl hnone
    · exact .inr ⟨off, mem_cons_of_mem _ hmem, hsame, hone⟩

theorem note_self (h : state.committedOffset = state.commitResponseOffset) :
    state.note state.commitResponseOffset = state := by
  obtain ⟨topicPath, partitionId, committed, resp, readThrough, pending, invalidated, serial⟩ :=
    state
  cases h
  rfl

theorem applyCommitAck_find?
    (hsame : ∀ id state,
      sessions.find? id = some state → state.committedOffset = state.commitResponseOffset)
    (h : applyCommitAck targets sessions offsets = .ok sessions') (id : ℤ) :
    sessions'.find? id =
      (sessions.find? id).map
        fun state => state.note ((offsetsFor id offsets).foldl max state.commitResponseOffset) := by
  obtain ⟨hdiffer, h⟩ := check_bind_eq_ok.mp h
  obtain ⟨hchunks, h⟩ := check_bind_eq_ok.mp h
  have hchunks := forM_eq_ok.mp hchunks
  have hperm := perm_insertionSort (fun first snd : PartitionCommittedOffset =>
    first.partitionSessionId ≤ snd.partitionSessionId) offsets
  have hfor : (offsetsFor id (offsets.insertionSort fun first snd => first.partitionSessionId ≤
    snd.partitionSessionId)).Perm (offsetsFor id offsets) := (hperm.filter _).map _
  have hstrict :=
    pairwise_lt_of_neighbours (pairwise_insertionSort _ offsets) (ensure_ok.mp hdiffer)
  rw [noteAcks_find? h]
  cases hfind : sessions.find? id with
  | none => rfl
  | some state =>
    have hs := hsame id state hfind
    rw [Option.map_some, Option.map_some, Option.some.injEq]
    rcases offsetsFor_of_pairwise_lt hstrict id with hnone | ⟨offset, hmem, rfl, hone⟩
    · rw [hnone, nil_perm] at hfor
      rw [hnone, hfor]
      exact (note_self hs).symm
    rw [hone, singleton_perm] at hfor
    obtain ⟨found, hget, hle, -⟩ := checkAck_ok (hchunks offset hmem)
    cases hfind.symm.trans hget
    rw [hone, ← hfor]
    simp only [foldl_cons, foldl_nil]
    rw [max_eq_right (hs ▸ hle)]

include h in
theorem settled_of_ack {committed : List PartitionCommittedOffset} {noted : Sessions}
    (hfilter : filterBootstrapAcks bootstrapCommits committed = (pending, offsets))
    (hack : applyCommitAck targets sessions offsets = .ok noted) {session : TopicSession}
    (hbootstrap : session.bootstrapCommits = pending)
    (hfind : ∀ id, session.partitionSessions.find? id = (noted.find? id).map settle) :
    Settled (.commitOffsetResponse committed) sessions session := by
  have hnoted := applyCommitAck_find? h.same hack
  have hd : ∀ id state, sessions.find? id = some state →
      (offsetsFor id offsets).foldl max state.commitResponseOffset =
      (offsetsFor id committed).foldl max state.commitResponseOffset := by
    intro id state hs
    have hbound : ∀ offset, bootstrapCommits.find? id = some offset →
        offset ≤ state.commitResponseOffset := by
      intro offset hoff
      obtain ⟨found, hget, hle⟩ := h.bootstrap id offset hoff
      cases hs.symm.trans hget
      exact hle
    have hmax := filterBootstrapAcks_max committed hbound
    rw [hfilter] at hmax
    exact hmax
  constructor
  · rw [hbootstrap]
    refine .of_settle ?_ ?_ hfind
    · intro id state hs
      rw [hnoted, Option.map_eq_some_iff] at hs
      obtain ⟨before, -, rfl⟩ := hs
      rfl
    intro id offset hoff
    have hkept : (filterBootstrapAcks bootstrapCommits committed).1.find? id = some offset := by
      rw [hfilter]
      exact hoff
    obtain ⟨state, hs, hle⟩ := h.bootstrap id offset (filterBootstrapAcks_find? hkept)
    exact ⟨_, by rw [hnoted, hs, Option.map_some], hle.trans (le_foldl_max _ _)⟩
  intro id state hs _
  rw [hfind, hnoted, hs]
  exact
    ⟨_, rfl, .settle (hd id state hs) (add_zero _).symm rfl (Bool.or_false _).symm fun _ => rfl⟩

include h in
theorem commitOffsetResponse_handled (comm : List PartitionCommittedOffset) :
    Meets (At sessions bootstrapCommits) (commitOffsetResponse comm)
      (Handled (.commitOffsetResponse comm) sessions bootstrapCommits) fun _ => True := by
  refine .bind keeps_lift fun _ => .get_bind fun sess hsession => ?_
  obtain ⟨hsessions, hb⟩ := hsession
  rw [hb]
  cases hfilter : filterBootstrapAcks bootstrapCommits comm with
  | mk pending offs =>
    refine .bind (Q := fun _ => At sessions pending)
      (.modify fun s hs => by subst hs; exact ⟨hsessions, rfl⟩)
      fun _ => ?_
    split
    next hempty =>
      refine .pure fun s hs => ?_
      have hnone : applyCommitAck [] sessions [] = .ok sessions := rfl
      rw [hempty] at hfilter
      refine settled_of_ack h hfilter hnone hs.2 fun id => ?_
      rw [hs.1]
      cases hfind : sessions.find? id with
      | none => rfl
      | some state => rw [Option.map_some, h.settle_eq hfind]
    · exact .pure fun s hs => ⟨hs.1, comm, rfl, by rw [hfilter, hs.2]⟩

/-! ## All messages -/

section
variable (h : Quiet sessions bootstrapCommits) (cfg : SessionConfig)
include h cfg

theorem processMessage_handled (mem : MemoryAnswers) (msg : ServerMessage) :
    Meets (At sessions bootstrapCommits) (processMessage cfg mem msg)
      (Handled msg sessions bootstrapCommits) fun _ => True := by
  have hsame : ∀ msg s, At sessions bootstrapCommits s →
      (∀ id, acks id msg = []) → (∀ id, ServerMessage.count id msg = 0) →
      (∀ id, stops id true msg = false) → Settled msg sessions s := by
    rintro msg s ⟨rfl, rfl⟩ hacks hcount hstops
    exact ⟨h, Effect.of_find? h (fun _ _ hfind => hfind)
      (fun id _ _ => by rw [hacks]; rfl) hcount hstops⟩
  cases msg with
  | initResponse => exact .throw fun _ _ => trivial
  | startPartitionSessionRequest req => exact startPartitionSession_settled h req
  | readResponse resp => exact decodeResponse_settled h cfg resp mem
  | commitOffsetResponse committed => exact commitOffsetResponse_handled h committed
  | stopPartitionSessionRequest req => exact stopPartitionSession_settled h req
  | endPartitionSession id =>
    refine .get_bind fun sess hsession => .lift ?_ fun _ _ => trivial
    intro s event hs hev
    obtain ⟨state, -, ⟨⟩⟩ := of_bind hev
  | updatePartitionSession id =>
    refine .get_bind fun sess hsession => .bind keeps_lift fun _ => ?_
    exact .pure fun s hs => hsame _ s (hs ▸ hsession) (fun _ => rfl) (fun _ => rfl) fun _ => rfl
  | partitionSessionStatusResponse | updateTokenResponse =>
    exact .pure fun s hs => hsame _ s hs (fun _ => rfl) (fun _ => rfl) fun _ => rfl

theorem receiveEvent_handled (resp : FromServer) (mem : MemoryAnswers) : Meets (At sessions
    bootstrapCommits) (receiveEvent cfg resp mem) (fun event session => ∃ msg, resp.serverMessage =
    some msg ∧ Handled msg sessions bootstrapCommits event session) fun _ => True := by
  refine .bind keeps_lift fun _ => .bind keeps_lift fun _ => ?_
  refine .bind (Q := fun msg s => resp.serverMessage = some msg ∧ At sessions bootstrapCommits s)
    (.lift (fun _ _ hs hmsg => ⟨okOr_ok.mp hmsg, hs⟩) fun _ _ => trivial)
    fun msg => .of_and fun hmsg => ?_
  exact (processMessage_handled h cfg mem msg).imp fun _ _ hhandle => ⟨msg, hmsg, hhandle⟩

theorem commitRound_settled (targets : List (ℤ × ℤ)) (resp : FromServer) (mem : MemoryAnswers) :
    Meets (At sessions bootstrapCommits) (commitRound cfg targets resp mem) (fun _ session => ∃ msg,
    resp.serverMessage = some msg ∧ Settled msg sessions session) fun _ => True := by
  refine .bind (receiveEvent_handled h cfg resp mem) fun event => ?_
  refine .bind
    (Q := fun _ session => ∃ msg, resp.serverMessage = some msg ∧ Settled msg sessions session) ?_
    fun _ => .get_bind fun session hsess => .lift (fun _ _ hs _ => hs ▸ hsess) fun _ _ => trivial
  cases event with
  | batch batch =>
    refine .bind keeps_lift fun _ => .modify fun s hs => ?_
    exact hs
  | commitAck offs =>
    intro s hs
    obtain ⟨msg, hmsg, hsessions, committed, rfl, hfilter⟩ := hs
    refine
      (Meets.get_bind (P := At sessions s.bootstrapCommits) fun session hsess => ?_) s
          ⟨hsessions, rfl⟩
    refine Meets.bind (Q := fun noted t => applyCommitAck targets sessions offs = .ok noted ∧
      t = session) (.lift (fun _ _ ht hack => ⟨hsess.1 ▸ hack, ht⟩) fun _ _ => trivial)
      fun noted => .of_and fun hack => ?_
    refine .bind (Q := fun _ => At noted s.bootstrapCommits)
      (.modify fun t ht => by subst ht; exact ⟨rfl, hsess.2⟩)
      fun _ => ?_
    exact releaseGracefullyStoppedSessions_meets.imp
      fun _ t ht => ⟨_, hmsg, settled_of_ack h hfilter hack ht.1 ht.2⟩
  | continueReading => exact .pure fun s hs => hs

end
end
end Transferia.Ydb
