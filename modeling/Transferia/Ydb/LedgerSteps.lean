import Transferia.Ydb.SessionLedger

/-!
# The calls of a changefeed session keep its ledger

A batch that was just decoded is in hand until it is returned or put into the
buffer; every other batch is returned or buffered.
-/

namespace Transferia.Ydb
open List Transferia.Core Support Support.Action TopicRun Nat Int OrderedMap
open Logbroker (Checked ensure okOr fatal retryable checkedI64
  ensure_ok okOr_ok checkedI64_eq_some FromServer ServerMessage ReadResponse
  StartPartitionSessionRequest StopPartitionSessionRequest
  PartitionCommittedOffset)
variable {P : TopicSession → Prop}

def bytesOf (markers : List TopicCommitMarker) : ℕ :=
  (markers.map TopicCommitMarker.retainedBytes).sum

def handles (batches : List TopicBatch) : List TopicCommitMarker :=
  batches.map TopicBatch.commitMarker

/-- Whose turn the batches of a session are.  `total` is the credit; the owner
has got `returned` and has not committed `handed`; a batch that was just decoded
is `inHand`. -/
structure Accounts where
  total : ℤ
  returned : List TopicBatch
  handed : List TopicCommitMarker
  (buffered inHand : List TopicBatch)

def Accounts.waiting (a : Accounts) : List TopicBatch := a.buffered ++ a.inHand

structure Ledger (a : Accounts) (session : TopicSession) : Prop where
  sessions : SessionsAt session.partitionSessions session.assignments
    (recordsOf session.reads) (markersOf session.reads)
  credit : session.availableCredit + session.pendingCredit = a.total
  buffer : session.bufferedBatches = a.buffered
  order : session.reads = a.returned ++ a.waiting
  placed : (handles session.reads).Perm
    (session.released ++ session.settled ++ a.handed ++ handles a.waiting)
  retained : session.retainedBatchBytes = bytesOf session.settled + bytesOf a.handed + bytesOf
    (handles a.waiting)
  bounded : session.retainedBatchBytes < usizeValues
  release : session.pendingReleaseBatchBytes = bytesOf session.settled
  uncommitted : session.uncommittedBatches = a.handed.length + a.waiting.length

def AfterEvent (a : Accounts) : SessionEvent → TopicSession → Prop
  | .batch batch => Ledger { a with inHand := [batch] }
  | _ => Ledger a

theorem bytesOf_append (first second : List TopicCommitMarker) :
    bytesOf (first ++ second) = bytesOf first + bytesOf second := by
  simp [bytesOf]

def Keeps {α : Type} (P : TopicSession → Prop) (action : TopicAction α) : Prop :=
  Meets P action (fun _ => P) fun _ => True

theorem keeps_lift {α : Type} {checked : Checked α} : Keeps P (Action.lift checked) :=
  .lift (fun _ _ h _ => h) fun _ _ => trivial

def Silent (P : TopicSession → Prop) : Prop :=
  ∀ session outage sent, P session → P { session with outage, sent }

theorem keeps_send (hP : Silent P) (msg : ClientMessage) : Keeps P (send msg) := by
  refine .get_bind fun sess hsession => ?_
  split
  · exact .throw fun _ _ => trivial
  all_goals exact .modify fun s hs => hs ▸ hP sess _ _ hsession

section
variable {a : Accounts} {session : TopicSession} {sessions : Sessions} {batch : TopicBatch}

theorem silent_ledger : Silent (Ledger a) := fun _ _ _ h => { h with }

theorem Ledger.withSessions (h : Ledger a session) (bootstrapCommits : OrderedMap ℤ ℤ)
    (hsessions :
      SessionsAt sessions session.assignments (recordsOf session.reads) (markersOf session.reads)) :
    Ledger a { session with partitionSessions := sessions, bootstrapCommits } :=
  { h with sessions := hsessions }

/-! ## Partition sessions -/

theorem startPartitionSession_meets (req : StartPartitionSessionRequest) :
    Meets (Ledger a) (startPartitionSession req) (AfterEvent a) fun _ => True := by
  refine .bind keeps_lift fun partitionSession => ?_
  refine .get_bind fun sess hsession => ?_
  refine .bind keeps_lift fun _ => .bind keeps_lift fun _ => ?_
  refine .bind keeps_lift fun offs => ?_
  refine .bind keeps_lift fun committedOffset => ?_
  refine .bind keeps_lift fun _ => .bind keeps_lift fun _ => ?_
  refine .bind (Q := fun _ => Ledger a)
    (.modify fun s hs => ?_) fun _ => .bind (keeps_send silent_ledger _) fun _ => .pure fun _ h => h
  subst hs
  exact { hsession with sessions := hsession.sessions.assign rfl (le_refl _) (le_max_left _ _) }

theorem commitOffsetResponse_meets (comm : List PartitionCommittedOffset) :
    Meets (Ledger a) (commitOffsetResponse comm) (AfterEvent a) fun _ => True := by
  refine .bind keeps_lift fun _ => .get_bind fun sess hsession => ?_
  refine .bind (Q := fun _ => Ledger a) (.modify fun s hs => ?_) fun _ => ?_
  · subst hs
    exact hsession.withSessions _ hsession.sessions
  split
  all_goals exact .pure fun _ h => h

theorem setSession_keeps {id : ℤ} {state next : PartitionSessionState}
    (hfind : session.partitionSessions.find? id = some state) (hserial : next.serial = state.serial)
    (hread : next.readThrough = state.readThrough)
    (hcommitted : next.committedOffset = state.committedOffset)
    (hresp : next.commitResponseOffset = state.commitResponseOffset) (h : Ledger a session) :
    Meets (· = session) (setSession id next) (fun _ => Ledger a) fun _ => True := by
  refine .modify fun s hs => ?_
  subst hs
  obtain ⟨hle, hbound⟩ := h.sessions.offsets id state hfind
  exact h.withSessions _ (h.sessions.set hfind hserial hread
    (by rw [hcommitted, hresp]; exact hle) (by rw [hresp, hread]; exact hbound))

theorem releaseSessions_keeps (ids : List ℤ) : Keeps (Ledger a) (releaseSessions ids) := by
  induction ids with
  | nil => exact .pure fun _ h => h
  | cons id rest ih =>
    refine .bind (keeps_send silent_ledger _) fun _ => ?_
    refine .get_bind fun sess hsession => ?_
    refine .bind (Q := fun state s => s = sess ∧ sess.partitionSessions.find? id = some state)
      (.lift (fun _ _ hs hstate => ⟨hs, okOr_ok.mp hstate⟩) fun _ _ => trivial) fun state => ?_
    refine .bind (fun s hs => ?_) fun _ => ih
    have hset := setSession_keeps hs.2
      (rfl : ({ state with pendingGracefulStop := none, invalidated := true } :
      PartitionSessionState).serial = state.serial) rfl rfl rfl hsession
    exact hset s hs.1

theorem releaseGracefullyStoppedSessions_keeps :
    Keeps (Ledger a) releaseGracefullyStoppedSessions :=
  .get_bind fun _ hsession => (releaseSessions_keeps _).strengthen fun _ hs => hs ▸ hsession

theorem stopPartitionSession_meets (req : StopPartitionSessionRequest) :
    Meets (Ledger a) (stopPartitionSession req) (AfterEvent a) fun _ => True := by
  refine .get_bind fun sess hsession => ?_
  split
  · refine .strengthen (P := Ledger a) ?_ fun _ hs => hs ▸ hsession
    exact .bind (keeps_send silent_ledger _) fun _ => .pure fun _ h => h
  rename_i state hstate
  refine .bind keeps_lift fun _ => ?_
  split
  · refine .bind keeps_lift fun _ => ?_
    refine .bind (setSession_keeps hstate rfl rfl rfl rfl hsession) fun _ => ?_
    exact .bind releaseGracefullyStoppedSessions_keeps fun _ => .pure fun _ h => h
  refine .bind (setSession_keeps hstate rfl rfl rfl rfl hsession) fun _ => ?_
  exact .bind (keeps_send silent_ledger _) fun _ => .pure fun _ h => h

/-! ## Read responses -/

theorem noteBatch_meets (hemp : a.inHand = []) (h : Ledger a session)
    (hsessions : SessionsAt sessions session.assignments (recordsOf session.reads ++ batch.records)
      (markersOf session.reads ++ batch.commitMarker.partitions)) :
    Meets (fun s => s = { session with partitionSessions := sessions }) (noteBatch batch)
      (fun _ => Ledger { a with inHand := [batch] }) fun _ => True := by
  refine .get_bind fun s hs => ?_
  subst hs
  refine .bind (Q := fun bytes s => session.retainedBatchBytes + batch.commitMarker.retainedBytes <
    usizeValues ∧ session.retainedBatchBytes + batch.commitMarker.retainedBytes = bytes)
    (.lift (fun _ _ _ hbytes => checkedAdd_eq_some.mp (okOr_ok.mp hbytes)) fun _ _ => trivial)
    fun bytes => .of_and fun hbounded => ?_
  refine .bind (Q := fun count s => session.uncommittedBatches + 1 = count ∧
    session.retainedBatchBytes + batch.commitMarker.retainedBytes = bytes) (.lift (fun _ _ hs
    hcount => ⟨(checkedAdd_eq_some.mp (okOr_ok.mp hcount)).2, hs⟩) fun _ _ => trivial) fun count =>
        ?_
  refine .set fun _ hs => ?_
  obtain ⟨rfl, rfl⟩ := hs
  have hwait : Accounts.waiting { a with inHand := [batch] } = a.waiting ++ [batch] := by
    simp [Accounts.waiting, hemp]
  refine ⟨?_, h.credit, h.buffer, ?_, ?_, ?_, hbounded, h.release, ?_⟩
  · simpa [recordsOf, markersOf] using hsessions
  · rw [hwait, h.order, append_assoc]
  · rw [hwait]
    simp only [handles, map_append, ← append_assoc]
    exact h.placed.append_right _
  · rw [hwait, h.retained]
    simp only [handles, map_append, bytesOf_append, ← add_assoc]
    rfl
  rw [hwait, h.uncommitted, length_append]
  rfl

theorem consumeReadResponseCredit_ok {avail pend reported : ℤ} {res : ℤ × ℤ}
    (h : consumeReadResponseCredit avail pend reported = .ok res) :
    res = (avail - reported, pend + reported) := by
  iterate 2 replace h := after_check h
  obtain ⟨left, hleft, h⟩ := of_bind h
  obtain ⟨right, hright, h⟩ := of_bind h
  cases h
  rw [checkedI64_eq_some (okOr_ok.mp hleft), checkedI64_eq_some (okOr_ok.mp hright)]

section
variable (hemp : a.inHand = []) (config : SessionConfig)
include hemp config

theorem decodeResponse_meets (resp : ReadResponse) (mem : MemoryAnswers) :
    Meets (Ledger a) (decodeResponse config resp mem) (AfterEvent a) fun _ => True := by
  refine .get_bind fun session hsession => ?_
  refine .bind (Q := fun credit s => credit = (session.availableCredit - resp.bytesSize,
    session.pendingCredit + resp.bytesSize) ∧ s = session)
    (.lift (fun _ _ hs hc => ⟨consumeReadResponseCredit_ok hc, hs⟩) fun _ _ => trivial)
    fun credit => .of_and fun hc => ?_
  subst hc
  refine .bind (Q := fun _ s => s =
      { session with
        availableCredit := session.availableCredit - resp.bytesSize
        pendingCredit := session.pendingCredit + resp.bytesSize })
    (.modify fun s hs => by rw [hs]) fun _ => ?_
  have hcredited : Ledger a
      { session with
        availableCredit := session.availableCredit - resp.bytesSize
        pendingCredit := session.pendingCredit + resp.bytesSize } :=
    { hsession with credit := by have := hsession.credit; dsimp only; omega }
  refine .bind keeps_lift fun _ => ?_
  refine .bind (Q := fun decoding s =>
      DecodingAt session.assignments (recordsOf session.reads)
        (markersOf session.reads) decoding ∧ s =
      { session with
        availableCredit := session.availableCredit - resp.bytesSize
        pendingCredit := session.pendingCredit + resp.bytesSize })
    (.lift (fun _ _ hs hd =>
      ⟨decodePartitions_at hd ⟨?_, fun _ => rfl⟩, hs⟩)
      fun _ _ => trivial) fun decoding => .of_and fun hd => ?_
  · rw [append_nil, append_nil]
    exact hsession.sessions
  refine .bind (Q := fun _ s => s =
      { session with
        availableCredit := session.availableCredit - resp.bytesSize
        pendingCredit := session.pendingCredit + resp.bytesSize
        partitionSessions := decoding.sessions })
    (.modify fun s hs => by rw [hs]) fun _ => ?_
  split
  next hnone =>
    refine .pure fun s hs => ?_
    subst hs
    have hsessions := hd.sessions
    rw [hd.empty hnone, hnone, append_nil, append_nil] at hsessions
    exact hcredited.withSessions _ hsessions
  · refine .bind keeps_lift fun retainedBytes => ?_
    exact .bind (noteBatch_meets hemp hcredited hd.sessions) fun _ => .pure fun _ h => h

theorem processMessage_meets (mem : MemoryAnswers) (msg : ServerMessage) :
    Meets (Ledger a) (processMessage config mem msg) (AfterEvent a) fun _ => True := by
  cases msg with
  | initResponse => exact .throw fun _ _ => trivial
  | startPartitionSessionRequest req => exact startPartitionSession_meets req
  | readResponse resp => exact decodeResponse_meets hemp config resp mem
  | commitOffsetResponse committed => exact commitOffsetResponse_meets committed
  | stopPartitionSessionRequest req => exact stopPartitionSession_meets req
  | endPartitionSession id =>
    refine .get_bind fun sess hsession => .lift ?_ fun _ _ => trivial
    intro s event hs hev
    obtain ⟨state, -, ⟨⟩⟩ := of_bind hev
  | updatePartitionSession id =>
    refine .get_bind fun sess hsession => ?_
    exact .bind keeps_lift fun _ => .pure fun _ hs => hs ▸ hsession
  | partitionSessionStatusResponse | updateTokenResponse => exact .pure fun _ h => h

theorem receiveEvent_meets (resp : FromServer) (mem : MemoryAnswers) :
    Meets (Ledger a) (receiveEvent config resp mem) (AfterEvent a) fun _ => True :=
  .bind keeps_lift fun _ => .bind keeps_lift fun _ =>
    .bind keeps_lift (processMessage_meets hemp config mem ·)

end

/-! ## Credit and memory -/

theorem sendReadCredit_meets (bytes pend : ℤ) :
    Meets (fun s => Ledger a s ∧ s.pendingCredit = pend) (sendReadCredit bytes)
      (fun _ s => Ledger { a with total := a.total + bytes } s ∧ s.pendingCredit = pend)
      fun _ => True := by
  refine .bind keeps_lift fun _ => ?_
  refine .bind
    (keeps_send (fun s outage sent h => ⟨silent_ledger s outage sent h.1, h.2⟩) _) fun _ => ?_
  refine .get_bind fun sess hsession => ?_
  refine .bind (Q := fun credit s => sess.availableCredit + bytes = credit) (.lift (fun _ _ _ hc
    => checkedI64_eq_some (okOr_ok.mp hc)) fun _ _ => trivial) fun credit => .set fun s hs => ?_
  obtain ⟨h, hpend⟩ := hsession
  have hc := h.credit
  refine ⟨{ h with credit := ?_ }, hpend⟩
  dsimp only
  omega

theorem replenishCredit_keeps : Keeps (Ledger a) replenishCredit := by
  refine .get_bind fun sess hsession => ?_
  split
  · exact .pure fun _ hs => hs ▸ hsession
  refine .bind ((sendReadCredit_meets _ sess.pendingCredit).strengthen
    fun s hs => ⟨hs ▸ hsession, congrArg _ hs⟩) fun _ => .modify fun s hs => ?_
  obtain ⟨h, hpend⟩ := hs
  have hcredit := h.credit
  refine { h with credit := ?_ }
  dsimp only at hcredit ⊢
  omega

theorem releaseCommittedBatchMemory_keeps : Keeps (Ledger a) releaseCommittedBatchMemory := by
  refine .get_bind fun sess hsession => ?_
  split
  · exact .pure fun _ hs => hs ▸ hsession
  refine .bind (Q := fun _ _ => True)
    (.lift (fun _ _ _ _ => trivial) fun _ _ => trivial) fun _ => .set fun _ _ => ?_
  have hretained := hsession.retained
  have hr := hsession.release
  have hbounded := hsession.bounded
  refine { hsession with placed := ?_, retained := ?_, bounded := ?_, release := rfl }
  · simpa using hsession.placed
  · simp only [bytesOf, map_nil, sum_nil] at hretained hr ⊢
    omega
  dsimp only
  omega

theorem removeSettledInvalidatedSessions_keeps :
    Keeps (Ledger a) removeSettledInvalidatedSessions :=
  .modify fun _ h => h.withSessions _ (h.sessions.retain _)

theorem pushBufferedBatch_meets (batch : TopicBatch) (mem : MemoryAnswers) :
    Meets (Ledger { a with inHand := [batch] }) (pushBufferedBatch batch mem)
      (fun _ => Ledger { a with
        buffered := a.buffered ++ [batch], inHand := [] }) fun _ => True := by
  refine .bind keeps_lift fun _ => .modify fun s h => ?_
  have hwait : Accounts.waiting { a with buffered := a.buffered ++ [batch], inHand := [] } =
      Accounts.waiting { a with inHand := [batch] } := by
    simp [Accounts.waiting]
  exact ⟨h.sessions, h.credit, congrArg (· ++ [batch]) h.buffer, hwait ▸ h.order,
    hwait ▸ h.placed, hwait ▸ h.retained, h.bounded, h.release, hwait ▸ h.uncommitted⟩

/-! ## Reading -/

def Accounts.handOut (a : Accounts) (batch : TopicBatch) (rest : List TopicBatch) : Accounts where
  total := a.total
  returned := a.returned ++ [batch]
  handed := a.handed ++ [batch.commitMarker]
  buffered := rest
  inHand := []

theorem Ledger.handOut {rest buf : List TopicBatch} (h : Ledger a session)
    (hwait : a.waiting = batch :: rest) (hbuffer : buf = rest) :
    Ledger (a.handOut batch rest) { session with bufferedBatches := buf } := by
  have hrest : (a.handOut batch rest).waiting = rest := append_nil rest
  have hord := h.order
  have hpayload := h.placed
  have hr := h.retained
  have hu := h.uncommitted
  rw [hwait] at hord hpayload hr hu
  refine ⟨h.sessions, h.credit, hbuffer, ?_, ?_, ?_, h.bounded, h.release, ?_⟩
  · rw [hrest]
    simpa [Accounts.handOut] using hord
  · rw [hrest]
    simpa [handles, Accounts.handOut] using hpayload
  · rw [hrest, hr]
    simp [handles, bytesOf, Accounts.handOut, add_assoc]
  rw [hrest, hu]
  simp only [Accounts.handOut, length_append, length_cons, length_nil]
  omega

def AfterBegin (a : Accounts) : ReadStart → TopicSession → Prop
  | .batch batch => fun session => ∃ rest, a.buffered = batch :: rest ∧
      Ledger (a.handOut batch rest) session
  | .nothing => Ledger a
  | .wait => fun session => a.buffered = [] ∧ Ledger a session

theorem beginRead_meets (hemp : a.inHand = []) :
    Meets (Ledger a) beginRead (AfterBegin a) fun _ => True := by
  refine .bind releaseCommittedBatchMemory_keeps fun _ => ?_
  refine .bind removeSettledInvalidatedSessions_keeps fun _ => ?_
  refine .get_bind fun session hsession => ?_
  split
  next batch rest hbuf =>
    have hbuf := hsession.buffer.symm.trans hbuf
    have hwait : a.waiting = batch :: rest := by rw [Accounts.waiting, hemp, hbuf, append_nil]
    refine .bind (Q := fun _ s => s = { session with bufferedBatches := rest })
      (.set fun _ _ => rfl) fun _ => .pure fun s hs => ?_
    exact ⟨rest, hbuf, hs ▸ hsession.handOut hwait rfl⟩
  rename_i hbuf
  split
  · exact .pure fun _ hs => hs ▸ hsession
  refine .bind
    (replenishCredit_keeps.strengthen fun _ hs => hs ▸ hsession) fun _ => .pure fun _ h => ?_
  exact ⟨hsession.buffer.symm.trans hbuf, h⟩

theorem readRound_meets (hbuf : a.buffered = []) (hemp : a.inHand = [])
    (cfg : SessionConfig) (resp : FromServer) (mem : MemoryAnswers) :
    Meets (Ledger a) (readRound cfg resp mem)
      (fun found session => match found with
        | some batch => Ledger (a.handOut batch []) session
        | none => Ledger a session) fun _ => True := by
  refine .bind (receiveEvent_meets hemp cfg resp mem) fun event => ?_
  cases event with
  | batch batch =>
    refine .pure fun s h => ?_
    have hwait : Accounts.waiting { a with inHand := [batch] } = [batch] := by
      rw [Accounts.waiting, hbuf, nil_append]
    exact h.handOut hwait (h.buffer.trans hbuf)
  | commitAck offs => exact .throw fun _ _ => trivial
  | continueReading =>
    refine .bind removeSettledInvalidatedSessions_keeps fun _ => ?_
    exact .bind replenishCredit_keeps fun _ => .pure fun _ h => h

/-! ## Committing -/

variable {commit : InFlightCommit} {markers handed : List TopicCommitMarker}
  {targets : List (ℤ × ℤ)} {offset : PartitionCommittedOffset} {sessions' : Sessions}

theorem sum_of_checkedAdd {sizes : List ℕ} {first last : ℕ}
    (h : sizes.foldlM checkedAdd first = some last) : first + sizes.sum = last := by
  induction sizes generalizing first with
  | nil =>
    cases h
    rfl
  | cons size rest ih =>
    obtain ⟨mid, hmid, h⟩ := Option.bind_eq_some_iff.mp h
    have hrest := ih h
    obtain ⟨-, rfl⟩ := checkedAdd_eq_some.mp hmid
    rw [sum_cons, ← add_assoc]
    exact hrest

theorem buildCommitRequest_bytes {parts : CommitRequestParts}
    (h : buildCommitRequest markers sessions = .ok parts) :
    parts.committedBytes = bytesOf markers := by
  obtain ⟨bytes, hbytes, h⟩ := of_bind h
  obtain ⟨es, -, h⟩ := of_bind h
  obtain ⟨grouped, -, h⟩ := of_bind h
  obtain ⟨commits, -, h⟩ := of_bind h
  cases h
  have hsum := sum_of_checkedAdd (okOr_ok.mp hbytes)
  rw [zero_add] at hsum
  exact hsum.symm

/-- A commit of markers that were handed out. -/
structure Commits (commit : InFlightCommit) (handed : List TopicCommitMarker) : Prop where
  markers : commit.markers.Subperm handed
  bytes : commit.committedBytes = bytesOf commit.markers

theorem Commits.perm (h : Commits commit handed) :
    (commit.markers ++ handed.diff commit.markers).Perm handed :=
  subperm_append_diff_self_of_count_le (subperm_ext_iff.mp h.markers)

theorem Commits.bytesOf_handed (h : Commits commit handed) :
    bytesOf handed = bytesOf commit.markers + bytesOf (handed.diff commit.markers) := by
  rw [← bytesOf_append]
  exact ((h.perm.map _).sum_eq).symm

theorem beginCommit_meets (hmarkers : markers.Subperm a.handed) (admission : Except String Unit) :
    Meets (Ledger a) (beginCommit markers admission)
      (fun commit session => Commits commit a.handed ∧ Ledger a session) fun _ => True := by
  refine .get_bind fun session hsession => ?_
  refine .strengthen (P := Ledger a) ?_ fun _ hs => hs ▸ hsession
  refine .bind keeps_lift fun _ => .bind keeps_lift fun _ => ?_
  refine .bind (Q := fun parts s => parts.committedBytes = bytesOf markers ∧ Ledger a s)
    (.lift (fun _ _ h hparts => ⟨buildCommitRequest_bytes hparts, h⟩) fun _ _ => trivial)
    fun parts => .of_and fun hbytes => ?_
  refine .bind keeps_lift fun _ => .bind keeps_lift fun _ => ?_
  exact .bind (keeps_send silent_ledger _) fun _ => .pure fun _ h => ⟨⟨hmarkers, hbytes⟩, h⟩

def Accounts.settle (a : Accounts) (commit : InFlightCommit) : Accounts :=
  { a with handed := a.handed.diff commit.markers }

theorem Ledger.settle (h : Ledger a session) (hcommit : Commits commit a.handed) {bytes : ℕ}
    (hbytes : session.pendingReleaseBatchBytes + commit.committedBytes = bytes) :
    Ledger (a.settle commit)
      { session with
        uncommittedBatches := session.uncommittedBatches - commit.markers.length
        pendingReleaseBatchBytes := bytes, settled := session.settled ++ commit.markers } := by
  have hsplit := hcommit.perm
  have hsum := hcommit.bytesOf_handed
  have hlen := hsplit.length_eq
  rw [length_append] at hlen
  have hwait : (a.settle commit).waiting = a.waiting := rfl
  have hretained := h.retained
  have hrelease := h.release
  have huncommitted := h.uncommitted
  have hcommitted := hcommit.bytes
  refine ⟨h.sessions, h.credit, h.buffer, h.order, ?_, ?_, h.bounded, ?_, ?_⟩
  · apply h.placed.trans
    simp only [append_assoc]
    refine (List.Perm.append_left _ (List.Perm.append_left _ ?_))
    rw [← append_assoc]
    exact hsplit.symm.append_right _
  · rw [hwait, bytesOf_append]
    dsimp only [Accounts.settle]
    omega
  · rw [bytesOf_append]
    dsimp only
    omega
  rw [hwait]
  dsimp only [Accounts.settle]
  omega

theorem finishCommit_meets (hcommit : Commits commit a.handed) :
    Meets (Ledger a) (finishCommit commit) (fun _ => Ledger (a.settle commit)) fun _ => True := by
  refine .bind removeSettledInvalidatedSessions_keeps fun _ => ?_
  refine .get_bind fun sess hs => ?_
  refine .bind (Q := fun _ _ => True)
    (.lift (fun _ _ _ _ => trivial) fun _ _ => trivial) fun _ => ?_
  refine .bind (Q := fun bytes _ => sess.pendingReleaseBatchBytes + commit.committedBytes = bytes)
    (.lift (fun _ _ _ hbytes => (checkedAdd_eq_some.mp (okOr_ok.mp hbytes)).2) fun _ _ => trivial)
    fun bytes => .set fun _ hbytes => hs.settle hcommit hbytes

/-- The accounts after a round of the loop in `commit_offsets`. -/
def Accounts.afterHead (a : Accounts) (commit : InFlightCommit) (finished : Bool) : Accounts :=
  if finished then a.settle commit else a

theorem commitHead_meets (hcommit : Commits commit a.handed) :
    Meets (Ledger a) (commitHead commit) (fun finished => Ledger (a.afterHead commit finished))
      fun _ => True := by
  refine .get_bind fun sess hsession => ?_
  refine .strengthen (P := Ledger a) ?_ fun _ hs => hs ▸ hsession
  split
  · exact .bind (finishCommit_meets hcommit) fun _ => .pure fun _ h => h
  · exact .bind keeps_lift fun _ => .pure fun _ h => h

theorem checkAck_ok (h : checkAck targets sessions offset = .ok ()) :
    ∃ state, sessions.find? offset.partitionSessionId = some state ∧
    state.committedOffset ≤ offset.committedOffset ∧
    offset.committedOffset ≤ state.readThrough := by
  obtain ⟨tgt, -, h⟩ := of_bind h
  obtain ⟨state, hs, h⟩ := of_bind h
  have hbounds := ensure_ok.mp h
  exact ⟨state, okOr_ok.mp hs, hbounds.1, hbounds.2.1⟩

theorem noteAck_ok (h : noteAck sessions offset = .ok sessions') :
    ∃ state, sessions.find? offset.partitionSessionId = some state ∧
      sessions' = sessions.insert offset.partitionSessionId
        { state with
          committedOffset := offset.committedOffset
          commitResponseOffset := offset.committedOffset } := by
  obtain ⟨state, hs, h⟩ := of_bind h
  cases h
  exact ⟨state, okOr_ok.mp hs, rfl⟩

theorem applyCommitAck_at {offs : List PartitionCommittedOffset} {assignments : List ℤ}
    {recs : List TopicRecord} {markers : List PartitionCommitMarker}
    (hack : applyCommitAck targets sessions offs = .ok sessions')
    (h : SessionsAt sessions assignments recs markers) :
    SessionsAt sessions' assignments recs markers := by
  replace hack := after_check hack
  obtain ⟨hchunks, hack⟩ := check_bind_eq_ok.mp hack
  have hchunks := forM_eq_ok.mp hchunks
  have hbounds : ∀ off ∈ offs.insertionSort fun first snd => first.partitionSessionId ≤
      snd.partitionSessionId, ∃ state, sessions.find? off.partitionSessionId = some state ∧
      off.committedOffset ≤ state.readThrough := by
    intro off hoff
    obtain ⟨state, hs, -, hle⟩ := checkAck_ok (hchunks off hoff)
    exact ⟨state, hs, hle⟩
  -- What was read in a session does not change while the offs are noted.
  refine (foldlM_induct (P := fun rest cur => SessionsAt cur assignments recs markers ∧
    ∀ off ∈ rest, ∃ state, cur.find? off.partitionSessionId = some state ∧
    off.committedOffset ≤ state.readThrough) ?_ hack ⟨h, hbounds⟩).1
  rintro off rest before after ⟨hbefore, hrest⟩ hround
  obtain ⟨state, hs, rfl⟩ := noteAck_ok hround
  obtain ⟨found, hget, hle⟩ := hrest off mem_cons_self
  cases hs.symm.trans hget
  refine ⟨hbefore.set hs rfl rfl (le_refl _) hle, fun later hlater => ?_⟩
  obtain ⟨other, hother, hbound⟩ := hrest later (mem_cons_of_mem _ hlater)
  by_cases hsame : later.partitionSessionId = off.partitionSessionId
  · rw [hsame] at hother ⊢
    cases hs.symm.trans hother
    exact ⟨_, find?_insert_self .., hbound⟩
  exact ⟨other, by rw [find?_insert_ne _ _ hsame, hother], hbound⟩

theorem commitRound_meets (hemp : a.inHand = []) (cfg : SessionConfig) (targets : List (ℤ × ℤ))
    (resp : FromServer) (mem : MemoryAnswers) :
    Meets (Ledger a) (commitRound cfg targets resp mem)
      (fun _ session => ∃ bs, Ledger { a with buffered := a.buffered ++ bs } session)
      fun _ => True := by
  refine .bind (receiveEvent_meets hemp cfg resp mem) fun event => ?_
  refine .bind (Q := fun _ session => ∃ bs, Ledger { a with buffered := a.buffered ++ bs } session)
    ?_ fun _ => .get_bind fun session hsess => .lift (fun _ _ hs _ => hs ▸ hsess) fun _ _ => trivial
  have hsame : ∀ session, Ledger a session → ∃ bs,
      Ledger { a with buffered := a.buffered ++ bs } session := by
    intro session h
    refine ⟨[], ?_⟩
    rwa [append_nil]
  cases event with
  | batch batch =>
    refine (pushBufferedBatch_meets batch mem).imp fun _ s h => ⟨[batch], ?_⟩
    rw [hemp]
    exact h
  | commitAck offs =>
    refine .get_bind fun session hsess => ?_
    refine .bind (Q := fun sessions s => applyCommitAck targets session.partitionSessions offs =
      .ok sessions ∧ s = session) (.lift (fun _ _ hs hack => ⟨hack, hs⟩) fun _ _ => trivial)
      fun sessions => .of_and fun hack => ?_
    refine .bind (Q := fun _ => Ledger a)
      (.modify fun s hs => ?_) fun _ => releaseGracefullyStoppedSessions_keeps.imp fun _ => hsame
    subst hs
    exact hsess.withSessions _ (applyCommitAck_at hack hsess.sessions)
  | continueReading => exact .pure fun s h => hsame s h

end

/-! ## Runs -/

section
variable {config : SessionConfig} {run run' : TopicRun}

def TopicRun.accounts (config : SessionConfig) (run : TopicRun) : Accounts where
  total := match run.phase with
    | .connecting => 0
    | _ => config.readBufferBytes
  returned := run.returned
  handed := run.handedOut
  buffered := run.session.bufferedBatches
  inHand := []

def TopicPhase.running : TopicPhase → Bool
  | .stopped _ => false
  | _ => true

structure LedgerInvariant (config : SessionConfig) (run : TopicRun) : Prop where
  ledger : Ledger (run.accounts config) run.session
  reading : run.phase = .reading → run.session.bufferedBatches = []
  committing : ∀ commit, run.phase = .committing commit → Commits commit run.handedOut

theorem perform_invariant {α : Type} {a : Accounts} {action : TopicAction α}
    {Q : α → TopicSession → Prop} {next : α → TopicRun → TopicRun}
    (haction : Meets (Ledger a) action Q fun _ => True) (hledger : Ledger a run.session)
    (hnext :
      ∀ value session, Q value session → LedgerInvariant config (next value { run with session }))
    (hrunning : (run.perform action next).phase.running) :
    LedgerInvariant config (run.perform action next) := by
  obtain ⟨hok, -⟩ := haction run.session hledger
  unfold perform at hrunning ⊢
  split at hrunning
  next value session hout => exact hnext value session (hok value session hout)
  · cases hrunning

theorem Ledger.toRun {b : Accounts} (h : Ledger b run.session)
    (htotal : b.total = (run.accounts config).total) (hreturned : b.returned = run.returned)
    (hhanded : b.handed = run.handedOut) (hemp : b.inHand = []) :
    Ledger (run.accounts config) run.session := by
  have hsame : run.accounts config = b := by
    obtain ⟨total, returned, handed, buffered, inHand⟩ := b
    cases htotal
    cases hreturned
    cases hhanded
    cases hemp
    cases h.buffer
    rfl
  rw [hsame]
  exact h

theorem LedgerInvariant.awaitInit (h : LedgerInvariant config run) (hp : run.phase = .connecting)
    (response : FromServer)
    (hrunning : (run.perform (awaitInit config response)
      fun _ run => { run with phase := .idle }).phase.running) :
    LedgerInvariant config
      (run.perform (awaitInit config response) fun _ run => { run with phase := .idle }) := by
  have htotal : (run.accounts config).total = 0 := by simp [accounts, hp]
  refine perform_invariant (Q := fun _ => Ledger
    { run.accounts config with total := (run.accounts config).total + config.readBufferBytes }) ?_
    h.ledger (fun _ sess hsession => ⟨?_, ?_, ?_⟩) hrunning
  · refine .bind keeps_lift fun _ => ?_
    split
    · exact .throw fun _ _ => trivial
    · refine .bind keeps_lift fun _ => .bind keeps_lift fun _ => ?_
      intro s hs
      exact ((sendReadCredit_meets config.readBufferBytes s.pendingCredit).imp fun _ t ht => ht.1) s
        ⟨hs, rfl⟩
    exact .throw fun _ _ => trivial
  · refine Ledger.toRun hsession ?_ rfl rfl rfl
    rw [htotal, zero_add]
    rfl
  · rintro ⟨⟩
  rintro commit ⟨⟩

theorem LedgerInvariant.readRound (h : LedgerInvariant config run)
    (hp : run.phase = .reading) (response : FromServer) (memory : MemoryAnswers)
    (hrunning : (run.perform (readRound config response memory) afterRead).phase.running) :
    LedgerInvariant config (run.perform (readRound config response memory) afterRead) := by
  have hbuf := h.reading hp
  have htotal : (run.accounts config).total = config.readBufferBytes := by simp [accounts, hp]
  refine perform_invariant
    (readRound_meets hbuf rfl config response memory) h.ledger (fun found sess hs => ?_) hrunning
  cases found with
  | none =>
    refine ⟨Ledger.toRun hs rfl rfl rfl rfl, fun _ => ?_, ?_⟩
    · exact hs.buffer.trans hbuf
    intro commit hc
    cases hp.symm.trans hc
  | some batch =>
    refine ⟨Ledger.toRun hs htotal rfl rfl rfl, ?_, ?_⟩
    · rintro ⟨⟩
    rintro commit ⟨⟩

theorem Ledger.afterCommit {commit : InFlightCommit} {finished : Bool} {batches : List TopicBatch}
    {session : TopicSession} (hcommit : Commits commit run.handedOut)
    (htotal : (run.accounts config).total = config.readBufferBytes)
    (h :
      Ledger (Accounts.afterHead { run.accounts config with buffered := batches } commit finished)
        session) : LedgerInvariant config (afterCommit commit finished { run with session }) := by
  cases finished with
  | false =>
    refine ⟨Ledger.toRun h htotal rfl rfl rfl, ?_, ?_⟩
    · rintro ⟨⟩
    rintro other ⟨⟩
    exact hcommit
  | true =>
    refine ⟨Ledger.toRun h htotal rfl rfl rfl, ?_, ?_⟩
    · rintro ⟨⟩
    rintro other ⟨⟩

section
variable (h : LedgerInvariant config run)
include h

theorem LedgerInvariant.commitRound
    {cmt : InFlightCommit} (hp : run.phase = .committing cmt)
    (resp : FromServer) (mem : MemoryAnswers)
    (hrunning : (run.perform (do
      commitRound config cmt.targets resp mem
      commitHead cmt) (afterCommit cmt)).phase.running) :
    LedgerInvariant config (run.perform (do
      commitRound config cmt.targets resp mem
      commitHead cmt) (afterCommit cmt)) := by
  have hcommit := h.committing cmt hp
  have htotal : (run.accounts config).total = config.readBufferBytes := by simp [accounts, hp]
  refine perform_invariant (Q := fun finished sess => ∃ bs,
    Ledger (Accounts.afterHead { run.accounts config with buffered := bs } cmt finished) sess)
    ?_ h.ledger (fun finished sess ⟨bs, hsess⟩ => Ledger.afterCommit hcommit htotal hsess) hrunning
  refine .bind (commitRound_meets rfl config cmt.targets resp mem) fun _ => ?_
  intro s hs
  obtain ⟨bs, hb⟩ := hs
  exact ((commitHead_meets hcommit).imp fun _ _ hhead => ⟨_, hhead⟩) s hb

theorem LedgerInvariant.callRead (hp : run.phase = .idle)
    (hrunning : (run.perform beginRead afterBegin).phase.running) :
    LedgerInvariant config (run.perform beginRead afterBegin) := by
  have ht : (run.accounts config).total = config.readBufferBytes := by simp [accounts, hp]
  refine perform_invariant (beginRead_meets rfl) h.ledger (fun begun sess hs => ?_) hrunning
  cases begun with
  | batch batch =>
    obtain ⟨rest, -, hs⟩ := hs
    refine ⟨Ledger.toRun hs ht rfl rfl rfl, ?_, ?_⟩
    · rintro ⟨⟩
    rintro commit ⟨⟩
  | nothing =>
    refine ⟨Ledger.toRun hs rfl rfl rfl rfl, ?_, ?_⟩
    · intro hreading
      cases hp.symm.trans hreading
    intro commit hc
    cases hp.symm.trans hc
  | wait =>
    obtain ⟨hbuf, hs⟩ := hs
    refine ⟨Ledger.toRun hs ht rfl rfl rfl, ?_, ?_⟩
    · intro _
      exact hs.buffer.trans hbuf
    rintro commit ⟨⟩

theorem LedgerInvariant.callCommit (hp : run.phase = .idle) {mks : List TopicCommitMarker}
    (hmarkers : mks.Subperm run.handedOut) (admission : Except String Unit)
    (hrunning : (run.perform (do
      let commit ← beginCommit mks admission
      return (commit, ← commitHead commit)) fun result =>
        afterCommit result.1 result.2).phase.running) :
    LedgerInvariant config (run.perform (do
      let commit ← beginCommit mks admission
      return (commit, ← commitHead commit)) fun result => afterCommit result.1 result.2) := by
  have htotal : (run.accounts config).total = config.readBufferBytes := by simp [accounts, hp]
  refine perform_invariant (Q := fun result sess => Commits result.1 run.handedOut ∧
    Ledger ((run.accounts config).afterHead result.1 result.2) sess) ?_ h.ledger
    (fun result sess hres => Ledger.afterCommit hres.1 htotal hres.2) hrunning
  refine .bind (beginCommit_meets hmarkers admission) fun commit => .of_and fun hcommit => ?_
  exact .bind (commitHead_meets hcommit) fun finished => .pure fun _ hhead => ⟨hcommit, hhead⟩

end

theorem ledgerInvariant_step (label : TopicLabel)
    (h : run.phase.running → LedgerInvariant config run) (hstep : run.step config label = some run')
    (hrunning : run'.phase.running) : LedgerInvariant config run' := by
  cases label with
    simp only [step, lose, respond, receiveFailed, callRead, callCommit] at hstep
  | lose left outage =>
    split at hstep
    · cases hstep
      have hrun := h hrunning
      exact ⟨silent_ledger _ _ _ hrun.ledger, hrun.reading, hrun.committing⟩
    · cases hstep
  | respond resp mem =>
    split at hstep
    next hp =>
      cases hstep
      exact (h (hp ▸ rfl)).awaitInit hp resp hrunning
    next hp =>
      cases hstep
      exact (h (hp ▸ rfl)).readRound hp resp mem hrunning
    next commit hp =>
      cases hstep
      exact (h (hp ▸ rfl)).commitRound hp resp mem hrunning
    · cases hstep
  | receiveFailed fail =>
    split at hstep <;> cases hstep
    all_goals cases hrunning
  | callRead =>
    split at hstep
    next hp =>
      cases hstep
      exact (h (hp ▸ rfl)).callRead hp hrunning
    · cases hstep
  | callCommit markers admission =>
    split at hstep
    next hp =>
      have hrun := h (hp ▸ rfl)
      split at hstep
      next hmarkers =>
        split at hstep
        · cases hstep
          exact hrun
        cases hstep
        exact hrun.callCommit hp hmarkers admission hrunning
      · cases hstep
    · cases hstep

end
end Transferia.Ydb
