import Transferia.Ydb.GracefulStop
import Transferia.Ydb.SessionLaws

/-!
# When a commit returns

A commit waits until every partition session in it is acknowledged.  Each round
of its loop requires all of these sessions to be live.  A session that finishes
a graceful stop is no longer live, so the commit fails when a stop is finished
before the last acknowledgement.
-/

namespace Transferia.Ydb
open List Transferia.Core Support Support.Action TopicRun OrderedMap
open TopicRun (perform afterCommit callCommit)
open Logbroker (okOr_ok ensure_ok FromServer ServerMessage PartitionData)
open ServerMessage (stops)

/-! ## Between messages -/

def QuietSession (session : TopicSession) : Prop :=
  Quiet session.partitionSessions session.bootstrapCommits

theorem silent_quiet : Silent QuietSession := fun _ _ _ h => h

theorem Quiet.retain {sessions : Sessions}
    {bootstrapCommits : OrderedMap ℤ ℤ} (h : Quiet sessions bootstrapCommits) (keep : ℤ → Bool) :
    Quiet (sessions.retain keep) (bootstrapCommits.retain ((sessions.retain keep).contains ·)) := by
  have hkept : ∀ id state, (sessions.retain keep).find? id = some state →
      sessions.find? id = some state := by
    intro id state hs
    rw [find?_retain, Option.ite_none_right_eq_some] at hs
    exact hs.2
  refine ⟨fun id state hs => h.unready id state (hkept id state hs),
    fun id state hs => h.same id state (hkept id state hs), ?_⟩
  intro id off hoff
  rw [find?_retain, Option.ite_none_right_eq_some] at hoff
  obtain ⟨state, hs⟩ := Option.isSome_iff_exists.mp hoff.1
  obtain ⟨found, hget, hle⟩ := h.bootstrap id off hoff.2
  cases (hkept id state hs).symm.trans hget
  exact ⟨state, hs, hle⟩

theorem removeSettledInvalidatedSessions_quiet :
    Keeps QuietSession removeSettledInvalidatedSessions :=
  .modify fun session h => h.retain fun id =>
    (session.partitionSessions.find? id).all (!settledInvalidated ·)

theorem sendReadCredit_quiet (bytes : ℤ) : Keeps QuietSession (sendReadCredit bytes) := by
  refine .bind keeps_lift fun _ => ?_
  refine .bind (keeps_send silent_quiet _) fun _ => ?_
  refine .get_bind fun sess hs => ?_
  exact .bind keeps_lift fun _ => .set fun _ _ => hs

theorem replenishCredit_quiet : Keeps QuietSession replenishCredit := by
  refine .get_bind fun sess hsession => ?_
  refine .strengthen (P := QuietSession) ?_ fun _ hs => hs ▸ hsession
  split
  · exact .pure fun _ h => h
  · exact .bind (sendReadCredit_quiet _) fun _ => .modify fun _ h => h

theorem beginRead_quiet : Keeps QuietSession beginRead := by
  refine .bind (Q := fun _ => QuietSession) ?_ fun _ => ?_
  · refine .get_bind fun sess hsess => ?_
    split
    · exact .pure fun _ hs => hs ▸ hsess
    · exact .bind keeps_lift fun _ => .set fun _ _ => hsess
  refine .bind removeSettledInvalidatedSessions_quiet fun _ => ?_
  refine .get_bind fun sess hsess => ?_
  split
  · exact .bind (Q := fun _ => QuietSession) (.set fun _ _ => hsess) fun _ => .pure fun _ h => h
  split
  · exact .pure fun _ hs => hs ▸ hsess
  exact .bind (replenishCredit_quiet.strengthen fun _ hs => hs ▸ hsess) fun _ => .pure fun _ h => h

theorem readRound_quiet (cfg : SessionConfig) (resp : FromServer) (mem : MemoryAnswers) :
    Keeps QuietSession (readRound cfg resp mem) := by
  intro s hs
  refine (Meets.bind (receiveEvent_handled hs cfg resp mem) fun event => ?_) s ⟨rfl, rfl⟩
  cases event with
  | batch batch => exact .pure fun t ⟨_, _, hsettled⟩ => hsettled.1
  | commitAck offs => exact .throw fun _ _ => trivial
  | continueReading =>
    refine .strengthen (P := QuietSession) ?_ fun t ⟨_, _, hsettled⟩ => hsettled.1
    refine .bind removeSettledInvalidatedSessions_quiet fun _ => ?_
    exact .bind replenishCredit_quiet fun _ => .pure fun _ h => h

theorem commitRound_quiet (cfg : SessionConfig) (targets : List (ℤ × ℤ)) (resp : FromServer)
    (mem : MemoryAnswers) : Keeps QuietSession (commitRound cfg targets resp mem) :=
  fun s hs => ((commitRound_settled hs cfg targets resp mem).imp
    fun _ _ ⟨_, _, hsettled⟩ => hsettled.1) s ⟨rfl, rfl⟩

theorem finishCommit_quiet (cmt : InFlightCommit) : Keeps QuietSession (finishCommit cmt) := by
  refine .bind removeSettledInvalidatedSessions_quiet fun _ => ?_
  refine .get_bind fun sess hs => ?_
  refine .bind keeps_lift fun _ => .bind keeps_lift fun _ => ?_
  exact .set fun _ _ => hs

theorem commitHead_quiet (cmt : InFlightCommit) : Keeps QuietSession (commitHead cmt) := by
  refine .get_bind fun sess hsession => ?_
  refine .strengthen (P := QuietSession) ?_ fun _ hs => hs ▸ hsession
  split
  · exact .bind (finishCommit_quiet cmt) fun _ => .pure fun _ h => h
  · exact .bind keeps_lift fun _ => .pure fun _ h => h

theorem beginCommit_quiet (mks : List TopicCommitMarker) (admission : Except String Unit) :
    Keeps QuietSession (beginCommit mks admission) := by
  refine .get_bind fun sess hsession => ?_
  refine .strengthen (P := QuietSession) ?_ fun _ hs => hs ▸ hsession
  refine .bind keeps_lift fun _ => .bind keeps_lift fun _ => ?_
  refine .bind keeps_lift fun parts => ?_
  refine .bind keeps_lift fun _ => .bind keeps_lift fun _ => ?_
  exact .bind (keeps_send silent_quiet _) fun _ => .pure fun _ h => h

section
variable {config : SessionConfig} {run run' : TopicRun} {sess : TopicSession}

theorem perform_quiet {α : Type} {action : TopicAction α} {next : α → TopicRun → TopicRun}
    (haction : Keeps QuietSession action) (hq : QuietSession run.session)
    (hnext : ∀ value run, (next value run).session = run.session)
    (hrun : (run.perform action next).phase.running = true) :
    QuietSession (run.perform action next).session := by
  obtain ⟨hok, -⟩ := haction run.session hq
  unfold perform at hrun ⊢
  split at hrun
  · rename_i value sess hout
    rw [hnext]
    exact hok value sess hout
  · cases hrun

theorem afterCommit_session (cmt : InFlightCommit) (finished : Bool) (run : TopicRun) :
    (afterCommit cmt finished run).session = run.session := by
  cases finished <;> rfl

theorem quiet_step (label : TopicLabel) (h : run.phase.running → QuietSession run.session)
    (hstep : run.step config label = some run') (hrun : run'.phase.running) :
    QuietSession run'.session := by
  cases label with
    simp only [step, lose, respond, receiveFailed, callRead, callCommit] at hstep
  | lose left outage =>
    split at hstep
    · cases hstep
      exact h hrun
    · cases hstep
  | respond resp mem =>
    split at hstep
    · rename_i hp
      cases hstep
      refine perform_quiet ?_ (h (hp ▸ rfl)) (fun _ _ => rfl) hrun
      refine .bind keeps_lift fun _ => ?_
      split
      · exact .throw fun _ _ => trivial
      · refine .bind keeps_lift fun _ => .bind keeps_lift fun _ => ?_
        exact sendReadCredit_quiet _
      exact .throw fun _ _ => trivial
    · rename_i hp
      cases hstep
      refine perform_quiet (readRound_quiet config resp mem)
        (h (hp ▸ rfl)) (fun found run => ?_) hrun
      cases found <;> rfl
    · rename_i commit hp
      cases hstep
      exact perform_quiet
        (.bind (commitRound_quiet config commit.targets resp mem) fun _ => commitHead_quiet commit)
        (h (hp ▸ rfl)) (fun finished run => afterCommit_session commit finished run) hrun
    · cases hstep
  | receiveFailed fail =>
    split at hstep <;> cases hstep
    all_goals cases hrun
  | callRead =>
    split at hstep
    · rename_i hp
      cases hstep
      refine perform_quiet beginRead_quiet (h (hp ▸ rfl)) (fun begun run => ?_) hrun
      cases begun <;> rfl
    · cases hstep
  | callCommit markers admission =>
    split at hstep
    · rename_i hp
      split at hstep
      · split at hstep
        · cases hstep
          exact h hrun
        cases hstep
        exact perform_quiet (.bind (beginCommit_quiet markers admission)
          fun commit => .bind (commitHead_quiet commit) fun finished => .pure fun _ h => h)
          (h (hp ▸ rfl)) (fun res run => afterCommit_session res.1 res.2 run) hrun
      · cases hstep
    · cases hstep

theorem quiet_reachable (hconnect : connect config = .ok sess)
    (hreach : Reachable (step config) (.start sess) run) (hrun : run.phase.running) :
    QuietSession run.session := by
  refine hreach.invariant (P := fun run => run.phase.running → QuietSession run.session)
    (fun run label run' h hstep => quiet_step label h hstep) (fun _ => ?_) hrun
  replace hconnect := after_check hconnect
  obtain ⟨configuredTopics, -, hconnect⟩ := of_bind hconnect
  replace hconnect := after_check hconnect
  cases hconnect
  refine ⟨?_, ?_, ?_⟩
  · rintro id state ⟨⟩
  · rintro id state ⟨⟩
  rintro id off ⟨⟩

end

/-! ## What the server has sent -/

/-- A response with the answers of the memory accounting to it. -/
abbrev Reply := FromServer × MemoryAnswers

def acksIn (id : ℤ) (replies : List Reply) : List ℤ :=
  replies.flatMap fun reply => (reply.1.serverMessage.map (ServerMessage.acks id)).getD []

section
variable (sessions : Sessions) (replies : List Reply) (id : ℤ)

def acknowledgedAfter : ℤ :=
  (acksIn id replies).foldl max
    ((sessions.find? id).map PartitionSessionState.commitResponseOffset |>.getD 0)

def readAfter : ℤ :=
  ((sessions.find? id).map PartitionSessionState.readThrough |>.getD 0) + (replies.map fun reply =>
      (reply.1.serverMessage.map (ServerMessage.count id)).getD 0).sum

/-- The server has asked for a graceful stop of the session. -/
def askedToStop : Bool :=
  ((sessions.find? id).any (·.pendingGracefulStop.isSome)) ||
    replies.any (·.1.serverMessage.any (stops id true))

/-- Everything that was read in a session that is to stop is acknowledged. -/
def stopFinished : Bool :=
  askedToStop sessions replies id &&
    decide (readAfter sessions replies id ≤ acknowledgedAfter sessions replies id)

end

/-- No session of a commit finishes a graceful stop as long as another one is
not acknowledged. -/
def StopsFinishLast (targets : List (ℤ × ℤ)) (sessions : Sessions) (replies : List Reply) : Prop :=
  ∀ count, (∃ target ∈ targets,
      acknowledgedAfter sessions (replies.take count) target.1 < target.2) →
    ∀ target ∈ targets, stopFinished sessions (replies.take count) target.1 = false

/-- A round of the loop, without the check that the sessions are live. -/
def accept (config : SessionConfig) (targets : List (ℤ × ℤ))
    (session : TopicSession) (reply : Reply) : Option TopicSession :=
  match (commitRound config targets reply.1 reply.2).outcome session with
  | (.ok _, session) => some session
  | (.error _, _) => none

def Returns (config : SessionConfig) (run : TopicRun) (replies : List Reply) : Prop :=
  ∃ count run', exec (step config) run
      ((replies.take count).map fun reply => .respond reply.1 reply.2) = some run' ∧
    run'.phase = .idle

theorem returns_iff {cfg : SessionConfig} {run : TopicRun} {reps : List Reply} :
    Returns cfg run reps ↔
    ∃ count < reps.length + 1,
      (exec (step cfg) run ((reps.take count).map fun reply => .respond reply.1 reply.2)).any
        (fun run' => run'.phase = .idle) := by
  simp only [Option.any_eq_true, decide_eq_true_eq]
  constructor
  · rintro ⟨count, run', hexec, hidle⟩
    refine ⟨min count reps.length, by omega, run', ?_, hidle⟩
    rw [← take_eq_take_min]
    exact hexec
  rintro ⟨count, -, run', hexec, hidle⟩
  exact ⟨count, run', hexec, hidle⟩

instance (config : SessionConfig) (run : TopicRun) (replies : List Reply) :
    Decidable (Returns config run replies) :=
  decidable_of_iff _ returns_iff.symm

/-- How a session stands after some replies. -/
structure Standing (sessions : Sessions) (replies : List Reply) (id : ℤ)
    (state : PartitionSessionState) : Prop where
  response : state.commitResponseOffset = acknowledgedAfter sessions replies id
  read : state.readThrough = readAfter sessions replies id
  invalidated : state.invalidated = stopFinished sessions replies id
  pending : state.pendingGracefulStop.isSome = (askedToStop sessions replies id &&
    !decide (readAfter sessions replies id ≤ acknowledgedAfter sessions replies id))

section
variable {config : SessionConfig} {targets : List (ℤ × ℤ)} {sessions : Sessions}
  {replies : List Reply} {reply : Reply} {id : ℤ} {state state' : PartitionSessionState}
  {message : ServerMessage}
section
variable (hmsg : reply.1.serverMessage = some message)
include hmsg

theorem acknowledgedAfter_snoc : acknowledgedAfter sessions (replies ++ [reply]) id =
    (ServerMessage.acks id message).foldl max (acknowledgedAfter sessions replies id) := by
  simp [acknowledgedAfter, acksIn, hmsg]

theorem readAfter_snoc :
    readAfter sessions (replies ++ [reply]) id =
      readAfter sessions replies id + ServerMessage.count id message := by
  simp [readAfter, hmsg, Int.add_assoc]

theorem askedToStop_snoc :
    askedToStop sessions (replies ++ [reply]) id =
      (askedToStop sessions replies id || stops id true message) := by
  simp [askedToStop, hmsg, Bool.or_assoc]

end

theorem standing_nil (hq : gracefulStopReady state = false) (hfind : sessions.find? id = some state)
    (hlive : state.invalidated = false) : Standing sessions [] id state := by
  have hresp : acknowledgedAfter sessions [] id = state.commitResponseOffset := by
    simp [acknowledgedAfter, acksIn, hfind]
  have hread : readAfter sessions [] id = state.readThrough := by simp [readAfter, hfind]
  have hasked : askedToStop sessions [] id = state.pendingGracefulStop.isSome := by
    simp [askedToStop, hfind]
  refine ⟨hresp.symm, hread.symm, ?_, ?_⟩
  · rw [hlive, stopFinished, hresp, hread, hasked]
    exact hq.symm
  rw [hresp, hread, hasked]
  unfold gracefulStopReady at hq
  cases hpend : state.pendingGracefulStop.isSome with
  | false => rfl
  | true =>
    rw [hpend, Bool.true_and] at hq
    rw [hq]
    rfl

section
variable {asked done stops later : Bool} (h : (asked && done) → later)
include h

theorem stays_finished :
    (asked && done || ((asked && !done || stops) && later)) = ((asked || stops) && later) := by
  cases asked <;> cases done <;> cases stops <;> cases later <;> simp_all

theorem stays_pending : ((asked && !done || stops) && !later) = ((asked || stops) && !later) := by
  cases asked <;> cases done <;> cases stops <;> cases later <;> simp_all

end

theorem Standing.next (h : Standing sessions replies id state)
    (hmsg : reply.1.serverMessage = some message) (hmoved : Moved message id state state') :
    Standing sessions (replies ++ [reply]) id state' := by
  have hresp :
      state'.commitResponseOffset = acknowledgedAfter sessions (replies ++ [reply]) id := by
    rw [acknowledgedAfter_snoc hmsg, ← h.response, hmoved.response]
  have hread : state'.readThrough = readAfter sessions (replies ++ [reply]) id := by
    rw [readAfter_snoc hmsg, ← h.read, hmoved.read]
  -- A session that was asked to stop gets no further data, so that it stays
  -- finished.
  have hsteady : stopFinished sessions replies id → decide (readAfter
      sessions (replies ++ [reply]) id ≤ acknowledgedAfter sessions (replies ++ [reply]) id) := by
    intro hf
    have hnone := hmoved.closed (.inl (h.invalidated.trans hf))
    have hdone := of_decide_eq_true (Bool.and_eq_true_iff.mp hf).2
    rw [readAfter_snoc hmsg, acknowledgedAfter_snoc hmsg, hnone]
    simpa using hdone.trans (le_foldl_max _ _)
  have hi := hmoved.invalidated
  have hpend := hmoved.pending
  rw [h.invalidated, h.pending, hresp, hread] at hi
  rw [h.pending, hresp, hread] at hpend
  unfold stopFinished at hi hsteady
  refine ⟨hresp, hread, ?_, ?_⟩
  · rw [hi, stopFinished, askedToStop_snoc hmsg]
    exact stays_finished hsteady
  rw [hpend, askedToStop_snoc hmsg]
  exact stays_pending hsteady

/-- The sessions of a commit after some replies. -/
structure Served (targets : List (ℤ × ℤ)) (sessions : Sessions)
    (replies : List Reply) (session : TopicSession) : Prop where
  quiet : QuietSession session
  standing : ∀ target ∈ targets, ∃ state,
    session.partitionSessions.find? target.1 = some state ∧ Standing sessions replies target.1 state

variable {sess : TopicSession}
section
variable (h : Served targets sessions replies sess)
include h

theorem Served.next {sess' : TopicSession} (haccept : accept config targets sess reply = some sess')
    (hforced : ∀ tgt ∈ targets, reply.1.serverMessage.any (stops tgt.1 false) = false) :
    Served targets sessions (replies ++ [reply]) sess' := by
  unfold accept at haccept
  split at haccept
  · rename_i next hout
    cases haccept
    obtain ⟨msg, hmsg, hq, heffect⟩ :=
      (commitRound_settled h.quiet config targets reply.1 reply.2 sess ⟨rfl, rfl⟩).1 _ _ hout
    refine ⟨hq, fun tgt htarget => ?_⟩
    obtain ⟨state, hs, hstanding⟩ := h.standing tgt htarget
    have hstops := hforced tgt htarget
    rw [hmsg] at hstops
    obtain ⟨state', hstate', hmoved⟩ := heffect tgt.1 state hs hstops
    exact ⟨state', hstate', hstanding.next hmsg hmoved⟩
  · cases haccept

theorem acknowledged_iff {tgt : ℤ × ℤ} (htarget : tgt ∈ targets) :
    acknowledged sess.partitionSessions tgt ↔ tgt.2 ≤ acknowledgedAfter sessions replies tgt.1 := by
  obtain ⟨state, hs, hstanding⟩ := h.standing tgt htarget
  simp [acknowledged, hs, hstanding.response]

theorem ensureTargetsLive_iff : ensureTargetsLive targets sess.partitionSessions = .ok () ↔
    ∀ tgt ∈ targets, stopFinished sessions replies tgt.1 = false := by
  refine forM_eq_ok.trans ⟨fun hlive tgt htarget => ?_, fun hlive tgt htarget => ?_⟩
  · obtain ⟨state, hs, hstanding⟩ := h.standing tgt htarget
    obtain ⟨found, hget, hensure⟩ := of_bind (hlive tgt htarget)
    cases hs.symm.trans (okOr_ok.mp hget)
    rw [← hstanding.invalidated]
    simpa using ensure_ok.mp hensure
  obtain ⟨state, hs, hstanding⟩ := h.standing tgt htarget
  refine bind_eq_ok.mpr ⟨state, okOr_ok.mpr hs, ensure_ok.mpr ?_⟩
  rw [hstanding.invalidated, hlive tgt htarget]
  rfl

end

/-! ## Rounds of the loop -/

theorem finishCommit_ok {a : Accounts} {cmt : InFlightCommit} (h : Ledger a sess)
    (hcommit : Commits cmt a.handed) : ∃ sess', outcome (finishCommit cmt) sess = (.ok (), sess') :=
        by
  have hcount : cmt.markers.length ≤ sess.uncommittedBatches := by
    have hlen := hcommit.markers.length_le
    have huncommitted := h.uncommitted
    omega
  have hbytes : sess.pendingReleaseBatchBytes + cmt.committedBytes < usizeValues := by
    have hsum := hcommit.bytesOf_handed
    have hretained := h.retained
    have hrelease := h.release
    have hbounded := h.bounded
    have hcommitted := hcommit.bytes
    omega
  have hsum : checkedAdd sess.pendingReleaseBatchBytes cmt.committedBytes = some _ := if_pos hbytes
  rw [finishCommit, removeSettledInvalidatedSessions, modify_bind, get_bind]
  rw [ensure_ok.mpr hcount, hsum]
  exact ⟨_, rfl⟩

variable {run : TopicRun} {commit : InFlightCommit} {session : TopicSession}
  {rest done : List Reply}

theorem perform_bind {α β : Type} {first : TopicAction α} {snd : α → TopicAction β}
    {next : β → TopicRun → TopicRun} {value : α}
    (h : outcome first run.session = (.ok value, session)) :
    run.perform (first >>= snd) next = perform { run with session } (snd value) next := by
  unfold perform
  rw [bind_of_ok h]

theorem step_accepted (hp : run.phase = .committing commit)
    (haccept : accept config commit.targets run.session reply = some session) :
    run.step config (.respond reply.1 reply.2) =
      some (perform { run with session } (commitHead commit) (afterCommit commit)) := by
  unfold accept at haccept
  split at haccept
  · rename_i next hout
    cases haccept
    have hrespond : run.respond config reply.1 reply.2 = some (run.perform (do
        commitRound config commit.targets reply.1 reply.2
        commitHead commit) (afterCommit commit)) := by
      unfold respond
      rw [hp]
    exact hrespond.trans (congrArg some (perform_bind hout))
  · cases haccept

theorem ledger_accepted (h : LedgerInvariant config run)
    (haccept : accept config commit.targets run.session reply = some session) :
    ∃ bs, Ledger { run.accounts config with
      buffered := run.session.bufferedBatches ++ bs } session := by
  unfold accept at haccept
  split at haccept
  · rename_i next hout
    cases haccept
    exact
      (commitRound_meets rfl config commit.targets reply.1 reply.2 run.session h.ledger).1 _ _ hout
  · cases haccept

theorem perform_head_done (run : TopicRun) {a : Accounts} (hledger : Ledger a run.session)
    (hcommit : Commits commit a.handed)
    (hdone : commit.targets.all (acknowledged run.session.partitionSessions)) :
    (run.perform (commitHead commit) (afterCommit commit)).phase = .idle := by
  obtain ⟨session', hfinish⟩ := finishCommit_ok hledger hcommit
  have hout : outcome (commitHead commit) run.session = (.ok true, session') := by
    rw [commitHead, get_bind, if_pos hdone, bind_of_ok hfinish, outcome_pure]
  unfold perform
  rw [hout]
  rfl

theorem perform_head_live (run : TopicRun)
    (hdone : ¬ commit.targets.all (acknowledged run.session.partitionSessions))
    (hlive : ensureTargetsLive commit.targets run.session.partitionSessions = .ok ()) :
    run.perform (commitHead commit) (afterCommit commit) =
      { run with phase := .committing commit } := by
  have hout : outcome (commitHead commit) run.session = (.ok false, run.session) := by
    rw [commitHead, get_bind, if_neg hdone,
      bind_of_ok (outcome_lift.trans (by rw [hlive])), outcome_pure]
  unfold perform
  rw [hout]
  rfl

theorem perform_head_stopped (run : TopicRun)
    (hdone : ¬ commit.targets.all (acknowledged run.session.partitionSessions))
    (hlive : ensureTargetsLive commit.targets run.session.partitionSessions ≠ .ok ()) :
    ∃ failure, (run.perform (commitHead commit) (afterCommit commit)).phase = .stopped failure := by
  cases hchunk : ensureTargetsLive commit.targets run.session.partitionSessions with
  | ok => exact absurd hchunk hlive
  | error failure =>
    have hout : outcome (commitHead commit) run.session = (.error failure, run.session) := by
      rw [commitHead, get_bind, if_neg hdone, bind_of_error (outcome_lift.trans (by rw [hchunk]))]
    refine ⟨failure, ?_⟩
    unfold perform
    rw [hout]

/-! ## Whole commits -/

theorem acknowledgedAfter_append (sessions : Sessions) (done more : List Reply) (id : ℤ) :
    acknowledgedAfter sessions done id ≤ acknowledgedAfter sessions (done ++ more) id := by
  unfold acknowledgedAfter acksIn
  rw [flatMap_append, foldl_append]
  exact le_foldl_max _ _

/-- A commit that still waits after `done` goes on with `replies`. -/
structure Waits (config : SessionConfig) (run : TopicRun)
    (commit : InFlightCommit) (sessions : Sessions) (done replies : List Reply) : Prop where
  ledger : LedgerInvariant config run
  phase : run.phase = .committing commit
  served : Served commit.targets sessions done run.session
  waiting : ∃ target ∈ commit.targets, acknowledgedAfter sessions done target.1 < target.2
  live : ∀ target ∈ commit.targets, stopFinished sessions done target.1 = false
  accepted : ∃ final, exec (accept config commit.targets) run.session replies = some final
  unforced : ∀ reply ∈ replies, ∀ target ∈ commit.targets,
    reply.1.serverMessage.any (stops target.1 false) = false
  acknowledged :
    ∀ target ∈ commit.targets, target.2 ≤ acknowledgedAfter sessions (done ++ replies) target.1

theorem returns_cons_iff {run' : TopicRun} (hp : run.phase ≠ .idle)
    (hstep : run.step config (.respond reply.1 reply.2) = some run') :
    Returns config run (reply :: rest) ↔ Returns config run' rest := by
  constructor
  · rintro ⟨count, last, hexec, hidle⟩
    cases count with
    | zero =>
      cases hexec
      exact absurd hidle hp
    | succ count =>
      obtain ⟨mid, hmid, hexec⟩ := exec_cons hexec
      cases hstep.symm.trans hmid
      exact ⟨count, last, hexec, hidle⟩
  rintro ⟨count, last, hexec, hidle⟩
  refine ⟨count + 1, last, ?_, hidle⟩
  rw [take_succ_cons, map_cons, exec, hstep]
  exact hexec

theorem returns_of_idle (hp : run.phase = .idle) (replies : List Reply) :
    Returns config run replies :=
  ⟨0, run, rfl, hp⟩

theorem not_returns_of_stopped {failure : DataPlaneFailure} (hp : run.phase = .stopped failure)
    (replies : List Reply) : ¬ Returns config run replies := by
  rintro ⟨count, last, hexec, hidle⟩
  cases hlabels : (replies.take count).map fun reply => TopicLabel.respond reply.1 reply.2 with
  | nil =>
    rw [hlabels] at hexec
    cases hexec
    cases hp.symm.trans hidle
  | cons label labels =>
    obtain ⟨reply, rest, -, rfl, -⟩ := map_eq_cons_iff.mp hlabels
    rw [hlabels] at hexec
    obtain ⟨mid, hmid, -⟩ := exec_cons hexec
    simp [step, respond, hp] at hmid

def Lasting (targets : List (ℤ × ℤ)) (sessions : Sessions) (done replies : List Reply) : Prop :=
  ∀ count, (∃ target ∈ targets,
    acknowledgedAfter sessions (done ++ replies.take count) target.1 < target.2) →
    ∀ target ∈ targets, stopFinished sessions (done ++ replies.take count) target.1 = false

theorem lasting_cons_iff (hlive : ∀ tgt ∈ targets, stopFinished sessions done tgt.1 = false) :
    Lasting targets sessions done (reply :: rest) ↔
    Lasting targets sessions (done ++ [reply]) rest := by
  have hshift :
      ∀ count, done ++ [reply] ++ rest.take count = done ++ (reply :: rest).take (count + 1) := by
    intro count
    rw [take_succ_cons, append_assoc]
    rfl
  constructor
  · intro h count
    rw [hshift]
    exact h (count + 1)
  intro h count
  cases count with
  | zero =>
    intro _
    rw [take_zero, append_nil]
    exact hlive
  | succ count =>
    rw [← hshift]
    exact h count

theorem lasting_of_acknowledged (hserved : Served targets sessions done session)
    (hdone : targets.all (acknowledged session.partitionSessions)) :
    Lasting targets sessions done rest := by
  intro count hwait
  obtain ⟨tgt, htarget, hlt⟩ := hwait
  have hacked := (acknowledged_iff hserved htarget).mp (all_eq_true.mp hdone tgt htarget)
  have hle := acknowledgedAfter_append sessions done (rest.take count) tgt.1
  omega

theorem exists_unacknowledged (hserved : Served targets sessions done session)
    (hdone : ¬ targets.all (acknowledged session.partitionSessions)) :
    ∃ tgt ∈ targets, acknowledgedAfter sessions done tgt.1 < tgt.2 := by
  rw [all_eq_true] at hdone
  push Not at hdone
  obtain ⟨tgt, htarget, hnot⟩ := hdone
  rw [Ne, acknowledged_iff hserved htarget] at hnot
  exact ⟨tgt, htarget, by omega⟩

theorem returns_iff_lasting (h : Waits config run commit sessions done replies) :
    Returns config run replies ↔ Lasting commit.targets sessions done replies := by
  induction replies generalizing run done with
  | nil =>
    obtain ⟨tgt, htarget, hlt⟩ := h.waiting
    have hle := h.acknowledged tgt htarget
    rw [append_nil] at hle
    omega
  | cons reply rest ih =>
    obtain ⟨final, ha⟩ := h.accepted
    obtain ⟨session, haccept, hrest⟩ := exec_cons ha
    have hserved := h.served.next haccept (h.unforced reply mem_cons_self)
    have hstep := step_accepted h.phase haccept
    have hcommit := h.ledger.committing commit h.phase
    obtain ⟨bs, hledger⟩ := ledger_accepted h.ledger haccept
    have hp : run.phase ≠ .idle := by
      rw [h.phase]
      exact fun hidle => by cases hidle
    rw [returns_cons_iff hp hstep, lasting_cons_iff h.live]
    by_cases hdone : commit.targets.all (acknowledged session.partitionSessions)
    · -- Everything is acknowledged: the commit returns.
      have hidle := perform_head_done { run with session } hledger hcommit hdone
      exact iff_of_true (returns_of_idle hidle rest) (lasting_of_acknowledged hserved hdone)
    have hwait := exists_unacknowledged hserved hdone
    by_cases hlive : ensureTargetsLive commit.targets session.partitionSessions = .ok ()
    · -- All sessions are live: the next round follows.
      rw [perform_head_live { run with session } hdone hlive] at hstep ⊢
      refine ih ⟨?_, rfl, hserved, hwait, (ensureTargetsLive_iff hserved).mp hlive, ⟨final, hrest⟩,
        fun later hlater => h.unforced later (mem_cons_of_mem _ hlater), fun tgt htarget => ?_⟩
      · exact ledgerInvariant_step _ (fun _ => h.ledger) hstep rfl
      have hacked := h.acknowledged tgt htarget
      rwa [append_cons] at hacked
    -- A session is no longer live: the commit fails.
    obtain ⟨fail, hstopped⟩ := perform_head_stopped { run with session } hdone hlive
    refine iff_of_false (not_returns_of_stopped hstopped rest) fun hall => ?_
    refine hlive ((ensureTargetsLive_iff hserved).mpr ?_)
    have hfst := hall 0
    rw [take_zero, append_nil] at hfst
    exact hfst hwait

/-! ## The start of a commit -/

theorem beginCommit_live (mks : List TopicCommitMarker) (admission : Except String Unit) :
    Meets (fun _ => True) (beginCommit mks admission) (fun commit session => (mks = [] →
      commit.targets = []) ∧
      ensureTargetsLive commit.targets session.partitionSessions = .ok ()) fun _ => True := by
  refine .get_bind fun session _ => ?_
  refine .strengthen (P := fun s => s.partitionSessions = session.partitionSessions) ?_
    fun _ hs => by rw [hs]
  refine .bind keeps_lift fun _ => .bind keeps_lift fun _ => ?_
  refine .bind (Q := fun parts s => (mks = [] → parts.targets = []) ∧ s.partitionSessions =
    session.partitionSessions) (.lift (fun _ parts hs hparts => ⟨?_, hs⟩) fun _ _ => trivial)
    fun parts => .of_and fun htargets => ?_
  · rintro rfl
    cases hparts
    rfl
  refine .bind keeps_lift fun _ => ?_
  refine .bind (Q := fun _ s => ensureTargetsLive parts.targets s.partitionSessions = .ok ())
    (.lift (fun _ _ hs hlive => hs ▸ hlive) fun _ _ => trivial) fun _ => ?_
  exact .bind (keeps_send (fun _ _ _ h => h) _) fun _ => .pure fun _ hlive => ⟨htargets, hlive⟩

theorem served_start (hq : QuietSession session)
    (hlive : ensureTargetsLive targets session.partitionSessions = .ok ()) :
    Served targets session.partitionSessions [] session := by
  refine ⟨hq, fun tgt htarget => ?_⟩
  obtain ⟨state, hs, hensure⟩ := of_bind (forM_eq_ok.mp hlive tgt htarget)
  have hfind := okOr_ok.mp hs
  exact ⟨state,
    hfind, standing_nil (hq.unready tgt.1 state hfind) hfind (by simpa using ensure_ok.mp hensure)⟩

theorem perform_map {α β : Type} (first : TopicAction α) (chg : α → β)
    (next : β → TopicRun → TopicRun) :
    run.perform (do return chg (← first)) next =
      run.perform first fun value => next (chg value) := by
  unfold perform
  cases hout : outcome first run.session with
  | mk res sess =>
    cases res with
    | ok value => rw [bind_of_ok hout, outcome_pure]
    | error fail => rw [bind_of_error hout]

theorem step_begun {mks : List TopicCommitMarker} {admission : Except String Unit}
    {run' : TopicRun} (hmarkers : mks ≠ [])
    (hbegin : outcome (beginCommit mks admission) run.session = (.ok commit, session))
    (hstep : run.step config (.callCommit mks admission) = some run') :
    run.phase = .idle ∧
    mks.Subperm run.handedOut ∧
    run' = perform { run with session } (commitHead commit) (afterCommit commit) := by
  simp only [step, callCommit] at hstep
  split at hstep
  · rename_i hp
    split at hstep
    · rename_i hsubperm
      cases hstep
      refine ⟨hp, hsubperm, ?_⟩
      rw [perform_bind hbegin]
      exact perform_map (commitHead commit) (Prod.mk commit) _
    · cases hstep
  · cases hstep

end

/-- A call of `commit_offsets` in a run, and replies that acknowledge every
session of it and stop none by force. -/
structure Answered (config : SessionConfig) (session : TopicSession)
    (run : TopicRun) (markers : List TopicCommitMarker)
    (admission : Except String Unit) (commit : InFlightCommit)
    (begun : TopicSession) (run' : TopicRun) (replies : List Reply) : Prop where
  connected : connect config = .ok session
  reached : Reachable (step config) (.start session) run
  begins : outcome (beginCommit markers admission) run.session = (.ok commit, begun)
  called : run.step config (.callCommit markers admission) = some run'
  accepted : (exec (accept config commit.targets) begun replies).isSome
  unforced : ∀ reply ∈ replies, ∀ target ∈ commit.targets,
    reply.1.serverMessage.any (stops target.1 false) = false
  acknowledged : ∀ target ∈ commit.targets,
    target.2 ≤ acknowledgedAfter begun.partitionSessions replies target.1

theorem commit_returns_iff_stops_finish_last (config : SessionConfig) (session : TopicSession)
    (run : TopicRun) (markers : List TopicCommitMarker) (admission : Except String Unit)
    (commit : InFlightCommit) (begun : TopicSession) (run' : TopicRun) (replies : List Reply)
    (h : Answered config session run markers admission commit begun run' replies) :
    Returns config run' replies ↔
    StopsFinishLast commit.targets begun.partitionSessions replies := by
  have hbegin := h.begins
  have hstep := h.called
  obtain ⟨htargets, hlive⟩ := (beginCommit_live markers admission run.session trivial).1 _ _ hbegin
  by_cases hmarkers : markers = []
  · have hidle : run'.phase = .idle := by
      simp only [step, callCommit] at hstep
      split at hstep
      · rename_i hp
        split at hstep
        · cases hstep
          exact hp
        · cases hstep
      · cases hstep
    refine iff_of_true (returns_of_idle hidle replies) fun count hwait => ?_
    obtain ⟨tgt, htarget, -⟩ := hwait
    rw [htargets hmarkers] at htarget
    cases htarget
  obtain ⟨hp, hsubperm, hrun'⟩ := step_begun hmarkers hbegin hstep
  have hrun : run.phase.running := by
    rw [hp]
    rfl
  have hi := ledgerInvariant_reachable h.connected h.reached hrun
  have hq : QuietSession begun := (beginCommit_quiet markers admission run.session
      (quiet_reachable h.connected h.reached hrun)).1 _ _ hbegin
  have hserved := served_start hq hlive
  by_cases hdone : commit.targets.all (acknowledged begun.partitionSessions)
  · obtain ⟨hcommit, hledger⟩ := (beginCommit_meets (a := run.accounts config)
      hsubperm admission run.session hi.ledger).1 _ _ hbegin
    have hidle := perform_head_done { run with session := begun } hledger hcommit hdone
    rw [← hrun'] at hidle
    exact iff_of_true (returns_of_idle hidle replies) (lasting_of_acknowledged hserved hdone)
  rw [perform_head_live { run with session := begun } hdone hlive] at hrun'
  subst hrun'
  exact returns_iff_lasting ⟨ledgerInvariant_step _ (fun _ => hi) hstep
      rfl, rfl, hserved, exists_unacknowledged hserved hdone,
    (ensureTargetsLive_iff hserved).mp hlive, Option.isSome_iff_exists.mp h.accepted,
    h.unforced, h.acknowledged⟩

/-! ## A commit over two changefeeds -/

namespace SampleCommit

def config : SessionConfig :=
  { SampleSession.config with topics := [("/local/a", 0), ("/local/b", 0)] }

def start (id : ℤ) (path : String) : TopicLabel :=
  SampleSession.reply (.startPartitionSessionRequest
    { partitionSession := some
        { partitionSessionId := id, path, partitionId := 0 }
      committedOffset := 0, partitionOffsets := some { start := 0, stop := 9 } })

def data (id : ℤ) : PartitionData where
  partitionSessionId := id
  batches :=
    [{ producerId := []
       codec := 1, writtenAt := some { seconds := 1, nanos := 0 }
       messageData := [{ offset := 0, data := [1], uncompressedSize := 1, metadataItems := [] }] }]

def labels : List TopicLabel := [SampleSession.reply (.initResponse "session"), .callRead,
    start 1 "/local/a", start 2 "/local/b",
    SampleSession.reply (.readResponse { bytesSize := 5, partitionData := [data 1, data 2] })]

def answer (message : ServerMessage) : Reply :=
  ({ status := 400000, issues := [], serverMessage := some message }, SampleSession.memory)

def stop (id : ℤ) : Reply := answer (.stopPartitionSessionRequest
    { partitionSessionId := id, graceful := true, committedOffset := 0 })

def ack (id : ℤ) : Reply := answer (.commitOffsetResponse
    [{ partitionSessionId := id, committedOffset := 1 }])

/-- The commit of everything that was handed out, and whether it returns. -/
def committed (replies : List Reply) : Option Bool := do
  let session ← (connect config).toOption
  let run ← exec (step config) (.start session) labels
  let run' ← run.step config (.callCommit run.handedOut (.ok ()))
  match outcome (beginCommit run.handedOut (.ok ())) run.session with
  | (.error _, _) => none
  | (.ok commit, begun) =>
    if (exec (accept config commit.targets) begun replies).isSome ∧
        (∀ reply ∈ replies, ∀ target ∈ commit.targets,
          reply.1.serverMessage.any (stops target.1 false) = false) ∧
        ∀ target ∈ commit.targets, target.2 ≤
          acknowledgedAfter begun.partitionSessions replies target.1 then
      some (decide (Returns config run' replies))
    else none

theorem answered_of_committed (reps : List Reply) (returned : Bool)
    (h : committed reps = some returned) :
    ∃ sess run cmt begun run',
    Answered config sess run run.handedOut (.ok ()) cmt begun run' reps ∧
    decide (Returns config run' reps) = returned := by
  unfold committed at h
  obtain ⟨sess, hs, h⟩ := Option.bind_eq_some_iff.mp h
  obtain ⟨run, hexec, h⟩ := Option.bind_eq_some_iff.mp h
  obtain ⟨run', hstep, h⟩ := Option.bind_eq_some_iff.mp h
  split at h
  · cases h
  rename_i cmt begun hbegin
  split at h
  · rename_i hreplies
    refine ⟨sess, run, cmt, begun, run',
      ⟨?_, ⟨_, hexec⟩, hbegin, hstep, hreplies.1, hreplies.2.1, hreplies.2.2⟩, Option.some.inj h⟩
    exact toOption_eq_some.mp hs
  · cases h

end SampleCommit
open SampleCommit

/-- The first changefeed stops once it is acknowledged; then the second one is
acknowledged. -/
theorem commit_fails_after_graceful_stop :
    ∃ session run commit begun run',
      Answered config session run run.handedOut (.ok ()) commit begun run' [stop 1, ack 1, ack 2] ∧
      ¬ Returns config run' [stop 1, ack 1, ack 2] := by
  obtain ⟨session, run, commit, begun, run', ha, hret⟩ :=
    answered_of_committed [stop 1, ack 1, ack 2] false (by decide +kernel)
  exact ⟨session, run, commit, begun, run', ha, of_decide_eq_false hret⟩

theorem stops_finish_last_of_sample :
    ∃ session run commit begun run',
      Answered config session run run.handedOut (.ok ()) commit begun run' [stop 1, ack 2, ack 1] ∧
      Returns config run' [stop 1, ack 2, ack 1] ∧
      StopsFinishLast commit.targets begun.partitionSessions [stop 1, ack 2, ack 1] := by
  obtain ⟨session, run, commit, begun, run', ha, hret⟩ :=
    answered_of_committed [stop 1, ack 2, ack 1] true (by decide +kernel)
  have hr := of_decide_eq_true hret
  exact ⟨session, run, commit, begun, run', ha, hr,
    (commit_returns_iff_stops_finish_last _ _ _ _ _ _ _ _ _ ha).mp hr⟩

end Transferia.Ydb
