import Transferia.Logbroker.TopicSteps

/-!
# Graceful stops

A session that the server wants to stop gracefully is released when everything
read in it is confirmed.  The source looks for such sessions when a stop request
arrives, and not when a confirmation arrives: a session is forgotten exactly when
a commit response confirms the last offset of a session that is already
stopping.
-/

namespace Transferia.Logbroker
open List Transferia.Core Support OrderedMap Option
variable {config : SourceConfig} {sessions sessions' : Sessions} {state : PartitionSessionState}
  {id : ℤ}

/-- No session has a pending stop although all that was read in it is
confirmed. -/
def NoneForgotten (sessions : Sessions) : Prop :=
  ∀ id state, sessions.find? id = some state → releasable state = false

/-- A confirmation reaches the last offset read in a stopping session. -/
def finishes (sessions : Sessions) (offset : PartitionCommittedOffset) : Bool :=
  (sessions.find? offset.partitionSessionId).any fun state =>
    state.pendingGracefulStop && decide (state.readThrough ≤ offset.committedOffset)

def confirmsStopping (run : TopicRun) : TopicLabel → Bool
  | .respond { serverMessage := some (.commitOffsetResponse committed), .. } _ =>
    committed.any (finishes run.source.partitionSessions)
  | _ => false

theorem releasable_eq_false : releasable state = false ↔
    (state.pendingGracefulStop → state.committedOffset < state.readThrough) := by
  cases hpend : state.pendingGracefulStop <;> simp [releasable, hpend]

theorem finishes_eq_false {off : PartitionCommittedOffset}
    (hfind : sessions.find? off.partitionSessionId = some state) : finishes sessions off = false ↔
    (state.pendingGracefulStop → off.committedOffset < state.readThrough) := by
  cases hpend : state.pendingGracefulStop <;> simp [finishes, hfind, hpend]

theorem NoneForgotten.insert (h : NoneForgotten sessions) (hs : releasable state = false) :
    NoneForgotten (sessions.insert id state) := by
  intro other found hget
  by_cases hother : other = id
  · subst hother
    rw [find?_insert_self, some.injEq] at hget
    exact hget ▸ hs
  rw [find?_insert_ne _ _ hother] at hget
  exact h other found hget

theorem NoneForgotten.retain (h : NoneForgotten sessions) (keep : ℤ → Bool) :
    NoneForgotten (sessions.retain keep) := by
  intro id state hget
  rw [find?_retain, ite_none_right_eq_some] at hget
  exact h id state hget.2

theorem mem_releasableSessionIds (hfind : sessions.find? id = some state) (hs : releasable state) :
    id ∈ releasableSessionIds sessions := by
  refine mem_map.mpr ⟨(id, state), ?_, rfl⟩
  exact mem_filter.mpr ⟨sessions.mem_entries_iff.mpr hfind, hs⟩

theorem find?_insert_ne_none {other : ℤ} (h : sessions.find? id ≠ none) :
    (sessions.insert other state).find? id ≠ none := by
  by_cases hsame : id = other
  · subst hsame
    simp [find?_insert_self]
  rwa [find?_insert_ne _ _ hsame]

theorem noneForgotten_release (sessions : Sessions) :
    NoneForgotten (sessions.retain (· ∉ releasableSessionIds sessions)) := by
  intro id state hget
  rw [find?_retain, ite_none_right_eq_some] at hget
  obtain ⟨hkept, hfind⟩ := hget
  by_contra hreleasable
  rw [Bool.not_eq_false] at hreleasable
  exact of_decide_eq_true hkept (mem_releasableSessionIds hfind hreleasable)

section
variable {offset : PartitionCommittedOffset}

theorem confirm_noneForgotten_iff (hnone : NoneForgotten sessions)
    (h : confirm sessions offset = .ok sessions') :
    NoneForgotten sessions' ↔ finishes sessions offset = false := by
  obtain ⟨state, hfind, rfl⟩ := confirm_ok h
  rw [finishes_eq_false hfind]
  constructor
  · intro hlater hpend
    have hnew :=
      releasable_eq_false.mp (hlater offset.partitionSessionId _ (find?_insert_self _ _ _)) hpend
    exact (le_max_right _ _).trans_lt hnew
  intro hopen
  refine hnone.insert (releasable_eq_false.mpr fun hpend => ?_)
  have hold := releasable_eq_false.mp (hnone _ _ hfind) hpend
  exact max_lt hold (hopen hpend)

theorem finishes_confirm (h : confirm sessions offset = .ok sessions')
    (other : PartitionCommittedOffset) : finishes sessions' other = finishes sessions other := by
  obtain ⟨state, hfind, rfl⟩ := confirm_ok h
  unfold finishes
  by_cases hsame : other.partitionSessionId = offset.partitionSessionId
  · rw [hsame, find?_insert_self, hfind]
    rfl
  rw [find?_insert_ne _ _ hsame]

theorem confirm_forgotten (hforgotten : ¬ NoneForgotten sessions)
    (h : confirm sessions offset = .ok sessions') : ¬ NoneForgotten sessions' := by
  obtain ⟨state, hfind, rfl⟩ := confirm_ok h
  intro hnone
  refine hforgotten fun id found hget => ?_
  by_cases hsame : id = offset.partitionSessionId
  · subst hsame
    rw [hfind, some.injEq] at hget
    subst hget
    refine releasable_eq_false.mpr fun hpend => ?_
    have hnew :=
      releasable_eq_false.mp (hnone offset.partitionSessionId _ (find?_insert_self _ _ _)) hpend
    exact (le_max_left _ _).trans_lt hnew
  apply hnone id found
  rw [find?_insert_ne _ _ hsame]
  exact hget

theorem confirm_all_noneForgotten_iff {comm : List PartitionCommittedOffset}
    (hnone : NoneForgotten sessions) (h : comm.foldlM confirm sessions = .ok sessions') :
    NoneForgotten sessions' ↔ comm.any (finishes sessions) = false := by
  induction comm generalizing sessions with
  | nil =>
    cases h
    simpa using hnone
  | cons first rest ih =>
    obtain ⟨mid, hfst, h⟩ := of_bind h
    have hsame : rest.any (finishes mid) = rest.any (finishes sessions) :=
      congrArg rest.any (funext (finishes_confirm hfst ·))
    rw [any_cons, Bool.or_eq_false_iff, ← confirm_noneForgotten_iff hnone hfst, ← hsame]
    by_cases hmid : NoneForgotten mid
    · rw [ih hmid h]
      simp [hmid]
    have hlater : ¬ NoneForgotten sessions' := foldlM_induct (P := fun _ sessions =>
      ¬ NoneForgotten sessions) (fun _ _ _ _ hb hround => confirm_forgotten hb hround) h hmid
    simp [hmid, hlater]

end

variable {parts : List DecodedPart} {topicBatches topicBatches' : TopicBatches}
  {s t : TopicSource} {message : ServerMessage} {event : SessionEvent}

theorem readPart_noneForgotten (hnone : NoneForgotten sessions)
    (h : parts.foldlM readPart (sessions, topicBatches) = .ok (sessions', topicBatches')) :
    NoneForgotten sessions' := by
  refine foldlM_induct (P := fun _ res => NoneForgotten res.1) ?_ h hnone
  rintro part _ ⟨before, bs⟩ ⟨after, batches'⟩ hb hround
  obtain ⟨_, _, _, ⟨_, rfl, _⟩ | ⟨state, readThrough, _, hfind, hlt, rfl, _⟩⟩ := readPart_ok hround
  · exact hb
  refine NoneForgotten.insert hb (releasable_eq_false.mpr fun hpend => ?_)
  exact (releasable_eq_false.mp (hb _ _ hfind) hpend).trans hlt

/-- Every message keeps the property, except a commit response that finishes a
stopping session. -/
theorem Processed.noneForgotten_iff (h : Processed config s message event t)
    (hnone : NoneForgotten s.partitionSessions) : NoneForgotten t.partitionSessions ↔ ∀ comm,
    message = .commitOffsetResponse comm → comm.any (finishes s.partitionSessions) = false := by
  have hother : (∀ comm, message ≠ .commitOffsetResponse comm) →
      NoneForgotten t.partitionSessions → (NoneForgotten t.partitionSessions ↔ ∀ comm,
      message = .commitOffsetResponse comm → comm.any (finishes s.partitionSessions) = false) := by
    intro hmsg ht
    exact ⟨fun _ comm heq => absurd heq (hmsg comm), fun _ => ht⟩
  cases h with
  | startedAgain | readNothing | stopUnknown => exact hother (by simp) hnone
  | started => exact hother (by simp) (hnone.insert rfl)
  | read hpositive hparts hdec hread hbatches =>
    exact hother (by simp) (readPart_noneForgotten hnone hread)
  | @confirmed comm sessions hconfirm =>
    rw [confirm_all_noneForgotten_iff hnone hconfirm]
    simp
  | stopGracefully => exact hother (by simp) (noneForgotten_release _)
  | stopNow outage hfind =>
    have hs := hnone _ _ hfind
    refine hother (by simp) (NoneForgotten.retain (hnone.insert ?_) _)
    exact hs
  | unchanged hmsg => exact hother hmsg hnone

section
variable (hknown : sessions.find? id ≠ none)
include hknown

theorem readPart_find?_ne_none
    (h : parts.foldlM readPart (sessions, topicBatches) = .ok (sessions', topicBatches')) :
    sessions'.find? id ≠ none := by
  refine foldlM_induct (P := fun _ res => res.1.find? id ≠ none) ?_ h hknown
  rintro part _ ⟨before, bs⟩ ⟨after, batches'⟩ hb hround
  obtain ⟨_, _, _, ⟨_, rfl, _⟩ | ⟨_, _, _, _, _, rfl, _⟩⟩ := readPart_ok hround
  · exact hb
  · exact find?_insert_ne_none hb

theorem confirm_find?_ne_none {comm : List PartitionCommittedOffset}
    (h : comm.foldlM confirm sessions = .ok sessions') : sessions'.find? id ≠ none := by
  refine foldlM_induct (P := fun _ res => res.find? id ≠ none) ?_ h hknown
  intro off _ before after hbefore hround
  obtain ⟨_, _, rfl⟩ := confirm_ok hround
  exact find?_insert_ne_none hbefore

theorem mem_of_find?_retain {ids : List ℤ} (hgone : (sessions.retain (· ∉ ids)).find? id = none) :
    id ∈ ids := by
  rw [find?_retain] at hgone
  by_contra hnot
  exact hknown (by simpa [hnot] using hgone)

end

theorem Processed.answered (h : Processed config s message event t)
    (hb : s.partitionSessions.find? id ≠ none) (hafter : t.partitionSessions.find? id = none) :
    ∃ graceful events,
    t.trace = s.trace ++ events ∧ .sent (.stopPartitionSessionResponse id graceful) ∈ events := by
  cases h with
  | startedAgain | readNothing | stopUnknown | unchanged => exact absurd hafter hb
  | started => exact absurd hafter (find?_insert_ne_none hb)
  | read hp hparts hdec hread hbatches => exact absurd hafter (readPart_find?_ne_none hb hread)
  | confirmed hconfirm => exact absurd hafter (confirm_find?_ne_none hb hconfirm)
  | stopGracefully outage hfind hgraceful hmarked =>
    subst hmarked
    have hin := mem_of_find?_retain (find?_insert_ne_none hb) hafter
    exact ⟨true, _, rfl, mem_map_of_mem (mem_map_of_mem hin)⟩
  | stopNow outage hfind =>
    have hin := mem_of_find?_retain (find?_insert_ne_none hb) hafter
    split at hin
    · rw [mem_singleton] at hin
      subst hin
      exact ⟨false, _, rfl, mem_singleton_self _⟩
    · cases hin

namespace TopicRun
variable {run next : TopicRun} {label : TopicLabel}

theorem replenishCredit_sessions (h : replenishCredit.outcome s = (.ok (), t)) :
    t.partitionSessions = s.partitionSessions := by
  obtain ⟨_, _, _, rfl⟩ | ⟨_, rfl⟩ := replenishCredit_ok h
  · rfl
  · rfl

theorem confirmsStopping_respond {resp : FromServer}
    {growth : Except String Unit} {msg : ServerMessage} (hmsg : resp.serverMessage = some msg) :
    confirmsStopping run (.respond resp growth) = false ↔ ∀ comm, msg = .commitOffsetResponse comm →
    comm.any (finishes run.source.partitionSessions) = false := by
  obtain ⟨status, issues, found⟩ := resp
  cases hmsg
  cases msg <;> simp [confirmsStopping]

section
variable (h : RunStep config run label next) (hnext : next.running)
include h hnext

theorem step_sessions :
    (next.source.partitionSessions = run.source.partitionSessions ∧
      confirmsStopping run label = false) ∨
    ∃ resp growth msg event mid, label = .respond resp growth ∧
    resp.serverMessage = some msg ∧ Processed config run.source msg event mid ∧
    next.source.partitionSessions = mid.partitionSessions ∧ mid.trace <+: next.source.trace := by
  cases h with
  | lost | popped | committedNothing => exact .inl ⟨rfl, rfl⟩
  | stopped | stoppedWithData | stoppedAfterCommit => cases hnext
  | granted outage hp hmsg => exact .inl ⟨rfl, (confirmsStopping_respond hmsg).mpr (by simp)⟩
  | connecting hp hmsg hprocessed hev | read hp hmsg hprocessed =>
    exact .inr ⟨_, _, _, _, _, rfl, hmsg, hprocessed, rfl, prefix_rfl⟩
  | processed hp hmsg hprocessed hev hr =>
    refine .inr ⟨_, _, _, _, _, rfl, hmsg, hprocessed, replenishCredit_sessions hr, ?_⟩
    obtain ⟨_, _, _, rfl⟩ | ⟨_, rfl⟩ := replenishCredit_ok hr
    · exact prefix_append _ _
    · exact prefix_rfl
  | waits hp hbuf hr => exact .inl ⟨replenishCredit_sessions hr, rfl⟩
  | committed hp hmarkers hne hcount hreq hr =>
    have hsame := replenishCredit_sessions hr
    exact .inl ⟨hsame, rfl⟩

theorem running_of_step : run.running := by
  cases h with
  | lost => exact hnext
  | stopped | stoppedWithData | stoppedAfterCommit => cases hnext
  | granted outage hp | connecting hp | processed hp | read hp | popped hp
  | waits hp | committedNothing hp | committed hp => simp [running, hp]

end

theorem noneForgotten_step_iff (hnone : NoneForgotten run.source.partitionSessions)
    (hstep : run.step config label = some next) (hnext : next.running) :
    NoneForgotten next.source.partitionSessions ↔ confirmsStopping run label = false := by
  obtain ⟨hsame, hlabel⟩ | ⟨resp, growth, msg, event, mid, rfl, hmsg, hp, hsame, _⟩ :=
    step_sessions (step_cases hstep) hnext
  · rw [hsame]
    exact ⟨fun _ => hlabel, fun _ => hnone⟩
  rw [hsame, hp.noneForgotten_iff hnone, confirmsStopping_respond hmsg]

/-- In a run without a commit response that finishes a stopping session, no
session is forgotten.  Such a response always forgets one.  A session that
leaves the table was answered in the same step. -/
theorem noneForgotten_of_reachable
    (hreach : Reachable (guarded (step config) fun run label => !confirmsStopping run label)
      start run) :
    (run.running → NoneForgotten run.source.partitionSessions) ∧
      ∀ label next, run.step config label = some next → next.running →
        (NoneForgotten next.source.partitionSessions ↔ confirmsStopping run label = false) ∧
        ∀ id, run.source.partitionSessions.find? id ≠ none →
          next.source.partitionSessions.find? id = none →
          ∃ graceful events, next.source.trace = run.source.trace ++ events ∧
            .sent (.stopPartitionSessionResponse id graceful) ∈ events := by
  have hnone : run.running → NoneForgotten run.source.partitionSessions := by
    refine hreach.invariant (P := fun run => run.running →
      NoneForgotten run.source.partitionSessions) ?_ ?_
    · intro before label after hb hstep ha
      obtain ⟨hallowed, hstep⟩ := of_guarded hstep
      have hrun := running_of_step (step_cases hstep) ha
      exact (noneForgotten_step_iff (hb hrun) hstep ha).mpr (by simpa using hallowed)
    rintro _ id state ⟨⟩
  refine ⟨hnone, ?_⟩
  intro label next hstep hnext
  have hrun := running_of_step (step_cases hstep) hnext
  refine ⟨noneForgotten_step_iff (hnone hrun) hstep hnext, ?_⟩
  intro id hb ha
  obtain ⟨hsame, _⟩ | ⟨resp, growth, msg, event, mid, rfl, hmsg,
    hp, hsame, more, hmore⟩ := step_sessions (step_cases hstep) hnext
  · rw [hsame] at ha
    exact absurd ha hb
  rw [hsame] at ha
  obtain ⟨graceful, events, ht, hmem⟩ := hp.answered hb ha
  refine ⟨graceful, events ++ more, ?_, mem_append_left _ hmem⟩
  rw [← hmore, ht, append_assoc]

def stopRequest : TopicLabel := serverLabel (.stopPartitionSessionRequest
    { partitionSessionId := 1, graceful := true, committedOffset := 0 })

def confirmation (committedOffset : ℤ) : TopicLabel :=
  serverLabel (.commitOffsetResponse [{ partitionSessionId := 1, committedOffset }])

def isStopResponse : TopicEvent → Bool
  | .sent (.stopPartitionSessionResponse _ _) => true
  | _ => false

set_option maxRecDepth 4000 in
/-- The batch is committed, the server asks for a graceful stop and then confirms
the commit: the session keeps its pending stop and is never answered. -/
theorem forgotten_after_confirmation :
    ∃ run state, exec (step exampleConfig) start
        (readOneMessage ++ [.commit [exampleMarker], .callRead, stopRequest,
          confirmation 4]) = some run ∧
      run.running ∧
      run.source.partitionSessions.find? 1 = some state ∧
      state.pendingGracefulStop ∧
      state.readThrough = 4 ∧ state.committedOffset = 4 ∧
      run.source.trace.any isStopResponse = false :=
  ⟨_, _, rfl, rfl, rfl, rfl, rfl, rfl, rfl⟩

set_option maxRecDepth 4000 in
/-- When the confirmation comes before the stop request, the session is
released. -/
theorem noneForgotten_of_reachable_confirmedFirst :
    ∃ run, Reachable (guarded (step exampleConfig) fun run label => !confirmsStopping run label)
        start run ∧
      run.source.trace.any isStopResponse ∧
      NoneForgotten run.source.partitionSessions := by
  have hruns : ∃ run, exec (guarded (step exampleConfig) fun run label =>
        !confirmsStopping run label) start
      (readOneMessage ++ [.commit [exampleMarker], .callRead, confirmation 4,
        stopRequest]) = some run ∧
      run.running ∧ run.source.trace.any isStopResponse :=
    ⟨_, rfl, rfl, rfl⟩
  obtain ⟨run, hexec, hrun, ha⟩ := hruns
  have hreach : Reachable (guarded (step exampleConfig) fun run label =>
      !confirmsStopping run label) start run := ⟨_, hexec⟩
  exact ⟨run, hreach, ha, (noneForgotten_of_reachable hreach).1 hrun⟩

end TopicRun
end Transferia.Logbroker
