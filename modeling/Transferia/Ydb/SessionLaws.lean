import Transferia.Ydb.LedgerSteps

/-!
# What holds in every run of a changefeed session

Every run that has not failed keeps its ledger: offsets without gaps, adjacent
commit ranges, batches in arrival order, constant credit, and retained bytes that
belong to batches whose memory is held.
-/

namespace Transferia.Ydb
open List Transferia.Core Support Support.Action
open Logbroker (FromServer ServerMessage MessageData Contiguous contiguous_append)
open TopicRun (step accounts)

/-- The laws of a run.  A partition session is named by its place among the
sessions that the server has assigned. -/
structure SessionLaws (config : SessionConfig) (run : TopicRun) : Prop where
  records : ∀ serial start, run.session.assignments[serial]? = some start →
    ∃ count, offsetsIn (recordsOf run.returned) serial = offsetsFrom start count
  owned : ∀ record ∈ recordsOf run.returned, record.serial < run.session.assignments.length
  arrival : run.session.reads = run.returned ++ run.session.bufferedBatches
  ranges : ∀ serial start, run.session.assignments[serial]? = some start →
    ∃ stop, Contiguous start (rangesIn (markersOf run.returned) serial) stop
  read : ∀ id state, run.session.partitionSessions.find? id = some state →
    ∃ start, run.session.assignments[state.serial]? = some start ∧
      ReadTo (recordsOf run.session.reads) (markersOf run.session.reads)
        state.serial start state.readThrough
  offsets : ∀ id state, run.session.partitionSessions.find? id = some state →
    state.committedOffset ≤ state.commitResponseOffset ∧
      state.commitResponseOffset ≤ state.readThrough
  credit : run.phase ≠ .connecting → run.session.availableCredit + run.session.pendingCredit =
      config.readBufferBytes
  placed : (handles run.session.reads).Perm (run.session.released ++
    run.session.settled ++ run.handedOut ++ handles run.session.bufferedBatches)
  retained : run.session.retainedBatchBytes = bytesOf (run.session.settled ++
    run.handedOut ++ handles run.session.bufferedBatches)
  drained : run.handedOut = [] → run.session.bufferedBatches = [] →
    run.session.pendingReleaseBatchBytes = 0 → run.session.retainedBatchBytes = 0

theorem offsetsFrom_of_append {start : ℤ} {count : ℕ} {first second : List ℤ}
    (h : first ++ second = offsetsFrom start count) : first = offsetsFrom start first.length := by
  have hlen := congrArg List.length h
  simp only [length_append, offsetsFrom, length_map, length_range] at hlen
  have hsplit : offsetsFrom start first.length ++ offsetsFrom
      (start + first.length) second.length = first ++ second := by
    rw [offsetsFrom_append, h, hlen]
  exact (append_inj_left hsplit (by simp [offsetsFrom])).symm

section
variable {config : SessionConfig} {session : TopicSession} {run : TopicRun}

theorem ledgerInvariant_start (hconnect : connect config = .ok session) :
    LedgerInvariant config (.start session) := by
  replace hconnect := after_check hconnect
  obtain ⟨configuredTopics, -, hconnect⟩ := of_bind hconnect
  replace hconnect := after_check hconnect
  cases hconnect
  refine
    ⟨⟨⟨?_, ?_, ?_, ?_, ?_, ?_⟩, rfl, rfl, rfl, .nil, rfl, Nat.two_pow_pos 64, rfl, rfl⟩, ?_, ?_⟩
  · intro id state hfind
    cases hfind
  · rintro id state ⟨⟩
  · rintro id other state found ⟨⟩
  · rintro serial start ⟨⟩
  · rintro record ⟨⟩
  · rintro marker ⟨⟩
  · rintro ⟨⟩
  rintro commit ⟨⟩

theorem ledgerInvariant_reachable (hconnect : connect config = .ok session)
    (hreach : Reachable (step config) (.start session) run) (hrunning : run.phase.running) :
    LedgerInvariant config run := by
  refine hreach.invariant (P := fun run => run.phase.running → LedgerInvariant config run)
    (fun run label run' h hstep => ledgerInvariant_step label h hstep)
    (fun _ => ledgerInvariant_start hconnect) hrunning

theorem LedgerInvariant.laws (h : LedgerInvariant config run) : SessionLaws config run := by
  have hwait : (run.accounts config).waiting = run.session.bufferedBatches := append_nil _
  have hord := h.ledger.order
  have hpayload := h.ledger.placed
  have hretained := h.ledger.retained
  rw [hwait] at hord hpayload hretained
  have hr : recordsOf run.session.reads = recordsOf run.returned ++
      recordsOf run.session.bufferedBatches := by
    rw [hord, recordsOf, flatMap_append]
    rfl
  have hmarkers : markersOf run.session.reads = markersOf run.returned ++
      markersOf run.session.bufferedBatches := by
    rw [hord, markersOf, flatMap_append]
    rfl
  refine {
    records := ?_, owned := ?_, arrival := hord, ranges := ?_, read := h.ledger.sessions.place
    offsets := h.ledger.sessions.offsets, credit := ?_, placed := hpayload, retained := ?_
    drained := ?_ }
  · intro serial start hstart
    obtain ⟨stop, hread⟩ := h.ledger.sessions.log serial start hstart
    have ho := hread.offsets
    rw [hr, offsetsIn_append] at ho
    exact ⟨_, offsetsFrom_of_append ho⟩
  · intro record hrec
    apply h.ledger.sessions.recordsKnown record
    rw [hr]
    exact mem_append_left _ hrec
  · intro serial start hstart
    obtain ⟨stop, hread⟩ := h.ledger.sessions.log serial start hstart
    have hranges := hread.ranges
    rw [hmarkers, rangesIn_append] at hranges
    obtain ⟨mid, hfst, -⟩ := contiguous_append.mp hranges
    exact ⟨mid, hfst⟩
  · intro hp
    have hcredit := h.ledger.credit
    cases hget : run.phase with
    | connecting => exact absurd hget hp
    | _ => simpa [accounts, hget] using hcredit
  · rw [bytesOf_append, bytesOf_append]
    exact hretained
  intro hhanded hbuf hpend
  have hrelease := h.ledger.release
  rw [hretained, hbuf, ← hrelease, hpend]
  simp [accounts, hhanded, handles, bytesOf]

end

theorem session_ledger_laws (config : SessionConfig) (session : TopicSession)
    (hconnect : connect config = .ok session) (run : TopicRun)
    (hreach : Reachable (step config) (.start session) run) (hrunning : run.phase.running) :
    SessionLaws config run :=
  (ledgerInvariant_reachable hconnect hreach hrunning).laws

namespace SampleSession

def config : SessionConfig where
  topics := [("/local/feed", 0)]
  startOffsets := .empty
  readBufferBytes := 100
  maxMessageBytes := 10
  maxBatchBytes := 20
  layout := { record := 8, marker := 4, arcCounters := 2, partitionMarker := 4 }

def memory : MemoryAnswers where
  response := .ok ()
  decoded := .ok ()
  buffered := .ok ()
  payloadCapacity := fun _ message => message.data.length
  recordsCapacity := 1
  partitionsCapacity := 1

def reply (message : ServerMessage) : TopicLabel :=
  .respond { status := 400000, issues := [], serverMessage := some message } memory

def data (offset : ℤ) : ServerMessage := .readResponse
    { bytesSize := 5
      partitionData :=
        [{ partitionSessionId := 7
           batches :=
             [{ producerId := []
                codec := 1, writtenAt := some { seconds := 1, nanos := 0 }
                messageData :=
                  [{ offset, data := [1], uncompressedSize := 1, metadataItems := [] }] }] }] }

def marker (offset : ℤ) : TopicCommitMarker where
  partitions :=
    [{ topicPath := "local/feed"
       partitionId := 0, partitionSessionId := 7, range := { start := offset, stop := offset + 1 }
       serial := 0 }]
  retainedBytes := 19

def labels : List TopicLabel :=
  [reply (.initResponse "session"), .callRead, reply (.startPartitionSessionRequest
      { partitionSession := some
          { partitionSessionId := 7, path := "/local/feed", partitionId := 0 }
        committedOffset := 3, partitionOffsets := some { start := 0, stop := 9 } }),
    reply (data 3), .callCommit [marker 3] (.ok ()), reply (data 4),
    reply (.commitOffsetResponse [{ partitionSessionId := 7, committedOffset := 4 }]),
    .callRead]

def view (run : TopicRun) : List ℤ × ℕ × Bool :=
  ((recordsOf run.returned).map TopicRecord.offset,
    run.session.retainedBatchBytes, run.phase.running)

end SampleSession
open SampleSession

theorem session_ledger_laws_of_sample : ∃ session run, connect config = .ok session ∧ exec
      (step config) (.start session) labels = some run ∧ view run = ([3, 4], 19, true) ∧
      SessionLaws config run := by
  have hrun : (connect config).toOption.bind (fun session =>
      (exec (step config) (.start session) labels).map view) =
      some ([3, 4], 19, true) := by
    decide +kernel
  obtain ⟨session, hs, hrun⟩ := Option.bind_eq_some_iff.mp hrun
  obtain ⟨run, hexec, hview⟩ := Option.map_eq_some_iff.mp hrun
  have hconnect := toOption_eq_some.mp hs
  have hrunning : run.phase.running := congrArg (·.2.2) hview
  exact ⟨session, run, hconnect, hexec, hview,
    session_ledger_laws _ session hconnect run ⟨_, hexec⟩ hrunning⟩

end Transferia.Ydb
