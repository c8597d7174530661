import Transferia.Postgres.QueueSteps

/-!
# What the snapshot queue guarantees

The queue partitions its table at every moment, and a completed epoch has read
every leaf to its end exactly once.
-/

namespace Transferia.Postgres
namespace SnapshotSession
open List QueueState Bool
open QueueState (new)
open SnapshotEvent (isEndOf)

theorem existsUnique_of_countP_eq_one {α : Type*} {p : α → Bool} {tasks : List α}
    (hcount : tasks.countP p = 1) : ∃! id : ℕ, ∃ task, tasks[id]? = some task ∧ p task := by
  obtain ⟨id, hids⟩ := length_eq_one_iff.mp (length_findIdxs.trans hcount)
  have hiff : ∀ other, (∃ task, tasks[other]? = some task ∧ p task) ↔ other = id := by
    intro other
    rw [← mem_singleton, ← hids, mem_findIdxs_iff_exists_getElem_pos]
    simp [List.getElem?_eq_some_iff]
  exact ⟨id, (hiff id).mpr rfl, fun other => (hiff other).mp⟩

theorem Steps.maxParts_eq {epoch : ℕ} {s t : SnapshotSession} (hsteps : Steps epoch s t) :
    t.queue.maxParts = s.queue.maxParts := by
  induction hsteps with
  | refl => rfl
  | tail _ hlast ih =>
    rw [← ih]
    cases hlast with
    | committed lease lane record later _ _ =>
      simp only [commitRecord]
      split <;> rfl
    | closed handle lease _ hunclosed => simp [close, hunclosed, releaseUnfinished_eq, setLane]
    | _ => rfl

/-- `attempt`, a lane and its attempt number, is live and reading `id`. -/
def LiveAttempt (s : SnapshotSession) (attempt : ℕ × ℕ) (id : ℕ) : Prop :=
  ∃ slot : LaneState, s.queue.lanes[attempt.1]? = some slot ∧ slot.active ∧ slot.attempt =
    attempt.2 ∧ slot.activeTask = some id

/-- An owned task is read by one live attempt, unless its attempt was closed
after publishing, which interrupted the epoch. -/
theorem owned_live {epoch : ℕ} {s : SnapshotSession} (h : Invariant epoch s) {id : ℕ} {task : Task}
    (htask : s.queue.tasks[id]? = some task) (hs : task.state = .owned) :
    (∃! attempt, LiveAttempt s attempt id) ∨
    (s.queue.interrupted ∧ task.published ∧ ∃ lane slot, s.queue.lanes[lane]? = some slot ∧
      slot.active = false ∧ task.owner = some (lane, slot.attempt)) := by
  obtain ⟨lane, slot, hslot, howner, hwhere⟩ := h.ownership.owned id task htask hs
  rcases hwhere with ⟨hact, hworking⟩ | ⟨hidle, hpub, hi⟩
  · refine .inl ⟨(lane, slot.attempt), ⟨slot, hslot, hact, rfl, hworking⟩, ?_⟩
    rintro ⟨other, number⟩ ⟨found, hget, _, hnumber, hreading⟩
    obtain ⟨_, same, hsame, _, hsameOwner⟩ := h.ownership.active_task other found id hget hreading
    cases htask.symm.trans hsame
    rw [howner] at hsameOwner
    have hpair : (lane, slot.attempt) = (other, found.attempt) := Option.some.inj hsameOwner
    rw [hpair, hnumber]
  exact .inr ⟨hi, hpub, lane, slot, hslot, hidle, howner⟩

/-- After every interleaving of calls the leaves partition the table, the
pending list and the leaf count are exact, owned tasks have one live attempt
unless the epoch was interrupted, and outstanding markers are the emitted ones
that are not acknowledged. -/
theorem queue_partitions_table {chunks : List Chunk} {lanes : ℕ}
    {maxParts : Option ℕ} {queue : QueueState}
    (hnew : new chunks lanes maxParts = .ok queue)
    (epoch : ℕ) (calls : List SnapshotCall) :
    let s := (start queue).run epoch calls
    (∀ row, ∃! id : ℕ, ∃ task : Task, s.queue.tasks[id]? = some task ∧
      task.state ≠ .retired ∧ task.chunk.predicate row) ∧
    (s.queue.pending.Nodup ∧ ∀ id : ℕ, id ∈ s.queue.pending ↔
      ∃ task : Task, s.queue.tasks[id]? = some task ∧ task.state = .pending) ∧
    (s.queue.leaves = s.queue.tasks.countP Task.isLeaf ∧
      ∀ limit, maxParts = some limit → s.queue.leaves ≤ limit) ∧
    (∀ id task, s.queue.tasks[id]? = some task → task.state = .owned →
      (∃! attempt, LiveAttempt s attempt id) ∨ (s.queue.interrupted ∧ task.published ∧
          ∃ lane slot, s.queue.lanes[lane]? = some slot ∧ slot.active = false ∧
              task.owner = some (lane, slot.attempt))) ∧
    (∀ lane slot, s.queue.lanes[lane]? = some slot →
      emittedOn lane s.trace = acknowledgedOn lane s.trace ++ slot.outstanding.map fun record =>
          { epoch, lane, attempt := slot.attempt, record }) := by
  intro s
  have hi : Invariant epoch s := invariant_run hnew calls
  obtain ⟨hp, hown, hl, hh⟩ := hi
  refine ⟨?_, ⟨hp.pending_nodup, hp.pending_iff⟩, ⟨hp.leaves_eq, ?_⟩, ?_, hl.emitted_eq⟩
  · intro row
    have hone := existsUnique_of_countP_eq_one (hp.covers row)
    simpa [Task.isLeaf] using hone
  · intro limit hlimit
    have hkept : s.queue.maxParts = queue.maxParts :=
      (run_steps epoch (start queue) calls).maxParts_eq
    have hqueue := (new_ok hnew).2.2.2
    apply hp.leaves_le limit
    rw [hkept, hqueue]
    exact hlimit
  intro id task htask hs
  exact owned_live ⟨hp, hown, hl, hh⟩ htask hs

def pagePlan : List Chunk := [⟨.ctid none (some 8) 8⟩, ⟨.ctid (some 8) none 16⟩]

/-- The first lane reads the first range, which splits the second one, and the
second lane claims a half of that. -/
def splitRead : List SnapshotCall :=
  [.openLane 0, .openLane 1, .claim 0, .finishRead 0 ⟨0, ⟨.ctid none (some 8) 8⟩⟩ true, .claim 1]

theorem queue_partitions_table_splitRead :
    ∃ queue, new pagePlan 2 (some 3) = .ok queue ∧
      let s := (start queue).run 0 splitRead
      s.queue.tasks.map Task.state = [.readComplete, .retired, .owned, .pending] ∧
      (∃! id : ℕ, ∃ task : Task, s.queue.tasks[id]? = some task ∧
        task.state ≠ .retired ∧ task.chunk.predicate ⟨13, 0, 3⟩) ∧
      s.queue.leaves ≤ 3 ∧
      ∃! attempt, LiveAttempt s attempt 2 := by
  have hnew : new pagePlan 2 (some 3) = .ok _ := rfl
  refine ⟨_, hnew, rfl, ?_⟩
  obtain ⟨hcover, -, hleaves, howned, -⟩ := queue_partitions_table hnew 0 splitRead
  refine ⟨hcover _, hleaves.2 3 rfl, (howned 2 _ rfl rfl).resolve_right ?_⟩
  rintro ⟨hinterrupted, -⟩
  cases hinterrupted

def wholePlan : List Chunk := [⟨.whole⟩]

/-- The queue built for `wholePlan` with one lane and no maximum. -/
def wholeQueue : QueueState :=
  { tasks := [Task.fresh ⟨.whole⟩]
    pending := [0], lanes := [LaneState.default], leaves := 1, maxParts := none
    interrupted := false }

theorem new_wholePlan : new wholePlan 1 none = .ok wholeQueue := by rfl

/-- One lane claims the whole table, publishes five rows of it and is closed. -/
def abandonedRead : List SnapshotCall :=
  [.openLane 0, .claim 0, .emitRows 0 ⟨0, ⟨.whole⟩⟩ 0 5, .close 0]

/-- Closing an attempt after it published rows leaves its task owned without a
live attempt; the epoch is interrupted. -/
theorem owned_without_live_attempt :
    new wholePlan 1 none = .ok wholeQueue ∧
      (∃ task : Task, ((start wholeQueue).run 0 abandonedRead).queue.tasks[0]? = some task ∧
          task.state = .owned) ∧
      ∀ attempt, ¬LiveAttempt ((start wholeQueue).run 0 abandonedRead) attempt 0 := by
  refine ⟨new_wholePlan, ⟨_, rfl, rfl⟩, ?_⟩
  have hidle : ∀ slot ∈ ((start wholeQueue).run 0 abandonedRead).queue.lanes,
      slot.active = false := by
    decide
  rintro attempt ⟨slot, hslot, hact, _⟩
  have hclosed := hidle slot (mem_of_getElem? hslot)
  cases hclosed.symm.trans hact

theorem ensureComplete_ok {queue : QueueState} (h : queue.ensureComplete = .ok ()) :
    (∀ (id : ℕ) (task : Task),
    queue.tasks[id]? = some task → task.state = .durableComplete ∨ task.state = .retired) ∧
    (∀ (lane : ℕ) (slot : LaneState), queue.lanes[lane]? = some slot → slot.outstanding = []) := by
  unfold ensureComplete at h
  split at h
  · cases h
  split at h
  · cases h
  rename_i ht
  split at h
  · cases h
  rename_i hlanes
  simp only [not_eq_true', not_eq_false, all_eq_true, decide_eq_true_eq] at ht
  simp only [not_eq_true', not_eq_false, all_eq_true, List.isEmpty_iff] at hlanes
  refine ⟨?_, ?_⟩
  · intro id task htask
    exact ht task (mem_of_getElem? htask)
  intro lane slot hslot
  exact hlanes slot (List.mem_of_getElem? hslot)

theorem acknowledge_error {epoch : ℕ} {queue after : QueueState}
    {lease : LaneLease} {markers : List CommitMarker} {reason : String}
    (h : queue.acknowledge epoch lease markers = (.error reason, after)) : after = queue := by
  unfold acknowledge at h
  split at h
  · cases h
    rfl
  split at h
  · cases h
    rfl
  split at h
  · cases h
    rfl
  split at h
  · cases h
    rfl
  · cases h

def ReadToEnd (trace : List SnapshotEvent) (id : ℕ) (attempt : ℕ × ℕ) : Prop :=
  ∃ marker : SnapshotMarker, .emitted marker ∈ trace ∧ marker.record.task = id ∧
    marker.record.taskEnd ∧ attempt = (marker.lane, marker.attempt)

/-- When `ensureComplete` accepts, every leaf was read to its end by exactly
one lane attempt and exactly once, the markers of that attempt were
acknowledged in emission order, and a published task was never read by another
attempt.  A rejected acknowledgement leaves the queue unchanged. -/
theorem complete_epoch_read_once {chunks : List Chunk} {lanes : ℕ}
    {maxParts : Option ℕ} {queue : QueueState}
    (hnew : new chunks lanes maxParts = .ok queue)
    (epoch : ℕ) (calls : List SnapshotCall) :
    let s := (start queue).run epoch calls
    (s.queue.ensureComplete = .ok () → (∀ id task, s.queue.tasks[id]? = some task →
        task.state ≠ .retired → s.trace.countP (isEndOf id) = 1 ∧
        ∃! attempt, ReadToEnd s.trace id attempt) ∧
      (∀ (id : ℕ) (attempt : ℕ × ℕ), ReadToEnd s.trace id attempt →
        (acknowledgedOn attempt.1 s.trace).filter (·.attempt = attempt.2) =
          (emittedOn attempt.1 s.trace).filter (·.attempt = attempt.2)) ∧
      s.trace.Pairwise fun earlier later =>
        ∀ (id : ℕ) (first second : ℕ × ℕ), earlier.Publishes id first →
          later.Reads id second → first = second) ∧
    ∀ (lease : LaneLease) (markers : List CommitMarker) (reason : String) (after : QueueState),
      s.queue.acknowledge epoch lease markers = (.error reason, after) → after = s.queue := by
  intro s
  have hi : Invariant epoch s := invariant_run hnew calls
  obtain ⟨hpartition, hown, hledger, hh⟩ := hi
  constructor
  · intro hc
    obtain ⟨htasks, hlanes⟩ := ensureComplete_ok hc
    refine ⟨?_, ?_, hh.one_reader⟩
    · intro id task htask hleaf
      have hdurable : task.state = .durableComplete := (htasks id task htask).resolve_right hleaf
      have hone : s.trace.countP (isEndOf id) = 1 := by
        rw [hh.ends id]
        simp [isRead, htask, hdurable]
      refine ⟨hone, ?_⟩
      obtain ⟨event, hev, hend⟩ : ∃ event ∈ s.trace, isEndOf id event := by
        apply countP_pos_iff.mp
        omega
      cases event with
      | claimed lane attempt other | acknowledged marker => cases hend
      | emitted marker =>
        simp only [isEndOf, and_eq_true, beq_iff_eq] at hend
        refine ⟨(marker.lane, marker.attempt), ⟨marker, hev, hend.2, hend.1, rfl⟩, ?_⟩
        rintro attempt ⟨other, hother, hid, _, rfl⟩
        obtain ⟨owned, howned, _, howner⟩ := hh.published_owner marker hev
        obtain ⟨same, hsame, _, hsameOwner⟩ := hh.published_owner other hother
        rw [hid, ← hend.2, howned] at hsame
        cases hsame
        rw [howner] at hsameOwner
        exact (Option.some.inj hsameOwner).symm
    rintro id attempt ⟨marker, hm, _, _, rfl⟩
    obtain ⟨task, htask, _, howner⟩ := hh.published_owner marker hm
    obtain ⟨slot, hslot, _⟩ := hown.owner_le _ task marker.lane marker.attempt htask howner
    have hall := hledger.emitted_eq marker.lane slot hslot
    rw [hlanes marker.lane slot hslot] at hall
    simp only [map_nil, append_nil] at hall
    rw [hall]
  intro lease markers reason after hr
  exact acknowledge_error hr

/-- One lane reads the whole table, and both its markers are acknowledged. -/
def completedRead : List SnapshotCall :=
  [.openLane 0, .claim 0, .emitRows 0 ⟨0, ⟨.whole⟩⟩ 0 5, .finishRead 0 ⟨0, ⟨.whole⟩⟩ false,
    .acknowledge 0 [.snapshot ⟨0, 0, 1, ⟨0, 1, 5, false⟩⟩, .snapshot ⟨0, 0, 1, ⟨0, 2, 5, true⟩⟩]]

theorem complete_epoch_read_once_whole :
    ∃! attempt, ReadToEnd ((start wholeQueue).run 0 completedRead).trace 0 attempt :=
  (((complete_epoch_read_once new_wholePlan 0 completedRead).1 (by rfl)).1 0 _ rfl (by decide)).2

/-- Whatever is called after an interruption, nothing more is emitted or acknowledged, and
the epoch never completes. -/
theorem interrupted_is_final {epoch : ℕ} {s : SnapshotSession} (hstop : s.queue.interrupted)
    (calls : List SnapshotCall) :
    (s.run epoch calls).trace = s.trace ∧
      (s.run epoch calls).queue.ensureComplete = .error interruptedEpoch := by
  have hsteps := run_steps epoch s calls
  generalize s.run epoch calls = t at hsteps ⊢
  suffices h : t.trace = s.trace ∧ t.queue.interrupted by simp [h, ensureComplete, lock]
  induction hsteps with
  | refl => exact ⟨rfl, hstop⟩
  | tail _ hlast ih =>
    cases hlast with
    | split => exact ih
    | closed _ _ _ hunclosed => simp [close, hunclosed, releaseUnfinished_eq, setLane, ih]
    | opened => simp_all
    | claimed | emitted | finished | committed => simp_all [Live.running ‹_›]

theorem interrupted_is_final_abandoned :
    (((start wholeQueue).run 0 abandonedRead).run 0 completedRead).queue.ensureComplete =
      .error interruptedEpoch :=
  (interrupted_is_final rfl _).2

end SnapshotSession
end Transferia.Postgres
