import Transferia.Postgres.SnapshotSession

/-!
# The invariant of the snapshot queue

The leaves partition the table and are counted exactly (`Partitioned`); every
task and lane agree on who owns what (`Ownership`); the outstanding markers of a
lane are the emitted ones that are not acknowledged yet (`Ledger`); and the
history shows one reader for every published task (`History`).
-/

namespace Transferia.Postgres
open List Option

variable {α : Type*}

theorem countP_modify (p : α → Bool) (f : α → α) {tasks : List α} {id : ℕ}
    {task : α} (htask : tasks[id]? = some task) :
    (tasks.modify id f).countP p + (p task).toNat = tasks.countP p + (p (f task)).toNat := by
  induction tasks generalizing id with
  | nil => simp at htask
  | cons first rest ih =>
    cases id with
    | zero =>
      simp only [getElem?_cons_zero, some.injEq] at htask
      subst htask
      simp only [modify_zero_cons, countP_cons]
      cases p first <;> cases p (f first) <;> simp
    | succ id =>
      have hrest := ih (by simpa using htask)
      simp only [modify_succ_cons, countP_cons]
      omega

theorem countP_modify_of_eq {p : α → Bool} {f : α → α} {tasks : List α} {id : ℕ}
    {task : α} (htask : tasks[id]? = some task) (hsame : p (f task) = p task) :
    (tasks.modify id f).countP p = tasks.countP p := by
  have hcount := countP_modify p f htask
  rw [hsame] at hcount
  omega

theorem countP_mapIdx_of_eq {p : α → Bool} {tasks : List α} {f : ℕ → α → α}
    (hsame : ∀ id task, tasks[id]? = some task → p (f id task) = p task) :
    (tasks.mapIdx f).countP p = tasks.countP p := by
  induction tasks generalizing f with
  | nil => simp
  | cons first rest ih =>
    have hhead := hsame 0 first (by simp)
    have htail :=
      ih (f := fun id => f (id + 1)) fun id task htask => hsame (id + 1) task (by simpa using htask)
    simp only [mapIdx_cons, countP_cons, hhead, htail]

namespace QueueState
variable (queue : QueueState) (id lane : ℕ) (f : Task → Task) (g : LaneState → LaneState)
  {slot : LaneState} {task : Task} {unfinished : List ℕ}

@[grind =]
theorem getElem?_tasks_setTask (i : ℕ) :
    (queue.setTask id f).tasks[i]? = if i = id then queue.tasks[i]?.map f else queue.tasks[i]? := by
  by_cases h : i = id
  · simp [setTask, h]
  have hne : id ≠ i := fun heq => h heq.symm
  simp [setTask, h, hne]

@[grind =]
theorem getElem?_lanes_setLane (l : ℕ) : (queue.setLane lane g).lanes[l]? =
      if l = lane then queue.lanes[l]?.map g else queue.lanes[l]? := by
  by_cases h : l = lane
  · simp [setLane, h]
  have hne : lane ≠ l := fun heq => h heq.symm
  simp [setLane, h, hne]

variable {queue id lane f g} in
theorem lanes_setLane_of (h : queue.lanes[lane]? = some slot) (l : ℕ) :
    (queue.setLane lane g).lanes[l]? = if l = lane then some (g slot) else queue.lanes[l]? := by
  rw [getElem?_lanes_setLane]
  split
  next hl =>
    rw [hl, h]
    rfl
  · rfl

variable {queue id lane f g} in
theorem tasks_setTask_of (h : queue.tasks[id]? = some task) (i : ℕ) :
    (queue.setTask id f).tasks[i]? = if i = id then some (f task) else queue.tasks[i]? := by
  rw [getElem?_tasks_setTask]
  split
  next hi =>
    rw [hi, h]
    rfl
  · rfl

variable {queue lane g} in
theorem lane_cases_of_setLane (h : queue.lanes[lane]? = some slot) {l : ℕ} {state : LaneState}
    (hs : (queue.setLane lane g).lanes[l]? = some state) :
    (l = lane ∧ state = g slot) ∨ (l ≠ lane ∧ queue.lanes[l]? = some state) := by
  rw [lanes_setLane_of h] at hs
  exact (ite_eq_iff.mp hs).imp_left fun ⟨hl, hs⟩ => ⟨hl, (some.inj hs).symm⟩

@[simp, grind =]
theorem lanes_setTask : (queue.setTask id f).lanes = queue.lanes := rfl

@[simp, grind =]
theorem pending_setTask : (queue.setTask id f).pending = queue.pending := rfl

@[simp, grind =]
theorem tasks_setLane : (queue.setLane lane g).tasks = queue.tasks := rfl

@[simp, grind =]
theorem pending_setLane : (queue.setLane lane g).pending = queue.pending := rfl

@[grind =]
theorem mem_insertUnfinished {i : ℕ} :
    i ∈ insertUnfinished id unfinished ↔ i = id ∨ i ∈ unfinished := by
  unfold insertUnfinished
  split
  next hmem =>
    constructor
    · exact .inr
    rintro (rfl | h)
    · exact hmem
    · exact h
  · exact mem_orderedInsert _

theorem nodup_insertUnfinished (h : unfinished.Nodup) : (insertUnfinished id unfinished).Nodup := by
  unfold insertUnfinished
  split
  · exact h
  next hmem => exact (perm_orderedInsert _ id unfinished).nodup_iff.mpr (nodup_cons.mpr ⟨hmem, h⟩)

variable {lease : LaneLease}

def releaseTask (unfinished : List ℕ) (id : ℕ) (task : Task) : Task :=
  if id ∈ unfinished ∧ task.published = false then
    { task with state := .pending, owner := none }
  else task

theorem isPublished_setTask_release :
    (queue.setTask id fun task => { task with state := .pending, owner := none }).isPublished =
      queue.isPublished := by
  funext i
  unfold isPublished
  rw [getElem?_tasks_setTask]
  split
  · cases queue.tasks[i]? with
    | none | some task => rfl
  rfl

theorem releaseUnfinished_eq (unfinished : List ℕ) : queue.releaseUnfinished unfinished =
    (unfinished.filter (!queue.isPublished ·), unfinished.any queue.isPublished,
    { queue with tasks := queue.tasks.mapIdx (releaseTask unfinished) }) := by
  induction unfinished generalizing queue with
  | nil =>
    have hid : queue.tasks.mapIdx (releaseTask []) = queue.tasks := by
      apply ext_getElem?
      intro i
      cases htask : queue.tasks[i]? <;> simp [htask, releaseTask]
    simp [releaseUnfinished, hid]
  | cons id rest ih =>
    by_cases hpub : queue.isPublished id
    · have hsame : queue.tasks.mapIdx
          (releaseTask (id :: rest)) = queue.tasks.mapIdx (releaseTask rest) := by
        apply ext_getElem?
        intro i
        cases htask : queue.tasks[i]? with
        | none => simp [htask]
        | some task => grind [releaseTask, isPublished]
      rw [releaseUnfinished, if_pos hpub, ih, hsame]
      simp [hpub]
    have hsame :
        (queue.setTask id fun task => { task with state := .pending, owner := none }).tasks.mapIdx
        (releaseTask rest) = queue.tasks.mapIdx (releaseTask (id :: rest)) := by
      apply ext_getElem?
      intro i
      rw [getElem?_mapIdx, getElem?_mapIdx, getElem?_tasks_setTask]
      cases htask : queue.tasks[i]? with
      | none => simp
      | some task => grind [releaseTask, isPublished]
    rw [releaseUnfinished, if_neg hpub, ih, hsame]
    rw [isPublished_setTask_release]
    simp [hpub, setTask]

theorem close_queue (hunclosed : lease.closed = false)
    (hslot : queue.lanes[lease.lane]? = some slot) :
    (queue.close lease).2.1 = ({ queue with
          tasks := queue.tasks.mapIdx (releaseTask slot.unfinished), pending := queue.pending ++
            slot.unfinished.filter (!queue.isPublished ·)
          interrupted := queue.interrupted || slot.unfinished.any queue.isPublished }).setLane
        lease.lane fun lane =>
          { lane with
            active := false, activeTask := none
            unfinished := if slot.unfinished.any queue.isPublished then
              lane.unfinished else [] } := by
  simp [close, hunclosed, hslot, releaseUnfinished_eq]

/-- Closing releases exactly the unpublished tasks of the closed attempt and
touches no other lane. -/
structure Closed (lane : ℕ) (slot : LaneState) (after : QueueState) : Prop where
  task_cases : ∀ id task, after.tasks[id]? = some task → (queue.tasks[id]? = some task ∧ (id ∈
    slot.unfinished → task.published)) ∨ (id ∈ slot.unfinished ∧ ∃ before, queue.tasks[id]? = some
    before ∧ before.published = false ∧ task = { before with state := .pending, owner := none })
  task_eq : ∀ id, after.tasks[id]? = queue.tasks[id]?.map (releaseTask slot.unfinished id)
  slot_eq : after.lanes[lane]? = some
    { slot with
      active := false, activeTask := none
      unfinished := if slot.unfinished.any queue.isPublished then
        slot.unfinished else [] }
  lane_eq : ∀ other, other ≠ lane → after.lanes[other]? = queue.lanes[other]?
  interrupted_eq : after.interrupted = (queue.interrupted || slot.unfinished.any queue.isPublished)

theorem closed_close (hunclosed : lease.closed = false)
    (hslot : queue.lanes[lease.lane]? = some slot) :
    Closed queue lease.lane slot (queue.close lease).2.1 := by
  rw [close_queue _ hunclosed hslot]
  refine ⟨?_, ?_, ?_, ?_, rfl⟩
  · intro id task htask
    simp only [tasks_setLane, getElem?_mapIdx] at htask
    obtain ⟨before, hb, rfl⟩ := map_eq_some_iff.mp htask
    unfold releaseTask
    split
    next hr => exact .inr ⟨hr.1, before, hb, hr.2, rfl⟩
    rename_i hkept
    refine .inl ⟨hb, fun hmem => ?_⟩
    simpa [hmem] using hkept
  · intro id
    simp only [tasks_setLane, getElem?_mapIdx]
  · rw [getElem?_lanes_setLane]
    simp [hslot]
  intro other hother
  rw [getElem?_lanes_setLane]
  simp [hother]

variable {queue} in
theorem Closed.lane_cases {lane i : ℕ} {after : QueueState} {state : LaneState}
    (h : queue.Closed lane slot after) (hs : after.lanes[i]? = some state) :
    (i = lane ∧ state = { slot with
        active := false, activeTask := none, unfinished :=
          if slot.unfinished.any queue.isPublished then slot.unfinished else [] }) ∨
    (i ≠ lane ∧ queue.lanes[i]? = some state) := by
  by_cases hi : i = lane
  · rw [hi, h.slot_eq] at hs
    exact .inl ⟨hi, (some.inj hs).symm⟩
  rw [h.lane_eq i hi] at hs
  exact .inr ⟨hi, hs⟩

theorem Closed.published_eq {lane : ℕ} {after : QueueState} (h : queue.Closed lane slot after)
    (htask : queue.tasks[id]? = some task) (hpub : task.published) :
    after.tasks[id]? = some task := by
  rw [h.task_eq, htask, map_some, releaseTask]
  simp [hpub]

theorem getElem?_tasks_splitTask (left right : Chunk) (hid : id < queue.tasks.length) (i : ℕ) :
    (queue.splitTask id left right).tasks[i]? =
      if i = id then queue.tasks[i]?.map fun task => { task with state := .retired }
      else if i = queue.tasks.length then some (Task.fresh left)
        else if i = queue.tasks.length + 1 then some (Task.fresh right) else queue.tasks[i]? := by
  simp only [splitTask]
  grind

end QueueState

section
variable (event : SnapshotEvent) (task : ℕ) (attempt : ℕ × ℕ)

/-- `event` publishes rows, or the end, of `task` for `attempt`. -/
def SnapshotEvent.Publishes : Prop :=
  ∃ marker, event = .emitted marker ∧ marker.record.task = task ∧
    attempt = (marker.lane, marker.attempt)

def SnapshotEvent.Reads : Prop :=
  event = .claimed attempt.1 attempt.2 task ∨ event.Publishes task attempt

end

def SnapshotEvent.isEndOf (task : ℕ) : SnapshotEvent → Bool
  | .emitted marker => marker.record.taskEnd && marker.record.task == task
  | _ => false

def Task.isLeaf (task : Task) : Bool := decide (task.state ≠ .retired)

def QueueState.isRead (queue : QueueState) (id : ℕ) : Bool :=
  queue.tasks[id]?.any fun task => task.state = .readComplete ∨ task.state = .durableComplete

namespace SnapshotSession
open QueueState

/-- The leaves partition the table and are counted exactly. -/
structure Partitioned (queue : QueueState) : Prop where
  covers : ∀ row, queue.tasks.countP (fun task => task.isLeaf && task.chunk.predicate row) = 1
  leaves_eq : queue.leaves = queue.tasks.countP Task.isLeaf
  leaves_le : ∀ limit, queue.maxParts = some limit → queue.leaves ≤ limit
  pending_nodup : queue.pending.Nodup
  pending_iff :
    ∀ id, id ∈ queue.pending ↔ ∃ task : Task, queue.tasks[id]? = some task ∧ task.state = .pending

/-- Tasks, lanes and attempt tokens agree on who owns what. -/
structure Ownership (s : SnapshotSession) : Prop where
  unpublished : ∀ (id : ℕ) (task : Task), s.queue.tasks[id]? = some task →
    (task.state = .pending ∨ task.state = .retired) → task.published = false
  read_published : ∀ (id : ℕ) (task : Task), s.queue.tasks[id]? = some task →
    task.state = .readComplete → task.published
  owned : ∀ (id : ℕ) (task : Task), s.queue.tasks[id]? = some task →
    task.state = .owned → ∃ (lane : ℕ) (slot : LaneState), s.queue.lanes[lane]? = some slot ∧
    task.owner = some (lane, slot.attempt) ∧ ((slot.active ∧ slot.activeTask = some id) ∨
    (slot.active = false ∧ task.published ∧ s.queue.interrupted))
  active_task : ∀ (lane : ℕ) (slot : LaneState) (id : ℕ), s.queue.lanes[lane]? = some slot →
    slot.activeTask = some id → slot.active ∧ ∃ task : Task, s.queue.tasks[id]? = some task ∧
    task.state = .owned ∧ task.owner = some (lane, slot.attempt)
  unfinished_iff : ∀ (lane : ℕ) (slot : LaneState) (id : ℕ), s.queue.lanes[lane]? = some slot →
    slot.active → (id ∈ slot.unfinished ↔ ∃ task : Task, s.queue.tasks[id]? = some task ∧
    task.owner = some (lane, slot.attempt) ∧ (task.state = .owned ∨ task.state = .readComplete))
  unfinished_nodup :
    ∀ (lane : ℕ) (slot : LaneState), s.queue.lanes[lane]? = some slot → slot.unfinished.Nodup
  closed_lane : ∀ (lane : ℕ) (slot : LaneState), s.queue.lanes[lane]? = some slot →
    slot.active = false → s.queue.interrupted = false → slot.unfinished = [] ∧ slot.outstanding = []
  owner_le : ∀ (id : ℕ) (task : Task) (lane attempt : ℕ),
    s.queue.tasks[id]? = some task → task.owner = some (lane, attempt) → ∃ slot :
    LaneState, s.queue.lanes[lane]? = some slot ∧ attempt ≤ slot.attempt
  lease_live : ∀ (handle : ℕ) (lease : LaneLease),
    s.leases[handle]? = some lease → lease.closed = false → ∃ slot :
    LaneState, s.queue.lanes[lease.lane]? = some slot ∧ slot.active ∧ slot.attempt = lease.attempt
  lease_unique : ∀ (handle other : ℕ) (lease twin : LaneLease),
    s.leases[handle]? = some lease → s.leases[other]? = some twin →
    lease.closed = false → twin.closed = false → lease.lane = twin.lane → handle = other

/-- The markers of one lane that a history emits, oldest first. -/
def emittedOn (lane : ℕ) (trace : List SnapshotEvent) : List SnapshotMarker :=
  trace.filterMap fun
    | .emitted marker => if marker.lane = lane then some marker else none
    | _ => none

/-- The markers of one lane that a history acknowledges, oldest first. -/
def acknowledgedOn (lane : ℕ) (trace : List SnapshotEvent) : List SnapshotMarker :=
  trace.filterMap fun
    | .acknowledged marker => if marker.lane = lane then some marker else none
    | _ => none

/-- The outstanding markers of a lane are the emitted ones that are not yet
acknowledged, and each belongs to a task its lane attempt still holds. -/
structure Ledger (epoch : ℕ) (s : SnapshotSession) : Prop where
  outstanding_task : ∀ (lane : ℕ) (slot : LaneState) (record : MarkerRecord),
    s.queue.lanes[lane]? = some slot → record ∈ slot.outstanding → ∃ task :
    Task, s.queue.tasks[record.task]? = some task ∧ task.owner = some (lane, slot.attempt) ∧
    task.published ∧ (task.state = .readComplete ∨ (task.state = .owned ∧ record.taskEnd = false))
  outstanding_order : ∀ (lane : ℕ) (slot : LaneState), s.queue.lanes[lane]? = some slot →
    slot.outstanding.Pairwise fun earlier later => earlier.taskEnd → later.task ≠ earlier.task
  emitted_eq : ∀ (lane : ℕ) (slot : LaneState), s.queue.lanes[lane]? = some slot →
    emittedOn lane s.trace = acknowledgedOn lane s.trace ++ slot.outstanding.map
    fun record => { epoch, lane, attempt := slot.attempt, record }

/-- Every published task has one reader, and one end marker once it is read. -/
structure History (s : SnapshotSession) : Prop where
  published_owner : ∀ marker, .emitted marker ∈ s.trace → ∃ task :
    Task, s.queue.tasks[marker.record.task]? = some task ∧
    task.published ∧ task.owner = some (marker.lane, marker.attempt)
  one_reader : s.trace.Pairwise fun earlier later => ∀ (task : ℕ) (first second : ℕ × ℕ),
    earlier.Publishes task first → later.Reads task second → first = second
  ends : ∀ id, s.trace.countP (SnapshotEvent.isEndOf id) = (s.queue.isRead id).toNat

structure Invariant (epoch : ℕ) (s : SnapshotSession) : Prop where
  partitioned : Partitioned s.queue
  ownership : Ownership s
  ledger : Ledger epoch s
  history : History s

end SnapshotSession
end Transferia.Postgres
