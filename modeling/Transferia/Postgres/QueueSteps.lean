import Transferia.Postgres.QueueInvariant

/-!
# Every step keeps the invariant of the snapshot queue

One lemma for each step and each group of the invariant.  A step touches one
task and one lane, so most facts are carried over from the untouched ones;
the lemmas state the exceptions.
-/

namespace Transferia.Postgres
open Postgres.Task Bool Option LaneLease
namespace SnapshotSession
open List Option QueueState
variable {epoch : ℕ} {s : SnapshotSession} {lease : LaneLease}
  {lane : LaneState} {slot : LaneState} {task : Task} {id : ℕ}
  {rec : MarkerRecord} {later : List MarkerRecord} {handle : ℕ}

/-! ## The leaves -/

variable {rest : List ℕ} {f : Task → Task} {g : LaneState → LaneState} {left right : Chunk}
section
variable (h : Partitioned s.queue)
include h

theorem partitioned_takeTask (hpend : s.queue.pending = id :: rest)
    (htask : s.queue.tasks[id]? = some task) (hs : task.state = .pending) :
    Partitioned (s.queue.takeTask lease id rest) := by
  obtain ⟨hcovers, hleaves, hle, hnodup, hiff⟩ := h
  have hleaf : task.isLeaf := by simp [isLeaf, hs]
  refine ⟨?_, ?_, hle, ?_, ?_⟩
  · intro row
    rw [← hcovers row]
    exact countP_modify_of_eq htask (hleaf ▸ rfl)
  · refine hleaves.trans (Eq.symm ?_)
    exact countP_modify_of_eq htask (hleaf ▸ rfl)
  · rw [hpend] at hnodup
    exact hnodup.of_cons
  intro other
  simp only [takeTask]
  grind

theorem partitioned_setTask {other : ℕ} (htask : s.queue.tasks[id]? = some task)
    (hchunk : (f task).chunk = task.chunk) (hbefore : task.state ≠ .pending ∧ task.state ≠ .retired)
    (hafter : (f task).state ≠ .pending ∧ (f task).state ≠ .retired) :
    Partitioned ((s.queue.setTask id f).setLane other g) := by
  obtain ⟨hcovers, hleaves, hle, hnodup, hiff⟩ := h
  have hleaf : (f task).isLeaf = task.isLeaf := by simp [isLeaf, hbefore.2, hafter.2]
  refine ⟨?_, ?_, hle, hnodup, ?_⟩
  · intro row
    rw [← hcovers row]
    exact countP_modify_of_eq htask (by simp [hleaf, hchunk])
  · exact hleaves.trans (countP_modify_of_eq htask hleaf).symm
  grind

theorem partitioned_splitTask (hmem : id ∈ s.queue.pending) (htask : s.queue.tasks[id]? = some task)
    (hhalves : task.chunk.splitPending = some (left, right))
    (hroom : ∀ limit, s.queue.maxParts = some limit → s.queue.leaves < limit) :
    Partitioned (s.queue.splitTask id left right) := by
  obtain ⟨hcovers, hleaves, _, hnodup, hiff⟩ := h
  have hs : task.state = .pending := by
    obtain ⟨found, hget, hpend⟩ := (hiff id).mp hmem
    cases htask.symm.trans hget
    exact hpend
  have hleaf : task.isLeaf := by simp [isLeaf, hs]
  refine ⟨?_, ?_, hroom, ?_, ?_⟩
  · intro row
    have hcount := countP_modify (fun task => task.isLeaf && task.chunk.predicate row)
      (fun task => { task with state := .retired }) htask
    have hsum := Chunk.splitPending_predicate hhalves row
    rw [hcovers row] at hcount
    simp only [splitTask]
    simp [isLeaf, fresh] at hcount ⊢
    grind
  · have hcount := countP_modify isLeaf (fun task => { task with state := .retired }) htask
    simp only [splitTask]
    simp [isLeaf, fresh] at hleaves hcount hleaf ⊢
    grind
  · simp only [splitTask]
    grind
  simp only [splitTask]
  grind [fresh]

theorem partitioned_commitRecord (htask : s.queue.tasks[rec.task]? = some task)
    (hread : rec.taskEnd → task.state = .readComplete) (other : ℕ) :
    Partitioned (s.queue.commitRecord other rec) := by
  by_cases hend : rec.taskEnd
  · have hs := hread hend
    simp only [commitRecord, hend]
    refine partitioned_setTask (s := { s with queue := s.queue.setLane other _ })
      ?_ htask rfl (by simp [hs]) (by simp)
    exact { h with }
  simp only [commitRecord, hend]
  exact { h with }

theorem partitioned_close (hown : Ownership s) (hl : s.leases[handle]? = some lease)
    (hunclosed : lease.closed = false) : Partitioned (s.queue.close lease).2.1 := by
  obtain ⟨slot, hslot, hact, hattempt⟩ := hown.lease_live handle lease hl hunclosed
  have hheld := fun id => hown.unfinished_iff lease.lane slot id hslot hact
  have hdistinct := hown.unfinished_nodup lease.lane slot hslot
  obtain ⟨hcovers, hleaves, hle, hnodup, hiff⟩ := h
  have hleaf : ∀ id task, s.queue.tasks[id]? = some task →
      (releaseTask slot.unfinished id task).isLeaf = task.isLeaf := by
    intro id task htask
    unfold releaseTask
    split
    next hr =>
      obtain ⟨found, hget, _, hs⟩ := (hheld id).mp hr.1
      cases htask.symm.trans hget
      rcases hs with hs | hs <;> simp [isLeaf, hs]
    · rfl
  have hchunk : ∀ id task, (releaseTask slot.unfinished id task).chunk = task.chunk := by
    intro id task
    unfold releaseTask
    split <;> rfl
  rw [close_queue _ hunclosed hslot]
  refine ⟨?_, ?_, hle, ?_, ?_⟩
  · intro row
    rw [← hcovers row]
    apply countP_mapIdx_of_eq
    intro id task htask
    rw [hleaf id task htask, hchunk]
  · exact hleaves.trans (countP_mapIdx_of_eq hleaf).symm
  · simp only [pending_setLane]
    grind
  intro id
  cases htask : s.queue.tasks[id]? with
  | none => grind
  | some task =>
    unfold releaseTask
    grind [isPublished]

end

/-! ## Who owns what -/

variable {trace : List SnapshotEvent}

/-- The state after a live attempt of lane `other` changed the task `id` and
its own lane, and nothing else. -/
structure OwnUpdate (s t : SnapshotSession) (other id : ℕ)
    (slot slot' : LaneState) (task task' : Task) : Prop where
  slot_eq : s.queue.lanes[other]? = some slot
  task_eq : s.queue.tasks[id]? = some task
  lanes_eq : ∀ i, t.queue.lanes[i]? = if i = other then some slot' else s.queue.lanes[i]?
  tasks_eq : ∀ i, t.queue.tasks[i]? = if i = id then some task' else s.queue.tasks[i]?
  interrupted_eq : t.queue.interrupted = s.queue.interrupted
  leases_eq : t.leases = s.leases
  active : slot.active
  active' : slot'.active
  attempt_eq : slot'.attempt = slot.attempt
  before : task.state = .pending ∨ task.owner = some (other, slot.attempt)
  owner' : task'.owner = some (other, slot.attempt)
  claimed' : task'.state ≠ .pending ∧ task'.state ≠ .retired
  read' : task'.state = .readComplete → task'.published
  reading_self : slot'.activeTask = some id ↔ task'.state = .owned
  reading_other : ∀ i, i ≠ id → (slot'.activeTask = some i ↔ slot.activeTask = some i)
  unfinished_self : id ∈ slot'.unfinished ↔ task'.state = .owned ∨ task'.state = .readComplete
  unfinished_other : ∀ i, i ≠ id → (i ∈ slot'.unfinished ↔ i ∈ slot.unfinished)
  unfinished_nodup : slot'.unfinished.Nodup

namespace OwnUpdate
variable {t : SnapshotSession} {other : ℕ} {slot' : LaneState} {task' : Task}
  (hup : OwnUpdate s t other id slot slot' task task') {i : ℕ} {state : LaneState}
include hup

theorem lane_cases (hs : t.queue.lanes[i]? = some state) :
    (i = other ∧ state = slot') ∨ (i ≠ other ∧ s.queue.lanes[i]? = some state) := by
  rw [hup.lanes_eq] at hs
  exact (ite_eq_iff.mp hs).imp_left fun ⟨hi, hs⟩ => ⟨hi, (some.inj hs).symm⟩

theorem task_cases {found : Task} (hget : t.queue.tasks[i]? = some found) :
    (i = id ∧ found = task') ∨ (i ≠ id ∧ s.queue.tasks[i]? = some found) := by
  rw [hup.tasks_eq] at hget
  exact (ite_eq_iff.mp hget).imp_left fun ⟨hi, hget⟩ => ⟨hi, (some.inj hget).symm⟩

theorem slot'_eq : t.queue.lanes[other]? = some slot' := by rw [hup.lanes_eq, if_pos rfl]

theorem task'_eq : t.queue.tasks[id]? = some task' := by rw [hup.tasks_eq, if_pos rfl]

theorem lane_kept (hi : i ≠ other) : t.queue.lanes[i]? = s.queue.lanes[i]? := by
  rw [hup.lanes_eq, if_neg hi]

theorem task_kept (hi : i ≠ id) : t.queue.tasks[i]? = s.queue.tasks[i]? := by
  rw [hup.tasks_eq, if_neg hi]

theorem not_held (hi : i ≠ other) (hact : task.state = .owned ∨ task.state = .readComplete) :
    task.owner ≠ some (i, state.attempt) := by
  intro howner
  rcases hup.before with hpend | hmine
  · rw [hpend] at hact
    simp at hact
  rw [hmine] at howner
  simp only [some.injEq, Prod.mk.injEq] at howner
  exact hi howner.1.symm

theorem owned (h : Ownership s) {found : Task} (hget : t.queue.tasks[i]? = some found)
    (hs : found.state = .owned) : ∃ lane state, t.queue.lanes[lane]? = some state ∧
    found.owner = some (lane, state.attempt) ∧ ((state.active ∧ state.activeTask = some i) ∨
    (state.active = false ∧ found.published ∧ t.queue.interrupted)) := by
  rcases hup.task_cases hget with ⟨rfl, rfl⟩ | ⟨hi, hbefore⟩
  · refine ⟨other, slot', hup.slot'_eq, ?_, .inl ⟨hup.active', ?_⟩⟩
    · rw [hup.owner', hup.attempt_eq]
    · exact hup.reading_self.mpr hs
  obtain ⟨lane, state, hlane, howner, hwhere⟩ := h.owned i found hbefore hs
  by_cases hsame : lane = other
  · subst hsame
    cases hup.slot_eq.symm.trans hlane
    refine ⟨lane, slot', hup.slot'_eq, by rw [howner, hup.attempt_eq], ?_⟩
    rcases hwhere with ⟨_, hreading⟩ | ⟨hidle, _⟩
    · exact .inl ⟨hup.active', (hup.reading_other i hi).mpr hreading⟩
    · cases hup.active.symm.trans hidle
  refine ⟨lane, state, (hup.lane_kept hsame).trans hlane, howner, ?_⟩
  rw [hup.interrupted_eq]
  exact hwhere

theorem active_task (h : Ownership s) {lane : ℕ} (hlane : t.queue.lanes[lane]? = some state)
    (hreading : state.activeTask = some i) :
    state.active ∧ ∃ found, t.queue.tasks[i]? = some found ∧ found.state = .owned ∧
    found.owner = some (lane, state.attempt) := by
  rcases hup.lane_cases hlane with ⟨rfl, rfl⟩ | ⟨hne, hbefore⟩
  · refine ⟨hup.active', ?_⟩
    rw [hup.attempt_eq]
    by_cases hi : i = id
    · subst hi
      exact ⟨task', hup.task'_eq, hup.reading_self.mp hreading, hup.owner'⟩
    rw [hup.task_kept hi]
    exact (h.active_task lane slot i hup.slot_eq ((hup.reading_other i hi).mp hreading)).2
  obtain ⟨hact, found, hget, hs, howner⟩ := h.active_task lane state i hbefore hreading
  refine ⟨hact, found, ?_, hs, howner⟩
  have hi : i ≠ id := by
    rintro rfl
    cases hup.task_eq.symm.trans hget
    exact hup.not_held hne (.inl hs) howner
  rw [hup.task_kept hi, hget]

theorem unfinished_iff (h : Ownership s) {lane : ℕ} (hlane : t.queue.lanes[lane]? = some state)
    (hact : state.active) :
    i ∈ state.unfinished ↔ ∃ found, t.queue.tasks[i]? = some found ∧
    found.owner = some (lane, state.attempt) ∧
    (found.state = .owned ∨ found.state = .readComplete) := by
  rcases hup.lane_cases hlane with ⟨rfl, rfl⟩ | ⟨hne, hbefore⟩
  · rw [hup.attempt_eq]
    by_cases hi : i = id
    · subst hi
      rw [hup.unfinished_self, hup.task'_eq]
      constructor
      · intro hs
        exact ⟨task', rfl, hup.owner', hs⟩
      rintro ⟨found, ⟨⟩, _, hs⟩
      exact hs
    rw [hup.unfinished_other i hi, hup.task_kept hi]
    exact h.unfinished_iff lane slot i hup.slot_eq hup.active
  rw [h.unfinished_iff lane state i hbefore hact]
  by_cases hi : i = id
  · subst hi
    rw [hup.task_eq, hup.task'_eq]
    constructor
    · rintro ⟨found, ⟨⟩, howner, hs⟩
      exact absurd howner (hup.not_held hne hs)
    rintro ⟨found, ⟨⟩, howner, _⟩
    rw [hup.owner'] at howner
    simp only [some.injEq, Prod.mk.injEq] at howner
    exact absurd howner.1.symm hne
  rw [hup.task_kept hi]

theorem ownership (h : Ownership s) : Ownership t := by
  refine ⟨?_, ?_, fun i found => hup.owned h, fun lane state i => hup.active_task h,
    fun lane state i => hup.unfinished_iff h, ?_, ?_, ?_, ?_, ?_⟩
  · intro i found hget hfree
    rcases hup.task_cases hget with ⟨_, rfl⟩ | ⟨_, hb⟩
    · rcases hfree with hfree | hfree
      · exact absurd hfree hup.claimed'.1
      · exact absurd hfree hup.claimed'.2
    exact h.unpublished i found hb hfree
  · intro i found hget hs
    rcases hup.task_cases hget with ⟨_, rfl⟩ | ⟨_, hb⟩
    · exact hup.read' hs
    · exact h.read_published i found hb hs
  · intro lane state hlane
    rcases hup.lane_cases hlane with ⟨_, rfl⟩ | ⟨_, hb⟩
    · exact hup.unfinished_nodup
    · exact h.unfinished_nodup lane state hb
  · intro lane state hlane hidle hrun
    rcases hup.lane_cases hlane with ⟨_, rfl⟩ | ⟨_, hb⟩
    · cases hup.active'.symm.trans hidle
    rw [hup.interrupted_eq] at hrun
    exact h.closed_lane lane state hb hidle hrun
  · intro i found lane attempt hget howner
    have hbound : ∃ state, s.queue.lanes[lane]? = some state ∧ attempt ≤ state.attempt := by
      rcases hup.task_cases hget with ⟨_, rfl⟩ | ⟨_, hb⟩
      · cases hup.owner'.symm.trans howner
        exact ⟨slot, hup.slot_eq, le_refl _⟩
      exact h.owner_le i found lane attempt hb howner
    obtain ⟨state, hlane, hle⟩ := hbound
    by_cases hsame : lane = other
    · subst hsame
      cases hup.slot_eq.symm.trans hlane
      exact ⟨slot', hup.slot'_eq, by rw [hup.attempt_eq]; exact hle⟩
    exact ⟨state, (hup.lane_kept hsame).trans hlane, hle⟩
  · intro handle lease hl hunclosed
    rw [hup.leases_eq] at hl
    obtain ⟨state, hlane, hact, ha⟩ := h.lease_live handle lease hl hunclosed
    by_cases hsame : lease.lane = other
    · rw [hsame, hup.slot_eq] at hlane
      cases hlane
      exact ⟨slot', by rw [hsame]; exact hup.slot'_eq, hup.active', hup.attempt_eq.trans ha⟩
    exact ⟨state, (hup.lane_kept hsame).trans hlane, hact, ha⟩
  intro handle twinHandle lease twin hl htwin
  rw [hup.leases_eq] at hl htwin
  exact h.lease_unique handle twinHandle lease twin hl htwin

end OwnUpdate
section
variable (h : Ownership s) (hlive : Live s.queue lease lane)
  (htask : s.queue.tasks[id]? = some task)
include h hlive htask

theorem reading_of_owned (hs : task.state = .owned)
    (howner : task.owner = some (lease.lane, lease.attempt)) : lane.activeTask = some id := by
  obtain ⟨other, found, hget, hsame, hwhere⟩ := h.owned id task htask hs
  rw [howner] at hsame
  simp only [some.injEq, Prod.mk.injEq] at hsame
  rw [← hsame.1, hlive.slot] at hget
  cases hget
  rcases hwhere with ⟨_, hreading⟩ | ⟨hidle, _⟩
  · exact hreading
  · cases hlive.active.symm.trans hidle

theorem unfinished_of_held (hs : task.state = .owned ∨ task.state = .readComplete)
    (howner : task.owner = some (lease.lane, lease.attempt)) : id ∈ lane.unfinished := by
  refine (h.unfinished_iff lease.lane lane id hlive.slot hlive.active).mpr ⟨task, htask, ?_, hs⟩
  rw [hlive.attempt, howner]

theorem not_reading (hs : task.state ≠ .owned) : lane.activeTask ≠ some id := by
  intro hreading
  obtain ⟨_, found, hget, howned, _⟩ := h.active_task lease.lane lane id hlive.slot hreading
  cases htask.symm.trans hget
  exact hs howned

end

theorem lease_append {leases : List LaneLease} {token lease : LaneLease}
    {handle : ℕ} (h : (leases ++ [token])[handle]? = some lease) :
    leases[handle]? = some lease ∨ (handle = leases.length ∧ lease = token) := by
  rw [getElem?_append] at h
  split at h
  · exact .inl h
  have htoken : lease = token := mem_singleton.mp (mem_of_getElem? h)
  have hlast : handle - leases.length < 1 := by simpa using (List.getElem?_eq_some_iff.mp h).1
  exact .inr ⟨by omega, htoken⟩

theorem ownership_startAttempt {other : ℕ} (h : Ownership s)
    (hslot : s.queue.lanes[other]? = some slot)
    (hidle : slot.active = false) (hrun : s.queue.interrupted = false) :
    Ownership
      { s with
        queue := s.queue.startAttempt other (slot.attempt + 1), leases := s.leases ++
          [{ lane := other, attempt := slot.attempt + 1, closed := false }] } := by
  have hempty := h.closed_lane other slot hslot hidle hrun
  have hnotReading : slot.activeTask = none := by
    by_contra hsome
    obtain ⟨id, hid⟩ := ne_none_iff_exists'.mp hsome
    have hact := (h.active_task other slot id hslot hid).1
    cases hidle.symm.trans hact
  have hlanes : ∀ i, (s.queue.startAttempt other (slot.attempt + 1)).lanes[i]? =
      if i = other then some _ else s.queue.lanes[i]? := lanes_setLane_of hslot
  have hnow := (hlanes other).trans (if_pos rfl)
  have hkept := fun i (hi : i ≠ other) => (hlanes i).trans (if_neg hi)
  have hstopped : ∀ state, s.queue.lanes[other]? = some state → state.active ≠ true := by
    intro state hs hact
    cases hslot.symm.trans hs
    cases hidle.symm.trans hact
  have hfresh : ∀ (old : ℕ) (token : LaneLease), s.leases[old]? = some token → token.closed = false
      →
      token.lane ≠ other := by
    intro old token hold hopen htoken
    obtain ⟨state, hs, hact, _⟩ := h.lease_live old token hold hopen
    rw [htoken] at hs
    exact hstopped state hs hact
  refine ⟨h.unpublished, h.read_published, ?_, ?_, ?_, ?_, ?_, ?_, ?_, ?_⟩
  · intro id task htask hs
    obtain ⟨lane, state, hlane, howner, hwhere⟩ := h.owned id task htask hs
    have hne : lane ≠ other := by
      rintro rfl
      rcases hwhere with ⟨hact, _⟩ | ⟨_, _, hinterrupted⟩
      · exact hstopped state hlane hact
      · cases hrun.symm.trans hinterrupted
    exact ⟨lane, state, (hkept lane hne).trans hlane, howner, hwhere⟩
  · intro lane state id hlane hreading
    rcases lane_cases_of_setLane hslot hlane with ⟨rfl, rfl⟩ | ⟨_, hb⟩
    · simp [hnotReading] at hreading
    · exact h.active_task lane state id hb hreading
  · intro lane state id hlane hact
    rcases lane_cases_of_setLane hslot hlane with ⟨rfl, rfl⟩ | ⟨_, hb⟩
    · constructor
      · intro hmem
        rw [hempty.1] at hmem
        cases hmem
      rintro ⟨task, htask, howner, _⟩
      obtain ⟨found, hget, hle⟩ := h.owner_le id task lane _ htask howner
      cases hslot.symm.trans hget
      simp only at hle
      omega
    exact h.unfinished_iff lane state id hb hact
  · intro lane state hlane
    rcases lane_cases_of_setLane hslot hlane with ⟨rfl, rfl⟩ | ⟨_, hb⟩
    · exact h.unfinished_nodup lane slot hslot
    · exact h.unfinished_nodup lane state hb
  · intro lane state hlane hnotActive hstill
    rcases lane_cases_of_setLane hslot hlane with ⟨rfl, rfl⟩ | ⟨_, hb⟩
    · cases hnotActive
    · exact h.closed_lane lane state hb hnotActive hstill
  · intro id task lane attempt htask howner
    obtain ⟨state, hs, hle⟩ := h.owner_le id task lane attempt htask howner
    by_cases hsame : lane = other
    · subst hsame
      cases hslot.symm.trans hs
      exact ⟨_, hnow, Nat.le_succ_of_le hle⟩
    exact ⟨state, (hkept lane hsame).trans hs, hle⟩
  · intro handle lease hl hunclosed
    rcases lease_append hl with hold | ⟨_, rfl⟩
    · obtain ⟨state, hs, hact, ha⟩ := h.lease_live handle lease hold hunclosed
      exact ⟨state, (hkept _ (hfresh handle lease hold hunclosed)).trans hs, hact, ha⟩
    exact ⟨_, hnow, rfl, rfl⟩
  intro handle twinHandle lease twin hl htwin hunclosed htwinUnclosed hsame
  rcases lease_append hl with hold | ⟨rfl, rfl⟩
  · rcases lease_append htwin with htwinOld | ⟨rfl, rfl⟩
    · exact h.lease_unique handle twinHandle lease twin hold htwinOld hunclosed htwinUnclosed hsame
    · exact absurd hsame (hfresh handle lease hold hunclosed)
  rcases lease_append htwin with htwinOld | ⟨rfl, rfl⟩
  · exact absurd hsame.symm (hfresh twinHandle twin htwinOld htwinUnclosed)
  · rfl

theorem ownership_takeTask (h : Ownership s) (hlive : Live s.queue lease lane)
    (hidle : lane.activeTask = none) (htask : s.queue.tasks[id]? = some task)
    (hs : task.state = .pending) :
    Ownership { s with queue := s.queue.takeTask lease id rest, trace } := by
  refine OwnUpdate.ownership ⟨hlive.slot, htask, lanes_setLane_of hlive.slot,
    tasks_setTask_of htask, rfl, rfl, hlive.active, hlive.active, rfl, .inl hs, ?_, by simp,
    by simp, by simp, ?_, ?_, ?_, ?_⟩ h
  · rw [hlive.attempt]
  · intro i hi
    rw [hidle]
    simp [Ne.symm hi]
  · simp [mem_insertUnfinished]
  · intro i hi
    simp [mem_insertUnfinished, hi]
  exact nodup_insertUnfinished id (h.unfinished_nodup lease.lane lane hlive.slot)

section
variable (h : Ownership s) (hlive : Live s.queue lease lane)
  (htask : s.queue.tasks[id]? = some task) (hs : task.state = .owned)
  (howner : task.owner = some (lease.lane, lease.attempt))
include h hlive htask hs howner

theorem ownership_publishRows {rows : ℕ} : Ownership { s with
        queue := s.queue.publishRows lease.lane id rows rec
        trace } := by
  have hreading := reading_of_owned h hlive htask hs howner
  have hheld := unfinished_of_held h hlive htask (.inl hs) howner
  rw [← hlive.attempt] at howner
  exact OwnUpdate.ownership ⟨hlive.slot, htask, lanes_setLane_of hlive.slot, tasks_setTask_of htask,
    rfl, rfl, hlive.active, hlive.active, rfl, .inr howner, howner, by simp [hs], by simp,
    by simp [hreading, hs], by simp, by simp [hheld, hs], by simp,
    h.unfinished_nodup lease.lane lane hlive.slot⟩ h

theorem ownership_publishEnd :
    Ownership { s with queue := s.queue.publishEnd lease.lane id rec, trace } := by
  have hreading := reading_of_owned h hlive htask hs howner
  have hheld := unfinished_of_held h hlive htask (.inl hs) howner
  rw [← hlive.attempt] at howner
  refine OwnUpdate.ownership ⟨hlive.slot, htask, lanes_setLane_of hlive.slot,
    tasks_setTask_of htask, rfl, rfl, hlive.active, hlive.active, rfl, .inr howner, howner, by simp,
    by simp, by simp, ?_, by simp [hheld], by simp, h.unfinished_nodup lease.lane lane hlive.slot⟩ h
  intro i hi
  rw [hreading]
  simp [Ne.symm hi]

end

theorem ownership_commitRecord (h : Ownership s) (hledger : Ledger epoch s)
    (hlive : Live s.queue lease lane) (houtstanding : lane.outstanding = rec :: later) :
    Ownership { s with queue := s.queue.commitRecord lease.lane rec, trace } := by
  obtain ⟨task, htask, howner, hp, hwhere⟩ :=
    hledger.outstanding_task lease.lane lane rec hlive.slot (by simp [houtstanding])
  have hd := h.unfinished_nodup lease.lane lane hlive.slot
  have hmine : task.owner = some (lease.lane, lease.attempt) := by rw [howner, hlive.attempt]
  by_cases hend : rec.taskEnd
  · have hread : task.state = .readComplete := by
      rcases hwhere with hread | ⟨_, hopen⟩
      · exact hread
      · cases hend.symm.trans hopen
    have hnot := not_reading h hlive htask (by simp [hread])
    have hup : OwnUpdate s
        { s with queue := s.queue.commitRecord lease.lane rec, trace }
        lease.lane rec.task lane
        { lane with
          outstanding := lane.outstanding.tail, unfinished := lane.unfinished.erase rec.task }
        task { task with state := .durableComplete } := by
      refine ⟨hlive.slot, htask, ?_, ?_, ?_, rfl, hlive.active, hlive.active,
        rfl, .inr howner, howner, by simp, by simp, by simp [hnot], by simp,
        by simp [hd.mem_erase_iff], ?_, hd.erase _⟩
      · intro i
        simp only [commitRecord, hend, if_true, getElem?_lanes_setLane, lanes_setTask]
        split
        next hi =>
          rw [hi, hlive.slot]
          rfl
        · rfl
      · simp only [commitRecord, hend]
        exact tasks_setTask_of htask
      · simp [commitRecord, hend, setLane, setTask]
      intro i hi
      simp [hi]
    exact hup.ownership h
  have hs : task.state = .owned ∨ task.state = .readComplete := by
    rcases hwhere with hread | ⟨hopen, _⟩
    · exact .inr hread
    · exact .inl hopen
  have hheld := unfinished_of_held h hlive htask hs hmine
  have hup : OwnUpdate s { s with queue := s.queue.commitRecord lease.lane rec, trace }
      lease.lane rec.task lane { lane with outstanding := lane.outstanding.tail } task task := by
    refine ⟨hlive.slot, htask, ?_, ?_, ?_, rfl, hlive.active, hlive.active,
      rfl, .inr howner, howner, ?_, fun _ => hp, ?_, by simp,
      by simp [hheld, hs], by simp, hd⟩
    · simp only [commitRecord, hend]
      exact lanes_setLane_of hlive.slot
    · intro i
      simp only [commitRecord, hend, false_eq_true, if_false, tasks_setLane]
      split
      next hi => rw [hi, htask]
      · rfl
    · simp [commitRecord, hend, setLane]
    · rcases hs with hs | hs <;> simp [hs]
    constructor
    · intro hreading
      by_contra hnot
      exact not_reading h hlive htask hnot hreading
    intro howned
    have hreading := reading_of_owned h hlive htask howned hmine
    exact hreading
  exact hup.ownership h

theorem ownership_splitTask (h : Ownership s) (htask : s.queue.tasks[id]? = some task)
    (hs : task.state = .pending) :
    Ownership { s with queue := s.queue.splitTask id left right } := by
  have hid : id < s.queue.tasks.length := (List.getElem?_eq_some_iff.mp htask).1
  have hlook := getElem?_tasks_splitTask s.queue id left right hid
  have hcases : ∀ i found, (s.queue.splitTask id left right).tasks[i]? = some found →
      (s.queue.tasks[i]? = some found ∧ i ≠ id) ∨
      (found.state = .retired ∧ found.published = task.published ∧ found.owner = task.owner ∧
      i = id) ∨ (found.state = .pending ∧ found.published = false ∧ found.owner = none) := by
    grind [fresh]
  have hkept : ∀ (i : ℕ) (found : Task), s.queue.tasks[i]? = some found → found.state ≠ .pending →
      (s.queue.splitTask id left right).tasks[i]? = some found := by
    grind
  refine ⟨?_, ?_, ?_, ?_, ?_, h.unfinished_nodup, h.closed_lane, ?_, h.lease_live, h.lease_unique⟩
  · intro i found hget hfree
    rcases hcases i found hget with ⟨hb, _⟩ | ⟨_, hsame, _⟩ | ⟨_, hnew, _⟩
    · exact h.unpublished i found hb hfree
    · rw [hsame]
      exact h.unpublished id task htask (.inl hs)
    exact hnew
  · intro i found hget hread
    rcases hcases i found hget with ⟨hb, _⟩ | ⟨hreturned, _⟩ | ⟨hnew, _⟩
    · exact h.read_published i found hb hread
    · cases hreturned.symm.trans hread
    · cases hnew.symm.trans hread
  · intro i found hget howned
    rcases hcases i found hget with ⟨hb, _⟩ | ⟨hreturned, _⟩ | ⟨hnew, _⟩
    · exact h.owned i found hb howned
    · cases hreturned.symm.trans howned
    · cases hnew.symm.trans howned
  · intro lane state i hlane hreading
    obtain ⟨hact, found, hget, howned, howner⟩ := h.active_task lane state i hlane hreading
    exact ⟨hact, found, hkept i found hget (by simp [howned]), howned, howner⟩
  · intro lane state i hlane hact
    rw [h.unfinished_iff lane state i hlane hact]
    constructor
    · rintro ⟨found, hget, howner, hheld⟩
      refine ⟨found, hkept i found hget ?_, howner, hheld⟩
      rcases hheld with hheld | hheld <;> simp [hheld]
    rintro ⟨found, hget, howner, hheld⟩
    rcases hcases i found hget with ⟨hb, _⟩ | ⟨hreturned, _⟩ | ⟨hnew, _⟩
    · exact ⟨found, hb, howner, hheld⟩
    · simp [hreturned] at hheld
    · simp [hnew] at hheld
  intro i found lane attempt hget howner
  rcases hcases i found hget with ⟨hb, _⟩ | ⟨_, _, hsame, _⟩ | ⟨_, _, hnone⟩
  · exact h.owner_le i found lane attempt hb howner
  · rw [hsame] at howner
    exact h.owner_le id task lane attempt htask howner
  · cases hnone.symm.trans howner

theorem outstanding_nil_of_unambiguous (h : Ownership s) (hledger : Ledger epoch s) {other : ℕ}
    (hslot : s.queue.lanes[other]? = some slot) (hact : slot.active)
    (hclean : slot.unfinished.any s.queue.isPublished = false) : slot.outstanding = [] := by
  by_contra hne
  obtain ⟨rec, hrec⟩ := exists_mem_of_ne_nil _ hne
  obtain ⟨task, htask, howner, hp, hs⟩ := hledger.outstanding_task other slot rec hslot hrec
  have hmem : rec.task ∈ slot.unfinished := by
    refine (h.unfinished_iff other slot rec.task hslot hact).mpr ⟨task, htask, howner, ?_⟩
    rcases hs with hread | hopen
    · exact .inr hread
    · exact .inl hopen.1
  have hambiguous : slot.unfinished.any s.queue.isPublished :=
    any_eq_true.mpr ⟨rec.task, hmem, by simp [isPublished, htask, hp]⟩
  cases hclean.symm.trans hambiguous

theorem ownership_close (h : Ownership s) (hledger : Ledger epoch s)
    (hl : s.leases[handle]? = some lease) (hunclosed : lease.closed = false) :
    Ownership
      { s with
        queue := (s.queue.close lease).2.1
        leases := s.leases.set handle { lease with closed := true } } := by
  obtain ⟨slot, hslot, hworking, hattempt⟩ := h.lease_live handle lease hl hunclosed
  have hdrained := outstanding_nil_of_unambiguous h hledger hslot hworking
  have hc := closed_close s.queue hunclosed hslot
  have hforeign :
      ∀ (i lane attempt : ℕ) (found : Task), s.queue.tasks[i]? = some found → found.owner = some
      (lane, attempt) → lane ≠ lease.lane → (s.queue.close lease).2.1.tasks[i]? = some found := by
    intro i lane attempt found hget howner hne
    have hnot : i ∉ slot.unfinished := by
      intro hmem
      obtain ⟨held, hheld, hheldOwner, _⟩ := (h.unfinished_iff lease.lane slot i hslot hworking).mp
          hmem
      cases hget.symm.trans hheld
      rw [howner] at hheldOwner
      simp only [some.injEq, Prod.mk.injEq] at hheldOwner
      exact hne hheldOwner.1
    rw [hc.task_eq, hget, map_some, releaseTask]
    simp [hnot]
  have hold : ∀ i found, (s.leases.set handle { lease with closed := true })[i]? = some found →
      found.closed = false → i ≠ handle ∧ s.leases[i]? = some found := by
    intro i found hget hopen
    by_cases hi : i = handle
    · subst hi
      cases (getElem?_set_self (List.getElem?_eq_some_iff.mp hl).1).symm.trans hget
      cases hopen
    rw [getElem?_set_ne (Ne.symm hi)] at hget
    exact ⟨hi, hget⟩
  refine ⟨?_, ?_, ?_, ?_, ?_, ?_, ?_, ?_, ?_, ?_⟩
  · intro i found hget hfree
    rcases hc.task_cases i found hget with ⟨hb, _⟩ | ⟨_, before, _, hopen, rfl⟩
    · exact h.unpublished i found hb hfree
    · exact hopen
  · intro i found hget hread
    rcases hc.task_cases i found hget with ⟨hb, _⟩ | ⟨_, before, _, _, rfl⟩
    · exact h.read_published i found hb hread
    · cases hread
  · intro i found hget howned
    rcases hc.task_cases i found hget with ⟨hb, hp⟩ | ⟨_, _, _, _, rfl⟩
    · obtain ⟨other, state, hs, howner, hwhere⟩ := h.owned i found hb howned
      by_cases hother : other = lease.lane
      · subst hother
        cases hslot.symm.trans hs
        have hmem : i ∈ slot.unfinished :=
          (h.unfinished_iff lease.lane slot i hslot hworking).mpr ⟨found, hb, howner, .inl howned⟩
        have hambiguous : slot.unfinished.any s.queue.isPublished :=
          any_eq_true.mpr ⟨i, hmem, by simp [isPublished, hb, hp hmem]⟩
        exact ⟨lease.lane, _, hc.slot_eq, howner,
          .inr ⟨rfl, hp hmem, by simp [hc.interrupted_eq, hambiguous]⟩⟩
      refine ⟨other, state, (hc.lane_eq other hother).trans hs, howner, ?_⟩
      rcases hwhere with hwhere | ⟨hidle, hpub, hinterrupted⟩
      · exact .inl hwhere
      · exact .inr ⟨hidle, hpub, by simp [hc.interrupted_eq, hinterrupted]⟩
    · cases howned
  · intro lane state i hlane hreading
    rcases hc.lane_cases hlane with ⟨_, rfl⟩ | ⟨hne, hb⟩
    · cases hreading
    obtain ⟨hact, found, hget, howned, howner⟩ := h.active_task lane state i hb hreading
    exact ⟨hact, found, hforeign i lane _ found hget howner hne, howned, howner⟩
  · intro lane state i hlane hact
    rcases hc.lane_cases hlane with ⟨_, rfl⟩ | ⟨hne, hb⟩
    · cases hact
    rw [h.unfinished_iff lane state i hb hact]
    constructor
    · rintro ⟨found, hget, howner, hheld⟩
      exact ⟨found, hforeign i lane _ found hget howner hne, howner, hheld⟩
    rintro ⟨found, hget, howner, hheld⟩
    rcases hc.task_cases i found hget with ⟨hsame, _⟩ | ⟨_, _, _, _, rfl⟩
    · exact ⟨found, hsame, howner, hheld⟩
    · cases howner
  · intro lane state hlane
    rcases hc.lane_cases hlane with ⟨_, rfl⟩ | ⟨_, hb⟩
    · dsimp only
      split
      · exact h.unfinished_nodup lease.lane slot hslot
      · exact nodup_nil
    exact h.unfinished_nodup lane state hb
  · intro lane state hlane hidle hrun
    rw [hc.interrupted_eq] at hrun
    simp only [or_eq_false_iff] at hrun
    rcases hc.lane_cases hlane with ⟨_, rfl⟩ | ⟨_, hb⟩
    · exact ⟨by simp [hrun.2], hdrained hrun.2⟩
    exact h.closed_lane lane state hb hidle hrun.1
  · intro i found other attempt hget howner
    rcases hc.task_cases i found hget with ⟨hb, _⟩ | ⟨_, _, _, _, rfl⟩
    · obtain ⟨state, hs, hbound⟩ := h.owner_le i found other attempt hb howner
      by_cases hother : other = lease.lane
      · subst hother
        cases hslot.symm.trans hs
        exact ⟨_, hc.slot_eq, hbound⟩
      exact ⟨state, (hc.lane_eq other hother).trans hs, hbound⟩
    · cases howner
  · intro other token ht hopen
    obtain ⟨hsame, hb⟩ := hold other token ht hopen
    obtain ⟨state, hs, hact, hnumber⟩ := h.lease_live other token hb hopen
    have hne : token.lane ≠ lease.lane :=
      fun hlane => hsame (h.lease_unique other handle token lease hb hl hopen hunclosed hlane)
    exact ⟨state, (hc.lane_eq _ hne).trans hs, hact, hnumber⟩
  intro first second token twin ht htwin hopen htwinOpen hlane
  exact h.lease_unique first second token twin (hold _ _ ht hopen).2
    (hold _ _ htwin htwinOpen).2 hopen htwinOpen hlane

/-! ## The ledger of a lane -/

@[simp]
theorem emittedOn_append (other : ℕ) (trace more : List SnapshotEvent) :
    emittedOn other (trace ++ more) = emittedOn other trace ++ emittedOn other more :=
  filterMap_append

theorem ledger_startAttempt {other : ℕ} {leases : List LaneLease}
    (h : Ledger epoch s) (hown : Ownership s) (hslot : s.queue.lanes[other]? = some slot)
    (hidle : slot.active = false) (hrun : s.queue.interrupted = false) :
    Ledger epoch { s with queue := s.queue.startAttempt other (slot.attempt + 1), leases } := by
  have hempty := hown.closed_lane other slot hslot hidle hrun
  obtain ⟨htasks, hord, he⟩ := h
  unfold startAttempt
  refine ⟨?_, ?_, ?_⟩
  · grind
  · grind
  intro found state hs
  rcases lane_cases_of_setLane hslot hs with ⟨rfl, rfl⟩ | ⟨_, hs⟩
  · simpa [hempty.2] using he found slot hslot
  exact he found state hs

theorem ledger_takeTask (h : Ledger epoch s)
    (htask : s.queue.tasks[id]? = some task) (hs : task.state = .pending) :
    Ledger epoch
      { s with
        queue := s.queue.takeTask lease id rest
        trace := s.trace ++ [.claimed lease.lane lease.attempt id] } := by
  obtain ⟨htasks, hord, he⟩ := h
  unfold takeTask
  refine ⟨?_, ?_, ?_⟩
  · grind
  · grind
  intro found state hget
  have hbefore := he found
  simp only [emittedOn, acknowledgedOn] at hbefore ⊢
  grind

theorem ledger_publish (h : Ledger epoch s) (hlive : Live s.queue lease lane)
    (htask : s.queue.tasks[rec.task]? = some task) (hs : task.state = .owned)
    (howner : task.owner = some (lease.lane, lease.attempt))
    (hf : (f task).owner = task.owner ∧ (f task).published ∧
      (f task).state = if rec.taskEnd then .readComplete else .owned)
    (hg : (g lane).outstanding = lane.outstanding ++ [rec] ∧ (g lane).attempt = lane.attempt) :
    Ledger epoch
      { s with
        queue := (s.queue.setTask rec.task f).setLane lease.lane g
        trace := s.trace ++ [.emitted (lease.marker epoch rec)] } := by
  obtain ⟨ht, hord, he⟩ := h
  obtain ⟨hrun, hunclosed, hslot, hworking, ha⟩ := hlive
  have hkept : ∀ (found : MarkerRecord) (held : Task), s.queue.tasks[found.task]? = some held →
      held.published → (held.state = .readComplete ∨ (held.state = .owned ∧ found.taskEnd = false))
      → ∃ after : Task, (s.queue.setTask rec.task f).tasks[found.task]? = some after ∧
      after.owner = held.owner ∧ after.published ∧
      (after.state = .readComplete ∨ (after.state = .owned ∧ found.taskEnd = false)) := by
    intro found held hheld hp hwhere
    rw [getElem?_tasks_setTask]
    by_cases hsame : found.task = rec.task
    · rw [hsame, htask] at hheld
      cases hheld
      refine ⟨f task, by simp [hsame, htask], hf.1, hf.2.1, ?_⟩
      grind
    exact ⟨held, by simp [hsame, hheld], rfl, hp, hwhere⟩
  refine ⟨?_, ?_, ?_⟩
  · intro other state found hother hget
    rcases lane_cases_of_setLane hslot hother with ⟨rfl, rfl⟩ | ⟨_, hother⟩
    · rw [hg.1, mem_append, mem_singleton] at hget
      rw [hg.2]
      rcases hget with hold | rfl
      · obtain ⟨held, hheld, hheldOwner, hp, hwhere⟩ := ht lease.lane lane found hslot hold
        rw [← hheldOwner]
        exact hkept found held hheld hp hwhere
      refine ⟨f task, ?_, ?_, hf.2.1, ?_⟩
      · simp [getElem?_tasks_setTask, htask]
      · rw [hf.1, howner, ha]
      rw [hf.2.2]
      cases found.taskEnd <;> simp
    obtain ⟨held, hheld, hheldOwner, hp, hwhere⟩ := ht other state found hother hget
    rw [← hheldOwner]
    exact hkept found held hheld hp hwhere
  · grind
  intro other state hother
  rcases lane_cases_of_setLane hslot hother with ⟨rfl, rfl⟩ | ⟨hsame, hother⟩
  · simp only [emittedOn_append, he lease.lane lane hslot]
    simp [emittedOn, acknowledgedOn, hg, marker, ha]
  have hne : lease.lane ≠ other := fun heq => hsame heq.symm
  simp only [emittedOn_append, he other state hother]
  simp [emittedOn, acknowledgedOn, marker, hne]

theorem ledger_splitTask (h : Ledger epoch s) (htask : s.queue.tasks[id]? = some task)
    (hs : task.state = .pending) :
    Ledger epoch { s with queue := s.queue.splitTask id left right } := by
  have hid : id < s.queue.tasks.length := (List.getElem?_eq_some_iff.mp htask).1
  refine ⟨?_, h.outstanding_order, h.emitted_eq⟩
  intro other state found hother hget
  obtain ⟨held, hheld, howner, hp, hwhere⟩ := h.outstanding_task other state found hother hget
  rw [getElem?_tasks_splitTask _ _ _ _ hid]
  grind

theorem lane_commitRecord (hslot : s.queue.lanes[lease.lane]? = some lane)
    (houtstanding : lane.outstanding = rec :: later) {other : ℕ} {state : LaneState}
    (hother : (s.queue.commitRecord lease.lane rec).lanes[other]? = some state) :
    (other = lease.lane ∧ state.outstanding = later ∧ state.attempt = lane.attempt) ∨
    (other ≠ lease.lane ∧ s.queue.lanes[other]? = some state) := by
  unfold commitRecord at hother
  grind

theorem ledger_commitRecord (h : Ledger epoch s) (hlive : Live s.queue lease lane)
    (houtstanding : lane.outstanding = rec :: later) :
    Ledger epoch
      { s with
        queue := s.queue.commitRecord lease.lane rec, trace := s.trace ++
          [.acknowledged (lease.marker epoch rec)] } := by
  obtain ⟨ht, hord, he⟩ := h
  obtain ⟨hrun, hunclosed, hslot, hworking, ha⟩ := hlive
  have hlanes := @lane_commitRecord s lease lane rec later hslot houtstanding
  have hlaneOrder := hord lease.lane lane hslot
  rw [houtstanding, pairwise_cons] at hlaneOrder
  have hkept : ∀ other : ℕ, (rec.taskEnd → other ≠ rec.task) →
      (s.queue.commitRecord lease.lane rec).tasks[other]? = s.queue.tasks[other]? := by
    intro other hother
    unfold commitRecord
    grind
  have hheld := ht lease.lane lane rec hslot (by simp [houtstanding])
  refine ⟨?_, ?_, ?_⟩
  · intro other state found hother hget
    rcases hlanes hother with ⟨rfl, hrest, hsame⟩ | ⟨hne, hb⟩
    · rw [hrest] at hget
      have hb := ht lease.lane lane found hslot (by simp [houtstanding, hget])
      rw [hsame, hkept found.task fun hend => hlaneOrder.1 found hget hend]
      exact hb
    have hb := ht other state found hb hget
    rw [hkept found.task fun _ => by grind]
    exact hb
  · intro other state hother
    rcases hlanes hother with ⟨rfl, hrest, _⟩ | ⟨_, hb⟩
    · rw [hrest]
      exact hlaneOrder.2
    exact hord other state hb
  intro other state hother
  rcases hlanes hother with ⟨rfl, hrest, hsame⟩ | ⟨hne, hb⟩
  · simp only [emittedOn_append, he lease.lane lane hslot]
    simp [emittedOn, acknowledgedOn, marker, ha, houtstanding, hrest, hsame]
  have hne' : lease.lane ≠ other := fun heq => hne heq.symm
  simp only [emittedOn_append, he other state hb]
  simp [emittedOn, acknowledgedOn, marker, hne']

theorem ledger_close (h : Ledger epoch s) (hown : Ownership s)
    (hl : s.leases[handle]? = some lease) (hunclosed : lease.closed = false) :
    Ledger epoch
      { s with
        queue := (s.queue.close lease).2.1
        leases := s.leases.set handle { lease with closed := true } } := by
  obtain ⟨slot, hslot, _, _⟩ := hown.lease_live handle lease hl hunclosed
  have hc := closed_close s.queue hunclosed hslot
  have hlanes : ∀ (other : ℕ) (state : LaneState),
      (s.queue.close lease).2.1.lanes[other]? = some state → ∃ before, s.queue.lanes[other]? =
      some before ∧ state.outstanding = before.outstanding ∧ state.attempt = before.attempt := by
    intro other state hother
    rcases hc.lane_cases hother with ⟨rfl, rfl⟩ | ⟨_, hb⟩
    · exact ⟨slot, hslot, rfl, rfl⟩
    · exact ⟨state, hb, rfl, rfl⟩
  refine ⟨?_, ?_, ?_⟩
  · intro other state rec hother hrec
    obtain ⟨before, hb, hsame, ha⟩ := hlanes other state hother
    rw [hsame] at hrec
    obtain ⟨task, htask, howner, hp, hwhere⟩ := h.outstanding_task other before rec hb hrec
    refine ⟨task, hc.published_eq _ _ htask hp, ?_, hp, hwhere⟩
    rw [ha]
    exact howner
  · intro other state hother
    obtain ⟨before, hb, hsame, _⟩ := hlanes other state hother
    rw [hsame]
    exact h.outstanding_order other before hb
  intro other state hother
  obtain ⟨before, hb, hsame, ha⟩ := hlanes other state hother
  rw [hsame, ha]
  exact h.emitted_eq other before hb

/-! ## The history -/

def KeepsPublished (before after : QueueState) : Prop :=
  ∀ (id : ℕ) (task : Task), before.tasks[id]? = some task → task.published → ∃ found :
    Task, after.tasks[id]? = some found ∧ found.published ∧ found.owner = task.owner

variable {t : SnapshotSession}

theorem history_of_silent (h : History s) (ht : t.trace = s.trace)
    (hkept : KeepsPublished s.queue t.queue) (hread : ∀ id, t.queue.isRead id = s.queue.isRead id) :
    History t := by
  refine ⟨?_, ?_, ?_⟩
  · intro marker hm
    rw [ht] at hm
    obtain ⟨task, htask, hp, howner⟩ := h.published_owner marker hm
    obtain ⟨found, hget, hstill, hsame⟩ := hkept _ task htask hp
    exact ⟨found, hget, hstill, hsame.trans howner⟩
  · rw [ht]
    exact h.one_reader
  intro id
  rw [hread, ht, h.ends]

/-- A new event keeps the history well formed when its reader owns whatever is
already published. -/
theorem history_of_event {event : SnapshotEvent} (h : History s)
    (ht : t.trace = s.trace ++ [event]) (hkept : KeepsPublished s.queue t.queue)
    (hreader : ∀ id att, event.Reads id att →
      ∀ task, s.queue.tasks[id]? = some task → task.published → task.owner = some att)
    (hnew : ∀ mk, event = .emitted mk →
      ∃ task, t.queue.tasks[mk.record.task]? = some task ∧
        task.published ∧
        task.owner = some (mk.lane, mk.attempt))
    (hends :
      ∀ id, (t.queue.isRead id).toNat = (s.queue.isRead id).toNat + (event.isEndOf id).toNat) :
    History t := by
  refine ⟨?_, ?_, ?_⟩
  · intro mk hm
    rw [ht, mem_append, mem_singleton] at hm
    rcases hm with hold | hlast
    · obtain ⟨task, htask, hp, howner⟩ := h.published_owner mk hold
      obtain ⟨found, hget, hstill, hsame⟩ := hkept _ task htask hp
      exact ⟨found, hget, hstill, hsame.trans howner⟩
    exact hnew mk hlast.symm
  · rw [ht, pairwise_append]
    refine ⟨h.one_reader, pairwise_singleton _ _, ?_⟩
    intro earlier he last hlast id first second hfst hsnd
    rw [mem_singleton] at hlast
    subst hlast
    obtain ⟨mk, rfl, rfl, rfl⟩ := hfst
    obtain ⟨task, htask, hp, howner⟩ := h.published_owner mk he
    have hagree := hreader _ second hsnd task htask hp
    rw [howner] at hagree
    exact some.inj hagree
  intro id
  rw [hends, ht, countP_append, h.ends]
  cases hend : event.isEndOf id <;> simp [hend]

section
variable (h : History s)
include h

theorem history_takeTask (hown : Ownership s)
    (htask : s.queue.tasks[id]? = some task) (hs : task.state = .pending) :
    History
      { s with
        queue := s.queue.takeTask lease id rest
        trace := s.trace ++ [.claimed lease.lane lease.attempt id] } := by
  have hunpublished := hown.unpublished id task htask (.inl hs)
  refine history_of_event h rfl ?_ ?_ ?_ ?_
  · intro other found hget hp
    simp only [takeTask]
    grind
  · intro other attempt hreads found hget hp
    rcases hreads with hclaim | ⟨marker, hcounter, _⟩
    · injection hclaim with _ _ hid
      subst hid
      cases htask.symm.trans hget
      cases hunpublished.symm.trans hp
    · cases hcounter
  · rintro marker ⟨⟩
  intro other
  simp only [isRead, SnapshotEvent.isEndOf, takeTask]
  grind

theorem history_publish (htask : s.queue.tasks[rec.task]? = some task)
    (hs : task.state = .owned) (howner : task.owner = some (lease.lane, lease.attempt))
    (hf : (f task).owner = task.owner ∧ (f task).published ∧
      (f task).state = if rec.taskEnd then .readComplete else .owned) :
    History
      { s with
        queue := (s.queue.setTask rec.task f).setLane lease.lane g
        trace := s.trace ++ [.emitted (lease.marker epoch rec)] } := by
  have hnow :
      ((s.queue.setTask rec.task f).setLane lease.lane g).tasks[ rec.task]? = some (f task) := by
    simp [getElem?_tasks_setTask, htask]
  refine history_of_event h rfl ?_ ?_ ?_ ?_
  · intro other found hget hpublished
    grind
  · intro other attempt hreads found hget _
    rcases hreads with hcounter | ⟨marker, hm, rfl, rfl⟩
    · cases hcounter
    cases hm
    rw [marker, htask] at hget
    cases hget
    exact howner
  · rintro marker ⟨⟩
    exact ⟨f task, hnow, hf.2.1, hf.1.trans howner⟩
  intro other
  simp only [isRead, SnapshotEvent.isEndOf, marker]
  grind

theorem history_splitTask (htask : s.queue.tasks[id]? = some task) (hs : task.state = .pending) :
    History { s with queue := s.queue.splitTask id left right } := by
  have hid : id < s.queue.tasks.length := (List.getElem?_eq_some_iff.mp htask).1
  have hlook := getElem?_tasks_splitTask s.queue id left right hid
  refine history_of_silent h rfl ?_ ?_
  · intro other found hget hpublished
    grind
  unfold isRead
  grind [fresh]

theorem history_commitRecord (hledger : Ledger epoch s)
    (hlive : Live s.queue lease lane) (houtstanding : lane.outstanding = rec :: later) :
    History
      { s with
        queue := s.queue.commitRecord lease.lane rec, trace := s.trace ++
          [.acknowledged (lease.marker epoch rec)] } := by
  have hheld := hledger.outstanding_task lease.lane lane rec hlive.slot (by simp [houtstanding])
  refine history_of_event h rfl ?_ ?_ ?_ ?_
  · unfold KeepsPublished commitRecord
    grind
  · intro other attempt hreads
    rcases hreads with hcounter | ⟨marker, hcounter, _⟩
    · cases hcounter
    · cases hcounter
  · rintro marker ⟨⟩
  intro other
  simp only [isRead, SnapshotEvent.isEndOf, commitRecord]
  grind

theorem history_close (hown : Ownership s) (hl : s.leases[handle]? = some lease)
    (hunclosed : lease.closed = false) :
    History
      { s with
        queue := (s.queue.close lease).2.1
        leases := s.leases.set handle { lease with closed := true } } := by
  obtain ⟨slot, hslot, hact, _⟩ := hown.lease_live handle lease hl hunclosed
  have hc := closed_close s.queue hunclosed hslot
  refine history_of_silent h rfl ?_ ?_
  · intro id task htask hp
    exact ⟨task, hc.published_eq _ _ htask hp, hp, rfl⟩
  intro id
  unfold isRead
  rw [hc.task_eq]
  cases htask : s.queue.tasks[id]? with
  | none => rfl
  | some task =>
    have hheld := hown.unfinished_iff lease.lane slot id hslot hact
    have hread := hown.read_published id task htask
    unfold releaseTask
    grind

end

/-! ## Steps and runs -/

variable {chunks : List Chunk} {lanes : ℕ} {maxParts : Option ℕ} {queue : QueueState}

theorem live_attempt (h : Invariant epoch s)
    (hlive : Live s.queue lease lane) (houtstanding : lane.outstanding = rec :: later) : ∃ task :
    Task, s.queue.tasks[rec.task]? = some task ∧ (rec.taskEnd → task.state = .readComplete) := by
  obtain ⟨task, htask, _, _, hwhere⟩ := h.ledger.outstanding_task lease.lane
    lane rec hlive.slot (by simp [houtstanding])
  refine ⟨task, htask, fun hend => ?_⟩
  rcases hwhere with hread | ⟨_, hopen⟩
  · exact hread
  · cases hend.symm.trans hopen

theorem Step.invariant (hstep : Step epoch s t) (h : Invariant epoch s) : Invariant epoch t := by
  obtain ⟨hp, hown, hled, hh⟩ := h
  cases hstep with
  | opened lane slot hslot hidle hrun =>
    exact ⟨{ hp with }, ownership_startAttempt hown hslot hidle hrun,
      ledger_startAttempt hled hown hslot hidle hrun, { hh with }⟩
  | claimed lease lane id rest task hlive hidle hpend htask hs =>
    exact ⟨partitioned_takeTask hp hpend htask hs, ownership_takeTask hown
      hlive hidle htask hs, ledger_takeTask hled htask hs, history_takeTask hh hown htask hs⟩
  | emitted lease lane id rows task rec hlive htask hs howner hrec =>
    obtain ⟨rfl, hopen⟩ := hrec
    refine ⟨partitioned_setTask hp htask rfl (by simp [hs]) (by simp [hs]),
      ownership_publishRows hown hlive htask hs howner,
      ledger_publish hled hlive htask hs howner ⟨rfl, rfl, by simp [hopen, hs]⟩ ⟨rfl, rfl⟩,
      history_publish hh htask hs howner ⟨rfl, rfl, by simp [hopen, hs]⟩⟩
  | finished lease lane id task rec hlive htask hs howner hrec =>
    obtain ⟨rfl, hend⟩ := hrec
    refine ⟨partitioned_setTask hp htask rfl (by simp [hs]) (by simp),
      ownership_publishEnd hown hlive htask hs howner,
      ledger_publish hled hlive htask hs howner ⟨rfl, rfl, by simp [hend]⟩ ⟨rfl, rfl⟩,
      history_publish hh htask hs howner ⟨rfl, rfl, by simp [hend]⟩⟩
  | split id task left right hmem htask hhalves hroom =>
    obtain ⟨found, hget, hs⟩ := (hp.pending_iff id).mp hmem
    cases htask.symm.trans hget
    exact ⟨partitioned_splitTask hp hmem htask hhalves hroom, ownership_splitTask hown htask hs,
      ledger_splitTask hled htask hs, history_splitTask hh htask hs⟩
  | committed lease lane rec later hlive ho =>
    obtain ⟨task, htask, hread⟩ := live_attempt ⟨hp, hown, hled, hh⟩ hlive ho
    exact
      ⟨partitioned_commitRecord hp htask hread lease.lane, ownership_commitRecord hown hled hlive
      ho, ledger_commitRecord hled hlive ho, history_commitRecord hh hled hlive ho⟩
  | closed handle lease hl hunclosed =>
    exact ⟨partitioned_close hp hown hl hunclosed, ownership_close hown hled hl hunclosed,
      ledger_close hled hown hl hunclosed, history_close hh hown hl hunclosed⟩

theorem Steps.invariant (hsteps : Steps epoch s t) (h : Invariant epoch s) : Invariant epoch t := by
  induction hsteps with
  | refl => exact h
  | tail _ hlast ih => exact hlast.invariant ih

section
variable (hnew : QueueState.new chunks lanes maxParts = .ok queue)
include hnew

theorem new_ok : chunks ≠ [] ∧ validateInitialCover chunks = .ok () ∧
      (∀ limit, maxParts = some limit → chunks.length ≤ limit) ∧
      queue =
        { tasks := chunks.map fresh
          pending := range chunks.length, lanes := replicate lanes LaneState.default
          leaves := chunks.length, maxParts, interrupted := false } := by
  unfold QueueState.new at hnew
  split at hnew
  · cases hnew
  rename_i hne
  split at hnew
  · cases hnew
  split at hnew
  · cases hnew
  rename_i hlimit
  split at hnew
  · cases hnew
  rename_i hcover
  cases hnew
  refine ⟨by simpa using hne, hcover, ?_, rfl⟩
  intro limit hsome
  simpa [hsome] using hlimit

theorem invariant_start : Invariant epoch (start queue) := by
  obtain ⟨hne, hcover, hlimit, rfl⟩ := new_ok hnew
  have hfresh : ∀ (id : ℕ) (task : Task), (chunks.map fresh)[id]? = some task →
      task.state = .pending ∧ task.published = false ∧ task.owner = none := by
    intro id task htask
    rw [getElem?_map] at htask
    obtain ⟨chunk, _, rfl⟩ := map_eq_some_iff.mp htask
    exact ⟨rfl, rfl, rfl⟩
  have hlane : ∀ (lane : ℕ) (slot : LaneState),
      (replicate lanes LaneState.default)[lane]? = some slot → slot = LaneState.default := by
    intro lane slot hslot
    exact eq_of_mem_replicate (mem_of_getElem? hslot)
  refine ⟨⟨?_, ?_, hlimit, nodup_range, ?_⟩, ?_, ?_, ?_⟩
  · intro row
    rw [← validateInitialCover_count hne hcover row]
    simp only [start, countP_map]
    rfl
  · simp only [start, countP_map]
    have hall : (isLeaf ∘ fresh) = fun _ : Chunk => true := rfl
    rw [hall, countP_true]
  · intro id
    simp only [start, mem_range]
    constructor
    · intro hid
      refine ⟨fresh (chunks.get ⟨id, hid⟩), ?_, rfl⟩
      simp [hid]
    rintro ⟨task, htask, _⟩
    simpa using (List.getElem?_eq_some_iff.mp htask).1
  · simp only [start]
    constructor <;> grind [LaneState.default]
  · simp only [start]
    refine ⟨?_, ?_, ?_⟩
    · intro lane slot rec hslot hrec
      rw [hlane lane slot hslot] at hrec
      cases hrec
    · intro lane slot hslot
      rw [hlane lane slot hslot]
      exact Pairwise.nil
    intro lane slot hslot
    rw [hlane lane slot hslot]
    rfl
  refine ⟨by simp [start], Pairwise.nil, ?_⟩
  intro id
  simp only [start, isRead]
  cases htask : (chunks.map fresh)[id]? with
  | none => rfl
  | some task => simp [(hfresh id task htask).1]

theorem invariant_run (calls : List SnapshotCall) :
    Invariant epoch ((start queue).run epoch calls) :=
  (run_steps epoch (start queue) calls).invariant (invariant_start hnew)

end
end SnapshotSession
end Transferia.Postgres
