import Transferia.Postgres.SnapshotQueue
import Transferia.Support.Transition

/-!
# Interleaved calls on one snapshot queue

A session is the queue together with every lane attempt handed out so far and
the history of claimed tasks, emitted markers and acknowledged markers, which no
call reads.  Any handle may be used at any time, with any claimed chunk, offset
and marker.  `Step` says once what a call can do, and `call_steps` shows that
the modelled calls do nothing else.
-/

namespace Transferia.Postgres
open List QueueState Option

inductive SnapshotEvent
  | claimed (lane attempt task : ℕ)
  | emitted (marker : SnapshotMarker)
  | acknowledged (marker : SnapshotMarker)

inductive SnapshotCall
  | openLane (lane : ℕ)
  | claim (handle : ℕ)
  | emitRows (handle : ℕ) (claimed : ClaimedChunk) (startOffset : ℤ) (rows : ℕ)
  | finishRead (handle : ℕ) (claimed : ClaimedChunk) (worthwhile : Bool)
  | acknowledge (handle : ℕ) (markers : List CommitMarker)
  | close (handle : ℕ)

structure SnapshotSession where
  queue : QueueState
  leases : List LaneLease
  trace : List SnapshotEvent

namespace SnapshotSession

def start (queue : QueueState) : SnapshotSession := { queue, leases := [], trace := [] }

/-- Record the state a call leaves and, if it succeeded, what it did. -/
def record {α : Type} (s : SnapshotSession) (outcome : Except String α × QueueState)
    (events : α → List SnapshotEvent) : SnapshotSession :=
  match outcome with
  | (.error _, queue) => { s with queue }
  | (.ok value, queue) => { s with queue, trace := s.trace ++ events value }

variable (epoch : ℕ) {queue : QueueState} {lease : LaneLease} {lane : LaneState}

def call (s : SnapshotSession) : SnapshotCall → SnapshotSession
  | .openLane lane =>
    match s.queue.openLane lane with
    | (.error _, queue) => { s with queue }
    | (.ok lease, queue) => { s with queue, leases := s.leases ++ [lease] }
  | .claim handle =>
    match s.leases[handle]? with
    | none => s
    | some lease =>
      s.record (s.queue.claim lease) fun claimed =>
        claimed.toList.map (.claimed lease.lane lease.attempt ·.id)
  | .emitRows handle claimed startOffset rows =>
    match s.leases[handle]? with
    | none => s
    | some lease =>
      s.record (s.queue.emitRows epoch lease claimed startOffset rows)
        fun published => [.emitted published.2]
  | .finishRead handle claimed worthwhile =>
    match s.leases[handle]? with
    | none => s
    | some lease =>
      s.record (s.queue.finishRead epoch lease claimed worthwhile) fun marker => [.emitted marker]
  | .acknowledge handle markers =>
    match s.leases[handle]? with
    | none => s
    | some lease =>
      s.record (s.queue.acknowledge epoch lease markers) (·.map .acknowledged)
  | .close handle =>
    match s.leases[handle]? with
    | none => s
    | some lease =>
      match s.queue.close lease with
      | (_, queue, lease) =>
        { s with queue, leases := s.leases.set handle lease }

def run (s : SnapshotSession) (calls : List SnapshotCall) : SnapshotSession :=
  calls.foldl (call epoch) s

/-- A lease that passes the guard of `QueueState.enter`. -/
structure Live (queue : QueueState) (lease : LaneLease) (lane : LaneState) : Prop where
  running : queue.interrupted = false
  unclosed : lease.closed = false
  slot : queue.lanes[lease.lane]? = some lane
  active : lane.active
  attempt : lane.attempt = lease.attempt

/-- The elementary steps of a session.  A successful `finishRead` is `finished`
followed by at most one `split`; a successful `acknowledge` is a list of
`committed` steps. -/
inductive Step (epoch : ℕ) (s : SnapshotSession) : SnapshotSession → Prop
  | opened (lane : ℕ) (slot : LaneState) (hslot : s.queue.lanes[lane]? = some slot)
      (hidle : slot.active = false) (hrunning : s.queue.interrupted = false) : Step epoch s
        { s with
          queue := s.queue.startAttempt lane (slot.attempt + 1), leases := s.leases ++
            [{ lane, attempt := slot.attempt + 1, closed := false }] }
  | claimed (lease : LaneLease) (lane : LaneState) (id : ℕ) (rest : List ℕ) (task : Task)
      (hlive : Live s.queue lease lane) (hidle : lane.activeTask = none)
      (hpending : s.queue.pending = id :: rest) (htask : s.queue.tasks[id]? = some task)
      (hstate : task.state = .pending) : Step epoch s
        { s with
          queue := s.queue.takeTask lease id rest
          trace := s.trace ++ [.claimed lease.lane lease.attempt id] }
  | emitted (lease : LaneLease) (lane : LaneState) (id rows : ℕ)
      (task : Task) (record : MarkerRecord) (hlive : Live s.queue lease lane)
      (htask : s.queue.tasks[id]? = some task) (hstate : task.state = .owned)
      (howner : task.owner = some (lease.lane, lease.attempt))
      (hrecord : record.task = id ∧ record.taskEnd = false) : Step epoch s
        { s with
          queue := s.queue.publishRows lease.lane id rows record
          trace := s.trace ++ [.emitted (lease.marker epoch record)] }
  | finished (lease : LaneLease) (lane : LaneState) (id : ℕ) (task : Task) (record : MarkerRecord)
      (hlive : Live s.queue lease lane) (htask : s.queue.tasks[id]? = some task)
      (hstate : task.state = .owned) (howner : task.owner = some (lease.lane, lease.attempt))
      (hrecord : record.task = id ∧ record.taskEnd) : Step epoch s
        { s with
          queue := s.queue.publishEnd lease.lane id record
          trace := s.trace ++ [.emitted (lease.marker epoch record)] }
  | split (id : ℕ) (task : Task) (left right : Chunk) (hmem : id ∈ s.queue.pending)
      (htask : s.queue.tasks[id]? = some task) (hhalves : task.chunk.splitPending = some (left,
      right)) (hroom : ∀ limit, s.queue.maxParts = some limit → s.queue.leaves < limit) :
      Step epoch s { s with queue := s.queue.splitTask id left right }
  | committed (lease : LaneLease) (lane : LaneState) (record : MarkerRecord)
      (later : List MarkerRecord) (hlive : Live s.queue lease lane)
      (houtstanding : lane.outstanding = record :: later) : Step epoch s
        { s with
          queue := s.queue.commitRecord lease.lane record,
            trace := s.trace ++ [.acknowledged (lease.marker epoch record)] }
  | closed (handle : ℕ) (lease : LaneLease) (hlease : s.leases[handle]? = some lease)
      (hunclosed : lease.closed = false) : Step epoch s
        { s with
          queue := (s.queue.close lease).2.1
          leases := s.leases.set handle { lease with closed := true } }

abbrev Steps : SnapshotSession → SnapshotSession → Prop := Relation.ReflTransGen (Step epoch)

theorem live_of_enter (h : queue.enter lease = .ok lane) : Live queue lease lane := by
  simp only [enter, check] at h
  split at h
  · cases h
  rename_i hlock
  split at h
  · cases h
  rename_i hclosed
  split at h
  · cases h
  rename_i slot hslot
  split at h
  next hcur =>
    cases h
    simp only [Bool.and_eq_true, beq_iff_eq] at hcur
    refine ⟨lock_ok hlock, by simpa using hclosed, hslot, hcur.1, hcur.2⟩
  · cases h

theorem live_of_enterOwned {id : ℕ} {task : Task}
    (h : queue.enterOwned lease id = .ok (lane, task)) : Live queue lease lane ∧ queue.tasks[id]? =
    some task ∧ task.state = .owned ∧ task.owner = some (lease.lane, lease.attempt) := by
  simp only [enterOwned, validateOwned] at h
  split at h
  · cases h
  rename_i entered henter
  split at h
  · cases h
  rename_i found howned
  cases h
  split at howned
  · cases howned
  rename_i hget
  split at howned
  next hmine =>
    cases howned
    exact ⟨live_of_enter henter, hget, hmine⟩
  · cases howned

theorem openLane_steps (s : SnapshotSession) (lane : ℕ) :
    Steps epoch s (s.call epoch (.openLane lane)) := by
  simp only [call, openLane]
  cases hlock : s.queue.lock with
  | error reason => exact .refl
  | ok =>
    cases hslot : s.queue.lanes[lane]? with
    | none => exact .refl
    | some slot =>
      by_cases hact : slot.active
      · simp only [hact]
        exact .refl
      by_cases ho : 2 ^ 64 ≤ slot.attempt + 1
      · simp only [hact, ho]
        exact .refl
      simp only [hact, ho]
      exact .single (.opened lane slot hslot (by simpa using hact) (lock_ok hlock))

theorem claim_steps (s : SnapshotSession) (handle : ℕ) :
    Steps epoch s (s.call epoch (.claim handle)) := by
  simp only [call]
  cases s.leases[handle]? with
  | none => exact .refl
  | some lease =>
    simp only [claim]
    cases henter : s.queue.enter lease with
    | error reason => exact .refl
    | ok lane =>
      by_cases hbusy : lane.activeTask.isSome
      · simp only [hbusy]
        exact .refl
      simp only [hbusy, Bool.false_eq_true, if_false]
      cases hpending : s.queue.pending with
      | nil =>
        simp only [record, toList, map_nil, append_nil]
        exact .refl
      | cons id rest =>
        cases htask : s.queue.tasks[id]? with
        | none =>
          simp only [htask]
          exact .refl
        | some task =>
          simp only [htask]
          by_cases hstate : task.state = .pending
          · simp only [hstate]
            exact .single (.claimed lease
              lane id rest task (live_of_enter henter) (by simpa using hbusy) hpending htask hstate)
          simp only [ne_eq, hstate]
          exact .refl

theorem emitRows_steps (s : SnapshotSession) (handle : ℕ) (claimed : ClaimedChunk) (startOffset : ℤ)
    (rows : ℕ) : Steps epoch s (s.call epoch (.emitRows handle claimed startOffset rows)) := by
  simp only [call]
  cases s.leases[handle]? with
  | none => exact .refl
  | some lease =>
    simp only [emitRows]
    split
    · exact .refl
    cases hentered : s.queue.enterOwned lease claimed.id with
    | error reason => exact .refl
    | ok entered =>
      obtain ⟨lane, task⟩ := entered
      obtain ⟨hlive, htask, hstate, howner⟩ := live_of_enterOwned hentered
      repeat' split
      all_goals first
        | exact .refl
        | exact .single (.emitted lease lane claimed.id rows task _
            hlive htask hstate howner ⟨rfl, rfl⟩)

theorem preferLarger_cases {best : Option (ℕ × ℕ)} {next found : ℕ × ℕ}
    (h : preferLarger best next = some found) : found = next ∨ best = some found := by
  unfold preferLarger at h
  split at h
  · cases h
    exact .inl rfl
  split at h
  · cases h
    exact .inl rfl
  exact .inr h

theorem foldl_preferLarger {candidates : List (ℕ × ℕ)} {best : Option (ℕ × ℕ)} {found : ℕ × ℕ}
    (h : candidates.foldl preferLarger best = some found) :
    found ∈ candidates ∨ best = some found := by
  induction candidates generalizing best with
  | nil => exact .inr h
  | cons next rest ih =>
    rcases ih h with hrest | hbest
    · exact .inl (mem_cons_of_mem _ hrest)
    rcases preferLarger_cases hbest with rfl | hkept
    · exact .inl mem_cons_self
    · exact .inr hkept

theorem splitCandidate_mem {id pages : ℕ} (h : queue.splitCandidate = some (id, pages)) :
    id ∈ queue.pending := by
  rcases foldl_preferLarger h with hmem | hnone
  · obtain ⟨source, hsrc, hmap⟩ := mem_filterMap.mp hmem
    obtain ⟨span, _, ⟨⟩⟩ := map_eq_some_iff.mp hmap
    exact hsrc
  · cases hnone

theorem adaptPending_steps (s : SnapshotSession) (completed : Chunk) (worthwhile : Bool) :
    Steps epoch s { s with queue := s.queue.adaptPending completed worthwhile } := by
  simp only [adaptPending]
  split
  · exact .refl
  · exact .refl
  split
  · exact .refl
  rename_i hg
  split
  · exact .refl
  rename_i id pages hcandidate
  split
  · exact .refl
  split
  · exact .refl
  rename_i left right hhalves
  obtain ⟨task, htask, hsplit⟩ := bind_eq_some_iff.mp hhalves
  have hroom : ∀ limit, s.queue.maxParts = some limit → s.queue.leaves < limit := by
    intro limit hlimit
    simp only [hlimit, any_some, decide_eq_true_eq, not_or, not_le] at hg
    exact hg.2
  exact .single (.split id task left right (splitCandidate_mem hcandidate) htask hsplit hroom)

theorem finishRead_steps (s : SnapshotSession) (handle : ℕ) (claimed : ClaimedChunk)
    (worthwhile : Bool) : Steps epoch s (s.call epoch (.finishRead handle claimed worthwhile)) := by
  simp only [call]
  cases s.leases[handle]? with
  | none => exact .refl
  | some lease =>
    simp only [finishRead]
    cases hentered : s.queue.enterOwned lease claimed.id with
    | error reason => exact .refl
    | ok entered =>
      obtain ⟨lane, task⟩ := entered
      obtain ⟨hlive, htask, hstate, howner⟩ := live_of_enterOwned hentered
      dsimp only
      split
      · exact .refl
      exact .head (.finished lease lane claimed.id task _ hlive htask hstate howner ⟨rfl, rfl⟩)
        (adaptPending_steps epoch _ claimed.chunk worthwhile)

theorem validateMarkers_ok {epoch : ℕ} :
    ∀ {typed : List SnapshotMarker} {outstanding : List MarkerRecord},
    typed.length ≤ outstanding.length →
    queue.validateMarkers epoch lease typed outstanding = .ok () →
    typed = (outstanding.take typed.length).map (lease.marker epoch) := by
  intro typed
  induction typed with
  | nil =>
    intro outstanding _ _
    rfl
  | cons marker markers ih =>
    intro outstanding hlen hvalid
    cases outstanding with
    | nil => simp at hlen
    | cons expected rest =>
      simp only [validateMarkers] at hvalid
      split at hvalid
      · cases hvalid
      rename_i hm
      have hrest := ih (by simpa using hlen) hvalid
      have hhead : marker = lease.marker epoch expected := by
        simp only [validateMarker] at hm
        split at hm
        · cases hm
        rename_i hsame
        split at hm
        · cases hm
        rename_i he
        obtain ⟨markerEpoch, markerLane, markerAttempt, record⟩ := marker
        simp only [Bool.not_eq_true', Bool.not_eq_false, Bool.and_eq_true, beq_iff_eq] at hsame
        simp only [not_not] at he
        obtain ⟨⟨rfl, rfl⟩, rfl⟩ := hsame
        rw [he]
        rfl
      rw [hhead]
      simp only [length_cons, take_succ_cons, map_cons]
      rw [← hrest]

theorem commitRecord_live {rec : MarkerRecord} (hlive : Live queue lease lane) :
    Live (queue.commitRecord lease.lane rec) lease
      { lane with
        outstanding := lane.outstanding.tail, unfinished := if rec.taskEnd then
          lane.unfinished.erase rec.task else lane.unfinished } := by
  obtain ⟨hrunning, hunclosed, hslot, hact, ha⟩ := hlive
  by_cases hend : rec.taskEnd
  · refine ⟨?_, hunclosed, ?_, hact, ha⟩
    · simpa [commitRecord, hend, setLane, setTask] using hrunning
    · simp [commitRecord, hend, setLane, setTask, hslot]
  refine ⟨?_, hunclosed, ?_, hact, ha⟩
  · simpa [commitRecord, hend, setLane] using hrunning
  · simp [commitRecord, hend, setLane, hslot]

theorem commitRecords_steps (lease : LaneLease) (later : List MarkerRecord) : ∀ recs s lane,
      Live s.queue lease lane → lane.outstanding = recs ++ later →
      Steps epoch s
        { s with
          queue := recs.foldl (fun queue record => queue.commitRecord lease.lane record) s.queue
          trace := s.trace ++ (recs.map (lease.marker epoch)).map .acknowledged } := by
  intro recs
  induction recs with
  | nil =>
    intro s lane _ _
    simp only [map_nil, append_nil]
    exact .refl
  | cons record recs ih =>
    intro s lane hlive houtstanding
    have hfst : Step epoch s _ := .committed lease lane record (recs ++ later) hlive houtstanding
    have hrest := ih
      { s with
        queue := s.queue.commitRecord lease.lane record
        trace := s.trace ++ [.acknowledged (lease.marker epoch record)] }
      _ (commitRecord_live hlive) (by simp [houtstanding])
    simpa using Relation.ReflTransGen.head hfst hrest

section
variable (s : SnapshotSession)
include s

theorem acknowledge_steps (handle : ℕ) (mks : List CommitMarker) :
    Steps epoch s (s.call epoch (.acknowledge handle mks)) := by
  simp only [call]
  cases s.leases[handle]? with
  | none => exact .refl
  | some lease =>
    simp only [acknowledge]
    cases mks.mapM CommitMarker.value with
    | error reason => exact .refl
    | ok typed =>
      cases henter : s.queue.enter lease with
      | error reason => exact .refl
      | ok lane =>
        dsimp only
        split
        · exact .refl
        cases hvalid : s.queue.validateMarkers epoch lease typed lane.outstanding with
        | error reason => exact .refl
        | ok =>
          have htyped := validateMarkers_ok (by omega) hvalid
          have hs := commitRecords_steps epoch lease (lane.outstanding.drop typed.length)
            (lane.outstanding.take typed.length) s lane (live_of_enter henter) (by simp)
          rw [← htyped] at hs
          exact hs

theorem close_steps (handle : ℕ) : Steps epoch s (s.call epoch (.close handle)) := by
  simp only [call]
  cases hlease : s.leases[handle]? with
  | none => exact .refl
  | some lease =>
    by_cases hc : lease.closed
    · have hsame : s.leases.set handle lease = s.leases := by
        apply ext_getElem?
        intro other
        by_cases hother : handle = other
        · subst hother
          rw [getElem?_set_self', hlease]
          rfl
        rw [getElem?_set_ne hother]
      simp only [close, hc, if_true, hsame]
      exact .refl
    have hunclosed : lease.closed = false := by simpa using hc
    have hstep : Step epoch s _ := .closed handle lease hlease hunclosed
    simp only [close, hunclosed] at hstep ⊢
    exact .single hstep

theorem call_steps (call : SnapshotCall) : Steps epoch s (s.call epoch call) := by
  cases call with
  | openLane lane => exact openLane_steps epoch s lane
  | claim handle => exact claim_steps epoch s handle
  | emitRows handle claimed startOffset rows =>
    exact emitRows_steps epoch s handle claimed startOffset rows
  | finishRead handle claimed worthwhile => exact finishRead_steps epoch s handle claimed worthwhile
  | acknowledge handle markers => exact acknowledge_steps epoch s handle markers
  | close handle => exact close_steps epoch s handle

theorem run_steps (calls : List SnapshotCall) : Steps epoch s (s.run epoch calls) := by
  induction calls generalizing s with
  | nil => exact .refl
  | cons call calls ih => exact (call_steps epoch s call).trans (ih _)

end
end SnapshotSession
end Transferia.Postgres
