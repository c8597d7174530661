import Transferia.ClickHouse.Sink
import Transferia.Support.Trace

/-!
# Order and acknowledgement in the ClickHouse sink

In every run of the actor the batches of a table reach its inserts in the order
of their arrival and each of them once.  The accounting behind the acknowledgements
is that the tracker's count of a delivery is the number of its batches in buffers and
running inserts.
-/

namespace Transferia.ClickHouse
open List Option Contracts Transferia.Core Support DeliveryTracker TableBuffer Bool Nat AList Except
open InsertTask
variable {S R K : Type*} {bs : List (BufferedBatch S R)}

/-! ## What the buffers hold -/

def countOf (id : ℕ) (batches : List (BufferedBatch S R)) : ℕ :=
  batches.countP (·.deliveryId = id)

@[simp] theorem countOf_append (id : ℕ) (first second : List (BufferedBatch S R)) :
    countOf id (first ++ second) = countOf id first + countOf id second :=
  countP_append

theorem filter_eq_nil_of_countOf {id : ℕ} (h : countOf id bs = 0) :
    (bs.filter (·.deliveryId = id)) = [] := by
  rw [filter_eq_nil_iff]
  exact countP_eq_zero.mp h

namespace Buffers

def buffered (buffers : Buffers S R) (table : String) : List (BufferedBatch S R) :=
  match buffers.lookup table with
  | none => []
  | some buffer => buffer.batches

def held (buffers : Buffers S R) (id : ℕ) : ℕ :=
  total (fun buffer : TableBuffer S R => countOf id buffer.batches) buffers

variable {buffers : Buffers S R} {table : String}

theorem buffered_of_lookup {buf : TableBuffer S R} (h : buffers.lookup table = some buf) :
    buffers.buffered table = buf.batches := by
  simp [buffered, h]

section
variable (bufs : Buffers S R)
include bufs

theorem buffered_insert (table other : String) (buf : TableBuffer S R) :
    buffered (bufs.insert table buf) other =
      if other = table then buf.batches else bufs.buffered other := by
  by_cases hother : other = table
  · subst hother
    simp [buffered]
  simp [buffered, hother]

theorem buffered_erase (table other : String) :
    buffered (bufs.erase table) other = if other = table then [] else bufs.buffered other := by
  by_cases hother : other = table
  · subst hother
    simp [buffered]
  simp [buffered, hother]

theorem countOf_buffered_le (table : String) (id : ℕ) :
    countOf id (bufs.buffered table) ≤ bufs.held id := by
  cases hlook : bufs.lookup table with
  | none => simp [buffered, hlook, countOf]
  | some buf =>
    rw [buffered_of_lookup hlook]
    exact le_total_of_lookup (fun buf : TableBuffer S R => countOf id buf.batches) hlook

theorem held_insert (table : String) (id : ℕ) (buf : TableBuffer S R) :
    held (bufs.insert table buf) id + countOf id (bufs.buffered table) =
      bufs.held id + countOf id buf.batches := by
  cases hlook : bufs.lookup table with
  | none =>
    have hinsert :=
      total_insert_of_none (fun buf : TableBuffer S R => countOf id buf.batches) hlook buf
    simpa [held, buffered, hlook, countOf] using hinsert
  | some found =>
    rw [buffered_of_lookup hlook]
    exact total_insert_of_lookup (fun buf : TableBuffer S R => countOf id buf.batches) hlook buf

end
end Buffers
open Buffers
section
variable {buffers : Buffers S R} {table : String} {batch : RecordBatch S R} {now deliveryId : ℕ}

theorem bufferBatch_eq (now dlvId : ℕ) (bufs : Buffers S R) (table : String)
    (batch : RecordBatch S R) : ∃ buf, bufferBatch now dlvId bufs table batch =
    bufs.insert table buf ∧ buf.batches = bufs.buffered table ++ [bufferedBatch dlvId batch] ∧
    ((∀ found, bufs.lookup table = some found → found.table = table) → buf.table = table) := by
  refine ⟨_, rfl, ?_, ?_⟩
  · cases hlook : bufs.lookup table with
    | none | some found => simp [buffered, hlook]
  intro hnamed
  cases hlook : bufs.lookup table with
  | none => rfl
  | some found => exact hnamed found hlook

theorem buffered_bufferBatch (other : String) :
    buffered (bufferBatch now deliveryId buffers table batch) other =
      buffers.buffered other ++ if table = other then [bufferedBatch deliveryId batch] else [] := by
  obtain ⟨buf, hbuffer, hbatches, _⟩ := bufferBatch_eq now deliveryId buffers table batch
  rw [hbuffer, buffered_insert, hbatches]
  by_cases hother : other = table
  · simp [hother]
  · simp [hother, Ne.symm hother]

variable (prepared : List (String × RecordBatch S R))

theorem buffered_bufferBatches (other : String) :
    buffered (bufferBatches now deliveryId buffers prepared) other =
      buffers.buffered other ++
        (prepared.filter (·.1 = other)).map fun entry => bufferedBatch deliveryId entry.2 := by
  induction prepared generalizing buffers with
  | nil => simp [bufferBatches]
  | cons entry rest ih =>
    obtain ⟨table, batch⟩ := entry
    rw [bufferBatches, ih, buffered_bufferBatch]
    by_cases htable : table = other
    · simp [htable]
    · simp [htable]

theorem held_bufferBatches (id : ℕ) : held (bufferBatches now deliveryId buffers prepared) id =
      buffers.held id + if deliveryId = id then prepared.length else 0 := by
  induction prepared generalizing buffers with
  | nil => simp [bufferBatches]
  | cons entry rest ih =>
    obtain ⟨table, batch⟩ := entry
    obtain ⟨buf, hbuffer, hbatches, _⟩ := bufferBatch_eq now deliveryId buffers table batch
    have hi := buffers.held_insert table id buf
    rw [hbatches, countOf_append] at hi
    rw [bufferBatches, ih, hbuffer]
    by_cases hid : deliveryId = id
    all_goals
      simp [countOf, bufferedBatch, hid] at hi ⊢
      omega

theorem named_bufferBatches (h : ∀ table buf, buffers.lookup table = some buf → buf.table = table) :
    ∀ table buf, (bufferBatches now deliveryId buffers prepared).lookup table = some buf →
    buf.table = table := by
  induction prepared generalizing buffers with
  | nil => exact h
  | cons entry rest ih =>
    obtain ⟨written, batch⟩ := entry
    apply ih
    intro table buf hlook
    obtain ⟨next, hnext, _, hnamed⟩ := bufferBatch_eq now deliveryId buffers written batch
    rw [hnext] at hlook
    obtain ⟨rfl, rfl⟩ | hold := lookup_insert_cases hlook
    · exact hnamed fun found hget => h _ found hget
    · exact h table buf hold

end
section
variable [DecidableEq S] {config : ClickHouseSinkConfig}
  {buffers next : Buffers S R} {table : String} {insert : ActiveInsert S R}
section
variable (h : takeInsert config buffers table = .ok (insert, next))
include h

theorem takeInsert_ok : ∃ buf, buffers.lookup table = some buf ∧ insert.table = buf.table ∧
    ∃ left, buf.batches = insert.batches ++ left ∧ ((left = [] ∧ next = buffers.erase table) ∨
    ∃ rest, next = buffers.insert table rest ∧ rest.batches = left ∧ rest.table = buf.table) := by
  unfold takeInsert at h
  split at h
  · cases h
  rename_i buf hlook
  obtain ⟨rfl, rfl⟩ := h
  refine ⟨buf, hlook, rfl, _, (take_append_drop _ _).symm, ?_⟩
  split
  · exact .inl ⟨isEmpty_iff.mp ‹_›, rfl⟩
  · exact .inr ⟨_, rfl, rfl, rfl⟩

theorem buffered_takeInsert (other : String) :
    buffers.buffered other =
      (if other = table then insert.batches else []) ++ next.buffered other := by
  obtain ⟨buf, hlook, _, left, hbatches, hnext⟩ := takeInsert_ok h
  by_cases hother : other = table
  · subst hother
    rw [buffered_of_lookup hlook, hbatches]
    obtain ⟨rfl, rfl⟩ | ⟨rest, rfl, rfl, _⟩ := hnext
    · simp [buffered_erase]
    · simp [buffered_insert]
  obtain ⟨_, rfl⟩ | ⟨rest, rfl, _, _⟩ := hnext
  · simp [buffered_erase, hother]
  · simp [buffered_insert, hother]

theorem held_takeInsert (id : ℕ) : next.held id + countOf id insert.batches = buffers.held id := by
  obtain ⟨buf, hlook, _, left, hb, hnext⟩ := takeInsert_ok h
  obtain ⟨rfl, rfl⟩ | ⟨rest, rfl, rfl, _⟩ := hnext
  · have herase := total_erase (fun buf : TableBuffer S R => countOf id buf.batches) hlook
    simpa [held, hb] using herase
  have hinsert := buffers.held_insert table id rest
  rw [buffered_of_lookup hlook, hb, countOf_append] at hinsert
  omega

theorem named_takeInsert
    (hnamed : ∀ table buf, buffers.lookup table = some buf → buf.table = table) :
    insert.table = table ∧ ∀ other buf, next.lookup other = some buf → buf.table = other := by
  obtain ⟨buf, hlook, htable, left, _, hnext⟩ := takeInsert_ok h
  have hname := hnamed table buf hlook
  refine ⟨htable.trans hname, ?_⟩
  intro other found hget
  obtain ⟨_, rfl⟩ | ⟨rest, rfl, _, hrest⟩ := hnext
  · exact hnamed other found (lookup_of_lookup_erase hget)
  obtain ⟨rfl, rfl⟩ | hold := lookup_insert_cases hget
  · exact hrest.trans hname
  · exact hnamed other found hold

end
end

/-! ## Counters -/

/-- The counters are the sums over the batches and fit into a machine word. -/
structure TableBuffer.Counted (buffer : TableBuffer S R) : Prop where
  rows_eq : buffer.rows = buffer.batchRows
  bytes_eq : buffer.bytes = buffer.batchBytes
  rows_le : buffer.batchRows ≤ usizeMax
  bytes_le : buffer.batchBytes ≤ usizeMax

theorem countable_iff {bufs : Buffers S R} : countable bufs ↔ ∀ table buf,
    bufs.lookup table = some buf → buf.batchRows ≤ usizeMax ∧ buf.batchBytes ≤ usizeMax := by
  simp only [countable, List.all_eq_true, and_eq_true, decide_eq_true_eq]
  constructor
  · intro h table buf hlook
    exact h ⟨table, buf⟩ (mem_lookup_iff.mp hlook)
  rintro h ⟨table, buf⟩ hmem
  exact h table buf (mem_lookup_iff.mpr hmem)

theorem countable_buffered {bufs : Buffers S R} (h : countable bufs) (table : String) :
    ((bufs.buffered table).map BufferedBatch.rows).sum ≤ usizeMax ∧
    ((bufs.buffered table).map BufferedBatch.bytes).sum ≤ usizeMax := by
  cases hlook : bufs.lookup table with
  | none => simp [buffered, hlook]
  | some buf =>
    rw [buffered_of_lookup hlook]
    exact countable_iff.mp h table buf hlook

section
variable {buffers : Buffers S R} {now deliveryId : ℕ} {cfg : ClickHouseSinkConfig}

theorem counted_bufferBatch {table : String}
    {batch : RecordBatch S R} (h : ∀ table buf, buffers.lookup table = some buf → buf.Counted)
    (hfits : countable (bufferBatch now deliveryId buffers table batch)) : ∀ other buf,
    (bufferBatch now deliveryId buffers table batch).lookup other = some buf → buf.Counted := by
  intro other buf hlook
  obtain ⟨hrows, hbytes⟩ := countable_iff.mp hfits other buf hlook
  obtain ⟨rfl, rfl⟩ | hold := lookup_insert_cases hlook
  · have hbase : ((buffers.lookup other).getD
        { table := other, firstSeen := now, rows := 0, bytes := 0, batches := [] }).Counted := by
      cases hget : buffers.lookup other with
      | none => exact ⟨rfl, rfl, zero_le _, zero_le _⟩
      | some found => exact h other found hget
    refine ⟨?_, ?_, hrows, hbytes⟩
    · have hsum := hbase.rows_eq
      simp only [batchRows, map_append, sum_append_nat,
        bufferedBatch, map_cons, map_nil, sum_cons, sum_nil, saturatingAdd] at hsum hrows ⊢
      omega
    have hsum := hbase.bytes_eq
    simp only [batchBytes, map_append, sum_append_nat,
      bufferedBatch, map_cons, map_nil, sum_cons, sum_nil, saturatingAdd] at hsum hbytes ⊢
    omega
  exact h other buf hold

theorem countable_of_bufferBatches (prepared : List (String × RecordBatch S R))
    (hfits : countable (bufferBatches now deliveryId buffers prepared)) : countable buffers := by
  rw [countable_iff]
  intro table buf hlook
  have hl := countable_buffered hfits table
  rw [buffered_bufferBatches, buffered_of_lookup hlook] at hl
  simp only [map_append, sum_append_nat] at hl
  exact ⟨(le_add_right _ _).trans hl.1, (le_add_right _ _).trans hl.2⟩

theorem counted_bufferBatches (prepared : List (String × RecordBatch S R))
    (h : ∀ table buf, buffers.lookup table = some buf → buf.Counted)
    (hfits : countable (bufferBatches now deliveryId buffers prepared)) : ∀ table buf,
    (bufferBatches now deliveryId buffers prepared).lookup table = some buf → buf.Counted := by
  induction prepared generalizing buffers with
  | nil => exact h
  | cons entry rest ih =>
    exact ih (counted_bufferBatch h (countable_of_bufferBatches rest hfits)) hfits

theorem measureInsert_spec [DecidableEq S] {firstSchema : Option S} {rows bytes count : ℕ}
    {measured : ℕ × ℕ × ℕ} (h : measureInsert cfg firstSchema rows bytes count bs = measured)
    (hrows : rows + (bs.map BufferedBatch.rows).sum ≤ usizeMax)
    (hbytes : bytes + (bs.map BufferedBatch.bytes).sum ≤ usizeMax) : ∃ taken, measured.2.2 =
    count + taken ∧ measured.1 = rows + ((bs.take taken).map BufferedBatch.rows).sum ∧
    measured.2.1 = bytes + ((bs.take taken).map BufferedBatch.bytes).sum := by
  induction bs generalizing rows bytes count with
  | nil =>
    subst h
    exact ⟨0, rfl, rfl, rfl⟩
  | cons buffered rest ih =>
    unfold measureInsert at h
    split at h
    · subst h
      exact ⟨0, rfl, rfl, rfl⟩
    simp only [map_cons, sum_cons] at hrows hbytes
    have hr : saturatingAdd rows buffered.rows = rows + buffered.rows := min_eq_left (by omega)
    have hb : saturatingAdd bytes buffered.bytes = bytes + buffered.bytes := min_eq_left (by omega)
    obtain ⟨taken, hcount, hrest⟩ := ih h (by omega) (by omega)
    refine ⟨taken + 1, by omega, ?_⟩
    simp only [take_succ_cons, map_cons, sum_cons]
    omega

theorem counted_takeInsert [DecidableEq S] {table : String} {insert : ActiveInsert S R}
    {next : Buffers S R} (htake : takeInsert cfg buffers table = .ok (insert, next))
    (h : ∀ table buf, buffers.lookup table = some buf → buf.Counted) :
    ∀ other buf, next.lookup other = some buf → buf.Counted := by
  intro other found hget
  unfold takeInsert at htake
  split at htake
  · cases htake
  rename_i buf hlook
  have hcounted := h table buf hlook
  obtain ⟨_, rfl⟩ := htake
  split at hget
  · exact h other found (lookup_of_lookup_erase hget)
  obtain ⟨rfl, rfl⟩ | hold := lookup_insert_cases hget
  · obtain ⟨taken, hcount, hrows, hbytes⟩ := measureInsert_spec (rfl : measureInsert
      cfg (buf.batches.head?.map fun buffered => buffered.batch.schema) 0 0 0 buf.batches = _)
      (by simpa [batchRows] using hcounted.rows_le) (by simpa [batchBytes] using hcounted.bytes_le)
    rw [zero_add] at hcount hrows hbytes
    have hsplit := take_append_drop taken buf.batches
    have hr := hcounted.rows_eq
    have hb := hcounted.bytes_eq
    have hrle := hcounted.rows_le
    have hble := hcounted.bytes_le
    rw [batchRows, ← hsplit, map_append, sum_append_nat] at hr hrle
    rw [batchBytes, ← hsplit, map_append, sum_append_nat] at hb hble
    refine ⟨?_, ?_, ?_, ?_⟩
    all_goals
      simp only [batchRows, batchBytes, hcount, hbytes]
      omega
  exact h other found hold

end

/-! ## Completing an insert -/

/-- What completing the units of some batches does to a tracker. -/
structure Completed (progress next : DeliveryTracker) (batches : List (BufferedBatch S R)) :
    Prop where
  ordered : next.Ordered
  received_eq : next.nextReceived = progress.nextReceived
  commit_eq : next.nextCommit = progress.nextCommit
  missing : ∀ id, next.entries.lookup id = none → progress.entries.lookup id = none
  tracked : ∀ id state, next.entries.lookup id = some state → ∃ before, progress.entries.lookup id =
    some before ∧ state.remaining + countOf id batches = before.remaining

theorem completed_of_completeBatches {batches : List (BufferedBatch S R)}
    {progress next : DeliveryTracker} (hord : progress.Ordered)
    (h : SinkState.completeBatches progress batches = .ok next) :
    Completed progress next batches := by
  induction batches generalizing progress with
  | nil =>
    cases h
    exact ⟨hord, rfl, rfl, fun _ => id, fun _ state h => ⟨state, h, rfl⟩⟩
  | cons buffered rest ih =>
    unfold SinkState.completeBatches at h
    split at h
    · cases h
    rename_i mid hmid
    obtain ⟨found, hget, hunits, rfl⟩ := complete_ok hmid
    have hrest := ih (ordered_complete hord hmid) h
    refine ⟨hrest.ordered, hrest.received_eq, hrest.commit_eq, ?_, ?_⟩
    · intro id hnone
      have hm := hrest.missing id hnone
      by_cases hid : id = buffered.deliveryId
      · subst hid
        simp at hm
      simpa [lookup_insert_ne hid] using hm
    intro id state hs
    obtain ⟨before, hb, hcount⟩ := hrest.tracked id state hs
    by_cases hid : id = buffered.deliveryId
    · subst hid
      rw [lookup_insert] at hb
      cases hb
      refine ⟨found, hget, ?_⟩
      simp only [countOf, decide_true, countP_cons_of_pos] at hcount ⊢
      omega
    rw [lookup_insert_ne hid] at hb
    exact ⟨before, hb, by simpa [countOf, Ne.symm hid] using hcount⟩

/-! ## What an insert task can do -/

variable {task : InsertTask S R} {next : InsertTask S R} {cfg : ClickHouseSinkConfig}

theorem InsertTask.answer_some {res : Except InsertError Unit}
    (h : task.answer cfg res = some next) :
    next.insert = task.insert ∧ (next.outcome = some (.ok ()) → res = .ok ()) := by
  unfold answer at h
  split at h
  next hg =>
    simp only [and_eq_true, isNone_iff_eq_none] at hg
    split at h
    · cases h
      exact ⟨rfl, fun _ => rfl⟩
    · cases h
      exact ⟨rfl, by simp⟩
    dsimp only at h
    split at h
    · cases h
      exact ⟨rfl, by simp⟩
    cases h
    exact ⟨rfl, by simp [hg.1]⟩
  · cases h

theorem InsertTask.wake_some (h : task.wake = some next) :
    next.insert = task.insert ∧ next.outcome ≠ some (.ok ()) := by
  unfold wake at h
  split at h
  next hg =>
    simp only [and_eq_true, isNone_iff_eq_none] at hg
    cases h
    exact ⟨rfl, by simp [hg.1]⟩
  · cases h

theorem InsertTask.cancel_some (h : task.cancel = some next) :
    next.insert = task.insert ∧ next.outcome ≠ some (.ok ()) := by
  unfold cancel at h
  split at h
  · cases h
    exact ⟨rfl, by simp⟩
  · cases h

/-! ## Reading the trace -/

namespace SinkTrace

def acceptedOn (table : String) : SinkTrace S R → List (BufferedBatch S R)
  | .accepted _ _ batches => (batches.filter (·.1 = table)).map Prod.snd
  | _ => []

/-- The batches that an event puts into an insert of a table. -/
def insertedOn (table : String) : SinkTrace S R → List (BufferedBatch S R)
  | .insertStarted _ target batches => if target = table then batches else []
  | _ => []

def startedIndex : SinkTrace S R → Option ℕ
  | .insertStarted index _ _ => some index
  | _ => none

end SinkTrace
section
variable (table : String) (trace : List (SinkTrace S R))
include table trace

/-- The accepted batches of a table, in the order of their arrival. -/
def acceptedOn : List (BufferedBatch S R) :=
  trace.flatMap (·.acceptedOn table)

/-- The batches in the inserts of a table, in the order of their start. -/
def insertedOn : List (BufferedBatch S R) :=
  trace.flatMap (·.insertedOn table)

@[simp] theorem acceptedOn_append (event : SinkTrace S R) :
    acceptedOn table (trace ++ [event]) = acceptedOn table trace ++ event.acceptedOn table := by
  simp [acceptedOn]

@[simp] theorem insertedOn_append (event : SinkTrace S R) :
    insertedOn table (trace ++ [event]) = insertedOn table trace ++ event.insertedOn table := by
  simp [insertedOn]

end
variable (trace : List (SinkTrace S R))

/-- The numbers of the inserts, in the order of their start. -/
def startedIndexes : List ℕ :=
  trace.flatMap (·.startedIndex.toList)

@[simp] theorem startedIndexes_append (event : SinkTrace S R) :
    startedIndexes (trace ++ [event]) = startedIndexes trace ++ event.startedIndex.toList := by
  simp [startedIndexes]

/-- Every batch of the delivery is in an insert, and every insert that holds
one of its batches has succeeded. -/
structure Finished (id : ℕ) : Prop where
  accepted : ∃ changelog batches, .accepted id changelog batches ∈ trace
  inserted : ∀ table, ((insertedOn table trace).filter (·.deliveryId = id)) =
    (acceptedOn table trace).filter (·.deliveryId = id)
  succeeded : ∀ index table batches, .insertStarted index table batches ∈ trace →
    (∃ buffered ∈ batches, buffered.deliveryId = id) → .insertSucceeded index ∈ trace

/-- When an event may happen.  A delivery is accepted after the changelog
deliveries that were received before it, a batch is inserted after the changelog
deliveries accepted before its own, and a delivery is acknowledged when it is
finished. -/
def Permitted (before : List (SinkTrace S R)) : SinkTrace S R → Prop
  | .accepted id _ _ => ∀ other, .received other true ∈ before → other = id ∨ Finished before other
  | .insertStarted _ _ batches => ∀ buffered ∈ batches, ∀ other earlier,
      .accepted other true earlier ∈ before → other < buffered.deliveryId → Finished before other
  | .committedThrough id => ∀ other, 1 ≤ other → other ≤ id → Finished before other
  | _ => True

/-- Every insert with rows of acknowledged deliveries succeeded before the
acknowledgement. -/
def StoredBeforeAcknowledged : Prop :=
  ∀ before id after, trace = before ++ .committedThrough id :: after → ∀ index table batches,
    .insertStarted index table batches ∈ trace → (∃ buffered ∈ batches, buffered.deliveryId ≤ id) →
    .insertSucceeded index ∈ before

theorem StoredBeforeAcknowledged.append {trace : List (SinkTrace S R)} {event : SinkTrace S R}
    (h : StoredBeforeAcknowledged trace)
    (hcommitted : ∀ id, event = .committedThrough id →
      ∀ index table bs,
        .insertStarted index table bs ∈ trace → (∃ buffered ∈ bs, buffered.deliveryId ≤ id) →
        .insertSucceeded index ∈ trace)
    (hstarted : ∀ index table bs, event = .insertStarted index table bs →
      ∀ id, .committedThrough id ∈ trace → ∀ buffered ∈ bs, id < buffered.deliveryId) :
    StoredBeforeAcknowledged (trace ++ [event]) := by
  intro before id after hsplit index table bs hmem hrows
  rw [mem_append, mem_singleton] at hmem
  obtain ⟨rfl, rfl⟩ | ⟨rest, hold⟩ := event_of_append_singleton hsplit
  · obtain hmem | hmem := hmem
    · exact hcommitted id rfl index table bs hmem hrows
    · cases hmem
  obtain hmem | hmem := hmem
  · exact h before id rest hold index table bs hmem hrows
  obtain ⟨buffered, hbuf, hle⟩ := hrows
  have hlt := hstarted index table bs hmem.symm id (by simp [hold]) buffered hbuf
  omega

/-! ## The invariant -/

namespace SinkState
variable {index id : ℕ} {s t : SinkState S R}

/-- The batches of a delivery that are in buffers and running inserts. -/
def outstanding (s : SinkState S R) (id : ℕ) : ℕ := s.buffers.held id +
    total (fun task : InsertTask S R => countOf id task.insert.batches) s.active

structure Inv (s : SinkState S R) : Prop where
  ordered : s.progress.Ordered
  first : 1 ≤ s.progress.nextCommit
  named : ∀ table buffer, s.buffers.lookup table = some buffer → buffer.table = table
  remaining :
    ∀ id state, s.progress.entries.lookup id = some state → state.remaining = s.outstanding id
  untracked : ∀ id, s.progress.entries.lookup id = none → s.outstanding id = 0
  accepted_iff : ∀ id, (∃ changelog batches, .accepted id changelog batches ∈ s.trace) ↔
    1 ≤ id ∧ id < s.progress.nextReceived
  flow : ∀ table, acceptedOn table s.trace = insertedOn table s.trace ++ s.buffers.buffered table
  started : ∀ index table batches, .insertStarted index table batches ∈ s.trace → .insertSucceeded
    index ∈ s.trace ∨ ∃ task, s.active.lookup index = some task ∧ task.insert.batches = batches
  succeeded : ∀ index task, s.active.lookup index = some task →
    task.outcome = some (.ok ()) → .insertSucceeded index ∈ s.trace
  numbered : startedIndexes s.trace = range s.inserts
  running : ∀ index task, s.active.lookup index = some task → index < s.inserts
  changelogs : ∀ id batches, .accepted id true batches ∈ s.trace →
    (s.serialChangelogActive ∧ id + 1 = s.progress.nextReceived) ∨ s.outstanding id = 0
  received : ∀ id, .received id true ∈ s.trace → (∃ delivery, s.pendingChangelog = some delivery ∧
    delivery.id = id) ∨ ∃ batches, .accepted id true batches ∈ s.trace
  pending : ∀ delivery, s.pendingChangelog = some delivery → deliveryIsChangelog delivery
  committed : ∀ id, .committedThrough id ∈ s.trace → id < s.progress.nextCommit
  justified : Justified Permitted s.trace
  stored : StoredBeforeAcknowledged s.trace
  counted :
    s.overflowed = false → ∀ table buffer, s.buffers.lookup table = some buffer → buffer.Counted
  parked : ∀ wanted, s.phase = .waiting wanted → s.buffers.entries.isEmpty = false →
    s.active.entries.isEmpty = false ∨ wanted.isSome
  ended : s.phase = .returned (.ok ()) → s.cancelled = false → s.idle

theorem inv_start : (start : SinkState S R).Inv where
  ordered := ordered_new
  first := le_refl _
  named := by simp [start]
  remaining := by simp [start, new]
  untracked := by simp [start, outstanding, held]
  accepted_iff := by
    simp [start, new]
    omega
  flow := by simp [start, acceptedOn, insertedOn, buffered]
  started := by simp [start]
  succeeded := by simp [start]
  numbered := rfl
  running := by simp [start]
  changelogs := by simp [start]
  received := by simp [start]
  pending := by simp [start]
  committed := by simp [start]
  justified := .nil
  stored := by simp [start, StoredBeforeAcknowledged]
  counted := by simp [start]
  parked := by simp [start]
  ended := by simp [start]

/-- An insert that holds a batch of a delivery without outstanding batches has
succeeded. -/
theorem Inv.succeeded_of_started (h : s.Inv) {table : String} {buffered : BufferedBatch S R}
    (hstarted : .insertStarted index table bs ∈ s.trace) (hbuf : buffered ∈ bs)
    (hzero : s.outstanding buffered.deliveryId = 0) : .insertSucceeded index ∈ s.trace := by
  obtain hs | ⟨task, htask, rfl⟩ := h.started index table bs hstarted
  · exact hs
  have hle := le_total_of_lookup
    (fun task : InsertTask S R => countOf buffered.deliveryId task.insert.batches) htask
  have hpos : 0 < countOf buffered.deliveryId task.insert.batches :=
    countP_pos_iff.mpr ⟨buffered, hbuf, by simp⟩
  unfold outstanding at hzero
  omega

theorem Inv.finished (h : s.Inv) (hid : 1 ≤ id ∧ id < s.progress.nextReceived)
    (hzero : s.outstanding id = 0) : Finished s.trace id := by
  have hheld : s.buffers.held id = 0 := by
    unfold outstanding at hzero
    omega
  refine ⟨(h.accepted_iff id).mpr hid, ?_, ?_⟩
  · intro table
    have hle := s.buffers.countOf_buffered_le table id
    have hnone := filter_eq_nil_of_countOf (le_zero.mp (hle.trans hheld.le))
    rw [h.flow table, filter_append, hnone, append_nil]
  rintro index table bs hstarted ⟨buffered, hbuf, rfl⟩
  exact h.succeeded_of_started hstarted hbuf hzero

theorem outstanding_of_idle (hidle : s.idle) (id : ℕ) : s.outstanding id = 0 := by
  simp only [idle, and_eq_true, List.isEmpty_iff] at hidle
  simp [outstanding, held, total, hidle.1, hidle.2]

theorem Inv.finished_of_changelog (h : s.Inv) {bs : List (String × BufferedBatch S R)}
    (hmem : .accepted id true bs ∈ s.trace) (hzero : s.outstanding id = 0) : Finished s.trace id :=
  h.finished ((h.accepted_iff id).mp ⟨true, bs, hmem⟩) hzero

theorem Inv.tracked_of_outstanding (h : s.Inv) (hpos : 0 < s.outstanding id) :
    s.progress.nextCommit ≤ id ∧ id < s.progress.nextReceived := by
  rw [← h.ordered.tracked_iff, ← isSome_iff_exists]
  by_contra hnone
  have hzero := h.untracked id (by simpa using hnone)
  omega

theorem Inv.outstanding_of_committed (h : s.Inv) (hid : id < s.progress.nextCommit) :
    s.outstanding id = 0 := by
  by_contra hne
  have htrack := h.tracked_of_outstanding (pos_of_ne_zero hne)
  omega

/-! ## Each operation keeps the invariant -/

variable {progress : DeliveryTracker} {receiverOpen : Bool}
    {delivery : Delivery S R} {conversion : Conversion S R K}
section
variable (h : s.Inv)
include h

theorem Inv.clearSerial : s.clearSerial.Inv := by
  unfold SinkState.clearSerial
  split
  next hs =>
    rw [and_eq_true] at hs
    exact { h with changelogs := fun id _ _ => .inr (outstanding_of_idle hs.2 id) }
  · exact h

theorem Inv.fail (fail : DataPlaneFailure) : (s.fail fail).Inv := { h with
    parked := by simp [SinkState.fail]
    ended := by simp [SinkState.fail] }

theorem Inv.changePhase {phase : Phase}
    (hparked : ∀ wanted, phase = .waiting wanted → s.buffers.entries.isEmpty = false →
      s.active.entries.isEmpty = false ∨ wanted.isSome)
    (hended : phase = .returned (.ok ()) → s.cancelled = false → s.idle) : Inv { s with phase } :=
  { h with parked := hparked, ended := hended }

theorem Inv.advance (hadvance : DeliveryTracker.Advanced s.progress progress) :
    Inv { s with progress } := by
  refine
    { h with
      ordered := hadvance.ordered, first := h.first.trans hadvance.commit_le, remaining := ?_
      untracked := ?_, accepted_iff := ?_, changelogs := ?_
      committed := fun id hid => (h.committed id hid).trans_le hadvance.commit_le }
  · intro id state hs
    have htrack := (hadvance.ordered.tracked_iff id).mp ⟨state, hs⟩
    rw [hadvance.lookup_eq id htrack.1] at hs
    exact h.remaining id state hs
  · intro id hnone
    by_cases hcommit : progress.nextCommit ≤ id
    · exact h.untracked id ((hadvance.lookup_eq id hcommit).symm.trans hnone)
    by_cases hbefore : id < s.progress.nextCommit
    · exact h.outstanding_of_committed hbefore
    obtain ⟨state, hs, hzero⟩ := hadvance.finished id (by omega) (by omega)
    exact (h.remaining id state hs).symm.trans hzero
  · intro id
    rw [h.accepted_iff id, hadvance.received_eq]
  intro id bs hmem
  simp only [hadvance.received_eq]
  exact h.changelogs id bs hmem

theorem Inv.acknowledge (hid : id < s.progress.nextCommit) :
    Inv { s with trace := s.trace ++ [.committedThrough id] } := by
  have hzero : ∀ other ≤ id,
    s.outstanding other = 0 := fun other hle => h.outstanding_of_committed (hle.trans_lt hid)
  refine
    { h with
      accepted_iff := by simpa using h.accepted_iff
      flow := by simpa [SinkTrace.acceptedOn, SinkTrace.insertedOn] using h.flow
      started := by simpa using h.started
      succeeded := by simpa using h.succeeded
      numbered := by simpa [SinkTrace.startedIndex] using h.numbered
      changelogs := fun other batches hmem => h.changelogs other batches (by simpa using hmem)
      received := by simpa using h.received
      committed := ?_, justified := h.justified.append_singleton ?_
      stored := h.stored.append ?_ (by simp) }
  · intro other hmem
    simp only [mem_append, mem_singleton, SinkTrace.committedThrough.injEq] at hmem
    obtain hmem | rfl := hmem
    · exact h.committed other hmem
    · exact hid
  · intro other hpos hle
    have hcommit := h.ordered.commit_le
    exact h.finished ⟨hpos, by omega⟩ (hzero other hle)
  rintro _ ⟨⟩ index table batches hstarted ⟨buffered, hbuf, hle⟩
  exact h.succeeded_of_started hstarted hbuf (hzero _ hle)

theorem Inv.emitCommitted (hok : s.emitCommitted receiverOpen = .ok t) :
    t.Inv ∧ t.phase = s.phase ∧ t.idle = s.idle ∧ t.cancelled = s.cancelled := by
  obtain ⟨ha, _, ht⟩ := takeCommitted_spec h.ordered
  unfold SinkState.emitCommitted at hok
  split at hok
  next progress htake =>
    cases hok
    rw [htake] at ha
    exact ⟨h.advance ha, rfl, rfl, rfl⟩
  rename_i committed progress htake
  split at hok
  · cases hok
    simp only [htake, map_some] at ha ht
    split at ht
    · cases ht
    have hle := ha.commit_le
    have hid := some.inj ht
    exact ⟨(h.advance ha).acknowledge (by simp only; omega), rfl, rfl, rfl⟩
  · cases hok

theorem Inv.accepts {prepared : List (String × RecordBatch S R)}
    {serial : Bool} {phase : Phase}
    (hprog : s.progress.accept delivery.id prepared.length delivery.sourceMessages = .ok progress)
    (hq : ∀ id bs, .accepted id true bs ∈ s.trace → s.outstanding id = 0)
    (hpend : ∀ waiting, s.pendingChangelog = some waiting → waiting = delivery)
    (hserial : deliveryIsChangelog delivery → serial)
    (hp : phase = .turning ∨ phase = .flushing) :
    Inv
      { s with
        progress, buffers := bufferBatches s.now delivery.id s.buffers prepared
        pendingChangelog := none, serialChangelogActive := serial, phase
        overflowed := s.overflowed ||
          !countable (bufferBatches s.now delivery.id s.buffers prepared)
        trace := s.trace ++
          [.accepted delivery.id (deliveryIsChangelog delivery) (prepared.map fun entry =>
              (entry.1, bufferedBatch delivery.id entry.2))] } := by
  have hordered := ordered_accept h.ordered hprog
  obtain ⟨hid, rfl⟩ := accept_ok hprog
  have hnew : s.outstanding delivery.id = 0 := by
    by_contra hne
    have htrack := h.tracked_of_outstanding (pos_of_ne_zero hne)
    omega
  have hcommit := h.ordered.commit_le
  have hfst := h.first
  refine
    { h with
      ordered := hordered, named := named_bufferBatches prepared h.named, remaining := ?_
      untracked := ?_, accepted_iff := ?_, flow := ?_, started := by simpa using h.started
      succeeded := by simpa using h.succeeded
      numbered := by simpa [SinkTrace.startedIndex] using h.numbered
      changelogs := ?_, received := ?_, pending := by simp
      committed := by simpa using h.committed
      justified := h.justified.append_singleton ?_, stored := h.stored.append (by simp) (by simp)
      counted := ?_, parked := by rcases hp with rfl | rfl <;> simp
      ended := by rcases hp with rfl | rfl <;> simp }
  · intro id state hs
    simp only [outstanding, held_bufferBatches] at hnew ⊢
    by_cases hother : id = delivery.id
    · subst hother
      rw [lookup_insert] at hs
      cases hs
      simp only [if_true]
      omega
    rw [lookup_insert_ne hother] at hs
    have hold := h.remaining id state hs
    simp only [outstanding] at hold
    simp only [Ne.symm hother, if_false]
    omega
  · intro id hnone
    by_cases hother : id = delivery.id
    · subst hother
      simp at hnone
    rw [lookup_insert_ne hother] at hnone
    have hold := h.untracked id hnone
    simp only [outstanding, held_bufferBatches] at hold ⊢
    simp only [Ne.symm hother, if_false]
    omega
  · intro id
    have hold := h.accepted_iff id
    simp only [mem_append, mem_singleton, SinkTrace.accepted.injEq, exists_or, hold]
    constructor
    · rintro (hlt | ⟨_, _, rfl, _⟩)
      · omega
      · omega
    intro hlt
    by_cases hother : id = delivery.id
    · exact .inr ⟨_, _, hother, rfl, rfl⟩
    · exact .inl (by omega)
  · intro table
    simp [buffered_bufferBatches, SinkTrace.acceptedOn, SinkTrace.insertedOn,
      h.flow table, List.filter_map, Function.comp_def]
  · intro id bs hmem
    simp only [mem_append, mem_singleton, SinkTrace.accepted.injEq] at hmem
    obtain hmem | ⟨rfl, hc, _⟩ := hmem
    · have hlt := (h.accepted_iff id).mp ⟨true, bs, hmem⟩
      have hzero := hq id bs hmem
      simp only [outstanding, held_bufferBatches] at hzero ⊢
      rw [if_neg (by omega)]
      omega
    exact .inl ⟨hserial hc.symm, by simp [hid]⟩
  · intro id hmem
    have hmem : .received id true ∈ s.trace := by simpa using hmem
    refine .inr ?_
    obtain ⟨waiting, hwait, rfl⟩ | ⟨bs, hb⟩ := h.received id hmem
    · have hc := h.pending waiting hwait
      cases hpend waiting hwait
      exact ⟨_, mem_append_right _ (by
        rw [hc]
        exact mem_singleton_self _)⟩
    exact ⟨bs, by simp [hb]⟩
  · intro other hmem
    obtain ⟨waiting, hwait, rfl⟩ | ⟨bs, hb⟩ := h.received other hmem
    · exact .inl (congrArg Delivery.id (hpend waiting hwait))
    · exact .inr (h.finished_of_changelog hb (hq other bs hb))
  intro hoverflow
  simp only [Bool.or_eq_false_iff, Bool.not_eq_eq_eq_not] at hoverflow
  exact counted_bufferBatches prepared (h.counted hoverflow.1) hoverflow.2

end

theorem accept_ok (h : s.accept conversion delivery = .ok t) : ∃ prepared progress,
      s.progress.accept delivery.id prepared.length delivery.sourceMessages = .ok progress ∧
      t = { s with
          progress, buffers := bufferBatches s.now delivery.id s.buffers prepared
          overflowed := s.overflowed ||
            !countable (bufferBatches s.now delivery.id s.buffers prepared)
          trace := s.trace ++
            [.accepted delivery.id (deliveryIsChangelog delivery) (prepared.map fun entry =>
                (entry.1, bufferedBatch delivery.id entry.2))] } := by
  unfold accept at h
  split at h
  · cases h
  split at h
  · cases h
  rename_i prepared _
  split at h
  · cases h
  rename_i progress hp
  cases h
  exact ⟨prepared, progress, hp, rfl⟩

theorem Inv.inserts_first (h : s.Inv) [DecidableEq S]
    {config : ClickHouseSinkConfig} {table : String}
    {insert : ActiveInsert S R} {buffers : Buffers S R}
    (htake : takeInsert config s.buffers table = .ok (insert, buffers))
    (hp : s.phase = .flushing) :
    Inv
      { s with
        buffers, active := s.active.insert s.inserts (.start insert)
        inserts := s.inserts + 1, trace := s.trace ++
          [.insertStarted s.inserts insert.table insert.batches] } := by
  obtain ⟨htable, hnamed⟩ := named_takeInsert htake h.named
  have hfresh : s.active.lookup s.inserts = none := by
    by_contra hsome
    obtain ⟨task, htask⟩ := ne_none_iff_exists'.mp hsome
    exact lt_irrefl _ (h.running _ task htask)
  have hsame : ∀ id, held buffers id + total (fun task : InsertTask S R => countOf
      id task.insert.batches) (s.active.insert s.inserts (.start insert)) = s.outstanding id := by
    intro id
    have hheld := held_takeInsert htake id
    have htotal := total_insert_of_none
      (fun task : InsertTask S R => countOf id task.insert.batches) hfresh (.start insert)
    simp only [InsertTask.start] at htotal ⊢
    unfold outstanding
    omega
  have hbatch : ∀ buffered ∈ insert.batches, s.progress.nextCommit ≤ buffered.deliveryId ∧
      buffered.deliveryId < s.progress.nextReceived := by
    intro buffered hbuf
    apply h.tracked_of_outstanding
    have hheld := held_takeInsert htake buffered.deliveryId
    have hpos : 0 < countOf buffered.deliveryId insert.batches :=
      countP_pos_iff.mpr ⟨buffered, hbuf, by simp⟩
    unfold outstanding
    omega
  refine
    { h with
      named := hnamed, remaining := fun id state hs =>
        (h.remaining id state hs).trans (hsame id).symm
      untracked := fun id hnone => (hsame id).trans (h.untracked id hnone)
      accepted_iff := by simpa using h.accepted_iff
      flow := ?_, started := ?_, succeeded := ?_, numbered := ?_, running := ?_, changelogs := ?_
      received := by simpa using h.received
      committed := by simpa using h.committed
      justified := h.justified.append_singleton ?_, stored := h.stored.append (by simp) ?_
      counted := fun ho => counted_takeInsert htake (h.counted ho)
      parked := by simp
      ended := by simp [hp] }
  · intro other
    simp only [acceptedOn_append, insertedOn_append, SinkTrace.acceptedOn, SinkTrace.insertedOn,
      h.flow other, buffered_takeInsert htake other, htable]
    by_cases hother : other = table
    · simp [hother]
    · simp [hother, Ne.symm hother]
  · intro index tgt bs hmem
    simp only [mem_append, mem_singleton] at hmem
    obtain hmem | ⟨rfl, rfl, rfl⟩ := hmem
    · obtain hsucceeded | ⟨task, htask, hbatches⟩ := h.started index tgt bs hmem
      · exact .inl (mem_append_left _ hsucceeded)
      have hne : index ≠ s.inserts := (h.running index task htask).ne
      exact .inr ⟨task, (lookup_insert_ne hne).trans htask, hbatches⟩
    exact .inr ⟨.start insert, lookup_insert _, rfl⟩
  · intro index task htask hok
    obtain ⟨_, rfl⟩ | hold := lookup_insert_cases htask
    · cases hok
    · exact mem_append_left _ (h.succeeded index task hold hok)
  · simp [h.numbered, SinkTrace.startedIndex, range_succ]
  · intro index task htask
    obtain ⟨rfl, _⟩ | hold := lookup_insert_cases htask
    · exact lt_succ_self _
    · exact lt_succ_of_lt (h.running index task hold)
  · intro id bs hmem
    exact (h.changelogs id bs (by simpa using hmem)).imp_right (hsame id).trans
  · intro buffered hbuf other bs hother hlt
    obtain ⟨_, hlast⟩ | hzero := h.changelogs other bs hother
    · have hr := hbatch buffered hbuf
      omega
    exact h.finished_of_changelog hother hzero
  rintro _ _ _ ⟨⟩ id hid buffered hbuf
  exact (h.committed id hid).trans_le (hbatch buffered hbuf).1

theorem Inv.completes (h : s.Inv) (htask : s.active.lookup index = some task)
    (hok : task.outcome = some (.ok ()))
    (hprogress : completeBatches s.progress task.insert.batches = .ok progress) :
    Inv { s with progress, active := s.active.erase index, phase := .turning } := by
  have hc := completed_of_completeBatches h.ordered hprogress
  have hrest :
      ∀ id, s.buffers.held id + total (fun task : InsertTask S R => countOf id task.insert.batches)
      (s.active.erase index) + countOf id task.insert.batches = s.outstanding id := by
    intro id
    have herase := total_erase (fun task : InsertTask S R => countOf id task.insert.batches) htask
    unfold outstanding
    omega
  refine
    { h with
      ordered := hc.ordered, first := h.first.trans hc.commit_eq.ge, remaining := ?_
      untracked := ?_, accepted_iff := ?_, started := ?_, succeeded := fun other found hget =>
        h.succeeded other found (lookup_of_lookup_erase hget)
      running := fun other found hget => h.running other found (lookup_of_lookup_erase hget)
      changelogs := ?_, committed := fun id hid => (h.committed id hid).trans_le
          hc.commit_eq.ge
      parked := by simp
      ended := by simp }
  · intro id state hs
    obtain ⟨before, hbefore, hcount⟩ := hc.tracked id state hs
    have hsum := h.remaining id before hbefore
    have hsplit := hrest id
    simp only [outstanding] at hsum hsplit ⊢
    omega
  · intro id hnone
    have hsum := h.untracked id (hc.missing id hnone)
    have hsplit := hrest id
    simp only [outstanding] at hsum hsplit ⊢
    omega
  · intro id
    rw [h.accepted_iff id, hc.received_eq]
  · intro other table bs hmem
    obtain hsucceeded | ⟨found, hget, hbatches⟩ := h.started other table bs hmem
    · exact .inl hsucceeded
    by_cases hother : other = index
    · subst hother
      cases htask.symm.trans hget
      exact .inl (h.succeeded other task htask hok)
    exact .inr ⟨found, (lookup_erase_ne hother).trans hget, hbatches⟩
  intro id bs hmem
  simp only [hc.received_eq]
  refine (h.changelogs id bs hmem).imp_right fun hzero => ?_
  have hsplit := hrest id
  simp only [outstanding] at hzero hsplit ⊢
  omega

theorem Inv.replaceTask (h : s.Inv) (htask : s.active.lookup index = some task)
    (hinsert : next.insert = task.insert)
    (hok : next.outcome = some (.ok ()) → .insertSucceeded index ∈ s.trace) (hlive : s.live) :
    Inv { s with active := s.active.insert index next } := by
  have hsame : ∀ id, s.buffers.held id +
      total (fun task : InsertTask S R => countOf id task.insert.batches)
        (s.active.insert index next) = s.outstanding id := by
    intro id
    have htotal := total_insert_of_lookup
      (fun task : InsertTask S R => countOf id task.insert.batches) htask next
    rw [hinsert] at htotal
    unfold outstanding
    omega
  refine
    { h with
      remaining := fun id state hs => (h.remaining id state hs).trans (hsame id).symm
      untracked := fun id hnone => (hsame id).trans (h.untracked id hnone)
      started := ?_, succeeded := ?_, running := ?_, changelogs := fun id batches hmem =>
        (h.changelogs id batches hmem).imp_right (hsame id).trans
      parked := fun _ _ _ => .inl (by simp)
      ended := ?_ }
  · intro other table batches hmem
    apply (h.started other table batches hmem).imp_right
    rintro ⟨found, hget, hb⟩
    by_cases hother : other = index
    · subst hother
      cases htask.symm.trans hget
      exact ⟨next, lookup_insert _, by rw [hinsert, hb]⟩
    exact ⟨found, (lookup_insert_ne hother).trans hget, hb⟩
  · intro other found hget
    obtain ⟨rfl, rfl⟩ | hold := lookup_insert_cases hget
    · exact hok
    · exact h.succeeded other found hold
  · intro other found hget
    obtain ⟨rfl, rfl⟩ | hold := lookup_insert_cases hget
    · exact h.running other task htask
    · exact h.running other found hold
  intro hp
  simp only at hp
  simp [live, hp] at hlive

theorem Inv.observeSuccess (h : s.Inv) (index : ℕ) :
    Inv { s with trace := s.trace ++ [.insertSucceeded index] } :=
  { h with
    accepted_iff := by simpa using h.accepted_iff
    flow := by simpa [SinkTrace.acceptedOn, SinkTrace.insertedOn] using h.flow
    started := by
      intro other table bs hmem
      apply (h.started other table bs (by simpa using hmem)).imp_left
      exact mem_append_left _
    succeeded := fun other task htask hok => mem_append_left _ (h.succeeded other task htask hok)
    numbered := by simpa [SinkTrace.startedIndex] using h.numbered
    changelogs := fun id bs hmem => h.changelogs id bs (by simpa using hmem)
    received := by simpa using h.received
    committed := by simpa using h.committed
    justified := h.justified.append_singleton trivial
    stored := h.stored.append (by simp) (by simp) }

theorem Inv.receives (h : s.Inv) (dlv : Delivery S R) (pending : Option (Delivery S R))
    (hnone : s.pendingChangelog = none)
    (hpend : pending = if deliveryIsChangelog dlv then some dlv else none) :
    Inv { s.observeReceived dlv with pendingChangelog := pending, phase := .turning } := by
  simp only [observeReceived]
  refine
    { h with
      accepted_iff := by simpa using h.accepted_iff
      flow := by simpa [SinkTrace.acceptedOn, SinkTrace.insertedOn] using h.flow
      started := by simpa using h.started
      succeeded := by simpa using h.succeeded
      numbered := by simpa [SinkTrace.startedIndex] using h.numbered
      changelogs := fun id batches hmem => h.changelogs id batches (by simpa using hmem)
      received := ?_, pending := ?_, committed := by simpa using h.committed
      justified := h.justified.append_singleton trivial
      stored := h.stored.append (by simp) (by simp)
      parked := by simp
      ended := by simp }
  · intro id hmem
    simp only [mem_append, mem_singleton, SinkTrace.received.injEq] at hmem
    obtain hmem | ⟨rfl, hc⟩ := hmem
    · obtain ⟨waiting, hwait, _⟩ | ⟨batches, hbatches⟩ := h.received id hmem
      · cases hnone.symm.trans hwait
      · exact .inr ⟨batches, mem_append_left _ hbatches⟩
    exact .inl ⟨dlv, by simp [hpend, ← hc], rfl⟩
  intro waiting hwait
  rw [hpend] at hwait
  split at hwait
  · cases hwait
    assumption
  · cases hwait

/-! ## Each step keeps the invariant -/

theorem Inv.acceptPending (h : s.Inv) (hok : s.acceptPending conversion = .ok t) :
    Inv { t with phase := .flushing } := by
  unfold SinkState.acceptPending at hok
  split at hok
  · cases hok
    exact h.changePhase (by simp) (by simp)
  rename_i delivery hpend
  split at hok
  next hidle =>
    simp only [Except.map] at hok
    split at hok
    · cases hok
    rename_i accepted haccept
    cases hok
    obtain ⟨prepared, progress, hp, rfl⟩ := accept_ok haccept
    refine h.accepts hp (fun id _ _ => outstanding_of_idle hidle id) ?_ (fun _ => rfl) (.inr rfl)
    intro waiting hwait
    rw [hpend] at hwait
    exact (some.inj hwait).symm
  · cases hok
    exact h.changePhase (by simp) (by simp)

theorem Inv.turn (h : s.Inv) (hstep : s.turn receiverOpen conversion = some t) : t.Inv := by
  unfold SinkState.turn at hstep
  split at hstep
  · split at hstep
    · cases hstep
      exact h.fail _
    rename_i emitted hemitted
    have hnext := (h.emitCommitted hemitted).1
    split at hstep
    · cases hstep
      exact hnext.fail _
    rename_i accepted ha
    cases hstep
    exact hnext.clearSerial.acceptPending ha
  · cases hstep

theorem Inv.flush (h : s.Inv) [DecidableEq S] {config : ClickHouseSinkConfig} {table : String}
    {pressured : Bool} (hstep : s.flush config table pressured = some t) : t.Inv := by
  unfold SinkState.flush at hstep
  split at hstep
  next hp _ =>
    simp only [ite_none_right_eq_some] at hstep
    obtain ⟨_, hstep⟩ := hstep
    split at hstep
    · cases hstep
      exact h.fail _
    rename_i insert bufs htake
    cases hstep
    exact h.inserts_first htake hp
  · cases hstep

theorem Inv.finish (h : s.Inv) (receiverOpen : Bool) (hidle : s.idle) :
    (s.finish receiverOpen).Inv := by
  unfold SinkState.finish
  split
  · exact h.fail _
  rename_i emitted hemitted
  obtain ⟨hnext, _, hsame, _⟩ := h.emitCommitted hemitted
  split
  · exact hnext.changePhase (by simp) fun _ _ => hsame.trans hidle
  · exact hnext.fail _

theorem deadline_isSome [DecidableEq S] (pressured : Bool) (h : s.buffers.entries.isEmpty = false) :
    (s.deadline cfg pressured).isSome := by
  simp only [deadline, nextFlush]
  cases hentries : s.buffers.entries with
  | nil => simp [hentries] at h
  | cons entry rest => simp

section
variable (h : s.Inv)
include h

theorem Inv.wait [DecidableEq S] {pressured pressuredLater : Bool}
    (hstep : s.wait cfg pressured pressuredLater receiverOpen = some t) : t.Inv := by
  unfold SinkState.wait at hstep
  split at hstep
  · simp only [ite_none_right_eq_some] at hstep
    obtain ⟨_, hstep⟩ := hstep
    split at hstep
    next hdrained =>
      cases hstep
      simp only [drained, and_eq_true] at hdrained
      exact h.finish receiverOpen hdrained.2
    · cases hstep
      refine h.changePhase ?_ (by simp)
      rintro wanted ⟨⟩ hbuf
      by_cases hslot : s.hasSlot cfg
      · rw [if_pos hslot]
        exact .inr (deadline_isSome pressuredLater hbuf)
      have hr := cfg.concurrency_range.1
      have hfull : cfg.insertConcurrency ≤ s.active.entries.length := by simpa [hasSlot] using hslot
      rw [eq_false_iff, Ne, isEmpty_iff_length_eq_zero]
      omega
  · cases hstep

theorem Inv.complete (hstep : s.complete index = some t) : t.Inv := by
  unfold SinkState.complete at hstep
  simp only [ite_none_right_eq_some] at hstep
  obtain ⟨_, hstep⟩ := hstep
  split at hstep
  · cases hstep
  rename_i task htask
  split at hstep
  · cases hstep
  · cases hstep
    exact h.fail _
  rename_i hok
  split at hstep
  · cases hstep
    exact h.fail _
  rename_i progress hp
  cases hstep
  exact h.completes htask hok hp

theorem Inv.receive (hstep : s.receive delivery conversion = some t) : t.Inv := by
  obtain ⟨bufs, progress, active, inserts, inputClosed, pending, serial,
    cancelled, now, phase, overflowed, trace⟩ := s
  simp only [SinkState.receive, readsInput, ite_none_right_eq_some,
    Bool.and_eq_true, Bool.not_eq_eq_eq_not, isNone_iff_eq_none] at hstep
  obtain ⟨⟨⟨_, rfl⟩, rfl⟩, hstep⟩ := hstep
  split at hstep
  next hc =>
    cases hstep
    exact h.receives delivery (some delivery) rfl (by simp [hc])
  rename_i hc
  have hr := h.receives delivery none rfl (by simp [hc])
  split at hstep
  · cases hstep
    exact hr.fail _
  rename_i accepted haccept
  cases hstep
  obtain ⟨prepared, next, hp, rfl⟩ := accept_ok haccept
  refine hr.accepts hp ?_ (by simp) (by simp [hc]) (.inl rfl)
  intro id bs hmem
  obtain ⟨hserial, _⟩ | hzero := hr.changelogs id bs hmem
  · cases hserial
  · exact hzero

theorem Inv.changeTask {chg : InsertTask S R → Option (InsertTask S R)}
    (hstep : s.changeTask index chg = some t)
    (hc : ∀ task next, chg task = some next →
      next.insert = task.insert ∧
        (next.outcome = some (.ok ()) → .insertSucceeded index ∈ s.trace)) : t.Inv := by
  unfold SinkState.changeTask at hstep
  simp only [ite_none_right_eq_some] at hstep
  obtain ⟨hlive, hstep⟩ := hstep
  split at hstep
  · cases hstep
  rename_i task htask
  obtain ⟨next, hnext, rfl⟩ := map_eq_some_iff.mp hstep
  obtain ⟨hinsert, hok⟩ := hc task next hnext
  exact h.replaceTask htask hinsert hok hlive

theorem Inv.answer {res : Except InsertError Unit} (hstep : s.answer cfg index res = some t) :
    t.Inv := by
  obtain ⟨next, hnext, rfl⟩ := map_eq_some_iff.mp hstep
  cases res with
  | error error =>
    apply h.changeTask hnext
    intro task changed hchanged
    obtain ⟨hinsert, hok⟩ := answer_some hchanged
    exact ⟨hinsert, fun hsome => by cases hok hsome⟩
  | ok =>
    -- The success is recorded first, so that the finished task is backed
    -- by the trace.
    have hsuccess := h.observeSuccess index
    simp only [SinkState.changeTask, ite_none_right_eq_some] at hnext
    obtain ⟨hlive, hnext⟩ := hnext
    split at hnext
    · cases hnext
    rename_i task htask
    obtain ⟨changed, hchanged, rfl⟩ := map_eq_some_iff.mp hnext
    exact hsuccess.replaceTask htask (answer_some hchanged).1 (fun _ => by simp) hlive

theorem Inv.step [DecidableEq S] {label : SinkLabel S R K} (hstep : s.step cfg label = some t) :
    t.Inv := by
  cases label with
    simp only [SinkState.step, ite_none_right_eq_some, observeCancellation, and_eq_true,
      closeInput, timer, openSession] at hstep
  | cancel =>
    cases hstep
    exact { h with ended := by simp }
  | tick elapsed =>
    cases hstep
    exact { h with }
  | answer index res => exact h.answer hstep
  | wake index =>
    refine h.changeTask hstep fun task next hnext => ?_
    obtain ⟨hi, hok⟩ := wake_some hnext
    exact ⟨hi, fun hsome => absurd hsome hok⟩
  | cancelTask index =>
    refine h.changeTask hstep.2 fun task next hnext => ?_
    obtain ⟨hi, hok⟩ := cancel_some hnext
    exact ⟨hi, fun hsome => absurd hsome hok⟩
  | turn receiverOpen conversion => exact h.turn hstep
  | flush table pressured => exact h.flush hstep
  | wait pressured pressuredLater receiverOpen => exact h.wait hstep
  | observeCancellation =>
    obtain ⟨⟨_, hc⟩, hstep⟩ := hstep
    cases hstep
    exact h.changePhase (by simp) (by simp [hc])
  | complete index => exact h.complete hstep
  | receive delivery conversion => exact h.receive hstep
  | closeInput =>
    cases hstep.2
    exact { h with parked := by simp, ended := by simp }
  | timer =>
    split at hstep
    · simp only [ite_none_right_eq_some] at hstep
      cases hstep.2
      exact h.changePhase (by simp) (by simp)
    · cases hstep
  | openSession =>
    split at hstep
    · simp only [ite_none_left_eq_some] at hstep
      cases hstep.2
      exact { h with parked := by simp, ended := by simp }
    · cases hstep

end

/-! ## The sink -/

theorem inv_of_reachable [DecidableEq S]
    (hreach :
      Reachable (step cfg : SinkState S R → SinkLabel S R K → Option (SinkState S R)) start s) :
    s.Inv :=
  hreach.invariant (fun _ _ _ h hstep => h.step hstep) inv_start

/-- A delivery is accepted, and a batch inserted, only after the changelog
deliveries before it are finished.  The accepted batches of a table are those in
its inserts, in order, followed by the buffered ones; nothing is buffered when a
session ends with its input, and an actor that waits while something is buffered
has an insert in flight or a deadline.  The counters of a buffer are the sums
over its batches unless these exceed a machine word.  An acknowledgement is sent
when every delivery up to it is finished, and every insert with rows of these
deliveries has succeeded before it. -/
theorem sinkOrder_and_acknowledgement [DecidableEq S] {config : ClickHouseSinkConfig}
    (hreach : Reachable (step config : SinkState S R → SinkLabel S R K → Option (SinkState S R))
      start s) :
    (∀ before id changelog batches after,
      s.trace = before ++ .accepted id changelog batches :: after →
      ∀ other, .received other true ∈ before → other = id ∨ Finished before other) ∧
    (∀ before index table batches after,
      s.trace = before ++ .insertStarted index table batches :: after →
      ∀ buffered ∈ batches, ∀ other earlier,
        .accepted other true earlier ∈ before → other < buffered.deliveryId →
        Finished before other) ∧
    (∀ table, acceptedOn table s.trace = insertedOn table s.trace ++ s.buffers.buffered table) ∧
    startedIndexes s.trace = range s.inserts ∧
    (s.phase = .returned (.ok ()) → s.cancelled = false →
      ∀ table, acceptedOn table s.trace = insertedOn table s.trace) ∧
    (∀ wanted, s.phase = .waiting wanted → ∀ table, s.buffers.buffered table ≠ [] →
        s.active.entries.isEmpty = false ∨ wanted.isSome) ∧
    (s.overflowed = false → ∀ table buffer, s.buffers.lookup table = some buffer →
        buffer.rows = buffer.batchRows ∧ buffer.bytes = buffer.batchBytes) ∧
    (∀ before id after, s.trace = before ++ .committedThrough id :: after →
      (∀ other, 1 ≤ other → other ≤ id → Finished before other) ∧
      ∀ index table batches, .insertStarted index table batches ∈ s.trace →
        (∃ buffered ∈ batches, buffered.deliveryId ≤ id) →
        .insertSucceeded index ∈ before) := by
  have h := inv_of_reachable hreach
  refine ⟨?_, ?_, h.flow, h.numbered, ?_, ?_, ?_, ?_⟩
  · intro before id changelog batches after hsplit
    exact h.justified before _ after hsplit
  · intro before index table batches after hsplit
    exact h.justified before _ after hsplit
  · intro hp hc table
    have hidle := h.ended hp hc
    simp only [idle, and_eq_true, List.isEmpty_iff] at hidle
    have he : s.buffers = ∅ := ext hidle.1
    rw [h.flow table, he]
    exact List.append_nil _
  · intro wanted hp table hbuf
    apply h.parked wanted hp
    rw [eq_false_iff, Ne, List.isEmpty_iff]
    intro hnil
    have he : s.buffers = ∅ := ext hnil
    rw [he] at hbuf
    exact hbuf rfl
  · intro ho table buffer hlook
    have hcounted := h.counted ho table buffer hlook
    exact ⟨hcounted.rows_eq, hcounted.bytes_eq⟩
  intro before id after hsplit
  exact ⟨h.justified before _ after hsplit, h.stored before id after hsplit⟩

section Example

def smallConfig : ClickHouseSinkConfig where
  insertTargetRows := 1
  insertTargetBytes := 64
  insertConcurrency := 2
  flushIntervalMs := 100
  retryMaxAttempts := 3
  targetRows_pos := by decide
  targetBytes_pos := by decide
  concurrency_range := by decide
  flushInterval_pos := by decide
  retryMaxAttempts_pos := by decide

def appendAll : Conversion Unit ℕ Unit where
  validateBatch _ := .ok ()
  projectSinkBatch output := .ok (.appendOnly output.batch)
  clickhouseChangelogBatches _ _ := .ok []

def ordersBatch (row : ℕ) : RecordBatch Unit ℕ :=
  { schema := (), rows := [row], arrayMemorySize := 8 }

def ordersDelivery (id : ℕ) (systemColumns : List SystemColumnKind) : Delivery Unit ℕ :=
  { id
    outputs := [{ table := "orders", batch := ordersBatch id, systemColumns }]
    sourceMessages := 1 }

/-- A delivery, then a changelog delivery that waits for it, then the end of
the input. -/
def appendThenChangelog : List (SinkLabel Unit ℕ Unit) :=
  [.turn true appendAll, .wait false false true,
    .receive (ordersDelivery 1 []) appendAll, .turn true appendAll,
    .flush "orders" false, .wait false false true,
    .receive (ordersDelivery 2 [.changeOperation]) appendAll,
    .turn true appendAll, .wait false false true,
    .answer 0 (.error (.transient "timeout")), .wake 0, .answer 0 (.ok ()),
    .complete 0, .turn true appendAll, .flush "orders" false,
    .wait false false true, .answer 1 (.ok ()), .complete 1,
    .turn true appendAll, .wait false false true, .closeInput,
    .turn true appendAll, .wait false false true]

theorem sinkOrder_and_acknowledgement_appendThenChangelog :
    ∃ s : SinkState Unit ℕ, exec (step smallConfig) start appendThenChangelog = some s ∧
      s.phase = .returned (.ok ()) ∧
      s.trace = [.received 1 false, .accepted 1 false [("orders", bufferedBatch 1 (ordersBatch 1))],
          .insertStarted 0 "orders" [bufferedBatch 1 (ordersBatch 1)],
          .received 2 true, .insertSucceeded 0, .committedThrough 1,
          .accepted 2 true [("orders", bufferedBatch 2 (ordersBatch 2))],
          .insertStarted 1 "orders" [bufferedBatch 2 (ordersBatch 2)],
          .insertSucceeded 1, .committedThrough 2] ∧
      acceptedOn "orders" s.trace = insertedOn "orders" s.trace := by
  have hruns : ∃ s : SinkState Unit ℕ, exec (step smallConfig) start appendThenChangelog = some s ∧
      s.phase = .returned (.ok ()) ∧ s.cancelled = false ∧ s.trace = [.received 1 false,
          .accepted 1 false [("orders", bufferedBatch 1 (ordersBatch 1))],
          .insertStarted 0 "orders" [bufferedBatch 1 (ordersBatch 1)],
          .received 2 true, .insertSucceeded 0, .committedThrough 1,
          .accepted 2 true [("orders", bufferedBatch 2 (ordersBatch 2))],
          .insertStarted 1 "orders" [bufferedBatch 2 (ordersBatch 2)],
          .insertSucceeded 1, .committedThrough 2] := ⟨_, rfl, rfl, rfl, rfl⟩
  obtain ⟨s, hexec, hp, hc, ht⟩ := hruns
  obtain ⟨_, _, _, _, hdone, _⟩ := sinkOrder_and_acknowledgement ⟨appendThenChangelog, hexec⟩
  exact ⟨s, hexec, hp, ht, hdone hp hc "orders"⟩

end Example
end SinkState
end Transferia.ClickHouse
