import Transferia.Pipeline.RowCount
import Transferia.Support.Action
import Transferia.Support.Transition

/-!
# Exact row totals

The parser registers datasets and observes deliveries in the order of their
ids while the reader validates and commits prefixes of them.  The committed
total of a dataset is the number of its rows in the committed prefix, and the
runner adds up the prefixes of all attempts.
-/

namespace Transferia.Pipeline
open List Option Support OrderedMap Function
open OrderedMap (amount)

def rowsOf (outputs : List OutputBatch) (key : DatasetKey) : ℕ :=
  ((outputs.filter (·.key = key)).map OutputBatch.rows).sum

def rowsAt (rows : List (DatasetKey × ℕ)) (key : DatasetKey) : ℕ :=
  ((rows.filter (·.1 = key)).map Prod.snd).sum

theorem rowsOf_cons (out : OutputBatch) (outs : List OutputBatch) (key : DatasetKey) :
    rowsOf (out :: outs) key = (if key = out.key then out.rows else 0) + rowsOf outs key := by
  by_cases hkey : key = out.key
  · simp [rowsOf, hkey]
  · simp [rowsOf, hkey, Ne.symm hkey]

theorem rowsAt_cons (row : DatasetKey × ℕ) (rows : List (DatasetKey × ℕ)) (key : DatasetKey) :
    rowsAt (row :: rows) key = (if key = row.1 then row.2 else 0) + rowsAt rows key := by
  by_cases hkey : key = row.1
  · simp [rowsAt, hkey]
  · simp [rowsAt, hkey, Ne.symm hkey]

theorem checkedAdd_eq_some {left right sum : ℕ} :
    checkedAdd left right = some sum ↔ left + right < 2 ^ 64 ∧ left + right = sum := by
  unfold checkedAdd
  split <;> simp_all

namespace OutputRowCounts

/-! ## What the loops compute -/

variable {result : OrderedMap DatasetKey ℕ} {rows : List (DatasetKey × ℕ)}
    {counts : OutputRowCounts} {next : OrderedMap DatasetKey ℕ}

theorem observeOutputs_amount {comm dlv : OrderedMap DatasetKey ℕ}
    {outs : List OutputBatch} (h : observeOutputs comm outs dlv = .ok result) (key : DatasetKey) :
    result.amount key = dlv.amount key + rowsOf outs key := by
  induction outs generalizing dlv with
  | nil =>
    cases h
    rfl
  | cons output rest ih =>
    unfold observeOutputs at h
    split at h
    · cases hsum : checkedAdd ((dlv.find? output.key).getD 0) output.rows with
      | none =>
        rw [hsum] at h
        cases h
      | some rows =>
        rw [hsum] at h
        obtain ⟨_, rfl⟩ := checkedAdd_eq_some.mp hsum
        rw [ih h, amount_insert, rowsOf_cons]
        by_cases hkey : key = output.key
        · simp only [hkey, if_true, amount]
          omega
        simp only [hkey, if_false]
        omega
    · cases h

theorem contains_insert (map : OrderedMap DatasetKey ℕ) (key other : DatasetKey) (rows : ℕ) :
    (map.insert key rows).contains other = (decide (other = key) || map.contains other) := by
  by_cases hkey : other = key
  · subst hkey
    simp [OrderedMap.contains, find?_insert_self]
  simp [OrderedMap.contains, find?_insert_ne _ _ hkey, hkey]

theorem addRows_ok (h : addRows rows next = .ok result) (key : DatasetKey) : result.amount key =
    next.amount key + rowsAt rows key ∧ result.contains key = next.contains key := by
  induction rows generalizing next with
  | nil =>
    cases h
    exact ⟨rfl, rfl⟩
  | cons row rest ih =>
    obtain ⟨name, count⟩ := row
    unfold addRows at h
    split at h
    · cases h
    rename_i cur hcur
    split at h
    · cases h
    rename_i sum hsum
    obtain ⟨_, rfl⟩ := checkedAdd_eq_some.mp hsum
    rw [(ih h).1, (ih h).2, amount_insert, rowsAt_cons, contains_insert]
    by_cases hkey : key = name
    · subst hkey
      refine ⟨?_, by simp [OrderedMap.contains, hcur]⟩
      simp only [if_true, amount, hcur, getD_some]
      omega
    refine ⟨?_, by simp [hkey]⟩
    simp only [hkey, if_false]
    omega

theorem addRows_of_lt (hknown : ∀ row ∈ rows, next.contains row.1)
    (hlt : ∀ key, next.amount key + rowsAt rows key < 2 ^ 64) :
    ∃ result, addRows rows next = .ok result := by
  induction rows generalizing next with
  | nil => exact ⟨next, rfl⟩
  | cons row rest ih =>
    obtain ⟨name, count⟩ := row
    obtain ⟨current, hcur⟩ := isSome_iff_exists.mp (hknown (name, count) mem_cons_self)
    have hamount : next.amount name = current := by simp [amount, hcur]
    have hbound := hlt name
    rw [rowsAt_cons] at hbound
    simp only [if_true] at hbound
    have hsum : checkedAdd current count = some (current + count) :=
      checkedAdd_eq_some.mpr ⟨by omega, rfl⟩
    simp only [addRows, hcur, hsum]
    apply ih
    · intro row hrow
      rw [contains_insert, hknown row (mem_cons_of_mem _ hrow)]
      simp
    intro key
    have hkeyBound := hlt key
    rw [rowsAt_cons] at hkeyBound
    rw [amount_insert]
    by_cases hkey : key = name
    · subst hkey
      simp only [if_true] at hkeyBound ⊢
      omega
    simpa [hkey] using hkeyBound

theorem rowsAt_flatMap {α : Type*} (maps : List (α × OrderedMap DatasetKey ℕ)) (key : DatasetKey) :
    rowsAt (maps.flatMap (·.2.entries)) key = (maps.map (·.2.amount key)).sum := by
  induction maps with
  | nil => rfl
  | cons entry rest ih =>
    rw [flatMap_cons, map_cons, sum_cons, ← ih, rowsAt,
      filter_append, map_append, sum_append, sum_entries_of_key]
    rfl

section
variable {id : ℕ} {totals : OrderedMap DatasetKey ℕ}
  (h : counts.validatedCommittedCounts id = .ok totals)
include h

theorem validated_amount (key : DatasetKey) :
    totals.amount key =
      counts.committed.amount key +
        ((counts.pending.entries.filter (·.1 ≤ id)).map (·.2.amount key)).sum := by
  unfold validatedCommittedCounts at h
  split at h
  · rw [(addRows_ok h _).1, rowsThrough, rowsAt_flatMap]
  · cases h

theorem pending_of_validated : ∃ dlv, (id, dlv) ∈ counts.pending.entries := by
  unfold validatedCommittedCounts at h
  split at h
  · exact (contains_iff _).mp ‹_›
  · cases h

end

theorem admitDatasets_ok (cnts : OutputRowCounts) (outs : List OutputBatch) (key : DatasetKey) :
    (cnts.admitDatasets outs).committed.contains key =
    (cnts.committed.contains key || outs.any fun output => decide (key = output.key)) ∧
    (cnts.admitDatasets outs).committed.amount key = cnts.committed.amount key := by
  obtain ⟨committed, pending⟩ := cnts
  simp only [admitDatasets]
  induction outs generalizing committed with
  | nil => simp
  | cons output rest ih =>
    rw [foldl_cons, (ih _).1, (ih _).2]
    split
    · next hknown =>
      refine ⟨?_, rfl⟩
      by_cases hkey : key = output.key
      · subst hkey
        simp [hknown]
      simp [hkey]
    next hnew =>
    rw [contains_insert, any_cons, amount_insert]
    constructor
    · cases committed.contains key <;> cases decide (key = output.key) <;> simp
    by_cases hkey : key = output.key
    · subst hkey
      have hnone : committed.find? output.key = none := by simpa [OrderedMap.contains] using hnew
      simp [amount, hnone]
    simp [hkey]

/-! ## Merging -/

theorem mergeRows_eq_ok {cnts : List OutputDatasetRowCount} :
    mergeRows cnts next = .ok result ↔
    addRows (cnts.map fun count => (toLex (count.isDlq, count.table), count.rows)) next =
      .ok result := by
  induction cnts generalizing next with
  | nil => rfl
  | cons count rest ih =>
    simp only [mergeRows, map_cons, addRows]
    cases next.find? (toLex (count.isDlq, count.table)) with
    | none => simp
    | some cur =>
      simp only
      cases checkedAdd cur count.rows with
      | none => simp
      | some sum => exact ih

theorem merge_eq_ok {other res : OutputRowCounts} : counts.merge other = .ok res ↔
    ∃ committed, addRows other.committed.entries counts.committed = .ok committed ∧
    res = { counts with committed } := by
  have hs : (other.snapshot.map fun count =>
      ((toLex (count.isDlq, count.table) : DatasetKey), count.rows)) = other.committed.entries := by
    simp [snapshot, comp_def]
  have hmerge : ∀ committed, mergeRows other.snapshot counts.committed = .ok committed ↔
      addRows other.committed.entries counts.committed = .ok committed := by
    intro committed
    rw [mergeRows_eq_ok, hs]
  unfold merge
  cases hrows : mergeRows other.snapshot counts.committed with
  | error reason =>
    simp only [Except.map, reduceCtorEq, false_iff, not_exists, not_and]
    intro committed hok
    rw [← hmerge, hrows] at hok
    cases hok
  | ok committed =>
    have hok := (hmerge committed).mp hrows
    simp only [Except.map, Except.ok.injEq]
    constructor
    · rintro rfl
      exact ⟨committed, hok, rfl⟩
    rintro ⟨found, hget, rfl⟩
    cases hok.symm.trans hget
    rfl

end OutputRowCounts

/-! ## Attempts -/

inductive RowCountCall where
  | admitDatasets (outputs : List OutputBatch)
  | observeDelivery (id : ℕ) (outputs : List OutputBatch)
  | validateCommitThrough (id : ℕ)
  | commitThrough (id : ℕ)
  | merge (other : OutputRowCounts)

namespace OutputRowCounts

/-- The methods of the counters, which change them in place. -/
def perform : RowCountCall → Action OutputRowCounts String Unit
  | .admitDatasets outputs => modify (·.admitDatasets outputs)
  | .observeDelivery id outputs => do
    let counts ← get
    if counts.pending.contains id then throw (observedTwice id)
    let delivery ← Action.lift (observeOutputs counts.committed outputs .empty)
    modify fun counts => { counts with pending := counts.pending.insert id delivery }
  | .validateCommitThrough id => do
    Action.lift ((← get).validateCommitThrough id)
  | .commitThrough id => do
    let committed ← Action.lift ((← get).validatedCommittedCounts id)
    modify fun counts => { counts with committed }
    modify fun counts =>
      { counts with pending := counts.pending.retain fun other => decide (id < other) }
  | .merge other => do
    let committed ← Action.lift (mergeRows other.snapshot (← get).committed)
    modify fun counts => { counts with committed }

def call (counts : OutputRowCounts) (request : RowCountCall) :
    Except String Unit × OutputRowCounts :=
  Action.outcome (perform request) counts

variable {req : RowCountCall} {id : ℕ} {outputs : List OutputBatch} {counts other : OutputRowCounts}

theorem call_observeDelivery :
    counts.call (.observeDelivery id outputs) =
      Action.settled counts () (counts.observeDelivery id outputs) := by
  unfold call perform observeDelivery
  rw [Action.get_bind]
  split
  · rfl
  · cases hrows : observeOutputs counts.committed outputs .empty with
    | error | ok => rfl

theorem call_commitThrough :
    counts.call (.commitThrough id) = Action.settled counts () (counts.commitThrough id) := by
  unfold call perform commitThrough
  rw [Action.get_bind]
  cases hnext : counts.validatedCommittedCounts id with
  | error | ok => rfl

theorem call_merge :
    counts.call (.merge other) = Action.settled counts () (counts.merge other) := by
  unfold call perform merge
  rw [Action.get_bind]
  cases hnext : mergeRows other.snapshot counts.committed with
  | error | ok => rfl

theorem call_of_error {reason : String} (h : (counts.call req).1 = .error reason) :
    (counts.call req).2 = counts := by
  cases req with
  | admitDatasets outputs => cases h
  | validateCommitThrough id => rfl
  | observeDelivery id outputs =>
    rw [call_observeDelivery] at h ⊢
    exact Action.settled_of_error h
  | commitThrough id =>
    rw [call_commitThrough] at h ⊢
    exact Action.settled_of_error h
  | merge other =>
    rw [call_merge] at h ⊢
    exact Action.settled_of_error h

end OutputRowCounts
open OutputRowCounts

/-- One attempt of a partition: its counters, the deliveries the parser has
registered, oldest first, and the id through which the reader has committed.
Delivery ids start at one. -/
structure RowCountAttempt where
  counts : OutputRowCounts
  observed : List (ℕ × List OutputBatch)
  (lastObserved committedThrough : ℕ)

namespace RowCountAttempt
open OutputRowCounts

def start (counts : OutputRowCounts) : RowCountAttempt :=
  { counts, observed := [], lastObserved := 0, committedThrough := 0 }

/-- A call of the parser or of the reader.  The parser registers datasets of an
evolving pipeline and observes deliveries with increasing ids. -/
def step (evolving : Bool) (attempt : RowCountAttempt)
    (request : RowCountCall) : Option RowCountAttempt :=
  match request, attempt.counts.call request with
  | .admitDatasets _, (_, counts) =>
    if evolving then some { attempt with counts } else none
  | .observeDelivery id outputs, (result, counts) =>
    if attempt.lastObserved < id then
      match result with
      | .error _ => some { attempt with counts }
      | .ok () =>
        some
          { attempt with
            counts, observed := attempt.observed ++ [(id, outputs)]
            lastObserved := id }
    else none
  | .validateCommitThrough _, (_, counts) => some { attempt with counts }
  | .commitThrough id, (result, counts) =>
    match result with
    | .error _ => some { attempt with counts }
    | .ok () => some { attempt with counts, committedThrough := id }
  | .merge _, _ => none

/-- The rows of a dataset in the deliveries through the committed id. -/
def committedRows (attempt : RowCountAttempt) (key : DatasetKey) : ℕ :=
  ((attempt.observed.filter fun delivery =>
    delivery.1 ≤ attempt.committedThrough).map (rowsOf ·.2 key)).sum

inductive Moves (evolving : Bool) (attempt : RowCountAttempt) :
    RowCountCall → RowCountAttempt → Prop
  | keeps {request} : Moves evolving attempt request attempt
  | admits {outputs} (hevolving : evolving) : Moves evolving attempt
      (.admitDatasets outputs) { attempt with counts := attempt.counts.admitDatasets outputs }
  | observes {id outputs counts} (horder : attempt.lastObserved < id)
      (hcounts : attempt.counts.observeDelivery id outputs = .ok counts) :
      Moves evolving attempt (.observeDelivery id outputs)
      { attempt with counts, observed := attempt.observed ++ [(id, outputs)], lastObserved := id }
  | commits {id counts} (hcounts : attempt.counts.commitThrough id = .ok counts) :
      Moves evolving attempt (.commitThrough id) { attempt with counts, committedThrough := id }

variable {evolving : Bool} {attempt next : RowCountAttempt}
  {id : ℕ} {counts : OutputRowCounts} {datasets : List DatasetKey}
  {runtimeSchema : Bool} {completed : OutputRowCounts}
variable {req : RowCountCall}

theorem moves_of_step (h : attempt.step evolving req = some next) :
    Moves evolving attempt req next := by
  cases req with
    simp only [step, call_observeDelivery, call_commitThrough, ite_none_right_eq_some] at h
  | admitDatasets outputs =>
    obtain ⟨hevolving, ⟨⟩⟩ := h
    exact .admits hevolving
  | observeDelivery id outputs =>
    obtain ⟨horder, hnext⟩ := h
    cases hcounts : attempt.counts.observeDelivery id outputs with
      simp only [hcounts] at hnext
    | error reason =>
      cases hnext
      exact .keeps
    | ok counts =>
      cases hnext
      exact .observes horder hcounts
  | validateCommitThrough id =>
    cases h
    exact .keeps
  | commitThrough id =>
    cases hcounts : attempt.counts.commitThrough id with simp only [hcounts] at h
    | error reason =>
      cases h
      exact .keeps
    | ok counts =>
      cases h
      exact .commits hcounts
  | merge other => cases h

/-! ## The invariant -/

/-- The counters agree with what the parser observed and the reader
committed. -/
structure Tallied (attempt : RowCountAttempt) : Prop where
  pending : (attempt.counts.pending.entries.map fun entry => (entry.1, entry.2.amount)) =
    (attempt.observed.filter fun delivery => attempt.committedThrough < delivery.1).map
    fun delivery => (delivery.1, rowsOf delivery.2)
  totals : ∀ key, attempt.counts.committed.amount key = attempt.committedRows key
  observed_le : ∀ delivery ∈ attempt.observed, delivery.1 ≤ attempt.lastObserved
  increasing : attempt.observed.Pairwise (·.1 < ·.1)
  through_le : attempt.committedThrough ≤ attempt.lastObserved

theorem Tallied.pending_mem (h : attempt.Tallied) {dlv : OrderedMap DatasetKey ℕ}
    (hmem : (id, dlv) ∈ attempt.counts.pending.entries) :
    attempt.committedThrough < id ∧ id ≤ attempt.lastObserved := by
  have hview : (id, dlv.amount) ∈ attempt.counts.pending.entries.map
    fun entry => (entry.1, entry.2.amount) := mem_map.mpr ⟨_, hmem, rfl⟩
  rw [h.pending] at hview
  obtain ⟨observed, ho, heq⟩ := mem_map.mp hview
  obtain rfl : observed.1 = id := congrArg Prod.fst heq
  obtain ⟨hmem, hlt⟩ := mem_filter.mp ho
  exact ⟨by simpa using hlt, h.observed_le _ hmem⟩

theorem Tallied.pending_sum (h : attempt.Tallied) (id : ℕ) (key : DatasetKey) :
    ((attempt.counts.pending.entries.filter (·.1 ≤ id)).map (·.2.amount key)).sum =
    (((attempt.observed.filter fun delivery => attempt.committedThrough < delivery.1).filter
    fun delivery => delivery.1 ≤ id).map (rowsOf ·.2 key)).sum := by
  have hf := congrArg (fun view => ((view.filter
    fun entry : ℕ × (DatasetKey → ℕ) => decide (entry.1 ≤ id)).map (·.2 key)).sum) h.pending
  simpa [List.filter_map, comp_def] using hf

theorem sum_through_add (dlvs : List (ℕ × List OutputBatch)) (key : DatasetKey) {thru : ℕ}
    (hle : thru ≤ id) :
    ((dlvs.filter (·.1 ≤ thru)).map (rowsOf ·.2 key)).sum +
      (((dlvs.filter (thru < ·.1)).filter (·.1 ≤ id)).map (rowsOf ·.2 key)).sum =
      ((dlvs.filter (·.1 ≤ id)).map (rowsOf ·.2 key)).sum := by
  induction dlvs with
  | nil => rfl
  | cons delivery rest ih =>
    by_cases ht : delivery.1 ≤ thru
    · have hid : delivery.1 ≤ id := ht.trans hle
      simp only [filter_cons, ht, not_lt.mpr ht, hid,
        decide_true, decide_false, if_true, Bool.false_eq_true, if_false, map_cons, sum_cons]
      omega
    have hlt : thru < delivery.1 := not_le.mp ht
    by_cases hid : delivery.1 ≤ id
    · simp only [filter_cons, ht, hlt, hid, decide_true,
        decide_false, if_true, Bool.false_eq_true, if_false, map_cons, sum_cons]
      omega
    simpa [filter_cons, hlt, hid] using ih

theorem commitThrough_ok {next : OutputRowCounts} (h : counts.commitThrough id = .ok next) :
    counts.validatedCommittedCounts id = .ok next.committed ∧
    next.pending = counts.pending.retain fun other => decide (id < other) := by
  obtain ⟨committed, hvalid, rfl⟩ := map_eq_ok.mp h
  exact ⟨hvalid, rfl⟩

theorem observeDelivery_ok {next : OutputRowCounts} {outs : List OutputBatch}
    (h : counts.observeDelivery id outs = .ok next) :
    ∃ dlv, observeOutputs counts.committed outs .empty = .ok dlv ∧
      next = { counts with pending := counts.pending.insert id dlv } := by
  unfold observeDelivery at h
  split at h
  · cases h
  cases hdelivery : observeOutputs counts.committed outs .empty with
  | error reason =>
    rw [hdelivery] at h
    cases h
  | ok dlv =>
    rw [hdelivery] at h
    cases h
    exact ⟨dlv, rfl, rfl⟩

theorem Tallied.observes (h : attempt.Tallied) {outputs : List OutputBatch}
    (horder : attempt.lastObserved < id)
    (hcounts : attempt.counts.observeDelivery id outputs = .ok counts) :
    Tallied { attempt with
       counts, observed := attempt.observed ++ [(id, outputs)]
       lastObserved := id } := by
  obtain ⟨delivery, hdelivery, rfl⟩ := observeDelivery_ok hcounts
  have hthrough := h.through_le
  have hl : attempt.committedThrough < id := by omega
  have hamount : delivery.amount = rowsOf outputs := by
    funext key
    rw [observeOutputs_amount hdelivery]
    simp [amount]
  refine ⟨?_, ?_, ?_, ?_, ?_⟩
  · have hlast : ∀ entry ∈ attempt.counts.pending.entries, entry.1 < id := by
      rintro ⟨other, found⟩ hmem
      exact (h.pending_mem hmem).2.trans_lt horder
    simp only [OrderedMap.insert, insertEntry_of_forall_lt _ hlast, map_append, h.pending]
    simp [hl, hamount]
  · intro key
    have hout : ¬ id ≤ attempt.committedThrough := not_le.mpr hl
    rw [h.totals key, committedRows, committedRows, filter_append]
    simp [hout]
  · intro other hmem
    rcases mem_append.mp hmem with hmem | hmem
    · exact (h.observed_le other hmem).trans horder.le
    · rw [mem_singleton.mp hmem]
  · refine pairwise_append.mpr ⟨h.increasing, by simp, ?_⟩
    intro first hfst snd hsnd
    rw [mem_singleton.mp hsnd]
    exact (h.observed_le first hfst).trans_lt horder
  exact hl.le

theorem Tallied.commits (h : attempt.Tallied)
    (hcounts : attempt.counts.commitThrough id = .ok counts) :
    Tallied { attempt with counts, committedThrough := id } := by
  obtain ⟨hvalid, hpend⟩ := commitThrough_ok hcounts
  obtain ⟨dlv, hmem⟩ := pending_of_validated hvalid
  obtain ⟨hlater, hle⟩ := h.pending_mem hmem
  refine ⟨?_, ?_, h.observed_le, h.increasing, hle⟩
  · have hf := congrArg
      (fun view => view.filter fun entry : ℕ × (DatasetKey → ℕ) => decide (id < entry.1)) h.pending
    have hboth : ∀ dlv : ℕ × List OutputBatch, (decide (id < dlv.1) &&
        decide (attempt.committedThrough < dlv.1)) = decide (id < dlv.1) := by
      intro dlv
      by_cases hid : id < dlv.1
      · have hthrough := hlater.trans hid
        simp [hthrough]
      simp [hid]
    simpa [hpend, retain, List.filter_map, comp_def, hboth] using hf
  intro key
  rw [validated_amount hvalid, h.totals key, h.pending_sum]
  exact sum_through_add attempt.observed key hlater.le

theorem Tallied.of_moves (h : attempt.Tallied) (hmoves : Moves evolving attempt req next) :
    next.Tallied := by
  cases hmoves with
  | keeps => exact h
  | admits hevolving =>
    refine { h with totals := ?_ }
    intro key
    exact (admitDatasets_ok _ _ key).2.trans (h.totals key)
  | observes horder hcounts => exact h.observes horder hcounts
  | commits hcounts => exact h.commits hcounts

theorem newRows_amount {rows comm : OrderedMap DatasetKey ℕ} (h : newRows datasets rows = .ok comm)
    (key : DatasetKey) : comm.amount key = rows.amount key := by
  induction datasets generalizing rows with
  | nil =>
    cases h
    rfl
  | cons ds rest ih =>
    unfold newRows at h
    split at h
    · cases h
    next hnew =>
    rw [ih h, amount_insert]
    by_cases hkey : key = ds
    · subst hkey
      have hnone : rows.find? key = none := by simpa [OrderedMap.contains] using hnew
      simp [amount, hnone]
    simp [hkey]

theorem tallied_start (hnew : new datasets = .ok counts) : (start counts).Tallied := by
  obtain ⟨committed, hrows, hnew⟩ := of_bind hnew
  cases hnew
  refine ⟨rfl, ?_, by simp [start], by simp [start], le_rfl⟩
  intro key
  exact newRows_amount hrows key

theorem tallied_of_reachable (hnew : new datasets = .ok counts)
    (hreach : Reachable (step evolving) (start counts) attempt) : attempt.Tallied :=
  hreach.invariant (fun _ _ _ h hstep => h.of_moves (moves_of_step hstep)) (tallied_start hnew)

/-! ## Between validation and commit -/

/-- The commit through `id` is possible and yields the given totals; datasets
registered since then have no rows. -/
def Ready (totals : OrderedMap DatasetKey ℕ) (id : ℕ) (attempt : RowCountAttempt) : Prop :=
  ∃ current, attempt.counts.validatedCommittedCounts id = .ok current ∧ Extends current totals ∧
    ∀ key, current.amount key = totals.amount key

def notCommitting (_ : RowCountAttempt) : RowCountCall → Bool
  | .commitThrough _ => false
  | _ => true

theorem Ready.of_moves {totals : OrderedMap DatasetKey ℕ} (h : attempt.Ready totals id)
    (htallied : attempt.Tallied) (hq : notCommitting attempt req)
    (hmoves : Moves evolving attempt req next) : next.Ready totals id := by
  obtain ⟨cur, hcur, he, ha⟩ := h
  cases hmoves with
  | keeps => exact ⟨cur, hcur, he, ha⟩
  | @admits outputs hevolving =>
    have hvalid := hcur
    unfold validatedCommittedCounts at hcur
    split at hcur
    · next hcont =>
      obtain ⟨more, hmore, hextendsMore⟩ :=
        addRows_of_extends (extends_admitted attempt.counts.committed outputs) hcur
      have hmoreValid : (attempt.counts.admitDatasets outputs).validatedCommittedCounts id =
        .ok more := (if_pos hcont).trans hmore
      refine ⟨more, hmoreValid, ?_, ?_⟩
      · intro key rows hget
        exact hextendsMore key rows (he key rows hget)
      intro key
      rw
        [validated_amount hmoreValid, (admitDatasets_ok _ _ _).2, ← ha key, validated_amount
            hvalid]
      rfl
    · cases hcur
  | @observes later outputs counts horder hcounts =>
    obtain ⟨delivery, hmem⟩ := pending_of_validated hcur
    have hle := (htallied.pending_mem hmem).2
    have hsame := validated_observeDelivery (hle.trans_lt horder) hcounts
    exact ⟨cur, hsame.trans hcur, he, ha⟩
  | commits hcounts => cases hq

/-- A validated commit succeeds with the validated totals whatever the parser
does in the meantime. -/
theorem commit_of_validated {totals : OrderedMap DatasetKey ℕ} {later : RowCountAttempt}
    (htallied : attempt.Tallied) (hvalid : attempt.counts.validatedCommittedCounts id = .ok totals)
    (hreach : Reachable (guarded (step evolving) notCommitting) attempt later) :
    ∃ cnts, later.counts.commitThrough id = .ok cnts ∧
    Extends cnts.committed totals ∧ ∀ key, cnts.committed.amount key = totals.amount key := by
  have hready : later.Tallied ∧ later.Ready totals id := by
    refine hreach.invariant (P := fun attempt => attempt.Tallied ∧ attempt.Ready totals id) ?_
      ⟨htallied, totals, hvalid, fun _ _ hget => hget, fun _ => rfl⟩
    intro current req next h hstep
    obtain ⟨hq, hstep⟩ := of_guarded hstep
    have hmoves := moves_of_step hstep
    exact ⟨h.1.of_moves hmoves, h.2.of_moves h.1 hq hmoves⟩
  obtain ⟨current, hcur, he, hamount⟩ := hready.2
  refine
    ⟨{ committed := current
       pending := later.counts.pending.retain fun other => decide (id < other) }, ?_, he, hamount⟩
  rw [commitThrough, hcur]
  rfl

/-! ## All attempts -/

theorem mergeAttempt_amount {total : OutputRowCounts}
    (h : mergeAttempt runtimeSchema completed counts = .ok total) (key : DatasetKey) :
    total.committed.amount key = completed.committed.amount key + counts.committed.amount key := by
  have hmerged : ∀ base : OutputRowCounts, base.merge counts = .ok total →
      total.committed.amount key = base.committed.amount key + counts.committed.amount key := by
    intro base hmerge
    obtain ⟨committed, hrows, rfl⟩ := merge_eq_ok.mp hmerge
    rw [(addRows_ok hrows _).1, rowsAt, sum_entries_of_key]
  unfold mergeAttempt at h
  split at h
  · rw [hmerged _ h, (admitDatasets_ok _ _ _).2]
  · exact hmerged _ h

theorem contains_admitSnapshot (completed : OutputRowCounts) {key : DatasetKey}
    (hkey : counts.committed.contains key) :
    (completed.admitDatasets (counts.snapshot.map OutputDatasetRowCount.dataset)).committed.contains
      key := by
  obtain ⟨rows, hmem⟩ := (contains_iff _).mp hkey
  rw [(completed.admitDatasets_ok _ _).1, Bool.or_eq_true, List.any_map,
    snapshot, List.any_map, List.any_eq_true]
  refine .inr ⟨(key, rows), hmem, ?_⟩
  simp [OutputDatasetRowCount.dataset, OutputBatch.key]

/-- The datasets of an attempt are known where its counters are merged. -/
def KnownIn (runtimeSchema : Bool) (completed counts : OutputRowCounts) : Prop :=
  runtimeSchema ∨ ∀ key, counts.committed.contains key → completed.committed.contains key

theorem mergeAttempt_of_lt (hknown : KnownIn runtimeSchema completed counts)
    (hlt : ∀ key, completed.committed.amount key + counts.committed.amount key < 2 ^ 64) :
    ∃ total, mergeAttempt runtimeSchema completed counts = .ok total ∧
    ∀ key, completed.committed.contains key → total.committed.contains key := by
  have hmerged : ∀ base :
      OutputRowCounts, (∀ key, counts.committed.contains key → base.committed.contains key) →
      (∀ key, base.committed.amount key = completed.committed.amount key) → ∃ total, base.merge
      counts = .ok total ∧ ∀ key, base.committed.contains key → total.committed.contains key := by
    intro base hbase hamount
    have hrowsKnown : ∀ row ∈ counts.committed.entries, base.committed.contains row.1 :=
      fun row hrow => hbase row.1 ((contains_iff _).mpr ⟨row.2, hrow⟩)
    have hbound :
        ∀ key, base.committed.amount key + rowsAt counts.committed.entries key < 2 ^ 64 := by
      intro key
      rw [rowsAt, sum_entries_of_key, hamount]
      exact hlt key
    obtain ⟨committed, hrows⟩ := addRows_of_lt hrowsKnown hbound
    refine ⟨_, merge_eq_ok.mpr ⟨committed, hrows, rfl⟩, ?_⟩
    intro key hkey
    exact (addRows_ok hrows key).2.trans hkey
  cases runtimeSchema with
  | false => exact hmerged completed (hknown.resolve_left (by simp)) fun _ => rfl
  | true =>
    obtain ⟨total, hmerge, hkept⟩ := hmerged _ (fun _ hkey => contains_admitSnapshot completed hkey)
      (fun key => (completed.admitDatasets_ok _ key).2)
    refine ⟨total, hmerge, ?_⟩
    intro key hkey
    apply hkept key
    rw [(completed.admitDatasets_ok _ _).1, hkey]
    rfl

theorem mergeAttempts_amount {total : OutputRowCounts} {attempts : List OutputRowCounts}
    (h : mergeAttempts runtimeSchema completed attempts = .ok total) (key : DatasetKey) :
    total.committed.amount key =
      completed.committed.amount key + (attempts.map (·.committed.amount key)).sum := by
  induction attempts generalizing completed with
  | nil =>
    cases h
    rfl
  | cons counts rest ih =>
    unfold mergeAttempts at h
    cases hmerge : mergeAttempt runtimeSchema completed counts with
    | error reason =>
      rw [hmerge] at h
      cases h
    | ok next =>
      rw [hmerge] at h
      rw [ih h, mergeAttempt_amount hmerge, map_cons, sum_cons]
      omega

theorem mergeAttempts_of_lt {attempts : List OutputRowCounts}
    (hknown : ∀ cnts ∈ attempts, KnownIn runtimeSchema completed cnts)
    (hlt : ∀ key,
      completed.committed.amount key + (attempts.map (·.committed.amount key)).sum < 2 ^ 64) :
    ∃ total, mergeAttempts runtimeSchema completed attempts = .ok total := by
  induction attempts generalizing completed with
  | nil => exact ⟨completed, rfl⟩
  | cons cnts rest ih =>
    simp only [map_cons, sum_cons] at hlt
    obtain ⟨next, hmerge, hkept⟩ :=
      mergeAttempt_of_lt (hknown cnts mem_cons_self) fun key => by
        have hkey := hlt key
        omega
    simp only [mergeAttempts, hmerge]
    apply ih
    · intro later hlater
      apply (hknown later (mem_cons_of_mem _ hlater)).imp_right
      intro hc key hkey
      exact hkept key (hc key hkey)
    intro key
    have hkey := hlt key
    rw [mergeAttempt_amount hmerge]
    omega

theorem knownIn_of_reachable (hreach : Reachable (step evolving) (start counts) attempt) :
    KnownIn evolving counts attempt.counts := by
  refine hreach.invariant (P := fun attempt => KnownIn evolving counts attempt.counts) ?_
    (.inr fun _ => id)
  intro cur req next h hstep
  cases moves_of_step hstep with
  | keeps => exact h
  | admits hevolving => exact .inl hevolving
  | observes horder hcounts =>
    obtain ⟨delivery, _, rfl⟩ := observeDelivery_ok hcounts
    exact h
  | @commits id committed hcounts =>
    have hvalid := (commitThrough_ok hcounts).1
    refine h.imp_right fun hc key hkey => hc key ?_
    unfold validatedCommittedCounts at hvalid
    split at hvalid
    · exact (addRows_ok hvalid key).2.symm.trans hkey
    · cases hvalid

/-- The committed totals of an attempt are the rows of its committed prefix, a
validated commit succeeds with the validated totals, a failing call changes
nothing, and merging the attempts of a partition adds up their committed
prefixes. -/
theorem rowTotals_exact {counts : OutputRowCounts} {datasets : List DatasetKey}
    (hnew : new datasets = .ok counts) (evolving : Bool) :
    (∀ attempt, Reachable (step evolving) (start counts) attempt →
      attempt.observed.Pairwise (·.1 < ·.1) ∧
      (∀ key, attempt.counts.committed.amount key = attempt.committedRows key) ∧
      ∀ id totals later, attempt.counts.validatedCommittedCounts id = .ok totals →
        Reachable (guarded (step evolving) notCommitting) attempt later →
        ∃ committed, later.counts.commitThrough id = .ok committed ∧
          Extends committed.committed totals ∧
          ∀ key, committed.committed.amount key = totals.amount key) ∧
    (∀ (counts : OutputRowCounts) request reason, (counts.call request).1 = .error reason →
      (counts.call request).2 = counts) ∧
    ∀ attempts : List RowCountAttempt,
      (∀ attempt ∈ attempts, Reachable (step evolving) (start counts) attempt) →
      (∀ total, mergeAttempts evolving counts (attempts.map RowCountAttempt.counts) = .ok total →
        ∀ key, total.committed.amount key = (attempts.map (·.committedRows key)).sum) ∧
      ((∀ key, (attempts.map (·.committedRows key)).sum < 2 ^ 64) →
        ∃ total, mergeAttempts evolving counts (attempts.map RowCountAttempt.counts) =
          .ok total) := by
  have ht : ∀ attempt, Reachable (step evolving) (start counts) attempt → attempt.Tallied :=
    fun _ hreach => tallied_of_reachable hnew hreach
  refine ⟨?_, ?_, ?_⟩
  · intro attempt hreach
    have h := ht attempt hreach
    exact ⟨h.increasing, h.totals, fun _ _ _ hvalid hlater => commit_of_validated h hvalid hlater⟩
  · intro counts request reason herr
    exact call_of_error herr
  intro attempts hattempts
  have he : ∀ key, counts.committed.amount key = 0 := (tallied_start hnew).totals
  have hsums : ∀ key, ((attempts.map RowCountAttempt.counts).map fun counts =>
        counts.committed.amount key).sum =
      (attempts.map (·.committedRows key)).sum := by
    intro key
    rw [List.map_map]
    congr 1
    refine map_congr_left fun attempt hmem => ?_
    exact (ht attempt (hattempts attempt hmem)).totals key
  constructor
  · intro total hmerge key
    rw [mergeAttempts_amount hmerge, he, hsums, Nat.zero_add]
  intro hlt
  refine mergeAttempts_of_lt ?_ ?_
  · intro merged hmem
    obtain ⟨attempt, ha, rfl⟩ := mem_map.mp hmem
    exact knownIn_of_reachable (hattempts attempt ha)
  intro key
  rw [he, hsums, Nat.zero_add]
  exact hlt key

def halfCommitted : List RowCountCall :=
  [.observeDelivery 1 [{ table := "events", isDlq := false, rows := 3 }],
    .observeDelivery 2 [{ table := "events", isDlq := false, rows := 4 }],
    .commitThrough 1]

theorem rowTotals_exact_halfCommitted :
    ∃ counts attempt total, new [toLex (false, "events")] = .ok counts ∧
      exec (step false) (start counts) halfCommitted = some attempt ∧
      mergeAttempts false counts [attempt.counts, attempt.counts] = .ok total ∧
      total.committed.amount (toLex (false, "events")) = 6 := by
  have hruns : ∃ counts attempt total, new [toLex (false, "events")] = .ok counts ∧
      exec (step false) (start counts) halfCommitted = some attempt ∧
      mergeAttempts false counts [attempt.counts, attempt.counts] = .ok total ∧
      attempt.committedRows (toLex (false, "events")) = 3 := ⟨_, _, _, rfl, rfl, rfl, rfl⟩
  obtain ⟨counts, attempt, total, hnew, hrun, hmerge, hrows⟩ := hruns
  refine ⟨counts, attempt, total, hnew, hrun, hmerge, ?_⟩
  have hreach : ∀ member ∈ [attempt, attempt], Reachable (step false) (start counts) member := by
    intro member hmember
    have hsame : member = attempt := by simpa using hmember
    exact hsame ▸ ⟨halfCommitted, hrun⟩
  rw [((rowTotals_exact hnew false).2.2 _ hreach).1 total hmerge]
  simp [hrows]

end RowCountAttempt
end Transferia.Pipeline
