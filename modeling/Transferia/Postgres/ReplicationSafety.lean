import Transferia.Postgres.ReplicationProgress
import Transferia.Postgres.ReplicationSource
import Transferia.Support.KeyRange

/-!
# The replication source loses nothing

Between the start position and the last peeked LSN, the batches that were
returned and those that wait in the queue are, in this order, the transactions
of the slot.  From this follows that the slot never moves past a transaction
that was not returned and acknowledged.
-/

namespace Transferia.Postgres
open List Transferia.Core Support SlotTransaction Bool SourceState
variable {T D : Type} {catalog : ReplicationCatalog T D} {decoder : LogicalDecoder} {startLsn : ℕ}

/-! ## The invariant -/

theorem mem_emittedLsns {trace : List (SourceEvent D)} {lsn : ℕ} :
    lsn ∈ emittedLsns trace ↔ ∃ batch, .emitted batch ∈ trace ∧ batch.lsn = lsn := by
  simp only [emittedLsns, mem_filterMap]
  constructor
  · rintro ⟨event, hmem, hev⟩
    cases event with
    | emitted batch => exact ⟨batch, hmem, by simpa using hev⟩
    | _ => cases hev
  rintro ⟨batch, hmem, rfl⟩
  exact ⟨.emitted batch, hmem, rfl⟩

/-- When an event may happen.  The slot is peeked when everything that was
returned is committed, and it moves to a position that was returned and
acknowledged, never backwards. -/
def SourcePermitted (before : List (SourceEvent D)) : SourceEvent D → Prop
  | .peeked _ => ∀ batch, .emitted batch ∈ before →
      ∃ lsn markers, .committed lsn markers ∈ before ∧ batch.lsn ≤ lsn
  | .emitted _ => True
  | .committed lsn markers => lsn ∈ markers ∧ (∀ marker ∈ markers, marker ∈ emittedLsns before) ∧
      ∀ earlier others, .committed earlier others ∈ before → earlier ≤ lsn

theorem ReplicationReader.Queues.lastPeek_greatest {reader next : ReplicationReader D}
    {bs : List (QueuedBatch D)} (h : ReplicationReader.Queues reader next bs) :
    next.lastPeekLsn ∈ reader.lastPeekLsn :: bs.map QueuedBatch.lsn ∧
    ∀ lsn ∈ reader.lastPeekLsn :: bs.map QueuedBatch.lsn, lsn ≤ next.lastPeekLsn := by
  have hmax : (reader.lastPeekLsn :: bs.map QueuedBatch.lsn).max? = some next.lastPeekLsn := by
    rw [h.lastPeek_eq, max?_cons']
  exact max?_eq_some_iff.mp hmax

namespace SourceState
variable {lsn : ℕ} {slot : List (SlotTransaction catalog)} {batch : QueuedBatch D}
  {s t : SourceState catalog}

/-- The end LSNs that the source has peeked at and has to return. -/
def peekedLsns (decoder : LogicalDecoder) (startLsn : ℕ) (s : SourceState catalog) : List ℕ :=
  (between endLsn (queued decoder) startLsn s.reader.lastPeekLsn s.slot).map endLsn

def running (s : SourceState catalog) : Bool :=
  match s.phase with
  | .stopped _ => false
  | _ => true

structure Inv (decoder : LogicalDecoder) (startLsn : ℕ) (s : SourceState catalog) : Prop where
  sorted : s.slot.Pairwise (·.endLsn < ·.endLsn)
  closed : s.reader.pgoutput.transaction = none
  confirmed : s.running → s.confirmedLsn = s.reader.committedLsn
  start_le : startLsn ≤ s.reader.committedLsn
  committed_le : s.reader.committedLsn ≤ s.reader.lastPeekLsn
  known : s.reader.lastPeekLsn = startLsn ∨
    ∃ transaction ∈ s.slot, transaction.endLsn = s.reader.lastPeekLsn
  returned : emittedLsns s.trace <+: s.peekedLsns decoder startLsn
  read : s.running →
    emittedLsns s.trace ++ s.reader.pending.map QueuedBatch.lsn = s.peekedLsns decoder startLsn
  moved :
    s.reader.committedLsn = startLsn ∨ ∃ markers, .committed s.reader.committedLsn markers ∈ s.trace
  latest : ∀ lsn markers, .committed lsn markers ∈ s.trace → lsn ≤ s.reader.committedLsn
  justified : Justified SourcePermitted s.trace

theorem inv_start (hsorted : slot.Pairwise (·.endLsn < ·.endLsn)) :
    (start slot startLsn).Inv decoder startLsn := by
  have hnone : (start slot startLsn).peekedLsns decoder startLsn = [] := by
    simp only [peekedLsns, start, map_eq_nil_iff, between, filter_eq_nil_iff]
    intro txn _ hbetween
    simp only [and_eq_true, decide_eq_true_eq] at hbetween
    obtain ⟨⟨_, hlower⟩, hhigh⟩ := hbetween
    exact absurd (of_decide_eq_true hhigh) (Nat.not_le.mpr hlower)
  exact
    { sorted := hsorted, closed := rfl, confirmed := fun _ => rfl
      start_le := le_refl _, committed_le := le_refl _, known := .inl rfl, returned := nil_prefix
      read := fun _ => hnone.symm
      moved := .inl rfl, latest := by simp [start]
      justified := .nil }

theorem mem_peekedLsns : lsn ∈ s.peekedLsns decoder startLsn ↔ ∃ txn ∈ s.slot, txn.queued decoder =
    true ∧ startLsn < txn.endLsn ∧ txn.endLsn ≤ s.reader.lastPeekLsn ∧ txn.endLsn = lsn := by
  simp only [peekedLsns, between, mem_map, mem_filter, and_eq_true, decide_eq_true_eq]
  constructor
  · rintro ⟨txn, ⟨hmem, ⟨hqueued, hl⟩, hhigh⟩, rfl⟩
    exact ⟨txn, hmem, hqueued, hl, hhigh, rfl⟩
  rintro ⟨txn, hmem, hqueued, hl, hhigh, rfl⟩
  exact ⟨txn, ⟨hmem, ⟨hqueued, hl⟩, hhigh⟩, rfl⟩

variable (h : s.Inv decoder startLsn)
include h in
theorem Inv.emitted_mem (hbatch : .emitted batch ∈ s.trace) :
    batch.lsn ∈ s.peekedLsns decoder startLsn :=
  h.returned.subset (mem_emittedLsns.mpr ⟨batch, hbatch, rfl⟩)

/-! ## Each step keeps the invariant -/

variable {transaction : SlotTransaction catalog} {markers : List Marker} {lsns : List ℕ}
  {reader : ReplicationReader D} {answer : CommitAnswer} {label : SourceLabel catalog}
section
variable (h : s.Inv decoder startLsn)
include h

theorem Inv.stop (failure : DataPlaneFailure) : (s.stop failure).Inv decoder startLsn := { h with
    confirmed := by simp [SourceState.stop, running]
    read := by simp [SourceState.stop, running] }

theorem Inv.changePhase {phase : SourcePhase} (hrun : s.running) :
    Inv decoder startLsn { s with phase } :=
  { h with confirmed := fun _ => h.confirmed hrun, read := fun _ => h.read hrun }

theorem Inv.append (hstep : s.append transaction = some t) : t.Inv decoder startLsn := by
  simp only [SourceState.append, Option.ite_none_right_eq_some] at hstep
  obtain ⟨hl, hstep⟩ := hstep
  cases hstep
  have hbeyond : ¬ (startLsn < transaction.endLsn ∧ transaction.endLsn ≤ s.reader.lastPeekLsn) := by
    rcases h.known with hstart | ⟨last, hlast, heq⟩
    · omega
    have hlt := hl last hlast
    omega
  have hsame : SourceState.peekedLsns decoder startLsn
      { s with slot := s.slot ++ [transaction] } = s.peekedLsns decoder startLsn := by
    have hnone :
        between endLsn (queued decoder) startLsn s.reader.lastPeekLsn [transaction] = [] := by
      simp only
        [between, filter_eq_nil_iff, mem_singleton, forall_eq, and_eq_true, decide_eq_true_eq]
      rintro ⟨⟨_, hlower⟩, hhigh⟩
      exact hbeyond ⟨hlower, hhigh⟩
    simp only [peekedLsns, between, filter_append] at hnone ⊢
    rw [hnone, append_nil]
  refine
    { h with
      sorted := ?_, known := h.known.imp_right ?_, returned := hsame ▸ h.returned
      read := fun hrun => (h.read hrun).trans hsame.symm }
  · refine pairwise_append.mpr ⟨h.sorted, pairwise_singleton _ _, ?_⟩
    intro earlier he other hother
    rw [mem_singleton.mp hother]
    exact hl earlier he
  rintro ⟨last, hlast, heq⟩
  exact ⟨last, mem_append_left _ hlast, heq⟩

section
variable (hrun : s.running)
include hrun

theorem Inv.afterRefill : s.afterRefill.Inv decoder startLsn := by
  unfold SourceState.afterRefill
  split
  · exact h.changePhase hrun
  · exact h

theorem Inv.peeks (hg : ¬ s.reader.committedLsn < s.reader.lastPeekLsn) (lsns : List ℕ) :
    Inv decoder startLsn { s with trace := s.trace ++ [.peeked lsns] } := by
  have he : emittedLsns (s.trace ++ [.peeked lsns]) = emittedLsns s.trace := by simp [emittedLsns]
  refine
    { h with
      returned := he ▸ h.returned, read := fun _ => he ▸ h.read hrun
      moved := by simpa using h.moved
      latest := by simpa using h.latest
      justified := h.justified.append_singleton ?_ }
  intro batch hbatch
  obtain ⟨txn, _, _, hlower, hhigh, heq⟩ := mem_peekedLsns.mp (h.emitted_mem hbatch)
  rcases h.moved with hstart | ⟨markers, hmarkers⟩
  · omega
  · exact ⟨_, markers, hmarkers, by omega⟩

theorem Inv.queues (hg : ¬ s.reader.committedLsn < s.reader.lastPeekLsn) {count : ℕ}
    (hproc : s.reader.processRows catalog decoder ((s.page count).flatMap fun transaction =>
    transaction.rows decoder) = .ok reader) : Inv decoder startLsn { s with reader } := by
  obtain ⟨hclosed, bs, hqueue, hlsns⟩ := ReplicationReader.process_page h.closed hproc
  have hpeek : s.reader.lastPeekLsn = s.reader.committedLsn := by
    have hle := h.committed_le
    omega
  have hconfirmed : s.confirmedLsn = s.reader.lastPeekLsn := by rw [h.confirmed hrun, hpeek]
  have hpage : s.page count =
      (s.slot.filter fun transaction => s.reader.lastPeekLsn < transaction.endLsn).take count := by
    rw [page, hconfirmed]
  have hlast := hqueue.lastPeek_eq
  rw [hlsns, hpage] at hlast
  have hhigh : s.reader.lastPeekLsn ≤ reader.lastPeekLsn := hqueue.lastPeek_greatest.2 _
      mem_cons_self
  have hpeeked : peekedLsns decoder startLsn
      { s with reader } = s.peekedLsns decoder startLsn ++ bs.map QueuedBatch.lsn := by
    have hjoin := between_append (queued decoder) h.sorted (h.start_le.trans h.committed_le) hhigh
    have htake := between_take (queued decoder) h.sorted s.reader.lastPeekLsn count
    rw [← hlast] at htake
    simp only [peekedLsns]
    rw [← hjoin, map_append, htake, hlsns, hpage]
  refine
    { h with
      closed := hclosed, confirmed := fun _ => ?_
      start_le := ?_, committed_le := ?_, known := ?_, returned := ?_, read := fun _ => ?_
      moved := ?_, latest := ?_ }
  · exact (h.confirmed hrun).trans hqueue.committed_eq.symm
  · exact hqueue.committed_eq ▸ h.start_le
  · exact hqueue.committed_eq ▸ h.committed_le.trans hhigh
  · rcases mem_cons.mp hqueue.lastPeek_greatest.1 with hold | hnew
    · simpa only [hold] using h.known
    rw [hlsns] at hnew
    obtain ⟨transaction, hmem, heq⟩ := mem_map.mp hnew
    have hslot := mem_of_mem_take (mem_of_mem_filter hmem)
    exact .inr ⟨transaction, mem_of_mem_filter hslot, heq⟩
  · rw [hpeeked]
    exact h.returned.trans (prefix_append _ _)
  · rw [hpeeked, ← h.read hrun, hqueue.pending_eq, map_append, append_assoc]
  · simpa only [hqueue.committed_eq] using h.moved
  · simpa only [hqueue.committed_eq] using h.latest

theorem Inv.refill (leaseHeld : Bool) (answer : PeekAnswer) :
    (s.refill decoder leaseHeld answer).Inv decoder startLsn := by
  unfold SourceState.refill
  split
  · split
    · exact h.afterRefill hrun
    rename_i hg
    cases answer with
    | failed fail => exact h.stop fail
    | page count =>
      have hpeeks := h.peeks hrun hg ((s.page count).map endLsn)
      dsimp only
      split
      · exact hpeeks.stop _
      next reader hproc => exact (hpeeks.queues hrun hg hproc).afterRefill hrun
  exact h.stop _

end

theorem Inv.round {leaseHeld : Bool} {answer : PeekAnswer}
    (hstep : s.round decoder leaseHeld answer = some t) : t.Inv decoder startLsn := by
  unfold SourceState.round at hstep
  split at hstep
  next hp =>
    have hrun : s.running := by simp [running, hp]
    split at hstep
    next batch rest hpend =>
      have hread := h.read hrun
      rw [hpend, map_cons] at hread
      split at hstep
      · cases hstep
        have he : emittedLsns (s.trace ++ [.emitted batch]) ++
            rest.map QueuedBatch.lsn = s.peekedLsns decoder startLsn := by
          simpa [emittedLsns] using hread
        exact
          { h with
            confirmed := fun _ => h.confirmed hrun
            returned := ⟨_, he⟩, read := fun _ => he
            moved := by simpa using h.moved
            latest := by simpa using h.latest
            justified := h.justified.append_singleton trivial }
      cases hstep
      exact
        { h with
          confirmed := by simp [SourceState.stop, running]
          read := by simp [SourceState.stop, running] }
    · cases hstep
      exact h.refill hrun leaseHeld answer
  · cases hstep

end

theorem mapM_lsn?_mem (h : markers.mapM Marker.lsn? = .ok lsns) :
    ∀ lsn ∈ lsns, .replication lsn ∈ markers := by
  intro lsn hlsn
  obtain ⟨marker, hmem, hok⟩ := mem_of_mapM_ok h hlsn
  cases marker with
  | foreign typeName => cases hok
  | replication value =>
    cases hok
    exact hmem

theorem commitTarget_ok (h : reader.commitTarget lsns = .ok lsn) :
    lsn ∈ lsns ∧ reader.committedLsn ≤ lsn := by
  obtain ⟨found, hget, h⟩ := of_bind h
  obtain ⟨_, hensure, h⟩ := of_bind h
  cases h
  constructor
  · exact max?_mem (okOr_eq_ok.mp hget)
  by_contra hlt
  simp [ensure, hlt] at hensure

include h in
theorem Inv.advanced (hmem : lsn ∈ lsns) (hforward : s.reader.committedLsn ≤ lsn)
    (hemitted : ∀ mk ∈ lsns, mk ∈ emittedLsns s.trace) (hrun : s.running) :
    (s.advance lsn lsns .advanced).Inv decoder startLsn := by
  have hsame : emittedLsns (s.trace ++ [.committed lsn lsns]) = emittedLsns s.trace := by
    simp [emittedLsns]
  obtain ⟨_, _, _, hlower, hhigh, rfl⟩ := mem_peekedLsns.mp (h.returned.subset (hemitted lsn hmem))
  refine
    { h with
      confirmed := fun _ => rfl
      start_le := h.start_le.trans hforward, committed_le := hhigh, returned := hsame ▸ h.returned
      read := fun _ => hsame ▸ h.read hrun
      moved := .inr ⟨lsns, mem_append_right _ (mem_singleton_self _)⟩, latest := ?_
      justified := h.justified.append_singleton ⟨hmem, hemitted, ?_⟩ }
  · intro earlier markers hc
    rcases mem_append.mp hc with hold | hnew
    · exact (h.latest earlier markers hold).trans hforward
    cases mem_singleton.mp hnew
    exact le_refl _
  intro earlier markers hc
  exact (h.latest earlier markers hc).trans hforward

theorem commit_cases (hstep : s.commit markers answer = some t) : s.running ∧
    ((∃ failure, t = s.stop failure) ∨ ∃ lsn lsns, lsn ∈ lsns ∧ s.reader.committedLsn ≤ lsn ∧
    (∀ mk ∈ lsns, mk ∈ emittedLsns s.trace) ∧ t = s.advance lsn lsns answer) := by
  unfold commit at hstep
  split at hstep
  next hp =>
    refine ⟨by simp [running, hp], ?_⟩
    rw [Option.ite_none_right_eq_some] at hstep
    obtain ⟨hr, hstep⟩ := hstep
    split at hstep
    · cases hstep
      exact .inl ⟨_, rfl⟩
    rename_i lsns hlsns
    split at hstep
    · cases hstep
      exact .inl ⟨_, rfl⟩
    rename_i lsn htarget
    cases hstep
    obtain ⟨hmem, hforward⟩ := commitTarget_ok htarget
    refine .inr ⟨lsn, lsns, hmem, hforward, ?_, rfl⟩
    intro mk hm
    have hall := all_eq_true.mp hr _ (mapM_lsn?_mem hlsns mk hm)
    simpa [returned] using hall
  · cases hstep

include h in
theorem Inv.commit (hstep : s.commit markers answer = some t) : t.Inv decoder startLsn := by
  obtain ⟨hrun, ⟨fail, rfl⟩ | ⟨lsn, lsns, hmem, hforward, he, rfl⟩⟩ := commit_cases hstep
  · exact h.stop fail
  cases answer with
  | leaseLost | storeFailed msg => exact h.stop _
  | advanceFailed applied msg =>
    exact
      { h with
        confirmed := by simp [SourceState.stop, advance, running]
        read := by simp [SourceState.stop, advance, running] }
  | advanced => exact h.advanced hmem hforward he hrun

include h in
theorem Inv.step (hstep : s.step decoder label = some t) : t.Inv decoder startLsn := by
  cases label with
    simp only [step, callRead, cancelRead] at hstep
  | append txn => exact h.append hstep
  | callRead =>
    split at hstep
    next hp =>
      cases hstep
      exact h.changePhase (by simp [running, hp])
    · cases hstep
  | round leaseHeld answer => exact h.round hstep
  | cancelRead =>
    split at hstep
    next hp =>
      cases hstep
      exact h.changePhase (by simp [running, hp])
    · cases hstep
  | commit markers answer => exact h.commit hstep

theorem inv_of_reachable (hsorted : slot.Pairwise (·.endLsn < ·.endLsn))
    (hreach : Reachable (step decoder) (start slot startLsn) s) : s.Inv decoder startLsn :=
  hreach.invariant (fun _ _ _ h hstep => Inv.step h hstep) (inv_start hsorted)

/-! ## Safety of the source -/

theorem afterRefill_committedLsn : s.afterRefill.reader.committedLsn = s.reader.committedLsn := by
  unfold afterRefill
  split <;> rfl

section
variable (h : s.Inv decoder startLsn)
include h

theorem Inv.refill_committedLsn (leaseHeld : Bool) (answer : PeekAnswer) :
    (s.refill decoder leaseHeld answer).reader.committedLsn = s.reader.committedLsn := by
  unfold SourceState.refill
  split
  · split
    · exact afterRefill_committedLsn
    cases answer with
    | failed fail => rfl
    | page count =>
      dsimp only
      split
      · rfl
      rename_i reader hproc
      obtain ⟨_, _, hqueue, _⟩ := ReplicationReader.process_page h.closed hproc
      exact afterRefill_committedLsn.trans hqueue.committed_eq
  rfl

theorem Inv.committedLsn_mono (hstep : s.step decoder label = some t) :
    s.reader.committedLsn ≤ t.reader.committedLsn := by
  cases label with
    simp only [SourceState.step, SourceState.append, Option.ite_none_right_eq_some,
      SourceState.callRead, SourceState.round, SourceState.cancelRead] at hstep
  | append txn =>
    obtain ⟨_, hstep⟩ := hstep
    cases hstep
    exact le_refl _
  | callRead =>
    split at hstep <;> cases hstep
    exact le_refl _
  | round leaseHeld answer =>
    split at hstep
    · split at hstep
      · split at hstep <;> cases hstep <;> exact le_refl _
      cases hstep
      exact (h.refill_committedLsn leaseHeld answer).ge
    · cases hstep
  | cancelRead =>
    split at hstep <;> cases hstep
    exact le_refl _
  | commit markers answer =>
    obtain ⟨_, ⟨fail, rfl⟩ | ⟨lsn, lsns, _, hforward, _, rfl⟩⟩ := commit_cases hstep
    · exact le_refl _
    cases answer with
    | advanced => exact hforward
    | _ => exact le_refl _

theorem Inv.emitted_increasing : (emittedLsns s.trace).Pairwise (· < ·) := by
  have hpeeked :
    (s.peekedLsns decoder startLsn).Pairwise (· < ·) := pairwise_map.mpr (h.sorted.filter _)
  exact hpeeked.sublist h.returned.sublist

end

theorem queued_or_empty (dec : LogicalDecoder) (txn : SlotTransaction catalog) :
    txn.queued dec ∨ (dec = .pgoutput ∧ txn.rowChanges = 0) := by
  cases dec with
  | wal2json => exact .inl rfl
  | pgoutput =>
    rcases Nat.eq_zero_or_pos txn.rowChanges with hzero | hpos
    · exact .inr ⟨rfl, hzero⟩
    · exact .inl (by simpa [queued] using hpos)

include h in
theorem Inv.returned_below (hbatch : .emitted batch ∈ s.trace) (hmem : transaction ∈ s.slot)
    (hqueued : transaction.queued decoder) (hlower : startLsn < transaction.endLsn)
    (hle : transaction.endLsn ≤ batch.lsn) : transaction.endLsn ∈ emittedLsns s.trace := by
  obtain ⟨rest, hrest⟩ := h.returned
  have hpeeked :
    (s.peekedLsns decoder startLsn).Pairwise (· < ·) := pairwise_map.mpr (h.sorted.filter _)
  rw [← hrest, pairwise_append] at hpeeked
  obtain ⟨_, _, _, _, hhigh, heq⟩ := mem_peekedLsns.mp (h.emitted_mem hbatch)
  have hin := mem_peekedLsns.mpr ⟨transaction, hmem, hqueued, hlower, hle.trans (heq ▸ hhigh), rfl⟩
  rw [← hrest, mem_append] at hin
  refine hin.resolve_right fun hlater => ?_
  have hlt := hpeeked.2.2 _ (mem_emittedLsns.mpr ⟨batch, hbatch, rfl⟩) _ hlater
  omega

include h in
/-- Nothing above the committed LSN is left out: it was returned, it waits in
the queue, or the next peek can still show it. -/
theorem Inv.not_skipped (hrun : s.running) (hmem : transaction ∈ s.slot)
    (hqueued : transaction.queued decoder) (hlower : s.reader.committedLsn < transaction.endLsn) :
    transaction.endLsn ∈ emittedLsns s.trace ∨
    transaction.endLsn ∈ s.reader.pending.map QueuedBatch.lsn ∨
    (s.reader.lastPeekLsn < transaction.endLsn ∧ s.confirmedLsn < transaction.endLsn) := by
  by_cases hpeeked : transaction.endLsn ≤ s.reader.lastPeekLsn
  · have hin := mem_peekedLsns.mpr ⟨transaction, hmem, hqueued, h.start_le.trans_lt hlower, hpeeked,
        rfl⟩
    rw [← h.read hrun, mem_append] at hin
    exact hin.imp_right .inl
  exact .inr (.inr ⟨Nat.lt_of_not_le hpeeked, h.confirmed hrun ▸ hlower⟩)

/-- Whatever is read and committed, and in whatever order: the batches are
transactions of the slot and are returned once and in LSN order; the slot is
peeked again only when every returned batch is committed; the committed LSN
never decreases and was returned and acknowledged; and no transaction is left
out, except that `pgoutput` has nothing to return for one without row
changes, which stays in the slot. -/
theorem replicationSource_safe {slot : List (SlotTransaction catalog)}
    (hsorted : slot.Pairwise (·.endLsn < ·.endLsn))
    (hreach : Reachable (step decoder) (start slot startLsn) s) :
    (emittedLsns s.trace).Pairwise (· < ·) ∧
      (∀ batch, .emitted batch ∈ s.trace → ∃ transaction ∈ s.slot, transaction.endLsn = batch.lsn) ∧
      Justified SourcePermitted s.trace ∧
      (∀ label t, s.step decoder label = some t → s.reader.committedLsn ≤ t.reader.committedLsn) ∧
      (s.reader.committedLsn = startLsn ∨
        ∃ markers, .committed s.reader.committedLsn markers ∈ s.trace) ∧
      (∀ batch, .emitted batch ∈ s.trace → ∀ transaction ∈ s.slot,
        startLsn < transaction.endLsn → transaction.endLsn ≤ batch.lsn →
        transaction.endLsn ∈ emittedLsns s.trace ∨
          (decoder = .pgoutput ∧ transaction.rowChanges = 0)) ∧
      (s.running → ∀ transaction ∈ s.slot, s.reader.committedLsn < transaction.endLsn →
        (transaction.endLsn ∈ emittedLsns s.trace ∨
          transaction.endLsn ∈ s.reader.pending.map QueuedBatch.lsn ∨
          (s.reader.lastPeekLsn < transaction.endLsn ∧ s.confirmedLsn < transaction.endLsn)) ∨
          (decoder = .pgoutput ∧ transaction.rowChanges = 0 ∧
            s.confirmedLsn < transaction.endLsn)) := by
  have h := inv_of_reachable hsorted hreach
  refine ⟨h.emitted_increasing, ?_, h.justified, ?_, h.moved, ?_, ?_⟩
  · intro batch hb
    obtain ⟨transaction, hmem, _, _, _, heq⟩ := mem_peekedLsns.mp (h.emitted_mem hb)
    exact ⟨transaction, hmem, heq⟩
  · intro label t hstep
    exact h.committedLsn_mono hstep
  · intro batch hb transaction hmem hl hle
    refine (queued_or_empty decoder transaction).imp_left fun hqueued' => ?_
    exact h.returned_below hb hmem hqueued' hl hle
  intro hrun transaction hmem hl
  rcases queued_or_empty decoder transaction with hqueued | ⟨hdecoder, hempty⟩
  · exact .inl (h.not_skipped hrun hmem hqueued hl)
  · exact .inr ⟨hdecoder, hempty, h.confirmed hrun ▸ hl⟩

set_option maxRecDepth 4000 in
def laterTransaction : SlotTransaction emptyTableCatalog :=
  { insertTransaction with
    endLsn := 50
    commit := zeros 16 ++ [50] ++ zeros 8
    row := wal2jsonRow "32" "\x7b\"kind\":\"insert\",\"schema\":\"s\",\"table\":\"t\"\x7d"
    commit_endLsn := ⟨0, [], rfl⟩
    row_endLsn := ⟨[], rfl⟩ }

/-- The second transaction is peeked when the first is committed. -/
def peekTwice : List (SourceLabel emptyTableCatalog) :=
  [.callRead, .round true (.page 1), .round true (.page 1), .commit [.replication 40] .advanced,
    .append laterTransaction, .callRead, .round true (.page 1), .round true (.page 1)]

theorem replicationSource_safe_peekTwice :
    ∃ s : SourceState emptyTableCatalog,
      exec (step .pgoutput) (start [insertTransaction] 10) peekTwice = some s ∧
      s.reader.committedLsn = 40 ∧
      emittedLsns s.trace = [40, 50] ∧
      (emittedLsns s.trace).Pairwise (· < ·) ∧
      Justified SourcePermitted s.trace := by
  have hruns : ∃ s : SourceState emptyTableCatalog,
      exec (step .pgoutput) (start [insertTransaction] 10) peekTwice = some s ∧
      s.reader.committedLsn = 40 ∧
      emittedLsns s.trace = [40, 50] := ⟨_, rfl, rfl, rfl⟩
  obtain ⟨s, hexec, hcommitted, hemitted⟩ := hruns
  have hsafe := replicationSource_safe (pairwise_singleton _ _) ⟨_, hexec⟩
  exact ⟨s, hexec, hcommitted, hemitted, hsafe.1, hsafe.2.2.1⟩

end SourceState
end Transferia.Postgres
