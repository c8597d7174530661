import Transferia.Iceberg.ReplicaInvariant

/-!
# The Iceberg replica applies every delivery once

From every state some replay which meets no further failure commits what is
left, so the replica ends with one snapshot for each write of the source, in
source order, whose reading is the source's own table.
-/

namespace Transferia.Iceberg
open List Support Changelog ChangelogBatch
variable {V E : Type} {schemas : String → TableSchema} [DecidableEq E]
namespace ReplicaSink
variable {sink : ReplicaSink schemas V E} {deliveries : List (ReplicaDelivery V schemas)}
  {s : ReplicaState V schemas}
  {next : ℕ} {write : TaggedWrite V schemas} {rest : List (TaggedWrite V schemas)}

def Applicable (sink : ReplicaSink schemas V E)
    (deliveries : List (ReplicaDelivery V schemas)) : Prop :=
  ∀ delivery ∈ deliveries, ∃ writes,
    sink.deliveryWrites delivery = .ok writes ∧ ∀ write ∈ writes, ∃ delta,
        rowDelta write.2.changelog (sink.encode write.1) = .ok delta

theorem reachable_keeps_replicaInv (hdigest : sink.CollisionFree deliveries)
    (hdistinct : DistinctCoordinates deliveries) {t : ReplicaState V schemas}
    (hreach : Reachable (sink.step deliveries) s t)
    (hinvariant : ∃ done, sink.ReplicaInv deliveries s done) :
    ∃ done, sink.ReplicaInv deliveries t done :=
  hreach.invariant (fun _ _ _ => step_keeps_replicaInv hdigest hdistinct) hinvariant

theorem step_commit {point : CommitPoint (RowDelta V (schemas write.1))} {label : CommitLabel}
    {effect : CommitEffect (RowDelta V (schemas write.1))}
    (heffect :
      (sink.task write).step sink.digest (s.lineage write.1) s.storage point label = some effect) :
    sink.step deliveries (s.enter next (.writing write point rest)) (.commit label) =
      some (s.carry next write rest effect) := by
  have hstep : sink.step deliveries (s.enter next (.writing write point rest)) (.commit label) =
      ((sink.task write).step sink.digest (s.lineage write.1) s.storage
        point label).map ((s.enter next (.writing write point rest)).carry next write rest) := rfl
  rw [hstep, heffect]
  cases effect with
  | _ => rfl

theorem mark_completes (hrec : s.storage (sink.digest (sink.commitIdentity write)) = none) :
    ∃ t : ReplicaState V schemas,
      Reachable (sink.step deliveries) (s.enter next (.writing write .marking rest))
        (t.enter next (.remaining rest)) := by
  have hmark : (sink.task write).step sink.digest
      (s.lineage write.1) s.storage .marking .mark = some (.finish (Function.update
      s.storage (sink.digest (sink.commitIdentity write)) (some (sink.commitIdentity write)))) := by
    simp [CommitTask.step, markCommitDurable, task, hrec]
  exact ⟨_, .single (step_commit hmark)⟩

section
variable (hdigest : sink.CollisionFree deliveries)
include hdigest

theorem write_completes {done : List (TaggedWrite V schemas)}
    (hstore : sink.StoreInv deliveries s done) (hw : write ∈ sink.sourceWrites deliveries)
    {delta : RowDelta V (schemas write.1)}
    (hdelta : rowDelta write.2.changelog (sink.encode write.1) = .ok delta) :
    ∃ t : ReplicaState V schemas,
      Reachable (sink.step deliveries) (s.enter next (.writing write .loading rest))
        (t.enter next (.remaining rest)) := by
  have hload : (sink.task write).step sink.digest (s.lineage write.1) s.storage .loading .load =
        some (.move (.loaded (s.lineage write.1))) := rfl
  have hcheck : (sink.task write).step sink.digest (s.lineage write.1)
      s.storage (.loaded (s.lineage write.1)) .check =
        some ((sink.task write).checkCommitted sink.digest s.storage (s.lineage write.1)) := rfl
  cases hrec : s.storage (sink.digest (sink.commitIdentity write)) with
  | some payload =>
    obtain ⟨rfl, hc⟩ := hstore.record_eq hdigest hw hrec
    have hskipped : (sink.task write).checkCommitted sink.digest s.storage
        (s.lineage write.1) = .finish s.storage := by
      simp [CommitTask.checkCommitted, commitIsDurable, task, hrec, hc]
    rw [hskipped] at hcheck
    exact ⟨s, .head (step_commit hload) (.single (step_commit hcheck))⟩
  | none =>
    cases hc : hasCommitIdentity sink.digest (s.lineage write.1) (sink.commitIdentity write) with
    | true =>
      have hget : (sink.task write).checkCommitted sink.digest s.storage
          (s.lineage write.1) = .move .marking := by
        simp [CommitTask.checkCommitted, commitIsDurable, task, hrec, hc]
      rw [hget] at hcheck
      obtain ⟨t, hmark⟩ := mark_completes hrec
      exact ⟨t, .head (step_commit hload) (.head (step_commit hcheck) hmark)⟩
    | false =>
      have hbuild : (sink.task write).checkCommitted sink.digest s.storage
          (s.lineage write.1) = .move (.committing delta) := by
        simp [CommitTask.checkCommitted, commitIsDurable, task, hrec, hc, hdelta]
      have hrefresh : (sink.task write).step sink.digest (s.lineage write.1) s.storage (.committing
          delta) .refresh = some (.move (.swapping delta (s.lineage write.1).length)) := by
        simp [CommitTask.step, task, hc]
      have hswap : (sink.task write).step sink.digest (s.lineage write.1) s.storage
          (.swapping delta (s.lineage write.1).length) (.swap .answered) = some
          (.publish ((sink.task write).snapshot sink.digest delta) .marking) := by
        simp [CommitTask.step, CommitTask.swapPointer]
      have hunmarked : (s.publish write.1 ((sink.task write).snapshot sink.digest delta)).storage
        (sink.digest (sink.commitIdentity write)) = none := hrec
      rw [hbuild] at hcheck
      obtain ⟨t, hmark⟩ := mark_completes hunmarked
      exact ⟨t, .head (step_commit hload) (.head
        (step_commit hcheck) (.head (step_commit hrefresh) (.head (step_commit hswap) hmark)))⟩

section
variable (hdistinct : DistinctCoordinates deliveries)
include hdistinct

theorem writes_complete
    (hinvariant : ∃ done, sink.ReplicaInv deliveries (s.enter next (.remaining rest)) done)
    (hrest : ∀ write ∈ rest, write ∈ sink.sourceWrites deliveries ∧ ∃ delta,
      rowDelta write.2.changelog (sink.encode write.1) = .ok delta) :
    ∃ t : ReplicaState V schemas,
    Reachable (sink.step deliveries) (s.enter next (.remaining rest)) (t.enter next .written) := by
  induction rest generalizing s with
  | nil => exact ⟨s, ⟨[], rfl⟩⟩
  | cons write rest ih =>
    obtain ⟨done, hheld⟩ := hinvariant
    obtain ⟨hw, delta, hdelta⟩ := hrest write mem_cons_self
    obtain ⟨mid, hfst⟩ := write_completes hdigest hheld.toStoreInv hw hdelta
    have hmid := reachable_keeps_replicaInv hdigest hdistinct hfst ⟨done, hheld⟩
    obtain ⟨t, hlater⟩ := ih hmid fun other hother => hrest other (mem_cons_of_mem _ hother)
    exact ⟨t, hfst.trans hlater⟩

section
variable (happl : sink.Applicable deliveries)
include happl

theorem delivery_completes (hnext : next < deliveries.length)
    (hi : ∃ done, sink.ReplicaInv deliveries (s.enter next .idle) done) :
    ∃ t : ReplicaState V schemas,
    Reachable (sink.step deliveries) (s.enter next .idle) (t.enter (next + 1) .idle) := by
  have hdelivery := getElem?_eq_getElem hnext
  obtain ⟨writes, hok, hdeltas⟩ := happl _ (getElem_mem hnext)
  have hreceive : sink.step deliveries (s.enter next .idle) .receive =
      some (s.enter next (.remaining writes)) := by
    simp [step, ReplicaState.enter, attemptStep, hdelivery, hok]
  have hsrc : ∀ write ∈ writes, write ∈ sink.sourceWrites deliveries := by
    intro write hw
    have hat : sink.WritesAt deliveries next writes := ⟨_, hdelivery, hok⟩
    exact hat.source.subset (mem_append_right _ hw)
  obtain ⟨mid, hwritten⟩ := writes_complete hdigest hdistinct (reachable_keeps_replicaInv
    hdigest hdistinct (.single hreceive) hi) fun write hw => ⟨hsrc write hw, hdeltas write hw⟩
  have hacknowledge : sink.step deliveries (mid.enter next .written) .acknowledge =
      some (({ mid with acknowledged := max mid.acknowledged (next + 1) }).enter (next + 1)
          .idle) := rfl
  exact ⟨_, .head hreceive (hwritten.trans (.single hacknowledge))⟩

theorem deliveries_complete (hnext : next ≤ deliveries.length)
    (hinvariant : ∃ done, sink.ReplicaInv deliveries (s.enter next .idle) done) :
    ∃ t : ReplicaState V schemas,
    Reachable (sink.step deliveries) (s.enter next .idle) (t.enter deliveries.length .idle) := by
  induction hleft : deliveries.length - next generalizing s next with
  | zero =>
    have hend : next = deliveries.length := by omega
    exact ⟨s, hend ▸ ⟨[], rfl⟩⟩
  | succ left ih =>
    obtain ⟨mid, hfst⟩ := delivery_completes hdigest hdistinct happl (by omega) hinvariant
    obtain ⟨t, hlater⟩ := ih (by omega)
      (reachable_keeps_replicaInv hdigest hdistinct hfst hinvariant) (by omega)
    exact ⟨t, hfst.trans hlater⟩

/-- From every state of the replica some run acknowledges all deliveries and
commits them at the source. -/
theorem source_completes (hinvariant : ∃ done, sink.ReplicaInv deliveries s done) :
    ∃ t, Reachable (sink.step deliveries) s t ∧
    t.acknowledged = deliveries.length ∧ t.sourceCommitted = deliveries.length := by
  have hstart : ∃ start : ReplicaState V schemas,
      Reachable (sink.step deliveries) s (start.enter s.sourceCommitted .idle) := by
    cases ha : s.attempt with
    | none =>
      have hrestart : sink.step deliveries s .restart = some (s.enter s.sourceCommitted .idle) := by
        simp [step, ha]
      exact ⟨s, .single hrestart⟩
    | some attempt =>
      have hcrash : sink.step deliveries s .crash = some { s with attempt := none } := by
        simp [step, ha]
      have hrestart : sink.step deliveries { s with attempt := none }
          .restart = some (s.enter s.sourceCommitted .idle) := rfl
      exact ⟨s, .head hcrash (.single hrestart)⟩
  obtain ⟨start, hfst⟩ := hstart
  have hbound : s.sourceCommitted ≤ deliveries.length := by
    obtain ⟨done, hheld⟩ := hinvariant
    exact hheld.ordered.trans hheld.bounded
  obtain ⟨last, hlast⟩ := deliveries_complete hdigest hdistinct happl hbound
    (reachable_keeps_replicaInv hdigest hdistinct hfst hinvariant)
  obtain ⟨done, hend⟩ := reachable_keeps_replicaInv hdigest hdistinct (hfst.trans hlast) hinvariant
  have hack :
    last.acknowledged = deliveries.length := le_antisymm hend.bounded (hend.running _ rfl).1
  have hord : last.sourceCommitted ≤ deliveries.length := hack ▸ hend.ordered
  have hcommit :
      sink.step deliveries (last.enter deliveries.length .idle) (.commitSource deliveries.length) =
      some { last.enter deliveries.length .idle with sourceCommitted := deliveries.length } := by
    simp [step, ReplicaState.enter, hord, hack]
  exact ⟨_, hfst.trans (hlast.trans (.single hcommit)), hack, rfl⟩

end
end
end

/-- The tables hold these writes: one snapshot for each, in their order, each
under an identity of its own, and reading the snapshots gives the table after
the writes. -/
structure ExactlyOnce [DecidableEq V] (sink : ReplicaSink schemas V E)
    (s : ReplicaState V schemas) (writes : List (TaggedWrite V schemas)) : Prop where
  inOrder : ∀ dataset, List.Forall₂ (sink.IsSnapshotOf dataset)
    (writes.filterMap (Tagged.ofDataset dataset)) (s.lineage dataset)
  once : ∀ dataset, ((s.lineage dataset).map Snapshot.properties).Nodup
  reading : ∀ dataset, Represents ((s.lineage dataset).map Snapshot.content)
    (applyWrites dataset (fun _ => none) writes)

theorem StoreInv.exactlyOnce [DecidableEq V] {done : List (TaggedWrite V schemas)}
    (hstore : sink.StoreInv deliveries s done)
    (hencode : ∀ ds, Function.Injective (sink.encode ds))
    (hdistinct : DistinctCoordinates deliveries) :
    sink.ExactlyOnce s done where
  inOrder := hstore.committed.snapshots
  once := hstore.committed.properties_nodup
    ((commitIdentity_nodup sink hdistinct).sublist (hstore.source.sublist.map _))
  reading := hstore.committed.represents hencode

/-- Replicated deliveries are applied exactly once, in source order, under
every crash, lost catalog response and replay; and from every state some replay
applies all of them. -/
theorem replica_exactlyOnce [DecidableEq V] (sink : ReplicaSink schemas V E)
    (deliveries : List (ReplicaDelivery V schemas)) (hdigest : sink.CollisionFree deliveries)
    (hencode : ∀ dataset, Function.Injective (sink.encode dataset))
    (hdistinct : DistinctCoordinates deliveries) {s : ReplicaState V schemas}
    (hreach : Reachable (sink.step deliveries) .initial s) :
    (∃ writes, writes <+: sink.sourceWrites deliveries ∧
      sink.writesBefore deliveries s.acknowledged <+: writes ∧
      sink.ExactlyOnce s writes) ∧
    (s.acknowledged = deliveries.length → sink.ExactlyOnce s (sink.sourceWrites deliveries) ∧
      ∀ dataset, Represents ((s.lineage dataset).map Snapshot.content)
        (sourceTable dataset deliveries)) ∧
    (sink.Applicable deliveries → (∀ reason, s.failure ≠ some (.refused reason)) ∧
      ∃ t, Reachable (sink.step deliveries) s t ∧ t.acknowledged = deliveries.length ∧
        t.sourceCommitted = deliveries.length) := by
  have hi := reachable_keeps_replicaInv hdigest hdistinct hreach ⟨[], replicaInv_initial⟩
  obtain ⟨done, hheld⟩ := hi
  have honce := hheld.exactlyOnce hencode hdistinct
  refine ⟨⟨done, hheld.source, hheld.acknowledged, honce⟩, ?_, ?_⟩
  · intro hall
    have ha := hheld.accepted
    have hack := hheld.acknowledged
    rw [writesBefore, hall, take_length] at hack
    rw [hall, take_length] at ha
    have hdone : done = sink.sourceWrites deliveries := hheld.source.eq_of_length_le hack.length_le
    subst hdone
    refine ⟨honce, fun dataset => ?_⟩
    have hreading := honce.reading dataset
    rwa [applyWrites_sourceWrites ha] at hreading
  intro happl
  refine ⟨?_, source_completes hdigest hdistinct happl ⟨done, hheld⟩⟩
  intro reason hfailure
  obtain ⟨delivery, hdelivery, hrefusal⟩ := hheld.refused reason hfailure
  obtain ⟨writes, hok, hdeltas⟩ := happl delivery hdelivery
  rcases hrefusal with herr | ⟨writes', hok', write, hw, herr⟩
  · cases hok.symm.trans herr
  cases hok.symm.trans hok'
  obtain ⟨delta, hdelta⟩ := hdeltas write hw
  cases hdelta.symm.trans herr

/-! Two rows are created, and a later transaction swaps their keys. -/

def accountsRow (offset : ℤ) (index : ℕ) (operation : String) (transaction : ℕ) : ReplicaRow where
  topic := some "wal"
  partition := some 0
  offset := some offset
  messageIndex := some index
  operation := some operation
  transaction := some (.uint64 transaction)

def createAccounts : ReplicaBatch ℕ swapSchema where
  rows := [accountsRow 6 0 "c" 70, accountsRow 6 1 "c" 70]
  changelog :=
    { rowCount := 2
      cell := fun row => ![![1, 10], ![2, 20]] row
      operations := fun _ => .create
      sourceVersions := fun _ => 6
      changedColumns := fun _ _ => true
      oldPrimaryKeys := none
      key_changed := by decide
      create_complete := by decide
      rowCount_lt := by decide }
  aligned := rfl

def swapAccounts : ReplicaBatch ℕ swapSchema where
  rows := (range 4).map fun index => accountsRow 9 index "u" 71
  changelog := swapBatch
  aligned := rfl

def accountsDelivery (batch : ReplicaBatch ℕ swapSchema) : ReplicaDelivery ℕ fun _ => swapSchema :=
  [⟨"accounts", batch⟩]

def accountsDeliveries : List (ReplicaDelivery ℕ fun _ => swapSchema) :=
  [accountsDelivery createAccounts, accountsDelivery swapAccounts]

def accountsSink : ReplicaSink (fun _ => swapSchema) ℕ ℕ where
  delivery := "replica"
  replayIdentity := "slot"
  partitionId := 0
  datasets := ["accounts"]
  tableUuid := fun _ => 1
  digest := fun commit =>
    match commit.source with
    | .replica _ (coordinate :: _) _ => BitVec.ofInt 128 coordinate.offset
    | _ => 0
  encode := fun _ => swapEncode

theorem accounts_collisionFree : accountsSink.CollisionFree accountsDeliveries := by
  have hidentities :
      ∀ first ∈ (accountsSink.sourceWrites accountsDeliveries).map accountsSink.commitIdentity,
      ∀ second ∈ (accountsSink.sourceWrites accountsDeliveries).map accountsSink.commitIdentity,
      accountsSink.digest first = accountsSink.digest second → first = second := by
    decide +kernel
  intro first hfst second hsnd
  exact hidentities _ (mem_map_of_mem hfst) _ (mem_map_of_mem hsnd)

theorem accounts_distinctCoordinates : DistinctCoordinates accountsDeliveries := by
  have hown : ∀ coord ∈ deliveryCoordinates (accountsDelivery createAccounts) "accounts",
      coord ∉ deliveryCoordinates (accountsDelivery swapAccounts) "accounts" := by
    decide +kernel
  apply pairwise_pair.mpr
  intro ds coord hfst
  by_cases hname : "accounts" = ds
  · subst hname
    exact hown coord hfst
  simp [deliveryCoordinates, accountsDelivery, Tagged.ofDataset, hname] at hfst

theorem accounts_applicable : accountsSink.Applicable accountsDeliveries := by
  have hchunk : ∀ dlv ∈ accountsDeliveries,
      ((accountsSink.deliveryWrites dlv).toOption.map fun writes => writes.all fun write =>
      (rowDelta write.2.changelog (accountsSink.encode write.1)).isOk) = some true := by
    decide +kernel
  intro dlv hdelivery
  have hchunk := hchunk dlv hdelivery
  cases hok : accountsSink.deliveryWrites dlv with
  | error => simp [hok, Except.toOption] at hchunk
  | ok writes =>
    rw [hok] at hchunk
    refine ⟨writes, rfl, fun write hw => ?_⟩
    have hall := all_eq_true.mp (Option.some.inj hchunk) write hw
    cases hdelta : rowDelta write.2.changelog (accountsSink.encode write.1) with
    | error => simp [hdelta, Except.toBool] at hall
    | ok delta => exact ⟨delta, rfl⟩

theorem replica_exactlyOnce_accounts :
    ∃ s, Reachable (accountsSink.step accountsDeliveries) .initial s ∧ s.acknowledged = 2 ∧
      Represents ((s.lineage "accounts").map Snapshot.content)
        (sourceTable "accounts" accountsDeliveries) := by
  have hguarantee : ∀ {s}, Reachable (accountsSink.step accountsDeliveries) .initial s → _ :=
    replica_exactlyOnce accountsSink accountsDeliveries accounts_collisionFree
      (fun _ => swapEncode_injective) accounts_distinctCoordinates
  obtain ⟨s, hreach, hack, _⟩ := ((hguarantee ⟨[], rfl⟩).2.2 accounts_applicable).2
  exact ⟨s, hreach, hack, ((hguarantee hreach).2.1 hack).2 "accounts"⟩

end ReplicaSink
end Transferia.Iceberg
