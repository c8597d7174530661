import Transferia.Iceberg.ReplicaWrites

/-!
# What the Iceberg replica has committed

The committed snapshots are always those of a first part of the writes of the
source, in source order.  Replaying a delivery finds its own snapshot and skips
it; a delivery is acknowledged after all its writes are committed.
-/

namespace Transferia.Iceberg
open List Function Support Changelog ReplicaState
variable {V E : Type} {schemas : String → TableSchema} [DecidableEq E]
namespace ReplicaSink
variable (sink : ReplicaSink schemas V E)
  {write : TaggedWrite V schemas} {delta : RowDelta V (schemas write.1)}

/-- The snapshot of a write: its row delta, under its commit identity. -/
def IsSnapshotOf (dataset : String) (write : ReplicaWrite V (schemas dataset))
    (snapshot : Snapshot (RowDelta V (schemas dataset))) : Prop :=
  rowDelta write.changelog (sink.encode dataset) = .ok snapshot.content ∧ snapshot.properties = some
    (commitSnapshotProperties sink.digest (sink.commitIdentity ⟨dataset, write⟩))

/-- The snapshots of every table are those of the writes `done`, and the
durable records are records of these writes. -/
structure Committed (lineage : (dataset : String) → Lineage (RowDelta V (schemas dataset)))
    (storage : DurableStorage) (done : List (TaggedWrite V schemas)) : Prop where
  snapshots : ∀ dataset, List.Forall₂ (sink.IsSnapshotOf dataset)
    (done.filterMap (Tagged.ofDataset dataset)) (lineage dataset)
  records : ∀ key payload, storage key = some payload →
    key = sink.digest payload ∧ payload ∈ done.map sink.commitIdentity

variable {sink} {lineage : (dataset : String) → Lineage (RowDelta V (schemas dataset))}
  {storage : DurableStorage} {done : List (TaggedWrite V schemas)}

theorem committed_nil : sink.Committed (fun _ => []) (fun _ => none) [] where
  snapshots := fun _ => .nil
  records := by simp

theorem map_ofDataset {γ : Type*} (ds : String) (f : TaggedWrite V schemas → γ)
    (writes : List (TaggedWrite V schemas)) :
    (writes.filterMap (Tagged.ofDataset ds)).map (fun write => f ⟨ds, write⟩) =
      (writes.filter (·.1 = ds)).map f := by
  induction writes with
  | nil => rfl
  | cons write rest ih =>
    obtain ⟨name, value⟩ := write
    by_cases hsame : name = ds
    · subst hsame
      simp [Tagged.ofDataset, ih]
    simp [Tagged.ofDataset, hsame, ih]

section
variable (hdone : sink.Committed lineage storage done)
include hdone

theorem Committed.properties (ds : String) :
    (lineage ds).map Snapshot.properties =
      (done.filter (·.1 = ds)).map
        fun write => some (commitSnapshotProperties sink.digest (sink.commitIdentity write)) := by
  have hpairs := (hdone.snapshots ds).imp fun _ _ hof => hof.2.symm
  have hmapped := forall₂_map_left_iff.mpr (forall₂_map_right_iff.mpr hpairs)
  rw [forall₂_eq_eq_eq] at hmapped
  rw [← hmapped]
  exact map_ofDataset ds
    (fun write => some (commitSnapshotProperties sink.digest (sink.commitIdentity write))) done

theorem Committed.isCommitted_iff (write : TaggedWrite V schemas) :
    hasCommitIdentity sink.digest (lineage write.1) (sink.commitIdentity write) ↔
    sink.commitIdentity write ∈ done.map sink.commitIdentity := by
  have hmem : (∃ snap ∈ lineage write.1, snap.properties = some (commitSnapshotProperties
      sink.digest (sink.commitIdentity write))) ↔ some (commitSnapshotProperties
      sink.digest (sink.commitIdentity write)) ∈ (lineage write.1).map Snapshot.properties := by
    rw [mem_map]
  rw [hasCommitIdentity_iff, hmem, hdone.properties write.1]
  constructor
  · intro hget
    obtain ⟨held, hheld, hsame⟩ := mem_map.mp hget
    rw [← commitSnapshotProperties_injective sink.digest (Option.some.inj hsame)]
    exact mem_map_of_mem (mem_of_mem_filter hheld)
  intro hc
  obtain ⟨held, hheld, hsame⟩ := mem_map.mp hc
  have hdataset : held.1 = write.1 := congrArg CommitIdentity.dataset hsame
  refine mem_map.mpr ⟨held, ?_, by rw [hsame]⟩
  exact mem_filter.mpr ⟨hheld, decide_eq_true hdataset⟩

theorem Committed.properties_nodup (hnodup : (done.map sink.commitIdentity).Nodup) (ds : String) :
    ((lineage ds).map Snapshot.properties).Nodup := by
  have hwrites : ((done.filter (·.1 = ds)).map sink.commitIdentity).Nodup :=
    hnodup.sublist (filter_sublist.map _)
  have hp :=
    (hwrites.map (commitSnapshotProperties_injective sink.digest)).map (Option.some_injective _)
  rw [map_map, map_map] at hp
  rw [hdone.properties ds]
  exact hp

theorem Committed.publish (hdelta : rowDelta write.2.changelog (sink.encode write.1) = .ok delta) :
    sink.Committed
      (update lineage write.1 (lineage write.1 ++ [(sink.task write).snapshot sink.digest delta]))
      storage (done ++ [write]) where
  snapshots := by
    intro dataset
    have hold := hdone.snapshots dataset
    rw [filterMap_append]
    by_cases hsame : dataset = write.1
    · subst hsame
      rw [update_self]
      apply rel_append hold
      simp only [filterMap_cons, Tagged.ofDataset_self]
      exact .cons ⟨hdelta, rfl⟩ .nil
    have hother : write.1 ≠ dataset := fun h => hsame h.symm
    rw [update_of_ne hsame]
    simpa [Tagged.ofDataset_of_ne hother] using hold
  records := by
    intro key payload hrec
    obtain ⟨hkey, hmem⟩ := hdone.records key payload hrec
    refine ⟨hkey, ?_⟩
    rw [map_append]
    exact mem_append_left _ hmem

theorem Committed.mark (hmem : write ∈ done) :
    sink.Committed lineage
      (update storage (sink.digest (sink.commitIdentity write)) (some (sink.commitIdentity write)))
      done where
  snapshots := hdone.snapshots
  records := by
    intro key payload hrec
    by_cases hkey : key = sink.digest (sink.commitIdentity write)
    · subst hkey
      rw [update_self] at hrec
      cases hrec
      exact ⟨rfl, mem_map_of_mem hmem⟩
    rw [update_of_ne hkey] at hrec
    exact hdone.records key payload hrec

end

theorem represents_snapshots [DecidableEq V] {ds : String}
    (hencode : Function.Injective (sink.encode ds)) {writes : List (ReplicaWrite V (schemas ds))}
    {snapshots : Lineage (RowDelta V (schemas ds))}
    (hsnapshots : List.Forall₂ (sink.IsSnapshotOf ds) writes snapshots)
    {deltas : List (RowDelta V (schemas ds))} {table : (schemas ds).Table V}
    (hread : Represents deltas table) :
    Represents (deltas ++ snapshots.map Snapshot.content)
      (writes.foldl (fun table write => write.changelog.applyFullImages table) table) := by
  induction hsnapshots generalizing deltas table with
  | nil => simpa using hread
  | cons hof _ ih =>
    have hnext := ih (represents_rowDelta hencode hof.1 hread)
    rwa [append_assoc] at hnext

theorem Committed.represents [DecidableEq V] (hdone : sink.Committed lineage storage done)
    (hencode : ∀ ds, Function.Injective (sink.encode ds)) (ds : String) :
    Represents ((lineage ds).map Snapshot.content) (applyWrites ds (fun _ => none) done) :=
  represents_snapshots (hencode ds) (hdone.snapshots ds) represents_empty

variable (sink) {next : ℕ}
  {sink} {deliveries : List (ReplicaDelivery V schemas)} {s t : ReplicaState V schemas}
section
variable (deliveries : List (ReplicaDelivery V schemas))

/-- The writes that the sink makes of the delivery at a position. -/
def WritesAt (next : ℕ) (writes : List (TaggedWrite V schemas)) : Prop :=
  ∃ delivery, deliveries[next]? = some delivery ∧ sink.deliveryWrites delivery = .ok writes

def writesBefore (next : ℕ) : List (TaggedWrite V schemas) :=
  sink.sourceWrites (deliveries.take next)

/-- The reasons for which the content of a delivery can be refused. -/
def Refusal (reason : String) : Prop :=
  ∃ delivery ∈ deliveries, sink.deliveryWrites delivery = .error reason ∨
    ∃ writes, sink.deliveryWrites delivery = .ok writes ∧
    ∃ write ∈ writes, rowDelta write.2.changelog (sink.encode write.1) = .error reason

end

/-- What is known at a point of the commit of `write`, when the writes
`before` come in front of it. -/
def PointInv (lineage : (dataset : String) → Lineage (RowDelta V (schemas dataset)))
    (done before : List (TaggedWrite V schemas))
    (write : TaggedWrite V schemas) : CommitPoint (RowDelta V (schemas write.1)) → Prop
  | .loading => True
  | .loaded loaded => loaded = lineage write.1
  | .committing delta => rowDelta write.2.changelog (sink.encode write.1) = .ok delta
  | .swapping delta _ =>
    rowDelta write.2.changelog (sink.encode write.1) = .ok delta ∧ done = before
  | .recovering => True
  | .marking => before ++ [write] <+: done

section
variable (deliveries : List (ReplicaDelivery V schemas))

def PhaseInv (lineage : (dataset : String) → Lineage (RowDelta V (schemas dataset)))
    (done : List (TaggedWrite V schemas)) (next : ℕ) : SinkPhase V schemas → Prop
  | .idle => True
  | .writing write point rest => ∃ before, sink.WritesAt deliveries next (before ++ write :: rest) ∧
      sink.writesBefore deliveries next ++ before <+: done ∧
      sink.PointInv lineage done (sink.writesBefore deliveries next ++ before) write point
  | .written => ∃ writes,
      sink.WritesAt deliveries next writes ∧ sink.writesBefore deliveries next ++ writes <+: done

section
variable (s : ReplicaState V schemas) (done : List (TaggedWrite V schemas))

/-- The committed writes are a first part of the source's writes, and contain
the acknowledged deliveries. -/
structure StoreInv : Prop where
  source : done <+: sink.sourceWrites deliveries
  committed : sink.Committed s.lineage s.storage done
  ordered : s.sourceCommitted ≤ s.acknowledged
  bounded : s.acknowledged ≤ deliveries.length
  accepted :
    ∀ delivery ∈ deliveries.take s.acknowledged, ∃ writes, sink.deliveryWrites delivery = .ok writes
  acknowledged : sink.writesBefore deliveries s.acknowledged <+: done

structure ReplicaInv : Prop extends sink.StoreInv deliveries s done where
  running : ∀ attempt, s.attempt = some attempt → attempt.next ≤ s.acknowledged ∧
    sink.PhaseInv deliveries s.lineage done attempt.next attempt.phase
  refused : ∀ reason, s.failure = some (.refused reason) → sink.Refusal deliveries reason

end
end

theorem replicaInv_initial : sink.ReplicaInv deliveries initial [] where
  source := nil_prefix
  committed := committed_nil
  ordered := le_refl 0
  bounded := Nat.zero_le _
  accepted := by simp [initial]
  acknowledged := by simp [initial, writesBefore, sourceWrites]
  running := by simp [initial]
  refused := by simp [initial]

section
variable (hsto : sink.StoreInv deliveries s done)
include hsto

theorem StoreInv.enter
    (hrefused : ∀ reason, s.failure = some (.refused reason) → sink.Refusal deliveries reason)
    {phase : SinkPhase V schemas} (hnext : next ≤ s.acknowledged)
    (hp : sink.PhaseInv deliveries s.lineage done next phase) :
    sink.ReplicaInv deliveries (s.enter next phase) done where
  toStoreInv := { hsto with }
  running := by
    rintro attempt ⟨⟩
    exact ⟨hnext, hp⟩
  refused := hrefused

theorem StoreInv.fail {failure : CommitFailure}
    (hrefused : ∀ reason, failure = .refused reason → sink.Refusal deliveries reason) :
    sink.ReplicaInv deliveries (s.fail failure) done where
  toStoreInv := { hsto with }
  running := by simp [ReplicaState.fail]
  refused := by
    intro reason hreason
    exact hrefused reason (Option.some.inj hreason)

theorem StoreInv.publish (hdelta : rowDelta write.2.changelog (sink.encode write.1) = .ok delta)
    (hsrc : done ++ [write] <+: sink.sourceWrites deliveries) :
    sink.StoreInv deliveries (s.publish write.1 ((sink.task write).snapshot sink.digest delta))
      (done ++ [write]) where
  source := hsrc
  committed := hsto.committed.publish hdelta
  ordered := hsto.ordered
  bounded := hsto.bounded
  accepted := hsto.accepted
  acknowledged := hsto.acknowledged.trans (prefix_append _ _)

end

variable {before : List (TaggedWrite V schemas)} {writes rest : List (TaggedWrite V schemas)}
omit [DecidableEq E] in
theorem WritesAt.writesBefore_succ (hwrites : sink.WritesAt deliveries next writes) :
    sink.writesBefore deliveries (next + 1) = sink.writesBefore deliveries next ++ writes := by
  obtain ⟨delivery, hdelivery, hok⟩ := hwrites
  have hown : sink.writesOf delivery = writes := by rw [writesOf, hok]
  rw [writesBefore, take_add_one, hdelivery]
  simp [writesBefore, sourceWrites, hown]

omit [DecidableEq E] in
theorem writesBefore_le (next : ℕ) :
    sink.writesBefore deliveries next <+: sink.sourceWrites deliveries := by
  refine ⟨sink.sourceWrites (deliveries.drop next), ?_⟩
  rw [writesBefore, sourceWrites, sourceWrites, ← flatMap_append, take_append_drop]
  rfl

omit [DecidableEq E] in
theorem writesBefore_mono {first second : ℕ} (hle : first ≤ second) :
    sink.writesBefore deliveries first <+: sink.writesBefore deliveries second := by
  have hp : sink.writesBefore (deliveries.take second) first <+: sink.sourceWrites
    (deliveries.take second) := writesBefore_le first
  rwa [writesBefore, take_take, min_eq_left hle] at hp

theorem phaseInv_remaining (before : List (TaggedWrite V schemas))
    (hwrites : sink.WritesAt deliveries next (before ++ rest))
    (hbef : sink.writesBefore deliveries next ++ before <+: done) :
    sink.PhaseInv deliveries lineage done next (.remaining rest) := by
  cases rest with
  | nil =>
    refine ⟨before, ?_, hbef⟩
    rwa [append_nil] at hwrites
  | cons write rest => exact ⟨before, hwrites, hbef, trivial⟩

omit [DecidableEq E] in
theorem WritesAt.source (hwrites : sink.WritesAt deliveries next writes) :
    sink.writesBefore deliveries next ++ writes <+: sink.sourceWrites deliveries := by
  rw [← hwrites.writesBefore_succ]
  exact writesBefore_le _

theorem next_or_committed {done all : List (TaggedWrite V schemas)}
    (hbef : before <+: done) (hdone : done <+: all) (hall : before ++ [write] <+: all) :
    done = before ∨ before ++ [write] <+: done := by
  obtain ⟨later, rfl⟩ := hbef
  cases later with
  | nil => exact .inl (append_nil before)
  | cons next later =>
    right
    obtain ⟨rest, rfl⟩ := hall
    rw [append_assoc, prefix_append_right_inj] at hdone
    obtain ⟨hnext, _⟩ := cons_prefix_cons.mp hdone
    rw [prefix_append_right_inj, hnext]
    exact ⟨later, rfl⟩

section
variable (hsto : sink.StoreInv deliveries s done) (hdist : DistinctCoordinates deliveries)
  (hbef : before <+: done) (hall : before ++ [write] <+: sink.sourceWrites deliveries)
include hsto hdist hbef hall

theorem StoreInv.committed_iff :
    hasCommitIdentity sink.digest (s.lineage write.1) (sink.commitIdentity write) ↔
    before ++ [write] <+: done := by
  rw [hsto.committed.isCommitted_iff]
  constructor
  · intro hmem
    rcases next_or_committed hbef hsto.source hall with hsame | hin
    · subst hsame
      have hnodup :=
        (commitIdentity_nodup sink hdist).sublist (hall.sublist.map sink.commitIdentity)
      rw [map_append, map_singleton, ← concat_eq_append, nodup_concat] at hnodup
      exact absurd hmem hnodup.1
    exact hin
  intro hin
  exact mem_map_of_mem (hin.subset (by simp))

theorem StoreInv.eq_of_not_committed
    (hc : hasCommitIdentity sink.digest (s.lineage write.1) (sink.commitIdentity write) = false) :
    done = before := by
  rcases next_or_committed hbef hsto.source hall with hsame | hin
  · exact hsame
  · cases ((hsto.committed_iff hdist hbef hall).mpr hin).symm.trans hc

end

/-- The digest tells the commit identities of the source's writes apart. -/
def CollisionFree (sink : ReplicaSink schemas V E)
    (deliveries : List (ReplicaDelivery V schemas)) : Prop :=
  ∀ first ∈ sink.sourceWrites deliveries, ∀ second ∈ sink.sourceWrites deliveries,
      sink.digest (sink.commitIdentity first) = sink.digest (sink.commitIdentity second) →
      sink.commitIdentity first = sink.commitIdentity second

theorem StoreInv.record_eq (hsto : sink.StoreInv deliveries s done)
    (hdig : sink.CollisionFree deliveries) {payload : CommitIdentity}
    (hw : write ∈ sink.sourceWrites deliveries)
    (hrec : s.storage (sink.digest (sink.commitIdentity write)) = some payload) :
    payload = sink.commitIdentity write ∧
    hasCommitIdentity sink.digest (s.lineage write.1) (sink.commitIdentity write) := by
  obtain ⟨hkey, hmem⟩ := hsto.committed.records _ _ hrec
  obtain ⟨other, hother, rfl⟩ := mem_map.mp hmem
  have hsame := hdig write hw other (hsto.source.subset hother) hkey
  rw [← hsame] at hmem ⊢
  exact ⟨rfl, (hsto.committed.isCommitted_iff write).mpr hmem⟩

section
variable (hdig : sink.CollisionFree deliveries) (hdist : DistinctCoordinates deliveries)
include hdig hdist

theorem commit_keeps_replicaInv (hsto : sink.StoreInv deliveries s done)
    (hrefused : ∀ reason, s.failure = some (.refused reason) → sink.Refusal deliveries reason)
    {point : CommitPoint (RowDelta V (schemas write.1))} (hnext : next ≤ s.acknowledged)
    (hp : sink.PhaseInv deliveries s.lineage done next (.writing write point rest))
    {effect : CommitEffect (RowDelta V (schemas write.1))}
    (hmove : (sink.task write).Moves sink.digest (s.lineage write.1) s.storage point effect) :
    ∃ done, sink.ReplicaInv deliveries (s.carry next write rest effect) done := by
  obtain ⟨before, hwrites, hbef, hpoint⟩ := hp
  have hall :
      sink.writesBefore deliveries next ++ before ++ [write] <+: sink.sourceWrites deliveries := by
    refine List.IsPrefix.trans ⟨rest, ?_⟩ hwrites.source
    simp
  have hw : write ∈ sink.sourceWrites deliveries := hall.subset (by simp)
  have hiff := hsto.committed_iff hdist hbef hall
  have hlater : sink.WritesAt deliveries next (before ++ [write] ++ rest) := by rwa [append_assoc]
  have hs : sink.writesBefore deliveries next ++ before ++ [write] <+:
      done → sink.PhaseInv deliveries s.lineage done next (.remaining rest) := by
    intro hin
    exact phaseInv_remaining _ hlater (by rwa [← append_assoc])
  have hmark : hasCommitIdentity sink.digest (s.lineage write.1)
      (sink.commitIdentity write) → sink.PhaseInv deliveries s.lineage done next
        (.writing write .marking rest) := by
    intro hc
    exact ⟨before, hwrites, hbef, hiff.mp hc⟩
  cases hmove with
  | load => exact ⟨done, hsto.enter hrefused hnext ⟨before, hwrites, hbef, rfl⟩⟩
  | corrupt hrec hother | conflict hrec hother =>
    exact absurd (hsto.record_eq hdig hw hrec).1 hother
  | skip hc =>
    cases hpoint
    exact ⟨done, hsto.enter hrefused hnext (hs (hiff.mp hc))⟩
  | absent hrec hc =>
    cases hpoint
    have hheld := (hsto.record_eq hdig hw hrec).2
    cases hheld.symm.trans hc
  | found hc =>
    cases hpoint
    exact ⟨done, hsto.enter hrefused hnext (hmark hc)⟩
  | unusable hdelta =>
    obtain ⟨delivery, hdelivery, hok⟩ := hwrites
    refine ⟨done, hsto.fail fun reason hreason => ?_⟩
    cases hreason
    exact ⟨delivery, mem_of_getElem? hdelivery, .inr ⟨_, hok, write, by simp, hdelta⟩⟩
  | build hdelta => exact ⟨done, hsto.enter hrefused hnext ⟨before, hwrites, hbef, hdelta⟩⟩
  | rebased hc | recovered hc => exact ⟨done, hsto.enter hrefused hnext (hmark hc)⟩
  | duplicate => exact ⟨done, hsto.enter hrefused hnext ⟨before, hwrites, hbef, trivial⟩⟩
  | refresh hc =>
    have hsame := hsto.eq_of_not_committed hdist hbef hall hc
    exact ⟨done, hsto.enter hrefused hnext ⟨before, hwrites, hbef, hpoint, hsame⟩⟩
  | swapped hnew =>
    obtain ⟨hdelta, rfl⟩ := hpoint
    refine ⟨_, (hsto.publish hdelta hall).enter hrefused hnext
        ⟨before, hwrites, prefix_append _ _, ?_⟩⟩
    rcases hnew with rfl | rfl | rfl
    · exact prefix_rfl
    · exact hdelta
    · trivial
  | unswapped hnew =>
    refine ⟨done, hsto.enter hrefused hnext ⟨before, hwrites, hbef, ?_⟩⟩
    rcases hnew with rfl | rfl
    · exact hpoint.1
    · trivial
  | lost => exact ⟨done, hsto.fail (by simp)⟩
  | mark =>
    have hin : sink.writesBefore deliveries next ++ before ++ [write] <+: done := hpoint
    have hmarked : sink.StoreInv deliveries
        { s with
          storage := update s.storage (sink.digest (sink.commitIdentity write)) (some
            (sink.commitIdentity write)) } done :=
      { hsto with
        committed := hsto.committed.mark (hin.subset (by simp)) }
    exact ⟨done, hmarked.enter hrefused hnext (hs hin)⟩
  | marked => exact ⟨done, hsto.enter hrefused hnext (hs hpoint)⟩

theorem step_keeps_replicaInv {label : ReplicaLabel}
    (hi : ∃ done, sink.ReplicaInv deliveries s done)
    (hstep : sink.step deliveries s label = some t) :
    ∃ done, sink.ReplicaInv deliveries t done := by
  obtain ⟨done, hi⟩ := hi
  have hsto := hi.toStoreInv
  cases moves_of_step hstep with
  | restart => exact ⟨done, hsto.enter hi.refused hsto.ordered trivial⟩
  | commitSource hack => exact ⟨done, { hi with ordered := hack }⟩
  | crash => exact ⟨done, { hi with running := by simp }⟩
  | refuse hdelivery hwrites =>
    refine ⟨done, hsto.fail fun reason hreason => ?_⟩
    cases hreason
    exact ⟨_, mem_of_getElem? hdelivery, .inl hwrites⟩
  | receive ha hdelivery hwrites =>
    obtain ⟨hnext, _⟩ := hi.running _ ha
    refine ⟨done, hsto.enter hi.refused hnext (phaseInv_remaining [] ⟨_, hdelivery, hwrites⟩ ?_)⟩
    rw [append_nil]
    exact (writesBefore_mono hnext).trans hsto.acknowledged
  | commit ha hmove =>
    obtain ⟨hnext, hp⟩ := hi.running _ ha
    exact commit_keeps_replicaInv hdig hdist hsto hi.refused hnext hp hmove
  | acknowledge ha =>
    rename_i next
    obtain ⟨hnext, writes, hwrites, hin⟩ := hi.running _ ha
    have hhere : sink.writesBefore deliveries (next + 1) <+: done := by rwa
        [hwrites.writesBefore_succ]
    obtain ⟨delivery, hdelivery, hok⟩ := hwrites
    have hlt : next < deliveries.length := (List.getElem?_eq_some_iff.mp hdelivery).1
    have hack : sink.StoreInv deliveries
        { s with acknowledged := max s.acknowledged (next + 1) } done := by
      refine ⟨hsto.source, hsto.committed, ?_, ?_, ?_, ?_⟩
      · exact hsto.ordered.trans (le_max_left _ _)
      · exact max_le hsto.bounded hlt
      · intro other hother
        rcases max_choice s.acknowledged (next + 1) with hmax | hmax
        · exact hsto.accepted other (by simpa only [hmax] using hother)
        have hfront : other ∈ deliveries.take (next + 1) := by simpa only [hmax] using hother
        rw [take_add_one, hdelivery, mem_append] at hfront
        rcases hfront with hfront | hlast
        · exact hsto.accepted other (take_subset_take_left deliveries hnext hfront)
        have hsame : other = delivery := by simpa using hlast
        exact ⟨writes, hsame ▸ hok⟩
      rcases max_choice s.acknowledged (next + 1) with hmax | hmax
      · simpa only [hmax] using hsto.acknowledged
      · simpa only [hmax] using hhere
    exact ⟨done, hack.enter hi.refused (le_max_right _ _) trivial⟩

end
end ReplicaSink
end Transferia.Iceberg
