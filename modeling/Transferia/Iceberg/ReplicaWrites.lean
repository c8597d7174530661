import Transferia.Iceberg.Replica

/-!
# The writes of replica deliveries

The deliveries of a source, and the writes the sink makes of them.  Source
coordinates make the commit identities of all writes distinct, and grouping the
batches of a delivery by dataset keeps the changes of every dataset.
-/

namespace Transferia.Iceberg
open List Support Changelog OrderedMap Tagged
variable {V E : Type} {schemas : String → TableSchema}

/-- The source coordinates of a delivery's rows of one dataset. -/
def deliveryCoordinates (delivery : ReplicaDelivery V schemas)
    (dataset : String) : List Coordinate :=
  (delivery.filterMap (ofDataset dataset)).flatMap (rowCoordinates ·.rows)

/-- No two deliveries share a source coordinate of one dataset. -/
def DistinctCoordinates (deliveries : List (ReplicaDelivery V schemas)) : Prop :=
  deliveries.Pairwise fun earlier later =>
    ∀ dataset coordinate, coordinate ∈ deliveryCoordinates earlier dataset →
        coordinate ∉ deliveryCoordinates later dataset

/-- The table of a dataset after the changes of one delivery. -/
def applyDelivery [DecidableEq V] (dataset : String) (table : (schemas dataset).Table V)
    (delivery : ReplicaDelivery V schemas) : (schemas dataset).Table V :=
  (delivery.filterMap (ofDataset dataset)).foldl
    (fun table batch => batch.changelog.applyFullImages table) table

/-- The table obtained by applying all changes once, in source order. -/
def sourceTable [DecidableEq V] (dataset : String) (deliveries : List (ReplicaDelivery V schemas)) :
    (schemas dataset).Table V :=
  deliveries.foldl (applyDelivery dataset) fun _ => none

def applyWrites [DecidableEq V] (dataset : String) (table : (schemas dataset).Table V)
    (writes : List (TaggedWrite V schemas)) : (schemas dataset).Table V :=
  (writes.filterMap (ofDataset dataset)).foldl
    (fun table write => write.changelog.applyFullImages table) table

namespace ReplicaSink
variable (sink : ReplicaSink schemas V E)

def writesOf (delivery : ReplicaDelivery V schemas) : List (TaggedWrite V schemas) :=
  match sink.deliveryWrites delivery with
  | .ok writes => writes
  | .error _ => []

def sourceWrites (deliveries : List (ReplicaDelivery V schemas)) : List (TaggedWrite V schemas) :=
  deliveries.flatMap sink.writesOf

variable {sink}

variable {delivery : ReplicaDelivery V schemas} {write : TaggedWrite V schemas} {dataset : String}
  {head : ReplicaRow} {tail : List ReplicaRow}

def Origin (delivery : ReplicaDelivery V schemas) (write : TaggedWrite V schemas) : Prop :=
  ∃ head tail, replicaSourceIdentity head tail = .ok write.2.identity ∧
    ∀ coordinate ∈ rowCoordinates (head :: tail), coordinate ∈ deliveryCoordinates delivery write.1

theorem Origin.cons (horigin : Origin delivery write)
    (batch : Tagged fun dataset => ReplicaBatch V (schemas dataset)) :
    Origin (batch :: delivery) write := by
  obtain ⟨head, tail, hident, hc⟩ := horigin
  refine ⟨head, tail, hident, ?_⟩
  intro coordinate hmem
  obtain ⟨found, hget, hrow⟩ := mem_flatMap.mp (hc coordinate hmem)
  obtain ⟨entry, hentry, hof⟩ := mem_filterMap.mp hget
  refine mem_flatMap.mpr ⟨found, ?_, hrow⟩
  exact mem_filterMap.mpr ⟨entry, mem_cons_of_mem _ hentry, hof⟩

theorem origin_of_rows {batch : ReplicaBatch V (schemas dataset)} {identity : StableCommitSource}
    (hrows : batch.rows = head :: tail) (hident : replicaSourceIdentity head tail = .ok identity) :
    Origin (⟨dataset, batch⟩ :: delivery)
      ⟨dataset, { changelog := batch.changelog, identity }⟩ := by
  refine ⟨head, tail, hident, ?_⟩
  intro coordinate hmem
  refine mem_flatMap.mpr ⟨batch, ?_, hrows ▸ hmem⟩
  exact mem_filterMap.mpr ⟨_, mem_cons_self, ofDataset_self _⟩

theorem groupBatches_origin {grp res : OrderedMap String (TaggedWrite V schemas)}
    (hok : sink.groupBatches grp delivery = .ok res) (hw : res.find? dataset = some write) :
    grp.find? dataset = some write ∨ write.1 = dataset ∧ Origin delivery write := by
  induction delivery generalizing grp with
  | nil =>
    cases hok
    exact .inl hw
  | cons entry rest ih =>
    obtain ⟨name, batch⟩ := entry
    unfold groupBatches at hok
    split at hok
    · rcases ih hok with hold | ⟨hname, ho⟩
      · exact .inl hold
      · exact .inr ⟨hname, ho.cons _⟩
    rename_i head tail hrows
    split at hok
    · split at hok
      · cases hok
      rename_i identity hident
      split at hok
      · cases hok
      rcases ih hok with hold | ⟨hname, ho⟩
      · by_cases hsame : dataset = name
        · subst hsame
          rw [find?_insert_self] at hold
          cases hold
          exact .inr ⟨rfl, origin_of_rows hrows hident⟩
        rw [find?_insert_ne _ _ hsame] at hold
        exact .inl hold
      exact .inr ⟨hname, ho.cons _⟩
    · cases hok

theorem deliveryWrites_ok {writes : List (TaggedWrite V schemas)}
    (hok : sink.deliveryWrites delivery = .ok writes) :
    (∀ write ∈ writes, Origin delivery write) ∧ (writes.map Sigma.fst).Nodup := by
  obtain ⟨grouped, hgroup, hok⟩ := of_bind hok
  cases hok
  have hentries : ∀ entry ∈ grouped.entries, entry.2.1 = entry.1 ∧ Origin delivery entry.2 := by
    intro entry hentry
    have hfind := (mem_entries_iff grouped).mp hentry
    rcases groupBatches_origin hgroup hfind with hempty | horigin
    · cases hempty
    · exact horigin
  constructor
  · intro write hw
    obtain ⟨entry, hentry, rfl⟩ := mem_map.mp hw
    exact (hentries entry hentry).2
  have hnames : (grouped.entries.map Prod.snd).map Sigma.fst = grouped.entries.map Prod.fst := by
    rw [map_map]
    exact map_congr_left fun entry hentry => (hentries entry hentry).1
  rw [hnames, Nodup, pairwise_map]
  exact grouped.sorted.imp fun hlt => ne_of_lt hlt

theorem writesOf_ok (dlv : ReplicaDelivery V schemas) : (∀ write ∈ sink.writesOf dlv,
    Origin dlv write) ∧ ((sink.writesOf dlv).map Sigma.fst).Nodup := by
  unfold writesOf
  cases hwrites : sink.deliveryWrites dlv with
  | error error => simp
  | ok writes => exact deliveryWrites_ok hwrites

theorem coordinates_ne_nil {src : StableCommitSource}
    (hok : replicaSourceIdentity head tail = .ok src) :
    ∃ coord, coord ∈ rowCoordinates (head :: tail) := by
  unfold replicaSourceIdentity at hok
  split at hok
  · cases hok
  split at hok
  · cases hok
  rename_i hgroup
  unfold groupRows at hgroup
  split at hgroup
  · cases hgroup
  rename_i coord hcoordinate
  refine ⟨coord, ?_⟩
  rw [rowCoordinates, filterMap_cons_some hcoordinate]
  exact mem_cons_self

theorem commitIdentity_ne {earlier later : ReplicaDelivery V schemas}
    (hdistinct :
      ∀ ds coord, coord ∈ deliveryCoordinates earlier ds → coord ∉ deliveryCoordinates later ds)
    {first second : TaggedWrite V schemas} (hfst : Origin earlier first)
    (hsnd : Origin later second) : sink.commitIdentity first ≠ sink.commitIdentity second := by
  intro hsame
  have hdataset : first.1 = second.1 := congrArg CommitIdentity.dataset hsame
  have hident : first.2.identity = second.2.identity := congrArg CommitIdentity.source hsame
  obtain ⟨head, tail, hok, hc⟩ := hfst
  obtain ⟨head', tail', hok', hcoordinates'⟩ := hsnd
  obtain ⟨coord, hmem⟩ := coordinates_ne_nil hok
  rw [hident] at hok
  have hmem' := (coordinates_of_identity_eq hok hok' coord).mp hmem
  apply hdistinct first.1 coord (hc coord hmem)
  rw [hdataset]
  exact hcoordinates' coord hmem'

theorem commitIdentity_nodup (sink : ReplicaSink schemas V E)
    {dlvs : List (ReplicaDelivery V schemas)} (hdistinct : DistinctCoordinates dlvs) :
    ((sink.sourceWrites dlvs).map sink.commitIdentity).Nodup := by
  rw [sourceWrites, map_flatMap, nodup_flatMap]
  constructor
  · intro delivery _
    apply Nodup.of_map CommitIdentity.dataset
    rw [map_map]
    exact (writesOf_ok delivery).2
  apply hdistinct.imp
  intro earlier later hc identity hfst hsnd
  obtain ⟨first, hmem, hident⟩ := mem_map.mp hfst
  obtain ⟨second, hmem', hidentity'⟩ := mem_map.mp hsnd
  exact commitIdentity_ne hc ((writesOf_ok earlier).1 _ hmem)
    ((writesOf_ok later).1 _ hmem') (hident.trans hidentity'.symm)

section
variable [DecidableEq V]

/-- The table with the change that a map holds for a dataset. -/
def applyGrouped (dataset : String) (table : (schemas dataset).Table V)
    (grouped : OrderedMap String (TaggedWrite V schemas)) : (schemas dataset).Table V :=
  ((grouped.find? dataset).bind (ofDataset dataset)).toList.foldl
    (fun table write => write.changelog.applyFullImages table) table

theorem groupBatches_changes {grp res : OrderedMap String (TaggedWrite V schemas)}
    (hok : sink.groupBatches grp delivery = .ok res) (ds : String) (table : (schemas ds).Table V) :
    applyGrouped ds table res = applyDelivery ds (applyGrouped ds table grp) delivery := by
  induction delivery generalizing grp with
  | nil =>
    cases hok
    rfl
  | cons entry rest ih =>
    obtain ⟨name, batch⟩ := entry
    have hstep : ∀ before : (schemas ds).Table V, applyDelivery ds before (⟨name, batch⟩ :: rest) =
        applyDelivery ds (applyDelivery ds before [⟨name, batch⟩]) rest := by
      intro before
      unfold applyDelivery
      rw [← foldl_append, ← filterMap_append]
      rfl
    unfold groupBatches at hok
    split at hok
    next hrows =>
      rw [ih hok]
      by_cases hsame : name = ds
      · subst hsame
        have hempty : batch.changelog.rowCount = 0 := by
          rw [← batch.aligned, hrows]
          rfl
        have hnone : List.finRange batch.changelog.rowCount = [] := by simpa using hempty
        simp [applyDelivery, ofDataset, ChangelogBatch.applyFullImages, hnone]
      simp [applyDelivery, ofDataset, hsame]
    split at hok
    · split at hok
      · cases hok
      split at hok
      · cases hok
      rename_i hnew
      rw [ih hok]
      by_cases hsame : name = ds
      · subst hsame
        have hfind : grp.find? name = none := by simpa [OrderedMap.contains] using hnew
        simp [applyGrouped, applyDelivery, hfind, find?_insert_self, ofDataset]
      have hother : ds ≠ name := fun h => hsame h.symm
      simp [applyGrouped, applyDelivery, ofDataset, hsame, find?_insert_ne _ _ hother]
    · cases hok

theorem applyWrites_deliveryWrites {writes : List (TaggedWrite V schemas)}
    (hok : sink.deliveryWrites delivery = .ok writes) (ds : String) (table : (schemas ds).Table V) :
    applyWrites ds table writes = applyDelivery ds table delivery := by
  obtain ⟨grouped, hgroup, hok⟩ := of_bind hok
  cases hok
  have hchanges := groupBatches_changes hgroup ds table
  have hother : ∀ entry ∈ grouped.entries, entry.1 ≠ ds → ofDataset ds entry.2 = none := by
    intro entry hentry hne
    have hfind := (mem_entries_iff grouped).mp hentry
    rcases groupBatches_origin hgroup hfind with hempty | horigin
    · cases hempty
    · exact ofDataset_of_ne (horigin.1.trans_ne hne)
  have hheld := filterMap_entries grouped ds (ofDataset ds) hother
  rw [applyWrites, filterMap_map]
  refine Eq.trans ?_ hchanges
  rw [applyGrouped, ← hheld]
  rfl

theorem applyWrites_sourceWrites {dlvs : List (ReplicaDelivery V schemas)}
    (hvalid : ∀ dlv ∈ dlvs, ∃ writes, sink.deliveryWrites dlv = .ok writes) (ds : String)
    (table : (schemas ds).Table V) :
    applyWrites ds table (sink.sourceWrites dlvs) = dlvs.foldl (applyDelivery ds) table := by
  induction dlvs generalizing table with
  | nil => rfl
  | cons dlv rest ih =>
    obtain ⟨writes, hwrites⟩ := hvalid dlv mem_cons_self
    have hfst : sink.writesOf dlv = writes := by rw [writesOf, hwrites]
    rw [foldl_cons,
      ← ih fun other hother => hvalid other (mem_cons_of_mem _ hother), ← applyWrites_deliveryWrites
          hwrites]
    unfold sourceWrites applyWrites
    rw [flatMap_cons, hfst, filterMap_append, foldl_append]

end
end ReplicaSink
end Transferia.Iceberg
