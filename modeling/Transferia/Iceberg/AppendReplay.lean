import Transferia.Iceberg.Append

/-!
# Replayed appends

The identity of an append says nothing about its rows, and the numbers of its
deliveries begin again in every attempt.  A later attempt which starts behind
committed rows makes other deliveries under the same numbers, and its appends
are skipped.
-/

namespace Transferia.Iceberg
open List Function Support OrderedMap GroupedWrites AppendState
variable {R : Type}

/-! ## The rows of a group -/

def rowsFor (dataset : String) (outputs : List (AppendBatch R)) : List R :=
  (outputs.filter (·.table = dataset)).flatMap AppendBatch.rows

theorem rowsFor_cons (ds : String) (batch : AppendBatch R) (rest : List (AppendBatch R)) :
    rowsFor ds (batch :: rest) =
      (if batch.table = ds then batch.rows else []) ++ rowsFor ds rest := by
  unfold rowsFor
  by_cases hsame : batch.table = ds
  · simp [hsame]
  · simp [hsame]

theorem mem_rowsFor {outputs : List (AppendBatch R)} {batch : AppendBatch R} {row : R}
    (hbatch : batch ∈ outputs) (hrow : row ∈ batch.rows) : row ∈ rowsFor batch.table outputs :=
  mem_flatMap.mpr ⟨batch, mem_filter.mpr ⟨hbatch, decide_eq_true rfl⟩, hrow⟩

/-- The rows of a dataset in the deliveries with these numbers. -/
def planRows (plan : ℕ → List (AppendBatch R)) (dataset : String) (ids : List ℕ) : List R :=
  ids.flatMap fun id => rowsFor dataset (plan id)

def nameDelivery (ids : List ℕ) (id : ℕ) : List ℕ :=
  if ids.getLast? = some id then ids else ids ++ [id]

theorem nameDelivery_idem (ids : List ℕ) (id : ℕ) :
    nameDelivery (nameDelivery ids id) id = nameDelivery ids id := by
  unfold nameDelivery
  by_cases hlast : ids.getLast? = some id
  · simp [hlast]
  · simp [hlast]

namespace GroupedWrites

theorem held_insert_self (grp : GroupedWrites R) (ds : String) (write : AppendWrite R) :
    held (grp.insert ds write) ds = write := by
  rw [held, find?_insert_self]
  rfl

theorem held_insert_ne (grp : GroupedWrites R) {ds other : String} (write : AppendWrite R)
    (hne : other ≠ ds) : held (grp.insert ds write) other = held grp other := by
  rw [held, find?_insert_ne _ _ hne, held]

end GroupedWrites
namespace AppendSink
variable {sink : AppendSink} {grouped res : GroupedWrites R} {outputs : List (AppendBatch R)}
  {deliveries : List (AppendDelivery R)} {bound : ℕ}

theorem groupBatches_held {id : ℕ} (hok : sink.groupBatches id grouped outputs = .ok res)
    (ds : String) :
    (res.held ds).rows = (grouped.held ds).rows ++ rowsFor ds outputs ∧
      (res.held ds).deliveryIds = if rowsFor ds outputs = [] then
          (grouped.held ds).deliveryIds
        else nameDelivery (grouped.held ds).deliveryIds id := by
  induction outputs generalizing grouped with
  | nil =>
    cases hok
    simp [rowsFor]
  | cons batch rest ih =>
    unfold groupBatches at hok
    rw [rowsFor_cons]
    split at hok
    next hempty =>
      have hrows : batch.rows = [] := isEmpty_iff.mp hempty
      simpa [hrows] using ih hok
    rename_i hn
    have hrows : batch.rows ≠ [] := by simpa using hn
    split at hok
    · have hrest := ih hok
      by_cases hsame : batch.table = ds
      · subst hsame
        rw [held_insert_self] at hrest
        obtain ⟨hheld, hids⟩ := hrest
        constructor
        · rw [hheld]
          simp [AppendWrite.push]
        rw [hids]
        have hnamed : ((grouped.held batch.table).push id batch.rows).deliveryIds =
            nameDelivery (grouped.held batch.table).deliveryIds id := rfl
        rw [hnamed, nameDelivery_idem]
        simp [hrows]
      have hother : ds ≠ batch.table := fun h => hsame h.symm
      rw [held_insert_ne _ _ hother] at hrest
      simpa [hsame] using hrest
    · cases hok

theorem groupDeliveries_rows
    (hok : sink.groupDeliveries grouped deliveries = .ok res) (ds : String) : (res.held ds).rows =
    (grouped.held ds).rows ++ deliveries.flatMap fun delivery => rowsFor ds delivery.outputs := by
  induction deliveries generalizing grouped with
  | nil =>
    cases hok
    simp
  | cons delivery rest ih =>
    unfold groupDeliveries at hok
    split at hok
    · cases hok
    next next hnext => rw [ih hok, (groupBatches_held hnext ds).1, flatMap_cons, append_assoc]

/-- Deliveries with growing numbers, as planned. -/
structure Planned (plan : ℕ → List (AppendBatch R)) (bound : ℕ)
    (deliveries : List (AppendDelivery R)) : Prop where
  outputs : ∀ delivery ∈ deliveries, delivery.outputs = plan delivery.id
  increasing : deliveries.Pairwise (·.id < ·.id)
  bounded : ∀ delivery ∈ deliveries, delivery.id < bound

theorem groupDeliveries_planned {plan : ℕ → List (AppendBatch R)}
    (hplan : Planned plan bound deliveries)
    (hok : sink.groupDeliveries grouped deliveries = .ok res) (ds : String)
    (hheld : (grouped.held ds).rows = planRows plan ds (grouped.held ds).deliveryIds)
    (hfresh : ∀ dlv ∈ deliveries, ∀ id ∈ (grouped.held ds).deliveryIds, id < dlv.id) :
    (res.held ds).rows = planRows plan ds (res.held ds).deliveryIds := by
  induction deliveries generalizing grouped with
  | nil =>
    cases hok
    exact hheld
  | cons dlv rest ih =>
    obtain ⟨hfst, hrest⟩ := pairwise_cons.mp hplan.increasing
    have hlater : Planned plan bound rest := ⟨fun other hother => hplan.outputs other
        (.tail _ hother),
      hrest, fun other hother => hplan.bounded other (.tail _ hother)⟩
    unfold groupDeliveries at hok
    split at hok
    · cases hok
    rename_i next hnext
    obtain ⟨hrows, hids⟩ := groupBatches_held hnext ds
    have hown := hplan.outputs dlv mem_cons_self
    have hnew := hfresh dlv mem_cons_self
    have hnamed : nameDelivery (grouped.held ds).deliveryIds dlv.id =
        (grouped.held ds).deliveryIds ++ [dlv.id] := by
      unfold nameDelivery
      rw [if_neg]
      intro hlast
      exact lt_irrefl _ (hnew _ (mem_of_getLast? hlast))
    rw [hnamed] at hids
    by_cases hnone : rowsFor ds dlv.outputs = []
    · rw [if_pos hnone] at hids
      refine ih hlater hok ?_ ?_
      · rw [hrows, hids, hnone, append_nil, hheld]
      rw [hids]
      exact fun other hother => hfresh other (.tail _ hother)
    rw [if_neg hnone] at hids
    refine ih hlater hok ?_ ?_
    · rw [hrows, hids, hheld, hown]
      simp [planRows]
    rw [hids]
    intro other hother id hid
    rcases mem_append.mp hid with hid | hid
    · exact hfresh other (.tail _ hother) id hid
    rw [mem_singleton.mp hid]
    exact hfst other hother

/-! ## Losing nothing -/

/-- Every row of an acknowledged delivery lies in a snapshot of its table. -/
def RowsKept (s : AppendState R) : Prop := ∀ delivery ∈ s.acknowledged, ∀ batch ∈ delivery.outputs,
    ∀ row ∈ batch.rows, ∃ snapshot ∈ s.lineage batch.table, row ∈ snapshot.content

/-- Some snapshot of a table has exactly the rows of a write. -/
def Stored (lineage : String → Lineage (List R)) (dataset : String)
    (write : AppendWrite R) : Prop :=
  ∃ snapshot ∈ lineage dataset, snapshot.content = write.rows

/-- An append whose identity is found has been committed with exactly its
rows. -/
def ExactSkips (sink : AppendSink) (s : AppendState R) : Prop :=
  ∀ attempt dataset write point rest, s.attempt = some attempt → attempt.phase =
    .writing dataset write point rest → hasCommitIdentity sink.digest (s.lineage dataset)
    (sink.commitIdentity dataset write.deliveryIds) → Stored s.lineage dataset write

structure LosesNothing (sink : AppendSink) (s : AppendState R) : Prop where
  rowsKept : RowsKept s
  exactSkips : sink.ExactSkips s

/-! ## The invariant of planned deliveries -/

variable (sink) {pending : List (AppendDelivery R)} {writes : List (String × AppendWrite R)}
  {dataset : String} {write : AppendWrite R}

def WritesOf (pending : List (AppendDelivery R)) (writes : List (String × AppendWrite R)) : Prop :=
  ∃ grouped, sink.groupDeliveries .empty pending = .ok grouped ∧ grouped.entries = writes

/-- The snapshots hold the planned rows of the deliveries they name. -/
def PlannedLineage (plan : ℕ → List (AppendBatch R)) (lineage : String → Lineage (List R)) : Prop :=
  ∀ dataset, ∀ snapshot ∈ lineage dataset, ∃ ids, snapshot.properties = some
    (commitSnapshotProperties sink.digest (sink.commitIdentity dataset ids)) ∧
    snapshot.content = planRows plan dataset ids

def PointInv (lineage : String → Lineage (List R)) (dataset : String)
    (write : AppendWrite R) : CommitPoint (List R) → Prop
  | .loading => True
  | .loaded loaded => loaded = lineage dataset
  | .committing content => content = write.rows
  | .swapping content _ => content = write.rows
  | .recovering => True
  | .marking => Stored lineage dataset write

def PhaseInv (lineage : String → Lineage (List R))
    (pending : List (AppendDelivery R)) : AppendPhase R → Prop
  | .receiving => True
  | .writing dataset write point rest =>
    ∃ before, sink.WritesOf pending (before ++ (dataset, write) :: rest) ∧
      (∀ entry ∈ before, Stored lineage entry.1 entry.2) ∧ PointInv lineage dataset write point
  | .written =>
    ∃ writes, sink.WritesOf pending writes ∧ ∀ entry ∈ writes, Stored lineage entry.1 entry.2

structure AppendInv (plan : ℕ → List (AppendBatch R)) (s : AppendState R) : Prop where
  lineage : sink.PlannedLineage plan s.lineage
  kept : RowsKept s
  running : ∀ attempt, s.attempt = some attempt → Planned plan attempt.nextId attempt.pending ∧
    sink.PhaseInv s.lineage attempt.pending attempt.phase

variable {sink} {plan : ℕ → List (AppendBatch R)} {s t : AppendState R}
  {lineage : String → Lineage (List R)}

theorem appendInv_initial : sink.AppendInv plan (initial : AppendState R) where
  lineage := by simp [PlannedLineage, initial]
  kept := by simp [RowsKept, initial]
  running := by simp [initial]

theorem WritesOf.held (hwrites : sink.WritesOf pending writes) (he : (dataset, write) ∈ writes) :
    ∃ grp, sink.groupDeliveries .empty pending = .ok grp ∧ held grp dataset = write := by
  obtain ⟨grp, hok, rfl⟩ := hwrites
  refine ⟨grp, hok, ?_⟩
  rw [held, (mem_entries_iff grp).mp he]
  rfl

theorem WritesOf.planned (hplan : Planned plan bound pending)
    (hwrites : sink.WritesOf pending writes)
    (he : (dataset, write) ∈ writes) : write.rows = planRows plan dataset write.deliveryIds := by
  obtain ⟨grouped, hok, rfl⟩ := hwrites.held he
  exact groupDeliveries_planned hplan hok dataset rfl (by simp [GroupedWrites.held])

theorem WritesOf.complete (hwrites : sink.WritesOf pending writes) {dlv : AppendDelivery R}
    (hdelivery : dlv ∈ pending) {batch : AppendBatch R} (hbatch : batch ∈ dlv.outputs) {row : R}
    (hrow : row ∈ batch.rows) : ∃ write, (batch.table, write) ∈ writes ∧ row ∈ write.rows := by
  obtain ⟨grouped, hok, rfl⟩ := hwrites
  have hrows := groupDeliveries_rows hok batch.table
  have hmem : row ∈ (GroupedWrites.held grouped batch.table).rows := by
    rw [hrows]
    exact mem_append_right _ (mem_flatMap.mpr ⟨dlv, hdelivery, mem_rowsFor hbatch hrow⟩)
  cases hfind : grouped.find? batch.table with
  | none => simp [GroupedWrites.held, hfind] at hmem
  | some write =>
    refine ⟨write, (mem_entries_iff grouped).mpr hfind, ?_⟩
    simpa [GroupedWrites.held, hfind] using hmem

theorem stored_of_committed (hlineage : sink.PlannedLineage plan lineage)
    (hrows : write.rows = planRows plan dataset write.deliveryIds)
    (hcommitted : hasCommitIdentity sink.digest (lineage dataset)
      (sink.commitIdentity dataset write.deliveryIds)) : Stored lineage dataset write := by
  obtain ⟨snap, hs, hp⟩ := hasCommitIdentity_iff.mp hcommitted
  obtain ⟨ids, hown, hcount⟩ := hlineage dataset snap hs
  have hident :=
    commitSnapshotProperties_injective sink.digest (Option.some.inj (hown.symm.trans hp))
  have hids : ids = write.deliveryIds := by simpa [commitIdentity] using hident
  exact ⟨snap, hs, by rw [hcount, hrows, hids]⟩

/-! ## Every planned step keeps the invariant -/

variable {attempt : AppendAttempt R} {rest : List (String × AppendWrite R)}
  {point : CommitPoint (List R)}

theorem AppendInv.run (hinvariant : sink.AppendInv plan s)
    (hplan : Planned plan attempt.nextId attempt.pending)
    (hp : sink.PhaseInv s.lineage attempt.pending attempt.phase) :
    sink.AppendInv plan (s.run attempt) where
  lineage := hinvariant.lineage
  kept := hinvariant.kept
  running := by
    rintro other ⟨⟩
    exact ⟨hplan, hp⟩

theorem AppendInv.fail (hinvariant : sink.AppendInv plan s)
    (failure : CommitFailure) : sink.AppendInv plan (s.fail failure) where
  lineage := hinvariant.lineage
  kept := hinvariant.kept
  running := by simp [AppendState.fail]

theorem phaseInv_remaining (before : List (String × AppendWrite R))
    (hwrites : sink.WritesOf pending (before ++ rest))
    (hbefore : ∀ entry ∈ before, Stored lineage entry.1 entry.2) :
    sink.PhaseInv lineage pending (.remaining rest) := by
  cases rest with
  | nil =>
    rw [append_nil] at hwrites
    exact ⟨before, hwrites, hbefore⟩
  | cons entry rest => exact ⟨before, hwrites, hbefore, trivial⟩

theorem collect_keeps_appendInv (hinvariant : sink.AppendInv plan s)
    (hplan : Planned plan attempt.nextId attempt.pending) (hp : attempt.phase = .receiving)
    (inputClosed : Bool) : sink.AppendInv plan (sink.collect s attempt inputClosed) := by
  have hstay : sink.AppendInv plan (s.run attempt) := hinvariant.run hplan (by rw [hp]; trivial)
  unfold collect writeDeliveries
  split
  · exact hstay
  split
  · split
    · exact hinvariant.fail _
    rename_i grouped hok
    refine hinvariant.run hplan (phaseInv_remaining [] ?_ ?_)
    · exact ⟨grouped, hok, rfl⟩
    · simp
  exact hstay

theorem Planned.receive (hplan : Planned plan attempt.nextId attempt.pending)
    (houtputs : outputs = plan attempt.nextId) :
    Planned plan (attempt.receive outputs).nextId (attempt.receive outputs).pending where
  outputs := by
    intro delivery hdelivery
    rcases mem_append.mp hdelivery with hold | hnew
    · exact hplan.outputs delivery hold
    rw [mem_singleton.mp hnew]
    exact houtputs
  increasing := by
    refine pairwise_append.mpr ⟨hplan.increasing, pairwise_singleton _ _, ?_⟩
    intro first hfst snd hsnd
    rw [mem_singleton.mp hsnd]
    exact hplan.bounded first hfst
  bounded := by
    intro delivery hdelivery
    rcases mem_append.mp hdelivery with hold | hnew
    · exact Nat.lt_succ_of_lt (hplan.bounded delivery hold)
    rw [mem_singleton.mp hnew]
    exact Nat.lt_succ_self _

theorem mem_publish {name : String} {snap held : Snapshot (List R)} (hheld : held ∈ lineage name) :
    held ∈ update lineage dataset (lineage dataset ++ [snap]) name := by
  by_cases hsame : name = dataset
  · subst hsame
    rw [update_self]
    exact mem_append_left _ hheld
  rwa [update_of_ne hsame]

theorem publish_keeps_appendInv (hinvariant : sink.AppendInv plan s)
    (hrows : write.rows = planRows plan dataset write.deliveryIds)
    (hplan : Planned plan attempt.nextId attempt.pending) {before : List (String × AppendWrite R)}
    (hwrites : sink.WritesOf attempt.pending (before ++ (dataset, write) :: rest))
    (hbefore : ∀ entry ∈ before, Stored s.lineage entry.1 entry.2)
    (hp : point = .marking ∨ point = .committing write.rows ∨ point = .recovering) :
    sink.AppendInv plan
      (s.carry attempt dataset write rest
          (.publish ((sink.task dataset write).snapshot sink.digest write.rows) point)) where
  lineage := by
    intro name held hheld
    by_cases hsame : name = dataset
    · subst hsame
      have hheld : held ∈ update s.lineage name _ name := hheld
      rw [update_self] at hheld
      rcases mem_append.mp hheld with hold | hnew
      · exact hinvariant.lineage name held hold
      rw [mem_singleton.mp hnew]
      exact ⟨write.deliveryIds, rfl, hrows⟩
    have hheld : held ∈ update s.lineage dataset _ name := hheld
    rw [update_of_ne hsame] at hheld
    exact hinvariant.lineage name held hheld
  kept := by
    intro delivery hdelivery batch hbatch row hrow
    obtain ⟨held, hheld, hmem⟩ := hinvariant.kept delivery hdelivery batch hbatch row hrow
    exact ⟨held, mem_publish hheld, hmem⟩
  running := by
    rintro other ⟨⟩
    refine ⟨hplan, before, hwrites, ?_, ?_⟩
    · intro entry hentry
      obtain ⟨held, hheld, hcount⟩ := hbefore entry hentry
      exact ⟨held, mem_publish hheld, hcount⟩
    rcases hp with rfl | rfl | rfl
    · refine ⟨(sink.task dataset write).snapshot sink.digest write.rows, ?_, rfl⟩
      simp [carry, run]
    · rfl
    · trivial

theorem commit_keeps_appendInv (hi : sink.AppendInv plan s) (hattempt : s.attempt = some attempt)
    (hp : attempt.phase = .writing dataset write point rest) {effect : CommitEffect (List R)}
    (hmove :
      (sink.task dataset write).Moves sink.digest (s.lineage dataset) s.storage point effect) :
    sink.AppendInv plan (s.carry attempt dataset write rest effect) := by
  obtain ⟨hplan, hheld⟩ := hi.running attempt hattempt
  rw [hp] at hheld
  obtain ⟨before, hwrites, hb, hpoint⟩ := hheld
  have hrows : write.rows = planRows plan dataset write.deliveryIds := hwrites.planned hplan
      (by simp)
  have hstay : ∀ point, PointInv s.lineage dataset write point →
    sink.AppendInv plan (s.carry attempt dataset write rest (.move point)) :=
    fun point hpoint => hi.run hplan ⟨before, hwrites, hb, hpoint⟩
  have hget : hasCommitIdentity sink.digest (s.lineage dataset) (sink.commitIdentity dataset
    write.deliveryIds) → Stored s.lineage dataset write := stored_of_committed hi.lineage hrows
  have hdone : Stored s.lineage dataset write →
      ∀ storage, sink.AppendInv plan (s.carry attempt dataset write rest (.finish storage)) := by
    intro hs storage
    have hlater : sink.WritesOf attempt.pending (before ++ [(dataset, write)] ++ rest) := by
      rwa [append_assoc]
    have hnext : ∀ entry ∈ before ++ [(dataset, write)], Stored s.lineage entry.1 entry.2 := by
      intro entry hentry
      rcases mem_append.mp hentry with hold | hnew
      · exact hb entry hold
      rw [mem_singleton.mp hnew]
      exact hs
    have hstore : sink.AppendInv plan { s with storage } := { hi with }
    exact hstore.run hplan (phaseInv_remaining _ hlater hnext)
  cases hmove with
  | load => exact hstay _ rfl
  | corrupt | absent | unusable | lost | conflict => exact hi.fail _
  | skip hc =>
    cases hpoint
    exact hdone (hget hc) _
  | found hc =>
    cases hpoint
    exact hstay .marking (hget hc)
  | build hcount => exact hstay (.committing _) (Except.ok.inj hcount).symm
  | rebased hc | recovered hc => exact hstay .marking (hget hc)
  | duplicate => exact hstay .recovering trivial
  | refresh => exact hstay (.swapping _ _) hpoint
  | swapped hnew =>
    cases hpoint
    exact publish_keeps_appendInv hi hrows hplan hwrites hb hnew
  | unswapped hnew =>
    rcases hnew with rfl | rfl
    · exact hstay (.committing _) hpoint
    · exact hstay .recovering trivial
  | mark | marked => exact hdone hpoint _

variable [DecidableEq R]

/-- A delivery is received under a number with the outputs planned for that
number. -/
def sameDeliveries (plan : ℕ → List (AppendBatch R)) (s : AppendState R) : AppendLabel R → Bool
  | .receive outputs =>
    match s.attempt with
    | some attempt => outputs = plan attempt.nextId
    | none => true
  | _ => true

theorem step_keeps_appendInv {src : List (String × R)} {label : AppendLabel R}
    (hinvariant : sink.AppendInv plan s)
    (hstep : guarded (sink.step src) (sameDeliveries plan) s label = some t) :
    sink.AppendInv plan t := by
  obtain ⟨ha, hstep⟩ := of_guarded hstep
  cases moves_of_step hstep with
  | restart =>
    refine hinvariant.run ⟨?_, Pairwise.nil, ?_⟩ trivial
    · simp [firstAttempt]
    · simp [firstAttempt]
  | commitSource => exact { hinvariant with }
  | crash => exact ⟨hinvariant.lineage, hinvariant.kept, by simp⟩
  | receive hattempt hp =>
    obtain ⟨hplan, _⟩ := hinvariant.running _ hattempt
    simp only [sameDeliveries, hattempt, decide_eq_true_eq] at ha
    exact collect_keeps_appendInv hinvariant (hplan.receive ha) hp _
  | close hattempt hp =>
    obtain ⟨hplan, _⟩ := hinvariant.running _ hattempt
    exact collect_keeps_appendInv hinvariant hplan hp _
  | commit hattempt hp hmove => exact commit_keeps_appendInv hinvariant hattempt hp hmove
  | acknowledge hattempt hp =>
    obtain ⟨_, hheld⟩ := hinvariant.running _ hattempt
    rw [hp] at hheld
    obtain ⟨writes, hwrites, hstore⟩ := hheld
    refine ⟨hinvariant.lineage, ?_, ?_⟩
    · intro delivery hdelivery batch hbatch row hrow
      rcases mem_append.mp hdelivery with hold | hnew
      · exact hinvariant.kept delivery hold batch hbatch row hrow
      obtain ⟨write, hentry, hmem⟩ := hwrites.complete hnew hbatch hrow
      obtain ⟨snap, hs, hcount⟩ := hstore _ hentry
      exact ⟨snap, hs, hcount ▸ hmem⟩
    rintro other ⟨⟩
    refine ⟨⟨?_, Pairwise.nil, ?_⟩, trivial⟩
    all_goals simp [AppendAttempt.settle]

omit [DecidableEq R] in
theorem AppendInv.losesNothing (hinvariant : sink.AppendInv plan s) : sink.LosesNothing s where
  rowsKept := hinvariant.kept
  exactSkips := by
    intro attempt ds write point rest hattempt hp hc
    obtain ⟨hplan, hheld⟩ := hinvariant.running attempt hattempt
    rw [hp] at hheld
    obtain ⟨before, hwrites, _⟩ := hheld
    exact stored_of_committed hinvariant.lineage (hwrites.planned hplan (by simp)) hc

/-- Nothing is lost in a run in which every attempt makes the same
deliveries. -/
theorem losesNothing_of_sameDeliveries (sink : AppendSink) (source : List (String × R))
    (plan : ℕ → List (AppendBatch R)) {s : AppendState R}
    (hreach : Reachable (guarded (sink.step source) (sameDeliveries plan)) .initial s) :
    sink.LosesNothing s :=
  (hreach.invariant (fun _ _ _ => step_keeps_appendInv) appendInv_initial).losesNothing

/-! ## Two attempts -/

def lettersSink : AppendSink where
  delivery := "copy"
  replayIdentity := none
  partitionId := 0
  datasets := ["letters"]
  tableUuid := fun _ => 1
  targetBytes := 1
  digest := fun _ => 0

def lettersBatch (row : ℕ) : List (AppendBatch ℕ) :=
  [{ table := "letters", rows := [row], bytes := 8 }]

def lettersSource : List (String × ℕ) := [("letters", 1), ("letters", 2)]

/-- One delivery is written, and the answer of the catalog is lost. -/
def ambiguousCommit : List (AppendLabel ℕ) :=
  [.restart, .receive (lettersBatch 1), .commit .load, .commit .check,
    .commit .refresh, .commit (.swap (.failed true false)), .crash]

def repeatedDelivery : List (AppendLabel ℕ) :=
  [.restart, .receive (lettersBatch 1), .commit .load, .commit .check, .commit .mark, .acknowledge]

theorem losesNothing_of_sameDeliveries_repeated :
    ∃ s, Reachable (guarded (lettersSink.step lettersSource)
        (sameDeliveries fun _ => lettersBatch 1)) .initial s ∧
      s.acknowledged = [{ id := 1, outputs := lettersBatch 1 }] ∧
      lettersSink.LosesNothing s := by
  have hrun : ∃ s, exec (guarded (lettersSink.step lettersSource)
      (sameDeliveries fun _ => lettersBatch 1)) .initial
      (ambiguousCommit ++ repeatedDelivery) = some s ∧
      s.acknowledged = [{ id := 1, outputs := lettersBatch 1 }] := ⟨_, rfl, rfl⟩
  obtain ⟨s, hexec, hack⟩ := hrun
  exact ⟨s, ⟨_, hexec⟩, hack, losesNothing_of_sameDeliveries lettersSink lettersSource _ ⟨_, hexec⟩⟩

/-- The first row is committed, also at the source, and the attempt fails. -/
def committedFirst : List (AppendLabel ℕ) :=
  [.restart, .receive (lettersBatch 1), .commit .load, .commit .check,
    .commit .refresh, .commit (.swap .answered), .commit .mark, .acknowledge, .commitSource, .crash]

/-- The next attempt makes its first delivery of the second row. -/
def skippedSecond : List (AppendLabel ℕ) :=
  [.restart, .receive (lettersBatch 2), .commit .load, .commit .check, .acknowledge, .commitSource]

/-- The second attempt acknowledges a row that it has not written. -/
theorem second_attempt_loses_row :
    ∃ s, Reachable (lettersSink.step lettersSource) .initial s ∧
      s.sourceCommitted = lettersSource.length ∧ ¬ lettersSink.LosesNothing s := by
  have hrun : ∃ s, exec (lettersSink.step lettersSource) .initial
      (committedFirst ++ skippedSecond) = some s ∧ s.sourceCommitted = 2 ∧
      s.acknowledged = [{ id := 1, outputs := lettersBatch 1 },
        { id := 1, outputs := lettersBatch 2 }] ∧
      (s.lineage "letters").map Snapshot.content = [[1]] :=
    ⟨_, rfl, rfl, rfl, rfl⟩
  obtain ⟨s, hexec, hc, hack, hcount⟩ := hrun
  refine ⟨s, ⟨_, hexec⟩, hc, ?_⟩
  intro hkept
  have hbatch : { table := "letters", rows := [2], bytes := 8 } ∈
      lettersBatch 2 := mem_singleton.mpr rfl
  obtain ⟨snap, hs, hrow⟩ := hkept.rowsKept
    { id := 1, outputs := lettersBatch 2 } (by simp [hack]) _ hbatch
    2 (by simp)
  have hmem := mem_map_of_mem (f := Snapshot.content) hs
  rw [hcount, mem_singleton] at hmem
  rw [hmem] at hrow
  simp at hrow

end AppendSink
end Transferia.Iceberg
