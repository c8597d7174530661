import Transferia.Changelog.Meaning
import Transferia.Support.Checked

/-!
# Collapsing preserves the meaning of a batch

The collapsed rows simulate the events read so far (`Simulates`), one row for
each key.  Their runs therefore lead to the same table as the events.
-/

namespace Transferia.Changelog
namespace ChangelogBatch
open List Option Support Prod AList
variable {V : Type*} [DecidableEq V] {schema : TableSchema} {batch : ChangelogBatch V schema}
  {missing : Option (Fin batch.columnCount → V)} {E : Type*} [DecidableEq E]
  {mask : batch.Mask} {encode : batch.Key → E}
  {start table : batch.Table} {latest : Latest E batch.rowCount batch.columnCount}

/-- The mask covers the key columns, and every column of a replacing row. -/
def Covers (batch : ChangelogBatch V schema) (mask : batch.Mask) : Prop :=
  (∀ row, ∀ column ∈ batch.primaryKeyIndexes, mask row column) ∧
    ∀ row, (batch.operations row).replaces → ∀ column, mask row column

section
variable (hinjective : Function.Injective encode) (hmask : batch.Covers mask)
  (h : batch.Simulates missing encode start table latest)
include hinjective hmask h

theorem collapseRow_simulates {next : Latest E batch.rowCount batch.columnCount}
    {row : Fin batch.rowCount} (hok : batch.collapseRow encode mask latest row = .ok next) :
    batch.Simulates missing encode start (batch.applyEvent missing mask table row) next := by
  have hset : ∀ {position : ℕ} {operation : ChangeOperation}
      {table : batch.Table}
      {latest next : Latest E batch.rowCount batch.columnCount},
      batch.Simulates missing encode start table latest →
      applyCollapsedEvent latest (encode (batch.key row)) position operation
        (.current row) (mask row) batch.primaryKeyIndexes (batch.sourceVersions row) = .ok next →
      operation.replaces → (∀ col, mask row col) →
      batch.Simulates missing encode start
        (change table (batch.key row) fun _ => some (batch.cell row)) next := by
    intro position operation table latest next hsim hmerge hr hall
    obtain ⟨merged, rfl, hmerged⟩ := merged_set missing hmerge hr hall
    exact hsim.insert hinjective hmerged
  have hupdate : ∀ {position : ℕ}
      {next : Latest E batch.rowCount batch.columnCount},
      applyCollapsedEvent latest (encode (batch.key row)) position .update
        (.current row) (mask row) batch.primaryKeyIndexes (batch.sourceVersions row) = .ok next →
      batch.Simulates missing encode start
        (change table (batch.key row) fun before => (before.or missing).map
          (overwrite (changedOnly (mask row) (batch.cell row)))) next := by
    intro position next hmerge
    obtain ⟨merged, rfl, hmerged⟩ :=
      merged_update missing hmerge (hmask.1 row) fun prior hprior => h.complete _ prior hprior
    exact h.insert hinjective hmerged
  have hd : ∀ {position : ℕ} {source : ValueSource batch.rowCount}
      {key : batch.Key} {next : Latest E batch.rowCount batch.columnCount},
      applyCollapsedEvent latest (encode key) position .delete source
        (mask row) batch.primaryKeyIndexes (batch.sourceVersions row) = .ok next →
      (∀ i, batch.sourceValue source (batch.primaryKeyIndexes.get i) = some (key i)) →
      batch.Simulates missing encode start (change table key fun _ => none) next := by
    intro position source key next hmerge hkey
    obtain ⟨merged, rfl, hmerged⟩ := merged_delete missing hmerge hkey
    exact h.insert hinjective hmerged
  unfold collapseRow at hok
  split at hok
  next hold =>
    unfold collapseWithoutOldValues at hok
    unfold applyEvent movesKey deletedKey
    rw [hold]
    cases ho : batch.operations row with
    | create | snapshotRead =>
      rw [ho] at hok
      exact hset h hok rfl (hmask.2 row (ho ▸ rfl))
    | update =>
      rw [ho] at hok
      exact hupdate hok
    | delete =>
      rw [ho] at hok
      exact hd hok fun i => rfl
  rename_i oldKeys hold
  unfold collapseWithOldValues at hok
  unfold applyEvent movesKey deletedKey
  rw [hold]
  cases ho : batch.operations row with
  | create | snapshotRead =>
    simp only [ho] at hok
    exact hset h hok rfl (hmask.2 row (ho ▸ rfl))
  | update =>
    simp only [ho] at hok
    by_cases hsame : oldKeys row = batch.key row
    · rw [if_pos (congrArg encode hsame)] at hok
      simp only [any_some, hsame, ne_eq]
      exact hupdate hok
    rw [if_neg fun heq => hsame (hinjective heq)] at hok
    simp only [any_some, ne_eq, hsame]
    split at hok
    next hall =>
      split at hok
      · cases hok
      rename_i removed hremoved
      have hsim := hd hremoved (sourceValue_oldPrimaryKey hold row)
      exact hset hsim hok rfl hall
    · cases hok
  | delete =>
    simp only [ho] at hok
    exact hd hok (sourceValue_oldPrimaryKey hold row)

theorem collapseRows_simulates {final : Latest E batch.rowCount batch.columnCount}
    {rows : List (Fin batch.rowCount)}
    (hok : batch.collapseRows encode mask latest rows = .ok final) :
    batch.Simulates missing encode start (rows.foldl (batch.applyEvent missing mask) table)
      final := by
  induction rows generalizing table latest with
  | nil =>
    cases hok
    exact h
  | cons row rest ih =>
    unfold collapseRows at hok
    split at hok
    · cases hok
    next next hnext => exact ih (collapseRow_simulates hinjective hmask h hnext) hok

end

/-- What the collapsed rows do to a table, one change for each key. -/
def writtenChanges (batch : ChangelogBatch V schema) (missing : Option (Fin batch.columnCount → V))
    (rows : List (CollapsedRow batch.rowCount batch.columnCount)) :
    List (batch.Key × (Option (Fin batch.columnCount → V) → Option (Fin batch.columnCount → V))) :=
  rows.filterMap fun row =>
    (batch.rowKey (batch.collapsedValue row)).map fun key =>
      (key, rowEffect missing row.operation (batch.collapsedValue row))

theorem foldl_applyRunRow (table : batch.Table)
    (rows : List (CollapsedRow batch.rowCount batch.columnCount)) :
    rows.foldl
      (fun table row => batch.applyRunRow missing row.operation table (batch.collapsedValue row))
      table = changes table (batch.writtenChanges missing rows) := by
  unfold changes writtenChanges
  rw [foldl_filterMap]
  congr 1
  funext table row
  unfold applyRunRow
  cases batch.rowKey (batch.collapsedValue row) with
  | none | some key => rfl

omit [DecidableEq V] in
theorem encode_writtenChanges (h : batch.Simulates missing encode start table latest) :
    ((batch.writtenChanges missing (latest.entries.map Sigma.snd)).map fst).map encode =
    latest.keys := by
  have hents : ∀ es : List (Σ _ : E, CollapsedRow batch.rowCount batch.columnCount), (∀ entry ∈ es,
      ∃ key, encode key = entry.1 ∧ batch.rowKey (batch.collapsedValue entry.2) = some key) →
      ((batch.writtenChanges missing (es.map Sigma.snd)).map fst).map encode =
      es.map Sigma.fst := by
    intro es
    induction es with
    | nil =>
      intro _
      rfl
    | cons entry rest ih =>
      intro hkeyed
      obtain ⟨key, hencode, hkey⟩ := hkeyed entry mem_cons_self
      have hrest := ih fun other hother => hkeyed other (mem_cons_of_mem _ hother)
      unfold writtenChanges at hrest ⊢
      simp only [map_cons, filterMap_cons, hkey, map_some, hencode, hrest]
  apply hents latest.entries
  intro entry hentry
  have hlook : latest.lookup entry.1 = some entry.2 := mem_lookup_iff.mpr hentry
  exact h.keyed entry.1 entry.2 hlook

omit [DecidableEq V] in
theorem map_rowKey {rows : List (CollapsedRow batch.rowCount batch.columnCount)}
    (hkeyed : ∀ row ∈ rows, ∃ key, batch.rowKey (batch.collapsedValue row) = some key) :
    rows.map (fun row => batch.rowKey (batch.collapsedValue row)) =
    ((batch.writtenChanges missing rows).map fst).map some := by
  induction rows with
  | nil => rfl
  | cons row rest ih =>
    obtain ⟨key, hkey⟩ := hkeyed row mem_cons_self
    have hrest := ih fun other hother => hkeyed other (mem_cons_of_mem _ hother)
    unfold writtenChanges at hrest ⊢
    simp [hkey, hrest]

theorem changes_writtenChanges (hinjective : Function.Injective encode)
    (h : batch.Simulates missing encode start table latest)
    {list : List (batch.Key × (Option (Fin batch.columnCount → V) →
        Option (Fin batch.columnCount → V)))}
    (hperm : list.Perm (batch.writtenChanges missing (latest.entries.map Sigma.snd))) :
    changes start list = table := by
  have hkeys := encode_writtenChanges h
  have hnodup : (list.map fst).Nodup := by
    refine (hperm.map fst).nodup_iff.mpr (Nodup.of_map encode ?_)
    rw [hkeys]
    exact latest.keys_nodup
  funext key
  rw [h.table_eq key]
  cases hlook : latest.lookup (encode key) with
  | none =>
    apply changes_of_not_mem
    intro hmem
    have hin : encode key ∈ latest.keys := by
      rw [← hkeys]
      exact mem_map.mpr ⟨key, (hperm.map fst).mem_iff.mp hmem, rfl⟩
    exact lookup_eq_none.mp hlook hin
  | some row =>
    have hentry : (⟨encode key, row⟩ : Σ _ : E, CollapsedRow batch.rowCount batch.columnCount) ∈
      latest.entries := mem_lookup_iff.mp hlook
    obtain ⟨other, hother, hkey⟩ := h.keyed (encode key) row hlook
    have hsame : other = key := hinjective hother
    subst hsame
    have hmem : (other, rowEffect missing row.operation (batch.collapsedValue row)) ∈ list := by
      refine hperm.mem_iff.mpr (mem_filterMap.mpr ⟨row, mem_map.mpr ⟨_, hentry, rfl⟩, ?_⟩)
      rw [hkey]
      rfl
    exact changes_of_mem hnodup hmem start

variable {first : CollapsedRow batch.rowCount batch.columnCount}
    {members : List (CollapsedRow batch.rowCount batch.columnCount)}
    {runs : List (ChangelogRun V batch.columnCount)}
omit [DecidableEq V] in
theorem rowEffect_sameSink {left right : ChangeOperation}
    (h : sameSinkOperation left right = true) :
    rowEffect missing left = rowEffect missing right := by
  cases left <;> cases right <;> first | rfl | cases h

omit [DecidableEq V] in
theorem materializeRun_ok {run : ChangelogRun V batch.columnCount}
    (hok : batch.materializeRun first members = .ok run) :
    run.operation = first.operation ∧ run.batch = members.map batch.collapsedValue := by
  unfold materializeRun at hok
  split at hok
  · cases hok
    exact ⟨rfl, rfl⟩
  · cases hok

theorem applyRun_eq {run : ChangelogRun V batch.columnCount}
    (hok : batch.materializeRun first members = .ok run)
    (hsame : ∀ row ∈ members, sameSinkOperation row.operation first.operation)
    (table : batch.Table) :
    batch.applyRun missing table run =
      members.foldl
        (fun table row => batch.applyRunRow missing row.operation table (batch.collapsedValue row))
        table := by
  obtain ⟨ho, hbatch⟩ := materializeRun_ok hok
  unfold applyRun
  rw [ho, hbatch, foldl_map]
  apply foldl_ext
  intro table row hrow
  unfold applyRunRow
  rw [rowEffect_sameSink (hsame row hrow)]

omit [DecidableEq V] in
theorem sameSinkOperation_refl (op : ChangeOperation) : sameSinkOperation op op := by
  cases op <;> rfl

theorem materializeFrom_ok {rest : List (CollapsedRow batch.rowCount batch.columnCount)}
    (hok : batch.materializeFrom first members rest = .ok runs)
    (hsame : ∀ row ∈ members, sameSinkOperation row.operation first.operation) :
    runs.flatMap ChangelogRun.batch = (members ++ rest).map batch.collapsedValue ∧
    ∀ table, batch.applyRuns missing table runs =
      (members ++ rest).foldl
        (fun table row =>
            batch.applyRunRow missing row.operation table (batch.collapsedValue row)) table := by
  induction rest generalizing first members runs with
  | nil =>
    obtain ⟨run, hrun, hok⟩ := of_bind hok
    cases hok
    constructor
    · simp [(materializeRun_ok hrun).2]
    intro table
    rw [append_nil]
    exact applyRun_eq hrun hsame table
  | cons row rest ih =>
    unfold materializeFrom at hok
    split at hok
    next he =>
      simp only [Bool.and_eq_true] at he
      have hall :
          ∀ member ∈ members ++ [row], sameSinkOperation member.operation first.operation := by
        intro member hm
        rcases mem_append.mp hm with hold | hnew
        · exact hsame member hold
        rw [mem_singleton.mp hnew]
        exact he.1
      have hrest := ih hok hall
      simpa using hrest
    · split at hok
      · cases hok
      rename_i run hrun
      obtain ⟨others, hnext, hok⟩ := of_bind hok
      cases hok
      have hone : ∀ member ∈ [row], sameSinkOperation member.operation row.operation := by
        intro member hm
        rw [mem_singleton.mp hm]
        exact sameSinkOperation_refl _
      obtain ⟨hrows, happly⟩ := ih hnext hone
      constructor
      · rw [flatMap_cons, hrows, (materializeRun_ok hrun).2]
        simp
      intro table
      have hrest := happly (batch.applyRun missing table run)
      rw [foldl_append, ← applyRun_eq hrun hsame table]
      exact hrest

theorem materializeRuns_ok {selected : List (CollapsedRow batch.rowCount batch.columnCount)}
    (hok : batch.materializeRuns selected = .ok runs) :
    runs.flatMap ChangelogRun.batch = selected.map batch.collapsedValue ∧
    ∀ table, batch.applyRuns missing table runs =
      selected.foldl
        (fun table row =>
            batch.applyRunRow missing row.operation table (batch.collapsedValue row)) table := by
  cases selected with
  | nil =>
    cases hok
    exact ⟨rfl, fun table => rfl⟩
  | cons first rest =>
    apply materializeFrom_ok hok
    intro member hmember
    rw [mem_singleton.mp hmember]
    exact sameSinkOperation_refl _

/-- For a mask that covers the keys and the replacing rows, the collapsed runs
do to every table what the events do, and every key is written once. -/
theorem collapsedRunsWithChangedColumns_meaning (missing : Option (Fin batch.columnCount → V))
    (hinjective : Function.Injective encode) (hmask : batch.Covers mask)
    (hok : batch.collapsedRunsWithChangedColumns encode mask = .ok runs) :
    (∀ table, batch.applyRuns missing table runs = batch.applyEvents missing mask table) ∧
    ((runs.flatMap ChangelogRun.batch).map batch.rowKey).Nodup ∧
    ∀ value ∈ runs.flatMap ChangelogRun.batch, ∃ key, batch.rowKey value = some key := by
  unfold collapsedRunsWithChangedColumns at hok
  split at hok
  · cases hok
  rename_i latest hlatest
  have hstart : ∀ start, batch.Simulates missing encode start start ∅ := by
    intro start
    refine ⟨fun key => rfl, ?_, ?_⟩
    all_goals
      rintro e row ⟨⟩
  have hfinal : ∀ start, batch.Simulates missing encode start (batch.applyEvents missing mask start)
    latest := fun start => collapseRows_simulates hinjective hmask (hstart start) hlatest
  have hperm :
    (batch.selectedRows latest).Perm (latest.entries.map Sigma.snd) := perm_insertionSort _ _
  have hkeyed : ∀ row ∈ latest.entries.map Sigma.snd,
      ∃ key, batch.rowKey (batch.collapsedValue row) = some key := by
    intro row hrow
    obtain ⟨entry, he, rfl⟩ := mem_map.mp hrow
    obtain ⟨key, _, hkey⟩ := (hfinal fun _ => none).keyed entry.1 entry.2 (mem_lookup_iff.mpr he)
    exact ⟨key, hkey⟩
  obtain ⟨hrows, happly⟩ := materializeRuns_ok hok
  refine ⟨?_, ?_, ?_⟩
  · intro table
    rw [happly, foldl_applyRunRow]
    exact changes_writtenChanges hinjective (hfinal table) (hperm.filterMap _)
  · rw [hrows, List.map_map]
    apply (hperm.map _).nodup_iff.mpr
    have hnodup :
        ((batch.writtenChanges missing (latest.entries.map Sigma.snd)).map fst).Nodup := by
      apply Nodup.of_map encode
      rw [encode_writtenChanges (hfinal fun _ => none)]
      exact latest.keys_nodup
    have hmapped := hnodup.map (some_injective _)
    rw [← map_rowKey hkeyed] at hmapped
    exact hmapped
  rw [hrows]
  intro value hval
  obtain ⟨row, hrow, rfl⟩ := mem_map.mp hval
  exact hkeyed row (hperm.mem_iff.mp hrow)

omit [DecidableEq V] in
theorem covers_changedColumns (batch : ChangelogBatch V schema) :
    batch.Covers batch.changedColumns :=
  ⟨batch.key_changed, batch.create_complete⟩

/-- Collapse preserves meaning: applying the collapsed runs in the produced
order gives the table that the original events give, whatever the initial table
is, and every key occurs in at most one collapsed row. -/
theorem collapse_preserves_meaning (batch : ChangelogBatch V schema) (encode : batch.Key → E)
    (hinjective : Function.Injective encode) (missing : Option (Fin batch.columnCount → V))
    {runs : List (ChangelogRun V batch.columnCount)} (hok : batch.collapsedRuns encode = .ok runs) :
    (∀ table, batch.applyRuns missing table runs =
      batch.applyEvents missing batch.changedColumns table) ∧
    ((runs.flatMap ChangelogRun.batch).map batch.rowKey).Nodup ∧
    ∀ value ∈ runs.flatMap ChangelogRun.batch, ∃ key, batch.rowKey value = some key :=
  collapsedRunsWithChangedColumns_meaning missing hinjective batch.covers_changedColumns hok

def swapSchema : TableSchema where
  columnCount := 2
  primaryKeyIndexes := [0]
  key_nodup := by decide

/-- Two keys are swapped through a third one, and one row is then updated: the
columns are the key and a value. -/
def swapBatch : ChangelogBatch ℕ swapSchema where
  rowCount := 4
  cell := fun row => ![![3, 10], ![1, 20], ![2, 10], ![2, 11]] row
  operations := fun _ => .update
  sourceVersions := fun _ => 7
  changedColumns := fun _ _ => true
  oldPrimaryKeys := some fun row _ => ![1, 2, 3, 2] row
  key_changed := by decide
  create_complete := by decide
  rowCount_lt := by decide

def swapEncode (key : swapBatch.Key) : ℕ :=
  key ⟨0, by decide⟩

theorem swapEncode_injective : Function.Injective swapEncode := by
  intro left right hsame
  funext i
  have hi : i = ⟨0, by decide⟩ := by
    ext
    exact Nat.lt_one_iff.mp i.isLt
  rw [hi]
  exact hsame

theorem collapse_preserves_meaning_swap :
    ∃ runs, swapBatch.collapsedRuns swapEncode = .ok runs ∧
      swapBatch.applyRuns none (fun _ => none) runs =
        swapBatch.applyEvents none swapBatch.changedColumns fun _ => none := by
  have hok : (swapBatch.collapsedRuns swapEncode).isOk := by decide +kernel
  cases hruns : swapBatch.collapsedRuns swapEncode with
  | error reason =>
    rw [hruns] at hok
    cases hok
  | ok runs =>
    exact ⟨runs, rfl, (collapse_preserves_meaning swapBatch swapEncode
      swapEncode_injective none hruns).1 _⟩

end ChangelogBatch
end Transferia.Changelog
