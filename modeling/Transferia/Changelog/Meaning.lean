import Transferia.Changelog.Collapse
import Transferia.Support.KeyedTable

/-!
# The meaning of a changelog batch

What the events of a batch do to a keyed table one by one, and what a written
run does to it.  `missing` is the row an update of an absent key starts from:
`none` when the sink ignores such an update, a default row when it inserts one.
-/

namespace Transferia.Changelog
open Option Support AList
variable {V : Type*}

def allSome {n : ℕ} (value : Fin n → Option V) : Option (Fin n → V) :=
  if h : ∀ i, (value i).isSome then some fun i => (value i).get (h i) else none

section
variable {n : ℕ} {value : Fin n → Option V} {row : Fin n → V}

theorem allSome_eq_some (h : ∀ i, value i = some (row i)) : allSome value = some row := by
  have hsome : ∀ i, (value i).isSome := by
    intro i
    rw [h i]
    rfl
  rw [allSome, dif_pos hsome]
  congr 1
  funext i
  exact get_of_eq_some _ (h i)

theorem of_allSome_eq_some (h : allSome value = some row) (i : Fin n) : value i = some (row i) := by
  unfold allSome at h
  split at h
  next hsome =>
    cases h
    exact (some_get (hsome i)).symm
  · cases h

end

def overwrite {n : ℕ} (value : Fin n → Option V) (row : Fin n → V) : Fin n → V :=
  fun column => (value column).getD (row column)

def changedOnly {n : ℕ} (changed : Fin n → Bool) (cells : Fin n → V) : Fin n → Option V :=
  fun column => if changed column then some (cells column) else none

def rowEffect {n : ℕ} (missing : Option (Fin n → V))
    (operation : ChangeOperation) (value : Fin n → Option V)
    (before : Option (Fin n → V)) : Option (Fin n → V) :=
  match operation with
  | .create => allSome value
  | .snapshotRead => allSome value
  | .update => (before.or missing).map (overwrite value)
  | .delete => none

theorem overwrite_merge {n : ℕ} {before after : Fin n → Option V} {changed : Fin n → Bool}
    {cells : Fin n → V}
    (hafter : ∀ col, after col = if changed col then some (cells col) else before col)
    (row : Fin n → V) :
    overwrite after row = overwrite (changedOnly changed cells) (overwrite before row) := by
  funext col
  unfold overwrite changedOnly
  by_cases hchanged : changed col
  all_goals simp [hafter col, hchanged]

/-- An update merged into a row that is not deleted does what the two changes
do one after the other. -/
theorem rowEffect_merge {n : ℕ} {missing : Option (Fin n → V)}
    {prior : ChangeOperation} {before after : Fin n → Option V}
    {changed : Fin n → Bool} {cells : Fin n → V} (hnotDelete : prior ≠ .delete)
    (hcomplete : prior.replaces → ∃ row, allSome before = some row)
    (hafter : ∀ col, after col = if changed col then some (cells col) else before col)
    (held : Option (Fin n → V)) :
    rowEffect missing (if prior.replaces then prior else .update) after held =
      rowEffect missing .update (changedOnly changed cells)
        (rowEffect missing prior before held) := by
  have hr : prior.replaces → allSome after =
      ((allSome before).or missing).map (overwrite (changedOnly changed cells)) := by
    intro hreplaces
    obtain ⟨row, hrow⟩ := hcomplete hreplaces
    rw [hrow, some_or, map_some]
    apply allSome_eq_some
    intro col
    have hcell := of_allSome_eq_some hrow col
    unfold overwrite changedOnly
    by_cases hchanged : changed col
    · simp [hafter col, hchanged]
    · simp [hafter col, hchanged, hcell]
  cases prior with
  | create | snapshotRead => exact hr rfl
  | delete => exact absurd rfl hnotDelete
  | update =>
    simp only [rowEffect]
    cases hheld : held.or missing with
    | none =>
      have hmissing : missing = none := by
        cases held with
        | none => simpa using hheld
        | some row => cases hheld
      rw [hmissing]
      rfl
    | some row => simp [overwrite_merge hafter]

namespace ChangelogBatch

section
variable {schema : TableSchema} (batch : ChangelogBatch V schema)

def rowKey (value : Fin batch.columnCount → Option V) : Option batch.Key :=
  allSome fun i => value (batch.primaryKeyIndexes.get i)

variable {batch} (missing : Option (Fin batch.columnCount → V)) {E : Type*} [DecidableEq E]

/-- A merged event: what it leaves for its key, and that the key is named by
the merged row. -/
structure Merged (latest : Latest E batch.rowCount batch.columnCount) (e : E) (key : batch.Key)
    (effect : Option (Fin batch.columnCount → V) → Option (Fin batch.columnCount → V))
    (row : CollapsedRow batch.rowCount batch.columnCount) : Prop where
  keyed : batch.rowKey (batch.collapsedValue row) = some key
  complete : row.operation.replaces → ∃ cells, allSome (batch.collapsedValue row) = some cells
  effect_eq : ∀ held, rowEffect missing row.operation (batch.collapsedValue row) held =
      effect (match latest.lookup e with
        | none => held
        | some prior => rowEffect missing prior.operation (batch.collapsedValue prior) held)

section
variable {latest latest' : Latest E batch.rowCount batch.columnCount} {e : E} {pos ver : ℕ}
  {changed : Fin batch.columnCount → Bool}

theorem merged_set {op : ChangeOperation} {row : Fin batch.rowCount}
    (hok : applyCollapsedEvent latest e pos op (.current row) changed batch.primaryKeyIndexes ver =
        .ok latest') (hreplaces : op.replaces) (hall : ∀ col, changed col) :
    ∃ merged, latest' = latest.insert e merged ∧
    Merged missing latest e (batch.key row) (fun _ => some (batch.cell row)) merged := by
  have hmerge : ∀ merged,
      merged.operation = op → (∀ col, batch.collapsedValue merged col = some (batch.cell row col)) →
      Merged missing latest e (batch.key row) (fun _ => some (batch.cell row)) merged := by
    intro merged ho hval
    have hcloses :
      allSome (batch.collapsedValue merged) = some (batch.cell row) := allSome_eq_some hval
    refine ⟨allSome_eq_some fun i => hval _, fun _ => ⟨_, hcloses⟩, ?_⟩
    intro held
    rw [ho]
    cases op with
    | create | snapshotRead => exact hcloses
    | update | delete => cases hreplaces
  unfold applyCollapsedEvent at hok
  split at hok
  · cases hok
    refine ⟨_, rfl, hmerge _ rfl ?_⟩
    intro col
    have hnot : op ≠ .delete := by
      rintro rfl
      cases hreplaces
    simp [collapsedValue, hnot, overwriteSources, hall col, sourceValue]
  cases op with
  | create | snapshotRead =>
    cases hok
    exact ⟨_, rfl, hmerge _ rfl fun col => rfl⟩
  | update | delete => cases hreplaces

theorem merged_delete {src : ValueSource batch.rowCount} {key : batch.Key}
    (hok : applyCollapsedEvent latest e pos .delete src changed batch.primaryKeyIndexes ver =
      .ok latest')
    (hkey : ∀ i, batch.sourceValue src (batch.primaryKeyIndexes.get i) = some (key i)) :
    ∃ merged,
      latest' = latest.insert e merged ∧ Merged missing latest e key (fun _ => none) merged := by
  have hmerge : Merged missing latest e key (fun _ => none)
      { finalPosition := pos
        operation := .delete, valueRows := keySources batch.primaryKeyIndexes src
        sourceVersion := ver } := by
    refine ⟨?_, ?_, fun held => rfl⟩
    · apply allSome_eq_some
      intro i
      rw [← hkey i]
      simp [collapsedValue, keySources]
    rintro ⟨⟩
  simp only [applyCollapsedEvent] at hok
  split at hok
  all_goals
    cases hok
    exact ⟨_, rfl, hmerge⟩

theorem merged_update {row : Fin batch.rowCount}
    (hok :
      applyCollapsedEvent latest e pos .update (.current row) changed batch.primaryKeyIndexes ver =
        .ok latest') (hkeyChanged : ∀ column ∈ batch.primaryKeyIndexes, changed column)
    (hcomplete : ∀ prior, latest.lookup e = some prior → prior.operation.replaces →
      ∃ cells, allSome (batch.collapsedValue prior) = some cells) :
    ∃ merged, latest' = latest.insert e merged ∧
      Merged missing latest e (batch.key row)
        (fun held => (held.or missing).map (overwrite (changedOnly changed (batch.cell row))))
        merged := by
  have hkeyed : ∀ merged, (∀ column,
      changed column → batch.collapsedValue merged column = some (batch.cell row column)) →
      batch.rowKey (batch.collapsedValue merged) = some (batch.key row) := by
    intro merged hval
    apply allSome_eq_some
    intro i
    exact hval _ (hkeyChanged _ (List.get_mem _ _))
  simp only [applyCollapsedEvent] at hok
  split at hok
  next hlook =>
    cases hok
    have hval : ∀ column, batch.collapsedValue
        { finalPosition := pos, operation := .update
          valueRows := overwriteSources changed (.current row) fun _ => none
          sourceVersion := ver } column =
        if changed column then some (batch.cell row column) else none := by
      intro column
      simp only [collapsedValue, overwriteSources]
      split <;> rfl
    refine ⟨_, rfl, hkeyed _ ?_, ?_, ?_⟩
    · intro column hchanged
      exact (hval column).trans (if_pos hchanged)
    · rintro ⟨⟩
    intro held
    rw [hlook]
    simp only [rowEffect]
    congr 2
    funext column
    exact hval column
  rename_i prior hlook
  split at hok
  · cases hok
  rename_i hnotDelete
  cases hok
  have hval : ∀ column, batch.collapsedValue
      { finalPosition := pos, operation := if prior.operation.replaces then prior.operation
          else .update
        valueRows := overwriteSources changed (.current row) prior.valueRows
        sourceVersion := ver } column =
      if changed column then some (batch.cell row column)
      else batch.collapsedValue prior column := by
    intro column
    simp only [collapsedValue, overwriteSources]
    split <;> rfl
  refine ⟨_, rfl, hkeyed _ ?_, ?_, ?_⟩
  · intro column hchanged
    exact (hval column).trans (if_pos hchanged)
  · intro hr
    have hprior : prior.operation.replaces := by
      by_contra hnot
      simp only [if_neg hnot] at hr
      cases hr
    obtain ⟨cells, hcloses⟩ := hcomplete prior hlook hprior
    refine ⟨overwrite (changedOnly changed (batch.cell row)) cells, ?_⟩
    apply allSome_eq_some
    intro column
    have hcell := of_allSome_eq_some hcloses column
    rw [hval column]
    unfold overwrite changedOnly
    by_cases hchanged : changed column
    · simp [hchanged]
    · simp [hchanged, hcell]
  intro held
  rw [hlook]
  exact rowEffect_merge hnotDelete (hcomplete prior hlook) hval held

end

theorem sourceValue_oldPrimaryKey {oldKeys : Fin batch.rowCount → batch.Key}
    (hold : batch.oldPrimaryKeys = some oldKeys) (row : Fin batch.rowCount)
    (i : Fin batch.primaryKeyIndexes.length) :
    batch.sourceValue (.oldPrimaryKey row) (batch.primaryKeyIndexes.get i) =
      some (oldKeys row i) := by
  have hpos : batch.primaryKeyIndexes.finIdxOf? (batch.primaryKeyIndexes.get i) = some i := by
    rw [List.finIdxOf?_eq_some_iff]
    refine ⟨rfl, ?_⟩
    intro j hj hsame
    have heq : j = i := schema.key_nodup.injective_get hsame
    rw [heq] at hj
    exact lt_irrefl _ hj
  unfold sourceValue
  rw [hold]
  simp only [hpos]

end

variable [DecidableEq V] {schema : TableSchema} (batch : ChangelogBatch V schema)

abbrev Table : Type _ := batch.Key → Option (Fin batch.columnCount → V)

variable (missing : Option (Fin batch.columnCount → V)) (mask : batch.Mask)

def deletedKey (row : Fin batch.rowCount) : batch.Key :=
  match batch.oldPrimaryKeys with
  | none => batch.key row
  | some oldKeys => oldKeys row

def movesKey (row : Fin batch.rowCount) : Bool :=
  batch.oldPrimaryKeys.any (· row ≠ batch.key row)

variable (table : batch.Table)

/-- One event of the batch.  Create and snapshot-read replace the whole row,
an update overwrites the changed columns, a delete removes the key, and an
update of the key removes the old key and sets the new one. -/
def applyEvent (row : Fin batch.rowCount) : batch.Table :=
  match batch.operations row with
  | .create => change table (batch.key row) fun _ => some (batch.cell row)
  | .snapshotRead => change table (batch.key row) fun _ => some (batch.cell row)
  | .update =>
    if batch.movesKey row then
      change (change table (batch.deletedKey row) fun _ => none)
        (batch.key row) fun _ => some (batch.cell row)
    else
      change table (batch.key row) fun before =>
        (before.or missing).map (overwrite (changedOnly (mask row) (batch.cell row)))
  | .delete => change table (batch.deletedKey row) fun _ => none

def applyEvents : batch.Table :=
  (List.finRange batch.rowCount).foldl (batch.applyEvent missing mask) table

def applyRunRow (operation : ChangeOperation) (table : batch.Table)
    (value : Fin batch.columnCount → Option V) : batch.Table :=
  match batch.rowKey value with
  | none => table
  | some key => change table key (rowEffect missing operation value)

def applyRun (run : ChangelogRun V batch.columnCount) : batch.Table :=
  run.batch.foldl (batch.applyRunRow missing run.operation) table

def applyRuns (runs : List (ChangelogRun V batch.columnCount)) : batch.Table :=
  runs.foldl (batch.applyRun missing) table

variable {E : Type*} [DecidableEq E] (encode : batch.Key → E)

/-- The collapsed rows describe the difference between the initial table and
the table reached by the events read so far. -/
structure Simulates (start table : batch.Table)
    (latest : Latest E batch.rowCount batch.columnCount) : Prop where
  table_eq : ∀ key, table key =
    match latest.lookup (encode key) with
    | none => start key
    | some row => rowEffect missing row.operation (batch.collapsedValue row) (start key)
  keyed : ∀ e row, latest.lookup e = some row →
    ∃ key, encode key = e ∧ batch.rowKey (batch.collapsedValue row) = some key
  complete : ∀ e row, latest.lookup e = some row → row.operation.replaces →
    ∃ cells, allSome (batch.collapsedValue row) = some cells

variable {batch} {missing}

theorem Simulates.insert {encode : batch.Key → E} (hinj : Function.Injective encode)
    {start table : batch.Table} {latest : Latest E batch.rowCount batch.columnCount}
    {key : batch.Key}
    {effect : Option (Fin batch.columnCount → V) → Option (Fin batch.columnCount → V)}
    {merged : CollapsedRow batch.rowCount batch.columnCount}
    (h : batch.Simulates missing encode start table latest)
    (hmerge : Merged missing latest (encode key) key effect merged) :
    batch.Simulates missing encode start (change table key effect)
      (latest.insert (encode key) merged) := by
  refine ⟨?_, ?_, ?_⟩
  · intro other
    by_cases hother : other = key
    · subst hother
      rw [change_self, lookup_insert, h.table_eq]
      simp only
      rw [hmerge.effect_eq]
    have hne : encode other ≠ encode key := fun heq => hother (hinj heq)
    rw [change_of_ne _ _ hother, lookup_insert_ne hne, h.table_eq]
  · intro e row hrow
    by_cases he : e = encode key
    · subst he
      rw [lookup_insert] at hrow
      cases hrow
      exact ⟨key, rfl, hmerge.keyed⟩
    rw [lookup_insert_ne he] at hrow
    exact h.keyed e row hrow
  intro e row hrow
  by_cases he : e = encode key
  · subst he
    rw [lookup_insert] at hrow
    cases hrow
    exact hmerge.complete
  rw [lookup_insert_ne he] at hrow
  exact h.complete e row hrow

end ChangelogBatch
end Transferia.Changelog
