import Transferia.Support.OrderedMap
import Transferia.Support.Checked

/-!
# Commit identities of the Iceberg sink

Every snapshot of the sink carries the identity of the source deliveries it
holds.  A finite source is identified by delivery numbers, a replicated one by
the coordinates of its changes.  The persisted text of an identity is its
record.
-/

namespace Transferia.Iceberg
open List Support OrderedMap

inductive StableTransactionIdentity where
  | uint64 (value : ℕ)
  | binary (hex : String)
  deriving DecidableEq

structure StableIndexRange where
  (first last : ℕ)
  deriving DecidableEq

structure StableCoordinate where
  topic : String
  (partition offset : ℤ)
  messageIndexRanges : List StableIndexRange
  deriving DecidableEq

structure StableOperationRun where
  operation : String
  count : ℕ
  deriving DecidableEq

inductive StableCommitSource where
  | finiteDelivery (deliveryIds : List ℕ)
  | replica (transaction : StableTransactionIdentity) (coordinates : List StableCoordinate)
      (operations : List StableOperationRun)
  deriving DecidableEq

structure CommitIdentity where
  delivery : String
  replayIdentity : Option String
  workerPartition : ℤ
  dataset : String
  tableUuid : ℕ
  source : StableCommitSource
  deriving DecidableEq

/-- The system columns of one row of a replica batch. -/
structure ReplicaRow where
  topic : Option String
  (partition offset : Option ℤ)
  messageIndex : Option ℕ
  operation : Option String
  transaction : Option StableTransactionIdentity

structure Coordinate where
  topic : String
  (partition offset : ℤ)
  messageIndex : ℕ
  deriving DecidableEq

namespace ReplicaRow

def coordinate (row : ReplicaRow) : Option Coordinate :=
  match row.topic, row.partition, row.offset, row.messageIndex, row.operation with
  | some topic, some partition, some offset, some messageIndex, some _ =>
    some { topic, partition, offset, messageIndex }
  | _, _, _, _, _ => none

end ReplicaRow

/-- The key under which the indexes of one source message are grouped. -/
abbrev MessageKey := String ×ₗ ℤ ×ₗ ℤ

def Coordinate.messageKey (coordinate : Coordinate) : MessageKey :=
  toLex (coordinate.topic, toLex (coordinate.partition, coordinate.offset))

theorem messageKey_injective {left right : Coordinate} (hkey : left.messageKey = right.messageKey)
    (hidx : left.messageIndex = right.messageIndex) : left = right := by
  obtain ⟨topic, partition, offset, index⟩ := left
  obtain ⟨topic', partition', offset', index'⟩ := right
  have houter := Prod.ext_iff.mp (congrArg ofLex hkey)
  have hinner := Prod.ext_iff.mp (congrArg ofLex houter.2)
  have htop : topic = topic' := houter.1
  have hp : partition = partition' := hinner.1
  have hoff : offset = offset' := hinner.2
  have hsame : index = index' := hidx
  rw [htop, hp, hoff, hsame]

def nullTransaction : String := "Iceberg source transaction identity is null"

def nullTransactionAt (row : ℕ) : String :=
  "Iceberg source transaction identity is null at row " ++ toString row

def mixedTransactions : String := "Iceberg replica batch mixes source transaction identities"

def checkTransactions (first : StableTransactionIdentity) :
    ℕ → List ReplicaRow → Except String StableTransactionIdentity
  | _, [] => .ok first
  | row, next :: rest =>
    match next.transaction with
    | none => .error (nullTransactionAt row)
    | some current =>
      if current = first then checkTransactions first (row + 1) rest
      else .error mixedTransactions

def stableTransactionIdentity (head : ReplicaRow) (rest : List ReplicaRow) :
    Except String StableTransactionIdentity :=
  match head.transaction with
  | none => .error nullTransaction
  | some first => checkTransactions first 1 rest

def unorderedIndexes : String := "Iceberg replica message indexes must be strictly increasing"

def indexRangesFrom (ranges : List StableIndexRange) (last : StableIndexRange) :
    List ℕ → Except String (List StableIndexRange)
  | [] => .ok (ranges ++ [last])
  | index :: rest =>
    if last.last < index then
      if index = last.last + 1 then
        indexRangesFrom ranges { last with last := index } rest
      else
        indexRangesFrom (ranges ++ [last]) { first := index, last := index } rest
    else .error unorderedIndexes

def stableIndexRanges : List ℕ → Except String (List StableIndexRange)
  | [] => .ok []
  | index :: rest => indexRangesFrom [] { first := index, last := index } rest

def operationOverflow : String := "Iceberg replica operation count overflow"

def pushOperation (code : String) :
    List StableOperationRun → Except String (List StableOperationRun)
  | [] => .ok [{ operation := code, count := 1 }]
  | [run] =>
    if run.operation = code then
      if run.count + 1 < 2 ^ 64 then .ok [{ run with count := run.count + 1 }]
      else .error operationOverflow
    else .ok [run, { operation := code, count := 1 }]
  | run :: next :: rest => (pushOperation code (next :: rest)).map (run :: ·)

def nullCoordinate (row : ℕ) : String :=
  "Iceberg replica source coordinate is null at row " ++ toString row

def groupRows : ℕ → List ReplicaRow → OrderedMap MessageKey (List ℕ) → List StableOperationRun →
    Except String (OrderedMap MessageKey (List ℕ) × List StableOperationRun)
  | _, [], grouped, operations => .ok (grouped, operations)
  | index, row :: rest, grouped, operations =>
    match row.coordinate with
    | none => .error (nullCoordinate index)
    | some coordinate =>
      match pushOperation (row.operation.getD "") operations with
      | .error error => .error error
      | .ok operations =>
        groupRows (index + 1) rest
          (grouped.insert coordinate.messageKey ((grouped.find? coordinate.messageKey).getD [] ++
              [coordinate.messageIndex]))
          operations

def groupedCoordinates : List (MessageKey × List ℕ) → Except String (List StableCoordinate)
  | [] => .ok []
  | (key, indexes) :: rest =>
    match stableIndexRanges indexes with
    | .error error => .error error
    | .ok messageIndexRanges =>
      (groupedCoordinates rest).map fun coordinates =>
        { topic := (ofLex key).1
          partition := (ofLex (ofLex key).2).1, offset := (ofLex (ofLex key).2).2
          messageIndexRanges } :: coordinates

def replicaSourceIdentity (head : ReplicaRow) (rest : List ReplicaRow) :
    Except String StableCommitSource :=
  match stableTransactionIdentity head rest with
  | .error error => .error error
  | .ok transaction =>
    match groupRows 0 (head :: rest) .empty [] with
    | .error error => .error error
    | .ok (grouped, operations) =>
      (groupedCoordinates grouped.entries).map fun coordinates =>
        .replica transaction coordinates operations

variable {ranges : List StableIndexRange} {indexes : List ℕ}
    {operations : List StableOperationRun} {coordinates : List StableCoordinate}
    {head : ReplicaRow} {rest : List ReplicaRow}

def StableIndexRange.Holds (range : StableIndexRange) (index : ℕ) : Prop :=
  range.first ≤ index ∧ index ≤ range.last

def CoveredBy (coordinates : List StableCoordinate) (coordinate : Coordinate) : Prop :=
  ∃ found ∈ coordinates, found.topic = coordinate.topic ∧ found.partition = coordinate.partition ∧
    found.offset = coordinate.offset ∧
    ∃ range ∈ found.messageIndexRanges, range.Holds coordinate.messageIndex

theorem indexRangesFrom_holds {res : List StableIndexRange} {last : StableIndexRange}
    (hlast : last.first ≤ last.last) (hok : indexRangesFrom ranges last indexes = .ok res)
    (index : ℕ) : (∃ range ∈ res, range.Holds index) ↔ (∃ range ∈ ranges, range.Holds index) ∨
    last.Holds index ∨ index ∈ indexes := by
  induction indexes generalizing ranges last with
  | nil =>
    cases hok
    simp
  | cons next rest ih =>
    unfold indexRangesFrom at hok
    split at hok
    next hlt =>
      split at hok
      next hnext =>
        have hgrow : last.first ≤ next := by omega
        rw [ih hgrow hok]
        simp only [StableIndexRange.Holds, mem_cons]
        have hsplit : last.first ≤ index ∧ index ≤ next ↔
            (last.first ≤ index ∧ index ≤ last.last) ∨ index = next := by
          omega
        rw [hsplit, or_assoc]
      · rw [ih (le_refl next) hok]
        have hone : (⟨next, next⟩ : StableIndexRange).Holds index ↔ index = next := by
          simp only [StableIndexRange.Holds]
          omega
        rw [hone]
        simp only [mem_append, mem_cons, not_mem_nil,
          or_false, or_and_right, exists_or, exists_eq_left, or_assoc]
    · cases hok

theorem stableIndexRanges_holds (hok : stableIndexRanges indexes = .ok ranges) (index : ℕ) :
    (∃ range ∈ ranges, range.Holds index) ↔ index ∈ indexes := by
  cases indexes with
  | nil =>
    cases hok
    simp
  | cons first rest =>
    rw [indexRangesFrom_holds (le_refl first) hok]
    simp only [not_mem_nil, false_and, exists_false, false_or, StableIndexRange.Holds, mem_cons]
    constructor
    · rintro (hone | hrest)
      · exact .inl (by omega)
      · exact .inr hrest
    rintro (rfl | hrest)
    · exact .inl ⟨le_refl _, le_refl _⟩
    · exact .inr hrest

def rowCoordinates (rows : List ReplicaRow) : List Coordinate :=
  rows.filterMap ReplicaRow.coordinate

theorem groupRows_find? {rows : List ReplicaRow}
    {first : ℕ} {grouped res : OrderedMap MessageKey (List ℕ)} {runs : List StableOperationRun}
    (hok : groupRows first rows grouped operations = .ok (res, runs)) (key : MessageKey)
    (index : ℕ) : index ∈ (res.find? key).getD [] ↔ index ∈ (grouped.find? key).getD [] ∨
    ∃ coord ∈ rowCoordinates rows, coord.messageKey = key ∧ coord.messageIndex = index := by
  induction rows generalizing first grouped operations with
  | nil =>
    cases hok
    simp [rowCoordinates]
  | cons row rest ih =>
    unfold groupRows at hok
    split at hok
    · cases hok
    rename_i coord hcoordinate
    split at hok
    · cases hok
    have hc :
      rowCoordinates (row :: rest) = coord :: rowCoordinates rest := filterMap_cons_some hcoordinate
    rw [ih hok, hc]
    simp only [mem_cons, or_and_right, exists_or]
    rw [← or_assoc]
    refine or_congr ?_ Iff.rfl
    by_cases hkey : key = coord.messageKey
    · subst hkey
      rw [find?_insert_self, Option.getD_some, mem_append, mem_singleton]
      simp [eq_comm]
    rw [find?_insert_ne _ _ hkey]
    have hne : coord.messageKey ≠ key := fun h => hkey h.symm
    simp [hne]

theorem groupedCoordinates_covered {es : List (MessageKey × List ℕ)}
    (hok : groupedCoordinates es = .ok coordinates) (coord : Coordinate) :
    CoveredBy coordinates coord ↔ ∃ indexes, (coord.messageKey, indexes) ∈ es ∧
    coord.messageIndex ∈ indexes := by
  induction es generalizing coordinates with
  | nil =>
    cases hok
    simp [CoveredBy]
  | cons entry rest ih =>
    obtain ⟨key, indexes⟩ := entry
    unfold groupedCoordinates at hok
    split at hok
    · cases hok
    rename_i ranges hranges
    obtain ⟨others, hrest, hok⟩ := of_bind hok
    cases hok
    have hholds := stableIndexRanges_holds hranges
    have ho := ih hrest
    unfold CoveredBy at ho ⊢
    simp only [mem_cons, or_and_right, exists_or, exists_eq_left, ho, hholds, Prod.mk.injEq]
    refine or_congr ?_ Iff.rfl
    constructor
    · rintro ⟨htop, hp, hoff, hidx⟩
      refine ⟨indexes, ⟨?_, rfl⟩, hidx⟩
      rw [Coordinate.messageKey, ← htop, ← hp, ← hoff]
      rfl
    rintro ⟨found, ⟨rfl, rfl⟩, hidx⟩
    exact ⟨rfl, rfl, rfl, hidx⟩

theorem replicaSourceIdentity_covered {txn : StableTransactionIdentity}
    (hok : replicaSourceIdentity head rest = .ok (.replica txn coordinates operations))
    (coord : Coordinate) : CoveredBy coordinates coord ↔ coord ∈ rowCoordinates (head :: rest) := by
  unfold replicaSourceIdentity at hok
  split at hok
  · cases hok
  split at hok
  · cases hok
  rename_i grouped runs hgroup
  obtain ⟨found, hc, hok⟩ := of_bind hok
  cases hok
  rw [groupedCoordinates_covered hc]
  have hfind := groupRows_find? hgroup coord.messageKey coord.messageIndex
  simp only [find?_empty, Option.getD_none, not_mem_nil, false_or] at hfind
  simp only [mem_entries_iff]
  constructor
  · rintro ⟨indexes, hi, hidx⟩
    rw [hi] at hfind
    obtain ⟨other, hother, hkey, hmsg⟩ := hfind.mp hidx
    rwa [messageKey_injective hkey hmsg] at hother
  intro hmem
  have hidx := hfind.mpr ⟨coord, hmem, rfl, rfl⟩
  cases hi : grouped.find? coord.messageKey with
  | none => simp [hi] at hidx
  | some indexes => exact ⟨indexes, rfl, by simpa [hi] using hidx⟩

theorem coordinates_of_identity_eq {head' : ReplicaRow} {rest' : List ReplicaRow}
    {src : StableCommitSource} (hok : replicaSourceIdentity head rest = .ok src)
    (hok' : replicaSourceIdentity head' rest' = .ok src) (coord : Coordinate) :
    coord ∈ rowCoordinates (head :: rest) ↔ coord ∈ rowCoordinates (head' :: rest') := by
  cases src with
  | finiteDelivery ids =>
    unfold replicaSourceIdentity at hok
    split at hok
    · cases hok
    split at hok
    · cases hok
    rename_i grouped _ _
    cases hc : groupedCoordinates grouped.entries with
    | error error | ok coordinates =>
      rw [hc] at hok
      cases hok
  | replica transaction coordinates operations =>
    rw [← replicaSourceIdentity_covered hok, ← replicaSourceIdentity_covered hok']

end Transferia.Iceberg
