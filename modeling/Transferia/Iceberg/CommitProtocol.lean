import Transferia.Iceberg.CommitIdentity

/-!
# Committing one snapshot

The sink looks for its commit identity in the durable records and in the
snapshots of the table, builds the content of the snapshot, lets the catalog
swap the table pointer and writes the durable record.  The catalog may fail
after the swap, and the sink may stop between any two steps.  The digest of
identities is a parameter.
-/

namespace Transferia.Iceberg

/-- A snapshot of a table: what it adds, and the summary properties that name
its commit. -/
structure Snapshot (C : Type*) where
  content : C
  properties : Option (BitVec 128 × CommitIdentity)

variable {C : Type*} (digest : CommitIdentity → BitVec 128)

abbrev Lineage (C : Type*) := List (Snapshot C)

def commitSnapshotProperties (commit : CommitIdentity) : BitVec 128 × CommitIdentity :=
  (digest commit, commit)

theorem commitSnapshotProperties_injective : Function.Injective (commitSnapshotProperties digest) :=
  fun _ _ hsame => congrArg Prod.snd hsame

def hasCommitIdentity (lineage : Lineage C) (commit : CommitIdentity) : Bool :=
  lineage.any (·.properties == some (commitSnapshotProperties digest commit))

abbrev DurableStorage := BitVec 128 → Option CommitIdentity

def hexDigest (digest : BitVec 128) : String :=
  let digits := Nat.toDigits 16 digest.toNat
  String.ofList (List.replicate (32 - digits.length) '0' ++ digits)

def durableKey (digest : BitVec 128) : String := "iceberg-sink/commits/" ++ hexDigest digest

def corruptRecord (digest : BitVec 128) : String :=
  "Iceberg durable commit record '" ++ durableKey digest ++ "' is corrupt"

def commitIsDurable (storage : DurableStorage) (commit : CommitIdentity) : Except String Bool :=
  match storage (digest commit) with
  | none => .ok false
  | some payload =>
    if payload = commit then .ok true
    else .error (corruptRecord (digest commit))

def conflictingRecord (digest : BitVec 128) : String :=
  "Iceberg durable commit record '" ++ durableKey digest ++ "' conflicts with this append"

def markCommitDurable (storage : DurableStorage) (commit : CommitIdentity) :
    Except String DurableStorage :=
  match storage (digest commit) with
  | none => .ok (Function.update storage (digest commit) (some commit))
  | some payload =>
    if payload = commit then .ok storage
    else .error (conflictingRecord (digest commit))

def absentCommit (digest : BitVec 128) : String :=
  "Iceberg durable commit '" ++ durableKey digest ++
    "' is absent from the active table snapshot lineage"

variable {digest}

theorem hasCommitIdentity_iff {lineage : Lineage C} {commit : CommitIdentity} :
    hasCommitIdentity digest lineage commit ↔
    ∃ snapshot ∈ lineage, snapshot.properties = some (commitSnapshotProperties digest commit) := by
  simp [hasCommitIdentity]

def unknownDataset (dataset : String) : String :=
  "Iceberg batch targets unknown dataset '" ++ dataset ++ "'"

/-- A snapshot to be committed.  The action of a row delta leaves a table alone
that has its identity; an append refuses to add its files a second time. -/
structure CommitTask (C : Type*) where
  commit : CommitIdentity
  content : Except String C
  rebases : Bool

inductive CommitPoint (C : Type*) where
  | loading
  | loaded (lineage : Lineage C)
  | committing (content : C)
  | swapping (content : C) (pointer : ℕ)
  | recovering
  | marking

inductive CommitFailure where
  | catalog
  | refused (reason : String)

/-- What the caller sees of a pointer swap. -/
inductive SwapOutcome where
  | answered
  | failed (applied retryable : Bool)

inductive CommitLabel where
  | load
  | check
  | refresh
  | swap (outcome : SwapOutcome)
  | reload
  | mark

/-- What one step does to the table, the durable records and the sink. -/
inductive CommitEffect (C : Type*) where
  | move (point : CommitPoint C)
  | publish (snapshot : Snapshot C) (point : CommitPoint C)
  | finish (storage : DurableStorage)
  | fail (failure : CommitFailure)

namespace CommitTask
variable (digest) (task : CommitTask C)

def snapshot (content : C) : Snapshot C where
  content
  properties := some (commitSnapshotProperties digest task.commit)

/-- The checks before the snapshot is built, and its content. -/
def checkCommitted (storage : DurableStorage) (lineage : Lineage C) : CommitEffect C :=
  match commitIsDurable digest storage task.commit with
  | .error reason => .fail (.refused reason)
  | .ok true =>
    if hasCommitIdentity digest lineage task.commit then .finish storage
    else .fail (.refused (absentCommit (digest task.commit)))
  | .ok false =>
    if hasCommitIdentity digest lineage task.commit then .move .marking
    else
      match task.content with
      | .error reason => .fail (.refused reason)
      | .ok content => .move (.committing content)

def swapPointer (lineage : Lineage C) (content : C) (pointer : ℕ) :
    SwapOutcome → Option (CommitEffect C)
  | .answered =>
    if lineage.length = pointer then
      some (.publish (task.snapshot digest content) .marking)
    else none
  | .failed applied retryable =>
    let point : CommitPoint C := if retryable then .committing content else .recovering
    if applied then
      if lineage.length = pointer then
        some (.publish (task.snapshot digest content) point)
      else none
    else some (.move point)

/-- One step of a commit, on the table and the records as they are. -/
def step (lineage : Lineage C) (storage : DurableStorage) :
    CommitPoint C → CommitLabel → Option (CommitEffect C)
  | .loading, .load => some (.move (.loaded lineage))
  | .loaded loaded, .check => some (task.checkCommitted digest storage loaded)
  | .committing content, .refresh =>
    if hasCommitIdentity digest lineage task.commit then
      some (.move (if task.rebases then .marking else .recovering))
    else some (.move (.swapping content lineage.length))
  | .swapping content pointer, .swap outcome =>
    task.swapPointer digest lineage content pointer outcome
  | .recovering, .reload =>
    if hasCommitIdentity digest lineage task.commit then
      some (.move .marking)
    else some (.fail .catalog)
  | .marking, .mark =>
    match markCommitDurable digest storage task.commit with
    | .error reason => some (.fail (.refused reason))
    | .ok storage => some (.finish storage)
  | _, _ => none

inductive Moves (lineage : Lineage C) (storage : DurableStorage) :
    CommitPoint C → CommitEffect C → Prop
  | load : Moves lineage storage .loading (.move (.loaded lineage))
  | corrupt {loaded payload}
      (hrecord : storage (digest task.commit) = some payload) (hother : payload ≠ task.commit) :
      Moves lineage storage (.loaded loaded) (.fail (.refused (corruptRecord (digest task.commit))))
  | skip {loaded} (hcommitted : hasCommitIdentity digest loaded task.commit) :
      Moves lineage storage (.loaded loaded) (.finish storage)
  | absent {loaded} (hrecord : storage (digest task.commit) = some task.commit)
      (hcommitted : hasCommitIdentity digest loaded task.commit = false) :
      Moves lineage storage (.loaded loaded) (.fail (.refused (absentCommit (digest task.commit))))
  | found {loaded} (hcommitted : hasCommitIdentity digest loaded task.commit) :
      Moves lineage storage (.loaded loaded) (.move .marking)
  | unusable {loaded reason} (hcontent : task.content = .error reason) :
      Moves lineage storage (.loaded loaded) (.fail (.refused reason))
  | build {loaded content} (hcontent : task.content = .ok content) :
      Moves lineage storage (.loaded loaded) (.move (.committing content))
  | rebased {content} (hcommitted : hasCommitIdentity digest lineage task.commit) :
      Moves lineage storage (.committing content) (.move .marking)
  | duplicate {content} : Moves lineage storage (.committing content) (.move .recovering)
  | refresh {content} (hcommitted : hasCommitIdentity digest lineage task.commit = false) :
      Moves lineage storage (.committing content) (.move (.swapping content lineage.length))
  | swapped {content pointer point}
      (hpoint : point = .marking ∨ point = .committing content ∨ point = .recovering) : Moves
      lineage storage (.swapping content pointer) (.publish (task.snapshot digest content) point)
  | unswapped {content pointer point} (hpoint : point = .committing content ∨ point = .recovering) :
      Moves lineage storage (.swapping content pointer) (.move point)
  | recovered (hcommitted : hasCommitIdentity digest lineage task.commit) :
      Moves lineage storage .recovering (.move .marking)
  | lost : Moves lineage storage .recovering (.fail .catalog)
  | mark : Moves lineage storage .marking
      (.finish (Function.update storage (digest task.commit) (some task.commit)))
  | marked : Moves lineage storage .marking (.finish storage)
  | conflict {payload}
      (hrecord : storage (digest task.commit) = some payload) (hother : payload ≠ task.commit) :
      Moves lineage storage .marking (.fail (.refused (conflictingRecord (digest task.commit))))

variable {digest} {task} {lineage : Lineage C} {storage : DurableStorage}

theorem moves_of_checkCommitted {loaded : Lineage C} :
    task.Moves digest lineage storage (.loaded loaded)
      (task.checkCommitted digest storage loaded) := by
  unfold checkCommitted commitIsDurable
  cases hrecord : storage (digest task.commit) with
  | none =>
    cases hcommitted : hasCommitIdentity digest loaded task.commit with
    | true => exact .found hcommitted
    | false =>
      cases hcontent : task.content with
      | error reason => exact .unusable hcontent
      | ok content => exact .build hcontent
  | some payload =>
    by_cases hsame : payload = task.commit
    · subst hsame
      simp only [if_true]
      cases hcommitted : hasCommitIdentity digest loaded task.commit with
      | true => exact .skip hcommitted
      | false => exact .absent hrecord hcommitted
    simp only [hsame]
    exact .corrupt hrecord hsame

theorem moves_of_swapPointer {content : C} {pointer : ℕ} {outcome : SwapOutcome}
    {effect : CommitEffect C}
    (hstep : task.swapPointer digest lineage content pointer outcome = some effect) :
    task.Moves digest lineage storage (.swapping content pointer) effect := by
  cases outcome with
  | answered =>
    simp only [swapPointer] at hstep
    split at hstep
    · cases hstep
      exact .swapped (.inl rfl)
    · cases hstep
  | failed applied retryable =>
    have hpoint : (if retryable then CommitPoint.committing content
        else .recovering) = .committing content ∨
        (if retryable then CommitPoint.committing content
          else .recovering) = .recovering := by
      cases retryable with
      | true => exact .inl rfl
      | false => exact .inr rfl
    simp only [swapPointer] at hstep
    cases applied with
    | false =>
      cases hstep
      exact .unswapped hpoint
    | true =>
      simp only [if_true] at hstep
      split at hstep
      · cases hstep
        exact .swapped (.inr hpoint)
      · cases hstep

theorem moves_of_step {point : CommitPoint C} {label : CommitLabel} {effect : CommitEffect C}
    (hstep : task.step digest lineage storage point label = some effect) :
    task.Moves digest lineage storage point effect := by
  unfold step at hstep
  split at hstep
  · cases hstep
    exact .load
  · cases hstep
    exact moves_of_checkCommitted
  · split at hstep
    · cases hstep
      split
      · exact .rebased ‹_›
      · exact .duplicate
    cases hstep
    exact .refresh (Bool.eq_false_iff.mpr ‹_›)
  · exact moves_of_swapPointer hstep
  · split at hstep
    · cases hstep
      exact .recovered ‹_›
    cases hstep
    exact .lost
  · unfold markCommitDurable at hstep
    cases hrecord : storage (digest task.commit) with
    | none =>
      rw [hrecord] at hstep
      cases hstep
      exact .mark
    | some payload =>
      rw [hrecord] at hstep
      by_cases hsame : payload = task.commit
      · simp only [hsame] at hstep
        cases hstep
        exact .marked
      simp only [hsame] at hstep
      cases hstep
      exact .conflict hrecord hsame
  · cases hstep

end CommitTask
end Transferia.Iceberg
