import Transferia.S3.Journal
import Transferia.Support.Trace

/-!
# The epoch record moves one way

The record of a manifest key goes from absent to open to closed and keeps its
object list.  The invariant ties a call that is about to swap, and a call that
succeeded, to the object list that is stored.
-/

namespace Transferia.S3
open List Option Function Support Registry
variable {Bytes : Type*} {codec : RecordCodec Bytes} {hexDigest : List UInt8 → String}
  {storage : DurableStorage Bytes} {key : String} {storage' : DurableStorage Bytes}

/-! ## Stored records -/

variable (codec)

def epochValue (objects : List ManifestObject) :
    EpochState → DurableValue Bytes
  | .opened =>
    { revision := 0
      payload := codec.toVec { version := journalVersion, state := .opened, objects } }
  | .closed =>
    { revision := 1
      payload := codec.toVec { version := journalVersion, state := .closed, objects } }

def Recorded (storage : DurableStorage Bytes)
    (key : String) (objects : List ManifestObject) : Prop :=
  ∃ epochState, storage key = some (epochValue codec objects epochState)

/-- The changes of a record that an epoch goes through. -/
inductive RecordStep :
    Option (DurableValue Bytes) → Option (DurableValue Bytes) → Prop
  | same {value} : RecordStep value value
  | opens {objects} : RecordStep none (some (epochValue codec objects .opened))
  | closes {objects} : RecordStep (some (epochValue codec objects .opened))
        (some (epochValue codec objects .closed))

variable {codec}

theorem decode_epochValue {journal : EpochJournal} {rec : EpochRecord}
    {objects : List ManifestObject} {epoch : EpochState}
    (h : journal.decodeAndValidate codec (epochValue codec objects epoch).payload = .ok rec) :
    rec.state = epoch ∧ journal.objects = objects := by
  cases epoch with
  | opened | closed =>
    obtain ⟨rfl, ho⟩ := EpochJournal.decodeAndValidate_toVec h
    exact ⟨rfl, ho.symm⟩

theorem decode_mismatch {journal : EpochJournal} {objects : List ManifestObject}
    {epochState : EpochState} (hother : journal.objects ≠ objects) :
    ∃ reason,
    journal.decodeAndValidate codec (epochValue codec objects epochState).payload =
      .error reason := by
  cases hdecode : journal.decodeAndValidate codec (epochValue codec objects epochState).payload with
  | error reason => exact ⟨reason, rfl⟩
  | ok record => exact absurd (decode_epochValue hdecode).2 hother

theorem Recorded.unique {objects others : List ManifestObject}
    (h : Recorded codec storage key objects) (h' : Recorded codec storage key others) :
    objects = others := by
  obtain ⟨epochState, hval⟩ := h
  obtain ⟨otherState, hother⟩ := h'
  have hsame := Option.some.inj (hval.symm.trans hother)
  have hp := congrArg (codec.fromSlice ·.payload) hsame
  cases epochState with
  | opened =>
    cases otherState with
    | opened => simpa [epochValue, codec.fromSlice_toVec] using hp
    | closed => cases congrArg DurableValue.revision hsame
  | closed =>
    cases otherState with
    | opened => cases congrArg DurableValue.revision hsame
    | closed => simpa [epochValue, codec.fromSlice_toVec] using hp

theorem Recorded.of_step {objects : List ManifestObject} (h : Recorded codec storage key objects)
    (hstep : RecordStep codec (storage key) (storage' key)) :
    Recorded codec storage' key objects := by
  obtain ⟨epochState, hval⟩ := id h
  generalize hnew : storage' key = new at hstep
  generalize hold : storage key = old at hstep
  cases hstep with
  | same => exact ⟨epochState, hnew.trans (hold.symm.trans hval)⟩
  | opens => cases hold.symm.trans hval
  | closes =>
    have hsame := h.unique ⟨.opened, hold⟩
    subst hsame
    exact ⟨.closed, hnew⟩

variable (journal : EpochJournal)

theorem EpochJournal.openRecord_eq : journal.openRecord =
    { version := journalVersion, state := .opened, objects := journal.objects } := by
  rw [← journal.version_eq, ← journal.state_eq]
  rfl

theorem EpochJournal.openBytes_eq :
    journal.openBytes codec = (epochValue codec journal.objects .opened).payload := by
  rw [openBytes, openRecord_eq]
  rfl

theorem EpochJournal.closedBytes_eq :
    journal.closedBytes codec = (epochValue codec journal.objects .closed).payload := by
  rw [closedBytes, openRecord_eq]
  rfl

/-! ## What a step can do -/

namespace Actor
variable (codec) (storage : DurableStorage Bytes) (actor : Actor Bytes)

inductive Moves : Point Bytes → DurableStorage Bytes → Prop
  | fails {reason} : Moves (.returned (.failed reason)) storage
  | crashes : Moves .crashed storage
  | rereads {rounds} : Moves (.reading rounds) storage
  | absent {rounds} (hoperation : actor.operation = .ensureOpen) :
      Moves (.swapping rounds none) storage
  | stored {current record outcome} (hstored : storage actor.journal.key = some current)
      (hvalid : actor.journal.decodeAndValidate codec current.payload = .ok record) (hclosed :
      outcome = .opened .alreadyClosed → record.state = .closed) : Moves (.returned outcome) storage
  | unclosed {rounds current record} (hoperation : actor.operation = .markClosed)
      (hstored : storage actor.journal.key = some current)
      (hvalid : actor.journal.decodeAndValidate codec current.payload = .ok record)
      (hopen : record.state = .opened) : Moves (.swapping rounds (some current.revision)) storage
  | conflicts {rounds current} : Moves (.swapped rounds (.conflict current)) storage
  | applies {rounds expected revision} (hpoint : actor.point = .swapping rounds expected)
      (hrevision : (storage actor.journal.key).map DurableValue.revision = expected)
      (hnext : nextRevision expected = .ok revision) : Moves
      (.swapped rounds (.applied { revision, payload := actor.payload codec })) (Function.update
      storage actor.journal.key (some { revision, payload := actor.payload codec }))
  | answers {rounds value} (hpoint : actor.point = .swapped rounds (.applied value)) :
      Moves (.returned actor.success) storage

variable {codec storage actor} {rounds : ℕ} {expected : Option ℕ} {point : Point Bytes}

theorem moves_of_afterRead :
    actor.Moves codec storage (actor.afterRead codec rounds (storage actor.journal.key))
      storage := by
  unfold afterRead
  cases hstored : storage actor.journal.key with
  | none =>
    cases hoperation : actor.operation with
    | ensureOpen => exact .absent hoperation
    | markClosed => exact .fails
  | some cur =>
    cases hvalid : actor.journal.decodeAndValidate codec cur.payload with
    | error reason =>
      simp only [hvalid]
      exact .fails
    | ok record =>
      simp only [hvalid]
      cases hoperation : actor.operation with
      | ensureOpen =>
        cases hs : record.state with
        | opened => exact .stored hstored hvalid (by simp)
        | closed => exact .stored hstored hvalid fun _ => hs
      | markClosed =>
        cases hs : record.state with
        | opened => exact .unclosed hoperation hstored hvalid hs
        | closed => exact .stored hstored hvalid (by simp)

theorem moves_of_compareExchange
    {res : CompareExchangeResult Bytes} (hpoint : actor.point = .swapping rounds expected)
    (h : storage.compareExchange actor.journal.key expected (actor.payload codec) =
    .ok (res, storage')) : actor.Moves codec storage (.swapped rounds res) storage' := by
  obtain ⟨cur, rfl, rfl⟩ | ⟨rev, hrevision, hnext, rfl, rfl⟩ := DurableStorage.compareExchange_ok h
  · exact .conflicts
  · exact .applies hpoint hrevision hnext

theorem moves_of_afterSwap {res : CompareExchangeResult Bytes}
    (hpoint : actor.point = .swapped rounds res) :
    actor.Moves codec storage (actor.afterSwap rounds res) storage := by
  cases res with
  | applied value => exact .answers hpoint
  | conflict cur =>
    cases rounds with
    | zero => exact .fails
    | succ rounds => exact .rereads

theorem moves_of_step {choice : Choice}
    (h : actor.step codec storage choice = some (point, storage')) :
    actor.Moves codec storage point storage' := by
  cases choice with
  | proceed =>
    cases hpoint : actor.point with simp only [step, hpoint] at h
    | reading rounds =>
      cases h
      exact moves_of_afterRead
    | swapping rounds expected =>
      split at h
      · cases h
        exact .fails
      cases h
      exact moves_of_compareExchange hpoint ‹_›
    | swapped rounds res =>
      cases h
      exact moves_of_afterSwap hpoint
    | returned outcome | crashed => cases h
  | fail reason =>
    cases hpoint : actor.point <;> simp only [step, hpoint] at h <;> cases h <;> exact .fails
  | crash =>
    cases hpoint : actor.point <;> simp only [step, hpoint] at h <;> cases h <;> exact .crashes

end Actor
namespace JournalState
variable (codec) (state : JournalState Bytes)

inductive Moves : JournalState Bytes → Prop
  | call {actor} (hpoint : actor.point = .reading 2) :
      Moves { state with actors := state.actors ++ [actor] }
  | move {index actor point storage} (hactor : state.actors[index]? = some actor)
      (hmove : actor.Moves codec state.storage point storage) : Moves
        { storage
          actors := state.actors.set index { actor with point }
          log := state.log ++ events actor point }

variable {codec state}

theorem moves_of_step {label : JournalLabel} {state' : JournalState Bytes}
    (h : step codec hexDigest state label = some state') : state.Moves codec state' := by
  cases label with
  | call partitionId objects op =>
    cases h
    exact .call rfl
  | move index choice =>
    simp only [step] at h
    split at h
    · cases h
    obtain ⟨⟨point, storage⟩, hstep, rfl⟩ := map_eq_some_iff.mp h
    exact .move ‹_› (Actor.moves_of_step hstep)

end JournalState

/-! ## The invariant -/

def Actor.Sound (codec : RecordCodec Bytes) (storage : DurableStorage Bytes) (actor : Actor Bytes) :
    Prop :=
  match actor.point with
  | .swapping _ expected =>
    match actor.operation with
    | .ensureOpen => expected = none
    | .markClosed => expected = some 0 ∧
        Recorded codec storage actor.journal.key actor.journal.objects
  | .swapped _ (.applied _) => Recorded codec storage actor.journal.key actor.journal.objects
  | .returned (.failed _) => True
  | .returned _ => Recorded codec storage actor.journal.key actor.journal.objects
  | _ => True

def MarkedClosed (log : List JournalEvent) (key : String) (objects : List ManifestObject) : Prop :=
  ∃ journal : EpochJournal, journal.key = key ∧ journal.objects = objects ∧
    JournalEvent.applied journal .markClosed ∈ log

variable (codec)

/-- The record of a key with the calls that explain it. -/
inductive Lifecycle (log : List JournalEvent)
    (key : String) : Option (DurableValue Bytes) → Prop
  | absent : Lifecycle log key none
  | opened {objects} : Lifecycle log key (some (epochValue codec objects .opened))
  | closed {objects} (hmarked : MarkedClosed log key objects) :
      Lifecycle log key (some (epochValue codec objects .closed))

structure JournalState.Inv (key : String) (state : JournalState Bytes) : Prop where
  record : Lifecycle codec state.log key (state.storage key)
  sound : ∀ actor ∈ state.actors, actor.journal.key = key → actor.Sound codec state.storage
  closedBefore : ∀ before (journal : EpochJournal) after, journal.key = key → state.log = before ++
    .returned journal (.opened .alreadyClosed) :: after → MarkedClosed before key journal.objects

variable {codec}
variable {log : List JournalEvent}

theorem MarkedClosed.append {evs : List JournalEvent} {objects : List ManifestObject}
    (h : MarkedClosed log key objects) : MarkedClosed (log ++ evs) key objects := by
  obtain ⟨journal, hkey, ho, hmem⟩ := h
  exact ⟨journal, hkey, ho, mem_append_left _ hmem⟩

theorem Lifecycle.append {evs : List JournalEvent} {value : Option (DurableValue Bytes)}
    (h : Lifecycle codec log key value) : Lifecycle codec (log ++ evs) key value := by
  cases h with
  | absent => exact .absent
  | opened => exact .opened
  | closed hmarked => exact .closed hmarked.append

/-- A call that finds a valid record finds one of the two epoch records with
its own objects. -/
theorem Lifecycle.of_valid {journal : EpochJournal} {cur : DurableValue Bytes} {rec : EpochRecord}
    (h : Lifecycle codec log key (some cur))
    (hvalid : journal.decodeAndValidate codec cur.payload = .ok rec) :
    cur = epochValue codec journal.objects rec.state ∧
    (rec.state = .closed → MarkedClosed log key journal.objects) := by
  generalize hval : some cur = value at h
  cases h with
  | absent => cases hval
  | opened =>
    cases hval
    obtain ⟨hs, rfl⟩ := decode_epochValue hvalid
    exact ⟨by rw [hs], fun hclosed => by simp [hs] at hclosed⟩
  | closed hmarked =>
    cases hval
    obtain ⟨hs, rfl⟩ := decode_epochValue hvalid
    exact ⟨by rw [hs], fun _ => hmarked⟩

namespace Actor
variable {actor : Actor Bytes} {storage storage' : DurableStorage Bytes}

theorem Sound.of_step (h : actor.Sound codec storage)
    (hstep : RecordStep codec (storage actor.journal.key) (storage' actor.journal.key)) :
    actor.Sound codec storage' := by
  obtain ⟨journal, op, point⟩ := actor
  cases point with
  | reading rounds | crashed => trivial
  | swapping rounds expected =>
    cases op with
    | ensureOpen => exact h
    | markClosed => exact ⟨h.1, h.2.of_step hstep⟩
  | swapped rounds res =>
    cases res with
    | applied value => exact Recorded.of_step h hstep
    | conflict cur => trivial
  | returned outcome =>
    cases outcome with
    | failed reason => trivial
    | opened disposition | closed => exact Recorded.of_step h hstep

variable {expected : Option ℕ} {rounds : ℕ}

/-- A swap that the storage applies opens an absent record or closes the open
record with the same objects. -/
theorem Sound.applies {revision : ℕ} (h : actor.Sound codec storage)
    (hpoint : actor.point = .swapping rounds expected)
    (hrevision : (storage actor.journal.key).map DurableValue.revision = expected)
    (hnext : nextRevision expected = .ok revision) :
    (actor.operation = .ensureOpen ∧
      storage actor.journal.key = none ∧
      { revision, payload := actor.payload codec } =
        epochValue codec actor.journal.objects .opened) ∨
    (actor.operation = .markClosed ∧
      storage actor.journal.key = some (epochValue codec actor.journal.objects .opened) ∧
      { revision, payload := actor.payload codec } =
        epochValue codec actor.journal.objects .closed) := by
  simp only [Sound, hpoint] at h
  cases hoperation : actor.operation with
  | ensureOpen =>
    simp only [hoperation] at h
    subst h
    cases hnext
    refine .inl ⟨rfl, map_eq_none_iff.mp hrevision, ?_⟩
    simp only [payload, hoperation, EpochJournal.openBytes_eq]
    rfl
  | markClosed =>
    simp only [hoperation] at h
    obtain ⟨rfl, epochState, hval⟩ := h
    cases hnext
    rw [hval] at hrevision
    refine .inr ⟨rfl, ?_, ?_⟩
    · cases epochState with
      | opened => exact hval
      | closed => cases hrevision
    simp only [payload, hoperation, EpochJournal.closedBytes_eq]
    rfl

end Actor
namespace JournalState
variable {key : String} {state state' : JournalState Bytes}

theorem Inv.recordStep (h : state.Inv codec key) (hmoves : state.Moves codec state') :
    RecordStep codec (state.storage key) (state'.storage key) := by
  cases hmoves with
  | call hpoint => exact .same
  | @move index actor point storage hactor hmove =>
    cases hmove with
    | applies hpoint hrevision hnext =>
      by_cases hkey : actor.journal.key = key
      · subst hkey
        have hsound := h.sound actor (mem_of_getElem? hactor) rfl
        simp only [update_self]
        obtain ⟨_, habsent, hval⟩ | ⟨_, hopen, hval⟩ := hsound.applies hpoint hrevision hnext
        · rw [habsent, hval]
          exact .opens
        rw [hopen, hval]
        exact .closes
      simp only [update_of_ne (Ne.symm hkey)]
      exact .same
    | _ => exact .same

end JournalState
variable {actor : Actor Bytes}

theorem Actor.Sound.of_moves {point : Point Bytes}
    (hrec : Lifecycle codec log actor.journal.key (storage actor.journal.key))
    (h : actor.Sound codec storage) (hmove : actor.Moves codec storage point storage') :
    ({ actor with point } : Actor Bytes).Sound codec storage' := by
  cases hmove with
  | fails | crashes | rereads | conflicts => trivial
  | absent hoperation => simp only [Sound, hoperation]
  | @stored current record outcome hstored hvalid hclosed =>
    rw [hstored] at hrec
    have hval := (hrec.of_valid hvalid).1
    have hown : Recorded codec storage actor.journal.key actor.journal.objects :=
      ⟨record.state, hstored.trans (congrArg some hval)⟩
    cases outcome with
    | failed reason => trivial
    | opened disposition | closed => exact hown
  | @unclosed rounds current record hoperation hstored hvalid hopen =>
    rw [hstored] at hrec
    have hval := (hrec.of_valid hvalid).1
    rw [hopen] at hval
    simp only [hoperation]
    exact ⟨hval ▸ rfl, .opened, hstored.trans (congrArg some hval)⟩
  | applies hpoint hrevision hnext =>
    obtain ⟨_, _, hval⟩ | ⟨_, _, hval⟩ := h.applies hpoint hrevision hnext
    · exact ⟨.opened, by rw [hval, update_self]⟩
    · exact ⟨.closed, by rw [hval, update_self]⟩
  | answers hpoint =>
    simp only [Sound, hpoint] at h
    cases hoperation : actor.operation with
    | ensureOpen | markClosed =>
      simp only [success, hoperation]
      exact h

namespace JournalState
variable {key : String} {state state' : JournalState Bytes} {point : Point Bytes}

theorem mem_events {journal : EpochJournal} {outcome : Outcome}
    (h : JournalEvent.returned journal outcome ∈ events actor point) :
    journal = actor.journal ∧ point = .returned outcome := by
  unfold events at h
  split at h
  · simp at h
  · simp only [mem_singleton, JournalEvent.returned.injEq] at h
    exact ⟨h.1, by rw [h.2]⟩
  simp at h

theorem Inv.record_move (h : state.Inv codec key) {index : ℕ}
    (hactor : state.actors[index]? = some actor)
    (hmove : actor.Moves codec state.storage point storage) :
    Lifecycle codec (state.log ++ events actor point) key (storage key) := by
  cases hmove with
  | applies hpoint hrevision hnext =>
    by_cases hkey : actor.journal.key = key
    · subst hkey
      have hsound := h.sound actor (mem_of_getElem? hactor) rfl
      rw [update_self]
      obtain ⟨_, _, hval⟩ | ⟨hoperation, _, hval⟩ := hsound.applies hpoint hrevision hnext
      · rw [hval]
        exact .opened
      rw [hval]
      refine .closed ⟨actor.journal, rfl, rfl, ?_⟩
      simp [events, hoperation]
    rw [update_of_ne (Ne.symm hkey)]
    exact h.record.append
  | _ => exact h.record.append

theorem Inv.alreadyClosed_move (h : state.Inv codec key) (hkey : actor.journal.key = key)
    (hmove : actor.Moves codec state.storage (.returned (.opened .alreadyClosed)) storage) :
    MarkedClosed state.log key actor.journal.objects := by
  subst hkey
  generalize hpoint : Point.returned (.opened .alreadyClosed) = point at hmove
  cases hmove with
  | stored hstored hvalid hclosed =>
    cases hpoint
    have hrec := h.record
    rw [hstored] at hrec
    exact (hrec.of_valid hvalid).2 (hclosed rfl)
  | answers => cases hoperation : actor.operation <;> simp [Actor.success, hoperation] at hpoint
  | _ => cases hpoint

theorem Inv.of_moves (h : state.Inv codec key) (hmoves : state.Moves codec state') :
    state'.Inv codec key := by
  have hstep := h.recordStep hmoves
  cases hmoves with
  | @call actor hpoint =>
    refine ⟨h.record, ?_, h.closedBefore⟩
    intro member hmem hkey
    rcases mem_append.mp hmem with hmem | hmem
    · exact h.sound member hmem hkey
    rw [mem_singleton.mp hmem, Actor.Sound, hpoint]
    trivial
  | @move index actor point storage hactor hmove =>
    refine ⟨h.record_move hactor hmove, ?_, ?_⟩
    · intro member hmem hkey
      rcases mem_or_eq_of_mem_set hmem with hmem | rfl
      · subst hkey
        exact (h.sound member hmem rfl).of_step hstep
      subst hkey
      exact (h.sound actor (mem_of_getElem? hactor) rfl).of_moves h.record hmove
    intro before journal after hkey hlog
    obtain ⟨later, rfl, hnew⟩ | ⟨rest, hold⟩ := event_of_append hlog
    · obtain ⟨rfl, rfl⟩ := mem_events (hnew ▸ mem_append_cons_self)
      exact (h.alreadyClosed_move hkey hmove).append
    exact h.closedBefore before journal rest hkey hold

theorem inv_init (habsent : storage key = none) : (init storage).Inv codec key where
  record := by
    simp only [init, habsent]
    exact .absent
  sound := by simp [init]
  closedBefore := by simp [init]

theorem inv_of_reachable (habsent : storage key = none)
    (hreach : Reachable (step codec hexDigest) (init storage) state) : state.Inv codec key :=
  hreach.invariant (fun _ _ _ h hstep => h.of_moves (moves_of_step hstep)) (inv_init habsent)

/-! ## Calls with other objects -/

section
variable {index : ℕ} {actor : Actor Bytes} {objects : List ManifestObject}
section
variable (h : state.Inv codec actor.journal.key) (hactor : state.actors[index]? = some actor)
  (hrecd : Recorded codec state.storage actor.journal.key objects)
  (hother : actor.journal.objects ≠ objects)
include h hactor hrecd hother

theorem Inv.unsuccessful_of_other {outcome : Outcome} (hpoint : actor.point = .returned outcome) :
    ∃ reason, outcome = .failed reason := by
  have hsound := h.sound actor (mem_of_getElem? hactor) rfl
  simp only [Actor.Sound, hpoint] at hsound
  cases outcome with
  | failed reason => exact ⟨reason, rfl⟩
  | opened disposition | closed => exact absurd (hsound.unique hrecd) hother

variable {expected : Option ℕ} {rounds : ℕ}

theorem Inv.not_applies_of_other {rev : ℕ} (hpoint : actor.point = .swapping rounds expected)
    (hrevision : (state.storage actor.journal.key).map DurableValue.revision = expected)
    (hnext : nextRevision expected = .ok rev) : False := by
  have hsound := h.sound actor (mem_of_getElem? hactor) rfl
  obtain ⟨_, habsent, _⟩ | ⟨_, hopen, _⟩ := hsound.applies hpoint hrevision hnext
  · obtain ⟨epochState, hval⟩ := hrecd
    cases habsent.symm.trans hval
  exact hother (Recorded.unique ⟨.opened, hopen⟩ hrecd)

theorem Inv.storage_of_other {choice : Choice}
    (hstep : step codec hexDigest state (.move index choice) = some state') :
    state'.storage = state.storage := by
  simp only [step, hactor] at hstep
  obtain ⟨⟨point, storage⟩, hactorStep, rfl⟩ := map_eq_some_iff.mp hstep
  cases Actor.moves_of_step hactorStep with
  | applies hpoint hrevision hnext =>
    exact (h.not_applies_of_other hactor hrecd hother hpoint hrevision hnext).elim
  | _ => rfl

end
variable (codec hexDigest)

/-- The call, running alone, returns an error within the given number of
steps. -/
def FailsWithin (bound : ℕ) (state : JournalState Bytes) (index : ℕ) : Prop :=
  ∃ steps ≤ bound, ∃ state' actor reason, exec (step codec hexDigest) state
        (replicate steps (.move index .proceed)) = some state' ∧
      state'.actors[index]? = some actor ∧
      actor.point = .returned (.failed reason)

variable {codec hexDigest}

theorem failsWithin_of_returned {bound : ℕ} {reason : String}
    (hactor : state.actors[index]? = some actor)
    (hpoint : actor.point = .returned (.failed reason)) :
    FailsWithin codec hexDigest bound state index :=
  ⟨0, Nat.zero_le _, state, actor, reason, rfl, hactor, hpoint⟩

theorem FailsWithin.head {bound : ℕ}
    (hstep : step codec hexDigest state (.move index .proceed) = some state')
    (h : FailsWithin codec hexDigest bound state' index) :
    FailsWithin codec hexDigest (bound + 1) state index := by
  obtain ⟨steps, hle, final, last, reason, hexec, hlast⟩ := h
  refine ⟨steps + 1, Nat.succ_le_succ hle, final, last, reason, ?_, hlast⟩
  simp only [replicate_succ, exec, hstep, bind_some, hexec]

theorem step_proceed (hactor : state.actors[index]? = some actor)
    (hstep : actor.step codec state.storage .proceed = some (point, storage)) :
    ∃ state', step codec hexDigest state (.move index .proceed) = some state' ∧
    state'.storage = storage ∧ state'.actors[index]? = some { actor with point } := by
  obtain ⟨hlt, _⟩ := List.getElem?_eq_some_iff.mp hactor
  refine
    ⟨{ storage
       actors := state.actors.set index { actor with point }
       log := state.log ++ events actor point }, ?_, rfl, ?_⟩
  · simp [step, hactor, hstep]
  · exact getElem?_set_self hlt

variable {rounds : ℕ}
section
variable (hactor : state.actors[index]? = some actor)
  (hrecd : Recorded codec state.storage actor.journal.key objects)
  (hother : actor.journal.objects ≠ objects)
include hactor hrecd hother

theorem failsWithin_of_reading {bound : ℕ} (hpoint : actor.point = .reading rounds) :
    FailsWithin codec hexDigest (bound + 1) state index := by
  obtain ⟨epochState, hval⟩ := hrecd
  obtain ⟨reason, hreason⟩ : ∃ reason, actor.journal.decodeAndValidate codec
    (epochValue codec objects epochState).payload = .error reason := decode_mismatch hother
  have hstep : actor.step codec state.storage .proceed = some
      (.returned (.failed reason), state.storage) := by
    simp only [Actor.step, hpoint, Actor.afterRead, hval, hreason]
  obtain ⟨next, hnext, _, hlast⟩ := step_proceed hactor hstep
  exact .head hnext (failsWithin_of_returned hlast rfl)

theorem failsWithin_of_conflict {bound : ℕ}
    {cur : Option (DurableValue Bytes)} (hpoint : actor.point = .swapped rounds (.conflict cur)) :
    FailsWithin codec hexDigest (bound + 2) state index := by
  have hstep :
      actor.step codec state.storage .proceed = some (actor.nextRound rounds, state.storage) := by
    simp only [Actor.step, hpoint, Actor.afterSwap]
  obtain ⟨next, hnext, hs, hlast⟩ := step_proceed hactor hstep
  refine .head hnext ?_
  cases rounds with
  | zero => exact failsWithin_of_returned hlast rfl
  | succ rounds => exact failsWithin_of_reading hlast (hs ▸ hrecd) hother rfl

end
variable {expected : Option ℕ}
section
variable (h : state.Inv codec actor.journal.key) (hactor : state.actors[index]? = some actor)
  (hrecd : Recorded codec state.storage actor.journal.key objects)
  (hother : actor.journal.objects ≠ objects)
include h hactor hrecd hother

theorem Inv.failsWithin_of_swapping (hpoint : actor.point = .swapping rounds expected) :
    FailsWithin codec hexDigest 3 state index := by
  cases hswap : state.storage.compareExchange actor.journal.key expected (actor.payload codec) with
  | error reason =>
    have hstep : actor.step codec state.storage .proceed = some
        (.returned (.failed reason), state.storage) := by
      simp only [Actor.step, hpoint, hswap]
    obtain ⟨next, hnext, _, hlast⟩ := step_proceed hactor hstep
    exact .head hnext (failsWithin_of_returned hlast rfl)
  | ok res =>
    obtain ⟨res, storage⟩ := res
    have hstep : actor.step codec state.storage .proceed = some (.swapped rounds res, storage) := by
      simp only [Actor.step, hpoint, hswap]
    obtain ⟨next, hnext, hs, hlast⟩ := step_proceed hactor hstep
    obtain ⟨cur, rfl, rfl⟩ | ⟨rev, hrevision, hnextRevision, _⟩ :=
      DurableStorage.compareExchange_ok hswap
    · exact .head hnext (failsWithin_of_conflict hlast (hs ▸ hrecd) hother rfl)
    · exact (h.not_applies_of_other hactor hrecd hother hpoint hrevision hnextRevision).elim

theorem Inv.failsWithin_of_other (hrunning : actor.point ≠ .crashed) :
    FailsWithin codec hexDigest 3 state index := by
  cases hpoint : actor.point with
  | reading rounds => exact failsWithin_of_reading hactor hrecd hother hpoint
  | swapping rounds expected => exact h.failsWithin_of_swapping hactor hrecd hother hpoint
  | swapped rounds res =>
    cases res with
    | conflict cur => exact failsWithin_of_conflict hactor hrecd hother hpoint
    | applied value =>
      have hsound := h.sound actor (mem_of_getElem? hactor) rfl
      simp only [Actor.Sound, hpoint] at hsound
      exact absurd (hsound.unique hrecd) hother
  | returned outcome =>
    obtain ⟨reason, rfl⟩ := h.unsuccessful_of_other hactor hrecd hother hpoint
    exact failsWithin_of_returned hactor hpoint
  | crashed => exact absurd hpoint hrunning

end
end

/-! ## The journal -/

/-- The record of a manifest key moves from absent to open to closed with one
object list; a call is told that the epoch is already closed only after a
closing swap with its objects was applied; and a call with other objects never
changes the record and, unless its caller stops, returns an error. -/
theorem journal_oneWay {storage : DurableStorage Bytes} (habsent : storage key = none)
    (hreach : Reachable (step codec hexDigest) (init storage) state) :
    (∀ label state', step codec hexDigest state label = some state' →
      RecordStep codec (state.storage key) (state'.storage key)) ∧
    (∀ before (journal : EpochJournal) after, journal.key = key →
      state.log = before ++ .returned journal (.opened .alreadyClosed) :: after →
      ∃ closing : EpochJournal, closing.key = key ∧ closing.objects = journal.objects ∧
        JournalEvent.applied closing .markClosed ∈ before) ∧
    ∀ index actor objects, state.actors[index]? = some actor →
      actor.journal.key = key → Recorded codec state.storage key objects →
      actor.journal.objects ≠ objects →
      (∀ choice state', step codec hexDigest state (.move index choice) = some state' →
        state'.storage = state.storage) ∧
      (∀ outcome, actor.point = .returned outcome → ∃ reason, outcome = .failed reason) ∧
      (actor.point ≠ .crashed → FailsWithin codec hexDigest 3 state index) := by
  have hi := inv_of_reachable habsent hreach
  refine ⟨?_, ?_, ?_⟩
  · intro label state' hstep
    exact hi.recordStep (moves_of_step hstep)
  · intro before journal after hkey hlog
    exact hi.closedBefore before journal after hkey hlog
  rintro index actor objects hactor rfl hrecd hother
  refine ⟨?_, ?_, ?_⟩
  · intro choice state' hstep
    exact hi.storage_of_other hactor hrecd hother hstep
  · intro outcome hpoint
    exact hi.unsuccessful_of_other hactor hrecd hother hpoint
  intro hr
  exact hi.failsWithin_of_other hactor hrecd hother hr

def plainCodec : RecordCodec EpochRecord where
  toVec := id
  fromSlice := .ok
  fromSlice_toVec _ := rfl

/-- One sink opens and closes an epoch, a second one replays it, and a third
one presents another payload under the same object key. -/
def replayedEpoch : List JournalLabel :=
  let first : List ClosedObject :=
    [{ epochId := 0, key := "events/a.json", payload := [1], rows := 1 }]
  let drifted : List ClosedObject :=
    [{ epochId := 0, key := "events/a.json", payload := [1, 2], rows := 1 }]
  [.call 0 first .ensureOpen, .move 0 .proceed, .move 0 .proceed, .move 0 .proceed,
    .call 0 first .markClosed, .move 1 .proceed, .move 1 .proceed, .move 1 .proceed,
    .call 0 first .ensureOpen, .move 2 .proceed, .call 0 drifted .ensureOpen]

theorem journal_oneWay_replayedEpoch :
    ∃ state actor before journal,
      exec (step plainCodec fun _ => "") (init fun _ => none) replayedEpoch = some state ∧
      state.log = before ++ [.returned journal (.opened .alreadyClosed)] ∧
      (∃ closing : EpochJournal, closing.objects = journal.objects ∧
        JournalEvent.applied closing .markClosed ∈ before) ∧
      state.actors[3]? = some actor ∧
      FailsWithin plainCodec (fun _ => "") 3 state 3 := by
  obtain ⟨state, hrun⟩ := isSome_iff_exists.mp
    (rfl : (exec (step plainCodec fun _ => "") (init fun _ => none) replayedEpoch).isSome)
  have habsent : (fun _ => none : DurableStorage EpochRecord) "s3/partition-0/epoch-" = none := rfl
  obtain ⟨_, hclosed, hother⟩ := journal_oneWay habsent ⟨replayedEpoch, hrun⟩
  cases hrun
  refine ⟨_, _, [_, _, _, _], _, rfl, rfl, ?_, rfl, ?_⟩
  · obtain ⟨closing, _, ho, hmem⟩ := hclosed [_, _, _, _] _ [] rfl rfl
    exact ⟨closing, ho, hmem⟩
  refine (hother 3 _ _ rfl rfl ⟨.closed, rfl⟩ ?_).2.2 ?_
  · decide
  · simp

end JournalState
end Transferia.S3
