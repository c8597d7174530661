import Transferia.Support.Checked
import Transferia.Support.Transition

/-!
# The JSON delivery store

A call takes the lock of the in-memory state, writes its candidate on a blocking thread
and takes the candidate over when the write has committed.  A caller that is dropped
while it waits gives the lock back, and its write keeps running.  What a file holds is
what the next start reads from it.
-/

namespace Transferia.ControlPlane
open Support List

/-- A stored delivery; its other fields are one text. -/
structure DeliveryRecord where
  id : String
  recordVersion : ℕ
  contents : String

abbrev StoredState := String → Option DeliveryRecord

/-- The contents of a state file as they are written, and read at the next start.  The reader
may refuse what the writer wrote. -/
structure Codec (F : Type) where
  toVec : StoredState → F
  fromSlice : F → Option StoredState

inductive StoreError
  | notFound (id : String)
  | alreadyExists (id : String)
  | recordVersionConflict (id : String) (expected actual : ℕ)
  | invalidRecordVersion (id : String) (expected actual : ℕ)
  | internal (source : String)

inductive Change
  | insert (delivery : DeliveryRecord)
  | replace (delivery : DeliveryRecord) (expectedRecordVersion : ℕ)
  | delete (id : String) (expectedRecordVersion : ℕ)

def current (state : StoredState) (id : String) (expected : ℕ) :
    Except StoreError DeliveryRecord :=
  match state id with
  | none => .error (.notFound id)
  | some current =>
    if current.recordVersion = expected then .ok current
    else .error (.recordVersionConflict id expected current.recordVersion)

def candidate (state : StoredState) : Change → Except StoreError StoredState
  | .insert delivery =>
    if (state delivery.id).isSome then .error (.alreadyExists delivery.id)
    else if delivery.recordVersion ≠ 1 then
      .error (.invalidRecordVersion delivery.id 1 delivery.recordVersion)
    else .ok (Function.update state delivery.id (some delivery))
  | .replace delivery expected => do
    let _ ← current state delivery.id expected
    if 2 ^ 64 ≤ expected + 1 then throw (.internal "record version overflow")
    else if delivery.recordVersion ≠ expected + 1 then
      throw (.invalidRecordVersion delivery.id (expected + 1) delivery.recordVersion)
    else return Function.update state delivery.id (some delivery)
  | .delete id expected => do
    let _ ← current state id expected
    return Function.update state id none

structure PersistError where
  source : String
  committed : Bool

def applyPersistResult (candidate : StoredState) :
    Except PersistError Unit → Except StoreError StoredState
  | .ok () => .ok candidate
  | .error error => if error.committed then .ok candidate else .error (.internal error.source)

inductive WritePhase
  | writing
  | renamed
  | finished (result : Except PersistError Unit)

/-- What a blocking thread does next: it fails before the rename, renames its file over the
state file, or synchronises the directory, which may fail too. -/
inductive WriteAction
  | fail (source : String)
  | rename
  | sync (failure : Option String)

def WritePhase.next : WritePhase → WriteAction → Option WritePhase
  | .writing, .fail source => some (.finished (.error ⟨source, false⟩))
  | .writing, .rename => some .renamed
  | .renamed, .sync none => some (.finished (.ok ()))
  | .renamed, .sync (some source) => some (.finished (.error ⟨source, true⟩))
  | _, _ => none

def WriteAction.file {F : Type} (action : WriteAction) (written disk : F) : F :=
  match action with
  | .rename => written
  | _ => disk

/-- A write on a blocking thread. -/
structure BlockingWrite where
  candidate : StoredState
  phase : WritePhase

/-- The call that holds the lock and waits for a write. -/
structure Holder (C : Type) where
  caller : C
  change : Change
  write : ℕ

/-- The store with all writes that were started.  `acknowledged` records the calls that
returned success; no step reads it. -/
structure JsonDeliveryStore (C F : Type) where
  state : StoredState
  disk : F
  holder : Option (Holder C)
  writes : List BlockingWrite
  acknowledged : List (C × Change)

inductive StoreLabel (C : Type)
  | call (caller : C) (change : Change)
  | write (index : ℕ) (action : WriteAction)
  | resume
  | drop

namespace JsonDeliveryStore
variable {C F : Type}

def start (codec : Codec F) (state : StoredState) : JsonDeliveryStore C F :=
  { state, disk := codec.toVec state, holder := none, writes := [], acknowledged := [] }

def afterWrite (s : JsonDeliveryStore C F) (holder : Holder C) (candidate : StoredState)
    (result : Except PersistError Unit) : JsonDeliveryStore C F :=
  match applyPersistResult candidate result with
  | .ok state =>
    let acknowledged := s.acknowledged ++ [(holder.caller, holder.change)]
    { s with state, holder := none, acknowledged }
  | .error _ => { s with holder := none }

def step (codec : Codec F) (droppable : C → Bool) (s : JsonDeliveryStore C F) :
    StoreLabel C → Option (JsonDeliveryStore C F)
  | .call caller change =>
    match s.holder, candidate s.state change with
    | some _, _ => none
    | none, .error _ => some s
    | none, .ok candidate => some
        { s with
          writes := s.writes ++ [⟨candidate, .writing⟩]
          holder := some ⟨caller, change, s.writes.length⟩ }
  | .write index action => do
    let write ← s.writes[index]?
    let phase ← write.phase.next action
    return { s with
      writes := s.writes.set index { write with phase }
      disk := action.file (codec.toVec write.candidate) s.disk }
  | .resume => do
    let holder ← s.holder
    let write ← s.writes[holder.write]?
    match write.phase with
    | .finished result => return s.afterWrite holder write.candidate result
    | _ => none
  | .drop => do
    let holder ← s.holder
    if droppable holder.caller then return { s with holder := none } else none

def Finished (write : BlockingWrite) : Prop := ∃ result, write.phase = .finished result

/-- The memory holds exactly the acknowledged changes, and so does the state read from disk
when no call and no write is under way. -/
structure Consistent (codec : Codec F) (initial : StoredState) (s : JsonDeliveryStore C F) :
    Prop where
  memory : (s.acknowledged.map Prod.snd).foldlM candidate initial = .ok s.state
  disk : s.holder = none → (∀ write ∈ s.writes, Finished write) →
    codec.fromSlice s.disk = some s.state

/-- Every state that accepted calls lead to is read back from its file. -/
def Readable (C : Type) (codec : Codec F) (initial : StoredState) : Prop :=
  ∀ (calls : List (C × Change)) state,
    (calls.map Prod.snd).foldlM candidate initial = .ok state →
    codec.fromSlice (codec.toVec state) = some state

/-- What the file holds while a write is in this phase and no other replaces it. -/
def onDisk (state : StoredState) : BlockingWrite → StoredState
  | ⟨_, .writing⟩ | ⟨_, .finished (.error ⟨_, false⟩)⟩ => state
  | ⟨candidate, _⟩ => candidate

variable {codec : Codec F} {droppable : C → Bool} {initial : StoredState}
  {s t : JsonDeliveryStore C F}
  {write : BlockingWrite} {holder : Holder C}

/-- The write of the call that holds the lock is the only one that may be unfinished. -/
structure Locked (codec : Codec F) (initial : StoredState) (s : JsonDeliveryStore C F) :
    Prop where
  memory : (s.acknowledged.map Prod.snd).foldlM candidate initial = .ok s.state
  others : ∀ (index : ℕ) write, s.writes[index]? = some write → Finished write ∨
    ∃ holder, s.holder = some holder ∧ holder.write = index
  free : s.holder = none → s.disk = codec.toVec s.state
  held : ∀ holder, s.holder = some holder → ∃ write, s.writes[holder.write]? = some write ∧
    candidate s.state holder.change = .ok write.candidate ∧
    s.disk = codec.toVec (onDisk s.state write)

theorem next_ok {action : WriteAction} {phase : WritePhase}
    (h : write.phase.next action = some phase) :
    ¬Finished write ∧
    ∀ state, codec.toVec (onDisk state { write with phase }) =
      action.file (codec.toVec write.candidate) (codec.toVec (onDisk state write)) := by
  obtain ⟨candidate, phase⟩ := write
  unfold WritePhase.next at h
  split at h <;> cases h <;> simp_all [Finished, onDisk, WriteAction.file]

theorem Locked.advance (h : Locked codec initial s) {index : ℕ} {action : WriteAction}
    {phase : WritePhase} (hwrite : s.writes[index]? = some write)
    (hnext : write.phase.next action = some phase) :
    Locked codec initial
      { s with
        writes := s.writes.set index { write with phase }
        disk := action.file (codec.toVec write.candidate) s.disk } := by
  obtain ⟨hopen, hfile⟩ := next_ok hnext
  obtain ⟨holder, hheld, rfl⟩ := (h.others index write hwrite).resolve_left hopen
  refine ⟨h.memory, ?_, ?_, ?_⟩
  · intro other found hfound
    by_cases hsame : holder.write = other
    · exact .inr ⟨holder, hheld, hsame⟩
    · exact h.others other found (by rwa [getElem?_set_ne hsame] at hfound)
  · intro hfree
    cases hfree.symm.trans hheld
  intro other hother
  cases hheld.symm.trans hother
  obtain ⟨found, hfound, hcand, hdisk⟩ := h.held holder hheld
  cases hwrite.symm.trans hfound
  have hlt := (List.getElem?_eq_some_iff.mp hwrite).1
  exact ⟨_, getElem?_set_self hlt, hcand, by rw [hfile, hdisk]⟩

theorem Locked.call (h : Locked codec initial s) (hfree : s.holder = none) {caller : C}
    {change : Change} {written : StoredState} (hcand : candidate s.state change = .ok written) :
    Locked codec initial
      { s with
        writes := s.writes ++ [⟨written, .writing⟩]
        holder := some ⟨caller, change, s.writes.length⟩ } := by
  refine ⟨h.memory, ?_, ?_, ?_⟩
  · intro index write hwrite
    by_cases hlt : index < s.writes.length
    · rw [getElem?_append_left hlt] at hwrite
      apply (h.others index write hwrite).imp_right
      rintro ⟨holder, hheld, _⟩
      cases hfree.symm.trans hheld
    have hle := (List.getElem?_eq_some_iff.mp hwrite).1
    rw [length_append, length_singleton] at hle
    exact .inr ⟨_, rfl, by simp only; omega⟩
  · rintro ⟨⟩
  rintro _ ⟨⟩
  exact ⟨_, getElem?_concat_length, hcand, h.free hfree⟩

theorem Locked.resume (h : Locked codec initial s) (hheld : s.holder = some holder)
    {result : Except PersistError Unit} (hwrite : s.writes[holder.write]? = some write)
    (hphase : write.phase = .finished result) :
    Locked codec initial (s.afterWrite holder write.candidate result) := by
  obtain ⟨found, hfound, hcand, hdisk⟩ := h.held holder hheld
  cases hwrite.symm.trans hfound
  have hothers : ∀ (index : ℕ) write, s.writes[index]? = some write →
      Finished write ∨ ∃ holder : Holder C, none = some holder ∧ holder.write = index := by
    intro index other hother
    rcases h.others index other hother with hdone | ⟨owner, howner, rfl⟩
    · exact .inl hdone
    cases hheld.symm.trans howner
    cases hwrite.symm.trans hother
    exact .inl ⟨result, hphase⟩
  have hmemory : ((s.acknowledged ++ [(holder.caller, holder.change)]).map Prod.snd).foldlM
      candidate initial = .ok write.candidate := by
    rw [map_append, foldlM_append, h.memory]
    change (candidate s.state holder.change >>= pure) = _
    rw [hcand]
    rfl
  obtain ⟨written, phase⟩ := write
  cases hphase
  rcases result with ⟨source, _ | _⟩ | ⟨⟩
  · exact ⟨h.memory, hothers, fun _ => hdisk, by simp [afterWrite, applyPersistResult]⟩
  all_goals exact ⟨hmemory, hothers, fun _ => hdisk, by simp [afterWrite, applyPersistResult]⟩

theorem locked_step {label : StoreLabel C}
    (hnone : ∀ caller, droppable caller = false)
    (h : Locked codec initial s)
    (hstep : step codec droppable s label = some t) :
    Locked codec initial t := by
  cases label with
  | call caller change =>
    simp only [step] at hstep
    split at hstep <;> cases hstep
    · exact h
    next hfree hcand => exact h.call hfree hcand
  | write index action =>
    obtain ⟨write, hwrite, hstep⟩ := Option.bind_eq_some_iff.mp hstep
    obtain ⟨phase, hnext, hstep⟩ := Option.bind_eq_some_iff.mp hstep
    cases hstep
    exact h.advance hwrite hnext
  | resume =>
    obtain ⟨holder, hheld, hstep⟩ := Option.bind_eq_some_iff.mp hstep
    obtain ⟨write, hwrite, hstep⟩ := Option.bind_eq_some_iff.mp hstep
    split at hstep <;> cases hstep
    next result hphase _ => exact h.resume hheld hwrite hphase
  | drop =>
    obtain ⟨holder, -, hstep⟩ := Option.bind_eq_some_iff.mp hstep
    simp [hnone] at hstep

/-- A change that is always accepted: it inserts a delivery, or deletes it. -/
def toggle (state : StoredState) : Change :=
  (state "a").elim (.insert ⟨"a", 1, ""⟩) fun current => .delete "a" current.recordVersion

theorem candidate_toggle (state : StoredState) :
    ∃ written, candidate state (toggle state) = .ok written ∧ written "a" ≠ state "a" := by
  cases hstored : state "a" with
  | none =>
    refine ⟨Function.update state "a" (some ⟨"a", 1, ""⟩), ?_, by simp⟩
    simp [toggle, candidate, hstored]
  | some found =>
    refine ⟨Function.update state "a" none, ?_, by simp⟩
    simp [toggle, candidate, current, hstored]

theorem reachable_accepted (hfree : s.holder = none) {caller : C} {change : Change}
    {written : StoredState} (hcand : candidate s.state change = .ok written) :
    Reachable (step codec droppable) s
      { state := written, disk := codec.toVec written, holder := none
        writes := s.writes ++ [⟨written, .finished (.ok ())⟩]
        acknowledged := s.acknowledged ++ [(caller, change)] } := by
  refine ⟨[.call caller change, .write s.writes.length .rename,
    .write s.writes.length (.sync none), .resume], ?_⟩
  simp [exec, step, hfree, hcand, WritePhase.next, WriteAction.file, afterWrite,
    applyPersistResult]

theorem reachable_calls (calls : List (C × Change)) {state : StoredState}
    (hfree : s.holder = none) (hdone : ∀ write ∈ s.writes, Finished write)
    (hdisk : s.disk = codec.toVec s.state)
    (hcalls : (calls.map Prod.snd).foldlM candidate s.state = .ok state) :
    ∃ t, Reachable (step codec droppable) s t ∧ t.holder = none ∧
      (∀ write ∈ t.writes, Finished write) ∧ t.disk = codec.toVec state ∧ t.state = state := by
  induction calls generalizing s with
  | nil =>
    cases hcalls
    exact ⟨s, ⟨[], rfl⟩, hfree, hdone, hdisk, rfl⟩
  | cons call rest ih =>
    obtain ⟨written, hcand, hcalls⟩ := of_bind hcalls
    have hfirst := @reachable_accepted C F codec droppable s hfree call.1 call.2 written hcand
    obtain ⟨t, hrest, htail⟩ := @ih
      { state := written, disk := codec.toVec written, holder := none
        writes := s.writes ++ [⟨written, .finished (.ok ())⟩]
        acknowledged := s.acknowledged ++ [call] }
      rfl (by simpa [or_imp, forall_and, Finished] using hdone) rfl hcalls
    exact ⟨t, hfirst.trans hrest, htail⟩

/-- In every run the acknowledged changes are in memory and, when nothing is under way, on
disk, exactly if no caller may be dropped and the file of every state can be read. -/
theorem acknowledged_on_disk_iff (codec : Codec F) (droppable : C → Bool)
    (initial : StoredState) :
    (∀ s, Reachable (step codec droppable) (start codec initial) s →
      Consistent codec initial s) ↔
    (∀ caller, droppable caller = false) ∧ Readable C codec initial := by
  constructor
  · intro h
    have hreadable : Readable C codec initial := by
      intro calls state hcalls
      obtain ⟨t, hreach, hfree, hdone, hdisk, rfl⟩ := reachable_calls
        (s := start codec initial) calls rfl (by simp [start]) rfl hcalls
      rw [← hdisk]
      exact (h t hreach).disk hfree hdone
    refine ⟨fun caller => ?_, hreadable⟩
    by_contra hkept
    have hdropped : droppable caller := by simpa using hkept
    obtain ⟨written, hcand, hne⟩ := candidate_toggle initial
    have hrun : exec (step codec droppable) (start codec initial)
        [.call caller (toggle initial), .drop, .write 0 .rename, .write 0 (.sync none)] = some
          { state := initial, disk := codec.toVec written, holder := none
            writes := [⟨written, .finished (.ok ())⟩], acknowledged := [] } := by
      simp [exec, step, start, hcand, hdropped, WritePhase.next, WriteAction.file]
    have hfile := (h _ ⟨_, hrun⟩).disk rfl (by simp [Finished])
    have hwritten := hreadable [(caller, toggle initial)] written (by simp [hcand])
    exact hne (congrFun (Option.some.inj (hwritten.symm.trans hfile)) "a")
  rintro ⟨hnone, hreadable⟩ s hreach
  have hlocked : Locked codec initial s := hreach.invariant (fun _ _ _ => locked_step hnone)
    ⟨rfl, by simp [start], fun _ => rfl, by simp [start]⟩
  refine ⟨hlocked.memory, fun hfree _ => ?_⟩
  rw [hlocked.free hfree]
  exact hreadable _ _ hlocked.memory

/-- The write of a dropped caller replaces the file after a later insert was acknowledged. -/
theorem dropped_write_undoes_insert :
    ∃ s : JsonDeliveryStore Bool StoredState,
      exec (step ⟨id, some⟩ id) (start ⟨id, some⟩ fun _ => none)
        [.call true (.insert ⟨"a", 1, ""⟩), .drop, .call false (.insert ⟨"b", 1, ""⟩),
          .write 1 .rename, .write 1 (.sync none), .resume,
          .write 0 .rename, .write 0 (.sync none)] = some s ∧
      s.holder = none ∧
      (∀ write ∈ s.writes, Finished write) ∧
      s.acknowledged = [(false, .insert ⟨"b", 1, ""⟩)] ∧
      s.disk "b" = none := by
  refine ⟨_, rfl, rfl, ?_, rfl, rfl⟩
  rintro write (_ | ⟨_, _ | ⟨_, ⟨⟩⟩⟩)
  all_goals exact ⟨_, rfl⟩

end JsonDeliveryStore
end Transferia.ControlPlane
