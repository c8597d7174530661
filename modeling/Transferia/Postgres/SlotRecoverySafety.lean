import Transferia.Postgres.SlotRecovery

/-!
# Slot recovery skips nothing

The record and every write in flight name acknowledged positions, and the calls
of the connector move the slot no further than that.  A preparation that
succeeds leaves the slot, the record and the returned LSN at one position.
-/

namespace Transferia.Postgres
open List Option Function Registry Support Support.Action RecoveryRun
variable {Table : Type}

/-- Positions are acknowledged; the slot may also be where somebody else has put
it. -/
structure Safe (acknowledged foreign : List ℕ) (world : RecoveryWorld Table) : Prop where
  stored : ∀ key value, world.storage key = some value → value.payload.committedLsn ∈ acknowledged
  late : ∀ write ∈ world.late, write.2.committedLsn ∈ acknowledged
  slot : ∀ row, world.slot = some row → row.lsn ∈ foreign ∨ ∃ lsn ∈ acknowledged, row.lsn ≤ lsn

def SlotAt (lsn : ℕ) (world : RecoveryWorld Table) : Prop :=
  ∃ row, world.slot = some row ∧ row.lsn = lsn

def RecordedAt (key : String) (lsn : ℕ) (world : RecoveryWorld Table) : Prop :=
  ∃ value, world.storage key = some value ∧ value.payload.committedLsn = lsn

def Timeless (P : RecoveryWorld Table → Prop) : Prop :=
  ∀ world answers, P world → P { world with answers }

theorem ensureSafe_eq_ok {cond : Bool} {text : String} : ensureSafe cond text = .ok () ↔ cond := by
  cases cond <;> simp [ensureSafe]

theorem requireSafe_eq_ok {α : Type} {text : String} {found : Option α} {value : α} :
    requireSafe text found = .ok value ↔ found = some value := by
  cases found <;> simp [requireSafe]

section
variable {P E : RecoveryWorld Table → Prop}

theorem answered_meets (hP : Timeless P) :
    Meets P (answered : Recovery Table Unit) (fun _ => P) P := by
  refine .get_bind fun world hworld => ?_
  split
  · exact .throw fun _ heq => heq ▸ hworld
  intro s hs
  constructor
  · rintro value t ⟨⟩
    exact hP world _ hworld
  rintro error t ⟨⟩

theorem answered_from (hP : Timeless P) {world : RecoveryWorld Table} (hworld : P world)
    (hE : ∀ t, P t → E t) : Meets (· = world) (answered : Recovery Table Unit) (fun _ => P) E := by
  rintro s rfl
  obtain ⟨hok, herr⟩ := answered_meets hP s hworld
  exact ⟨hok, fun error t h => hE t (herr error t h)⟩

theorem readState_meets (hP : Timeless P) (key : String) :
    Meets P (readState key) (fun value world => P world ∧ world.storage key = value) P := by
  refine .get_bind fun world hworld => ?_
  have htimeless : Timeless fun t => P t ∧ t.storage key = world.storage key :=
    fun t answers ht => ⟨hP t answers ht.1, ht.2⟩
  exact .bind (answered_from htimeless ⟨hworld, rfl⟩ fun _ ht => ht.1) fun _ => .pure fun _ ht => ht

theorem existingSlot_meets (hP : Timeless P) (slot : String) (src : PostgresSourceIdentity) :
    Meets P (existingSlot slot src) (fun existing world => P world ∧
    existing.map ExistingSlot.committedLsn = world.slot.map SlotRow.lsn) P := by
  refine .get_bind fun world hworld => ?_
  have htimeless :
    Timeless fun t => P t ∧ t.slot = world.slot := fun t answers ht => ⟨hP t answers ht.1, ht.2⟩
  refine .bind (answered_from htimeless ⟨hworld, rfl⟩ fun _ ht => ht.1) fun _ => ?_
  split
  next hnone =>
    refine .pure fun t ht => ⟨ht.1, ?_⟩
    rw [ht.2, hnone]
    rfl
  rename_i row hrow
  refine .bind (Q := fun _ t => P t ∧ t.slot = world.slot)
    (.lift (fun _ _ ht _ => ht) fun _ ht => ht.1) fun _ => ?_
  refine .pure fun t ht => ⟨ht.1, ?_⟩
  rw [ht.2, hrow]
  rfl

end

/-! ## Moving the slot -/

section
variable {acknowledged foreign : List ℕ} {storage : DurableStorage (ReplicationOffsetState Table)}
  {answers : ServerAnswers}

/-- A preparation has not written the record yet. -/
structure Unwritten (acknowledged foreign : List ℕ) (storage : DurableStorage
    (ReplicationOffsetState Table)) (world : RecoveryWorld Table) : Prop where
  safe : Safe acknowledged foreign world
  storage : world.storage = storage

theorem timeless_unwritten : Timeless (Unwritten acknowledged foreign storage) :=
  fun _ _ h => ⟨⟨h.safe.stored, h.safe.late, h.safe.slot⟩, h.storage⟩

theorem timeless_unwritten_slotAt (lsn : ℕ) :
    Timeless fun world => Unwritten acknowledged foreign storage world ∧ SlotAt lsn world :=
  fun world answers h => ⟨timeless_unwritten world answers h.1, h.2⟩

theorem advanceSlot_meets {lsn : ℕ} (hlsn : lsn ∈ acknowledged) (answers : ServerAnswers)
    (slot : String) :
    Meets (Unwritten acknowledged foreign storage) (advanceSlot answers slot lsn)
      (fun _ world => Unwritten acknowledged foreign storage world ∧ SlotAt lsn world)
      (Unwritten acknowledged foreign storage) := by
  refine .get_bind fun world hworld => ?_
  split
  · exact .throw fun _ heq => heq ▸ hworld
  rename_i row hrow
  split
  · exact .throw fun _ heq => heq ▸ hworld
  refine .set_bind fun _ _ => ?_
  have hmoved : Unwritten acknowledged foreign storage
      { world with
        slot := some { row with confirmedFlushLsn := some (min lsn answers.insertLsn) } } := by
    refine ⟨⟨hworld.safe.stored, hworld.safe.late, fun other hother => ?_⟩, hworld.storage⟩
    cases hother
    exact .inr ⟨lsn, hlsn, Nat.min_le_left ..⟩
  have hat : SlotAt (min lsn answers.insertLsn)
      { world with
        slot := some { row with confirmedFlushLsn := some (min lsn answers.insertLsn) } } :=
    ⟨_, rfl, rfl⟩
  refine .bind
    (answered_from (timeless_unwritten_slotAt _) ⟨hmoved, hat⟩ fun _ ht => ht.1) fun _ => ?_
  refine .lift (fun t _ ht hexact => ⟨ht.1, ?_⟩) fun t ht => ht.1
  have hreached := of_decide_eq_true (ensureSafe_eq_ok.mp hexact)
  exact hreached ▸ ht.2

theorem recreateSlot_meets (hcreated : ∀ created ∈ answers.created, created ∈ foreign)
    (ident : ReplicationIdentity Table) :
    Meets (Unwritten acknowledged foreign storage) (recreateSlot answers ident)
      (fun created world => Unwritten acknowledged foreign storage world ∧ SlotAt created world)
      (Unwritten acknowledged foreign storage) := by
  refine .get_bind fun world hworld => ?_
  split
  next created hslot hanswer =>
    refine .set_bind fun _ _ => ?_
    refine .bind (answered_from (timeless_unwritten_slotAt created)
      ⟨⟨⟨hworld.safe.stored, hworld.safe.late, fun row hrow => ?_⟩, hworld.storage⟩, _, rfl, rfl⟩
      fun _ ht => ht.1) fun _ => .pure fun _ ht => ht
    cases hrow
    exact .inl (hcreated created hanswer)
  · exact .throw fun _ heq => heq ▸ hworld

theorem verifySlotExact_meets (ident : ReplicationIdentity Table) (lsn : ℕ) :
    Meets (Unwritten acknowledged foreign storage) (verifySlotExact ident lsn)
      (fun _ world => Unwritten acknowledged foreign storage world ∧ SlotAt lsn world)
      (Unwritten acknowledged foreign storage) := by
  refine .bind (existingSlot_meets timeless_unwritten _ _) fun existing => ?_
  refine .bind (Q := fun actual world => Unwritten acknowledged foreign storage world ∧
    SlotAt actual.committedLsn world) (.lift (fun world actual hworld hactual => ⟨hworld.1, ?_⟩)
    fun _ hworld => hworld.1) fun actual => ?_
  · obtain rfl := requireSafe_eq_ok.mp hactual
    obtain ⟨row, hrow, hlsn⟩ := map_eq_some_iff.mp hworld.2.symm
    exact ⟨row, hrow, hlsn⟩
  refine .lift (fun world _ hworld hexact => ⟨hworld.1, ?_⟩) fun _ hworld => hworld.1
  obtain ⟨-, hlsn⟩ := Bool.and_eq_true_iff.mp (ensureSafe_eq_ok.mp hexact)
  exact of_decide_eq_true hlsn ▸ hworld.2

/-! ## Recovering -/

variable {requestedLsn : Option ℕ} (hreqd : ∀ lsn ∈ requestedLsn, lsn ∈ acknowledged)
include hreqd in
theorem recoverExisting_meets (answers : ServerAnswers) (ident : ReplicationIdentity Table)
    (old : ExistingSlot) : Meets (fun world => Unwritten acknowledged foreign storage world ∧
    SlotAt old.committedLsn world) (recoverExisting answers ident requestedLsn old)
    (fun lsn world => requestedLsn = some lsn ∧ Unwritten acknowledged foreign storage world ∧
    SlotAt lsn world) (Unwritten acknowledged foreign storage) := by
  have hkeep : ∀ world, Unwritten acknowledged foreign storage world ∧
    SlotAt old.committedLsn world → Unwritten acknowledged foreign storage world := fun _ h => h.1
  refine .bind (.lift (fun _ _ h _ => h) hkeep) fun _ => ?_
  refine .bind (Q := fun lsn world => requestedLsn = some lsn ∧
    Unwritten acknowledged foreign storage world ∧ SlotAt old.committedLsn world)
    (.lift (fun _ _ h hlsn => ⟨requireSafe_eq_ok.mp hlsn, h⟩) hkeep) fun lsn => ?_
  refine .bind (Q := fun _ world => requestedLsn = some lsn ∧ old.committedLsn ≤ lsn ∧
    Unwritten acknowledged foreign storage world ∧ SlotAt old.committedLsn world) (.lift (fun _ _
    h hle => ⟨h.1, of_decide_eq_true (ensureSafe_eq_ok.mp hle), h.2⟩) fun _ h => h.2.1) fun _ => ?_
  split
  · intro world hworld
    obtain ⟨hsome, -, hu, -⟩ := hworld
    exact Meets.bind (advanceSlot_meets (hreqd lsn hsome) answers ident.slot)
      (fun _ => Meets.pure fun _ h => ⟨hsome, h⟩) world hu
  refine .pure fun world hworld => ?_
  obtain ⟨hsome, hle, hu, hat⟩ := hworld
  have hsame : old.committedLsn = lsn := by omega
  exact ⟨hsome, hu, hsame ▸ hat⟩

include hreqd in
theorem recoverMissing_meets (hcreated : ∀ created ∈ answers.created, created ∈ foreign)
    (ident : ReplicationIdentity Table) :
    Meets (Unwritten acknowledged foreign storage) (recoverMissing answers ident requestedLsn)
      (fun lsn world =>
          requestedLsn = some lsn ∧ Unwritten acknowledged foreign storage world ∧ SlotAt lsn world)
      (Unwritten acknowledged foreign storage) := by
  refine .bind
    (Q := fun lsn world => requestedLsn = some lsn ∧ Unwritten acknowledged foreign storage world)
    (.lift (fun _ _ h hlsn => ⟨requireSafe_eq_ok.mp hlsn, h⟩) fun _ h => h) fun lsn => ?_
  intro world hworld
  obtain ⟨hsome, hu⟩ := hworld
  have hverify : Meets (Unwritten acknowledged foreign storage)
    (verifySlotExact ident lsn >>= fun _ => pure lsn) (fun lsn world => requestedLsn = some lsn ∧
    Unwritten acknowledged foreign storage world ∧ SlotAt lsn world) (Unwritten acknowledged
    foreign storage) := .bind (verifySlotExact_meets ident lsn) fun _ => .pure fun _ h => ⟨hsome, h⟩
  refine Meets.bind (answered_meets timeless_unwritten) (fun _ => ?_) world hu
  refine Meets.bind (Meets.lift (fun _ _ h _ => h) fun _ h => h) fun _ => ?_
  refine Meets.bind (recreateSlot_meets hcreated ident) fun created => ?_
  refine .bind (Q := fun _ => Unwritten acknowledged foreign storage)
    (.lift (fun _ _ h _ => h.1) fun _ h => h.1) fun plan => ?_
  cases plan with
  | verifyExact => exact hverify
  | catchUpThenVerifyExact =>
    refine .bind (advanceSlot_meets (hreqd lsn hsome) answers ident.slot) fun _ => ?_
    exact hverify.strengthen fun _ h => h.1

include hreqd in
theorem recover_meets (hcreated : ∀ created ∈ answers.created, created ∈ foreign)
    (ident : ReplicationIdentity Table) :
    Meets (Unwritten acknowledged foreign storage) (recover answers ident requestedLsn)
      (fun lsn world =>
          requestedLsn = some lsn ∧ Unwritten acknowledged foreign storage world ∧ SlotAt lsn world)
      (Unwritten acknowledged foreign storage) := by
  refine .bind (existingSlot_meets timeless_unwritten _ _) fun existing => ?_
  cases existing with
  | none => exact (recoverMissing_meets hreqd hcreated ident).strengthen fun _ h => h.1
  | some existing =>
    refine (recoverExisting_meets hreqd answers ident existing).strengthen fun world h => ⟨h.1, ?_⟩
    obtain ⟨row, hrow, hlsn⟩ := map_eq_some_iff.mp h.2.symm
    exact ⟨row, hrow, hlsn⟩

end

/-! ## Writing the record -/

section
variable {acknowledged foreign : List ℕ} {preparation : Preparation Table}

theorem timeless_safe (P : Option SlotRow → Prop) :
    Timeless fun world : RecoveryWorld Table => Safe acknowledged foreign world ∧ P world.slot :=
  fun _ _ h => ⟨⟨h.1.stored, h.1.late, h.1.slot⟩, h.2⟩

theorem store_meets {lsn : ℕ} (hlsn : lsn ∈ acknowledged) (answers : ServerAnswers)
    (trk : ReplicationSlotTracker Table) (P : Option SlotRow → Prop) :
    Meets (fun world => Safe acknowledged foreign world ∧
      P world.slot) (store answers trk lsn) (fun trk' world => trk'.identity = trk.identity ∧
      (Safe acknowledged foreign world ∧ P world.slot) ∧
      RecordedAt (offsetStateKey trk.identity.slot) lsn world) (Safe acknowledged foreign) := by
  refine .get_bind fun world hworld => ?_
  dsimp only
  split
  · refine .set_bind fun _ _ => .throw fun _ heq => ?_
    subst heq
    refine ⟨hworld.1.stored, fun write hmem => ?_, hworld.1.slot⟩
    rcases mem_append.mp hmem with hold | hnew
    · exact hworld.1.late write hold
    cases mem_singleton.mp hnew
    exact hlsn
  split
  · exact .throw fun _ heq => heq ▸ hworld.1
  · exact .bind
      (answered_from (timeless_safe P) hworld fun _ h => h.1) fun _ => .throw fun _ h => h.1
  rename_i value storage hw
  have hstore := DurableStorage.compareExchange_stored
    (P := fun state => state.committedLsn ∈ acknowledged) hw hlsn hworld.1.stored
  rcases DurableStorage.compareExchange_ok hw with
    ⟨current, hc, -⟩ | ⟨revision, -, -, ha, rfl⟩
  · cases hc
  cases ha
  refine .set_bind fun _ _ => ?_
  have htimeless :
    Timeless fun t : RecoveryWorld Table => (Safe acknowledged foreign t ∧ P t.slot) ∧ RecordedAt
    (offsetStateKey trk.identity.slot) lsn t := fun t rem ht => ⟨timeless_safe P t rem ht.1, ht.2⟩
  exact .bind (answered_from htimeless ⟨⟨⟨hstore, hworld.1.late, hworld.1.slot⟩, hworld.2⟩,
    _, update_self .., rfl⟩ fun _ h => h.1.1) fun _ => .pure fun _ h => ⟨rfl, h⟩

/-! ## Preparing -/

theorem identity_slot {deliveryId : String} {ident : ReplicationIdentity Table}
    (h : preparation.identity deliveryId = .ok ident) : ident.slot = deliveryId := by
  replace h := after_check h
  obtain ⟨slot, hslot, h⟩ := of_bind h
  have hsame : slot = deliveryId := by
    unfold replicationSlot at hslot
    split at hslot
    · cases hslot
      rfl
    · cases hslot
  split at h
  · cases h
  cases h
  exact hsame

/-- What a successful preparation leaves. -/
structure Prepared (acknowledged foreign : List ℕ) (deliveryId : String)
    (exactStartLsn : Option ℕ) (lsn : ℕ) (world : RecoveryWorld Table) : Prop where
  safe : Safe acknowledged foreign world
  acknowledged : lsn ∈ acknowledged
  slot : SlotAt lsn world
  recorded : RecordedAt (offsetStateKey deliveryId) lsn world
  start : ∀ start ∈ exactStartLsn, start ≤ lsn

theorem checkStart_ok {persistedLsn exactStartLsn : Option ℕ}
    (h : checkStart persistedLsn exactStartLsn = .ok ()) {lsn : ℕ}
    (hlsn : persistedLsn.or exactStartLsn = some lsn) : ∀ start ∈ exactStartLsn, start ≤ lsn := by
  rintro start rfl
  cases persistedLsn with
  | none =>
    cases hlsn
    exact Nat.le_refl _
  | some persisted =>
    cases hlsn
    exact of_decide_eq_true (ensureSafe_eq_ok.mp h)

variable [DecidableEq Table]

theorem decodePersisted_ok {ident : ReplicationIdentity Table}
    {persisted : Option (DurableValue (ReplicationOffsetState Table))} {lsn : Option ℕ}
    (h : decodePersisted ident persisted = .ok lsn) :
    lsn = persisted.map fun value => value.payload.committedLsn := by
  cases persisted with
  | none =>
    cases h
    rfl
  | some value =>
    obtain ⟨found, hget, h⟩ := of_bind h
    cases h
    iterate 2 replace hget := after_check hget
    cases hget
    rfl

theorem prepare_meets (dlvId : String) (prep : Preparation Table) (answers : ServerAnswers)
    (hstart : ∀ start ∈ prep.exactStartLsn, start ∈ acknowledged)
    (hcreated : ∀ created ∈ answers.created, created ∈ foreign) :
    Meets (Safe acknowledged foreign) (prepare dlvId prep answers)
      (fun prepared world =>
          Prepared acknowledged foreign dlvId prep.exactStartLsn prepared.2 world)
      (Safe acknowledged foreign) := by
  refine .bind (Q := fun ident world => ident.slot = dlvId ∧ Safe acknowledged foreign world)
    (.lift (fun _ _ h hident => ⟨identity_slot hident, h⟩) fun _ h => h)
    fun ident => .of_and fun hslot => ?_
  refine .bind (readState_meets (fun _ _ h => { h with }) _) fun persisted => ?_
  intro world hworld
  obtain ⟨hsafe, hp⟩ := hworld
  -- From here on the storage is the one that was read until the record is
  -- written.
  refine (?_ : Meets (Unwritten acknowledged foreign world.storage) _ _ _) world ⟨hsafe, rfl⟩
  refine .bind (Q := fun lsn t => lsn = persisted.map (·.payload.committedLsn) ∧ Unwritten
    acknowledged foreign world.storage t) (.lift (fun _ _ h hlsn => ⟨decodePersisted_ok hlsn, h⟩)
    fun _ h => h.safe) fun persistedLsn => .of_and fun hdec => ?_
  refine .bind (Q := fun _ t => checkStart persistedLsn prep.exactStartLsn = .ok () ∧
    Unwritten acknowledged foreign world.storage t)
    (.lift (fun _ _ h hcheck => ⟨hcheck, h⟩) fun _ h => h.safe) fun _ => .of_and fun hcheck => ?_
  have hreqd : ∀ lsn ∈ persistedLsn.or prep.exactStartLsn, lsn ∈ acknowledged := by
    intro lsn hlsn
    rw [hdec] at hlsn
    cases persisted with
    | none => exact hstart lsn hlsn
    | some value =>
      cases hlsn
      exact hsafe.stored _ value hp
  refine .bind
    ((recover_meets hreqd hcreated ident).weaken fun _ h => h.safe) fun lsn => .of_and fun hlsn =>
        ?_
  have hprep : ∀ t : RecoveryWorld Table, (Safe acknowledged foreign t ∧ SlotAt lsn t) ∧ RecordedAt
    (offsetStateKey dlvId) lsn t → Prepared acknowledged foreign dlvId prep.exactStartLsn lsn t :=
    fun t h => ⟨h.1.1, hreqd lsn hlsn, h.1.2, h.2, checkStart_ok hcheck hlsn⟩
  refine .bind (Q := fun _ t => Prepared acknowledged foreign dlvId prep.exactStartLsn lsn t) ?_
    fun _ => .pure fun _ h => h
  unfold storeNew
  split
  next hsame =>
    refine .pure fun t ht => hprep t ⟨⟨ht.1.safe, ht.2⟩, ?_⟩
    rw [hdec] at hsame
    obtain ⟨value, hval, hc⟩ := map_eq_some_iff.mp hsame
    refine ⟨value, ?_, hc⟩
    rw [ht.1.storage, ← hslot, hp, hval]
  · refine ((store_meets (hreqd lsn hlsn) answers _ fun slot => ∃ row, slot = some row ∧ row.lsn =
      lsn).strengthen fun t ht => ⟨ht.1.safe, ht.2⟩).imp fun tracker t ht => hprep t ⟨ht.2.1, ?_⟩
    rw [← hslot]
    exact ht.2.2

def requestedFrom (deliveryId : String) (preparation : Preparation Table)
    (world : RecoveryWorld Table) : Option ℕ :=
  ((world.storage (offsetStateKey deliveryId)).map fun value =>
    value.payload.committedLsn).or preparation.exactStartLsn

theorem prepare_refuses (dlvId : String) (prep : Preparation Table) (answers : ServerAnswers)
    (world : RecoveryWorld Table) (row : SlotRow) (hrow : world.slot = some row)
    (hahead : ∀ lsn ∈ requestedFrom dlvId prep world, lsn < row.lsn) :
    Meets (fun t => t.storage = world.storage ∧ t.slot = world.slot ∧ t.late = world.late)
      (prepare dlvId prep answers) (fun _ _ => False)
      (fun t => t.storage = world.storage ∧ t.slot = world.slot ∧ t.late = world.late) := by
  have htimeless : Timeless fun t : RecoveryWorld Table => t.storage = world.storage ∧
    t.slot = world.slot ∧ t.late = world.late := fun _ _ h => h
  refine .bind (.lift (fun _ _ h hident => ⟨identity_slot hident, h⟩) fun _ h => h)
    fun ident => .of_and fun hslot => ?_
  refine .bind (readState_meets htimeless _) fun persisted => ?_
  refine .bind
    (Q := fun lsn t => lsn = (world.storage (offsetStateKey dlvId)).map (·.payload.committedLsn) ∧
    t.storage = world.storage ∧ t.slot = world.slot ∧ t.late = world.late) (.lift
    (fun t lsn h hlsn => ⟨?_, h.1⟩) fun _ h => h.1) fun persistedLsn => .of_and fun hp => ?_
  · rw [decodePersisted_ok hlsn, ← h.2, h.1.1, hslot]
  refine .bind (.lift (fun _ _ h _ => h) fun _ h => h) fun _ => ?_
  refine .bind (Q := fun _ _ => False) ?_ fun _ _ h => h.elim
  refine .bind (existingSlot_meets htimeless _ _) fun existing => ?_
  cases existing with
  | none =>
    intro t ht
    have hnone := ht.2
    rw [ht.1.2.1, hrow] at hnone
    cases hnone
  | some existing =>
    refine .bind (.lift (fun _ _ h _ => h) fun _ h => h.1) fun _ => ?_
    refine .bind (Q := fun lsn t => lsn < row.lsn ∧ (t.storage = world.storage ∧
      t.slot = world.slot ∧ t.late = world.late) ∧ existing.committedLsn = row.lsn)
      (.lift (fun t lsn h hlsn => ⟨?_, h.1, ?_⟩) fun _ h => h.1) fun lsn => ?_
    · apply hahead lsn
      rw [requestedFrom, ← hp]
      exact requireSafe_eq_ok.mp hlsn
    · have hsame := h.2
      rw [h.1.2.1, hrow] at hsame
      exact Option.some.inj hsame
    refine .bind (Q := fun _ _ => False)
      (.lift (fun t _ h hle => ?_) fun _ h => h.2.1) fun _ _ h => h.elim
    have := of_decide_eq_true (ensureSafe_eq_ok.mp hle)
    omega

/-! ## Committing -/

omit [DecidableEq Table] in
theorem commitOffsets_meets (src : PreparedSource Table)
    (answers : ServerAnswers) (markers : List ℕ) (hmarkers : ∀ lsn ∈ markers, lsn ∈ acknowledged) :
    Meets (Safe acknowledged foreign) (commitOffsets src answers markers) (fun next world => Safe
    acknowledged foreign world ∧ next.committedLsn ∈ acknowledged) (Safe acknowledged foreign) := by
  refine .bind (Q := fun lsn world => lsn ∈ acknowledged ∧ Safe acknowledged foreign world)
    (.lift (fun _ lsn h hlsn => ⟨?_, h⟩) fun _ h => h) fun lsn => .of_and fun hlsn => ?_
  · unfold checkCommit at hlsn
    split at hlsn
    · cases hlsn
    rename_i largest hmax
    split at hlsn
    · cases hlsn
    cases hlsn
    exact hmarkers _ (max?_mem hmax)
  refine .bind (answered_meets fun _ _ h => { h with }) fun _ => ?_
  refine .bind (.lift (fun _ _ h _ => h) fun _ h => h) fun _ => ?_
  refine .bind ((store_meets hlsn answers src.tracker fun _ => True).strengthen
    fun _ h => ⟨h, trivial⟩) fun tracker => ?_
  intro world hworld
  refine (?_ : Meets (Unwritten acknowledged foreign world.storage) _ _ _) world ⟨hworld.2.1.1, rfl⟩
  exact .bind ((advanceSlot_meets hlsn answers _).weaken fun _ h => h.safe)
    fun _ => .pure fun _ h => ⟨h.1.safe, hlsn⟩

end

/-! ## Runs -/

section
variable [DecidableEq Table] {deliveryId : String} {run run' : RecoveryRun Table} {answers : ℕ}

structure RecoveryInvariant (run : RecoveryRun Table) : Prop where
  safe : Safe run.acknowledged run.foreign run.world
  sources :
    ∀ process source, run.sources process = some source → source.committedLsn ∈ run.acknowledged

/-- What holds in every state of a run. -/
structure RecoveryLaws (deliveryId : String) (run : RecoveryRun Table) : Prop where
  durable : ∀ key value, run.world.storage key = some value →
    value.payload.committedLsn ∈ run.acknowledged
  returned : ∀ process source, run.sources process = some source →
    source.committedLsn ∈ run.acknowledged
  slot : ∀ row, run.world.slot = some row → row.lsn ∈ run.foreign ∨
    ∃ lsn ∈ run.acknowledged, row.lsn ≤ lsn
  prepared : ∀ process preparation server answers run' source,
    run.step deliveryId (.prepare process preparation server answers) = some run' →
    run'.sources process = some source → SlotAt source.committedLsn run'.world ∧
      RecordedAt (offsetStateKey deliveryId) source.committedLsn run'.world ∧
      ∀ start ∈ preparation.exactStartLsn, start ≤ source.committedLsn
  refused : ∀ process preparation server answers run' row,
    run.step deliveryId (.prepare process preparation server answers) = some run' →
    run.world.slot = some row →
    (∀ lsn ∈ requestedFrom deliveryId preparation run.world, lsn < row.lsn) →
    run'.sources process = none ∧ run'.world.storage = run.world.storage ∧
      run'.world.slot = run.world.slot

omit [DecidableEq Table] in
theorem Safe.mono {acked more foreign others : List ℕ}
    {world : RecoveryWorld Table} (h : Safe acked foreign world)
    (hmore : acked ⊆ more) (hothers : foreign ⊆ others) :
    Safe more others world where
  stored := fun key value hval => hmore (h.stored key value hval)
  late := fun write hw => hmore (h.late write hw)
  slot := fun row hrow => (h.slot row hrow).imp (fun hlsn => hothers hlsn)
    fun ⟨lsn, hlsn, hle⟩ => ⟨lsn, hmore hlsn, hle⟩

omit [DecidableEq Table] in
theorem RecoveryInvariant.finish (h : RecoveryInvariant run) (proc : ℕ)
    {call : Recovery Table (PreparedSource Table)}
    (hcall : Meets (Safe run.acknowledged run.foreign) call
      (fun source world =>
          Safe run.acknowledged run.foreign world ∧ source.committedLsn ∈ run.acknowledged)
      (Safe run.acknowledged run.foreign)) :
    RecoveryInvariant (run.finish proc (outcome call { run.world with answers })) := by
  have hsafe : Safe run.acknowledged run.foreign { run.world with answers } :=
    ⟨h.safe.stored, h.safe.late, h.safe.slot⟩
  obtain ⟨hok, herr⟩ := hcall _ hsafe
  rcases hres : outcome call { run.world with answers } with ⟨failure | next, world⟩
  · refine ⟨herr failure world hres, fun other source hsrc => ?_⟩
    by_cases hother : other = proc
    · subst hother
      simp [RecoveryRun.finish, Except.toOption] at hsrc
    simp only [RecoveryRun.finish, update_of_ne hother] at hsrc
    exact h.sources other source hsrc
  obtain ⟨hworld, hnext⟩ := hok next world hres
  refine ⟨hworld, fun other source hsrc => ?_⟩
  by_cases hother : other = proc
  · subst hother
    simp only [RecoveryRun.finish, update_self] at hsrc
    cases hsrc
    exact hnext
  simp only [RecoveryRun.finish, update_of_ne hother] at hsrc
  exact h.sources other source hsrc

omit [DecidableEq Table] in
theorem RecoveryInvariant.mono (h : RecoveryInvariant run) (acknowledged foreign : List ℕ) :
    RecoveryInvariant { run with
      acknowledged := run.acknowledged ++ acknowledged, foreign := run.foreign ++ foreign } where
  safe := h.safe.mono (subset_append_left _ _) (subset_append_left _ _)
  sources := fun process source hsrc => mem_append_left _ (h.sources process source hsrc)

theorem prepareAs_meets {acked foreign : List ℕ} (dlvId : String) (prep : Preparation Table)
    (server : ServerAnswers) (hstart : ∀ start ∈ prep.exactStartLsn, start ∈ acked)
    (hcreated : ∀ created ∈ server.created, created ∈ foreign) :
    Meets (Safe acked foreign) (prepareAs dlvId prep server) (fun source world => Prepared
    acked foreign dlvId prep.exactStartLsn source.committedLsn world) (Safe acked foreign) :=
  .bind (prepare_meets dlvId prep server hstart hcreated) fun _ => .pure fun _ h => h

theorem recoveryInvariant_step (label : RecoveryLabel Table) (h : RecoveryInvariant run)
    (hstep : run.step deliveryId label = some run') : RecoveryInvariant run' := by
  cases label with
  | prepare process preparation server answers =>
    cases hstep
    refine (h.mono _ _).finish process ((prepareAs_meets deliveryId preparation server ?_ ?_).imp
      fun _ _ hprep => ⟨hprep.safe, hprep.acknowledged⟩)
    · intro start hstart
      exact mem_append_right _ (mem_toList.mpr hstart)
    intro created hcreated
    exact mem_append_right _ (mem_toList.mpr hcreated)
  | commit process markers server answers =>
    obtain ⟨src, -, rfl⟩ := map_eq_some_iff.mp hstep
    have hmore := h.mono markers []
    rw [append_nil] at hmore
    exact hmore.finish process
      (commitOffsets_meets src server markers fun lsn hlsn => mem_append_right _ hlsn)
  | change slot =>
    cases hstep
    have hmore :=
      h.safe.mono (List.Subset.refl _) (subset_append_left _ (slot.map SlotRow.lsn).toList)
    refine ⟨⟨hmore.stored, hmore.late, fun row hrow => .inl ?_⟩, h.sources⟩
    cases hrow
    simp
  | land write =>
    simp only [step] at hstep
    split at hstep
    · cases hstep
    rename_i expRev payload hw
    split at hstep
    next res storage he =>
      cases hstep
      exact ⟨⟨DurableStorage.compareExchange_stored (P := fun state => state.committedLsn ∈
        run.acknowledged) he (h.safe.late _ (mem_of_getElem? hw)) h.safe.stored, h.safe.late,
        h.safe.slot⟩, h.sources⟩
    · cases hstep

theorem recoveryInvariant_reachable (hreach : Reachable (step deliveryId) .initial run) :
    RecoveryInvariant run := by
  refine hreach.invariant
    (fun run label run' h hstep => recoveryInvariant_step label h hstep) ⟨⟨?_, ?_, ?_⟩, ?_⟩
  · rintro key value ⟨⟩
  · rintro write ⟨⟩
  · rintro row ⟨⟩
  rintro process src ⟨⟩

theorem RecoveryInvariant.prepared (h : RecoveryInvariant run) {proc : ℕ} {server : ServerAnswers}
    {src : PreparedSource Table} {preparation : Preparation Table}
    (hstep : run.step deliveryId (.prepare proc preparation server answers) = some run')
    (hsrc : run'.sources proc = some src) :
    Prepared run'.acknowledged run'.foreign deliveryId preparation.exactStartLsn src.committedLsn
      run'.world := by
  have hsafe := (h.mono preparation.exactStartLsn.toList server.created.toList).safe
  have hmeets := prepareAs_meets deliveryId preparation server
    (fun start hstart => mem_append_right run.acknowledged (mem_toList.mpr hstart))
    (fun created hcreated => mem_append_right run.foreign (mem_toList.mpr hcreated))
  cases hstep
  rcases hres : outcome (RecoveryRun.prepareAs deliveryId preparation server)
    { run.world with answers } with ⟨fail | next, world⟩
  · simp [RecoveryRun.finish, hres, Except.toOption] at hsrc
  simp only [RecoveryRun.finish, hres, update_self] at hsrc ⊢
  cases hsrc
  exact (hmeets { run.world with answers } { hsafe with }).1 _ _ hres

theorem refused_of_step {proc : ℕ} {server : ServerAnswers} {row : SlotRow}
    {preparation : Preparation Table}
    (hstep : run.step deliveryId (.prepare proc preparation server answers) = some run')
    (hrow : run.world.slot = some row)
    (hahead : ∀ lsn ∈ requestedFrom deliveryId preparation run.world, lsn < row.lsn) :
    run'.sources proc = none ∧ run'.world.storage = run.world.storage ∧
    run'.world.slot = run.world.slot := by
  have hmeets := prepare_refuses deliveryId preparation server run.world row hrow hahead
  have hrefused : Meets (fun t => t.storage = run.world.storage ∧ t.slot = run.world.slot ∧
    t.late = run.world.late) (prepareAs deliveryId preparation server) (fun _ _ => False)
    (fun t => t.storage = run.world.storage ∧ t.slot = run.world.slot ∧ t.late = run.world.late) :=
    .bind hmeets fun _ _ h => h.elim
  cases hstep
  obtain ⟨hok, herr⟩ := hrefused { run.world with answers } ⟨rfl, rfl, rfl⟩
  rcases hres : outcome (prepareAs deliveryId preparation server)
    { run.world with answers } with ⟨fail | next, world⟩
  · obtain ⟨hs, hslot, -⟩ := herr fail world hres
    refine ⟨?_, ?_, ?_⟩
    · simp [finish, Except.toOption]
    · simpa only [finish] using hs
    · simpa only [finish] using hslot
  exact (hok next world hres).elim

theorem recovery_never_skips (deliveryId : String) (run : RecoveryRun Table)
    (hreach : Reachable (RecoveryRun.step deliveryId) .initial run) :
    RecoveryLaws deliveryId run := by
  have h := recoveryInvariant_reachable hreach
  exact {
    durable := h.safe.stored, returned := h.sources, slot := h.safe.slot
    prepared := fun _ _ _ _ _ _ hstep hsrc =>
      have hprep := h.prepared hstep hsrc
      ⟨hprep.slot, hprep.recorded, hprep.start⟩
    refused := fun _ _ _ _ _ _ hstep hrow hahead => refused_of_step hstep hrow hahead }

namespace SampleRecovery

def source : PostgresSourceIdentity where
  systemIdentifier := 1
  database := "shop"
  databaseOid := 2

def preparation (exactStartLsn : Option ℕ) : Preparation String where
  plugin := "pgoutput"
  publication := some "publication"
  source := source
  authoritativeTables := .ok ["orders"]
  exactStartLsn := exactStartLsn
  replayIdentity := "a"

def slotAt (lsn : ℕ) : SlotRow where
  plugin := "pgoutput"
  confirmedFlushLsn := some lsn
  database := some "shop"
  databaseOid := some 2

def server : ServerAnswers where
  insertLsn := 300
  auxSchema := none
  created := none
  held := true
  inFlight := false

/-- A commit crashes between the record and the slot, and a later preparation
moves the slot up. -/
def labels : List (RecoveryLabel String) :=
  [.change (some (slotAt 100)), .prepare 0 (preparation (some 100)) server 3,
    .commit 0 [120, 150] server 2, .prepare 1 (preparation none) server 3]

def position (run : RecoveryRun String) : Option ℕ × Option ℕ :=
  (run.world.slot.map SlotRow.lsn, (run.sources 1).map PreparedSource.committedLsn)

end SampleRecovery

theorem recovery_of_sample :
    ∃ run, exec (RecoveryRun.step "orders") .initial SampleRecovery.labels = some run ∧
      SampleRecovery.position run = (some 150, some 150) ∧
      RecoveryLaws "orders" run := by
  have hrun : (exec (RecoveryRun.step "orders") .initial
      SampleRecovery.labels).map SampleRecovery.position = some (some 150, some 150) := by
    decide +kernel
  obtain ⟨run, hexec, hpos⟩ := map_eq_some_iff.mp hrun
  exact ⟨run, hexec, hpos, recovery_never_skips "orders" run ⟨_, hexec⟩⟩

end
end Transferia.Postgres
