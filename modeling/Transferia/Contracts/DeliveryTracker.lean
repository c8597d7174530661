import Transferia.Support.WeighedMap

/-!
# Ordered completion accounting

Deliveries are accepted in the order of their ids, their units complete in any
order, and the committed id advances over the finished ones without gaps.
Delivery ids are natural numbers: their 64-bit counter is advanced once for each
delivery of an attempt.
-/

namespace Transferia.Contracts
open Support Nat AList

structure DeliveryState where
  (remaining sourceMessages : ℕ)

structure Committed where
  (through sourceMessages : ℕ)

structure DeliveryTracker where
  entries : AList fun _ : ℕ => DeliveryState
  (nextReceived nextCommit : ℕ)

namespace DeliveryTracker

def new : DeliveryTracker := { entries := ∅, nextReceived := 1, nextCommit := 1 }

def orderViolation (expected received : ℕ) : String :=
  "sink delivery order violation: expected " ++ toString expected ++ ", got " ++ toString received

def accept (tracker : DeliveryTracker) (id remaining sourceMessages : ℕ) :
    Except String DeliveryTracker :=
  if id = tracker.nextReceived then
    .ok
      { tracker with
        nextReceived := tracker.nextReceived + 1
        entries := tracker.entries.insert id { remaining, sourceMessages } }
  else .error (orderViolation tracker.nextReceived id)

def missingProgress (id : ℕ) : String := "missing delivery progress " ++ toString id

def progressUnderflow : String := "delivery progress underflow"

def complete (tracker : DeliveryTracker) (id units : ℕ) : Except String DeliveryTracker :=
  match tracker.entries.lookup id with
  | none => .error (missingProgress id)
  | some state =>
    if units ≤ state.remaining then
      .ok
        { tracker with
          entries := tracker.entries.insert id { state with remaining := state.remaining - units } }
    else .error progressUnderflow

/-- The loop of `takeCommitted`: `through` and `messages` are what earlier
rounds found. -/
def takeLoop : ℕ → DeliveryTracker → Option ℕ → ℕ → Option ℕ × ℕ × DeliveryTracker
  | 0, tracker, through, messages => (through, messages, tracker)
  | fuel + 1, tracker, through, messages =>
    match tracker.entries.lookup tracker.nextCommit with
    | none => (through, messages, tracker)
    | some state =>
      if state.remaining = 0 then
        takeLoop fuel
          { tracker with
            entries := tracker.entries.erase tracker.nextCommit
            nextCommit := tracker.nextCommit + 1 }
          (some tracker.nextCommit)
          (min (messages + state.sourceMessages) (2 ^ 64 - 1))
      else (through, messages, tracker)

/-- Every round removes an entry, so that the number of entries bounds the
rounds. -/
def takeCommitted (tracker : DeliveryTracker) : Option Committed × DeliveryTracker :=
  match takeLoop tracker.entries.entries.length tracker none 0 with
  | (through, messages, rest) =>
    (through.map fun through => { through, sourceMessages := messages }, rest)

def isEmpty (tracker : DeliveryTracker) : Bool := tracker.entries.entries.isEmpty

variable {tracker next : DeliveryTracker} {id remaining sourceMessages units : ℕ}

/-- The tracked ids are those received and not yet committed. -/
structure Ordered (tracker : DeliveryTracker) : Prop where
  commit_le : tracker.nextCommit ≤ tracker.nextReceived
  tracked_iff : ∀ id, (∃ state, tracker.entries.lookup id = some state) ↔
    tracker.nextCommit ≤ id ∧ id < tracker.nextReceived

theorem ordered_new : new.Ordered := by
  refine ⟨le_refl _, ?_⟩
  intro id
  constructor
  · rintro ⟨state, ⟨⟩⟩
  rintro ⟨hle, hlt⟩
  exact absurd hlt (not_lt.mpr hle)

theorem accept_ok (h : tracker.accept id remaining sourceMessages = .ok next) :
    id = tracker.nextReceived ∧ next = { tracker with
        nextReceived := tracker.nextReceived + 1, entries := tracker.entries.insert id
          { remaining, sourceMessages } } := by
  unfold accept at h
  split at h
  next hid =>
    cases h
    exact ⟨hid, rfl⟩
  · cases h

theorem ordered_accept (hord : tracker.Ordered)
    (h : tracker.accept id remaining sourceMessages = .ok next) : next.Ordered := by
  obtain ⟨rfl, rfl⟩ := accept_ok h
  refine ⟨le_succ_of_le hord.commit_le, ?_⟩
  intro other
  by_cases hother : other = tracker.nextReceived
  · subst hother
    simp only [lookup_insert]
    constructor
    · intro _
      exact ⟨hord.commit_le, lt_succ_self _⟩
    intro _
    exact ⟨_, rfl⟩
  simp only [lookup_insert_ne hother]
  rw [hord.tracked_iff other]
  omega

theorem complete_ok (h : tracker.complete id units = .ok next) :
    ∃ state, tracker.entries.lookup id = some state ∧ units ≤ state.remaining ∧ next =
        { tracker with
          entries := tracker.entries.insert id
            { state with remaining := state.remaining - units } } := by
  unfold complete at h
  split at h
  · cases h
  rename_i state hs
  split at h
  next hunits =>
    cases h
    exact ⟨state, hs, hunits, rfl⟩
  · cases h

theorem ordered_complete (hord : tracker.Ordered) (h : tracker.complete id units = .ok next) :
    next.Ordered := by
  obtain ⟨state, hs, _, rfl⟩ := complete_ok h
  refine ⟨hord.commit_le, ?_⟩
  intro other
  by_cases hother : other = id
  · subst hother
    have htrack := (hord.tracked_iff other).mp ⟨state, hs⟩
    simp only [lookup_insert]
    constructor
    · intro _
      exact htrack
    intro _
    exact ⟨_, rfl⟩
  simp only [lookup_insert_ne hother]
  exact hord.tracked_iff other

/-- What the rounds of `takeCommitted` leave of a tracker. -/
structure Advanced (before after : DeliveryTracker) : Prop where
  ordered : after.Ordered
  received_eq : after.nextReceived = before.nextReceived
  commit_le : before.nextCommit ≤ after.nextCommit
  finished : ∀ id, before.nextCommit ≤ id → id < after.nextCommit →
    ∃ state, before.entries.lookup id = some state ∧ state.remaining = 0
  lookup_eq : ∀ id, after.nextCommit ≤ id → after.entries.lookup id = before.entries.lookup id

theorem Advanced.refl (hord : tracker.Ordered) : Advanced tracker tracker :=
  ⟨hord, rfl, le_refl _, fun _ hle hlt => absurd hlt (not_lt.mpr hle), fun _ _ => rfl⟩

theorem ordered_erase (hord : tracker.Ordered) {state : DeliveryState}
    (hs : tracker.entries.lookup tracker.nextCommit = some state) :
    Ordered
      { tracker with
        entries := tracker.entries.erase tracker.nextCommit
        nextCommit := tracker.nextCommit + 1 } := by
  have hlt := ((hord.tracked_iff _).mp ⟨state, hs⟩).2
  refine ⟨hlt, ?_⟩
  intro id
  by_cases hid : id = tracker.nextCommit
  · subst hid
    simp
  simp only [lookup_erase_ne hid]
  rw [hord.tracked_iff id]
  omega

theorem takeLoop_advanced (fuel : ℕ) (thru : Option ℕ) (msgs : ℕ) (hord : tracker.Ordered) :
    Advanced tracker (takeLoop fuel tracker thru msgs).2.2 ∧
      (takeLoop fuel tracker thru msgs).1 =
        if (takeLoop fuel tracker thru msgs).2.2.nextCommit = tracker.nextCommit then thru
        else some ((takeLoop fuel tracker thru msgs).2.2.nextCommit - 1) := by
  induction fuel generalizing tracker thru msgs with
  | zero => exact ⟨.refl hord, by simp [takeLoop]⟩
  | succ fuel ih =>
    unfold takeLoop
    split
    · exact ⟨.refl hord, by simp⟩
    rename_i state hs
    split
    next hzero =>
      obtain ⟨ha, hthrough⟩ := ih _ _ (ordered_erase hord hs)
      refine ⟨⟨ha.ordered, ha.received_eq, ?_, ?_, ?_⟩, ?_⟩
      · exact (le_succ _).trans ha.commit_le
      · intro id hle hlt
        by_cases hid : id = tracker.nextCommit
        · subst hid
          exact ⟨state, hs, hzero⟩
        obtain ⟨found, hget, hdone⟩ := ha.finished id (by simp only; omega) hlt
        exact ⟨found, by simpa [lookup_erase_ne hid] using hget, hdone⟩
      · intro id hle
        have hne : id ≠ tracker.nextCommit := by
          have := ha.commit_le
          simp only at this
          omega
        rw [ha.lookup_eq id hle]
        exact lookup_erase_ne hne
      rw [hthrough]
      have hle := ha.commit_le
      simp only at hle ⊢
      split
      next hsame =>
        rw [if_neg (by omega), hsame]
        simp
      · rw [if_neg (by omega)]
    · exact ⟨.refl hord, by simp⟩

/-- The front delivery of the tracker still has units to complete. -/
def Settled (tracker : DeliveryTracker) : Prop :=
  ∀ state, tracker.entries.lookup tracker.nextCommit = some state → state.remaining ≠ 0

theorem takeLoop_settled {fuel : ℕ} {thru : Option ℕ} {msgs : ℕ}
    (hfuel : tracker.entries.entries.length ≤ fuel) :
    (takeLoop fuel tracker thru msgs).2.2.Settled := by
  induction fuel generalizing tracker thru msgs with
  | zero =>
    intro state hs
    have hlt : _ < tracker.entries.entries.length := length_erase_lt hs
    omega
  | succ fuel ih =>
    unfold takeLoop
    split
    next hnone =>
      intro state hs
      cases hnone.symm.trans hs
    rename_i state hs
    split
    · apply ih
      have hlt := length_erase_lt hs
      simp only
      omega
    rename_i hne
    intro other hother
    cases hs.symm.trans hother
    exact hne

theorem takeCommitted_spec (hord : tracker.Ordered) :
    Advanced tracker tracker.takeCommitted.2 ∧
    tracker.takeCommitted.2.Settled ∧
    (tracker.takeCommitted.1.map (·.through)) =
      if tracker.takeCommitted.2.nextCommit = tracker.nextCommit then none
      else some (tracker.takeCommitted.2.nextCommit - 1) := by
  obtain ⟨hadvance, hthrough⟩ := takeLoop_advanced tracker.entries.entries.length none 0 hord
  refine ⟨hadvance, takeLoop_settled (le_refl _), ?_⟩
  refine Eq.trans ?_ hthrough
  simp [takeCommitted, Function.comp_def]

theorem isEmpty_iff (hord : tracker.Ordered) :
    tracker.isEmpty ↔ tracker.nextCommit = tracker.nextReceived := by
  constructor
  · intro hempty
    by_contra hne
    obtain ⟨state, hs⟩ :=
      (hord.tracked_iff tracker.nextCommit).mpr ⟨le_refl _, lt_of_le_of_ne hord.commit_le hne⟩
    have hlt := length_erase_lt hs
    rw [isEmpty, List.isEmpty_iff] at hempty
    simp [hempty] at hlt
  intro heq
  rw [isEmpty, List.isEmpty_iff, List.eq_nil_iff_forall_not_mem]
  rintro ⟨id, state⟩ hmem
  have htrack := (hord.tracked_iff id).mp ⟨state, mem_lookup_iff.mpr hmem⟩
  omega

theorem takeCommitted_all (hord : tracker.Ordered)
    (hdone : ∀ id state, tracker.entries.lookup id = some state → state.remaining = 0) :
    tracker.takeCommitted.2.nextCommit = tracker.nextReceived := by
  obtain ⟨ha, hsettled, _⟩ := takeCommitted_spec hord
  by_contra hne
  have hle := ha.ordered.commit_le
  rw [ha.received_eq] at hle
  obtain ⟨state, hs⟩ := (ha.ordered.tracked_iff _).mpr
    ⟨le_refl _, by rw [ha.received_eq]; omega⟩
  have hzero := hdone _ state ((ha.lookup_eq _ (le_refl _)).symm.trans hs)
  exact hsettled state hs hzero

/-- Units still to complete, plus one for each delivery still to commit. -/
def load (tracker : DeliveryTracker) : ℕ :=
  total (·.remaining + 1) tracker.entries

theorem load_accept (h : tracker.accept id remaining sourceMessages = .ok next) :
    next.load ≤ tracker.load + (remaining + 1) := by
  obtain ⟨_, rfl⟩ := accept_ok h
  have hinsert := total_insert (fun state : DeliveryState => state.remaining + 1) tracker.entries id
    { remaining, sourceMessages }
  have herase :=
    total_erase_le (fun state : DeliveryState => state.remaining + 1) tracker.entries id
  simp only [load] at hinsert herase ⊢
  omega

theorem load_complete (h : tracker.complete id units = .ok next) :
    next.load + units = tracker.load := by
  obtain ⟨state, hs, hunits, rfl⟩ := complete_ok h
  have hreplace := total_insert_of_lookup (fun state : DeliveryState => state.remaining + 1) hs
    { state with remaining := state.remaining - units }
  simp only [load] at hreplace ⊢
  omega

theorem load_takeLoop (fuel : ℕ) (trk : DeliveryTracker) (thru : Option ℕ) (msgs : ℕ) :
    (takeLoop fuel trk thru msgs).2.2.load ≤ trk.load ∧ ((takeLoop fuel trk thru msgs).1 ≠ thru →
    (takeLoop fuel trk thru msgs).2.2.load < trk.load) := by
  induction fuel generalizing trk thru msgs with
  | zero => simp [takeLoop]
  | succ fuel ih =>
    unfold takeLoop
    split
    · simp
    rename_i state hs
    split
    · have herase := total_erase (fun state : DeliveryState => state.remaining + 1) hs
      have hrest := (ih { trk with
          entries := trk.entries.erase trk.nextCommit, nextCommit := trk.nextCommit + 1 }
        (some trk.nextCommit)
        (min (msgs + state.sourceMessages) (2 ^ 64 - 1))).1
      simp only [load] at herase hrest ⊢
      exact ⟨by omega, fun _ => by omega⟩
    simp

theorem load_takeCommitted (trk : DeliveryTracker) : trk.takeCommitted.2.load ≤ trk.load ∧
    (trk.takeCommitted.1 ≠ none → trk.takeCommitted.2.load < trk.load) := by
  obtain ⟨hle, hlt⟩ := load_takeLoop trk.entries.entries.length trk none 0
  refine ⟨hle, ?_⟩
  intro hsome
  apply hlt
  intro hnone
  apply hsome
  simp [takeCommitted, hnone]

end DeliveryTracker
end Transferia.Contracts
