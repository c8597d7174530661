import Transferia.Contracts.DeliveryTracker
import Transferia.Support.Action

/-!
# The committed prefix over a history of calls

A sink accepts deliveries, completes their units in any order and takes what is committed
after each completion.
-/

namespace Transferia.Contracts
open DeliveryTracker Finset AList Support

inductive TrackerCall
  | accept (id remaining sourceMessages : ℕ)
  | complete (id units : ℕ)
  | takeCommitted

def TrackerCall.run : TrackerCall → Action DeliveryTracker String (Option Committed)
  | .accept id remaining sourceMessages => do
    let expected := (← get).nextReceived
    if id ≠ expected then throw (orderViolation expected id)
    modify fun tracker => { tracker with nextReceived := tracker.nextReceived + 1 }
    modify fun tracker =>
      { tracker with entries := tracker.entries.insert id { remaining, sourceMessages } }
    return none
  | .complete id units => do
    match (← get).entries.lookup id with
    | none => throw (missingProgress id)
    | some state =>
      if state.remaining < units then throw progressUnderflow
      modify fun tracker =>
        { tracker with
          entries := tracker.entries.insert id { state with remaining := state.remaining - units } }
      return none
  | .takeCommitted => modifyGet DeliveryTracker.takeCommitted

/-- A tracker with its history: the accepted deliveries, delivery `id` at place `id - 1`,
the units completed of each, and the last id that was returned. -/
structure TrackerHistory where
  tracker : DeliveryTracker
  deliveries : List DeliveryState
  completed : ℕ → ℕ
  last : ℕ

namespace TrackerHistory

def start : TrackerHistory := ⟨new, [], fun _ => 0, 0⟩

def record (s : TrackerHistory) (tracker : DeliveryTracker) (committed : Option Committed) :
    TrackerCall → TrackerHistory
  | .accept _ remaining sourceMessages =>
    { s with tracker, deliveries := s.deliveries ++ [⟨remaining, sourceMessages⟩] }
  | .complete id units =>
    { s with tracker, completed := Function.update s.completed id (s.completed id + units) }
  | .takeCommitted => { s with tracker, last := committed.elim s.last Committed.through }

def step (s : TrackerHistory) (call : TrackerCall) : TrackerHistory :=
  match Action.outcome call.run s.tracker with
  | (.error _, tracker) => { s with tracker }
  | (.ok committed, tracker) => s.record tracker committed call

variable (s : TrackerHistory)

def sourceMessages (id : ℕ) : ℕ := (s.deliveries[id - 1]?).elim 0 DeliveryState.sourceMessages

def Finished (id : ℕ) : Prop :=
  ∃ delivery, s.deliveries[id - 1]? = some delivery ∧ s.completed id = delivery.remaining

def FinishedThrough (d : ℕ) : Prop := ∀ id, 0 < id → id ≤ d → s.Finished id

/-- The tracker holds what is left of the deliveries that are not committed. -/
structure Accounted : Prop where
  ordered : s.tracker.Ordered
  received : s.tracker.nextReceived = s.deliveries.length + 1
  untouched : ∀ id, s.tracker.nextReceived ≤ id → s.completed id = 0
  tracked : ∀ id state, s.tracker.entries.lookup id = some state → 0 < id ∧
    s.deliveries[id - 1]? = some { state with remaining := state.remaining + s.completed id }
  finished : s.FinishedThrough s.last
  last : s.tracker.nextCommit = s.last + 1

variable {s} {f : ℕ → ℕ} {tracker : DeliveryTracker} {id remaining msgs units : ℕ}

theorem outcome_accept :
    Action.outcome (TrackerCall.accept id remaining msgs).run tracker =
      Action.settled tracker none (tracker.accept id remaining msgs) := by
  by_cases hid : id = tracker.nextReceived
  · rw [DeliveryTracker.accept, if_pos hid, hid]
    simp only [TrackerCall.run, Action.get_bind, ne_eq, not_true_eq_false, if_false]
    rfl
  · rw [DeliveryTracker.accept, if_neg hid]
    simp only [TrackerCall.run, Action.get_bind, ne_eq, hid, not_false_eq_true, if_true]
    rfl

theorem outcome_complete :
    Action.outcome (TrackerCall.complete id units).run tracker =
      Action.settled tracker none (tracker.complete id units) := by
  cases hlookup : tracker.entries.lookup id with
  | none =>
    simp only [TrackerCall.run, Action.get_bind, DeliveryTracker.complete, hlookup]
    rfl
  | some state =>
    simp only [TrackerCall.run, Action.get_bind, DeliveryTracker.complete, hlookup]
    by_cases hunits : units ≤ state.remaining
    · simp only [hunits, hunits.not_gt, if_true, if_false]
      rfl
    · simp only [hunits, not_le.mp hunits, if_true, if_false]
      rfl

theorem outcome_of_error {call : TrackerCall} {reason : String}
    (h : (Action.outcome call.run tracker).1 = .error reason) :
    (Action.outcome call.run tracker).2 = tracker := by
  cases call with
  | accept id remaining msgs =>
    rw [outcome_accept] at h ⊢
    exact Action.settled_of_error h
  | complete id units =>
    rw [outcome_complete] at h ⊢
    exact Action.settled_of_error h
  | takeCommitted => cases h

theorem step_of_error {call : TrackerCall} {reason : String}
    (h : (Action.outcome call.run s.tracker).1 = .error reason) : s.step call = s := by
  rw [step, ← Prod.mk.eta (p := Action.outcome call.run s.tracker), h, outcome_of_error h]

section
variable (h : s.Accounted)
include h

theorem Accounted.accept (hok : s.tracker.accept id remaining msgs = .ok tracker) :
    (s.record tracker none (.accept id remaining msgs)).Accounted := by
  have hord := ordered_accept h.ordered hok
  obtain ⟨rfl, rfl⟩ := accept_ok hok
  have hreceived := h.received
  have hkept {id : ℕ} {delivery : DeliveryState} (hold : s.deliveries[id]? = some delivery) :
      (s.deliveries ++ [⟨remaining, msgs⟩])[id]? = some delivery := by
    rw [List.getElem?_append_left (List.getElem?_eq_some_iff.mp hold).1, hold]
  refine ⟨hord, by simp [record, hreceived], ?_, ?_, ?_, h.last⟩
  · intro id hid
    exact h.untouched id (Nat.le_of_succ_le hid)
  · intro id state hstate
    by_cases hnew : id = s.tracker.nextReceived
    · subst hnew
      cases (lookup_insert _).symm.trans hstate
      have hzero := h.untouched _ le_rfl
      rw [hreceived] at hzero
      simp [record, hreceived, hzero]
    exact (h.tracked id state ((lookup_insert_ne hnew).symm.trans hstate)).imp_right hkept
  intro id hpos hle
  exact (h.finished id hpos hle).imp fun _ => And.imp_left hkept

theorem Accounted.complete (hok : s.tracker.complete id units = .ok tracker) :
    (s.record tracker none (.complete id units)).Accounted := by
  have hord := ordered_complete h.ordered hok
  obtain ⟨state, hstate, hunits, rfl⟩ := complete_ok hok
  have hrange := (h.ordered.tracked_iff id).mp ⟨state, hstate⟩
  have hlast := h.last
  refine ⟨hord, h.received, ?_, ?_, ?_, hlast⟩
  · intro other hother
    have hne : other ≠ id := (hrange.2.trans_le hother).ne'
    exact (Function.update_of_ne hne ..).trans (h.untouched other hother)
  · intro other found hfound
    by_cases hsame : other = id
    · subst hsame
      cases (lookup_insert _).symm.trans hfound
      obtain ⟨hpos, hold⟩ := h.tracked other state hstate
      refine ⟨hpos, hold.trans ?_⟩
      simp only [record, Function.update_self]
      congr 2
      omega
    have hold := h.tracked other found ((lookup_insert_ne hsame).symm.trans hfound)
    simpa [record, Function.update_of_ne hsame] using hold
  intro other hpos (hle : other ≤ s.last)
  obtain ⟨delivery, hdelivery, hdone⟩ := h.finished other hpos hle
  exact ⟨delivery, hdelivery, (Function.update_of_ne (by omega) ..).trans hdone⟩

theorem Accounted.finished_iff {state : DeliveryState}
    (hstate : s.tracker.entries.lookup id = some state) : s.Finished id ↔ state.remaining = 0 := by
  rw [Finished, (h.tracked id state hstate).2]
  simp

theorem Accounted.last_takeCommitted :
    s.tracker.takeCommitted.2.nextCommit =
      s.tracker.takeCommitted.1.elim s.last Committed.through + 1 ∧
    ∀ comm ∈ s.tracker.takeCommitted.1, s.last < comm.through := by
  obtain ⟨hadvance, -, hthrough⟩ := takeCommitted_spec h.ordered
  have hle := hadvance.commit_le
  have hlast := h.last
  split at hthrough
  next hsame =>
    rw [Option.map_eq_none_iff.mp hthrough, hsame, hlast]
    exact ⟨rfl, by simp⟩
  · obtain ⟨comm, hsome, heq⟩ := Option.map_eq_some_iff.mp hthrough
    rw [hsome, Option.elim_some]
    refine ⟨by omega, ?_⟩
    rintro _ ⟨⟩
    omega

theorem Accounted.takeCommitted :
    (s.record s.tracker.takeCommitted.2 s.tracker.takeCommitted.1 .takeCommitted).Accounted := by
  obtain ⟨ha, -⟩ := takeCommitted_spec h.ordered
  have hlast := h.last_takeCommitted.1
  refine ⟨ha.ordered, ha.received_eq.trans h.received, ?_, ?_, ?_, hlast⟩
  · intro id hid
    exact h.untouched id (ha.received_eq ▸ hid)
  · intro id state hstate
    have hle := ((ha.ordered.tracked_iff id).mp ⟨state, hstate⟩).1
    exact h.tracked id state ((ha.lookup_eq id hle).symm.trans hstate)
  intro id hpos hle
  by_cases hold : id ≤ s.last
  · exact h.finished id hpos hold
  obtain ⟨state, hstate, hzero⟩ := ha.finished id (by rw [h.last]; omega)
    (hlast ▸ Nat.lt_succ_of_le hle)
  exact (h.finished_iff hstate).mpr hzero

end

theorem accounted (calls : List TrackerCall) : (calls.foldl step start).Accounted := by
  induction calls using List.reverseRecOn with
  | nil =>
    exact ⟨ordered_new, rfl, fun _ _ => rfl, (fun _ _ hstate => by cases hstate),
      fun _ hpos hle => absurd hpos (not_lt.mpr hle), rfl⟩
  | append_singleton calls call ih =>
    rw [List.foldl_concat, step]
    cases call with
    | accept id remaining msgs =>
      rw [outcome_accept]
      cases hok : (calls.foldl step start).tracker.accept id remaining msgs with
      | error => exact ih
      | ok tracker => exact ih.accept hok
    | complete id units =>
      rw [outcome_complete]
      cases hok : (calls.foldl step start).tracker.complete id units with
      | error => exact ih
      | ok tracker => exact ih.complete hok
    | takeCommitted => exact ih.takeCommitted

/-- The messages that the rounds add up, for any function that gives those of a delivery. -/
theorem takeLoop_messages (fuel : ℕ) (thru : Option ℕ) (hord : tracker.Ordered)
    (hf : ∀ id state, tracker.entries.lookup id = some state → state.sourceMessages = f id)
    (hle : msgs ≤ 2 ^ 64 - 1) :
    (takeLoop fuel tracker thru msgs).2.1 =
      min
        (msgs + ∑ id ∈
            Ico tracker.nextCommit (takeLoop fuel tracker thru msgs).2.2.nextCommit, f id)
        (2 ^ 64 - 1) := by
  induction fuel generalizing tracker thru msgs with
  | zero => simpa [takeLoop] using hle
  | succ fuel ih =>
    unfold takeLoop
    split
    · simpa using hle
    rename_i state hstate
    split
    · have hnext := ordered_erase hord hstate
      have hlt := (takeLoop_advanced fuel (some tracker.nextCommit)
        (min (msgs + state.sourceMessages) (2 ^ 64 - 1)) hnext).1.commit_le
      rw [ih _ hnext _ (min_le_right _ _), sum_eq_sum_Ico_succ_bot hlt, ← hf _ _ hstate]
      · simp only
        omega
      intro id found hfound
      by_cases hid : id = tracker.nextCommit
      · rw [hid, lookup_erase] at hfound
        cases hfound
      exact hf id found ((lookup_erase_ne hid).symm.trans hfound)
    simpa using hle

theorem Accounted.isGreatest (h : s.Accounted) :
    IsGreatest {d | s.FinishedThrough d}
      (s.tracker.takeCommitted.1.elim s.last Committed.through) := by
  refine ⟨h.takeCommitted.finished, ?_⟩
  intro d hd
  by_contra hlt
  obtain ⟨ha, hsettled, -⟩ := takeCommitted_spec h.ordered
  have hlast := h.last_takeCommitted.1
  have hdone := hd s.tracker.takeCommitted.2.nextCommit (by omega) (by omega)
  obtain ⟨delivery, hdelivery, -⟩ := id hdone
  have hlength := (List.getElem?_eq_some_iff.mp hdelivery).1
  have hreceived := ha.received_eq.trans h.received
  obtain ⟨state, hstate⟩ := (ha.ordered.tracked_iff _).mpr ⟨le_rfl, by omega⟩
  have hbefore := (ha.lookup_eq _ le_rfl).symm.trans hstate
  exact hsettled state hstate ((h.finished_iff hbefore).mp hdone)

/-- A call that fails changes nothing.  What is taken is the largest finished prefix of the
accepted deliveries if it is longer than the last one, and counts the messages of the newly
covered deliveries up to the largest 64-bit number. -/
theorem commits_largest_finished (calls : List TrackerCall) :
    let s := calls.foldl step start
    (∀ (call : TrackerCall) reason,
      (Action.outcome call.run s.tracker).1 = .error reason → s.step call = s) ∧
    IsGreatest {d | s.FinishedThrough d} (s.tracker.takeCommitted.1.elim s.last Committed.through) ∧
    ∀ committed ∈ s.tracker.takeCommitted.1, s.last < committed.through ∧ committed.sourceMessages =
        min (∑ id ∈ Ioc s.last committed.through, s.sourceMessages id) (2 ^ 64 - 1) := by
  intro s
  have h : s.Accounted := accounted calls
  refine ⟨fun call reason => step_of_error, h.isGreatest, ?_⟩
  intro committed hsome
  obtain ⟨hlast, hlt⟩ := h.last_takeCommitted
  refine ⟨hlt committed hsome, ?_⟩
  have hsum := takeLoop_messages (f := s.sourceMessages) s.tracker.entries.entries.length none
    h.ordered (fun id state hstate => by simp [sourceMessages, (h.tracked id state hstate).2])
    (Nat.zero_le _)
  have hnext : (takeLoop s.tracker.entries.entries.length s.tracker none 0).2.2.nextCommit =
      committed.through + 1 := hlast.trans (by rw [Option.mem_def.mp hsome]; rfl)
  obtain ⟨_, -, rfl⟩ := Option.map_eq_some_iff.mp hsome
  apply hsum.trans
  rw [Nat.zero_add, h.last]
  congr 2
  ext id
  simp only [mem_Ico, mem_Ioc] at hnext ⊢
  omega

theorem messages_saturate :
    let s := List.foldl step start
      [.accept 1 1 (2 ^ 64 - 1), .accept 2 1 1, .complete 2 1, .complete 1 1]
    ∃ committed, s.tracker.takeCommitted.1 = some committed ∧ committed.through = 2 ∧
      committed.sourceMessages ≠ s.sourceMessages 1 + s.sourceMessages 2 :=
  ⟨_, rfl, rfl, by decide⟩

end TrackerHistory
end Transferia.Contracts
