import Transferia.Pipeline.Admission

/-!
# Delivery ids across dataset barriers

The tracker of the sink expects consecutive ids, while the id of a source-
authored dataset never reaches the sink.  The two carry an input through exactly
when no data delivery follows a source-authored dataset.
-/

namespace Transferia.Pipeline
open List Contracts Support Bool Nat DeliveryTracker
open SinkInput (barrier? delivery?)
variable {D : Type*} {pendingDatasets : Delivery → List D}
namespace AdmissionState

/-! ## What one step can do -/

variable {s t : AdmissionState D}

/-- The moves of driver and sink, with the checks that enable them. -/
inductive Moves (pendingDatasets : Delivery → List D)
    (s : AdmissionState D) : AdmissionState D → Prop
  | close (hphase : s.phase = .forwarding) (hinput : s.input = []) :
      Moves pendingDatasets s { s with phase := .draining none }
  | forward {delivery rest} (hphase : s.phase = .forwarding) (hinput : s.input = .data delivery ::
      rest) : Moves pendingDatasets s { s with input := rest, session := s.session ++ [delivery] }
  | hold {delivery rest} (hphase : s.phase = .forwarding)
      (hinput : s.input = .data delivery :: rest) : Moves pendingDatasets s
        { s with
          input := rest, phase := .draining (some (.data delivery (pendingDatasets delivery))) }
  | barrier {id dataset rest} (hphase : s.phase = .forwarding)
      (hinput : s.input = .dataset id dataset :: rest) : Moves pendingDatasets s
      { s with input := rest, phase := .draining (some (.source id dataset)) }
  | accept {delivery rest progress} (hopen : s.sessionOpen) (hsession : s.session = delivery ::
      rest) (haccept : s.progress.accept delivery.id delivery.units delivery.sourceMessages =
      .ok progress) : Moves pendingDatasets s { s with session := rest, progress }
  | reject {delivery rest error} (hopen : s.sessionOpen) (hsession : s.session = delivery :: rest)
      (haccept : s.progress.accept delivery.id delivery.units delivery.sourceMessages =
      .error error) : Moves pendingDatasets s { s with phase := .failed error }
  | complete {id progress} (hopen : s.sessionOpen) (hcompleted : s.progress.complete id 1 =
      .ok progress) : Moves pendingDatasets s { s with progress }
  | emit (hopen : s.sessionOpen) (hsome : s.progress.takeCommitted.1 ≠ none) :
      Moves pendingDatasets s s.emit
  | cross {barrier} (hphase : s.phase = .draining barrier) (hsession : s.session = [])
      (hidle : idle s.progress) (hempty : s.emit.progress.isEmpty) :
      Moves pendingDatasets s (s.emit.crossBarrier barrier)
  | incomplete {barrier} (hphase : s.phase = .draining barrier)
      (hidle : idle s.progress) (hleft : s.emit.progress.isEmpty = false) :
      Moves pendingDatasets s { s.emit with phase := .failed incompleteDeliveries }

theorem complete_one {trk : DeliveryTracker} {id remaining : ℕ} {sourceMessages : ℕ}
    (h : trk.entries.lookup id = some { remaining := remaining + 1, sourceMessages }) :
    ∃ progress, trk.complete id 1 = .ok progress := by
  simp [DeliveryTracker.complete, h]

theorem moves_of_step {label : AdmissionLabel} (h : s.step pendingDatasets label = some t) :
    Moves pendingDatasets s t := by
  cases label with
    simp only [step, receive, accept, complete, emitCommitted, endSession] at h
  | receive =>
    split at h
    next hphase hinput =>
      cases h
      exact .close hphase hinput
    next hphase hinput =>
      split at h
      · split at h
        · cases h
          exact .forward hphase hinput
        · cases h
      cases h
      exact .hold hphase hinput
    next hphase hinput =>
      cases h
      exact .barrier hphase hinput
    · cases h
  | accept =>
    split at h
    next hopen hsession =>
      split at h
      next haccept =>
        cases h
        exact .reject hopen hsession haccept
      rename_i haccept
      cases h
      exact .accept hopen hsession haccept
    · cases h
  | complete id =>
    split at h
    next hopen hlook =>
      obtain ⟨progress, hp⟩ := complete_one hlook
      rw [hp] at h
      cases h
      exact .complete hopen hp
    · cases h
  | emitCommitted =>
    split at h
    next hen =>
      rw [and_eq_true, Option.isSome_iff_ne_none] at hen
      cases h
      exact .emit hen.1 hen.2
    · cases h
  | endSession =>
    split at h
    next hphase hsession =>
      split at h
      next hidle =>
        split at h
        next hempty =>
          cases h
          exact .cross hphase hsession hidle hempty
        rename_i hleft
        cases h
        exact .incomplete hphase hidle (not_eq_true _ ▸ hleft)
      · cases h
    · cases h

variable (s)

@[simp] theorem emit_phase : s.emit.phase = s.phase := by
  unfold emit
  split <;> rfl

@[simp] theorem emit_input : s.emit.input = s.input := by
  unfold emit
  split <;> rfl

@[simp] theorem emit_session : s.emit.session = s.session := by
  unfold emit
  split <;> rfl

@[simp] theorem emit_progress : s.emit.progress = s.progress.takeCommitted.2 := by
  unfold emit
  split
  next heq => simp [heq]
  next heq => simp [heq]

variable {s}

theorem emit_events (hord : s.progress.Ordered) :
    s.emit.events = if s.emit.progress.nextCommit = s.progress.nextCommit then s.events
      else s.events ++ [s.emit.progress.nextCommit - 1] := by
  obtain ⟨_, _, ht⟩ := takeCommitted_spec hord
  rw [emit_progress]
  unfold emit
  split
  next heq =>
    rw [heq] at ht ⊢
    simp only [Option.map_none] at ht
    split at ht
    next hsame => simp [hsame]
    · cases ht
  rename_i heq
  rw [heq] at ht ⊢
  simp only [Option.map_some] at ht
  split at ht
  · cases ht
  next hchanged => rw [if_neg hchanged, Option.some.inj ht]

theorem idle_iff {trk : DeliveryTracker} :
    idle trk ↔ ∀ id state, trk.entries.lookup id = some state → state.remaining = 0 := by
  simp only [idle, all_eq_true, beq_iff_eq]
  constructor
  · intro h id state hs
    exact h ⟨id, state⟩ (AList.mem_lookup_iff.mp hs)
  rintro h ⟨id, state⟩ hmem
  exact h id state (AList.mem_lookup_iff.mpr hmem)

theorem ne_finished_of_open (hopen : s.sessionOpen) : s.phase ≠ .finished := by
  intro hphase
  simp [sessionOpen, hphase] at hopen

/-! ## Termination -/

def inputWeight : SinkInput D → ℕ
  | .data delivery => delivery.units + 4
  | .dataset _ _ => 2

def phaseWeight : AdmissionPhase D → ℕ
  | .forwarding => 2
  | .draining none => 1
  | .draining (some (.source _ _)) => 3
  | .draining (some (.data delivery _)) => delivery.units + 5
  | .finished => 0
  | .failed _ => 0

def work (s : AdmissionState D) : ℕ := (s.input.map inputWeight).sum +
    (s.session.map (·.units + 2)).sum +
    s.progress.load + phaseWeight s.phase

@[simp] theorem phaseWeight_failed (error : String) :
    phaseWeight (.failed error : AdmissionPhase D) = 0 :=
  rfl

theorem phaseWeight_pos (hopen : s.sessionOpen) : 0 < phaseWeight s.phase := by
  unfold sessionOpen at hopen
  split at hopen
  next hphase => simp [hphase, phaseWeight]
  next barrier hphase =>
    rw [hphase]
    match barrier with
    | none | some (.source _ _) | some (.data _ _) => simp [phaseWeight]
  · cases hopen
  · cases hopen

theorem work_decreases (h : Moves pendingDatasets s t) : t.work < s.work := by
  have hload := load_takeCommitted s.progress
  cases h with
  | close hphase hinput => simp [work, hphase, phaseWeight]
  | forward hphase hinput =>
    simp [work, hinput, inputWeight]
    omega
  | hold hphase hinput | barrier hphase hinput =>
    simp [work, hphase, hinput, inputWeight, phaseWeight]
    omega
  | accept hopen hsession haccept =>
    have hle := load_accept haccept
    simp [work, hsession]
    omega
  | reject hopen hsession haccept =>
    have hpos := phaseWeight_pos hopen
    simp only [work, phaseWeight_failed]
    omega
  | complete hopen hc =>
    have heq := load_complete hc
    simp only [work]
    omega
  | emit hopen hsome =>
    have hlt := hload.2 hsome
    simp only [work, emit_input, emit_session, emit_progress, emit_phase]
    omega
  | @cross barrier hphase hsession hidle hempty =>
    match barrier with
    | none | some (.source _ _) =>
      simp [work, crossBarrier, hphase, phaseWeight]
      omega
    | some (.data _ _) =>
      simp [work, crossBarrier, hphase, phaseWeight]
      omega
  | @incomplete barrier hphase hidle hleft =>
    have hpos : 0 < phaseWeight s.phase := phaseWeight_pos (by simp [sessionOpen, hphase])
    simp only [work, emit_input, emit_session, emit_progress, phaseWeight_failed]
    omega

theorem returned_of_stuck (hstuck : Stuck (step pendingDatasets) s) : s.sessionOpen = false := by
  by_contra hopen
  rw [not_eq_false] at hopen
  have haccept : s.session = [] := by
    have hnone := hstuck .accept
    simp only [step, accept, hopen] at hnone
    cases hsession : s.session with
    | nil => rfl
    | cons delivery rest =>
      rw [hsession] at hnone
      simp only at hnone
      split at hnone <;> cases hnone
  have hidle : idle s.progress := by
    rw [idle_iff]
    intro id state hs
    by_contra hne
    obtain ⟨remaining, hr⟩ := exists_eq_succ_of_ne_zero hne
    have hnone := hstuck (.complete id)
    obtain ⟨left, messages⟩ := state
    subst hr
    simp only [step, complete, hopen, hs] at hnone
    split at hnone <;> cases hnone
  cases hphase : s.phase with
  | forwarding =>
    have hnone := hstuck .receive
    simp only [step, receive, hphase] at hnone
    cases hinput : s.input with
    | nil => simp [hinput] at hnone
    | cons entry rest =>
      cases entry with
      | data delivery =>
        simp only [hinput, haccept] at hnone
        split at hnone <;> cases hnone
      | dataset id dataset => simp [hinput] at hnone
  | draining barrier =>
    have hnone := hstuck .endSession
    simp only [step, endSession, hphase, haccept] at hnone
    split at hnone
    · split at hnone <;> cases hnone
    · simp_all
  | finished | failed error => simp [sessionOpen, hphase] at hopen

/-! ## What reaches the sink -/

def heldDeliveries : AdmissionPhase D → List Delivery
  | .draining (some (.data delivery _)) => [delivery]
  | _ => []

/-- The deliveries the sink has not accepted yet, in the order in which they
reach it. -/
def upcoming (s : AdmissionState D) : List Delivery :=
  s.session ++ heldDeliveries s.phase ++ s.input.filterMap delivery?

/-- The sink has accepted the deliveries before `upcoming`, under consecutive
ids. -/
structure Tracked (input : List (SinkInput D)) (s : AdmissionState D) : Prop where
  ordered : s.progress.Ordered
  commit_pos : 0 < s.progress.nextCommit
  delivered : (input.filterMap delivery?).map Delivery.id = range' 1
    (s.progress.nextReceived - 1) ++ s.upcoming.map Delivery.id
  closed : s.phase = .draining none ∨ s.phase = .finished → s.input = []
  drained : s.phase = .finished → s.session = [] ∧ s.progress.nextCommit = s.progress.nextReceived

theorem tracked_start (input : List (SinkInput D)) : Tracked input (start input) := by
  refine ⟨ordered_new, ?_, ?_, ?_, ?_⟩
  · simp [start, new]
  · simp [start, upcoming, heldDeliveries, new]
  · simp [start]
  · simp [start]

theorem Tracked.emit {input : List (SinkInput D)} (h : Tracked input s)
    (hphase : s.phase ≠ .finished) : Tracked input s.emit := by
  obtain ⟨ha, _, _⟩ := takeCommitted_spec h.ordered
  refine ⟨?_, ?_, ?_, ?_, ?_⟩
  · simpa using ha.ordered
  · have hle := ha.commit_le
    have hpos := h.commit_pos
    rw [emit_progress]
    omega
  · simpa [upcoming, ha.received_eq] using h.delivered
  · simpa using h.closed
  intro hf
  rw [emit_phase] at hf
  exact absurd hf hphase

theorem drained_of_idle (hord : s.progress.Ordered) (hidle : idle s.progress) :
    s.emit.progress.nextCommit = s.emit.progress.nextReceived := by
  obtain ⟨hadvance, _, _⟩ := takeCommitted_spec hord
  rw [emit_progress, hadvance.received_eq]
  exact takeCommitted_all hord (idle_iff.mp hidle)

theorem Tracked.moves {input : List (SinkInput D)} (h : Tracked input s)
    (hmoves : Moves pendingDatasets s t) (hsound : ∀ error, t.phase ≠ .failed error) :
    Tracked input t := by
  cases hmoves with
  | close hphase hinput =>
    refine ⟨h.ordered, h.commit_pos, ?_, fun _ => hinput, by simp⟩
    simpa [upcoming, hphase, heldDeliveries] using h.delivered
  | forward hphase hinput =>
    refine ⟨h.ordered, h.commit_pos, ?_, by simp [hphase], by simp [hphase]⟩
    simpa [upcoming, hphase, hinput, heldDeliveries, delivery?] using h.delivered
  | hold hphase hinput | barrier hphase hinput =>
    refine ⟨h.ordered, h.commit_pos, ?_, by simp, by simp⟩
    simpa [upcoming, hphase, hinput, heldDeliveries, filterMap_cons, delivery?] using h.delivered
  | accept hopen hsession haccept =>
    have hord := ordered_accept h.ordered haccept
    obtain ⟨hid, rfl⟩ := accept_ok haccept
    have hpos := h.commit_pos
    have hle := h.ordered.commit_le
    refine ⟨hord, h.commit_pos, ?_, h.closed, ?_⟩
    · have hsplit : s.progress.nextReceived = s.progress.nextReceived - 1 + 1 := by omega
      rw [h.delivered]
      simp only [upcoming, hsession, cons_append, map_cons, hid, Nat.add_sub_cancel]
      nth_rewrite 3 [hsplit]
      rw [range'_concat]
      simp
      omega
    intro hphase
    exact absurd hphase (ne_finished_of_open hopen)
  | reject hopen hsession haccept | incomplete hphase hidle hleft => exact absurd rfl (hsound _)
  | complete hopen hc =>
    have hord := ordered_complete h.ordered hc
    obtain ⟨state, _, _, rfl⟩ := complete_ok hc
    exact { h with ordered := hord }
  | emit hopen hsome => exact h.emit (ne_finished_of_open hopen)
  | @cross barrier hphase hsession hidle hempty =>
    have hemit := h.emit (by simp [hphase])
    have hdelivered := hemit.delivered
    match barrier with
    | none =>
      refine ⟨hemit.ordered, hemit.commit_pos, ?_, ?_, ?_⟩
      · simpa [upcoming, crossBarrier, hphase, heldDeliveries] using hdelivered
      · intro _
        simpa [crossBarrier] using h.closed (.inl hphase)
      intro _
      refine ⟨by simpa [crossBarrier] using hsession, ?_⟩
      exact drained_of_idle h.ordered hidle
    | some (.source _ _) | some (.data _ _) =>
      refine ⟨hemit.ordered, hemit.commit_pos, ?_, by simp [crossBarrier], by simp [crossBarrier]⟩
      simpa [upcoming, crossBarrier, hphase, hsession, heldDeliveries] using hdelivered

end AdmissionState

/-! ## Inputs without data behind a barrier -/

variable {input : List (SinkInput D)}

def DataFirst (input : List (SinkInput D)) : Prop :=
  input.Pairwise fun earlier later => earlier.barrier? ≠ none → later.delivery? = none

theorem no_delivery_after_barrier {id : ℕ} {ds : D} {rest : List (SinkInput D)}
    (h : DataFirst (.dataset id ds :: rest)) : rest.filterMap delivery? = [] := by
  rw [filterMap_eq_nil_iff]
  intro entry hentry
  exact (pairwise_cons.mp h).1 entry hentry (by simp [barrier?])

theorem barrier_ids_of_no_delivery (h : input.filterMap delivery? = []) :
    input.filterMap barrier? = input.map SinkInput.id := by
  induction input with
  | nil => rfl
  | cons entry rest ih =>
    cases entry with
    | data delivery => simp [delivery?] at h
    | dataset id dataset =>
      have hrest : rest.filterMap delivery? = [] := by simpa [delivery?] using h
      simp [barrier?, SinkInput.id, ih hrest]

theorem ids_of_dataFirst {first : ℕ} (hids : input.map SinkInput.id = range' first input.length)
    (hdata : DataFirst input) : ∃ data barriers, data + barriers = input.length ∧
    (input.filterMap delivery?).map Delivery.id = range' first data ∧
    input.filterMap barrier? = range' (first + data) barriers := by
  induction input generalizing first with
  | nil => exact ⟨0, 0, rfl, rfl, rfl⟩
  | cons entry rest ih =>
    cases entry with
    | data delivery =>
      simp only [map_cons, length_cons, range'_succ, cons.injEq, SinkInput.id] at hids
      obtain ⟨data, barriers, hlen, hdelivered, hb⟩ := ih hids.2 (pairwise_cons.mp hdata).2
      refine ⟨data + 1, barriers, ?_, ?_, ?_⟩
      · simp only [length_cons]
        omega
      · simp [delivery?, hids.1, hdelivered, range'_succ]
      rw [filterMap_cons_none rfl, hb]
      congr 1
      omega
    | dataset id dataset =>
      have hnone := no_delivery_after_barrier hdata
      refine ⟨0, rest.length + 1, by simp, ?_, ?_⟩
      · rw [filterMap_cons_none rfl, hnone]
        rfl
      have hall : (SinkInput.dataset id dataset :: rest).filterMap delivery? = [] := by
        rw [filterMap_cons_none rfl, hnone]
      rw [barrier_ids_of_no_delivery hall, hids]
      rfl

/-! ## The committed ids -/

/-- Strictly increasing events, the last of which is `last`. -/
structure EventsUpTo (events : List ℕ) (last : ℕ) : Prop where
  increasing : events.Pairwise (· < ·)
  le_last : ∀ id ∈ events, id ≤ last
  last_mem : last = 0 ∨ last ∈ events

theorem EventsUpTo.append {events : List ℕ} {last next : ℕ}
    (h : EventsUpTo events last) (hlt : last < next) : EventsUpTo (events ++ [next]) next := by
  refine ⟨?_, ?_, by simp⟩
  · rw [pairwise_append]
    refine ⟨h.increasing, by simp, ?_⟩
    intro id hid other hother
    have hle := h.le_last id hid
    simp only [mem_singleton] at hother
    omega
  intro id hid
  rcases mem_append.mp hid with hold | hnew
  · exact (h.le_last id hold).trans hlt.le
  simp only [mem_singleton] at hnew
  omega

namespace AdmissionState
variable {input : List (SinkInput D)} {s : AdmissionState D} {data total : ℕ}

def heldBarriers : AdmissionPhase D → List ℕ
  | .draining (some (.source id _)) => [id]
  | _ => []

def barriers (s : AdmissionState D) : List ℕ := heldBarriers s.phase ++ s.input.filterMap barrier?

/-- Of `total` inputs the first `data` are deliveries.  The sink commits them,
then the driver commits the barriers one by one. -/
structure Emitted (data total : ℕ) (s : AdmissionState D) : Prop where
  barrier_ids : s.barriers = range' (total + 1 - s.barriers.length) s.barriers.length
  data_first : DataFirst s.input
  held_last : heldBarriers s.phase ≠ [] → s.input.filterMap delivery? = []
  emitted : ∃ last, EventsUpTo s.events last ∧
    (last + 1 = s.progress.nextCommit ∧ s.barriers.length + data = total ∨ s.upcoming = [] ∧
    s.progress.nextCommit = s.progress.nextReceived ∧ last + s.barriers.length = total)

theorem upcoming_ids (htrack : Tracked input s)
    (hdata : (input.filterMap delivery?).map Delivery.id = range' 1 data) :
    s.upcoming.map Delivery.id = range' s.progress.nextReceived s.upcoming.length ∧
    s.progress.nextReceived + s.upcoming.length = data + 1 := by
  have hsplit := htrack.delivered
  have hpos := htrack.commit_pos
  have hle := htrack.ordered.commit_le
  rw [hdata] at hsplit
  obtain ⟨accepted, hbound, hfront, hback⟩ := range'_eq_append_iff.mp hsplit
  have hfrontLength := congrArg length hfront
  have hbackLength := congrArg length hback
  simp only [length_range', length_map] at hfrontLength hbackLength
  refine ⟨?_, by omega⟩
  rw [hback, hbackLength]
  congr 1
  omega

theorem Emitted.emit (h : Emitted data total s) (hord : s.progress.Ordered) :
    Emitted data total s.emit := by
  obtain ⟨ha, _, _⟩ := takeCommitted_spec hord
  obtain ⟨last, he, hcases⟩ := h.emitted
  have hb : s.emit.barriers = s.barriers := by simp [barriers]
  have hu : s.emit.upcoming = s.upcoming := by simp [upcoming]
  have hr : s.emit.progress.nextReceived =
      s.progress.nextReceived := by rw [emit_progress, ha.received_eq]
  have hle : s.emit.progress.nextCommit ≤ s.progress.nextReceived := by
    rw [← hr, emit_progress]
    exact ha.ordered.commit_le
  have hgrow : s.progress.nextCommit ≤ s.emit.progress.nextCommit := by
    rw [emit_progress]
    exact ha.commit_le
  refine ⟨?_, ?_, ?_, ?_⟩
  · rw [hb]
    exact h.barrier_ids
  · simpa using h.data_first
  · simpa using h.held_last
  rw [hb, hu, hr, emit_events hord]
  by_cases hsame : s.emit.progress.nextCommit = s.progress.nextCommit
  · rw [if_pos hsame, hsame]
    exact ⟨last, he, hcases⟩
  rw [if_neg hsame]
  rcases hcases with ⟨hlast, hcount⟩ | ⟨_, hall, _⟩
  · refine ⟨_, he.append (by omega), .inl ⟨by omega, hcount⟩⟩
  · omega

theorem emitted_start {count : ℕ} (hdata : DataFirst input) (hlen : data + count = input.length)
    (hbarriers : input.filterMap barrier? = range' (1 + data) count) :
    Emitted data input.length (start input) := by
  have hcount : (start input).barriers.length = count := by
    simp [barriers, start, heldBarriers, hbarriers]
  refine ⟨?_, hdata, by simp [start, heldBarriers], ?_⟩
  · rw [hcount]
    simp only [barriers, start, heldBarriers, nil_append, hbarriers]
    congr 1
    omega
  refine ⟨0, ⟨by simp [start], by simp [start], .inl rfl⟩, .inl ⟨rfl, ?_⟩⟩
  omega

section
variable (h : Emitted data total s)
include h

theorem Emitted.keep {t : AdmissionState D} (hbarriers : t.barriers = s.barriers)
    (hupcoming : t.upcoming = s.upcoming) (hevents : t.events = s.events)
    (hcommit : t.progress.nextCommit = s.progress.nextCommit)
    (hreceived : t.progress.nextReceived = s.progress.nextReceived) (hdata : DataFirst t.input)
    (hheld : heldBarriers t.phase ≠ [] → t.input.filterMap delivery? = []) :
    Emitted data total t := by
  refine ⟨?_, hdata, hheld, ?_⟩
  · rw [hbarriers]
    exact h.barrier_ids
  rw [hbarriers, hupcoming, hevents, hcommit, hreceived]
  exact h.emitted

theorem Emitted.acknowledge {id : ℕ} {ds : D} (hphase : s.phase = .draining (some (.source id ds)))
    (hupcoming : s.upcoming = []) (hdrained : s.progress.nextCommit = s.progress.nextReceived)
    (hend : s.progress.nextReceived + s.upcoming.length = data + 1) :
    Emitted data total (s.crossBarrier (some (.source id ds))) := by
  obtain ⟨last, hevents, hcases⟩ := h.emitted
  have hsplit : s.barriers = id :: s.input.filterMap barrier? := by
    simp [barriers, hphase, heldBarriers]
  have hids := h.barrier_ids
  rw [hsplit] at hids hcases
  simp only [length_cons, range'_succ, cons.injEq] at hids hcases
  have hlast : last < id := by
    rcases hcases with ⟨hcommit, hcount⟩ | ⟨_, _, hcount⟩
    · omega
    · omega
  refine ⟨?_, h.data_first, ?_, id, hevents.append hlast, .inr ⟨?_, ?_, ?_⟩⟩
  · simp only [barriers, crossBarrier, heldBarriers, nil_append]
    rw [hids.2]
    simp only [length_range']
    congr 1
    omega
  · simp [crossBarrier, heldBarriers]
  · rw [← hupcoming]
    simp [upcoming, crossBarrier, heldDeliveries, hphase]
  · exact hdrained
  simp only [barriers, crossBarrier, heldBarriers, nil_append]
  omega

section
variable (htrack : Tracked input s)
  (hdata : (input.filterMap delivery?).map Delivery.id = range' 1 data)
include htrack hdata

theorem Emitted.cross {barrier : Option (Barrier D)}
    (hphase : s.phase = .draining barrier) (hsession : s.session = []) (hidle : idle s.progress) :
    Emitted data total (s.emit.crossBarrier barrier) := by
  have hemit := h.emit htrack.ordered
  have htrackedEmit := htrack.emit (by simp [hphase])
  match barrier with
  | none =>
    refine hemit.keep ?_ ?_ rfl rfl rfl hemit.data_first ?_
    · simp [barriers, crossBarrier, heldBarriers, hphase]
    · simp [upcoming, crossBarrier, heldDeliveries, hphase]
    · simp [crossBarrier, heldBarriers]
  | some (.source id dataset) =>
    refine hemit.acknowledge (by simpa using hphase) ?_ (drained_of_idle htrack.ordered hidle)
      (upcoming_ids htrackedEmit hdata).2
    have hnil := h.held_last (by simp [hphase, heldBarriers])
    simp [upcoming, hsession, hphase, heldDeliveries, hnil]
  | some (.data delivery datasets) =>
    refine hemit.keep ?_ ?_ rfl rfl rfl hemit.data_first ?_
    · simp [barriers, crossBarrier, heldBarriers, hphase]
    · simp [upcoming, crossBarrier, heldDeliveries, hphase, hsession]
    · simp [crossBarrier, heldBarriers]

theorem Emitted.moves {t : AdmissionState D} (hsound : ∀ error, s.phase ≠ .failed error)
    (hmoves : Moves pendingDatasets s t) :
    (∀ error, t.phase ≠ .failed error) ∧ Emitted data total t := by
  cases hmoves with
  | close hphase hinput =>
    refine ⟨by simp, h.keep ?_ ?_ rfl rfl rfl h.data_first ?_⟩
    · simp [barriers, heldBarriers, hphase]
    · simp [upcoming, heldDeliveries, hphase]
    · simp [heldBarriers]
  | forward hphase hinput =>
    have hfst := h.data_first
    rw [hinput] at hfst
    refine ⟨hsound, h.keep ?_ ?_ rfl rfl rfl (pairwise_cons.mp hfst).2 ?_⟩
    · simp [barriers, hinput, filterMap_cons, barrier?]
    · simp [upcoming, hinput, hphase, heldDeliveries, delivery?]
    · simp [hphase, heldBarriers]
  | hold hphase hinput =>
    have hfst := h.data_first
    rw [hinput] at hfst
    refine ⟨by simp, h.keep ?_ ?_ rfl rfl rfl (pairwise_cons.mp hfst).2 ?_⟩
    · simp [barriers, hinput, hphase, heldBarriers, filterMap_cons, barrier?]
    · simp [upcoming, hinput, hphase, heldDeliveries, delivery?]
    · simp [heldBarriers]
  | barrier hphase hinput =>
    have hfst := h.data_first
    rw [hinput] at hfst
    refine ⟨by simp, h.keep ?_ ?_ rfl rfl rfl (pairwise_cons.mp hfst).2 ?_⟩
    · simp [barriers, hinput, hphase, heldBarriers, barrier?]
    · simp [upcoming, hinput, hphase, heldDeliveries, filterMap_cons, delivery?]
    intro _
    exact no_delivery_after_barrier hfst
  | accept hopen hsession haccept =>
    obtain ⟨hid, rfl⟩ := DeliveryTracker.accept_ok haccept
    obtain ⟨last, hevents, hcases⟩ := h.emitted
    refine ⟨hsound, h.barrier_ids, h.data_first, h.held_last, last, hevents, ?_⟩
    rcases hcases with hsink | ⟨hnil, _⟩
    · exact .inl hsink
    · simp [upcoming, hsession] at hnil
  | reject hopen hsession haccept =>
    obtain ⟨hids, _⟩ := upcoming_ids htrack hdata
    simp only
      [upcoming, hsession, cons_append, map_cons, length_cons, range'_succ, cons.injEq] at hids
    rw [DeliveryTracker.accept, if_pos hids.1] at haccept
    cases haccept
  | complete hopen hc =>
    obtain ⟨state, _, _, rfl⟩ := DeliveryTracker.complete_ok hc
    exact ⟨hsound, h.keep rfl rfl rfl rfl rfl h.data_first h.held_last⟩
  | emit hopen hsome => exact ⟨by simpa using hsound, h.emit htrack.ordered⟩
  | @cross barrier hphase hsession hidle hempty =>
    refine ⟨?_, h.cross htrack hdata hphase hsession hidle⟩
    match barrier with
    | none | some (.source _ _) | some (.data _ _) => simp [crossBarrier]
  | incomplete hphase hidle hleft =>
    have hord := (htrack.emit (by simp [hphase])).ordered
    have hempty := (DeliveryTracker.isEmpty_iff hord).mpr (drained_of_idle htrack.ordered hidle)
    cases hempty.symm.trans hleft

end
end

/-! ## Every schedule -/

theorem tracked_of_reachable (hreach : Reachable (step pendingDatasets) (start input) s)
    (hsound : ∀ error, s.phase ≠ .failed error) : Tracked input s := by
  refine hreach.invariant (P := fun s => (∀ error, s.phase ≠ .failed error) → Tracked input s) ?_
    (fun _ => tracked_start input) hsound
  intro s label t hs hstep ht
  have hmoves := moves_of_step hstep
  refine (hs ?_).moves hmoves ht
  cases hmoves <;> simp_all

theorem sound_of_reachable {count : ℕ} (hdata : DataFirst input)
    (hlen : data + count = input.length)
    (hdelivered : (input.filterMap delivery?).map Delivery.id = range' 1 data)
    (hbarriers : input.filterMap barrier? = range' (1 + data) count)
    (hreach : Reachable (step pendingDatasets) (start input) s) :
    (∀ error, s.phase ≠ .failed error) ∧ Tracked input s ∧ Emitted data input.length s := by
  refine hreach.invariant (P := fun s => (∀ error, s.phase ≠ .failed error) ∧ Tracked input s ∧
      Emitted data input.length s) ?_ ⟨by simp [start], tracked_start input,
      emitted_start hdata hlen hbarriers⟩
  rintro s label t ⟨hsound, htrack, hemitted⟩ hstep
  have hmoves := moves_of_step hstep
  obtain ⟨hnext, hkeep⟩ := hemitted.moves htrack hdelivered hsound hmoves
  exact ⟨hnext, htrack.moves hmoves hnext, hkeep⟩

theorem finished_of_stuck (hstuck : Stuck (step pendingDatasets) s)
    (hsound : ∀ error, s.phase ≠ .failed error) : s.phase = .finished := by
  have hr := returned_of_stuck hstuck
  unfold sessionOpen at hr
  split at hr
  · cases hr
  · cases hr
  · assumption
  next error hphase => exact absurd hphase (hsound error)

theorem upcoming_of_finished (htrack : Tracked input s) (hfinished : s.phase = .finished) :
    s.upcoming = [] := by
  have hinput := htrack.closed (.inr hfinished)
  simp [upcoming, hinput, (htrack.drained hfinished).1, hfinished, heldDeliveries]

end AdmissionState
open AdmissionState

theorem keepsNumbering_of_dataFirst (hnumbered : Numbered input) (hdata : DataFirst input) :
    KeepsNumbering pendingDatasets input := by
  obtain ⟨data, count, hlen, hdelivered, hb⟩ := ids_of_dataFirst hnumbered hdata
  refine ⟨?_, ?_, ?_, ?_⟩
  · intro s hreach
    exact (sound_of_reachable hdata hlen hdelivered hb hreach).1
  · intro s hreach
    obtain ⟨_, _, he⟩ := sound_of_reachable hdata hlen hdelivered hb hreach
    obtain ⟨last, hevents, _⟩ := he.emitted
    exact hevents.increasing
  · refine ⟨(start input).work, ?_⟩
    intro labels s hexec
    have hbound := exec_length_add_le work (fun _ _ _ h => work_decreases (moves_of_step h)) hexec
    omega
  intro s hreach hstuck
  obtain ⟨hsound, htrack, he⟩ := sound_of_reachable hdata hlen hdelivered hb hreach
  have hf := finished_of_stuck hstuck hsound
  refine ⟨hf, ?_⟩
  obtain ⟨last, hevents, hcases⟩ := he.emitted
  have hnone : s.barriers = [] := by simp [barriers, hf, heldBarriers, htrack.closed (.inr hf)]
  have hdrained := (htrack.drained hf).2
  have hend := (upcoming_ids htrack hdelivered).2
  rw [upcoming_of_finished htrack hf] at hend
  have hlast : last = input.length := by
    rw [hnone] at hcases
    simp only [length_nil] at hcases hend
    omega
  intro entry hentry
  have hid : entry.id ∈ range' 1 input.length := by
    rw [← hnumbered]
    exact mem_map_of_mem hentry
  rw [mem_range'_1] at hid
  rcases hevents.last_mem with hzero | hmem
  · omega
  · exact ⟨last, hmem, by omega⟩

theorem dataFirst_of_keepsNumbering (hnumbered : Numbered input)
    (hkeep : KeepsNumbering pendingDatasets input) : DataFirst input := by
  obtain ⟨s, hreach, hstuck⟩ :=
    exists_stuck work (fun _ _ _ h => work_decreases (moves_of_step h)) (start input)
  have htrack := tracked_of_reachable hreach (hkeep.never_failed s hreach)
  have hdelivered := htrack.delivered
  rw [upcoming_of_finished htrack (hkeep.covered s hreach hstuck).1] at hdelivered
  simp only [map_nil, append_nil] at hdelivered
  have hi : (input.map SinkInput.id).Pairwise (· < ·) := by
    rw [hnumbered]
    exact pairwise_lt_range'
  have hpairs := pairwise_map.mp hi
  apply hpairs.imp_of_mem
  intro earlier later he hlater hlt hbarrier
  cases later with
  | dataset id dataset => rfl
  | data delivery =>
    cases earlier with
    | data other => simp [barrier?] at hbarrier
    | dataset id dataset =>
      have hpos : id ∈ range' 1 input.length := by
        rw [← hnumbered]
        exact mem_map_of_mem he
      have hsent : delivery.id ∈ (input.filterMap delivery?).map Delivery.id :=
        mem_map_of_mem (mem_filterMap.mpr ⟨_, hlater, rfl⟩)
      rw [hdelivered] at hsent
      have hget : id ∈ (input.filterMap delivery?).map Delivery.id := by
        rw [hdelivered, mem_range'_1]
        rw [mem_range'_1] at hpos hsent
        simp only [SinkInput.id] at hlt
        omega
      obtain ⟨other, hother, hid⟩ := mem_map.mp hget
      obtain ⟨entry, hentry, hsome⟩ := mem_filterMap.mp hother
      cases entry with
      | dataset _ _ => simp [delivery?] at hsome
      | data found =>
        simp only [delivery?, Option.some.injEq] at hsome
        subst hsome
        have hnodup : (input.map SinkInput.id).Nodup := hi.imp fun h => h.ne
        have hsame := inj_on_of_nodup_map hnodup hentry he hid
        cases hsame

/-- Driver and sink carry a numbered input through exactly when no data
delivery follows a source-authored dataset. -/
theorem keepsNumbering_iff_dataFirst (pendingDatasets : Delivery → List D)
    {input : List (SinkInput D)} (hnumbered : Numbered input) :
    KeepsNumbering pendingDatasets input ↔ DataFirst input :=
  ⟨dataFirst_of_keepsNumbering hnumbered, keepsNumbering_of_dataFirst hnumbered⟩

theorem keepsNumbering_iff_dataFirst_trailing_barrier :
    Numbered [.data ⟨1, 2, 5⟩, (.dataset 2 () : SinkInput Unit)] ∧
      KeepsNumbering (fun _ => [()]) [.data ⟨1, 2, 5⟩, (.dataset 2 () : SinkInput Unit)] := by
  have hnumbered : Numbered [.data ⟨1, 2, 5⟩, (.dataset 2 () : SinkInput Unit)] := rfl
  refine ⟨hnumbered, (keepsNumbering_iff_dataFirst _ hnumbered).mpr ?_⟩
  simp [DataFirst, barrier?]

/-- A delivery behind a source-authored dataset meets a tracker that has not
seen the id of the dataset. -/
theorem delivery_after_barrier_violates_order :
    Numbered [.dataset 1 (), (.data ⟨2, 1, 1⟩ : SinkInput Unit)] ∧
      ∃ state, Reachable (AdmissionState.step fun _ => [])
          (.start [.dataset 1 (), (.data ⟨2, 1, 1⟩ : SinkInput Unit)]) state ∧
        state.phase = .failed "sink delivery order violation: expected 1, got 2" :=
  ⟨rfl, _, ⟨[.receive, .endSession, .receive, .accept], rfl⟩, by decide⟩

end Transferia.Pipeline
