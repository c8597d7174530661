import Transferia.Delivery.AdmissionCoordinator

/-!
# Schema admission is safe

Every schedule of driver, sink and cancellation hands the deliveries over in
input order, prepares datasets only between drained sessions, acknowledges a
dataset barrier only after its preparation and its discovery update, and never
acknowledges an input whose admission was rejected or cancelled.
-/

namespace Transferia.Pipeline
open List Option Support
open DriverInput (delivery?)
variable {A B D : Type*} {ops : DatasetAdmission A B D}
namespace DriverPhase

def inHand : DriverPhase B D → List (DriverInput B D)
  | .opening none => []
  | .opening (some delivery) => [.data delivery]
  | .forwarding => []
  | .sending delivery => [.data delivery]
  | .draining none => []
  | .draining (some (.rejected delivery _)) => [.data delivery]
  | .draining (some (.source id dataset)) => [.dataset id dataset]
  | .draining (some (.data delivery _)) => [.data delivery]
  | .preparingSource id dataset => [.dataset id dataset]
  | .updatingSource id dataset => [.dataset id dataset]
  | .acknowledging id dataset => [.dataset id dataset]
  | .preparingData delivery _ _ => [.data delivery]
  | .updatingData delivery _ _ => [.data delivery]
  | .returned _ => []

def proceeding : DriverPhase B D → Bool
  | .draining none => false
  | .returned _ => false
  | _ => true

def idle : DriverPhase B D → Bool
  | .forwarding => false
  | .sending _ => false
  | .draining _ => false
  | .returned _ => false
  | _ => true

/-- What must have happened for a source barrier to be where it is. -/
def evidence : DriverPhase B D → List DriverEvent
  | .updatingSource id _ => [.prepared id]
  | .acknowledging id _ => [.prepared id, .updated id]
  | _ => []

end DriverPhase
open DriverPhase
namespace DriverState

/-! ## What one step can do -/

variable {result : Except String Unit} {accepted : Bool} {barrier : Option (DriverBarrier B D)}
  {s t : DriverState A B D} {trace : List DriverEvent} {last : DriverEvent}

inductive Moves (s : DriverState A B D) : DriverState A B D → Prop
  | cancels : Moves s { s with cancelled := true }
  | opens (hphase : s.phase = .opening none) :
      Moves s { s with phase := .forwarding, sessionRunning := true }
  | forwards {delivery running} (hhand : s.phase.inHand = [.data delivery])
      (hproceeding : s.phase.proceeding = true) : Moves s
        { s with
          phase := .forwarding, sessionRunning := running, channel := s.channel ++ [delivery]
          handled := s.handled ++ [.data delivery] }
  | closes {early} (hproceeding : s.phase.proceeding = true)
      (hreason : s.cancelled = true ∨ early = true ∨ s.phase.inHand = [] ∧ s.input = []) :
      Moves s { s with phase := .draining none, inputClosedEarly := early }
  | takes {entry rest phase} (hphase : s.phase = .forwarding) (hinput : s.input = entry :: rest)
      (hhand : phase.inHand = [entry]) (hproceeding : phase.proceeding = true) (hidle : phase.idle =
      false) (hevidence : phase.evidence = []) : Moves s { s with input := rest, phase }
  | fails {error running} :
      Moves s { s with sessionRunning := running, phase := .returned (.error error) }
  | finishes (hphase : s.phase = .draining none) (hdrained : s.cancelled = false → s.channel = []) :
      Moves s { s with sessionRunning := false, phase := .returned (.ok ()) }
  | abandons (entry) {admission running result} (hhand : s.phase.inHand = [entry])
      (hproceeding : s.phase.proceeding = true) (hresult : result = .ok () → s.cancelled = true) :
      Moves s
        { s with
          admission, sessionRunning := running
          phase := .returned result, trace := s.trace ++ [.abandoned entry.id] }
  | crosses {phase} (hhand : phase.inHand = s.phase.inHand) (hbefore : s.phase.proceeding = true)
      (hproceeding : phase.proceeding = true) (hchannel : s.channel = []) (hunsettled : s.unsettled
      = []) (hevidence : phase.evidence = []) : Moves s { s with sessionRunning := false, phase }
  | advances {entry admission phase event} (hidle : s.phase.idle = true)
      (hbefore : s.phase.proceeding = true) (hproceeding : phase.proceeding = true)
      (hhand : phase.inHand = s.phase.inHand) (hevent : event = .prepared entry ∨ event =
      .updated entry) (hevidence : ∀ required ∈ phase.evidence, required ∈ s.phase.evidence ∨
      required = event) : Moves s { s with admission, phase, trace := s.trace ++ [event] }
  | acknowledges {id dataset} (hphase : s.phase = .acknowledging id dataset) : Moves s
        { s with
          phase := .opening none, handled := s.handled ++ [.dataset id dataset]
          trace := s.trace ++ [.committedThrough id] }
  | receives {delivery rest} (hrunning : s.sessionRunning = true)
      (hchannel : s.channel = delivery :: rest) : Moves s
        { s with
          channel := rest, received := s.received ++ [delivery]
          unsettled := s.unsettled ++ [delivery.id] }
  | settles {unsettled} (hrunning : s.sessionRunning = true) : Moves s { s with unsettled }
  | commits {delivery} (hmem : delivery ∈ s.received) :
      Moves s { s with trace := s.trace ++ [.committedThrough delivery.id] }

theorem moves_of_openSession (h : s.openSession accepted = some t) : Moves s t := by
  cases hphase : s.phase with
  | opening pending =>
    cases pending with
      simp only [openSession, hphase] at h
    | none =>
      cases h
      exact .opens hphase
    | some delivery =>
      split at h
      · cases h
        exact .forwards (hphase ▸ rfl) (hphase ▸ rfl)
      cases h
      exact .fails
  | _ => simp [openSession, hphase] at h

theorem moves_of_observeCancellation (h : s.observeCancellation = some t) : Moves s t := by
  simp only [observeCancellation, ite_none_right_eq_some] at h
  obtain ⟨hc, h⟩ := h
  cases hphase : s.phase with
  | forwarding | sending delivery =>
    simp only [hphase] at h
    cases h
    exact .closes (hphase ▸ rfl) (.inl hc)
  | _ => simp [hphase] at h

theorem moves_of_receive (h : s.receive ops = some t) : Moves s t := by
  unfold receive at h
  split at h
  next hc hphase hinput =>
    cases h
    exact .closes (hphase ▸ rfl) (.inr (.inr ⟨hphase ▸ rfl, hinput⟩))
  next hc hphase hinput =>
    split at h
    all_goals
      cases h
      exact .takes hphase hinput rfl rfl rfl rfl
  next hc hphase hinput =>
    cases h
    exact .takes hphase hinput rfl rfl rfl rfl
  · cases h

theorem moves_of_send (h : s.send accepted = some t) : Moves s t := by
  cases hphase : s.phase with
  | sending delivery =>
    simp only [send, hphase] at h
    split at h
    · split at h
      · cases h
        exact .forwards (hphase ▸ rfl) (hphase ▸ rfl)
      · cases h
    cases h
    exact .closes (hphase ▸ rfl) (.inr (.inl rfl))
  | _ => simp [send, hphase] at h

theorem moves_of_drained (hphase : s.phase = .draining barrier) (hdrained : s.drained)
    (hcancelled : s.cancelled = false) :
    Moves s ({ s with sessionRunning := false }.crossBarrier barrier) := by
  have he : s.channel = [] ∧ s.unsettled = [] := by simpa [drained, hcancelled] using hdrained
  cases barrier with
  | none => exact .finishes hphase fun _ => he.1
  | some barrier =>
    cases barrier with
    | rejected delivery error =>
      exact .abandons (.data delivery) (hphase ▸ rfl) (hphase ▸ rfl) (by simp)
    | source id ds => exact .crosses (hphase ▸ rfl) (hphase ▸ rfl) rfl he.1 he.2 rfl
    | data delivery dss =>
      cases dss with
      | nil | cons ds rest => exact .crosses (hphase ▸ rfl) (hphase ▸ rfl) rfl he.1 he.2 rfl

theorem moves_of_cancelBarrier (hphase : s.phase = .draining barrier) (hc : s.cancelled) :
    Moves s ({ s with sessionRunning := false }.cancelBarrier barrier) := by
  cases barrier with
  | none =>
    simp only [cancelBarrier, map_none, toList_none, append_nil]
    exact .finishes hphase (by simp [hc])
  | some barrier =>
    cases barrier with
    | rejected delivery error | data delivery dss =>
      exact .abandons (.data delivery) (hphase ▸ rfl) (hphase ▸ rfl) fun _ => hc
    | source id ds => exact .abandons (.dataset id ds) (hphase ▸ rfl) (hphase ▸ rfl) fun _ => hc

theorem moves_of_sessionReturns (h : s.sessionReturns result = some t) : Moves s t := by
  simp only [sessionReturns, ite_none_right_eq_some] at h
  obtain ⟨_, h⟩ := h
  split at h
  · simp only [ite_none_left_eq_some] at h
    cases h.2
    exact .fails
  · simp only [ite_none_left_eq_some] at h
    cases h.2
    exact .fails
  · cases h
    exact .fails
  · cases h
    exact .fails
  next hphase =>
    simp only [ite_none_right_eq_some] at h
    obtain ⟨hdrained, h⟩ := h
    split at h
    · cases h
      exact moves_of_cancelBarrier hphase ‹_›
    cases h
    exact moves_of_drained hphase hdrained (Bool.eq_false_iff.mpr ‹_›)
  · cases h
    exact .fails
  · cases h

theorem moves_of_prepareReturns {answer : Except String Unit}
    (h : s.prepareReturns ops answer = some t) : Moves s t := by
  cases hphase : s.phase with
  | preparingSource id ds =>
    simp only [prepareReturns, hphase] at h
    split at h
    · cases h
      exact .abandons (.dataset id ds) (hphase ▸ rfl) (hphase ▸ rfl) (by simp)
    cases h
    exact .advances (hphase ▸ rfl) (hphase ▸ rfl) rfl (hphase ▸ rfl) (.inl rfl) (by simp [evidence])
  | preparingData delivery ds rest =>
    simp only [prepareReturns, hphase] at h
    split at h
    · cases h
      exact .abandons (.data delivery) (hphase ▸ rfl) (hphase ▸ rfl) (by simp)
    split at h
    · cases h
      exact .abandons (.data delivery) (hphase ▸ rfl) (hphase ▸ rfl) fun _ => ‹_›
    cases h
    exact .advances (hphase ▸ rfl) (hphase ▸ rfl) rfl (hphase ▸ rfl) (.inl rfl) (by simp [evidence])
  | _ => simp [prepareReturns, hphase] at h

theorem moves_of_updateReturns (h : s.updateReturns result = some t) : Moves s t := by
  unfold updateReturns at h
  split at h
  next id ds error hphase =>
    cases h
    exact .abandons (.dataset id ds) (hphase ▸ rfl) (hphase ▸ rfl) (by simp)
  next id ds hphase =>
    split at h
    · cases h
      exact .abandons (.dataset id ds) (hphase ▸ rfl) (hphase ▸ rfl) fun _ => ‹_›
    cases h
    exact .advances (hphase ▸ rfl) (hphase ▸ rfl) rfl (hphase ▸ rfl) (.inr rfl)
      (by rw [hphase]; simp [evidence])
  next delivery ds rest error hphase =>
    cases h
    exact .abandons (.data delivery) (hphase ▸ rfl) (hphase ▸ rfl) (by simp)
  next delivery ds hphase =>
    cases h
    exact .advances (hphase ▸ rfl) (hphase ▸ rfl) rfl (hphase ▸ rfl) (.inr rfl) (by simp [evidence])
  next delivery ds next rest hphase =>
    cases h
    exact .advances (hphase ▸ rfl) (hphase ▸ rfl) rfl (hphase ▸ rfl) (.inr rfl) (by simp [evidence])
  · cases h

theorem moves_of_step {label : DriverLabel} (h : s.step ops label = some t) : Moves s t := by
  cases label with
    simp only [step, sinkReceive, sinkSettle, ite_none_right_eq_some, sinkAcknowledge] at h
  | cancel =>
    cases h
    exact .cancels
  | openSession accepted => exact moves_of_openSession h
  | observeCancellation => exact moves_of_observeCancellation h
  | receive => exact moves_of_receive h
  | send accepted => exact moves_of_send h
  | sessionReturns res => exact moves_of_sessionReturns h
  | prepareReturns answer => exact moves_of_prepareReturns h
  | updateReturns res => exact moves_of_updateReturns h
  | acknowledgeReturns accepted =>
    cases hphase : s.phase with
    | acknowledging id ds =>
      simp only [acknowledgeReturns, hphase] at h
      split at h
      · cases h
        exact .acknowledges hphase
      cases h
      exact .abandons (.dataset id ds) (hphase ▸ rfl) (hphase ▸ rfl) (by simp)
    | _ => simp [acknowledgeReturns, hphase] at h
  | sinkReceive =>
    split at h
    · cases h
      exact .receives ‹_› ‹_›
    · cases h
  | sinkSettle index =>
    obtain ⟨hrunning, h⟩ := h
    cases h
    exact .settles hrunning
  | sinkAcknowledge index =>
    split at h
    next delivery _ hget =>
      cases h
      exact .commits (mem_of_getElem? hget)
    · cases h

/-! ## The invariant -/

structure Inv (input : List (DriverInput B D)) (s : DriverState A B D) : Prop where
  taken : s.handled ++ s.phase.inHand <+: input
  flow : s.phase.proceeding → s.handled ++ s.phase.inHand ++ s.input = input
  closing :
    s.phase = .draining none → s.cancelled = false → s.inputClosedEarly = false → s.handled = input
  finished : s.phase = .returned (.ok ()) → s.cancelled = false →
    s.inputClosedEarly = false → s.handled = input ∧ s.channel = []
  delivered : s.handled.filterMap delivery? = s.received ++ s.channel
  between : s.phase.idle → s.sessionRunning = false ∧ s.channel = [] ∧ s.unsettled = []
  evident : ∀ event ∈ s.phase.evidence, event ∈ s.trace
  committed : ∀ id, .committedThrough id ∈ s.trace → ∃ entry ∈ s.handled, entry.id = id
  admitted :
    ∀ id dataset, .dataset id dataset ∈ s.handled → .prepared id ∈ s.trace ∧ .updated id ∈ s.trace
  ordered : ∀ before id after, s.trace = before ++ .committedThrough id :: after →
    ∀ barrier dataset, .dataset barrier dataset ∈ input →
    barrier ≤ id → .prepared barrier ∈ before ∧ .updated barrier ∈ before
  abandoned :
    ∀ id, .abandoned id ∈ s.trace → s.phase.proceeding = false ∧ ∀ entry ∈ s.handled, entry.id < id

theorem inv_start (admission : A) (input : List (DriverInput B D)) :
    (start admission input).Inv input where
  taken := nil_prefix
  flow _ := rfl
  closing h := by cases h
  finished h := by cases h
  delivered := rfl
  between _ := ⟨rfl, rfl, rfl⟩
  evident := by simp [start, evidence]
  committed := by simp [start]
  admitted := by simp [start]
  ordered := by simp [start]
  abandoned := by simp [start]

section
variable {input done : List (DriverInput B D)} {entry other : DriverInput B D}
section
variable (hids : input.Pairwise (·.id < ·.id))
include hids

/-- Ids grow along the input, so an input whose id does not exceed that of a
handled one is handled itself. -/
theorem mem_of_id_le (hdone : done <+: input) (hentry : entry ∈ done) (hother : other ∈ input)
    (hle : other.id ≤ entry.id) : other ∈ done := by
  obtain ⟨rest, rfl⟩ := hdone
  rcases mem_append.mp hother with hmem | hmem
  · exact hmem
  have hlt := (pairwise_append.mp hids).2.2 entry hentry other hmem
  omega

theorem id_lt_of_prefix (hdone : done ++ [entry] <+: input) (hother : other ∈ done) :
    other.id < entry.id := by
  obtain ⟨rest, rfl⟩ := hdone
  have hpairs := (pairwise_append.mp hids).1
  exact (pairwise_append.mp hpairs).2.2 other hother entry (by simp)

end
end

theorem append_singleton_eq {before after : List DriverEvent}
    {event : DriverEvent} (h : trace ++ [last] = before ++ event :: after) :
    (before = trace ∧ event = last) ∨ ∃ rest, trace = before ++ event :: rest := by
  rcases eq_nil_or_concat after with rfl | ⟨rest, other, rfl⟩
  · obtain ⟨hbefore, hlast⟩ := append_inj' h rfl
    exact .inl ⟨hbefore.symm, (List.cons.inj hlast).1.symm⟩
  refine .inr ⟨rest, ?_⟩
  have hsplit : trace ++ [last] = (before ++ event :: rest) ++ [other] := by simpa using h
  exact (append_inj' hsplit rfl).1

variable {input : List (DriverInput B D)}

/-- Appending to the trace keeps the order of acknowledgements when the new
event, if it is one, acknowledges admitted barriers only. -/
theorem ordered_append
    (h : ∀ before id after, trace = before ++ .committedThrough id :: after →
      ∀ barrier ds, DriverInput.dataset barrier ds ∈ input → barrier ≤ id →
        .prepared barrier ∈ before ∧ .updated barrier ∈ before)
    (hlast : ∀ id, last = .committedThrough id →
      ∀ barrier ds, DriverInput.dataset barrier ds ∈ input → barrier ≤ id →
        .prepared barrier ∈ trace ∧ .updated barrier ∈ trace) :
    ∀ before id after, trace ++ [last] = before ++ .committedThrough id :: after →
      ∀ barrier ds, DriverInput.dataset barrier ds ∈ input → barrier ≤ id →
        .prepared barrier ∈ before ∧ .updated barrier ∈ before := by
  intro before id after hsplit
  obtain ⟨rfl, hid⟩ | ⟨rest, hold⟩ := append_singleton_eq hsplit
  · exact hlast id hid.symm
  · exact h before id rest hold

theorem Inv.prefix_handled (h : s.Inv input) : s.handled <+: input :=
  (prefix_append _ _).trans h.taken

theorem ne_draining {phase : DriverPhase B D} (h : phase.proceeding) : phase ≠ .draining none := by
  rintro rfl
  cases h

theorem ne_returned {phase : DriverPhase B D} (h : phase.proceeding) :
    phase ≠ .returned result := by
  rintro rfl
  cases h

/-! ## Each move keeps the invariant -/

section
variable {input : List (DriverInput B D)} {phase : DriverPhase B D} {running : Bool}
  {delivery : EvolvingDelivery B} {entry : DriverInput B D} {event : DriverEvent} {admission : A}
section
variable (h : s.Inv input)
include h

theorem Inv.not_abandoned (hproceeding : s.phase.proceeding) (id : ℕ) :
    .abandoned id ∉ s.trace := by
  intro hmem
  have hstopped := (h.abandoned id hmem).1
  cases hproceeding.symm.trans hstopped

theorem Inv.not_idle (hrunning : s.sessionRunning) : s.phase.idle = false := by
  by_contra hidle
  have hstopped := (h.between (by simpa using hidle)).1
  cases hrunning.symm.trans hstopped

theorem Inv.changePhase (hbefore : s.phase.proceeding)
    (hproceeding : phase.proceeding) (hhand : phase.inHand = s.phase.inHand)
    (hidle : phase.idle → running = false ∧ s.channel = [] ∧ s.unsettled = [])
    (hevidence : phase.evidence = []) :
    Inv input { s with phase, sessionRunning := running } where
  __ := h
  taken := by
    rw [hhand]
    exact h.taken
  flow _ := by
    rw [hhand]
    exact h.flow hbefore
  closing hc := absurd hc (ne_draining hproceeding)
  finished hc := absurd hc (ne_returned hproceeding)
  between := hidle
  evident := by simp [hevidence]
  abandoned id hmem := absurd hmem (h.not_abandoned hbefore id)

theorem Inv.handles {channel : List (EvolvingDelivery B)} (hhand : s.phase.inHand = [entry])
    (hbefore : s.phase.proceeding) (hproceeding : phase.proceeding) (hnext : phase.inHand = [])
    (hchannel : channel = s.channel ++ entry.delivery?.toList)
    (hidle : phase.idle → running = false ∧ channel = [] ∧ s.unsettled = [])
    (hevidence : phase.evidence = [])
    (hadmitted : ∀ id ds, entry = .dataset id ds → .prepared id ∈ s.trace ∧ .updated id ∈ s.trace) :
    Inv input
      { s with phase, sessionRunning := running, channel, handled := s.handled ++ [entry] } := by
  have hflow := h.flow hbefore
  have htaken := h.taken
  rw [hhand] at hflow htaken
  refine
    { h with
      taken := by simpa [hnext] using htaken
      flow := fun _ => by simpa [hnext] using hflow
      closing := fun hc => absurd hc (ne_draining hproceeding)
      finished := fun hc => absurd hc (ne_returned hproceeding)
      delivered := ?_, between := hidle, evident := by simp [hevidence]
      committed := ?_, admitted := ?_, abandoned := fun id hmem =>
        absurd hmem (h.not_abandoned hbefore id) }
  · rw [filterMap_append, h.delivered, hchannel]
    cases entry <;> simp [delivery?]
  · intro id hmem
    obtain ⟨entry, hentry, hid⟩ := h.committed id hmem
    exact ⟨entry, mem_append_left _ hentry, hid⟩
  intro id ds hmem
  rcases mem_append.mp hmem with hmem | hmem
  · exact h.admitted id ds hmem
  · exact hadmitted id ds (mem_singleton.mp hmem).symm

theorem Inv.closes {early : Bool} (hproceeding : s.phase.proceeding)
    (hreason : s.cancelled ∨ early ∨ s.phase.inHand = [] ∧ s.input = []) :
    Inv input { s with phase := .draining none, inputClosedEarly := early } := by
  have hflow := h.flow hproceeding
  refine
    { h with
      taken := by simpa [inHand] using h.prefix_handled
      flow := fun hgoing => by cases hgoing
      closing := ?_, finished := fun hclosed => by cases hclosed
      between := fun hidle => by cases hidle
      evident := by simp [evidence]
      abandoned := fun id hmem => absurd hmem (h.not_abandoned hproceeding id) }
  intro _ hc hearly
  rcases hreason with hreason | hreason | ⟨hhand, hinput⟩
  · cases hreason.symm.trans hc
  · cases hreason.symm.trans hearly
  · simpa [hhand, hinput] using hflow

theorem Inv.takes {rest : List (DriverInput B D)}
    (hphase : s.phase = .forwarding) (hinput : s.input = entry :: rest)
    (hhand : phase.inHand = [entry]) (hproceeding : phase.proceeding) (hidle : phase.idle = false)
    (hevidence : phase.evidence = []) : Inv input { s with input := rest, phase } := by
  have hbefore : s.phase.proceeding := by rw [hphase]; rfl
  have hflow : s.handled ++ [entry] ++ rest = input := by
    have hall := h.flow hbefore
    rw [hphase, hinput] at hall
    simpa [inHand] using hall
  refine
    { h with
      taken := ?_, flow := ?_, closing := fun hc => absurd hc (ne_draining hproceeding)
      finished := fun hc => absurd hc (ne_returned hproceeding)
      between := fun hnow => absurd (hidle.symm.trans hnow) (by simp)
      evident := by simp [hevidence]
      abandoned := fun id hmem => absurd hmem (h.not_abandoned hbefore id) }
  · rw [hhand]
    exact ⟨rest, hflow⟩
  intro _
  rw [hhand]
  exact hflow

theorem Inv.returns {res : Except String Unit}
    (hresult : res = .ok () → s.cancelled = false → s.inputClosedEarly = false →
      s.handled = input ∧ s.channel = []) :
    Inv input { s with sessionRunning := running, phase := .returned res } where
  __ := h
  taken := by simpa [inHand] using h.prefix_handled
  flow hgoing := by cases hgoing
  closing hc := by cases hc
  finished hc := by
    cases hc
    exact hresult rfl
  between hidle := by cases hidle
  evident := by simp [evidence]
  abandoned id hmem := ⟨rfl, (h.abandoned id hmem).2⟩

theorem Inv.record (hids : input.Pairwise (·.id < ·.id))
    (hcommit : ∀ id, event = .committedThrough id → ∃ entry ∈ s.handled, entry.id = id)
    (habandon : ∀ id, event = .abandoned id → s.phase.proceeding = false ∧
    ∀ entry ∈ s.handled, entry.id < id) : Inv input { s with trace := s.trace ++ [event] } := by
  refine
    { h with
      evident := fun required hr => mem_append_left _ (h.evident required hr)
      committed := ?_, admitted := fun id dataset hmem =>
        ⟨mem_append_left _ (h.admitted id dataset hmem).1,
          mem_append_left _ (h.admitted id dataset hmem).2⟩
      ordered := ordered_append h.ordered ?_, abandoned := ?_ }
  · intro id hmem
    rcases mem_append.mp hmem with hmem | hmem
    · exact h.committed id hmem
    · exact hcommit id (mem_singleton.mp hmem).symm
  · intro id heq barrier ds hbarrier hle
    obtain ⟨entry, hentry, rfl⟩ := hcommit id heq
    exact h.admitted barrier ds (mem_of_id_le hids h.prefix_handled hentry hbarrier hle)
  intro id hmem
  rcases mem_append.mp hmem with hmem | hmem
  · exact h.abandoned id hmem
  · exact habandon id (mem_singleton.mp hmem).symm

theorem Inv.changeAdmission (admission : A) : Inv input { s with admission } :=
  { h with }

end
section
variable (hids : input.Pairwise (·.id < ·.id)) (h : s.Inv input)
include hids h

theorem Inv.abandons {res : Except String Unit} (hhand : s.phase.inHand = [entry])
    (hresult : res = .ok () → s.cancelled) :
    Inv input
      { s with
        admission, sessionRunning := running
        phase := .returned res, trace := s.trace ++ [.abandoned entry.id] } := by
  have htaken := h.taken
  rw [hhand] at htaken
  have hr :
      Inv input { s with admission, sessionRunning := running, phase := .returned res } := by
    apply (h.changeAdmission admission).returns
    intro hok hc
    exact absurd ((hresult hok).symm.trans hc) (by simp)
  apply hr.record hids (by simp)
  rintro id ⟨⟩
  exact ⟨rfl, fun other hother => id_lt_of_prefix hids htaken hother⟩

theorem Inv.advances {entry : ℕ} (hidle : s.phase.idle) (hbefore : s.phase.proceeding)
    (hproceeding : phase.proceeding) (hhand : phase.inHand = s.phase.inHand)
    (hevent : event = .prepared entry ∨ event = .updated entry)
    (hevidence : ∀ required ∈ phase.evidence, required ∈ s.phase.evidence ∨ required = event) :
    Inv input { s with admission, phase, trace := s.trace ++ [event] } := by
  have hr : Inv input { s with admission, trace := s.trace ++ [event] } := by
    refine (h.changeAdmission admission).record hids ?_ ?_
    all_goals
      intro id heq
      rcases hevent with rfl | rfl <;> cases heq
  refine
    { hr with
      taken := ?_, flow := ?_, closing := fun hc => absurd hc (ne_draining hproceeding)
      finished := fun hc => absurd hc (ne_returned hproceeding)
      between := fun _ => h.between hidle
      evident := ?_, abandoned := fun id hmem => absurd hmem (hr.not_abandoned hbefore id) }
  · rw [hhand]
    exact h.taken
  · intro _
    rw [hhand]
    exact h.flow hbefore
  intro required hrequired
  rcases hevidence required hrequired with hold | rfl
  · exact mem_append_left _ (h.evident required hold)
  · simp

theorem Inv.acknowledges {id : ℕ} {ds : D} (hphase : s.phase = .acknowledging id ds) :
    Inv input
      { s with
        phase := .opening none, handled := s.handled ++ [.dataset id ds]
        trace := s.trace ++ [.committedThrough id] } := by
  have hbetween := h.between (hphase ▸ rfl)
  have hevident := h.evident
  rw [hphase] at hevident
  have hhandled :
      Inv input { s with phase := .opening none, handled := s.handled ++ [.dataset id ds] } := by
    refine h.handles (hphase ▸ rfl) (hphase ▸ rfl) rfl rfl ?_ (fun _ => hbetween) rfl ?_
    · simp [delivery?]
    rintro _ _ ⟨⟩
    exact ⟨hevident _ (by simp [evidence]), hevident _ (by simp [evidence])⟩
  refine hhandled.record hids ?_ (by simp)
  rintro _ ⟨⟩
  exact ⟨.dataset id ds, by simp, rfl⟩

theorem Inv.commits (hmem : delivery ∈ s.received) :
    Inv input { s with trace := s.trace ++ [.committedThrough delivery.id] } := by
  have hhandle : DriverInput.data delivery ∈ s.handled := by
    have hr : delivery ∈ s.handled.filterMap delivery? := by
      rw [h.delivered]
      exact mem_append_left _ hmem
    obtain ⟨entry, hentry, hget⟩ := mem_filterMap.mp hr
    cases entry with
    | data found =>
      cases hget
      exact hentry
    | dataset id dataset => cases hget
  refine h.record hids ?_ (by simp)
  rintro _ ⟨⟩
  exact ⟨_, hhandle, rfl⟩

theorem Inv.of_moves (hmoves : Moves s t) : t.Inv input := by
  cases hmoves with
  | cancels =>
    exact
      { h with
        closing := fun _ hc => by cases hc
        finished := fun _ hc => by cases hc }
  | opens hphase =>
    exact h.changePhase (hphase ▸ rfl) rfl (hphase ▸ rfl) (fun hidle => by cases hidle) rfl
  | forwards hhand hproceeding =>
    exact h.handles hhand hproceeding rfl rfl rfl (fun hidle => by cases hidle) rfl
      fun _ _ hdata => by cases hdata
  | closes hproceeding hreason => exact h.closes hproceeding hreason
  | takes hphase hinput hhand hproceeding hidle hevidence =>
    exact h.takes hphase hinput hhand hproceeding hidle hevidence
  | fails => exact h.returns fun hok => by cases hok
  | finishes hphase hdrained =>
    refine h.returns fun _ hc hearly => ?_
    exact ⟨h.closing hphase hc hearly, hdrained hc⟩
  | abandons entry hhand hproceeding hresult => exact h.abandons hids hhand hresult
  | crosses hhand hbefore hproceeding hchannel hunsettled hevidence =>
    exact h.changePhase hbefore hproceeding hhand (fun _ => ⟨rfl, hchannel, hunsettled⟩) hevidence
  | advances hidle hbefore hproceeding hhand hevent hevidence =>
    exact h.advances hids hidle hbefore hproceeding hhand hevent hevidence
  | acknowledges hphase => exact h.acknowledges hids hphase
  | @receives delivery rest hrunning hchannel =>
    refine
      { h with
        finished := ?_, delivered := ?_, between := fun hidle =>
          absurd ((h.not_idle hrunning).symm.trans hidle) (by simp) }
    · intro hclosed hc hearly
      have hempty := (h.finished hclosed hc hearly).2
      cases hchannel.symm.trans hempty
    rw [h.delivered, hchannel]
    simp
  | settles hrunning =>
    exact
      { h with
        between := fun hidle => absurd ((h.not_idle hrunning).symm.trans hidle) (by simp) }
  | commits hmem => exact h.commits hids hmem

end
end

/-! ## The driver -/

theorem inv_of_reachable {admission : A}
    (hids : input.Pairwise fun first second => first.id < second.id)
    (hreach : Reachable (step ops) (start admission input) s) : s.Inv input :=
  hreach.invariant (fun _ _ _ h hstep => h.of_moves hids (moves_of_step hstep))
    (inv_start admission input)

def preparing (s : DriverState A B D) : Prop :=
  (∃ id dataset, s.phase = .preparingSource id dataset) ∨
    ∃ delivery dataset rest, s.phase = .preparingData delivery dataset rest

/-- While a preparation runs the sink has no session and nothing left to write;
an acknowledgement that covers a dataset barrier comes after its preparation
and its discovery update; an abandoned input is never acknowledged; and the
deliveries that reach the sink are those of the input, in order, up to some
point, which is the end when the driver returns on its own. -/
theorem admission_safe {admission : A} {input : List (DriverInput B D)}
    (hids : input.Pairwise (·.id < ·.id))
    (hreach : Reachable (step ops) (start admission input) s) :
    (s.preparing → s.sessionRunning = false ∧ s.channel = [] ∧ s.unsettled = []) ∧
    (∀ before id after, s.trace = before ++ .committedThrough id :: after →
      ∀ barrier dataset, .dataset barrier dataset ∈ input → barrier ≤ id →
        .prepared barrier ∈ before ∧ .updated barrier ∈ before) ∧
    (∀ id acknowledged, .abandoned id ∈ s.trace →
      .committedThrough acknowledged ∈ s.trace → acknowledged < id) ∧
    s.received <+: input.filterMap delivery? ∧
    (s.phase = .returned (.ok ()) → s.cancelled = false → s.inputClosedEarly = false →
      s.received = input.filterMap delivery?) := by
  have h := inv_of_reachable hids hreach
  refine ⟨?_, h.ordered, ?_, ?_, ?_⟩
  · intro hpreparing
    apply h.between
    rcases hpreparing with ⟨id, dataset, hphase⟩ | ⟨delivery, dataset, rest, hphase⟩
    all_goals
      rw [hphase]
      rfl
  · intro id acknowledged habandoned hcommitted
    obtain ⟨entry, hentry, rfl⟩ := h.committed acknowledged hcommitted
    exact (h.abandoned id habandoned).2 entry hentry
  · have hprefix := h.prefix_handled.filterMap delivery?
    rw [h.delivered] at hprefix
    exact (prefix_append _ _).trans hprefix
  intro hphase hc hearly
  obtain ⟨hhandle, hchannel⟩ := h.finished hphase hc hearly
  have hdelivered := h.delivered
  rw [hhandle, hchannel, append_nil] at hdelivered
  exact hdelivered.symm

section Example
open Transferia.Delivery

def lenientChecks : AdmissionChecks ℕ Unit where
  dataset batch _ := .ok
    { inNamespace := batch.inNamespace
      name := batch.table, role := .fromIsDlq batch.isDlq, updatePolicy := .strict
      incomingSchema := batch.schema, storedSchema := batch.schema
      systemColumns := batch.systemColumns }
  retainSystemColumns dataset _ := dataset
  hasMiddlewares := false
  validateMiddlewares := .ok
  mergeCompatibleDatasets := .ok
  validateDiscoveredPipeline _ := .ok ()

def ordersDataset : DiscoveredDataset ℕ Unit where
  inNamespace := none
  name := "orders"
  role := .main
  updatePolicy := .strict
  incomingSchema := 5
  storedSchema := 5
  systemColumns := []

def eventsBatch : SinkBatch ℕ Unit where
  inNamespace := none
  table := "events"
  isDlq := false
  schema := 7
  systemColumns := []

/-- A delivery with a new dataset and then a source-authored dataset, up to
the end of the input. -/
def twoAdmissions : List DriverLabel := [.openSession true, .receive, .sessionReturns (.ok ()),
    .prepareReturns (.ok ()), .updateReturns (.ok ()), .openSession true,
    .sinkReceive, .sinkSettle 0, .sinkAcknowledge 0, .receive,
    .sessionReturns (.ok ()), .prepareReturns (.ok ()),
    .updateReturns (.ok ()), .acknowledgeReturns true, .openSession true,
    .receive, .sessionReturns (.ok ())]

theorem admission_safe_twoAdmissions :
    ∃ s : DriverState (AdmissionCoordinator ℕ Unit) (SinkBatch ℕ Unit) (DiscoveredDataset ℕ Unit),
      exec (step (AdmissionCoordinator.admission lenientChecks))
        (start { datasets := [], keepSystemColumns := false }
          [.data { id := 1, outputs := [eventsBatch] },
            .dataset 2 ordersDataset]) twoAdmissions = some s ∧
      s.phase = .returned (.ok ()) ∧
      s.trace = [.prepared 1, .updated 1, .committedThrough 1, .prepared 2,
        .updated 2, .committedThrough 2] ∧
      s.received = [{ id := 1, outputs := [eventsBatch] }] := by
  have hruns : ∃ s : DriverState (AdmissionCoordinator ℕ Unit)
        (SinkBatch ℕ Unit) (DiscoveredDataset ℕ Unit),
      exec (step (AdmissionCoordinator.admission lenientChecks))
        (start { datasets := [], keepSystemColumns := false }
          [.data { id := 1, outputs := [eventsBatch] },
            .dataset 2 ordersDataset]) twoAdmissions = some s ∧
      s.phase = .returned (.ok ()) ∧ s.cancelled = false ∧ s.inputClosedEarly = false ∧
      s.trace = [.prepared 1, .updated 1, .committedThrough 1, .prepared 2,
        .updated 2, .committedThrough 2] := ⟨_, rfl, rfl, rfl, rfl, rfl⟩
  obtain ⟨s, hrun, hphase, hc, hearly, ht⟩ := hruns
  have hids : Pairwise (fun first snd : DriverInput (SinkBatch ℕ Unit)
        (DiscoveredDataset ℕ Unit) => first.id < snd.id)
      [.data { id := 1, outputs := [eventsBatch] }, .dataset 2 ordersDataset] := by
    simp [DriverInput.id]
  have hsafe := admission_safe hids ⟨twoAdmissions, hrun⟩
  exact ⟨s, hrun, hphase, ht, hsafe.2.2.2.2 hphase hc hearly⟩

end Example
end DriverState
end Transferia.Pipeline
