import Transferia.MySql.SnapshotStream
import Transferia.Postgres.SnapshotStream

/-!
# The phase only moves forward

Each write replaces the record that its writer has read.  The writers of a
snapshot boundary and of its streaming phase are the execution that last
claimed, so the records of a run form one chain of claims, one snapshot, and one
streaming phase.
-/

namespace Transferia.Delivery
open List Registry Support Function Option HandoffRun
open HandoffRun (step)
variable {Identity Observation Discovered Table Boundary : Type}

/-! ## The laws -/

def PersistedPhase.boundary? : PersistedPhase Boundary → Option Boundary
  | .claimed => none
  | .snapshot boundary => some boundary
  | .streaming boundary => some boundary

/-- How one record replaces another.  Numbers are the writers. -/
inductive Moves : ℕ × PersistedState Identity Table Boundary →
    ℕ × PersistedState Identity Table Boundary → Prop
  | recycle (old new : ℕ) (record : PersistedState Identity Table Boundary)
      (hclaimed : record.state = .claimed) : Moves (old, record) (new, record)
  | snapshot (writer : ℕ) (record : PersistedState Identity Table Boundary)
      (boundary : Boundary) (tables : List Table) (hclaimed : record.state = .claimed) :
      Moves (writer, record)
        (writer, { record with authoritativeTables := some tables, state := .snapshot boundary })
  | streaming (writer : ℕ) (record : PersistedState Identity Table Boundary)
      (boundary : Boundary) (hsnapshot : record.state = .snapshot boundary) : Moves (writer, record)
        (writer, { record with state := .streaming boundary })

/-- The execution that takes a step, with the settings it runs under. -/
def HandoffLabel.actor (run : HandoffRun Identity Table Boundary) :
    HandoffLabel Identity Observation Discovered Boundary → Option (ℕ × Identity)
  | .claim execution identity _ => some (execution, identity)
  | .write execution | .markSnapshotReady execution _ _
  | .markStreaming execution =>
    match run.executions execution with
    | .claiming identity _ _ => some (execution, identity)
    | .tracking tracker => some (execution, tracker.identity.identity)
    | _ => none
  | .crash _ => none

/-- One writer stored `boundary` with its snapshot and marked the record as
streaming from it. -/
def StreamsFrom (written : List (ℕ × PersistedState Identity Table Boundary))
    (writer : ℕ) (boundary : Boundary) : Prop :=
  ∃ snapshot streaming, (writer, snapshot) ∈ written ∧ (writer, streaming) ∈ written ∧
    snapshot.state = .snapshot boundary ∧ streaming.state = .streaming boundary ∧
    streaming.authoritativeTables = snapshot.authoritativeTables

/-- What the handoff guarantees in every state. -/
structure HandoffLaws [DecidableEq Identity]
    (connector : HandoffConnector Identity Observation Discovered Table Boundary)
    (run : HandoffRun Identity Table Boundary) : Prop where
  stored : run.storage.Holds connector.key (run.written.map Prod.snd)
  first : ∀ entry, run.written.head? = some entry →
    ∃ identity, entry.2 = connector.persistedState identity
  moves : run.written.IsChain Moves
  fixed : ∀ old ∈ run.written, ∀ new ∈ run.written,
    ∀ boundary, old.2.state.boundary? = some boundary → new.2.state.boundary? = none ∨
        new.2.state.boundary? = some boundary ∧
          new.2.authoritativeTables = old.2.authoritativeTables
  reported : ∀ execution boundary, (execution, boundary) ∈ run.reported →
    ∃ writer, StreamsFrom run.written writer boundary
  foreign : ∀ label run' execution identity value, run.step connector label = some run' →
    label.actor run = some (execution, identity) → run.storage connector.key = some value →
    value.payload.identity ≠ identity → run'.storage = run.storage ∧
      ∃ failure, run'.executions execution = .failed failure

/-! ## The invariant -/

section
variable (connector : HandoffConnector Identity Observation Discovered Table Boundary)

def Knows (written : List (ℕ × PersistedState Identity Table Boundary)) (execution : ℕ) : Execution
    Identity Table Boundary → Prop
  | .claiming identity (some revision) _ =>
    ∃ writer, written[revision]? = some (writer, connector.persistedState identity)
  | .tracking tracker => ∃ writer, written[tracker.revision]? = some (writer, tracker.identity) ∧
      ((∃ boundary, tracker.identity.state = .streaming boundary) ∨ writer = execution)
  | _ => True

structure HandoffInvariant (run : HandoffRun Identity Table Boundary) : Prop where
  stored : run.storage.Holds connector.key (run.written.map Prod.snd)
  first : ∀ entry, run.written.head? = some entry →
    ∃ identity, entry.2 = connector.persistedState identity
  moves : run.written.IsChain Moves
  identities : ∀ old ∈ run.written, ∀ new ∈ run.written, old.2.identity = new.2.identity
  last : ∀ last, run.written.getLast? = some last → ∀ entry ∈ run.written,
    entry.2.state.boundary? = none ∨ entry.2.state.boundary? = last.2.state.boundary? ∧
    entry.2.authoritativeTables = last.2.authoritativeTables
  streamed : ∀ entry ∈ run.written,
    ∀ boundary, entry.2.state = .streaming boundary → StreamsFrom run.written entry.1 boundary
  reported : ∀ execution boundary, (execution, boundary) ∈ run.reported →
    ∃ writer, StreamsFrom run.written writer boundary
  knows : ∀ execution, Knows connector run.written execution (run.executions execution)

end
section
variable {connector : HandoffConnector Identity Observation Discovered Table Boundary}
  {run run' : HandoffRun Identity Table Boundary}
  {written : List (ℕ × PersistedState Identity Table Boundary)} {execution : ℕ}
  {more : List (ℕ × PersistedState Identity Table Boundary)}

theorem Knows.append {state : Execution Identity Table Boundary}
    (h : Knows connector written execution state) :
    Knows connector (written ++ more) execution state := by
  have hmore : ∀ {place : ℕ} {entry}, written[place]? = some entry →
      (written ++ more)[place]? = some entry := by
    intro place entry hplace
    obtain ⟨hlt, -⟩ := List.getElem?_eq_some_iff.mp hplace
    rw [getElem?_append_left hlt, hplace]
  cases state with
  | idle | failed fail | crashed => trivial
  | claiming ident expRev conflict =>
    cases expRev with
    | none => trivial
    | some rev =>
      obtain ⟨writer, hplace⟩ := h
      exact ⟨writer, hmore hplace⟩
  | tracking tracker =>
    obtain ⟨writer, hplace, hwriter⟩ := h
    exact ⟨writer, hmore hplace, hwriter⟩

theorem StreamsFrom.append {wr : ℕ} {boundary : Boundary} (h : StreamsFrom written wr boundary) :
    StreamsFrom (written ++ more) wr boundary := by
  obtain ⟨snap, streaming, hsnapshot, hstream, hstates⟩ := h
  exact ⟨snap, streaming, mem_append_left _ hsnapshot, mem_append_left _ hstream, hstates⟩

variable (h : HandoffInvariant connector run)
include h in
theorem HandoffInvariant.become {next : Execution Identity Table Boundary}
    (hnext : Knows connector run.written execution next) :
    HandoffInvariant connector (run.become execution next) := by
  refine { h with knows := fun other => ?_ }
  by_cases hother : other = execution
  · subst hother
    simpa [HandoffRun.become] using hnext
  simpa [HandoffRun.become, update_of_ne hother] using h.knows other

/-! ## One write -/

variable {old new : ℕ × PersistedState Identity Table Boundary}
  {entry : ℕ × PersistedState Identity Table Boundary}
  {α : Type} {next : PersistedState Identity Table Boundary}

def Replaces (connector : HandoffConnector Identity Observation Discovered Table Boundary)
    (written : List (ℕ × PersistedState Identity Table Boundary))
    (entry : ℕ × PersistedState Identity Table Boundary) : Prop :=
  (written = [] ∧ ∃ identity, entry.2 = connector.persistedState identity) ∨
    ∃ last, written.getLast? = some last ∧ Moves last entry

theorem Moves.identity (h : Moves old new) : new.2.identity = old.2.identity := by cases h <;> rfl

theorem Moves.boundary (h : Moves old new) : old.2.state.boundary? = none ∨ old.2.state.boundary? =
    new.2.state.boundary? ∧ old.2.authoritativeTables = new.2.authoritativeTables := by
  cases h with
  | recycle writer new record hclaimed | snapshot writer record boundary tables hclaimed =>
    rw [hclaimed]
    exact .inl rfl
  | streaming writer record boundary hsnapshot =>
    rw [hsnapshot]
    exact .inr ⟨rfl, rfl⟩

theorem Replaces.streams (h : Replaces connector written entry) {boundary : Boundary}
    (hs : entry.2.state = .streaming boundary) :
    StreamsFrom (written ++ [entry]) entry.1 boundary := by
  rcases h with ⟨-, ident, hclaimed⟩ | ⟨last, hlast, hmoves⟩
  · rw [hclaimed] at hs
    cases hs
  have hmem := mem_of_getLast? hlast
  cases hmoves with
  | recycle writer new record hclaimed => cases hclaimed.symm.trans hs
  | snapshot writer record boundary tables hclaimed => cases hs
  | streaming writer record boundary hsnapshot =>
    cases hs
    exact ⟨record, _, mem_append_left _ hmem,
      mem_append_right _ (mem_singleton_self _), hsnapshot, rfl, rfl⟩

include h in
theorem HandoffInvariant.replace (hreplaces : Replaces connector run.written entry)
    (hwritten : run'.written = run.written ++ [entry])
    (hstore : run'.storage.Holds connector.key (run'.written.map Prod.snd))
    (hreported : ∀ exe bd, (exe, bd) ∈ run'.reported → ∃ wr, StreamsFrom run'.written wr bd)
    (hknows : ∀ exe, Knows connector run'.written exe (run'.executions exe)) :
    HandoffInvariant connector run' := by
  refine ⟨hstore, ?_, ?_, ?_, ?_, ?_, hreported, hknows⟩
  · intro first hfst
    rw [hwritten, head?_append] at hfst
    cases hhead : run.written.head? with
    | some head =>
      rw [hhead] at hfst
      cases hfst
      exact h.first _ hhead
    | none =>
      rw [hhead] at hfst
      cases hfst
      rcases hreplaces with ⟨-, hclaimed⟩ | ⟨last, hlast, -⟩
      · exact hclaimed
      rw [head?_eq_none_iff.mp hhead] at hlast
      cases hlast
  · rw [hwritten, isChain_append]
    refine ⟨h.moves, isChain_singleton _, fun last hlast new hnew => ?_⟩
    cases hnew
    rcases hreplaces with ⟨hnil, -⟩ | ⟨other, hother, hmoves⟩
    · rw [hnil] at hlast
      cases hlast
    cases hother.symm.trans hlast
    exact hmoves
  · have hnew : ∀ old ∈ run.written, old.2.identity = entry.2.identity := by
      intro old hold
      rcases hreplaces with ⟨hnil, -⟩ | ⟨last, hlast, hmoves⟩
      · rw [hnil] at hold
        cases hold
      rw [hmoves.identity]
      exact h.identities old hold last (mem_of_getLast? hlast)
    intro old hold new hmem
    rw [hwritten, mem_append, mem_singleton] at hold hmem
    rcases hold with hold | rfl <;> rcases hmem with hmem | rfl
    · exact h.identities old hold new hmem
    · exact hnew old hold
    · exact (hnew new hmem).symm
    · rfl
  · intro last hlast old hold
    rw [hwritten, getLast?_concat] at hlast
    cases hlast
    rw [hwritten, mem_append, mem_singleton] at hold
    rcases hold with hold | rfl
    · rcases hreplaces with ⟨hnil, -⟩ | ⟨last, hlast, hmoves⟩
      · rw [hnil] at hold
        cases hold
      rcases h.last last hlast old hold with hnone | ⟨hsame, htables⟩
      · exact .inl hnone
      rw [hsame, htables]
      exact hmoves.boundary
    exact .inr ⟨rfl, rfl⟩
  intro old hold bd hs
  rw [hwritten, mem_append, mem_singleton] at hold
  rw [hwritten]
  rcases hold with hold | rfl
  · exact (h.streamed old hold bd hs).append
  · exact hreplaces.streams hs

include h in
/-- A stored record is the next one of the run, or nothing changes but the
execution fails. -/
theorem HandoffInvariant.store {expRev : Option ℕ} {body : PersistedState Identity Table Boundary}
    {conflict : String} {report : Option Boundary}
    (hreplaces :
      (expRev = none ∧ run.written = [] ∨ ∃ rev, expRev = some rev ∧ run.written.length = rev + 1) →
      Replaces connector run.written (execution, body))
    (hreport : ∀ bd, report = some bd → body.state = .streaming bd) :
    HandoffInvariant connector (run.store connector execution expRev body conflict report) := by
  unfold HandoffRun.store
  split
  · exact h.become trivial
  · exact h.become trivial
  rename_i value storage hw
  rcases h.stored.compareExchange hw with ⟨current, hc, -⟩ | ⟨hexp, happlied, hholds⟩
  · cases hc
  cases happlied
  rw [length_map] at hexp
  rw [map_eq_nil_iff] at hexp
  refine h.replace (hreplaces hexp) rfl ?_ ?_ ?_
  · rw [map_append]
    exact hholds
  · intro other bd hmem
    rcases mem_append.mp hmem with hold | hnew
    · obtain ⟨writer, hstreams⟩ := h.reported other bd hold
      exact ⟨writer, hstreams.append⟩
    cases report with
    | none => cases hnew
    | some reported =>
      cases mem_singleton.mp hnew
      exact ⟨execution, (hreplaces hexp).streams (hreport bd rfl)⟩
  intro other
  by_cases hother : other = execution
  · subst hother
    simp only [HandoffRun.become, update_self]
    refine ⟨other, ?_, .inr rfl⟩
    rw [length_map]
    exact getElem?_concat_length ..
  simpa [HandoffRun.become, update_of_ne hother] using (h.knows other).append

/-! ## All steps -/

theorem getLast?_of_length {values : List α} {place : ℕ} {value : α}
    (hplace : values[place]? = some value) (hlen : values.length = place + 1) :
    values.getLast? = some value := by
  rw [getLast?_eq_getElem?, hlen, Nat.add_sub_cancel, hplace]

include h in
theorem HandoffInvariant.read {value : DurableValue (PersistedState Identity Table Boundary)}
    (hval : run.storage connector.key = some value) :
    ∃ wr, run.written[value.revision]? = some (wr, value.payload) ∧
    run.written.length = value.revision + 1 := by
  obtain ⟨hlen, hplace⟩ := h.stored.read hval
  rw [length_map] at hlen
  rw [getElem?_map] at hplace
  obtain ⟨⟨wr, payload⟩, hentry, rfl⟩ := map_eq_some_iff.mp hplace
  exact ⟨wr, hentry, hlen⟩

include h in
theorem HandoffInvariant.knows_tracking {trk : SnapshotStreamTracker Identity Table Boundary}
    (htracking : run.executions execution = .tracking trk) :
    ∃ wr, run.written[trk.revision]? = some (wr, trk.identity) ∧
    ((∃ bd, trk.identity.state = .streaming bd) ∨ wr = execution) := by
  have hknows := h.knows execution
  rw [htracking] at hknows
  exact hknows

theorem violation_eq_ok {res : Except String α} {value : α} :
    violation res = .ok value ↔ res = .ok value := by
  cases res <;> simp [violation]

theorem ensureText_eq_ok {cond : Bool} {text : String} : ensureText cond text = .ok () ↔ cond := by
  cases cond <;> simp [ensureText]

theorem PersistedPhase.isClaimed_iff {phase : PersistedPhase Boundary} :
    phase.isClaimed ↔ phase = .claimed := by
  cases phase <;> simp [isClaimed]

section
variable {identity : PersistedState Identity Table Boundary} {boundary : Boundary}

theorem markSnapshotReady_ok {tables : List Discovered}
    (h : connector.markSnapshotReady identity boundary tables = .ok next) :
    identity.state = .claimed ∧ ∃ authoritative,
      next = { identity with
        authoritativeTables := some authoritative, state := .snapshot boundary } := by
  obtain ⟨hclaimed, h⟩ := check_bind_eq_ok.mp h
  obtain ⟨authoritative, -, h⟩ := of_bind h
  cases h
  refine ⟨?_, authoritative, rfl⟩
  exact PersistedPhase.isClaimed_iff.mp (ensureText_eq_ok.mp (violation_eq_ok.mp hclaimed))

theorem markStreaming_ok (h : connector.markStreaming identity = .ok (next, boundary)) :
    identity.state = .snapshot boundary ∧
    next = { identity with state := .streaming boundary } := by
  unfold HandoffConnector.markStreaming at h
  split at h
  next hs =>
    split at h
    · cases h
    cases h
    exact ⟨hs, rfl⟩
  · cases h

end
include h in
theorem HandoffInvariant.fixed (hold : old ∈ run.written) (hnew : new ∈ run.written)
    {bd : Boundary} (hboundary : old.2.state.boundary? = some bd) : new.2.state.boundary? = none ∨
    new.2.state.boundary? = some bd ∧ new.2.authoritativeTables = old.2.authoritativeTables := by
  have hne : run.written ≠ [] := ne_nil_of_mem hold
  have hlast := getLast?_eq_some_getLast hne
  rcases h.last _ hlast old hold with hnone | ⟨hsame, htables⟩
  · cases hnone.symm.trans hboundary
  rcases h.last _ hlast new hnew with hnone | ⟨hsame', htables'⟩
  · exact .inl hnone
  · exact .inr ⟨by rw [hsame', ← hsame, hboundary], by rw [htables', htables]⟩

section
variable [DecidableEq Identity] {observation : Observation}
  {decision : ClaimDecision Identity Table Boundary}
  {value : DurableValue (PersistedState Identity Table Boundary)}
  {label : HandoffLabel Identity Observation Discovered Boundary}

theorem decodeAndValidate_ok {actual expected : PersistedState Identity Table Boundary}
    (h : connector.decodeAndValidate actual expected = .ok ()) :
    actual.version = connector.stateVersion ∧ actual.state.isClaimed =
    actual.authoritativeTables.isNone ∧ actual.identity = expected.identity := by
  obtain ⟨hv, h⟩ := check_bind_eq_ok.mp h
  obtain ⟨hp, h⟩ := check_bind_eq_ok.mp h
  obtain ⟨hident, -⟩ := check_bind_eq_ok.mp h
  exact ⟨of_decide_eq_true (ensureText_eq_ok.mp hv), of_decide_eq_true (ensureText_eq_ok.mp hp),
    of_decide_eq_true (ensureText_eq_ok.mp hident)⟩

theorem claimOrResume_ok {identity : Identity}
    {cur : Option (DurableValue (PersistedState Identity Table Boundary))}
    (h : connector.claimOrResume identity observation cur = .ok decision) :
    (∃ value bd, cur = some value ∧
        value.payload.identity = identity ∧
        value.payload.state = .streaming bd ∧
        decision = .streaming { revision := value.revision, identity := value.payload } bd) ∨
    (∃ value, cur = some value ∧
        value.payload = connector.persistedState identity ∧
        decision = .write (some value.revision) connector.recycleConflict) ∨
    (cur = none ∧ ∃ conflict, decision = .write none conflict) := by
  replace h := after_check h
  cases cur with
  | none =>
    replace h := after_check h
    cases h
    exact .inr (.inr ⟨rfl, _, rfl⟩)
  | some value =>
    obtain ⟨hvalid, h⟩ := check_bind_eq_ok.mp h
    obtain ⟨hversion, hp, hident⟩ := decodeAndValidate_ok (violation_eq_ok.mp hvalid)
    cases hs : value.payload.state with
    | streaming bd =>
      rw [hs] at h
      cases h
      exact .inl ⟨value, bd, rfl, hident, hs, rfl⟩
    | snapshot bd =>
      rw [hs] at h
      cases h
    | claimed =>
      rw [hs] at h
      replace h := after_check h
      cases h
      refine .inr (.inl ⟨value, rfl, ?_, rfl⟩)
      -- A claimed record has no tables, so nothing else can differ.
      rw [hs] at hp
      have htables : value.payload.authoritativeTables = none := isNone_iff_eq_none.mp hp.symm
      obtain ⟨revision, ver, other, tables, state⟩ := value
      cases hs
      cases htables
      cases hversion
      cases hident
      rfl

theorem identity_of_claimOrResume {identity : Identity}
    (h : connector.claimOrResume identity observation (some value) = .ok decision) :
    value.payload.identity = identity := by
  rcases claimOrResume_ok h with ⟨cur, boundary, hcur, hsame, -⟩ |
      ⟨cur, hcur, hpayload, -⟩ | ⟨hnone, -⟩
  · cases hcur
    exact hsame
  · cases hcur
    rw [hpayload]
    rfl
  · cases hnone

theorem handoffInvariant_step (h : HandoffInvariant connector run)
    (hstep : run.step connector label = some run') : HandoffInvariant connector run' := by
  cases label with
    simp only [step] at hstep
  | claim exe identity observation =>
    split at hstep
    · split at hstep
      · cases hstep
        exact h.become trivial
      next tracker boundary hclaim =>
        cases hstep
        rcases claimOrResume_ok hclaim with
          ⟨value, start, hval, -, hs, hd⟩ | ⟨value, -, -, hd⟩ | ⟨-, conflict, hd⟩
        · cases hd
          obtain ⟨writer, hplace, -⟩ := h.read hval
          have hresumed : HandoffInvariant connector (run.become
            exe (.tracking { revision := value.revision, identity := value.payload })) :=
            h.become ⟨writer, hplace, .inl ⟨_, hs⟩⟩
          refine { hresumed with reported := fun other reported hmem => ?_ }
          rcases mem_append.mp hmem with hold | hnew
          · exact h.reported other reported hold
          cases mem_singleton.mp hnew
          exact ⟨writer, h.streamed _ (mem_of_getElem? hplace) _ hs⟩
        · cases hd
        · cases hd
      rename_i expRev conflict hclaim
      cases hstep
      apply h.become
      rcases claimOrResume_ok hclaim with
        ⟨value, start, -, -, -, hd⟩ | ⟨value, hval, hpayload, hd⟩ | ⟨-, text, hd⟩
      · cases hd
      · cases hd
        obtain ⟨writer, hplace, -⟩ := h.read hval
        exact ⟨writer, hpayload ▸ hplace⟩
      cases hd
      trivial
    · cases hstep
  | write exe =>
    split at hstep
    next identity expRev conflict hclaiming =>
      cases hstep
      have hknows := h.knows exe
      rw [hclaiming] at hknows
      refine h.store ?_ fun boundary hreport => by cases hreport
      rintro (⟨rfl, hnil⟩ | ⟨revision, rfl, hlen⟩)
      · exact .inl ⟨hnil, identity, rfl⟩
      obtain ⟨writer, hplace⟩ := hknows
      exact .inr ⟨_, getLast?_of_length hplace hlen, .recycle writer exe _ rfl⟩
    · cases hstep
  | markSnapshotReady exe boundary tables =>
    split at hstep
    next tracker htracking =>
      split at hstep
      · cases hstep
        exact h.become trivial
      rename_i next hnext
      cases hstep
      obtain ⟨hclaimed, authoritative, rfl⟩ := markSnapshotReady_ok hnext
      refine h.store ?_ fun boundary hreport => by cases hreport
      rintro (⟨hnone, -⟩ | ⟨revision, hr, hlen⟩)
      · cases hnone
      cases hr
      obtain ⟨writer, hplace, hwriter⟩ := h.knows_tracking htracking
      rcases hwriter with ⟨start, hstream⟩ | rfl
      · cases hclaimed.symm.trans hstream
      · exact .inr ⟨_, getLast?_of_length hplace hlen, .snapshot _ _ boundary authoritative
            hclaimed⟩
    · cases hstep
  | markStreaming exe =>
    split at hstep
    next tracker htracking =>
      split at hstep
      · cases hstep
        exact h.become trivial
      rename_i next boundary hnext
      cases hstep
      obtain ⟨hsnapshot, rfl⟩ := markStreaming_ok hnext
      refine h.store ?_ fun reported hreport => by cases hreport; rfl
      rintro (⟨hnone, -⟩ | ⟨revision, hr, hlen⟩)
      · cases hnone
      cases hr
      obtain ⟨writer, hplace, hwriter⟩ := h.knows_tracking htracking
      rcases hwriter with ⟨start, hstream⟩ | rfl
      · cases hsnapshot.symm.trans hstream
      · exact .inr ⟨_, getLast?_of_length hplace hlen, .streaming _ _ boundary hsnapshot⟩
    · cases hstep
  | crash exe =>
    cases hstep
    exact h.become trivial

theorem handoffInvariant_reachable (hreach : Reachable (step connector) .initial run) :
    HandoffInvariant connector run := by
  apply hreach.invariant (fun _ _ _ h hstep => handoffInvariant_step h hstep)
  refine ⟨rfl, ?_, isChain_nil, ?_, ?_, ?_, ?_, fun exe => trivial⟩
  · rintro entry ⟨⟩
  · rintro old ⟨⟩
  · rintro last ⟨⟩
  · rintro entry ⟨⟩
  rintro exe boundary ⟨⟩

/-! ## The laws hold -/

theorem HandoffInvariant.foreign (h : HandoffInvariant connector run) {exe : ℕ} {ident : Identity}
    (hstep : run.step connector label = some run') (hactor : label.actor run = some (exe, ident))
    (hval : run.storage connector.key = some value) (hforeign : value.payload.identity ≠ ident) :
    run'.storage = run.storage ∧ ∃ failure, run'.executions exe = .failed failure := by
  obtain ⟨writer, hlast, hlen⟩ := h.read hval
  have hmem := mem_of_getElem? hlast
  have hfailed : ∀ failure,
      (run.become exe (.failed failure)).storage = run.storage ∧
        ∃ reason, (run.become exe (.failed failure)).executions
          exe = .failed reason := fun failure =>
    ⟨rfl, failure, by simp [HandoffRun.become]⟩
  -- A known record has the settings of the stored one.
  have hknown : ∀ {place : ℕ} {entry}, run.written[place]? = some entry → entry.2.identity =
    value.payload.identity := fun hplace => h.identities _ (mem_of_getElem? hplace) _ hmem
  have htracking : ∀ {other tracker}, run.executions other = .tracking tracker →
      tracker.identity.identity = value.payload.identity := fun htracks => by
    obtain ⟨writer, hplace, -⟩ := h.knows_tracking htracks
    exact hknown hplace
  cases label with
    simp only [step] at hstep
  | claim other settings observation =>
    cases hactor
    split at hstep
    · split at hstep
      · cases hstep
        exact hfailed _
      all_goals
        rename_i hclaim
        rw [hval] at hclaim
        exact absurd (identity_of_claimOrResume hclaim) hforeign
    · cases hstep
  | write other =>
    split at hstep
    next settings expRev conflict hclaiming =>
      simp only [HandoffLabel.actor, hclaiming] at hactor
      cases hactor
      cases hstep
      have hknows := h.knows exe
      rw [hclaiming] at hknows
      cases expRev with
      | none =>
        have hc : run.storage.compareExchange connector.key none
            (connector.persistedState ident) = .ok (.conflict (some value), run.storage) := by
          simp [DurableStorage.compareExchange, hval]
        rw [HandoffRun.store, hc]
        exact hfailed _
      | some rev =>
        obtain ⟨writer, hplace⟩ := hknows
        exact absurd (hknown hplace).symm hforeign
    · cases hstep
  | markSnapshotReady other boundary tables | markStreaming other =>
    split at hstep
    next tracker htracks =>
      simp only [HandoffLabel.actor, htracks] at hactor
      cases hactor
      exact absurd (htracking htracks).symm hforeign
    · cases hstep
  | crash other => cases hactor

theorem handoffLaws_reachable (hreach : Reachable (step connector) .initial run) :
    HandoffLaws connector run := by
  have h := handoffInvariant_reachable hreach
  exact
    { stored := h.stored, first := h.first, moves := h.moves
      fixed := fun _ hold _ hnew _ hboundary => h.fixed hold hnew hboundary
      reported := h.reported, foreign := fun _ _ _ _ _ hstep hactor hval hforeign =>
        h.foreign hstep hactor hval hforeign }

end
end

/-! ## The two connectors -/

/-- However executions of the PostgreSQL or of the MySQL connector race and
crash, their record moves one way, its boundary and its tables are those of the
snapshot, and executions under other settings leave it alone. -/
theorem handoff_is_one_way {Discovered Table TableIdentity : Type}
    (deliveryId : String) (fromDiscovered : Discovered → Except String Table)
    (parser : MySql.SidParser) (catalog : MySql.TableCatalog TableIdentity) :
    (∀ run, Reachable (step (Postgres.snapshotStream deliveryId fromDiscovered)) .initial run →
        HandoffLaws (Postgres.snapshotStream deliveryId fromDiscovered) run) ∧
      (∀ run, Reachable (step (MySql.snapshotStream parser catalog)) .initial run →
        HandoffLaws (MySql.snapshotStream parser catalog) run) :=
  ⟨fun _ hreach => handoffLaws_reachable hreach, fun _ hreach => handoffLaws_reachable hreach⟩

namespace SampleHandoff

def connector : HandoffConnector Postgres.SnapshotStreamIdentity Bool String String ℕ :=
  Postgres.snapshotStream "orders" .ok

def identity (replayIdentity : String) : Postgres.SnapshotStreamIdentity :=
  Postgres.persistedIdentity (some "publication") []
    { systemIdentifier := 1, database := "shop", databaseOid := 2 }
    replayIdentity "orders"

/-- One execution hands over at the boundary 7, a second one resumes, and a
third one has other settings. -/
def labels : List (HandoffLabel Postgres.SnapshotStreamIdentity Bool String ℕ) :=
  [.claim 0 (identity "a") false, .write 0, .markSnapshotReady 0 7 ["t"],
    .markStreaming 0, .claim 1 (identity "a") true, .claim 2 (identity "b") true]

end SampleHandoff

theorem handoff_of_sample :
    ∃ run, exec (step SampleHandoff.connector) .initial SampleHandoff.labels = some run ∧
      run.reported = [(0, 7), (1, 7)] ∧
      HandoffLaws SampleHandoff.connector run := by
  have hrun : (exec (step SampleHandoff.connector) .initial
      SampleHandoff.labels).map HandoffRun.reported = some [(0, 7), (1, 7)] := by
    decide +kernel
  obtain ⟨run, hexec, hreported⟩ := map_eq_some_iff.mp hrun
  exact ⟨run, hexec, hreported, (handoff_is_one_way "orders" .ok ⟨fun _ => .error ""⟩
    (⟨fun _ => "", fun _ => "", fun _ => .ok ()⟩ : MySql.TableCatalog Unit)).1 run ⟨_, hexec⟩⟩

end Transferia.Delivery
