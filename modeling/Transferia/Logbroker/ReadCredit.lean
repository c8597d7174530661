import Transferia.Logbroker.TopicSteps
import Transferia.Support.Trace

/-!
# Read credit

The source grants the server an initial credit and returns the bytes of the
responses it received, all withheld ones together, when no batch with a marker
is uncommitted.  The ledger of a trace assigns every response to the credit
request that returned its bytes, or to those that are withheld.
-/

namespace Transferia.Logbroker
open List Transferia.Core Support
open TopicEvent (quiet)
variable {config : SourceConfig} {trace events : List TopicEvent}

/-! ## The ledger of a trace -/

def creditRequests (trace : List TopicEvent) : List ℤ :=
  trace.filterMap fun event =>
    match event with
    | .sent (.readRequest bytesSize) => some bytesSize
    | _ => none

def receivedBytes (trace : List TopicEvent) : List ℤ :=
  trace.filterMap fun event =>
    match event with
    | .received bytesSize => some bytesSize
    | _ => none

structure Ledger where
  initial : Option ℤ
  /-- The responses whose bytes were returned, by credit request. -/
  returned : List (List ℤ)
  withheld : List ℤ

/-- The first credit request is the initial one; each later one returns what is
withheld. -/
def Ledger.add (ledger : Ledger) : TopicEvent → Ledger
  | .received bytesSize =>
    { ledger with withheld := ledger.withheld ++ [bytesSize] }
  | .sent (.readRequest bytesSize) =>
    match ledger.initial with
    | none => { ledger with initial := some bytesSize }
    | some _ =>
      { ledger with returned := ledger.returned ++ [ledger.withheld], withheld := [] }
  | _ => ledger

def ledger (trace : List TopicEvent) : Ledger :=
  trace.foldl Ledger.add { initial := none, returned := [], withheld := [] }

/-- A credit request is the initial one, or it returns exactly the bytes that
are withheld, and every batch with a marker that was read before is
committed. -/
def CreditLaw (config : SourceConfig) (before : List TopicEvent) : TopicEvent → Prop
  | .sent (.readRequest bytesSize) =>
    ((ledger before).initial = none ∧ bytesSize = config.readBufferBytes) ∨
    ((ledger before).initial ≠ none ∧ bytesSize = (ledger before).withheld.sum ∧
      (acknowledgedMarkers before).Perm (markersOf (readBatches before)))
  | _ => True

theorem ledger_append : ledger (trace ++ events) = events.foldl Ledger.add (ledger trace) :=
  foldl_append

theorem creditRequests_append :
    creditRequests (trace ++ events) = creditRequests trace ++ creditRequests events :=
  filterMap_append

theorem receivedBytes_append :
    receivedBytes (trace ++ events) = receivedBytes trace ++ receivedBytes events :=
  filterMap_append

theorem ledger_append_of_noCredit (trace : List TopicEvent) (h : creditRequests events = []) :
    ledger (trace ++ events) =
    { ledger trace with withheld := (ledger trace).withheld ++ receivedBytes events } := by
  rw [ledger_append]
  generalize ledger trace = before
  induction events generalizing before with
  | nil => simp [receivedBytes]
  | cons event rest ih =>
    have hrest : creditRequests rest = [] := by
      refine filterMap_eq_nil_iff.mpr fun later hlater => ?_
      exact filterMap_eq_nil_iff.mp h later (mem_cons_of_mem _ hlater)
    have hev := filterMap_eq_nil_iff.mp h event mem_cons_self
    rw [foldl_cons, ih hrest]
    cases event with
    | sent msg =>
      cases msg with
      | readRequest bytesSize => cases hev
      | _ => rfl
    | received bytesSize => simp [Ledger.add, receivedBytes]
    | _ => rfl

theorem creditRequests_of_quiet (h : ∀ event ∈ events, event.quiet) :
    creditRequests events = [] := by
  refine filterMap_eq_nil_iff.mpr fun event hmem => ?_
  have hq := h event hmem
  cases event with
  | sent msg =>
    cases msg with
    | readRequest bytesSize => cases hq
    | _ => rfl
  | _ => rfl

variable (bytesSize : ℤ)
  {s t : TopicSource} {message : ServerMessage} {event : SessionEvent} {run : TopicRun}
  {batch : SourceBatch}

theorem ledger_append_request (h : (ledger trace).initial ≠ none) :
    ledger (trace ++ [.sent (.readRequest bytesSize)]) = { ledger trace with
        returned := (ledger trace).returned ++ [(ledger trace).withheld], withheld := [] } := by
  obtain ⟨initial, hinit⟩ := Option.ne_none_iff_exists'.mp h
  simp [ledger_append, Ledger.add, hinit]

theorem ledger_append_initial (h : (ledger trace).initial = none) :
    ledger (trace ++ [.sent (.readRequest bytesSize)]) =
      { ledger trace with initial := some bytesSize } := by
  simp [ledger_append, Ledger.add, h]

/-- What the ledger of a lawful trace says about the trace. -/
structure Balanced (config : SourceConfig) (trace : List TopicEvent) : Prop where
  granted : (creditRequests trace).sum =
    (ledger trace).initial.getD 0 + (ledger trace).returned.flatten.sum
  initial : (ledger trace).initial = none ∨
    (ledger trace).initial = some (config.readBufferBytes : ℤ)
  responses : (ledger trace).returned.flatten ++ (ledger trace).withheld = receivedBytes trace

theorem Balanced.append_of_noCredit (h : Balanced config trace)
    (hevents : creditRequests events = []) : Balanced config (trace ++ events) := by
  have hl := ledger_append_of_noCredit trace hevents
  refine ⟨?_, ?_, ?_⟩
  · rw [creditRequests_append, hevents, append_nil, hl]
    exact h.granted
  · rw [hl]
    exact h.initial
  rw [hl, receivedBytes_append, ← h.responses, append_assoc]

theorem Balanced.append_request (h : Balanced config trace) {size : ℤ}
    (hlaw : CreditLaw config trace (.sent (.readRequest size))) :
    Balanced config (trace ++ [.sent (.readRequest size)]) := by
  have hg := h.granted
  have hresponses := h.responses
  have hrequests : creditRequests [.sent (.readRequest size)] = [size] := rfl
  have hr : receivedBytes [.sent (.readRequest size)] = [] := rfl
  obtain ⟨hnone, rfl⟩ | ⟨hsome, rfl, _⟩ := hlaw
  · have hl := ledger_append_initial config.readBufferBytes hnone
    rw [hnone, Option.getD_none] at hg
    refine ⟨?_, ?_, ?_⟩
    · rw [hl, creditRequests_append, hrequests, sum_append, hg]
      simp [add_comm]
    · exact .inr (by rw [hl])
    rw [hl, receivedBytes_append, hr, ← hresponses]
    simp
  have hl := ledger_append_request (ledger trace).withheld.sum hsome
  refine ⟨?_, ?_, ?_⟩
  · rw [hl, creditRequests_append, hrequests, sum_append, hg]
    simp [add_assoc]
  · rw [hl]
    exact h.initial
  rw [hl, receivedBytes_append, hr, ← hresponses]
  simp

theorem balanced_of_justified (h : Justified (CreditLaw config) trace) : Balanced config trace := by
  induction trace using List.reverseRecOn with
  | nil => exact ⟨rfl, .inl rfl, rfl⟩
  | append_singleton before event ih =>
    have hb := ih (h.restrict (prefix_append _ _))
    have hlaw := h before event [] rfl
    cases event with
    | sent msg =>
      cases msg with
      | readRequest bytesSize => exact hb.append_request hlaw
      | _ => exact hb.append_of_noCredit rfl
    | _ => exact hb.append_of_noCredit rfl

/-! ## The invariant -/

/-- What the counters of a live run mean. -/
structure CreditLive (run : TopicRun) : Prop where
  pending : run.source.pendingCredit = (ledger run.source.trace).withheld.sum
  positive : ∀ bytesSize ∈ (ledger run.source.trace).withheld, 0 < bytesSize
  markers : (markersOf (readBatches run.source.trace)).Perm (acknowledgedMarkers run.source.trace ++
    (run.handedOut ++ markersOf run.source.bufferedBatches))
  count :
    run.source.uncommittedBatches = (run.handedOut ++ markersOf run.source.bufferedBatches).length
  initial : (ledger run.source.trace).initial = none ↔ run.phase = .connecting

structure CreditInv (config : SourceConfig) (run : TopicRun) : Prop where
  justified : Justified (CreditLaw config) run.source.trace
  live : run.running → CreditLive run
  settled : run.phase = .waiting → run.source.uncommittedBatches = 0 →
    (ledger run.source.trace).withheld = []

theorem justified_append_of_noCredit (h : Justified (CreditLaw config) trace)
    (hevents : creditRequests events = []) : Justified (CreditLaw config) (trace ++ events) := by
  refine h.append_of_forall fun event hmem before => ?_
  have hev := filterMap_eq_nil_iff.mp hevents event hmem
  cases event with
  | sent msg =>
    cases msg with
    | readRequest bytesSize => cases hev
    | _ => trivial
  | _ => trivial

theorem creditRequests_read (bs : List SourceBatch) :
    creditRequests (.received bytesSize :: bs.map .read) = [] := by
  simp [creditRequests]

theorem Grows.justified (h : Grows s t) (hjust : Justified (CreditLaw config) s.trace) :
    Justified (CreditLaw config) t.trace := by
  obtain ⟨events, ht, hq⟩ := h
  rw [ht]
  exact justified_append_of_noCredit hjust (creditRequests_of_quiet hq)

theorem receivedBytes_map_sent (msgs : List ClientMessage) :
    receivedBytes (msgs.map .sent) = [] := by
  simp [receivedBytes]

theorem Processed.credit (h : Processed config s message event t)
    (hev : ∀ batch, event ≠ .batch batch) :
    t.uncommittedBatches = s.uncommittedBatches ∧ t.bufferedBatches = s.bufferedBatches ∧
    ∃ evs, t.trace = s.trace ++ evs ∧ (∀ event ∈ evs, event.quiet) ∧
    t.pendingCredit = s.pendingCredit + (receivedBytes evs).sum ∧
    ∀ bytesSize ∈ receivedBytes evs, 0 < bytesSize := by
  cases h with
  | startedAgain outage | stopUnknown outage | stopNow outage hfind =>
    exact ⟨rfl, rfl, _, rfl, by simp [quiet], (add_zero _).symm, by simp [receivedBytes]⟩
  | started outage =>
    exact ⟨rfl, rfl, _, append_assoc _ _ _, by simp [quiet],
      (add_zero _).symm, by simp [receivedBytes]⟩
  | readNothing hp =>
    exact ⟨rfl, rfl, _, rfl, by simp [quiet],
      by simp [receivedBytes, TopicSource.receives],
      by simpa [receivedBytes] using hp⟩
  | read => exact absurd rfl (hev _)
  | confirmed | unchanged =>
    exact ⟨rfl, rfl, [], (append_nil _).symm, by simp, (add_zero _).symm, by simp [receivedBytes]⟩
  | stopGracefully outage hfind hgraceful hmarked =>
    subst hmarked
    refine ⟨rfl, rfl, _, rfl, by simp [quiet], ?_, ?_⟩
    · rw [receivedBytes_map_sent]
      exact (add_zero _).symm
    rw [receivedBytes_map_sent]
    simp

/-! ## Each operation keeps the invariant -/

theorem markers_append_sent {outstanding : List YdbTopicCommitMarker}
    (h : (markersOf (readBatches trace)).Perm (acknowledgedMarkers trace ++ outstanding))
    (msg : ClientMessage) :
    (markersOf (readBatches (trace ++ [.sent msg]))).Perm
      (acknowledgedMarkers (trace ++ [.sent msg]) ++ outstanding) := by
  have hread : readBatches [.sent msg] = [] := rfl
  have hack : acknowledgedMarkers [.sent msg] = [] := rfl
  rw [readBatches_append, acknowledgedMarkers_append, hread, hack, append_nil, append_nil]
  exact h

theorem CreditLive.withPhase (h : CreditLive run) {phase : TopicPhase}
    (hp : run.phase = .connecting ↔ phase = .connecting) : CreditLive { run with phase } :=
  { h with initial := h.initial.trans hp }

theorem CreditLive.processed (h : CreditLive run)
    (hprocd : Processed config run.source message event t) (hev : ∀ batch, event ≠ .batch batch) :
    CreditLive { run with source := t } := by
  obtain ⟨hcount, hbuf, events, ht, hq, hpend, hp⟩ := hprocd.credit hev
  have hl := ledger_append_of_noCredit run.source.trace (creditRequests_of_quiet hq)
  rw [← ht] at hl
  refine ⟨?_, ?_, ?_, ?_, ?_⟩
  · rw [hpend, hl, h.pending, sum_append]
  · rw [hl]
    intro bytesSize hmem
    rcases mem_append.mp hmem with hold | hnew
    · exact h.positive bytesSize hold
    · exact hp bytesSize hnew
  · rw [ht, readBatches_append, acknowledgedMarkers_append, readBatches_of_quiet hq,
      acknowledgedMarkers_of_quiet hq, append_nil, append_nil, hbuf]
    exact h.markers
  · rw [hcount, hbuf]
    exact h.count
  rw [hl]
  exact h.initial

theorem Processed.read_credit (h : Processed config s message (.batch batch) t) :
    ∃ size rest, 0 < size ∧ t.pendingCredit = s.pendingCredit + size ∧
    t.uncommittedBatches = s.uncommittedBatches + (markersOf (batch :: rest)).length ∧
    t.bufferedBatches = s.bufferedBatches ++ rest ∧
    t.trace = s.trace ++ (.received size :: (batch :: rest).map .read) := by
  cases h with
  | read hp hparts hdec hread hbatches => exact ⟨_, _, hp, rfl, rfl, rfl, append_assoc _ _ _⟩

theorem CreditLive.read (h : CreditLive run) (hp : run.phase = .waiting)
    (hprocessed : Processed config run.source message (.batch batch) t) :
    CreditLive (TopicRun.handOut { run with source := t } batch) := by
  obtain ⟨size, rest, hpositive, hpend, hcount, hbuf, ht⟩ := hprocessed.read_credit
  have hr : receivedBytes (.received size :: (batch :: rest).map .read) = [size] := by
    simp [receivedBytes]
  have hread : readBatches t.trace = readBatches run.source.trace ++ batch :: rest := by
    rw [ht, readBatches_append, ← singleton_append, readBatches_append, readBatches_map_read]
    rfl
  have hack : acknowledgedMarkers t.trace = acknowledgedMarkers run.source.trace := by
    rw [ht, acknowledgedMarkers_append, ← singleton_append,
      acknowledgedMarkers_append, acknowledgedMarkers_map_read]
    exact append_nil _
  have hl := ledger_append_of_noCredit run.source.trace (creditRequests_read size (batch :: rest))
  rw [← ht, hr] at hl
  refine ⟨?_, ?_, ?_, ?_, ?_⟩
  · show t.pendingCredit = (ledger t.trace).withheld.sum
    rw [hpend, hl, h.pending, sum_append, sum_singleton]
  · show ∀ size ∈ (ledger t.trace).withheld, 0 < size
    rw [hl]
    intro other hmem
    rcases mem_append.mp hmem with hold | hnew
    · exact h.positive other hold
    · exact mem_singleton.mp hnew ▸ hpositive
  · show (markersOf (readBatches t.trace)).Perm (acknowledgedMarkers t.trace ++ ((run.handedOut ++
        batch.commitMarker.toList) ++ markersOf t.bufferedBatches))
    rw [hread, hack, hbuf, markersOf_append, markersOf_append, markersOf_cons]
    refine perm_iff_count.mpr fun marker => ?_
    have hcounts := h.markers.count_eq marker
    simp only [count_append] at hcounts ⊢
    omega
  · show t.uncommittedBatches = ((run.handedOut ++
      batch.commitMarker.toList) ++ markersOf t.bufferedBatches).length
    have hold := h.count
    rw [hcount, hbuf, markersOf_append, markersOf_cons]
    simp only [length_append] at hold ⊢
    omega
  show (ledger t.trace).initial = none ↔ TopicPhase.idle = .connecting
  have hwait := h.initial
  rw [hp] at hwait
  rw [hl, hwait]
  simp

theorem CreditLive.popped (h : CreditLive run) {rest : List SourceBatch} (hp : run.phase = .idle)
    (hbuf : run.source.bufferedBatches = batch :: rest) :
    CreditLive
      (TopicRun.handOut { run with source := { run.source with bufferedBatches := rest } }
          batch) := by
  have hmarkers := h.markers
  have hcount := h.count
  have hinit := h.initial
  rw [hbuf, markersOf_cons, ← append_assoc run.handedOut] at hmarkers hcount
  rw [hp] at hinit
  exact
    { pending := h.pending
      positive := h.positive, markers := hmarkers, count := hcount, initial := hinit }

theorem eq_nil_of_sum_le {es : List ℤ} (hpositive : ∀ entry ∈ es, 0 < entry) (hsum : es.sum ≤ 0) :
    es = [] := by
  by_contra hne
  exact (sum_pos es hpositive hne).not_ge hsum

theorem CreditLive.replenish (h : CreditLive run)
    (hjust : Justified (CreditLaw config) run.source.trace) (hp : run.phase ≠ .connecting)
    (hok : replenishCredit.outcome run.source = (.ok (), t)) :
    Justified (CreditLaw config) t.trace ∧
    CreditLive { run with source := t } ∧
    (t.uncommittedBatches = 0 → (ledger t.trace).withheld = []) := by
  have hsome : (ledger run.source.trace).initial ≠ none := fun hnone => hp (h.initial.mp hnone)
  obtain ⟨hzero, hpend, outage, rfl⟩ | ⟨hheld, rfl⟩ := replenishCredit_ok hok
  · have hnothing : run.handedOut ++ markersOf run.source.bufferedBatches = [] :=
      length_eq_zero_iff.mp (h.count ▸ hzero)
    have hc := h.markers
    rw [hnothing, append_nil] at hc
    have hl := ledger_append_request run.source.pendingCredit hsome
    refine ⟨?_, ?_, ?_⟩
    · exact hjust.append_singleton (.inr ⟨hsome, h.pending, hc.symm⟩)
    · refine ⟨?_, ?_, ?_, h.count, ?_⟩
      · show 0 = (ledger (run.source.trace ++ [_])).withheld.sum
        rw [hl]
        rfl
      · show ∀ size ∈ (ledger (run.source.trace ++ [_])).withheld, 0 < size
        rw [hl]
        simp
      · exact markers_append_sent h.markers _
      show (ledger (run.source.trace ++ [_])).initial = none ↔ _
      rw [hl]
      exact h.initial
    intro _
    show (ledger (run.source.trace ++ [_])).withheld = []
    rw [hl]
  refine ⟨hjust, h, fun hzero => ?_⟩
  apply eq_nil_of_sum_le h.positive
  rw [← h.pending]
  omega

theorem CreditLive.commits (h : CreditLive run) {markers : List YdbTopicCommitMarker}
    {req : List PartitionCommitOffset} {outage : Option (ℕ × Outage)}
    (hmarkers : markers.Subperm run.handedOut) :
    CreditLive
      { run with
        source := run.source.commits outage req markers
        handedOut := run.handedOut.diff markers } := by
  have hsplit : (markers ++ run.handedOut.diff markers).Perm run.handedOut :=
    subperm_append_diff_self_of_count_le (subperm_ext_iff.mp hmarkers)
  have hnoCredit : creditRequests
      [.sent (.commitOffsetRequest req), .acknowledged markers] = [] := rfl
  have hledger := ledger_append_of_noCredit run.source.trace hnoCredit
  have hsame :
      (ledger (run.source.commits outage req markers).trace) = ledger run.source.trace := by
    apply hledger.trans
    simp [receivedBytes]
  have hread :
      readBatches (run.source.commits outage req markers).trace = readBatches run.source.trace := by
    simp [TopicSource.commits, readBatches]
  have hack : acknowledgedMarkers (run.source.commits outage req markers).trace =
      acknowledgedMarkers run.source.trace ++ markers := by
    simp [TopicSource.commits, acknowledgedMarkers]
  refine ⟨?_, ?_, ?_, ?_, ?_⟩
  · rw [hsame]
    exact h.pending
  · rw [hsame]
    exact h.positive
  · rw [hread, hack]
    apply h.markers.trans
    rw [append_assoc, ← append_assoc markers]
    exact (hsplit.symm.append_right _).append_left _
  · have hold := h.count
    have hlen := hsplit.length_eq
    simp only [length_append] at hold hlen ⊢
    simp only [TopicSource.commits]
    omega
  rw [hsame]
  exact h.initial

/-! ## Runs -/

namespace TopicRun
variable {next : TopicRun} {label : TopicLabel}

theorem creditInv_stopped {handedOut} (fail : DataPlaneFailure)
    (h : Justified (CreditLaw config) t.trace) :
    CreditInv config { source := t, phase := .stopped fail, handedOut } where
  justified := h
  live := by simp [running]
  settled := by simp

theorem creditInv_step (h : CreditInv config run) (hstep : RunStep config run label next) :
    CreditInv config next := by
  cases hstep with
  | lost left outage =>
    exact
      { justified := h.justified, live := fun hrun => { h.live hrun with }
        settled := h.settled }
  | stopped fail hgrows => exact creditInv_stopped fail (hgrows.justified h.justified)
  | stoppedWithData fail hp hmsg hprocessed =>
    obtain ⟨size, rest, _, _, _, _, ht⟩ := hprocessed.read_credit
    apply creditInv_stopped fail
    rw [ht]
    exact justified_append_of_noCredit h.justified (creditRequests_read size _)
  | stoppedAfterCommit fail hp hmarkers hreq ht =>
    apply creditInv_stopped fail
    rw [ht]
    exact justified_append_of_noCredit h.justified rfl
  | granted outage hp hmsg =>
    have hlive := h.live (by simp [running, hp])
    have hnone := hlive.initial.mpr hp
    have hl := ledger_append_initial config.readBufferBytes hnone
    refine ⟨?_, fun _ => ⟨?_, ?_, ?_, hlive.count, ?_⟩, by simp⟩
    · exact h.justified.append_singleton (.inl ⟨hnone, rfl⟩)
    · show _ = (ledger (run.source.trace ++ [_])).withheld.sum
      rw [hl]
      exact hlive.pending
    · show ∀ size ∈ (ledger (run.source.trace ++ [_])).withheld, 0 < size
      rw [hl]
      exact hlive.positive
    · exact markers_append_sent hlive.markers _
    show (ledger (run.source.trace ++ [_])).initial = none ↔ _
    rw [hl]
    simp
  | connecting hp hmsg hprocessed hev =>
    have hlive := h.live (by simp [running, hp])
    refine ⟨(hprocessed.grows hev).justified h.justified, fun _ => ?_, by simp⟩
    have hnext := hlive.processed hprocessed hev
    exact hnext.withPhase (by simp [hp])
  | processed hp hmsg hprocessed hev hr =>
    have hlive := h.live (by simp [running, hp])
    obtain ⟨hjust, hnext, hs⟩ := (hlive.processed hprocessed hev).replenish
        ((hprocessed.grows hev).justified h.justified) (by simp [hp]) hr
    exact ⟨hjust, fun _ => hnext, fun _ => hs⟩
  | read hp hmsg hprocessed =>
    have hlive := h.live (by simp [running, hp])
    obtain ⟨size, rest, _, _, _, _, ht⟩ := hprocessed.read_credit
    refine ⟨?_, fun _ => hlive.read hp hprocessed, by simp [handOut]⟩
    simp only [handOut, ht]
    exact justified_append_of_noCredit h.justified (creditRequests_read size _)
  | popped hp hbuf =>
    have hlive := h.live (by simp [running, hp])
    exact ⟨h.justified, fun _ => hlive.popped hp hbuf, by simp [handOut]⟩
  | waits hp hbuf hr =>
    have hlive := h.live (by simp [running, hp])
    obtain ⟨hjust, hnext, hs⟩ := hlive.replenish h.justified (by simp [hp]) hr
    exact ⟨hjust, fun _ => hnext.withPhase (by simp [hp]), fun _ => hs⟩
  | committedNothing hp => exact h
  | committed hp hmarkers hne hcount hreq hr =>
    have hlive := h.live (by simp [running, hp])
    obtain ⟨hjust, hnext, _⟩ := (hlive.commits hmarkers).replenish
        (justified_append_of_noCredit h.justified rfl) (by simp [hp])
        hr
    exact ⟨hjust, fun _ => hnext, by simp [hp]⟩

theorem creditInv_of_reachable (hreach : Reachable (step config) start run) :
    CreditInv config run := by
  apply hreach.invariant (fun _ _ _ h hstep => creditInv_step h (step_cases hstep))
  refine ⟨.nil, fun _ => ⟨rfl, ?_, .refl _, rfl, ?_⟩, by simp [start]⟩
  · simp [start, ledger]
  · simp [start, ledger]

def nothingOutstanding (run : TopicRun) : Prop := (acknowledgedMarkers run.source.trace).Perm
    (markersOf (readBatches run.source.trace))

theorem uncommitted_of_nothingOutstanding (hlive : CreditLive run) (h : run.nothingOutstanding) :
    run.source.uncommittedBatches = 0 := by
  have hlen := (h.trans hlive.markers).length_eq
  rw [hlive.count]
  simp only [length_append] at hlen ⊢
  omega

theorem returned_eq_received (h : CreditInv config run)
    (hnone : (ledger run.source.trace).withheld = []) :
    (ledger run.source.trace).returned.flatten = receivedBytes run.source.trace := by
  have hr := (balanced_of_justified h.justified).responses
  rwa [hnone, append_nil] at hr

/-- At all times the credit granted is the initial credit and the bytes of the
responses that were returned, where every response is returned by at most one
request.  A request returns all bytes that are withheld, and only when every
marked batch of the responses before it is committed.  When nothing is
outstanding and the source waits for the server, or has just committed, all
bytes that were received are returned. -/
theorem readCredit_conserved (hreach : Reachable (step config) start run) :
    (∀ earlier, earlier <+: run.source.trace → Balanced config earlier) ∧
      Justified (CreditLaw config) run.source.trace ∧
      (run.phase = .waiting → run.nothingOutstanding →
        (ledger run.source.trace).returned.flatten = receivedBytes run.source.trace) ∧
      ∀ markers next, markers ≠ [] → run.step config (.commit markers) = some next →
        next.running → next.nothingOutstanding →
        (ledger next.source.trace).returned.flatten = receivedBytes next.source.trace := by
  have h := creditInv_of_reachable hreach
  refine ⟨?_, h.justified, ?_, ?_⟩
  · intro earlier hearlier
    exact balanced_of_justified (h.justified.restrict hearlier)
  · intro hp hnothing
    have hlive := h.live (by simp [running, hp])
    exact returned_eq_received h (h.settled hp (uncommitted_of_nothingOutstanding hlive hnothing))
  intro markers next hne hstep hrun hnothing
  have hsteps := step_cases hstep
  have hnext := creditInv_step h hsteps
  have hzero := uncommitted_of_nothingOutstanding (hnext.live hrun) hnothing
  apply returned_eq_received hnext
  cases hsteps with
  | stopped | stoppedAfterCommit => cases hrun
  | committedNothing => exact absurd rfl hne
  | committed hp hmarkers _ hcount hreq hr =>
    have hlive := h.live (by simp [running, hp])
    obtain ⟨_, _, hsettled⟩ := (hlive.commits hmarkers).replenish
      (justified_append_of_noCredit h.justified rfl) (by simp [hp])
      hr
    exact hsettled hzero

set_option maxRecDepth 4000 in
/-- The response of ten bytes is returned after its batch is committed. -/
theorem readCredit_conserved_oneMessage :
    ∃ run, exec (step exampleConfig) start
        (readOneMessage ++ [.commit [exampleMarker], .callRead]) = some run ∧
      creditRequests run.source.trace = [100, 10] ∧
      receivedBytes run.source.trace = [10] ∧
      (ledger run.source.trace).returned.flatten = [10] := by
  have hruns : ∃ run, exec (step exampleConfig) start
      (readOneMessage ++ [.commit [exampleMarker], .callRead]) = some run ∧
      creditRequests run.source.trace = [100, 10] ∧
      receivedBytes run.source.trace = [10] ∧ run.phase = .waiting ∧
      acknowledgedMarkers run.source.trace = markersOf (readBatches run.source.trace) :=
    ⟨_, rfl, rfl, rfl, rfl, rfl⟩
  obtain ⟨run, hexec, hrequests, hr, hp, hmarkers⟩ := hruns
  have hconserved := readCredit_conserved ⟨_, hexec⟩
  refine ⟨run, hexec, hrequests, hr, ?_⟩
  rw [hconserved.2.2.1 hp (.of_eq hmarkers), hr]

/-- A batch without messages has no marker to commit, and its bytes are withheld until the
next call. -/
theorem empty_batch_withholds_credit :
    ∃ run, exec (step exampleConfig) start (assignSession ++ [readOffsets []]) = some run ∧
      run.nothingOutstanding ∧
      (ledger run.source.trace).returned.flatten ≠ receivedBytes run.source.trace :=
  ⟨_, rfl, .of_eq rfl, by decide⟩

end TopicRun
end Transferia.Logbroker
