import Transferia.Pipeline.PartitionPipeline

/-!
# At-least-once delivery of a partition

The ledger of the reader is the part of the emitted deliveries behind the last
commit.  Everything promised about source commits follows from this equation and
from the fact that every committed id was acknowledged.  That the validated
totals of the row counter can be applied needs the first-in first-out order of
the channels.
-/

namespace Transferia.Pipeline
open List Option Support Nat
open CommitEntry (marked)
variable {M : Type*}
namespace PipelineState

/-! ## What one step can do -/

def pendingIds : ReaderPoint M → List ℕ
  | .sending envelope => [envelope.id]
  | _ => []

/-- The moves of the three processes, with the facts that enable them. -/
inductive Moves (s : PipelineState M) : PipelineState M → Prop
  | cancel : Moves s { s with cancelled := true }
  | wait {point next} (hreader : s.reader = .waiting point)
      (hpending : pendingIds next = pendingIds point) : Moves s { s with reader := .waiting next }
  | leave {point result} (hreader : s.reader = .waiting point)
      (hresult : result ≠ .ok .finiteSourceDrained) : Moves s { s with reader := .returned result }
  | drained (hreader : s.reader = .waiting .finishing) (hledger : s.ledger = []) :
      Moves s { s with finiteSourceDrained := true, reader := .returned (.ok .finiteSourceDrained) }
  | emit {point} (batch : SourceBatch M) (hreader : s.reader = .waiting point)
      (hpending : pendingIds point = []) : Moves s (s.emitBatch batch)
  | send {envelope} (hreader : s.reader = .waiting (.sending envelope)) : Moves s
        { s with
          toParser := s.toParser ++ [envelope], reader := .waiting
            (if envelope.isDataset then .admitting else .reading) }
  | event {point next committed rest} (hreader : s.reader = .waiting point)
      (hpending : pendingIds next = pendingIds point) (hevents : s.events = committed :: rest) :
      Moves s (commitThrough { s with events := rest } committed next)
  | committed {id point} (hreader : s.reader = .committing id point) : Moves s
        (finishCommit { s with
            committedGroups := s.committedGroups + 1
            trace := { s.trace with succeeded := s.trace.succeeded ++ [markers s.ledger id] } }
          id point)
  | refused {id point} (error : String) (hreader : s.reader = .committing id point) :
      Moves s (s.failReader error)
  | take {envelope rest} (hparser : s.parser = .receiving) (hinput : s.toParser =
      envelope :: rest) : Moves s { s with toParser := rest, parser := .parsing envelope }
  | stop (result : Except String Unit) : Moves s (s.stopParser result)
  | observe {envelope output} (counts : Option OutputRowCounts) (outputs : List OutputBatch)
      (hparser : s.parser = .parsing envelope) (hid : output.id = envelope.id)
      (hcounts : counts = s.rowCounts ∨ counts = s.rowCounts.map (·.admitDatasets outputs)) :
      Moves s (observe { s with rowCounts := counts } envelope.id outputs output)
  | deliver {output} (hparser : s.parser = .delivering output) :
      Moves s { s with toSink := s.toSink ++ [output], parser := .receiving }
  | receive {output rest} (hsink : s.toSink = output :: rest) :
      Moves s { s with toSink := rest, received := s.received ++ [output.id] }
  | acknowledge {id} (hreceived : id ∈ s.received) : Moves s
        { s with
          events := s.events ++ [id]
          trace := { s.trace with acknowledged := s.trace.acknowledged ++ [id] } }
  | sinkStops : Moves s { s with sinkRunning := false }

variable {s : PipelineState M} {t : PipelineState M} {id : ℕ} {point : ReaderPoint M}

theorem moves_of_step {label : PipelineLabel M} (h : s.step label = some t) : Moves s t := by
  cases label with
    simp only [step, read, receiveEvent, commitReturns, eventsClosed, cancelReader,
      afterPoll, backoffElapsed, memoryGranted, sendEnvelope, ledgerDrained, parserReceive,
      parserInputClosed, cancelParser, parse, sendOutput, sinkReceive, acknowledge, sinkStops] at h
  | cancel =>
    cases h
    exact .cancel
  | read result =>
    split at h
    next hreader =>
      split at h
      · cases h
        exact .leave hreader (by simp)
      cases h
      exact .wait hreader rfl
    · cases h
  | receiveEvent =>
    split at h
    next point committed rest hreader hevents =>
      split at h
      · cases h
      split at h
      · cases h
      rename_i next hlisten
      cases h
      refine .event hreader ?_ hevents
      unfold listening at hlisten
      split at hlisten <;> cases hlisten <;> rfl
    · cases h
  | commitReturns result =>
    split at h
    next hreader =>
      split at h
      · cases h
        exact .refused _ hreader
      cases h
      exact .committed hreader
    · cases h
  | eventsClosed =>
    split at h
    next hreader _ _ =>
      cases h
      exact .wait hreader rfl
    next hreader _ _ =>
      split at h
      · cases h
      obtain ⟨error, _, rfl⟩ := map_eq_some_iff.mp h
      exact .leave hreader (by simp)
    · cases h
  | cancelReader =>
    split at h
    · cases h
    next hreader =>
      split at h
      · cases h
      cases h
      exact .leave hreader (by simp)
    · cases h
  | afterPoll =>
    split at h
    next hreader hevents =>
      split at h
      · cases h
        exact .wait hreader rfl
      split at h
      · cases h
        exact .wait hreader rfl
      split at h
      · cases h
        exact .wait hreader rfl
      cases h
      exact .emit _ hreader rfl
    · cases h
  | backoffElapsed =>
    split at h
    next hreader =>
      cases h
      exact .wait hreader rfl
    · cases h
  | memoryGranted =>
    split at h
    next hreader _ _ =>
      cases h
      exact .emit _ hreader rfl
    · cases h
  | sendEnvelope =>
    split at h
    next hreader =>
      split at h
      · split at h
        · cases h
          exact .send hreader
        · cases h
      cases h
      exact .leave hreader (by simp)
    · cases h
  | ledgerDrained =>
    split at h
    next hreader hledger =>
      cases h
      exact .drained hreader hledger
    next hreader hledger =>
      cases h
      exact .wait hreader rfl
    · cases h
  | parserReceive =>
    split at h
    next hparser _ hinput =>
      cases h
      exact .take hparser hinput
    · cases h
  | parserInputClosed =>
    split at h
    · cases h
      exact .stop _
    · cases h
  | cancelParser =>
    split at h
    · cases h
      exact .stop _
    · split at h
      · cases h
      cases h
      exact .stop _
    · cases h
  | parse result =>
    split at h
    next envelope hparser =>
      split at h
      · cases h
        exact .observe s.rowCounts [] hparser rfl (.inl rfl)
      split at h
      · cases h
        exact .stop _
      rename_i outputs
      cases h
      split
      · exact .observe _ outputs hparser rfl (.inr rfl)
      · exact .observe s.rowCounts outputs hparser rfl (.inl rfl)
    · cases h
  | sendOutput =>
    split at h
    next hparser =>
      split at h
      · cases h
        exact .stop _
      split at h
      · split at h
        · cases h
          exact .deliver hparser
        · cases h
      cases h
      exact .stop _
    · cases h
  | sinkReceive =>
    split at h
    next hsink =>
      cases h
      exact .receive hsink
    · cases h
  | acknowledge id =>
    split at h
    next hen =>
      simp only [Bool.and_eq_true, decide_eq_true_eq] at hen
      cases h
      exact .acknowledge hen.1.2
    · cases h
  | sinkStops =>
    split at h
    · cases h
      exact .sinkStops
    · cases h

/-- The commit through `id` would succeed in the row counter, if there is
one. -/
def CountsValid (s : PipelineState M) (id : ℕ) : Prop :=
  ∀ counts, s.rowCounts = some counts → counts.Valid id

theorem finishCommit_of_valid (point : ReaderPoint M) (h : s.CountsValid id) :
    ∃ cnts, s.finishCommit id point = { s with
        reader := .waiting point, rowCounts := cnts
        ledger := s.ledger.drop (committedEntries s.ledger id)
        trace := { s.trace with committedThrough := id } } := by
  cases hcounts : s.rowCounts with
  | none =>
    refine ⟨none, ?_⟩
    rw [finishCommit, hcounts]
    rfl
  | some cnts =>
    obtain ⟨next, hnext⟩ := OutputRowCounts.commitThrough_of_valid (h cnts hcounts)
    exact ⟨some next, by simp [finishCommit, hcounts, hnext]⟩

/-- A commit fails before the source is asked, has no marker to submit, or
waits for the source. -/
theorem commitThrough_cases (s : PipelineState M) (id : ℕ) (point : ReaderPoint M) :
    (∃ error, s.commitThrough id point = s.failReader error) ∨
      (validRange s.ledger id ∧ markers s.ledger id = [] ∧
        ∃ cnts, s.commitThrough id point = { s with
            reader := .waiting point, rowCounts := cnts
            ledger := s.ledger.drop (committedEntries s.ledger id)
            trace := { s.trace with committedThrough := id } }) ∨
      (validRange s.ledger id ∧ s.CountsValid id ∧ s.commitThrough id point = { s with
            reader := .committing id point, trace := { s.trace with
              submitted := s.trace.submitted ++ [markers s.ledger id] } }) := by
  by_cases hr : validRange s.ledger id
  · cases hv : s.rowCounts.mapM fun cnts => cnts.validateCommitThrough id with
    | error error =>
      left
      exact ⟨error, by simp [commitThrough, hr, hv]⟩
    | ok answer =>
      right
      have hvalid : s.CountsValid id := by
        intro cnts hcounts
        apply OutputRowCounts.valid_of_validate
        rw [hcounts] at hv
        cases hone : cnts.validateCommitThrough id with
        | error error => simp [hone] at hv
        | ok answer => rfl
      by_cases hmarkers : markers s.ledger id = []
      · left
        obtain ⟨cnts, hfinish⟩ := finishCommit_of_valid point hvalid
        refine ⟨hr, hmarkers, cnts, ?_⟩
        simp [commitThrough, hr, hv, hmarkers, hfinish]
      right
      refine ⟨hr, hvalid, ?_⟩
      simp [commitThrough, hr, hv, hmarkers]
  left
  exact ⟨unknownDelivery s.ledger id, by simp [commitThrough, hr]⟩

/-! ## The order of deliveries in the channels -/

def parserIds : ParserState → List ℕ
  | .parsing envelope => [envelope.id]
  | .delivering output => [output.id]
  | _ => []

def readerIds : ReaderState M → List ℕ
  | .waiting point => pendingIds point
  | .committing _ point => pendingIds point
  | .returned _ => []

/-- The ids handed out so far, from the sink back to the reader. -/
def inFlight (s : PipelineState M) : List ℕ :=
  s.received ++ s.toSink.map ParserOutput.id ++ parserIds s.parser ++
    s.toParser.map ReadEnvelope.id ++ readerIds s.reader

/-- While the parser runs, the sink receives ids in the order of emission.  A
commit in progress was acknowledged, and its row totals stay valid. -/
structure Flow (s : PipelineState M) : Prop where
  in_order : s.parserRunning →
    ∃ count, s.inFlight = range' 1 count ∧ (s.readerRunning → count + 1 = s.nextId)
  sent_received : ∀ id ∈ s.trace.acknowledged, id ∈ s.received
  events_sent : ∀ id ∈ s.events, id ∈ s.trace.acknowledged
  committing :
    ∀ id point, s.reader = .committing id point → id ∈ s.trace.acknowledged ∧ s.CountsValid id

theorem flow_start (evolving : Bool) (rowCounts : Option OutputRowCounts) :
    Flow (start evolving rowCounts : PipelineState M) := by
  refine ⟨?_, by simp [start], by simp [start], by simp [start]⟩
  simp [inFlight, start, parserIds, readerIds, pendingIds]

theorem Flow.reader (h : Flow s) (hreceived : t.received = s.received)
    (hsink : t.toSink = s.toSink) (hparser : t.parser = s.parser)
    (hinput : t.toParser = s.toParser) (hnext : t.nextId = s.nextId)
    (hsent : t.trace.acknowledged = s.trace.acknowledged)
    (hevents : ∀ id ∈ t.events, id ∈ s.events)
    (hreader :
      readerIds t.reader = readerIds s.reader ∧ s.readerRunning ∨ ∃ res, t.reader = .returned res)
    (hcommitting :
      ∀ id point, t.reader = .committing id point → id ∈ s.trace.acknowledged ∧ t.CountsValid id) :
    Flow t := by
  refine ⟨?_, ?_, ?_, ?_⟩
  · intro hrunning
    obtain ⟨count, hr, hcount⟩ := h.in_order (by simpa [parserRunning, hparser] using hrunning)
    unfold inFlight at hr ⊢
    rw [hreceived, hsink, hparser, hinput, hnext]
    rcases hreader with ⟨hids, hreading⟩ | ⟨res, hreturned⟩
    · rw [hids]
      exact ⟨count, hr, fun _ => hcount hreading⟩
    obtain ⟨kept, _, hfront, _⟩ := range'_eq_append_iff.mp hr.symm
    refine ⟨kept, ?_, ?_⟩
    · rw [hreturned, hfront]
      simp [readerIds]
    simp [readerRunning, hreturned]
  · rw [hsent, hreceived]
    exact h.sent_received
  · intro id hid
    rw [hsent]
    exact h.events_sent id (hevents id hid)
  rw [hsent]
  exact hcommitting

theorem Flow.handOver (h : Flow s) (hrunning : s.parserRunning) (hflight : t.inFlight = s.inFlight)
    (hreceived : ∀ id ∈ s.received, id ∈ t.received) (hreader : t.reader = s.reader)
    (hnext : t.nextId = s.nextId) (hcounts : t.rowCounts = s.rowCounts)
    (hevents : t.events = s.events) (ht : t.trace = s.trace) : Flow t := by
  refine ⟨?_, ?_, ?_, ?_⟩
  · intro _
    rw [hflight, hnext, readerRunning, hreader]
    exact h.in_order hrunning
  · intro id hid
    rw [ht] at hid
    exact hreceived id (h.sent_received id hid)
  · rw [hevents, ht]
    exact h.events_sent
  intro id point hc
  rw [hreader] at hc
  rw [ht, CountsValid, hcounts]
  exact h.committing id point hc

theorem running_of_waiting (h : s.reader = .waiting point) : s.readerRunning := by
  simp [readerRunning, h]

theorem Flow.received_lt {envelope : ReadEnvelope} (h : Flow s)
    (hparser : s.parser = .parsing envelope) (hid : id ∈ s.received) : id < envelope.id := by
  obtain ⟨count, hr, _⟩ := h.in_order (by simp [parserRunning, hparser])
  have hsorted : s.inFlight.Pairwise (· < ·) := by
    rw [hr]
    exact pairwise_lt_range'
  simp only [inFlight, hparser, parserIds, append_assoc] at hsorted
  apply (pairwise_append.mp hsorted).2.2 id hid envelope.id
  simp

theorem countsValid_observe {other : ℕ} {outs : List OutputBatch} {out : ParserOutput}
    (h : s.CountsValid id) (hlt : id < other) : (s.observe other outs out).CountsValid id := by
  unfold observe
  split
  · exact h
  rename_i rowCounts hobserve
  rintro counts rfl
  cases hold : s.rowCounts with
  | none =>
    rw [hold] at hobserve
    cases hobserve
  | some known =>
    cases hone : known.observeDelivery other outs with
    | error error => simp [hold, hone] at hobserve
    | ok next =>
      simp [hold, hone] at hobserve
      subst hobserve
      exact (h known hold).observeDelivery hlt hone

theorem observe_cases (s : PipelineState M) (id : ℕ) (outs : List OutputBatch)
    (out : ParserOutput) : (∃ error, s.observe id outs out = s.stopParser (.error error)) ∨
    ∃ cnts, s.observe id outs out = { s with rowCounts := cnts, parser := .delivering out } := by
  unfold observe
  split
  · exact .inl ⟨_, rfl⟩
  · exact .inr ⟨_, rfl⟩

theorem Flow.stop (h : Flow s) (res : Except String Unit) : Flow (s.stopParser res) :=
  { h with in_order := by simp [stopParser, parserRunning] }

theorem Flow.observe {envelope : ReadEnvelope} {cnts : Option OutputRowCounts}
    {outs : List OutputBatch} {out : ParserOutput} (h : Flow s)
    (hparser : s.parser = .parsing envelope) (hid : out.id = envelope.id)
    (hcounts : cnts = s.rowCounts ∨ cnts = s.rowCounts.map (·.admitDatasets outs)) :
    Flow (observe { s with rowCounts := cnts } envelope.id outs out) := by
  have hc : ∀ id point, s.reader = .committing id point → id ∈ s.trace.acknowledged ∧
      (PipelineState.observe { s with rowCounts := cnts } envelope.id outs out).CountsValid id := by
    intro id point hreader
    obtain ⟨hsent, hvalid⟩ := h.committing id point hreader
    have hlt := h.received_lt hparser (h.sent_received id hsent)
    refine ⟨hsent, countsValid_observe ?_ hlt⟩
    rcases hcounts with rfl | rfl
    · exact hvalid
    intro known hknown
    obtain ⟨old, hold, rfl⟩ := map_eq_some_iff.mp hknown
    exact (hvalid old hold).admitDatasets outs
  rcases observe_cases { s with rowCounts := cnts } envelope.id outs
    out with ⟨error, heq⟩ | ⟨known, heq⟩
  · rw [heq] at hc ⊢
    exact ⟨by simp [stopParser, parserRunning], h.sent_received, h.events_sent, hc⟩
  rw [heq] at hc ⊢
  refine ⟨?_, h.sent_received, h.events_sent, hc⟩
  intro _
  obtain ⟨count, hr, hcount⟩ := h.in_order (by simp [parserRunning, hparser])
  refine ⟨count, ?_, hcount⟩
  rw [← hr]
  simp [inFlight, hparser, parserIds, hid]

theorem Flow.moves (h : Flow s) (hmoves : Moves s t) : Flow t := by
  cases hmoves with
  | cancel | sinkStops => exact { h with }
  | wait hreader hpending =>
    refine h.reader rfl rfl rfl rfl rfl rfl (fun _ hid => hid) (.inl ?_) (by simp)
    exact ⟨by simp [readerIds, hreader, hpending], running_of_waiting hreader⟩
  | leave hreader hresult | drained hreader hledger =>
    exact h.reader rfl rfl rfl rfl rfl rfl (fun _ hid => hid) (.inr ⟨_, rfl⟩) (by simp)
  | emit batch hreader hpending =>
    refine ⟨?_, h.sent_received, h.events_sent, by simp [emitBatch]⟩
    intro hrunning
    obtain ⟨count, hr, hcount⟩ := h.in_order hrunning
    have hnext := hcount (running_of_waiting hreader)
    refine ⟨count + 1, ?_, fun _ => by simp [emitBatch, hnext]⟩
    have hids : readerIds s.reader = [] := by
      rw [hreader]
      exact hpending
    rw [range'_concat, ← hr]
    simp only [inFlight, hids]
    simp [emitBatch, readerIds, pendingIds]
    omega
  | send hreader =>
    refine ⟨?_, h.sent_received, h.events_sent, by simp⟩
    intro hrunning
    obtain ⟨count, hr, hcount⟩ := h.in_order hrunning
    refine ⟨count, ?_, fun _ => hcount (running_of_waiting hreader)⟩
    rw [← hr]
    simp only [inFlight, hreader, readerIds]
    split <;> simp [pendingIds]
  | @event point next committed rest hreader hpending hevents =>
    have hsent := h.events_sent committed (by simp [hevents])
    have hkept : ∀ id ∈ rest, id ∈ s.events := by
      intro id hid
      rw [hevents]
      exact mem_cons_of_mem _ hid
    have hids : readerIds (.waiting next : ReaderState M) = readerIds s.reader := by
      simp [readerIds, hreader, hpending]
    have hreading := running_of_waiting hreader
    rcases commitThrough_cases { s with events := rest } committed next with
      ⟨error, heq⟩ | ⟨_, _, counts, heq⟩ | ⟨_, hvalid, heq⟩
    · rw [heq]
      exact h.reader rfl rfl rfl rfl rfl rfl hkept (.inr ⟨_, rfl⟩) (by simp [failReader])
    · rw [heq]
      exact h.reader rfl rfl rfl rfl rfl rfl hkept (.inl ⟨hids, hreading⟩) (by simp)
    rw [heq]
    refine h.reader rfl rfl rfl rfl rfl rfl hkept (.inl ⟨hids, hreading⟩) ?_
    intro id point hc
    obtain ⟨rfl, rfl⟩ := hc
    exact ⟨hsent, hvalid⟩
  | @committed id point hreader =>
    obtain ⟨hsent, hvalid⟩ := h.committing id point hreader
    obtain ⟨counts, heq⟩ := finishCommit_of_valid (s := { s with
          committedGroups := s.committedGroups + 1
          trace := { s.trace with succeeded := s.trace.succeeded ++ [markers s.ledger id] } })
      point hvalid
    rw [heq]
    refine h.reader rfl rfl rfl rfl rfl rfl (fun _ hid => hid) (.inl ⟨?_, ?_⟩) (by simp)
    · simp [readerIds, hreader]
    · simp [readerRunning, hreader]
  | refused error hreader =>
    exact h.reader rfl rfl rfl rfl rfl rfl (fun _ hid => hid) (.inr ⟨_, rfl⟩) (by simp [failReader])
  | take hparser hinput =>
    refine h.handOver (by simp [parserRunning, hparser]) ?_ (fun _ hid => hid) rfl rfl rfl rfl rfl
    simp [inFlight, hparser, hinput, parserIds]
  | stop result => exact h.stop result
  | observe counts outputs hparser hid hcounts => exact h.observe hparser hid hcounts
  | deliver hparser =>
    refine h.handOver (by simp [parserRunning, hparser]) ?_ (fun _ hid => hid) rfl rfl rfl rfl rfl
    simp [inFlight, hparser, parserIds]
  | @receive output rest hsink =>
    have hflight : PipelineState.inFlight
        { s with toSink := rest, received := s.received ++ [output.id] } = s.inFlight := by
      simp [inFlight, hsink]
    refine ⟨?_, ?_, h.events_sent, h.committing⟩
    · intro hrunning
      rw [hflight]
      exact h.in_order hrunning
    intro id hid
    exact mem_append_left _ (h.sent_received id hid)
  | acknowledge hreceived =>
    refine ⟨h.in_order, ?_, ?_, ?_⟩
    · intro id hid
      rcases mem_append.mp hid with hold | hnew
      · exact h.sent_received id hold
      rw [mem_singleton.mp hnew]
      exact hreceived
    · intro id hid
      exact mem_append.mpr ((mem_append.mp hid).imp_left (h.events_sent id))
    intro id point hreader
    obtain ⟨hsent, hvalid⟩ := h.committing id point hreader
    exact ⟨mem_append_left _ hsent, hvalid⟩

/-! ## Commits on a ledger of consecutive ids -/

section
variable {ledger : List (CommitEntry M)} {first id : ℕ}
  (hids : ledger.map CommitEntry.id = range' first ledger.length)
include hids

theorem committedEntries_of_ids (hid : id < first + ledger.length) :
    committedEntries ledger id = id + 1 - first := by
  induction ledger generalizing first with
  | nil =>
    simp only [length_nil] at hid
    simp only [committedEntries, takeWhile_nil, length_nil]
    omega
  | cons entry rest ih =>
    simp only [map_cons, length_cons, range'_succ, cons.injEq] at hids
    simp only [length_cons] at hid
    by_cases hle : entry.id ≤ id
    · have hrest := ih hids.2 (by omega)
      unfold committedEntries at hrest ⊢
      rw [takeWhile_cons_of_pos (by simpa using hle), length_cons, hrest]
      omega
    unfold committedEntries
    rw [takeWhile_cons_of_neg (by simpa using hle)]
    simp only [length_nil]
    omega

theorem validRange_iff : validRange ledger id ↔ first ≤ id ∧ id < first + ledger.length := by
  have hhead : ledger.head?.map CommitEntry.id = (range' first ledger.length).head? := by
    rw [← hids, head?_map]
  have hlast : ledger.getLast?.map CommitEntry.id = (range' first ledger.length).getLast? := by
    rw [← hids, getLast?_map]
  rw [head?_range'] at hhead
  rw [getLast?_range'] at hlast
  unfold validRange
  by_cases he : ledger.length = 0
  · rw [length_eq_zero_iff] at he
    subst he
    simp only [length_nil]
    constructor
    · rintro ⟨⟩
    · omega
  rw [if_neg he] at hhead hlast
  obtain ⟨head, hheadEq, hheadId⟩ := map_eq_some_iff.mp hhead
  obtain ⟨last, hlastEq, hlastId⟩ := map_eq_some_iff.mp hlast
  rw [hheadEq, hlastEq]
  simp only [Bool.and_eq_true, decide_eq_true_eq]
  omega

end

/-! ## The ledger -/

/-- The account of what was emitted, submitted and committed. -/
structure Accounted (s : PipelineState M) : Prop where
  next_eq : s.nextId = s.trace.emitted.length + 1
  emitted_ids : s.trace.emitted.map CommitEntry.id = range' 1 s.trace.emitted.length
  committed_le : s.trace.committedThrough ≤ s.trace.emitted.length
  committed_sent : s.trace.committedThrough = 0 ∨ s.trace.committedThrough ∈ s.trace.acknowledged
  ledger_eq : s.ledger = s.trace.emitted.drop s.trace.committedThrough
  succeeded_eq :
    s.trace.succeeded.flatten = (s.trace.emitted.take s.trace.committedThrough).filterMap marked
  submitted_eq : s.trace.submitted = s.trace.succeeded ∧
    (∀ id point, s.reader ≠ .committing id point) ∨ ∃ id ∈ s.trace.acknowledged,
    validRange s.ledger id ∧ s.trace.submitted = s.trace.succeeded ++ [markers s.ledger id] ∧
    ((∃ point, s.reader = .committing id point) ∨ ∃ error, s.reader = .returned (.error error))
  drained : s.reader = .returned (.ok .finiteSourceDrained) → s.ledger = []

theorem accounted_start (evolving : Bool) (rowCounts : Option OutputRowCounts) :
    Accounted (start evolving rowCounts : PipelineState M) := by
  refine ⟨rfl, rfl, le_refl _, .inl rfl, rfl, rfl, .inl ⟨rfl, ?_⟩, ?_⟩
  · simp [start]
  · simp [start]

section
variable {s : PipelineState M}
section
variable (h : Accounted s)
include h

theorem Accounted.ledger_ids :
    s.ledger.map CommitEntry.id = range' (s.trace.committedThrough + 1) s.ledger.length := by
  rw [h.ledger_eq, map_drop, h.emitted_ids, drop_range', length_drop]
  congr 1
  omega

theorem Accounted.validRange_iff :
    validRange s.ledger id ↔ s.trace.committedThrough < id ∧ id ≤ s.trace.emitted.length := by
  rw [PipelineState.validRange_iff h.ledger_ids]
  rw [h.ledger_eq, length_drop]
  omega

section
variable {id : ℕ} (hr : validRange s.ledger id)
include hr

theorem Accounted.committedEntries :
    committedEntries s.ledger id = id - s.trace.committedThrough := by
  have hbounds := h.validRange_iff.mp hr
  rw [committedEntries_of_ids h.ledger_ids]
  · omega
  rw [h.ledger_eq, length_drop]
  omega

theorem Accounted.append_markers : s.trace.succeeded.flatten ++ markers s.ledger id =
    (s.trace.emitted.take id).filterMap marked := by
  have hbounds := h.validRange_iff.mp hr
  rw [markers, h.committedEntries hr, h.succeeded_eq, h.ledger_eq,
    ← filterMap_append, ← take_add, Nat.add_sub_cancel' hbounds.1.le]

theorem Accounted.drop_ledger :
    s.ledger.drop (PipelineState.committedEntries s.ledger id) = s.trace.emitted.drop id := by
  have hbounds := h.validRange_iff.mp hr
  rw [h.committedEntries hr, h.ledger_eq, drop_drop, Nat.add_sub_cancel' hbounds.1.le]

end
end

theorem Accounted.keep (h : Accounted s) (hnext : t.nextId = s.nextId)
    (hledger : t.ledger = s.ledger) (ht : t.trace = s.trace)
    (hreader : t.reader = s.reader ∨
      (∃ point, s.reader = .waiting point) ∧
        (∀ id point, t.reader ≠ .committing id point) ∧
        (t.reader = .returned (.ok .finiteSourceDrained) → s.ledger = [])) : Accounted t := by
  refine ⟨?_, ?_, ?_, ?_, ?_, ?_, ?_, ?_⟩
  · rw [hnext, ht]
    exact h.next_eq
  · rw [ht]
    exact h.emitted_ids
  · rw [ht]
    exact h.committed_le
  · rw [ht]
    exact h.committed_sent
  · rw [hledger, ht]
    exact h.ledger_eq
  · rw [ht]
    exact h.succeeded_eq
  · rw [hledger, ht]
    rcases hreader with hsame | ⟨⟨point, hwait⟩, hc, _⟩
    · rw [hsame]
      exact h.submitted_eq
    rcases h.submitted_eq with ⟨heq, _⟩ | ⟨_, _, _, _, hbusy⟩
    · exact .inl ⟨heq, hc⟩
    rw [hwait] at hbusy
    simp at hbusy
  rw [hledger]
  rcases hreader with hsame | ⟨_, _, hdrained⟩
  · rw [hsame]
    exact h.drained
  exact hdrained

theorem Accounted.submitted_of_waiting (h : Accounted s) (hreader : s.reader = .waiting point) :
    s.trace.submitted = s.trace.succeeded := by
  rcases h.submitted_eq with ⟨heq, _⟩ | ⟨_, _, _, _, hbusy⟩
  · exact heq
  rw [hreader] at hbusy
  simp at hbusy

theorem Accounted.submitted_of_committing
    (h : Accounted s) (hreader : s.reader = .committing id point) : id ∈ s.trace.acknowledged ∧
    validRange s.ledger id ∧ s.trace.submitted = s.trace.succeeded ++ [markers s.ledger id] := by
  rcases h.submitted_eq with ⟨_, hidle⟩ | ⟨other, hsent, hr, heq, hbusy⟩
  · exact absurd hreader (hidle id point)
  rw [hreader] at hbusy
  simp only [ReaderState.committing.injEq, reduceCtorEq, exists_false,
    or_false, exists_and_left, exists_eq', and_true] at hbusy
  subst hbusy
  exact ⟨hsent, hr, heq⟩

theorem Accounted.advance (h : Accounted s) (point : ReaderPoint M)
    (cnts : Option OutputRowCounts) (groups : ℕ) {succeeded : List (List (ℕ × M))}
    (hr : validRange s.ledger id) (hsent : id ∈ s.trace.acknowledged)
    (hsucceeded : succeeded.flatten = s.trace.succeeded.flatten ++ markers s.ledger id)
    (hsubmitted : s.trace.submitted = succeeded) :
    Accounted
      { s with
        reader := .waiting point, rowCounts := cnts, committedGroups := groups
        ledger := s.ledger.drop (PipelineState.committedEntries s.ledger id)
        trace := { s.trace with succeeded, committedThrough := id } } := by
  refine ⟨h.next_eq, h.emitted_ids, (h.validRange_iff.mp hr).2,
    .inr hsent, h.drop_ledger hr, ?_, .inl ⟨hsubmitted, by simp⟩,
    by simp⟩
  exact hsucceeded.trans (h.append_markers hr)

theorem Accounted.event (h : Accounted s) {next : ReaderPoint M} {comm : ℕ}
    {rest : List ℕ} (hreader : s.reader = .waiting point) (hsent : comm ∈ s.trace.acknowledged) :
    Accounted (commitThrough { s with events := rest } comm next) := by
  have hs := h.submitted_of_waiting hreader
  rcases commitThrough_cases { s with events := rest } comm next with
    ⟨error, heq⟩ | ⟨hr, hnone, counts, heq⟩ | ⟨hr, _, heq⟩
  · rw [heq]
    exact h.keep rfl rfl rfl (.inr ⟨⟨point, hreader⟩, by simp [failReader], by simp [failReader]⟩)
  · rw [heq]
    have hempty : markers s.ledger comm = [] := hnone
    have ha := h.advance next counts s.committedGroups hr hsent (by rw [hempty, append_nil]) hs
    exact { ha with }
  rw [heq]
  refine { h with submitted_eq := .inr ⟨comm, hsent, hr, ?_, ?_⟩, drained := by simp }
  · simp only [hs]
  · exact .inl ⟨next, rfl⟩

theorem Accounted.moves (h : Accounted s) (hflow : Flow s) (hmoves : Moves s t) : Accounted t := by
  cases hmoves with
  | cancel | take | stop | deliver | receive | sinkStops => exact h.keep rfl rfl rfl (.inl rfl)
  | wait hreader hpending | send hreader =>
    exact h.keep rfl rfl rfl (.inr ⟨⟨_, hreader⟩, by simp, by simp⟩)
  | leave hreader hresult =>
    refine h.keep rfl rfl rfl (.inr ⟨⟨_, hreader⟩, by simp, ?_⟩)
    intro hdrained
    simp only [ReaderState.returned.injEq] at hdrained
    exact absurd hdrained hresult
  | drained hreader hledger =>
    exact h.keep rfl rfl rfl (.inr ⟨⟨_, hreader⟩, by simp, fun _ => hledger⟩)
  | @emit point batch hreader hpending =>
    have hs := h.submitted_of_waiting hreader
    have hle := h.committed_le
    refine ⟨?_, ?_, ?_, h.committed_sent, ?_, ?_, .inl ⟨hs, ?_⟩, ?_⟩
    · simp [emitBatch, h.next_eq]
    · have hnext := h.next_eq
      simp only [emitBatch, map_append, map_cons, map_nil,
        length_append, length_singleton, h.emitted_ids, range'_concat]
      rw [hnext, one_mul, add_comm]
    · simp only [emitBatch, length_append]
      omega
    · simp only [emitBatch, h.ledger_eq]
      rw [drop_append_of_le_length hle]
    · simp only [emitBatch, h.succeeded_eq]
      rw [take_append_of_le_length hle]
    · simp [emitBatch]
    · simp [emitBatch]
  | event hreader hpending hevents =>
    exact h.event hreader (hflow.events_sent _ (by simp [hevents]))
  | @committed id point hreader =>
    obtain ⟨hsent, hr, hs⟩ := h.submitted_of_committing hreader
    obtain ⟨_, hvalid⟩ := hflow.committing id point hreader
    obtain ⟨counts, heq⟩ := finishCommit_of_valid (s := { s with
          committedGroups := s.committedGroups + 1
          trace := { s.trace with succeeded := s.trace.succeeded ++ [markers s.ledger id] } })
      point hvalid
    rw [heq]
    exact h.advance point counts _ hr hsent (by simp) hs
  | @refused id point error hreader =>
    obtain ⟨hsent, hr, hs⟩ := h.submitted_of_committing hreader
    exact ⟨h.next_eq, h.emitted_ids, h.committed_le, h.committed_sent, h.ledger_eq, h.succeeded_eq,
      .inr ⟨id, hsent, hr, hs, .inr ⟨error, rfl⟩⟩, by simp [failReader]⟩
  | @observe envelope output counts outputs hparser hid hcounts =>
    rcases observe_cases { s with rowCounts := counts } envelope.id outputs output with
      ⟨_, heq⟩ | ⟨_, heq⟩ <;> rw [heq] <;> exact h.keep rfl rfl rfl (.inl rfl)
  | acknowledge hreceived =>
    refine { h with committed_sent := ?_, submitted_eq := ?_ }
    · exact h.committed_sent.imp_right (mem_append_left _)
    · exact h.submitted_eq.imp_right fun ⟨id, hsent, hrest⟩ => ⟨id, mem_append_left _ hsent, hrest⟩

end

theorem accounted_of_reachable {evolving : Bool} {rowCounts : Option OutputRowCounts}
    (h : Reachable step (start evolving rowCounts) s) : Flow s ∧ Accounted s := by
  refine h.invariant (P := fun s => Flow s ∧ Accounted s) ?_
    ⟨flow_start evolving rowCounts, accounted_start evolving rowCounts⟩
  rintro s label t ⟨hflow, ha⟩ hstep
  have hmoves := moves_of_step hstep
  exact ⟨hflow.moves hmoves, ha.moves hflow hmoves⟩

end PipelineState
open PipelineState

/-! ## The guarantee -/

/-- What holds of a partition pipeline at any time.  `emitted` are the entries
of the ledger in the order in which they were made, `submitted` the arguments
of the calls of the source and `succeeded` those of the calls that succeeded. -/
structure AtLeastOnce (s : PipelineState M) : Prop where
  emitted_ids : s.trace.emitted.map CommitEntry.id = range' 1 (s.nextId - 1)
  acknowledged_first : ∀ call ∈ s.trace.submitted, ∀ entry ∈ call,
    ∃ id ∈ s.trace.acknowledged, entry.1 ≤ id
  emission_order : s.trace.submitted.flatten <+: s.trace.emitted.filterMap marked
  committed_once : s.trace.succeeded.flatten =
    (s.trace.emitted.take s.trace.committedThrough).filterMap marked
  ledger_eq : s.ledger = s.trace.emitted.drop s.trace.committedThrough
  ledger_ids : s.ledger.map CommitEntry.id = range'
    (s.trace.committedThrough + 1) (s.nextId - 1 - s.trace.committedThrough)
  failed_commit : ∀ error t, s.step (.commitReturns (.error error)) = some t → t.ledger = s.ledger
  drained : s.reader = .returned (.ok .finiteSourceDrained) →
    (∀ entry ∈ s.trace.emitted, ∃ id ∈ s.trace.acknowledged, entry.id ≤ id) ∧
      s.trace.succeeded.flatten = s.trace.emitted.filterMap marked

namespace PipelineState
variable {s : PipelineState M}

theorem Accounted.id_le_of_mem_take (h : Accounted s) {entry : ℕ × M} {through : ℕ}
    (hentry : entry ∈ (s.trace.emitted.take through).filterMap marked) : entry.1 ≤ through := by
  obtain ⟨source, hsrc, hmarked⟩ := mem_filterMap.mp hentry
  obtain ⟨marker, _, rfl⟩ := map_eq_some_iff.mp hmarked
  have hid : source.id ∈ (s.trace.emitted.take through).map CommitEntry.id := mem_map_of_mem hsrc
  rw [map_take, h.emitted_ids] at hid
  obtain ⟨index, hidx, hget⟩ := mem_take_iff_getElem.mp hid
  simp only [getElem_range'] at hget
  omega

/-- Everything submitted lies in the part of the emission order through an
acknowledged id. -/
theorem Accounted.submitted_through (h : Accounted s) :
    ∃ thru, (thru = 0 ∨ thru ∈ s.trace.acknowledged) ∧
    s.trace.submitted.flatten = (s.trace.emitted.take thru).filterMap marked := by
  rcases h.submitted_eq with ⟨heq, _⟩ | ⟨id, hsent, hr, heq, _⟩
  · refine ⟨s.trace.committedThrough, h.committed_sent, ?_⟩
    rw [heq, h.succeeded_eq]
  refine ⟨id, .inr hsent, ?_⟩
  rw [heq, ← h.append_markers hr]
  simp

theorem Accounted.atLeastOnce (h : Accounted s) : AtLeastOnce s := by
  have hnext := h.next_eq
  have hlen : s.nextId - 1 = s.trace.emitted.length := by omega
  obtain ⟨through, hsent, hs⟩ := h.submitted_through
  refine ⟨?_, ?_, ?_, h.succeeded_eq, h.ledger_eq, ?_, ?_, ?_⟩
  · rw [hlen]
    exact h.emitted_ids
  · intro call hcall entry hentry
    have hmem : entry ∈ s.trace.submitted.flatten := mem_flatten.mpr ⟨call, hcall, hentry⟩
    rw [hs] at hmem
    have hle := h.id_le_of_mem_take hmem
    rcases hsent with hzero | hsent
    · subst hzero
      simp at hmem
    exact ⟨through, hsent, hle⟩
  · rw [hs]
    exact ( take_prefix through s.trace.emitted).filterMap _
  · have hids := h.ledger_ids
    rw [h.ledger_eq, length_drop] at hids
    rw [hlen, h.ledger_eq]
    exact hids
  · intro error t hstep
    simp only [step, commitReturns] at hstep
    split at hstep
    · cases hstep
      rfl
    · cases hstep
  intro hdrained
  have hempty := h.drained hdrained
  rw [h.ledger_eq, drop_eq_nil_iff] at hempty
  have hall : s.trace.committedThrough = s.trace.emitted.length := le_antisymm h.committed_le hempty
  constructor
  · intro entry hentry
    have hid : entry.id ∈ range' 1 s.trace.emitted.length := by
      rw [← h.emitted_ids]
      exact mem_map_of_mem hentry
    rw [mem_range'_1] at hid
    rcases h.committed_sent with hzero | hsent
    · omega
    · exact ⟨s.trace.committedThrough, hsent, by omega⟩
  rw [h.succeeded_eq, hall, take_length]

end PipelineState

/-- Every interleaving of reader, parser and sink, with any source, any
cancellation and any failing commit, keeps the guarantee. -/
theorem partition_atLeastOnce (evolving : Bool) (rowCounts : Option OutputRowCounts)
    {s : PipelineState M} (h : Reachable step (start evolving rowCounts) s) : AtLeastOnce s :=
  (accounted_of_reachable h).2.atLeastOnce

def oneTable : OutputRowCounts :=
  { committed := OrderedMap.empty.insert (toLex (false, "events")) 0, pending := .empty }

/-- One raw batch of a finite source, up to the drained outcome. -/
def oneBatchRun : List (PipelineLabel ℕ) :=
  [.read (.ok (.raw [5] (some 7) true)), .afterPoll, .sendEnvelope,
    .parserReceive, .parse (.ok [⟨"events", false, 1⟩]), .sendOutput,
    .sinkReceive, .acknowledge 1, .read (.ok .finished), .receiveEvent,
    .commitReturns (.ok ()), .afterPoll, .ledgerDrained]

theorem partition_atLeastOnce_one_batch :
    OutputRowCounts.new [toLex (false, "events")] = .ok oneTable ∧
      ∃ s : PipelineState ℕ, exec step (start false (some oneTable)) oneBatchRun = some s ∧
          s.reader = .returned (.ok .finiteSourceDrained) ∧
          s.trace.succeeded = [[(1, 7)]] ∧ AtLeastOnce s := by
  have hexec : ∃ s : PipelineState ℕ, exec step (start false (some oneTable)) oneBatchRun = some s ∧
        s.reader = .returned (.ok .finiteSourceDrained) ∧
        s.trace.succeeded = [[(1, 7)]] := ⟨_, rfl, rfl, rfl⟩
  obtain ⟨s, hrun, hreader, hs⟩ := hexec
  exact ⟨rfl, s, hrun, hreader, hs,
    partition_atLeastOnce false (some oneTable) ⟨oneBatchRun, hrun⟩⟩

end Transferia.Pipeline
