import Transferia.Kafka.Sink

/-!
# The order in which records enter the producer's queue

A new future is polled before every future that became ready after it, so the
records reach the producer in delivery order as long as none is turned away.  A
record that meets a full queue sleeps while the later ones are offered.
-/

namespace Transferia.Kafka
open List Support Nat Multiset
open FutureRecord (number)

def FutureRecord.SameKey (a b : FutureRecord) : Prop :=
  a.topic = b.topic ∧ a.key.isSome ∧ a.key = b.key

instance (a b : FutureRecord) : Decidable (a.SameKey b) := inferInstanceAs (Decidable (_ ∧ _ ∧ _))

/-- What the sink owes its readers and the pipeline. -/
structure SendLaws (s : Session) : Prop where
  ordered : s.queue.Pairwise fun a b => a.SameKey b → a.number < b.number
  committed : s.events = (s.received.take s.events.length).map Prod.fst
  once : ∀ record ∈ (s.received.take s.events.length).flatMap Prod.snd, s.queue.count record = 1
  confirmed : ∀ record ∈ (s.received.take s.events.length).flatMap Prod.snd, record ∈ s.confirmed

/-- A queue-full answer goes to a record that no record of its topic and key
follows in the delivery, or there is no second future. -/
def fullQueueIsHarmless (config : KafkaSinkConfig) (s : Session) : Label → Bool
  | .poll .queueFull =>
    decide (config.maxInFlight ≤ 1) || s.ready.head?.all fun offered =>
        (s.sleeping ++ s.ready.tail.map Prod.snd ++ s.todo).all fun later =>
          decide (¬(offered.2.SameKey later ∧ offered.2.number < later.number))
  | _ => true

namespace Session

def first? : Wake × FutureRecord → Option FutureRecord
  | (.first, record) => some record
  | _ => none

def retry? : Wake × FutureRecord → Option FutureRecord
  | (.retry, record) => some record
  | _ => none

def reported? : Wake × FutureRecord → Option FutureRecord
  | (.report _, record) => some record
  | _ => none

/-- Records not offered yet, turned away so far, in the queue, in the queue and
not seen confirmed, and confirmed. -/
structure Places where
  unpolled : List FutureRecord
  held : Multiset FutureRecord
  queue : List FutureRecord
  unconfirmed : Multiset FutureRecord
  confirmed : List FutureRecord

def places (s : Session) : Places where
  unpolled := s.ready.filterMap first? ++ s.todo
  held := ↑(s.sleeping ++ s.ready.filterMap retry?)
  queue := s.queue
  unconfirmed := ↑(s.queued ++ s.ready.filterMap reported?)
  confirmed := s.confirmed

def Last (record : FutureRecord) (p : Places) : Prop :=
  ∀ later, later ∈ p.held ∨ later ∈ p.unpolled →
    record.number < later.number → ¬record.SameKey later

/-- The effect of a step on the places, when `alone` says that there is only
one future. -/
inductive Moves (alone : Prop) (p : Places) : Places → Prop
  | keeps : Moves alone p p
  | starts (record rest) (hunpolled : p.unpolled = record :: rest) (halone : alone → p.held = 0) :
      Moves alone p { p with
        unpolled := rest, queue := p.queue ++ [record], unconfirmed := record ::ₘ p.unconfirmed }
  | retries (record held) (hheld : p.held = record ::ₘ held) (halone : alone → held = 0) :
      Moves alone p { p with
        held, queue := p.queue ++ [record]
        unconfirmed := record ::ₘ p.unconfirmed }
  | refuses (record rest) (hunpolled : p.unpolled = record :: rest)
      (hlast : alone ∨ Last record { p with unpolled := rest }) :
      Moves alone p { p with unpolled := rest, held := record ::ₘ p.held }
  | confirms (record unconfirmed) (hunconfirmed : p.unconfirmed = record ::ₘ unconfirmed) :
      Moves alone p { p with unconfirmed, confirmed := p.confirmed ++ [record] }

def Narrow (s : Session) : Prop := s.pending ≤ 1 ∧ (s.awaiting = false → s.pending = 0)

/-- The step goes on with the delivery or ends the session. -/
structure Quiet (config : KafkaSinkConfig) (s t : Session) : Prop where
  received : t.received = s.received
  events : t.events = s.events
  busy : t.phase ≠ .idle
  writing : ∀ id, t.phase = .writing id → s.phase = .writing id
  narrow : config.maxInFlight ≤ 1 → s.Narrow → t.Narrow
  moves : (config.maxInFlight ≤ 1 → s.Narrow) → Moves (config.maxInFlight ≤ 1) s.places t.places

variable {config : KafkaSinkConfig} {s t : Session} {record : FutureRecord}
  {alone : Prop} {accepted : List FutureRecord} {p q : Places}

theorem Quiet.ends {phase : Phase} (hbusy : phase ≠ .idle) (hwriting : ∀ id, phase ≠ .writing id) :
    Quiet config s { s with phase } :=
  ⟨rfl, rfl, hbusy, fun id hid => absurd hid (hwriting id), fun _ h => h, fun _ => .keeps⟩

theorem coe_woken {records : List FutureRecord} {place : ℕ} (h : records[place]? = some record)
    (ready : List FutureRecord) :
    (↑(records.eraseIdx place ++ (ready ++ [record])) : Multiset FutureRecord) =
      ↑(records ++ ready) := by
  obtain ⟨hplace, rfl⟩ := List.getElem?_eq_some_iff.mp h
  rw [coe_eq_coe, ← append_assoc]
  exact (perm_append_singleton _ _).trans ((getElem_cons_eraseIdx_perm hplace).append_right ready)

theorem first?_eq_some (entry : Wake × FutureRecord) (record : FutureRecord)
    (h : first? entry = some record) : entry.2 = record := by
  obtain ⟨_ | _ | _, found⟩ := entry <;> cases h
  rfl

theorem retry?_eq_some (entry : Wake × FutureRecord) (record : FutureRecord)
    (h : retry? entry = some record) : entry.2 = record := by
  obtain ⟨_ | _ | _, found⟩ := entry <;> cases h
  rfl

theorem mem_map_snd {f : Wake × FutureRecord → Option FutureRecord}
    {ready : List (Wake × FutureRecord)}
    (hf : ∀ entry record, f entry = some record → entry.2 = record)
    (h : record ∈ ready.filterMap f) : record ∈ ready.map Prod.snd := by
  obtain ⟨entry, hentry, hrec⟩ := mem_filterMap.mp h
  exact mem_map.mpr ⟨entry, hentry, hf entry record hrec⟩

theorem Narrow.single (h : s.Narrow) {head : Wake × FutureRecord}
    {rest : List (Wake × FutureRecord)} (hready : s.ready = head :: rest) :
    rest = [] ∧ s.sleeping = [] := by
  have hpend := h.1
  simp only [pending, hready, length_cons] at hpend
  constructor <;> exact length_eq_zero_iff.mp (by omega)

theorem quiet_of_offer {wake : Wake} {id : ℕ} {rest : List (Wake × FutureRecord)}
    {answer : SendAnswer} (hp : s.phase = .writing id) (hready : s.ready = (wake, record) :: rest)
    (hwake : wake = .first ∨ wake = .retry)
    (hallowed : fullQueueIsHarmless config s (.poll answer) = true) :
    Quiet config s (s.offer rest record answer) := by
  have hsingle : (config.maxInFlight ≤ 1 → s.Narrow) →
    config.maxInFlight ≤ 1 → rest = [] ∧ s.sleeping = [] := fun hn hmax => (hn hmax).single hready
  cases answer with
  | refused error => exact .ends (by simp) (by simp)
  | enqueued =>
    refine ⟨rfl, rfl, by simp [offer, hp], fun _ h => h, fun _ hn => ?_, fun hn => ?_⟩
    · grind [Narrow, pending, offer]
    rcases hwake with rfl | rfl
    · convert Moves.starts (p := s.places) record (rest.filterMap first? ++ s.todo) ?_ ?_ using 1
      · simp [places, offer, hready, List.filterMap_cons, retry?, reported?]
      · simp [places, hready, first?]
      intro hmax
      simp [places, hready, hsingle hn hmax, retry?]
    convert Moves.retries
      (p := s.places) record ↑(s.sleeping ++ rest.filterMap retry?) ?_ ?_ using 1
    · simp [places, offer, hready, List.filterMap_cons, first?, reported?]
    · simp [places, hready, retry?]
    intro hmax
    simp [hsingle hn hmax]
  | queueFull =>
    refine ⟨rfl, rfl, by simp [offer, hp], fun _ h => h, fun _ hn => ?_, fun hn => ?_⟩
    · grind [Narrow, pending, offer]
    rcases hwake with rfl | rfl
    · convert Moves.refuses (p := s.places) record (rest.filterMap first? ++ s.todo) ?_ ?_ using 1
      · simp [places, offer, hready, List.filterMap_cons, retry?, reported?]
      · simp [places, hready, first?]
      simp only [fullQueueIsHarmless, hready, head?_cons,
        Option.all_some, Bool.or_eq_true, decide_eq_true_eq, all_eq_true] at hallowed
      refine hallowed.imp (fun h => h) fun hlast later hl hlt hsame => ?_
      refine hlast later ?_ ⟨hsame, hlt⟩
      simp only [places, hready, mem_coe, mem_append] at hl ⊢
      rcases hl with (hl | hl) | (hl | hl)
      · exact .inl (.inl hl)
      · exact .inl (.inr (mem_map_snd retry?_eq_some hl))
      · exact .inl (.inr (mem_map_snd first?_eq_some hl))
      · exact .inr hl
    convert Moves.keeps using 1
    simp [places, offer, hready, List.filterMap_cons, first?, retry?, reported?]

theorem quiet_of_poll {answer : SendAnswer} {id : ℕ} (hp : s.phase = .writing id)
    (h : s.poll answer = some t) (hallowed : fullQueueIsHarmless config s (.poll answer)) :
    Quiet config s t := by
  unfold poll at h
  split at h
  · cases h
  · cases h
    exact quiet_of_offer hp ‹_› (.inl rfl) hallowed
  · cases h
    exact quiet_of_offer hp ‹_› (.inr rfl) hallowed
  next record rest hready =>
    cases h
    refine ⟨rfl, rfl, by simp [hp], fun _ h => h, fun _ hn => ?_, fun _ => ?_⟩
    · grind [Narrow, pending]
    convert Moves.confirms (p := s.places) record ↑(s.queued ++ rest.filterMap reported?) ?_ using 1
    · simp [places, hready, List.filterMap_cons, first?, retry?]
    · simp [places, hready, reported?]
  · cases h
    exact .ends (by simp) (by simp)

theorem step_cases {label : Label} (h : s.step config label = some t)
    (hallowed : fullQueueIsHarmless config s label) :
    Quiet config s t ∨
    (∃ (delivery : Delivery) (rest : List Delivery), s.phase = .idle ∧ t = { s with
        input := rest, phase := .writing delivery.id
        todo := delivery.records config s.accepted.length, received := s.received ++
          [(delivery.id, delivery.records config s.accepted.length)] }) ∨
    ∃ id, s.phase = .writing id ∧ s.todo = [] ∧ s.pending = 0 ∧
      t = { s with phase := .idle, awaiting := false, events := s.events ++ [id] } := by
  cases label with
    simp only [step] at h
  | receive serialized =>
    split at h
    · cases serialized with
      | error error =>
        cases h
        exact .inl (.ends (by simp) (by simp))
      | ok _ =>
        cases h
        exact .inr (.inl ⟨_, _, ‹_›, rfl⟩)
    · cases h
  | cancel =>
    split at h <;> cases h
    exact .inl (.ends (by simp) (by simp))
  | push =>
    split at h
    next record rest hp hawaiting htodo =>
      cases h
      refine .inl ⟨rfl, rfl, by simp [hp], fun _ h => h, fun _ hn => ?_, fun _ => ?_⟩
      · grind [Narrow, pending]
      convert Moves.keeps using 1
      simp [places, htodo, List.filterMap_cons, first?, retry?, reported?]
    · cases h
  | poll answer =>
    split at h
    · split at h
      · exact .inl (quiet_of_poll ‹_› h hallowed)
      · cases h
    · cases h
  | delayOver place | report place result =>
    split at h
    next record hp hplace =>
      cases h
      refine .inl ⟨rfl, rfl, by simp [hp], fun _ h => h, fun _ hn => ?_, fun _ => ?_⟩
      · grind [Narrow, pending]
      convert Moves.keeps using 1
      simp [places, List.filterMap_cons, coe_woken hplace, first?, retry?, reported?]
    · cases h
  | commit listening =>
    split at h
    · split at h
      next hdone =>
        split at h
        · cases h
          exact .inr (.inr ⟨_, ‹_›, hdone.1, hdone.2, rfl⟩)
        cases h
        exact .inl (.ends (by simp) (by simp))
      · cases h
    · cases h

/-- Every record is in one place: in the queue, turned away, or behind all of
these and not offered yet.  The queue is in order, and no record that was turned
away can be overtaken by one of its key. -/
structure Placed (alone : Prop) (accepted : List FutureRecord) (p : Places) : Prop where
  numbered : accepted.map number = List.range accepted.length
  split : ∃ started, accepted = started ++ p.unpolled ∧
    (p.queue : Multiset FutureRecord) + p.held = ↑started
  sent : (p.queue : Multiset FutureRecord) = ↑p.confirmed + p.unconfirmed
  ordered : p.queue.Pairwise fun a b => a.SameKey b → a.number ≤ b.number
  behind : ∀ record ∈ p.held, ∀ a ∈ p.queue, a.SameKey record → a.number ≤ record.number
  last : ∀ record ∈ p.held, alone ∨ Last record p

theorem Placed.before_unpolled (h : Placed alone accepted p) {a b : FutureRecord}
    (ha : a ∈ p.queue ∨ a ∈ p.held) (hb : b ∈ p.unpolled) : a.number < b.number := by
  obtain ⟨started, hsplit, hstarted⟩ := h.split
  have hr : (accepted.map number).Pairwise (· < ·) := by
    rw [h.numbered]
    exact pairwise_lt_range
  rw [pairwise_map, hsplit, pairwise_append] at hr
  refine hr.2.2 a ?_ b hb
  rw [← mem_coe, ← hstarted]
  simpa using ha

theorem coe_append_singleton (records : List FutureRecord) (rec : FutureRecord) :
    (↑(records ++ [rec]) : Multiset FutureRecord) = rec ::ₘ ↑records :=
  coe_eq_coe.mpr (perm_append_singleton rec records)

theorem Placed.moves (h : Placed alone accepted p) (hmoves : Moves alone p q) :
    Placed alone accepted q := by
  have hbefore : ∀ a b, a ∈ p.queue ∨
    a ∈ p.held → b ∈ p.unpolled → a.number < b.number := fun a b ha hb => h.before_unpolled ha hb
  obtain ⟨hn, ⟨started, hsplit, hstarted⟩, hsent, hord, hbehind, hlast⟩ := id h
  cases hmoves with
  | keeps => exact h
  | starts record rest hunpolled halone =>
    have hqueued : ∀ a ∈ p.queue, a.number < record.number := fun a ha =>
      hbefore a record (.inl ha) (by simp [hunpolled])
    refine ⟨hn, ⟨started ++ [record], by simp [hsplit, hunpolled], ?_⟩, ?_, ?_, ?_, ?_⟩
    · rw [coe_append_singleton, coe_append_singleton, cons_add, hstarted]
    · rw [coe_append_singleton, hsent, add_cons]
    · grind
    · intro other hother a ha hsame
      -- only a record that none of its key follows may be turned away
      have hlater : alone ∨ ¬other.SameKey record := (hlast other hother).imp id
        fun hlast => hlast record (.inr (by simp [hunpolled]))
          (hbefore other record (.inr hother) (by simp [hunpolled]))
      grind [FutureRecord.SameKey]
    grind [Last]
  | retries record held hheld halone =>
    refine ⟨hn, ⟨started, hsplit, ?_⟩, ?_, ?_, ?_, ?_⟩
    · rw [← hstarted, hheld, coe_append_singleton, cons_add, add_cons]
    · rw [coe_append_singleton, hsent, add_cons]
    · grind
    · grind [FutureRecord.SameKey, Last]
    · grind [Last]
  | refuses record rest hunpolled hrec =>
    have hqueued : ∀ a ∈ p.queue, a.number < record.number := fun a ha =>
      hbefore a record (.inl ha) (by simp [hunpolled])
    refine ⟨hn, ⟨started ++ [record], by simp [hsplit, hunpolled], ?_⟩, hsent, hord, ?_, ?_⟩
    · rw [coe_append_singleton, add_cons, hstarted]
    · grind
    · grind [Last]
  | confirms record unconfirmed hunconfirmed =>
    refine ⟨hn, ⟨started, hsplit, hstarted⟩, ?_, hord, hbehind, hlast⟩
    rw [hsent, hunconfirmed, coe_append_singleton, cons_add, add_cons]

structure Invariant (config : KafkaSinkConfig) (s : Session) : Prop where
  placed : Placed (config.maxInFlight ≤ 1) s.accepted s.places
  narrow : config.maxInFlight ≤ 1 → s.Narrow
  events_eq : s.events = (s.received.take s.events.length).map Prod.fst
  confirmed : ∀ record ∈ (s.received.take s.events.length).flatMap Prod.snd, record ∈ s.confirmed
  idle : s.phase = .idle → s.todo = [] ∧ s.pending = 0 ∧ s.events.length = s.received.length
  writing : ∀ id, s.phase = .writing id →
    ∃ records, s.received = s.received.take s.events.length ++ [(id, records)]

theorem invariant_start (cfg : KafkaSinkConfig) (input : List Delivery) :
    Invariant cfg (start input) := by
  refine ⟨⟨rfl, ⟨[], rfl, rfl⟩, rfl, .nil, ?_, ?_⟩, fun _ => ⟨zero_le 1,
    fun _ => rfl⟩, rfl, ?_, fun _ => ⟨rfl, rfl, rfl⟩, ?_⟩ <;> simp [start, places]

theorem Moves.confirmed_subset (h : Moves alone p q) (hrec : record ∈ p.confirmed) :
    record ∈ q.confirmed := by
  cases h <;> simp [hrec]

theorem Invariant.quiet (h : Invariant config s) (hq : Quiet config s t) : Invariant config t := by
  have hmoves := hq.moves h.narrow
  obtain ⟨hr, he, hbusy, hwriting, hnarrow, -⟩ := hq
  have ha : t.accepted = s.accepted := by rw [accepted, hr, accepted]
  refine ⟨?_, fun hmax => hnarrow hmax (h.narrow hmax), ?_, ?_,
    fun hidle => absurd hidle hbusy, fun id hp => ?_⟩
  · rw [ha]
    exact h.placed.moves hmoves
  · rw [he, hr]
    exact h.events_eq
  · rw [he, hr]
    exact fun record hrec => hmoves.confirmed_subset (h.confirmed record hrec)
  rw [he, hr]
  exact h.writing id (hwriting id hp)

theorem places_of_pending (h : s.pending = 0) :
    s.places = ⟨s.todo, 0, s.queue, 0, s.confirmed⟩ := by
  have hempty : s.ready = [] ∧ s.sleeping = [] ∧ s.queued = [] := by
    simpa only [pending, Nat.add_eq_zero_iff, length_eq_zero_iff, and_assoc] using h
  simp [places, hempty]

theorem records_numbers (dlv : Delivery) (start : ℕ) :
    (dlv.records config start).map number = range' start (dlv.records config start).length := by
  unfold Delivery.records
  simp [Function.comp_def]

theorem Invariant.receive (h : Invariant config s) (hp : s.phase = .idle)
    {dlv : Delivery} {rest : List Delivery} {records : List FutureRecord}
    (hrecords : records = dlv.records config s.accepted.length)
    (ht : t = { s with
      input := rest, phase := .writing dlv.id, todo := records
      received := s.received ++ [(dlv.id, records)] }) :
    Invariant config t := by
  obtain ⟨htodo, hpend, hlen⟩ := h.idle hp
  obtain ⟨hn, ⟨started, hsplit, hstarted⟩, hsent, hord, -, -⟩ := h.placed
  rw [places_of_pending hpend] at hsplit hstarted hsent
  have hplaces : t.places = ⟨records, 0, s.queue, 0, s.confirmed⟩ := by
    subst ht
    exact places_of_pending hpend
  have ha : t.accepted = s.accepted ++ records := by simp [ht, accepted]
  have htake : t.received.take t.events.length = s.received := by simp [ht, hlen]
  refine ⟨?_, ?_, ?_, ?_, ?_, fun id hid => ⟨records, ?_⟩⟩
  · rw [ha, hplaces]
    refine ⟨?_, ⟨started, ?_, hstarted⟩, hsent, hord, by simp, by simp⟩
    · rw [map_append, hn, hrecords, records_numbers,
        length_append, range_eq_range', range_eq_range', ← range'_append_1, Nat.zero_add]
    rw [hsplit, htodo, append_nil]
  · subst ht
    exact h.narrow
  · simpa [ht, hlen] using h.events_eq
  · simpa [ht, hlen] using h.confirmed
  · simp [ht]
  rw [htake]
  simp only [ht] at hid ⊢
  cases hid
  rfl

theorem Invariant.commit (h : Invariant config s) {id : ℕ}
    (hp : s.phase = .writing id) (htodo : s.todo = []) (hpend : s.pending = 0)
    (ht : t = { s with
      phase := .idle, awaiting := false, events := s.events ++ [id] }) : Invariant config t := by
  obtain ⟨records, hr⟩ := h.writing id hp
  obtain ⟨started, hsplit, hstarted⟩ := h.placed.split
  have hsent := h.placed.sent
  rw [places_of_pending hpend] at hsplit hstarted hsent
  have hlen : s.received.length = s.events.length + 1 := by
    have hlengths := congrArg length hr
    simp only [length_append, length_take, length_singleton] at hlengths
    omega
  have htake : t.received.take t.events.length = s.received := by simp [ht, ← hlen]
  refine ⟨?_, fun hmax => ⟨?_, ?_⟩, ?_, fun record hrec => ?_, fun _ => ?_, ?_⟩
  · subst ht
    exact h.placed
  · subst ht
    exact (h.narrow hmax).1
  · subst ht
    exact fun _ => hpend
  · rw [htake, hr, map_append, ← h.events_eq]
    simp [ht]
  · rw [htake] at hrec
    have hmem : record ∈ s.accepted := hrec
    rw [hsplit, htodo, append_nil, ← mem_coe, ← hstarted, Multiset.add_zero, hsent,
        Multiset.add_zero]
      at hmem
    simpa [ht] using hmem
  · subst ht
    exact ⟨htodo, hpend, by simp [hlen]⟩
  simp [ht]

theorem Invariant.laws (h : Invariant config s) : SendLaws s := by
  have hnumbers : (s.queue.map number).Nodup := by
    obtain ⟨started, hsplit, hstarted⟩ := h.placed.split
    have hnodup : (s.accepted.map number).Nodup := by
      rw [h.placed.numbered]
      exact nodup_range
    rw [hsplit, map_append] at hnodup
    have hsub : (s.queue : Multiset FutureRecord) ≤ ↑started := by
      rw [← hstarted]
      exact le_add_right _ _
    obtain ⟨queue, hperm, hsublist⟩ := coe_le.mp hsub
    exact (hperm.map _).nodup_iff.mp ((nodup_append.mp hnodup).1.sublist (hsublist.map _))
  refine ⟨?_, h.events_eq, fun record hrec => ?_, h.confirmed⟩
  · have hd := pairwise_map.mp hnumbers
    exact (h.placed.ordered.and hd).imp fun hpair hsame => lt_of_le_of_ne (hpair.1 hsame) hpair.2
  apply count_eq_one_of_mem hnumbers.of_map
  rw [← mem_coe]
  exact h.placed.sent ▸ mem_add.mpr (.inl (h.confirmed record hrec))

end Session

/-- If a full queue only ever turns away a record that no later one of its key
follows, records of one key enter the producer's queue in delivery order and
once each, and a delivery is acknowledged after its records were confirmed. -/
theorem records_keep_key_order (config : KafkaSinkConfig) (input : List Delivery) (s : Session)
    (hreach : Reachable (guarded (Session.step config) (fullQueueIsHarmless config))
      (Session.start input) s) :
    SendLaws s := by
  have hi : Session.Invariant config s := by
    refine hreach.invariant (fun s label t hs hstep => ?_) (Session.invariant_start config input)
    obtain ⟨hallowed, hstep⟩ := of_guarded hstep
    obtain hq | ⟨delivery, rest, hp, ht⟩ |
      ⟨id, hp, htodo, hpend, ht⟩ := Session.step_cases hstep hallowed
    · exact hs.quiet hq
    · exact hs.receive hp rfl ht
    · exact hs.commit hp htodo hpend ht
  exact hi.laws

def sampleConfig : KafkaSinkConfig := ⟨.topic "events", none, 2⟩

def sampleDelivery : Delivery := ⟨1, [⟨"orders", [⟨some [7], some [1]⟩, ⟨some [7], some [2]⟩]⟩]⟩

def delivering : List Label := [.receive (.ok ()), .push, .push, .poll .enqueued, .poll .enqueued,
    .report 1 (.ok ()), .poll .enqueued, .report 0 (.ok ()), .poll .enqueued,
    .commit true]

theorem records_keep_key_order_of_sample :
    SendLaws ((exec (guarded (Session.step sampleConfig) (fullQueueIsHarmless sampleConfig))
      (Session.start [sampleDelivery]) delivering).get (by decide)) :=
  records_keep_key_order sampleConfig [sampleDelivery] _ ⟨delivering, (Option.some_get _).symm⟩

/-- The first message meets a full queue and the second one overtakes it. -/
def overtaking : List Label := [.receive (.ok ()), .push, .push, .poll .queueFull, .poll .enqueued,
    .delayOver 0, .poll .enqueued]

theorem full_queue_reorders_key :
    ¬∀ s, Reachable (Session.step sampleConfig) (Session.start [sampleDelivery]) s →
      SendLaws s := by
  intro hlaws
  have hlaw := (hlaws _ ⟨overtaking, (Option.some_get (by decide)).symm⟩).ordered
  exact absurd hlaw (by decide)

end Transferia.Kafka
