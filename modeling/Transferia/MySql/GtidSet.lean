import Transferia.Support.Checked
import Transferia.MySql.Position

/-!
# What a validated GTID set is

A set that passes its validation has entries with distinct identities, and each
entry has sorted intervals with a gap between any two.  Read as a set of
transactions it then behaves like one: `includeTransaction` adds exactly the
transaction it is given, and `isSubsetOf` decides inclusion.
-/

namespace Transferia.MySql
open List Support Nat

structure GtidInterval.Valid (interval : GtidInterval) : Prop where
  positive : 0 < interval.start
  proper : interval.start < interval.endExclusive
  bounded : interval.endExclusive ≤ maxEndExclusive

theorem GtidInterval.validate_ok {self : GtidInterval} : self.validate = .ok () ↔ self.Valid := by
  unfold validate
  split
  next hbad =>
    constructor
    · rintro ⟨⟩
    rintro ⟨hpositive, hproper, hbounded⟩
    omega
  next hgood => exact ⟨fun _ => ⟨by omega, by omega, by omega⟩, fun _ => rfl⟩

namespace GtidSid
variable {self : GtidSid} {ivs : List GtidInterval}

/-- The intervals are present, and each one ends below the start of the
next. -/
structure Canonical (sid : GtidSid) : Prop where
  nonempty : sid.intervals ≠ []
  valid : ∀ interval ∈ sid.intervals, interval.Valid
  apart : sid.intervals.Pairwise (·.endExclusive < ·.start)

theorem checkIntervals_ok {previousEnd : Option ℕ} : checkIntervals previousEnd ivs = .ok () ↔
    (∀ iv ∈ ivs, iv.Valid) ∧ (ivs.Pairwise (·.endExclusive < ·.start)) ∧
    ∀ prev ∈ previousEnd, ∀ iv ∈ ivs, prev < iv.start := by
  induction ivs generalizing previousEnd with
  | nil => simp [checkIntervals]
  | cons iv rest ih =>
    have hl : checkIntervals previousEnd (iv :: rest) = .ok () ↔ iv.Valid ∧ (∀ prev ∈ previousEnd,
        prev < iv.start) ∧ checkIntervals (some iv.endExclusive) rest = .ok () := by
      rw [← GtidInterval.validate_ok]
      cases previousEnd with
      | none => simp [checkIntervals, check_bind_eq_ok]
      | some prev =>
        by_cases hgap : iv.start ≤ prev
        · simp [checkIntervals, check_bind_eq_ok, hgap]
        · simp [checkIntervals, check_bind_eq_ok, hgap, not_le.mp hgap]
    rw [hl, ih, forall_mem_cons, pairwise_cons]
    simp only [Option.mem_def, Option.some.injEq, forall_eq', mem_cons, forall_eq_or_imp]
    constructor
    · rintro ⟨hvalid, hprev, hrest, hpairs, hnext⟩
      refine
        ⟨⟨hvalid, hrest⟩, ⟨hnext, hpairs⟩, fun prev hmem => ⟨hprev prev hmem, fun later hl => ?_⟩⟩
      have hbefore := hprev prev hmem
      have hproper := hvalid.proper
      have hafter := hnext later hl
      omega
    rintro ⟨⟨hvalid, hrest⟩, ⟨hnext, hpairs⟩, hprev⟩
    exact ⟨hvalid, fun prev hmem => (hprev prev hmem).1, hrest, hpairs, hnext⟩

theorem validateIntervals_ok : self.validateIntervals = .ok () ↔ self.Canonical := by
  unfold validateIntervals
  split
  next hempty =>
    constructor
    · rintro ⟨⟩
    intro h
    exact absurd hempty h.nonempty
  rename_i hsome
  rw [checkIntervals_ok]
  exact ⟨fun ⟨hvalid, hapart, _⟩ => ⟨hsome, hvalid, hapart⟩, fun h => ⟨h.valid, h.apart, by simp⟩⟩

theorem validate_ok {parser : SidParser} : self.validate parser = .ok () ↔
    self.Canonical ∧ ∃ sid, parser.parse self.toMysqlText = .ok sid := by
  rw [← validateIntervals_ok, validate, check_bind_eq_ok]
  cases hparse : parser.parse self.toMysqlText with
  | error => simp [parseMysqlSid, hparse]
  | ok => simp [parseMysqlSid, hparse]

end GtidSid
namespace GtidSet
variable {parser : SidParser} {self : GtidSet}

structure Canonical (set : GtidSet) : Prop where
  entries : ∀ sid ∈ set, sid.Canonical
  distinct : (set.map GtidSid.identity).Nodup

theorem validateFrom_ok {identities : List (ServerUuid × Option (List Char))} :
    validateFrom parser identities self = .ok () ↔ (∀ sid ∈ self, sid.validate parser = .ok ()) ∧
    (self.map GtidSid.identity).Nodup ∧ ∀ sid ∈ self, sid.identity ∉ identities := by
  induction self generalizing identities with
  | nil => simp [validateFrom]
  | cons sid rest ih =>
    rw [validateFrom, check_bind_eq_ok]
    by_cases hseen : sid.identity ∈ identities
    · simp [hseen]
    rw [if_neg hseen, ih, forall_mem_cons, forall_mem_cons, map_cons, nodup_cons]
    simp only [mem_map, mem_cons, not_or]
    constructor
    · rintro ⟨hvalid, hrest, hd, hnew⟩
      refine ⟨⟨hvalid, hrest⟩, ⟨?_, hd⟩, hseen, fun later hl => (hnew later hl).2⟩
      rintro ⟨later, hl, heq⟩
      exact (hnew later hl).1 heq
    rintro ⟨⟨hvalid, hrest⟩, ⟨hfst, hd⟩, _, hnew⟩
    exact
      ⟨hvalid, hrest, hd, fun later hl =>
          ⟨fun heq => hfst ⟨later, hl, heq⟩, hnew later hl⟩⟩

theorem validate_ok : validate parser self = .ok () ↔
    (∀ sid ∈ self, sid.validate parser = .ok ()) ∧ (self.map GtidSid.identity).Nodup := by
  rw [validate, validateFrom_ok]
  simp

theorem canonical_of_validate (h : validate parser self = .ok ()) : self.Canonical := by
  obtain ⟨hentries, hd⟩ := validate_ok.mp h
  exact ⟨fun sid hmem => (GtidSid.validate_ok.mp (hentries sid hmem)).1, hd⟩

end GtidSet

variable {gtid : Gtid}

def GtidInterval.contains (interval : GtidInterval) (gno : ℕ) : Bool :=
  interval.start ≤ gno && gno < interval.endExclusive

def GtidSid.contains (sid : GtidSid) (gtid : Gtid) : Bool :=
  sid.sid = gtid.sid && sid.tag = gtid.tag && sid.intervals.any (·.contains gtid.gno)

def GtidSet.contains (set : GtidSet) (gtid : Gtid) : Bool :=
  set.any (·.contains gtid)

theorem GtidInterval.contains_iff {iv : GtidInterval} {gno : ℕ} :
    iv.contains gno ↔ iv.start ≤ gno ∧ gno < iv.endExclusive := by
  simp [contains]

theorem GtidSid.contains_iff {sid : GtidSid} : sid.contains gtid ↔ sid.sid = gtid.sid ∧
    sid.tag = gtid.tag ∧ ∃ iv ∈ sid.intervals, iv.contains gtid.gno := by
  simp [contains, and_assoc]

theorem GtidSet.contains_iff {set : GtidSet} :
    set.contains gtid ↔ ∃ sid ∈ set, sid.contains gtid := by
  simp [contains]

namespace GtidSid

theorem any_mergeOnto {prev : GtidInterval} {rest : List GtidInterval}
    (hvalid : ∀ iv ∈ prev :: rest, iv.start < iv.endExclusive) (gno : ℕ) :
    ((mergeOnto prev rest).any (·.contains gno)) =
      (prev :: rest).any fun iv => iv.contains gno := by
  induction rest generalizing prev with
  | nil => rfl
  | cons iv rest ih =>
    have hprev := hvalid prev mem_cons_self
    have hinterval := hvalid iv (by simp)
    rw [mergeOnto]
    split
    next hadjacent =>
      rw [ih]
      · have hjoined : ({ prev with endExclusive := iv.endExclusive } : GtidInterval).contains gno =
            (prev.contains gno || iv.contains gno) := by
          rw [Bool.eq_iff_iff, Bool.or_eq_true]
          simp only [GtidInterval.contains_iff]
          omega
        simp only [any_cons, hjoined, Bool.or_assoc]
      intro later hl
      rcases mem_cons.mp hl with rfl | hl
      · show prev.start < iv.endExclusive
        omega
      exact hvalid later (by simp [hl])
    · rw [any_cons, any_cons, ih fun later hl => hvalid later (mem_cons_of_mem _ hl)]

variable {ivs : List GtidInterval}

theorem any_mergeAdjacent (hvalid : ∀ iv ∈ ivs, iv.start < iv.endExclusive) (gno : ℕ) :
    ((mergeAdjacent ivs).any (·.contains gno)) = ivs.any fun iv => iv.contains gno := by
  cases ivs with
  | nil => rfl
  | cons first rest => exact any_mergeOnto hvalid gno

theorem perm_sortByStart (intervals : List GtidInterval) : (sortByStart intervals).Perm intervals :=
  perm_insertionSort _ intervals

theorem includeGno_ok {sid sid' : GtidSid} {gno : ℕ}
    (hvalid : ∀ iv ∈ sid.intervals, iv.start < iv.endExclusive)
    (h : sid.includeGno gno = .ok sid') :
    sid'.identity = sid.identity ∧
    sid.contains { sid := sid.sid, tag := sid.tag, gno } = false ∧
    ∀ gtid,
      sid'.contains gtid ↔ gtid = { sid := sid.sid, tag := sid.tag, gno } ∨ sid.contains gtid := by
  unfold includeGno at h
  split at h
  · cases h
  rename_i hnew
  cases h
  refine ⟨rfl, ?_, fun gtid => ?_⟩
  · simpa [contains, GtidInterval.contains] using hnew
  have hperm := perm_sortByStart (sid.intervals ++ [{ start := gno, endExclusive := gno + 1 }])
  have hmerge := any_mergeAdjacent (fun iv hmem => by
    rcases mem_append.mp (hperm.subset hmem) with hmem | hmem
    · exact hvalid iv hmem
    obtain rfl := mem_singleton.mp hmem
    exact lt_succ_self gno) gtid.gno
  have hnumber : (⟨gno, gno + 1⟩ : GtidInterval).contains gtid.gno ↔ gtid.gno = gno := by
    rw [GtidInterval.contains_iff]
    show gno ≤ gtid.gno ∧ gtid.gno < gno + 1 ↔ _
    omega
  rw [hperm.any_eq] at hmerge
  simp only [contains, hmerge, any_append, any_cons,
    any_nil, Bool.or_false, Bool.and_eq_true, Bool.or_eq_true, decide_eq_true_eq, hnumber]
  constructor
  · rintro ⟨⟨hsid, htag⟩, hold | hgno⟩
    · exact .inr ⟨⟨hsid, htag⟩, hold⟩
    · exact .inl (by cases gtid; simp_all)
  rintro (rfl | ⟨hident, hold⟩)
  · exact ⟨⟨rfl, rfl⟩, .inr rfl⟩
  · exact ⟨hident, .inl hold⟩

end GtidSid
namespace GtidSet
variable {set set' : GtidSet}

theorem includeInto_ok {sid : ServerUuid} {tag : Option (List Char)} {gno : ℕ}
    (hset : set.Canonical) (h : includeInto sid tag gno set = .ok set') :
    set.contains { sid, tag, gno } = false ∧ ∀ gtid, set'.contains gtid ↔
    gtid = { sid, tag, gno } ∨ set.contains gtid := by
  induction set generalizing set' with
  | nil =>
    obtain ⟨entry, he, h⟩ := of_bind h
    cases h
    obtain ⟨-, -, hcont⟩ := GtidSid.includeGno_ok (by simp) he
    refine ⟨rfl, fun gtid => ?_⟩
    simp only [contains, any_cons, any_nil, Bool.or_false, hcont gtid]
    simp [GtidSid.contains]
  | cons entry rest ih =>
    have hrest : Canonical rest := ⟨fun later hmem => hset.entries later (mem_cons_of_mem _ hmem),
      (nodup_cons.mp hset.distinct).2⟩
    have he := hset.entries entry mem_cons_self
    unfold includeInto at h
    split at h
    next hident =>
      obtain ⟨rfl, rfl⟩ := hident
      obtain ⟨changed, hchanged, h⟩ := of_bind h
      cases h
      obtain ⟨-, hnew, hcont⟩ :=
        GtidSid.includeGno_ok (fun iv hmem => (he.valid iv hmem).proper) hchanged
      -- No other entry of the set has this identity.
      have hothers : contains rest { sid := entry.sid, tag := entry.tag, gno } = false := by
        refine Bool.eq_false_iff.mpr fun hmem => ?_
        obtain ⟨other, hother, hcont⟩ := contains_iff.mp hmem
        obtain ⟨hsid, htag, -⟩ := GtidSid.contains_iff.mp hcont
        apply (nodup_cons.mp hset.distinct).1
        exact mem_map.mpr ⟨other, hother, Prod.ext hsid htag⟩
      refine ⟨?_, fun gtid => ?_⟩
      · rw [contains, any_cons, hnew]
        exact hothers
      simp only [contains, any_cons, Bool.or_eq_true, hcont gtid, or_assoc]
    rename_i hident
    obtain ⟨changed, hchanged, h⟩ := of_bind h
    cases h
    obtain ⟨hnew, hcont⟩ := ih hrest hchanged
    refine ⟨?_, fun gtid => ?_⟩
    · have hfst : entry.contains { sid, tag, gno } = false := by
        refine Bool.eq_false_iff.mpr fun hmem => hident ?_
        obtain ⟨hsid, htag, -⟩ := GtidSid.contains_iff.mp hmem
        exact ⟨hsid, htag⟩
      rw [contains, any_cons, hfst]
      exact hnew
    have hrest := hcont gtid
    simp only [contains, any_cons, Bool.or_eq_true]
    tauto

/-- Adding a transaction to a valid set adds that transaction, which the set
did not have. -/
theorem includeTransaction_ok {parser : SidParser} (hset : set.Canonical)
    (h : set.includeTransaction parser gtid.sid gtid.tag gtid.gno = .ok set') :
    set'.Canonical ∧ set.contains gtid = false ∧
    ∀ other, set'.contains other ↔ other = gtid ∨ set.contains other := by
  unfold includeTransaction at h
  split at h
  · cases h
  replace h := after_check h
  obtain ⟨res, hres, h⟩ := of_bind h
  obtain ⟨hvalid, h⟩ := check_bind_eq_ok.mp h
  cases h
  obtain ⟨hnew, hcont⟩ := includeInto_ok hset hres
  exact ⟨canonical_of_validate hvalid, hnew, hcont⟩

theorem apart_of_mem {ivs : List GtidInterval}
    (hapart : ivs.Pairwise fun left right => left.endExclusive < right.start)
    {left right : GtidInterval} (hleft : left ∈ ivs) (hright : right ∈ ivs) (hne : left ≠ right) :
    left.endExclusive < right.start ∨ right.endExclusive < left.start := by
  have hsymm : Std.Symm fun left right : GtidInterval => left.endExclusive < right.start ∨
    right.endExclusive < left.start := ⟨fun _ _ => .symm⟩
  exact @Pairwise.forall _ _ _ hsymm (hapart.imp .inl) _ hleft _ hright hne

theorem exists_interval_covering {held : List GtidInterval} {needed : GtidInterval}
    (hproper : needed.start < needed.endExclusive)
    (hapart : held.Pairwise (·.endExclusive < ·.start))
    (hcover : ∀ gno, needed.contains gno → ∃ iv ∈ held, iv.contains gno) :
    ∃ iv ∈ held, iv.start ≤ needed.start ∧ needed.endExclusive ≤ iv.endExclusive := by
  obtain ⟨iv, hmem, hcont⟩ := hcover needed.start (by simp [GtidInterval.contains, hproper])
  obtain ⟨hstart, hend⟩ := GtidInterval.contains_iff.mp hcont
  refine ⟨iv, hmem, hstart, not_lt.mp fun hshort => ?_⟩
  obtain ⟨next, hnext, hcont⟩ := hcover iv.endExclusive
    (GtidInterval.contains_iff.mpr ⟨by omega, hshort⟩)
  obtain ⟨hnextStart, hnextEnd⟩ := GtidInterval.contains_iff.mp hcont
  have hne : iv ≠ next := by
    rintro rfl
    omega
  rcases apart_of_mem hapart hmem hnext hne with h | h
  · omega
  · omega

theorem isSubsetOf_iff {cur : GtidSet} (hset : set.Canonical) (hcur : cur.Canonical) :
    set.isSubsetOf cur ↔ ∀ gtid, set.contains gtid → cur.contains gtid := by
  simp only [isSubsetOf, all_eq_true]
  constructor
  · intro h gtid hmem
    obtain ⟨required, hr, hcont⟩ := contains_iff.mp hmem
    obtain ⟨hsid, htag, iv, hi, hgno⟩ := GtidSid.contains_iff.mp hcont
    have hget := h required hr
    split at hget
    · cases hget
    rename_i available ha
    obtain ⟨hident, -⟩ := find?_eq_some_iff_append.mp ha
    simp only [Bool.and_eq_true, decide_eq_true_eq] at hident
    obtain ⟨held, hheld, hcover⟩ := any_eq_true.mp (all_eq_true.mp hget iv hi)
    simp only [Bool.and_eq_true, decide_eq_true_eq] at hcover
    have hgno := GtidInterval.contains_iff.mp hgno
    refine contains_iff.mpr
      ⟨available, mem_of_find?_eq_some ha, GtidSid.contains_iff.mpr ⟨hident.1.trans hsid,
      hident.2.trans htag, held, hheld, GtidInterval.contains_iff.mpr ⟨?_, ?_⟩⟩⟩
    · omega
    · omega
  intro h required hr
  have hcanon := hset.entries required hr
  -- Every number of the entry is held by the one entry of its identity.
  have hheld : ∀ iv ∈ required.intervals, ∀ gno, iv.contains gno → ∃ available ∈ cur,
      available.identity = required.identity ∧ ∃ held ∈ available.intervals, held.contains gno := by
    intro iv hi gno hgno
    obtain ⟨available, ha, hcont⟩ :=
      contains_iff.mp (h { sid := required.sid, tag := required.tag, gno }
      (contains_iff.mpr ⟨required, hr, GtidSid.contains_iff.mpr ⟨rfl, rfl, iv, hi, hgno⟩⟩))
    obtain ⟨hsid, htag, held, hheld, hgno⟩ := GtidSid.contains_iff.mp hcont
    exact ⟨available, ha, Prod.ext hsid htag, held, hheld, hgno⟩
  obtain ⟨first, rest, hfst⟩ := exists_cons_of_ne_nil hcanon.nonempty
  have hfirstValid := hcanon.valid first (by simp [hfst])
  obtain ⟨available, ha, hident, -⟩ := hheld first (by simp [hfst]) first.start
    (GtidInterval.contains_iff.mpr ⟨le_refl _, hfirstValid.proper⟩)
  have hunique : ∀ other ∈ cur, other.identity = required.identity → other = available :=
    fun other hother heq => inj_on_of_nodup_map hcur.distinct hother ha (heq.trans hident.symm)
  have hfind : cur.find? (fun candidate =>
      candidate.sid = required.sid && candidate.tag = required.tag) = some available := by
    obtain ⟨found, hget⟩ := Option.isSome_iff_exists.mp
      (find?_isSome (p := fun candidate : GtidSid =>
        candidate.sid = required.sid && candidate.tag = required.tag).mpr
        ⟨available, ha, by simpa [GtidSid.identity] using hident⟩)
    have hsame : found.identity = required.identity := by
      simpa [GtidSid.identity] using find?_some hget
    rw [hget, hunique found (mem_of_find?_eq_some hget) hsame]
  rw [hfind]
  refine all_eq_true.mpr fun needed hneeded => ?_
  obtain ⟨held, hmem, hstart, hend⟩ := exists_interval_covering
    (hcanon.valid needed hneeded).proper (hcur.entries available ha).apart
    (fun gno hgno => by
      obtain ⟨other, hother, hsame, held⟩ := hheld needed hneeded gno hgno
      rwa [hunique other hother hsame] at held)
  exact any_eq_true.mpr ⟨held, hmem, by simp [hstart, hend]⟩

end GtidSet
end Transferia.MySql
