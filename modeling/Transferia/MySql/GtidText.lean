import Transferia.MySql.GtidSet
import Transferia.MySql.Boundary

/-!
# GTID sets as the server prints them

`executedText` is the documented form of `@@GLOBAL.gtid_executed`: the entries
are sorted, those of one server UUID are printed behind it one after another,
and the UUIDs are joined by a comma and a newline.
-/

namespace Transferia.MySql
open List Support GtidSet Nat Char
open GtidSid (identity toMysqlText)

/-! ## The server's text -/

/-- Tags have a letter or an underscore first, then letters, digits and
underscores. -/
def isTagStart (c : Char) : Bool := c.isLower || c == '_'

def isTagCharacter (c : Char) : Bool := isTagStart c || c.isDigit

def validTag : List Char → Bool
  | [] => false
  | first :: rest => isTagStart first && rest.all isTagCharacter && rest.length < 32

structure GtidSid.WellFormed (sid : GtidSid) : Prop extends GtidSid.Canonical sid where
  validTag : ∀ tag ∈ sid.tag, validTag tag

structure GtidSet.WellFormed (set : GtidSet) : Prop where
  entries : ∀ sid ∈ set, sid.WellFormed
  distinct : (set.map identity).Nodup

/-- The library reads back the entries of `set`, and every tag that it returns
is a tag. -/
structure SidParser.ExactOn (parser : SidParser) (set : GtidSet) : Prop where
  printed : ∀ sid ∈ set, parser.parse sid.toMysqlText = .ok sid
  validTag : ∀ text sid, parser.parse text = .ok sid → ∀ tag ∈ sid.tag, validTag tag

/-- Entries are sorted by UUID; the untagged entry of a UUID is the first. -/
def sortKey (sid : GtidSid) : List ℕ ×ₗ WithBot (List Char) :=
  toLex (sid.sid.toList.map UInt8.toNat, sid.tag)

def sortedSids (set : GtidSet) : List GtidSid :=
  set.insertionSort fun left right => sortKey left ≤ sortKey right

def uuidSetText : List GtidSid → List Char
  | [] => []
  | first :: rest =>
    formatUuid first.sid ++ ((first :: rest).flatMap GtidSid.components).flatMap fun part =>
        ':' :: part

def uuidSets (set : GtidSet) : List (List GtidSid) :=
  (sortedSids set).splitBy (·.sid == ·.sid)

def executedText (set : GtidSet) : List Char :=
  [',', '\n'].intercalate ((uuidSets set).map uuidSetText)

/-! ## Characters of an entry -/

variable {c : Char} {tag part : List Char} {index : ℕ} {bytes : List UInt8}
  {interval : GtidInterval}

def isPartCharacter (c : Char) : Bool := isTagCharacter c || c == '-'

theorem isPartCharacter_digitChar : ∀ digit < 16, isPartCharacter (Nat.digitChar digit) := by decide

theorem isPartCharacter_of_isDigit (h : c.isDigit) : isPartCharacter c := by
  simp [isPartCharacter, isTagCharacter, h]

theorem isPartCharacter_of_validTag (h : validTag tag) (hmem : c ∈ tag) : isTagCharacter c := by
  cases tag with
  | nil => cases hmem
  | cons first rest =>
    simp only [validTag, Bool.and_eq_true, all_eq_true] at h
    rcases mem_cons.mp hmem with rfl | hmem
    · simp [isTagCharacter, h.1.1]
    · exact h.1.2 c hmem

theorem isPartCharacter_formatUuidFrom (hmem : c ∈ formatUuidFrom index bytes) :
    isPartCharacter c := by
  induction bytes generalizing index with
  | nil => cases hmem
  | cons byte rest ih =>
    simp only [formatUuidFrom, mem_append] at hmem
    rcases hmem with (hdash | hhex) | hrest
    · split at hdash
      · simp only [mem_singleton] at hdash
        subst hdash
        rfl
      · cases hdash
    · have hbyte := byte.toNat_lt
      simp only [hexByte, mem_cons, not_mem_nil, or_false] at hhex
      rcases hhex with rfl | rfl
      all_goals exact isPartCharacter_digitChar _ (by omega)
    exact ih hrest

theorem isPartCharacter_intervalText (hmem : c ∈ interval.text) : isPartCharacter c := by
  have hdigit : ∀ n, c ∈ toDigits 10 n → isPartCharacter c :=
    fun n h => isPartCharacter_of_isDigit (isDigit_of_mem_toDigits (by omega) (by omega) h)
  unfold GtidInterval.text at hmem
  split at hmem
  · exact hdigit _ hmem
  rcases mem_append.mp hmem with hmem | hmem
  · exact hdigit _ hmem
  rcases mem_cons.mp hmem with rfl | hmem
  · rfl
  · exact hdigit _ hmem

theorem isPartCharacter_component {sid : GtidSid} (htag : ∀ tag ∈ sid.tag, validTag tag)
    (hpartition : part ∈ sid.components) (hmem : c ∈ part) : isPartCharacter c := by
  rcases mem_append.mp hpartition with hpartition | hpartition
  · have htagged := isPartCharacter_of_validTag (htag part (Option.mem_toList.mp hpartition)) hmem
    simp [isPartCharacter, htagged]
  obtain ⟨iv, -, rfl⟩ := mem_map.mp hpartition
  exact isPartCharacter_intervalText hmem

theorem toNat_of_isDigit (h : c.isDigit) : 48 ≤ c.toNat ∧ c.toNat ≤ 57 := by
  simpa [isDigit, UInt32.le_iff_toNat_le] using h

theorem toNat_of_isTagStart (h : isTagStart c) : 95 ≤ c.toNat ∧ c.toNat ≤ 122 := by
  rcases Bool.or_eq_true_iff.mp h with h | h
  · have hlower : 97 ≤ c.toNat ∧ c.toNat ≤ 122 := by simpa [isLower, UInt32.le_iff_toNat_le] using h
    omega
  rw [beq_iff_eq.mp h]
  decide

theorem toNat_of_isTagCharacter (h : isTagCharacter c) :
    48 ≤ c.toNat ∧ c.toNat ≤ 122 ∧ c.toNat ≠ 58 := by
  rcases Bool.or_eq_true_iff.mp h with h | h
  · have := toNat_of_isTagStart h
    omega
  have := toNat_of_isDigit h
  omega

theorem toNat_of_isPartCharacter (h : isPartCharacter c) :
    45 ≤ c.toNat ∧ c.toNat ≤ 122 ∧ c.toNat ≠ 58 := by
  rcases Bool.or_eq_true_iff.mp h with h | h
  · have := toNat_of_isTagCharacter h
    omega
  rw [beq_iff_eq.mp h]
  decide

theorem colon_not_mem (h : ∀ c ∈ part, isPartCharacter c) : ':' ∉ part := by
  intro hmem
  exact (toNat_of_isPartCharacter (h ':' hmem)).2.2 rfl

/-! ## The text of one UUID, taken apart -/

section
variable {sids : List GtidSid} (htags : ∀ sid ∈ sids, ∀ tag ∈ sid.tag, validTag tag)
include htags in
theorem isPartCharacter_of_parts
    (hp : part ∈ sids.flatMap GtidSid.components) (hmem : c ∈ part) : isPartCharacter c := by
  obtain ⟨sid, hsid, hp⟩ := mem_flatMap.mp hp
  exact isPartCharacter_component (htags sid hsid) hp hmem

theorem intercalate_colon (first : List Char) (parts : List (List Char)) :
    [':'].intercalate (first :: parts) = first ++ parts.flatMap fun part => ':' :: part := by
  induction parts generalizing first with
  | nil => simp
  | cons snd rest ih =>
    rw [intercalate_cons_cons, ih snd]
    simp

include htags in
theorem splitOn_parts (uuid : ServerUuid) :
    List.splitOn ':' (formatUuid uuid ++ (sids.flatMap GtidSid.components).flatMap (':' :: ·)) =
    formatUuid uuid :: sids.flatMap GtidSid.components := by
  rw [← intercalate_colon]
  refine splitOn_intercalate ':' ?_ (by simp)
  intro part hp
  rcases mem_cons.mp hp with rfl | hp
  · exact colon_not_mem fun c => isPartCharacter_formatUuidFrom
  · exact colon_not_mem fun c => isPartCharacter_of_parts htags hp

include htags in
theorem toNat_uuidSetText (hmem : c ∈ uuidSetText sids) : 45 ≤ c.toNat ∧ c.toNat ≤ 122 := by
  cases sids with
  | nil => cases hmem
  | cons first rest =>
    rcases mem_append.mp hmem with hmem | hmem
    · have := toNat_of_isPartCharacter (isPartCharacter_formatUuidFrom hmem)
      omega
    obtain ⟨part, hp, hmem⟩ := mem_flatMap.mp hmem
    rcases mem_cons.mp hmem with rfl | hmem
    · decide
    have := toNat_of_isPartCharacter (isPartCharacter_of_parts htags hp hmem)
    omega

include htags in
theorem any_isWhitespace_uuidSetText : (uuidSetText sids).any isWhitespace = false := by
  refine any_eq_false.mpr fun c hmem => ?_
  have := toNat_uuidSetText htags hmem
  simp [isWhitespace]
  omega

include htags in
theorem splitOn_comma_uuidSetText : List.splitOn ',' (uuidSetText sids) = [uuidSetText sids] := by
  refine splitOn_eq_singleton fun hmem => ?_
  have := (toNat_uuidSetText htags hmem).1
  exact absurd this (by decide)

end

theorem formatUuidFrom_ne_nil (h : bytes ≠ []) : formatUuidFrom index bytes ≠ [] := by
  cases bytes with
  | nil => exact absurd rfl h
  | cons byte rest => simp [formatUuidFrom, hexByte]

theorem formatUuid_ne_nil (sid : ServerUuid) : formatUuid sid ≠ [] := by
  refine formatUuidFrom_ne_nil fun hnil => ?_
  have := congrArg length hnil
  simp at this

/-! ## An entry is read back -/

variable {n : ℕ}

theorem isDigit_toDigits (h : c ∈ Nat.toDigits 10 n) : c.isDigit :=
  isDigit_of_mem_toDigits (by omega) (by omega) h

theorem parseU64_toDigits (h : n < 2 ^ 64) : parseU64 (Nat.toDigits 10 n) = some n := by
  have hplaces : withoutPlus (toDigits 10 n) = toDigits 10 n := by
    unfold withoutPlus
    split
    next rest hdigits =>
      have hsign := isDigit_toDigits (hdigits ▸ mem_cons_self)
      cases hsign
    · rfl
  have hall : (toDigits 10 n).all isDigit := all_eq_true.mpr fun c => isDigit_toDigits
  simp only [parseU64, hplaces, hall, ofDigitChars_ten_toDigits, h, and_true,
    ne_eq, toDigits_ne_nil, not_false_eq_true, if_true]

theorem parseU64_of_validTag (h : validTag tag) : parseU64 tag = none := by
  cases tag with
  | nil => cases h
  | cons first rest =>
    simp only [validTag, Bool.and_eq_true] at h
    have hstart := toNat_of_isTagStart h.1.1
    have hplaces : withoutPlus (first :: rest) = first :: rest := by
      unfold withoutPlus
      split
      next heq =>
        cases heq
        exact absurd hstart.1 (by decide)
      · rfl
    have hdigit : first.isDigit = false := by
      refine Bool.eq_false_iff.mpr fun hdigit => ?_
      have := toNat_of_isDigit hdigit
      omega
    simp [parseU64, hplaces, hdigit]

theorem endpoints_intervalText (hvalid : interval.Valid) {endpoint : List Char}
    (hmem : endpoint ∈ interval.text.splitOn '-') : ∃ n < 2 ^ 63, endpoint = toDigits 10 n := by
  obtain ⟨hpositive, hproper, hbounded⟩ := hvalid
  have hdash : ∀ n, '-' ∉ toDigits 10 n := by
    intro n hmem
    have := isDigit_toDigits hmem
    cases this
  unfold maxEndExclusive at hbounded
  unfold GtidInterval.text at hmem
  split at hmem
  · rw [splitOn_eq_singleton (hdash _), mem_singleton] at hmem
    exact ⟨interval.start, by omega, hmem⟩
  rw [splitOn_append_cons_self_of_not_mem (hdash _), splitOn_eq_singleton (hdash _)] at hmem
  simp only [mem_cons, not_mem_nil, or_false] at hmem
  rcases hmem with rfl | rfl
  · exact ⟨interval.start, by omega, rfl⟩
  · exact ⟨interval.endExclusive - 1, by omega, rfl⟩

section
variable {parser : SidParser} {sid : GtidSid}

theorem uuidSetText_singleton (sid : GtidSid) : uuidSetText [sid] = sid.toMysqlText := by
  simp [uuidSetText, toMysqlText]

theorem splitOn_toMysqlText (htag : ∀ tag ∈ sid.tag, validTag tag) :
    splitOn ':' sid.toMysqlText = formatUuid sid.sid :: sid.components := by
  have htags : ∀ entry ∈ [sid], ∀ tag ∈ entry.tag, validTag tag := by simpa using htag
  simpa [toMysqlText] using splitOn_parts htags sid.sid

section
variable (h : sid.WellFormed)
include h

theorem rejectSidParserOverflow_toMysqlText : rejectSidParserOverflow sid.toMysqlText = .ok () := by
  have hnone : ∀ component ∈ sid.components,
      ∀ endpoint ∈ splitOn '-' component, parseU64 endpoint ≠ some (2 ^ 64 - 1) := by
    intro component hcomponent endpoint he
    rcases mem_append.mp hcomponent with htag | hi
    · have htag := h.validTag component (Option.mem_toList.mp htag)
      have hdash : '-' ∉ component := by
        intro hmem
        have := toNat_of_isTagCharacter (isPartCharacter_of_validTag htag hmem)
        exact absurd this.1 (by decide)
      rw [splitOn_eq_singleton hdash, mem_singleton] at he
      subst he
      simp [parseU64_of_validTag htag]
    obtain ⟨iv, hmem, rfl⟩ := mem_map.mp hi
    obtain ⟨n, hn, rfl⟩ := endpoints_intervalText (h.valid iv hmem) he
    rw [parseU64_toDigits (by omega)]
    rintro ⟨⟩
    omega
  unfold rejectSidParserOverflow
  rw [splitOn_toMysqlText h.validTag, if_neg]
  simpa using hnone

section
variable (hprint : parser.parse sid.toMysqlText = .ok sid)
include hprint

theorem validate_of_printed : sid.validate parser = .ok () :=
  GtidSid.validate_ok.mpr ⟨h.toCanonical, sid, hprint⟩

theorem parseEntry_toMysqlText (index : ℕ) : parseEntry parser index sid.toMysqlText = .ok sid := by
  have hne : sid.toMysqlText ≠ [] := by simp [toMysqlText, formatUuid_ne_nil]
  rw [parseEntry, if_neg hne, rejectSidParserOverflow_toMysqlText h, hprint]
  simp [bind, Except.bind, validate_of_printed h hprint, pure, Except.pure]

theorem parseMysql_toMysqlText : parseMysql parser sid.toMysqlText = .ok [sid] := by
  have htags : ∀ entry ∈ [sid], ∀ tag ∈ entry.tag, validTag tag := by simpa using h.validTag
  have hne : sid.toMysqlText ≠ [] := by simp [toMysqlText, formatUuid_ne_nil]
  have hspace := any_isWhitespace_uuidSetText htags
  have hcomma := splitOn_comma_uuidSetText htags
  rw [uuidSetText_singleton] at hspace hcomma
  have hset : validate parser [sid] = .ok () := by simp [validate_ok, validate_of_printed h hprint]
  simp [parseMysql, hne, hspace, hcomma, parseEntries,
    parseEntry_toMysqlText h hprint, hset, bind, Except.bind, pure, Except.pure]

end
end

theorem toMysqlText_of_parseMysql {value : List Char} {set : GtidSet}
    (hcomma : ',' ∉ value) (hne : value ≠ []) (h : parseMysql parser value = .ok set) :
    ∃ sid, set = [sid] ∧ parser.parse value = .ok sid ∧ sid.toMysqlText = value := by
  rw [parseMysql, if_neg hne] at h
  split at h
  · cases h
  obtain ⟨res, hentries, h⟩ := of_bind h
  replace h := after_check h
  cases h
  rw [splitOn_eq_singleton hcomma, parseEntries] at hentries
  obtain ⟨sid, he, hentries⟩ := of_bind hentries
  obtain ⟨rest, ⟨⟩, hentries⟩ := of_bind hentries
  cases hentries
  rw [parseEntry, if_neg hne] at he
  replace he := after_check he
  split at he
  · cases he
  rename_i hparse
  replace he := after_check he
  split at he
  next hcanon =>
    cases he
    exact ⟨_, rfl, hparse, hcanon⟩
  · cases he

end

/-! ## Sets with several entries -/

section
variable {parser : SidParser} {set : GtidSet} {first second : GtidSid} {rest : List GtidSid}
  {parsed : GtidSet}

theorem perm_sortedSids (set : GtidSet) : (sortedSids set).Perm set := perm_insertionSort _ set

theorem flatten_uuidSets (set : GtidSet) : (uuidSets set).flatten = sortedSids set :=
  flatten_splitBy _ _

theorem parseMysql_of_two_uuids {first second : List GtidSid}
    {rest : List (List GtidSid)} (h : uuidSets set = first :: second :: rest) :
    parseMysql parser (executedText set) = .error .gtidSetContainsWhitespace := by
  have hline : '\n' ∈ executedText set := by simp [executedText, h]
  rw [parseMysql, if_neg (ne_nil_of_mem hline), if_pos]
  exact any_eq_true.mpr ⟨'\n', hline, rfl⟩

theorem tag_of_second (hset : set.WellFormed) (hsorted : sortedSids set = first :: second :: rest)
    (hsame : first.sid = second.sid) : ∃ tag, second.tag = some tag := by
  cases htag : second.tag with
  | some tag => exact ⟨tag, rfl⟩
  | none =>
    have hord : (sortedSids set).Pairwise fun left right => sortKey left ≤ sortKey right :=
      pairwise_insertionSort _ set
    rw [hsorted] at hord
    have hle := (pairwise_cons.mp hord).1 second mem_cons_self
    simp only
      [sortKey, hsame, Prod.Lex.toLex_le_toLex, lt_self_iff_false, false_or, true_and, htag] at hle
    have hnone : first.tag = none := le_bot_iff.mp hle
    have hd := ((perm_sortedSids set).map identity).nodup_iff.mpr hset.distinct
    rw [hsorted, map_cons, nodup_cons] at hd
    refine absurd ?_ hd.1
    simp [identity, hsame, hnone, htag]

theorem isDigit_of_mem_tail_components {sid : GtidSid} (hmem : part ∈ sid.components.tail) :
    ∃ first rest, part = first :: rest ∧ first.isDigit := by
  have hi : part ∈ sid.intervals.map GtidInterval.text := by
    cases htag : sid.tag with
    | none =>
      simp only [GtidSid.components, htag] at hmem
      exact mem_of_mem_tail hmem
    | some tag => simpa [GtidSid.components, htag] using hmem
  obtain ⟨iv, -, rfl⟩ := mem_map.mp hi
  obtain ⟨first, digits, hdigits⟩ :=
    exists_cons_of_ne_nil (toDigits_ne_nil (n := iv.start) (b := 10))
  have hfst : first.isDigit := isDigit_toDigits (hdigits ▸ mem_cons_self)
  unfold GtidInterval.text
  rw [hdigits]
  split
  · exact ⟨first, digits, rfl, hfst⟩
  · exact ⟨first, _, cons_append, hfst⟩

theorem parseMysql_of_two_tags (hset : set.WellFormed) (hparser : parser.ExactOn set)
    (h : uuidSets set = [first :: second :: rest]) (parsed : GtidSet) :
    parseMysql parser (executedText set) ≠ .ok parsed := by
  intro hparse
  have hsorted : sortedSids set = first :: second :: rest := by
    rw [← flatten_uuidSets, h, flatten_singleton]
  have hchain := isChain_of_mem_splitBy
    (h ▸ mem_singleton_self (first :: second :: rest) : first :: second :: rest ∈ uuidSets set)
  have hsame : first.sid = second.sid := by simpa using (isChain_cons_cons.mp hchain).1
  obtain ⟨tag, htag⟩ := tag_of_second hset hsorted hsame
  have he : ∀ sid ∈ first :: second :: rest, sid.WellFormed := by
    intro sid hmem
    exact hset.entries sid ((perm_sortedSids set).subset (hsorted ▸ hmem))
  have htags : ∀ sid ∈ first :: second :: rest,
    ∀ tag ∈ sid.tag, validTag tag := fun sid hmem => (he sid hmem).validTag
  have htext : executedText set = uuidSetText (first :: second :: rest) := by simp [executedText, h]
  rw [htext] at hparse
  have hcomma : ',' ∉ uuidSetText (first :: second :: rest) := by
    intro hmem
    exact absurd (toNat_uuidSetText htags hmem).1 (by decide)
  obtain ⟨sid, -, hsid, hcanon⟩ := toMysqlText_of_parseMysql hcomma
    (by simp [uuidSetText, formatUuid_ne_nil]) hparse
  -- Both texts are split at their colons.
  have hparts := congrArg (splitOn ':') hcanon
  rw [splitOn_toMysqlText (hparser.validTag _ sid hsid), uuidSetText, splitOn_parts htags] at hparts
  have hcomponents := (cons.inj hparts).2
  have hlater : tag ∈ sid.components.tail := by
    obtain ⟨comp, components, hfst⟩ : ∃ comp components, first.components = comp :: components := by
      apply exists_cons_of_ne_nil
      simp [GtidSid.components, (he first mem_cons_self).nonempty]
    rw [hcomponents, flatMap_cons, hfst, cons_append, tail_cons]
    simp [GtidSid.components, htag]
  obtain ⟨start, others, rfl, hdigit⟩ := isDigit_of_mem_tail_components hlater
  have hvalid := (he second (by simp)).validTag _ htag
  simp only [validTag, Bool.and_eq_true] at hvalid
  have hletter := toNat_of_isTagStart hvalid.1.1
  have hnumber := toNat_of_isDigit hdigit
  omega

theorem parseMysql_executedText_of_le (hset : set.WellFormed) (hparser : parser.ExactOn set)
    (hone : set.length ≤ 1) : parseMysql parser (executedText set) = .ok set := by
  cases set with
  | nil => rfl
  | cons sid rest =>
    obtain rfl : rest = [] := by simpa using hone
    have htext : executedText [sid] = sid.toMysqlText := by
      simp [executedText, uuidSets, sortedSids, splitBy, splitBy.loop, uuidSetText_singleton]
    rw [htext]
    exact parseMysql_toMysqlText (hset.entries sid mem_cons_self)
      (hparser.printed sid mem_cons_self)

theorem length_le_one_of_parseMysql (hset : set.WellFormed) (hparser : parser.ExactOn set)
    (h : parseMysql parser (executedText set) = .ok parsed) : set.length ≤ 1 := by
  have hlen := (perm_sortedSids set).length_eq
  cases hgroups : uuidSets set with
  | nil =>
    have hnil := flatten_uuidSets set
    rw [hgroups, flatten_nil] at hnil
    rw [← hlen, ← hnil]
    simp
  | cons group groups =>
    cases groups with
    | cons snd rest => cases (parseMysql_of_two_uuids hgroups).symm.trans h
    | nil =>
      have hsorted : sortedSids set = group := by rw
          [← flatten_uuidSets, hgroups, flatten_singleton]
      rw [← hlen, hsorted]
      match group, hgroups with
      | [], _ | [_], _ => simp
      | first :: snd :: rest, hgroups =>
        exact absurd h (parseMysql_of_two_tags hset hparser hgroups parsed)

theorem parseMysql_executedText_ok_iff (hset : set.WellFormed) (hparser : parser.ExactOn set) :
    (∃ parsed, parseMysql parser (executedText set) = .ok parsed) ↔ set.length ≤ 1 := by
  constructor
  · rintro ⟨parsed, hparsed⟩
    exact length_le_one_of_parseMysql hset hparser hparsed
  intro hone
  exact ⟨set, parseMysql_executedText_of_le hset hparser hone⟩

theorem parseGtidSet_ok {context : String} {text : List Char} :
    parseGtidSet parser context text = .ok parsed ↔ parseMysql parser text = .ok parsed := by
  unfold parseGtidSet
  cases parseMysql parser text with
  | ok | error => simp

theorem validateBoundary_ok {boundary : MySqlBinlogBoundary}
    (hrest : validateBoundary parser { boundary with gtidExecuted := [] } = .ok ()) :
    validateBoundary parser boundary = .ok () ↔
    ∃ parsed, parseMysql parser boundary.gtidExecuted = .ok parsed := by
  unfold validateBoundary at hrest ⊢
  rw [check_bind_eq_ok, check_bind_eq_ok, check_bind_eq_ok] at hrest ⊢
  obtain ⟨hfilename, hpos, htimestamp, -⟩ := hrest
  rw [and_iff_right hfilename, and_iff_right hpos, and_iff_right htimestamp, bind_eq_ok]
  simp only [parseGtidSet_ok, pure, Except.pure, and_true]

theorem validateLockedGtidState_ok {lockName : String} {executed purged : List Char}
    {state : MySqlGtidState} :
    validateLockedGtidState parser lockName (some 1) executed purged = .ok state ↔
    parseMysql parser executed = .ok state.executed ∧
    parseMysql parser purged = .ok state.purged := by
  have hheld : ensure (some 1 == some 1) (lockLost lockName) = .ok () := rfl
  unfold validateLockedGtidState
  rw [check_bind_eq_ok, and_iff_right hheld, bind_eq_ok]
  simp only [bind_eq_ok, parseGtidSet_ok]
  constructor
  · rintro ⟨set, hset, removed, hremoved, ⟨⟩⟩
    exact ⟨hset, hremoved⟩
  rintro ⟨hset, hremoved⟩
  exact ⟨state.executed, hset, state.purged, hremoved, rfl⟩

/-- The text of a set is understood, at the bootstrap and at the boundary, just
when the set has at most one entry. -/
theorem executedText_understood_iff (parser : SidParser) (set : GtidSet)
    (hset : set.WellFormed) (hparser : parser.ExactOn set) :
    ((∃ parsed, parseMysql parser (executedText set) = .ok parsed ∧ parsed.Perm set) ↔
      set.length ≤ 1) ∧
    (∀ purged : GtidSet, purged.WellFormed → parser.ExactOn purged → ∀ lockName,
        ((∃ state, validateLockedGtidState parser lockName (some 1)
            (executedText set) (executedText purged) = .ok state ∧
          state.executed.Perm set ∧ state.purged.Perm purged) ↔
          set.length ≤ 1 ∧ purged.length ≤ 1)) ∧
    ∀ boundary : MySqlBinlogBoundary, boundary.gtidExecuted = executedText set →
      validateBoundary parser { boundary with gtidExecuted := [] } = .ok () →
        (validateBoundary parser boundary = .ok () ↔ set.length ≤ 1) := by
  refine ⟨⟨?_, ?_⟩, ?_, ?_⟩
  · rintro ⟨parsed, hparsed, -⟩
    exact length_le_one_of_parseMysql hset hparser hparsed
  · intro hone
    exact ⟨set, parseMysql_executedText_of_le hset hparser hone, .refl set⟩
  · intro purged hpurge hparserPurged lockName
    simp only [validateLockedGtidState_ok]
    constructor
    · rintro ⟨state, ⟨hexecuted, hremoved⟩, -⟩
      exact ⟨length_le_one_of_parseMysql hset hparser hexecuted,
        length_le_one_of_parseMysql hpurge hparserPurged hremoved⟩
    rintro ⟨hone, honePurged⟩
    exact ⟨{ executed := set, purged }, ⟨parseMysql_executedText_of_le hset hparser hone,
        parseMysql_executedText_of_le hpurge hparserPurged honePurged⟩, .refl set, .refl purged⟩
  intro boundary htext hrest
  rw [validateBoundary_ok hrest, htext]
  exact parseMysql_executedText_ok_iff hset hparser

end

/-! ## Two servers -/

def SidParser.ofSet (set : GtidSet) : SidParser where
  parse text :=
    match set.find? fun sid => sid.toMysqlText = text with
    | some sid => .ok sid
    | none => .error "unknown SID"

theorem SidParser.ofSet_exactOn {set : GtidSet} (hset : set.WellFormed)
    (hprint : ∀ sid ∈ set, (ofSet set).parse sid.toMysqlText = .ok sid) :
    (ofSet set).ExactOn set := by
  refine ⟨hprint, fun text sid hparse => ?_⟩
  simp only [ofSet] at hparse
  split at hparse
  next found hget =>
    cases hparse
    exact (hset.entries _ (mem_of_find?_eq_some hget)).validTag
  · cases hparse

def firstTransaction (byte : UInt8) : GtidSid where
  sid := Vector.replicate 16 byte
  tag := none
  intervals := [{ start := 1, endExclusive := 2 }]

theorem firstTransaction_wellFormed (byte : UInt8) : (firstTransaction byte).WellFormed where
  nonempty := by simp [firstTransaction]
  valid := by
    intro iv hmem
    obtain rfl := mem_singleton.mp hmem
    exact ⟨by decide, by decide, by decide⟩
  apart := pairwise_singleton _ _
  validTag := by simp [firstTransaction]

def twoServers : GtidSet := [firstTransaction 0x11, firstTransaction 0x22]

theorem twoServers_wellFormed : GtidSet.WellFormed twoServers where
  entries := by simp [twoServers, firstTransaction_wellFormed]
  distinct := by decide

theorem executedText_oneServer :
    ([firstTransaction 0x11] : GtidSet).length ≤ 1 ∧
      ∃ parsed, parseMysql (.ofSet [firstTransaction 0x11])
          (executedText [firstTransaction 0x11]) = .ok parsed ∧
        parsed.Perm [firstTransaction 0x11] := by
  have hset : GtidSet.WellFormed [firstTransaction 0x11] :=
    ⟨by simp [firstTransaction_wellFormed], by decide⟩
  have hparser := SidParser.ofSet_exactOn hset (by decide)
  exact ⟨by decide, (executedText_understood_iff _ _ hset hparser).1.mpr (by decide)⟩

theorem executedText_twoServers :
    twoServers.WellFormed ∧ (SidParser.ofSet twoServers).ExactOn twoServers ∧
      parseMysql (.ofSet twoServers) (executedText twoServers) =
        .error .gtidSetContainsWhitespace :=
  ⟨twoServers_wellFormed, SidParser.ofSet_exactOn twoServers_wellFormed (by decide), by decide⟩

end Transferia.MySql
