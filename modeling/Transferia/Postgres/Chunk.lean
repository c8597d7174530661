import Mathlib

/-!
# Snapshot chunk descriptors

A table snapshot is cut into chunks whose rows are selected by SQL predicates.
A list of descriptors that `validateInitialCover` accepts selects every row
exactly once.
-/

namespace Transferia.Postgres
open List Option Bool

/-- Boundaries of one chunk.  Indexed numbers identify cuts of the boundary
catalog; page numbers are heap blocks. -/
inductive ChunkKind
  | whole
  | ctid (lowerPage upperPage : Option ℕ) (estimatedEndPage : ℕ)
  | indexed (lowerCut upperCut : Option ℕ)
  | hashCtid (bucket modulus : ℕ)

structure Chunk where
  kind : ChunkKind

/-- What a chunk predicate can observe of a stored row: its heap page, the
number of catalog cuts that are not above its key, and the hash of its tuple
identifier. -/
structure RowPosition where
  (page cutRank : ℕ)
  tidHash : ℤ

namespace Chunk

/-- The rendered SQL predicate.  A lower cut `i` is the test that the key is at
least cut `i`, that is, that more than `i` cuts are not above the key. -/
def predicate (chunk : Chunk) (row : RowPosition) : Bool :=
  match chunk.kind with
  | .whole => true
  | .ctid lower upper _ =>
    lower.all (fun page => decide (page ≤ row.page)) &&
      upper.all (fun page => decide (row.page < page))
  | .indexed lower upper =>
    lower.all (fun cut => decide (cut < row.cutRank)) &&
      upper.all (fun cut => decide (row.cutRank ≤ cut))
  | .hashCtid bucket modulus => decide ((row.tidHash.tmod modulus + modulus).tmod modulus = bucket)

def pageSpan (chunk : Chunk) : Option ℕ :=
  match chunk.kind with
  | .ctid lower upper estimatedEnd => some (upper.getD estimatedEnd - lower.getD 0)
  | _ => none

/-- Cut a CTID range in two halves; the middle page has to be a 32-bit block
address. -/
def splitPending (chunk : Chunk) : Option (Chunk × Chunk) :=
  match chunk.kind with
  | .ctid lowerPage upperPage estimatedEnd =>
    let lower := lowerPage.getD 0
    let upper := upperPage.getD estimatedEnd
    if upper - lower < 2 then none
    else
      let middle := lower + (upper - lower) / 2
      if middle < 2 ^ 32 then
        some (⟨.ctid lowerPage (some middle) middle⟩, ⟨.ctid (some middle) upperPage estimatedEnd⟩)
      else none
  | _ => none

/-- The two halves of a split select, without overlap, exactly the rows of
the chunk that was split. -/
theorem splitPending_predicate {chunk left right : Chunk}
    (hsplit : chunk.splitPending = some (left, right)) (row : RowPosition) :
    (left.predicate row).toNat + (right.predicate row).toNat = (chunk.predicate row).toNat := by
  obtain ⟨kind⟩ := chunk
  cases kind with
  | ctid lowerPage upperPage estimatedEnd =>
    simp only [splitPending] at hsplit
    split at hsplit
    · cases hsplit
    split at hsplit
    · next hspan hmiddle =>
      cases hsplit
      simp only [predicate]
      cases lowerPage <;> cases upperPage <;>
        simp only [getD_none, getD_some] at hspan ⊢ <;>
        simp only [all_none, all_some, Bool.true_and,
          Bool.and_true, Bool.toNat, Bool.and_eq_true, decide_eq_true_eq,
          Bool.cond_eq_ite] <;>
        split_ifs <;> omega
    · cases hsplit
  | whole | indexed lower upper | hashCtid bucket modulus => simp [splitPending] at hsplit

end Chunk

variable {chunks rest : List Chunk} {chunk : Chunk} {index : ℕ} {previousUpper upper : Option ℕ}

/-- Partitioning strategy a descriptor belongs to. -/
inductive Strategy
  | single
  | ctid
  | indexed
  | hashCtid
  deriving DecidableEq

def ChunkKind.strategy : ChunkKind → Strategy
  | .whole => .single
  | .ctid .. => .ctid
  | .indexed .. => .indexed
  | .hashCtid .. => .hashCtid

variable (chunks)

def startsWith (strategy : Strategy) : Bool :=
  chunks.head?.all (·.kind.strategy == strategy)

/-- One iteration of the check.  The result is the upper boundary at which the
next descriptor has to start. -/
def checkChunk (index : ℕ) (previousUpper : Option ℕ) (chunk : Chunk) :
    Except String (Option ℕ) :=
  let last := index + 1 == chunks.length
  match chunk.kind with
  | .whole =>
    if chunks.length = 1 then .ok previousUpper
    else .error "complete-query snapshot descriptor cannot be combined with other chunks"
  | .ctid lower upper estimatedEnd =>
    if !startsWith chunks .ctid then
      .error "snapshot plan mixes partitioning strategies"
    else if !(lower == previousUpper && (index != 0 || lower.isNone) && upper.isNone == last) then
      .error "CTID snapshot chunks have a gap, overlap, or closed outer tail"
    else
      let low := lower.getD 0
      let high := upper.getD estimatedEnd
      if !(decide (low ≤ high) && (last || decide (low < high))) then
        .error "CTID snapshot chunk has invalid bounds"
      else .ok upper
  | .indexed lower upper =>
    if !startsWith chunks .indexed then
      .error "snapshot plan mixes partitioning strategies"
    else if !(lower == previousUpper && (index != 0 || lower.isNone) && upper.isNone == last) then
      .error "indexed snapshot chunks have a gap, overlap, or closed outer tail"
    else if !(lower.all fun low => upper.all fun high => decide (low < high)) then
      .error "indexed snapshot chunk has reversed or duplicate cuts"
    else .ok upper
  | .hashCtid bucket modulus =>
    if !startsWith chunks .hashCtid then
      .error "snapshot plan mixes partitioning strategies"
    else if !(bucket == index && modulus == chunks.length) then
      .error "snapshot hash buckets do not exactly cover their modulus"
    else .ok previousUpper

def validateFrom : ℕ → Option ℕ → List Chunk → Except String Unit
  | _, _, [] => .ok ()
  | index, previousUpper, chunk :: rest =>
    match checkChunk chunks index previousUpper chunk with
    | .error reason => .error reason
    | .ok upper => validateFrom (index + 1) upper rest

/-- Construction requires one ordered, complete strategy domain. -/
def validateInitialCover : Except String Unit :=
  validateFrom chunks 0 none chunks

variable {chunks}

theorem validateFrom_cons_ok
    (hok : validateFrom chunks index previousUpper (chunk :: rest) = .ok ()) :
    ∃ upper, checkChunk chunks index previousUpper chunk = .ok upper ∧
    validateFrom chunks (index + 1) upper rest = .ok () := by
  simp only [validateFrom] at hok
  split at hok
  · cases hok
  · next upper hcheck => exact ⟨upper, hcheck, hok⟩

theorem checkChunk_strategy {strategy : Strategy} (hstart : startsWith chunks strategy)
    (hget : chunks[index]? = some chunk)
    (hok : checkChunk chunks index previousUpper chunk = .ok upper) :
    chunk.kind.strategy = strategy := by
  obtain ⟨head, tail, rfl⟩ : ∃ head tail, chunks = head :: tail := by
    cases chunks with
    | nil => simp at hget
    | cons head tail => exact ⟨head, tail, rfl⟩
  have hhead : head.kind.strategy = strategy := by simpa [startsWith] using hstart
  have hplan : startsWith (head :: tail) chunk.kind.strategy → chunk.kind.strategy = strategy := by
    intro h
    simp only [startsWith, head?_cons, all_some, beq_iff_eq] at h
    rw [← h, hhead]
  obtain ⟨kind⟩ := chunk
  cases kind with
    simp only [checkChunk] at hok
  | whole =>
    split at hok
    · next hlen =>
      have htail : tail = [] := by simpa using hlen
      subst htail
      have hidx : index = 0 := by
        have := (List.getElem?_eq_some_iff.mp hget).1
        simpa using this
      subst hidx
      simp only [getElem?_cons_zero, Option.some.injEq] at hget
      rw [← hhead, hget]
    · cases hok
  | ctid lower high estimatedEnd | indexed lower high | hashCtid bucket modulus =>
    split at hok
    · cases hok
    · next hstarts => exact hplan (by simpa [ChunkKind.strategy] using hstarts)

theorem drop_eq_cons (hdropped : chunks.drop index = chunk :: rest) : chunks[index]? = some chunk ∧
    chunks.drop (index + 1) = rest ∧ index + 1 + rest.length = chunks.length := by
  refine ⟨?_, ?_, ?_⟩
  · rw [← head?_drop, hdropped, head?_cons]
  · rw [← drop_drop, hdropped, drop_one, tail_cons]
  have := congrArg length hdropped
  simp only [length_drop, length_cons] at this
  omega

/-- An accepted descriptor selects what `covers` loses from its start to its end;
nothing is left behind the last one. -/
def Covers (chunks : List Chunk) (row : RowPosition) (covers : ℕ → Option ℕ → ℕ) : Prop :=
  ∀ index previousUpper chunk upper, chunks[index]? = some chunk →
    checkChunk chunks index previousUpper chunk = .ok upper →
    (if index + 1 = chunks.length then 0 else covers (index + 1) upper) +
      (if chunk.predicate row then 1 else 0) = covers index previousUpper

variable {row : RowPosition}

theorem Covers.count {covers : ℕ → Option ℕ → ℕ} (h : Covers chunks row covers) :
    ∀ rest index prevUpper, chunks.drop index = rest → rest ≠ [] →
    validateFrom chunks index prevUpper rest = .ok () →
    rest.countP (·.predicate row) = covers index prevUpper := by
  intro rest
  induction rest with
  | nil => intro _ _ _ hne; exact absurd rfl hne
  | cons chunk rest ih =>
    intro index prevUpper hd _ hok
    obtain ⟨upper, hcheck, hrest⟩ := validateFrom_cons_ok hok
    obtain ⟨hget, hnext, hleng⟩ := drop_eq_cons hd
    rw [countP_cons, ← h _ _ _ _ hget hcheck]
    cases rest with
    | nil => rw [if_pos (show index + 1 = chunks.length from hleng), countP_nil]
    | cons next tail =>
      have hnot : index + 1 ≠ chunks.length := by
        rw [length_cons] at hleng
        omega
      rw [if_neg hnot, ih _ _ hnext (cons_ne_nil _ _) hrest]

/-- The CTID descriptors from the boundary `upper` on select the positions that
start there. -/
theorem covers_ctid (hstart : startsWith chunks .ctid) :
    Covers chunks row fun _ upper => (upper.all fun page => decide (page ≤ row.page)).toNat := by
  intro index prevUpper chunk upper hget hcheck
  have hstrat := checkChunk_strategy hstart hget hcheck
  obtain ⟨kind⟩ := chunk
  cases kind with
  | whole | indexed _ _ | hashCtid _ _ => cases hstrat
  | ctid lower high estimatedEnd =>
    simp only [checkChunk, hstart, Bool.not_true, Bool.false_eq_true, if_false] at hcheck
    split at hcheck
    · cases hcheck
    next hshape =>
    split at hcheck
    · cases hcheck
    next hbounds =>
    cases hcheck
    simp only [Bool.not_eq_true', Bool.not_eq_false, Bool.and_eq_true, beq_iff_eq] at hshape hbounds
    obtain ⟨⟨rfl, -⟩, hlast⟩ := hshape
    cases upper with
    | none =>
      rw [if_pos (by simpa using hlast)]
      simp [Chunk.predicate, Bool.toNat]
    | some page =>
      have hnot : index + 1 ≠ chunks.length := by simpa using hlast
      have hlt : lower.getD 0 < page := by simpa [hnot] using hbounds.2
      cases lower <;> simp only [Chunk.predicate, all_some, all_none,
          Bool.true_and, Bool.toNat, Bool.cond_eq_ite,
          Bool.and_eq_true, decide_eq_true_eq, getD_some] at hlt ⊢ <;> split_ifs <;> omega

theorem covers_indexed (hstart : startsWith chunks .indexed) :
    Covers chunks row fun _ upper => (upper.all fun cut => decide (cut < row.cutRank)).toNat := by
  intro index prevUpper chunk upper hget hcheck
  have hstrat := checkChunk_strategy hstart hget hcheck
  obtain ⟨kind⟩ := chunk
  cases kind with
  | whole | ctid _ _ _ | hashCtid _ _ => cases hstrat
  | indexed lower high =>
    simp only [checkChunk, hstart, Bool.not_true, Bool.false_eq_true, if_false] at hcheck
    split at hcheck
    · cases hcheck
    next hshape =>
    split at hcheck
    · cases hcheck
    next hcuts =>
    cases hcheck
    simp only [Bool.not_eq_true', Bool.not_eq_false, Bool.and_eq_true, beq_iff_eq] at hshape hcuts
    obtain ⟨⟨rfl, -⟩, hlast⟩ := hshape
    cases upper with
    | none =>
      rw [if_pos (by simpa using hlast)]
      simp [Chunk.predicate, Bool.toNat]
    | some cut =>
      rw [if_neg (by simpa using hlast)]
      cases lower <;> simp only [Chunk.predicate, all_some, all_none,
          Bool.true_and, Bool.toNat, Bool.cond_eq_ite,
          Bool.and_eq_true, decide_eq_true_eq] at hcuts ⊢ <;> split_ifs <;> omega

def hashBucket (modulus : ℕ) (row : RowPosition) : ℤ :=
  (row.tidHash.tmod modulus + modulus).tmod modulus

theorem hashBucket_range {modulus : ℕ} (hpos : 0 < modulus) (row : RowPosition) :
    0 ≤ hashBucket modulus row ∧ hashBucket modulus row < modulus := by
  have hpos' : (0 : ℤ) < modulus := by exact_mod_cast hpos
  have hlower : -(modulus : ℤ) < row.tidHash.tmod modulus := Int.lt_tmod_of_pos row.tidHash hpos'
  constructor
  · exact Int.tmod_nonneg _ (by omega)
  · exact Int.tmod_lt_of_pos _ hpos'

theorem covers_hash (hstart : startsWith chunks .hashCtid) :
    Covers chunks row
      fun index _ => (decide ((index : ℤ) ≤ hashBucket chunks.length row)).toNat := by
  intro index prevUpper chunk upper hget hcheck
  have hstrat := checkChunk_strategy hstart hget hcheck
  have hlen := (List.getElem?_eq_some_iff.mp hget).1
  have hr := hashBucket_range (Nat.zero_lt_of_lt hlen) row
  obtain ⟨kind⟩ := chunk
  cases kind with
  | whole | ctid _ _ _ | indexed _ _ => cases hstrat
  | hashCtid bucket modulus =>
    simp only [checkChunk, hstart, Bool.not_true, Bool.false_eq_true, if_false] at hcheck
    split at hcheck
    · cases hcheck
    next hshape =>
    simp only [not_eq_true', not_eq_false, and_eq_true, beq_iff_eq] at hshape
    obtain ⟨rfl, rfl⟩ := hshape
    have hselect : (Chunk.mk (.hashCtid bucket chunks.length)).predicate
        row = decide (hashBucket chunks.length row = bucket) := rfl
    simp only [hselect, Bool.toNat, Bool.cond_eq_ite, decide_eq_true_eq]
    split_ifs <;> omega

/-- A non-empty plan accepted by `validateInitialCover` selects every row
exactly once. -/
theorem validateInitialCover_count (hne : chunks ≠ []) (hok : validateInitialCover chunks = .ok ())
    (row : RowPosition) : chunks.countP (·.predicate row) = 1 := by
  cases hchunks : chunks with
  | nil => exact absurd hchunks hne
  | cons head tail =>
    have hstart : startsWith chunks head.kind.strategy := by simp [startsWith, hchunks]
    rw [← hchunks]
    obtain ⟨kind⟩ := head
    cases kind with
    | whole =>
      have hok' := hok
      rw [validateInitialCover, hchunks] at hok'
      obtain ⟨upper, hcheck, -⟩ := validateFrom_cons_ok hok'
      simp only [checkChunk] at hcheck
      split at hcheck
      · next hlen =>
        have htail : tail = [] := by simpa using hlen
        simp [hchunks, htail, Chunk.predicate]
      · cases hcheck
    | ctid lower upper estimatedEnd => exact (covers_ctid hstart).count chunks 0 none rfl hne hok
    | indexed lower upper => exact (covers_indexed hstart).count chunks 0 none rfl hne hok
    | hashCtid bucket modulus =>
      rw [(covers_hash hstart).count chunks 0 none rfl hne hok]
      simpa using (hashBucket_range (length_pos_iff.mpr hne) row).1

end Transferia.Postgres
