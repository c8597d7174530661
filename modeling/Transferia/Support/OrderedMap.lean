import Mathlib

/-!
# Finite maps in key order

A map whose entries are read in increasing order of their keys.  The order is
a field of the structure, so that two maps with the same lookups are equal and
a traversal does not depend on how the map was filled.
-/

namespace Transferia.Support
open List

/-- Finite maps from a linear order, with entries in key order. -/
structure OrderedMap (α β : Type*) [LinearOrder α] where
  entries : List (α × β)
  sorted : entries.Pairwise (·.1 < ·.1)

namespace OrderedMap
variable {α β : Type*} [LinearOrder α] {key : α} {value : β} {entries : List (α × β)} {γ : Type*}

/-- Write one entry of a list in key order. -/
def insertEntry (key : α) (value : β) : List (α × β) → List (α × β)
  | [] => [(key, value)]
  | entry :: rest =>
    if key < entry.1 then (key, value) :: entry :: rest
    else if key = entry.1 then (key, value) :: rest
    else entry :: insertEntry key value rest

theorem key_of_mem_insertEntry {entry : α × β} (h : entry ∈ insertEntry key value entries) :
    entry = (key, value) ∨ entry ∈ entries := by
  induction entries with
  | nil => simpa [insertEntry] using h
  | cons first rest ih =>
    unfold insertEntry at h
    split at h
    · simpa using h
    split at h
    · rcases mem_cons.mp h with hnew | hold
      · exact .inl hnew
      · exact .inr (mem_cons_of_mem _ hold)
    rcases mem_cons.mp h with hfst | hrest
    · exact .inr (hfst ▸ mem_cons_self)
    rcases ih hrest with hnew | hold
    · exact .inl hnew
    · exact .inr (mem_cons_of_mem _ hold)

theorem sorted_insertEntry (h : entries.Pairwise (·.1 < ·.1)) :
    (insertEntry key value entries).Pairwise (·.1 < ·.1) := by
  induction entries with
  | nil => simp [insertEntry]
  | cons first rest ih =>
    obtain ⟨hfst, hrest⟩ := pairwise_cons.mp h
    unfold insertEntry
    split
    next hlt =>
      refine pairwise_cons.mpr ⟨?_, h⟩
      intro entry he
      rcases mem_cons.mp he with rfl | htail
      · exact hlt
      · exact hlt.trans (hfst entry htail)
    rename_i hge
    split
    next heq =>
      refine pairwise_cons.mpr ⟨?_, hrest⟩
      intro entry he
      exact heq ▸ hfst entry he
    rename_i hne
    refine pairwise_cons.mpr ⟨?_, ih hrest⟩
    intro entry he
    rcases key_of_mem_insertEntry he with rfl | htail
    · exact lt_of_le_of_ne (not_lt.mp hge) fun h => hne h.symm
    · exact hfst entry htail

/-- A key above all others is written at the end. -/
theorem insertEntry_of_forall_lt (value : β) (h : ∀ entry ∈ entries, entry.1 < key) :
    insertEntry key value entries = entries ++ [(key, value)] := by
  induction entries with
  | nil => rfl
  | cons first rest ih =>
    have hfst := h first mem_cons_self
    have hrest := ih fun entry hentry => h entry (mem_cons_of_mem _ hentry)
    simp [insertEntry, hfst.not_gt, hfst.ne', hrest]

def empty : OrderedMap α β := ⟨[], Pairwise.nil⟩

variable (map : OrderedMap α β)

def insert (key : α) (value : β) : OrderedMap α β :=
  ⟨insertEntry key value map.entries, sorted_insertEntry map.sorted⟩

def find? (key : α) : Option β :=
  (map.entries.find? (·.1 = key)).map Prod.snd

def contains (key : α) : Bool := (map.find? key).isSome

/-- Keep the entries whose key satisfies a test. -/
def retain (keep : α → Bool) (map : OrderedMap α β) : OrderedMap α β :=
  ⟨map.entries.filter (keep ·.1), map.sorted.filter _⟩

theorem find?_insert_self (key : α) (value : β) :
    (map.insert key value).find? key = some value := by
  obtain ⟨es, hsorted⟩ := map
  simp only [insert, find?]
  clear hsorted
  induction es with
  | nil => simp [insertEntry]
  | cons first rest ih =>
    unfold insertEntry
    split
    · simp
    split
    · simp
    rename_i hne
    have hother : ¬ first.1 = key := fun h => hne h.symm
    simpa [hother] using ih

theorem find?_insert_ne {other : α} (value : β) (h : other ≠ key) :
    (map.insert key value).find? other = map.find? other := by
  obtain ⟨es, hsorted⟩ := map
  simp only [insert, find?]
  clear hsorted
  have hkey : ¬ key = other := fun heq => h heq.symm
  induction es with
  | nil => simp [insertEntry, hkey]
  | cons first rest ih =>
    unfold insertEntry
    split
    · simp [hkey]
    split
    next heq =>
      have hfst : ¬ first.1 = other := heq ▸ hkey
      simp [hkey, hfst]
    · by_cases hfst : first.1 = other
      · simp [hfst]
      · simpa [hfst] using ih

@[simp] theorem find?_empty (key : α) : (empty : OrderedMap α β).find? key = none := rfl

theorem mem_entries_iff : (key, value) ∈ map.entries ↔ map.find? key = some value := by
  obtain ⟨es, hsorted⟩ := map
  simp only [find?]
  induction es with
  | nil => simp
  | cons first rest ih =>
    obtain ⟨hfst, hrest⟩ := pairwise_cons.mp hsorted
    by_cases hkey : first.1 = key
    · have hrestNot : (key, value) ∉ rest := by
        intro hmem
        exact absurd (hfst _ hmem) (hkey ▸ lt_irrefl _)
      simp only [mem_cons, hrestNot, or_false, find?_cons, hkey,
        decide_true, Option.map_some, Option.some.injEq]
      constructor
      · rintro rfl
        rfl
      intro hval
      rw [← hkey, ← hval]
    have hne : (key, value) ≠ first := by
      rintro rfl
      exact hkey rfl
    rw [mem_cons, or_iff_right hne, ih hrest]
    simp [hkey]

omit [LinearOrder α] in
/-- Other keys are left alone when entries are moved into a map. -/
theorem find?_foldl_insert_of_ne [LinearOrder γ] (rename : α → γ) {key : γ}
    (hother : ∀ entry ∈ entries, rename entry.1 ≠ key) (map : OrderedMap γ β) :
    (entries.foldl (fun map entry => map.insert (rename entry.1) entry.2) map).find? key =
      map.find? key := by
  induction entries generalizing map with
  | nil => rfl
  | cons entry rest ih =>
    rw [foldl_cons, ih fun later hlater => hother later (mem_cons_of_mem _ hlater),
      find?_insert_ne _ _ (hother entry mem_cons_self).symm]

/-- Entries are found under their new keys when no two of them share one. -/
theorem find?_foldl_insert [LinearOrder γ] (rename : α → γ)
    (hsorted : entries.Pairwise fun first snd => first.1 < snd.1)
    (hinj : ∀ first ∈ entries, ∀ snd ∈ entries, rename first.1 = rename snd.1 → first.1 = snd.1)
    {entry : α × β} (hentry : entry ∈ entries) (map : OrderedMap γ β) :
    (entries.foldl (fun map entry => map.insert (rename entry.1) entry.2) map).find?
      (rename entry.1) = some entry.2 := by
  induction entries generalizing map with
  | nil => cases hentry
  | cons first rest ih =>
    obtain ⟨hfst, hrest⟩ := pairwise_cons.mp hsorted
    rw [foldl_cons]
    rcases mem_cons.mp hentry with rfl | hl
    · rw [find?_foldl_insert_of_ne rename, find?_insert_self]
      intro later hl hsame
      have hkey := hinj later (mem_cons_of_mem _ hl) entry mem_cons_self hsame
      exact absurd (hfst later hl) (hkey ▸ lt_irrefl _)
    exact ih hrest (fun one hone two htwo =>
      hinj one (mem_cons_of_mem _ hone) two (mem_cons_of_mem _ htwo)) hl _

theorem find?_retain (keep : α → Bool) (key : α) :
    (map.retain keep).find? key = if keep key then map.find? key else none := by
  obtain ⟨es, hsorted⟩ := map
  simp only [retain, find?]
  clear hsorted
  induction es with
  | nil => simp
  | cons first rest ih =>
    by_cases hkey : first.1 = key
    · cases hkeep : keep key with
      | true => simp [hkey, hkeep]
      | false => simpa [hkey, hkeep] using ih
    cases hkeep : keep first.1 with
    | true | false => simpa [hkey] using ih

theorem retain_retain (first snd : α → Bool) :
    (map.retain first).retain snd = map.retain fun key => first key && snd key := by
  simp [retain, Bool.and_comm]

theorem contains_iff : map.contains key ↔ ∃ value, (key, value) ∈ map.entries := by
  simp only [contains, Option.isSome_iff_exists, mem_entries_iff]

/-- The numbers stored under a key, absent keys counted as zero. -/
def amount (map : OrderedMap α ℕ) (key : α) : ℕ := (map.find? key).getD 0

theorem sum_entries_of_key (map : OrderedMap α ℕ) (key : α) :
    ((map.entries.filter (·.1 = key)).map Prod.snd).sum = map.amount key := by
  obtain ⟨es, hsorted⟩ := map
  simp only [amount, find?]
  induction es with
  | nil => rfl
  | cons first rest ih =>
    obtain ⟨hfst, hrest⟩ := pairwise_cons.mp hsorted
    by_cases hkey : first.1 = key
    · have hnone : (rest.filter (·.1 = key)) = [] := by
        rw [filter_eq_nil_iff]
        intro entry hentry
        simpa [hkey] using (hfst entry hentry).ne'
      simp [hkey, hnone]
    simpa [hkey] using ih hrest

theorem amount_insert (map : OrderedMap α ℕ) (key other : α) (value : ℕ) :
    (map.insert key value).amount other = if other = key then value else map.amount other := by
  by_cases hkey : other = key
  · subst hkey
    simp [amount, find?_insert_self]
  simp [amount, find?_insert_ne _ _ hkey, hkey]

/-- Writing a key that a test rejects keeps the entries it accepts. -/
theorem filter_insertEntry
    (keep : α → Bool) (value : β) (es : List (α × β)) (hkey : keep key = false) :
    (insertEntry key value es).filter (keep ·.1) = es.filter fun entry => keep entry.1 := by
  induction es with
  | nil => simp [insertEntry, hkey]
  | cons first rest ih =>
    unfold insertEntry
    split
    · simp [hkey]
    split
    next heq => simp [hkey, ← heq]
    · simp [filter_cons, ih]

/-- What a function finds in a map that holds nothing for it under other
keys. -/
theorem flatMap_entries (key : α) (f : α × β → List γ)
    (hother : ∀ entry ∈ map.entries, entry.1 ≠ key → f entry = []) :
    map.entries.flatMap f = ((map.find? key).map fun value => f (key, value)).getD [] := by
  obtain ⟨es, hsorted⟩ := map
  simp only [find?] at hother ⊢
  induction es with
  | nil => rfl
  | cons first rest ih =>
    obtain ⟨hfst, hrest⟩ := pairwise_cons.mp hsorted
    obtain ⟨hfirst, ho⟩ := forall_mem_cons.mp hother
    by_cases hkey : first.1 = key
    · have hnone : rest.flatMap f = [] := by
        rw [flatMap_eq_nil_iff]
        intro entry he
        exact ho entry he (hkey ▸ (hfst entry he).ne')
      simp [← hkey, hnone]
    simpa [hkey, hfirst hkey] using ih hrest ho

theorem filterMap_entries (key : α) (f : β → Option γ)
    (hother : ∀ entry ∈ map.entries, entry.1 ≠ key → f entry.2 = none) :
    map.entries.filterMap (f ·.2) = ((map.find? key).bind f).toList := by
  rw [filterMap_eq_flatMap_toList, flatMap_entries _ key]
  · cases map.find? key <;> rfl
  intro entry hentry hne
  rw [hother entry hentry hne, Option.toList_none]

/-- The part of a list of entries that belongs to one key. -/
theorem flatMap_of_key (key : α) (f : β → List γ) :
    map.entries.flatMap (fun entry => if entry.1 = key then f entry.2 else []) =
      ((map.find? key).map f).getD [] := by
  rw [flatMap_entries _ key _ fun _ _ hne => if_neg hne]
  simp

end OrderedMap
end Transferia.Support
