import Transferia.Registry.DurableStorage

/-!
# The files of the durable storage

A delivery and a key name one state file below the configured root.  The last
component of the key loses its extension there, and the components `.` and `..` are
accepted and keep their meaning for the file system.
-/

namespace Transferia.Registry
open List

/-- A path as the file system reads it: its names, without the components `.`. -/
abbrev Path := List (List Char)

def push (path : Path) (component : List Char) : Path :=
  if component = ['.'] then path else path ++ [component]

/-- What stands before the last dot of a name, if anything does. -/
def fileStem (name : List Char) : List Char :=
  let before := (name.reverse.dropWhile (· != '.')).tail.reverse
  if before = [] ∨ name = ['.', '.'] then name else before

/-- The name with the extension of state files.  A path that ends with `..` has no file name,
and neither has one that ends so without its old extension, unless a component `.` follows. -/
def stateName (name : List Char) (dotted : Bool) : List Char :=
  if name = ['.', '.'] ∨ fileStem name = ['.'] ∧ !dotted then ['.', '.']
  else fileStem name ++ ['.', 's', 't', 'a', 't', 'e']

def lockName : List Char := ['.', 'l', 'o', 'c', 'k']

def withExtension (path : Path) (dotted : Bool) : Path :=
  match path.getLast? with
  | none => path
  | some name => path.dropLast ++ [stateName name dotted]

def validateComponent (label : String) (value : List Char) : Except String Unit :=
  if value.isEmpty || 128 < (value.map Char.utf8Size).sum then
    .error s!"{label} must contain 1..=128 ASCII bytes"
  else if value.all fun c => c.isAlphanum || c = '-' || c = '_' || c = '.' then .ok ()
  else .error s!"{label} must contain only ASCII letters, digits, '-', '_' or '.'"

def build (root : Path) (deliveryId : List Char) : Except String Path := do
  validateComponent "delivery_id" deliveryId
  return push root deliveryId

def pushKey (path : Path) (component : List Char) : Except String Path := do
  validateComponent "durable-storage key component" component
  return push path component

def path (root components : Path) : Except String Path := do
  return withExtension (← components.foldlM pushKey root) (components.getLast? = some ['.'])

/-- A delivery and a key, which is its components between slashes: at least one. -/
structure StatePair where
  deliveryId : List Char
  front : Path
  last : List Char

def StatePair.components (pair : StatePair) : Path := pair.front ++ [pair.last]

variable {root : Path} {first second pair : StatePair}
  {names : Set (List Char)} {name last : List Char} {front below : Path}
variable (root pair)

def statePath : Except String Path := do
  path (← build root pair.deliveryId) pair.components

def lockPath : Path := push root pair.deliveryId ++ [lockName]

variable {root pair}

def Inside (root path : Path) : Prop := ∃ names ≠ [], path = root ++ names ∧ ['.', '.'] ∉ names

/-- Two files that are not the same, and of which none is a directory of the other. -/
def Apart (file other : Path) : Prop := ¬ file <+: other ∧ ¬ other <+: file

/-- The pairs use files of their own below the root.  The pairs of one delivery share
its lock file. -/
def Isolated (root : Path) (first second : StatePair) : Prop :=
  ∃ file other, statePath root first = .ok file ∧ statePath root second = .ok other ∧
    (∀ used ∈ [file, other, lockPath root first, lockPath root second], Inside root used) ∧
    Apart file other ∧
    Apart file (lockPath root first) ∧ Apart file (lockPath root second) ∧
    Apart other (lockPath root first) ∧ Apart other (lockPath root second) ∧
    (first.deliveryId ≠ second.deliveryId → Apart (lockPath root first) (lockPath root second)) ∧
    ∀ (files : Path → Option (DurableValue (List UInt8))) value,
      Function.update files other value file = files file

def StatePair.Over (names : Set (List Char)) (pair : StatePair) : Prop :=
  ∀ component ∈ pair.deliveryId :: pair.components, component ∈ names

/-- Names that differ before their extension, of which none is special and none is the
file of another. -/
structure SafeNames (names : Set (List Char)) : Prop where
  plain : ∀ name ∈ names, fileStem name ≠ ['.'] ∧ name ≠ ['.', '.']
  lock : lockName ∉ names
  stems : ∀ name ∈ names, ∀ other ∈ names, fileStem name = fileStem other → name = other
  extensions : ∀ name ∈ names, stateName name false ∉ names

def Accepted (name : List Char) : Prop := ∀ label, validateComponent label name = .ok ()

theorem stateName_plain (h : fileStem name ≠ ['.'] ∧ name ≠ ['.', '.']) :
    stateName name false = fileStem name ++ ['.', 's', 't', 'a', 't', 'e'] := by
  simp [stateName, h]

theorem stateName_ne (h : fileStem name ≠ ['.'] ∧ name ≠ ['.', '.'])
    {short : List Char} (hshort : short.length < 6) : stateName name false ≠ short := by
  rintro rfl
  rw [stateName_plain h, length_append] at hshort
  exact absurd hshort (by simp)

theorem withExtension_concat {dotted : Bool} :
    withExtension (front ++ [last]) dotted = front ++ [stateName last dotted] := by
  simp [withExtension]

theorem not_inside_withExtension {dotted : Bool} : ¬ Inside root (withExtension root dotted) := by
  rintro ⟨below, hne, heq, -⟩
  have hlen : (withExtension root dotted).length = root.length := by
    rcases eq_nil_or_concat' root with rfl | ⟨front, last, rfl⟩
    · rfl
    · simp [withExtension_concat]
  rw [heq, length_append] at hlen
  exact hne (length_eq_zero_iff.mp (by omega))

theorem foldl_push (h : ['.'] ∉ front) : front.foldl push root = root ++ front := by
  induction front generalizing root with
  | nil => simp
  | cons component rest ih =>
    obtain ⟨hne, hrest⟩ := not_or.mp (mem_cons.not.mp h)
    rw [foldl_cons, ih hrest, push, if_neg (Ne.symm hne), append_assoc, singleton_append]

theorem foldlM_pushKey (h : ∀ component ∈ front, Accepted component) :
    front.foldlM pushKey root = .ok (front.foldl push root) := by
  induction front generalizing root with
  | nil => rfl
  | cons component rest ih =>
    obtain ⟨hfirst, hrest⟩ := forall_mem_cons.mp h
    rw [foldlM_cons, pushKey, hfirst]
    exact ih hrest

section
variable (hvalid : ∀ name ∈ names, Accepted name)
include hvalid

theorem statePath_of_over (h : pair.Over names) :
    statePath root pair =
      .ok (withExtension ((pair.deliveryId :: pair.components).foldl push root)
        (pair.last = ['.'])) := by
  obtain ⟨hdelivery, hkey⟩ := forall_mem_cons.mp h
  rw [statePath, build, hvalid _ hdelivery]
  change path (push root pair.deliveryId) pair.components = _
  rw [path, foldlM_pushKey fun component hmem => hvalid component (hkey component hmem)]
  simp [StatePair.components, bind, Except.bind, pure, Except.pure]

def stateFile (root : Path) (pair : StatePair) : Path :=
  root ++ (pair.deliveryId :: pair.front ++ [stateName pair.last false])

theorem statePath_of_plain (hdot : ['.'] ∉ names) (h : pair.Over names) :
    statePath root pair = .ok (stateFile root pair) := by
  have hnone : ['.'] ∉ pair.deliveryId :: pair.components := fun hmem => hdot (h _ hmem)
  have hlast : pair.last ≠ ['.'] := by
    rintro hlast
    exact hnone (by simp [StatePair.components, hlast])
  rw [statePath_of_over hvalid h, foldl_push hnone, StatePair.components, ← cons_append,
    ← append_assoc, withExtension_concat, append_assoc, stateFile]
  simp [hlast]

end

theorem not_prefix_concat {x y : List Char} (hx : x ∉ below) (hne : front ++ [x] ≠ below ++ [y]) :
    ¬ root ++ (front ++ [x]) <+: root ++ (below ++ [y]) := by
  intro h
  rcases prefix_concat_iff.mp ((prefix_append_right_inj root).mp h) with heq | h
  · exact hne heq
  · exact hx (h.subset (by simp))

theorem apart_concat
    (hfront : ∀ component ∈ front, component ∈ names)
    (hbelow : ∀ component ∈ below, component ∈ names)
    {x y : List Char} (hx : x ∉ names) (hy : y ∉ names) (hne : front ++ [x] ≠ below ++ [y]) :
    Apart (root ++ (front ++ [x])) (root ++ (below ++ [y])) :=
  ⟨not_prefix_concat (fun h => hx (hbelow x h)) hne,
    not_prefix_concat (fun h => hy (hfront y h)) hne.symm⟩

theorem StatePair.Over.members (hpair : pair.Over names) :
    pair.last ∈ names ∧ (∀ component ∈ pair.deliveryId :: pair.front, component ∈ names) ∧
    ∀ component ∈ [pair.deliveryId], component ∈ names := by
  simp_all [StatePair.Over, StatePair.components]

namespace SafeNames
variable (hsafe : SafeNames names)
include hsafe

theorem not_dot : ['.'] ∉ names := fun hdot => (hsafe.plain _ hdot).1 rfl

theorem inside (hfront : ∀ component ∈ front, component ∈ names) (hlast : last ≠ ['.', '.']) :
    Inside root (root ++ (front ++ [last])) := by
  refine ⟨front ++ [last], by simp, rfl, fun hmem => ?_⟩
  rcases mem_append.mp hmem with hmem | hmem
  · exact (hsafe.plain _ (hfront _ hmem)).2 rfl
  · exact hlast (mem_singleton.mp hmem).symm

theorem lockPath_eq (hpair : pair.Over names) :
    lockPath root pair = root ++ ([pair.deliveryId] ++ [lockName]) := by
  rw [lockPath, push, if_neg, append_assoc]
  intro hdot
  exact hsafe.not_dot (hdot ▸ hpair _ (by simp))

theorem apart_lockPath (hpair : pair.Over names) (hother : first.Over names) :
    Apart (stateFile root pair) (lockPath root first) := by
  obtain ⟨hlast, hfront, -⟩ := hpair.members
  rw [hsafe.lockPath_eq hother]
  apply apart_concat hfront hother.members.2.2 (hsafe.extensions _ hlast) hsafe.lock
  intro heq
  exact stateName_ne (hsafe.plain _ hlast) (by decide) (cons.inj (append_inj' heq rfl).2).1

theorem isolated (hvalid : ∀ name ∈ names, Accepted name)
    (hfirst : first.Over names) (hsecond : second.Over names) (hne : first ≠ second) :
    Isolated root first second := by
  obtain ⟨hlast, hfront, hdelivery⟩ := hfirst.members
  obtain ⟨hlast', hfront', hdelivery'⟩ := hsecond.members
  have hfiles : Apart (stateFile root first) (stateFile root second) := by
    apply apart_concat hfront hfront' (hsafe.extensions _ hlast) (hsafe.extensions _ hlast')
    refine fun heq => hne ?_
    obtain ⟨hsame, hnames⟩ := append_inj' heq rfl
    rw [stateName_plain (hsafe.plain _ hlast), stateName_plain (hsafe.plain _ hlast')] at hnames
    have hends := hsafe.stems _ hlast _ hlast' (append_cancel_right (cons.inj hnames).1)
    cases first
    cases second
    simp_all
  refine ⟨_, _, statePath_of_plain hvalid hsafe.not_dot hfirst,
    statePath_of_plain hvalid hsafe.not_dot hsecond, ?_, hfiles,
    hsafe.apart_lockPath hfirst hfirst, hsafe.apart_lockPath hfirst hsecond,
    hsafe.apart_lockPath hsecond hfirst, hsafe.apart_lockPath hsecond hsecond, ?_, ?_⟩
  · rw [hsafe.lockPath_eq hfirst, hsafe.lockPath_eq hsecond]
    simp only [mem_cons, not_mem_nil, or_false, forall_eq_or_imp, forall_eq]
    exact ⟨hsafe.inside hfront (stateName_ne (hsafe.plain _ hlast) (by decide)),
      hsafe.inside hfront' (stateName_ne (hsafe.plain _ hlast') (by decide)),
      hsafe.inside hdelivery (by decide), hsafe.inside hdelivery' (by decide)⟩
  · intro hdeliveries
    rw [hsafe.lockPath_eq hfirst, hsafe.lockPath_eq hsecond]
    exact apart_concat hdelivery hdelivery' hsafe.lock hsafe.lock (by simpa using hdeliveries)
  intro files value
  exact Function.update_of_ne (fun heq => hfiles.1 ⟨[], by rw [append_nil, heq]⟩) _ _

end SafeNames
section
variable (hvalid : ∀ name ∈ names, Accepted name)
  (h : ∀ first second : StatePair, first.Over names → second.Over names → first ≠ second →
    Isolated root first second)
include hvalid h

theorem plain_of_isolated (name : List Char) (hname : name ∈ names) :
    fileStem name ≠ ['.'] ∧ name ≠ ['.', '.'] := by
  have hover : StatePair.Over names ⟨name, [], name⟩ := by
    simp [StatePair.Over, StatePair.components, hname]
  obtain ⟨file, _, hfile, -, hinside, -⟩ := h _ ⟨name, [name], name⟩ hover
    (by simp [StatePair.Over, StatePair.components, hname]) (by simp)
  rw [statePath_of_over hvalid hover] at hfile
  have hfile := Except.ok.inj hfile
  by_contra hspecial
  by_cases hdot : name = ['.']
  · subst hdot
    exact not_inside_withExtension (hfile ▸ hinside file (by simp))
  -- Any other special name makes the path end with two dots.
  have hstate : stateName name false = ['.', '.'] := if_pos (by tauto)
  obtain ⟨below, -, heq, hup⟩ := hinside file (by simp)
  rw [← hfile, foldl_push (by simpa [StatePair.components] using Ne.symm hdot)] at heq
  simp [StatePair.components, withExtension, hstate, hdot] at heq
  exact hup (by simp [← heq])

theorem apart_of_isolated (first second : StatePair)
    (hfirst : first.Over names) (hsecond : second.Over names) (hne : first ≠ second) :
    Apart (stateFile root first) (stateFile root second) ∧
    Apart (stateFile root second) (lockPath root first) := by
  have hdot : ['.'] ∉ names := fun hdot => (plain_of_isolated hvalid h _ hdot).1 rfl
  obtain ⟨_, _, hfile, hother, -, hfiles, -, -, hlock, -⟩ := h first second hfirst hsecond hne
  cases (statePath_of_plain hvalid hdot hfirst).symm.trans hfile
  cases (statePath_of_plain hvalid hdot hsecond).symm.trans hother
  exact ⟨hfiles, hlock⟩

theorem safeNames_of_isolated : SafeNames names := by
  refine ⟨plain_of_isolated hvalid h, fun hlock => ?_, ?_, ?_⟩
  · refine (apart_of_isolated hvalid h ⟨lockName, [], lockName⟩
      ⟨lockName, [lockName], lockName⟩ ?_ ?_ (by simp)).2.2
      ⟨[stateName lockName false], by simp [stateFile, lockPath, push, lockName]⟩
    all_goals simp [StatePair.Over, StatePair.components, hlock]
  · intro name hname other hother hstem
    by_contra hne
    have hplain := plain_of_isolated hvalid h
    refine (apart_of_isolated hvalid h ⟨name, [], name⟩ ⟨name, [], other⟩ ?_ ?_
      (by simp [hne])).1.1 (by simp [stateFile, stateName_plain, hplain, hname, hother, hstem])
    all_goals simp [StatePair.Over, StatePair.components, hname, hother]
  intro name hname hfile
  refine (apart_of_isolated hvalid h ⟨name, [], name⟩
    ⟨name, [stateName name false], name⟩ ?_ ?_ (by simp)).1.1
    ⟨[stateName name false], by simp [stateFile]⟩
  all_goals simp [StatePair.Over, StatePair.components, hname, hfile]

end

/-- Below every root, the pairs over a set of accepted names are isolated exactly when the
names are safe. -/
theorem pairs_isolated_iff (root : Path) (names : Set (List Char))
    (hvalid : ∀ name ∈ names, Accepted name) :
    (∀ first second : StatePair, first.Over names → second.Over names → first ≠ second →
      Isolated root first second) ↔
    SafeNames names :=
  ⟨safeNames_of_isolated hvalid, fun hsafe _ _ => hsafe.isolated hvalid⟩

theorem pairs_isolated_of_letter : Isolated [['r']] ⟨['a'], [], ['a']⟩ ⟨['a'], [['a']], ['a']⟩ := by
  refine (pairs_isolated_iff [['r']] {['a']} ?_).mpr ⟨?_, ?_, ?_, ?_⟩ _ _ ?_ ?_ (by simp)
  · rintro _ rfl label
    rfl
  all_goals simp [StatePair.Over, StatePair.components, lockName, stateName, fileStem]

/-- Two keys of one delivery that differ in an extension have one state file. -/
theorem extensions_share_file :
    ¬ Isolated [['r']] ⟨['d'], [], ['a', '.', 'b']⟩ ⟨['d'], [], ['a', '.', 'c']⟩ := by
  rintro ⟨file, other, hfile, hother, -, hapart, -⟩
  have hsame : file = other := Except.ok.inj (hfile.symm.trans hother)
  exact hapart.1 (hsame ▸ List.prefix_refl _)

end Transferia.Registry
