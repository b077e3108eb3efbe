import Mathlib.Data.List.Infix
import Scaffold.Proofs.Outcome
import Scaffold.Proofs.Path.Normal
import Scaffold.Storage.Memory

/-! The tree in memory. `Coherent` is the invariant: what stands below the root stands in a
directory. On a coherent tree a request either makes all that is missing on its way or, when a file
is in the way, changes nothing at all (`ensureAlong_eq`, `mkdir_eq`, `mkfile_eq`). -/

namespace Scaffold.MemoryTree

/-- What any requests, refused ones among them, can make of the empty tree. -/
inductive Reachable : MemoryTree → Prop
  | empty : Reachable empty
  | mkdir {tree : MemoryTree} (path : String) : Reachable tree → Reachable (mkdir path tree).2
  | mkfile {tree : MemoryTree} (path : String) (content : Option Content) :
      Reachable tree → Reachable (mkfile path content tree).2

structure Coherent (tree : MemoryTree) : Prop extends Location.IsTree tree.get? .directory where
  normal : ∀ place entry, tree.get? place = some entry → place.Normal

/-- Whatever stands in the first tree stands in the second as it was. -/
def Extends (after before : MemoryTree) : Prop :=
  ∀ place entry, before.get? place = some entry → after.get? place = some entry

def isFileAt (tree : MemoryTree) (place : Location) : Bool :=
  match tree.get? place with
  | some (.file _) => true
  | _ => false

def blocker? (tree : MemoryTree) (place : Location) : Option Location :=
  place.inits.find? tree.isFileAt

def putNew (tree : MemoryTree) (place : Location) (entry : Entry) : MemoryTree :=
  if (tree.get? place).isSome then tree else tree.put place entry

/-- A directory wherever nothing stands on the way to a place. -/
def withDirectories (tree : MemoryTree) (place : Location) : MemoryTree :=
  place.inits.foldl (fun tree above => tree.putNew above .directory) tree

variable {tree after before : MemoryTree} {place higher : Location}

section Lookup

theorem ext (same : ∀ place, after.get? place = before.get? place) : after = before := by
  cases after
  cases before
  congr 1
  exact Dict.ext same

@[simp] theorem get?_put (tree : MemoryTree) (place : Location) (entry : Entry) (query : Location) :
    (tree.put place entry).get? query = if query = place then some entry else tree.get? query :=
  Dict.get?_insert tree.entries place query entry

theorem get?_empty (query : Location) :
    empty.get? query = if query = [] then some .directory else none :=
  Dict.get?_insert Dict.empty [] query Entry.directory

theorem get?_putNew (tree : MemoryTree) (place : Location) (entry : Entry) (query : Location) :
    (tree.putNew place entry).get? query =
      if query = place ∧ tree.get? query = none then some entry else tree.get? query := by
  unfold putNew
  cases here : tree.get? place with
  | none => by_cases same : query = place <;> simp [same, here]
  | some other =>
    have present : ¬ (query = place ∧ tree.get? query = none) := by
      rintro ⟨rfl, missing⟩
      simp [missing] at here
    simp [present]

theorem isFileAt_eq_true_iff :
    tree.isFileAt place = true ↔ ∃ content, tree.get? place = some (.file content) := by
  unfold isFileAt
  split
  next content found => simp [found]
  next other =>
    simp only [Bool.false_eq_true, false_iff, not_exists]
    exact other

theorem get?_withDirectories (tree : MemoryTree) (place query : Location) :
    (tree.withDirectories place).get? query =
      if query <+: place ∧ tree.get? query = none then some .directory else tree.get? query := by
  have along : ∀ (places : List Location) (tree : MemoryTree),
      (places.foldl (fun tree above => tree.putNew above .directory) tree).get? query =
        if query ∈ places ∧ tree.get? query = none then some .directory else tree.get? query := by
    intro places
    induction places with
    | nil => simp
    | cons first places ih =>
      intro tree
      rw [List.foldl_cons, ih, get?_putNew]
      by_cases here : query = first <;> cases found : tree.get? query <;> simp [here]
  simpa [withDirectories] using along place.inits tree

theorem get?_withDirectories_dropLast (tree : MemoryTree) (filled : place ≠ []) :
    (tree.withDirectories place.dropLast).get? place = tree.get? place := by
  rw [get?_withDirectories, if_neg]
  rintro ⟨within, -⟩
  have shorter := within.length_le
  have some := List.length_pos_iff.mpr filled
  rw [List.length_dropLast] at shorter
  omega

theorem isSome_get?_putNew (tree : MemoryTree) (place : Location) (entry : Entry)
    (query : Location) : ((tree.putNew place entry).get? query).isSome ↔
      (tree.get? query).isSome ∨ query = place := by
  rw [get?_putNew]
  cases tree.get? query with
  | some other => simp
  | none => by_cases same : query = place <;> simp [same]

theorem isSome_get?_withDirectories (tree : MemoryTree) (place query : Location) :
    ((tree.withDirectories place).get? query).isSome ↔
      (tree.get? query).isSome ∨ query <+: place := by
  rw [get?_withDirectories]
  cases tree.get? query with
  | some other => simp
  | none => by_cases within : query <+: place <;> simp [within]

end Lookup

section Extends

theorem Extends.refl (tree : MemoryTree) : tree.Extends tree := fun _ _ found => found

theorem Extends.trans {middle : MemoryTree} (second : after.Extends middle)
    (first : middle.Extends before) : after.Extends before :=
  fun place entry found => second place entry (first place entry found)

theorem putNew_extends (tree : MemoryTree) (place : Location) (entry : Entry) :
    (tree.putNew place entry).Extends tree := by
  intro query other found
  simp [get?_putNew, found]

theorem withDirectories_extends (tree : MemoryTree) (place : Location) :
    (tree.withDirectories place).Extends tree := by
  intro query other found
  simp [get?_withDirectories, found]

end Extends

namespace Coherent

theorem empty : Coherent empty where
  root := by simp [get?_empty]
  parent := by
    intro place entry filled found
    simp [get?_empty, filled] at found
  normal := by
    intro place entry found name present
    by_cases root : place = []
    · simp [root] at present
    · simp [get?_empty, root] at found

theorem put (coherent : tree.Coherent) (normal : place.Normal)
    (holder : tree.get? place.dropLast = some .directory)
    (vacant : tree.get? place ≠ some .directory) (entry : Entry) :
    (tree.put place entry).Coherent where
  toIsTree := by
    have after : (tree.put place entry).get? =
        fun query => if query = place then some entry else tree.get? query :=
      funext (get?_put tree place entry)
    rw [after]
    exact coherent.toIsTree.put holder vacant entry
  normal := by
    intro other old found
    rw [get?_put] at found
    split at found
    next same => rwa [same]
    next => exact coherent.normal other old found

theorem putNew (coherent : tree.Coherent) (normal : place.Normal)
    (holder : tree.get? place.dropLast = some .directory) (entry : Entry) :
    (tree.putNew place entry).Coherent := by
  unfold MemoryTree.putNew
  split
  next => exact coherent
  next missing => exact coherent.put normal holder (fun found => missing (by simp [found])) entry

end Coherent

section Blocker

theorem blocker?_eq_none_iff :
    tree.blocker? place = none ↔ ∀ higher, higher <+: place → tree.isFileAt higher = false := by
  simp [blocker?]

theorem of_blocker? {file : Location} (blocked : tree.blocker? place = some file) :
    file <+: place ∧ ∃ content, tree.get? file = some (.file content) := by
  have member := List.mem_of_find?_eq_some blocked
  have isFile := List.find?_some blocked
  exact ⟨(List.mem_inits _ _).mp member, isFileAt_eq_true_iff.mp isFile⟩

theorem isFileAt_eq_false_of_missing (missing : tree.get? place = none) :
    tree.isFileAt place = false := by
  simp [isFileAt, missing]

theorem isFileAt_eq_false_of_directory (found : tree.get? place = some .directory) :
    tree.isFileAt place = false := by
  simp [isFileAt, found]

theorem Coherent.blocker?_of_directory (coherent : tree.Coherent)
    (found : tree.get? place = some .directory) : tree.blocker? place = none := by
  apply blocker?_eq_none_iff.mpr
  intro higher within
  by_cases same : higher = place
  · exact isFileAt_eq_false_of_directory (same ▸ found)
  · exact isFileAt_eq_false_of_directory (coherent.above found within same)

theorem directory_of_free (free : tree.blocker? place = none) (within : higher <+: place) :
    (tree.withDirectories place).get? higher = some .directory := by
  have noFile := blocker?_eq_none_iff.mp free higher within
  rw [get?_withDirectories]
  cases found : tree.get? higher with
  | none => simp [within]
  | some entry =>
    cases entry with
    | directory => simp
    | file content => simp [isFileAt, found] at noFile

end Blocker

section Requests

theorem putNew_of_some {entry : Entry} (found : tree.get? place = some entry) (other : Entry) :
    tree.putNew place other = tree := by
  simp [putNew, found]

theorem isFileAt_putNew (tree : MemoryTree) (place query : Location) :
    (tree.putNew place .directory).isFileAt query = tree.isFileAt query := by
  unfold isFileAt
  rw [get?_putNew]
  by_cases new : query = place ∧ tree.get? query = none
  · rw [if_pos new, new.2]
  · rw [if_neg new]

theorem isFileAt_withDirectories (tree : MemoryTree) (place query : Location) :
    (tree.withDirectories place).isFileAt query = tree.isFileAt query := by
  unfold isFileAt
  rw [get?_withDirectories]
  by_cases new : query <+: place ∧ tree.get? query = none
  · rw [if_pos new, new.2]
  · rw [if_neg new]

theorem ensure_eq (tree : MemoryTree) (place : Location) :
    ensure place tree =
      if tree.isFileAt place then (.error (.notDirectory place.text), tree)
      else (.ok (), tree.putNew place .directory) := by
  rw [ensure, bind_apply, get_apply]
  unfold isFileAt putNew
  cases found : tree.get? place with
  | none => rfl
  | some entry =>
    cases entry with
    | directory => rfl
    | file content => rfl

theorem ensureAlong_of_file (isFile : tree.isFileAt place = true) (names : List String) :
    ensureAlong place names tree = (.error (.notDirectory place.text), tree) := by
  cases names <;> (rw [ensureAlong, bind_apply, ensure_eq, if_pos isFile]; rfl)

theorem ensureAlong_of_free (free : tree.isFileAt place = false) (names : List String) :
    ensureAlong place names tree =
      match names with
      | [] => (.ok (), tree.putNew place .directory)
      | name :: names => ensureAlong (place ++ [name]) names (tree.putNew place .directory) := by
  have noFile : ¬ tree.isFileAt place = true := by simp [free]
  cases names with
  | nil =>
    rw [ensureAlong, bind_apply, ensure_eq, if_neg noFile]
    rfl
  | cons name names => rw [ensureAlong, bind_apply, ensure_eq, if_neg noFile]

theorem ensureAlong_of_directory (found : tree.get? place = some .directory) (names : List String) :
    ensureAlong place names tree =
      match names with
      | [] => (.ok (), tree)
      | name :: names => ensureAlong (place ++ [name]) names tree := by
  rw [ensureAlong_of_free (isFileAt_eq_false_of_directory found), putNew_of_some found]

theorem ensureAlong_of_missing (missing : tree.get? place = none) (names : List String) :
    ensureAlong place names tree = ensureAlong place names (tree.put place .directory) := by
  have new : tree.putNew place .directory = tree.put place .directory := by simp [putNew, missing]
  rw [ensureAlong_of_free (isFileAt_eq_false_of_missing missing), new,
    ensureAlong_of_directory (by simp)]

theorem putNew_here (free : tree.isFileAt place = false) :
    (tree.putNew place .directory).get? place = some .directory := by
  rw [get?_putNew]
  cases found : tree.get? place with
  | none => simp
  | some entry =>
    cases entry with
    | directory => simp
    | file content => simp [isFileAt, found] at free

-- A file further down stands in a directory, so nothing has been made before it is met.
theorem ensureAlong_eq (coherent : tree.Coherent) {names : List String}
    (normal : Location.Normal (place ++ names))
    (holder : tree.get? place.dropLast = some .directory) :
    ensureAlong place names tree =
      match (names.inits.map (place ++ ·)).find? tree.isFileAt with
      | some file => (.error (.notDirectory file.text), tree)
      | none => (.ok (), (names.inits.map (place ++ ·)).foldl
          (fun tree higher => tree.putNew higher .directory) tree) := by
  induction names generalizing place tree with
  | nil =>
    cases isFile : tree.isFileAt place with
    | true => simp [ensureAlong_of_file isFile, isFile]
    | false => simp [ensureAlong_of_free isFile, isFile]
  | cons name names ih =>
    cases isFile : tree.isFileAt place with
    | true => simp [ensureAlong_of_file isFile, isFile]
    | false =>
      have here : place.Normal := normal.of_within (List.prefix_append _ _)
      have below : Location.Normal ((place ++ [name]) ++ names) := by simpa using normal
      have next := ih (coherent.putNew here holder .directory) below
        (by simpa using putNew_here isFile)
      have same : (tree.putNew place .directory).isFileAt = tree.isFileAt := by
        funext query
        exact isFileAt_putNew tree place query
      simp only [same, List.append_assoc, List.singleton_append] at next
      rw [ensureAlong_of_free isFile]
      simp only [next, List.inits, List.map_cons, List.map_map, Function.comp_def, List.append_nil,
        List.find?_cons, isFile, List.foldl_cons]
      cases met : (names.inits.map fun rest => place ++ name :: rest).find? tree.isFileAt with
      | none => rfl
      | some file =>
        obtain ⟨content, found⟩ := isFileAt_eq_true_iff.mp (List.find?_some met)
        obtain ⟨rest, -, below⟩ := List.mem_map.mp (List.mem_of_find?_eq_some met)
        have directory : tree.get? place = some .directory := by
          apply coherent.above found (below ▸ List.prefix_append _ _)
          intro same
          simp [← below] at same
        rw [putNew_of_some directory]

theorem ensureAlong_root (coherent : tree.Coherent) (normal : place.Normal) :
    ensureAlong [] place tree =
      match tree.blocker? place with
      | some file => (.error (.notDirectory file.text), tree)
      | none => (.ok (), tree.withDirectories place) := by
  have whole : place.inits.map ([] ++ ·) = place.inits := by simp
  rw [ensureAlong_eq coherent (by simpa using normal) (by simpa using coherent.root), whole]
  rfl

theorem mkdir_eq (coherent : tree.Coherent) {path : String} (filled : path ≠ "") :
    mkdir path tree =
      match tree.blocker? (Location.ofText path) with
      | some file => (.error (.notDirectory file.text), tree)
      | none => (.ok (), tree.withDirectories (Location.ofText path)) := by
  rw [mkdir, if_neg filled, ensureAlong_root coherent (Location.normal_ofText path)]

theorem mkdir_text (coherent : tree.Coherent) {place : Location} (normal : place.Normal) :
    mkdir place.text tree =
      match tree.blocker? place with
      | some file => (.error (.notDirectory file.text), tree)
      | none => (.ok (), tree.withDirectories place) := by
  have made := mkdir_eq coherent (Location.text_ne_empty place)
  rwa [Location.ofText_text normal] at made

theorem mkdir_empty (tree : MemoryTree) : mkdir "" tree = (.error .emptyPath, tree) := rfl

theorem mkfile_eq (coherent : tree.Coherent) {path : String}
    (named : Location.ofText path = place) (content : Option Content) :
    mkfile path content tree =
      if place = [] then (.error .rootIsDirectory, tree)
      else if tree.get? place = some .directory then (.error (.isDirectory place.text), tree)
      else match tree.blocker? place.dropLast with
        | some file => (.error (.notDirectory file.text), tree)
        | none => (.ok (), (tree.withDirectories place.dropLast).put place
            (.file (content.getD .empty))) := by
  have normal : place.Normal := named ▸ Location.normal_ofText path
  have made := ensureAlong_root coherent (normal.of_within (List.dropLast_prefix place))
  simp only [mkfile, named]
  by_cases root : place = []
  · simp only [root, ↓reduceIte, pure_apply]
  by_cases directory : tree.get? place = some .directory
  · simp only [root, directory, ↓reduceIte, bind_apply, get_apply, pure_apply]
  simp only [root, directory, ↓reduceIte, bind_apply, get_apply, made]
  cases tree.blocker? place.dropLast with
  | some file => rfl
  | none => rfl

end Requests

namespace Coherent

theorem withDirectories (coherent : tree.Coherent) (normal : place.Normal)
    (free : tree.blocker? place = none) : (tree.withDirectories place).Coherent := by
  have keeps := withDirectories_extends tree place
  refine ⟨⟨keeps _ _ coherent.root, ?_⟩, ?_⟩
  · intro other entry filled found
    rw [get?_withDirectories] at found
    split at found
    next new => exact directory_of_free free ((List.dropLast_prefix other).trans new.1)
    next => exact keeps _ _ (coherent.parent other entry filled found)
  · intro other entry found
    rw [get?_withDirectories] at found
    split at found
    next new => exact normal.of_within new.1
    next => exact coherent.normal other entry found

theorem mkdir (coherent : tree.Coherent) (path : String) : (mkdir path tree).2.Coherent := by
  by_cases empty : path = ""
  · rwa [empty, mkdir_empty]
  rw [mkdir_eq coherent empty]
  split
  next => exact coherent
  next free =>
    dsimp only
    exact coherent.withDirectories (Location.normal_ofText path) free

theorem mkfile (coherent : tree.Coherent) (path : String) (content : Option Content) :
    (mkfile path content tree).2.Coherent := by
  rw [mkfile_eq coherent rfl]
  have normal := Location.normal_ofText path
  have above := normal.of_within (List.dropLast_prefix _)
  split
  next => exact coherent
  next filled =>
    split
    next => exact coherent
    next vacant =>
      cases free : tree.blocker? (Location.ofText path).dropLast with
      | some file => exact coherent
      | none =>
        refine (coherent.withDirectories above free).put normal ?_ ?_ _
        · exact directory_of_free free List.prefix_rfl
        · rwa [get?_withDirectories_dropLast tree filled]

end Coherent

theorem Reachable.coherent (reachable : tree.Reachable) : tree.Coherent := by
  induction reachable with
  | empty => exact Coherent.empty
  | mkdir path _ ih => exact ih.mkdir path
  | mkfile path content _ ih => exact ih.mkfile path content

end Scaffold.MemoryTree
