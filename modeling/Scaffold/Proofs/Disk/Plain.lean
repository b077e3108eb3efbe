import Scaffold.Disk
import Scaffold.Proofs.Outcome
import Scaffold.Proofs.Path.Normal

/-! The host's disk where it holds directories and files only. A path that the host takes then names
what stands at its location (`walk_of_some`), and each request says of that location what one expects
(`kind_toOption`, `createDir_eq`, `writeFile_eq`, `readBytes_eq`, `listDir_eq`). -/

namespace Scaffold.Disk

/-- A tree of directories and files, without links. -/
structure Plain (disk : Disk) : Prop extends Location.IsTree disk.get? .directory where
  noLink : ∀ place target, disk.get? place ≠ some (.link target)

/-- The host takes a path: it is not too long, nor is one of its steps, and it holds no NUL. -/
structure Accepts (path : String) : Prop where
  noNul : '\x00' ∉ path.toList
  short : path.utf8ByteSize < pathLimit
  names : ∀ step ∈ Path.pieces path, step.utf8ByteSize ≤ nameLimit

instance (path : String) : Decidable (Accepts path) :=
  decidable_of_iff ('\x00' ∉ path.toList ∧ path.utf8ByteSize < pathLimit ∧
      ∀ step ∈ Path.pieces path, step.utf8ByteSize ≤ nameLimit)
    ⟨fun ⟨noNul, short, names⟩ => ⟨noNul, short, names⟩,
      fun ⟨noNul, short, names⟩ => ⟨noNul, short, names⟩⟩

structure Names (path : String) (place : Location) : Prop where
  rooted : Path.isRooted path = true
  pieces : Path.pieces path = place
  normal : place.Normal
  accepted : Accepts path

def Free (disk : Disk) (place : Location) : Prop :=
  ∀ node, disk.get? place = some node → node.kind = .file

variable {disk : Disk} {place higher : Location} {node : Node} {path : String} {ending : Ending}
  {links : Nat} {slash : Bool} {cwd : Location}

@[simp] theorem get?_put (disk : Disk) (place : Location) (node : Node) (query : Location) :
    (disk.put place node).get? query = if query = place then some node else disk.get? query :=
  Dict.get?_insert disk.nodes place query node

theorem erase_put (missing : disk.get? place = none) (node : Node) :
    (⟨(disk.put place node).nodes.erase place⟩ : Disk) = disk := by
  have same : (disk.put place node).nodes.erase place = disk.nodes := by
    apply Dict.ext
    intro query
    rw [Dict.get?_erase]
    split
    next here => exact (here ▸ missing).symm
    next apart => exact (get?_put disk place node query).trans (if_neg apart)
  rw [same]

def Passable (name : String) : Prop := name ≠ "." ∧ name ≠ ".." ∧ name.utf8ByteSize ≤ nameLimit

theorem walk_cons (plain : disk.Plain) (here : disk.get? place = some .directory) {name : String}
    (passable : Passable name) (rest : List String) (unslashed : slash = true → ending ≠ .write) :
    walk disk ending links place (name :: rest) slash =
      match disk.get? (place ++ [name]) with
      | none => if rest = [] then .ok (.absent (place ++ [name])) else .error .notFound
      | some _ => walk disk ending links (place ++ [name]) rest slash := by
  obtain ⟨stays, onward, short⟩ := passable
  have length : ¬ nameLimit < name.utf8ByteSize := Nat.not_lt.mpr short
  have writes : ¬ (rest = [] ∧ slash = true ∧ ending = .write) := fun ⟨_, ends, writing⟩ =>
    unslashed ends writing
  rw [walk]
  simp only [here, ne_eq, not_true_eq_false, ↓reduceIte, stays, onward, writes, length]
  cases found : disk.get? (place ++ [name]) with
  | none => rfl
  | some node =>
    cases node with
    | link target => exact absurd found (plain.noLink _ target)
    | directory => rfl
    | file content => rfl

theorem walk_of_some (plain : disk.Plain) {names : List String}
    (passable : ∀ name ∈ names, Passable name) (found : disk.get? (place ++ names) = some node)
    (ends : slash = true → node = .directory ∧ ending ≠ .write) :
    walk disk ending links place names slash = .ok (.node (place ++ names) node) := by
  induction names generalizing place with
  | nil =>
    rw [List.append_nil] at found ⊢
    rw [walk]
    have fits : ¬ (slash = true ∧ node ≠ .directory ∧ ending ≠ .make) :=
      fun ⟨slashed, other, _⟩ => other (ends slashed).1
    simp only [found, fits, ↓reduceIte]
  | cons name rest ih =>
    have here := plain.above found (List.prefix_append place _) (by simp)
    rw [List.append_cons] at found ⊢
    obtain ⟨other, next⟩ := plain.exists_above found (List.prefix_append _ rest)
    rw [walk_cons plain here (passable name (by simp)) rest fun slashed => (ends slashed).2, next]
    exact ih (fun later member => passable later (by simp [member])) found

theorem walk_of_absent (plain : disk.Plain) {names : List String} {name : String}
    (passable : ∀ other ∈ names ++ [name], Passable other)
    (holder : disk.get? (place ++ names) = some .directory)
    (missing : disk.get? (place ++ (names ++ [name])) = none) :
    walk disk ending links place (names ++ [name]) false =
      .ok (.absent (place ++ (names ++ [name]))) := by
  induction names generalizing place with
  | nil =>
    rw [List.append_nil] at holder
    rw [List.nil_append] at missing passable ⊢
    rw [walk_cons plain holder (passable name (by simp)) [] (by simp), missing]
    rfl
  | cons first rest ih =>
    have here := plain.above holder (List.prefix_append place _) (by simp)
    have split : place ++ (first :: rest ++ [name]) = place ++ [first] ++ (rest ++ [name]) := by simp
    rw [List.append_cons] at holder
    rw [split] at missing ⊢
    obtain ⟨other, next⟩ := plain.exists_above holder (List.prefix_append _ rest)
    rw [List.cons_append, walk_cons plain here (passable first (by simp)) _ (by simp), next]
    exact ih (fun later member => passable later (List.mem_cons_of_mem _ member)) holder missing

-- The walk stops at the first name that is missing, or at a file that comes before it.
theorem walk_of_none (plain : disk.Plain) {names : List String}
    (passable : ∀ name ∈ names, Passable name) (unslashed : slash = true → ending ≠ .write)
    (here : disk.get? place = some .directory) (missing : disk.get? (place ++ names) = none)
    (other : Location) (node : Node) :
    walk disk ending links place names slash ≠ .ok (.node other node) := by
  induction names generalizing place with
  | nil => simp [here] at missing
  | cons name rest ih =>
    rw [walk_cons plain here (passable name (by simp)) rest unslashed]
    cases next : disk.get? (place ++ [name]) with
    | none => by_cases last : rest = [] <;> simp [last]
    | some found =>
      rw [List.append_cons] at missing
      cases found with
      | directory => exact ih (fun later member => passable later (by simp [member])) next missing
      | link target => exact absurd next (plain.noLink _ target)
      | file content =>
        have more : rest ≠ [] := by
          rintro rfl
          simp [next] at missing
        obtain ⟨second, others, rfl⟩ := List.exists_cons_of_ne_nil more
        rw [walk]
        simp [next]

section Requests

theorem Names.passable (names : Names path place) : ∀ name ∈ place, Passable name := by
  intro name present
  obtain ⟨-, -, stays, onward⟩ := names.normal name present
  exact ⟨stays, onward, names.accepted.names name (names.pieces ▸ present)⟩

theorem locate_eq (disk : Disk) (cwd : Location) (ending : Ending) (names : Names path place) :
    disk.locate cwd ending path = walk disk ending linkLimit [] place (endsInSlash path) := by
  have noNul : ¬ path.toList.contains '\x00' = true := by simpa using names.accepted.noNul
  have filled : path ≠ "" := by
    rintro rfl
    simpa [Path.isRooted] using names.rooted
  have short : ¬ pathLimit ≤ path.utf8ByteSize := Nat.not_le.mpr names.accepted.short
  simp only [locate, noNul, filled, short, names.rooted, ↓reduceIte, steps, names.pieces,
    Bool.false_eq_true]

/-- Nothing but a directory is named with a slash at the end. -/
def Fits (disk : Disk) (path : String) (place : Location) : Prop :=
  endsInSlash path = true → disk.get? place = some .directory

theorem locate_of_some (plain : disk.Plain) (names : Names path place) (fits : disk.Fits path place)
    (writing : ending = .write → endsInSlash path = false) (found : disk.get? place = some node) :
    disk.locate cwd ending path = .ok (.node place node) := by
  have whole : disk.get? ([] ++ place) = some node := found
  rw [locate_eq disk cwd ending names]
  apply walk_of_some plain names.passable whole
  intro slashed
  refine ⟨Option.some.inj (found.symm.trans (fits slashed)), ?_⟩
  intro write
  simp [writing write] at slashed

theorem locate_of_absent (plain : disk.Plain) (names : Names path place)
    (unslashed : endsInSlash path = false) (missing : disk.get? place = none)
    (holder : disk.get? place.dropLast = some .directory) :
    disk.locate cwd ending path = .ok (.absent place) := by
  have filled : place ≠ [] := plain.ne_nil (by simp [missing])
  have passable := names.passable
  rw [locate_eq disk cwd ending names, unslashed]
  obtain ⟨above, name, rfl⟩ := (List.eq_nil_or_concat place).resolve_left filled
  rw [List.concat_eq_append] at missing holder passable ⊢
  rw [List.dropLast_concat] at holder
  exact walk_of_absent plain passable holder missing

theorem find_toOption (plain : disk.Plain) (names : Names path place) (fits : disk.Fits path place)
    (reading : ending ≠ .write) (cwd : Location) :
    (disk.find cwd ending path).toOption = (disk.get? place).map (place, ·) := by
  unfold find
  cases found : disk.get? place with
  | some node =>
    rw [locate_of_some plain names fits (fun write => absurd write reading) found]
    rfl
  | none =>
    have whole : disk.get? ([] ++ place) = none := found
    rw [locate_eq disk cwd ending names]
    cases walked : walk disk ending linkLimit [] place (endsInSlash path) with
    | error error => rfl
    | ok result =>
      cases result with
      | absent other => rfl
      | node other node =>
        exact absurd walked
          (walk_of_none plain names.passable (fun _ => reading) plain.root whole other node)

theorem kind_toOption (plain : disk.Plain) (names : Names path place) (fits : disk.Fits path place)
    (cwd : Location) (followLinks : Bool) :
    (disk.kind cwd followLinks path).toOption = (disk.get? place).map Node.kind := by
  have reading : (if followLinks then Ending.follow else Ending.keep) ≠ .write := by
    cases followLinks <;> decide
  rw [kind, toOption_map, find_toOption plain names fits reading, Option.map_map]
  rfl

theorem createDir_eq (plain : disk.Plain) (names : Names path place)
    (unslashed : endsInSlash path = false) (missing : disk.get? place = none)
    (holder : disk.get? place.dropLast = some .directory) (cwd : Location) :
    disk.createDir cwd path = .ok (disk.put place .directory) := by
  rw [createDir, locate_of_absent plain names unslashed missing holder]
  rfl

theorem writeFile_eq (plain : disk.Plain) (names : Names path place)
    (unslashed : endsInSlash path = false) (vacant : disk.get? place ≠ some .directory)
    (holder : disk.get? place.dropLast = some .directory) (cwd : Location) (content : Content) :
    disk.writeFile cwd path content = .ok (disk.put place (.file content)) := by
  have fits : disk.Fits path place := fun slashed => by simp [unslashed] at slashed
  rw [writeFile]
  cases found : disk.get? place with
  | none =>
    rw [locate_of_absent plain names unslashed found holder]
    rfl
  | some node =>
    rw [locate_of_some plain names fits (fun _ => unslashed) found]
    cases node with
    | directory => exact absurd found vacant
    | file old => rfl
    | link target => rfl

theorem readBytes_eq (plain : disk.Plain) (names : Names path place) (fits : disk.Fits path place)
    {content : Content} (found : disk.get? place = some (.file content)) (cwd : Location) :
    disk.readBytes cwd path = .ok content := by
  rw [readBytes, find, locate_of_some plain names fits (by simp) found]
  rfl

theorem listDir_eq (plain : disk.Plain) (names : Names path place)
    (found : disk.get? place = some .directory) (cwd : Location) :
    disk.listDir cwd path = .ok (disk.children place) := by
  rw [listDir, find, locate_of_some plain names (fun _ => found) (by simp) found]
  rfl

end Requests

theorem get?_blank (query : Location) :
    blank.get? query = if query = [] then some .directory else none :=
  Dict.get?_insert Dict.empty [] query Node.directory

theorem Plain.blank : blank.Plain where
  root := by simp [get?_blank]
  parent := by
    intro place node filled found
    simp [get?_blank, filled] at found
  noLink := by
    intro place target found
    rw [get?_blank] at found
    split at found <;> cases found

theorem isTree_put (tree : Location.IsTree disk.get? .directory)
    (holder : disk.get? place.dropLast = some .directory)
    (vacant : disk.get? place ≠ some .directory) (node : Node) :
    Location.IsTree (disk.put place node).get? .directory := by
  have after : (disk.put place node).get? =
      fun query => if query = place then some node else disk.get? query :=
    funext (get?_put disk place node)
  rw [after]
  exact tree.put holder vacant node

theorem Plain.put (plain : disk.Plain) (holder : disk.get? place.dropLast = some .directory)
    (vacant : disk.get? place ≠ some .directory) (noLink : ∀ target, node ≠ .link target) :
    (disk.put place node).Plain where
  toIsTree := isTree_put plain.toIsTree holder vacant node
  noLink := by
    intro other target found
    rw [get?_put] at found
    split at found
    next => exact noLink target (Option.some.inj found)
    next => exact plain.noLink other target found

end Scaffold.Disk
