import Scaffold.Proofs.Disk.HostPath
import Scaffold.Proofs.Disk.Leads

/-! What stands below a directory that is reached along any path, links included. Where the steps
below it are directories, the host either refuses a path whatever is asked of it, or the path means
what stands at its location, and no link below the directory is passed (`Reached.resolves`). -/

namespace Scaffold

namespace Path

structure Continues (root : String) (below : Location) (path : String) : Prop where
  filled : path ≠ ""
  rooted : isRooted path = isRooted root
  pieces : Path.pieces path = Path.pieces root ++ below
  unslashed : below ≠ [] → Disk.endsInSlash path = false

namespace Continues

variable {root path : String} {below rest : Location}

theorem refl (filled : root ≠ "") : Continues root [] root where
  filled := filled
  rooted := rfl
  pieces := (List.append_nil _).symm
  unslashed := fun more => absurd rfl more

theorem join (continues : Continues root below path) (normal : rest.Normal)
    (further : rest = [] → below = []) :
    Continues root (below ++ rest) (Path.join path ("/".intercalate rest)) := by
  have unrooted := Location.not_isRooted_intercalate normal
  have proper : ∀ name ∈ rest, name ≠ "" ∧ '/' ∉ name.toList :=
    fun name present => ⟨(normal name present).1, (normal name present).2.1⟩
  obtain ⟨between, joined⟩ := join_eq continues.filled unrooted
  refine ⟨join_ne_empty continues.filled _, ?_, ?_, ?_⟩
  · rw [joined, String.append_assoc, isRooted_append continues.filled, continues.rooted]
  · rw [pieces_join unrooted, pieces_intercalate proper, continues.pieces,
      List.append_assoc]
  · intro filled
    have more : rest ≠ [] := by
      rintro rfl
      exact filled (by simp [further rfl])
    rw [joined]
    exact Location.endsInSlash_intercalate _ normal more

theorem snoc {name : String} (continues : Continues root below path) (proper : IsName name) :
    Continues root (below ++ [name]) (Path.join path name) := by
  have alone : "/".intercalate [name] = name := String.intercalate_singleton
  simpa only [alone] using continues.join (Location.normal_singleton proper) (by simp)

end Continues
end Path

theorem DirectoryTree.continues_hostPath {tree : DirectoryTree} (filled : tree.root ≠ "")
    (path : String) : Path.Continues tree.root (Location.ofText path) (tree.hostPath path) := by
  have joined := (Path.Continues.refl filled).join (Location.normal_ofText path) fun _ => rfl
  rwa [List.nil_append] at joined

theorem DirectoryTree.endsInSlash_hostPath {tree : DirectoryTree} {path : String}
    (filled : tree.root ≠ "") (top : Location.ofText path = []) :
    Disk.endsInSlash (tree.hostPath path) = true := by
  have unrooted : Path.isRooted "" = false := rfl
  rw [hostPath, top, String.intercalate_nil, Path.join, if_neg (by simp [unrooted, filled])]
  split
  next ends => simpa [Disk.endsInSlash] using ends
  next => simp [Disk.endsInSlash]

namespace Disk

variable {disk later : Disk} {cwd base above place : Location} {root path name : String}
  {ending : Ending} {links left : Nat}

/-- The disk is a tree, and `base` is the directory in it that `root` leads to. -/
structure Reached (disk : Disk) (cwd : Location) (root : String) (base : Location) : Prop where
  tree : Location.IsTree disk.get? .directory
  filled : root ≠ ""
  leads : ∃ left, Leads disk linkLimit (if Path.isRooted root then [] else cwd)
    (Path.pieces root) left base

/-- What comes of a path whose last step is a name in a directory: the host refuses it for what it
is, or there is nothing of that name, or there is; then a link is taken for what stands there only
where it is not to be followed. -/
inductive Resolves (disk : Disk) (cwd : Location) (path : String) (place : Location) : Prop
  | refused (error : DiskError) (unfit : ¬ Accepts path)
      (all : ∀ ending, disk.locate cwd ending path = .error error)
  | absent (fit : Accepts path) (missing : disk.get? place = none)
      (all : ∀ ending, disk.locate cwd ending path = .ok (.absent place))
  | found (fit : Accepts path) (node : Node) (there : disk.get? place = some node)
      (kept : ∀ ending, node.kind ≠ .link ∨ ending = .keep ∨ ending = .make →
        disk.locate cwd ending path = .ok (.node place node))

theorem leads_below (tree : Location.IsTree disk.get? .directory) (normal : above.Normal)
    (short : ∀ name ∈ above, name.utf8ByteSize ≤ nameLimit)
    (holder : disk.get? (base ++ above) = some .directory) (links : Nat) :
    Leads disk links base above links (base ++ above) := by
  induction above generalizing base with
  | nil =>
    rw [List.append_nil] at holder ⊢
    exact .here holder
  | cons name rest ih =>
    have there := tree.above holder (List.prefix_append base _) (by simp)
    obtain ⟨-, -, stays, onward⟩ := normal name (by simp)
    rw [List.append_cons] at holder ⊢
    refine .enter there ⟨stays, onward, short name (by simp)⟩ (ih ?_ ?_ holder)
    · exact fun other member => normal other (by simp [member])
    · exact fun other member => short other (by simp [member])

theorem walk_long_name (there : disk.get? place = some .directory) (proper : Path.IsName name)
    (long : nameLimit < name.utf8ByteSize) (rest : List String) :
    walk disk ending links place (name :: rest) false = .error .nameTooLong := by
  obtain ⟨-, -, stays, onward⟩ := proper
  rw [walk]
  simp [there, stays, onward, long]

theorem walk_of_long (tree : Location.IsTree disk.get? .directory)
    (normal : (above ++ [name] : Location).Normal)
    (long : ¬ ∀ other ∈ above ++ [name], other.utf8ByteSize ≤ nameLimit)
    (holder : disk.get? (base ++ above) = some .directory) :
    walk disk ending links base (above ++ [name]) false = .error .nameTooLong := by
  induction above generalizing base with
  | nil =>
    rw [List.append_nil] at holder
    exact walk_long_name holder (normal name (by simp)) (by simpa using long) []
  | cons first rest ih =>
    have there := tree.above holder (List.prefix_append base _) (by simp)
    have proper := normal first (by simp)
    rw [List.cons_append]
    rcases Nat.lt_or_ge nameLimit first.utf8ByteSize with tooLong | short
    · exact walk_long_name there proper tooLong _
    · have later : ¬ ∀ other ∈ rest ++ [name], other.utf8ByteSize ≤ nameLimit := by
        intro others
        exact long (List.forall_mem_cons.mpr ⟨short, others⟩)
      rw [List.append_cons] at holder
      have next : disk.get? (base ++ [first]) = some .directory := by
        by_cases last : rest = []
        · simpa [last] using holder
        · exact tree.above holder (List.prefix_append _ rest) (by simpa using last)
      rw [walk_name there ⟨proper.2.2.1, proper.2.2.2, short⟩ (by simp), next]
      exact ih (fun other member => normal other (by simp [member])) later holder

theorem locate_cases (disk : Disk) (cwd : Location) (filled : path ≠ "") :
    (∃ error, ¬ Accepts path ∧ ∀ ending, disk.locate cwd ending path = .error error) ∨
      '\x00' ∉ path.toList ∧ path.utf8ByteSize < pathLimit ∧
        ∀ ending, disk.locate cwd ending path = walk disk ending linkLimit
          (if Path.isRooted path then [] else cwd) (steps path) (endsInSlash path) := by
  by_cases noNul : '\x00' ∈ path.toList
  · refine .inl ⟨.nulInPath, fun fit => fit.noNul noNul, fun ending => ?_⟩
    rw [locate, if_pos (by simpa using noNul)]
  have unfit : ¬ path.toList.contains '\x00' = true := by simpa using noNul
  rcases Nat.lt_or_ge path.utf8ByteSize pathLimit with short | tooLong
  · refine .inr ⟨noNul, short, fun ending => ?_⟩
    rw [locate, if_neg unfit, if_neg filled, if_neg (Nat.not_le.mpr short)]
  · refine .inl ⟨.nameTooLong, fun fit => Nat.not_lt.mpr tooLong fit.short, fun ending => ?_⟩
    rw [locate, if_neg unfit, if_neg filled, if_pos tooLong]

theorem Reached.directory (reached : Reached disk cwd root base) :
    disk.get? base = some .directory := by
  obtain ⟨_, leads⟩ := reached.leads
  exact leads.goal_directory

theorem Reached.resolves (reached : Reached disk cwd root base)
    (continues : Path.Continues root (above ++ [name]) path)
    (normal : (above ++ [name] : Location).Normal)
    (holder : disk.get? (base ++ above) = some .directory) :
    Resolves disk cwd path (base ++ above ++ [name]) := by
  obtain ⟨left, leads⟩ := reached.leads
  obtain ⟨error, unfit, all⟩ | ⟨noNul, short, walked⟩ := locate_cases disk cwd continues.filled
  · exact .refused error unfit all
  -- What is left to walk is the way down from `base`.
  have located : ∀ ending, disk.locate cwd ending path =
      walk disk ending left base (above ++ [name]) false := by
    intro ending
    rw [walked, continues.rooted, continues.unslashed (by simp), steps, continues.pieces,
      leads.walk_append (by simp)]
  by_cases names : ∀ other ∈ above ++ [name], other.utf8ByteSize ≤ nameLimit
  · have fit : Accepts path := by
      refine ⟨noNul, short, fun step present => ?_⟩
      rw [continues.pieces] at present
      exact (List.mem_append.mp present).elim (leads.short step) (names step)
    have proper := normal name (by simp)
    have passable : Passable name := ⟨proper.2.2.1, proper.2.2.2, names name (by simp)⟩
    have down := leads_below reached.tree (normal.of_within (List.prefix_append _ _))
      (fun other member => names other (by simp [member])) holder left
    have last : ∀ ending, disk.locate cwd ending path =
        walk disk ending left (base ++ above) [name] false := by
      intro ending
      rw [located, down.walk_append (by simp)]
    cases found : disk.get? (base ++ above ++ [name]) with
    | none =>
      refine .absent fit found fun ending => ?_
      rw [last, walk_name holder passable (by simp), found]
      rfl
    | some node =>
      refine .found fit node found fun ending kept => ?_
      rw [last, walk_name holder passable (by simp), found]
      cases node with
      | link target =>
        have named : ending = .make ∨ ending = .keep := by
          simpa [Node.kind, or_comm] using kept
        simp [named]
      | directory | file => exact walk_nil found
  · have unfit : ¬ Accepts path := by
      intro fit
      refine names fun other present => fit.names other ?_
      rw [continues.pieces]
      exact List.mem_append_right _ present
    refine .refused .nameTooLong unfit fun ending => ?_
    rw [located, walk_of_long reached.tree normal names holder]

theorem Reached.resolves_root (reached : Reached disk cwd root base)
    (continues : Path.Continues root [] path) :
    (∃ error, ∀ ending, disk.locate cwd ending path = .error error) ∨
      disk.locate cwd .follow path = .ok (.node base .directory) := by
  obtain ⟨left, leads⟩ := reached.leads
  obtain ⟨error, -, all⟩ | ⟨-, -, walked⟩ := locate_cases disk cwd continues.filled
  · exact .inl ⟨error, all⟩
  · right
    rw [walked, continues.rooted, steps, continues.pieces, List.append_nil, leads.walk_follow]

theorem Reached.of_find (tree : Location.IsTree disk.get? .directory)
    (found : disk.find cwd .follow root = .ok (base, .directory)) :
    Accepts root ∧ Reached disk cwd root base := by
  have filled : root ≠ "" := by
    rintro rfl
    cases found
  have located := locate_of_find found
  obtain ⟨left, leads⟩ := exists_leads found
  obtain ⟨error, -, all⟩ | ⟨noNul, short, -⟩ := locate_cases disk cwd filled
  · rw [all] at located
    cases located
  · exact ⟨⟨noNul, short, leads.short⟩, tree, filled, left, leads⟩

theorem Reached.find (reached : Reached disk cwd root base) (fit : Accepts root) :
    disk.find cwd .follow root = .ok (base, .directory) := by
  obtain ⟨left, leads⟩ := reached.leads
  obtain ⟨error, unfit, -⟩ | ⟨-, -, walked⟩ := locate_cases disk cwd reached.filled
  · exact absurd fit unfit
  · rw [Disk.find, walked, steps, leads.walk_follow]
    rfl

section Requests

variable {error : DiskError} {node : Node}

theorem kind_of_refused (all : ∀ ending, disk.locate cwd ending path = .error error)
    (followLinks : Bool) : disk.kind cwd followLinks path = .error error := by
  rw [kind, find, all]
  rfl

theorem kind_of_absent (all : ∀ ending, disk.locate cwd ending path = .ok (.absent place))
    (followLinks : Bool) : disk.kind cwd followLinks path = .error .notFound := by
  rw [kind, find, all]
  rfl

theorem kind_of_found (followLinks : Bool)
    (located : disk.locate cwd (if followLinks then .follow else .keep) path =
      .ok (.node place node)) : disk.kind cwd followLinks path = .ok node.kind := by
  rw [kind, find, located]
  rfl

theorem createDir_of_refused (all : ∀ ending, disk.locate cwd ending path = .error error) :
    disk.createDir cwd path = .error error := by
  rw [createDir, all]
  rfl

theorem createDir_of_absent (all : ∀ ending, disk.locate cwd ending path = .ok (.absent place)) :
    disk.createDir cwd path = .ok (disk.put place .directory) := by
  rw [createDir, all]
  rfl

theorem writeFile_of_refused (all : ∀ ending, disk.locate cwd ending path = .error error)
    (content : Content) : disk.writeFile cwd path content = .error error := by
  rw [writeFile, all]
  rfl

theorem Resolves.kind_itself (resolves : Resolves disk cwd path place) (fit : Accepts path)
    (there : disk.get? place = some node) : disk.kind cwd false path = .ok node.kind := by
  cases resolves with
  | refused error unfit => exact absurd fit unfit
  | absent _ missing => cases there.symm.trans missing
  | found _ other same kept =>
    cases there.symm.trans same
    exact kind_of_found false (kept .keep (by simp))

theorem Reached.kind_itself (reached : Reached disk cwd root base)
    (continues : Path.Continues root (above ++ [name]) path)
    (normal : (above ++ [name] : Location).Normal) (fit : Accepts path)
    (there : disk.get? (base ++ above ++ [name]) = some node) :
    disk.kind cwd false path = .ok node.kind :=
  (reached.resolves continues normal (reached.tree.above there
    (List.prefix_append (base ++ above) [name]) (by simp))).kind_itself fit there

theorem Resolves.writeFile_of_free (resolves : Resolves disk cwd path place) (fit : Accepts path)
    (free : disk.Free place) (content : Content) :
    disk.writeFile cwd path content = .ok (disk.put place (.file content)) := by
  cases resolves with
  | refused error unfit => exact absurd fit unfit
  | absent _ missing all =>
    rw [writeFile, all]
    rfl
  | found _ node there kept =>
    have file : node.kind = .file := free node there
    rw [writeFile, kept .write (by simp [file])]
    cases node with
    | file content => rfl
    | directory | link => cases file

/-- A file is written, if it is, where nothing or a file stands; for only a link could lead the
writing elsewhere. -/
theorem Resolves.writeFile_cases (resolves : Resolves disk cwd path place)
    (unlinked : Accepts path → ∀ target, disk.get? place ≠ some (.link target))
    (content : Content) :
    (∃ error, disk.writeFile cwd path content = .error error) ∨
      Accepts path ∧ disk.Free place ∧
        disk.writeFile cwd path content = .ok (disk.put place (.file content)) := by
  have written := fun fit free => resolves.writeFile_of_free fit free content
  cases resolves with
  | refused error _ all => exact .inl ⟨error, writeFile_of_refused all content⟩
  | absent fit missing =>
    have free : disk.Free place := by simp [Free, missing]
    exact .inr ⟨fit, free, written fit free⟩
  | found fit node there kept =>
    cases node with
    | link target => exact absurd there (unlinked fit target)
    | directory =>
      refine .inl ⟨.isDirectory, ?_⟩
      rw [writeFile, kept .write (by simp [Node.kind])]
      rfl
    | file old =>
      have free : disk.Free place := by
        intro other same
        cases there.symm.trans same
        rfl
      exact .inr ⟨fit, free, written fit free⟩

end Requests

end Disk
end Scaffold
