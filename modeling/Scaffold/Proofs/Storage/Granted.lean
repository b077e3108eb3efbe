import Scaffold.Proofs.Storage.Memory

namespace Scaffold

theorem Location.within_dropLast_iff {place higher : Location} (filled : place ≠ []) :
    higher <+: place.dropLast ↔ higher <+: place ∧ higher ≠ place := by
  obtain ⟨above, name, rfl⟩ := (List.eq_nil_or_concat place).resolve_left filled
  rw [List.concat_eq_append, List.dropLast_concat, List.prefix_concat_iff]
  constructor
  · intro within
    refine ⟨.inr within, ?_⟩
    intro same
    have shorter := within.length_le
    rw [same, List.length_append, List.length_singleton] at shorter
    omega
  · intro below
    exact below.1.resolve_left below.2

namespace MemoryTree

/-- A request does what is asked just when `condition` holds, and else nothing. -/
def Wholly (tree : MemoryTree) (condition : Prop) (done : MemoryTree)
    (result : Except Fault Unit × MemoryTree) : Prop :=
  (condition ∧ result = (.ok (), done)) ∨ (¬ condition ∧ ∃ fault, result = (.error fault, tree))

namespace Wholly

variable {tree done : MemoryTree} {condition : Prop} {result : Except Fault Unit × MemoryTree}

theorem ok_iff (wholly : tree.Wholly condition done result) :
    result.1 = .ok () ↔ condition := by
  rcases wholly with ⟨holds, same⟩ | ⟨fails, fault, same⟩
  · simp [same, holds]
  · simp [same, fails]

theorem of_ok (wholly : tree.Wholly condition done result) (granted : result.1 = .ok ()) :
    result.2 = done := by
  rcases wholly with ⟨_, same⟩ | ⟨_, fault, same⟩
  · rw [same]
  · rw [same] at granted
    cases granted

theorem of_error {fault : Fault} (wholly : tree.Wholly condition done result)
    (refused : result.1 = .error fault) : result.2 = tree := by
  rcases wholly with ⟨_, same⟩ | ⟨_, other, same⟩
  · rw [same] at refused
    cases refused
  · rw [same]

end Wholly

variable {tree : MemoryTree} {place : Location}

/-- No file stands at a place or on the way to it. -/
def IsOpen (tree : MemoryTree) (place : Location) : Prop :=
  ∀ higher, higher <+: place → tree.isFileAt higher = false

theorem isOpen_dropLast_iff (filled : place ≠ []) : tree.IsOpen place.dropLast ↔
    ∀ higher, higher <+: place → higher ≠ place → tree.isFileAt higher = false := by
  simp only [IsOpen, Location.within_dropLast_iff filled, and_imp]

theorem not_isOpen_of_blocker? {file : Location} (blocked : tree.blocker? place = some file) :
    ¬ tree.IsOpen place := by
  intro isOpen
  rw [blocker?_eq_none_iff.mpr isOpen] at blocked
  cases blocked

theorem mkdir_wholly (coherent : tree.Coherent) (path : String) :
    tree.Wholly (path ≠ "" ∧ tree.IsOpen (Location.ofText path))
      (tree.withDirectories (Location.ofText path)) (mkdir path tree) := by
  by_cases empty : path = ""
  · right
    rw [empty, mkdir_empty]
    exact ⟨fun both => both.1 rfl, _, rfl⟩
  rw [mkdir_eq coherent empty]
  cases blocked : tree.blocker? (Location.ofText path) with
  | none => exact .inl ⟨⟨empty, blocker?_eq_none_iff.mp blocked⟩, rfl⟩
  | some file => exact .inr ⟨fun both => not_isOpen_of_blocker? blocked both.2, _, rfl⟩

theorem mkfile_wholly (coherent : tree.Coherent) (path : String) (content : Option Content)
    (named : Location.ofText path = place) :
    tree.Wholly (tree.get? place ≠ some .directory ∧ tree.IsOpen place.dropLast)
      ((tree.withDirectories place.dropLast).put place (.file (content.getD .empty)))
      (mkfile path content tree) := by
  rw [mkfile_eq coherent named]
  by_cases root : place = []
  · rw [if_pos root]
    exact .inr ⟨fun both => both.1 (root ▸ coherent.root), _, rfl⟩
  rw [if_neg root]
  by_cases directory : tree.get? place = some .directory
  · rw [if_pos directory]
    exact .inr ⟨fun both => both.1 directory, _, rfl⟩
  rw [if_neg directory]
  cases blocked : tree.blocker? place.dropLast with
  | none => exact .inl ⟨⟨directory, blocker?_eq_none_iff.mp blocked⟩, rfl⟩
  | some file => exact .inr ⟨fun both => not_isOpen_of_blocker? blocked both.2, _, rfl⟩

theorem get?_filed (tree : MemoryTree) (filled : place ≠ []) (content : Content)
    (query : Location) :
    ((tree.withDirectories place.dropLast).put place (.file content)).get? query =
      if query = place then some (.file content)
      else if query <+: place ∧ tree.get? query = none then some .directory
      else tree.get? query := by
  rw [get?_put]
  by_cases here : query = place
  · rw [if_pos here, if_pos here]
  · rw [if_neg here, if_neg here, get?_withDirectories]
    simp only [Location.within_dropLast_iff filled, here, ne_eq, not_false_eq_true, and_true]

/-- `mkdir` is granted just when the path is not empty and no file is in its way, and then makes a
directory of each missing place on the way. `mkfile` is granted just when no directory stands at
its place and no file above it; then the file holds the content, and each missing place above is a
directory. All else stays as it was, and a refusal changes nothing. -/
theorem requests_wholly (reachable : tree.Reachable) (path : String) (content : Option Content) :
    let place := Location.ofText path
    let made := mkdir path tree
    let filed := mkfile path content tree
    (made.1 = .ok () ↔
      path ≠ "" ∧ ∀ higher, higher <+: place → tree.isFileAt higher = false) ∧
    (made.1 = .ok () → ∀ query, made.2.get? query =
      if query <+: place ∧ tree.get? query = none then some .directory else tree.get? query) ∧
    (filed.1 = .ok () ↔ tree.get? place ≠ some .directory ∧
      ∀ higher, higher <+: place → higher ≠ place → tree.isFileAt higher = false) ∧
    (filed.1 = .ok () → place ≠ [] ∧ filed.2.read path = .ok (content.getD .empty) ∧
      ∀ query, query ≠ place → filed.2.get? query =
        if query <+: place ∧ tree.get? query = none then some .directory else tree.get? query) ∧
    (∀ fault, made.1 = .error fault → made.2 = tree) ∧
    ∀ fault, filed.1 = .error fault → filed.2 = tree := by
  intro place made filed
  have coherent := reachable.coherent
  have madeWholly : tree.Wholly _ _ made := mkdir_wholly coherent path
  have filedWholly : tree.Wholly _ _ filed := mkfile_wholly coherent path content rfl
  have ne_root : tree.get? place ≠ some .directory → place ≠ [] := coherent.ne_nil
  refine ⟨madeWholly.ok_iff, ?_, ?_, ?_, fun _ => madeWholly.of_error, fun _ =>
    filedWholly.of_error⟩
  · intro granted query
    rw [madeWholly.of_ok granted, get?_withDirectories]
  · rw [filedWholly.ok_iff]
    exact and_congr_right fun vacant => isOpen_dropLast_iff (ne_root vacant)
  · intro granted
    have filled : place ≠ [] := ne_root (filedWholly.ok_iff.mp granted).1
    rw [filedWholly.of_ok granted]
    refine ⟨filled, ?_, ?_⟩
    · rw [read, get?_filed tree filled, if_pos rfl]
    · intro query apart
      rw [get?_filed tree filled, if_neg apart]

-- The way is blocked by a file two steps down; beside it there is room.
theorem requests_wholly_beside_file :
    let tree := (mkfile "a/b" none empty).2
    let blocked := mkdir "new/../a/b/c" tree
    let filed := mkfile "a/x/y" (some "text".toUTF8) tree
    tree.Reachable ∧ blocked.1 ≠ .ok () ∧ blocked.2 = tree ∧ filed.1 = .ok () ∧
      filed.2.read "a/x/y" = .ok "text".toUTF8 ∧ filed.2.get? ["a", "x"] = some .directory ∧
      filed.2.get? ["a", "b"] = some (.file .empty) := by
  intro tree blocked filed
  have reachable : tree.Reachable := .mkfile "a/b" none .empty
  have stopped : blocked.1 = .error (.notDirectory "/a/b") := by decide +kernel
  have granted : filed.1 = .ok () := by decide +kernel
  obtain ⟨-, -, -, -, refused, -⟩ := requests_wholly reachable "new/../a/b/c" none
  obtain ⟨-, -, -, holds, -⟩ := requests_wholly reachable "a/x/y" (some "text".toUTF8)
  obtain ⟨-, readBack, others⟩ := holds granted
  refine ⟨reachable, by simp [stopped], refused _ stopped, granted, readBack, ?_, ?_⟩
  · rw [others _ (by decide +kernel)]
    decide +kernel
  · rw [others _ (by decide +kernel)]
    decide +kernel

end MemoryTree
end Scaffold
