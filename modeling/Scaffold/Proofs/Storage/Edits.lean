import Scaffold.Proofs.Storage.Memory

namespace Scaffold.MemoryTree

inductive Edit
  | mkdir (path : String)
  | mkfile (path : String) (content : Option Content)

def Edit.perform : Edit → StateM MemoryTree (Except Fault Unit)
  | mkdir path => MemoryTree.mkdir path
  | mkfile path content => MemoryTree.mkfile path content

def edited (tree : MemoryTree) (edits : List Edit) : MemoryTree :=
  edits.foldl (fun tree edit => (edit.perform tree).2) tree

/-- Whatever stands in the second tree stands in the first and is of the same kind there. -/
def KeepsKinds (after before : MemoryTree) : Prop :=
  ∀ place entry, before.get? place = some entry →
    ∃ other, after.get? place = some other ∧ other.isDirectory = entry.isDirectory

variable {tree after before : MemoryTree} {place : Location}

namespace KeepsKinds

theorem refl (tree : MemoryTree) : tree.KeepsKinds tree :=
  fun _ entry found => ⟨entry, found, rfl⟩

theorem trans {middle : MemoryTree} (second : after.KeepsKinds middle)
    (first : middle.KeepsKinds before) : after.KeepsKinds before := by
  intro place entry found
  obtain ⟨other, there, same⟩ := first place entry found
  obtain ⟨last, here, alike⟩ := second place other there
  exact ⟨last, here, alike.trans same⟩

theorem of_extends (grown : after.Extends before) : after.KeepsKinds before :=
  fun place entry found => ⟨entry, grown place entry found, rfl⟩

theorem put_file (vacant : tree.get? place ≠ some .directory) (content : Content) :
    (tree.put place (.file content)).KeepsKinds tree := by
  intro query entry found
  by_cases here : query = place
  · subst here
    refine ⟨.file content, by simp, ?_⟩
    cases entry with
    | directory => exact absurd found vacant
    | file old => rfl
  · exact ⟨entry, by simpa [here] using found, rfl⟩

end KeepsKinds

theorem Coherent.keepsKinds_mkdir (coherent : tree.Coherent) (path : String) :
    (MemoryTree.mkdir path tree).2.KeepsKinds tree := by
  by_cases empty : path = ""
  · rw [empty, mkdir_empty]
    exact .refl tree
  rw [mkdir_eq coherent empty]
  cases tree.blocker? (Location.ofText path) with
  | some file => exact .refl tree
  | none => exact .of_extends (withDirectories_extends tree _)

theorem Coherent.keepsKinds_mkfile (coherent : tree.Coherent) (path : String)
    (content : Option Content) : (MemoryTree.mkfile path content tree).2.KeepsKinds tree := by
  rw [mkfile_eq coherent rfl]
  split
  next => exact .refl tree
  next filled =>
    split
    next => exact .refl tree
    next vacant =>
      cases tree.blocker? (Location.ofText path).dropLast with
      | some file => exact .refl tree
      | none =>
        have made := withDirectories_extends tree (Location.ofText path).dropLast
        have free : (tree.withDirectories (Location.ofText path).dropLast).get?
            (Location.ofText path) ≠ some .directory := by
          rwa [get?_withDirectories_dropLast tree filled]
        exact (KeepsKinds.put_file free _).trans (.of_extends made)

theorem Coherent.keepsKinds_perform (coherent : tree.Coherent) (edit : Edit) :
    (edit.perform tree).2.KeepsKinds tree := by
  cases edit with
  | mkdir path => exact coherent.keepsKinds_mkdir path
  | mkfile path content => exact coherent.keepsKinds_mkfile path content

theorem Reachable.perform (reachable : tree.Reachable) (edit : Edit) :
    (edit.perform tree).2.Reachable := by
  cases edit with
  | mkdir path => exact reachable.mkdir path
  | mkfile path content => exact reachable.mkfile path content

theorem Reachable.edited (reachable : tree.Reachable) (edits : List Edit) :
    (tree.edited edits).Reachable := by
  induction edits generalizing tree with
  | nil => exact reachable
  | cons edit edits ih => exact ih (reachable.perform edit)

theorem Reachable.keepsKinds_edited (reachable : tree.Reachable) (edits : List Edit) :
    (tree.edited edits).KeepsKinds tree := by
  induction edits generalizing tree with
  | nil => exact .refl tree
  | cons edit edits ih =>
    exact (ih (reachable.perform edit)).trans (reachable.coherent.keepsKinds_perform edit)

theorem read_of_directory (normal : place.Normal) (found : tree.get? place = some .directory) :
    tree.read place.text = .error (.isDirectory place.text) := by
  simp only [read, Location.ofText_text normal, found]

/-- Whatever edits made a tree, its root is a directory; each entry has a rooted path in normal form
as its key and stands in a directory, and a directory holds no bytes. Later edits leave every entry
in the tree, a directory as a directory and a file as a file. -/
theorem edited_empty_in_form (edits later : List Edit) :
    let tree := empty.edited edits
    tree.get? [] = some .directory ∧
    (∀ place ∈ tree.entries.keys, place.Normal ∧ Path.normalize place.text = ⟨true, place⟩) ∧
    (∀ place ∈ tree.entries.keys, ∀ parent, place.parent? = some parent →
      tree.get? parent = some .directory) ∧
    (∀ place, tree.get? place = some .directory →
      tree.read place.text = .error (.isDirectory place.text)) ∧
    (tree.edited later).KeepsKinds tree := by
  intro tree
  have reachable : tree.Reachable := Reachable.empty.edited edits
  have coherent := reachable.coherent
  have entryOf : ∀ place ∈ tree.entries.keys, ∃ entry, tree.get? place = some entry :=
    fun place key => Option.isSome_iff_exists.mp (Dict.contains_iff_mem_keys.mpr key)
  refine ⟨coherent.root, ?_, ?_, ?_, reachable.keepsKinds_edited later⟩
  · intro place key
    obtain ⟨entry, found⟩ := entryOf place key
    have normal := coherent.normal place entry found
    exact ⟨normal, Location.normalize_text normal⟩
  · intro place key parent above
    obtain ⟨entry, found⟩ := entryOf place key
    unfold Location.parent? at above
    split at above
    next => cases above
    next filled =>
      cases above
      exact coherent.parent place entry filled found
  · intro place found
    exact read_of_directory (coherent.normal place _ found) found

end Scaffold.MemoryTree
