import Mathlib.Data.List.Basic
import Scaffold.Proofs.Disk.Plain
import Scaffold.Storage.Directory

namespace Scaffold

namespace Location

variable {place rest : Location}

theorem endsInSlash_append {start name : String} (filled : name ≠ "")
    (noSlash : '/' ∉ name.toList) : Disk.endsInSlash (start ++ name) = false := by
  unfold Disk.endsInSlash
  apply decide_eq_false
  intro ends
  have last : (start ++ name).toList.getLast? = name.toList.getLast? := by
    rw [String.toList_append, List.getLast?_append_of_ne_nil _ (by simpa using filled)]
  exact noSlash (List.mem_of_getLast? (last ▸ ends))

theorem endsInSlash_intercalate (start : String) (normal : place.Normal) (filled : place ≠ []) :
    Disk.endsInSlash (start ++ "/".intercalate place) = false := by
  obtain ⟨above, name, rfl⟩ := (List.eq_nil_or_concat place).resolve_left filled
  rw [List.concat_eq_append] at normal ⊢
  have proper := normal name (by simp)
  by_cases first : above = []
  · rw [first, List.nil_append, String.intercalate_singleton]
    exact endsInSlash_append proper.1 proper.2.1
  · rw [String.intercalate_append_of_ne_nil first (by simp), String.intercalate_singleton,
      ← String.append_assoc]
    exact endsInSlash_append proper.1 proper.2.1

theorem endsInSlash_text (normal : place.Normal) (filled : place ≠ []) :
    Disk.endsInSlash place.text = false :=
  endsInSlash_intercalate "/" normal filled

theorem text_append (place : Location) (filled : rest ≠ []) :
    (place ++ rest).text =
      (if place = [] then "/" else place.text ++ "/") ++ "/".intercalate rest := by
  by_cases top : place = []
  · simp [top, text_eq]
  · rw [if_neg top, text_eq, text_eq, String.intercalate_append_of_ne_nil top filled]
    simp only [String.append_assoc]

theorem join_text (normal : (place ++ rest : Location).Normal) (filled : rest ≠ []) :
    Path.join place.text ("/".intercalate rest) = (place ++ rest).text := by
  have below : Normal rest := fun name present => normal name (List.mem_append_right _ present)
  rw [text_append place filled, Path.join,
    if_neg (by simp [not_isRooted_intercalate below, text_ne_empty])]
  by_cases top : place = []
  · rw [if_pos top, top]
    rfl
  · have unslashed : place.text.toList.getLast? ≠ some '/' := by
      have ends := endsInSlash_text (normal.of_within (List.prefix_append _ _)) top
      simpa [Disk.endsInSlash] using ends
    rw [if_neg unslashed, if_neg top]

theorem join_name {name : String} (normal : (place ++ [name] : Location).Normal) :
    Path.join place.text name = (place ++ [name] : Location).text := by
  have alone : "/".intercalate [name] = name := String.intercalate_singleton
  simpa only [alone] using join_text normal (by simp)

theorem join_text_slash (normal : (place ++ rest : Location).Normal) (top : place ≠ [])
    (filled : rest ≠ []) :
    Path.join (place.text ++ "/") ("/".intercalate rest) = (place ++ rest).text := by
  have below : Normal rest := fun name present => normal name (List.mem_append_right _ present)
  rw [text_append place filled, Path.join, if_neg (by simp [not_isRooted_intercalate below]),
    if_pos (by simp), if_neg top]

end Location

namespace Disk

variable {place rest : Location}

theorem exists_text_append (place rest : Location) :
    ∃ more, (place ++ rest : Location).text = place.text ++ more := by
  by_cases last : rest = []
  · exact ⟨"", by simp [last]⟩
  by_cases top : place = []
  · exact ⟨"/".intercalate rest, by rw [Location.text_append place last, if_pos top, top]; rfl⟩
  · exact ⟨"/" ++ "/".intercalate rest, by
      rw [Location.text_append place last, if_neg top, String.append_assoc]⟩

theorem Accepts.of_within {higher : Location} (accepted : Accepts place.text)
    (normal : place.Normal) (within : higher <+: place) : Accepts higher.text := by
  obtain ⟨rest, rfl⟩ := within
  obtain ⟨more, split⟩ := exists_text_append higher rest
  have above := normal.of_within (List.prefix_append higher rest)
  refine ⟨?_, ?_, ?_⟩
  · have noNul := accepted.noNul
    rw [split, String.toList_append] at noNul
    exact fun present => noNul (List.mem_append_left _ present)
  · have short := accepted.short
    rw [split, String.utf8ByteSize_append] at short
    omega
  · intro step present
    have names := accepted.names step
    rw [Location.pieces_text above] at present
    rw [Location.pieces_text normal] at names
    exact names (List.mem_append_left _ present)

/-- The host takes the path of a location below the directory `base`, which is there itself. -/
def AcceptsBelow (base place : Location) : Prop :=
  place ≠ [] → Accepts (base ++ place : Location).text

theorem AcceptsBelow.of_within {base higher : Location} (accepted : AcceptsBelow base place)
    (normal : (base ++ place : Location).Normal) (within : higher <+: place) :
    AcceptsBelow base higher := by
  intro filled
  have further : place ≠ [] := by
    rintro rfl
    exact filled (List.prefix_nil.mp within)
  exact (accepted further).of_within normal ((List.prefix_append_right_inj base).mpr within)

theorem names_text (normal : place.Normal) (accepted : Accepts place.text) :
    Names place.text place where
  rooted := Location.isRooted_text place
  pieces := Location.pieces_text normal
  normal := normal
  accepted := accepted

theorem fits_text {disk : Disk} (plain : disk.Plain) (normal : place.Normal) :
    disk.Fits place.text place := by
  intro slashed
  by_cases top : place = []
  · rw [top, plain.root]
  · simp [Location.endsInSlash_text normal top] at slashed

theorem length_le_text (normal : place.Normal) : place.length ≤ place.text.utf8ByteSize := by
  induction place using List.reverseRecOn with
  | nil => simp
  | append_singleton above name ih =>
    have shorter := ih (normal.of_within (List.prefix_append _ _))
    have some : name.utf8ByteSize ≠ 0 := by
      intro none
      exact (normal name (by simp)).1 (String.utf8ByteSize_eq_zero_iff.mp none)
    rw [Location.text_append above (by simp), String.intercalate_singleton,
      String.utf8ByteSize_append, List.length_append, List.length_singleton]
    by_cases top : above = []
    · rw [if_pos top, top, List.length_nil]
      omega
    · have slash : "/".utf8ByteSize = 1 := rfl
      rw [if_neg top, String.utf8ByteSize_append, slash]
      omega

end Disk

namespace DirectoryTree

variable {tree : DirectoryTree} {base : Location} {path : String}

theorem hostPath_text (tree : DirectoryTree) (path : String) :
    tree.hostPath (Location.ofText path).text = tree.hostPath path := by
  rw [hostPath, hostPath, Location.ofText_text (Location.normal_ofText path)]

section HostPath
variable (root : tree.root = base.text) (normalBase : base.Normal)
include root normalBase

theorem hostPath_of_filled (filled : Location.ofText path ≠ []) :
    tree.hostPath path = (base ++ Location.ofText path : Location).text := by
  have normal := normalBase.append (Location.normal_ofText path)
  rw [hostPath, root, Location.join_text normal filled]

theorem hostPath_of_root (top : Location.ofText path = []) :
    tree.hostPath path = if base = [] then base.text else base.text ++ "/" := by
  have unrooted : Path.isRooted "" = false := rfl
  rw [hostPath, root, top, String.intercalate_nil, Path.join,
    if_neg (by simp [unrooted, Location.text_ne_empty])]
  by_cases bare : base = []
  · simp [bare, Location.text_eq]
  · have ends := Location.endsInSlash_text normalBase bare
    simp only [Disk.endsInSlash, decide_eq_false_iff_not] at ends
    simp [bare, ends]

theorem isRooted_hostPath (path : String) : Path.isRooted (tree.hostPath path) = true := by
  by_cases top : Location.ofText path = []
  · rw [hostPath_of_root root normalBase top]
    split
    next => exact Location.isRooted_text base
    next => exact Location.isRooted_text_append base "/"
  · rw [hostPath_of_filled root normalBase top]
    exact Location.isRooted_text _

theorem pieces_hostPath (path : String) :
    Path.pieces (tree.hostPath path) = base ++ Location.ofText path := by
  by_cases top : Location.ofText path = []
  · rw [hostPath_of_root root normalBase top, top, List.append_nil]
    split
    next => exact Location.pieces_text normalBase
    next => rw [Path.pieces_append_slash, Location.pieces_text normalBase]
  · rw [hostPath_of_filled root normalBase top]
    exact Location.pieces_text (normalBase.append (Location.normal_ofText path))

theorem names_hostPath (accepted : Disk.Accepts (tree.hostPath path)) :
    Disk.Names (tree.hostPath path) (base ++ Location.ofText path) where
  rooted := isRooted_hostPath root normalBase path
  pieces := pieces_hostPath root normalBase path
  normal := normalBase.append (Location.normal_ofText path)
  accepted := accepted

theorem acceptsBelow_ofText (accepted : Disk.Accepts (tree.hostPath path)) :
    Disk.AcceptsBelow base (Location.ofText path) := by
  intro filled
  rwa [← hostPath_of_filled root normalBase filled]

theorem fits_hostPath {disk : Disk} (there : disk.get? base = some .directory) :
    disk.Fits (tree.hostPath path) (base ++ Location.ofText path) := by
  intro slashed
  by_cases top : Location.ofText path = []
  · rw [top, List.append_nil, there]
  · have unslashed := Location.endsInSlash_text (normalBase.append (Location.normal_ofText path))
      (by simp [top])
    rw [hostPath_of_filled root normalBase top, unslashed] at slashed
    cases slashed

theorem join_hostPath {name : String} (proper : Path.IsName name) (path : String) :
    Path.join (tree.hostPath path) name =
      (base ++ Location.ofText path ++ [name] : Location).text := by
  have normal : (base ++ Location.ofText path ++ [name] : Location).Normal :=
    (normalBase.append (Location.normal_ofText path)).append (Location.normal_singleton proper)
  by_cases top : Location.ofText path = []
  · rw [hostPath_of_root root normalBase top]
    rw [top, List.append_nil] at normal ⊢
    split
    next => exact Location.join_name normal
    next filled =>
      have alone : "/".intercalate [name] = name := String.intercalate_singleton
      simpa only [alone] using Location.join_text_slash normal filled (by simp)
  · rw [hostPath_of_filled root normalBase top]
    exact Location.join_name normal

end HostPath
end DirectoryTree
end Scaffold
