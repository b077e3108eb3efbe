import Scaffold.Proofs.Storage.Mount

namespace Scaffold

namespace Path

variable {base : String}

theorem isRooted_foldl_join (rooted : isRooted base = true) (segments : List String) :
    isRooted (segments.foldl join base) = true := by
  induction segments generalizing base with
  | nil => exact rooted
  | cons segment segments ih => exact ih (by rw [isRooted_join, rooted, Bool.or_true])

theorem normalize_eq_segments {path : String} (rooted : isRooted path = true) :
    normalize path = ⟨true, (normalize path).segments⟩ := by
  rw [← rooted]
  rfl

end Path

namespace Location

variable {path : String} {place : Location}

theorem normalize_join (path : String) :
    Path.normalize (Path.join "/" path) = ⟨true, ofText path⟩ :=
  Path.normalize_eq_segments (Path.isRooted_foldl_join (by decide) [path])

theorem normalize_foldl_join (path : String) :
    Path.normalize ((Path.pieces path).foldl Path.join "/") = ⟨true, ofText path⟩ := by
  have named : ofSegments path = ofText path := by rw [ofSegments_eq, ofText_eq]
  rw [← named]
  exact Path.normalize_eq_segments (Path.isRooted_foldl_join (by decide) _)

theorem parse_of_pieces (rooted : Path.isRooted path = true) (cut : Path.pieces path = place)
    (normal : place.Normal) : Path.parse path = ⟨true, place⟩ := by
  rw [Path.parse, rooted, cut, normal.still.kept]

theorem normalize_of_pieces (rooted : Path.isRooted path = true) (cut : Path.pieces path = place)
    (normal : place.Normal) : Path.normalize path = ⟨true, place⟩ := by
  rw [normalize_of_rooted rooted, ofText_eq, cut, ofSteps_of_normal normal]

end Location

namespace DirectoryTree

structure WellRooted (tree : DirectoryTree) : Prop where
  rooted : Path.isRooted tree.root = true
  normal : (Path.normalize tree.root).text = tree.root

variable {tree : DirectoryTree}

theorem WellRooted.root_eq (wellRooted : tree.WellRooted) :
    tree.root = (Location.ofText tree.root).text := by
  have named := wellRooted.normal
  rw [Location.normalize_of_rooted wellRooted.rooted] at named
  exact named.symm

theorem wellRooted_of_mount {path : String} {before after : World}
    (mounted : (mount path : StateM World _) before = (.ok tree, after)) : tree.WellRooted := by
  have normal := Location.normal_ofText path
  have root := root_of_mount mounted
  refine ⟨?_, ?_⟩
  · rw [root, Location.isRooted_text]
  · rw [root, Location.normalize_text normal, Location.text]

section HostPath
variable (wellRooted : tree.WellRooted) (path : String)
include wellRooted

theorem parse_hostPath : Path.parse (tree.hostPath path) =
    ⟨true, (Path.parse tree.root).segments ++ Location.ofText path⟩ := by
  have normal := Location.normal_ofText tree.root
  have root := wellRooted.root_eq
  have cut : Path.pieces tree.root = Location.ofText tree.root := by
    rw [root, Location.ofText_text normal, Location.pieces_text normal]
  rw [Location.parse_of_pieces wellRooted.rooted cut normal,
    Location.parse_of_pieces (isRooted_hostPath root normal path)
      (pieces_hostPath root normal path) (normal.append (Location.normal_ofText path))]

theorem normalize_hostPath : Path.normalize (tree.hostPath path) =
    ⟨true, (Path.normalize tree.root).segments ++ Location.ofText path⟩ := by
  have normal := Location.normal_ofText tree.root
  have root := wellRooted.root_eq
  rw [Location.normalize_of_rooted wellRooted.rooted,
    Location.normalize_of_pieces (isRooted_hostPath root normal path)
      (pieces_hostPath root normal path) (normal.append (Location.normal_ofText path))]

end HostPath

end DirectoryTree

/-- A path comes to one place, joined to the root as a whole or step by step: its own path is rooted
and made of names alone, and comes to the same place again. Below the root of a tree over a directory
of the host the path has the root's steps and then those of that place, as it stands and with `.` and
`..` resolved; whoever gets such a tree gets one whose root is rooted and in normal form. -/
theorem path_stays_below_root (path : String) :
    (Path.normalize (Path.join "/" path) = ⟨true, Location.ofText path⟩ ∧
      Path.normalize ((Path.pieces path).foldl Path.join "/") = ⟨true, Location.ofText path⟩) ∧
    ((Location.ofText path).Normal ∧
      Path.parse (Location.ofText path).text = ⟨true, Location.ofText path⟩) ∧
    (Path.normalize (Path.join "/" (Location.ofText path).text) = ⟨true, Location.ofText path⟩ ∧
      Path.normalize ((Path.pieces (Location.ofText path).text).foldl Path.join "/") =
        ⟨true, Location.ofText path⟩) ∧
    (∀ tree : DirectoryTree, tree.WellRooted →
      Path.parse (tree.hostPath path) =
        ⟨true, (Path.parse tree.root).segments ++ Location.ofText path⟩ ∧
      Path.normalize (tree.hostPath path) =
        ⟨true, (Path.normalize tree.root).segments ++ Location.ofText path⟩) ∧
    ∀ root before after tree,
      (DirectoryTree.mount root : StateM World _) before = (.ok tree, after) → tree.WellRooted := by
  have normal := Location.normal_ofText path
  have again := Location.ofText_text normal
  have whole := Location.normalize_join (Location.ofText path).text
  have stepwise := Location.normalize_foldl_join (Location.ofText path).text
  rw [again] at whole stepwise
  refine ⟨⟨Location.normalize_join path, Location.normalize_foldl_join path⟩, ⟨normal, ?_⟩,
    ⟨whole, stepwise⟩, ?_, ?_⟩
  · exact Location.parse_of_pieces (Location.isRooted_text _) (Location.pieces_text normal) normal
  · intro tree wellRooted
    exact ⟨tree.parse_hostPath wellRooted path, tree.normalize_hostPath wellRooted path⟩
  · intro root before after tree mounted
    exact DirectoryTree.wellRooted_of_mount mounted

theorem path_stays_below_root_climbing :
    let tree : DirectoryTree := ⟨"/srv/site"⟩
    let world : World := { disk := Disk.blank }
    Location.ofText "//../a/./../..//b/" = ["b"] ∧ tree.WellRooted ∧
      Path.parse (tree.hostPath "//../a/./../..//b/") = ⟨true, ["srv", "site", "b"]⟩ ∧
      (DirectoryTree.mount "/" : StateM World _) world = (.ok ⟨"/"⟩, world) ∧
      DirectoryTree.WellRooted ⟨"/"⟩ := by
  intro tree world
  have place : Location.ofText "//../a/./../..//b/" = ["b"] := by decide +kernel
  have wellRooted : tree.WellRooted := ⟨by decide +kernel, by decide +kernel⟩
  obtain ⟨-, -, -, onHost, got⟩ := path_stays_below_root "//../a/./../..//b/"
  have normal : Location.Normal [] := by decide
  have there : world.disk.get? [] = some .directory := by decide
  have mounted : (DirectoryTree.mount "/" : StateM World _) world = (.ok ⟨"/"⟩, world) :=
    DirectoryTree.mount_eq Disk.Plain.blank normal there (by decide)
      ⟨by decide, by decide, by decide⟩
  have steps : (Path.parse tree.root).segments ++ Location.ofText "//../a/./../..//b/" =
      ["srv", "site", "b"] := by decide +kernel
  refine ⟨place, wellRooted, ?_, mounted, got _ _ _ _ mounted⟩
  rw [(onHost tree wellRooted).1, steps]

end Scaffold
