import Scaffold.Proofs.Storage.Mirror
import Scaffold.Proofs.Storage.Trial

namespace Scaffold

namespace DirectoryTree

theorem mount_yields (path : String) :
    Yields (fun outcome => ∀ tree, outcome = .ok tree →
      Path.isRooted path = true ∧ tree.root = (Path.normalize path).text)
      (mount path : StateM World _) := by
  unfold mount
  split
  next => exact .pure (by simp)
  next =>
    cases rooted : Path.isRooted path with
    | false => exact .pure (by simp)
    | true =>
      refine .bind fun found => .bind fun isDir => ?_
      split
      next => exact .pure (by simp)
      next =>
        refine .bind fun there => ?_
        cases there with
        | error error => exact .pure (by simp)
        | ok there =>
          dsimp only
          split
          all_goals
            refine .bind fun made => ?_
            cases made with
            | error fault => exact .pure (by simp)
            | ok _ =>
              refine .bind fun writable => ?_
              cases writable <;> exact .pure (by simp)

theorem root_of_mount {path : String} {before world : World} {tree : DirectoryTree}
    (mounted : (mount path : StateM World _) before = (.ok tree, world)) :
    tree.root = (Location.ofText path).text := by
  obtain ⟨rooted, root⟩ := mount_yields path before tree (congrArg Prod.fst mounted)
  rw [root, Location.normalize_of_rooted rooted, Location.text]

variable {base : Location} {world : World}

theorem mount_eq (plain : world.disk.Plain) (normal : base.Normal)
    (there : world.disk.get? base = some .directory)
    (free : world.disk.get? (base ++ [".access"]) = none)
    (accepted : Disk.Accepts (base ++ [".access"] : Location).text) :
    (mount base.text : StateM World _) world = (.ok ⟨base.text⟩, world) := by
  have whole : (base ++ [".access"] : Location).Normal :=
    normal.append (Location.normal_singleton (by decide))
  have named : trialPath base.text = (base ++ [".access"] : Location).text :=
    Location.join_name whole
  have names := Disk.names_text normal (accepted.of_within whole (List.prefix_append _ _))
  have located : world.disk.locate world.cwd .follow base.text = .ok (.node base .directory) :=
    Disk.locate_of_some plain names (Disk.fits_text plain normal) (by simp) there
  have found : world.disk.find world.cwd .follow base.text = .ok (base, .directory) := by
    rw [Disk.find, located]
    rfl
  have again : (Path.normalize base.text).text = base.text := by
    rw [Location.normalize_text normal, Location.text]
  have vacant : world.disk.Free (trialPlace base) := by simp [Disk.Free, trialPlace, free]
  rw [← named] at accepted
  rw [mount_of_free plain.toIsTree names.rooted again found accepted vacant, withoutTrial_put free]

end DirectoryTree
end Scaffold
