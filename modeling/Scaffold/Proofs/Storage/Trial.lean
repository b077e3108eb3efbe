import Scaffold.Proofs.Disk.Again
import Scaffold.Proofs.Disk.Reach
import Scaffold.Proofs.World
import Scaffold.Storage.Directory

/-! The trial by which a directory is found to be writable: a file is written into it and removed
again, under a name that may be taken. `mount_apply` says what comes of getting a tree over a
directory that is there, on a host with links, and `mount_spares_iff` when the host is left as it
was: only where nothing bears that name, or nothing can be written under it. -/

namespace Scaffold

namespace Disk

variable {disk later : Disk} {cwd base place spot : Location} {links left : Nat}
  {names : List String} {slash : Bool} {path name : String} {node : Node} {found : Found}
  {content : Content}

theorem walk_last (holder : disk.get? place = some .directory) (passable : Passable name)
    (there : disk.get? (place ++ [name]) = some node) :
    walk disk .make links place [name] false = .ok (.node (place ++ [name]) node) := by
  rw [walk_name holder passable (by simp), there]
  cases node with
  | link target => simp
  | directory | file => exact walk_nil there

theorem removeFile_of_located (located : disk.locate cwd .make path = .ok (.node place node))
    (removable : node ≠ .directory) (unslashed : endsInSlash path = false) :
    disk.removeFile cwd path = .ok ⟨disk.nodes.erase place⟩ := by
  have found : disk.find cwd .make path = .ok (place, node) := by
    rw [find, located]
    rfl
  rw [removeFile, found]
  cases node with
  | directory => exact absurd rfl removable
  | file | link => simp [bind, Except.bind, unslashed]; rfl

theorem Resolves.accepts (resolves : Resolves disk cwd path place) {ending : Ending}
    (located : disk.locate cwd ending path = .ok found) : Accepts path := by
  cases resolves with
  | refused _ _ all => cases (all ending).symm.trans located
  | absent fit | found fit => exact fit

theorem Resolves.written (resolves : Resolves disk cwd path place)
    (located : disk.locate cwd .write path = .ok found) (ends : EndsFree found spot) :
    spot = place ∨ ∃ target, disk.get? place = some (.link target) := by
  cases resolves with
  | refused error _ all =>
    rw [all] at located
    cases located
  | absent _ _ all =>
    rw [all] at located
    cases located
    rcases ends with same | ⟨content, same⟩
    · cases same
      exact .inl rfl
    · cases same
  | found _ node there kept =>
    cases node with
    | link target => exact .inr ⟨target, there⟩
    | directory =>
      rw [kept .write (by simp [Node.kind])] at located
      cases located
      rcases ends with same | ⟨content, same⟩ <;> cases same
    | file =>
      rw [kept .write (by simp [Node.kind])] at located
      cases located
      rcases ends with same | ⟨content, same⟩
      · cases same
      · cases same
        exact .inl rfl

end Disk

namespace DirectoryTree

variable {world : World} {base : Location} {root : String}

def trialPath (root : String) : String := Path.join root ".access"

def trialPlace (base : Location) : Location := base ++ [".access"]

/-- What is left of a disk on which the trial has written. -/
def withoutTrial (disk : Disk) (base : Location) : Disk := ⟨disk.nodes.erase (trialPlace base)⟩

theorem get?_withoutTrial (disk : Disk) (base query : Location) :
    (withoutTrial disk base).get? query =
      if query = trialPlace base then none else disk.get? query :=
  Dict.get?_erase disk.nodes (trialPlace base) query

theorem withoutTrial_put {disk : Disk} (missing : disk.get? (trialPlace base) = none)
    (node : Node) : withoutTrial (disk.put (trialPlace base) node) base = disk :=
  Disk.erase_put missing node

theorem continues_trialPath (filled : root ≠ "") :
    Path.Continues root [".access"] (trialPath root) :=
  (Path.Continues.refl filled).snoc (by decide)

theorem resolves_trial (reached : Disk.Reached world.disk world.cwd root base) :
    Disk.Resolves world.disk world.cwd (trialPath root) (trialPlace base) := by
  have holder : world.disk.get? (base ++ []) = some .directory := by
    rw [List.append_nil]
    exact reached.directory
  have resolves : Disk.Resolves world.disk world.cwd (trialPath root) (base ++ [] ++ [".access"]) :=
    reached.resolves (continues_trialPath reached.filled) (Location.normal_singleton (by decide))
      holder
  rwa [List.append_nil] at resolves

theorem locate_trial {disk : Disk} {cwd : Location} {left : Nat} (filled : root ≠ "")
    (fit : Disk.Accepts (trialPath root))
    (leads : Disk.Leads disk Disk.linkLimit (if Path.isRooted root then [] else cwd)
      (Path.pieces root) left base) (ending : Disk.Ending) :
    disk.locate cwd ending (trialPath root) =
      Disk.walk disk ending left base [".access"] false := by
  have continues := continues_trialPath filled
  obtain ⟨error, unfit, -⟩ | ⟨-, -, walked⟩ := Disk.locate_cases disk cwd continues.filled
  · exact absurd fit unfit
  · rw [walked, continues.rooted, continues.unslashed (by simp), Disk.steps, continues.pieces]
    exact leads.walk_append (by simp)

section Trial

variable {found : Disk.Found} {spot : Location} {content : Content}

theorem exists_trial {later : Disk} (reached : Disk.Reached world.disk world.cwd root base)
    (written : world.disk.writeFile world.cwd (trialPath root) content = .ok later) :
    ∃ found spot, world.disk.locate world.cwd .write (trialPath root) = .ok found ∧
      Disk.EndsFree found spot ∧
      (spot = trialPlace base ∨
        ∃ target, world.disk.get? (trialPlace base) = some (.link target)) ∧
      later = world.disk.put spot (.file content) := by
  obtain ⟨found, spot, located, ends, same⟩ := Disk.writeFile_eq_ok reached.tree written
  exact ⟨found, spot, located, ends, (resolves_trial reached).written located ends, same⟩

-- The link under that name is removed itself, and not what was written through it.
theorem removeFile_trial (reached : Disk.Reached world.disk world.cwd root base)
    (located : world.disk.locate world.cwd .write (trialPath root) = .ok found)
    (ends : Disk.EndsFree found spot) :
    (world.disk.put spot (.file content)).removeFile world.cwd (trialPath root) =
      .ok (withoutTrial (world.disk.put spot (.file content)) base) := by
  have free := Disk.free_of_locate located ends
  have resolves := resolves_trial reached
  obtain ⟨node, there, removable⟩ : ∃ node, (world.disk.put spot (.file content)).get?
      (trialPlace base) = some node ∧ node ≠ .directory := by
    by_cases here : trialPlace base = spot
    · exact ⟨.file content, by simp [here], by simp⟩
    · obtain ⟨target, linked⟩ := (resolves.written located ends).resolve_left (Ne.symm here)
      exact ⟨.link target, free.put_link linked _, by simp⟩
  obtain ⟨left, leads⟩ := reached.leads
  have onward := leads.of_kept (fun _ there => free.put_directory there (.file content))
    fun _ _ there => free.put_link there (.file content)
  have again : (world.disk.put spot (.file content)).locate world.cwd .make (trialPath root) =
      .ok (.node (trialPlace base) node) := by
    rw [locate_trial reached.filled (resolves.accepts located) onward]
    exact Disk.walk_last onward.goal_directory ⟨by decide, by decide, by decide⟩ there
  exact Disk.removeFile_of_located again removable
    ((continues_trialPath reached.filled).unslashed (by simp))

theorem isWritable_apply (reached : Disk.Reached world.disk world.cwd root base) :
    (isWritable root : StateM World Bool) world =
      match world.disk.writeFile world.cwd (trialPath root) "check".toUTF8 with
      | .error _ => (false, world)
      | .ok written => (true, { world with disk := withoutTrial written base }) := by
  have named : Path.join root ".access" = trialPath root := rfl
  simp only [isWritable, named, bind_apply]
  cases written : world.disk.writeFile world.cwd (trialPath root) "check".toUTF8 with
  | error error =>
    rw [World.writeFile_of_error written]
    rfl
  | ok later =>
    obtain ⟨found, spot, located, ends, -, same⟩ := exists_trial reached written
    subst same
    simp only [World.writeFile_of_ok written, bind_apply, pure_apply, DiskAccess.removeFile,
      World.change, removeFile_trial reached located ends]
    rfl

theorem mount_apply (host : Location.IsTree world.disk.get? .directory)
    (rooted : Path.isRooted root = true) (normal : (Path.normalize root).text = root)
    (there : world.disk.find world.cwd .follow root = .ok (base, .directory)) :
    (mount root : StateM World _) world =
      match world.disk.writeFile world.cwd (trialPath root) "check".toUTF8 with
      | .error _ => (.error (.rootNotWritable root), world)
      | .ok written => (.ok ⟨root⟩, { world with disk := withoutTrial written base }) := by
  obtain ⟨-, reached⟩ := Disk.Reached.of_find host there
  have kind : world.disk.kind world.cwd true root = .ok .directory :=
    Disk.kind_of_found true (Disk.locate_of_find there)
  have known : (world.disk.kind world.cwd true root).toOption = some .directory := by
    rw [kind]
    rfl
  rw [mount, if_neg reached.filled]
  simp only [rooted, Bool.not_true, Bool.false_eq_true, ↓reduceIte, bind_apply,
    World.pathExists_of_ok kind, World.isDir_of_ok kind, decide_true, Bool.and_false, normal,
    World.tryExists_eq known, pure_apply, isWritable_apply reached]
  cases world.disk.writeFile world.cwd (trialPath root) "check".toUTF8 with
  | error error => rfl
  | ok written => rfl

theorem mount_of_free (host : Location.IsTree world.disk.get? .directory)
    (rooted : Path.isRooted root = true) (normal : (Path.normalize root).text = root)
    (there : world.disk.find world.cwd .follow root = .ok (base, .directory))
    (fit : Disk.Accepts (trialPath root)) (free : world.disk.Free (trialPlace base)) :
    let disk := world.disk.put (trialPlace base) (.file "check".toUTF8)
    (mount root : StateM World _) world =
      (.ok ⟨root⟩, { world with disk := withoutTrial disk base }) := by
  obtain ⟨-, reached⟩ := Disk.Reached.of_find host there
  rw [mount_apply host rooted normal there, (resolves_trial reached).writeFile_of_free fit free]

/-- On a host with links, let `root` lead to the directory `base`. Getting a tree over it leaves the
host as it was just when nothing stands under the name of the trial file or none can be written
there. Else what stood there, a file or a link, is gone, and where a link leads the trial file is
left. A refusal always leaves the host as it was, since `World` has no permissions: a trial file
that was written and cannot be removed again does not occur on it. -/
theorem mount_spares_iff (host : Location.IsTree world.disk.get? .directory)
    (rooted : Path.isRooted root = true) (normal : (Path.normalize root).text = root)
    (there : world.disk.find world.cwd .follow root = .ok (base, .directory)) :
    let ran := (mount root : StateM World _) world
    let trial := trialPlace base
    (ran.2 = world ↔ world.disk.get? trial = none ∨
      ∃ error, world.disk.writeFile world.cwd (trialPath root) "check".toUTF8 = .error error) ∧
    (∀ fault, ran.1 = .error fault → ran.2 = world) ∧
    ran.2 = { world with disk := ran.2.disk } ∧
    ∀ tree, ran.1 = .ok tree → ∃ found spot,
      world.disk.locate world.cwd .write (trialPath root) = .ok found ∧
      Disk.EndsFree found spot ∧
      (spot = trial ∨ ∃ target, world.disk.get? trial = some (.link target)) ∧
      ∀ place, ran.2.disk.get? place =
        if place = trial then none
        else if place = spot then some (.file "check".toUTF8)
        else world.disk.get? place := by
  intro ran trial
  obtain ⟨-, reached⟩ := Disk.Reached.of_find host there
  have outcome : ran = _ := mount_apply host rooted normal there
  cases written : world.disk.writeFile world.cwd (trialPath root) "check".toUTF8 with
  | error error =>
    simp only [written] at outcome
    simp [outcome]
  | ok later =>
    simp only [written] at outcome
    obtain ⟨found, spot, located, ends, either, same⟩ := exists_trial reached written
    have looks : ∀ place, ran.2.disk.get? place = if place = trial then none
        else if place = spot then some (.file "check".toUTF8) else world.disk.get? place := by
      intro place
      rw [outcome, same]
      exact (get?_withoutTrial _ _ _).trans (by rw [Disk.get?_put])
    refine ⟨⟨?_, ?_⟩, ?_, ?_, ?_⟩
    · intro spared
      have gone := looks trial
      rw [if_pos rfl, spared] at gone
      exact .inl gone
    · intro harmless
      rcases harmless with missing | ⟨error, refused⟩
      · have unlinked : ¬ ∃ target, world.disk.get? trial = some (.link target) := by
          simp [missing]
        have here : spot = trialPlace base := either.resolve_right unlinked
        rw [outcome, same, here, withoutTrial_put missing]
      · cases refused
    · intro fault failed
      rw [outcome] at failed
      cases failed
    · rw [outcome]
    · intro tree _
      exact ⟨found, spot, located, ends, either, looks⟩

/-- Where a link of that name leads out of the tree, what it leads to is lost as well. -/
theorem mount_spares_iff_past_link :
    let disk := ((Disk.blank.put ["srv"] .directory).put ["srv", ".access"] (.link "/note")).put
      ["note"] (.file "kept".toUTF8)
    let world : World := { disk }
    let after := ((mount "/srv" : StateM World _) world).2
    Location.IsTree world.disk.get? .directory ∧
      world.disk.find world.cwd .follow "/srv" = .ok (["srv"], .directory) ∧
      after.disk.get? ["srv", ".access"] = none ∧
      after.disk.get? ["note"] = some (.file "check".toUTF8) := by
  intro disk world after
  have host : Location.IsTree disk.get? .directory := by
    refine Disk.isTree_put (Disk.isTree_put (Disk.isTree_put Disk.Plain.blank.toIsTree ?_ ?_ _)
      ?_ ?_ _) ?_ ?_ _
    all_goals simp [Disk.get?_blank]
  have top : disk.get? [] = some .directory := host.root
  have leads : Disk.Leads disk Disk.linkLimit [] (Path.pieces "/srv") 40 ["srv"] := by
    have split : Path.pieces "/srv" = ["srv"] := by decide +kernel
    rw [split]
    exact .enter top ⟨by decide, by decide, by decide⟩ (.here (by simp [disk]))
  have reached : Disk.Reached disk [] "/srv" ["srv"] := ⟨host, by decide, 40, leads⟩
  have there : world.disk.find world.cwd .follow "/srv" = .ok (["srv"], .directory) :=
    reached.find (by decide +kernel)
  have fit : Disk.Accepts (trialPath "/srv") := by decide +kernel
  have trial : disk.get? (["srv"] ++ [".access"]) = some (.link "/note") := by simp [disk]
  have note : disk.get? ([] ++ ["note"]) = some (.file "kept".toUTF8) := by simp [disk]
  have onward : Path.isRooted "/note" = true ∧ Disk.steps "/note" = ["note"] ∧
      Disk.endsInSlash "/note" = false := by decide +kernel
  have located : world.disk.locate world.cwd .write (trialPath "/srv") =
      .ok (.node ["note"] (.file "kept".toUTF8)) := by
    rw [locate_trial (by decide) fit leads, Disk.walk_name reached.directory
      ⟨by decide, by decide, by decide⟩ (by simp), trial]
    simp only [reduceCtorEq, false_and, or_self, and_false, ↓reduceIte, onward, List.append_nil,
      Bool.and_false, Bool.or_false]
    rw [Disk.walk_name top ⟨by decide, by decide, by decide⟩ (by simp), note]
    exact Disk.walk_nil note
  have written : world.disk.writeFile world.cwd (trialPath "/srv") "check".toUTF8 =
      .ok (world.disk.put ["note"] (.file "check".toUTF8)) := by
    rw [Disk.writeFile, located]
    rfl
  obtain ⟨spared, refused, -, opened⟩ :=
    mount_spares_iff host (by decide +kernel) (by decide +kernel) there
  refine ⟨host, there, ?_⟩
  cases outcome : ((mount "/srv" : StateM World _) world).1 with
  | error fault =>
    rcases spared.mp (refused fault outcome) with missing | ⟨error, failed⟩
    · cases trial.symm.trans missing
    · cases written.symm.trans failed
  | ok tree =>
    obtain ⟨found, spot, same, ends, -, looks⟩ := opened tree outcome
    cases located.symm.trans same
    obtain here | ⟨content, here⟩ := ends
    · cases here
    · cases here
      exact ⟨looks _, looks _⟩

theorem mount_loses_file :
    let disk := (Disk.blank.put ["srv"] .directory).put ["srv", ".access"] (.file "mine".toUTF8)
    let world : World := { disk }
    let ran := (mount "/srv" : StateM World _) world
    Location.IsTree world.disk.get? .directory ∧
      Path.isRooted "/srv" = true ∧ (Path.normalize "/srv").text = "/srv" ∧
      world.disk.find world.cwd .follow "/srv" = .ok (["srv"], .directory) ∧
      ran.1 = .ok ⟨"/srv"⟩ ∧
      world.disk.get? ["srv", ".access"] = some (.file "mine".toUTF8) ∧
      ran.2.disk.get? ["srv", ".access"] = none := by
  intro disk world ran
  have host : Location.IsTree disk.get? .directory := by
    refine Disk.isTree_put (Disk.isTree_put Disk.Plain.blank.toIsTree ?_ ?_ _) ?_ ?_ _
    all_goals simp [Disk.get?_blank]
  have leads : Disk.Leads disk Disk.linkLimit [] (Path.pieces "/srv") 40 ["srv"] := by
    have split : Path.pieces "/srv" = ["srv"] := by decide +kernel
    rw [split]
    exact .enter host.root ⟨by decide, by decide, by decide⟩ (.here (by simp [disk]))
  have reached : Disk.Reached disk [] "/srv" ["srv"] := ⟨host, by decide, 40, leads⟩
  have there : world.disk.find world.cwd .follow "/srv" = .ok (["srv"], .directory) :=
    reached.find (by decide +kernel)
  have normal : (Path.normalize "/srv").text = "/srv" := by decide +kernel
  have taken : world.disk.get? (trialPlace ["srv"]) = some (.file "mine".toUTF8) := by
    simp [world, disk, trialPlace]
  have free : world.disk.Free (trialPlace ["srv"]) := by
    intro node same
    cases taken.symm.trans same
    rfl
  have outcome : ran = _ :=
    mount_of_free host (by decide +kernel) normal there (by decide +kernel) free
  refine ⟨host, by decide +kernel, normal, there, ?_, taken, ?_⟩
  · rw [outcome]
  · rw [outcome]
    exact (get?_withoutTrial _ _ _).trans (if_pos rfl)

end Trial

end DirectoryTree
end Scaffold
