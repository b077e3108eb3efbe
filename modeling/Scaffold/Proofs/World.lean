import Scaffold.Proofs.Outcome
import Scaffold.World

namespace Scaffold.World

variable (path : String) (world : World)

theorem kind_apply (followLinks : Bool) :
    (DiskAccess.kind followLinks path : StateM World _) world =
      (world.disk.kind world.cwd followLinks path, world) := rfl

theorem pathExists_apply : (DiskAccess.pathExists path : StateM World Bool) world =
    ((world.disk.kind world.cwd true path).toOption.isSome, world) := rfl

theorem isDir_apply : (DiskAccess.isDir path : StateM World Bool) world =
    (decide ((world.disk.kind world.cwd true path).toOption = some .directory), world) := rfl

theorem isFile_apply : (DiskAccess.isFile path : StateM World Bool) world =
    (decide ((world.disk.kind world.cwd true path).toOption = some .file), world) := rfl

theorem isLink_apply : (DiskAccess.isLink path : StateM World Bool) world =
    (decide ((world.disk.kind world.cwd false path).toOption = some .link), world) := rfl

theorem readBytes_apply : (DiskAccess.readBytes path : StateM World _) world =
    (world.disk.readBytes world.cwd path, world) := rfl

theorem listDir_apply : (DiskListing.listDir path : StateM World _) world =
    (world.disk.listDir world.cwd path, world) := rfl

variable {path world}

theorem tryExists_eq {found : NodeKind}
    (kind : (world.disk.kind world.cwd true path).toOption = some found) :
    (DiskAccess.tryExists path : StateM World _) world = (.ok true, world) := by
  rw [DiskAccess.tryExists, bind_apply, kind_apply]
  cases answer : world.disk.kind world.cwd true path with
  | error error =>
    rw [answer] at kind
    cases kind
  | ok other => rfl

variable {error : DiskError} {found : NodeKind} {disk : Disk} {content : Content}

theorem isLink_of_error (kind : world.disk.kind world.cwd false path = .error error) :
    (DiskAccess.isLink path : StateM World Bool) world = (false, world) := by
  rw [isLink_apply, kind]
  rfl

theorem pathExists_of_error (kind : world.disk.kind world.cwd true path = .error error) :
    (DiskAccess.pathExists path : StateM World Bool) world = (false, world) := by
  rw [pathExists_apply, kind]
  rfl

theorem isLink_of_ok (kind : world.disk.kind world.cwd false path = .ok found) :
    (DiskAccess.isLink path : StateM World Bool) world = (decide (found = .link), world) := by
  rw [isLink_apply, kind]
  simp [Except.toOption]

theorem pathExists_of_ok (kind : world.disk.kind world.cwd true path = .ok found) :
    (DiskAccess.pathExists path : StateM World Bool) world = (true, world) := by
  rw [pathExists_apply, kind]
  rfl

theorem isDir_of_ok (kind : world.disk.kind world.cwd true path = .ok found) :
    (DiskAccess.isDir path : StateM World Bool) world = (decide (found = .directory), world) := by
  rw [isDir_apply, kind]
  simp [Except.toOption]

theorem createDir_of_error (refused : world.disk.createDir world.cwd path = .error error) :
    (DiskAccess.createDir path : StateM World _) world = (.error error, world) := by
  simp only [DiskAccess.createDir, change, refused]

theorem createDir_of_ok (made : world.disk.createDir world.cwd path = .ok disk) :
    (DiskAccess.createDir path : StateM World _) world = (.ok (), { world with disk }) := by
  simp only [DiskAccess.createDir, change, made]

theorem writeFile_of_error (refused : world.disk.writeFile world.cwd path content = .error error) :
    (DiskAccess.writeFile path content : StateM World _) world = (.error error, world) := by
  simp only [DiskAccess.writeFile, change, refused]

theorem writeFile_of_ok (made : world.disk.writeFile world.cwd path content = .ok disk) :
    (DiskAccess.writeFile path content : StateM World _) world = (.ok (), { world with disk }) := by
  simp only [DiskAccess.writeFile, change, made]

end Scaffold.World
