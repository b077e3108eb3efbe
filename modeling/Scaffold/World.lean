import Scaffold.Disk.Access

namespace Scaffold

class Terminal (m : Type → Type) where
  /-- The next line with its line end; nothing when the input is over or is not UTF-8. -/
  readLine : m (Option String)
  print : String → m Unit
  printError : String → m Unit

structure World where
  disk : Disk
  cwd : Location := []
  input : List UInt8 := []
  output : String := ""
  errors : String := ""
  deriving DecidableEq

namespace World

/-- A change of the disk that takes place only if it succeeds. -/
def change (f : Disk → Except DiskError Disk) : StateM World (Except DiskError Unit) := fun world =>
  match f world.disk with
  | .ok disk => (.ok (), { world with disk })
  | .error error => (.error error, world)

instance : DiskListing (StateM World) where
  kind followLinks path := fun world => (world.disk.kind world.cwd followLinks path, world)
  readBytes path := fun world => (world.disk.readBytes world.cwd path, world)
  listDir path := fun world => (world.disk.listDir world.cwd path, world)
  writeFile path content := fun world =>
    change (fun disk => disk.writeFile world.cwd path content) world
  createDir path := fun world => change (fun disk => disk.createDir world.cwd path) world
  removeFile path := fun world => change (fun disk => disk.removeFile world.cwd path) world

def cutLine (input : List UInt8) : List UInt8 × List UInt8 :=
  let line := input.takeWhile (· ≠ 10)
  match input.dropWhile (· ≠ 10) with
  | feed :: rest => (line ++ [feed], rest)
  | [] => (line, [])

instance : Terminal (StateM World) where
  readLine := fun world =>
    match world.input with
    | [] => (none, world)
    | input =>
      let (line, rest) := cutLine input
      (String.fromUTF8? line.toByteArray, { world with input := rest })
  print text := fun world => ((), { world with output := world.output ++ text })
  printError text := fun world => ((), { world with errors := world.errors ++ text })

end World
end Scaffold
