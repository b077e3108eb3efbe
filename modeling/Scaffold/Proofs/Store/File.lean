import Scaffold.Proofs.Disk.Again
import Scaffold.Proofs.Store.Scripts
import Scaffold.Proofs.Text.Utf8
import Scaffold.Proofs.World

/-! Scripts in a file. `Keeps` says that a path holds certain scripts: their text, or nothing yet
where a file can be made. Loading gives these scripts (`loadFile_of_keeps`), and saving one leaves
the path with it put in (`saveFile_of_keeps`). Wherever a script could be saved, the path holds it
(`exists_keeps`). -/

namespace Scaffold

namespace Disk

variable {disk later : Disk} {cwd spot goal : Location} {path : String} {found : Found}

theorem createDir_of_ok (made : disk.createDir cwd path = .ok later) :
    ∃ spot, later = disk.put spot .directory ∧ disk.Free spot ∧
      disk.get? spot.dropLast = some .directory ∧
      later.find cwd .follow path = .ok (spot, .directory) := by
  obtain ⟨found, located, result⟩ := bind_eq_ok_iff.mp made
  cases found with
  | node place node => cases result
  | absent spot =>
    cases result
    have ends : EndsFree (.absent spot) spot := .inl rfl
    have again := locate_put located ends (.inl ⟨rfl, rfl⟩)
    have free := free_of_locate located ends
    rw [locate_of_ok located] at located
    refine ⟨spot, rfl, free, holder_of_walk located, ?_⟩
    rw [find, again]
    rfl

theorem writeFile_of_endsFree (located : disk.locate cwd .write path = .ok found)
    (ends : EndsFree found spot) (content : Content) :
    disk.writeFile cwd path content = .ok (disk.put spot (.file content)) := by
  rw [writeFile, located]
  rcases ends with rfl | ⟨old, rfl⟩ <;> rfl

end Disk

namespace World

variable {path : String} {before after world : World} {goal : Location} {error : DiskError}
  {outcome : Except DiskError Unit}

theorem isDir_eq_find : (DiskAccess.isDir path : StateM World Bool) world =
    (decide (((world.disk.find world.cwd .follow path).map (·.2.kind)).toOption =
      some .directory), world) := rfl

theorem isDir_of_find (found : world.disk.find world.cwd .follow path = .ok (goal, .directory)) :
    (DiskAccess.isDir path : StateM World Bool) world = (true, world) := by
  rw [isDir_eq_find, found]
  rfl

def IsDirectory (path : String) (world : World) : Prop :=
  ∃ goal, world.disk.find world.cwd .follow path = .ok (goal, .directory)

def tryDir (path : String) : StateM World (Except DiskError Unit) := do
  match ← DiskAccess.createDir path with
  | .ok () => return .ok ()
  | .error error => if ← DiskAccess.isDir path then return .ok () else return .error error

theorem createDirs_cases {above : List String}
    (made : (DiskAccess.createDirs (path :: above) : StateM World _) before = (outcome, after)) :
    tryDir path before = (outcome, after) ∨
      (∃ error, (DiskAccess.createDirs above : StateM World _) before = (.error error, after) ∧
        outcome = .error error) ∨
      ∃ later, (DiskAccess.createDirs above : StateM World _) before = (.ok (), later) ∧
        tryDir path later = (outcome, after) := by
  rw [DiskAccess.createDirs, bind_apply] at made
  rw [tryDir, bind_apply]
  cases result : before.disk.createDir before.cwd path with
  | ok disk =>
    rw [createDir_of_ok result] at made ⊢
    exact .inl made
  | error error =>
    rw [createDir_of_error result] at made ⊢
    cases error with
    | notFound =>
      simp only [bind_apply] at made
      rcases ran : (DiskAccess.createDirs above : StateM World _) before with ⟨answer, later⟩
      rw [ran] at made
      cases answer with
      | error error =>
        cases made
        exact .inr (.inl ⟨error, rfl, rfl⟩)
      | ok _ => exact .inr (.inr ⟨later, rfl, made⟩)
    | _ => exact .inl made

theorem isDirectory_of_tryDir (tried : tryDir path before = (.ok (), after)) :
    after.IsDirectory path := by
  rw [tryDir, bind_apply] at tried
  cases result : before.disk.createDir before.cwd path with
  | ok disk =>
    rw [createDir_of_ok result] at tried
    cases tried
    obtain ⟨spot, -, -, -, found⟩ := Disk.createDir_of_ok result
    exact ⟨spot, found⟩
  | error error =>
    rw [createDir_of_error result] at tried
    dsimp only at tried
    rw [bind_apply, isDir_eq_find] at tried
    cases found : before.disk.find before.cwd .follow path with
    | error refused =>
      rw [found] at tried
      cases tried
    | ok entry =>
      rw [found] at tried
      obtain ⟨goal, node⟩ := entry
      cases node with
      | directory =>
        cases tried
        exact ⟨goal, found⟩
      | file content => cases tried
      | link target => cases tried

theorem isTree_tryDir (tree : Location.IsTree before.disk.get? .directory)
    (tried : tryDir path before = (outcome, after)) :
    Location.IsTree after.disk.get? .directory := by
  rw [tryDir, bind_apply] at tried
  cases result : before.disk.createDir before.cwd path with
  | ok disk =>
    rw [createDir_of_ok result] at tried
    cases tried
    obtain ⟨spot, rfl, free, holder, -⟩ := Disk.createDir_of_ok result
    refine Disk.isTree_put tree holder ?_ _
    intro there
    cases free _ there
  | error error =>
    rw [createDir_of_error result] at tried
    dsimp only at tried
    rw [bind_apply, isDir_apply] at tried
    split at tried <;> cases tried <;> exact tree

theorem isDirectory_of_createDirs {above : List String}
    (made : (DiskAccess.createDirs (path :: above) : StateM World _) before = (.ok (), after)) :
    after.IsDirectory path := by
  rcases createDirs_cases made with tried | ⟨error, -, failed⟩ | ⟨later, -, tried⟩
  · exact isDirectory_of_tryDir tried
  · cases failed
  · exact isDirectory_of_tryDir tried

theorem isTree_createDirs {paths : List String} (tree : Location.IsTree before.disk.get? .directory)
    (made : (DiskAccess.createDirs paths : StateM World _) before = (outcome, after)) :
    Location.IsTree after.disk.get? .directory := by
  induction paths generalizing after outcome with
  | nil =>
    cases made
    exact tree
  | cons path above ih =>
    rcases createDirs_cases made with tried | ⟨error, ran, -⟩ | ⟨later, ran, tried⟩
    · exact isTree_tryDir tree tried
    · exact ih ran
    · exact isTree_tryDir (ih ran) tried

theorem createDirs_of_isDirectory (there : world.IsDirectory path) (above : List String) :
    (DiskAccess.createDirs (path :: above) : StateM World _) world = (.ok (), world) := by
  obtain ⟨goal, found⟩ := there
  rw [DiskAccess.createDirs, bind_apply, createDir_of_error (Disk.createDir_of_find found)]
  simp only [bind_apply, isDir_of_find found, ↓reduceIte, pure_apply]

theorem IsDirectory.put {spot : Location} (there : world.IsDirectory path)
    (free : world.disk.Free spot) (node : Node) :
    IsDirectory path { world with disk := world.disk.put spot node } := by
  obtain ⟨goal, found⟩ := there
  exact ⟨goal, Disk.find_put found free node⟩

/-- The directory that a file under the path stands in is there, if the path names one. -/
def Ready (path : String) (world : World) : Prop :=
  ∀ parent, (Path.ancestors path).tail.head? = some parent → world.IsDirectory parent

theorem ready_of_createDirs
    (made : (DiskAccess.createDirs (Path.ancestors path).tail : StateM World _) before =
      (.ok (), after)) : after.Ready path := by
  intro parent first
  obtain ⟨above, split⟩ := List.head?_eq_some_iff.mp first
  rw [split] at made
  exact isDirectory_of_createDirs made

theorem Ready.createDirs (ready : world.Ready path) :
    (DiskAccess.createDirs (Path.ancestors path).tail : StateM World _) world =
      (.ok (), world) := by
  cases split : (Path.ancestors path).tail with
  | nil => rfl
  | cons parent above => exact createDirs_of_isDirectory (ready parent (by rw [split]; rfl)) above

theorem readText_of_find {spot : Location} {text : String}
    (found : world.disk.find world.cwd .follow path = .ok (spot, .file text.toUTF8)) :
    (DiskAccess.readText path : StateM World _) world = (.ok text, world) := by
  have read : world.disk.readBytes world.cwd path = .ok text.toUTF8 := by
    rw [Disk.readBytes, found]
    rfl
  simp only [DiskAccess.readText, bind_apply, readBytes_apply, read, Text.fromUTF8?_toUTF8,
    pure_apply]

/-- Directories can be made down to where a file under the path would stand, and then one can be put
there. -/
def Writable (path : String) (world : World) : Prop :=
  ∃ made found spot, (DiskAccess.createDirs (Path.ancestors path).tail : StateM World _) world =
    (.ok (), made) ∧ made.disk.locate made.cwd .write path = .ok found ∧ Disk.EndsFree found spot

end World

namespace ScriptStore

variable {path : String} {scripts : Scripts} {world : World}

/-- Scripts that a path holds: their text, or none yet where a file can be made. -/
inductive Keeps (path : String) : Scripts → World → Prop
  | missing {world : World}
      (absent : (DiskAccess.pathExists path : StateM World Bool) world = (false, world))
      (writable : world.Writable path) : Keeps path Dict.empty world
  | written {scripts : Scripts} {world : World} (spot : Location)
      (found : world.disk.find world.cwd .follow path = .ok (spot, .file scripts.toText.toUTF8))
      (located : world.disk.locate world.cwd .write path =
        .ok (.node spot (.file scripts.toText.toUTF8)))
      (ready : world.Ready path) : Keeps path scripts world

theorem Keeps.writable (keeps : Keeps path scripts world) : world.Writable path := by
  cases keeps with
  | missing _ writable => exact writable
  | written spot _ located ready =>
    exact ⟨world, _, spot, ready.createDirs, located, .inr ⟨_, rfl⟩⟩

theorem loadFile_of_keeps (keeps : Keeps path scripts world) :
    (loadFile path : StateM World _) world = (.ok scripts, world) := by
  cases keeps with
  | missing absent writable =>
    simp only [loadFile, bind_apply, absent, Bool.not_false, ↓reduceIte, pure_apply]
  | written spot found located ready =>
    have kind : world.disk.kind world.cwd true path = .ok .file := by
      rw [Disk.kind, if_pos rfl, found]
      rfl
    simp only [loadFile, bind_apply, World.pathExists_of_ok kind, Bool.not_true, Bool.false_eq_true,
      ↓reduceIte, World.readText_of_find found, Scripts.ofText?_toText, pure_apply]

theorem keeps_of_put {spot : Location} {found : Disk.Found} (ready : world.Ready path)
    (located : world.disk.locate world.cwd .write path = .ok found)
    (ends : Disk.EndsFree found spot) (scripts : Scripts) :
    Keeps path scripts
      { world with disk := world.disk.put spot (.file scripts.toText.toUTF8) } := by
  have free := Disk.free_of_locate located ends
  refine .written spot ?_ ?_ fun parent first => (ready parent first).put free _
  · rw [Disk.find, Disk.locate_put located ends (.inr ⟨.inl rfl, rfl, rfl⟩)]
    rfl
  · exact Disk.locate_put located ends (.inr ⟨.inr rfl, rfl, rfl⟩)

theorem asks_loadFile (path : String) : Asks (loadFile path : StateM World _) := by
  refine Asks.bind (fun _ => rfl) fun there => ?_
  cases there with
  | false => exact Asks.pure _
  | true =>
    refine Asks.bind ?_ fun text => ?_
    · refine Asks.bind (fun _ => rfl) fun bytes => ?_
      cases bytes with
      | error error => exact Asks.pure _
      | ok content =>
        dsimp only
        split <;> exact Asks.pure _
    · cases text with
      | error error => exact Asks.pure _
      | ok text =>
        dsimp only
        split <;> exact Asks.pure _

theorem saveFile_of_keeps (keeps : Keeps path scripts world) (name script : String) :
    ∃ after, (saveFile path name script : StateM World _) world = (.ok (), after) ∧
      Keeps path (scripts.insert name script) after := by
  obtain ⟨made, found, spot, dirs, located, ends⟩ := keeps.writable
  have written := World.writeFile_of_ok (Disk.writeFile_of_endsFree located ends
    (Scripts.toText (scripts.insert name script)).toUTF8)
  refine ⟨_, ?_, keeps_of_put (World.ready_of_createDirs dirs) located ends _⟩
  simp only [saveFile, bind_apply, loadFile_of_keeps keeps, dirs, written, pure_apply]

theorem exists_keeps {name script : String} {after : World}
    (tree : Location.IsTree world.disk.get? .directory)
    (saved : (saveFile path name script : StateM World _) world = (.ok (), after)) :
    ∃ scripts : Scripts, Keeps path (scripts.insert name script) after := by
  rw [saveFile, bind_apply, asks_loadFile path world] at saved
  cases loaded : ((loadFile path : StateM World _) world).1 with
  | error error =>
    rw [loaded] at saved
    cases saved
  | ok scripts =>
    rw [loaded] at saved
    simp only [bind_apply] at saved
    rcases dirs : (DiskAccess.createDirs (Path.ancestors path).tail : StateM World _) world with
      ⟨outcome, made⟩
    rw [dirs] at saved
    cases outcome with
    | error error => cases saved
    | ok _ =>
      cases result : made.disk.writeFile made.cwd path
          (Scripts.toText (scripts.insert name script)).toUTF8 with
      | error error =>
        simp only [bind_apply, World.writeFile_of_error result] at saved
        cases saved
      | ok disk =>
        simp only [bind_apply, World.writeFile_of_ok result] at saved
        cases saved
        obtain ⟨found, spot, located, ends, rfl⟩ :=
          Disk.writeFile_eq_ok (World.isTree_createDirs tree dirs) result
        exact ⟨scripts, keeps_of_put (World.ready_of_createDirs dirs) located ends _⟩

end ScriptStore
end Scaffold
