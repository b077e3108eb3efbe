import Scaffold.CommandLine
import Scaffold.Proofs.Outcome
import Scaffold.Proofs.Placeholder.Substitution

/-! What a command only asks of its host. A part of the host's state that nothing but a request for
a change of the disk may alter (`ShowsChanges`) is as it was after the settings and the saved scripts
have been read, a name has been picked and the placeholders have been filled in. Such a part is the
disk of a world (`World.showsChanges_disk`); another is a record of all requests for a change
(`Watched.showsChanges_touched`), which tells a change that was taken back from none. -/

namespace Scaffold

/-- Only a request for a change of the disk may alter what `view` shows of a host's state. -/
structure ShowsChanges {σ δ : Type} [DiskAccess (StateM σ)] [Terminal (StateM σ)] (view : σ → δ) :
    Prop where
  kind : ∀ followLinks path, Spares view (DiskAccess.kind followLinks path : StateM σ _)
  readBytes : ∀ path, Spares view (DiskAccess.readBytes path : StateM σ _)
  readLine : Spares view (Terminal.readLine : StateM σ _)
  print : ∀ text, Spares view (Terminal.print text : StateM σ _)
  printError : ∀ text, Spares view (Terminal.printError text : StateM σ _)

/-- A world with a record of the paths at which a change of its disk was asked for, whether it was
granted or refused. -/
structure Watched where
  world : World
  touched : List String := []

namespace Watched

def passOn {α : Type} (question : StateM World α) : StateM Watched α := fun watched =>
  let (answer, world) := question watched.world
  (answer, { watched with world })

def record {α : Type} (path : String) (change : StateM World α) : StateM Watched α := fun watched =>
  let (answer, world) := change watched.world
  (answer, ⟨world, watched.touched ++ [path]⟩)

instance : DiskAccess (StateM Watched) where
  kind followLinks path := passOn (DiskAccess.kind followLinks path)
  readBytes path := passOn (DiskAccess.readBytes path)
  writeFile path content := record path (DiskAccess.writeFile path content)
  createDir path := record path (DiskAccess.createDir path)
  removeFile path := record path (DiskAccess.removeFile path)

instance : Terminal (StateM Watched) where
  readLine := passOn Terminal.readLine
  print text := passOn (Terminal.print text)
  printError text := passOn (Terminal.printError text)

theorem showsChanges_touched : ShowsChanges Watched.touched where
  kind _ _ _ := rfl
  readBytes _ _ := rfl
  readLine _ := rfl
  print _ _ := rfl
  printError _ _ := rfl

end Watched

theorem World.showsChanges_disk : ShowsChanges World.disk where
  kind _ _ _ := rfl
  readBytes _ _ := rfl
  readLine world := by
    simp only [Terminal.readLine]
    split
    next => rfl
    next => rfl
  print _ _ := rfl
  printError _ _ := rfl

namespace ShowsChanges

variable {σ δ : Type} [DiskAccess (StateM σ)] [Terminal (StateM σ)] {view : σ → δ}
  (shows : ShowsChanges view)
include shows

section Disk

theorem pathExists (path : String) : Spares view (DiskAccess.pathExists path : StateM σ _) :=
  (shows.kind _ _).bind fun _ => .pure _

theorem isFile (path : String) : Spares view (DiskAccess.isFile path : StateM σ _) :=
  (shows.kind _ _).bind fun _ => .pure _

theorem readText (path : String) : Spares view (DiskAccess.readText path : StateM σ _) := by
  refine (shows.readBytes path).andThen (fun _ => .pure _) fun content => ?_
  dsimp only
  split
  next => exact .pure _
  next => exact .pure _

theorem load (path : String) : Spares view (Config.load path : StateM σ _) :=
  (shows.readText path).andThen (fun _ => .pure _) fun _ => .pure _

theorem discover (named : Option String) (root : String) :
    Spares view (Config.discover named root : StateM σ _) := by
  cases named with
  | some path => exact shows.load path
  | none =>
    refine (shows.isFile _).bind fun there => ?_
    cases there with
    | true => exact shows.load _
    | false => exact .pure _

theorem loadFile (path : String) : Spares view (ScriptStore.loadFile path : StateM σ _) := by
  refine (shows.pathExists path).bind fun there => ?_
  cases there with
  | false => exact .pure _
  | true =>
    refine (shows.readText path).andThen (fun _ => .pure _) fun text => ?_
    dsimp only
    split
    next => exact .pure _
    next => exact .pure _

theorem names (path : String) : Spares view ((ScriptStore.file path).names : StateM σ _) :=
  (shows.loadFile path).bind fun _ => .pure _

theorem resolve (path : String) (invocation : Invocation) :
    Spares view ((ScriptStore.file path).resolve invocation : StateM σ _) := by
  cases invocation with
  | inline script => exact .pure _
  | saved name =>
    have found : Spares view ((ScriptStore.file path).get? name : StateM σ _) :=
      (shows.loadFile path).bind fun _ => .pure _
    refine found.andThen (fun _ => .pure _) fun script => ?_
    cases script with
    | none => exact .pure _
    | some script => exact .pure _

end Disk

section Terminal
open CommandLine

theorem printLine (text : String) : Spares view (printLine text : StateM σ _) :=
  shows.print _

theorem printLines (lines : List String) : Spares view (printLines lines : StateM σ _) := by
  induction lines with
  | nil => exact .pure _
  | cons line lines ih => exact (shows.printLine line).bind fun _ => ih

theorem askUser (question : String) : Spares view (askUser question : StateM σ _) :=
  (shows.printError question).bind fun _ => shows.readLine.bind fun _ => .pure _

theorem askValue (name : String) : Spares view (askValue name : StateM σ _) :=
  shows.askUser _

theorem showNumbered (number : Nat) (names : List String) :
    Spares view (showNumbered number names : StateM σ _) := by
  induction names generalizing number with
  | nil => exact .pure _
  | cons name names ih => exact (shows.printError _).bind fun _ => ih _

theorem askName (names : List String) : Spares view (askName names : StateM σ _) :=
  (shows.showNumbered 1 names).bind fun _ => (shows.askUser _).bind fun _ => .pure _

end Terminal

theorem resolveNames (workspace : Option String) (names : List String) :
    Spares view (resolveNames CommandLine.askValue workspace names : StateM σ _) := by
  induction names with
  | nil => exact .pure _
  | cons name names ih =>
    intro s
    by_cases known : name = workspaceName ∧ workspace.isSome
    · obtain ⟨value, rfl⟩ := Option.isSome_iff_exists.mp known.2
      rw [resolveNames_known known.1]
      exact ih s
    · have asked := shows.askValue name s
      rw [resolveNames_asked known]
      rcases answer : (CommandLine.askValue name : StateM σ _) s with ⟨value?, after⟩
      rw [answer] at asked
      cases value? with
      | none => exact asked
      | some value => exact (ih after).trans asked

theorem prepare (workspace : Option String) (script : String) :
    Spares view (Scaffold.prepare CommandLine.askValue workspace script : StateM σ _) := by
  have filled : Spares view (substitute CommandLine.askValue workspace script : StateM σ _) := by
    refine (shows.resolveNames workspace _).bind fun values => ?_
    cases values with
    | none => exact .pure _
    | some values => exact .pure _
  exact filled.andThen (fun _ => .pure _) fun _ => .pure _

end ShowsChanges

end Scaffold
