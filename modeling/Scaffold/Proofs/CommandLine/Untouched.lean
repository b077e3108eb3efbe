import Mathlib.Data.List.Basic
import Scaffold.Proofs.CommandLine.Questions
import Scaffold.Proofs.Disk.Plain
import Scaffold.Proofs.Script
import Scaffold.Proofs.World

namespace Scaffold.CommandLine

/-- How a run ends that has come to its tree. -/
def AtTree : Except Failure Unit → Prop
  | .ok () | .error (.tree _) => True
  | .error (.script error) => ∃ index operation cause, error = .apply index operation cause

def Command.fills : Command → Bool
  | .create .. | .template .. => true
  | _ => false

def Command.tells : Command → Bool
  | .list | .compile .. => true
  | _ => false

section
variable {σ δ : Type} [DiskAccess (StateM σ)] [Terminal (StateM σ)] {view : σ → δ}

theorem execute_spares (shows : ShowsChanges view) (root : Path) (config : Config)
    (script : String) : SparesUnless AtTree view (execute root config script : StateM σ _) := by
  refine .andThen (shows.prepare _ script) (fun _ => .pure _) fun operations => .of_yields ?_
  refine .bind fun mounted => ?_
  cases mounted with
  | error fault => exact .pure trivial
  | ok tree =>
    refine (apply_yields tree.storage config.templateTexts operations).andThen
      fun outcome stops => ?_
    cases outcome with
    | error error => exact .pure (stops error rfl)
    | ok report => exact .bind fun _ => .pure trivial

variable (shows : ShowsChanges view) (setting : Setting) (request : Request)
include shows

theorem withConfig_spares (root : String) {next : Config → StateM σ (Except Failure Unit)}
    (goes : ∀ config, Spares view (next config)) : Spares view (withConfig request root next) :=
  (shows.discover _ root).andThen (fun _ => .pure _) goes

theorem withConfig_sparesUnless (root : String) {next : Config → StateM σ (Except Failure Unit)}
    (goes : ∀ config, SparesUnless AtTree view (next config)) :
    SparesUnless AtTree view (withConfig request root next) :=
  .andThen (shows.discover _ root) (fun _ => .pure _) goes

theorem create_sparesUnless (input : String) (root : Option String) :
    SparesUnless AtTree view (create setting request input root : StateM σ _) := by
  refine withConfig_sparesUnless shows request _ fun config => ?_
  cases Invocation.parse input with
  | none => exact .of_spares (.pure _)
  | some invocation =>
    exact .andThen (shows.resolve _ invocation) (fun _ => .pure _) fun script =>
      execute_spares shows _ config script

theorem create_spares_of_blank {input : String} (blank : Invocation.parse input = none)
    (root : Option String) : Spares view (create setting request input root : StateM σ _) := by
  refine withConfig_spares shows request _ fun config => ?_
  rw [blank]
  exact .pure _

theorem template_sparesUnless (name root : Option String) :
    SparesUnless AtTree view (template setting request name root : StateM σ _) := by
  refine withConfig_sparesUnless shows request _ fun config => ?_
  refine .andThen (shows.names _) (fun _ => .pure _) fun names => ?_
  cases names with
  | nil => exact .of_spares ((shows.printLine _).bind fun _ => .pure _)
  | cons first names =>
    have goes := execute_spares shows (rootOf setting.cwd root) config
    cases name with
    | none =>
      refine .bind (shows.askName _) fun chosen => ?_
      cases chosen with
      | none => exact .of_spares (.pure _)
      | some name => exact .andThen (shows.resolve _ _) (fun _ => .pure _) goes
    | some name =>
      dsimp only
      rw [pure_bind]
      exact .andThen (shows.resolve _ _) (fun _ => .pure _) goes

theorem list_spares : Spares view (list setting request : StateM σ _) := by
  refine withConfig_spares shows request _ fun config => ?_
  refine (shows.names _).andThen (fun _ => .pure _) fun names => ?_
  cases names with
  | nil => exact (shows.printLine _).bind fun _ => .pure _
  | cons first names => exact (shows.printLines _).bind fun _ => .pure _

theorem showCompiled_spares (script : String) (json : Bool) :
    Spares view (showCompiled script json : StateM σ _) := by
  unfold showCompiled
  cases compile script with
  | error error => exact .pure _
  | ok operations => exact (shows.printLines _).bind fun _ => .pure _

theorem carryOut_spares (tells : request.command.tells) :
    Spares view (carryOut setting request : StateM σ _) := by
  unfold carryOut
  cases command : request.command with
  | create input root => simp [command, Command.tells] at tells
  | save input => simp [command, Command.tells] at tells
  | template name root => simp [command, Command.tells] at tells
  | list => exact list_spares shows setting request
  | compile script json => exact showCompiled_spares shows script json

theorem carryOut_sparesUnless (fills : request.command.fills) :
    SparesUnless AtTree view (carryOut setting request : StateM σ _) := by
  unfold carryOut
  cases command : request.command with
  | create input root => exact create_sparesUnless shows setting request input root
  | save input => simp [command, Command.fills] at fills
  | template name root => exact template_sparesUnless shows setting request name root
  | list => simp [command, Command.fills] at fills
  | compile script json => simp [command, Command.fills] at fills

omit shows in
theorem run_apply {words : List String} (read : readArguments words = .ok request) (s : σ) :
    (run setting words : StateM σ Nat) s =
      match (carryOut setting request : StateM σ _) s with
      | (.ok (), after) => (0, after)
      | (.error failure, after) =>
        if failure = .script .cancelled then
          (0, ((printLine (Error.message .cancelled) : StateM σ _) after).2)
        else (1, ((Terminal.printError (failure.report ++ "\n") : StateM σ _) after).2) := by
  rw [run, read]
  dsimp only
  rw [bind_apply]
  rcases (carryOut setting request : StateM σ _) s with ⟨outcome, after⟩
  match outcome with
  | .ok () => rfl
  | .error (.tree fault) => rfl
  | .error (.script error) =>
    cases error <;> rfl

omit shows in
theorem exitCode_of_failed {words : List String} {error : Error} {s : σ}
    (read : readArguments words = .ok request)
    (failed : ((carryOut setting request : StateM σ _) s).1 = .error (.script error)) :
    ((run setting words : StateM σ Nat) s).1 = if error = .cancelled then 0 else 1 := by
  rw [run_apply setting request read]
  rcases ran : (carryOut setting request : StateM σ _) s with ⟨outcome, after⟩
  rw [ran] at failed
  obtain rfl : outcome = .error (.script error) := failed
  by_cases cancelled : error = .cancelled
  · simp only [cancelled, ↓reduceIte]
  · have other : Failure.script error ≠ .script .cancelled := by simpa using cancelled
    simp only [other, cancelled, ↓reduceIte]

theorem view_run {words : List String} (read : readArguments words = .ok request) (s : σ) :
    view ((run setting words : StateM σ Nat) s).2 =
      view ((carryOut setting request : StateM σ _) s).2 := by
  rw [run_apply setting request read]
  rcases (carryOut setting request : StateM σ _) s with ⟨outcome, after⟩
  cases outcome with
  | ok _ => rfl
  | error failure =>
    dsimp only
    split
    next => exact shows.printLine _ after
    next => exact shows.printError _ after

theorem template_of_unpicked {name root : Option String} {config : Config} {names : List String}
    {s t u : σ}
    (discovered : (Config.discover request.config (rootOf setting.cwd root).text : StateM σ _) s =
      (.ok config, t))
    (known : ((storeOf setting request config).names : StateM σ _) t = (.ok names, u))
    (unpicked : names = [] ∨ name = none ∧ ((askName names : StateM σ _) u).1 = none) :
    view ((template setting request name root : StateM σ _) s).2 = view s := by
  have before : view u = view s := by
    have first := shows.discover request.config (rootOf setting.cwd root).text s
    have second := shows.names (request.store.getD (config.storePath setting.environment)) t
    rw [discovered] at first
    rw [storeOf] at known
    rw [known] at second
    exact second.trans first
  rw [template, withConfig, bind_apply, discovered]
  dsimp only
  rw [bind_apply, known]
  cases names with
  | nil =>
    have told := shows.printLine noScripts u
    exact told.trans before
  | cons first names =>
    obtain ⟨rfl, none⟩ := unpicked.resolve_left (by simp)
    dsimp only
    rw [bind_apply, none]
    have asked := shows.askName (first :: names) u
    exact asked.trans before

end

/-- What a run leaves as it was, with its exit code where it has failed. -/
structure Untouched {σ δ : Type} [DiskAccess (StateM σ)] [Terminal (StateM σ)] (view : σ → δ)
    (setting : Setting) (words : List String) (s : σ) : Prop where
  told : ∀ request, readArguments words = .ok request → request.command.tells →
    view ((run setting words : StateM σ Nat) s).2 = view s
  /-- Settings or saved scripts that cannot be read, a name that is not known, a value that was not
  given and a group that is not closed end a run before its tree is touched; only an operation fails
  after that. -/
  failed : ∀ request error, readArguments words = .ok request → request.command.fills →
    ((carryOut setting request : StateM σ _) s).1 = .error (.script error) →
    (∀ index operation cause, error ≠ .apply index operation cause) →
    view ((run setting words : StateM σ Nat) s).2 = view s ∧
      ((run setting words : StateM σ Nat) s).1 = if error = .cancelled then 0 else 1
  blank : ∀ request input root, readArguments words = .ok request →
    request.command = .create input root → Invocation.parse input = none →
    view ((run setting words : StateM σ Nat) s).2 = view s
  unpicked : ∀ request name root config names t u, readArguments words = .ok request →
    request.command = .template name root →
    (Config.discover request.config (rootOf setting.cwd root).text : StateM σ _) s =
      (.ok config, t) →
    ((storeOf setting request config).names : StateM σ _) t = (.ok names, u) →
    names = [] ∨ name = none ∧ ((askName names : StateM σ _) u).1 = none →
    view ((run setting words : StateM σ Nat) s).2 = view s

theorem untouched_of_shows {σ δ : Type} [DiskAccess (StateM σ)] [Terminal (StateM σ)]
    {view : σ → δ} (shows : ShowsChanges view) (setting : Setting) (words : List String) (s : σ) :
    Untouched view setting words s where
  told := by
    intro request read tells
    rw [view_run shows setting request read]
    exact carryOut_spares shows setting request tells s
  failed := by
    intro request error read fills failed early
    refine ⟨?_, exitCode_of_failed setting request read failed⟩
    rw [view_run shows setting request read]
    rcases carryOut_sparesUnless shows setting request fills s with same | late
    · exact same
    · rw [failed] at late
      obtain ⟨index, operation, cause, rfl⟩ := late
      exact absurd rfl (early index operation cause)
  blank := by
    intro request input root read command blank
    rw [view_run shows setting request read, carryOut, command]
    exact create_spares_of_blank shows setting request blank root s
  unpicked := by
    intro request name root config names t u read command discovered known unpicked
    rw [view_run shows setting request read, carryOut, command]
    exact template_of_unpicked shows setting request discovered known unpicked

/-- Nothing changes before a script has compiled. A run that lacks a value, or whose script has an
open group, leaves its tree as it was; it is cancelled whenever a value is missing, be the groups
closed or not, and nothing else can fail but an operation. A command that ends before it has
operations leaves the disk as it was and has asked for no change of it. -/
theorem untouched_until_compiled :
    (∀ {σ τ : Type} (storage : Storage (StateM τ)) (ask : String → StateM σ (Option String))
      (workspace : Option String) (templates : Templates) (script : String) (s : σ) (t : τ),
      let ran := runScript storage ask workspace templates script s t
      (∀ error, ran.1.1 = .error error →
        (error = .cancelled ∨ error = .unmatchedGroup) ∧ ran.2 = t ∨
        ∃ index operation cause, error = .apply index operation cause) ∧
      (ran.1.1 = .error .cancelled ↔
        (substitute ask workspace script s).1 = .error .cancelled)) ∧
    ∀ (setting : Setting) (words : List String),
      (∀ world, Untouched World.disk setting words world) ∧
      ∀ watched, Untouched Watched.touched setting words watched := by
  refine ⟨?_, fun setting words => ⟨?_, ?_⟩⟩
  · intro σ τ storage ask workspace templates script s t
    exact ⟨fun error => runScript_error storage ask workspace templates script s t,
      runScript_cancelled_iff storage ask workspace templates script s t⟩
  · exact untouched_of_shows World.showsChanges_disk setting words
  · exact untouched_of_shows Watched.showsChanges_touched setting words

-- A value is missing and a bracket is open: the missing value comes first.
theorem untouched_until_compiled_on_blank_disk :
    let setting : Setting := ⟨"/", {}⟩
    let words := ["create", "/$\x7ba\x7d/ < [", "--root", "site"]
    let request : Request := ⟨none, none, .create "/$\x7ba\x7d/ < [" (some "site")⟩
    let world : World := { disk := Disk.blank }
    let ran := (run setting words : StateM World Nat) world
    readArguments words = .ok request ∧
      ((carryOut setting request : StateM World _) world).1 = .error (.script .cancelled) ∧
      ran.2.disk = Disk.blank ∧ ran.1 = 0 := by
  intro setting words request world ran
  have read : readArguments words = .ok request := by decide +kernel
  have names : Disk.Names "/site/batch-kit.toml" ["site", "batch-kit.toml"] :=
    ⟨by decide, by decide, by decide, by decide⟩
  have fits : world.disk.Fits "/site/batch-kit.toml" ["site", "batch-kit.toml"] := by
    intro slashed
    exact absurd slashed (by decide)
  have nothing : (world.disk.kind world.cwd true "/site/batch-kit.toml").toOption = none := by
    rw [Disk.kind_toOption Disk.Plain.blank names fits, Disk.get?_blank]
    rfl
  have candidate : Path.join (rootOf "/" (some "site")).text Config.fileName =
      "/site/batch-kit.toml" := by decide +kernel
  have discovered : (Config.discover none (rootOf "/" (some "site")).text : StateM World _) world =
      (.ok {}, world) := by
    simp only [Config.discover, candidate, bind_apply, World.isFile_apply, nothing]
    rfl
  have cancelled : ((carryOut setting request : StateM World _) world).1 =
      .error (.script .cancelled) := by
    simp only [carryOut, request, create, withConfig, bind_apply, setting, discovered]
    decide +kernel
  have untouched := (untouched_until_compiled.2 setting words).1 world
  obtain ⟨kept, code⟩ := untouched.failed request .cancelled read rfl cancelled (by simp)
  exact ⟨read, cancelled, kept, by simpa using code⟩

end Scaffold.CommandLine
