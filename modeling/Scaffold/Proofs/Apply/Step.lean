import Scaffold.Apply
import Scaffold.Proofs.Storage.Memory

/-! Operations on a tree in memory. `applyOne_eq` says all that one operation can do: a file in the
way of the directory it needs stops it before anything has changed, and otherwise that directory and
the operation's own entry are there afterwards. `run_preserves` carries an invariant from one
operation to a run, and `run_stops` finds the operation at which a run that fails has stopped. -/

namespace Scaffold

namespace Operation

def place (operation : Operation) : Location := Location.ofSegments operation.path

/-- The directory that has to be there for an operation. -/
def home (operation : Operation) : Location :=
  match operation.kind with
  | .mkdir => operation.place
  | .write => operation.place.dropLast

def isMkdir (operation : Operation) : Bool := operation.kind = .mkdir

def isWrite (operation : Operation) : Bool := operation.kind = .write

theorem home_mkdir (path : String) : (mkdir path).home = (mkdir path).place := rfl

theorem normal_place (operation : Operation) : operation.place.Normal :=
  Location.normal_ofSegments operation.path

theorem home_within (operation : Operation) : operation.home <+: operation.place := by
  unfold home
  cases operation.kind with
  | mkdir => exact List.prefix_rfl
  | write => exact List.dropLast_prefix _

theorem normal_home (operation : Operation) : operation.home.Normal :=
  operation.normal_place.of_within operation.home_within

end Operation

theorem applyFrom_append {σ : Type} (storage : Storage (StateM σ)) (templates : Templates)
    (index : Nat) (report : Report) (first second : List Operation) (s : σ) :
    applyFrom storage templates index report (first ++ second) s =
      match applyFrom storage templates index report first s with
      | (.ok counted, middle) =>
        applyFrom storage templates (index + first.length) counted second middle
      | (.error error, middle) => (.error error, middle) := by
  induction first generalizing index report s with
  | nil => rfl
  | cons operation first ih =>
    rw [List.cons_append, applyFrom, applyFrom, bind_apply, bind_apply]
    rcases applyOne storage templates report operation s with ⟨outcome, next⟩
    cases outcome with
    | error fault => rfl
    | ok counted =>
      simp only [ih, List.length_cons, Nat.add_assoc, Nat.add_comm 1]

namespace MemoryTree

def fileFor (templates : Templates) (operation : Operation) : Entry :=
  .file (templates.content operation.path).toUTF8

/-- The tree once an operation has succeeded. -/
def fulfil (tree : MemoryTree) (templates : Templates) (operation : Operation) : MemoryTree :=
  match operation.kind with
  | .mkdir => tree.withDirectories operation.home
  | .write => (tree.withDirectories operation.home).putNew operation.place
      (fileFor templates operation)

/-- The report once an operation on the tree has succeeded. -/
def tally (tree : MemoryTree) (report : Report) (operation : Operation) : Report :=
  match operation.kind with
  | .mkdir => { report with dirs := report.dirs + 1 }
  | .write =>
    if (tree.get? operation.place).isSome then { report with skipped := report.skipped + 1 }
    else { report with written := report.written + 1 }

/-- A file in the way of its directory is all that can stop an operation. -/
def outcome (tree : MemoryTree) (templates : Templates) (report : Report)
    (operation : Operation) : Except Fault Report × MemoryTree :=
  match tree.blocker? operation.home with
  | some file => (.error (.notDirectory file.text), tree)
  | none => (.ok (tree.tally report operation), tree.fulfil templates operation)

structure Fulfilled (tree : MemoryTree) (operation : Operation) : Prop where
  home : tree.get? operation.home = some .directory
  target : operation.isWrite → (tree.get? operation.place).isSome

variable {tree after before : MemoryTree} {templates : Templates} {operation : Operation}

section Step

theorem withDirectories_of_directory {place : Location} (coherent : tree.Coherent)
    (found : tree.get? place = some .directory) : tree.withDirectories place = tree := by
  apply ext
  intro query
  rw [get?_withDirectories]
  split
  next new =>
    by_cases same : query = place
    · rw [same, found]
    · rw [coherent.above found new.1 same]
  next => rfl

theorem mkfile_text (coherent : tree.Coherent) {place : Location} (normal : place.Normal)
    (holder : tree.get? place.dropLast = some .directory) (missing : tree.get? place = none)
    (content : Content) :
    mkfile place.text (some content) tree = (.ok (), tree.put place (.file content)) := by
  have filled : place ≠ [] := by
    rintro rfl
    simp [coherent.root] at missing
  rw [mkfile_eq coherent (Location.ofText_text normal), if_neg filled, if_neg (by simp [missing]),
    coherent.blocker?_of_directory holder, withDirectories_of_directory coherent holder]
  rfl

theorem applyOne_mkdir (coherent : tree.Coherent) (report : Report) (path : String) :
    applyOne storage templates report ⟨.mkdir, path⟩ tree =
      tree.outcome templates report ⟨.mkdir, path⟩ := by
  have made := mkdir_text coherent (Location.normal_ofSegments path)
  simp only [applyOne, storage, bind_apply, made, outcome, Operation.home, Operation.place, fulfil,
    tally]
  cases tree.blocker? (Location.ofSegments path) with
  | some file => simp only [pure_apply]
  | none => simp only [pure_apply]

-- The root is there, so a write to it needs no directory and is skipped.
theorem applyOne_write_root (coherent : tree.Coherent) (report : Report) {path : String}
    (root : Location.ofSegments path = []) :
    applyOne storage templates report ⟨.write, path⟩ tree =
      tree.outcome templates report ⟨.write, path⟩ := by
  have named : Location.ofText (Location.text []) = [] :=
    Location.ofText_text (by simp [Location.Normal])
  have free := coherent.blocker?_of_directory coherent.root
  have kept := withDirectories_of_directory coherent coherent.root
  simp only [applyOne, storage, outcome, Operation.home, Operation.place, fulfil, tally, root,
    Location.parent?, ↓reduceIte, bind_apply, pure_apply, get_apply, holds, named, coherent.root,
    Option.isSome_some, List.dropLast_nil, free, kept, putNew_of_some coherent.root]

theorem applyOne_write (coherent : tree.Coherent) (report : Report) {path : String}
    (filled : Location.ofSegments path ≠ []) :
    applyOne storage templates report ⟨.write, path⟩ tree =
      tree.outcome templates report ⟨.write, path⟩ := by
  have normal := Location.normal_ofSegments path
  have above := normal.of_within (List.dropLast_prefix _)
  have made := mkdir_text coherent above
  have same := get?_withDirectories_dropLast tree filled
  simp only [applyOne, storage, outcome, Operation.home, Operation.place, fulfil, tally,
    filled, Location.parent?, ↓reduceIte, bind_apply, holds, Location.ofText_text normal, made]
  cases free : tree.blocker? (Location.ofSegments path).dropLast with
  | some file => simp only [pure_apply]
  | none =>
    have ready := coherent.withDirectories above free
    have holder := directory_of_free free List.prefix_rfl
    simp only [bind_apply, get_apply, pure_apply, same, putNew]
    by_cases there : (tree.get? (Location.ofSegments path)).isSome
    · simp only [there, ↓reduceIte, pure_apply]
    · have missing : tree.get? (Location.ofSegments path) = none := by simpa using there
      have written := mkfile_text ready normal holder (same.trans missing)
      simp only [there, Bool.false_eq_true, ↓reduceIte, bind_apply, written, pure_apply, fileFor]

theorem applyOne_eq (coherent : tree.Coherent) (report : Report) (operation : Operation) :
    applyOne storage templates report operation tree =
      tree.outcome templates report operation := by
  obtain ⟨kind, path⟩ := operation
  cases kind with
  | mkdir => exact applyOne_mkdir coherent report path
  | write =>
    by_cases root : Location.ofSegments path = []
    · exact applyOne_write_root coherent report root
    · exact applyOne_write coherent report root

theorem fulfil_extends (tree : MemoryTree) (templates : Templates) (operation : Operation) :
    (tree.fulfil templates operation).Extends tree := by
  have made := withDirectories_extends tree operation.home
  unfold fulfil
  cases operation.kind with
  | mkdir => exact made
  | write => exact (putNew_extends _ _ _).trans made

theorem Coherent.fulfil (coherent : tree.Coherent) (free : tree.blocker? operation.home = none) :
    (tree.fulfil templates operation).Coherent := by
  have made := coherent.withDirectories operation.normal_home free
  have holder := directory_of_free free List.prefix_rfl
  unfold MemoryTree.fulfil
  cases kind : operation.kind with
  | mkdir => exact made
  | write =>
    refine made.putNew operation.normal_place ?_ _
    simpa [Operation.home, kind] using holder

theorem Fulfilled.of_extends (fulfilled : before.Fulfilled operation) (grown : after.Extends before) :
    after.Fulfilled operation where
  home := grown _ _ fulfilled.home
  target := by
    intro isWrite
    obtain ⟨entry, found⟩ := Option.isSome_iff_exists.mp (fulfilled.target isWrite)
    simp [grown _ _ found]

theorem fulfilled_fulfil (templates : Templates) (free : tree.blocker? operation.home = none) :
    (tree.fulfil templates operation).Fulfilled operation := by
  have holder := directory_of_free free List.prefix_rfl
  unfold fulfil
  cases kind : operation.kind with
  | mkdir => exact ⟨holder, by simp [Operation.isWrite, kind]⟩
  | write =>
    refine ⟨putNew_extends _ _ _ _ _ holder, ?_⟩
    intro _
    rw [get?_putNew]
    cases (tree.withDirectories operation.home).get? operation.place <;> simp

theorem fulfil_of_fulfilled (coherent : tree.Coherent) (templates : Templates)
    (fulfilled : tree.Fulfilled operation) : tree.fulfil templates operation = tree := by
  have kept := withDirectories_of_directory coherent fulfilled.home
  unfold fulfil
  cases kind : operation.kind with
  | mkdir => exact kept
  | write =>
    have target := fulfilled.target (by simp [Operation.isWrite, kind])
    simp only [kept, putNew, target, ↓reduceIte]

theorem prefix_iff_dropLast {higher : Location} (place : Location) :
    higher <+: place ↔ higher <+: place.dropLast ∨ higher = place := by
  rcases List.eq_nil_or_concat place with rfl | ⟨above, name, rfl⟩
  · simp
  · rw [List.concat_eq_append, List.dropLast_concat, List.prefix_concat_iff, or_comm]

theorem isSome_get?_fulfil (tree : MemoryTree) (templates : Templates) (operation : Operation)
    (place : Location) : ((tree.fulfil templates operation).get? place).isSome ↔
      (tree.get? place).isSome ∨ place <+: operation.place := by
  unfold fulfil
  cases kind : operation.kind with
  | mkdir => simp only [isSome_get?_withDirectories, Operation.home, kind]
  | write =>
    simp only [isSome_get?_putNew, isSome_get?_withDirectories, Operation.home, kind, or_assoc,
      prefix_iff_dropLast operation.place]

end Step

section Run

theorem applyFrom_cons (coherent : tree.Coherent) (index : Nat) (report : Report)
    (operation : Operation) (operations : List Operation) :
    applyFrom storage templates index report (operation :: operations) tree =
      match tree.blocker? operation.home with
      | some file => (.error (.apply index operation (.notDirectory file.text)), tree)
      | none => applyFrom storage templates (index + 1) (tree.tally report operation) operations
          (tree.fulfil templates operation) := by
  rw [applyFrom, bind_apply, applyOne_eq coherent, outcome]
  cases tree.blocker? operation.home with
  | some file => rfl
  | none => rfl

/-- What each operation that succeeds keeps, a run keeps. -/
theorem run_preserves {motive : List Operation → Report → MemoryTree → Prop}
    (keeps : ∀ done report tree operation, motive done report tree → tree.Coherent →
      tree.blocker? operation.home = none →
      motive (done ++ [operation]) (tree.tally report operation) (tree.fulfil templates operation))
    (done : List Operation) {index : Nat} {operations : List Operation} {report last : Report}
    (coherent : tree.Coherent) (start : motive done report tree)
    (ran : applyFrom storage templates index report operations tree = (.ok last, after)) :
    motive (done ++ operations) last after := by
  induction operations generalizing index done report tree with
  | nil =>
    cases ran
    rwa [List.append_nil]
  | cons operation operations ih =>
    rw [applyFrom_cons coherent] at ran
    cases free : tree.blocker? operation.home with
    | some file =>
      simp only [free] at ran
      cases ran
    | none =>
      simp only [free] at ran
      have next := keeps done report tree operation start coherent free
      simpa using ih _ (coherent.fulfil free) next ran

theorem run_stops {index : Nat} {operations : List Operation} {report : Report} {error : Error}
    (coherent : tree.Coherent)
    (ran : applyFrom storage templates index report operations tree = (.error error, after)) :
    ∃ done operation rest file middle, operations = done ++ operation :: rest ∧
      error = .apply (index + done.length) operation (.notDirectory file.text) ∧
      applyFrom storage templates index report done tree = (.ok middle, after) ∧
      after.blocker? operation.home = some file := by
  induction operations generalizing index report tree with
  | nil => cases ran
  | cons operation operations ih =>
    rw [applyFrom_cons coherent] at ran
    cases free : tree.blocker? operation.home with
    | some file =>
      simp only [free] at ran
      cases ran
      exact ⟨[], operation, operations, file, report, rfl, rfl, rfl, free⟩
    | none =>
      simp only [free] at ran
      obtain ⟨done, failed, rest, file, middle, rfl, rfl, done', blocked⟩ := ih (coherent.fulfil free) ran
      refine ⟨operation :: done, failed, rest, file, middle, rfl, ?_, ?_, blocked⟩
      · simp [Nat.add_assoc, Nat.add_comm 1]
      · rw [applyFrom_cons coherent, free]
        exact done'

theorem run_extends {index : Nat} {operations : List Operation} {report last : Report}
    (coherent : tree.Coherent)
    (ran : applyFrom storage templates index report operations tree = (.ok last, after)) :
    after.Extends tree := by
  refine run_preserves (motive := fun _ _ later => later.Extends tree) ?_ [] coherent
    (Extends.refl tree) ran
  intro done report later operation grown _ _
  exact (fulfil_extends later templates operation).trans grown

theorem run_split {index : Nat} {first second : List Operation} {report last : Report}
    (ran : applyFrom storage templates index report (first ++ second) tree = (.ok last, after)) :
    ∃ counted middle, applyFrom storage templates index report first tree = (.ok counted, middle) ∧
      applyFrom storage templates (index + first.length) counted second middle =
        (.ok last, after) := by
  rw [applyFrom_append] at ran
  rcases begun : applyFrom storage templates index report first tree with ⟨outcome, middle⟩
  cases outcome with
  | error error =>
    rw [begun] at ran
    cases ran
  | ok counted =>
    rw [begun] at ran
    exact ⟨counted, middle, rfl, ran⟩

end Run
end MemoryTree
end Scaffold
