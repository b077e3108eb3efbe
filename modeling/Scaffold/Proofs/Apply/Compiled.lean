import Scaffold.Proofs.Apply.Effect
import Scaffold.Proofs.Shorthand.Ordering

/-! Operations that come from a script. Each has the directories above it made by operations before
it, and resolving `.` and `..` keeps that so (`dropLast_ofSteps_within`): a write finds its directory
there and cannot fail, and where a run fails a file stands in the way of a directory. -/

namespace Scaffold

theorem Location.dropLast_ofSteps_within (steps : List String) (last : String) :
    (ofSteps (steps ++ [last])).dropLast <+: ofSteps steps := by
  rw [ofSteps_snoc]
  split
  next => exact List.dropLast_prefix _
  next =>
    unfold Path.climb
    split
    next => exact (List.dropLast_prefix _).trans (List.dropLast_prefix _)
    next => rw [List.dropLast_concat]

theorem place_of_segments {segments : List String} {operation : Operation}
    (areSegments : ∀ segment ∈ segments, Token.IsSegment segment)
    (path : operation.path = "/".intercalate segments) :
    operation.place = Location.ofSteps segments := by
  rw [Operation.place, Location.ofSegments_eq, path, Path.pieces_intercalate]
  intro segment present
  exact ⟨(areSegments segment present).1, (areSegments segment present).noSlash⟩

namespace MemoryTree

/-- Among the operations done, one has written a file to a place where nothing stood. -/
def Created (templates : Templates) (tree : MemoryTree) (done : List Operation)
    (place : Location) : Prop :=
  ∃ first operation rest, done = first ++ operation :: rest ∧ operation.isWrite ∧
    operation.place = place ∧ (apply storage templates first tree).2.get? place = none ∧
    (apply storage templates (first ++ [operation]) tree).2.isFileAt place

variable {tree after middle : MemoryTree} {templates : Templates} {operation : Operation}
  {done : List Operation} {report : Report}

theorem home_of_supported (applied : Applied templates tree done report middle)
    (supported : Supported done operation) (isWrite : operation.kind = .write) :
    middle.get? operation.home = some .directory := by
  obtain ⟨segments, filled, areSegments, path, above⟩ := supported
  obtain ⟨steps, last, rfl⟩ := (List.eq_nil_or_concat segments).resolve_left filled
  rw [List.concat_eq_append] at areSegments path above
  have holder : middle.get? (Location.ofSteps steps) = some .directory := by
    by_cases root : steps = []
    · simpa [root, Location.ofSteps] using applied.coherent.root
    · have made := applied.fulfilled _ (above steps root (List.prefix_append _ _) (by simp))
      have named : (Operation.mkdir ("/".intercalate steps)).place = Location.ofSteps steps :=
        place_of_segments (fun segment present => areSegments segment (by simp [present])) rfl
      have home := made.home
      rwa [Operation.home_mkdir, named] at home
  have within : operation.home <+: Location.ofSteps steps := by
    rw [Operation.home, isWrite, place_of_segments areSegments path]
    exact Location.dropLast_ofSteps_within steps last
  by_cases same : operation.home = Location.ofSteps steps
  · rw [same, holder]
  · exact applied.coherent.above holder within same

theorem created_of_isFileAt {place : Location} (coherent : tree.Coherent)
    (ran : apply storage templates done tree = (.ok report, after))
    (missing : tree.get? place = none) (isFile : after.isFileAt place = true) :
    Created templates tree done place := by
  obtain ⟨content, found⟩ := isFileAt_eq_true_iff.mp isFile
  obtain ⟨operation, among, -⟩ := (Applied.of_run coherent ran).contents place content missing found
  obtain ⟨asked, first, rest, rfl, others⟩ := List.find?_eq_some_iff_append.mp among
  simp only [Bool.and_eq_true, decide_eq_true_eq] at asked
  obtain ⟨isWrite, here⟩ := asked
  obtain ⟨_, before, begun, later⟩ := run_split ran
  have applied := Applied.of_run coherent begun
  have unmade : before.get? place = none := by
    cases old : before.get? place with
    | none => rfl
    | some entry =>
      have same : entry = .file content :=
        Option.some.inj ((run_extends applied.coherent later _ _ old).symm.trans found)
      obtain ⟨earlier, among, -⟩ := applied.contents place content missing (same ▸ old)
      have asked := List.find?_some among
      have notAsked := others earlier (List.mem_of_find?_eq_some among)
      simp [asked] at notAsked
  rw [List.append_cons] at ran
  obtain ⟨_, next, written, last⟩ := run_split ran
  have appliedNext := Applied.of_run coherent written
  obtain ⟨entry, made⟩ := Option.isSome_iff_exists.mp
    ((appliedNext.fulfilled operation (by simp)).target isWrite)
  have same : entry = .file content :=
    Option.some.inj ((run_extends appliedNext.coherent last _ _ (here ▸ made)).symm.trans found)
  refine ⟨first, operation, rest, rfl, isWrite, here, ?_, ?_⟩
  · rw [apply, begun]
    exact unmade
  · rw [apply, written]
    exact isFileAt_eq_true_iff.mpr ⟨content, same ▸ here ▸ made⟩

theorem apply_write_of_home (coherent : middle.Coherent)
    (ran : apply storage templates done tree = (.ok report, middle))
    (isWrite : operation.kind = .write) (holder : middle.get? operation.home = some .directory) :
    ∃ counted after, apply storage templates (done ++ [operation]) tree = (.ok counted, after) ∧
      ∀ place, after.get? place = some .directory → middle.get? place = some .directory := by
  refine ⟨middle.tally report operation, middle.fulfil templates operation, ?_, ?_⟩
  · rw [apply] at ran ⊢
    rw [applyFrom_append, ran]
    simp only
    rw [applyFrom_cons coherent, coherent.blocker?_of_directory holder]
    rfl
  · intro other found
    simp only [fulfil, isWrite, withDirectories_of_directory coherent holder] at found
    rw [get?_putNew] at found
    split at found
    next => cases found
    next => exact found

/-- Of the operations of a script only one that makes a directory can fail, and only where a file
stands in its way: one that was there before the run or one that the run has made. A write finds its
directory there, succeeds, and makes no directory. -/
theorem apply_compiled {source : String} {operations : List Operation}
    (compiled : compile source = .ok operations) (reachable : tree.Reachable)
    (templates : Templates) :
    (∀ done operation rest report middle, operations = done ++ operation :: rest →
      operation.kind = .write → apply storage templates done tree = (.ok report, middle) →
        (operation.place ≠ [] → middle.get? operation.place.dropLast = some .directory) ∧
        ∃ counted after, apply storage templates (done ++ [operation]) tree = (.ok counted, after) ∧
          ∀ place, after.get? place = some .directory → middle.get? place = some .directory) ∧
    ∀ error after, apply storage templates operations tree = (.error error, after) →
      ∃ done operation rest cause, operations = done ++ operation :: rest ∧
        error = .apply done.length operation cause ∧ operation.kind = .mkdir ∧
        ∃ file, file <+: operation.place ∧ after.isFileAt file ∧
          (tree.isFileAt file ∨ Created templates tree done file) := by
  have coherent := reachable.coherent
  constructor
  · intro done operation rest report middle split isWrite ran
    have applied := Applied.of_run coherent ran
    have holder := home_of_supported applied (supported_of_compile compiled split) isWrite
    have place : operation.home = operation.place.dropLast := by rw [Operation.home, isWrite]
    exact ⟨fun _ => place ▸ holder, apply_write_of_home applied.coherent ran isWrite holder⟩
  · intro error after ran
    obtain ⟨done, operation, rest, file, report, rfl, rfl, finished, blocked⟩ :=
      run_stops coherent ran
    have applied := Applied.of_run coherent finished
    have isMkdir : operation.kind = .mkdir := by
      cases kind : operation.kind with
      | mkdir => rfl
      | write =>
        have holder := home_of_supported applied (supported_of_compile compiled rfl) kind
        simp [applied.coherent.blocker?_of_directory holder] at blocked
    obtain ⟨within, content, found⟩ := of_blocker? blocked
    have isFile := isFileAt_eq_true_iff.mpr ⟨content, found⟩
    refine ⟨done, operation, rest, .notDirectory file.text, rfl, by simp, isMkdir, file,
      within.trans operation.home_within, isFile, ?_⟩
    cases old : tree.get? file with
    | none => exact .inr (created_of_isFileAt coherent finished old isFile)
    | some entry =>
      have same : entry = .file content := Option.some.inj ((applied.grown _ _ old).symm.trans found)
      exact .inl (isFileAt_eq_true_iff.mpr ⟨content, same ▸ old⟩)

-- The write finds `/b`, made as `a/../b`; the file that it makes is in the way of a later directory.
theorem apply_compiled_beside_own_file :
    let done := [Operation.mkdir "a", Operation.mkdir "a/..", Operation.mkdir "a/../b"]
    let operations := done ++ Operation.write "a/../b/c.txt" ::
      [Operation.mkdir "b", Operation.mkdir "b/c.txt", Operation.mkdir "b/c.txt/d"]
    let failed := Operation.mkdir "b/c.txt"
    compile "/a/../b/c.txt ; /b/c.txt/d/" = .ok operations ∧ empty.Reachable ∧
      (apply storage ⟨Dict.empty⟩ done empty).2.get? ["b"] = some .directory ∧
      (apply storage ⟨Dict.empty⟩ operations empty).1 =
        .error (.apply 5 failed (.notDirectory "/b/c.txt")) ∧
      ∃ done file, done.length = 5 ∧ file <+: ["b", "c.txt"] ∧
        (empty.isFileAt file ∨ Created ⟨Dict.empty⟩ empty done file) := by
  intro done operations failed
  have scanned : Token.listOfText "/a/../b/c.txt ; /b/c.txt/d/" =
      [.path ["a", "..", "b", "c.txt"] true, .semicolon, .path ["b", "c.txt", "d"] false] := by
    decide +kernel
  have compiled : compile "/a/../b/c.txt ; /b/c.txt/d/" = .ok operations := by
    rw [compile, scanned]
    cbv
  have begun : (apply storage ⟨Dict.empty⟩ done empty).1 = .ok ⟨3, 0, 0⟩ := by decide +kernel
  have outcome : (apply storage ⟨Dict.empty⟩ operations empty).1 =
      .error (.apply 5 failed (.notDirectory "/b/c.txt")) := by decide +kernel
  obtain ⟨writes, fails⟩ := apply_compiled compiled .empty ⟨Dict.empty⟩
  have place : (Operation.write "a/../b/c.txt").place = ["b", "c.txt"] := by decide +kernel
  obtain ⟨holder, -⟩ := writes done _ _ _ _ rfl rfl (Prod.ext begun rfl)
  rw [place] at holder
  obtain ⟨done', operation, rest, cause, -, same, -, file, within, -, origin⟩ :=
    fails _ _ (Prod.ext outcome rfl)
  obtain ⟨length, rfl, -⟩ := Error.apply.inj same
  have target : failed.place = ["b", "c.txt"] := by decide +kernel
  rw [target] at within
  exact ⟨compiled, .empty, holder (by simp), outcome, done', file, length.symm, within, origin⟩

end MemoryTree
end Scaffold
