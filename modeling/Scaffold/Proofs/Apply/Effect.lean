import Scaffold.Proofs.Apply.Step

/-! What a run adds to a tree. `Applied` is the invariant of a run that has not failed: what stood
there stands as it did, what is new was asked for, and the report counts it. -/

namespace Scaffold.MemoryTree

def newFiles (before after : MemoryTree) : List Location :=
  after.entries.keys.filter fun place => (before.get? place).isNone && after.isFileAt place

def firstWrite? (operations : List Operation) (place : Location) : Option Operation :=
  operations.find? fun operation => operation.isWrite && operation.place = place

/-- What the operations done so far have made of a tree, and the report on them. -/
structure Applied (templates : Templates) (before : MemoryTree) (done : List Operation)
    (report : Report) (after : MemoryTree) : Prop where
  coherent : after.Coherent
  grown : after.Extends before
  fulfilled : ∀ operation ∈ done, after.Fulfilled operation
  dirs : report.dirs = done.countP (·.isMkdir)
  writes : report.written + report.skipped = done.countP (·.isWrite)
  written : report.written = (newFiles before after).length
  present : ∀ place, (after.get? place).isSome ↔
    (before.get? place).isSome ∨ ∃ operation ∈ done, place <+: operation.place
  contents : ∀ place content, before.get? place = none →
    after.get? place = some (.file content) →
    ∃ operation, firstWrite? done place = some operation ∧
      Entry.file content = fileFor templates operation

variable {tree after before : MemoryTree} {templates : Templates} {operation : Operation}

section NewFiles

theorem mem_newFiles {place : Location} :
    place ∈ newFiles before after ↔ before.get? place = none ∧ after.isFileAt place = true := by
  simp only [newFiles, List.mem_filter, Bool.and_eq_true, Option.isNone_iff_eq_none,
    ← Dict.contains_iff_mem_keys]
  constructor
  · rintro ⟨-, new⟩
    exact new
  · rintro ⟨missing, isFile⟩
    obtain ⟨content, found⟩ := isFileAt_eq_true_iff.mp isFile
    have held : after.entries.contains place = true := Option.isSome_of_eq_some found
    exact ⟨held, missing, isFile⟩

theorem nodup_newFiles (before after : MemoryTree) : (newFiles before after).Nodup :=
  after.entries.nodup_keys.filter _

theorem length_newFiles_congr {other : MemoryTree}
    (same : ∀ place, after.isFileAt place = other.isFileAt place) :
    (newFiles before after).length = (newFiles before other).length := by
  apply List.Perm.length_eq
  apply (List.perm_ext_iff_of_nodup (nodup_newFiles _ _) (nodup_newFiles _ _)).mpr
  intro place
  simp only [mem_newFiles, same]

theorem length_newFiles_put (grown : after.Extends before) {place : Location}
    (missing : after.get? place = none) (content : Content) :
    (newFiles before (after.put place (.file content))).length =
      (newFiles before after).length + 1 := by
  have new : before.get? place = none := by
    cases found : before.get? place with
    | none => rfl
    | some entry => simp [grown _ _ found] at missing
  have apart : place ∉ newFiles before after := by
    simp [mem_newFiles, isFileAt_eq_false_of_missing missing]
  rw [← List.length_cons (a := place)]
  apply List.Perm.length_eq
  apply (List.perm_ext_iff_of_nodup (nodup_newFiles _ _)
    (List.nodup_cons.mpr ⟨apart, nodup_newFiles _ _⟩)).mpr
  intro other
  by_cases same : other = place
  · simp [mem_newFiles, same, new, isFileAt]
  · simp [mem_newFiles, same, isFileAt]

end NewFiles

section Step

theorem file_of_fulfil {place : Location} {content : Content}
    (found : (tree.fulfil templates operation).get? place = some (.file content)) :
    tree.get? place = some (.file content) ∨
      tree.get? place = none ∧ operation.isWrite ∧ operation.place = place ∧
        Entry.file content = fileFor templates operation := by
  have fromDirectories : ∀ {above : Location},
      (tree.withDirectories above).get? place = some (.file content) →
        tree.get? place = some (.file content) := by
    intro above found
    rw [get?_withDirectories] at found
    split at found
    · cases found
    · exact found
  unfold fulfil at found
  cases kind : operation.kind with
  | mkdir =>
    simp only [kind] at found
    exact .inl (fromDirectories found)
  | write =>
    simp only [kind] at found
    rw [get?_putNew] at found
    split at found
    next new =>
      refine .inr ⟨?_, by simp [Operation.isWrite, kind], new.1.symm, (Option.some.inj found).symm⟩
      rw [get?_withDirectories] at new
      cases old : tree.get? place with
      | none => rfl
      | some entry => simp [old] at new
    next => exact .inl (fromDirectories found)

theorem written_tally (coherent : after.Coherent) (grown : after.Extends before)
    {report : Report} (counted : report.written = (newFiles before after).length)
    (templates : Templates) (operation : Operation) :
    (after.tally report operation).written =
      (newFiles before (after.fulfil templates operation)).length := by
  have made : (newFiles before (after.withDirectories operation.home)).length =
      (newFiles before after).length :=
    length_newFiles_congr fun place => isFileAt_withDirectories after operation.home place
  unfold tally fulfil
  cases kind : operation.kind with
  | mkdir => rw [made, ← counted]
  | write =>
    cases found : after.get? operation.place with
    | some entry =>
      have kept := withDirectories_extends after operation.home _ _ found
      simp [putNew_of_some kept, made, counted]
    | none =>
      have filled : operation.place ≠ [] := by
        intro root
        simp [root, coherent.root] at found
      have missing : (after.withDirectories operation.home).get? operation.place = none := by
        simpa only [Operation.home, kind, found] using get?_withDirectories_dropLast after filled
      have more := length_newFiles_put ((withDirectories_extends after operation.home).trans grown)
        missing (templates.content operation.path).toUTF8
      simp only [Option.isSome_none, Bool.false_eq_true, ↓reduceIte, putNew, missing, fileFor, more,
        made, counted]

theorem dirs_tally (tree : MemoryTree) (report : Report) (operation : Operation) :
    (tree.tally report operation).dirs = report.dirs + [operation].countP (·.isMkdir) := by
  unfold tally Operation.isMkdir
  cases kind : operation.kind with
  | mkdir => simp [kind]
  | write =>
    cases tree.get? operation.place <;> simp [kind]

theorem writes_tally (tree : MemoryTree) (report : Report) (operation : Operation) :
    (tree.tally report operation).written + (tree.tally report operation).skipped =
      report.written + report.skipped + [operation].countP (·.isWrite) := by
  unfold tally Operation.isWrite
  cases kind : operation.kind with
  | mkdir => simp [kind]
  | write =>
    cases tree.get? operation.place <;> simp [kind] <;> omega

end Step

namespace Applied

theorem nil (coherent : tree.Coherent) (templates : Templates) :
    Applied templates tree [] {} tree where
  coherent := coherent
  grown := Extends.refl tree
  fulfilled := by simp
  dirs := rfl
  writes := rfl
  written := by
    have none : newFiles tree tree = [] := by
      apply List.eq_nil_iff_forall_not_mem.mpr
      intro place member
      obtain ⟨missing, isFile⟩ := mem_newFiles.mp member
      simp [isFileAt, missing] at isFile
    simp [none]
  present := by simp
  contents := by
    intro place content missing found
    simp [missing] at found

theorem firstWrite?_eq_none {done : List Operation} {place : Location} {report : Report}
    (applied : Applied templates before done report after) (missing : after.get? place = none) :
    firstWrite? done place = none := by
  apply List.find?_eq_none.mpr
  intro operation member
  by_cases isWrite : operation.isWrite = true
  · by_cases here : operation.place = place
    · have there := (applied.fulfilled operation member).target isWrite
      simp [here, missing] at there
    · simp [here]
  · simp [isWrite]

theorem snoc {done : List Operation} {report : Report}
    (applied : Applied templates before done report after)
    (free : after.blocker? operation.home = none) :
    Applied templates before (done ++ [operation]) (after.tally report operation)
      (after.fulfil templates operation) where
  coherent := applied.coherent.fulfil free
  grown := (fulfil_extends after templates operation).trans applied.grown
  fulfilled := by
    intro other member
    rcases List.mem_append.mp member with member | member
    · exact (applied.fulfilled other member).of_extends (fulfil_extends after templates operation)
    · rw [List.mem_singleton.mp member]
      exact fulfilled_fulfil templates free
  dirs := by rw [dirs_tally, applied.dirs, List.countP_append]
  writes := by rw [writes_tally, applied.writes, List.countP_append]
  written := written_tally applied.coherent applied.grown applied.written templates operation
  present := by
    intro place
    rw [isSome_get?_fulfil, applied.present]
    simp [or_and_right, exists_or, or_assoc]
  contents := by
    intro place content missing found
    rcases file_of_fulfil found with old | ⟨fresh, isWrite, here, same⟩
    · obtain ⟨first, among, same⟩ := applied.contents place content missing old
      refine ⟨first, ?_, same⟩
      rw [firstWrite?] at among ⊢
      rw [List.find?_append, among, Option.some_or]
    · refine ⟨operation, ?_, same⟩
      have none := applied.firstWrite?_eq_none fresh
      rw [firstWrite?] at none ⊢
      rw [List.find?_append, none]
      simp [isWrite, here]

theorem of_run {index : Nat} {operations : List Operation} {report : Report}
    (coherent : before.Coherent)
    (ran : applyFrom storage templates index {} operations before = (.ok report, after)) :
    Applied templates before operations report after := by
  refine run_preserves (motive := Applied templates before) ?_ [] coherent
    (nil coherent templates) ran
  intro done report tree operation applied _ free
  exact applied.snoc free

end Applied

/-- Whatever stood in the tree stands in it afterwards as it was. A run that ends well has made just
what its operations ask for and was missing; a run that fails has stopped at one operation, and the
tree is the one that the operations before it make. -/
theorem apply_effect (reachable : tree.Reachable) (templates : Templates)
    (operations : List Operation) :
    let ran := apply storage templates operations tree
    ran.2.Extends tree ∧
      match ran.1 with
      | .ok report =>
        report.dirs = operations.countP (·.isMkdir) ∧
        report.written = (newFiles tree ran.2).length ∧
        report.written + report.skipped = operations.countP (·.isWrite) ∧
        (∀ place, tree.get? place = none → ((ran.2.get? place).isSome ↔
          ∃ operation ∈ operations, place <+: operation.place)) ∧
        ∀ place content, tree.get? place = none → ran.2.get? place = some (.file content) →
          ∃ operation, firstWrite? operations place = some operation ∧
            content = (templates.content operation.path).toUTF8
      | .error error => ∃ index operation cause, error = .apply index operation cause ∧
          operations[index]? = some operation ∧
          ∃ report, apply storage templates (operations.take index) tree = (.ok report, ran.2) := by
  have coherent := reachable.coherent
  rcases ran : apply storage templates operations tree with ⟨outcome, after⟩
  cases outcome with
  | ok report =>
    have applied := Applied.of_run coherent ran
    refine ⟨applied.grown, applied.dirs, applied.written, applied.writes, ?_, ?_⟩
    · intro place missing
      simpa [missing] using applied.present place
    · intro place content missing found
      obtain ⟨first, among, same⟩ := applied.contents place content missing found
      exact ⟨first, among, Entry.file.inj same⟩
  | error error =>
    obtain ⟨done, operation, rest, file, report, rfl, rfl, finished, -⟩ := run_stops coherent ran
    have applied := Applied.of_run coherent finished
    refine ⟨applied.grown, done.length, operation, .notDirectory file.text, by simp, by simp, ?_⟩
    exact ⟨report, by simpa [apply] using finished⟩

-- Two paths for one file, one of them through a directory that nobody makes.
theorem apply_effect_beside_file :
    let tree := (mkfile "keep.md" none empty).2
    let operations := [Operation.write "keep.md", Operation.write "a/b/../x.txt",
      Operation.write "a/x.txt"]
    let ran := apply storage ⟨Dict.empty⟩ operations tree
    tree.Reachable ∧ ran.1 = .ok ⟨0, 1, 2⟩ ∧ ran.2.get? ["keep.md"] = some (.file .empty) ∧
      (newFiles tree ran.2).length = 1 := by
  intro tree operations ran
  have reachable : tree.Reachable := .mkfile "keep.md" none .empty
  have outcome : ran.1 = .ok ⟨0, 1, 2⟩ := by decide +kernel
  have kept : tree.get? ["keep.md"] = some (.file .empty) := by decide +kernel
  obtain ⟨grown, counts⟩ := apply_effect reachable ⟨Dict.empty⟩ operations
  change ran.2.Extends tree at grown
  change match ran.1 with | .ok report => _ | .error error => _ at counts
  rw [outcome] at counts
  exact ⟨reachable, outcome, grown _ _ kept, counts.2.1.symm⟩

end Scaffold.MemoryTree
