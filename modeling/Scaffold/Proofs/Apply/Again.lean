import Scaffold.Proofs.Apply.Effect

namespace Scaffold.MemoryTree

variable {tree after : MemoryTree} {templates : Templates} {operation : Operation}

theorem Fulfilled.free (fulfilled : tree.Fulfilled operation) (coherent : tree.Coherent) :
    tree.blocker? operation.home = none :=
  coherent.blocker?_of_directory fulfilled.home

theorem Fulfilled.tally (fulfilled : tree.Fulfilled operation) (report : Report) :
    tree.tally report operation =
      { report with
        dirs := report.dirs + [operation].countP (·.isMkdir)
        skipped := report.skipped + [operation].countP (·.isWrite) } := by
  have target := fulfilled.target
  unfold MemoryTree.tally
  unfold Operation.isWrite at target
  cases kind : operation.kind with
  | mkdir => simp [Operation.isMkdir, Operation.isWrite, kind]
  | write =>
    have there : (tree.get? operation.place).isSome := target (by simp [kind])
    simp [Operation.isMkdir, Operation.isWrite, kind, there]

theorem applyFrom_of_fulfilled (coherent : tree.Coherent) (templates : Templates)
    {operations : List Operation} (fulfilled : ∀ operation ∈ operations, tree.Fulfilled operation)
    (index : Nat) (report : Report) (rest : List Operation) :
    applyFrom storage templates index report (operations ++ rest) tree =
      applyFrom storage templates (index + operations.length)
        { report with
          dirs := report.dirs + operations.countP (·.isMkdir)
          skipped := report.skipped + operations.countP (·.isWrite) } rest tree := by
  induction operations generalizing index report with
  | nil => simp
  | cons operation operations ih =>
    have here := fulfilled operation (by simp)
    have later := ih fun other member => fulfilled other (by simp [member])
    rw [List.cons_append, applyFrom_cons coherent, here.free coherent, here.tally,
      fulfil_of_fulfilled coherent templates here]
    simp only [later, List.length_cons, Nat.add_assoc, Nat.add_comm 1, ← List.countP_append,
      List.singleton_append]

/-- A second run, with other templates or the same, leaves the tree as the first has left it. After a
run that ends well it finds every file there; after a run that fails it fails at the same
operation. -/
theorem apply_again (reachable : tree.Reachable) (first second : Templates)
    (operations : List Operation) :
    let ran := apply storage first operations tree
    let again := apply storage second operations ran.2
    again.2 = ran.2 ∧
      match ran.1 with
      | .ok report => again.1 = .ok ⟨report.dirs, 0, report.written + report.skipped⟩
      | .error error => again.1 = .error error ∧
          ∃ index operation cause, error = .apply index operation cause := by
  have coherent := reachable.coherent
  rcases ran : apply storage first operations tree with ⟨outcome, after⟩
  cases outcome with
  | ok report =>
    have applied := Applied.of_run coherent ran
    have repeated := applyFrom_of_fulfilled applied.coherent second applied.fulfilled 0 {} []
    have again : apply storage second operations after =
        (.ok ⟨report.dirs, 0, report.written + report.skipped⟩, after) := by
      rw [List.append_nil] at repeated
      rw [apply, repeated, applied.dirs, applied.writes]
      simp [applyFrom, pure_apply]
    simp only [again, and_self]
  | error error =>
    obtain ⟨done, operation, rest, file, report, rfl, rfl, finished, blocked⟩ :=
      run_stops coherent ran
    have applied := Applied.of_run coherent finished
    have repeated := applyFrom_of_fulfilled applied.coherent second applied.fulfilled 0 {}
      (operation :: rest)
    have again : apply storage second (done ++ operation :: rest) after =
        (.error (.apply (0 + done.length) operation (.notDirectory file.text)), after) := by
      rw [apply, repeated, applyFrom_cons applied.coherent, blocked]
    simp only [again, true_and]
    exact ⟨_, _, _, rfl⟩

-- The second operation meets a file that the first has written.
theorem apply_again_after_failure :
    let first := Templates.ofList [("txt", "first")]
    let second := Templates.ofList [("txt", "second")]
    let operations := [Operation.write "a/notes.txt", Operation.mkdir "a/notes.txt/old"]
    let ran := apply storage first operations empty
    let again := apply storage second operations ran.2
    empty.Reachable ∧ again.2 = ran.2 ∧ ran.2.get? ["a", "notes.txt"] = some (.file "first".toUTF8) ∧
      again.1 = .error (.apply 1 (Operation.mkdir "a/notes.txt/old") (.notDirectory "/a/notes.txt")) := by
  intro first second operations ran again
  have outcome : ran.1 = .error
      (.apply 1 (Operation.mkdir "a/notes.txt/old") (.notDirectory "/a/notes.txt")) := by
    decide +kernel
  have written : ran.2.get? ["a", "notes.txt"] = some (.file "first".toUTF8) := by decide +kernel
  obtain ⟨kept, same⟩ := apply_again .empty first second operations
  change match ran.1 with | .ok report => _ | .error error => _ at same
  rw [outcome] at same
  exact ⟨.empty, kept, written, same.1⟩

end Scaffold.MemoryTree
