import Scaffold.Proofs.Apply.Effect

/-! Operations in another order. A run that ends well has a directory wherever one of its operations
needs one, so two runs over the same operations agree on what is a directory (`directory_of_perm`);
and where paths are written without detours, the operations that write to one place write the same
file. So all runs over one collection of operations that end well end alike (`apply_perm`). -/

namespace Scaffold

/-- The path is a join of names, none of which moves. -/
def Operation.IsDirect (operation : Operation) : Prop :=
  ∃ names : Location, names.Normal ∧ operation.path = "/".intercalate names

theorem Operation.IsDirect.path_eq {operation : Operation} (direct : operation.IsDirect) :
    operation.path = "/".intercalate operation.place := by
  obtain ⟨names, normal, path⟩ := direct
  have pieces : Path.pieces operation.path = names := by
    rw [path, Path.pieces_intercalate fun name present =>
      ⟨(normal name present).1, (normal name present).2.1⟩]
  rw [Operation.place, Location.ofSegments_eq, pieces, Location.ofSteps_of_normal normal, path]

namespace MemoryTree

variable {tree after later : MemoryTree} {templates : Templates} {operation : Operation}
  {place : Location}

theorem Extends.antisymm (first : after.Extends later) (second : later.Extends after) :
    after = later := by
  apply ext
  intro place
  cases found : after.get? place with
  | some entry => exact (second place entry found).symm
  | none =>
    cases other : later.get? place with
    | none => rfl
    | some entry => simp [first place entry other] at found

theorem directory_of_fulfil
    (found : (tree.fulfil templates operation).get? place = some .directory) :
    tree.get? place = some .directory ∨ place <+: operation.home := by
  have fromDirectories : (tree.withDirectories operation.home).get? place = some .directory →
      tree.get? place = some .directory ∨ place <+: operation.home := by
    intro made
    rw [get?_withDirectories] at made
    split at made
    next new => exact .inr new.1
    next => exact .inl made
  unfold fulfil at found
  cases kind : operation.kind with
  | mkdir =>
    simp only [kind] at found
    exact fromDirectories found
  | write =>
    simp only [kind] at found
    rw [get?_putNew] at found
    split at found
    next => simp [fileFor] at found
    next => exact fromDirectories found

theorem directory_of_run {index : Nat} {operations : List Operation} {report last : Report}
    (coherent : tree.Coherent)
    (ran : applyFrom storage templates index report operations tree = (.ok last, after))
    (found : after.get? place = some .directory) :
    tree.get? place = some .directory ∨ ∃ operation ∈ operations, place <+: operation.home := by
  revert found
  refine run_preserves (motive := fun done _ middle => middle.get? place = some .directory →
    tree.get? place = some .directory ∨ ∃ operation ∈ done, place <+: operation.home)
    ?_ [] coherent .inl ran
  intro done report middle operation before _ _ found
  rcases directory_of_fulfil found with old | within
  · rcases before old with start | ⟨other, member, within⟩
    · exact .inl start
    · exact .inr ⟨other, by simp [member], within⟩
  · exact .inr ⟨operation, by simp, within⟩

section Perm

variable {first second : List Operation} {report other : Report}

theorem directory_of_perm (coherent : tree.Coherent) (perm : first.Perm second)
    (ran : apply storage templates first tree = (.ok report, after))
    (applied : Applied templates tree second other later)
    (found : after.get? place = some .directory) : later.get? place = some .directory := by
  rcases directory_of_run coherent ran found with old | ⟨operation, member, within⟩
  · exact applied.grown _ _ old
  · have home := (applied.fulfilled operation (perm.mem_iff.mp member)).home
    by_cases same : place = operation.home
    · rw [same, home]
    · exact applied.coherent.above home within same

theorem fileFor_of_place (templates : Templates) {operation other : Operation}
    (direct : operation.IsDirect) (direct' : other.IsDirect)
    (same : operation.place = other.place) :
    fileFor templates operation = fileFor templates other := by
  rw [fileFor, fileFor, direct.path_eq, direct'.path_eq, same]

theorem mem_of_firstWrite? {operations : List Operation}
    (written : firstWrite? operations place = some operation) :
    operation ∈ operations ∧ operation.place = place := by
  have asked := List.find?_some written
  simp only [Bool.and_eq_true, decide_eq_true_eq] at asked
  exact ⟨List.mem_of_find?_eq_some written, asked.2⟩

/-- A file that one order of operations makes is made by the other, with the same content: its place
is no directory there, and whichever operation writes it there writes what is written here. -/
theorem file_of_perm {content : Content} (coherent : tree.Coherent) (perm : first.Perm second)
    (direct : ∀ operation ∈ first, operation.IsDirect)
    (ran : apply storage templates first tree = (.ok report, after))
    (ran' : apply storage templates second tree = (.ok other, later))
    (missing : tree.get? place = none) (found : after.get? place = some (.file content)) :
    later.get? place = some (.file content) := by
  have applied := Applied.of_run coherent ran
  have applied' := Applied.of_run coherent ran'
  obtain ⟨operation, written, held⟩ := applied.contents place content missing found
  obtain ⟨member, here⟩ := mem_of_firstWrite? written
  have there : (later.get? place).isSome :=
    (applied'.present place).mpr
      (.inr ⟨operation, perm.mem_iff.mp member, here ▸ List.prefix_rfl⟩)
  obtain ⟨entry, found'⟩ := Option.isSome_iff_exists.mp there
  cases entry with
  | directory =>
    have apart := directory_of_perm coherent perm.symm ran' applied found'
    rw [found] at apart
    cases apart
  | file content' =>
    obtain ⟨operation', written', held'⟩ := applied'.contents place content' missing found'
    obtain ⟨member', here'⟩ := mem_of_firstWrite? written'
    have same : fileFor templates operation' = fileFor templates operation :=
      fileFor_of_place templates (direct _ (perm.mem_iff.mpr member')) (direct _ member)
        (here'.trans here.symm)
    rw [found', held, held', same]

theorem extends_of_perm (coherent : tree.Coherent) (perm : first.Perm second)
    (direct : ∀ operation ∈ first, operation.IsDirect)
    (ran : apply storage templates first tree = (.ok report, after))
    (ran' : apply storage templates second tree = (.ok other, later)) : later.Extends after := by
  have applied := Applied.of_run coherent ran
  have applied' := Applied.of_run coherent ran'
  intro place entry found
  cases old : tree.get? place with
  | some before =>
    rw [applied.grown _ _ old] at found
    exact found ▸ applied'.grown _ _ old
  | none =>
    cases entry with
    | directory => exact directory_of_perm coherent perm ran applied' found
    | file content => exact file_of_perm coherent perm direct ran ran' old found

theorem report_of_perm (perm : first.Perm second)
    (applied : Applied templates tree first report after)
    (applied' : Applied templates tree second other after) : report = other := by
  have dirs : report.dirs = other.dirs := by rw [applied.dirs, applied'.dirs, perm.countP_eq]
  have written : report.written = other.written := by rw [applied.written, applied'.written]
  have writes : report.written + report.skipped = other.written + other.skipped := by
    rw [applied.writes, applied'.writes, perm.countP_eq]
  cases report
  cases other
  simp only at dirs written writes
  subst dirs written
  rw [Nat.add_left_cancel writes]

/-- Operations whose paths are written without detours may be carried out in any order: where two
orders both end well, they leave the same tree and give the same report. -/
theorem apply_perm (reachable : tree.Reachable) (templates : Templates) (perm : first.Perm second)
    (direct : ∀ operation ∈ first, operation.IsDirect)
    (ran : (apply storage templates first tree).1 = .ok report)
    (ran' : (apply storage templates second tree).1 = .ok other) :
    apply storage templates first tree = apply storage templates second tree := by
  have coherent := reachable.coherent
  have direct' : ∀ operation ∈ second, operation.IsDirect :=
    fun operation member => direct operation (perm.mem_iff.mpr member)
  rcases run : apply storage templates first tree with ⟨outcome, after⟩
  rcases run' : apply storage templates second tree with ⟨outcome', later⟩
  rw [run] at ran
  rw [run'] at ran'
  subst ran ran'
  have same : after = later :=
    (extends_of_perm coherent perm.symm direct' run' run).antisymm
      (extends_of_perm coherent perm direct run run')
  subst same
  rw [report_of_perm perm (.of_run coherent run) (.of_run coherent run')]

-- The second order writes first into a directory that it makes only later.
theorem apply_perm_of_late_directory :
    let templates := Templates.ofList [("txt", "text")]
    let first := [Operation.mkdir "a", Operation.write "a/b.txt", Operation.write "a/b.txt",
      Operation.mkdir "a/c"]
    let second := [Operation.write "a/b.txt", Operation.mkdir "a/c", Operation.write "a/b.txt",
      Operation.mkdir "a"]
    first.Perm second ∧
      (apply storage templates first empty).1 = .ok ⟨2, 1, 1⟩ ∧
      apply storage templates first empty = apply storage templates second empty := by
  intro templates first second
  have perm : first.Perm second := by decide
  have names : ∀ operation ∈ first, operation.IsDirect := by
    intro operation member
    simp only [first, List.mem_cons, List.not_mem_nil, or_false] at member
    rcases member with rfl | rfl | rfl | rfl
    · exact ⟨["a"], by decide, by decide⟩
    · exact ⟨["a", "b.txt"], by decide, by decide⟩
    · exact ⟨["a", "b.txt"], by decide, by decide⟩
    · exact ⟨["a", "c"], by decide, by decide⟩
  have ran : (apply storage templates first empty).1 = .ok ⟨2, 1, 1⟩ := by decide +kernel
  have ran' : (apply storage templates second empty).1 = .ok ⟨2, 1, 1⟩ := by decide +kernel
  exact ⟨perm, ran, apply_perm .empty templates perm names ran ran'⟩

end Perm
end MemoryTree
end Scaffold
