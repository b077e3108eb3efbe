import Scaffold.Proofs.Storage.Agreement
import Scaffold.Proofs.Storage.Confined

/-! What the requests to a directory's tree change on a host with links: nothing beyond the
directory that its root leads to, and no link (`performOnHost_confined`). Each step of a request
looks at what stands in its way before it goes on, so one lemma a step says where the host may
differ afterwards (`makeAlong_confined`, `mkfile_confined`, `applyOne_confined`). -/

namespace Scaffold

namespace DirectoryTree

variable {tree : DirectoryTree} {base place : Location} {world : World} {root built path : String}

theorem makeAlong_step {name : String}
    (resolves : Disk.Resolves world.disk world.cwd (Path.join built name) place) (path : String)
    (names : List String) :
    (∃ fault, (makeAlong path built (name :: names) : StateM World _) world =
      (.error fault, world)) ∨
      (world.disk.get? place = none ∧
        (makeAlong path built (name :: names) : StateM World _) world =
          (makeAlong path (Path.join built name) names : StateM World _)
            { world with disk := world.disk.put place .directory }) ∨
      (world.disk.get? place = some .directory ∧
        (makeAlong path built (name :: names) : StateM World _) world =
          (makeAlong path (Path.join built name) names : StateM World _) world) := by
  rw [makeAlong]
  cases resolves with
  | refused error unfit all =>
    left
    simp only [bind_apply, World.isLink_of_error (Disk.kind_of_refused all false),
      World.pathExists_of_error (Disk.kind_of_refused all true),
      World.createDir_of_error (Disk.createDir_of_refused all), Bool.false_eq_true, ↓reduceIte,
      pure_apply]
    exact ⟨_, rfl⟩
  | absent fit missing all =>
    refine .inr (.inl ⟨missing, ?_⟩)
    simp only [bind_apply, World.isLink_of_error (Disk.kind_of_absent all false),
      World.pathExists_of_error (Disk.kind_of_absent all true),
      World.createDir_of_ok (Disk.createDir_of_absent all), Bool.false_eq_true, ↓reduceIte]
  | found fit node there kept =>
    have itself := Disk.kind_of_found false (kept .keep (by simp))
    cases node with
    | link target =>
      left
      simp only [bind_apply, World.isLink_of_ok itself, Node.kind, decide_true, ↓reduceIte,
        pure_apply]
      exact ⟨_, rfl⟩
    | file content =>
      left
      have followed := Disk.kind_of_found true (kept .follow (by simp [Node.kind]))
      simp only [bind_apply, World.isLink_of_ok itself, World.pathExists_of_ok followed,
        World.isDir_of_ok followed, Node.kind, reduceCtorEq, decide_false, Bool.false_eq_true,
        ↓reduceIte, pure_apply]
      exact ⟨_, rfl⟩
    | directory =>
      refine .inr (.inr ⟨there, ?_⟩)
      have followed := Disk.kind_of_found true (kept .follow (by simp [Node.kind]))
      simp only [bind_apply, World.isLink_of_ok itself, World.pathExists_of_ok followed,
        World.isDir_of_ok followed, Node.kind, reduceCtorEq, decide_false, Bool.false_eq_true,
        decide_true, ↓reduceIte]

-- Each directory is looked at before it is entered, and what is made is made where nothing was; so
-- the walk never leaves the directories below `base`.
theorem makeAlong_confined (reached : Disk.Reached world.disk world.cwd root base)
    (continues : Path.Continues root place built) {names : List String}
    (normal : Location.Normal (place ++ names))
    (holder : world.disk.get? (base ++ place) = some .directory) (path : String) :
    let ran := (makeAlong path built names : StateM World _) world
    Confined .makes base [place ++ names] world ran.2 ∧
      (ran.1 = .ok () → ran.2.disk.get? (base ++ (place ++ names)) = some .directory) := by
  dsimp only
  induction names generalizing place built world with
  | nil =>
    rw [makeAlong, pure_apply, List.append_nil]
    exact ⟨.refl world, fun _ => holder⟩
  | cons name names ih =>
    rw [List.append_cons] at normal ⊢
    have step : (place ++ [name]).Normal := normal.of_within (List.prefix_append _ _)
    have onward := continues.snoc (step name (by simp))
    have resolves := reached.resolves onward step holder
    rw [List.append_assoc] at resolves
    obtain ⟨fault, stops⟩ | ⟨missing, makes⟩ | ⟨there, enters⟩ := makeAlong_step resolves path names
    · rw [stops]
      exact ⟨.refl world, by simp⟩
    · have onWay : base.OnWay [place ++ [name] ++ names] (base ++ (place ++ [name])) :=
        ⟨_, by simp, place ++ [name], by simp, List.prefix_append (place ++ [name]) names, rfl⟩
      have above : world.disk.get? (base ++ (place ++ [name])).dropLast = some .directory := by
        rwa [← List.append_assoc, List.dropLast_concat]
      have made : Confined .makes base [place ++ [name] ++ names] world
          { world with disk := world.disk.put (base ++ (place ++ [name])) .directory } :=
        .put onWay above ⟨missing, rfl⟩
      obtain ⟨later, arrived⟩ := ih (made.reached reached) onward normal (by simp)
      rw [makes]
      exact ⟨made.trans later, arrived⟩
    · rw [enters]
      exact ih reached onward normal there

theorem mkdir_confined (reached : Disk.Reached world.disk world.cwd tree.root base)
    (path : String) :
    let ran := (tree.mkdir path : StateM World _) world
    Confined .makes base [Location.ofText path] world ran.2 ∧
      (ran.1 = .ok () → ran.2.disk.get? (base ++ Location.ofText path) = some .directory) := by
  dsimp only
  unfold mkdir
  split
  next => exact ⟨.refl world, by simp [pure_apply]⟩
  next =>
    have holder : world.disk.get? (base ++ []) = some .directory := by
      rw [List.append_nil]
      exact reached.directory
    have along := makeAlong_confined reached (.refl reached.filled)
      (Location.normal_ofText path) holder (Location.ofText path).text
    rwa [List.nil_append] at along

theorem mkdir_text_confined (reached : Disk.Reached world.disk world.cwd tree.root base)
    (normal : place.Normal) :
    let ran := (tree.mkdir place.text : StateM World _) world
    Confined .makes base [place] world ran.2 ∧
      (ran.1 = .ok () → ran.2.disk.get? (base ++ place) = some .directory) := by
  have made := mkdir_confined reached place.text
  rwa [Location.ofText_text normal] at made

section Write

variable {change : Change} {above : Location} {name host : String} {content : Content}

/-- A file may come to stand there, if the host takes the path and no more than a file is there. -/
def MayPut (change : Change) (disk : Disk) (host : String) (place : Location) (content : Content) :
    Prop :=
  Disk.Accepts host → disk.Free place → change.Allows (disk.get? place) (.file content)

theorem writeFile_confined (reached : Disk.Reached world.disk world.cwd root base)
    (continues : Path.Continues root (above ++ [name]) host)
    (normal : (above ++ [name] : Location).Normal)
    (holder : world.disk.get? (base ++ above) = some .directory)
    (unlinked : Disk.Accepts host →
      ∀ target, world.disk.get? (base ++ above ++ [name]) ≠ some (.link target))
    (allowed : MayPut change world.disk host (base ++ above ++ [name]) content) :
    Confined change base [above ++ [name]] world
      ((DiskAccess.writeFile host content : StateM World _) world).2 := by
  have resolves := reached.resolves continues normal holder
  rcases resolves.writeFile_cases unlinked content with ⟨error, refused⟩ | ⟨fit, free, written⟩
  · rw [World.writeFile_of_error refused]
    exact .refl world
  · rw [World.writeFile_of_ok written]
    refine .put ⟨_, by simp, above ++ [name], by simp, List.prefix_rfl, ?_⟩ ?_ (allowed fit free)
    · rw [List.append_assoc]
    · rwa [List.dropLast_concat]

-- A link in the way of the file was there before the directories above it were made.
theorem writeBelow_confined (reached : Disk.Reached world.disk world.cwd tree.root base)
    (continues : Path.Continues tree.root (above ++ [name]) host)
    (normal : (above ++ [name] : Location).Normal)
    (asked : (DiskAccess.isLink host : StateM World Bool) world = (false, world))
    (allowed : MayPut change world.disk host (base ++ above ++ [name]) content) :
    Confined change base [above ++ [name]] world
      ((do match ← tree.mkdir above.text with
          | .error fault => return .error fault
          | .ok () => return (← DiskAccess.writeFile host content).mapError .disk :
        StateM World (Except Fault Unit)) world).2 := by
  obtain ⟨made, arrived⟩ :=
    mkdir_text_confined reached (normal.of_within (List.prefix_append above [name]))
  rw [bind_apply]
  rcases ran : (tree.mkdir above.text : StateM World _) world with ⟨outcome, middle⟩
  rw [ran] at made arrived
  have first : Confined change base [above ++ [name]] world middle :=
    made.of_makes change (by simp)
  cases outcome with
  | error fault =>
    simp only [pure_apply]
    exact first
  | ok _ =>
    simp only [bind_apply, pure_apply]
    have same := made.aside (Location.not_onWay_below base above name)
    have unlinked : Disk.Accepts host →
        ∀ target, middle.disk.get? (base ++ above ++ [name]) ≠ some (.link target) := by
      intro fit target linked
      rw [same] at linked
      rw [World.isLink_of_ok (reached.kind_itself continues normal fit linked)] at asked
      cases asked
    rw [MayPut, Disk.Free, ← same] at allowed
    exact first.trans (writeFile_confined (made.reached reached) continues normal (arrived rfl)
      unlinked allowed)

theorem mkfile_confined (reached : Disk.Reached world.disk world.cwd tree.root base)
    (named : Location.ofText path = place) (content : Option Content)
    (allowed : MayPut change world.disk (tree.hostPath path) (base ++ place)
      (content.getD .empty)) :
    Confined change base [place] world
      ((tree.mkfile path content : StateM World _) world).2 := by
  have normal : place.Normal := named ▸ Location.normal_ofText path
  have continues : Path.Continues tree.root place (tree.hostPath path) :=
    named ▸ continues_hostPath reached.filled path
  obtain ⟨isLink, askedLink⟩ : ∃ yes, (DiskAccess.isLink (tree.hostPath path) :
    StateM World Bool) world = (yes, world) := ⟨_, World.isLink_apply _ _⟩
  obtain ⟨isDir, askedDir⟩ : ∃ yes, (DiskAccess.isDir (tree.hostPath path) :
    StateM World Bool) world = (yes, world) := ⟨_, World.isDir_apply _ _⟩
  unfold mkfile
  rw [named]
  cases isLink with
  | true =>
    simp only [bind_apply, askedLink, ↓reduceIte, pure_apply]
    exact .refl world
  | false =>
    cases isDir with
    | true =>
      simp only [bind_apply, askedLink, askedDir, Bool.false_eq_true, ↓reduceIte, pure_apply]
      exact .refl world
    | false =>
      simp only [bind_apply, askedLink, askedDir, Bool.false_eq_true, ↓reduceIte]
      by_cases top : place = []
      · subst top
        simp only [Location.parent?, ↓reduceIte, bind_apply, pure_apply]
        rcases reached.resolves_root continues with ⟨error, all⟩ | found
        · rw [World.writeFile_of_error (Disk.writeFile_of_refused all _)]
          exact .refl world
        · rw [World.isDir_of_ok (Disk.kind_of_found true found)] at askedDir
          cases askedDir
      · obtain ⟨above, name, rfl⟩ := (List.eq_nil_or_concat place).resolve_left top
        rw [List.concat_eq_append] at normal continues allowed top ⊢
        rw [← List.append_assoc] at allowed
        simp only [Location.parent?, top, ↓reduceIte, List.dropLast_concat]
        exact writeBelow_confined reached continues normal askedLink allowed

end Write

section Questions

theorem holds_apply (tree : DirectoryTree) (path : String) (world : World) :
    (tree.holds path : StateM World Bool) world =
      ((world.disk.kind world.cwd false (tree.hostPath path)).toOption.isSome, world) := rfl

theorem asks_holds (tree : DirectoryTree) (path : String) :
    Asks (tree.holds path : StateM World Bool) := fun _ => rfl

theorem asks_isDir (tree : DirectoryTree) (path : String) :
    Asks (tree.isDir path : StateM World _) := by
  refine .bind (fun _ => rfl) fun there => ?_
  cases there with
  | true => exact .bind (fun _ => rfl) fun _ => .pure _
  | false => exact .pure _

theorem asks_isFile (tree : DirectoryTree) (path : String) :
    Asks (tree.isFile path : StateM World _) := by
  refine .bind (fun _ => rfl) fun there => ?_
  cases there with
  | true => exact .bind (fun _ => rfl) fun _ => .pure _
  | false => exact .pure _

theorem asks_read (tree : DirectoryTree) (path : String) :
    Asks (tree.read path : StateM World _) := by
  refine (asks_isDir tree path).andThen (fun _ => .pure _) fun isDir => ?_
  cases isDir with
  | true => exact .pure _
  | false => exact .bind (fun _ => rfl) fun _ => .pure _

theorem asks_visit {below : String → Location → StateM World (Except Fault (List Location))}
    (inside : ∀ host place, Asks (below host place)) (host : String) (place : Location)
    (names : List String) : Asks (visit below host place names) := by
  induction names with
  | nil => exact .pure _
  | cons name names ih =>
    refine .bind (fun _ => rfl) fun isDir => ?_
    cases isDir with
    | true =>
      refine (inside _ _).andThen (fun _ => .pure _) fun found => ?_
      exact ih.andThen (fun _ => .pure _) fun _ => .pure _
    | false =>
      refine (Asks.pure _).andThen (fun _ => .pure _) fun found => ?_
      exact ih.andThen (fun _ => .pure _) fun _ => .pure _

theorem asks_readBelow (depth : Nat) (host : String) (place : Location) :
    Asks (readBelow depth host place : StateM World _) := by
  induction depth generalizing host place with
  | zero => exact .pure _
  | succ depth ih =>
    refine Asks.andThen (fun _ => rfl) (fun _ => .pure _) fun names => ?_
    exact asks_visit ih host place _

theorem asks_listing (tree : DirectoryTree) (path : String) :
    Asks (tree.listing path : StateM World _) := by
  refine (asks_isFile tree _).andThen (fun _ => .pure _) fun isFile => ?_
  cases isFile with
  | true => exact .pure _
  | false => exact asks_readBelow _ _ _

end Questions

section Apply

variable (templates : Templates)

theorem missing_of_holds (reached : Disk.Reached world.disk world.cwd tree.root base)
    (named : Location.ofText path = place) (filled : place ≠ [])
    (fit : Disk.Accepts (tree.hostPath path))
    (asked : (tree.holds path : StateM World Bool) world = (false, world)) :
    world.disk.get? (base ++ place) = none := by
  have normal : place.Normal := named ▸ Location.normal_ofText path
  have continues : Path.Continues tree.root place (tree.hostPath path) :=
    named ▸ continues_hostPath reached.filled path
  obtain ⟨above, name, rfl⟩ := (List.eq_nil_or_concat place).resolve_left filled
  rw [List.concat_eq_append] at normal continues ⊢
  rw [← List.append_assoc]
  cases found : world.disk.get? (base ++ above ++ [name]) with
  | none => rfl
  | some node =>
    have itself := reached.kind_itself continues normal fit found
    rw [holds_apply, itself] at asked
    cases asked

theorem writeNew_confined (reached : Disk.Reached world.disk world.cwd tree.root base)
    (normal : place.Normal) (report : Report) (content : Content) :
    Confined .adds base [place] world
      ((writeNew tree.storage report place content : StateM World _) world).2 := by
  have named := Location.ofText_text normal
  obtain ⟨there, asked⟩ : ∃ yes, (tree.holds place.text : StateM World Bool) world =
    (yes, world) := ⟨_, holds_apply tree place.text world⟩
  unfold writeNew
  dsimp only [storage]
  rw [bind_apply, asked]
  cases there with
  | true => exact .refl world
  | false =>
    simp only [Bool.false_eq_true, ↓reduceIte]
    rw [Asks.after (by intro made; cases made <;> exact .pure _)]
    refine mkfile_confined reached named (some content) fun fit free => ?_
    have filled : place ≠ [] := by
      rintro rfl
      rw [List.append_nil] at free
      exact absurd (free _ reached.directory) (by decide)
    exact ⟨missing_of_holds reached named filled fit asked, by simp [Node.kind]⟩

theorem applyOne_confined (reached : Disk.Reached world.disk world.cwd tree.root base)
    (report : Report) (operation : Operation) :
    Confined .adds base [operation.place] world
      ((applyOne tree.storage templates report operation : StateM World _) world).2 := by
  obtain ⟨kind, path⟩ := operation
  obtain ⟨place, named⟩ : ∃ place, Location.ofSegments path = place := ⟨_, rfl⟩
  have normal : place.Normal := named ▸ Location.normal_ofSegments path
  have target : (Operation.mk kind path).place = place := named
  rw [target]
  cases kind with
  | mkdir =>
    have same : (⟨.mkdir, path⟩ : Operation) = .mkdir path := rfl
    rw [same, applyOne_mkdir_eq _ _ _ named]
    rw [Asks.after (by intro made; cases made <;> exact .pure _)]
    exact (mkdir_text_confined reached normal).1.of_makes .adds (by simp)
  | write =>
    have written := fun {later : World} (kept : Disk.Reached later.disk later.cwd tree.root base) =>
      writeNew_confined kept normal report (templates.content path).toUTF8
    have same : (⟨.write, path⟩ : Operation) = .write path := rfl
    rw [same, applyOne_write_eq _ _ _ named, Location.parent?]
    by_cases top : place = []
    · rw [if_pos top]
      exact written reached
    · rw [if_neg top]
      obtain ⟨made, -⟩ := mkdir_text_confined reached
        (normal.of_within (List.dropLast_prefix place))
      have first : Confined .adds base [place] world _ :=
        made.of_makes .adds (by simp [List.dropLast_prefix])
      simp only [bind_apply]
      dsimp only [storage]
      rcases ran : (tree.mkdir (Location.text place.dropLast) : StateM World _) world with
        ⟨outcome, middle⟩
      rw [ran] at made first
      cases outcome with
      | error fault => exact first
      | ok _ => exact first.trans (written (made.reached reached))

theorem applyFrom_confined (reached : Disk.Reached world.disk world.cwd tree.root base)
    (index : Nat) (report : Report) (operations : List Operation) :
    Confined .adds base (operations.map Operation.place) world
      ((applyFrom tree.storage templates index report operations : StateM World _) world).2 := by
  induction operations generalizing index report world with
  | nil => exact .refl world
  | cons operation operations ih =>
    have one := applyOne_confined templates reached report operation
    have first : Confined .adds base ((operation :: operations).map Operation.place) world _ :=
      one.widen (by simp)
    rw [applyFrom, bind_apply]
    rcases ran : (applyOne tree.storage templates report operation : StateM World _) world with
      ⟨outcome, middle⟩
    rw [ran] at one first
    cases outcome with
    | error fault => exact first
    | ok counted =>
      have later := ih (one.reached reached) (index + 1) counted
      exact first.trans (later.widen (List.subset_cons_self _ _))

end Apply
end DirectoryTree

namespace Request

def targets : Request → List Location
  | mkdir path | mkfile path _ => [Location.ofText path]
  | apply _ operations => operations.map Operation.place
  | holds _ | isDir _ | isFile _ | read _ | listing _ => []

variable {tree : DirectoryTree} {base : Location} {world : World}

theorem apply_confined (reached : Disk.Reached world.disk world.cwd tree.root base)
    (templates : Templates) (operations : List Operation) :
    Confined .adds base (operations.map Operation.place) world
      (((apply templates operations).perform tree.storage tree.listing :
        StateM World Reply) world).2 := by
  rw [perform, Asks.after (fun _ => .pure _)]
  exact DirectoryTree.applyFrom_confined templates reached 0 {} operations

theorem perform_confined (reached : Disk.Reached world.disk world.cwd tree.root base)
    (request : Request) :
    Confined .writes base request.targets world
      ((request.perform tree.storage tree.listing : StateM World Reply) world).2 := by
  have question {α : Type} {ask : StateM World α} {reply : α → StateM World Reply}
      (asks : Asks ask) (replies : ∀ a, Asks (reply a)) :
      Confined .writes base request.targets world ((ask >>= reply) world).2 := by
    rw [(asks.bind replies) world]
    exact .refl world
  cases request with
  | mkdir path =>
    rw [perform, Asks.after (fun _ => .pure _)]
    exact (DirectoryTree.mkdir_confined reached path).1.of_makes .writes (by simp [targets])
  | mkfile path content =>
    rw [perform, Asks.after (fun _ => .pure _)]
    refine DirectoryTree.mkfile_confined reached rfl content fun _ free => ?_
    exact ⟨by simp [Node.kind], fun other same => ⟨free other same, rfl⟩⟩
  | apply templates operations =>
    exact (apply_confined reached templates operations).mono
      (fun _ _ allows => allows.to_writes) fun target present => ⟨target, present, List.prefix_rfl⟩
  | holds path => exact question (DirectoryTree.asks_holds tree path) fun _ => .pure _
  | isDir path => exact question (DirectoryTree.asks_isDir tree path) fun _ => .pure _
  | isFile path => exact question (DirectoryTree.asks_isFile tree path) fun _ => .pure _
  | read path => exact question (DirectoryTree.asks_read tree path) fun _ => .pure _
  | listing path => exact question (DirectoryTree.asks_listing tree path) fun _ => .pure _

theorem apply_snoc_confined (reached : Disk.Reached world.disk world.cwd tree.root base)
    (templates : Templates) (operations : List Operation) (operation : Operation) :
    let run (operations : List Operation) :=
      (((apply templates operations).perform tree.storage tree.listing :
        StateM World Reply) world).2
    Confined .adds base [operation.place] (run operations) (run (operations ++ [operation])) := by
  intro run
  have run_eq (operations : List Operation) : run operations =
      ((applyFrom tree.storage templates 0 {} operations : StateM World _) world).2 := by
    dsimp only [run]
    rw [perform, Asks.after (fun _ => .pure _)]
    rfl
  have done := DirectoryTree.applyFrom_confined templates reached 0 {} operations
  rw [run_eq, run_eq, applyFrom_append]
  rcases ran : (applyFrom tree.storage templates 0 {} operations : StateM World _) world with
    ⟨outcome, middle⟩
  rw [ran] at done
  cases outcome with
  | error error => exact .refl middle
  | ok counted =>
    exact DirectoryTree.applyFrom_confined templates (done.reached reached)
      (0 + operations.length) counted [operation]

theorem performOnHost_cons (request : Request) (requests : List Request) :
    (performOnHost tree (request :: requests) world).2 =
      (performOnHost tree requests
        ((request.perform tree.storage tree.listing : StateM World Reply) world).2).2 := by
  rw [performOnHost, performAll, bind_apply, Asks.after (fun _ => .pure _)]
  rfl

theorem performOnHost_append (first second : List Request) :
    (performOnHost tree (first ++ second) world).2 =
      (performOnHost tree second (performOnHost tree first world).2).2 := by
  induction first generalizing world with
  | nil => rfl
  | cons request requests ih => rw [List.cons_append, performOnHost_cons, performOnHost_cons, ih]

theorem performAll_confined (reached : Disk.Reached world.disk world.cwd tree.root base)
    (requests : List Request) :
    Confined .writes base (requests.flatMap targets) world
      (performOnHost tree requests world).2 := by
  induction requests generalizing world with
  | nil => exact .refl world
  | cons request requests ih =>
    have one := perform_confined reached request
    rw [performOnHost_cons]
    have later := ih (one.reached reached)
    rw [List.flatMap_cons]
    exact (one.widen (List.subset_append_left _ _)).trans
      (later.widen (List.subset_append_right _ _))

theorem performOnHost_snoc (requests : List Request) (request : Request) :
    (performOnHost tree (requests ++ [request]) world).2 =
      ((request.perform tree.storage tree.listing : StateM World Reply)
        (performOnHost tree requests world).2).2 :=
  (performOnHost_append requests [request]).trans (performOnHost_cons request [])

/-- On a host with links, let the root of a tree lead to the directory `base`. Whatever is asked of
the tree, what lies outside that directory stays as it is, and so do the links and the directories
in it. A request changes only places on the way down to what it names, each of them reached through
directories alone. A run of operations leaves all that it found, and each of them changes only
places on the way down to its own. -/
theorem performOnHost_confined (host : Location.IsTree world.disk.get? .directory)
    (root : world.disk.find world.cwd .follow tree.root = .ok (base, .directory))
    (earlier : List Request) (request : Request) :
    let left (requests : List Request) := (performOnHost tree requests world).2
    let before := left earlier
    let after := left (earlier ++ [request])
    after = { world with disk := after.disk } ∧
    after.disk.find after.cwd .follow tree.root = .ok (base, .directory) ∧
    (∀ place, ¬ base <+: place → after.disk.get? place = world.disk.get? place) ∧
    (∀ place node, world.disk.get? place = some node → node.kind ≠ .file →
      after.disk.get? place = some node) ∧
    (∀ place, after.disk.get? place ≠ before.disk.get? place →
      base.OnWay request.targets place ∧
      (∃ node, after.disk.get? place = some node ∧ node.kind ≠ .link) ∧
      ∀ higher, higher <+: place → higher ≠ place →
        after.disk.get? higher = some .directory) ∧
    (∀ templates operations, request = .apply templates operations →
      ∀ place node, before.disk.get? place = some node →
        after.disk.get? place = some node) ∧
    (∀ templates operations operation, request = .apply templates (operations ++ [operation]) →
      ∀ place, after.disk.get? place ≠
          (left (earlier ++ [.apply templates operations])).disk.get? place →
        base.OnWay [operation.place] place) := by
  intro left before after
  obtain ⟨fit, reached⟩ := Disk.Reached.of_find host root
  have sooner := performAll_confined reached earlier
  have whole : Confined .writes base _ world after := performAll_confined reached _
  have reachedBefore := sooner.reached reached
  have last : after = _ := performOnHost_snoc earlier request
  have step : Confined .writes base request.targets before after :=
    last ▸ perform_confined reachedBefore request
  refine ⟨whole.others, (whole.reached reached).find fit, fun _ => whole.outside,
    fun _ _ => whole.kept, ?_, ?_, ?_⟩
  · intro place changed
    obtain ⟨onWay, node, found, allowed⟩ := (step.each place).resolve_left changed
    exact ⟨onWay, ⟨node, found, allowed.not_link⟩, fun _ => (whole.tree host).above found⟩
  · rintro templates operations rfl place node
    have added : Confined .adds base (operations.map Operation.place) before after :=
      last ▸ apply_confined reachedBefore templates operations
    exact added.added
  · rintro templates operations operation rfl place changed
    have own : Confined .adds base [operation.place]
        (left (earlier ++ [.apply templates operations])) after := by
      rw [last, show left _ = _ from performOnHost_snoc earlier _]
      exact apply_snoc_confined reachedBefore templates operations operation
    exact ((own.each place).resolve_left changed).1

-- The root is a link itself; below it one link leads out of the directory and one leads nowhere.
theorem performOnHost_confined_past_links :
    let disk := ((((Disk.blank.put ["data"] .directory).put ["srv"] (.link "data")).put ["etc"]
      .directory).put ["data", "out"] (.link "/etc")).put ["data", "gone"] (.link "nowhere")
    let world : World := { disk }
    let tree : DirectoryTree := ⟨"/srv"⟩
    let requests : List Request := [.mkfile "out/conf" none, .mkdir "out/new"]
    let request : Request := .apply ⟨Dict.empty⟩ [.write "gone", .write "out/log"]
    let after := (performOnHost tree (requests ++ [request]) world).2
    Location.IsTree world.disk.get? .directory ∧
      world.disk.find world.cwd .follow tree.root = .ok (["data"], .directory) ∧
      (∀ name, after.disk.get? ["etc", name] = none) ∧
      after.disk.get? ["data", "gone"] = some (.link "nowhere") ∧
      after.disk.get? ["nowhere"] = none := by
  intro disk world tree requests request after
  have host : Location.IsTree disk.get? .directory := by
    refine Disk.isTree_put (Disk.isTree_put (Disk.isTree_put (Disk.isTree_put
      (Disk.isTree_put Disk.Plain.blank.toIsTree ?_ ?_ _) ?_ ?_ _) ?_ ?_ _) ?_ ?_ _) ?_ ?_ _
    all_goals simp [Disk.get?_blank]
  have leads : Disk.Leads disk Disk.linkLimit [] (Path.pieces "/srv") 39 ["data"] := by
    have split : Path.pieces "/srv" = ["srv"] := by decide +kernel
    have target : Disk.steps "data" = ["data"] := by decide +kernel
    have top : disk.get? [] = some .directory := by simp [disk, Disk.get?_blank]
    have link : disk.get? ([] ++ ["srv"]) = some (.link "data") := by simp [disk]
    rw [split]
    refine .follow top ⟨by decide, by decide, by decide⟩ link ?_
    rw [target]
    exact .enter top ⟨by decide, by decide, by decide⟩ (.here (by simp [disk]))
  have reached : Disk.Reached disk [] "/srv" ["data"] := ⟨host, by decide, 39, leads⟩
  have root : world.disk.find world.cwd .follow tree.root = .ok (["data"], .directory) :=
    reached.find (by decide +kernel)
  obtain ⟨-, -, outside, kept, -⟩ := performOnHost_confined host root requests request
  refine ⟨host, root, fun name => ?_, ?_, ?_⟩
  · rw [outside _ (by simp)]
    simp [world, disk, Disk.get?_blank]
  · exact kept _ _ (by simp [world, disk]) (by decide)
  · rw [outside _ (by simp)]
    simp [world, disk, Disk.get?_blank]

end Request
end Scaffold
