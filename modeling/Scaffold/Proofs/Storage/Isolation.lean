import Scaffold.Proofs.Disk.Aside
import Scaffold.Proofs.Disk.Reach
import Scaffold.Proofs.Storage.Mirror

/-! What the answers of a directory's tree depend on. On two hosts that are the same below the
directory (`SameBelow`) a question has one answer as long as no path that it asks the host for leads
the host to look aside of the directory (`queries_isolated`). Only a link can do that
(`Disk.not_strays_of_unlinked`), and where one leads out the answers do differ
(`queries_read_through_link`). -/

namespace Scaffold

/-- The path leads to the directory `base`, and then `left` links may still be followed. -/
def World.LeadsTo (path : String) (base : Location) (left : Nat) (world : World) : Prop :=
  Disk.Leads world.disk Disk.linkLimit (if Path.isRooted path then [] else world.cwd)
    (Path.pieces path) left base

/-- Two hosts on which `root` leads to one directory, along as many links, and which have the same in
that directory. -/
structure SameBelow (root : String) (base : Location) (left : Nat) (one other : World) : Prop where
  filled : root ≠ ""
  tree : Location.IsTree one.disk.get? .directory
  treeOther : Location.IsTree other.disk.get? .directory
  leads : one.LeadsTo root base left
  leadsOther : other.LeadsTo root base left
  below : ∀ place, base <+: place → other.disk.get? place = one.disk.get? place
  normal : ∀ (place : Location) (node : Node), base <+: place →
    one.disk.get? place = some node → place.Normal

def At (one other : World) : World → World → Prop := fun a b => a = one ∧ b = other

namespace SameBelow

variable {root path host : String} {base place goal rest : Location} {left : Nat} {one other : World}
  {ending : Disk.Ending} {meant : Bool}

theorem near (same : SameBelow root base left one other) (near : base.Near place) :
    other.disk.get? place = one.disk.get? place := by
  rcases near with above | within
  · by_cases here : place = base
    · exact same.below place (here ▸ List.prefix_rfl)
    · rw [same.tree.above same.leads.goal_directory above here,
        same.treeOther.above same.leadsOther.goal_directory above here]
  · exact same.below place within

theorem find_eq (same : SameBelow root base left one other)
    (continues : Path.Continues root rest path)
    (through : rest = [] → ending = .follow ∨ ending = .keep ∧ Disk.endsInSlash path = true)
    (kept : meant = true → ending = .keep)
    (steady : ¬ Disk.Strays one.disk base meant left base rest) :
    other.disk.find other.cwd ending path = one.disk.find one.cwd ending path := by
  have walked : Disk.walk other.disk ending Disk.linkLimit
      (if Path.isRooted path then [] else other.cwd) (Disk.steps path) (Disk.endsInSlash path) =
      Disk.walk one.disk ending Disk.linkLimit
        (if Path.isRooted path then [] else one.cwd) (Disk.steps path) (Disk.endsInSlash path) := by
    rw [continues.rooted, Disk.steps, continues.pieces]
    by_cases last : rest = []
    · rw [last, List.append_nil, same.leads.walk_through (through last),
        same.leadsOther.walk_through (through last)]
    · rw [same.leads.walk_append last, same.leadsOther.walk_append last, continues.unslashed last]
      exact Disk.walk_eq_of_near (fun place => same.near) (.inr List.prefix_rfl)
        (fun itself => .inr ⟨kept itself, rfl⟩) steady
  rw [Disk.find, Disk.find, Disk.locate, Disk.locate, walked]

theorem kind_simulates (followLinks : Bool)
    (found : other.disk.find other.cwd (if followLinks then .follow else .keep) path =
      one.disk.find one.cwd (if followLinks then .follow else .keep) path) :
    Simulates (At one other) (· = ·) (DiskAccess.kind followLinks path : StateM World _)
      (DiskAccess.kind followLinks path) := by
  rintro _ _ ⟨rfl, rfl⟩
  refine ⟨?_, rfl, rfl⟩
  rw [World.kind_apply, World.kind_apply, Disk.kind, Disk.kind, found]

section Follow
variable (same : SameBelow root base left one other)
  (continues : Path.Continues root rest path)
  (steady : ¬ Disk.Strays one.disk base false left base rest)
include same continues steady

theorem find_follow_eq :
    other.disk.find other.cwd .follow path = one.disk.find one.cwd .follow path :=
  same.find_eq continues (fun _ => .inl rfl) (by simp) steady

theorem kind_follow_simulates : Simulates (At one other) (· = ·)
    (DiskAccess.kind true path : StateM World _) (DiskAccess.kind true path) :=
  kind_simulates true (same.find_follow_eq continues steady)

theorem pathExists_simulates : Simulates (At one other) (· = ·)
    (DiskAccess.pathExists path : StateM World _) (DiskAccess.pathExists path) :=
  (same.kind_follow_simulates continues steady).map _

theorem isDir_simulates : Simulates (At one other) (· = ·)
    (DiskAccess.isDir path : StateM World _) (DiskAccess.isDir path) :=
  (same.kind_follow_simulates continues steady).map _

theorem isFile_simulates : Simulates (At one other) (· = ·)
    (DiskAccess.isFile path : StateM World _) (DiskAccess.isFile path) :=
  (same.kind_follow_simulates continues steady).map _

theorem readBytes_simulates : Simulates (At one other) (· = ·)
    (DiskAccess.readBytes path : StateM World _) (DiskAccess.readBytes path) := by
  rintro _ _ ⟨rfl, rfl⟩
  refine ⟨?_, rfl, rfl⟩
  rw [World.readBytes_apply, World.readBytes_apply, Disk.readBytes, Disk.readBytes,
    same.find_follow_eq continues steady]

end Follow

section Listing
variable (same : SameBelow root base left one other) (continues : Path.Continues root rest path)
  (steady : ∀ more : Location, more.Normal →
    ¬ Disk.Strays one.disk base false left base (rest ++ more))
include same continues steady

theorem goal_below (found : one.disk.find one.cwd .follow path = .ok (goal, .directory)) :
    base <+: goal := by
  have located := Disk.locate_of_find found
  rw [Disk.locate_of_ok located, continues.rooted, Disk.steps, continues.pieces] at located
  by_cases last : rest = []
  · rw [last, List.append_nil, same.leads.walk_follow] at located
    cases located
    exact List.prefix_rfl
  · rw [same.leads.walk_append last] at located
    obtain ⟨others, onward⟩ := Disk.leads_of_walk located
    exact onward.goal_below (.inr List.prefix_rfl) steady

theorem listDir_eq : other.disk.listDir other.cwd path = one.disk.listDir one.cwd path := by
  have found := same.find_follow_eq continues (by simpa using steady [] (by simp [Location.Normal]))
  rw [Disk.listDir, Disk.listDir, found]
  cases result : one.disk.find one.cwd .follow path with
  | error error => rfl
  | ok entry =>
    obtain ⟨goal, node⟩ := entry
    cases node with
    | file content => rfl
    | link target => rfl
    | directory =>
      have within := same.goal_below continues steady result
      have children : other.disk.children goal = one.disk.children goal := by
        apply eq_of_sorted (other.disk.pairwise_children goal) (one.disk.pairwise_children goal)
        intro name
        rw [Disk.mem_children, Disk.mem_children,
          same.below _ (within.trans (List.prefix_append goal [name]))]
      exact congrArg Except.ok children

theorem listDir_simulates : Simulates (At one other)
    (fun a b => a = b ∧ ∀ names, a = .ok names → ∀ name ∈ names, Path.IsName name)
    (DiskListing.listDir path : StateM World _) (DiskListing.listDir path) := by
  rintro _ _ ⟨rfl, rfl⟩
  refine ⟨⟨(same.listDir_eq continues steady).symm, ?_⟩, rfl, rfl⟩
  intro names listed name member
  obtain ⟨⟨goal, node⟩, found, result⟩ := bind_eq_ok_iff.mp listed
  cases node with
  | file content => cases result
  | link target => cases result
  | directory =>
    cases result
    obtain ⟨node, there⟩ := Option.isSome_iff_exists.mp (Disk.mem_children.mp member)
    have within := (same.goal_below continues steady found).trans (List.prefix_append goal [name])
    exact same.normal _ node within there name (by simp)

end Listing

theorem visit_simulates {below : String → Location → StateM World (Except Fault (List Location))}
    {names : List String} (asks : ∀ name ∈ names, Simulates (At one other) (· = ·)
      (DiskAccess.isDir (Path.join host name) : StateM World _)
      (DiskAccess.isDir (Path.join host name)))
    (goes : ∀ name ∈ names, Simulates (At one other) (· = ·)
      (below (Path.join host name) (place ++ [name]))
      (below (Path.join host name) (place ++ [name]))) :
    Simulates (At one other) (· = ·) (DirectoryTree.visit below host place names)
      (DirectoryTree.visit below host place names) := by
  induction names with
  | nil => exact Simulates.pure rfl
  | cons name names ih =>
    have listed := ih (fun next member => asks next (by simp [member]))
      fun next member => goes next (by simp [member])
    rw [DirectoryTree.visit]
    refine (asks name (by simp)).onward fun directory => ?_
    cases directory with
    | false =>
      refine Simulates.onward (Simulates.pure rfl) fun found => ?_
      cases found with
      | error fault => exact Simulates.pure rfl
      | ok inside =>
        refine listed.onward fun answer => ?_
        cases answer <;> exact Simulates.pure rfl
    | true =>
      refine (goes name (by simp)).onward fun found => ?_
      cases found with
      | error fault => exact Simulates.pure rfl
      | ok inside =>
        refine listed.onward fun answer => ?_
        cases answer <;> exact Simulates.pure rfl

-- What is steady for all that lies below a directory is so for all that lies below one in it; this is
-- what the induction on the depth hands down.
theorem readBelow_simulates (same : SameBelow root base left one other)
    (continues : Path.Continues root rest host)
    (steady : ∀ more : Location, more.Normal →
      ¬ Disk.Strays one.disk base false left base (rest ++ more)) (depth : Nat)
    (place : Location) :
    Simulates (At one other) (· = ·) (DirectoryTree.readBelow depth host place : StateM World _)
      (DirectoryTree.readBelow depth host place) := by
  induction depth generalizing host rest place with
  | zero => exact Simulates.pure rfl
  | succ depth ih =>
    rw [DirectoryTree.readBelow]
    refine (same.listDir_simulates continues steady).bind ?_
    rintro answer _ ⟨rfl, proper⟩
    cases answer with
    | error error => exact Simulates.pure rfl
    | ok names =>
      have named {name : String} (member : name ∈ names.mergeSort fun a b => a ≤ b) :
          Path.IsName name := proper names rfl name (List.mem_mergeSort.mp member)
      have further {name : String} (proper : Path.IsName name) (more : Location)
          (normal : more.Normal) :
          ¬ Disk.Strays one.disk base false left base (rest ++ [name] ++ more) := by
        rw [List.append_assoc]
        exact steady _ ((Location.normal_singleton proper).append normal)
      refine visit_simulates (fun name member => ?_) fun name member => ?_
      · apply same.isDir_simulates (continues.snoc (named member))
        simpa using further (named member) [] (by simp [Location.Normal])
      · exact ih (continues.snoc (named member)) (further (named member)) _

end SameBelow

namespace DirectoryTree

variable {tree : DirectoryTree} {base : Location} {left : Nat} {one other : World} {path : String}

def AnswersAlike {α : Type} (one other : World) (question : StateM World α) : Prop :=
  (question one).1 = (question other).1

theorem answersAlike_of_simulates {α : Type} {question : StateM World α}
    (simulates : Simulates (At one other) (· = ·) question question) :
    AnswersAlike one other question :=
  (simulates one other ⟨rfl, rfl⟩).1

section Questions
variable (same : SameBelow tree.root base left one other)
include same

theorem holds_simulates
    (steady : ¬ Disk.Strays one.disk base true left base (Location.ofText path)) :
    Simulates (At one other) (· = ·) (tree.holds path : StateM World _) (tree.holds path) := by
  have found : other.disk.find other.cwd .keep (tree.hostPath path) =
      one.disk.find one.cwd .keep (tree.hostPath path) :=
    same.find_eq (continues_hostPath same.filled path)
      (fun top => .inr ⟨rfl, endsInSlash_hostPath same.filled top⟩) (fun _ => rfl) steady
  exact (SameBelow.kind_simulates false found).map _

section Follow
variable (steady : ¬ Disk.Strays one.disk base false left base (Location.ofText path))
include steady

theorem isDir_simulates :
    Simulates (At one other) (· = ·) (tree.isDir path : StateM World _) (tree.isDir path) := by
  have continues := continues_hostPath same.filled path
  refine (same.pathExists_simulates continues steady).onward fun there => ?_
  cases there with
  | false => exact Simulates.pure rfl
  | true => exact (same.isDir_simulates continues steady).map Except.ok

theorem isFile_simulates :
    Simulates (At one other) (· = ·) (tree.isFile path : StateM World _) (tree.isFile path) := by
  have continues := continues_hostPath same.filled path
  refine (same.pathExists_simulates continues steady).onward fun there => ?_
  cases there with
  | false => exact Simulates.pure rfl
  | true => exact (same.isFile_simulates continues steady).map Except.ok

theorem read_simulates :
    Simulates (At one other) (· = ·) (tree.read path : StateM World _) (tree.read path) := by
  refine (isDir_simulates same steady).onward fun answer => ?_
  cases answer with
  | error fault => exact Simulates.pure rfl
  | ok directory =>
    cases directory with
    | true => exact Simulates.pure rfl
    | false => exact (same.readBytes_simulates (continues_hostPath same.filled path) steady).map _

end Follow

theorem listing_simulates (steady : ∀ more : Location, more.Normal →
      ¬ Disk.Strays one.disk base false left base (Location.ofText path ++ more)) :
    Simulates (At one other) (· = ·) (tree.listing path : StateM World _) (tree.listing path) := by
  have again : Location.ofText (Location.ofText path).text = Location.ofText path :=
    Location.ofText_text (Location.normal_ofText path)
  have itself : ¬ Disk.Strays one.disk base false left base
      (Location.ofText (Location.ofText path).text) := by
    rw [again]
    simpa using steady [] (by simp [Location.Normal])
  refine (isFile_simulates same itself).onward fun answer => ?_
  cases answer with
  | error fault => exact Simulates.pure rfl
  | ok file =>
    cases file with
    | true => exact Simulates.pure rfl
    | false =>
      exact same.readBelow_simulates (continues_hostPath same.filled path) steady _ _

/-- On hosts that are the same below the directory of a tree, a question about a path has one answer
if the host does not look aside of the directory for it. Whether something is held is asked without
following a link at the end of the path; a listing also asks for all that lies further down. Only a
link on the way makes the host look aside. -/
theorem queries_isolated (path : String) :
    let place := Location.ofText path
    (¬ Disk.Strays one.disk base true left base place → AnswersAlike one other (tree.holds path)) ∧
    (¬ Disk.Strays one.disk base false left base place →
      AnswersAlike one other (tree.isDir path) ∧ AnswersAlike one other (tree.isFile path) ∧
        AnswersAlike one other (tree.read path)) ∧
    ((∀ more : Location, more.Normal →
        ¬ Disk.Strays one.disk base false left base (place ++ more)) →
      AnswersAlike one other (tree.listing path)) ∧
    ∀ meant (more : Location), more.Normal →
      (∀ above target, above <+: place ++ more →
        one.disk.get? (base ++ above) ≠ some (.link target)) →
      ¬ Disk.Strays one.disk base meant left base (place ++ more) := by
  intro place
  refine ⟨?_, ?_, ?_, ?_⟩
  · intro steady
    exact answersAlike_of_simulates (holds_simulates same steady)
  · intro steady
    exact ⟨answersAlike_of_simulates (isDir_simulates same steady),
      answersAlike_of_simulates (isFile_simulates same steady),
      answersAlike_of_simulates (read_simulates same steady)⟩
  · intro steady
    exact answersAlike_of_simulates (listing_simulates same steady)
  · intro meant more normal unlinked
    exact Disk.not_strays_of_unlinked List.prefix_rfl
      ((Location.normal_ofText path).append normal) unlinked

end Questions

section Answers
variable {world : World} {goal : Location} {content : Content} {error : DiskError}

theorem answers_of_missing (missing : ∀ followLinks,
      world.disk.kind world.cwd followLinks (tree.hostPath path) = .error error) :
    ((tree.holds path : StateM World _) world).1 = false ∧
      ((tree.isDir path : StateM World _) world).1 = .error (.missing path) ∧
      ((tree.isFile path : StateM World _) world).1 = .error (.missing path) ∧
      ((tree.read path : StateM World _) world).1 = .error (.missing path) ∧
      ((tree.listing path : StateM World _) world).1 =
        .error (.missing (Location.ofText path).text) := by
  have absent := World.pathExists_of_error (missing true)
  refine ⟨?_, ?_, ?_, ?_, ?_⟩
  · rw [DirectoryTree.holds, bind_apply, World.kind_apply, missing]
    rfl
  · simp only [DirectoryTree.isDir, bind_apply, absent, Bool.false_eq_true, ↓reduceIte, pure_apply]
  · simp only [DirectoryTree.isFile, bind_apply, absent, Bool.false_eq_true, ↓reduceIte, pure_apply]
  · simp only [DirectoryTree.read, DirectoryTree.isDir, bind_apply, absent, Bool.false_eq_true,
      ↓reduceIte, pure_apply]
  · simp only [DirectoryTree.listing, DirectoryTree.isFile, hostPath_text, bind_apply, absent,
      Bool.false_eq_true, ↓reduceIte, pure_apply]

theorem answers_of_file (found : ∀ ending,
      world.disk.find world.cwd ending (tree.hostPath path) = .ok (goal, .file content)) :
    ((tree.holds path : StateM World _) world).1 = true ∧
      ((tree.isDir path : StateM World _) world).1 = .ok false ∧
      ((tree.isFile path : StateM World _) world).1 = .ok true ∧
      ((tree.read path : StateM World _) world).1 = .ok content ∧
      ((tree.listing path : StateM World _) world).1 = .ok [Location.ofText path] := by
  have kind : ∀ followLinks,
      world.disk.kind world.cwd followLinks (tree.hostPath path) = .ok .file := by
    intro followLinks
    rw [Disk.kind, found]
    rfl
  have there := World.pathExists_of_ok (kind true)
  have bytes : world.disk.readBytes world.cwd (tree.hostPath path) = .ok content := by
    rw [Disk.readBytes, found]
    rfl
  have isDir : (DiskAccess.isDir (tree.hostPath path) : StateM World Bool) world =
      (false, world) := World.isDir_of_ok (kind true)
  have isFile : (DiskAccess.isFile (tree.hostPath path) : StateM World Bool) world =
      (true, world) := by
    rw [World.isFile_apply, kind]
    rfl
  refine ⟨?_, ?_, ?_, ?_, ?_⟩
  · rw [DirectoryTree.holds, bind_apply, World.kind_apply, kind]
    rfl
  · simp only [DirectoryTree.isDir, bind_apply, there, ↓reduceIte, isDir, pure_apply]
  · simp only [DirectoryTree.isFile, bind_apply, there, ↓reduceIte, isFile, pure_apply]
  · simp only [DirectoryTree.read, DirectoryTree.isDir, bind_apply, there, ↓reduceIte, isDir,
      pure_apply, World.readBytes_apply, bytes]
    rfl
  · simp only [DirectoryTree.listing, DirectoryTree.isFile, hostPath_text, bind_apply, there,
      ↓reduceIte, isFile, pure_apply]

end Answers

section Linked

/-- In the directory `srv` one link leads to a directory there and one to a directory outside. -/
def linkedDisk : Disk :=
  (((((Disk.blank.put ["etc"] .directory).put ["srv"] .directory).put ["srv", "data"]
    .directory).put ["srv", "data", "f"] (.file "kept".toUTF8)).put ["srv", "in"]
    (.link "data")).put ["srv", "out"] (.link "/etc")

theorem isTree_linkedDisk : Location.IsTree linkedDisk.get? .directory := by
  refine Disk.isTree_put (Disk.isTree_put (Disk.isTree_put (Disk.isTree_put (Disk.isTree_put
    (Disk.isTree_put Disk.Plain.blank.toIsTree ?_ ?_ _) ?_ ?_ _) ?_ ?_ _) ?_ ?_ _) ?_ ?_ _) ?_ ?_ _
  all_goals simp [Disk.get?_blank]

theorem leadsTo_srv {world : World} (top : world.disk.get? [] = some .directory)
    (there : world.disk.get? ["srv"] = some .directory) : world.LeadsTo "/srv" ["srv"] 40 := by
  have split : Path.pieces "/srv" = ["srv"] := by decide +kernel
  rw [World.LeadsTo, split]
  exact .enter top ⟨by decide, by decide, by decide⟩ (.here there)

theorem sameBelow_linkedDisk : SameBelow "/srv" ["srv"] 40 { disk := linkedDisk }
    { disk := linkedDisk.put ["etc", "conf"] (.file "x".toUTF8) } where
  filled := by decide
  tree := isTree_linkedDisk
  treeOther := by
    refine Disk.isTree_put isTree_linkedDisk ?_ ?_ _
    all_goals simp [linkedDisk, Disk.get?_blank]
  leads := leadsTo_srv isTree_linkedDisk.root (by simp [linkedDisk])
  leadsOther := leadsTo_srv (by simp [linkedDisk, Disk.get?_blank]) (by simp [linkedDisk])
  below := by
    intro place within
    rw [Disk.get?_put, if_neg]
    rintro rfl
    revert within
    decide
  normal := by
    intro place node _ found
    simp only [linkedDisk, Disk.get?_put, Disk.get?_blank] at found
    repeat' split at found
    all_goals first | (subst place; decide) | cases found

-- The link to a directory inside is followed, and the file there read, on either host.
theorem queries_isolated_past_link :
    let tree : DirectoryTree := ⟨"/srv"⟩
    let one : World := { disk := linkedDisk }
    let other : World := { disk := linkedDisk.put ["etc", "conf"] (.file "x".toUTF8) }
    SameBelow tree.root ["srv"] 40 one other ∧
      ¬ Disk.Strays one.disk ["srv"] false 40 ["srv"] (Location.ofText "in/f") ∧
      AnswersAlike one other (tree.read "in/f") := by
  intro tree one other
  have named : Location.ofText "in/f" = ["in", "f"] := by decide +kernel
  have target : Disk.steps "data" = ["data"] ∧ Path.isRooted "data" = false := by decide +kernel
  have link : linkedDisk.get? (["srv"] ++ ["in"]) = some (.link "data") := by simp [linkedDisk]
  have data : linkedDisk.get? (["srv"] ++ ["data"]) = some .directory := by simp [linkedDisk]
  have file : linkedDisk.get? (["srv"] ++ ["data"] ++ ["f"]) = some (.file "kept".toUTF8) := by
    simp [linkedDisk]
  have steady : ¬ Disk.Strays linkedDisk ["srv"] false 40 ["srv"] ["in", "f"] := by
    refine Disk.not_strays_follow ⟨by decide, by decide, by decide⟩ (by decide) link ?_
    rw [target.1, target.2]
    refine Disk.not_strays_enter ⟨by decide, by decide, by decide⟩ (by decide) data (by decide) ?_
    exact Disk.not_strays_enter ⟨by decide, by decide, by decide⟩ (by decide) file (by simp [Node.kind])
      Disk.not_strays_nil
  have steadyPath : ¬ Disk.Strays one.disk ["srv"] false 40 ["srv"] (Location.ofText "in/f") := by
    rwa [named]
  have same : SameBelow tree.root ["srv"] 40 one other := sameBelow_linkedDisk
  obtain ⟨-, followed, -, -⟩ := queries_isolated same "in/f"
  exact ⟨same, steadyPath, (followed steadyPath).2.2⟩

theorem resolves_conf (world : World) (tree : Location.IsTree world.disk.get? .directory)
    (srv : world.disk.get? ["srv"] = some .directory)
    (link : world.disk.get? ["srv", "out"] = some (.link "/etc"))
    (etc : world.disk.get? ["etc"] = some .directory) :
    Disk.Resolves world.disk world.cwd "/srv/out/conf" ["etc", "conf"] := by
  have split : Path.pieces "/srv/out" = ["srv", "out"] := by decide +kernel
  have target : Disk.steps "/etc" = ["etc"] ∧ Path.isRooted "/etc" = true := by decide +kernel
  have reached : Disk.Reached world.disk world.cwd "/srv/out" ["etc"] := by
    refine ⟨tree, by decide, 39, ?_⟩
    rw [split]
    refine .enter tree.root ⟨by decide, by decide, by decide⟩
      (.follow srv ⟨by decide, by decide, by decide⟩ link ?_)
    rw [target.1, target.2]
    exact .enter tree.root ⟨by decide, by decide, by decide⟩ (.here etc)
  have continues : Path.Continues "/srv/out" ([] ++ ["conf"]) (Path.join "/srv/out" "conf") :=
    (Path.Continues.refl (by decide)).snoc (by decide)
  rw [show Path.join "/srv/out" "conf" = "/srv/out/conf" by decide +kernel] at continues
  exact reached.resolves continues (by decide) etc

-- Outside a file is added; the directory itself has nothing of it but the link there.
theorem queries_read_through_link :
    let tree : DirectoryTree := ⟨"/srv"⟩
    let one : World := { disk := linkedDisk }
    let other : World := { disk := linkedDisk.put ["etc", "conf"] (.file "x".toUTF8) }
    SameBelow tree.root ["srv"] 40 one other ∧
      ((tree.holds "out/conf" : StateM World _) one).1 = false ∧
      ((tree.holds "out/conf" : StateM World _) other).1 = true ∧
      ((tree.isDir "out/conf" : StateM World _) one).1 = .error (.missing "out/conf") ∧
      ((tree.isDir "out/conf" : StateM World _) other).1 = .ok false ∧
      ((tree.isFile "out/conf" : StateM World _) one).1 = .error (.missing "out/conf") ∧
      ((tree.isFile "out/conf" : StateM World _) other).1 = .ok true ∧
      ((tree.read "out/conf" : StateM World _) one).1 = .error (.missing "out/conf") ∧
      ((tree.read "out/conf" : StateM World _) other).1 = .ok "x".toUTF8 ∧
      ((tree.listing "out/conf" : StateM World _) one).1 = .error (.missing "/out/conf") ∧
      ((tree.listing "out/conf" : StateM World _) other).1 = .ok [["out", "conf"]] := by
  intro tree one other
  have same := sameBelow_linkedDisk
  have host : tree.hostPath "out/conf" = "/srv/out/conf" := by decide +kernel
  have place : Location.ofText "out/conf" = ["out", "conf"] := by decide +kernel
  have text : Location.text ["out", "conf"] = "/out/conf" := by decide +kernel
  have fit : Disk.Accepts "/srv/out/conf" := by decide +kernel
  have before : ∀ followLinks,
      one.disk.kind one.cwd followLinks (tree.hostPath "out/conf") = .error .notFound := by
    have resolves := resolves_conf one same.tree (by simp [one, linkedDisk])
      (by simp [one, linkedDisk]) (by simp [one, linkedDisk])
    rw [host]
    cases resolves with
    | refused _ unfit => exact absurd fit unfit
    | absent _ _ all => exact Disk.kind_of_absent all
    | found _ node there => simp [one, linkedDisk, Disk.get?_blank] at there
  have after : ∀ ending, other.disk.find other.cwd ending (tree.hostPath "out/conf") =
      .ok (["etc", "conf"], .file "x".toUTF8) := by
    have resolves := resolves_conf other same.treeOther (by simp [other, linkedDisk])
      (by simp [other, linkedDisk]) (by simp [other, linkedDisk])
    rw [host]
    cases resolves with
    | refused _ unfit => exact absurd fit unfit
    | absent _ missing => simp [other] at missing
    | found _ node there kept =>
      have file : node = .file "x".toUTF8 := by simpa [other, eq_comm] using there
      intro ending
      rw [Disk.find, kept ending (by simp [file, Node.kind]), file]
      rfl
  obtain ⟨holds, isDir, isFile, read, listing⟩ := answers_of_missing before
  obtain ⟨holdsAfter, isDirAfter, isFileAfter, readAfter, listingAfter⟩ := answers_of_file after
  rw [place, text] at listing
  rw [place] at listingAfter
  exact ⟨same, holds, holdsAfter, isDir, isDirAfter, isFile, isFileAfter, read, readAfter, listing,
    listingAfter⟩

end Linked

end DirectoryTree
end Scaffold
