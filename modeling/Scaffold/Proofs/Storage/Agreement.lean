import Scaffold.Proofs.Apply.Step
import Scaffold.Proofs.Storage.Mount

namespace Scaffold

inductive Request
  | mkdir (path : String)
  | mkfile (path : String) (content : Option Content)
  | apply (templates : Templates) (operations : List Operation)
  | holds (path : String)
  | isDir (path : String)
  | isFile (path : String)
  | read (path : String)
  | listing (path : String)

/-- What comes of a request, the reason of a refusal left out. -/
inductive Reply
  | done
  | refused
  | answer (yes : Bool)
  | bytes (content : Content)
  | places (found : List Location)
  | report (report : Report)
  | stopped (index : Nat) (operation : Operation)
  deriving DecidableEq

namespace Reply

def of {α : Type} (succeeded : α → Reply) : Except Fault α → Reply
  | .ok value => succeeded value
  | .error _ => refused

def ofRun : Except Error Report → Reply
  | .ok counted => report counted
  | .error (.apply index operation _) => stopped index operation
  | .error _ => refused

end Reply

namespace Request

variable {m : Type → Type} [Monad m]

def perform (storage : Storage m) (listing : String → m (Except Fault (List Location))) :
    Request → m Reply
  | mkdir path => return .of (fun _ => .done) (← storage.mkdir path)
  | mkfile path content => return .of (fun _ => .done) (← storage.mkfile path content)
  | apply templates operations => return .ofRun (← Scaffold.apply storage templates operations)
  | holds path => return .answer (← storage.holds path)
  | isDir path => return .of .answer (← storage.isDir path)
  | isFile path => return .of .answer (← storage.isFile path)
  | read path => return .of .bytes (← storage.read path)
  | .listing path => return .of .places (← listing path)

def performAll (storage : Storage m) (listing : String → m (Except Fault (List Location))) :
    List Request → m (List Reply)
  | [] => return []
  | request :: requests => do
    let reply ← request.perform storage listing
    return reply :: (← performAll storage listing requests)

def performInMemory (requests : List Request) : StateM MemoryTree (List Reply) :=
  performAll MemoryTree.storage (fun path => return (← get).listing path) requests

def performOnHost (tree : DirectoryTree) (requests : List Request) : StateM World (List Reply) :=
  performAll tree.storage tree.listing requests

/-- The host takes each path that a request is about. -/
def Accepted (tree : DirectoryTree) : Request → Prop
  | apply _ operations =>
    ∀ operation ∈ operations, Disk.Accepts (tree.hostPath operation.place.text)
  | mkdir path | mkfile path _ | holds path | isDir path | isFile path | read path
  | listing path => Disk.Accepts (tree.hostPath path)

instance (tree : DirectoryTree) : DecidablePred (Accepted tree)
  | apply _ operations => inferInstanceAs (Decidable
      (∀ operation ∈ operations, Disk.Accepts (tree.hostPath operation.place.text)))
  | mkdir path | mkfile path _ | holds path | isDir path | isFile path | read path
  | listing path => inferInstanceAs (Decidable (Disk.Accepts (tree.hostPath path)))

end Request

section Write
variable {m : Type → Type} [Monad m]

def writeNew (storage : Storage m) (report : Report) (place : Location) (content : Content) :
    m (Except Fault Report) := do
  if ← storage.holds place.text then
    return .ok { report with skipped := report.skipped + 1 }
  else
    match ← storage.mkfile place.text (some content) with
    | .error fault => return .error fault
    | .ok () => return .ok { report with written := report.written + 1 }

variable (storage : Storage m) (templates : Templates) (report : Report) {path : String}
  {place : Location} (named : Location.ofSegments path = place)
include named

theorem applyOne_mkdir_eq :
    applyOne storage templates report (.mkdir path) = (do
      match ← storage.mkdir place.text with
      | .error fault => return .error fault
      | .ok () => return .ok { report with dirs := report.dirs + 1 }) := by
  subst named
  rfl

theorem applyOne_write_eq [LawfulMonad m] :
    applyOne storage templates report (.write path) =
      match place.parent? with
      | none => writeNew storage report place (templates.content path).toUTF8
      | some parent => (do
        match ← storage.mkdir parent.text with
        | .error fault => return .error fault
        | .ok () => writeNew storage report place (templates.content path).toUTF8) := by
  dsimp only [applyOne, Operation.write]
  rw [named]
  cases place.parent? with
  | none => exact pure_bind _ _
  | some parent => rfl

end Write

namespace Mirrors

variable {base : Location} {tree : DirectoryTree} {templates : Templates}

theorem simulates_of_eq {α : Type} {ask : MemoryTree → α} {query : StateM World α}
    (same : ∀ memory world, Mirrors base memory world → query world = (ask memory, world)) :
    Simulates (Mirrors base) (· = ·) (do return ask (← get)) query := by
  intro memory world mirrors
  rw [same memory world mirrors]
  exact ⟨rfl, mirrors⟩

theorem reply_simulates {α : Type} {ask : MemoryTree → α} {query : StateM World α}
    {reply : α → Reply}
    (same : ∀ memory world, Mirrors base memory world → query world = (ask memory, world)) :
    Simulates (Mirrors base) (· = ·)
      ((do return ask (← get)) >>= fun found => pure (reply found))
      (query >>= fun found => pure (reply found)) :=
  (simulates_of_eq same).bind fun _ _ alike => .pure (congrArg reply alike)

section Run
variable (root : tree.root = base.text)
include root

theorem writeNew_simulates (report : Report) {place : Location}
    (accepted : Disk.Accepts (tree.hostPath place.text)) (content : Content) :
    Simulates (Mirrors base) Alike (writeNew MemoryTree.storage report place content)
      (writeNew tree.storage report place content) := by
  unfold writeNew
  dsimp only [MemoryTree.storage, DirectoryTree.storage]
  refine Simulates.bind (simulates_of_eq fun _ _ mirrors => mirrors.holds_eq root accepted) ?_
  rintro there _ rfl
  cases there with
  | true => exact Simulates.pure rfl
  | false =>
    refine Simulates.andThen (mkfile_simulates root accepted _) ?_ ?_
    · exact fun _ => Simulates.pure rfl
    · exact fun _ _ => Simulates.pure rfl

variable (normalBase : base.Normal)
include normalBase

theorem acceptsBelow_place {place : Location} (normal : place.Normal)
    (accepted : Disk.Accepts (tree.hostPath place.text)) : Disk.AcceptsBelow base place := by
  have taken := DirectoryTree.acceptsBelow_ofText root normalBase accepted
  rwa [Location.ofText_text normal] at taken

theorem applyOne_simulates (report : Report) {operation : Operation}
    (accepted : Disk.Accepts (tree.hostPath operation.place.text)) :
    Simulates (Mirrors base) Alike (applyOne MemoryTree.storage templates report operation)
      (applyOne tree.storage templates report operation) := by
  obtain ⟨kind, path⟩ := operation
  obtain ⟨place, named⟩ : ∃ place, Location.ofSegments path = place := ⟨_, rfl⟩
  have normal : place.Normal := named ▸ Location.normal_ofSegments path
  replace accepted : Disk.Accepts (tree.hostPath place.text) := named ▸ accepted
  have taken := acceptsBelow_place root normalBase normal accepted
  cases kind with
  | mkdir =>
    change Simulates _ _ (applyOne _ _ _ (.mkdir path)) (applyOne _ _ _ (.mkdir path))
    rw [applyOne_mkdir_eq _ _ _ named, applyOne_mkdir_eq _ _ _ named]
    dsimp only [MemoryTree.storage, DirectoryTree.storage]
    refine Simulates.andThen (mkdir_text_simulates root normal taken) ?_ ?_
    · exact fun _ => Simulates.pure rfl
    · exact fun _ _ => Simulates.pure rfl
  | write =>
    have written := writeNew_simulates root report accepted (templates.content path).toUTF8
    change Simulates _ _ (applyOne _ _ _ (.write path)) (applyOne _ _ _ (.write path))
    rw [applyOne_write_eq _ _ _ named, applyOne_write_eq _ _ _ named, Location.parent?]
    by_cases top : place = []
    · rw [if_pos top]
      exact written
    · rw [if_neg top]
      have above := normal.of_within (List.dropLast_prefix place)
      have taken := taken.of_within (normalBase.append normal) (List.dropLast_prefix place)
      dsimp only [MemoryTree.storage, DirectoryTree.storage]
      refine Simulates.andThen (mkdir_text_simulates root above taken) ?_ ?_
      · exact fun _ => written
      · exact fun _ _ => Simulates.pure rfl

theorem applyFrom_simulates (index : Nat) (report : Report) {operations : List Operation}
    (accepted : ∀ operation ∈ operations, Disk.Accepts (tree.hostPath operation.place.text)) :
    Simulates (Mirrors base) (fun a b => Reply.ofRun a = Reply.ofRun b)
      (applyFrom MemoryTree.storage templates index report operations)
      (applyFrom tree.storage templates index report operations) := by
  induction operations generalizing index report with
  | nil => exact Simulates.pure rfl
  | cons operation operations ih =>
    rw [applyFrom, applyFrom]
    refine Simulates.andThen
      (applyOne_simulates root normalBase report (accepted operation (by simp))) ?_ ?_
    · exact fun counted => ih (index + 1) counted fun other member =>
        accepted other (by simp [member])
    · exact fun _ _ => Simulates.pure rfl

theorem perform_simulates {request : Request} (accepted : request.Accepted tree) :
    Simulates (Mirrors base) (· = ·)
      (request.perform MemoryTree.storage fun path => return (← get).listing path)
      (request.perform tree.storage tree.listing) := by
  unfold Request.perform
  dsimp only [MemoryTree.storage, DirectoryTree.storage]
  cases request with
  | mkdir path =>
    have taken := DirectoryTree.acceptsBelow_ofText root normalBase accepted
    refine Simulates.andThen (mkdir_simulates root taken) ?_ ?_
    · exact fun _ => Simulates.pure rfl
    · exact fun _ _ => Simulates.pure rfl
  | mkfile path content =>
    refine Simulates.andThen (mkfile_simulates root accepted content) ?_ ?_
    · exact fun _ => Simulates.pure rfl
    · exact fun _ _ => Simulates.pure rfl
  | apply templates operations =>
    refine Simulates.bind (applyFrom_simulates root normalBase 0 {} accepted) ?_
    exact fun _ _ same => Simulates.pure same
  | holds path => exact reply_simulates fun _ _ mirrors => mirrors.holds_eq root accepted
  | isDir path => exact reply_simulates fun _ _ mirrors => mirrors.isDir_eq root accepted
  | isFile path => exact reply_simulates fun _ _ mirrors => mirrors.isFile_eq root accepted
  | read path => exact reply_simulates fun _ _ mirrors => mirrors.read_eq root accepted
  | listing path => exact reply_simulates fun _ _ mirrors => mirrors.listing_eq root accepted

theorem performAll_simulates {requests : List Request}
    (accepted : ∀ request ∈ requests, request.Accepted tree) :
    Simulates (Mirrors base) (· = ·) (Request.performInMemory requests)
      (Request.performOnHost tree requests) := by
  induction requests with
  | nil => exact Simulates.pure rfl
  | cons request requests ih =>
    refine Simulates.bind (perform_simulates root normalBase (accepted request (by simp))) ?_
    rintro reply _ rfl
    refine Simulates.bind (ih fun other member => accepted other (by simp [member])) ?_
    rintro replies _ rfl
    exact Simulates.pure rfl

end Run

theorem of_bare {world : World} (normal : base.Normal) (plain : world.disk.Plain)
    (bare : ∀ place, world.disk.get? (base ++ place) =
      if place = [] then some .directory else none) : Mirrors base .empty world where
  normal := normal
  plain := plain
  coherent := MemoryTree.Coherent.empty
  same := by
    intro place
    rw [bare, MemoryTree.get?_empty]
    split <;> rfl
  accepted := by
    intro place entry filled found
    simp [MemoryTree.get?_empty, filled] at found

end Mirrors

namespace Request

/-- Requests made of an empty tree in memory and of a tree over an empty directory: each is answered
alike by both, and what stands below the directory in the end is what the tree in memory holds. -/
theorem performAll_agrees {path : String} {before world : World} {tree : DirectoryTree}
    (mounted : (DirectoryTree.mount path : StateM World _) before = (.ok tree, world))
    (plain : world.disk.Plain)
    (bare : ∀ place, world.disk.get? (Location.ofText path ++ place) =
      if place = [] then some .directory else none)
    {requests : List Request} (accepted : ∀ request ∈ requests, request.Accepted tree) :
    let onHost := performOnHost tree requests world
    let inMemory := performInMemory requests .empty
    onHost.1 = inMemory.1 ∧ ∀ place, onHost.2.disk.get? (Location.ofText path ++ place) =
      (inMemory.2.get? place).map Entry.node := by
  have root := DirectoryTree.root_of_mount mounted
  have normal := Location.normal_ofText path
  obtain ⟨replies, mirrors⟩ := Mirrors.performAll_simulates root normal accepted _ _
    (Mirrors.of_bare normal plain bare)
  exact ⟨replies.symm, mirrors.same⟩

-- A path that climbs, a file in the way of a directory, and a run that stops there.
theorem performAll_agrees_past_refusals :
    let world : World := { disk := Disk.blank.put ["srv"] .directory }
    let tree : DirectoryTree := ⟨"/srv"⟩
    let requests : List Request := [.mkfile "../a/./b.txt" none, .mkdir "/a/b.txt/c",
      .apply ⟨Dict.empty⟩ [.mkdir "d", .write "a/b.txt/x"], .isDir "a/b.txt/c", .listing "/"]
    (DirectoryTree.mount "/srv" : StateM World _) world = (.ok tree, world) ∧ world.disk.Plain ∧
      (∀ request ∈ requests, request.Accepted tree) ∧
      (performOnHost tree requests world).1 = [.done, .refused,
        .stopped 1 (.write "a/b.txt/x"), .refused, .places [["a"], ["a", "b.txt"], ["d"]]] ∧
      (performOnHost tree requests world).2.disk.get? ["srv", "a", "b.txt"] =
        some (.file .empty) := by
  intro world tree requests
  have plain : world.disk.Plain :=
    Disk.Plain.blank.put (by simp [Disk.get?_blank]) (by simp [Disk.get?_blank]) (by simp)
  have bare (place : Location) : world.disk.get? (["srv"] ++ place) =
      if place = [] then some .directory else none := by
    simp [world, Disk.get?_blank]
  have normal : Location.Normal ["srv"] := by decide
  have text : Location.text ["srv"] = "/srv" := by decide +kernel
  have mounted := DirectoryTree.mount_eq plain normal (bare []) (bare [".access"])
    (by decide +kernel)
  have place := Location.ofText_text normal
  rw [text] at mounted place
  have accepted : ∀ request ∈ requests, request.Accepted tree := by decide +kernel
  have replies : (performInMemory requests .empty).1 = [.done, .refused,
      .stopped 1 (.write "a/b.txt/x"), .refused, .places [["a"], ["a", "b.txt"], ["d"]]] := by
    decide +kernel
  have held : (performInMemory requests .empty).2.get? ["a", "b.txt"] =
      some (.file .empty) := by decide +kernel
  have mounted : (DirectoryTree.mount "/srv" : StateM World _) world = (.ok tree, world) := mounted
  obtain ⟨alike, same⟩ := performAll_agrees mounted plain (by rwa [place]) accepted
  have below := same ["a", "b.txt"]
  rw [place, held] at below
  exact ⟨mounted, plain, accepted, alike.trans replies, below⟩

end Request
end Scaffold
