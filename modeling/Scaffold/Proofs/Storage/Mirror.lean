import Scaffold.Proofs.Disk.HostPath
import Scaffold.Proofs.Storage.Listing
import Scaffold.Proofs.World

/-! A tree in memory and a directory of the host that hold the same. `Mirrors` is the relation
between the two. Requests that change something succeed on both sides or on neither and keep it
(`mkdir_simulates`, `mkfile_simulates`); questions have the same answer, faults included, and leave
the host as it is (`holds_eq`, `isDir_eq`, `isFile_eq`, `read_eq`, `listing_eq`). -/

namespace Scaffold

section Children
variable {disk : Disk} {place : Location} {name : String}

theorem Disk.mem_children : name ∈ disk.children place ↔ (disk.get? (place ++ [name])).isSome := by
  have held : disk.children place = disk.nodes.keys.filterMap (Location.nameIn? place) := rfl
  rw [held, Location.mem_filterMap_nameIn?]
  exact Dict.contains_iff_mem_keys.symm

theorem Disk.pairwise_children (disk : Disk) (place : Location) :
    (disk.children place).Pairwise (· < ·) :=
  Location.sorted_filterMap_nameIn? disk.nodes.pairwise_keys place

end Children

def Entry.node : Entry → Node
  | .directory => .directory
  | .file content => .file content

/-- Below the directory `base` the host has what the tree in memory has, and it takes the paths of
all that. -/
structure Mirrors (base : Location) (memory : MemoryTree) (world : World) : Prop where
  normal : base.Normal
  plain : world.disk.Plain
  coherent : memory.Coherent
  same : ∀ place, world.disk.get? (base ++ place) = (memory.get? place).map Entry.node
  accepted : ∀ place entry, place ≠ [] → memory.get? place = some entry →
    Disk.Accepts (base ++ place : Location).text

namespace Mirrors

variable {base place : Location} {memory : MemoryTree} {world : World} {path : String}

theorem there (mirrors : Mirrors base memory world) : world.disk.get? base = some .directory := by
  simpa [mirrors.coherent.root, Entry.node] using mirrors.same []

theorem directory_iff (mirrors : Mirrors base memory world) :
    world.disk.get? (base ++ place) = some .directory ↔ memory.get? place = some .directory := by
  rw [mirrors.same]
  cases memory.get? place with
  | none => simp
  | some entry => cases entry <;> simp [Entry.node]

theorem missing_iff (mirrors : Mirrors base memory world) :
    world.disk.get? (base ++ place) = none ↔ memory.get? place = none := by
  rw [mirrors.same, Option.map_eq_none_iff]

section Look
variable (mirrors : Mirrors base memory world) (names : Disk.Names path (base ++ place))
  (fits : world.disk.Fits path (base ++ place))
include mirrors names fits

theorem kind_toOption (followLinks : Bool) :
    (world.disk.kind world.cwd followLinks path).toOption =
      (memory.get? place).map fun entry => entry.node.kind := by
  rw [Disk.kind_toOption mirrors.plain names fits, mirrors.same, Option.map_map]
  rfl

theorem hostExists_eq : (DiskAccess.pathExists path : StateM World Bool) world =
    ((memory.get? place).isSome, world) := by
  rw [World.pathExists_apply, mirrors.kind_toOption names fits, Option.isSome_map]

theorem hostIsDir_eq : (DiskAccess.isDir path : StateM World Bool) world =
    (decide (memory.get? place = some .directory), world) := by
  rw [World.isDir_apply, mirrors.kind_toOption names fits]
  cases memory.get? place with
  | none => rfl
  | some entry => cases entry <;> rfl

theorem hostIsFile_eq : (DiskAccess.isFile path : StateM World Bool) world =
    (memory.isFileAt place, world) := by
  rw [World.isFile_apply, mirrors.kind_toOption names fits, MemoryTree.isFileAt]
  cases memory.get? place with
  | none => rfl
  | some entry => cases entry <;> rfl

theorem hostIsLink_eq : (DiskAccess.isLink path : StateM World Bool) world = (false, world) := by
  rw [World.isLink_apply, mirrors.kind_toOption names fits]
  cases memory.get? place with
  | none => rfl
  | some entry => cases entry <;> rfl

end Look

theorem put (mirrors : Mirrors base memory world) (normal : place.Normal)
    (holder : memory.get? place.dropLast = some .directory)
    (vacant : memory.get? place ≠ some .directory)
    (accepted : Disk.Accepts (base ++ place : Location).text) (entry : Entry) :
    Mirrors base (memory.put place entry)
      { world with disk := world.disk.put (base ++ place) entry.node } where
  normal := mirrors.normal
  plain := by
    have filled := mirrors.coherent.ne_nil vacant
    apply mirrors.plain.put
    · rwa [List.dropLast_append_of_ne_nil filled, mirrors.directory_iff]
    · rwa [Ne, mirrors.directory_iff]
    · intro target
      cases entry <;> simp [Entry.node]
  coherent := mirrors.coherent.put normal holder vacant entry
  same := by
    intro other
    simp only [Disk.get?_put, MemoryTree.get?_put, List.append_cancel_left_eq, mirrors.same]
    split <;> rfl
  accepted := by
    intro other old filled found
    rw [MemoryTree.get?_put] at found
    split at found
    next same => rwa [same]
    next => exact mirrors.accepted other old filled found

section Make

theorem names_below (mirrors : Mirrors base memory world) (normal : place.Normal)
    (accepted : Disk.Accepts (base ++ place : Location).text) :
    Disk.Names (base ++ place : Location).text (base ++ place) :=
  Disk.names_text (mirrors.normal.append normal) accepted

theorem createDir_eq (mirrors : Mirrors base memory world) (normal : place.Normal)
    (missing : memory.get? place = none)
    (holder : memory.get? place.dropLast = some .directory)
    (accepted : Disk.Accepts (base ++ place : Location).text) :
    (DiskAccess.createDir (base ++ place : Location).text : StateM World _) world =
      (.ok (), { world with disk := world.disk.put (base ++ place) .directory }) := by
  have filled : place ≠ [] := mirrors.coherent.ne_nil (by simp [missing])
  have names := mirrors.names_below normal accepted
  have made := Disk.createDir_eq mirrors.plain names
    (Location.endsInSlash_text names.normal (by simp [filled])) (mirrors.missing_iff.mpr missing)
    (by rwa [List.dropLast_append_of_ne_nil filled, mirrors.directory_iff]) world.cwd
  simp only [DiskAccess.createDir, World.change, made]

theorem writeFile_eq (mirrors : Mirrors base memory world) (normal : place.Normal)
    (vacant : memory.get? place ≠ some .directory)
    (holder : memory.get? place.dropLast = some .directory)
    (accepted : Disk.Accepts (base ++ place : Location).text) (content : Content) :
    (DiskAccess.writeFile (base ++ place : Location).text content : StateM World _) world =
      (.ok (), { world with disk := world.disk.put (base ++ place) (.file content) }) := by
  have filled : place ≠ [] := mirrors.coherent.ne_nil vacant
  have names := mirrors.names_below normal accepted
  have made := Disk.writeFile_eq mirrors.plain names
    (Location.endsInSlash_text names.normal (by simp [filled]))
    (by rwa [Ne, mirrors.directory_iff])
    (by rwa [List.dropLast_append_of_ne_nil filled, mirrors.directory_iff]) world.cwd content
  simp only [DiskAccess.writeFile, World.change, made]

-- The tree in memory looks at a place once it has come there, the host at the next before it goes
-- there; so the walk is followed from one directory to the next, and a place that has just been made
-- is made on both sides before the rest is looked at.
theorem makeAlong_alike (path : String) {names : List String} (mirrors : Mirrors base memory world)
    (here : memory.get? place = some .directory) (normal : Location.Normal (place ++ names))
    (accepted : Disk.AcceptsBelow base (place ++ names)) :
    let inMemory := MemoryTree.ensureAlong place names memory
    let onHost := (DirectoryTree.makeAlong path (base ++ place : Location).text names :
      StateM World _) world
    Alike inMemory.1 onHost.1 ∧ Mirrors base inMemory.2 onHost.2 := by
  dsimp only
  induction names generalizing place memory world with
  | nil =>
    rw [MemoryTree.ensureAlong_of_directory here, DirectoryTree.makeAlong]
    exact ⟨rfl, mirrors⟩
  | cons name names ih =>
    rw [List.append_cons] at normal accepted
    have step : (place ++ [name]).Normal := normal.of_within (List.prefix_append _ _)
    have taken : Disk.Accepts (base ++ (place ++ [name]) : Location).text :=
      accepted.of_within (mirrors.normal.append normal) (List.prefix_append _ _) (by simp)
    have named := mirrors.names_below step taken
    have fits := Disk.fits_text mirrors.plain named.normal
    have joined : Path.join (base ++ place : Location).text name =
        (base ++ (place ++ [name]) : Location).text := by
      rw [← List.append_assoc] at named ⊢
      exact Location.join_name named.normal
    rw [MemoryTree.ensureAlong_of_directory here, DirectoryTree.makeAlong]
    simp only [joined, bind_apply, mirrors.hostIsLink_eq named fits, Bool.false_eq_true, ↓reduceIte,
      mirrors.hostExists_eq named fits]
    cases found : memory.get? (place ++ [name]) with
    | none =>
      have holder : memory.get? (place ++ [name]).dropLast = some .directory := by
        rwa [List.dropLast_concat]
      have vacant : memory.get? (place ++ [name]) ≠ some .directory := by simp [found]
      have made := mirrors.put step holder vacant taken .directory
      simp only [Option.isSome_none, Bool.false_eq_true, ↓reduceIte, bind_apply,
        mirrors.createDir_eq step found holder taken]
      rw [MemoryTree.ensureAlong_of_missing found]
      exact ih made (by simp) normal accepted
    | some entry =>
      simp only [Option.isSome_some, ↓reduceIte, bind_apply, mirrors.hostIsDir_eq named fits, found]
      cases entry with
      | directory => exact ih mirrors found normal accepted
      | file content =>
        have isFile : memory.isFileAt (place ++ [name]) = true :=
          MemoryTree.isFileAt_eq_true_iff.mpr ⟨content, found⟩
        rw [MemoryTree.ensureAlong_of_file isFile]
        exact ⟨rfl, mirrors⟩

end Make

section Requests
variable {tree : DirectoryTree} (root : tree.root = base.text)
include root

theorem mkdir_simulates (taken : Disk.AcceptsBelow base (Location.ofText path)) :
    Simulates (Mirrors base) Alike (MemoryTree.mkdir path) (tree.mkdir path) := by
  intro memory world mirrors
  by_cases empty : path = ""
  · rw [MemoryTree.mkdir, if_pos empty, DirectoryTree.mkdir, if_pos empty]
    exact ⟨rfl, mirrors⟩
  · have named : tree.root = (base ++ [] : Location).text := by rw [root, List.append_nil]
    have normal := Location.normal_ofText path
    rw [← List.nil_append (Location.ofText path)] at normal taken
    rw [MemoryTree.mkdir, if_neg empty, DirectoryTree.mkdir, if_neg empty, named]
    exact mirrors.makeAlong_alike _ mirrors.coherent.root normal taken

theorem mkdir_text_simulates (normal : place.Normal) (taken : Disk.AcceptsBelow base place) :
    Simulates (Mirrors base) Alike (MemoryTree.mkdir place.text) (tree.mkdir place.text) :=
  mkdir_simulates root (by rwa [Location.ofText_text normal])

theorem write_alike (mirrors : Mirrors base memory world) (normal : place.Normal)
    (filled : place ≠ []) (vacant : memory.get? place ≠ some .directory)
    (accepted : Disk.Accepts (base ++ place : Location).text) (content : Content) :
    let inMemory : Except Fault Unit × MemoryTree := match memory.blocker? place.dropLast with
      | some file => (.error (.notDirectory file.text), memory)
      | none => (.ok (), (memory.withDirectories place.dropLast).put place (.file content))
    let onHost := (do
      match ← tree.mkdir (Location.text place.dropLast) with
      | .error fault => return .error fault
      | .ok () =>
        return (← DiskAccess.writeFile (base ++ place : Location).text content).mapError .disk
      : StateM World (Except Fault Unit)) world
    Alike inMemory.1 onHost.1 ∧ Mirrors base inMemory.2 onHost.2 := by
  have above := normal.of_within (List.dropLast_prefix place)
  have whole : Disk.AcceptsBelow base place := fun _ => accepted
  have taken := whole.of_within (mirrors.normal.append normal) (List.dropLast_prefix place)
  have begun := mkdir_text_simulates root above taken memory world mirrors
  dsimp only
  rw [bind_apply]
  rcases ran : (tree.mkdir (Location.text place.dropLast) : StateM World _) world with
    ⟨outcome, later⟩
  rw [MemoryTree.mkdir_text mirrors.coherent above, ran] at begun
  cases free : memory.blocker? place.dropLast with
  | some file =>
    rw [free] at begun
    obtain ⟨_, made, -⟩ | ⟨_, fault, -, rfl⟩ := begun.1.cases
    · cases made
    · exact ⟨rfl, begun.2⟩
  | none =>
    rw [free] at begun
    obtain ⟨_, -, rfl⟩ | ⟨_, _, made, -⟩ := begun.1.cases
    · have holder := MemoryTree.directory_of_free free List.prefix_rfl
      rw [← MemoryTree.get?_withDirectories_dropLast memory filled] at vacant
      have written := begun.2.writeFile_eq normal vacant holder accepted content
      have made := begun.2.put normal holder vacant accepted (.file content)
      simp only [bind_apply, written]
      exact ⟨rfl, made⟩
    · cases made

theorem fits_hostPath (mirrors : Mirrors base memory world) (path : String) :
    world.disk.Fits (tree.hostPath path) (base ++ Location.ofText path) :=
  DirectoryTree.fits_hostPath root mirrors.normal mirrors.there

variable (accepted : Disk.Accepts (tree.hostPath path))
include accepted

theorem names_hostPath (mirrors : Mirrors base memory world) :
    Disk.Names (tree.hostPath path) (base ++ Location.ofText path) :=
  DirectoryTree.names_hostPath root mirrors.normal accepted

theorem holds_eq (mirrors : Mirrors base memory world) :
    (tree.holds path : StateM World _) world = (memory.holds path, world) := by
  have kind := mirrors.kind_toOption (mirrors.names_hostPath root accepted)
    (mirrors.fits_hostPath root path) false
  rw [DirectoryTree.holds, bind_apply, World.kind_apply, pure_apply, kind, Option.isSome_map]
  rfl

theorem mkfile_simulates (content : Option Content) :
    Simulates (Mirrors base) Alike (MemoryTree.mkfile path content) (tree.mkfile path content) := by
  intro memory world mirrors
  have names := mirrors.names_hostPath root accepted
  have fits := mirrors.fits_hostPath root path
  obtain ⟨place, named⟩ : ∃ place, Location.ofText path = place := ⟨_, rfl⟩
  rw [named] at names fits
  rw [MemoryTree.mkfile_eq mirrors.coherent named]
  simp only [DirectoryTree.mkfile, bind_apply, mirrors.hostIsLink_eq names fits, Bool.false_eq_true,
    ↓reduceIte, mirrors.hostIsDir_eq names fits, decide_eq_true_eq, named, Location.parent?]
  by_cases top : place = []
  · have directory : memory.get? place = some .directory := by rw [top, mirrors.coherent.root]
    rw [if_pos top, if_pos directory, pure_apply]
    exact ⟨rfl, mirrors⟩
  by_cases directory : memory.get? place = some .directory
  · rw [if_neg top, if_pos directory, if_pos directory, pure_apply]
    exact ⟨rfl, mirrors⟩
  have host : tree.hostPath path = (base ++ place : Location).text := by
    rw [DirectoryTree.hostPath_of_filled root mirrors.normal (named ▸ top), named]
  rw [host] at accepted ⊢
  rw [if_neg top, if_neg directory, if_neg directory, if_neg top]
  exact mirrors.write_alike root (named ▸ Location.normal_ofText path) top directory accepted _

theorem isDir_eq (mirrors : Mirrors base memory world) :
    (tree.isDir path : StateM World _) world = (memory.isDir path, world) := by
  have names := mirrors.names_hostPath root accepted
  have fits := mirrors.fits_hostPath root path
  simp only [DirectoryTree.isDir, MemoryTree.isDir, bind_apply, mirrors.hostExists_eq names fits]
  cases found : memory.get? (Location.ofText path) with
  | none => rfl
  | some entry =>
    simp only [Option.isSome_some, ↓reduceIte, bind_apply, mirrors.hostIsDir_eq names fits, found]
    cases entry <;> rfl

theorem isFile_eq (mirrors : Mirrors base memory world) :
    (tree.isFile path : StateM World _) world = (memory.isFile path, world) := by
  have names := mirrors.names_hostPath root accepted
  have fits := mirrors.fits_hostPath root path
  simp only [DirectoryTree.isFile, MemoryTree.isFile, bind_apply,
    mirrors.hostExists_eq names fits]
  cases found : memory.get? (Location.ofText path) with
  | none => rfl
  | some entry =>
    simp only [Option.isSome_some, ↓reduceIte, bind_apply, mirrors.hostIsFile_eq names fits,
      MemoryTree.isFileAt, found]
    cases entry <;> rfl

theorem read_eq (mirrors : Mirrors base memory world) :
    (tree.read path : StateM World _) world = (memory.read path, world) := by
  rw [DirectoryTree.read, bind_apply, mirrors.isDir_eq root accepted, MemoryTree.isDir,
    MemoryTree.read]
  cases found : memory.get? (Location.ofText path) with
  | none => rfl
  | some entry =>
    cases entry with
    | directory => rfl
    | file content =>
      have there : world.disk.get? (base ++ Location.ofText path) = some (.file content) := by
        rw [mirrors.same, found]
        rfl
      have bytes := Disk.readBytes_eq mirrors.plain (mirrors.names_hostPath root accepted)
        (mirrors.fits_hostPath root path) there world.cwd
      simp only [Entry.isDirectory, bind_apply, World.readBytes_apply, bytes]
      rfl

end Requests

section Listing

theorem length_le (mirrors : Mirrors base memory world) (place : Location)
    (present : (memory.get? place).isSome) : place.length ≤ Disk.pathLimit := by
  obtain ⟨entry, found⟩ := Option.isSome_iff_exists.mp present
  by_cases top : place = []
  · simp [top]
  · have short := (mirrors.accepted place entry top found).short
    have longer := Disk.length_le_text
      (mirrors.normal.append (mirrors.coherent.normal place entry found))
    rw [List.length_append] at longer
    omega

theorem sorted_children (mirrors : Mirrors base memory world) (place : Location) :
    (world.disk.children (base ++ place)).mergeSort (fun a b => a ≤ b) =
      memory.childNames place := by
  have sorted := world.disk.pairwise_children (base ++ place)
  rw [List.mergeSort_of_pairwise]
  · apply eq_of_sorted sorted (memory.sorted_childNames place)
    intro name
    rw [Disk.mem_children, MemoryTree.mem_childNames, List.append_assoc, mirrors.same,
      Option.isSome_map]
  · exact sorted.imp fun before => by simpa using Std.le_of_lt before

theorem visit_eq (mirrors : Mirrors base memory world) {host : String} {depth : Nat}
    {below : String → Location → StateM World (Except Fault (List Location))}
    (joins : ∀ name, Path.IsName name →
      Path.join host name = (base ++ (place ++ [name]) : Location).text)
    (deeper : ∀ name, memory.get? (place ++ [name]) = some .directory →
      below (base ++ (place ++ [name]) : Location).text (place ++ [name]) world =
        (.ok (memory.walkBelow depth (place ++ [name])), world))
    {names : List String} (there : ∀ name ∈ names, (memory.get? (place ++ [name])).isSome) :
    DirectoryTree.visit below host place names world =
      (.ok (names.flatMap fun name => (place ++ [name]) ::
        if memory.get? (place ++ [name]) = some .directory then
          memory.walkBelow depth (place ++ [name])
        else []), world) := by
  induction names with
  | nil => rfl
  | cons name names ih =>
    obtain ⟨entry, found⟩ := Option.isSome_iff_exists.mp (there name (by simp))
    have normal := mirrors.coherent.normal _ _ found
    have proper : Path.IsName name := normal name (by simp)
    have named := mirrors.names_below normal (mirrors.accepted _ _ (by simp) found)
    have fits := Disk.fits_text mirrors.plain named.normal
    have others := ih fun other member => there other (by simp [member])
    simp only [DirectoryTree.visit, joins name proper, bind_apply, mirrors.hostIsDir_eq named fits,
      decide_eq_true_eq]
    by_cases directory : memory.get? (place ++ [name]) = some .directory
    · simp only [directory, ↓reduceIte, bind_apply, deeper name directory, others,
        List.flatMap_cons, pure_apply]
    · simp only [directory, ↓reduceIte, pure_apply, bind_apply, others, List.flatMap_cons]

theorem readBelow_eq (mirrors : Mirrors base memory world) (depth : Nat) {host : String}
    (here : memory.get? place = some .directory) (named : Disk.Names host (base ++ place))
    (joins : ∀ name, Path.IsName name →
      Path.join host name = (base ++ (place ++ [name]) : Location).text) :
    (DirectoryTree.readBelow depth host place : StateM World _) world =
      (.ok (memory.walkBelow depth place), world) := by
  induction depth generalizing host place with
  | zero => rfl
  | succ depth ih =>
    have listed := Disk.listDir_eq mirrors.plain named (mirrors.directory_iff.mpr here) world.cwd
    rw [DirectoryTree.readBelow, bind_apply, World.listDir_apply, listed]
    dsimp only
    rw [mirrors.sorted_children place, mirrors.visit_eq joins ?_ ?_]
    · rfl
    · intro name found
      have normal := mirrors.coherent.normal _ _ found
      have below := mirrors.names_below normal (mirrors.accepted _ _ (by simp) found)
      apply ih found below
      intro other proper
      have inside := below.normal.append (Location.normal_singleton proper)
      simpa only [List.append_assoc] using Location.join_name inside
    · exact fun name member => MemoryTree.mem_childNames.mp member

variable {tree : DirectoryTree} (root : tree.root = base.text)
  (accepted : Disk.Accepts (tree.hostPath path))
include root accepted

theorem listing_eq (mirrors : Mirrors base memory world) :
    (tree.listing path : StateM World _) world = (memory.listing path, world) := by
  obtain ⟨place, named⟩ : ∃ place, Location.ofText path = place := ⟨_, rfl⟩
  have again : Location.ofText place.text = place :=
    Location.ofText_text (named ▸ Location.normal_ofText path)
  have names := mirrors.names_hostPath root accepted
  have accepted' : Disk.Accepts (tree.hostPath place.text) := by
    rwa [← named, DirectoryTree.hostPath_text]
  rw [named] at names
  rw [MemoryTree.listing_eq mirrors.coherent named mirrors.length_le, DirectoryTree.listing,
    bind_apply, named, mirrors.isFile_eq root accepted', MemoryTree.isFile, again]
  cases found : memory.get? place with
  | none => rfl
  | some entry =>
    cases entry with
    | file content => rfl
    | directory =>
      apply mirrors.readBelow_eq _ found names
      intro name proper
      rw [DirectoryTree.join_hostPath root mirrors.normal proper, named, List.append_assoc]

end Listing

end Mirrors
end Scaffold
