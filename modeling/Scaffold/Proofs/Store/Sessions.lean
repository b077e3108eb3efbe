import Scaffold.Proofs.Store.File

namespace Scaffold

inductive StoreRequest
  | save (name script : String)
  | load
  | get (name : String)
  | names

inductive StoreReply
  | saved (outcome : Except Error Unit)
  | scripts (outcome : Except Error Scripts)
  | script (outcome : Except Error (Option String))
  | names (outcome : Except Error (List String))

namespace StoreRequest

variable {m : Type → Type} [Monad m]

def perform (store : ScriptStore m) : StoreRequest → m StoreReply
  | save name script => return .saved (← store.save name script)
  | load => return .scripts (← store.load)
  | get name => return .script (← store.get? name)
  | names => return .names (← store.names)

def savedAs? (name : String) : StoreRequest → Option String
  | save other script => if name = other then some script else none
  | _ => none

end StoreRequest

namespace ScriptStore

variable {m : Type → Type} [Monad m]

def session (store : ScriptStore m) (requests : List StoreRequest) : m (List StoreReply) :=
  requests.mapM (StoreRequest.perform store)

/-- The script of the last request that saves one under the name. -/
def lastSaved (name : String) (requests : List StoreRequest) : Option String :=
  requests.reverse.findSome? (StoreRequest.savedAs? name)

/-- What a store owes a request after the requests `done`: the scripts that were saved last, with
their names in the order of their bytes. -/
def Answers (done : List StoreRequest) : StoreRequest → StoreReply → Prop
  | .save _ _, .saved outcome => outcome = .ok ()
  | .load, .scripts outcome => ∃ scripts : Scripts, outcome = .ok scripts ∧
      (∀ name script, (name, script) ∈ scripts.entries ↔ lastSaved name done = some script) ∧
      scripts.entries.Pairwise fun a b => Text.bytes a.1 < Text.bytes b.1
  | .get name, .script outcome => outcome = .ok (lastSaved name done)
  | .names, .names outcome => ∃ names, outcome = .ok names ∧
      (∀ name, name ∈ names ↔ ∃ script, lastSaved name done = some script) ∧
      names.Pairwise fun a b => Text.bytes a < Text.bytes b
  | _, _ => False

inductive AnswersAll : List StoreRequest → List StoreRequest → List StoreReply → Prop
  | nil (done : List StoreRequest) : AnswersAll done [] []
  | cons {done requests : List StoreRequest} {request : StoreRequest} {reply : StoreReply}
      {replies : List StoreReply} (answers : Answers done request reply)
      (others : AnswersAll (done ++ [request]) requests replies) :
      AnswersAll done (request :: requests) (reply :: replies)

section Replies

variable {done first second : List StoreRequest} {replies more : List StoreReply}

theorem AnswersAll.length_eq (answered : AnswersAll done first replies) :
    replies.length = first.length := by
  induction answered with
  | nil => rfl
  | cons _ _ ih => rw [List.length_cons, List.length_cons, ih]

theorem AnswersAll.append (answered : AnswersAll done first replies)
    (later : AnswersAll (done ++ first) second more) :
    AnswersAll done (first ++ second) (replies ++ more) := by
  induction answered with
  | nil done => rwa [List.append_nil] at later
  | cons answers _ ih =>
    rw [List.append_cons] at later
    exact .cons answers (ih later)

end Replies

variable {path : String}

theorem load_simulates : Simulates (Keeps path) (· = ·) memory.load (file path).load := by
  intro scripts world keeps
  have loaded : ((file path).load : StateM World _) world = (.ok scripts, world) :=
    loadFile_of_keeps keeps
  rw [loaded]
  exact ⟨rfl, keeps⟩

theorem save_simulates (name script : String) :
    Simulates (Keeps path) (· = ·) (memory.save name script) ((file path).save name script) := by
  intro scripts world keeps
  obtain ⟨after, saved, kept⟩ := saveFile_of_keeps keeps name script
  have same : ((file path).save name script : StateM World _) world = (.ok (), after) := saved
  rw [same]
  exact ⟨rfl, kept⟩

theorem perform_simulates (request : StoreRequest) :
    Simulates (Keeps path) (· = ·) (request.perform memory) (request.perform (file path)) := by
  cases request with
  | save name script => exact (save_simulates name script).map StoreReply.saved
  | load => exact load_simulates.map StoreReply.scripts
  | get name => exact (load_simulates.map _).map StoreReply.script
  | names => exact (load_simulates.map _).map StoreReply.names

theorem sessions_simulates (sessions : List (List StoreRequest)) :
    Simulates (Keeps path) (· = ·) (sessions.mapM (session memory))
      (sessions.mapM (session (file path))) :=
  Simulates.mapM (fun requests => Simulates.mapM perform_simulates requests) sessions

section Memory

variable {scripts : Scripts} {name : String}

theorem lastSaved_append (name : String) (first second : List StoreRequest) :
    lastSaved name (first ++ second) = (lastSaved name second).or (lastSaved name first) := by
  rw [lastSaved, List.reverse_append, List.findSome?_append, lastSaved, lastSaved]

theorem get?_perform (request : StoreRequest) (scripts : Scripts) (name : String) :
    (request.perform memory scripts).2.get? name =
      (request.savedAs? name).or (scripts.get? name) := by
  cases request with
  | save other script =>
    have saved : ((StoreRequest.save other script).perform memory scripts).2 =
        scripts.insert other script := rfl
    rw [saved, Dict.get?_insert, StoreRequest.savedAs?]
    split <;> rfl
  | load | get | names => rfl

theorem lastSaved_singleton (name : String) (request : StoreRequest) :
    lastSaved name [request] = request.savedAs? name := by
  simp [lastSaved]

/-- The scripts of the store in memory are those saved last. -/
def Holds (scripts : Scripts) (done : List StoreRequest) : Prop :=
  ∀ name, scripts.get? name = lastSaved name done

variable {done : List StoreRequest}

theorem Holds.perform (holds : Holds scripts done) (request : StoreRequest) :
    Holds (request.perform memory scripts).2 (done ++ [request]) := by
  intro name
  rw [get?_perform, holds name, lastSaved_append, lastSaved_singleton]

theorem Holds.mem_entries (holds : Holds scripts done) (name script : String) :
    (name, script) ∈ scripts.entries ↔ lastSaved name done = some script := by
  rw [← Dict.get?_eq_some_iff, holds name]

theorem Holds.mem_keys (holds : Holds scripts done) (name : String) :
    name ∈ scripts.keys ↔ ∃ script, lastSaved name done = some script := by
  rw [← Dict.contains_iff_mem_keys, Dict.contains, Option.isSome_iff_exists, holds name]

theorem Holds.answers (holds : Holds scripts done) (request : StoreRequest) :
    Answers done request (request.perform memory scripts).1 := by
  cases request with
  | save name script => rfl
  | load => exact ⟨scripts, rfl, holds.mem_entries,
      scripts.ordered.imp (Text.lt_iff_bytes _ _).mp⟩
  | get name => exact congrArg Except.ok (holds name)
  | names => exact ⟨scripts.keys, rfl, holds.mem_keys,
      scripts.pairwise_keys.imp (Text.lt_iff_bytes _ _).mp⟩

theorem answersAll_session (holds : Holds scripts done) (requests : List StoreRequest) :
    AnswersAll done requests (session memory requests scripts).1 ∧
      Holds (session memory requests scripts).2 (done ++ requests) := by
  induction requests generalizing scripts done with
  | nil => exact ⟨.nil done, by rwa [List.append_nil]⟩
  | cons request requests ih =>
    obtain ⟨answered, kept⟩ := ih (holds.perform request)
    rw [session, mapM_cons_apply, List.append_cons]
    exact ⟨.cons (holds.answers request) answered, kept⟩

theorem answersAll_sessions (holds : Holds scripts done) (sessions : List (List StoreRequest)) :
    AnswersAll done sessions.flatten (sessions.mapM (session memory) scripts).1.flatten ∧
      (sessions.mapM (session memory) scripts).1.map List.length = sessions.map List.length ∧
      Holds (sessions.mapM (session memory) scripts).2 (done ++ sessions.flatten) := by
  induction sessions generalizing scripts done with
  | nil => exact ⟨.nil done, rfl, by rwa [List.flatten_nil, List.append_nil]⟩
  | cons requests sessions ih =>
    obtain ⟨answered, kept⟩ := answersAll_session holds requests
    obtain ⟨later, lengths, last⟩ := ih kept
    rw [List.append_assoc] at last
    rw [mapM_cons_apply]
    refine ⟨answered.append later, ?_, last⟩
    rw [List.map_cons, List.map_cons, lengths, answered.length_eq]

end Memory

theorem loadFile_of_damaged {world : World} {content : Content}
    (read : world.disk.readBytes world.cwd path = .ok content)
    (damaged : (String.fromUTF8? content).bind Scripts.ofText? = none) :
    ∃ error, (loadFile path : StateM World _) world = (.error error, world) ∧
      (error = .disk .notUtf8 ∨ error = .corruptStore path) := by
  obtain ⟨entry, found, -⟩ := bind_eq_ok_iff.mp read
  have kind : world.disk.kind world.cwd true path = .ok entry.2.kind := by
    rw [Disk.kind, if_pos rfl, found]
    rfl
  have there := World.pathExists_of_ok kind
  cases text : String.fromUTF8? content with
  | none =>
    refine ⟨.disk .notUtf8, ?_, .inl rfl⟩
    simp only [loadFile, DiskAccess.readText, bind_apply, there, World.readBytes_apply, read, text,
      Bool.not_true, Bool.false_eq_true, ↓reduceIte, pure_apply]
  | some text' =>
    rw [text, Option.bind_some] at damaged
    refine ⟨.corruptStore path, ?_, .inr rfl⟩
    simp only [loadFile, DiskAccess.readText, bind_apply, there, World.readBytes_apply, read, text,
      damaged, Bool.not_true, Bool.false_eq_true, ↓reduceIte, pure_apply]

theorem save_of_damaged {world : World} {content : Content}
    (read : world.disk.readBytes world.cwd path = .ok content)
    (damaged : (String.fromUTF8? content).bind Scripts.ofText? = none) (name script : String) :
    ∃ error, ((file path).save name script : StateM World _) world = (.error error, world) ∧
      (error = .disk .notUtf8 ∨ error = .corruptStore path) := by
  obtain ⟨error, loaded, named⟩ := loadFile_of_damaged read damaged
  refine ⟨error, ?_, named⟩
  simp only [file, saveFile, bind_apply, loaded, pure_apply]

/-- Begin with a path that nothing is found under and that a file can be written to. However
requests are divided into sessions that each open the file anew, all are answered as by a store in
memory, and each as `Answers` says: the last script saved under a name is kept, and the names are in
the order of their bytes. For the text of the scripts is read back as the scripts themselves. A file
with anything else in it is refused and left as it is. -/
theorem sessions_agree {world : World}
    (missing : (DiskAccess.pathExists path : StateM World Bool) world = (false, world))
    (writable : world.Writable path) (sessions : List (List StoreRequest)) :
    let inFile := (sessions.mapM (session (file path)) : StateM World _) world
    let inMemory := (sessions.mapM (session memory) : StateM Scripts _) Dict.empty
    inFile.1 = inMemory.1 ∧
    (AnswersAll [] sessions.flatten inFile.1.flatten ∧
      inFile.1.map List.length = sessions.map List.length) ∧
    ((file path).load : StateM World _) inFile.2 = (.ok inMemory.2, inFile.2) ∧
    (∀ name, inMemory.2.get? name = lastSaved name sessions.flatten) ∧
    inMemory.2.keys.Pairwise (fun a b => Text.bytes a < Text.bytes b) ∧
    (∀ scripts : Scripts, Scripts.ofText? scripts.toText = some scripts) ∧
    (∀ (damaged : World) (content : Content),
      damaged.disk.readBytes damaged.cwd path = .ok content →
      (String.fromUTF8? content).bind Scripts.ofText? = none → ∀ name script,
        ∃ error, ((file path).save name script : StateM World _) damaged =
          (.error error, damaged) ∧ (error = .disk .notUtf8 ∨ error = .corruptStore path)) := by
  intro inFile inMemory
  obtain ⟨same, keeps⟩ := sessions_simulates sessions _ _ (.missing missing writable)
  have replies : inFile.1 = inMemory.1 := same.symm
  have start : Holds Dict.empty [] := fun _ => rfl
  obtain ⟨answered, lengths, last⟩ := answersAll_sessions start sessions
  rw [replies]
  exact ⟨rfl, ⟨answered, lengths⟩, loadFile_of_keeps keeps, last,
    inMemory.2.pairwise_keys.imp (Text.lt_iff_bytes _ _).mp, Scripts.ofText?_toText,
    fun damaged content read broken => save_of_damaged read broken⟩

-- The directory of the file is missing as well; a name and a script need escapes.
theorem sessions_agree_on_blank_disk :
    let world : World := { disk := Disk.blank }
    let path := "/kit/scripts.json"
    let sessions : List (List StoreRequest) :=
      [[.save "é" "y", .save "a\"b" "x\\\n", .get "b"], [.save "a\"b" "\x01𝄞", .names],
        [.get "a\"b", .load]]
    let inFile := (sessions.mapM (session (file path)) : StateM World _) world
    (DiskAccess.pathExists path : StateM World Bool) world = (false, world) ∧
      world.Writable path ∧
      inFile.1 = [[.saved (.ok ()), .saved (.ok ()), .script (.ok none)],
        [.saved (.ok ()), .names (.ok ["a\"b", "é"])],
        [.script (.ok (some "\x01𝄞")),
          .scripts (.ok (Dict.ofList [("a\"b", "\x01𝄞"), ("é", "y")]))]] := by
  intro world path sessions inFile
  have plain := Disk.Plain.blank
  have home : Disk.Names "/kit" ["kit"] := ⟨by decide, by decide, by decide, by decide⟩
  have names : Disk.Names path ["kit", "scripts.json"] :=
    ⟨by decide, by decide, by decide, by decide⟩
  have unslashed : Disk.endsInSlash path = false := by decide
  have fits : world.disk.Fits path ["kit", "scripts.json"] := fun slashed => by
    cases unslashed.symm.trans slashed
  have nothing := Disk.kind_toOption plain names fits world.cwd true
  have missing : (DiskAccess.pathExists path : StateM World Bool) world = (false, world) := by
    rw [World.pathExists_apply, nothing, Disk.get?_blank]
    rfl
  have above : (Path.ancestors path).tail = ["/kit"] := by decide +kernel
  have top : Disk.blank.get? [] = some .directory := by simp [Disk.get?_blank]
  have free : Disk.blank.get? ["kit"] = none := by simp [Disk.get?_blank]
  have made : world.disk.createDir world.cwd "/kit" = .ok (Disk.blank.put ["kit"] .directory) :=
    Disk.createDir_eq plain home (by decide) free top world.cwd
  have later : (Disk.blank.put ["kit"] .directory).Plain :=
    plain.put top (by simp [free]) (by simp)
  have writable : world.Writable path := by
    refine ⟨{ world with disk := Disk.blank.put ["kit"] .directory }, _, _, ?_,
      Disk.locate_of_absent later names unslashed (by simp [Disk.get?_blank]) (by simp), .inl rfl⟩
    rw [above]
    simp only [DiskAccess.createDirs, bind_apply, World.createDir_of_ok made, pure_apply]
  have inMemory : ((sessions.mapM (session memory) : StateM Scripts _) Dict.empty).1 =
      [[.saved (.ok ()), .saved (.ok ()), .script (.ok none)],
        [.saved (.ok ()), .names (.ok ["a\"b", "é"])],
        [.script (.ok (some "\x01𝄞")),
          .scripts (.ok (Dict.ofList [("a\"b", "\x01𝄞"), ("é", "y")]))]] := by rfl
  exact ⟨missing, writable, (sessions_agree missing writable sessions).1.trans inMemory⟩

end ScriptStore
end Scaffold
