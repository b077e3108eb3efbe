import Scaffold.Proofs.Store.Sessions
import Scaffold.Proofs.Text.Search
import Scaffold.Proofs.Text.Trim

namespace Scaffold

variable {input call name script : String}

/-- A line to be saved: the first `@` stands between the name and the script, and there may be blanks
around both. -/
def IsSaveLine (input name script : String) : Prop :=
  ∃ left right, input = left ++ "@" ++ right ∧ '@' ∉ left.toList ∧
    Text.TrimsTo left name ∧ Text.TrimsTo right script ∧ name ≠ "" ∧ script ≠ ""

theorem parseSaveLine_eq_ok_iff :
    parseSaveLine input = .ok (name, script) ↔ IsSaveLine input name script := by
  constructor
  · intro parsed
    rw [parseSaveLine] at parsed
    cases found : Text.splitOnce '@' input.toList with
    | none =>
      rw [found] at parsed
      cases parsed
    | some sides =>
      obtain ⟨left, right⟩ := sides
      obtain ⟨split, apart⟩ := Text.splitOnce_eq_some_iff.mp found
      rw [found] at parsed
      dsimp only at parsed
      split at parsed
      next => cases parsed
      next filled =>
        obtain ⟨noName, noScript⟩ := not_or.mp filled
        obtain ⟨rfl, rfl⟩ := Prod.mk.inj (Except.ok.inj parsed)
        refine ⟨String.ofList left, String.ofList right, ?_, ?_, Text.trim_eq_iff.mp rfl,
          Text.trim_eq_iff.mp rfl, noName, noScript⟩
        · apply String.toList_inj.mp
          simpa using split
        · simpa using apart
  · rintro ⟨left, right, rfl, apart, named, scripted, noName, noScript⟩
    have found : Text.splitOnce '@' (left ++ "@" ++ right).toList =
        some (left.toList, right.toList) :=
      Text.splitOnce_eq_some_iff.mpr ⟨by simp, apart⟩
    rw [parseSaveLine, found]
    simp only [String.ofList_toList, Text.trim_eq_iff.mpr named, Text.trim_eq_iff.mpr scripted,
      noName, noScript, or_self, ↓reduceIte]

namespace IsSaveLine

theorem not_mem_name (line : IsSaveLine input name script) : '@' ∉ name.toList := by
  obtain ⟨left, right, -, apart, named, -⟩ := line
  intro present
  exact apart (named.mem present)

theorem again (line : IsSaveLine input name script) :
    IsSaveLine (name ++ " @ " ++ script) name script := by
  have apart := line.not_mem_name
  obtain ⟨left, right, -, -, ⟨named, -⟩, ⟨scripted, -⟩, noName, noScript⟩ := line
  have blank : Text.Blanks " " := by decide
  refine ⟨name ++ " ", " " ++ script, ?_, ?_, ?_, ?_, noName, noScript⟩
  · apply String.toList_inj.mp
    simp
  · simpa using apart
  · exact ⟨named, "", " ", Text.blanks_empty, blank, by simp⟩
  · exact ⟨scripted, " ", "", blank, Text.blanks_empty, by simp⟩

end IsSaveLine

/-- A call with a name: the name after a `!`, with blanks anywhere but inside the name. -/
def IsCall (call name : String) : Prop :=
  ∃ front middle back, Text.Blanks front ∧ Text.Blanks middle ∧ Text.Blanks back ∧
    call = front ++ "!" ++ middle ++ name ++ back

theorem parse_of_isCall (called : IsCall call name) (trimmed : Text.Trimmed name)
    (filled : name ≠ "") : Invocation.parse call = some (.saved name) := by
  obtain ⟨front, middle, back, leading, between, trailing, rfl⟩ := called
  have inner : ("!" ++ middle ++ name).toList = '!' :: (middle ++ name).toList := by simp
  have ends : Text.Trimmed ("!" ++ middle ++ name) := by
    refine ⟨by simp [inner]; decide, ?_⟩
    intro c last
    have some : name.toList ≠ [] := by simpa using filled
    rw [String.toList_append, List.getLast?_append_of_ne_nil _ some] at last
    exact trimmed.2 c last
  have outer : Text.trim (front ++ "!" ++ middle ++ name ++ back) = "!" ++ middle ++ name := by
    rw [show front ++ "!" ++ middle ++ name ++ back = front ++ ("!" ++ middle ++ name) ++ back by
      simp only [String.append_assoc]]
    exact Text.trim_of_between leading trailing ends
  have bare : Text.trim (middle ++ name) = name := by
    simpa using Text.trim_of_between between Text.blanks_empty trimmed
  rw [Invocation.parse, outer, inner]
  simp only [String.ofList_toList, bare]

namespace ScriptStore

variable {σ : Type} {store : ScriptStore (StateM σ)} {holds : Scripts → σ → Prop}
  {scripts : Scripts} {state : σ}

/-- The store does as the one in memory, where its state holds the scripts that are there. -/
structure ActsAsMemory (holds : Scripts → σ → Prop) (store : ScriptStore (StateM σ)) : Prop where
  load : Simulates holds (· = ·) memory.load store.load
  save : ∀ name script, Simulates holds (· = ·) (memory.save name script) (store.save name script)

theorem memory_actsAsMemory : ActsAsMemory (· = ·) memory where
  load := by
    rintro scripts _ rfl
    exact ⟨rfl, rfl⟩
  save name script := by
    rintro scripts _ rfl
    exact ⟨rfl, rfl⟩

theorem file_actsAsMemory (path : String) : ActsAsMemory (Keeps path) (file path) where
  load := load_simulates
  save := save_simulates

/-- From here on a call with the name gives the script, whatever is saved under other names. -/
def Recalls (store : ScriptStore (StateM σ)) (name script : String) (state : σ) : Prop :=
  ∀ later : List (String × String), (∀ entry ∈ later, entry.1 ≠ name) → ∀ call, IsCall call name →
    ∃ invocation, Invocation.parse call = some invocation ∧
      (store.resolve invocation
        (later.mapM (fun entry => store.save entry.1 entry.2) state).2).1 = .ok script

theorem get?_saves {later : List (String × String)} (others : ∀ entry ∈ later, entry.1 ≠ name)
    (scripts : Scripts) :
    (later.mapM (fun entry => memory.save entry.1 entry.2) scripts).2.get? name =
      scripts.get? name := by
  induction later generalizing scripts with
  | nil => rfl
  | cons entry later ih =>
    have apart : name ≠ entry.1 := (others entry List.mem_cons_self).symm
    have onward := ih fun other member => others other (List.mem_cons_of_mem _ member)
    have saved : (memory.save entry.1 entry.2 scripts).2 = scripts.insert entry.1 entry.2 := rfl
    rw [mapM_cons_apply, onward, saved, Dict.get?_insert, if_neg apart]

theorem resolve_of_holds (acts : ActsAsMemory holds store) (held : holds scripts state)
    (saved : scripts.get? name = some script) :
    (store.resolve (.saved name) state).1 = .ok script := by
  obtain ⟨same, -⟩ := (acts.load.map fun outcome => outcome.map (·.get? name)) _ _ held
  have looked : (store.get? name state).1 = .ok (some script) := by
    rw [← saved]
    exact same.symm
  rw [resolve, bind_apply, looked]
  rfl

theorem recalls_of_holds (acts : ActsAsMemory holds store) (held : holds scripts state)
    (saved : scripts.get? name = some script) (trimmed : Text.Trimmed name) (filled : name ≠ "") :
    Recalls store name script state := by
  intro later others call called
  obtain ⟨-, onward⟩ :=
    Simulates.mapM (fun entry => acts.save entry.1 entry.2) later scripts state held
  refine ⟨.saved name, parse_of_isCall called trimmed filled, resolve_of_holds acts onward ?_⟩
  rw [get?_saves others, saved]

end ScriptStore

/-- A line is read as a name and a script just if both are there around the first `@`; the name has
no `@`, and written as a line they are read once more. Once they have been saved, in any store that
does as the one in memory or in a file, a call with the name gives the script, whatever is saved
under other names and whatever characters the two are made of. -/
theorem saved_script_recalled (input name script : String) :
    (parseSaveLine input = .ok (name, script) ↔ IsSaveLine input name script) ∧
    (parseSaveLine input = .ok (name, script) →
      '@' ∉ name.toList ∧ parseSaveLine (name ++ " @ " ++ script) = .ok (name, script) ∧
      (∀ {σ : Type} (store : ScriptStore (StateM σ)) (holds : Scripts → σ → Prop),
        ScriptStore.ActsAsMemory holds store → ∀ scripts state, holds scripts state →
          ScriptStore.Recalls store name script (store.save name script state).2) ∧
      (∀ scripts, ScriptStore.Recalls .memory name script
        (ScriptStore.memory.save name script scripts).2) ∧
      ∀ (path : String) (before after : World),
        Location.IsTree before.disk.get? .directory →
        (ScriptStore.saveFile path name script : StateM World _) before = (.ok (), after) →
          ScriptStore.Recalls (.file path) name script after) := by
  refine ⟨parseSaveLine_eq_ok_iff, fun parsed => ?_⟩
  have line := parseSaveLine_eq_ok_iff.mp parsed
  obtain ⟨_, _, -, -, ⟨trimmed, -⟩, -, filled, -⟩ := id line
  have inserted (scripts : Scripts) : (scripts.insert name script).get? name = some script := by
    simp
  have everywhere {σ : Type} (store : ScriptStore (StateM σ)) (holds : Scripts → σ → Prop)
      (acts : ScriptStore.ActsAsMemory holds store) (scripts : Scripts) (state : σ)
      (held : holds scripts state) :
      ScriptStore.Recalls store name script (store.save name script state).2 :=
    ScriptStore.recalls_of_holds acts (acts.save name script _ _ held).2 (inserted scripts) trimmed
      filled
  refine ⟨line.not_mem_name, parseSaveLine_eq_ok_iff.mpr line.again, everywhere, ?_, ?_⟩
  · intro scripts
    exact everywhere .memory (· = ·) ScriptStore.memory_actsAsMemory scripts scripts rfl
  · intro path before after tree saved
    obtain ⟨scripts, keeps⟩ := ScriptStore.exists_keeps tree saved
    exact ScriptStore.recalls_of_holds (ScriptStore.file_actsAsMemory path) keeps
      (inserted scripts) trimmed filled

-- The name begins with a `!` of its own, and the script has a further `@`.
theorem saved_script_recalled_with_marks :
    let name := "!é b"
    let script := "x > \"y\" @z"
    let world : World := { disk := Disk.blank }
    parseSaveLine "\u3000!é b\t@ x > \"y\" @z\n" = .ok (name, script) ∧
      IsCall " !\u00a0!é b\n" name ∧
      ScriptStore.Recalls .memory name script
        (ScriptStore.memory.save name script Dict.empty).2 ∧
      Location.IsTree world.disk.get? .directory ∧
      ∃ after, (ScriptStore.saveFile "/scripts.json" name script : StateM World _) world =
          (.ok (), after) ∧
        ScriptStore.Recalls (.file "/scripts.json") name script after := by
  intro name script world
  obtain ⟨read, recalled⟩ :=
    saved_script_recalled "\u3000!é b\t@ x > \"y\" @z\n" name script
  have parsed := read.mpr ⟨"\u3000!é b\t", " x > \"y\" @z\n", by decide, by decide,
    ⟨by decide, "\u3000", "\t", by decide, by decide, by decide⟩,
    ⟨by decide, " ", "\n", by decide, by decide, by decide⟩, by decide, by decide⟩
  have called : IsCall " !\u00a0!é b\n" name :=
    ⟨" ", "\u00a0", "\n", by decide, by decide, by decide, by decide⟩
  obtain ⟨-, -, -, inMemory, inFile⟩ := recalled parsed
  have plain := Disk.Plain.blank
  have names : Disk.Names "/scripts.json" ["scripts.json"] :=
    ⟨by decide, by decide, by decide, by decide⟩
  have unslashed : Disk.endsInSlash "/scripts.json" = false := by decide
  have fits : world.disk.Fits "/scripts.json" ["scripts.json"] := fun slashed => by
    cases unslashed.symm.trans slashed
  have missing : (DiskAccess.pathExists "/scripts.json" : StateM World Bool) world =
      (false, world) := by
    rw [World.pathExists_apply, Disk.kind_toOption plain names fits world.cwd true,
      Disk.get?_blank]
    rfl
  have writable : world.Writable "/scripts.json" := by
    refine ⟨world, _, _, ?_,
      Disk.locate_of_absent plain names unslashed (by simp [world, Disk.get?_blank]) plain.root,
      .inl rfl⟩
    rw [show (Path.ancestors "/scripts.json").tail = [] by decide +kernel]
    rfl
  obtain ⟨after, saved, -⟩ :=
    ScriptStore.saveFile_of_keeps (.missing missing writable) name script
  exact ⟨parsed, called, inMemory Dict.empty, plain.toIsTree, after, saved,
    inFile "/scripts.json" world after plain.toIsTree saved⟩

end Scaffold
