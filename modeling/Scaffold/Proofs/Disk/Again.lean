import Scaffold.Proofs.Disk.Leads

namespace Scaffold.Disk

variable {disk later : Disk} {cwd place spot goal : Location} {links left : Nat} {names : List String}
  {slash : Bool} {ending : Ending} {found : Found} {node : Node} {path : String}
  {content : Content}

namespace Free

theorem put_directory (free : disk.Free spot) (there : disk.get? place = some .directory)
    (node : Node) : (disk.put spot node).get? place = some .directory := by
  rw [get?_put, if_neg, there]
  rintro rfl
  cases free _ there

theorem put_link {target : String} (free : disk.Free spot)
    (there : disk.get? place = some (.link target)) (node : Node) :
    (disk.put spot node).get? place = some (.link target) := by
  rw [get?_put, if_neg, there]
  rintro rfl
  cases free _ there

end Free

/-- A walk has ended where a file may be put. -/
def EndsFree (found : Found) (spot : Location) : Prop :=
  found = .absent spot ∨ ∃ content, found = .node spot (.file content)

theorem free_of_walk (walked : walk disk ending links place names slash = .ok found)
    (ends : EndsFree found spot) : disk.Free spot := by
  fun_induction walk disk ending links place names slash with
  | case3 links place slash here there fits =>
    cases walked
    rcases ends with ended | ⟨content, ended⟩
    · cases ended
    · cases ended
      intro node same
      cases there.symm.trans same
      rfl
  | case5 links place slash here there rest directory ih => exact ih walked
  | case6 links place slash here there rest directory apart ih => exact ih walked
  | case9 links place slash here there name directory stays climbs short missing fits =>
    cases walked
    rcases ends with ended | ⟨content, ended⟩
    · cases ended
      intro node same
      cases missing.symm.trans same
    · cases ended
  | case11 =>
    cases walked
    rcases ends with ended | ⟨content, ended⟩ <;> cases ended
  | case13 place slash here there name rest directory stays climbs _ short target found _ links
      ih =>
    exact ih walked
  | case14 links place slash here there name rest directory stays climbs _ short node other found
      ih =>
    exact ih walked
  | case1 | case2 | case4 | case7 | case8 | case10 | case12 => cases walked

theorem holder_of_walk (walked : walk disk ending links place names slash = .ok (.absent spot)) :
    disk.get? spot.dropLast = some .directory := by
  fun_induction walk disk ending links place names slash with
  | case5 links place slash here there rest directory ih => exact ih walked
  | case6 links place slash here there rest directory apart ih => exact ih walked
  | case9 links place slash here there name directory stays climbs short missing fits =>
    cases walked
    rw [not_not.mp directory] at there
    rwa [List.dropLast_concat]
  | case13 place slash here there name rest directory stays climbs _ short target found _ links
      ih =>
    exact ih walked
  | case14 links place slash here there name rest directory stays climbs _ short node other found
      ih =>
    exact ih walked
  | case1 | case2 | case3 | case4 | case7 | case8 | case10 | case11 | case12 => cases walked

def Unlinked (disk : Disk) (place : Location) : Prop :=
  ∀ target, disk.get? place ≠ some (.link target)

theorem unlinked_of_directory (there : disk.get? place = some .directory) :
    disk.Unlinked place := by
  intro target linked
  cases there.symm.trans linked

-- A walk that writes follows links, so none is where it ends; if it takes no step, none was where it
-- began.
theorem unlinked_of_walk (tree : Location.IsTree disk.get? .directory)
    (begun : names = [] → disk.Unlinked place)
    (walked : walk disk .write links place names slash = .ok (.node spot node)) :
    node.kind ≠ .link := by
  generalize writing : Ending.write = ending at walked
  fun_induction walk disk ending links place names slash with
  | case3 links place slash here there fits =>
    cases walked
    cases node with
    | link target => exact absurd there (begun rfl target)
    | directory | file => simp [Node.kind]
  | case5 links place slash here there rest directory ih =>
    rw [not_not.mp directory] at there
    exact ih (fun _ => unlinked_of_directory there) walked
  | case6 links place slash here there rest directory apart ih =>
    rw [not_not.mp directory] at there
    exact ih (fun _ => unlinked_of_directory (tree.dropLast there)) walked
  | case11 links place slash here there name rest directory stays climbs fits short target linked
      kept =>
    subst writing
    simp at kept
  | case13 place slash here there name rest directory stays climbs fits short target linked _ links
      ih =>
    rw [not_not.mp directory] at there
    refine ih (fun _ => ?_) walked
    split
    next => exact unlinked_of_directory tree.root
    next => exact unlinked_of_directory there
  | case14 links place slash here there name rest directory stays climbs fits short other plain
      found ih =>
    refine ih (fun _ target linked => ?_) walked
    exact plain target (Option.some.inj (found.symm.trans linked))
  | case1 | case2 | case4 | case7 | case8 | case9 | case10 | case12 => cases walked

theorem writeFile_eq_ok (tree : Location.IsTree disk.get? .directory)
    (written : disk.writeFile cwd path content = .ok later) :
    ∃ found spot, disk.locate cwd .write path = .ok found ∧ EndsFree found spot ∧
      later = disk.put spot (.file content) := by
  obtain ⟨found, located, result⟩ := bind_eq_ok_iff.mp written
  refine ⟨found, ?_⟩
  cases found with
  | absent spot =>
    cases result
    exact ⟨spot, located, .inl rfl, rfl⟩
  | node spot node =>
    cases node with
    | directory => cases result
    | file old =>
      cases result
      exact ⟨spot, located, .inr ⟨old, rfl⟩, rfl⟩
    | link target =>
      have filled : path ≠ "" := by
        rintro rfl
        cases located
      have walked := located
      rw [locate_of_ok located] at walked
      refine absurd rfl (unlinked_of_walk tree (fun none => ?_) walked)
      rw [if_pos (Path.isRooted_of_pieces_nil filled none)]
      exact unlinked_of_directory tree.root

/-- A directory is found by a walk that looks, a file also by one that writes. -/
def Suits (ending later : Ending) (node : Node) : Prop :=
  later = .follow ∧ node = .directory ∨
    (later = .follow ∨ later = .write) ∧ ending = .write ∧ node.kind = .file

namespace Suits

theorem ne_link {later : Ending} (suits : Suits ending later node) (target : String) :
    node ≠ .link target := by
  rintro rfl
  rcases suits with ⟨-, same⟩ | ⟨-, -, same⟩ <;> cases same

theorem looks {later : Ending} (suits : Suits ending later node) :
    later ≠ .make ∧ later ≠ .keep := by
  rcases suits with ⟨rfl, -⟩ | ⟨rfl | rfl, -⟩ <;> decide

theorem unslashed {later : Ending} (suits : Suits ending later node)
    (fits : ¬ (slash = true ∧ ending = .write)) (slashed : slash = true) : later ≠ .write := by
  rintro rfl
  rcases suits with ⟨same, -⟩ | ⟨-, writing, -⟩
  · cases same
  · exact fits ⟨slashed, writing⟩

theorem walk_nil {later : Ending} (suits : Suits ending later node)
    (there : disk.get? spot = some node) (fits : ¬ (slash = true ∧ ending = .write)) (links : Nat) :
    walk disk later links spot [] slash = .ok (.node spot node) := by
  have last : ¬ (slash = true ∧ node ≠ .directory ∧ later ≠ .make) := by
    rintro ⟨slashed, other, -⟩
    rcases suits with ⟨-, same⟩ | ⟨-, writing, -⟩
    · exact other same
    · exact fits ⟨slashed, writing⟩
  rw [walk]
  simp only [there, last, ↓reduceIte]

end Suits

theorem walk_put {later : Ending} (walked : walk disk ending links place names slash = .ok found)
    (ends : EndsFree found spot) (suits : Suits ending later node) :
    walk (disk.put spot node) later links place names slash = .ok (.node spot node) := by
  have free := free_of_walk walked ends
  have new : (disk.put spot node).get? spot = some node := by simp
  fun_induction walk disk ending links place names slash with
  | case3 links place slash here there fits =>
    cases walked
    rcases ends with same | ⟨content, same⟩
    · cases same
    · cases same
      exact suits.walk_nil new (fun both => fits ⟨both.1, by simp, by simp [both.2]⟩) links
  | case5 links place slash here there rest directory ih =>
    rw [not_not.mp directory] at there
    rw [walk_stay (free.put_directory there node)]
    exact ih walked
  | case6 links place slash here there rest directory apart ih =>
    rw [not_not.mp directory] at there
    rw [walk_climb (free.put_directory there node)]
    exact ih walked
  | case9 links place slash here there name directory stays climbs short missing fits =>
    rw [not_not.mp directory] at there
    cases walked
    rcases ends with same | ⟨content, same⟩
    · cases same
      have fits : ¬ (slash = true ∧ ending = .write) := fun both => fits ⟨rfl, both⟩
      rw [walk_name (free.put_directory there node) ⟨stays, climbs, Nat.not_lt.mp short⟩
        (fun _ => suits.unslashed fits), new]
      cases node with
      | link target => exact absurd rfl (suits.ne_link target)
      | directory | file => exact suits.walk_nil new fits links
    · cases same
  | case11 links place slash here there name rest directory stays climbs fits short target linked =>
    cases walked
    rcases ends with same | ⟨content, same⟩ <;> cases same
  | case13 place slash here there name rest directory stays climbs fits short target linked _ links
      ih =>
    rw [not_not.mp directory] at there
    rw [walk_name (free.put_directory there node) ⟨stays, climbs, Nat.not_lt.mp short⟩
      (fun last => suits.unslashed fun both => fits ⟨last, both⟩), free.put_link linked node]
    simp only [suits.looks, false_and, or_self, and_false, ↓reduceIte]
    exact ih walked
  | case14 links place slash here there name rest directory stays climbs fits short other plain
      found ih =>
    rw [not_not.mp directory] at there
    rw [walk_name (free.put_directory there node) ⟨stays, climbs, Nat.not_lt.mp short⟩
      (fun last => suits.unslashed fun both => fits ⟨last, both⟩)]
    obtain ⟨next, there, notLink⟩ : ∃ next, (disk.put spot node).get? (place ++ [name]) =
        some next ∧ ∀ target, next ≠ .link target := by
      by_cases here : place ++ [name] = spot
      · exact ⟨node, by rw [here, new], suits.ne_link⟩
      · exact ⟨other, by rw [get?_put, if_neg here, found], plain⟩
    rw [there]
    cases next with
    | link target => exact absurd rfl (notLink target)
    | directory | file => exact ih walked
  | case1 | case2 | case4 | case7 | case8 | case10 | case12 => cases walked

theorem Leads.walk_make (leads : Leads disk links place names left goal) (slash : Bool) :
    ∃ other node, walk disk .make links place names slash = .ok (.node other node) := by
  induction leads generalizing slash with
  | @here links place there =>
    refine ⟨place, .directory, ?_⟩
    rw [walk]
    simp [there]
  | stay onward ih =>
    rw [walk_stay onward.start]
    exact ih slash
  | climb there _ ih =>
    rw [walk_climb there]
    exact ih slash
  | enter there passable onward ih =>
    rw [walk_name there passable (by simp), onward.start]
    exact ih slash
  | @follow links left place goal name target rest there passable found _ ih =>
    rw [walk_name there passable (by simp), found]
    by_cases last : rest = []
    · exact ⟨place ++ [name], .link target, by simp [last]⟩
    · simp only [last, false_and, ↓reduceIte]
      exact ih _

section Requests

theorem locate_put {later : Ending} (located : disk.locate cwd ending path = .ok found)
    (ends : EndsFree found spot) (suits : Suits ending later node) :
    (disk.put spot node).locate cwd later path = .ok (.node spot node) := by
  rw [locate_of_ok located]
  rw [locate_of_ok located] at located
  exact walk_put located ends suits

theorem free_of_locate (located : disk.locate cwd ending path = .ok found)
    (ends : EndsFree found spot) : disk.Free spot := by
  rw [locate_of_ok located] at located
  exact free_of_walk located ends

theorem createDir_of_find (found : disk.find cwd .follow path = .ok (goal, .directory)) :
    disk.createDir cwd path = .error .alreadyExists := by
  obtain ⟨left, leads⟩ := exists_leads found
  obtain ⟨other, node, walked⟩ := leads.walk_make (endsInSlash path)
  rw [createDir, locate_of_ok (locate_of_find found), walked]
  rfl

theorem find_put (found : disk.find cwd .follow path = .ok (goal, .directory))
    (free : disk.Free spot) (node : Node) :
    (disk.put spot node).find cwd .follow path = .ok (goal, .directory) := by
  obtain ⟨left, leads⟩ := exists_leads found
  have onward := leads.of_kept (fun _ there => free.put_directory there node)
    fun _ _ there => free.put_link there node
  rw [find, locate_of_ok (locate_of_find found), onward.walk_follow]
  rfl

end Requests

end Scaffold.Disk
