import Scaffold.Proofs.Disk.Plain

/-! Where steps lead on a disk with links. `Leads` says which steps take one from one directory to
another; a walk goes on from there as if it had begun there (`Leads.walk_append`), and they keep
leading there while directories and links stay (`Leads.of_kept`). A path under which a directory is
found is made of such steps (`exists_leads`). -/

namespace Scaffold.Disk

/-- Steps that lead from one directory to another, through directories and along links. Of the
`links` that may be followed, `left` may still be followed at the end. -/
inductive Leads (disk : Disk) : Nat → Location → List String → Nat → Location → Prop
  | here {links : Nat} {place : Location} (there : disk.get? place = some .directory) :
      Leads disk links place [] links place
  | stay {links left : Nat} {place goal : Location} {rest : List String}
      (onward : Leads disk links place rest left goal) :
      Leads disk links place ("." :: rest) left goal
  | climb {links left : Nat} {place goal : Location} {rest : List String}
      (there : disk.get? place = some .directory)
      (onward : Leads disk links place.dropLast rest left goal) :
      Leads disk links place (".." :: rest) left goal
  | enter {links left : Nat} {place goal : Location} {name : String} {rest : List String}
      (there : disk.get? place = some .directory) (passable : Passable name)
      (onward : Leads disk links (place ++ [name]) rest left goal) :
      Leads disk links place (name :: rest) left goal
  | follow {links left : Nat} {place goal : Location} {name target : String} {rest : List String}
      (there : disk.get? place = some .directory) (passable : Passable name)
      (found : disk.get? (place ++ [name]) = some (.link target))
      (onward : Leads disk links (if Path.isRooted target then [] else place)
        (steps target ++ rest) left goal) :
      Leads disk (links + 1) place (name :: rest) left goal

variable {disk later : Disk} {place goal : Location} {links left : Nat}
  {names rest : List String} {name : String} {slash : Bool} {ending : Ending}

theorem walk_nil {node : Node} (found : disk.get? place = some node) :
    walk disk ending links place [] false = .ok (.node place node) := by
  rw [walk]
  simp [found]

theorem walk_stay (there : disk.get? place = some .directory) :
    walk disk ending links place ("." :: rest) slash =
      walk disk ending links place rest slash := by
  rw [walk]
  simp [there]

theorem walk_climb (there : disk.get? place = some .directory) :
    walk disk ending links place (".." :: rest) slash =
      walk disk ending links place.dropLast rest slash := by
  rw [walk]
  simp [there]

theorem walk_name (there : disk.get? place = some .directory) (passable : Passable name)
    (more : rest = [] → slash = true → ending ≠ .write) :
    walk disk ending links place (name :: rest) slash =
      match disk.get? (place ++ [name]) with
      | none => if rest = [] then .ok (.absent (place ++ [name])) else .error .notFound
      | some (.link target) =>
        if rest = [] ∧ (ending = .make ∨ ending = .keep ∧ !slash) then
          .ok (.node (place ++ [name]) (.link target))
        else
          match links with
          | 0 => .error .tooManyLinks
          | links + 1 =>
            walk disk ending links (if Path.isRooted target then [] else place)
              (steps target ++ rest) (slash || (rest = [] && endsInSlash target))
      | some _ => walk disk ending links (place ++ [name]) rest slash := by
  obtain ⟨stays, onward, short⟩ := passable
  have length : ¬ nameLimit < name.utf8ByteSize := Nat.not_lt.mpr short
  have writes : ¬ (rest = [] ∧ slash = true ∧ ending = .write) :=
    fun ⟨last, ends, writing⟩ => more last ends writing
  rw [walk]
  cases found : disk.get? (place ++ [name]) with
  | none =>
    simp only [there, ne_eq, not_true_eq_false, ↓reduceIte, stays, onward, writes, length, found]
  | some node =>
    cases node with
    | directory | file =>
      simp only [there, ne_eq, not_true_eq_false, ↓reduceIte, stays, onward, writes, length, found]
    | link target =>
      cases links <;>
        simp only [there, ne_eq, not_true_eq_false, ↓reduceIte, stays, onward, writes, length,
          found]

theorem leads_of_walk
    (walked : walk disk .follow links place names slash = .ok (.node goal .directory)) :
    ∃ left, Leads disk links place names left goal := by
  generalize following : Ending.follow = ending at walked
  fun_induction walk disk ending links place names slash with
  | case3 links place slash here there fits =>
    cases walked
    exact ⟨links, .here there⟩
  | case5 links place slash here there rest directory ih =>
    obtain ⟨left, onward⟩ := ih walked
    exact ⟨left, .stay onward⟩
  | case6 links place slash here there rest directory apart ih =>
    rw [not_not.mp directory] at there
    obtain ⟨left, onward⟩ := ih walked
    exact ⟨left, .climb there onward⟩
  | case13 place slash here there name rest directory stays climbs _ short target found _ links
      ih =>
    rw [not_not.mp directory] at there
    obtain ⟨left, onward⟩ := ih walked
    exact ⟨left, .follow there ⟨stays, climbs, Nat.not_lt.mp short⟩ found onward⟩
  | case14 links place slash here there name rest directory stays climbs _ short node other found
      ih =>
    rw [not_not.mp directory] at there
    obtain ⟨left, onward⟩ := ih walked
    exact ⟨left, .enter there ⟨stays, climbs, Nat.not_lt.mp short⟩ onward⟩
  | case1 | case2 | case4 | case7 | case8 | case9 | case10 | case11 | case12 => cases walked

namespace Leads

theorem start (leads : Leads disk links place names left goal) :
    disk.get? place = some .directory := by
  induction leads with
  | here there => exact there
  | stay _ ih => exact ih
  | climb there | enter there | follow there => exact there

theorem goal_directory (leads : Leads disk links place names left goal) :
    disk.get? goal = some .directory := by
  induction leads with
  | here there => exact there
  | stay _ ih | climb _ _ ih | enter _ _ _ ih | follow _ _ _ _ ih => exact ih

theorem walk_append (leads : Leads disk links place names left goal) (filled : rest ≠ []) :
    walk disk ending links place (names ++ rest) slash =
      walk disk ending left goal rest slash := by
  induction leads with
  | here => rfl
  | stay onward ih => rw [List.cons_append, walk_stay onward.start, ih]
  | climb there _ ih => rw [List.cons_append, walk_climb there, ih]
  | @enter _ _ place goal name names there passable onward ih =>
    have more : names ++ rest ≠ [] := by simp [filled]
    rw [List.cons_append, walk_name there passable (absurd · more), onward.start, ih]
  | @follow links left place goal name target names there passable found _ ih =>
    have more : names ++ rest ≠ [] := by simp [filled]
    rw [List.cons_append, walk_name there passable (absurd · more), found]
    simp only [more, false_and, ↓reduceIte, decide_false, Bool.false_and, Bool.or_false]
    rw [← List.append_assoc, ih]

theorem walk_through (leads : Leads disk links place names left goal)
    (through : ending = .follow ∨ ending = .keep ∧ slash = true) :
    walk disk ending links place names slash = .ok (.node goal .directory) := by
  induction leads generalizing slash with
  | here there =>
    rw [walk]
    simp [there]
  | stay onward ih => rw [walk_stay onward.start, ih through]
  | climb there _ ih => rw [walk_climb there, ih through]
  | enter there passable onward ih =>
    have looks : ending ≠ .write := by rcases through with rfl | ⟨rfl, -⟩ <;> decide
    rw [walk_name there passable fun _ _ => looks, onward.start]
    exact ih through
  | @follow links left place goal name target rest there passable found _ ih =>
    have looks : ending ≠ .write := by rcases through with rfl | ⟨rfl, -⟩ <;> decide
    have onward : ¬ (rest = [] ∧ (ending = .make ∨ ending = .keep ∧ !slash)) := by
      rcases through with rfl | ⟨rfl, slashed⟩
      · simp
      · simp [slashed]
    rw [walk_name there passable fun _ _ => looks, found]
    simp only [onward, ↓reduceIte]
    exact ih (through.imp id fun keeps => ⟨keeps.1, by simp [keeps.2]⟩)

theorem walk_follow (leads : Leads disk links place names left goal) (slash : Bool) :
    walk disk .follow links place names slash = .ok (.node goal .directory) :=
  leads.walk_through (.inl rfl)

theorem of_kept (leads : Leads disk links place names left goal)
    (directories : ∀ place, disk.get? place = some .directory →
      later.get? place = some .directory)
    (targets : ∀ place target, disk.get? place = some (.link target) →
      later.get? place = some (.link target)) :
    Leads later links place names left goal := by
  induction leads with
  | here there => exact .here (directories _ there)
  | stay _ ih => exact .stay ih
  | climb there _ ih => exact .climb (directories _ there) ih
  | enter there passable _ ih => exact .enter (directories _ there) passable ih
  | follow there passable found _ ih =>
    exact .follow (directories _ there) passable (targets _ _ found) ih

theorem short (leads : Leads disk links place names left goal) :
    ∀ step ∈ names, step.utf8ByteSize ≤ nameLimit := by
  intro step present
  induction leads with
  | here => cases present
  | stay _ ih | climb _ _ ih =>
    rcases List.mem_cons.mp present with rfl | present
    · decide
    · exact ih present
  | enter _ passable _ ih =>
    rcases List.mem_cons.mp present with rfl | present
    · exact passable.2.2
    · exact ih present
  | follow _ passable _ _ ih =>
    rcases List.mem_cons.mp present with rfl | present
    · exact passable.2.2
    · exact ih (List.mem_append_right _ present)

end Leads

section Paths

variable {cwd : Location} {path : String} {found : Found} {node : Node}

theorem locate_of_ok (located : disk.locate cwd ending path = .ok found) (other : Disk)
    (later : Ending) : other.locate cwd later path = walk other later linkLimit
      (if Path.isRooted path then [] else cwd) (steps path) (endsInSlash path) := by
  unfold locate at located ⊢
  split at located
  next => cases located
  next noNul =>
    split at located
    next => cases located
    next filled =>
      split at located
      next => cases located
      next short => rw [if_neg noNul, if_neg filled, if_neg short]

theorem locate_of_find (found : disk.find cwd ending path = .ok (goal, node)) :
    disk.locate cwd ending path = .ok (.node goal node) := by
  obtain ⟨result, located, same⟩ := bind_eq_ok_iff.mp found
  cases result with
  | absent place => cases same
  | node place node =>
    cases same
    exact located

theorem exists_leads (found : disk.find cwd .follow path = .ok (goal, .directory)) :
    ∃ left, Leads disk linkLimit (if Path.isRooted path then [] else cwd) (steps path) left
      goal := by
  obtain ⟨result, located, same⟩ := bind_eq_ok_iff.mp found
  cases result with
  | absent place => cases same
  | node place node =>
    cases same
    rw [locate_of_ok located] at located
    exact leads_of_walk located

end Paths
end Scaffold.Disk
