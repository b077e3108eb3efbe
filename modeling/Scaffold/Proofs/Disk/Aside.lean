import Scaffold.Proofs.Disk.Leads

/-! Walks that look at nothing aside from one directory. A place is near the directory if it is on
the way down to it or below it; a walk that stays near (`¬ Strays`) comes to the same on every disk
that is the same there (`walk_eq_of_near`). Links may take it up and down again, for only what is
looked at counts. -/

namespace Scaffold

namespace Location

variable {base place : Location}

/-- The place is on the way down to `base`, or `base` itself, or below it. -/
def Near (base place : Location) : Prop := place <+: base ∨ base <+: place

instance (base place : Location) : Decidable (base.Near place) :=
  inferInstanceAs (Decidable (place <+: base ∨ base <+: place))

theorem near_root (base : Location) : base.Near [] := .inl List.nil_prefix

theorem near_of_below (below : base <+: place) (name : String) : base.Near (place ++ [name]) :=
  .inr (below.trans (List.prefix_append place [name]))

theorem Near.dropLast (near : base.Near place) : base.Near place.dropLast := by
  rcases near with above | below
  · exact .inl ((List.dropLast_prefix place).trans above)
  · by_cases same : place = base
    · exact .inl (same ▸ List.dropLast_prefix place)
    · obtain ⟨rest, split⟩ := below
      have filled : rest ≠ [] := by
        rintro rfl
        exact same (by rw [← split, List.append_nil])
      rw [← split, List.dropLast_append_of_ne_nil filled]
      exact .inr (List.prefix_append base rest.dropLast)

theorem exists_not_near (above : place <+: base) (apart : place ≠ base) :
    ∃ name, Path.IsName name ∧ name.utf8ByteSize ≤ Disk.nameLimit ∧
      ¬ base.Near (place ++ [name]) := by
  obtain ⟨rest, split⟩ := above
  obtain ⟨step, more, rfl⟩ : ∃ step more, rest = step :: more := by
    apply List.exists_cons_of_ne_nil
    rintro rfl
    exact apart (by rw [← split, List.append_nil])
  have other (name : String) (differs : name ≠ step) : ¬ base.Near (place ++ [name]) := by
    rw [← split]
    rintro (further | shorter)
    · have next := (List.prefix_append_right_inj place).mp further
      exact differs (List.cons_prefix_cons.mp next).1
    · have next := (List.prefix_append_right_inj place).mp shorter
      exact differs (List.cons_prefix_cons.mp next).1.symm
  by_cases taken : step = "a"
  · exact ⟨"b", by decide, by decide, other "b" (by rw [taken]; decide)⟩
  · exact ⟨"a", by decide, by decide, other "a" (Ne.symm taken)⟩

end Location

namespace Disk

/-- A walk that comes to look at a place which is not near `base`. With `meant`, a link at the end of
the walk is meant itself. -/
inductive Strays (disk : Disk) (base : Location) (meant : Bool) :
    Nat → Location → List String → Prop
  | aside {links : Nat} {place : Location} {name : String} {rest : List String}
      (there : disk.get? place = some .directory) (passable : Passable name)
      (apart : ¬ base.Near (place ++ [name])) : Strays disk base meant links place (name :: rest)
  | stay {links : Nat} {place : Location} {rest : List String}
      (onward : Strays disk base meant links place rest) :
      Strays disk base meant links place ("." :: rest)
  | climb {links : Nat} {place : Location} {rest : List String}
      (there : disk.get? place = some .directory)
      (onward : Strays disk base meant links place.dropLast rest) :
      Strays disk base meant links place (".." :: rest)
  | enter {links : Nat} {place : Location} {name : String} {rest : List String}
      (there : disk.get? place = some .directory) (passable : Passable name)
      (onward : Strays disk base meant links (place ++ [name]) rest) :
      Strays disk base meant links place (name :: rest)
  | follow {links : Nat} {place : Location} {name target : String} {rest : List String}
      (there : disk.get? place = some .directory) (passable : Passable name)
      (found : disk.get? (place ++ [name]) = some (.link target))
      (through : rest = [] → meant = false)
      (onward : Strays disk base meant links (if Path.isRooted target then [] else place)
        (steps target ++ rest)) :
      Strays disk base meant (links + 1) place (name :: rest)

variable {disk later : Disk} {base place goal : Location} {meant slash : Bool} {links left : Nat}
  {name : String} {names rest : List String} {ending : Ending}

theorem Strays.start (strays : Strays disk base meant links place names) :
    disk.get? place = some .directory := by
  induction strays with
  | stay _ ih => exact ih
  | aside there | climb there | enter there | follow there => exact there

theorem not_strays_nil : ¬ Strays disk base meant links place [] := by
  intro strays
  cases strays

theorem Strays.of_name (strays : Strays disk base meant links place (name :: rest))
    (passable : Passable name) (near : base.Near (place ++ [name])) :
    Strays disk base meant links (place ++ [name]) rest ∨
      ∃ target others, links = others + 1 ∧ disk.get? (place ++ [name]) = some (.link target) ∧
        Strays disk base meant others (if Path.isRooted target then [] else place)
          (steps target ++ rest) := by
  generalize whole : name :: rest = names at strays
  cases strays with
  | aside _ _ apart =>
    cases whole
    exact absurd near apart
  | stay =>
    cases whole
    exact absurd rfl passable.1
  | climb =>
    cases whole
    exact absurd rfl passable.2.1
  | enter _ _ onward =>
    cases whole
    exact .inl onward
  | follow _ _ found _ onward =>
    cases whole
    exact .inr ⟨_, _, rfl, found, onward⟩

theorem not_strays_enter {node : Node} (passable : Passable name)
    (near : base.Near (place ++ [name])) (there : disk.get? (place ++ [name]) = some node)
    (unlinked : node.kind ≠ .link)
    (steady : ¬ Strays disk base meant links (place ++ [name]) rest) :
    ¬ Strays disk base meant links place (name :: rest) := by
  intro strays
  rcases strays.of_name passable near with onward | ⟨target, others, -, found, -⟩
  · exact steady onward
  · cases there.symm.trans found
    exact unlinked rfl

theorem not_strays_follow {target : String} (passable : Passable name)
    (near : base.Near (place ++ [name]))
    (linked : disk.get? (place ++ [name]) = some (.link target))
    (steady : ¬ Strays disk base meant links (if Path.isRooted target then [] else place)
      (steps target ++ rest)) :
    ¬ Strays disk base meant (links + 1) place (name :: rest) := by
  intro strays
  rcases strays.of_name passable near with onward | ⟨other, others, same, found, onward⟩
  · cases linked.symm.trans onward.start
  · cases linked.symm.trans found
    cases same
    exact steady onward

theorem near_of_steady (there : disk.get? place = some .directory) (passable : Passable name)
    (steady : ¬ Strays disk base meant links place (name :: rest)) :
    base.Near (place ++ [name]) :=
  Decidable.byContradiction fun apart => steady (.aside there passable apart)

section SameNear

variable (same : ∀ place, base.Near place → later.get? place = disk.get? place)
  (near : base.Near place)
include same near

-- The hypotheses are those under which a walk comes to look at what stands under its next name.
theorem walk_name_of_near {here : Node} (there : disk.get? place = some here)
    (directory : ¬ here ≠ .directory) (stays : ¬ name = ".") (climbs : ¬ name = "..")
    (fits : ¬ (rest = [] ∧ slash = true ∧ ending = .write))
    (short : ¬ nameLimit < name.utf8ByteSize) :
    ¬ Strays disk base meant links place (name :: rest) →
    walk later ending links place (name :: rest) slash =
      match disk.get? (place ++ [name]) with
      | none => if rest = [] then .ok (.absent (place ++ [name])) else .error .notFound
      | some (.link target) =>
        if rest = [] ∧ (ending = .make ∨ ending = .keep ∧ !slash) then
          .ok (.node (place ++ [name]) (.link target))
        else
          match links with
          | 0 => .error .tooManyLinks
          | links + 1 =>
            walk later ending links (if Path.isRooted target then [] else place)
              (steps target ++ rest) (slash || (rest = [] && endsInSlash target))
      | some _ => walk later ending links (place ++ [name]) rest slash := by
  intro steady
  have passable : Passable name := ⟨stays, climbs, Nat.not_lt.mp short⟩
  rw [not_not.mp directory] at there
  rw [← same _ (near_of_steady there passable steady)]
  exact walk_name ((same place near).trans there) passable
    fun last ends writes => fits ⟨last, ends, writes⟩

-- A link that is not meant itself is followed; so at the end of the walk `slash` is not set anew
-- while links are meant there.
theorem walk_eq_of_near (kept : meant = true → ending = .make ∨ ending = .keep ∧ slash = false)
    (steady : ¬ Strays disk base meant links place names) :
    walk later ending links place names slash = walk disk ending links place names slash := by
  have looks := same place near
  fun_induction walk disk ending links place names slash with
  | case1 links place names slash missing => rw [walk, looks, missing]
  | case2 links place slash here there refused =>
    rw [walk, looks, there]
    exact if_pos refused
  | case3 links place slash here there fits =>
    rw [walk, looks, there]
    exact if_neg fits
  | case4 links place slash here there name rest blocked =>
    rw [walk, looks, there]
    exact if_pos blocked
  | case5 links place slash here there rest directory ih =>
    rw [not_not.mp directory] at there
    rw [walk_stay (looks.trans there)]
    exact ih near kept (fun strays => steady (.stay strays)) looks
  | case6 links place slash here there rest directory apart ih =>
    rw [not_not.mp directory] at there
    rw [walk_climb (looks.trans there)]
    exact ih near.dropLast kept (fun strays => steady (.climb there strays)) (same _ near.dropLast)
  | case7 links place slash here there name rest directory stays climbs refused =>
    rw [walk, looks, there]
    simp only [directory, stays, climbs, refused, ↓reduceIte, and_self]
  | case8 links place slash here there name rest directory stays climbs fits long =>
    rw [walk, looks, there]
    simp only [directory, stays, climbs, fits, long, ↓reduceIte]
  | case9 links place slash here there name directory stays climbs short missing fits =>
    rw [walk_name_of_near same near there directory stays climbs fits short steady, missing]
    rfl
  | case10 links place slash here there name rest directory stays climbs fits short missing more =>
    rw [walk_name_of_near same near there directory stays climbs fits short steady, missing]
    exact if_neg more
  | case11 links place slash here there name rest directory stays climbs fits short target linked
      itself =>
    rw [walk_name_of_near same near there directory stays climbs fits short steady, linked]
    exact if_pos itself
  | case12 place slash here there name rest directory stays climbs fits short target linked onward =>
    rw [walk_name_of_near same near there directory stays climbs fits short steady, linked]
    exact if_neg onward
  | case13 place slash here there name rest directory stays climbs fits short target linked onward
      links ih =>
    rw [walk_name_of_near same near there directory stays climbs fits short steady, linked]
    rw [not_not.mp directory] at there
    have passable : Passable name := ⟨stays, climbs, Nat.not_lt.mp short⟩
    have goes : base.Near (if Path.isRooted target then [] else place) := by
      split
      next => exact base.near_root
      next => exact near
    have through : rest = [] → meant = false := by
      intro last
      rw [← Bool.not_eq_true]
      intro itself
      exact onward ⟨last, (kept itself).imp id fun keeps => ⟨keeps.1, by simp [keeps.2]⟩⟩
    simp only [onward, ↓reduceIte]
    refine ih goes (fun itself => ?_)
      (fun strays => steady (.follow there passable linked through strays)) (same _ goes)
    have more : rest ≠ [] := by
      intro last
      cases itself.symm.trans (through last)
    simpa [more] using kept itself
  | case14 links place slash here there name rest directory stays climbs fits short other plain
      found ih =>
    rw [walk_name_of_near same near there directory stays climbs fits short steady, found]
    rw [not_not.mp directory] at there
    have passable : Passable name := ⟨stays, climbs, Nat.not_lt.mp short⟩
    have next := near_of_steady there passable steady
    have onward := ih next kept (fun strays => steady (.enter there passable strays)) (same _ next)
    cases other with
    | link target => exact absurd rfl (plain target)
    | directory | file => exact onward

end SameNear

/-- Where walks that stay near lead to a directory, and stay near along whatever comes behind, that
directory is `base` or below it. -/
theorem Leads.goal_below (leads : Leads disk links place names left goal) (near : base.Near place)
    (steady : ∀ rest : Location, rest.Normal →
      ¬ Strays disk base false links place (names ++ rest)) : base <+: goal := by
  induction leads with
  | @here links place there =>
    rcases near with above | below
    · by_cases same : place = base
      · exact same ▸ List.prefix_rfl
      · -- From above `base` some name leads aside, and it may come behind.
        obtain ⟨name, proper, short, apart⟩ := Location.exists_not_near above same
        have passable : Passable name := ⟨proper.2.2.1, proper.2.2.2, short⟩
        exact absurd (.aside there passable apart)
          (steady [name] (Location.normal_singleton proper))
    · exact below
  | stay _ ih => exact ih near fun rest normal strays => steady rest normal (.stay strays)
  | climb there _ ih =>
    exact ih near.dropLast fun rest normal strays => steady rest normal (.climb there strays)
  | enter there passable _ ih =>
    exact ih (near_of_steady there passable (steady [] (by simp [Location.Normal])))
      fun rest normal strays => steady rest normal (.enter there passable strays)
  | @follow links left place goal name target names there passable found _ ih =>
    refine ih ?_ fun rest normal strays => steady rest normal ?_
    · split
      next => exact base.near_root
      next => exact near
    · rw [List.append_assoc] at strays
      exact .follow there passable found (fun _ => rfl) strays

theorem not_strays_of_unlinked (below : base <+: place) (normal : Location.Normal names)
    (unlinked : ∀ above target, above <+: names →
      disk.get? (place ++ above) ≠ some (.link target)) :
    ¬ Strays disk base meant links place names := by
  intro strays
  induction strays with
  | aside _ _ apart => exact apart (Location.near_of_below below _)
  | stay => exact (normal "." (by simp)).2.2.1 rfl
  | climb => exact (normal ".." (by simp)).2.2.2 rfl
  | @enter _ place name rest _ _ _ ih =>
    apply ih (below.trans (List.prefix_append place [name]))
    · exact fun step member => normal step (by simp [member])
    · intro above target within
      have longer := unlinked (name :: above) target (List.cons_prefix_cons.mpr ⟨rfl, within⟩)
      rwa [List.append_cons] at longer
  | @follow _ place name target rest _ _ found =>
    exact unlinked [name] target (List.prefix_append [name] rest) found

end Disk
end Scaffold
