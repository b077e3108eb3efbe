import Mathlib.Logic.Relation
import Scaffold.Proofs.Path.Normal

/-! How `.` and `..` come out of a path. They may be taken out one by one, whichever first: the steps
left when none moves any more are always the same (`Cancels.settled_iff`), and they are those of the
normal form. So the normal form can be put in a path's stead, alone (`normalize_normalize`) or before
another path (`normalize_join_normalize`). -/

namespace Scaffold

namespace Path

/-- One move taken out of a row of steps: a `.` alone, a `..` with the name right before it, and a
`..` alone where nothing stands before it. -/
inductive Cancels : List String → List String → Prop
  | stay (before after : List String) : Cancels (before ++ "." :: after) (before ++ after)
  | back (before after : List String) {name : String} (still : name ≠ "." ∧ name ≠ "..") :
      Cancels (before ++ name :: ".." :: after) (before ++ after)
  | top (after : List String) : Cancels (".." :: after) after

end Path

namespace Location

theorem ofSteps_append (first second : List String) :
    ofSteps (first ++ second) = (second.filter (· ≠ ".")).foldl Path.climb (ofSteps first) := by
  rw [ofSteps, List.filter_append, List.foldl_append, ← ofSteps]

theorem ofSteps_congr {first first' : List String} (same : ofSteps first = ofSteps first')
    (second : List String) : ofSteps (first ++ second) = ofSteps (first' ++ second) := by
  rw [ofSteps_append, ofSteps_append, same]

end Location

namespace Path

namespace Cancels

variable {steps left : List String}

theorem append (cancels : Cancels steps left) (rest : List String) :
    Cancels (steps ++ rest) (left ++ rest) := by
  cases cancels with
  | stay before after => simpa using stay before (after ++ rest)
  | back before after still => simpa using back before (after ++ rest) still
  | top => exact top (_ ++ rest)

theorem ofSteps_eq (cancels : Cancels steps left) :
    Location.ofSteps steps = Location.ofSteps left := by
  cases cancels with
  | stay before after => simp [Location.ofSteps]
  | @back before after name still =>
    have there : Location.ofSteps (before ++ [name, ".."]) = Location.ofSteps before := by
      rw [Location.ofSteps_append]
      simp [still.1, still.2, climb]
    simpa using Location.ofSteps_congr there after
  | top => simp [Location.ofSteps, climb]

theorem ofSteps_of_reached (reached : Relation.ReflTransGen Cancels steps left) :
    Location.ofSteps steps = Location.ofSteps left := by
  induction reached with
  | refl => rfl
  | tail _ cancels same => rw [same, cancels.ofSteps_eq]

theorem reaches_snoc (still : Still steps) (step : String) :
    Relation.ReflTransGen Cancels (steps ++ [step])
      (if step = "." then steps else climb steps step) := by
  split
  next stays =>
    subst stays
    exact .single (by simpa using stay steps [])
  next =>
    unfold climb
    split
    next climbs =>
      subst climbs
      by_cases bottom : steps = []
      · subst bottom
        exact .single (top [])
      · have split := List.dropLast_append_getLast bottom
        have last := still _ (List.getLast_mem bottom)
        have taken := back steps.dropLast [] last
        rw [List.append_nil, List.append_cons, split] at taken
        exact .single taken
    next => exact .refl

theorem reaches_ofSteps (proper : ∀ step ∈ steps, step ≠ "" ∧ '/' ∉ step.toList) :
    Relation.ReflTransGen Cancels steps (Location.ofSteps steps) := by
  induction steps using List.reverseRecOn with
  | nil => exact .refl
  | append_singleton steps step ih =>
    have earlier : ∀ other ∈ steps, other ≠ "" ∧ '/' ∉ other.toList :=
      fun other member => proper other (by simp [member])
    have first : Relation.ReflTransGen Cancels (steps ++ [step]) (Location.ofSteps steps ++ [step]) :=
      (ih earlier).lift (· ++ [step]) fun _ _ cancels => cancels.append [step]
    rw [Location.ofSteps_snoc]
    exact first.trans (reaches_snoc (Location.normal_ofSteps earlier).still step)

theorem settled_iff (proper : ∀ step ∈ steps, step ≠ "" ∧ '/' ∉ step.toList) :
    Relation.ReflTransGen Cancels steps left ∧ Still left ↔ left = Location.ofSteps steps := by
  constructor
  · intro settled
    obtain ⟨reached, still⟩ := settled
    rw [ofSteps_of_reached reached, Location.ofSteps_of_still still]
  · intro same
    subst same
    exact ⟨reaches_ofSteps proper, (Location.normal_ofSteps proper).still⟩

end Cancels

theorem normalize_eq (path : String) :
    normalize path = ⟨isRooted path, Location.ofSteps (pieces path)⟩ := rfl

theorem text_of_unrooted (segments : List String) :
    text ⟨false, segments⟩ = "/".intercalate segments := by
  simp [text]

section Text
variable {p : Path} (normal : Location.Normal p.segments)
include normal

theorem pieces_text : pieces p.text = p.segments := by
  obtain ⟨rooted, segments⟩ := p
  cases rooted with
  | true => exact Location.pieces_text normal
  | false =>
    rw [text_of_unrooted, pieces_intercalate fun segment present =>
      ⟨(normal segment present).1, (normal segment present).2.1⟩]

theorem isRooted_text : isRooted p.text = p.rooted := by
  obtain ⟨rooted, segments⟩ := p
  cases rooted with
  | true => exact Location.isRooted_text segments
  | false => rw [text_of_unrooted, Location.not_isRooted_intercalate normal]

end Text

theorem pieces_normalize (path : String) :
    pieces (normalize path).text = Location.ofSteps (pieces path) :=
  pieces_text (Location.normal_ofSteps_pieces path)

theorem isRooted_normalize (path : String) : isRooted (normalize path).text = isRooted path :=
  isRooted_text (Location.normal_ofSteps_pieces path)

theorem ofSteps_ofSteps_pieces (path : String) :
    Location.ofSteps (Location.ofSteps (pieces path)) = Location.ofSteps (pieces path) :=
  Location.ofSteps_of_normal (Location.normal_ofSteps_pieces path)

theorem normalize_normalize (path : String) : normalize (normalize path).text = normalize path := by
  rw [normalize_eq (normalize path).text, isRooted_normalize, pieces_normalize,
    ofSteps_ofSteps_pieces, ← normalize_eq]

theorem normalize_join_normalize (base next : String) :
    normalize (join (normalize base).text next) = normalize (join base next) := by
  cases rooted : isRooted next with
  | true => rw [join_of_rooted rooted, join_of_rooted rooted]
  | false =>
    have steps : Location.ofSteps (pieces (join (normalize base).text next)) =
        Location.ofSteps (pieces (join base next)) := by
      calc
        _ = Location.ofSteps (Location.ofSteps (pieces base) ++ pieces next) := by
          rw [pieces_join rooted, pieces_normalize]
        _ = Location.ofSteps (pieces base ++ pieces next) :=
          Location.ofSteps_congr (ofSteps_ofSteps_pieces base) (pieces next)
        _ = _ := by rw [pieces_join rooted]
    rw [normalize_eq (join (normalize base).text next), isRooted_join, isRooted_normalize, steps,
      ← isRooted_join, ← normalize_eq]

/-- The laws of normal forms, for all paths, rooted or not. None of the steps moves, and what is
rooted stays so. A normal form is its own, and whatever follows a path may follow its normal form
instead. Its steps are what is left of those of the path when, in any order, each `.` is dropped and
each `..` cancels the name right before it, or goes alone where nothing is left before it. -/
theorem normalize_laws (path next : String) :
    Still (pieces (normalize path).text) ∧
    isRooted (normalize path).text = isRooted path ∧
    normalize (normalize path).text = normalize path ∧
    normalize (join path next) = normalize (join (normalize path).text next) ∧
    ∀ left : List String, Relation.ReflTransGen Cancels (pieces path) left ∧ Still left ↔
      left = pieces (normalize path).text := by
  refine ⟨?_, isRooted_normalize path, normalize_normalize path,
    (normalize_join_normalize path next).symm, ?_⟩
  · rw [pieces_normalize]
    exact (Location.normal_ofSteps_pieces path).still
  · intro left
    rw [pieces_normalize]
    exact Cancels.settled_iff fun step present =>
      ⟨(mem_pieces present).1, (mem_pieces present).2.1⟩

example : normalize "../a/./b//../../../c/" = ⟨false, ["c"]⟩ := by decide +kernel

end Path
end Scaffold
