import Mathlib.Data.List.Basic
import Mathlib.Data.List.Induction
import Scaffold.Proofs.Path.Pieces

namespace Scaffold

namespace Path

/-- A step that stands for an entry and not for a move. -/
def IsName (step : String) : Prop := step ≠ "" ∧ '/' ∉ step.toList ∧ step ≠ "." ∧ step ≠ ".."

instance (step : String) : Decidable (IsName step) := inferInstanceAs (Decidable (_ ∧ _))

def Still (steps : List String) : Prop := ∀ step ∈ steps, step ≠ "." ∧ step ≠ ".."

theorem Still.kept {steps : List String} (still : Still steps) : steps.filter (· ≠ ".") = steps :=
  List.filter_eq_self.mpr fun step present => by simpa using (still step present).1

theorem exists_append_slash {text : String} (ends : text.toList.getLast? = some '/') :
    ∃ start, text = start ++ "/" := by
  obtain ⟨start, split⟩ := List.getLast?_eq_some_iff.mp ends
  refine ⟨String.ofList start, ?_⟩
  apply String.toList_inj.mp
  simpa using split

theorem join_of_rooted {next : String} (rooted : isRooted next = true) (base : String) :
    join base next = next := by
  rw [join, rooted, Bool.true_or, if_pos rfl]

theorem pieces_join {next : String} (unrooted : isRooted next = false) (base : String) :
    pieces (join base next) = pieces base ++ pieces next := by
  unfold join
  split
  next alone =>
    have empty : base = "" := by simpa [unrooted] using alone
    rw [empty, pieces_empty, List.nil_append]
  next =>
    split
    next ends =>
      obtain ⟨start, rfl⟩ := exists_append_slash ends
      rw [pieces_append_slash_append, pieces_append_slash]
    next => rw [pieces_append_slash_append]

theorem join_eq {base next : String} (filled : base ≠ "") (unrooted : isRooted next = false) :
    ∃ between, join base next = base ++ between ++ next := by
  unfold join
  rw [if_neg (by simp [filled, unrooted])]
  split
  next => exact ⟨"", by simp⟩
  next => exact ⟨"/", rfl⟩

theorem isRooted_append {start : String} (filled : start ≠ "") (rest : String) :
    isRooted (start ++ rest) = isRooted start := by
  have some : start.toList ≠ [] := by simpa using filled
  rw [isRooted, isRooted, String.toList_append, List.head?_append_of_ne_nil _ some]

theorem isRooted_join (base next : String) :
    isRooted (join base next) = (isRooted next || isRooted base) := by
  cases rooted : isRooted next with
  | true => rw [join_of_rooted rooted, rooted, Bool.true_or]
  | false =>
    by_cases empty : base = ""
    · have alone : join "" next = next := by simp [join]
      rw [empty, alone, rooted]
      rfl
    · obtain ⟨between, joined⟩ := join_eq empty rooted
      rw [joined, String.append_assoc, isRooted_append empty, Bool.false_or]

theorem join_ne_empty {base : String} (filled : base ≠ "") (next : String) : join base next ≠ "" := by
  unfold join
  split
  next rooted =>
    intro empty
    simp [empty, isRooted, filled] at rooted
  next => split <;> simp [filled]

theorem not_isRooted {segment : String} (noSlash : '/' ∉ segment.toList) :
    isRooted segment = false := by
  unfold isRooted
  apply decide_eq_false
  intro first
  exact noSlash (List.mem_of_head? first)

theorem isRooted_of_pieces_nil {path : String} (filled : path ≠ "") (none : pieces path = []) :
    isRooted path = true := by
  have slashes : path.toList.filter (· ≠ '/') = [] := by rw [← flatMap_pieces, none, List.flatMap_nil]
  have some : path.toList ≠ [] := by simpa using filled
  obtain ⟨c, rest, split⟩ := List.exists_cons_of_ne_nil some
  have slash : c = '/' := by simpa using List.filter_eq_nil_iff.mp slashes c (by simp [split])
  simp [isRooted, split, slash]

theorem pieces_foldl_join {base : String} {segments : List String}
    (proper : ∀ segment ∈ segments, segment ≠ "" ∧ '/' ∉ segment.toList) :
    pieces (segments.foldl join base) = pieces base ++ segments := by
  induction segments generalizing base with
  | nil => simp
  | cons segment segments ih =>
    have alone : pieces segment = [segment] := by
      have joined : "/".intercalate [segment] = segment := String.intercalate_singleton
      rw [← congrArg pieces joined]
      exact pieces_intercalate (by simpa using proper segment (by simp))
    have unrooted := not_isRooted (proper segment (by simp)).2
    rw [List.foldl_cons, ih fun other member => proper other (by simp [member]),
      pieces_join unrooted, alone, List.append_assoc]
    rfl

end Path

namespace Location

def Normal (place : Location) : Prop := ∀ name ∈ place, Path.IsName name

instance (place : Location) : Decidable place.Normal :=
  inferInstanceAs (Decidable (∀ name ∈ place, Path.IsName name))

def ofSteps (steps : List String) : Location := (steps.filter (· ≠ ".")).foldl Path.climb []

theorem ofText_eq (path : String) : ofText path = ofSteps (Path.pieces path) := by
  have same : Path.pieces (Path.join "/" path) = Path.pieces path := by
    cases rooted : Path.isRooted path with
    | true => rw [Path.join_of_rooted rooted]
    | false =>
      rw [Path.pieces_join rooted, Path.pieces_slash, List.nil_append]
  simp only [ofText, Path.normalize, Path.parse, same, ofSteps]

theorem normalize_of_rooted {path : String} (rooted : Path.isRooted path = true) :
    Path.normalize path = ⟨true, Location.ofText path⟩ := by
  rw [Location.ofText, Path.join_of_rooted rooted]
  simp only [Path.normalize, Path.parse, rooted]

theorem ofSegments_eq (path : String) : ofSegments path = ofSteps (Path.pieces path) := by
  have same : Path.pieces ((Path.pieces path).foldl Path.join "/") = Path.pieces path := by
    have proper : ∀ segment ∈ Path.pieces path, segment ≠ "" ∧ '/' ∉ segment.toList :=
      fun segment present => ⟨(Path.mem_pieces present).1, (Path.mem_pieces present).2.1⟩
    rw [Path.pieces_foldl_join proper, Path.pieces_slash, List.nil_append]
  simp only [ofSegments, Path.normalize, Path.parse, same, ofSteps]

theorem Normal.climb {place : Location} (normal : place.Normal) {step : String}
    (proper : step ≠ "" ∧ '/' ∉ step.toList) (moves : step ≠ ".") :
    Normal (Path.climb place step) := by
  unfold Path.climb
  split
  · exact fun name present => normal name ((List.dropLast_prefix place).subset present)
  next onward =>
    intro name present
    rcases List.mem_append.mp present with present | present
    · exact normal name present
    · rw [List.mem_singleton.mp present]
      exact ⟨proper.1, proper.2, moves, onward⟩

theorem normal_ofSteps {steps : List String}
    (proper : ∀ step ∈ steps, step ≠ "" ∧ '/' ∉ step.toList) : Normal (ofSteps steps) := by
  suffices ∀ place : Location, place.Normal →
      Normal ((steps.filter (· ≠ ".")).foldl Path.climb place) from
    this [] fun name present => absurd present (List.not_mem_nil)
  induction steps with
  | nil => exact fun place normal => normal
  | cons step steps ih =>
    intro place normal
    have later := ih fun other member => proper other (by simp [member])
    by_cases stays : step = "."
    · simpa [stays] using later place normal
    · rw [List.filter_cons_of_pos (by simpa using stays), List.foldl_cons]
      exact later _ (normal.climb (proper step (by simp)) stays)

theorem normal_ofSteps_pieces (path : String) : Normal (ofSteps (Path.pieces path)) :=
  normal_ofSteps fun _ present => ⟨(Path.mem_pieces present).1, (Path.mem_pieces present).2.1⟩

theorem normal_ofText (path : String) : (ofText path).Normal := by
  rw [ofText_eq]
  exact normal_ofSteps_pieces path

theorem normal_ofSegments (path : String) : (ofSegments path).Normal := by
  rw [ofSegments_eq]
  exact normal_ofSteps_pieces path

theorem Normal.of_within {above place : Location} (normal : place.Normal) (within : above <+: place) :
    above.Normal :=
  fun name present => normal name (within.subset present)

theorem Normal.append {place rest : Location} (first : place.Normal) (second : rest.Normal) :
    (place ++ rest : Location).Normal :=
  fun name present => (List.mem_append.mp present).elim (first name) (second name)

theorem normal_singleton {name : String} (proper : Path.IsName name) : Normal [name] :=
  fun other present => by rwa [List.mem_singleton.mp present]

theorem text_eq (place : Location) : place.text = "/" ++ "/".intercalate place := rfl

theorem text_ne_empty (place : Location) : place.text ≠ "" := by
  simp [text_eq]

theorem isRooted_text_append (place : Location) (ending : String) :
    Path.isRooted (place.text ++ ending) = true := by
  simp [Path.isRooted, text_eq]

theorem isRooted_text (place : Location) : Path.isRooted place.text = true := by
  simpa using isRooted_text_append place ""

theorem not_isRooted_intercalate {rest : Location} (normal : rest.Normal) :
    Path.isRooted ("/".intercalate rest) = false := by
  cases rest with
  | nil => rfl
  | cons name others =>
    have proper := normal name (by simp)
    have start : ∃ more, "/".intercalate (name :: others) = name ++ more := by
      by_cases last : others = []
      · exact ⟨"", by simp [last]⟩
      · exact ⟨"/" ++ "/".intercalate others, by
          rw [String.intercalate_cons_of_ne_nil last, String.append_assoc]⟩
    obtain ⟨more, split⟩ := start
    rw [split, Path.isRooted_append proper.1]
    exact Path.not_isRooted proper.2.1

theorem pieces_text {place : Location} (normal : place.Normal) : Path.pieces place.text = place := by
  rw [text_eq, Path.pieces_slash_append, Path.pieces_intercalate fun segment present =>
    ⟨(normal segment present).1, (normal segment present).2.1⟩]

theorem Normal.still {place : Location} (normal : place.Normal) : Path.Still place :=
  fun name present => (normal name present).2.2

theorem foldl_climb {place rest : Location} (still : Path.Still rest) :
    rest.foldl Path.climb place = place ++ rest := by
  induction rest generalizing place with
  | nil => simp
  | cons name rest ih =>
    have onward : name ≠ ".." := (still name (by simp)).2
    have later : Path.Still rest := fun other member => still other (by simp [member])
    rw [List.foldl_cons, ih later, Path.climb, if_neg onward, List.append_assoc]
    rfl

theorem ofSteps_of_still {steps : List String} (still : Path.Still steps) :
    ofSteps steps = steps := by
  rw [ofSteps, still.kept, foldl_climb still, List.nil_append]

theorem ofSteps_of_normal {place : Location} (normal : place.Normal) : ofSteps place = place :=
  ofSteps_of_still normal.still

theorem ofText_text {place : Location} (normal : place.Normal) : ofText place.text = place := by
  rw [ofText_eq, pieces_text normal, ofSteps_of_normal normal]

theorem normalize_text {place : Location} (normal : place.Normal) :
    Path.normalize place.text = ⟨true, place⟩ := by
  rw [normalize_of_rooted (isRooted_text place), ofText_text normal]

theorem ofSteps_snoc (steps : List String) (step : String) :
    ofSteps (steps ++ [step]) =
      if step = "." then ofSteps steps else Path.climb (ofSteps steps) step := by
  unfold ofSteps
  by_cases stays : step = "." <;> simp [stays]

/-- What stands where is a tree: its root is a directory, and all else stands in one. -/
structure IsTree {α : Type} (look : Location → Option α) (directory : α) : Prop where
  root : look [] = some directory
  parent : ∀ place entry, place ≠ [] → look place = some entry →
    look place.dropLast = some directory

namespace IsTree

variable {α : Type} {look : Location → Option α} {directory entry : α} {place higher : Location}

theorem above (tree : IsTree look directory) (found : look place = some entry)
    (within : higher <+: place) (apart : higher ≠ place) : look higher = some directory := by
  induction place using List.reverseRecOn generalizing entry with
  | nil => exact absurd (List.prefix_nil.mp within) apart
  | append_singleton place name ih =>
    have holder : look place = some directory := by
      simpa using tree.parent _ entry (by simp) found
    rcases List.prefix_concat_iff.mp within with same | within
    · exact absurd same apart
    · by_cases same : higher = place
      · rwa [same]
      · exact ih holder within same

theorem exists_above (tree : IsTree look directory) (found : look place = some entry)
    (within : higher <+: place) : ∃ other, look higher = some other := by
  by_cases same : higher = place
  · exact ⟨entry, same ▸ found⟩
  · exact ⟨directory, tree.above found within same⟩

theorem dropLast (tree : IsTree look directory) (there : look place = some directory) :
    look place.dropLast = some directory := by
  by_cases top : place = []
  · rwa [top, List.dropLast_nil, ← top]
  · exact tree.parent place _ top there

theorem ne_nil (tree : IsTree look directory) (vacant : look place ≠ some directory) :
    place ≠ [] := by
  rintro rfl
  exact vacant tree.root

theorem put (tree : IsTree look directory) (holder : look place.dropLast = some directory)
    (vacant : look place ≠ some directory) (entry : α) :
    IsTree (fun query => if query = place then some entry else look query) directory := by
  have keeps : ∀ other, look other = some directory →
      (if other = place then some entry else look other) = some directory := by
    intro other found
    have apart : other ≠ place := by
      rintro rfl
      exact vacant found
    rwa [if_neg apart]
  refine ⟨keeps [] tree.root, ?_⟩
  intro other old filled found
  apply keeps
  split at found
  next same => rwa [same]
  next => exact tree.parent other old filled found

end IsTree

end Location
end Scaffold
