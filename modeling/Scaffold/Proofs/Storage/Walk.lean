import Scaffold.Proofs.Storage.Listing
import Scaffold.Proofs.Text.Utf8

/-! The walk through a directory, said without the order that a tree keeps its entries in. `Walks`
visits the names right in a directory in the order of their bytes, and each directory among them is
followed by the walk through it. There is one such walk (`Walks.unique`), and it is the listing
(`listing_walks`). -/

namespace Scaffold.MemoryTree

/-- The names of what stands right in a directory, each once, in the order of their bytes. -/
structure NamesIn (tree : MemoryTree) (place : Location) (names : List String) : Prop where
  each : ∀ name, name ∈ names ↔ (tree.get? (place ++ [name])).isSome
  sorted : names.Pairwise fun first second => Text.bytes first < Text.bytes second

/-- What is met where names in a directory are visited one after the other. -/
inductive Visits (tree : MemoryTree) : Location → List String → List Location → Prop
  | done {place : Location} : Visits tree place [] []
  | file {place : Location} {name : String} {names : List String} {others : List Location}
      {content : Content} (there : tree.get? (place ++ [name]) = some (.file content))
      (onward : Visits tree place names others) :
      Visits tree place (name :: names) ((place ++ [name]) :: others)
  | directory {place : Location} {name : String} {names inner : List String}
      {inside others : List Location} (there : tree.get? (place ++ [name]) = some .directory)
      (listed : tree.NamesIn (place ++ [name]) inner)
      (below : Visits tree (place ++ [name]) inner inside)
      (onward : Visits tree place names others) :
      Visits tree place (name :: names) ((place ++ [name]) :: (inside ++ others))

def Walks (tree : MemoryTree) (place : Location) (places : List Location) : Prop :=
  ∃ names, tree.NamesIn place names ∧ tree.Visits place names places

variable {tree : MemoryTree} {place directory : Location} {names : List String}
  {places others : List Location} {depth : Nat}

theorem namesIn_childNames (tree : MemoryTree) (place : Location) :
    tree.NamesIn place (tree.childNames place) where
  each := fun _ => mem_childNames
  sorted := (sorted_childNames tree place).imp Text.bytes_lt_bytes

theorem NamesIn.unique {more : List String} (first : tree.NamesIn place names)
    (second : tree.NamesIn place more) : names = more := by
  apply eq_of_sorted (first.sorted.imp (Text.lt_iff_bytes _ _).mpr)
    (second.sorted.imp (Text.lt_iff_bytes _ _).mpr)
  intro name
  exact (first.each name).trans (second.each name).symm

theorem Visits.unique (first : tree.Visits place names places)
    (second : tree.Visits place names others) : places = others := by
  induction first generalizing others with
  | done =>
    cases second
    rfl
  | file there _ ih =>
    cases second with
    | file _ onward => rw [ih onward]
    | directory other => cases there.symm.trans other
  | directory there listed _ _ inside ih =>
    cases second with
    | file other => cases there.symm.trans other
    | directory _ again below onward =>
      rw [← again.unique listed] at inside
      rw [inside below, ih onward]

theorem Walks.unique (first : tree.Walks place places) (second : tree.Walks place others) :
    places = others := by
  obtain ⟨names, listed, visits⟩ := first
  obtain ⟨more, again, visitsToo⟩ := second
  rw [again.unique listed] at visitsToo
  exact visits.unique visitsToo

theorem Visits.followed (visits : tree.Visits place names places) (met : directory ∈ places)
    (there : tree.get? directory = some .directory) :
    ∃ before inside after,
      places = before ++ directory :: (inside ++ after) ∧ tree.Walks directory inside := by
  induction visits with
  | done => cases met
  | file found _ ih =>
    rcases List.mem_cons.mp met with same | later
    · rw [same] at there
      cases found.symm.trans there
    · obtain ⟨before, inside, after, split, walks⟩ := ih later
      exact ⟨_ :: before, inside, after, by rw [split, List.cons_append], walks⟩
  | @directory place name names inner inside others _ listed below _ inward ih =>
    rcases List.mem_cons.mp met with same | further
    · exact ⟨[], inside, others, by rw [same, List.nil_append], inner, same ▸ listed, same ▸ below⟩
    · rcases List.mem_append.mp further with deeper | later
      · obtain ⟨before, within, after, split, walks⟩ := inward deeper
        refine ⟨(place ++ [name]) :: before, within, after ++ others, ?_, walks⟩
        simp [split]
      · obtain ⟨before, within, after, split, walks⟩ := ih later
        refine ⟨(place ++ [name]) :: (inside ++ before), within, after, ?_, walks⟩
        simp [split]

def longest (tree : MemoryTree) : Nat := (tree.entries.keys.map List.length).max?.getD 0

theorem length_le_longest {key : Location} (present : (tree.get? key).isSome) :
    key.length ≤ tree.longest :=
  List.le_max?_getD_of_mem (List.mem_map_of_mem (isSome_get?_iff.mp present))

-- The bound on the way down is what is left of the longest location.
theorem visits_walkBelow (bounded : tree.longest ≤ place.length + depth) :
    tree.Visits place (tree.childNames place) (tree.walkBelow depth place) := by
  induction depth generalizing place with
  | zero =>
    have none : tree.childNames place = [] := by
      apply List.eq_nil_iff_forall_not_mem.mpr
      intro name present
      have short := length_le_longest (mem_childNames.mp present)
      rw [List.length_append, List.length_singleton] at short
      omega
    rw [none, walkBelow]
    exact .done
  | succ depth ih =>
    have present : ∀ name ∈ tree.childNames place, (tree.get? (place ++ [name])).isSome :=
      fun name member => mem_childNames.mp member
    rw [walkBelow]
    generalize tree.childNames place = names at present
    induction names with
    | nil => exact .done
    | cons name names onward =>
      have others := onward fun other member => present other (by simp [member])
      obtain ⟨entry, found⟩ := Option.isSome_iff_exists.mp (present name (by simp))
      rw [List.flatMap_cons, found]
      cases entry with
      | file content => exact .file found others
      | directory =>
        have below : tree.longest ≤ (place ++ [name]).length + depth := by
          rw [List.length_append, List.length_singleton]
          omega
        exact .directory found (namesIn_childNames tree _) (ih below) others

namespace Walks

theorem eq_walkBelow (walks : tree.Walks place places) :
    places = tree.walkBelow tree.longest place :=
  walks.unique ⟨_, namesIn_childNames tree place, visits_walkBelow (Nat.le_add_left _ _)⟩

theorem mem_iff (coherent : tree.Coherent) (walks : tree.Walks place places) (key : Location) :
    key ∈ places ↔ (tree.get? key).isSome ∧ place <+: key ∧ key ≠ place := by
  rw [walks.eq_walkBelow, mem_walkBelow coherent]
  constructor
  · intro met
    exact ⟨met.2.2.1, met.1, met.2.1⟩
  · intro below
    have short := length_le_longest below.1
    exact ⟨below.2.1, below.2.2, below.1, by omega⟩

theorem sorted (coherent : tree.Coherent) (walks : tree.Walks place places) :
    places.Pairwise (· < ·) := by
  rw [walks.eq_walkBelow]
  exact sorted_walkBelow coherent _ _

end Walks

/-- Siblings in a list of locations come in the order of their bytes. -/
def SiblingsSorted (places : List Location) : Prop :=
  places.Pairwise fun one other => ∀ above first second,
    one = above ++ [first] → other = above ++ [second] → Text.bytes first < Text.bytes second

theorem siblingsSorted_of_sorted (sorted : places.Pairwise (· < ·)) : SiblingsSorted places := by
  apply sorted.imp
  intro one other before above first second same sameToo
  rw [same, sameToo] at before
  exact Text.bytes_lt_bytes (Location.name_lt_of_lt before)

/-- The listing of what is there. Of a file it is the file alone. Of a directory it holds each entry
below it, once, and is the walk through it: a directory is followed at once by all that is in it,
and siblings come in the order of their bytes. -/
theorem listing_walks (reachable : tree.Reachable) {path : String} {entry : Entry}
    (there : tree.get? (Location.ofText path) = some entry) :
    let place := Location.ofText path
    ∃ places, tree.listing path = .ok places ∧
      places.Nodup ∧
      match entry with
      | .file _ => places = [place]
      | .directory =>
        (∀ key, key ∈ places ↔ (tree.get? key).isSome ∧ place <+: key ∧ key ≠ place) ∧
        (∀ other, tree.Walks place other ↔ other = places) ∧
        (∀ directory ∈ places, tree.get? directory = some .directory →
          ∃ before inside after, places = before ++ directory :: (inside ++ after) ∧
            (∀ key, key ∈ inside ↔
              (tree.get? key).isSome ∧ directory <+: key ∧ key ≠ directory)) ∧
        SiblingsSorted places := by
  intro place
  have coherent := reachable.coherent
  have listed := listing_eq coherent (rfl : Location.ofText path = place)
    fun key present => length_le_longest present
  rw [there] at listed
  cases entry with
  | file content => exact ⟨[place], listed, by simp, rfl⟩
  | directory =>
    have walks : tree.Walks place (tree.walkBelow tree.longest place) :=
      ⟨_, namesIn_childNames tree place, visits_walkBelow (Nat.le_add_left _ _)⟩
    have sorted := walks.sorted coherent
    refine ⟨_, listed, nodup_of_sorted sorted, walks.mem_iff coherent, ?_, ?_,
      siblingsSorted_of_sorted sorted⟩
    · intro other
      constructor
      · intro again
        exact again.unique walks
      · intro same
        rw [same]
        exact walks
    · intro directory met found
      obtain ⟨names, _, visits⟩ := walks
      obtain ⟨before, inside, after, split, below⟩ := visits.followed met found
      exact ⟨before, inside, after, split, below.mem_iff coherent⟩

-- A dash comes before a slash among the characters, and yet what is in `a` comes before `a-b`.
theorem listing_walks_before_sibling :
    let tree := (mkfile "a-b" none (mkfile "a/x" none empty).2).2
    tree.Reachable ∧ tree.get? (Location.ofText "/") = some .directory ∧
      tree.listing "/" = .ok [["a"], ["a", "x"], ["a-b"]] ∧
      tree.Walks (Location.ofText "/") [["a"], ["a", "x"], ["a-b"]] := by
  intro tree
  have reachable : tree.Reachable := .mkfile "a-b" none (.mkfile "a/x" none .empty)
  have there : tree.get? (Location.ofText "/") = some .directory := by decide +kernel
  have answer : tree.listing "/" = .ok [["a"], ["a", "x"], ["a-b"]] := by decide +kernel
  obtain ⟨places, listed, -, -, walks, -⟩ := listing_walks reachable there
  have same : [["a"], ["a", "x"], ["a-b"]] = places := Except.ok.inj (answer.symm.trans listed)
  exact ⟨reachable, there, answer, (walks _).mpr same⟩

end Scaffold.MemoryTree
