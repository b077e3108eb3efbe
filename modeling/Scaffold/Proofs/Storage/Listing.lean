import Scaffold.Proofs.Storage.Memory

namespace Scaffold

section Sorted
variable {α : Type} [LT α] [LE α] [Std.LawfulOrderLT α] {a b : List α}

theorem nodup_of_sorted [Std.IsPreorder α] (sorted : a.Pairwise (· < ·)) : a.Nodup := by
  apply sorted.imp
  intro first second before equal
  rw [equal] at before
  exact Std.lt_irrefl before

theorem eq_of_sorted [Std.IsLinearOrder α] (sortedA : a.Pairwise (· < ·)) (sortedB : b.Pairwise (· < ·))
    (same : ∀ x, x ∈ a ↔ x ∈ b) : a = b := by
  have perm : a.Perm b :=
    (List.perm_ext_iff_of_nodup (nodup_of_sorted sortedA) (nodup_of_sorted sortedB)).mpr same
  refine perm.eq_of_pairwise ?_ sortedA sortedB
  intro first second _ _ before after
  exact absurd (Std.lt_trans before after) Std.lt_irrefl

end Sorted

namespace Location

variable {place : Location} {first second : String}

theorem lt_below {rest : Location} (filled : rest ≠ []) : place < place ++ rest := by
  obtain ⟨name, others, rfl⟩ := List.exists_cons_of_ne_nil filled
  have further : place ++ [] < place ++ name :: others :=
    List.append_left_lt (List.nil_lt_cons name others)
  rwa [List.append_nil] at further

theorem lt_of_name_lt (before : first < second) (rest others : List String) :
    place ++ first :: rest < place ++ second :: others :=
  List.append_left_lt (List.cons_lt_cons_iff.mpr (.inl before))

theorem name_lt_of_lt (before : place ++ [first] < place ++ [second]) : first < second := by
  rcases Std.lt_trichotomy first second with less | same | more
  · exact less
  · rw [same] at before
    exact absurd before Std.lt_irrefl
  · exact absurd (Std.lt_trans before (lt_of_name_lt more [] [])) Std.lt_irrefl

def nameIn? (directory place : Location) : Option String :=
  if place ≠ [] ∧ place.dropLast = directory then place.getLast? else none

theorem nameIn?_eq_some_iff {directory : Location} {name : String} :
    nameIn? directory place = some name ↔ place = directory ++ [name] := by
  unfold nameIn?
  rcases List.eq_nil_or_concat place with rfl | ⟨above, last, rfl⟩
  · simp
  · simp

theorem mem_filterMap_nameIn? {directory : Location} {places : List Location} {name : String} :
    name ∈ places.filterMap (nameIn? directory) ↔ directory ++ [name] ∈ places := by
  rw [List.mem_filterMap]
  constructor
  · rintro ⟨place, member, last⟩
    rwa [← nameIn?_eq_some_iff.mp last]
  · intro member
    exact ⟨_, member, nameIn?_eq_some_iff.mpr rfl⟩

theorem sorted_filterMap_nameIn? {places : List Location} (sorted : places.Pairwise (· < ·))
    (directory : Location) : (places.filterMap (nameIn? directory)).Pairwise (· < ·) := by
  refine sorted.filterMap _ ?_
  intro place other before name last second otherLast
  rw [nameIn?_eq_some_iff.mp last, nameIn?_eq_some_iff.mp otherLast] at before
  exact name_lt_of_lt before

end Location

namespace MemoryTree

def childNames (tree : MemoryTree) (place : Location) : List String :=
  tree.entries.keys.filterMap (Location.nameIn? place)

/-- All that is met below a directory, at most `depth` names down. -/
def walkBelow (tree : MemoryTree) : Nat → Location → List Location
  | 0, _ => []
  | depth + 1, place => (tree.childNames place).flatMap fun name =>
      (place ++ [name]) ::
        if tree.get? (place ++ [name]) = some .directory then
          tree.walkBelow depth (place ++ [name])
        else []

variable {tree : MemoryTree} {place key : Location} {depth : Nat}

theorem isSome_get?_iff : (tree.get? key).isSome ↔ key ∈ tree.entries.keys :=
  Dict.contains_iff_mem_keys

theorem mem_childNames {name : String} :
    name ∈ tree.childNames place ↔ (tree.get? (place ++ [name])).isSome := by
  rw [childNames, Location.mem_filterMap_nameIn?, isSome_get?_iff]

theorem sorted_childNames (tree : MemoryTree) (place : Location) :
    (tree.childNames place).Pairwise (· < ·) :=
  Location.sorted_filterMap_nameIn? tree.entries.pairwise_keys place

theorem mem_walkBelow (coherent : tree.Coherent) :
    key ∈ tree.walkBelow depth place ↔
      place <+: key ∧ key ≠ place ∧ (tree.get? key).isSome ∧ key.length ≤ place.length + depth := by
  induction depth generalizing place with
  | zero =>
    simp only [walkBelow, List.not_mem_nil, false_iff]
    rintro ⟨within, apart, -, short⟩
    exact apart (within.eq_of_length_le short).symm
  | succ depth ih =>
    simp only [walkBelow, List.mem_flatMap, mem_childNames, List.mem_cons]
    constructor
    · rintro ⟨name, there, rfl | below⟩
      · exact ⟨List.prefix_append _ _, by simp, there, by simp⟩
      · split at below
        next =>
          obtain ⟨within, -, present, short⟩ := ih.mp below
          refine ⟨(List.prefix_append place [name]).trans within, ?_, present, ?_⟩
          · rintro rfl
            have longer := within.length_le
            simp only [List.length_append, List.length_singleton] at longer
            omega
          · simp only [List.length_append, List.length_singleton] at short
            omega
        next => exact absurd below List.not_mem_nil
    · rintro ⟨⟨names, rfl⟩, apart, present, short⟩
      obtain ⟨entry, found⟩ := Option.isSome_iff_exists.mp present
      obtain ⟨name, rest, rfl⟩ := List.exists_cons_of_ne_nil (by simpa using apart)
      have within : place ++ [name] <+: place ++ name :: rest := ⟨rest, by simp⟩
      obtain ⟨child, childFound⟩ := coherent.exists_above found within
      refine ⟨name, by simp [childFound], ?_⟩
      by_cases last : rest = []
      · simp [last]
      · have further : place ++ [name] ≠ place ++ name :: rest := by simpa using last
        rw [if_pos (coherent.above found within further)]
        refine .inr (ih.mpr ⟨within, further.symm, present, ?_⟩)
        simp only [List.length_append, List.length_cons, List.length_nil] at short ⊢
        omega

theorem sorted_walkBelow (coherent : tree.Coherent) (depth : Nat) (place : Location) :
    (tree.walkBelow depth place).Pairwise (· < ·) := by
  induction depth generalizing place with
  | zero => exact .nil
  | succ depth ih =>
    -- Whatever is met through a child has the child's location in front.
    have inside : ∀ name, ∀ key ∈ (place ++ [name]) ::
        (if tree.get? (place ++ [name]) = some .directory then
          tree.walkBelow depth (place ++ [name]) else []),
        ∃ rest, key = place ++ name :: rest := by
      intro name key member
      rcases List.mem_cons.mp member with rfl | below
      · exact ⟨[], rfl⟩
      · split at below
        next =>
          obtain ⟨⟨rest, rfl⟩, -⟩ := (mem_walkBelow coherent).mp below
          exact ⟨rest, by simp⟩
        next => exact absurd below List.not_mem_nil
    rw [walkBelow, List.pairwise_flatMap]
    constructor
    · intro name _
      refine List.pairwise_cons.mpr ⟨?_, ?_⟩
      · intro key below
        split at below
        next =>
          obtain ⟨⟨rest, rfl⟩, apart, -⟩ := (mem_walkBelow coherent).mp below
          exact Location.lt_below (by simpa using apart)
        next => exact absurd below List.not_mem_nil
      · split
        next => exact ih _
        next => exact .nil
    · refine (sorted_childNames tree place).imp ?_
      intro first second before key member other otherMember
      obtain ⟨rest, rfl⟩ := inside first key member
      obtain ⟨others, rfl⟩ := inside second other otherMember
      exact Location.lt_of_name_lt before rest others

theorem walkBelow_eq_filter (coherent : tree.Coherent)
    (bounded : ∀ key, (tree.get? key).isSome → key.length ≤ place.length + depth) :
    tree.walkBelow depth place =
      tree.entries.keys.filter fun key => place.isPrefixOf key && key ≠ place := by
  apply eq_of_sorted (sorted_walkBelow coherent depth place)
    (tree.entries.pairwise_keys.filter _)
  intro key
  simp only [mem_walkBelow coherent, List.mem_filter, ← isSome_get?_iff, Bool.and_eq_true,
    List.isPrefixOf_iff_prefix, decide_eq_true_eq]
  constructor
  · rintro ⟨within, apart, present, -⟩
    exact ⟨present, within, apart⟩
  · rintro ⟨present, within, apart⟩
    exact ⟨within, apart, present, bounded key present⟩

theorem filter_of_file (coherent : tree.Coherent) {content : Content}
    (found : tree.get? place = some (.file content)) :
    (tree.entries.keys.filter fun key => place.isPrefixOf key) = [place] := by
  apply eq_of_sorted (tree.entries.pairwise_keys.filter _) (List.pairwise_singleton _ _)
  intro key
  simp only [List.mem_filter, ← isSome_get?_iff, List.isPrefixOf_iff_prefix, List.mem_singleton]
  constructor
  · rintro ⟨present, within⟩
    obtain ⟨entry, there⟩ := Option.isSome_iff_exists.mp present
    by_cases same : key = place
    · exact same
    · have directory := coherent.above there within (Ne.symm same)
      simp [found] at directory
  · rintro rfl
    exact ⟨by simp [found], List.prefix_rfl⟩

theorem listing_eq (coherent : tree.Coherent) {path : String}
    (named : Location.ofText path = place)
    (bounded : ∀ key, (tree.get? key).isSome → key.length ≤ depth) :
    tree.listing path = match tree.get? place with
      | none => .error (.missing place.text)
      | some .directory => .ok (tree.walkBelow depth place)
      | some (.file _) => .ok [place] := by
  have again : Location.ofText place.text = place :=
    Location.ofText_text (named ▸ Location.normal_ofText path)
  rw [listing, isFile, named, again]
  cases found : tree.get? place with
  | none => rfl
  | some entry =>
    cases entry with
    | file content =>
      simp [Except.map, Entry.isDirectory, filter_of_file coherent found]
    | directory =>
      have walked : tree.walkBelow depth place = _ :=
        walkBelow_eq_filter coherent fun key present =>
          (bounded key present).trans (Nat.le_add_left _ _)
      simp [Except.map, Entry.isDirectory, walked]

end MemoryTree
end Scaffold
