import Scaffold.Path

namespace Scaffold.Path

theorem mem_splitOn {separator : Char} {cs piece : List Char}
    (present : piece ∈ cs.splitOn separator) :
    separator ∉ piece ∧ ∀ c ∈ piece, c ∈ cs := by
  induction cs generalizing piece with
  | nil =>
    have empty : piece = [] := by simpa using present
    simp [empty]
  | cons head rest ih =>
    rw [List.splitOn_cons_eq_if_modifyHead] at present
    split at present
    next same =>
      rcases List.mem_cons.mp present with rfl | present
      · simp
      · obtain ⟨without, inside⟩ := ih present
        exact ⟨without, fun c member => List.mem_cons_of_mem _ (inside c member)⟩
    next apart =>
      obtain ⟨first, others, split⟩ := List.exists_cons_of_ne_nil (List.splitOn_ne_nil separator rest)
      have headPiece : separator ∉ first ∧ ∀ c ∈ first, c ∈ rest := ih (by simp [split])
      rw [split, List.modifyHead_cons] at present
      rcases List.mem_cons.mp present with rfl | present
      · have differs : separator ≠ head := by
          intro same
          exact apart (by simp [same])
        refine ⟨by simp [differs, headPiece.1], ?_⟩
        intro c member
        rcases List.mem_cons.mp member with rfl | member
        · simp
        · exact List.mem_cons_of_mem _ (headPiece.2 c member)
      · have laterPiece : piece ∈ rest.splitOn separator := by simp [split, present]
        obtain ⟨without, inside⟩ := ih laterPiece
        exact ⟨without, fun c member => List.mem_cons_of_mem _ (inside c member)⟩

theorem mem_pieces {text piece : String} (present : piece ∈ pieces text) :
    piece ≠ "" ∧ '/' ∉ piece.toList ∧ ∀ c ∈ piece.toList, c ∈ text.toList := by
  obtain ⟨cs, member, rfl⟩ := List.mem_map.mp present
  obtain ⟨member, filled⟩ := List.mem_filter.mp member
  obtain ⟨without, inside⟩ := mem_splitOn member
  refine ⟨?_, by simpa using without, by simpa using inside⟩
  intro empty
  have nothing : cs = [] := by simpa using congrArg String.toList empty
  simp [nothing] at filled

theorem pieces_empty : pieces "" = [] := by
  simp [pieces]

theorem filter_map_toList {segments : List String} (filled : ∀ segment ∈ segments, segment ≠ "") :
    ((segments.map String.toList).filter (· ≠ [])).map String.ofList = segments := by
  have kept : (segments.map String.toList).filter (· ≠ []) = segments.map String.toList := by
    apply List.filter_eq_self.mpr
    intro cs member
    obtain ⟨segment, present, rfl⟩ := List.mem_map.mp member
    simpa using filled segment present
  rw [kept, List.map_map]
  simp [Function.comp_def]

theorem pieces_intercalate {segments : List String}
    (proper : ∀ segment ∈ segments, segment ≠ "" ∧ '/' ∉ segment.toList) :
    pieces ("/".intercalate segments) = segments := by
  by_cases none : segments = []
  · rw [none, String.intercalate_nil, pieces_empty]
  · have split : ("/".intercalate segments).toList.splitOn '/' = segments.map String.toList := by
      rw [String.toList_intercalate]
      apply List.splitOn_intercalate
      · intro cs member
        obtain ⟨segment, present, rfl⟩ := List.mem_map.mp member
        exact (proper segment present).2
      · simpa using none
    rw [pieces, split, filter_map_toList fun segment present => (proper segment present).1]

theorem pieces_append_slash_append (first second : String) :
    pieces (first ++ "/" ++ second) = pieces first ++ pieces second := by
  have split : (first ++ "/" ++ second).toList.splitOn '/' =
      first.toList.splitOn '/' ++ second.toList.splitOn '/' := by
    have ends : (first ++ "/" ++ second).toList = first.toList ++ '/' :: second.toList := by simp
    rw [ends, List.splitOn_append_cons_self]
  rw [pieces, split, List.filter_append, List.map_append, pieces, pieces]

theorem pieces_append_slash (text : String) : pieces (text ++ "/") = pieces text := by
  simpa [pieces_empty] using pieces_append_slash_append text ""

theorem pieces_slash_append (text : String) : pieces ("/" ++ text) = pieces text := by
  simpa [pieces_empty] using pieces_append_slash_append "" text

theorem pieces_slash : pieces "/" = [] := pieces_slash_append ""

theorem mem_intercalate {segments : List String} {c : Char}
    (present : c ∈ ("/".intercalate segments).toList) :
    c = '/' ∨ ∃ segment ∈ segments, c ∈ segment.toList := by
  induction segments with
  | nil => simp at present
  | cons first others ih =>
    by_cases none : others = []
    · rw [none, String.intercalate_singleton] at present
      exact .inr ⟨first, by simp, present⟩
    · rw [String.intercalate_cons_of_ne_nil none, String.toList_append, String.toList_append,
        List.mem_append, List.mem_append] at present
      rcases present with (inFirst | slash) | inOthers
      · exact .inr ⟨first, by simp, inFirst⟩
      · exact .inl (by simpa using slash)
      · rcases ih inOthers with slash | ⟨segment, member, inside⟩
        · exact .inl slash
        · exact .inr ⟨segment, by simp [member], inside⟩

theorem filter_intercalate {parts : List (List Char)} (noSlash : ∀ part ∈ parts, '/' ∉ part) :
    (['/'].intercalate parts).filter (· ≠ '/') = parts.flatten := by
  have kept : ∀ part ∈ parts, part.filter (· ≠ '/') = part := by
    intro part member
    apply List.filter_eq_self.mpr
    intro c inside
    have apart : c ≠ '/' := fun same => noSlash part member (same ▸ inside)
    simpa using apart
  induction parts with
  | nil => rfl
  | cons part others ih =>
    have later := ih (fun other member => noSlash other (List.mem_cons_of_mem _ member))
      fun other member => kept other (List.mem_cons_of_mem _ member)
    have first := kept part List.mem_cons_self
    by_cases last : others = []
    · rw [last, List.intercalate_singleton, first, List.flatten_singleton]
    · rw [List.intercalate_cons_of_ne_nil last, List.filter_append, List.filter_append, first, later,
        List.flatten_cons]
      simp

theorem flatMap_pieces (text : String) :
    (pieces text).flatMap String.toList = text.toList.filter (· ≠ '/') := by
  have noSlash : ∀ part ∈ text.toList.splitOn '/', '/' ∉ part :=
    fun part member => (mem_splitOn member).1
  calc
    _ = ((text.toList.splitOn '/').filter (· ≠ [])).flatten := by
      rw [pieces, List.flatMap_map]
      simp [List.flatMap_id']
    _ = (text.toList.splitOn '/').flatten := List.flatten_filter_ne_nil
    _ = _ := by rw [← filter_intercalate noSlash, List.intercalate_splitOn]

end Scaffold.Path
