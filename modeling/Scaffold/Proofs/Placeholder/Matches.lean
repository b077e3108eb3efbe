import Mathlib.Data.List.TakeWhile
import Scaffold.Placeholder

/-! The placeholders of a text. `Matches` says which they are without a reader: the leftmost one
comes first, and the rest are looked for behind it. There is just one way to cut a text so
(`Matches.unique`), and it is the one in which the text is read (`listOfChars_of_matches`). -/

namespace Scaffold.Piece

def IsHoleName (name : String) : Prop := name ≠ "" ∧ '}' ∉ name.toList

instance (name : String) : Decidable (IsHoleName name) := inferInstanceAs (Decidable (_ ∧ _))

def mark (name : String) : List Char := '$' :: '{' :: (name.toList ++ ['}'])

def Opens (cs : List Char) : Prop := ∃ name rest, IsHoleName name ∧ cs = mark name ++ rest

/-- The placeholders of a text, each with the text before it, and the text after the last. No
placeholder starts before the one that is taken. -/
inductive Matches : List Char → List (List Char × String) → List Char → Prop
  | none {cs : List Char} (free : ∀ before after, cs = before ++ after → ¬ Opens after) :
      Matches cs [] cs
  | next {gap rest last : List Char} {name : String} {holes : List (List Char × String)}
      (proper : IsHoleName name)
      (leftmost : ∀ before after, gap = before ++ after → after ≠ [] →
        ¬ Opens (after ++ mark name ++ rest))
      (others : Matches rest holes last) :
      Matches (gap ++ mark name ++ rest) ((gap, name) :: holes) last

variable {cs rest gap last : List Char} {name : String} {holes : List (List Char × String)}

theorem mark_append (name : String) (rest : List Char) :
    mark name ++ rest = '$' :: '{' :: (name.toList ++ '}' :: rest) := by
  simp [mark]

section Hole

theorem hole?_of_name (proper : IsHoleName name) (rest : List Char) :
    hole? (name.toList ++ '}' :: rest) = some (name, rest) := by
  have stays : ∀ c ∈ name.toList, (decide (c ≠ '}')) = true := by
    intro c member
    exact decide_eq_true fun same => proper.2 (same ▸ member)
  have taken : (name.toList ++ '}' :: rest).takeWhile (· ≠ '}') = name.toList := by
    rw [List.takeWhile_append_of_pos stays, List.takeWhile_cons_of_neg (by simp), List.append_nil]
  have left : (name.toList ++ '}' :: rest).dropWhile (· ≠ '}') = '}' :: rest := by
    rw [List.dropWhile_append_of_pos stays, List.dropWhile_cons_of_neg (by simp)]
  simp only [hole?, taken, left]
  cases chars : name.toList with
  | nil => exact absurd (String.toList_eq_nil_iff.mp chars) proper.1
  | cons c others => simp [← chars]

theorem of_hole? (found : hole? cs = some (name, rest)) :
    IsHoleName name ∧ cs = name.toList ++ '}' :: rest := by
  have whole := List.takeWhile_append_dropWhile (p := (· ≠ '}')) (l := cs)
  unfold hole? at found
  split at found
  next c others brace behind taken left =>
    cases found
    have none : '}' ∉ c :: others := by
      rw [← taken]
      intro member
      simpa using List.mem_takeWhile_imp member
    have ends : brace = '}' := by
      have stops := List.head?_dropWhile_not (· ≠ '}') cs
      rw [left] at stops
      simpa using stops
    rw [taken, left, ends] at whole
    exact ⟨⟨by simp, by simpa using none⟩, by simpa using whole.symm⟩
  next => cases found

theorem mark_append_inj {other : String} {rest' : List Char} (proper : IsHoleName name)
    (proper' : IsHoleName other) (same : mark name ++ rest = mark other ++ rest') :
    name = other ∧ rest = rest' := by
  rw [mark_append, mark_append, List.cons.injEq, List.cons.injEq] at same
  have read := hole?_of_name proper rest
  rw [same.2.2, hole?_of_name proper' rest'] at read
  simp only [Option.some.injEq, Prod.mk.injEq] at read
  exact ⟨read.1.symm, read.2.symm⟩

end Hole

section Reading

theorem listOfChars_mark (proper : IsHoleName name) (rest : List Char) :
    listOfChars (mark name ++ rest) = hole name :: listOfChars rest := by
  rw [mark_append, listOfChars]
  split
  next found =>
    rw [hole?_of_name proper] at found
    cases found
    rfl
  next missed =>
    rw [hole?_of_name proper] at missed
    cases missed

theorem listOfChars_char {c : Char} (closed : ¬ Opens (c :: cs)) :
    listOfChars (c :: cs) = char c :: listOfChars cs := by
  rw [listOfChars.eq_def]
  split
  next empty => cases empty
  next cs' opening =>
    cases opening
    split
    next name rest found =>
      obtain ⟨proper, split⟩ := of_hole? found
      exact absurd ⟨name, rest, proper, by rw [mark_append, split]⟩ closed
    next => rfl
  next same =>
    cases same
    rfl

theorem listOfChars_gap
    (leftmost : ∀ before after, gap = before ++ after → after ≠ [] → ¬ Opens (after ++ rest)) :
    listOfChars (gap ++ rest) = gap.map char ++ listOfChars rest := by
  induction gap with
  | nil => rfl
  | cons c gap ih =>
    have here : ¬ Opens (c :: (gap ++ rest)) := leftmost [] (c :: gap) rfl (by simp)
    have later := ih fun before after split filled =>
      leftmost (c :: before) after (by rw [split, List.cons_append]) filled
    rw [List.cons_append, listOfChars_char here, later, List.map_cons, List.cons_append]

def pieces (holes : List (List Char × String)) (last : List Char) : List Piece :=
  holes.flatMap (fun entry => entry.1.map char ++ [hole entry.2]) ++ last.map char

theorem filterMap_name?_pieces (holes : List (List Char × String)) (last : List Char) :
    (pieces holes last).filterMap name? = holes.map Prod.snd := by
  have none : ∀ gap : List Char, (gap.map char).filterMap name? = [] := fun gap => by
    simp [name?]
  induction holes with
  | nil => simp [pieces, none]
  | cons entry holes ih => simpa [pieces, none, name?] using ih

theorem flatMap_fill_pieces (value : String → String) (holes : List (List Char × String))
    (last : List Char) :
    (pieces holes last).flatMap (fill value) =
      holes.flatMap (fun entry => entry.1 ++ (value entry.2).toList) ++ last := by
  have same : ∀ gap : List Char, (gap.map char).flatMap (fill value) = gap := fun gap => by
    simp [List.flatMap_map, fill]
  induction holes with
  | nil => simp [pieces, same]
  | cons entry holes ih => simpa [pieces, same, fill] using ih

theorem listOfChars_of_matches (matched : Matches cs holes last) :
    listOfChars cs = pieces holes last := by
  induction matched with
  | @none cs free =>
    have read : listOfChars (cs ++ []) = cs.map char ++ listOfChars [] :=
      listOfChars_gap fun before after split _ => by simpa using free before after split
    simpa [pieces, listOfChars] using read
  | next proper leftmost _ ih =>
    have read := listOfChars_gap fun before after split filled => by
      simpa using leftmost before after split filled
    rw [List.append_assoc, read, listOfChars_mark proper, ih]
    simp [pieces]

end Reading

theorem Matches.eq_of_nil (matched : Matches cs [] last) : last = cs := by
  cases matched
  rfl

theorem Matches.cons {c : Char} (closed : ¬ Opens (c :: cs)) (matched : Matches cs holes last) :
    ∃ holes' last', Matches (c :: cs) holes' last' := by
  cases matched with
  | none free =>
    refine ⟨[], c :: cs, .none ?_⟩
    intro before after split
    rcases List.cons_eq_append_iff.mp split with ⟨rfl, rfl⟩ | ⟨more, rfl, within⟩
    · exact closed
    · exact free more after within
  | @next gap rest _ name holes proper leftmost others =>
    have closedGap : ∀ before after, c :: gap = before ++ after → after ≠ [] →
        ¬ Opens (after ++ mark name ++ rest) := by
      intro before after split filled
      rcases List.cons_eq_append_iff.mp split with ⟨rfl, rfl⟩ | ⟨more, rfl, within⟩
      · exact closed
      · exact leftmost more after within filled
    exact ⟨(c :: gap, name) :: holes, last, .next proper closedGap others⟩

theorem exists_matches (cs : List Char) : ∃ holes last, Matches cs holes last := by
  induction size : cs.length using Nat.strongRecOn generalizing cs with
  | _ length ih =>
    by_cases opening : Opens cs
    · obtain ⟨name, rest, proper, rfl⟩ := opening
      have shorter : rest.length < length := by
        rw [← size, mark_append]
        simp only [List.length_cons, List.length_append]
        omega
      obtain ⟨holes, last, others⟩ := ih rest.length shorter rest rfl
      have closedGap : ∀ before after, [] = before ++ after → after ≠ [] →
          ¬ Opens (after ++ mark name ++ rest) :=
        fun before after split filled => absurd (List.append_eq_nil_iff.mp split.symm).2 filled
      exact ⟨([], name) :: holes, last, .next proper closedGap others⟩
    · cases cs with
      | nil =>
        refine ⟨[], [], .none ?_⟩
        intro before after split
        rw [(List.append_eq_nil_iff.mp split.symm).2]
        exact opening
      | cons c cs =>
        obtain ⟨holes, last, matched⟩ := ih cs.length (by simp [← size]) cs rfl
        exact matched.cons opening

theorem gap_within {gap' rest' : List Char} (proper : IsHoleName name)
    (leftmost : ∀ before after, gap' = before ++ after → after ≠ [] → ¬ Opens (after ++ rest'))
    (same : gap ++ (mark name ++ rest) = gap' ++ rest') : gap' <+: gap := by
  rcases List.append_eq_append_iff.mp same with ⟨more, longer, split⟩ | ⟨more, shorter, -⟩
  · by_cases none : more = []
    · simp [longer, none]
    · exact absurd ⟨name, rest, proper, split.symm⟩ (leftmost gap more longer none)
  · exact ⟨more, shorter.symm⟩

theorem Matches.unique {holes' : List (List Char × String)} {last' : List Char}
    (matched : Matches cs holes last) (other : Matches cs holes' last') :
    holes = holes' ∧ last = last' := by
  induction matched generalizing holes' last' with
  | none free =>
    cases other with
    | none => exact ⟨rfl, rfl⟩
    | @next gap rest _ name holes proper leftmost others =>
      exact absurd ⟨name, rest, proper, rfl⟩ (free gap _ (List.append_assoc _ _ _))
  | @next gap rest last name holes proper leftmost others ih =>
    generalize whole : gap ++ mark name ++ rest = cs at other
    cases other with
    | none free =>
      exact absurd ⟨name, rest, proper, rfl⟩ (free gap _ (by rw [← whole, List.append_assoc]))
    | @next gap' rest' _ name' holes' proper' leftmost' others' =>
      simp only [List.append_assoc] at whole leftmost leftmost'
      have first := gap_within proper leftmost' whole
      have second := gap_within proper' leftmost whole.symm
      obtain rfl : gap' = gap := first.eq_of_length_le second.length_le
      obtain ⟨rfl, rfl⟩ := mark_append_inj proper proper' (List.append_cancel_left whole)
      obtain ⟨rfl, rfl⟩ := ih others'
      exact ⟨rfl, rfl⟩

end Scaffold.Piece
