import Mathlib.Data.List.DropRight
import Scaffold.Text.Blank
import Scaffold.Text.Search

namespace Scaffold.Text

def Blanks (s : String) : Prop := ∀ c ∈ s.toList, isBlank c = true

def Trimmed (s : String) : Prop :=
  (∀ c ∈ s.toList.head?, isBlank c = false) ∧ ∀ c ∈ s.toList.getLast?, isBlank c = false

instance (s : String) : Decidable (Blanks s) := List.decidableBAll _ s.toList

instance (s : String) : Decidable (Trimmed s) :=
  @instDecidableAnd _ _ (Option.decidableForallMem s.toList.head?)
    (Option.decidableForallMem s.toList.getLast?)

/-- What is left of a text when the blanks at its two ends are taken off. -/
def TrimsTo (s t : String) : Prop :=
  Trimmed t ∧ ∃ lead trail, Blanks lead ∧ Blanks trail ∧ s = lead ++ t ++ trail

variable {cs : List Char} {s t lead trail : String}

theorem blanks_empty : Blanks "" := by simp [Blanks]

theorem trimEnd_of_last (ends : ∀ c ∈ cs.getLast?, isBlank c = false) : trimEnd cs = cs := by
  apply List.rdropWhile_eq_self_iff.mpr
  intro filled
  simpa using ends _ (List.getLast_mem_getLast? filled)

theorem trimEnd_append_blanks (blanks : ∀ c ∈ trail.toList, isBlank c = true) :
    trimEnd (cs ++ trail.toList) = trimEnd cs := by
  have reversed : ∀ c ∈ trail.toList.reverse, isBlank c = true := by
    intro c member
    exact blanks c (List.mem_reverse.mp member)
  rw [trimEnd, List.reverse_append, List.dropWhile_append_of_pos reversed, trimEnd]

theorem trim_of_between (leading : Blanks lead) (trailing : Blanks trail) (trimmed : Trimmed t) :
    trim (lead ++ t ++ trail) = t := by
  have whole : (lead ++ t ++ trail).toList = lead.toList ++ (t.toList ++ trail.toList) := by simp
  have stripped : trimEnd (trimStart (lead ++ t ++ trail).toList) = t.toList := by
    rw [whole, trimStart, List.dropWhile_append_of_pos leading]
    cases split : t.toList with
    | nil =>
      have none : trail.toList.dropWhile isBlank = [] :=
        List.dropWhile_eq_nil_iff.mpr trailing
      rw [List.nil_append, none]
      rfl
    | cons c rest =>
      have first : isBlank c = false := trimmed.1 c (by simp [split])
      rw [List.cons_append, List.dropWhile_cons_of_neg (by simp [first]), ← List.cons_append,
        trimEnd_append_blanks trailing, trimEnd_of_last]
      rw [← split]
      exact trimmed.2
  rw [trim, stripped, String.ofList_toList]

theorem isBlank_of_head {c : Char} (first : (cs.dropWhile isBlank).head? = some c) :
    isBlank c = false := by
  have stops := List.head?_dropWhile_not isBlank cs
  rw [first] at stops
  exact stops

theorem trimmed_trim (s : String) : Trimmed (trim s) := by
  let begun := s.toList.dropWhile isBlank
  have stripped : (trim s).toList = begun.rdropWhile isBlank := String.toList_ofList
  constructor
  · intro c first
    rw [stripped] at first
    obtain ⟨rest, split⟩ := List.head?_eq_some_iff.mp first
    obtain ⟨more, whole⟩ := List.rdropWhile_prefix isBlank begun
    rw [split] at whole
    have begins : (s.toList.dropWhile isBlank).head? = some c := by
      rw [show s.toList.dropWhile isBlank = _ from whole.symm]
      rfl
    exact isBlank_of_head begins
  · intro c last
    rw [stripped] at last
    obtain ⟨filled, same⟩ := List.mem_getLast?_eq_getLast last
    rw [same]
    simpa using List.rdropWhile_last_not isBlank begun filled

theorem Trimmed.trimsTo (trimmed : Trimmed t) : TrimsTo t t :=
  ⟨trimmed, "", "", blanks_empty, blanks_empty, by simp⟩

theorem trimmed_of_visible (visible : ∀ c ∈ t.toList, isBlank c = false) : Trimmed t :=
  ⟨fun c first => visible c (List.mem_of_head? first), fun c last =>
    visible c (List.mem_of_getLast? last)⟩

theorem TrimsTo.mem {c : Char} (trims : TrimsTo s t) (present : c ∈ t.toList) : c ∈ s.toList := by
  obtain ⟨-, lead, trail, -, -, split⟩ := trims
  rw [split]
  simp [present]

theorem trim_eq_iff : trim s = t ↔ TrimsTo s t := by
  constructor
  · rintro rfl
    let begun := s.toList.dropWhile isBlank
    have stripped : (trim s).toList = begun.rdropWhile isBlank := String.toList_ofList
    refine ⟨trimmed_trim s, String.ofList (s.toList.takeWhile isBlank),
      String.ofList (begun.rtakeWhile isBlank), ?_, ?_, ?_⟩
    · intro c member
      rw [String.toList_ofList] at member
      exact List.all_eq_true.mp List.all_takeWhile c member
    · intro c member
      rw [String.toList_ofList] at member
      exact List.mem_rtakeWhile_imp member
    · apply String.toList_inj.mp
      rw [String.toList_append, String.toList_append, String.toList_ofList, String.toList_ofList,
        stripped, List.append_assoc, List.rdropWhile_append_rtakeWhile,
        List.takeWhile_append_dropWhile]
  · rintro ⟨trimmed, lead, trail, leading, trailing, rfl⟩
    exact trim_of_between leading trailing trimmed

def Padded (s t : String) : Prop := ∃ lead trail, Blanks lead ∧ Blanks trail ∧ s = lead ++ t ++ trail

theorem padded_trim (s : String) : Padded s (trim s) := (trim_eq_iff.mp rfl).2

theorem trim_of_padded (padded : Padded s t) (trimmed : Trimmed t) : trim s = t :=
  trim_eq_iff.mpr ⟨trimmed, padded⟩

theorem trim_append (trailing : Blanks trail) : trim (s ++ trail) = trim s := by
  obtain ⟨lead, more, leading, further, split⟩ := padded_trim s
  have blanks : Blanks (more ++ trail) := by
    intro c member
    rw [String.toList_append] at member
    exact (List.mem_append.mp member).elim (further c) (trailing c)
  refine trim_of_padded ⟨lead, more ++ trail, leading, blanks, ?_⟩ (trimmed_trim s)
  rw [← String.append_assoc, ← split]

theorem trim_withoutLineEnd (line : String) : trim (withoutLineEnd line) = trim line := by
  let isEnd : Char → Bool := fun c => c = '\r' || c = '\n'
  let ending := String.ofList (line.toList.rtakeWhile isEnd)
  have blanks : Blanks ending := by
    intro c member
    rw [String.toList_ofList] at member
    have ends : isEnd c = true := List.mem_rtakeWhile_imp (p := isEnd) member
    rcases Bool.or_eq_true_iff.mp ends with same | same
    all_goals
      rw [of_decide_eq_true same]
      decide
  have split : withoutLineEnd line ++ ending = line := by
    have begun : (withoutLineEnd line).toList = line.toList.rdropWhile isEnd := String.toList_ofList
    apply String.toList_inj.mp
    rw [String.toList_append, String.toList_ofList, begun, List.rdropWhile_append_rtakeWhile]
  rw [← trim_append blanks, split]

end Scaffold.Text
