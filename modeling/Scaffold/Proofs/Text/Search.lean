import Mathlib.Data.List.Infix
import Scaffold.Text.Search

namespace Scaffold.Text

variable {separator c m : Char} {cs left right gap rest ms mark replacement : List Char}

theorem splitOnce_eq_some_iff : splitOnce separator cs = some (left, right) ↔
    cs = left ++ separator :: right ∧ separator ∉ left := by
  induction cs generalizing left with
  | nil => simp [splitOnce]
  | cons c cs ih =>
    cases left with
    | nil => by_cases here : c = separator <;> simp [splitOnce, here]
    | cons d left =>
      have onward : splitOnce separator cs = some (left, right) ↔
          cs = left ++ separator :: right ∧ separator ∉ left := ih
      by_cases here : c = separator
      · simp only [splitOnce, here, ↓reduceIte, List.cons_append, List.cons.injEq, List.mem_cons]
        grind
      · simp only [splitOnce, here, ↓reduceIte, List.cons_append, List.cons.injEq, List.mem_cons,
          Option.map_eq_some_iff]
        grind

theorem replaceAll_of_none (none : after? mark (c :: rest) = none) :
    replaceAll mark replacement (c :: rest) = c :: replaceAll mark replacement rest := by
  rw [replaceAll]
  split
  next remaining found => cases none.symm.trans found
  next => rfl

theorem replaceAll_mark (rest : List Char) : replaceAll (m :: ms) replacement (m :: ms ++ rest) =
    replacement ++ replaceAll (m :: ms) replacement rest := by
  have found : after? (m :: ms) (m :: ms ++ rest) = some rest := after?_eq_some_iff.mpr rfl
  rw [List.cons_append, replaceAll]
  split
  next remaining same =>
    cases found.symm.trans same
    rfl
  next none => cases none.symm.trans found

def Ends (mark rest : List Char) : Prop := rest = [] ∨ ∃ more, rest = mark ++ more

-- An occurrence that begins in the stretch would hold the mark's first character once more.
theorem after?_of_gap (once : m ∉ ms) (clear : ¬ m :: ms <:+: c :: gap) (ends : Ends (m :: ms) rest) :
    after? (m :: ms) (c :: gap ++ rest) = none := by
  rw [Option.eq_none_iff_forall_ne_some]
  intro remaining found
  rw [after?_eq_some_iff, List.append_eq_append_iff] at found
  rcases found with ⟨tail, whole, follows⟩ | ⟨tail, whole, -⟩
  · cases tail with
    | nil => exact clear ⟨[], [], by simpa using whole⟩
    | cons d tail =>
      rcases ends with rfl | ⟨more, rfl⟩
      · cases follows
      · have same : m = d := (List.cons.inj follows).1
        subst same
        have again : ms = gap ++ m :: tail := (List.cons.inj whole).2
        exact once (by simp [again])
  · exact clear ⟨[], tail, by simpa using whole.symm⟩

theorem replaceAll_gap (once : m ∉ ms) (clear : ¬ m :: ms <:+: gap) (ends : Ends (m :: ms) rest) :
    replaceAll (m :: ms) replacement (gap ++ rest) =
      gap ++ replaceAll (m :: ms) replacement rest := by
  induction gap with
  | nil => rfl
  | cons c gap ih =>
    have later : ¬ m :: ms <:+: gap := fun inside => clear (List.infix_cons inside)
    have none : after? (m :: ms) (c :: (gap ++ rest)) = none := after?_of_gap once clear ends
    rw [List.cons_append, replaceAll_of_none none, ih later, List.cons_append]

theorem replaceAll_intercalate (once : m ∉ ms) {gaps : List (List Char)}
    (clear : ∀ gap ∈ gaps, ¬ m :: ms <:+: gap) :
    replaceAll (m :: ms) replacement ((m :: ms).intercalate gaps) =
      replacement.intercalate gaps := by
  have nothing : replaceAll (m :: ms) replacement [] = [] := by rw [replaceAll]
  induction gaps with
  | nil => exact nothing
  | cons gap gaps ih =>
    have first := clear gap List.mem_cons_self
    have others := ih fun other member => clear other (List.mem_cons_of_mem _ member)
    by_cases last : gaps = []
    · have alone : replaceAll (m :: ms) replacement (gap ++ []) =
          gap ++ replaceAll (m :: ms) replacement [] := replaceAll_gap once first (.inl rfl)
      rw [List.append_nil, nothing, List.append_nil] at alone
      rw [last, List.intercalate_singleton, List.intercalate_singleton, alone]
    · rw [List.intercalate_cons_of_ne_nil last, List.intercalate_cons_of_ne_nil last,
        List.append_assoc, replaceAll_gap once first (.inr ⟨_, rfl⟩), replaceAll_mark, others,
        List.append_assoc]

theorem exists_gaps (filled : mark ≠ []) (cs : List Char) :
    ∃ gaps, gaps ≠ [] ∧ (∀ gap ∈ gaps, ¬ mark <:+: gap) ∧ cs = mark.intercalate gaps := by
  induction cs with
  | nil => exact ⟨[[]], by simp, by simpa using filled, by simp⟩
  | cons c cs ih =>
    obtain ⟨gaps, some, clear, split⟩ := ih
    obtain ⟨first, others, rfl⟩ := List.exists_cons_of_ne_nil some
    have onward : c :: cs = mark.intercalate ((c :: first) :: others) := by
      by_cases last : others = []
      · simpa [last] using split
      · rw [List.intercalate_cons_of_ne_nil last] at split ⊢
        simp [split]
    by_cases inside : mark <:+: c :: first
    · -- The stretch before it is clear, so the mark begins right here.
      have begins : mark <+: c :: first := by
        rcases List.infix_cons_iff.mp inside with begins | later
        · exact begins
        · exact absurd later (clear first List.mem_cons_self)
      obtain ⟨tail, whole⟩ := begins
      obtain ⟨m, ms, rfl⟩ := List.exists_cons_of_ne_nil filled
      have within : first = ms ++ tail := (List.cons.inj whole).2.symm
      refine ⟨[] :: tail :: others, by simp, ?_, ?_⟩
      · intro gap member
        rcases List.mem_cons.mp member with rfl | member
        · simp
        rcases List.mem_cons.mp member with rfl | member
        · intro later
          exact clear first List.mem_cons_self (later.trans ⟨ms, [], by simp [within]⟩)
        · exact clear gap (List.mem_cons_of_mem _ member)
      · rw [onward, ← whole, List.intercalate_cons_of_ne_nil (l := []) (by simp)]
        by_cases last : others = []
        · simp [last]
        · rw [List.intercalate_cons_of_ne_nil last, List.intercalate_cons_of_ne_nil last]
          simp
    · refine ⟨(c :: first) :: others, by simp, ?_, onward⟩
      intro gap member
      rcases List.mem_cons.mp member with rfl | member
      · exact inside
      · exact clear gap (List.mem_cons_of_mem _ member)

end Scaffold.Text
