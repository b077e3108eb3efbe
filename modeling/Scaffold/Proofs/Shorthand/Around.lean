import Scaffold.Proofs.Shorthand.Rooting

namespace Scaffold

namespace Item

open Token

/-- Tokens between which a group can stand: among items of their own, or within another group. -/
inductive Around : List Token → List Token → Prop
  | top {front back : List Token} {found more : List Item} (before : Cut front found)
      (after : Cut back more) : Around front back
  | inside {front back inner outer : List Token} {found more : List Item}
      (before : Cut front found) (after : Cut back more)
      (closes : ∀ body, Token.Balanced 0 body →
        Token.Balanced 0 (inner ++ openBracket :: body ++ closeBracket :: outer))
      (deeper : Around inner outer) :
      Around (front ++ openBracket :: inner) (outer ++ closeBracket :: back)

theorem exists_unclosed {tokens : List Token} (opened : 0 < openAfter 0 tokens) :
    ∃ front inner found, tokens = front ++ openBracket :: inner ∧ Cut front found ∧
      closeGroup 0 inner = none := by
  obtain failed := items_eq_error_iff.mpr ⟨rfl, opened⟩
  clear opened
  fun_induction items tokens with
  | case1 => cases failed
  | case2 rest unclosed => exact ⟨[], rest, [], rfl, .nil, unclosed⟩
  | case3 rest body after closed ih =>
    obtain ⟨rfl, balanced⟩ := balanced_of_closeGroup closed
    obtain ⟨front, inner, found, rfl, cut, unclosed⟩ := ih (map_eq_error_iff.mp failed)
    exact ⟨openBracket :: body ++ closeBracket :: front, inner, _, by simp, .group balanced cut,
      unclosed⟩
  | case4 token rest notOpen ih =>
    obtain ⟨front, inner, found, rfl, cut, unclosed⟩ := ih (map_eq_error_iff.mp failed)
    exact ⟨token :: front, inner, _, rfl, .plain notOpen cut, unclosed⟩

theorem balanced_append_of_unclosed {depth around : Nat} {inner outer : List Token}
    (unclosed : closeGroup depth inner = none) (left : openAfter (depth + 1) inner = around + 1)
    (balanced : Token.Balanced around outer) : Token.Balanced depth (inner ++ outer) := by
  fun_induction closeGroup depth inner with
  | case1 depth =>
    have same : depth = around := Nat.succ.inj left
    rwa [same]
  | case2 => cases unclosed
  | case3 depth rest ih =>
    rw [List.cons_append, Token.Balanced]
    exact ih (Option.map_eq_none_iff.mp unclosed) left
  | case4 depth rest ih =>
    rw [List.cons_append, Token.Balanced]
    exact ih (Option.map_eq_none_iff.mp unclosed) left
  | case5 depth token rest notLast notInner notOpen ih =>
    have notClose := ne_closeBracket notLast notInner
    rw [openAfter_cons, depthAfter_of_ne notOpen notClose] at left
    rw [List.cons_append, Token.Balanced]
    · exact ih (Option.map_eq_none_iff.mp unclosed) left
    · exact notOpen
    · exact fun _ => notClose
    · exact fun _ _ => notClose

theorem exists_group {front : List Token} (closes : 0 < openAfter 0 front)
    (closed : openAfter 0 (front ++ [closeBracket]) = 0) :
    ∃ before body, front = before ++ openBracket :: body ∧ openAfter 0 before = 0 ∧
      Token.Balanced 0 body := by
  obtain ⟨before, body, found, rfl, cut, unclosed⟩ := exists_unclosed closes
  have inner : 0 < openAfter (0 + 1) body := openAfter_pos_of_closeGroup unclosed
  have outer : openAfter (0 + 1) body - 1 = 0 := by
    rwa [openAfter_append, openAfter_append, cut.openAfter_eq] at closed
  have left : openAfter (0 + 1) body = 0 + 1 := by omega
  have balanced : Token.Balanced 0 (body ++ []) :=
    balanced_append_of_unclosed unclosed left (by simp [Token.Balanced])
  rw [List.append_nil] at balanced
  exact ⟨before, body, rfl, cut.openAfter_eq, balanced⟩

theorem exists_around {pre post : List Token} (closed : openAfter (openAfter 0 pre) post = 0) :
    Around pre post := by
  induction size : pre.length using Nat.strongRecOn generalizing pre post with
  | _ bound ih =>
    rcases Nat.eq_zero_or_pos (openAfter 0 pre) with none | opened
    · rw [none] at closed
      obtain ⟨found, before⟩ := exists_cut_iff.mpr none
      obtain ⟨more, after⟩ := exists_cut_iff.mpr closed
      exact .top before after
    · obtain ⟨front, inner, found, rfl, before, unclosed⟩ := exists_unclosed opened
      obtain ⟨depth, left⟩ : ∃ depth, openAfter (0 + 1) inner = depth + 1 :=
        Nat.exists_eq_add_one.mpr (openAfter_pos_of_closeGroup unclosed)
      have through : openAfter 0 (front ++ openBracket :: inner) = depth + 1 := by
        rw [openAfter_append, before.openAfter_eq, openAfter_cons, depthAfter, left]
      rw [through] at closed
      cases ends : closeGroup depth post with
      | none =>
        have stillOpen := openAfter_pos_of_closeGroup ends
        omega
      | some result =>
        obtain ⟨outer, back⟩ := result
        obtain ⟨rfl, balanced⟩ := balanced_of_closeGroup ends
        have rest : openAfter 0 back = 0 := by
          have inside : openAfter (depth + 1) outer = 1 := openAfter_of_balanced balanced 1
          rwa [openAfter_append, inside, openAfter_cons] at closed
        obtain ⟨more, after⟩ := exists_cut_iff.mpr rest
        have closes : ∀ body, Token.Balanced 0 body →
            Token.Balanced 0 (inner ++ openBracket :: body ++ closeBracket :: outer) := by
          intro body group
          have whole := balanced_append_of_unclosed unclosed left (group.group balanced)
          simpa using whole
        have within : openAfter (openAfter 0 inner) outer = 0 := by
          have empty : openAfter 0 (inner ++ [openBracket] ++ closeBracket :: outer) = 0 :=
            openAfter_of_balanced (closes [] rfl) 0
          rwa [openAfter_append, openAfter_append, openAfter_cons] at empty
        refine .inside before after closes (ih inner.length ?_ within rfl)
        simp only [List.length_append, List.length_cons] at size
        omega

end Item

section Compile

open Token

theorem exists_around_top {front back : List Token} {found more : List Item}
    (before : Item.Cut front found) (after : Item.Cut back more) :
    ∃ first last above, ∀ body operations, Balanced 0 body →
      compileTokens body = .ok operations →
      compileTokens (front ++ openBracket :: body ++ closeBracket :: back) =
        .ok (first ++ operations.map (Operation.under above) ++ last) := by
  obtain ⟨state, first, ran⟩ := exists_run_of_cut before (List.Subset.refl found) [] {}
  let next : State := { state.fallBack with anchor := none, chained := false }
  obtain ⟨final, last, rest⟩ := exists_run_of_cut after (List.Subset.refl more) [] next
  refine ⟨first, last, state.fallBack.stack, ?_⟩
  intro body operations balanced compiled
  have cut : Item.Cut (front ++ openBracket :: body ++ closeBracket :: back)
      (found ++ .group body :: more) := by
    simpa using before.append (.group balanced after)
  have stepped : state.stepWith compileUnder [] (.group body) =
      .ok (next, operations.map (Operation.under state.fallBack.stack)) := by
    rw [State.stepWith, List.nil_append, compileUnder_eq_map, compiled]
    rfl
  rw [compileTokens, compileUnder_of_cut cut, State.runWith_append_of_ok ran,
    State.runWith_cons_of_ok stepped, rest]
  simp [Except.map]

theorem exists_around_deep {pre post : List Token} (around : Item.Around pre post) :
    ∃ first last above, ∀ body operations, Balanced 0 body →
      compileTokens body = .ok operations →
      compileTokens (pre ++ openBracket :: body ++ closeBracket :: post) =
        .ok (first ++ operations.map (Operation.under above) ++ last) := by
  induction around with
  | top before after => exact exists_around_top before after
  | @inside front back inner outer found more before after closes _ ih =>
    obtain ⟨innerFirst, innerLast, below, within⟩ := ih
    obtain ⟨first, last, above, whole⟩ := exists_around_top before after
    refine ⟨first ++ innerFirst.map (Operation.under above),
      innerLast.map (Operation.under above) ++ last, above ++ below, ?_⟩
    intro body operations balanced compiled
    have outside := whole _ _ (closes body balanced) (within body operations balanced compiled)
    have shape : front ++ openBracket :: inner ++ openBracket :: body ++
          closeBracket :: (outer ++ closeBracket :: back) =
        front ++ openBracket :: (inner ++ openBracket :: body ++ closeBracket :: outer) ++
          closeBracket :: back := by simp
    rw [shape, outside]
    simp [Operation.under_append, Function.comp_def]

/-- A group in the midst of other tokens, at whatever depth. Either these leave a group open and
nothing that is balanced makes up for it, or they give operations before and after those of the
group and one directory that goes in front of each of the group's own; what the group holds changes
none of the three. -/
theorem compileTokens_around_group (pre post : List Token) :
    (∀ body, Paired body →
        compileTokens (pre ++ openBracket :: body ++ closeBracket :: post) =
          .error .unmatchedGroup) ∨
      ∃ first last above, ∀ body, Paired body →
        ∃ operations, compileTokens body = .ok operations ∧
          compileTokens (pre ++ openBracket :: body ++ closeBracket :: post) =
            .ok (first ++ operations.map (Operation.under above) ++ last) := by
  rcases Nat.eq_zero_or_pos (openAfter (openAfter 0 pre) post) with closed | opened
  · right
    obtain ⟨first, last, above, whole⟩ := exists_around_deep (Item.exists_around closed)
    refine ⟨first, last, above, ?_⟩
    intro body paired
    have balanced := balanced_iff_paired.mpr paired
    obtain ⟨operations, compiled⟩ := exists_compileUnder (openAfter_of_balanced balanced 0) []
    exact ⟨operations, compiled, whole body operations balanced compiled⟩
  · left
    intro body paired
    have inside := openAfter_of_balanced (balanced_iff_paired.mpr paired) (openAfter 0 pre + 1)
    have stillOpen :
        0 < openAfter 0 (pre ++ openBracket :: body ++ closeBracket :: post) := by
      rw [Nat.zero_add] at inside
      rwa [openAfter_append, openAfter_append, openAfter_cons, openAfter_cons, depthAfter, inside]
    exact compileUnder_eq_error_iff.mpr (Item.items_eq_error_iff.mpr ⟨rfl, stillOpen⟩)

end Compile

end Scaffold
