import Scaffold.Proofs.Outcome
import Scaffold.Shorthand.Compile

/-! What the brackets of a token list say. `cut_iff` gives the grammar that `items` reads: single
tokens, and groups whose bodies are balanced. `items_eq_error_iff` says that nothing but an open
group at the end is refused, where a `]` that closes no group counts for nothing. -/

namespace Scaffold

namespace Token

def depthAfter (depth : Nat) : Token → Nat
  | openBracket => depth + 1
  | closeBracket => depth - 1
  | _ => depth

def openAfter (depth : Nat) (tokens : List Token) : Nat := tokens.foldl depthAfter depth

/-- The tokens close the `depth` groups opened before them and each group of their own. -/
def Balanced : Nat → List Token → Prop
  | depth, [] => depth = 0
  | 0, closeBracket :: _ => False
  | depth + 1, closeBracket :: rest => Balanced depth rest
  | depth, openBracket :: rest => Balanced (depth + 1) rest
  | depth, _ :: rest => Balanced depth rest

theorem openAfter_cons (depth : Nat) (token : Token) (rest : List Token) :
    openAfter depth (token :: rest) = openAfter (depthAfter depth token) rest := rfl

theorem openAfter_append (depth : Nat) (first second : List Token) :
    openAfter depth (first ++ second) = openAfter (openAfter depth first) second :=
  List.foldl_append

theorem depthAfter_of_ne {token : Token} (notOpen : token ≠ openBracket)
    (notClose : token ≠ closeBracket) (depth : Nat) : depthAfter depth token = depth := by
  cases token with
  | openBracket => exact absurd rfl notOpen
  | closeBracket => exact absurd rfl notClose
  | less | ampersand | semicolon | path | name => rfl

theorem depthAfter_zero {token : Token} (notOpen : token ≠ openBracket) :
    depthAfter 0 token = 0 := by
  cases token with
  | openBracket => exact absurd rfl notOpen
  | closeBracket | less | ampersand | semicolon | path | name => rfl

theorem ne_closeBracket {depth : Nat} {token : Token}
    (notLast : depth = 0 → token = closeBracket → False)
    (notInner : ∀ inner : Nat, depth = inner.succ → token = closeBracket → False) :
    token ≠ closeBracket := by
  intro close
  cases depth with
  | zero => exact notLast rfl close
  | succ inner => exact notInner inner rfl close

theorem openAfter_of_balanced {depth : Nat} {tokens : List Token}
    (balanced : Balanced depth tokens) (around : Nat) :
    openAfter (depth + around) tokens = around := by
  fun_induction Balanced depth tokens with
  | case1 depth =>
    have closed : depth = 0 := balanced
    simp [openAfter, closed]
  | case2 => exact balanced.elim
  | case3 depth rest ih =>
    have less : depth + 1 + around - 1 = depth + around := by omega
    rw [openAfter_cons, depthAfter, less]
    exact ih balanced
  | case4 depth rest ih =>
    have more : depth + around + 1 = depth + 1 + around := by omega
    rw [openAfter_cons, depthAfter, more]
    exact ih balanced
  | case5 depth token rest notLast notInner notOpen ih =>
    rw [openAfter_cons, depthAfter_of_ne notOpen (ne_closeBracket notLast notInner)]
    exact ih balanced

/-- Nowhere have more groups been closed than opened, and at the end as many. -/
def Paired (tokens : List Token) : Prop :=
  (∀ first, first <+: tokens → first.count closeBracket ≤ first.count openBracket) ∧
    tokens.count closeBracket = tokens.count openBracket

theorem forall_within_cons {motive : List Token → Prop} {token : Token} {rest : List Token} :
    (∀ first, first <+: token :: rest → motive first) ↔
      motive [] ∧ ∀ first, first <+: rest → motive (token :: first) := by
  constructor
  · intro all
    exact ⟨all [] List.nil_prefix,
      fun first within => all _ (List.cons_prefix_cons.mpr ⟨rfl, within⟩)⟩
  · rintro ⟨none, more⟩ first within
    rcases List.prefix_cons_iff.mp within with rfl | ⟨tail, rfl, inside⟩
    · exact none
    · exact more tail inside

theorem balanced_iff_count {depth : Nat} {tokens : List Token} :
    Balanced depth tokens ↔
      (∀ first, first <+: tokens → first.count closeBracket ≤ depth + first.count openBracket) ∧
        tokens.count closeBracket = depth + tokens.count openBracket := by
  fun_induction Balanced depth tokens with
  | case1 depth => simp [eq_comm]
  | case2 rest =>
    have tooMany : ¬ [closeBracket].count closeBracket ≤ 0 + [closeBracket].count openBracket := by
      decide
    simp only [false_iff, not_and]
    intro bounded
    exact absurd (bounded [closeBracket] (by simp)) tooMany
  | case3 depth rest ih =>
    rw [ih, forall_within_cons]
    simp [Nat.add_right_comm]
  | case4 depth rest ih =>
    rw [ih, forall_within_cons]
    simp [Nat.add_assoc, Nat.add_comm 1]
  | case5 depth token rest notLast notInner notOpen ih =>
    have notClose := ne_closeBracket notLast notInner
    rw [ih, forall_within_cons]
    simp [List.count_cons_of_ne notOpen, List.count_cons_of_ne notClose]

theorem balanced_iff_paired {tokens : List Token} : Balanced 0 tokens ↔ Paired tokens := by
  simp only [balanced_iff_count, Nat.zero_add, Paired]

theorem Balanced.append {depth around : Nat} {first second : List Token}
    (balanced : Balanced depth first) (more : Balanced around second) :
    Balanced (depth + around) (first ++ second) := by
  fun_induction Balanced depth first with
  | case1 depth =>
    have closed : depth = 0 := balanced
    rwa [closed, Nat.zero_add]
  | case2 => exact balanced.elim
  | case3 depth rest ih =>
    rw [Nat.succ_add, List.cons_append, Balanced]
    exact ih balanced
  | case4 depth rest ih =>
    rw [List.cons_append, Balanced, Nat.add_right_comm]
    exact ih balanced
  | case5 depth token rest notLast notInner notOpen ih =>
    have notClose := ne_closeBracket notLast notInner
    rw [List.cons_append, Balanced]
    · exact ih balanced
    · exact notOpen
    · exact fun _ => notClose
    · exact fun _ _ => notClose

theorem Balanced.append_iff {depth : Nat} {first second : List Token}
    (balanced : Balanced depth (first ++ second)) (other : List Token) :
    Balanced depth (first ++ other) ↔ Balanced (openAfter depth first) other := by
  induction first generalizing depth with
  | nil => exact Iff.rfl
  | cons token rest ih =>
    cases token with
    | openBracket =>
      rw [List.cons_append, Balanced] at balanced ⊢
      exact ih balanced
    | closeBracket =>
      cases depth with
      | zero => exact balanced.elim
      | succ depth =>
        rw [List.cons_append, Balanced] at balanced ⊢
        exact ih balanced
    | less | ampersand | semicolon | path | name =>
      simp only [List.cons_append, Balanced] at balanced ⊢
      exact ih balanced

theorem openAfter_pos_of_balanced {depth : Nat} {first rest : List Token}
    (balanced : Balanced depth (first ++ closeBracket :: rest)) : 0 < openAfter depth first := by
  have left := (balanced.append_iff _).mp balanced
  cases opened : openAfter depth first with
  | zero =>
    rw [opened] at left
    exact left.elim
  | succ more => exact Nat.succ_pos more

theorem Balanced.group {depth : Nat} {body rest : List Token} (balanced : Balanced 0 body)
    (more : Balanced depth rest) :
    Balanced depth (openBracket :: body ++ closeBracket :: rest) := by
  have closing : Balanced (depth + 1) (closeBracket :: rest) := by rwa [Balanced]
  have whole := balanced.append closing
  rwa [Nat.zero_add] at whole

end Token

namespace Item

open Token

theorem closeGroup_of_balanced {depth : Nat} {body : List Token}
    (balanced : Token.Balanced depth body) (rest : List Token) :
    closeGroup depth (body ++ closeBracket :: rest) = some (body, rest) := by
  fun_induction Token.Balanced depth body with
  | case1 depth =>
    have closed : depth = 0 := balanced
    rw [closed, List.nil_append, closeGroup]
  | case2 => exact balanced.elim
  | case3 depth tail ih => rw [List.cons_append, closeGroup, ih balanced, Option.map_some]
  | case4 depth tail ih => rw [List.cons_append, closeGroup, ih balanced, Option.map_some]
  | case5 depth token tail notLast notInner notOpen ih =>
    rw [List.cons_append, closeGroup, ih balanced, Option.map_some] <;> assumption

theorem balanced_of_closeGroup {depth : Nat} {tokens body rest : List Token}
    (closed : closeGroup depth tokens = some (body, rest)) :
    tokens = body ++ closeBracket :: rest ∧ Token.Balanced depth body := by
  fun_induction closeGroup depth tokens generalizing body rest with
  | case1 => cases closed
  | case2 after =>
    cases closed
    exact ⟨rfl, rfl⟩
  | case3 depth after ih =>
    obtain ⟨⟨inner, tail⟩, found, same⟩ := Option.map_eq_some_iff.mp closed
    cases same
    obtain ⟨shape, balanced⟩ := ih found
    exact ⟨congrArg _ shape, balanced⟩
  | case4 depth after ih =>
    obtain ⟨⟨inner, tail⟩, found, same⟩ := Option.map_eq_some_iff.mp closed
    cases same
    obtain ⟨shape, balanced⟩ := ih found
    exact ⟨congrArg _ shape, by rwa [Token.Balanced]⟩
  | case5 depth token after notLast notInner notOpen ih =>
    obtain ⟨⟨inner, tail⟩, found, same⟩ := Option.map_eq_some_iff.mp closed
    cases same
    obtain ⟨shape, balanced⟩ := ih found
    refine ⟨congrArg _ shape, ?_⟩
    rwa [Token.Balanced] <;> assumption

theorem openAfter_pos_of_closeGroup {depth : Nat} {tokens : List Token}
    (unclosed : closeGroup depth tokens = none) : 0 < openAfter (depth + 1) tokens := by
  fun_induction closeGroup depth tokens with
  | case1 depth => exact Nat.succ_pos depth
  | case2 => cases unclosed
  | case3 depth after ih => exact ih (Option.map_eq_none_iff.mp unclosed)
  | case4 depth after ih => exact ih (Option.map_eq_none_iff.mp unclosed)
  | case5 depth token after notLast notInner notOpen ih =>
    rw [openAfter_cons, depthAfter_of_ne notOpen (ne_closeBracket notLast notInner)]
    exact ih (Option.map_eq_none_iff.mp unclosed)

/-- The items that a token list falls into. -/
inductive Cut : List Token → List Item → Prop
  | nil : Cut [] []
  | plain {token : Token} {rest : List Token} {found : List Item} (notOpen : token ≠ openBracket)
      (more : Cut rest found) : Cut (token :: rest) (plain token :: found)
  | group {body rest : List Token} {found : List Item} (balanced : Token.Balanced 0 body)
      (more : Cut rest found) :
      Cut (openBracket :: body ++ closeBracket :: rest) (group body :: found)

theorem items_of_cut {tokens : List Token} {found : List Item} (cut : Cut tokens found) :
    items tokens = .ok found := by
  induction cut with
  | nil => rw [items]
  | @plain token rest found notOpen more ih =>
    rw [items, ih]
    · rfl
    · exact notOpen
  | @group body rest found balanced more ih =>
    rw [List.cons_append, items]
    split
    next unclosed => rw [closeGroup_of_balanced balanced] at unclosed; cases unclosed
    next inner after closed =>
      rw [closeGroup_of_balanced balanced] at closed
      cases closed
      rw [ih]
      rfl

theorem cut_of_items {tokens : List Token} {found : List Item} (cut : items tokens = .ok found) :
    Cut tokens found := by
  fun_induction items tokens generalizing found with
  | case1 =>
    cases cut
    exact .nil
  | case2 => cases cut
  | case3 rest body after closed ih =>
    obtain ⟨rfl, balanced⟩ := balanced_of_closeGroup closed
    obtain ⟨others, more, rfl⟩ := map_eq_ok_iff.mp cut
    exact .group balanced (ih more)
  | case4 token rest notOpen ih =>
    obtain ⟨others, more, rfl⟩ := map_eq_ok_iff.mp cut
    exact .plain notOpen (ih more)

theorem cut_iff {tokens : List Token} {found : List Item} :
    items tokens = .ok found ↔ Cut tokens found :=
  ⟨cut_of_items, items_of_cut⟩

theorem Cut.append {first second : List Token} {found more : List Item} (cut : Cut first found)
    (cutMore : Cut second more) : Cut (first ++ second) (found ++ more) := by
  induction cut with
  | nil => exact cutMore
  | plain notOpen _ ih => exact .plain notOpen ih
  | @group body rest found balanced _ ih =>
    have shape : openBracket :: body ++ closeBracket :: rest ++ second =
        openBracket :: body ++ closeBracket :: (rest ++ second) := by simp
    rw [shape]
    exact .group balanced ih

theorem Cut.ne_openBracket {tokens : List Token} {found : List Item} (cut : Cut tokens found)
    {token : Token} (present : .plain token ∈ found) : token ≠ openBracket := by
  induction cut with
  | nil => cases present
  | plain notOpen _ ih =>
    rcases List.mem_cons.mp present with same | present
    · cases same
      exact notOpen
    · exact ih present
  | group _ _ ih => exact ih (by simpa using present)

theorem Cut.mem_of_mem_plain {tokens : List Token} {found : List Item} (cut : Cut tokens found)
    {token : Token} (present : .plain token ∈ found) : token ∈ tokens := by
  induction cut with
  | nil => cases present
  | plain _ _ ih =>
    rcases List.mem_cons.mp present with same | present
    · cases same
      exact List.mem_cons_self
    · exact List.mem_cons_of_mem _ (ih present)
  | group _ _ ih =>
    have later := ih (by simpa using present)
    simp [later]

theorem Cut.group_spec {tokens : List Token} {found : List Item} (cut : Cut tokens found)
    {body : List Token} (present : .group body ∈ found) :
    Token.Balanced 0 body ∧ openBracket :: body ++ [closeBracket] <:+: tokens := by
  induction cut with
  | nil => cases present
  | plain _ _ ih =>
    obtain ⟨balanced, within⟩ := ih (by simpa using present)
    exact ⟨balanced, within.trans (List.suffix_cons _ _).isInfix⟩
  | @group inner rest found balanced _ ih =>
    rcases List.mem_cons.mp present with same | present
    · cases same
      exact ⟨balanced, [], rest, by simp⟩
    · obtain ⟨balanced, within⟩ := ih present
      refine ⟨balanced, within.trans ?_⟩
      exact ⟨openBracket :: inner ++ [closeBracket], [], by simp⟩

theorem Cut.length_group {tokens : List Token} {found : List Item} (cut : Cut tokens found)
    {body : List Token} (present : .group body ∈ found) : body.length + 2 ≤ tokens.length := by
  have bound := (cut.group_spec present).2.length_le
  simp only [List.length_append, List.length_cons, List.length_nil] at bound
  omega

theorem Cut.mem_of_mem_group {tokens : List Token} {found : List Item} (cut : Cut tokens found)
    {body : List Token} (present : .group body ∈ found) {token : Token} (member : token ∈ body) :
    token ∈ tokens :=
  (cut.group_spec present).2.subset (by simp [member])

theorem Cut.openAfter_eq {tokens : List Token} {found : List Item} (cut : Cut tokens found) :
    openAfter 0 tokens = 0 := by
  induction cut with
  | nil => rfl
  | plain notOpen _ ih => rw [openAfter_cons, depthAfter_zero notOpen, ih]
  | @group body rest found balanced _ ih =>
    calc openAfter 0 (openBracket :: body ++ closeBracket :: rest)
        = openAfter (openAfter (0 + 1) body) (closeBracket :: rest) := openAfter_append _ _ _
      _ = openAfter 1 (closeBracket :: rest) := by rw [openAfter_of_balanced balanced]
      _ = 0 := ih

theorem openAfter_of_items_error {tokens : List Token} {error : Error}
    (failed : items tokens = .error error) : error = .unmatchedGroup ∧ 0 < openAfter 0 tokens := by
  fun_induction items tokens with
  | case1 => cases failed
  | case2 rest unclosed =>
    cases failed
    exact ⟨rfl, openAfter_pos_of_closeGroup unclosed⟩
  | case3 rest body after closed ih =>
    obtain ⟨rfl, balanced⟩ := balanced_of_closeGroup closed
    have inside : openAfter 1 body = 1 := openAfter_of_balanced balanced 1
    rw [openAfter_cons, openAfter_append, depthAfter, inside]
    exact ih (map_eq_error_iff.mp failed)
  | case4 token rest notOpen ih =>
    rw [openAfter_cons, depthAfter_zero notOpen]
    exact ih (map_eq_error_iff.mp failed)

theorem items_eq_error_iff {tokens : List Token} {error : Error} :
    items tokens = .error error ↔ error = .unmatchedGroup ∧ 0 < openAfter 0 tokens := by
  constructor
  · exact openAfter_of_items_error
  · rintro ⟨rfl, unclosed⟩
    cases cut : items tokens with
    | ok found =>
      have closed := (cut_of_items cut).openAfter_eq
      omega
    | error e => rw [(openAfter_of_items_error cut).1]

theorem Cut.items_append {first : List Token} {found : List Item} (cut : Cut first found)
    (second : List Token) : items (first ++ second) = (items second).map (found ++ ·) := by
  cases cutMore : items second with
  | ok more => exact items_of_cut (cut.append (cut_of_items cutMore))
  | error e =>
    obtain ⟨rfl, unclosed⟩ := items_eq_error_iff.mp cutMore
    apply items_eq_error_iff.mpr
    rw [openAfter_append, cut.openAfter_eq]
    exact ⟨rfl, unclosed⟩

theorem exists_cut_iff {tokens : List Token} :
    (∃ found, Cut tokens found) ↔ openAfter 0 tokens = 0 := by
  constructor
  · rintro ⟨found, cut⟩
    exact cut.openAfter_eq
  · intro closed
    cases cut : items tokens with
    | ok found => exact ⟨found, cut_of_items cut⟩
    | error e =>
      have unclosed := (openAfter_of_items_error cut).2
      omega

/-- The body of a group that some tokens fall into. -/
def IsGroupOf (body tokens : List Token) : Prop :=
  ∃ found, items tokens = .ok found ∧ group body ∈ found

theorem IsGroupOf.subset {body tokens : List Token} (inside : IsGroupOf body tokens) :
    body ⊆ tokens := by
  obtain ⟨found, cut, present⟩ := inside
  intro token member
  exact (cut_of_items cut).mem_of_mem_group present member

theorem IsGroupOf.balanced {body tokens : List Token} (inside : IsGroupOf body tokens) :
    Token.Balanced 0 body := by
  obtain ⟨found, cut, present⟩ := inside
  exact ((cut_of_items cut).group_spec present).1

theorem wellFounded_isGroupOf : WellFounded IsGroupOf := by
  refine Subrelation.wf ?_ (measure List.length).wf
  rintro body tokens ⟨found, cut, present⟩
  exact length_lt_of_items cut present

theorem openAfter_of_nested {body tokens : List Token}
    (nested : Relation.TransGen IsGroupOf body tokens) : openAfter 0 body = 0 := by
  induction nested with
  | single inside => exact openAfter_of_balanced inside.balanced 0
  | tail _ _ ih => exact ih

end Item

end Scaffold
