import Scaffold.Proofs.Shorthand.Brackets

/-! Items as a reading of the tokens that loses nothing. `IsReading` says what the items of some
tokens are without saying how they are found, and `reading_iff_cut` that there is one such list at
most. `itemsFrom` finds them with an index and a count of the open groups, both checked at each
step; no check ever fails (`itemsFrom_append`). -/

namespace Scaffold.Item

open Token

section Reading

def spread : Item → List Token
  | plain token => [token]
  | group body => openBracket :: body ++ [closeBracket]

/-- Spread out again the items are the tokens; groups are balanced, and no `[` is left alone. -/
structure IsReading (tokens : List Token) (found : List Item) : Prop where
  whole : found.flatMap spread = tokens
  plain : ∀ token, plain token ∈ found → token ≠ openBracket
  paired : ∀ body, group body ∈ found → Paired body

theorem isReading_of_cut {tokens : List Token} {found : List Item} (cut : Cut tokens found) :
    IsReading tokens found where
  whole := by
    induction cut with
    | nil => rfl
    | plain _ _ ih => rw [List.flatMap_cons, ih, spread, List.singleton_append]
    | group _ _ ih => rw [List.flatMap_cons, ih, spread, List.append_assoc, List.singleton_append]
  plain _ present := cut.ne_openBracket present
  paired _ present := balanced_iff_paired.mp (cut.group_spec present).1

theorem cut_spread {found : List Item} (alone : ∀ token, plain token ∈ found → token ≠ openBracket)
    (paired : ∀ body, group body ∈ found → Paired body) : Cut (found.flatMap spread) found := by
  induction found with
  | nil => exact .nil
  | cons item found ih =>
    have more := ih (fun token present => alone token (List.mem_cons_of_mem _ present))
      fun body present => paired body (List.mem_cons_of_mem _ present)
    cases item with
    | plain token => exact .plain (alone token List.mem_cons_self) more
    | group body =>
      have balanced := balanced_iff_paired.mpr (paired body List.mem_cons_self)
      have shape : (group body :: found).flatMap spread =
          openBracket :: body ++ closeBracket :: found.flatMap spread := by
        simp [spread]
      rw [shape]
      exact .group balanced more

theorem reading_iff_cut {tokens : List Token} {found : List Item} :
    IsReading tokens found ↔ Cut tokens found := by
  constructor
  · rintro ⟨rfl, alone, paired⟩
    exact cut_spread alone paired
  · exact isReading_of_cut

theorem openAfter_spread {tokens : List Token} {first second : List Item}
    (cut : Cut tokens (first ++ second)) : openAfter 0 (first.flatMap spread) = 0 := by
  have reading := isReading_of_cut cut
  have begun : Cut (first.flatMap spread) first :=
    cut_spread (fun token present => reading.plain token (List.mem_append_left _ present))
      fun body present => reading.paired body (List.mem_append_left _ present)
  exact begun.openAfter_eq

end Reading

section Indexed

def depthAfter? (depth : Nat) (token : Token) : Option Nat :=
  if depth = 0 ∧ token = closeBracket then none else some (depthAfter depth token)

/-- Counts the open groups from an index on, and stops where none is open or the tokens are over.
The answer is the count with the index, or nothing if the count would fall below zero. -/
def seekClose (tokens : List Token) (depth place : Nat) : Option (Nat × Nat) :=
  if inside : place < tokens.length then
    match depthAfter? depth tokens[place] with
    | none => none
    | some 0 => some (0, place)
    | some (more + 1) => seekClose tokens (more + 1) (place + 1)
  else some (depth, place)
termination_by tokens.length - place

def slice? (tokens : List Token) (first last : Nat) : Option (List Token) :=
  if first ≤ last ∧ last ≤ tokens.length then some (tokens.extract first last) else none

theorem le_of_slice? {tokens body : List Token} {first last : Nat}
    (cut : slice? tokens first last = some body) : first ≤ last := by
  unfold slice? at cut
  split at cut
  next bounds => exact bounds.1
  next => cases cut

theorem slice?_append (before body after : List Token) :
    slice? (before ++ body ++ after) before.length (before.length + body.length) = some body := by
  rw [slice?, if_pos ⟨Nat.le_add_right _ _, by simp⟩]
  simp [List.extract_eq_take_drop]

/-- The items from an index on, or nothing if a count falls below zero or a slice is out of range. -/
def itemsFrom (tokens : List Token) (place : Nat) : Option (Except Error (List Item)) :=
  if inside : place < tokens.length then
    if tokens[place] ≠ openBracket then
      (itemsFrom tokens (place + 1)).map fun outcome => outcome.map (plain tokens[place] :: ·)
    else
      match seekClose tokens 1 (place + 1) with
      | none => none
      | some (_ + 1, _) => some (.error .unmatchedGroup)
      | some (0, last) =>
        match _cut : slice? tokens (place + 1) last with
        | none => none
        | some body =>
          (itemsFrom tokens (last + 1)).map fun outcome => outcome.map (group body :: ·)
  else some (.ok [])
termination_by tokens.length - place
decreasing_by
  · omega
  · have := le_of_slice? ‹_›
    omega

theorem depthAfter?_succ (depth : Nat) (token : Token) :
    depthAfter? (depth + 1) token = some (depthAfter (depth + 1) token) := by
  simp [depthAfter?]

theorem depthAfter_succ_eq_zero_iff {depth : Nat} {token : Token} :
    depthAfter (depth + 1) token = 0 ↔ depth = 0 ∧ token = closeBracket := by
  cases token <;> simp [depthAfter]

variable {rest : List Token} {token : Token} {depth more : Nat}

theorem closeGroup_step (counted : depthAfter (depth + 1) token = more + 1) :
    closeGroup depth (token :: rest) =
      (closeGroup more rest).map fun (body, after) => (token :: body, after) := by
  cases token with
  | openBracket =>
    have deeper : depth + 1 = more := Nat.succ.inj counted
    rw [closeGroup, deeper]
  | closeBracket =>
    have closes : depth = more + 1 := counted
    rw [closes, closeGroup]
  | less | ampersand | semicolon | path | name =>
    have same : depth = more := Nat.succ.inj counted
    rw [same]
    cases more <;> rfl

theorem seekClose_step (before : List Token) (counted : depthAfter (depth + 1) token = more + 1) :
    seekClose (before ++ token :: rest) (depth + 1) before.length =
      seekClose ((before ++ [token]) ++ rest) (more + 1) (before ++ [token]).length := by
  have inside : before.length < (before ++ token :: rest).length := by simp
  have here : (before ++ token :: rest)[before.length] = token := by simp
  rw [seekClose, dif_pos inside, here, depthAfter?_succ, counted]
  simp

theorem seekClose_of_closeGroup (before : List Token) {body after : List Token}
    (closed : closeGroup depth rest = some (body, after)) :
    seekClose (before ++ rest) (depth + 1) before.length =
      some (0, before.length + body.length) := by
  induction rest generalizing before body depth with
  | nil => cases closed
  | cons token tail ih =>
    cases counted : depthAfter (depth + 1) token with
    | zero =>
      obtain ⟨rfl, rfl⟩ := depthAfter_succ_eq_zero_iff.mp counted
      cases closed
      have inside : before.length < (before ++ closeBracket :: after).length := by simp
      rw [seekClose, dif_pos inside]
      simp [depthAfter?_succ, depthAfter]
    | succ more =>
      rw [closeGroup_step counted] at closed
      obtain ⟨⟨inner, others⟩, found, same⟩ := Option.map_eq_some_iff.mp closed
      cases same
      rw [seekClose_step before counted, ih _ found]
      simp [Nat.add_assoc, Nat.add_comm 1]

theorem seekClose_of_unclosed (before : List Token) (unclosed : closeGroup depth rest = none) :
    ∃ more, seekClose (before ++ rest) (depth + 1) before.length =
      some (more + 1, (before ++ rest).length) := by
  induction rest generalizing before depth with
  | nil =>
    refine ⟨depth, ?_⟩
    rw [List.append_nil, seekClose, dif_neg (Nat.lt_irrefl _)]
  | cons token tail ih =>
    cases counted : depthAfter (depth + 1) token with
    | zero =>
      obtain ⟨rfl, rfl⟩ := depthAfter_succ_eq_zero_iff.mp counted
      cases unclosed
    | succ more =>
      rw [closeGroup_step counted] at unclosed
      obtain ⟨left, found⟩ := ih (before ++ [token]) (Option.map_eq_none_iff.mp unclosed)
      refine ⟨left, ?_⟩
      rw [seekClose_step before counted, found]
      simp

theorem itemsFrom_append (before rest : List Token) :
    itemsFrom (before ++ rest) before.length = some (items rest) := by
  fun_induction items rest generalizing before with
  | case1 => rw [itemsFrom, dif_neg (by simp)]
  | case2 rest unclosed =>
    have inside : before.length < (before ++ openBracket :: rest).length := by simp
    obtain ⟨more, found⟩ := seekClose_of_unclosed (before ++ [openBracket]) unclosed
    have sought : seekClose (before ++ openBracket :: rest) 1 (before.length + 1) =
        some (more + 1, (before ++ openBracket :: rest).length) := by
      simpa using found
    rw [itemsFrom, dif_pos inside, if_neg (by simp), sought]
  | case3 rest body after closed ih =>
    obtain ⟨rfl, -⟩ := balanced_of_closeGroup closed
    have whole : before ++ openBracket :: (body ++ closeBracket :: after) =
        (before ++ [openBracket]) ++ body ++ closeBracket :: after := by simp
    have inside : before.length < (before ++ openBracket :: (body ++ closeBracket :: after)).length := by
      simp
    have sought : seekClose (before ++ openBracket :: (body ++ closeBracket :: after)) 1
        (before.length + 1) = some (0, before.length + 1 + body.length) := by
      simpa using seekClose_of_closeGroup (before ++ [openBracket]) closed
    have sliced : slice? (before ++ openBracket :: (body ++ closeBracket :: after))
        (before.length + 1) (before.length + 1 + body.length) = some body := by
      rw [whole]
      simpa using slice?_append (before ++ [openBracket]) body (closeBracket :: after)
    have onward : itemsFrom (before ++ openBracket :: (body ++ closeBracket :: after))
        (before.length + 1 + body.length + 1) = some (items after) := by
      simpa [Nat.add_assoc, Nat.add_comm 1] using
        ih (before ++ openBracket :: body ++ [closeBracket])
    rw [itemsFrom, dif_pos inside, if_neg (by simp), sought]
    dsimp only
    split
    next none => cases none.symm.trans sliced
    next found same =>
      cases same.symm.trans sliced
      rw [onward, Option.map_some]
  | case4 token rest notOpen ih =>
    have inside : before.length < (before ++ token :: rest).length := by simp
    have here : (before ++ token :: rest)[before.length] = token := by simp
    have onward : itemsFrom (before ++ token :: rest) (before.length + 1) = some (items rest) := by
      simpa using ih (before ++ [token])
    rw [itemsFrom, dif_pos inside, here, if_pos notOpen, onward, Option.map_some]

end Indexed

/-- Spread out again the items of some tokens are the tokens, with balanced groups that are shorter
than all of them and with no `[` left alone; no other list of items is so. A `]` is left alone only
where no group is open. Found with an index and a count they are the same, and no count falls below
zero on the way nor is a slice out of range. -/
theorem items_lossless (tokens : List Token) :
    (∀ found, items tokens = .ok found ↔ IsReading tokens found) ∧
      (∀ found, items tokens = .ok found →
        (∀ body, group body ∈ found → body.length < tokens.length) ∧
        ∀ before after, found = before ++ plain closeBracket :: after →
          openAfter 0 (before.flatMap spread) = 0) ∧
      itemsFrom tokens 0 = some (items tokens) := by
  refine ⟨fun found => cut_iff.trans reading_iff_cut.symm, ?_, itemsFrom_append [] tokens⟩
  intro found cut
  refine ⟨fun body present => length_lt_of_items cut present, ?_⟩
  rintro before after rfl
  exact openAfter_spread (cut_of_items cut)

-- A `]` in front of a group and one behind it belong to none.
theorem items_lossless_around_group :
    let tokens := [closeBracket, openBracket, name "a", openBracket, closeBracket, closeBracket,
      closeBracket]
    let body := [name "a", openBracket, closeBracket]
    let found := [plain closeBracket, group body, plain closeBracket]
    items tokens = .ok found ∧ IsReading tokens found ∧ body.length < tokens.length ∧
      openAfter 0 ([plain closeBracket, group body].flatMap spread) = 0 := by
  intro tokens body found
  have cut : items tokens = .ok found := by cbv
  obtain ⟨unique, within, -⟩ := items_lossless tokens
  obtain ⟨shorter, closed⟩ := within found cut
  exact ⟨cut, (unique found).mp cut, shorter body (by simp [found]),
    closed [plain closeBracket, group body] [] rfl⟩

end Scaffold.Item
