import Scaffold.Proofs.Placeholder.Substitution

/-! What is left over once placeholders are filled in. A `$` or `{` between two placeholders can meet
the value that was put in beside it. `Matches.free_filled` says that no placeholder comes of this
where values hold neither character and none is empty: an opening that stands right before a value
would have been taken along with the placeholder that the value replaced. -/

namespace Scaffold

namespace Piece

def Free (cs : List Char) : Prop := ∀ before after, cs = before ++ after → ¬ Opens after

/-- A value that neither begins a placeholder nor completes the beginning of one. -/
def IsInert (value : String) : Prop := value ≠ "" ∧ '$' ∉ value.toList ∧ '{' ∉ value.toList

instance (value : String) : Decidable (IsInert value) := inferInstanceAs (Decidable (_ ∧ _ ∧ _))

variable {cs front rest last : List Char} {name : String} {holes : List (List Char × String)}

theorem opens_iff :
    Opens cs ↔ ∃ tail, cs = '$' :: '{' :: tail ∧ tail.head? ≠ some '}' ∧ '}' ∈ tail := by
  constructor
  · intro opens
    obtain ⟨name, rest, proper, rfl⟩ := opens
    have filled : name.toList ≠ [] := by simpa using proper.1
    obtain ⟨c, others, chars⟩ := List.exists_cons_of_ne_nil filled
    have other : c ≠ '}' := fun same => proper.2 (by simp [chars, same])
    exact ⟨name.toList ++ '}' :: rest, mark_append name rest, by simp [chars, other], by simp⟩
  · intro shape
    obtain ⟨tail, rfl, apart, closes⟩ := shape
    obtain ⟨chars, rest, rfl, first⟩ := List.eq_append_cons_of_mem closes
    have filled : chars ≠ [] := fun empty => apart (by simp [empty])
    have proper : IsHoleName (String.ofList chars) := ⟨by simpa using filled, by simpa using first⟩
    exact ⟨String.ofList chars, rest, proper, by simp [mark_append]⟩

namespace Free

theorem append (free : Free cs)
    (closed : ∀ before after, front = before ++ after → after ≠ [] → ¬ Opens (after ++ cs)) :
    Free (front ++ cs) := by
  intro before after split
  rcases List.append_eq_append_iff.mp split with ⟨more, -, within⟩ | ⟨more, within, same⟩
  · exact free more after within
  · rw [same]
    by_cases none : more = []
    · simpa [none] using free [] cs rfl
    · exact closed before more within none

theorem append_inert (free : Free cs) (inert : '$' ∉ front) : Free (front ++ cs) := by
  apply free.append
  intro before after split filled opens
  obtain ⟨c, others, rfl⟩ := List.exists_cons_of_ne_nil filled
  obtain ⟨tail, same, -⟩ := opens_iff.mp opens
  have dollar : c = '$' := (List.cons.inj same).1
  exact inert (by simp [split, dollar])

end Free

/-- What starts before a seam and does not get its `{` from behind it, starts there too when a
placeholder stands behind the seam. -/
theorem Opens.before_mark (opens : Opens (front ++ cs)) (filled : front ≠ [])
    (noBrace : cs.head? ≠ some '{') (name : String) (rest : List Char) :
    Opens (front ++ (mark name ++ rest)) := by
  obtain ⟨tail, same, apart, -⟩ := opens_iff.mp opens
  obtain ⟨c, others, rfl⟩ := List.exists_cons_of_ne_nil filled
  rw [List.cons_append, List.cons.injEq] at same
  cases others with
  | nil =>
    rw [List.nil_append] at same
    exact absurd (by rw [same.2]; rfl) noBrace
  | cons brace behind =>
    rw [List.cons_append, List.cons.injEq] at same
    have apart' : (behind ++ (mark name ++ rest)).head? ≠ some '}' := by
      cases behind with
      | nil => simp [mark]
      | cons d more => simpa [← same.2.2] using apart
    exact opens_iff.mpr ⟨behind ++ (mark name ++ rest), by simp [same.1, same.2.1], apart',
      by simp [mark]⟩

theorem toList_filled_nil (value : String → String) (last : List Char) :
    (filled value [] last).toList = last := by
  simp [filled]

theorem toList_filled_cons (value : String → String) (gap : List Char) (name : String)
    (holes : List (List Char × String)) (last : List Char) :
    (filled value ((gap, name) :: holes) last).toList =
      gap ++ ((value name).toList ++ (filled value holes last).toList) := by
  simp [filled]

theorem Matches.free_filled (matched : Matches cs holes last) {value : String → String}
    (inert : ∀ hole ∈ holes, IsInert (value hole.2)) : Free (filled value holes last).toList := by
  induction matched with
  | none free =>
    rw [toList_filled_nil]
    exact free
  | @next gap rest last name holes proper leftmost others ih =>
    obtain ⟨nonempty, noDollar, noBrace⟩ := inert (gap, name) (by simp)
    have later : Free (filled value holes last).toList :=
      ih fun hole member => inert hole (by simp [member])
    have start : ((value name).toList ++ (filled value holes last).toList).head? ≠ some '{' := by
      have chars : (value name).toList ≠ [] := by simpa using nonempty
      obtain ⟨c, others, split⟩ := List.exists_cons_of_ne_nil chars
      have other : c ≠ '{' := fun same => noBrace (by simp [split, same])
      simp [split, other]
    rw [toList_filled_cons]
    apply (later.append_inert noDollar).append
    -- Whatever starts in the gap started there in the text as it was, before the placeholder.
    intro before after split filled opens
    have opened : Opens (after ++ (mark name ++ rest)) := opens.before_mark filled start name rest
    rw [← List.append_assoc] at opened
    exact leftmost before after split filled opened

end Piece

section Again
variable {σ : Type} {ask : String → StateM σ (Option String)} {workspace : Option String}

theorem placeholders_of_free {text : String} (free : Piece.Free text.toList) :
    placeholders text = [] := by
  rw [placeholders_of_matches (.none free)]
  rfl

theorem substitute_of_free {text : String} (free : Piece.Free text.toList)
    (ask : String → StateM σ (Option String)) (workspace : Option String) (s : σ) :
    substitute ask workspace text s = (.ok text, s) := by
  rw [substitute_apply ask workspace (.none free), placeholders_of_free free]
  simp [resolveNames, filled, pure_apply]

theorem Answered.split {answered known : List (String × String)} {names : List String}
    {s t after : σ} (given : Answered ask answered s after) (begun : Answered ask known s t)
    (order : answered.map Prod.fst = known.map Prod.fst ++ names) :
    ∃ later, answered = known ++ later ∧ Answered ask later t after := by
  induction begun generalizing answered with
  | nil s => exact ⟨answered, rfl, given⟩
  | cons answer _ ih =>
    cases given with
    | nil => cases order
    | cons answer' others =>
      simp only [List.map_cons, List.cons_append, List.cons.injEq] at order
      obtain ⟨rfl, order⟩ := order
      rw [answer] at answer'
      cases answer'
      obtain ⟨later, rfl, rest⟩ := ih others order
      exact ⟨later, rfl, rest⟩

theorem resolveNames_of_answered {answered : List (String × String)} {names : List String}
    {s after : σ} (given : Answered ask answered s after)
    (order : answered.map Prod.fst = toAsk workspace names) :
    ∃ values, resolveNames ask workspace names s = (some values, after) ∧
      values.map Prod.fst = names ∧
      ∀ entry ∈ values, StandsFor workspace answered entry.1 entry.2 := by
  rcases resolveNames_cases ask workspace names s with
    ⟨known, name, rest, t, final, asked, begun, stops, -⟩ |
      ⟨known, values, final, asked, again, keys, stand, ran⟩
  · obtain ⟨later, rfl, others⟩ := given.split begun (order.trans asked)
    rw [List.map_append, asked] at order
    have left : later.map Prod.fst = name :: rest := List.append_cancel_left order
    cases others with
    | nil => cases left
    | cons answer _ =>
      cases left
      rw [stops] at answer
      cases answer
  · have same : answered.map Prod.fst = known.map Prod.fst ++ [] := by
      rw [order, asked, List.append_nil]
    obtain ⟨later, rfl, others⟩ := given.split again same
    have none : later = [] := by simpa using same
    subst none
    cases others
    rw [List.append_nil]
    exact ⟨values, ran, keys, stand⟩

theorem StandsFor.isInert {answered : List (String × String)} {name value : String}
    (stands : StandsFor workspace answered name value)
    (own : ∀ value, workspace = some value → Piece.IsInert value)
    (inert : ∀ entry ∈ answered, Piece.IsInert entry.2) : Piece.IsInert value := by
  unfold StandsFor at stands
  split at stands
  next => exact own value stands
  next => exact inert (name, value) stands

/-- Where neither the workspace's name nor an answer is empty or holds a `$` or a `{`, what comes of
a script has no placeholder, however its own `$`, `{` and `}` lie between the placeholders it had;
so filling it in again asks nothing and changes nothing. A text comes just of the runs in which each
name that is not known gets an answer. -/
theorem substitute_leaves_none (ask : String → StateM σ (Option String))
    (workspace : Option String) (script : String) (s : σ)
    (own : ∀ value, workspace = some value → Piece.IsInert value) :
    (∀ answered after, answered.map Prod.fst = toAsk workspace (placeholders script) →
        Answered ask answered s after → (∀ entry ∈ answered, Piece.IsInert entry.2) →
        ∃ text, substitute ask workspace script s = (.ok text, after) ∧ placeholders text = [] ∧
          ∀ (τ : Type) (ask' : String → StateM τ (Option String)) (workspace' : Option String)
            (t : τ), substitute ask' workspace' text t = (.ok text, t)) ∧
      ∀ text after, substitute ask workspace script s = (.ok text, after) →
        ∃ answered, answered.map Prod.fst = toAsk workspace (placeholders script) ∧
          Answered ask answered s after := by
  obtain ⟨holes, last, matched⟩ := Piece.exists_matches script.toList
  have run := substitute_apply ask workspace matched s
  constructor
  · intro answered after order given inert
    obtain ⟨values, resolved, keys, stand⟩ := resolveNames_of_answered given order
    have free : Piece.Free
        (filled (fun name => (values.lookup name).getD "") holes last).toList := by
      apply matched.free_filled
      intro hole member
      have named : hole.2 ∈ placeholders script := by
        rw [placeholders_of_matches matched]
        exact List.mem_eraseDups.mpr (List.mem_map_of_mem member)
      exact (stands_of_resolved keys stand named).2.isInert own inert
    exact ⟨_, by rw [run, resolved], placeholders_of_free free,
      fun τ ask' workspace' t => substitute_of_free free ask' workspace' t⟩
  · intro text after ran
    rcases resolveNames_cases ask workspace (placeholders script) s with
      ⟨answered, name, rest, t, final, -, -, -, resolved⟩ |
        ⟨answered, values, final, order, given, -, -, resolved⟩
    · rw [run, resolved] at ran
      cases ran
    · rw [run, resolved] at ran
      cases ran
      exact ⟨answered, order, given⟩

/-- From `$${x}{a}/${project}` comes `$}{a}/site`: the braces around a value do not make it a name,
even where the value is one of them. -/
theorem substitute_leaves_none_between_braces :
    let ask : String → StateM (List String) (Option String) :=
      fun name asked => (some "\x7d", asked ++ [name])
    let script := "$$\x7bx\x7d\x7ba\x7d/$\x7bproject\x7d"
    let text := "$\x7d\x7ba\x7d/site"
    Piece.IsInert "site" ∧ Piece.IsInert "\x7d" ∧
      toAsk (some "site") (placeholders script) = ["x"] ∧
      substitute ask (some "site") script [] = (.ok text, ["x"]) ∧ placeholders text = [] := by
  intro ask script text
  have own : Piece.IsInert "site" := by decide
  have inert : Piece.IsInert "\x7d" := by decide
  have names : placeholders script = ["x", "project"] := by decide +kernel
  have asked : toAsk (some "site") (placeholders script) = ["x"] := by
    rw [names]
    decide
  have given : Answered ask [("x", "\x7d")] [] ["x"] := .cons rfl (.nil _)
  have filledIn := (substitute_leaves_none ask (some "site") script []
    fun value same => by cases same; exact own).1
  obtain ⟨text', ran, none, -⟩ := filledIn [("x", "\x7d")] ["x"] asked.symm given
    fun entry member => by rw [List.mem_singleton.mp member]; exact inert
  have computed : (substitute ask (some "site") script []).1.toOption = some text := by
    decide +kernel
  have same : text' = text := by simpa [ran, Except.toOption] using computed
  subst same
  exact ⟨own, inert, asked, ran, none⟩

-- An empty value lets the `$` before its placeholder in `$${x}{a}` meet the `{` behind it.
example : (substitute (fun _ => pure (some "") : String → StateM Unit (Option String)) none
    "$$\x7bx\x7d\x7ba\x7d" ()).1.toOption = some "$\x7ba\x7d" := by decide +kernel

end Again
end Scaffold
