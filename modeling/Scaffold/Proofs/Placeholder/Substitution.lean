import Mathlib.Data.List.Basic
import Mathlib.Data.List.Induction
import Scaffold.Proofs.Outcome
import Scaffold.Proofs.Placeholder.Matches

namespace Scaffold

section FirstAppearance
variable {α : Type} [BEq α] [LawfulBEq α]

/-- The members of a list, in the order of their first appearance. -/
structure InFirstOrder (all distinct : List α) : Prop where
  members : ∀ a, a ∈ distinct ↔ a ∈ all
  ordered : distinct.Pairwise fun a b => all.idxOf a < all.idxOf b

theorem inFirstOrder_eraseDups (all : List α) : InFirstOrder all all.eraseDups where
  members := fun _ => List.mem_eraseDups
  ordered := by
    induction all using List.reverseRecOn with
    | nil => exact .nil
    | append_singleton all last ih =>
      have earlier : ∀ a ∈ all.eraseDups, (all ++ [last]).idxOf a = all.idxOf a :=
        fun a present => List.idxOf_append_of_mem (List.mem_eraseDups.mp present)
      have kept : all.eraseDups.Pairwise fun a b =>
          (all ++ [last]).idxOf a < (all ++ [last]).idxOf b := by
        apply ih.imp_of_mem
        intro a b inA inB before
        rwa [earlier a inA, earlier b inB]
      rw [List.eraseDups_append]
      by_cases old : last ∈ all
      · simpa [List.removeAll, old] using kept
      · have new : [last].removeAll all = [last] := by simp [List.removeAll, old]
        have alone : [last].eraseDups = [last] := rfl
        rw [new, alone]
        refine List.pairwise_append.mpr ⟨kept, List.pairwise_singleton _ _, ?_⟩
        intro a present b behind
        have before := List.idxOf_lt_length_of_mem (List.mem_eraseDups.mp present)
        rw [List.mem_singleton.mp behind, earlier a present, List.idxOf_append_of_notMem old]
        omega

end FirstAppearance

/-- The names to be asked for: where there is a workspace its own name is known. -/
def toAsk (workspace : Option String) (names : List String) : List String :=
  if workspace.isSome then names.filter (· ≠ workspaceName) else names

/-- Asked for one name after the other, what is asked gives these values. -/
inductive Answered {σ : Type} (ask : String → StateM σ (Option String)) :
    List (String × String) → σ → σ → Prop
  | nil (s : σ) : Answered ask [] s s
  | cons {name value : String} {others : List (String × String)} {s t u : σ}
      (answer : ask name s = (some value, t)) (later : Answered ask others t u) :
      Answered ask ((name, value) :: others) s u

/-- The value of a name: the workspace's own name where there is a workspace, else what was
answered. -/
def StandsFor (workspace : Option String) (answered : List (String × String))
    (name value : String) : Prop :=
  if name = workspaceName ∧ workspace.isSome then workspace = some value
  else (name, value) ∈ answered

def filled (value : String → String) (holes : List (List Char × String)) (last : List Char) :
    String :=
  String.ofList (holes.flatMap (fun hole => hole.1 ++ (value hole.2).toList) ++ last)

variable {σ : Type} {ask : String → StateM σ (Option String)} {workspace : Option String}
  {name : String} {names : List String}

section Names

theorem toAsk_of_known (known : name = workspaceName ∧ workspace.isSome) (names : List String) :
    toAsk workspace (name :: names) = toAsk workspace names := by
  simp [toAsk, known]

theorem toAsk_of_unknown (unknown : ¬ (name = workspaceName ∧ workspace.isSome))
    (names : List String) : toAsk workspace (name :: names) = name :: toAsk workspace names := by
  unfold toAsk
  split
  next given =>
    have other : name ≠ workspaceName := fun own => unknown ⟨own, given⟩
    simp [other]
  next => rfl

theorem StandsFor.cons {answered : List (String × String)} {value : String}
    (stands : StandsFor workspace answered name value) (entry : String × String) :
    StandsFor workspace (entry :: answered) name value := by
  unfold StandsFor at stands ⊢
  split at stands
  next known => rwa [if_pos known]
  next unknown => rw [if_neg unknown]; exact List.mem_cons_of_mem _ stands

theorem resolveNames_known {value : String} (known : name = workspaceName) (s : σ) :
    resolveNames ask (some value) (name :: names) s =
      ((resolveNames ask (some value) names s).1.map ((name, value) :: ·),
        (resolveNames ask (some value) names s).2) := by
  rw [resolveNames, if_pos known]
  rfl

theorem resolveNames_asked (unknown : ¬ (name = workspaceName ∧ workspace.isSome)) (s : σ) :
    resolveNames ask workspace (name :: names) s =
      match ask name s with
      | (none, t) => (none, t)
      | (some value, t) => ((resolveNames ask workspace names t).1.map ((name, value) :: ·),
          (resolveNames ask workspace names t).2) := by
  have open' : (if name = workspaceName then workspace else none) = none := by
    by_cases own : name = workspaceName
    · simpa [own] using unknown
    · rw [if_neg own]
  rw [resolveNames, open']
  dsimp only
  rw [bind_apply]
  rcases ask name s with ⟨answer, t⟩
  cases answer with
  | none => rfl
  | some value => rfl

theorem resolveNames_cases (ask : String → StateM σ (Option String)) (workspace : Option String)
    (names : List String) (s : σ) :
    (∃ answered name rest t after, toAsk workspace names = answered.map Prod.fst ++ name :: rest ∧
      Answered ask answered s t ∧ ask name t = (none, after) ∧
      resolveNames ask workspace names s = (none, after)) ∨
    ∃ answered values after, answered.map Prod.fst = toAsk workspace names ∧
      Answered ask answered s after ∧ values.map Prod.fst = names ∧
      (∀ entry ∈ values, StandsFor workspace answered entry.1 entry.2) ∧
      resolveNames ask workspace names s = (some values, after) := by
  induction names generalizing s with
  | nil => exact .inr ⟨[], [], s, by simp [toAsk], .nil s, rfl, by simp, rfl⟩
  | cons name names ih =>
    by_cases known : name = workspaceName ∧ workspace.isSome
    · obtain ⟨value, rfl⟩ := Option.isSome_iff_exists.mp known.2
      rw [toAsk_of_known known, resolveNames_known known.1]
      rcases ih s with ⟨answered, missing, rest, t, after, order, given, stops, ran⟩ |
          ⟨answered, values, after, order, given, keys, stand, ran⟩
      · exact .inl ⟨answered, missing, rest, t, after, order, given, stops, by rw [ran]; rfl⟩
      · refine .inr ⟨answered, (name, value) :: values, after, order, given, ?_, ?_,
          by rw [ran]; rfl⟩
        · rw [List.map_cons, keys]
        · intro entry present
          rcases List.mem_cons.mp present with rfl | present
          · exact (if_pos known).mpr rfl
          · exact stand entry present
    · rw [toAsk_of_unknown known, resolveNames_asked known]
      rcases answer : ask name s with ⟨value?, t⟩
      cases value? with
      | none => exact .inl ⟨[], name, toAsk workspace names, s, t, rfl, .nil s, answer, rfl⟩
      | some value =>
        rcases ih t with ⟨answered, missing, rest, u, after, order, given, stops, ran⟩ |
            ⟨answered, values, after, order, given, keys, stand, ran⟩
        · refine .inl ⟨(name, value) :: answered, missing, rest, u, after, ?_, .cons answer given,
            stops, by simp only [ran]; rfl⟩
          rw [order, List.map_cons, List.cons_append]
        · refine .inr ⟨(name, value) :: answered, (name, value) :: values, after, ?_,
            .cons answer given, ?_, ?_, by simp only [ran]; rfl⟩
          · rw [List.map_cons, order]
          · rw [List.map_cons, keys]
          · intro entry present
            rcases List.mem_cons.mp present with rfl | present
            · exact (if_neg known).mpr (by simp)
            · exact (stand entry present).cons _

theorem exists_lookup {values : List (String × String)} (present : name ∈ values.map Prod.fst) :
    ∃ value, values.lookup name = some value ∧ (name, value) ∈ values := by
  obtain ⟨entry, member, rfl⟩ := List.mem_map.mp present
  have known : (values.lookup entry.1).isSome := List.lookup_isSome_iff.mpr ⟨entry, member, by simp⟩
  obtain ⟨value, found⟩ := Option.isSome_iff_exists.mp known
  obtain ⟨before, after, rfl, -⟩ := List.lookup_eq_some_iff.mp found
  exact ⟨value, found, by simp⟩

end Names

section Script
variable {script : String} {holes : List (List Char × String)} {last : List Char}

theorem placeholders_of_matches (matched : Piece.Matches script.toList holes last) :
    placeholders script = (holes.map Prod.snd).eraseDups := by
  rw [placeholders, Piece.listOfChars_of_matches matched, Piece.filterMap_name?_pieces]

theorem substitute_apply (ask : String → StateM σ (Option String)) (workspace : Option String)
    (matched : Piece.Matches script.toList holes last) (s : σ) :
    substitute ask workspace script s =
      match resolveNames ask workspace (placeholders script) s with
      | (none, after) => (.error .cancelled, after)
      | (some values, after) =>
        (.ok (filled (fun name => (values.lookup name).getD "") holes last), after) := by
  rw [substitute, bind_apply]
  rcases resolveNames ask workspace (placeholders script) s with ⟨resolved, after⟩
  cases resolved with
  | none => rfl
  | some values =>
    dsimp only
    rw [Piece.listOfChars_of_matches matched, Piece.flatMap_fill_pieces]
    rfl

theorem stands_of_resolved {answered values : List (String × String)}
    (keys : values.map Prod.fst = names)
    (stand : ∀ entry ∈ values, StandsFor workspace answered entry.1 entry.2)
    (present : name ∈ names) :
    (values.lookup name).isSome ∧
      StandsFor workspace answered name ((values.lookup name).getD "") := by
  obtain ⟨value, found, member⟩ := exists_lookup (keys ▸ present)
  rw [found]
  exact ⟨rfl, stand _ member⟩

/-- Whoever is asked: the placeholders of a script are its leftmost ones that do not overlap. The
names that are not known are asked for once each, in the order of first appearance, and the first
that gets no answer ends the run; else each placeholder gives way to the value of its name, and the
rest of the text stays as it is. No value is ever missing, so the empty text never stands for
one. -/
theorem substitute_fills (ask : String → StateM σ (Option String)) (workspace : Option String)
    (script : String) (s : σ) :
    ∃ holes last names, Piece.Matches script.toList holes last ∧
      (∀ holes' last', Piece.Matches script.toList holes' last' → holes' = holes ∧ last' = last) ∧
      InFirstOrder (holes.map Prod.snd) names ∧
      ((∃ answered name rest t after,
          toAsk workspace names = answered.map Prod.fst ++ name :: rest ∧
          Answered ask answered s t ∧ ask name t = (none, after) ∧
          substitute ask workspace script s = (.error .cancelled, after)) ∨
        ∃ answered value after, answered.map Prod.fst = toAsk workspace names ∧
          Answered ask answered s after ∧
          (∀ hole ∈ holes, StandsFor workspace answered hole.2 (value hole.2)) ∧
          substitute ask workspace script s = (.ok (filled value holes last), after)) ∧
      (holes = [] → substitute ask workspace script s = (.ok script, s)) ∧
      ∀ values, (resolveNames ask workspace (placeholders script) s).1 = some values →
        ∀ hole ∈ holes, (values.lookup hole.2).isSome := by
  obtain ⟨holes, last, matched⟩ := Piece.exists_matches script.toList
  have named := placeholders_of_matches matched
  have order : InFirstOrder (holes.map Prod.snd) (placeholders script) :=
    named ▸ inFirstOrder_eraseDups _
  have listed : ∀ hole ∈ holes, hole.2 ∈ placeholders script :=
    fun hole member => (order.members hole.2).mpr (List.mem_map_of_mem member)
  have run := substitute_apply ask workspace matched s
  have resolved := resolveNames_cases ask workspace (placeholders script) s
  refine ⟨holes, last, placeholders script, matched, fun _ _ other => other.unique matched, order,
    ?_, ?_, ?_⟩
  · rcases resolved with ⟨answered, name, rest, t, after, asked, given, stops, ran⟩ |
      ⟨answered, values, after, asked, given, keys, stand, ran⟩
    · exact .inl ⟨answered, name, rest, t, after, asked, given, stops, by rw [run, ran]⟩
    · refine .inr ⟨answered, fun name => (values.lookup name).getD "", after, asked, given, ?_,
        by rw [run, ran]⟩
      exact fun hole member => (stands_of_resolved keys stand (listed hole member)).2
  · rintro rfl
    rw [run, named, matched.eq_of_nil]
    simp [resolveNames, filled, pure_apply]
  · intro values found hole member
    rcases resolved with ⟨answered, name, rest, t, after, asked, given, stops, ran⟩ |
      ⟨answered, others, after, asked, given, keys, stand, ran⟩
    · simp [ran] at found
    · rw [ran] at found
      cases found
      exact (stands_of_resolved keys stand (listed hole member)).1

end Script
end Scaffold
