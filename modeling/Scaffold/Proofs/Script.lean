import Scaffold.Proofs.Outcome
import Scaffold.Proofs.Shorthand.Run
import Scaffold.Script

namespace Scaffold

variable {σ τ : Type} {ask : String → StateM σ (Option String)} {workspace : Option String}
  {script : String} {error : Error}

theorem compile_error (refused : compile script = .error error) : error = .unmatchedGroup :=
  (Item.items_eq_error_iff.mp (compileUnder_eq_error_iff.mp refused)).1

theorem substitute_yields (ask : String → StateM σ (Option String)) (workspace : Option String)
    (script : String) :
    Yields (fun outcome => ∀ error, outcome = .error error → error = .cancelled)
      (substitute ask workspace script) := by
  refine .bind fun values => ?_
  cases values with
  | none => exact .pure fun error failed => by cases failed; rfl
  | some values => exact .pure fun error failed => by cases failed

theorem apply_yields {τ : Type} (storage : Storage (StateM τ)) (templates : Templates)
    (operations : List Operation) :
    Yields (fun outcome => ∀ error, outcome = .error error →
      ∃ index operation cause, error = .apply index operation cause)
      (apply storage templates operations) := by
  have along : ∀ index report, Yields (fun outcome => ∀ error, outcome = .error error →
      ∃ index operation cause, error = .apply index operation cause)
      (applyFrom storage templates index report operations) := by
    induction operations with
    | nil => exact fun index report => .pure fun error failed => by cases failed
    | cons operation operations ih =>
      intro index report
      refine .bind fun outcome => ?_
      cases outcome with
      | error fault =>
        exact .pure fun error failed => by cases failed; exact ⟨index, operation, fault, rfl⟩
      | ok counted => exact ih _ counted
  exact along 0 {}

theorem prepare_apply (ask : String → StateM σ (Option String)) (workspace : Option String)
    (script : String) (s : σ) :
    prepare ask workspace script s =
      match substitute ask workspace script s with
      | (.error error, after) => (.error error, after)
      | (.ok text, after) => (compile text, after) := by
  rw [prepare, bind_apply]
  rcases substitute ask workspace script s with ⟨outcome, after⟩
  cases outcome with
  | error error => rfl
  | ok text => rfl

theorem runScript_apply (storage : Storage (StateM τ)) (ask : String → StateM σ (Option String))
    (workspace : Option String) (templates : Templates) (script : String) (s : σ) (t : τ) :
    runScript storage ask workspace templates script s t =
      match prepare ask workspace script s with
      | (.error error, after) => ((.error error, after), t)
      | (.ok operations, after) => (((apply storage templates operations t).1, after),
          (apply storage templates operations t).2) := by
  unfold runScript
  rcases prepare ask workspace script s with ⟨outcome, after⟩
  cases outcome with
  | error error => rfl
  | ok operations => rfl

section Run

variable (storage : Storage (StateM τ)) (ask : String → StateM σ (Option String))
  (workspace : Option String) (templates : Templates) (script : String) (s : σ) (t : τ)

theorem runScript_cases :
    let ran := runScript storage ask workspace templates script s t
    ((substitute ask workspace script s).1 = .error .cancelled ∧
      ran.1.1 = .error .cancelled ∧ ran.2 = t) ∨
    (∃ text, (substitute ask workspace script s).1 = .ok text ∧
      compile text = .error .unmatchedGroup ∧ ran.1.1 = .error .unmatchedGroup ∧ ran.2 = t) ∨
    ∃ text operations, (substitute ask workspace script s).1 = .ok text ∧
      compile text = .ok operations ∧ ran.1.1 = (apply storage templates operations t).1 := by
  intro ran
  have same : ran = _ := runScript_apply storage ask workspace templates script s t
  have only := substitute_yields ask workspace script s
  rw [prepare_apply] at same
  rcases filled : substitute ask workspace script s with ⟨outcome, after⟩
  rw [filled] at only same
  cases outcome with
  | error error =>
    obtain rfl := only error rfl
    exact .inl ⟨rfl, by rw [same], by rw [same]⟩
  | ok text =>
    cases compiled : compile text with
    | error error =>
      obtain rfl := compile_error compiled
      simp only [compiled] at same
      exact .inr (.inl ⟨text, rfl, compiled, by rw [same], by rw [same]⟩)
    | ok operations =>
      simp only [compiled] at same
      exact .inr (.inr ⟨text, operations, rfl, compiled, by rw [same]⟩)

theorem runScript_error {error : Error}
    (failed : (runScript storage ask workspace templates script s t).1.1 = .error error) :
    (error = .cancelled ∨ error = .unmatchedGroup) ∧
        (runScript storage ask workspace templates script s t).2 = t ∨
      ∃ index operation cause, error = .apply index operation cause := by
  rcases runScript_cases storage ask workspace templates script s t with
    ⟨-, ended, kept⟩ | ⟨text, -, -, ended, kept⟩ | ⟨text, operations, -, -, ended⟩
  · rw [ended] at failed
    cases failed
    exact .inl ⟨.inl rfl, kept⟩
  · rw [ended] at failed
    cases failed
    exact .inl ⟨.inr rfl, kept⟩
  · exact .inr (apply_yields storage templates operations t error (ended ▸ failed))

theorem runScript_cancelled_iff :
    (runScript storage ask workspace templates script s t).1.1 = .error .cancelled ↔
      (substitute ask workspace script s).1 = .error .cancelled := by
  rcases runScript_cases storage ask workspace templates script s t with
    ⟨cancelled, ended, -⟩ | ⟨text, filled, -, ended, -⟩ | ⟨text, operations, filled, -, ended⟩
  · simp [cancelled, ended]
  · simp [filled, ended]
  · rw [filled, ended]
    constructor
    · intro failed
      obtain ⟨_, _, _, same⟩ := apply_yields storage templates operations t _ failed
      cases same
    · intro failed
      cases failed

end Run
end Scaffold
