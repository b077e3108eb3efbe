/-! When a computation that may fail gives a value, and when it fails; and what a computation with a
state gives when it runs. One that only asks (`Asks`) leaves the state as it is. Two computations
over states of different kinds are compared step by step (`Simulates.bind`, `Simulates.andThen`). -/

namespace Scaffold

variable {ε α β γ : Type} {outcome : Except ε α}

theorem map_eq_ok_iff {f : α → β} {value : β} :
    outcome.map f = .ok value ↔ ∃ a, outcome = .ok a ∧ f a = value := by
  cases outcome with
  | error e => simp [Except.map]
  | ok a => simp [Except.map]

theorem map_eq_error_iff {f : α → β} {e : ε} : outcome.map f = .error e ↔ outcome = .error e := by
  cases outcome with
  | error e => simp [Except.map]
  | ok a => simp [Except.map]

theorem map_map (f : α → β) (g : β → γ) :
    (outcome.map f).map g = outcome.map fun a => g (f a) := by
  cases outcome with
  | error e => rfl
  | ok a => rfl

theorem bind_eq_ok_iff {f : α → Except ε β} {value : β} :
    outcome >>= f = .ok value ↔ ∃ a, outcome = .ok a ∧ f a = .ok value := by
  cases outcome with
  | error e => simp [bind, Except.bind]
  | ok a => simp [bind, Except.bind]

theorem bind_ok_eq_map (f : α → β) : (outcome >>= fun a => .ok (f a)) = outcome.map f := by
  cases outcome with
  | error e => rfl
  | ok a => rfl

theorem toOption_map (f : α → β) : (outcome.map f).toOption = outcome.toOption.map f := by
  cases outcome with
  | error e => rfl
  | ok a => rfl

theorem mapM_map_eq_some {read : β → Option α} {write : α → β}
    (inverse : ∀ a, read (write a) = some a) (items : List α) :
    (items.map write).mapM read = some items := by
  induction items with
  | nil => rfl
  | cons item items ih =>
    rw [List.map_cons, List.mapM_cons, inverse, ih]
    rfl

def Alike {ε δ α : Type} (first : Except ε α) (second : Except δ α) : Prop :=
  first.toOption = second.toOption

theorem Alike.cases {δ : Type} {other : Except δ α} (alike : Alike outcome other) :
    (∃ a, outcome = .ok a ∧ other = .ok a) ∨ ∃ e f, outcome = .error e ∧ other = .error f := by
  cases outcome with
  | error e =>
    cases other with
    | error f => exact .inr ⟨e, f, rfl, rfl⟩
    | ok b => cases alike
  | ok a =>
    cases other with
    | error f => cases alike
    | ok b =>
      cases alike
      exact .inl ⟨a, rfl, rfl⟩

section State
variable {σ : Type}

theorem bind_apply {α β : Type} (first : StateM σ α) (next : α → StateM σ β) (s : σ) :
    (first >>= next) s = next (first s).1 (first s).2 := rfl

theorem pure_apply {α : Type} (a : α) (s : σ) : (pure a : StateM σ α) s = (a, s) := rfl

theorem get_apply (s : σ) : (get : StateM σ σ) s = (s, s) := rfl

theorem mapM_cons_apply {ι α : Type} (f : ι → StateM σ α) (i : ι) (inputs : List ι) (s : σ) :
    (i :: inputs).mapM f s =
      let first := f i s
      let others := inputs.mapM f first.2
      (first.1 :: others.1, others.2) := by
  rw [List.mapM_cons]
  rfl

def Yields {α : Type} (values : α → Prop) (computation : StateM σ α) : Prop :=
  ∀ s, values (computation s).1

namespace Yields

variable {α β : Type} {values : β → Prop}

theorem pure {b : β} (fits : values b) : Yields values (Pure.pure b : StateM σ β) :=
  fun _ => fits

theorem bind {first : StateM σ α} {f : α → StateM σ β} (goes : ∀ a, Yields values (f a)) :
    Yields values (first >>= f) :=
  fun s => goes _ (first s).2

theorem andThen {first : StateM σ α} {f : α → StateM σ β} {firsts : α → Prop}
    (begun : Yields firsts first) (goes : ∀ a, firsts a → Yields values (f a)) :
    Yields values (first >>= f) :=
  fun s => goes _ (begun s) (first s).2

end Yields

/-- Whatever state it is run from, a computation leaves it as it is. -/
def Asks {α : Type} (computation : StateM σ α) : Prop := ∀ s, (computation s).2 = s

namespace Asks

variable {α β : Type}

theorem pure (b : β) : Asks (Pure.pure b : StateM σ β) := fun _ => rfl

theorem bind {first : StateM σ α} {f : α → StateM σ β} (begun : Asks first)
    (goes : ∀ a, Asks (f a)) : Asks (first >>= f) := by
  intro s
  rw [bind_apply, goes, begun]

theorem andThen {ε : Type} {first : StateM σ (Except ε α)} {f : Except ε α → StateM σ β}
    (begun : Asks first) (stops : ∀ e, Asks (f (.error e))) (goes : ∀ a, Asks (f (.ok a))) :
    Asks (first >>= f) := by
  refine begun.bind fun outcome => ?_
  cases outcome with
  | error e => exact stops e
  | ok a => exact goes a

theorem after {first : StateM σ α} {f : α → StateM σ β} (goes : ∀ a, Asks (f a)) (s : σ) :
    ((first >>= f) s).2 = (first s).2 := by
  rw [bind_apply, goes]

end Asks

/-- Whatever state it is run from, a computation leaves what `view` shows of it as it is. -/
def Spares {α δ : Type} (view : σ → δ) (computation : StateM σ α) : Prop :=
  ∀ s, view (computation s).2 = view s

namespace Spares

variable {α β δ : Type} {view : σ → δ}

theorem pure (b : β) : Spares view (Pure.pure b : StateM σ β) := fun _ => rfl

theorem bind {first : StateM σ α} {f : α → StateM σ β} (begun : Spares view first)
    (goes : ∀ a, Spares view (f a)) : Spares view (first >>= f) := by
  intro s
  rw [bind_apply, goes, begun]

theorem andThen {ε : Type} {first : StateM σ (Except ε α)} {f : Except ε α → StateM σ β}
    (begun : Spares view first) (stops : ∀ e, Spares view (f (.error e)))
    (goes : ∀ a, Spares view (f (.ok a))) : Spares view (first >>= f) := by
  refine begun.bind fun outcome => ?_
  cases outcome with
  | error e => exact stops e
  | ok a => exact goes a

end Spares

def SparesUnless {α δ : Type} (late : α → Prop) (view : σ → δ) (computation : StateM σ α) : Prop :=
  ∀ s, view (computation s).2 = view s ∨ late (computation s).1

namespace SparesUnless

variable {α β δ : Type} {view : σ → δ} {late : β → Prop}

theorem of_spares {computation : StateM σ β} (spares : Spares view computation) :
    SparesUnless late view computation := fun s => .inl (spares s)

theorem of_yields {computation : StateM σ β} (yields : Yields late computation) :
    SparesUnless late view computation := fun s => .inr (yields s)

theorem bind {first : StateM σ α} {f : α → StateM σ β} (begun : Spares view first)
    (goes : ∀ a, SparesUnless late view (f a)) : SparesUnless late view (first >>= f) := by
  intro s
  rw [bind_apply, ← begun s]
  exact goes _ _

theorem andThen {ε : Type} {first : StateM σ (Except ε α)} {f : Except ε α → StateM σ β}
    (begun : Spares view first) (stops : ∀ e, Spares view (f (.error e)))
    (goes : ∀ a, SparesUnless late view (f (.ok a))) : SparesUnless late view (first >>= f) := by
  refine bind begun fun outcome => ?_
  cases outcome with
  | error e => exact of_spares (stops e)
  | ok a => exact goes a

end SparesUnless

/-- Run from related states, two computations give related values and leave related states. -/
def Simulates {τ α β : Type} (states : σ → τ → Prop) (values : α → β → Prop)
    (first : StateM σ α) (second : StateM τ β) : Prop :=
  ∀ s t, states s t → values (first s).1 (second t).1 ∧ states (first s).2 (second t).2

namespace Simulates

variable {τ α β : Type} {states : σ → τ → Prop}

theorem pure {values : α → β → Prop} {a : α} {b : β} (related : values a b) :
    Simulates states values (Pure.pure a) (Pure.pure b) :=
  fun _ _ together => ⟨related, together⟩

theorem bind {γ δ : Type} {values : α → β → Prop} {others : γ → δ → Prop} {first : StateM σ α}
    {second : StateM τ β} {f : α → StateM σ γ} {g : β → StateM τ δ}
    (begun : Simulates states values first second)
    (goes : ∀ a b, values a b → Simulates states others (f a) (g b)) :
    Simulates states others (first >>= f) (second >>= g) := by
  intro s t together
  obtain ⟨related, after⟩ := begun s t together
  exact goes _ _ related _ _ after

theorem andThen {ε δ γ ρ : Type} {others : γ → ρ → Prop} {first : StateM σ (Except ε α)}
    {second : StateM τ (Except δ α)} {f : Except ε α → StateM σ γ} {g : Except δ α → StateM τ ρ}
    (begun : Simulates states Alike first second)
    (goes : ∀ a, Simulates states others (f (.ok a)) (g (.ok a)))
    (stops : ∀ e d, Simulates states others (f (.error e)) (g (.error d))) :
    Simulates states others (first >>= f) (second >>= g) := by
  apply begun.bind
  intro a b alike
  obtain ⟨value, rfl, rfl⟩ | ⟨e, d, rfl, rfl⟩ := alike.cases
  · exact goes value
  · exact stops e d

theorem onward {γ δ : Type} {others : γ → δ → Prop} {first : StateM σ α} {second : StateM τ α}
    {f : α → StateM σ γ} {g : α → StateM τ δ} (alike : Simulates states (· = ·) first second)
    (goes : ∀ a, Simulates states others (f a) (g a)) :
    Simulates states others (first >>= f) (second >>= g) := by
  apply alike.bind
  intro a b same
  rw [← same]
  exact goes a

theorem map {first : StateM σ α} {second : StateM τ α}
    (alike : Simulates states (· = ·) first second) (f : α → β) :
    Simulates states (· = ·) (first >>= fun a => Pure.pure (f a))
      (second >>= fun a => Pure.pure (f a)) :=
  alike.onward fun _ => pure rfl

theorem mapM {ι : Type} {f : ι → StateM σ α} {g : ι → StateM τ α}
    (each : ∀ i, Simulates states (· = ·) (f i) (g i)) (inputs : List ι) :
    Simulates states (· = ·) (inputs.mapM f) (inputs.mapM g) := by
  induction inputs with
  | nil => exact pure rfl
  | cons i inputs ih =>
    rw [List.mapM_cons, List.mapM_cons]
    exact (each i).onward fun _ => ih.map _

end Simulates

end State
end Scaffold
