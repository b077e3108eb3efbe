/-!
Dictionaries kept in key order. `ext` says that two dictionaries with the same answers are the same
dictionary; `get?_insert` and `get?_erase` say what the two changes do to the answers.
-/
set_option linter.unusedSectionVars false

namespace Scaffold

variable {κ ν : Type}

/-- Entries in strictly increasing key order. -/
structure Dict (κ ν : Type) [LT κ] where
  entries : List (κ × ν)
  ordered : entries.Pairwise (fun a b => a.1 < b.1)

namespace Dict

section Definitions
variable [LT κ]

instance [DecidableEq κ] [DecidableEq ν] : DecidableEq (Dict κ ν) := fun a b =>
  if same : a.entries = b.entries then
    isTrue (by cases a; cases b; simp_all)
  else
    isFalse (fun equal => same (equal ▸ rfl))

def empty : Dict κ ν := ⟨[], .nil⟩

instance : Inhabited (Dict κ ν) := ⟨empty⟩

def keys (d : Dict κ ν) : List κ := d.entries.map (·.1)

def size (d : Dict κ ν) : Nat := d.entries.length

def get? [DecidableEq κ] (d : Dict κ ν) (key : κ) : Option ν := d.entries.lookup key

def contains [DecidableEq κ] (d : Dict κ ν) (key : κ) : Bool := (d.get? key).isSome

def erase [DecidableEq κ] (d : Dict κ ν) (key : κ) : Dict κ ν :=
  ⟨d.entries.filter (fun entry => entry.1 ≠ key), d.ordered.filter _⟩

def insertEntry [DecidableLT κ] (key : κ) (value : ν) : List (κ × ν) → List (κ × ν)
  | [] => [(key, value)]
  | entry :: rest =>
    if key < entry.1 then (key, value) :: entry :: rest
    else if entry.1 < key then entry :: insertEntry key value rest
    else (key, value) :: rest

end Definitions

section Order
variable [LT κ] [LE κ] [DecidableLT κ] [Std.LawfulOrderLT κ] [Std.IsLinearOrder κ]

theorem fst_of_mem_insertEntry {key : κ} {value : ν} {entries : List (κ × ν)} {entry : κ × ν}
    (present : entry ∈ insertEntry key value entries) : entry.1 = key ∨ entry ∈ entries := by
  induction entries with
  | nil => simp_all [insertEntry]
  | cons head rest ih =>
    simp only [insertEntry] at present
    split at present
    · rcases List.mem_cons.mp present with rfl | present
      · exact .inl rfl
      · exact .inr present
    · split at present
      · rcases List.mem_cons.mp present with rfl | present
        · exact .inr (by simp)
        · rcases ih present with same | present
          · exact .inl same
          · exact .inr (by simp [present])
      · rcases List.mem_cons.mp present with rfl | present
        · exact .inl rfl
        · exact .inr (by simp [present])

theorem ordered_insertEntry (key : κ) (value : ν) {entries : List (κ × ν)}
    (ordered : entries.Pairwise (fun a b => a.1 < b.1)) :
    (insertEntry key value entries).Pairwise (fun a b => a.1 < b.1) := by
  induction entries with
  | nil => simp [insertEntry]
  | cons head rest ih =>
    obtain ⟨below, ordered⟩ := List.pairwise_cons.mp ordered
    simp only [insertEntry]
    split
    next before =>
      refine List.pairwise_cons.mpr ⟨?_, List.pairwise_cons.mpr ⟨below, ordered⟩⟩
      intro entry present
      rcases List.mem_cons.mp present with rfl | present
      · exact before
      · exact Std.lt_trans before (below entry present)
    next notBefore =>
      split
      next after =>
        refine List.pairwise_cons.mpr ⟨?_, ih ordered⟩
        intro entry present
        rcases fst_of_mem_insertEntry present with same | present
        · exact same ▸ after
        · exact below entry present
      next notAfter =>
        have same : key = head.1 := by
          rcases Std.lt_trichotomy key head.1 with before | same | after
          · exact absurd before notBefore
          · exact same
          · exact absurd after notAfter
        exact List.pairwise_cons.mpr ⟨fun entry present => same ▸ below entry present, ordered⟩

def insert (d : Dict κ ν) (key : κ) (value : ν) : Dict κ ν :=
  ⟨insertEntry key value d.entries, ordered_insertEntry key value d.ordered⟩

/-- The last of several entries with one key wins. -/
def ofList (entries : List (κ × ν)) : Dict κ ν :=
  entries.foldl (fun d entry => d.insert entry.1 entry.2) empty

variable [DecidableEq κ]

theorem lookup_cons_self_or (key : κ) (entry : κ × ν) (rest : List (κ × ν)) :
    (entry :: rest).lookup key = if key = entry.1 then some entry.2 else rest.lookup key := by
  obtain ⟨k, v⟩ := entry
  by_cases same : key = k
  · simp [same]
  · simp [List.lookup_cons, same, beq_false_of_ne same]

theorem lookup_insertEntry (key query : κ) (value : ν) (entries : List (κ × ν)) :
    (insertEntry key value entries).lookup query =
      if query = key then some value else entries.lookup query := by
  induction entries with
  | nil => simp [insertEntry, lookup_cons_self_or]
  | cons head rest ih =>
    simp only [insertEntry]
    split
    next => rw [lookup_cons_self_or]
    next notBefore =>
      split
      next after =>
        rw [lookup_cons_self_or, lookup_cons_self_or, ih]
        by_cases here : query = head.1
        · subst here
          have apart : head.1 ≠ key := fun same => Std.lt_irrefl (same ▸ after)
          simp [apart]
        · simp [here]
      next notAfter =>
        have same : key = head.1 := by
          rcases Std.lt_trichotomy key head.1 with before | same | after
          · exact absurd before notBefore
          · exact same
          · exact absurd after notAfter
        rw [lookup_cons_self_or, lookup_cons_self_or, same]
        by_cases here : query = head.1 <;> simp [here]

@[simp] theorem get?_insert (d : Dict κ ν) (key query : κ) (value : ν) :
    (d.insert key value).get? query = if query = key then some value else d.get? query :=
  lookup_insertEntry key query value d.entries

@[simp] theorem get?_empty (query : κ) : (empty : Dict κ ν).get? query = none := rfl

theorem lookup_filter_ne (key query : κ) (entries : List (κ × ν)) :
    (entries.filter (fun entry => entry.1 ≠ key)).lookup query =
      if query = key then none else entries.lookup query := by
  induction entries with
  | nil => simp
  | cons head rest ih =>
    by_cases erased : head.1 = key
    · rw [List.filter_cons_of_neg (by simp [erased]), ih, lookup_cons_self_or]
      by_cases here : query = key <;> simp [here, erased]
    · rw [List.filter_cons_of_pos (by simp [erased]), lookup_cons_self_or, ih, lookup_cons_self_or]
      by_cases here : query = head.1
      · subst here; simp [erased]
      · simp [here]

@[simp] theorem get?_erase (d : Dict κ ν) (key query : κ) :
    (d.erase key).get? query = if query = key then none else d.get? query :=
  lookup_filter_ne key query d.entries

theorem lookup_eq_some_iff {entries : List (κ × ν)}
    (ordered : entries.Pairwise (fun a b => a.1 < b.1)) {key : κ} {value : ν} :
    entries.lookup key = some value ↔ (key, value) ∈ entries := by
  induction entries with
  | nil => simp
  | cons head rest ih =>
    obtain ⟨below, ordered⟩ := List.pairwise_cons.mp ordered
    rw [lookup_cons_self_or]
    by_cases here : key = head.1
    · subst here
      obtain ⟨k, v⟩ := head
      have absent : (k, value) ∉ rest := fun present => Std.lt_irrefl (below (k, value) present)
      simp [absent, eq_comm]
    · have apart : (key, value) ≠ head := fun same => here (same ▸ rfl)
      simp [here, ih ordered, apart]

theorem get?_eq_some_iff {d : Dict κ ν} {key : κ} {value : ν} :
    d.get? key = some value ↔ (key, value) ∈ d.entries :=
  lookup_eq_some_iff d.ordered

theorem contains_iff_mem_keys {d : Dict κ ν} {key : κ} : d.contains key = true ↔ key ∈ d.keys := by
  simp only [contains, Option.isSome_iff_exists, get?_eq_some_iff, keys, List.mem_map]
  constructor
  · rintro ⟨value, present⟩
    exact ⟨_, present, rfl⟩
  · rintro ⟨⟨k, value⟩, present, rfl⟩
    exact ⟨value, present⟩

theorem pairwise_keys (d : Dict κ ν) : d.keys.Pairwise (· < ·) :=
  List.pairwise_map.mpr d.ordered

theorem nodup_keys (d : Dict κ ν) : d.keys.Nodup := by
  apply d.pairwise_keys.imp
  intro a b before same
  rw [same] at before
  exact Std.lt_irrefl before

theorem eq_of_mem_iff {a b : List (κ × ν)} (orderedA : a.Pairwise (fun a b => a.1 < b.1))
    (orderedB : b.Pairwise (fun a b => a.1 < b.1)) (same : ∀ entry, entry ∈ a ↔ entry ∈ b) :
    a = b := by
  induction a generalizing b with
  | nil =>
    cases b with
    | nil => rfl
    | cons head rest => exact absurd ((same head).mpr (by simp)) (by simp)
  | cons x xs ih =>
    cases b with
    | nil => exact absurd ((same x).mp (by simp)) (by simp)
    | cons y ys =>
      obtain ⟨belowX, orderedX⟩ := List.pairwise_cons.mp orderedA
      obtain ⟨belowY, orderedY⟩ := List.pairwise_cons.mp orderedB
      have heads : x = y := by
        rcases List.mem_cons.mp ((same x).mp (by simp)) with equal | inYs
        · exact equal
        · rcases List.mem_cons.mp ((same y).mpr (by simp)) with equal | inXs
          · exact equal.symm
          · exact absurd (Std.lt_trans (belowX y inXs) (belowY x inYs)) Std.lt_irrefl
      subst heads
      have notX : x ∉ xs := fun present => Std.lt_irrefl (belowX x present)
      have notY : x ∉ ys := fun present => Std.lt_irrefl (belowY x present)
      congr 1
      refine ih orderedX orderedY fun entry => ?_
      have := same entry
      simp only [List.mem_cons] at this
      by_cases here : entry = x
      · subst here; simp [notX, notY]
      · simpa [here] using this

theorem ext {a b : Dict κ ν} (same : ∀ key, a.get? key = b.get? key) : a = b := by
  have entries : a.entries = b.entries :=
    eq_of_mem_iff a.ordered b.ordered fun ⟨key, value⟩ => by
      rw [← get?_eq_some_iff, ← get?_eq_some_iff, same]
  cases a; cases b; simp_all

theorem get?_foldl_insert {entries : List (κ × ν)}
    (ordered : entries.Pairwise (fun a b => a.1 < b.1)) (d : Dict κ ν) (key : κ) :
    (entries.foldl (fun d entry => d.insert entry.1 entry.2) d).get? key =
      (entries.lookup key).or (d.get? key) := by
  induction entries generalizing d with
  | nil => rfl
  | cons head rest ih =>
    obtain ⟨below, ordered⟩ := List.pairwise_cons.mp ordered
    rw [List.foldl_cons, ih ordered, get?_insert, lookup_cons_self_or]
    by_cases here : key = head.1
    · have absent : rest.lookup key = none := by
        rw [Option.eq_none_iff_forall_not_mem]
        intro value found
        have before := below _ ((lookup_eq_some_iff ordered).mp found)
        exact Std.lt_irrefl (here ▸ before)
      simp [here, here ▸ absent]
    · simp [here]

theorem ofList_entries (d : Dict κ ν) : ofList d.entries = d := by
  apply ext
  intro key
  rw [ofList, get?_foldl_insert d.ordered, get?_empty, Option.or_none, get?]

theorem get?_ofList_eq_some_iff {entries : List (κ × ν)} {key : κ} {value : ν} :
    (ofList entries).get? key = some value ↔ ∃ before after,
      entries = before ++ (key, value) :: after ∧ ∀ entry ∈ after, entry.1 ≠ key := by
  have found (d : Dict κ ν) : (entries.foldl (fun d entry => d.insert entry.1 entry.2) d).get? key =
      (entries.reverse.lookup key).or (d.get? key) := by
    induction entries generalizing d with
    | nil => rfl
    | cons entry rest ih =>
      rw [List.foldl_cons, ih, get?_insert, List.reverse_cons, List.lookup_append,
        lookup_cons_self_or, List.lookup_nil]
      cases rest.reverse.lookup key <;> by_cases here : key = entry.1 <;> simp [here]
  rw [ofList, found, get?_empty, Option.or_none, List.lookup_eq_some_iff]
  constructor
  · rintro ⟨after, before, split, apart⟩
    refine ⟨before.reverse, after.reverse, ?_, ?_⟩
    · simpa using congrArg List.reverse split
    · intro entry member
      have differs := apart entry (List.mem_reverse.mp member)
      exact fun same => by simp [same] at differs
  · rintro ⟨before, after, split, apart⟩
    refine ⟨after.reverse, before.reverse, by simp [split], ?_⟩
    intro entry member
    have differs := apart entry (List.mem_reverse.mp member)
    simpa using Ne.symm differs

end Order
end Dict
end Scaffold
