import Scaffold.Proofs.Disk.Reach
import Scaffold.World

namespace Scaffold

/-- What may come to stand in a place: directories where nothing stood, anything but a link where
nothing stood, or also a file in the stead of a file. -/
inductive Change
  | makes
  | adds
  | writes

namespace Change

def Allows : Change → Option Node → Node → Prop
  | makes, old, node => old = none ∧ node = .directory
  | adds, old, node => old = none ∧ node.kind ≠ .link
  | writes, old, node =>
    node.kind ≠ .link ∧ ∀ other, old = some other → other.kind = .file ∧ node.kind = .file

variable {change : Change} {old : Option Node} {node later : Node}

theorem Allows.trans (first : change.Allows old node) (second : change.Allows (some node) later) :
    change.Allows old later := by
  cases change with
  | makes | adds => cases second.1
  | writes =>
    obtain ⟨isFile, file⟩ := second.2 node rfl
    exact ⟨second.1, fun other same => ⟨(first.2 other same).1, file⟩⟩

theorem Allows.of_makes (made : makes.Allows old node) (change : Change) :
    change.Allows old node := by
  obtain ⟨rfl, rfl⟩ := made
  cases change <;> simp [Allows, Node.kind]

theorem Allows.to_writes (added : adds.Allows old node) : writes.Allows old node := by
  obtain ⟨rfl, unlinked⟩ := added
  exact ⟨unlinked, by simp⟩

theorem Allows.file (allowed : change.Allows (some node) later) : node.kind = .file := by
  cases change with
  | makes | adds => cases allowed.1
  | writes => exact (allowed.2 node rfl).1

theorem Allows.not_link (allowed : change.Allows old node) : node.kind ≠ .link := by
  cases change with
  | makes => simp [allowed.2, Node.kind]
  | adds => exact allowed.2
  | writes => exact allowed.1

end Change

/-- On the way from `base` down to one of the targets, the target included. -/
def Location.OnWay (base : Location) (targets : List Location) (place : Location) : Prop :=
  ∃ target ∈ targets, ∃ below, below ≠ [] ∧ below <+: target ∧ place = base ++ below

theorem Location.OnWay.mono {base place : Location} {targets others : List Location}
    (onWay : base.OnWay targets place)
    (reach : ∀ target ∈ targets, ∃ other ∈ others, target <+: other) :
    base.OnWay others place := by
  obtain ⟨target, present, below, filled, within, same⟩ := onWay
  obtain ⟨other, member, further⟩ := reach target present
  exact ⟨other, member, below, filled, within.trans further, same⟩

theorem Location.not_onWay_below (base above : Location) (name : String) :
    ¬ base.OnWay [above] (base ++ above ++ [name]) := by
  rintro ⟨target, present, below, -, within, same⟩
  cases List.mem_singleton.mp present
  rw [List.append_assoc, List.append_cancel_left_eq] at same
  subst same
  have shorter := within.length_le
  simp only [List.length_append, List.length_singleton] at shorter
  omega

/-- Of the world only the disk has changed, and of the disk only places on the way to the targets,
each as it may. -/
structure Confined (change : Change) (base : Location) (targets : List Location)
    (before after : World) : Prop where
  others : after = { before with disk := after.disk }
  tree : Location.IsTree before.disk.get? .directory → Location.IsTree after.disk.get? .directory
  each : ∀ place, after.disk.get? place = before.disk.get? place ∨
    base.OnWay targets place ∧
      ∃ node, after.disk.get? place = some node ∧ change.Allows (before.disk.get? place) node

namespace Confined

variable {change finer : Change} {base place : Location} {targets more : List Location}
  {before middle after world : World} {node : Node} {root : String}

theorem refl (world : World) : Confined change base targets world world where
  others := rfl
  tree := id
  each := fun _ => .inl rfl

theorem trans (first : Confined change base targets before middle)
    (second : Confined change base targets middle after) :
    Confined change base targets before after where
  others := by rw [second.others, first.others]
  tree := fun tree => second.tree (first.tree tree)
  each := by
    intro place
    rcases first.each place with same | ⟨onWay, node, found, allowed⟩
    · rw [← same]
      exact second.each place
    · rcases second.each place with kept | ⟨_, later, foundLater, allowedLater⟩
      · exact .inr ⟨onWay, node, kept.trans found, allowed⟩
      · rw [found] at allowedLater
        exact .inr ⟨onWay, later, foundLater, allowed.trans allowedLater⟩

theorem mono (confined : Confined finer base targets before after)
    (wider : ∀ old node, finer.Allows old node → change.Allows old node)
    (reach : ∀ target ∈ targets, ∃ other ∈ more, target <+: other) :
    Confined change base more before after where
  others := confined.others
  tree := confined.tree
  each := fun place => (confined.each place).imp id
    fun ⟨onWay, node, found, allowed⟩ => ⟨onWay.mono reach, node, found, wider _ _ allowed⟩

theorem widen (confined : Confined change base targets before after) (within : targets ⊆ more) :
    Confined change base more before after :=
  confined.mono (fun _ _ allows => allows)
    fun target present => ⟨target, within present, List.prefix_rfl⟩

theorem of_makes (made : Confined .makes base targets before after) (change : Change)
    (reach : ∀ target ∈ targets, ∃ other ∈ more, target <+: other) :
    Confined change base more before after :=
  made.mono (fun _ _ allows => allows.of_makes change) reach

theorem put (onWay : base.OnWay targets place)
    (holder : world.disk.get? place.dropLast = some .directory)
    (allowed : change.Allows (world.disk.get? place) node) :
    Confined change base targets world { world with disk := world.disk.put place node } where
  others := rfl
  tree := by
    intro tree
    have vacant : world.disk.get? place ≠ some .directory := by
      intro directory
      rw [directory] at allowed
      cases allowed.file
    exact Disk.isTree_put tree holder vacant node
  each := by
    intro other
    by_cases same : other = place
    · subst same
      exact .inr ⟨onWay, node, by simp, allowed⟩
    · exact .inl (by simp [same])

theorem kept (confined : Confined change base targets before after)
    (found : before.disk.get? place = some node) (notFile : node.kind ≠ .file) :
    after.disk.get? place = some node := by
  rcases confined.each place with same | ⟨-, later, -, allowed⟩
  · exact same.trans found
  · rw [found] at allowed
    exact absurd allowed.file notFile

theorem added (confined : Confined .adds base targets before after)
    (found : before.disk.get? place = some node) : after.disk.get? place = some node := by
  rcases confined.each place with same | ⟨-, later, -, missing, -⟩
  · exact same.trans found
  · cases found.symm.trans missing

theorem aside (confined : Confined change base targets before after)
    (apart : ¬ base.OnWay targets place) : after.disk.get? place = before.disk.get? place := by
  rcases confined.each place with same | ⟨onWay, -⟩
  · exact same
  · exact absurd onWay apart

theorem outside (confined : Confined change base targets before after)
    (apart : ¬ base <+: place) : after.disk.get? place = before.disk.get? place := by
  refine confined.aside ?_
  rintro ⟨_, _, below, _, _, rfl⟩
  exact apart (List.prefix_append base below)

theorem reached (confined : Confined change base targets before after)
    (reached : Disk.Reached before.disk before.cwd root base) :
    Disk.Reached after.disk after.cwd root base where
  tree := confined.tree reached.tree
  filled := reached.filled
  leads := by
    obtain ⟨left, leads⟩ := reached.leads
    rw [confined.others]
    exact ⟨left, leads.of_kept (fun place there => confined.kept there (by decide))
      fun place target found => confined.kept found (by simp [Node.kind])⟩

end Confined
end Scaffold
