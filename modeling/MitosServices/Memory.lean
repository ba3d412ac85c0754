import Mathlib.Data.List.AList
import MitosServices.Config

/-! What the main thread keeps in memory: the supervised services by pid, the configuration in
force, the reload watch and the timers' schedule. -/
namespace MitosServices

section Table
variable {α β : Type} [DecidableEq α] {table : AList fun _ : α => β} {a b : α} {x y : β}

theorem lookup_insert_iff : (table.insert a x).lookup b = some y ↔
    b = a ∧ y = x ∨ b ≠ a ∧ table.lookup b = some y := by
  by_cases same : b = a
  · subst same
    simp [eq_comm]
  · simp [AList.lookup_insert_ne same,same]

theorem lookup_erase_iff : (table.erase a).lookup b = some y ↔ b ≠ a ∧ table.lookup b = some y := by
  by_cases same : b = a
  · subst same
    simp
  · simp [AList.lookup_erase_ne same,same]

theorem erase_absent (absent : table.lookup a = none) : table.erase a = table :=
  AList.ext (List.kerase_of_notMem_keys (AList.lookup_eq_none.mp absent))

end Table

structure Supervised where
  definition : ServiceDef
  restartTimes : List Nat
  startedAt : Nat
deriving DecidableEq, Repr

abbrev Services := AList fun _ : Int => Supervised

namespace Services

def toList (services : Services) : List (Int × Supervised) :=
  services.entries.map fun entry => (entry.1,entry.2)

theorem mem_toList {services : Services} {pid : Int} {sup : Supervised} :
    (pid,sup) ∈ services.toList ↔ services.lookup pid = some sup := by
  rw [← Option.mem_def,AList.mem_lookup_iff,toList,List.mem_map]
  constructor
  · rintro ⟨⟨p,s⟩,member,equal⟩
    cases equal
    exact member
  · intro member
    exact ⟨⟨pid,sup⟩,member,rfl⟩

def tracks (services : Services) (name : String) : Bool :=
  services.toList.any fun entry => entry.2.definition.name == name

theorem tracks_iff {services : Services} {name : String} : services.tracks name = true ↔
    ∃ pid sup, services.lookup pid = some sup ∧ sup.definition.name = name := by
  rw [tracks,List.any_eq_true]
  constructor
  · rintro ⟨⟨pid,sup⟩,member,equal⟩
    exact ⟨pid,sup,mem_toList.mp member,beq_iff_eq.mp equal⟩
  · rintro ⟨pid,sup,found,equal⟩
    exact ⟨(pid,sup),mem_toList.mpr found,beq_iff_eq.mpr equal⟩

theorem tracks_eq_false {services : Services} {name : String} : services.tracks name = false ↔
    ∀ pid sup, services.lookup pid = some sup → sup.definition.name ≠ name := by
  rw [← Bool.not_eq_true,tracks_iff]
  simp only [not_exists,not_and,ne_eq]

theorem tracks_insert {services : Services} {pid : Int} {sup : Supervised} {name : String}
    (there : Services.tracks (services.insert pid sup) name = true) :
    services.tracks name = true ∨ name = sup.definition.name := by
  obtain ⟨p,s,found,equal⟩ := tracks_iff.mp there
  rcases lookup_insert_iff.mp found with ⟨-,same⟩ | ⟨-,old⟩
  · exact .inr (same ▸ equal.symm)
  · exact .inl (tracks_iff.mpr ⟨p,s,old,equal⟩)

section Visited
variable {services : Services} {visited : List (Int × Supervised)} {name : String}

/-- What a search by name over a visit of the table finds is tracked under that name. -/
theorem find_visited {pid : Int} {sup : Supervised} (visit : visited.Perm services.toList)
    (found : visited.find? (fun entry => entry.2.definition.name == name) = some (pid,sup)) :
    services.lookup pid = some sup ∧ sup.definition.name = name := by
  have member := visit.mem_iff.mp (List.mem_of_find?_eq_some found)
  have named := List.find?_some found
  exact ⟨mem_toList.mp member,beq_iff_eq.mp named⟩

theorem find_visited_none (visit : visited.Perm services.toList)
    (absent : visited.find? (fun entry => entry.2.definition.name == name) = none) :
    services.tracks name = false := by
  rw [tracks_eq_false]
  intro pid sup found equal
  have member := visit.mem_iff.mpr (mem_toList.mpr found)
  have differs := List.find?_eq_none.mp absent (pid,sup) member
  exact differs (beq_iff_eq.mpr equal)

end Visited
end Services

structure Watch where
  deadline : Nat
  touched : List String
  previous : Config
  target : String
deriving DecidableEq, Repr

def Watch.touches (watch : Watch) (name : String) : Bool :=
  watch.touched.any fun n => n == name

structure TimerDef where
  name : String
  onBoot : Option Nat
  onActive : Option Nat
deriving DecidableEq, Repr

/-- The schedule behind `timers::STATE`, which exists from its first use on. -/
structure Timers.State where
  boot : Nat
  lastFinished : AList fun _ : String => Nat
  running : List String
  pending : AList fun _ : Int => String

structure AppInfo where
  id : String
  path : String
  args : List String
  pid : Int
  sha256 : String
deriving DecidableEq, Repr

structure Memory where
  services : Services := ∅
  cfg : Config := Config.default
  currentTarget : String := ""
  timerDefs : List TimerDef := []
  watch : Option Watch := none
  timers : Option Timers.State := none

end MitosServices
