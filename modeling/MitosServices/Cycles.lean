import Mathlib.Order.WellFounded
import Mathlib.Data.Fintype.Order

/-! Cycles of a relation and the elements from which they can be reached: a finite set whose
elements all have a successor in it reaches one from everywhere, a list in which successors come
first reaches none. -/
namespace Cycles
open Relation

variable {α : Type} {R : α → α → Prop} {a b : α}

def ReachesCycle (R : α → α → Prop) (a : α) : Prop := ∃ b, ReflTransGen R a b ∧ TransGen R b b

theorem reachesCycle_next (reaches : ReachesCycle R a) : ∃ b, R a b ∧ ReachesCycle R b := by
  obtain ⟨c,path,cycle⟩ := reaches
  rcases ReflTransGen.cases_head path with rfl | ⟨b,step,rest⟩
  · obtain ⟨b,step,back⟩ := TransGen.head'_iff.mp cycle
    exact ⟨b,step,a,back,cycle⟩
  · exact ⟨b,step,c,rest,cycle⟩

/-- From a finite set that every element goes on in, a cycle is reached. -/
theorem reachesCycle_of_successors {T : Set α} (finite : T.Finite) (goes : ∀ a ∈ T, ∃ b ∈ T, R a b)
    (member : a ∈ T) : ReachesCycle R a := by
  by_contra unreached
  let within : Set α := {b ∈ T | ReflTransGen R a b}
  have few : Finite within := (finite.subset fun _ there => there.1).to_subtype
  let further (x y : within) : Prop := TransGen R y.1 x.1
  have trans : IsTrans within further := ⟨fun x y z xy yz => yz.trans xy⟩
  have irrefl : Std.Irrefl further := ⟨fun x cycle => unreached ⟨x.1,x.2.2,cycle⟩⟩
  have ends : WellFounded further := Finite.wellFounded_of_trans_of_irrefl further
  obtain ⟨last,-,final⟩ := ends.has_min Set.univ ⟨⟨a,member,.refl⟩,trivial⟩
  obtain ⟨next,there,step⟩ := goes last.1 last.2.1
  exact final ⟨next,there,last.2.2.tail step⟩ trivial (.single step)

/-- Every element of the list has its successors before it. -/
def SuccessorsFirst (R : α → α → Prop) (list : List α) : Prop :=
  ∀ before a after, list = before ++ a :: after → ∀ b, R a b → b ∈ before

theorem successorsFirst_append {front back : List α} (first : SuccessorsFirst R (front ++ back)) :
    SuccessorsFirst R front := by
  intro before a after split b step
  apply first before a (after ++ back) _ b step
  rw [split,List.append_assoc,List.cons_append]

theorem not_reachesCycle {list : List α} (first : SuccessorsFirst R list) (member : a ∈ list) :
    ¬ ReachesCycle R a := by
  induction list using List.reverseRecOn generalizing a with
  | nil => contradiction
  | append_singleton front last ih =>
    have earlier : ∀ a ∈ front, ¬ ReachesCycle R a :=
      fun _ there => ih (successorsFirst_append first) there
    rcases List.mem_append.mp member with there | here
    · exact earlier a there
    · intro reaches
      obtain rfl := List.mem_singleton.mp here
      obtain ⟨b,step,onward⟩ := reachesCycle_next reaches
      exact earlier b (first front a [] rfl b step) onward

end Cycles
