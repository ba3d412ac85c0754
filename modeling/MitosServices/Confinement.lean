import MitosServices.Jails

/-! A launched app for the rest of its life: whatever its program does, and whatever the processes do
that descend from it, the filter decides about every call, and no capability comes back. -/
namespace MitosServices.Isolation
open Interaction Interaction.Program

structure Process where
  noNewPrivs : Bool
  filters : List (List Bpf.Instruction)
  bounding : Finset Nat
  inheritable : Finset Nat
  permitted : Finset Nat

namespace Process

/-- What a process can make of itself short of running a program. -/
structure Narrows (p p' : Process) : Prop where
  noNewPrivs : p.noNewPrivs = true → p'.noNewPrivs = true
  filters : p.filters <:+ p'.filters
  bounding : p'.bounding ⊆ p.bounding
  inheritable : p'.inheritable ⊆ p.inheritable ∪ p.bounding
  permitted : p'.permitted ⊆ p.permitted

/-- What running a program makes of it, whatever the file says. -/
structure Executes (p p' : Process) : Prop where
  noNewPrivs : p'.noNewPrivs = p.noNewPrivs
  filters : p'.filters = p.filters
  bounding : p'.bounding = p.bounding
  inheritable : p'.inheritable = p.inheritable
  permitted : p'.permitted ⊆ p.inheritable ∪ p.bounding

inductive Becomes (p : Process) : List Process → Prop
  | narrowed {p' : Process} (narrows : p.Narrows p') : Becomes p [p']
  | executed {p' : Process} (executes : p.Executes p') : Becomes p [p']
  | forked : Becomes p [p,p]
  | exited : Becomes p []

def Admits (p : Process) (data : Seccomp.SeccompData) : Prop :=
  ∀ filter ∈ p.filters, Bpf.exec data.load filter 0 = some Seccomp.seccompRetAllow

end Process

inductive Life (first : Process) : List Process → List Seccomp.SeccompData → Prop
  | start : Life first [first] []
  | call {before after ps : List Process} {p : Process} {calls : List Seccomp.SeccompData}
      {data : Seccomp.SeccompData} (life : Life first (before ++ p :: after) calls) (admits : p.Admits data)
      (becomes : p.Becomes ps) : Life first (before ++ ps ++ after) (data :: calls)

structure Begins (k : Child) (inherited : Finset Nat) (p : Process) : Prop where
  noNewPrivs : p.noNewPrivs = k.noNewPrivs
  filters : p.filters = k.filters
  bounding : p.bounding = k.caps.bounding
  inheritable : p.inheritable = inherited
  permitted : p.permitted ⊆ inherited ∪ k.caps.bounding

section Life
variable {first p : Process} {ps : List Process} {calls : List Seccomp.SeccompData} {reachable : Finset Nat}
  {filter : List Bpf.Instruction}

structure Kept (filter : List Bpf.Instruction) (reachable : Finset Nat) (p : Process) : Prop where
  noNewPrivs : p.noNewPrivs = true
  filter : filter ∈ p.filters
  bounding : p.bounding ⊆ reachable
  inheritable : p.inheritable ⊆ reachable
  permitted : p.permitted ⊆ reachable

theorem kept_becomes (kept : Kept filter reachable p) (becomes : p.Becomes ps) : ∀ q ∈ ps, Kept filter reachable q := by
  have within : p.inheritable ∪ p.bounding ⊆ reachable := Finset.union_subset kept.inheritable kept.bounding
  cases becomes with
  | narrowed narrows =>
    intro q member
    obtain rfl := List.mem_singleton.mp member
    exact ⟨narrows.noNewPrivs kept.noNewPrivs,narrows.filters.subset kept.filter,narrows.bounding.trans kept.bounding,
      narrows.inheritable.trans within,narrows.permitted.trans kept.permitted⟩
  | executed executes =>
    intro q member
    obtain rfl := List.mem_singleton.mp member
    obtain ⟨noNewPrivs,filters,bounding,inheritable,permitted⟩ := executes
    exact ⟨noNewPrivs.trans kept.noNewPrivs,filters ▸ kept.filter,bounding ▸ kept.bounding,
      inheritable ▸ kept.inheritable,permitted.trans within⟩
  | forked =>
    intro q member
    have same : q = p := by simpa using member
    exact same ▸ kept
  | exited => exact fun q member => nomatch member

theorem kept_life (kept : Kept filter reachable first) (life : Life first ps calls) :
    (∀ p ∈ ps, Kept filter reachable p) ∧
      ∀ data ∈ calls, Bpf.exec data.load filter 0 = some Seccomp.seccompRetAllow := by
  induction life with
  | start => exact ⟨fun p member => List.mem_singleton.mp member ▸ kept,fun _ member => nomatch member⟩
  | @call before after ps p calls data life admits becomes ih =>
    have there : Kept filter reachable p := ih.1 p (by simp)
    constructor
    · intro q member
      simp only [List.mem_append] at member
      obtain (earlier | new) | later := member
      · exact ih.1 q (by simp [earlier])
      · exact kept_becomes there becomes q new
      · exact ih.1 q (by simp [later])
    · intro other member
      obtain rfl | earlier := List.mem_cons.mp member
      · exact admits filter there.filter
      · exact ih.2 other earlier

theorem allowed_iff {blocked : List Bpf.Word} {data : Seccomp.SeccompData} :
    Bpf.exec data.load (Seccomp.buildProgram blocked) 0 = some Seccomp.seccompRetAllow ↔
      data.arch = Seccomp.auditArchX8664 ∧ data.nr ∉ blocked := by
  have decided := Seccomp.verdict_eq blocked data
  rw [Seccomp.verdict] at decided
  have apart : Seccomp.seccompRetKillProcess ≠ Seccomp.seccompRetAllow ∧ Seccomp.errnoRet ≠ Seccomp.seccompRetAllow := by
    decide
  rw [decided,Option.some_inj]
  by_cases native : data.arch = Seccomp.auditArchX8664
  · by_cases listed : data.nr ∈ blocked
    · simp [native,listed,apart.2]
    · simp [native,listed]
  · simp [native,apart.1]

def forks : Seccomp.SeccompData := Seccomp.x8664Call 57 0 fun _ => 0

end Life
end MitosServices.Isolation
