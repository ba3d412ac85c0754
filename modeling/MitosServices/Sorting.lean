import MitosServices.Cycles
import MitosServices.Ordering
import MitosServices.Interaction.Run

/-! The starting order of any configuration: the loop ends, whatever it is given, and everything
that can come after its dependencies does. What is left reaches a cycle. -/
namespace MitosServices.Sorting
open Interaction Cycles

structure Loop where
  remaining : List ServiceDef
  placed : List String
  ordered : List ServiceDef

namespace Loop
variable {names : List String} {s : Loop} {order : List ServiceDef}

def turn (names : List String) (s : Loop) : Loop :=
  match s.remaining.find? (readyToPlace names s.placed) with
  | some d => ⟨s.remaining.eraseP (readyToPlace names s.placed),d.name :: s.placed,s.ordered ++ [d]⟩
  | none => ⟨[],s.placed,s.ordered ++ s.remaining⟩

def EndsWith (names : List String) (s : Loop) (order : List ServiceDef) : Prop :=
  ∃ n, ((turn names)^[n] s).remaining = [] ∧ ((turn names)^[n] s).ordered = order

theorem turn_done (done : s.remaining = []) : turn names s = s := by
  obtain ⟨remaining,placed,ordered⟩ := s
  obtain rfl : remaining = [] := done
  simp [turn]

theorem iterate_done (done : s.remaining = []) (n : Nat) : (turn names)^[n] s = s :=
  Function.iterate_fixed (turn_done done) n

theorem endsWith_unique {other : List ServiceDef} (ends : EndsWith names s order)
    (ends' : EndsWith names s other) : order = other := by
  obtain ⟨n,done,rfl⟩ := ends
  obtain ⟨n',done',rfl⟩ := ends'
  have left := Function.iterate_add_apply (turn names) n' n s
  have right := Function.iterate_add_apply (turn names) n n' s
  rw [iterate_done done] at left
  rw [iterate_done done',Nat.add_comm,left] at right
  rw [right]

theorem length_eraseP_find {p : ServiceDef → Bool} {remaining : List ServiceDef} {d : ServiceDef}
    (found : remaining.find? p = some d) : (remaining.eraseP p).length + 1 = remaining.length := by
  have member := List.mem_of_find?_eq_some found
  have accepted := List.find?_some found
  have shorter := List.length_eraseP_of_mem member accepted
  have nonempty := List.length_pos_of_mem member
  omega

/-- As many turns as there are services do, and what they come to is what `place` computes. -/
theorem iterate_place {fuel : Nat} (enough : s.remaining.length ≤ fuel) :
    ((turn names)^[fuel] s).remaining = [] ∧ ((turn names)^[fuel] s).ordered =
      (place names fuel s.remaining s.placed s.ordered).1 ++
        (place names fuel s.remaining s.placed s.ordered).2 := by
  induction fuel generalizing s with
  | zero =>
    have empty : s.remaining = [] := List.length_eq_zero_iff.mp (Nat.le_zero.mp enough)
    simp [place,empty]
  | succ fuel ih =>
    rw [Function.iterate_succ_apply]
    cases found : s.remaining.find? (readyToPlace names s.placed) with
    | some d =>
      have turned : turn names s = ⟨s.remaining.eraseP (readyToPlace names s.placed),d.name :: s.placed,
          s.ordered ++ [d]⟩ := by
        simp only [turn,found]
      have shorter := length_eraseP_find found
      have rest := ih (s := turn names s) (by rw [turned]; dsimp only; omega)
      rw [place,found]
      rw [turned] at rest ⊢
      exact rest
    | none =>
      have turned : turn names s = ⟨[],s.placed,s.ordered ++ s.remaining⟩ := by
        simp only [turn,found]
      rw [place,found,turned,iterate_done rfl]
      exact ⟨rfl,rfl⟩

end Loop

/-- The loop ends, with the starting order. -/
theorem endsWith_iff {defs order : List ServiceDef} :
    Loop.EndsWith (defs.map ServiceDef.name) ⟨defs,[],[]⟩ order ↔ order = startingOrder defs := by
  have ends : Loop.EndsWith (defs.map ServiceDef.name) ⟨defs,[],[]⟩ (startingOrder defs) :=
    ⟨defs.length,Loop.iterate_place (Nat.le_refl _)⟩
  constructor
  · intro other
    exact Loop.endsWith_unique other ends
  · intro same
    exact same ▸ ends

section Placing
variable {names placed : List String} {ordered remaining : List ServiceDef} {d : ServiceDef}

/-- What has been placed, each service after those it waits for. -/
structure Placing (names placed : List String) (ordered : List ServiceDef) : Prop where
  placed : ∀ n, n ∈ placed ↔ n ∈ ordered.map ServiceDef.name
  first : ∀ before d after, ordered = before ++ d :: after → ∀ dep ∈ d.after, dep ∈ names →
    dep ∈ before.map ServiceDef.name

theorem placing_nil : Placing names [] [] where
  placed _ := Iff.rfl
  first before d after split := by
    cases before <;> contradiction

theorem ready_iff : readyToPlace names placed d = true ↔ ∀ dep ∈ d.after, dep ∈ names → dep ∈ placed := by
  simp only [readyToPlace,List.all_eq_true,Bool.or_eq_true,Bool.not_eq_true',
    List.contains_eq_mem,decide_eq_true_eq,decide_eq_false_iff_not]
  constructor
  · intro all dep member known
    exact (all dep member).resolve_right (not_not.mpr known)
  · intro all dep member
    by_cases known : dep ∈ names
    · exact .inl (all dep member known)
    · exact .inr known

theorem placing_snoc (placing : Placing names placed ordered) (ready : readyToPlace names placed d = true) :
    Placing names (d.name :: placed) (ordered ++ [d]) := by
  constructor
  · intro n
    rw [List.map_append,List.mem_cons,List.mem_append,placing.placed n]
    simp only [List.map_cons,List.map_nil,List.mem_singleton]
    exact or_comm
  · intro before d' after split dep member known
    rcases List.append_eq_append_iff.mp split with ⟨more,rfl,rest⟩ | ⟨more,earlier,rest⟩
    · cases more with
      | nil =>
        obtain ⟨rfl,-⟩ := List.cons.inj rest
        rw [List.append_nil]
        exact (placing.placed dep).mp (ready_iff.mp ready dep member known)
      | cons x more =>
        have long := (List.cons.inj rest).2
        simp at long
    · cases more with
      | nil =>
        rw [List.append_nil] at earlier
        obtain ⟨rfl,-⟩ := List.cons.inj rest
        exact earlier ▸ (placing.placed dep).mp (ready_iff.mp ready dep member known)
      | cons x more =>
        obtain ⟨rfl,-⟩ := List.cons.inj rest
        exact placing.first before d' more earlier dep member known

/-- With enough turns, what is left is as listed, and each of it waits for something else left. -/
theorem place_spec {fuel : Nat} (enough : remaining.length ≤ fuel) (placing : Placing names placed ordered) :
    Placing names ((place names fuel remaining placed ordered).1.map ServiceDef.name)
        (place names fuel remaining placed ordered).1 ∧
      (place names fuel remaining placed ordered).2.Sublist remaining ∧
      ∀ d ∈ (place names fuel remaining placed ordered).2, ∃ dep ∈ d.after, dep ∈ names ∧
        dep ∉ (place names fuel remaining placed ordered).1.map ServiceDef.name := by
  induction fuel generalizing remaining placed ordered with
  | zero =>
    have empty : remaining = [] := List.length_eq_zero_iff.mp (Nat.le_zero.mp enough)
    rw [empty]
    exact ⟨⟨fun _ => Iff.rfl,placing.first⟩,.refl _,fun _ member => absurd member List.not_mem_nil⟩
  | succ fuel ih =>
    cases found : remaining.find? (readyToPlace names placed) with
    | some d =>
      have shorter := Loop.length_eraseP_find found
      have fits : (remaining.eraseP (readyToPlace names placed)).length ≤ fuel := by omega
      obtain ⟨placing,listed,stuck⟩ := ih fits (placing_snoc placing (List.find?_some found))
      rw [place,found]
      exact ⟨placing,listed.trans List.eraseP_sublist,stuck⟩
    | none =>
      rw [place,found]
      refine ⟨⟨fun _ => Iff.rfl,placing.first⟩,.refl _,?_⟩
      intro d member
      have waits := List.find?_eq_none.mp found d member
      rw [ready_iff] at waits
      simp only [not_forall] at waits
      obtain ⟨dep,there,known,missing⟩ := waits
      exact ⟨dep,there,known,fun placed => missing ((placing.placed dep).mpr placed)⟩

end Placing

def Dependency (defs : List ServiceDef) (d : ServiceDef) (dep : String) : Prop :=
  dep ∈ d.after ∨ dep ∈ d.requires ∨ dep ∈ d.wants ∨ ∃ other ∈ defs, d.name ∈ other.before ∧ other.name = dep

def DependsOn (defs : List ServiceDef) (a b : String) : Prop :=
  b ∈ defs.map ServiceDef.name ∧ ∃ d ∈ defs, d.name = a ∧ Dependency defs d b

def Extends (extended d : ServiceDef) : Prop := Alike extended d ∧ d.after <+: extended.after

section Extended
variable {defs : List ServiceDef} {d : ServiceDef}

theorem prefix_foldl_pushMissing (added after : List String) : after <+: added.foldl pushMissing after := by
  induction added generalizing after with
  | nil => exact List.prefix_rfl
  | cons dep rest ih =>
    have pushed : after <+: pushMissing after dep := by
      unfold pushMissing
      split
      · exact List.prefix_rfl
      · exact List.prefix_append _ _
    exact pushed.trans (ih _)

theorem extends_folded (defs : List ServiceDef) (d : ServiceDef) : Extends (folded defs d) d :=
  ⟨rfl,prefix_foldl_pushMissing _ _⟩

theorem mem_folded_after {dep : String} : dep ∈ (folded defs d).after ↔ Dependency defs d dep := by
  unfold folded Dependency
  rw [mem_foldl_pushMissing,mem_foldedInto,List.mem_append,or_assoc]

theorem extends_injectAfter {target source : String} {extended : List ServiceDef}
    (all : List.Forall₂ Extends extended defs) : List.Forall₂ Extends (injectAfter target source extended) defs := by
  induction all with
  | nil => exact .nil
  | @cons extended d rest defs here all ih =>
    unfold injectAfter
    split
    · refine .cons ⟨here.1,here.2.trans ?_⟩ all
      exact prefix_foldl_pushMissing [source] extended.after
    · exact .cons here ih

/-- With repeated names too, only the `after` lists change. -/
theorem extends_effectiveAfter (defs : List ServiceDef) : List.Forall₂ Extends (effectiveAfter defs) defs := by
  have start : List.Forall₂ Extends (defs.map foldRequiresWants) defs := by
    apply List.forall₂_map_left_iff.mpr
    apply List.forall₂_same.mpr
    intro d _
    exact ⟨rfl,prefix_foldl_pushMissing _ _⟩
  unfold effectiveAfter
  generalize defs.map foldRequiresWants = extended at start
  induction beforePairs defs generalizing extended with
  | nil => exact start
  | cons pair pairs ih => exact ih _ (extends_injectAfter start)

end Extended

/-- What the starting order of a configuration with distinct names is to be. -/
structure Sorted (defs order : List ServiceDef) : Prop where
  perm : order.Perm (defs.map (folded defs))
  extended : ∀ d ∈ defs, Extends (folded defs d) d ∧
    ∀ dep, dep ∈ (folded defs d).after ↔ Dependency defs d dep
  parts : ∃ front tail, order = front ++ tail ∧
    SuccessorsFirst (DependsOn defs) (front.map ServiceDef.name) ∧ tail.Sublist (defs.map (folded defs)) ∧
    ∀ d ∈ defs, d.name ∈ tail.map ServiceDef.name ↔ ReachesCycle (DependsOn defs) d.name
  acyclic : (∀ name, ¬ Relation.TransGen (DependsOn defs) name name) →
    SuccessorsFirst (DependsOn defs) (order.map ServiceDef.name)

section Distinct
variable {defs front tail : List ServiceDef} {d : ServiceDef}

theorem names_folded (defs : List ServiceDef) :
    (defs.map (folded defs)).map ServiceDef.name = defs.map ServiceDef.name := by
  rw [List.map_map]
  rfl

/-- With distinct names a name's dependencies are those of the one service that has it. -/
theorem dependency_of_dependsOn {dep : String} (distinct : (defs.map ServiceDef.name).Nodup) (member : d ∈ defs)
    (depends : DependsOn defs d.name dep) : dep ∈ (folded defs d).after := by
  obtain ⟨-,other,listed,named,dependency⟩ := depends
  obtain rfl := List.inj_on_of_nodup_map distinct listed member named
  exact mem_folded_after.mpr dependency

theorem successorsFirst_placed (distinct : (defs.map ServiceDef.name).Nodup)
    (listed : ∀ d ∈ front, ∃ d' ∈ defs, folded defs d' = d)
    (placing : Placing (defs.map ServiceDef.name) (front.map ServiceDef.name) front) :
    SuccessorsFirst (DependsOn defs) (front.map ServiceDef.name) := by
  intro before name after split dep depends
  obtain ⟨l,rest,rfl,rfl,more⟩ := List.map_eq_append_iff.mp split
  obtain ⟨d,r,rfl,rfl,rfl⟩ := List.map_eq_cons_iff.mp more
  obtain ⟨d',member,rfl⟩ := listed d (by simp)
  apply placing.first l (folded defs d') r rfl dep _ depends.1
  exact dependency_of_dependsOn distinct member depends

theorem reachesCycle_left (listed : ∀ d ∈ tail, ∃ d' ∈ defs, folded defs d' = d)
    (stuck : ∀ d ∈ tail, ∃ dep ∈ d.after, dep ∈ defs.map ServiceDef.name ∧ dep ∈ tail.map ServiceDef.name)
    {name : String} (left : name ∈ tail.map ServiceDef.name) : ReachesCycle (DependsOn defs) name := by
  apply reachesCycle_of_successors (List.finite_toSet (tail.map ServiceDef.name)) _ left
  intro name left
  obtain ⟨d,member,rfl⟩ := List.mem_map.mp left
  obtain ⟨dep,after,known,also⟩ := stuck d member
  obtain ⟨d',listed,rfl⟩ := listed d member
  exact ⟨dep,also,known,d',listed,rfl,mem_folded_after.mp after⟩

theorem placeAll_spec (defs : List ServiceDef) :
    Placing (defs.map ServiceDef.name) ((placeAll defs).1.map ServiceDef.name) (placeAll defs).1 ∧
      (placeAll defs).2.Sublist defs ∧ ∀ d ∈ (placeAll defs).2, ∃ dep ∈ d.after,
        dep ∈ defs.map ServiceDef.name ∧ dep ∉ (placeAll defs).1.map ServiceDef.name :=
  place_spec (Nat.le_refl _) placing_nil

theorem sorted_startingOrder (distinct : (defs.map ServiceDef.name).Nodup) :
    Sorted defs (startingOrder (effectiveAfter defs)) := by
  have perm := startingOrder_perm (effectiveAfter defs)
  obtain ⟨placing,sublist,stuck⟩ := placeAll_spec (effectiveAfter defs)
  rw [effectiveAfter_eq distinct] at perm placing sublist stuck ⊢
  rw [names_folded] at placing stuck
  unfold startingOrder at perm ⊢
  generalize (placeAll (defs.map (folded defs))).1 = front at *
  generalize (placeAll (defs.map (folded defs))).2 = tail at *
  have listed : ∀ d ∈ front ++ tail, ∃ d' ∈ defs, folded defs d' = d :=
    fun d member => List.mem_map.mp (perm.mem_iff.mp member)
  have everyone : ∀ name ∈ defs.map ServiceDef.name,
      name ∈ front.map ServiceDef.name ∨ name ∈ tail.map ServiceDef.name := by
    intro name known
    rw [← names_folded,← (perm.map ServiceDef.name).mem_iff,List.map_append] at known
    exact List.mem_append.mp known
  have ordered : SuccessorsFirst (DependsOn defs) (front.map ServiceDef.name) :=
    successorsFirst_placed distinct (fun d member => listed d (List.mem_append_left _ member)) placing
  have cyclic : ∀ name ∈ tail.map ServiceDef.name, ReachesCycle (DependsOn defs) name := by
    intro name left
    apply reachesCycle_left (fun d member => listed d (List.mem_append_right _ member)) _ left
    intro d member
    obtain ⟨dep,after,known,unplaced⟩ := stuck d member
    exact ⟨dep,after,known,(everyone dep known).resolve_left unplaced⟩
  constructor
  · exact perm
  · intro d _
    exact ⟨extends_folded defs d,fun dep => mem_folded_after⟩
  · refine ⟨front,tail,rfl,ordered,sublist,?_⟩
    intro d member
    constructor
    · exact cyclic d.name
    · intro reaches
      rcases everyone d.name (List.mem_map_of_mem member) with placed | left
      · exact absurd reaches (not_reachesCycle ordered placed)
      · exact left
  · intro acyclic
    have none : tail = [] := by
      apply List.eq_nil_iff_forall_not_mem.mpr
      intro d member
      obtain ⟨name,-,cycle⟩ := cyclic d.name (List.mem_map_of_mem member)
      exact acyclic name cycle
    rw [none,List.append_nil]
    exact ordered

end Distinct

theorem topologicalOrder_returns {Env : Type} {S : Surroundings Memory Op Op.Ans Env}
    {defs order : List ServiceDef} {m m' : Memory} {e e' : Env}
    (run : Reaches S ⟨topologicalOrder defs,m,e⟩ ⟨.ret order,m',e'⟩) : order = startingOrder defs := by
  have returns : (topologicalOrder defs).wp S (fun _ _ _ => True)
      (fun order _ _ => order = startingOrder defs) m e := by
    unfold topologicalOrder
    rw [Program.wp_bind,Program.wp_provided]
    split
    · exact fun _ _ => ⟨trivial,fun _ _ _ => rfl⟩
    · exact rfl
  exact wp_returns run returns

/-- The boot's order: the loop ends with a permutation in which only `after` lists were extended, and
with distinct names what can come after its dependencies comes first, the rest as listed. -/
theorem order_right (defs : List ServiceDef) :
    (∀ order, Loop.EndsWith ((effectiveAfter defs).map ServiceDef.name) ⟨effectiveAfter defs,[],[]⟩ order ↔
      order = startingOrder (effectiveAfter defs)) ∧
    (∀ (Env : Type) (S : Surroundings Memory Op Op.Ans Env) (m m' : Memory) (e e' : Env)
      (order : List ServiceDef), Reaches S ⟨topologicalOrder (effectiveAfter defs),m,e⟩ ⟨.ret order,m',e'⟩ →
        order = startingOrder (effectiveAfter defs)) ∧
    (∃ extended, (startingOrder (effectiveAfter defs)).Perm extended ∧
      List.Forall₂ Extends extended defs) ∧
    ((defs.map ServiceDef.name).Nodup → Sorted defs (startingOrder (effectiveAfter defs))) := by
  refine ⟨fun order => endsWith_iff,?_,?_,sorted_startingOrder⟩
  · intro Env S m m' e e' order run
    exact topologicalOrder_returns run
  · exact ⟨effectiveAfter defs,startingOrder_perm _,extends_effectiveAfter defs⟩

def display : ServiceDef := { name := "display", path := "/usr/bin/display", wants := ["network"] }

def network : ServiceDef := { name := "network", path := "/sbin/net" }

/-- The display wants the network, which is listed after it. -/
theorem order_right_display : (startingOrder (effectiveAfter [display,network])).map ServiceDef.name =
    ["network","display"] ∧ Sorted [display,network] (startingOrder (effectiveAfter [display,network])) :=
  ⟨by decide,(order_right [display,network]).2.2.2 (by decide)⟩

end MitosServices.Sorting
