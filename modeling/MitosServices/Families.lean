import MitosServices.Cgroups
import MitosServices.Interaction.Machine
import MitosServices.Starts

/-! The processes descended from each instance of a service, the cgroups they are in and the sweeps
that are to end them, whatever is forked around the three steps of a start. -/
namespace MitosServices.Families
open Interaction Interaction.Program

/-- A process: the instance it descends from, the directory of its cgroup, and whether it was
spawned by the main thread. -/
structure Process where
  family : Option Nat
  dir : Paths.Dir
  alive : Bool
  child : Bool
deriving DecidableEq, Repr

/-- `names` has the service of every instance so far, in the order of the starts. -/
structure Forest where
  processes : Int → Option Process := fun _ => none
  names : List String := []
  attached : Nat → Bool := fun _ => false
  swept : Nat → Bool := fun _ => false

/-- What happens of itself: a fork, an exit, a zombie taken by its own parent, and a process of no
instance. -/
inductive Event
  | fork (parent child : Int)
  | exit (pid : Int)
  | taken (pid : Int)
  | appear (pid : Int) (dir : Paths.Dir)

def cgroup (name : String) : Paths.Dir := (Cgroups.Owner.service name).cgroup

namespace Forest

def put (f : Forest) (pid : Int) (entry : Option Process) : Forest :=
  { f with processes := Function.update f.processes pid entry }

def spawned (f : Forest) (home : Paths.Dir) (origin : Origin) (pid : Int) : Forest :=
  match startedAs origin with
  | none => f.put pid (some ⟨none,home,true,true⟩)
  | some name => { f.put pid (some ⟨some f.names.length,home,true,true⟩) with names := f.names ++ [name] }

def attach (f : Forest) (name : String) (pid : Int) : Forest :=
  match f.processes pid with
  | none => f
  | some p =>
    if p.alive then
      { f.put pid (some { p with dir := cgroup name }) with
        attached := fun n => f.attached n || p.family == some n }
    else f

def cut (f : Forest) (dir : Paths.Dir) : Forest :=
  if Cgroups.killable dir then
    { f with processes := fun pid => (f.processes pid).map fun p =>
        { p with alive := p.alive && !dir.isPrefixOf p.dir } }
  else f

def sweep (f : Forest) (name : String) : Forest :=
  { f.cut (cgroup name) with swept := fun n => f.swept n || f.names[n]? == some name }

def stir : Event → Op → Memory → Forest → Option Forest
  | .fork parent child, _, _, f => (f.processes parent).bind fun p =>
    if p.alive ∧ f.processes child = none then some (f.put child (some { p with child := false })) else none
  | .exit pid, _, _, f => (f.processes pid).bind fun p =>
    if p.alive then some (f.put pid (some { p with alive := false })) else none
  | .taken pid, _, _, f => (f.processes pid).bind fun p =>
    if !p.alive ∧ !p.child then some (f.put pid none) else none
  | .appear pid dir, _, _, f =>
    if f.processes pid = none then some (f.put pid (some ⟨none,dir,true,false⟩)) else none

def answer (home : Paths.Dir) : (op : Op) → Memory → Forest → op.Ans → Option Forest
  | .spawn origin _, _, f, .ok pid =>
    if f.processes pid = none then some (f.spawned home origin pid) else none
  | .attach name pid, _, f, _ => some (f.attach name pid)
  | .killAndRemove name, _, f, _ => some (f.sweep name)
  | .killAndRemoveApp id, _, f, _ =>
    some (f.cut (Paths.resolve (Cgroups.dirUnder Apps.appsCgroupRoot id)))
  | .waitpid target _, _, f, .ok (.ended pid _) => (f.processes pid).bind fun p =>
    if !p.alive ∧ Kernel.covers target pid then some (f.put pid none) else none
  | .iterate entries, _, f, visited => if visited.Perm entries then some f else none
  | .panic, _, _, _ => none
  | _, _, f, _ => some f

def machine (home : Paths.Dir) : Machine Memory Op Op.Ans Forest Event where
  stir := stir
  answer := answer home

end Forest

section Hierarchy
variable {h : Cgroups.Hierarchy} {f : Forest} {pid : Int} {name : String} {p : Process}

def Lists (h : Cgroups.Hierarchy) (f : Forest) : Prop :=
  ∀ pid dir, (pid,dir) ∈ h ↔ ∃ p, f.processes pid = some p ∧ p.alive = true ∧ p.dir = dir

/-- A cut does to the processes what the kill of the cgroup does to the hierarchy. -/
theorem lists_cut {root : String} (lists : Lists h f) : Lists (Cgroups.killAndRemoveUnder root name h)
    (f.cut (Paths.resolve (Cgroups.dirUnder root name))) := by
  intro pid dir
  have before := lists pid dir
  unfold Cgroups.killAndRemoveUnder Forest.cut
  dsimp only
  split
  · simp only [List.mem_filter,before]
    constructor
    · rintro ⟨⟨p,found,alive,rfl⟩,outside⟩
      refine ⟨{ p with alive := p.alive && !(Paths.resolve (Cgroups.dirUnder root name)).isPrefixOf p.dir },?_,?_,rfl⟩
      · rw [found,Option.map_some]
      · simp only [alive,outside,Bool.and_self]
    · rintro ⟨_,found,alive,rfl⟩
      obtain ⟨p,there,rfl⟩ := Option.map_eq_some_iff.mp found
      simp only [Bool.and_eq_true] at alive
      exact ⟨⟨p,there,alive.1,rfl⟩,alive.2⟩
  · exact before

theorem lists_sweep (lists : Lists h f) :
    Lists (Cgroups.killAndRemoveUnder Cgroups.cgroupRoot name h) (f.sweep name) := lists_cut lists

theorem lists_attach (lists : Lists h f) (found : f.processes pid = some p) (alive : p.alive = true) :
    Lists (Cgroups.attachUnder Cgroups.cgroupRoot name pid h) (f.attach name pid) := by
  intro q dir
  have place : Paths.resolve (Cgroups.dirUnder Cgroups.cgroupRoot name) = cgroup name := rfl
  have moved : (f.attach name pid).processes q =
      if q = pid then some { p with dir := cgroup name } else f.processes q := by
    unfold Forest.attach
    rw [found]
    dsimp only
    rw [if_pos alive]
    exact Function.update_apply _ _ _ _
  simp only [Cgroups.attachUnder,place,List.mem_cons,Prod.mk.injEq,List.mem_filter,bne_iff_ne,moved]
  by_cases same : q = pid
  · subst same
    simp only [true_and,ne_eq,not_true_eq_false,and_false,or_false,if_true,Option.some.injEq]
    constructor
    · rintro rfl
      exact ⟨_,rfl,alive,rfl⟩
    · rintro ⟨_,rfl,-,rfl⟩
      rfl
  · rw [if_neg same]
    have before := lists q dir
    simp only [same,false_and,false_or,not_false_eq_true,and_true,ne_eq,before]

end Hierarchy

def Extinct (f : Forest) : Prop :=
  ∀ pid p n, f.processes pid = some p → p.alive = true → p.family = some n → f.swept n = false

/-- No instance forks before its main process is attached, and each has a cgroup that can be killed. -/
def shelteredForks : Condition Memory Op Op.Ans Forest Event where
  event
    | .fork parent _, _, _, f => ((f.processes parent).bind Process.family).all f.attached
    | _, _, _, _ => true
  reply
    | .spawn origin _, _, _, _ => (startedAs origin).all fun name => Cgroups.killable (cgroup name)
    | _, _, _, _ => true

abbrev surroundings (home : Paths.Dir) : Surroundings Memory Op Op.Ans Forest :=
  ((Forest.machine home).under shelteredForks).surroundings

section Invariant

/-- A live process is one of no swept instance, and in the cgroup of its service; `waiting` may
still be outside. -/
structure Sheltered (f : Forest) (waiting : Option (Int × Nat)) (pid : Int) (p : Process) : Prop where
  known : ∀ n, p.family = some n → n < f.names.length
  unswept : ∀ n, p.alive = true → p.family = some n → f.swept n = false
  housed : ∀ n name, p.alive = true → p.family = some n → f.names[n]? = some name →
    p.dir = cgroup name ∨ waiting = some (pid,n)

structure Kept (waiting : Option (Int × Nat)) (f : Forest) : Prop where
  sheltered : ∀ pid p, f.processes pid = some p → Sheltered f waiting pid p
  begun : ∀ n, f.attached n = true ∨ f.swept n = true → n < f.names.length
  killable : ∀ name ∈ f.names, Cgroups.killable (cgroup name) = true

structure Unattached (pid : Int) (n : Nat) (name : String) (f : Forest) : Prop where
  named : f.names[n]? = some name
  apart : f.attached n = false
  main : ∃ p, f.processes pid = some p ∧ p.child = true ∧ p.family = some n

variable {f f' : Forest} {waiting : Option (Int × Nat)} {pid q : Int} {n : Nat} {name : String}
  {p : Process} {entry : Option Process}

theorem extinct_of_kept (kept : Kept waiting f) : Extinct f :=
  fun pid p n found alive member => (kept.sheltered pid p found).unswept n alive member

theorem put_processes (f : Forest) (pid : Int) (entry : Option Process) (q : Int) :
    (f.put pid entry).processes q = if q = pid then entry else f.processes q := by
  unfold Forest.put
  exact Function.update_apply _ _ _ _

theorem kept_put (kept : Kept waiting f) (fits : ∀ p, entry = some p → Sheltered f waiting pid p) :
    Kept waiting (f.put pid entry) where
  begun := kept.begun
  killable := kept.killable
  sheltered q p found := by
    rw [put_processes] at found
    split at found
    · rename_i same
      subst same
      obtain ⟨known,unswept,housed⟩ := fits p found
      exact ⟨known,unswept,housed⟩
    · obtain ⟨known,unswept,housed⟩ := kept.sheltered q p found
      exact ⟨known,unswept,housed⟩

theorem kept_remove (kept : Kept waiting f) : Kept waiting (f.put pid none) :=
  kept_put kept fun p absent => by simp at absent

theorem sheltered_dead (known : ∀ n, p.family = some n → n < f.names.length) (dead : p.alive = false) :
    Sheltered f waiting pid p where
  known := known
  unswept n alive := by simp [dead] at alive
  housed n name alive := by simp [dead] at alive

theorem sheltered_stranger (stranger : p.family = none) : Sheltered f waiting pid p where
  known n member := by simp [stranger] at member
  unswept n _ member := by simp [stranger] at member
  housed n name _ member := by simp [stranger] at member

end Invariant

section Steps
variable {home : Paths.Dir} {f f' : Forest} {waiting : Option (Int × Nat)} {pid : Int} {n : Nat}
  {name : String} {ev : Event} {op : Op} {m : Memory}

/-- Every event writes the entry of one process: a fork's, an exit's, a zombie's or a stranger's. -/
theorem stir_cases (stirred : Forest.stir ev op m f = some f') :
    (∃ parent child p, ev = .fork parent child ∧ f.processes parent = some p ∧ p.alive = true ∧
      f.processes child = none ∧ f' = f.put child (some { p with child := false })) ∨
    (∃ q p, f.processes q = some p ∧ f' = f.put q (some { p with alive := false })) ∨
    (∃ q p, f.processes q = some p ∧ p.child = false ∧ f' = f.put q none) ∨
    ∃ q dir, f.processes q = none ∧ f' = f.put q (some ⟨none,dir,true,false⟩) := by
  cases ev with
  | fork parent child =>
    obtain ⟨p,found,forks⟩ := Option.bind_eq_some_iff.mp stirred
    simp only [Option.ite_none_right_eq_some,Option.some.injEq] at forks
    obtain ⟨⟨alive,free⟩,rfl⟩ := forks
    exact .inl ⟨parent,child,p,rfl,found,alive,free,rfl⟩
  | exit q =>
    obtain ⟨p,found,exits⟩ := Option.bind_eq_some_iff.mp stirred
    simp only [Option.ite_none_right_eq_some,Option.some.injEq] at exits
    obtain ⟨-,rfl⟩ := exits
    exact .inr (.inl ⟨q,p,found,rfl⟩)
  | taken q =>
    obtain ⟨p,found,goes⟩ := Option.bind_eq_some_iff.mp stirred
    simp only [Option.ite_none_right_eq_some,Option.some.injEq,Bool.not_eq_true'] at goes
    obtain ⟨⟨-,foreign⟩,rfl⟩ := goes
    exact .inr (.inr (.inl ⟨q,p,found,foreign,rfl⟩))
  | appear q dir =>
    simp only [Forest.stir,Option.ite_none_right_eq_some,Option.some.injEq] at stirred
    obtain ⟨free,rfl⟩ := stirred
    exact .inr (.inr (.inr ⟨q,dir,free,rfl⟩))

theorem kept_stir (stirred : ((Forest.machine home).under shelteredForks).stir ev op m f = some f')
    (apart : ∀ pid n, waiting = some (pid,n) → f.attached n = false) (kept : Kept waiting f) :
    Kept waiting f' := by
  obtain ⟨allowed,stirred⟩ := Machine.under_stir_iff.mp stirred
  rcases stir_cases stirred with ⟨parent,child,p,rfl,found,alive,-,rfl⟩ | ⟨q,p,found,rfl⟩ |
    ⟨q,p,-,-,rfl⟩ | ⟨q,dir,-,rfl⟩
  · obtain ⟨known,unswept,housed⟩ := kept.sheltered parent p found
    apply kept_put kept
    rintro _ ⟨⟩
    refine ⟨known,unswept,fun n name _ member named => .inl ?_⟩
    have inside := housed n name alive member named
    apply inside.resolve_right
    intro outside
    have attached : f.attached n = true := by
      simp only [shelteredForks,found,Option.bind_some,Option.all_eq_true] at allowed
      exact allowed n member
    rw [apart parent n outside] at attached
    contradiction
  · apply kept_put kept
    rintro _ ⟨⟩
    exact sheltered_dead (kept.sheltered q p found).known rfl
  · exact kept_remove kept
  · apply kept_put kept
    rintro _ ⟨⟩
    exact sheltered_stranger rfl

theorem unattached_put {q : Int} {entry : Option Process} (unattached : Unattached pid n name f)
    (main : q = pid → ∃ p, entry = some p ∧ p.child = true ∧ p.family = some n) :
    Unattached pid n name (f.put q entry) where
  named := unattached.named
  apart := unattached.apart
  main := by
    rw [put_processes]
    split
    · rename_i same
      exact main same.symm
    · exact unattached.main

/-- The main process is the main thread's to reap. -/
theorem unattached_stir (stirred : ((Forest.machine home).under shelteredForks).stir ev op m f = some f')
    (unattached : Unattached pid n name f) : Unattached pid n name f' := by
  obtain ⟨p,found,child,member⟩ := unattached.main
  rcases stir_cases (Machine.under_stir_iff.mp stirred).2 with ⟨parent,q,r,-,-,-,free,rfl⟩ | ⟨q,r,there,rfl⟩ |
    ⟨q,r,there,foreign,rfl⟩ | ⟨q,dir,free,rfl⟩
  · apply unattached_put unattached
    rintro rfl
    rw [found] at free
    contradiction
  · apply unattached_put unattached
    rintro rfl
    rw [found] at there
    cases there
    exact ⟨_,rfl,child,member⟩
  · apply unattached_put unattached
    rintro rfl
    rw [found] at there
    cases there
    rw [child] at foreign
    contradiction
  · apply unattached_put unattached
    rintro rfl
    rw [found] at free
    contradiction

theorem kept_cut {dir : Paths.Dir} (kept : Kept waiting f) : Kept waiting (f.cut dir) := by
  unfold Forest.cut
  split
  · refine ⟨?_,kept.begun,kept.killable⟩
    intro pid p found
    obtain ⟨before,there,rfl⟩ := Option.map_eq_some_iff.mp found
    obtain ⟨known,unswept,housed⟩ := kept.sheltered pid before there
    refine ⟨known,fun n alive => ?_,fun n name alive => ?_⟩
    · exact unswept n (Bool.and_eq_true_iff.mp alive).1
    · exact housed n name (Bool.and_eq_true_iff.mp alive).1
  · exact kept

theorem cut_names (f : Forest) (dir : Paths.Dir) : (f.cut dir).names = f.names := by
  unfold Forest.cut
  split <;> rfl

theorem cut_marks (f : Forest) (dir : Paths.Dir) :
    (f.cut dir).attached = f.attached ∧ (f.cut dir).swept = f.swept := by
  unfold Forest.cut
  split <;> exact ⟨rfl,rfl⟩

/-- Whoever outlives the kill of a directory is outside it. -/
theorem cut_outside {dir : Paths.Dir} {p : Process} (killable : Cgroups.killable dir = true)
    (found : (f.cut dir).processes pid = some p) (alive : p.alive = true) : p.dir ≠ dir := by
  intro inside
  unfold Forest.cut at found
  rw [if_pos killable] at found
  obtain ⟨before,-,rfl⟩ := Option.map_eq_some_iff.mp found
  have below : dir.isPrefixOf dir = true := List.isPrefixOf_iff_prefix.mpr (List.prefix_refl dir)
  dsimp only at inside alive
  rw [inside,below,Bool.not_true,Bool.and_false] at alive
  contradiction

/-- Between the starts a sweep ends every instance of its service. -/
theorem kept_sweep (kept : Kept none f) (name : String) : Kept none (f.sweep name) := by
  have cut : Kept none (f.cut (cgroup name)) := kept_cut kept
  obtain ⟨attached,swept⟩ := cut_marks f (cgroup name)
  refine ⟨?_,?_,cut.killable⟩
  · intro pid p found
    obtain ⟨known,unswept,housed⟩ := cut.sheltered pid p found
    refine ⟨known,fun n alive member => ?_,housed⟩
    have before := unswept n alive member
    rw [swept] at before
    simp only [Forest.sweep,before,Bool.false_or,beq_eq_false_iff_ne]
    intro named
    have killable := kept.killable name (List.mem_of_getElem? named)
    rw [← cut_names f (cgroup name)] at named
    have inside := (housed n name alive member named).resolve_right (by simp)
    exact cut_outside killable found alive inside
  · intro n marked
    have listed : (f.sweep name).names = f.names := cut_names f (cgroup name)
    simp only [Forest.sweep,attached,Bool.or_eq_true,beq_iff_eq] at marked
    rw [listed]
    rcases marked with begun | begun | named
    · exact kept.begun n (.inl begun)
    · exact kept.begun n (.inr begun)
    · exact (List.getElem?_eq_some_iff.mp named).1

/-- A new instance: its main process waits outside, and no older one is concerned. -/
theorem kept_spawned {origin : Origin} (kept : Kept none f) (started : startedAs origin = some name)
    (killable : Cgroups.killable (cgroup name) = true) :
    Kept (some (pid,f.names.length)) (f.spawned home origin pid) ∧
      Unattached pid f.names.length name (f.spawned home origin pid) := by
  have longer : f.names.length < (f.names ++ [name]).length := by simp
  have unmarked : f.attached f.names.length = false ∧ f.swept f.names.length = false := by
    constructor
    · rw [Bool.eq_false_iff]
      exact fun attached => absurd (kept.begun _ (.inl attached)) (lt_irrefl _)
    · rw [Bool.eq_false_iff]
      exact fun swept => absurd (kept.begun _ (.inr swept)) (lt_irrefl _)
  unfold Forest.spawned
  rw [started]
  refine ⟨⟨?_,?_,?_⟩,?_,?_,?_⟩
  · intro q p found
    rw [put_processes] at found
    split at found
    · rename_i same
      cases found
      refine ⟨?_,?_,?_⟩
      · rintro _ ⟨⟩
        exact longer
      · rintro _ _ ⟨⟩
        exact unmarked.2
      · rintro _ _ _ ⟨⟩ _
        exact .inr (by rw [same])
    · obtain ⟨known,unswept,housed⟩ := kept.sheltered q p found
      refine ⟨fun n member => (known n member).trans longer,unswept,fun n other alive member named => ?_⟩
      rw [List.getElem?_append_left (known n member)] at named
      exact .inl ((housed n other alive member named).resolve_right (by simp))
  · exact fun n marked => (kept.begun n marked).trans longer
  · intro other listed
    rcases List.mem_append.mp listed with before | last
    · exact kept.killable other before
    · rw [List.mem_singleton.mp last]
      exact killable
  · exact List.getElem?_concat_length
  · exact unmarked.1
  · exact ⟨_,by rw [put_processes,if_pos rfl],rfl,rfl⟩

/-- Once attached, the main process is in the cgroup as well, or has exited. -/
theorem kept_attach (kept : Kept (some (pid,n)) f) (unattached : Unattached pid n name f) :
    Kept none (f.attach name pid) := by
  obtain ⟨p,found,-,member⟩ := unattached.main
  have others : ∀ q r, q ≠ pid → f.processes q = some r → Sheltered f none q r := by
    intro q r other there
    obtain ⟨known,unswept,housed⟩ := kept.sheltered q r there
    refine ⟨known,unswept,fun k name alive member named => .inl ?_⟩
    apply (housed k name alive member named).resolve_right
    simp [Ne.symm other]
  have here := kept.sheltered pid p found
  unfold Forest.attach
  rw [found]
  dsimp only
  split
  · refine ⟨fun q r there => ?_,?_,kept.killable⟩
    · rw [put_processes] at there
      split at there
      · rename_i same
        cases same
        cases there
        refine ⟨here.known,here.unswept,fun k other _ member' named => .inl ?_⟩
        obtain rfl : n = k := Option.some.inj (member.symm.trans member')
        have same : some name = some other := unattached.named.symm.trans named
        exact congrArg cgroup (Option.some.inj same)
      · rename_i other
        obtain ⟨known,unswept,housed⟩ := others q r other there
        exact ⟨known,unswept,housed⟩
    · intro k marked
      simp only [Bool.or_eq_true,beq_iff_eq] at marked
      rcases marked with (attached | joins) | swept
      · exact kept.begun k (.inl attached)
      · exact here.known k joins
      · exact kept.begun k (.inr swept)
  · rename_i dead
    refine ⟨fun q r there => ?_,kept.begun,kept.killable⟩
    by_cases same : q = pid
    · subst same
      rw [found] at there
      cases there
      exact sheltered_dead here.known (Bool.eq_false_iff.mpr dead)
    · exact others q r same there

end Steps

section Program
variable {home : Paths.Dir} {m : Memory} {f : Forest} {pid : Int} {n : Nat} {name : String}

def still : Op → Bool
  | .spawn _ _ | .attach _ _ | .killAndRemove _ | .killAndRemoveApp _ | .waitpid _ _ => false
  | _ => true

theorem answer_still {op : Op} {r : op.Ans} {f' : Forest} (unconcerned : still op = true)
    (replied : (surroundings home).replies op m f r f') : f' = f := by
  have answered : Forest.answer home op m f r = some f' := (Machine.under_answer_iff.mp replied).2
  cases op with
  | iterate entries =>
    simp only [Forest.answer,Option.ite_none_right_eq_some,Option.some.injEq] at answered
    exact answered.2.symm
  | _ => first | contradiction | exact (Option.some.inj answered).symm

abbrev asked (_ : Option Op) (_ : Memory) (f : Forest) : Prop := Extinct f

/-- What no event spoils stays as it is over calls that concern no process. -/
theorem frame_still {P : Forest → Prop}
    (stable : ∀ op m f f', (surroundings home).moves op m f f' → P f → P f')
    (extinct : ∀ f, P f → Extinct f) :
    (surroundings home).Frame asked (fun _ _ => True) (fun op => still op = true) fun _ f => P f where
  updates _ _ _ _ held := held
  moves op m f f' _ moved held := stable op m f f' moved held
  replies op m f r f' unconcerned replied held := by
    rw [answer_still unconcerned replied]
    exact held
  holds _ _ f _ held := extinct f held

def Waiting (pid : Int) (n : Nat) (name : String) (f : Forest) : Prop :=
  Kept (some (pid,n)) f ∧ Unattached pid n name f

theorem kept_moves {op : Op} {f' : Forest} (moved : (surroundings home).moves op m f f')
    (kept : Kept none f) : Kept none f' := by
  obtain ⟨ev,stirred⟩ := moved
  exact kept_stir stirred (by simp) kept

theorem waiting_moves {op : Op} {f' : Forest} (moved : (surroundings home).moves op m f f')
    (waiting : Waiting pid n name f) : Waiting pid n name f' := by
  obtain ⟨ev,stirred⟩ := moved
  refine ⟨kept_stir stirred ?_ waiting.1,unattached_stir stirred waiting.2⟩
  rintro _ _ ⟨⟩
  exact waiting.2.apart

theorem frame_kept : (surroundings home).Frame asked (fun _ _ => True) (fun op => still op = true)
    fun _ => Kept none := frame_still (fun _ _ _ _ => kept_moves) fun _ => extinct_of_kept

theorem frame_waiting : (surroundings home).Frame asked (fun _ _ => True) (fun op => still op = true)
    fun _ => Waiting pid n name :=
  frame_still (fun _ _ _ _ => waiting_moves) fun _ held => extinct_of_kept held.1

theorem still_call {op : Op} (unconcerned : still op = true) :
    (call op).Uses (fun _ _ => True) fun op => still op = true := uses_perform unconcerned

theorem still_of_prepares {op : Op} (h : op.prepares = true) : still op = true := by
  cases op with
  | log line => rfl
  | _ => first | rfl | contradiction

theorem prepareCommand_still (d : ServiceDef) :
    (prepareCommand d).Uses (fun _ _ => True) fun op => still op = true :=
  uses_mono (prepareCommand_prepares d) (fun _ _ _ => trivial) fun _ => still_of_prepares

theorem track_still (pid : Int) (d : ServiceDef) (times : List Nat) :
    (track pid d times).Uses (fun _ _ => True) fun op => still op = true :=
  uses_bind (still_call rfl) fun _ => uses_update fun _ => trivial

theorem wp_bind_spawn {origin : Origin} {command : Command} {β : Type}
    {next : Except String Int → Code β} {Q : β → Memory → Forest → Prop}
    (started : startedAs origin = some name) (kept : Kept none f)
    (child : ∀ pid n f, Waiting pid n name f → (next (.ok pid)).wp (surroundings home) asked Q m f)
    (refused : ∀ err f, Kept none f → (next (.error err)).wp (surroundings home) asked Q m f) :
    (spawn origin command >>= next).wp (surroundings home) asked Q m f := by
  refine (wp_bind _ _ _ _ _).mpr (wp_perform (P := Kept none) kept ?_ ?_ ?_)
  · exact fun f f' moved kept => kept_moves moved kept
  · exact fun f kept => extinct_of_kept kept
  · intro f r f' kept replied
    obtain ⟨allowed,answered⟩ := Machine.under_answer_iff.mp replied
    cases r with
    | error err =>
      cases Option.some.inj answered
      exact refused err f kept
    | ok pid =>
      have killable : Cgroups.killable (cgroup name) = true := by
        simpa [shelteredForks,started] using allowed
      simp only [Forest.machine,Forest.answer,Option.ite_none_right_eq_some,Option.some.injEq] at answered
      obtain ⟨-,rfl⟩ := answered
      exact child pid _ _ (kept_spawned kept started killable)

theorem wp_bind_attach {β : Type} {next : Unit → Code β} {Q : β → Memory → Forest → Prop}
    (waiting : Waiting pid n name f)
    (rest : ∀ f, Kept none f → (next ()).wp (surroundings home) asked Q m f) :
    (call (.attach name pid) >>= next).wp (surroundings home) asked Q m f := by
  refine (wp_bind _ _ _ _ _).mpr (wp_perform (P := Waiting pid n name) waiting ?_ ?_ ?_)
  · exact fun f f' moved held => waiting_moves moved held
  · exact fun f held => extinct_of_kept held.1
  · intro f r f' held replied
    obtain ⟨-,answered⟩ := Machine.under_answer_iff.mp replied
    cases Option.some.inj answered
    exact rest _ (kept_attach held.1 held.2)

/-- A start keeps every live process of an instance in its cgroup, but for the main one on its way. -/
theorem wp_spawnWithHistory (d : ServiceDef) (times : List Nat) (kept : Kept none f) :
    (spawnWithHistory d times).wp (surroundings home) asked (fun _ _ => Kept none) m f := by
  refine wp_bind_frame frame_kept (prepareCommand_still d) kept fun command m f kept => ?_
  refine wp_bind_spawn rfl kept ?_ ?_
  · intro pid n f waiting
    refine wp_bind_frame frame_waiting (still_call rfl) waiting fun _ m f waiting => ?_
    refine wp_bind_frame frame_waiting (still_call rfl) waiting fun _ m f waiting => ?_
    refine wp_bind_attach waiting fun f kept => ?_
    refine wp_bind_frame frame_kept (uses_each fun _ _ => still_call rfl) kept fun _ m f kept => ?_
    exact wp_frame frame_kept (track_still pid d times) kept
  · intro err f kept
    refine wp_bind_frame frame_kept (still_call rfl) kept fun _ m f kept => ?_
    rw [wp_provided]
    split
    · refine wp_bind_spawn rfl kept ?_ fun err f kept => kept
      intro pid n f waiting
      refine wp_bind_frame frame_waiting (still_call rfl) waiting fun _ m f waiting => ?_
      refine wp_bind_frame frame_waiting (still_call rfl) waiting fun _ m f waiting => ?_
      refine wp_bind_attach waiting fun f kept => ?_
      exact wp_frame frame_kept (track_still pid fallbackShell []) kept
    · exact kept

/-- Outside the starts nothing is attached, and what is spawned belongs to no instance. -/
theorem frame_unstarted : (surroundings home).Frame asked (fun _ _ => True) (fun op => op.starts = false)
    fun _ => Kept none where
  updates _ _ _ _ kept := kept
  moves _ _ _ _ _ moved kept := kept_moves moved kept
  holds _ _ _ _ kept := extinct_of_kept kept
  replies op m f r f' unstarted replied kept := by
    have answered : Forest.answer home op m f r = some f' := (Machine.under_answer_iff.mp replied).2
    cases op with
    | spawn origin command =>
      cases r with
      | error err =>
        cases Option.some.inj answered
        exact kept
      | ok pid =>
        have apart := startedAs_of_unstarted unstarted
        simp only [Forest.answer,Option.ite_none_right_eq_some,Option.some.injEq] at answered
        obtain ⟨-,rfl⟩ := answered
        unfold Forest.spawned
        rw [apart]
        apply kept_put kept
        rintro _ ⟨⟩
        exact sheltered_stranger rfl
    | attach name pid => contradiction
    | killAndRemove name =>
      cases Option.some.inj answered
      exact kept_sweep kept name
    | killAndRemoveApp id =>
      cases Option.some.inj answered
      exact kept_cut kept
    | waitpid target nohang =>
      match r with
      | .ok (.ended pid ending) =>
        obtain ⟨p,-,reaped⟩ := Option.bind_eq_some_iff.mp answered
        simp only [Option.ite_none_right_eq_some,Option.some.injEq] at reaped
        obtain ⟨-,rfl⟩ := reaped
        exact kept_remove kept
      | .ok .stillAlive =>
        cases Option.some.inj answered
        exact kept
      | .ok .other =>
        cases Option.some.inj answered
        exact kept
      | .error err =>
        cases Option.some.inj answered
        exact kept
    | _ =>
      have same : f' = f := answer_still rfl replied
      rw [same]
      exact kept

theorem kept_initial : Kept none ({} : Forest) where
  sheltered pid p found := by simp at found
  begun n marked := by simp at marked
  killable name listed := by simp at listed

theorem wp_main (home : Paths.Dir) (m : Memory) :
    main.wp (surroundings home) asked (fun _ _ => Kept none) m {} := by
  refine wp_made frame_unstarted ?_ main_startsWhole kept_initial
  rintro _ ⟨d,times,rfl⟩ m f kept
  exact wp_spawnWithHistory d times kept

/-- While no instance forks before it is attached, no process outlives the sweep of its service. -/
theorem sweep_leaves_none (home : Paths.Dir) (m : Memory) {t : State Memory Op Op.Ans Forest Unit}
    (run : Reaches (surroundings home) ⟨main,m,{}⟩ t) : Extinct t.env :=
  wp_everywhere run (wp_main home m) fun _ _ _ kept => extinct_of_kept kept

end Program

section Runs

def server : ServiceDef :=
  { name := "server", path := "/usr/bin/server", restart := .never, target := "multi-user" }

def config : Config := { Config.default with services := [server], defaultTarget := "multi-user" }

def obliging : (op : Op) → Memory → Forest → op.Ans
  | .spawn _ _, _, f => .ok (100 + f.names.length)
  | .waitpid target _, _, f =>
    let children := (List.range f.names.length).map fun n => (100 + n : Int)
    match children.find? fun pid => Kernel.covers target pid && (f.processes pid).any fun p => !p.alive with
    | some pid => .ok (.ended pid (.exited 0))
    | none => .ok .stillAlive
  | op, m, _ => Kernel.obliging (fun _ => true) config op m {}

def forkingAt (call : Op) : List (Cue Op Event) :=
  [.upTo (· == call) 300,.stir (.fork 100 500),.upTo (· == .waitpid .any false) 300,.stir (.exit 100),.step,
    .upTo (· == .swap .rebootRequested) 300]

def sweptWith (alive : Bool) (f : Forest) : Bool :=
  f.swept 0 && (f.processes 500).any fun p => p.family == some 0 && p.alive == alive

def shelteredRun : Option (State Memory Op Op.Ans Forest Unit) :=
  drive ((Forest.machine Cgroups.mount).under shelteredForks) obliging (forkingAt .now) ⟨main,{},{}⟩

theorem sweep_leaves_none_server : ∃ t, shelteredRun = some t ∧ sweptWith false t.env = true ∧
    Extinct t.env := by
  have there : shelteredRun.any (fun t => sweptWith false t.env) = true := by decide +kernel
  obtain ⟨t,reached,now⟩ := (Option.any_eq_true _ _).mp there
  exact ⟨t,reached,now,sweep_leaves_none Cgroups.mount {} (drive_reaches reached)⟩

def escapingRun : Option (State Memory Op Op.Ans Forest Unit) :=
  drive (Forest.machine Cgroups.mount) obliging (forkingAt (.createFor "server" none)) ⟨main,{},{}⟩

/-- A child forked before the attachment stays where the main process came from, and no sweep finds it. -/
theorem early_fork_escapes : ¬ ∀ (home : Paths.Dir) (t : State Memory Op Op.Ans Forest Unit),
    Reaches (Forest.machine home).surroundings ⟨main,{},{}⟩ t → Extinct t.env := by
  intro claim
  have there : escapingRun.any (fun t => sweptWith true t.env) = true := by decide +kernel
  obtain ⟨t,reached,now⟩ := (Option.any_eq_true _ _).mp there
  obtain ⟨swept,left⟩ := Bool.and_eq_true_iff.mp now
  obtain ⟨p,found,descends⟩ := (Option.any_eq_true _ _).mp left
  simp only [Bool.and_eq_true,beq_iff_eq] at descends
  have gone := claim Cgroups.mount t (drive_reaches reached) 500 p 0 found descends.2 descends.1
  rw [swept] at gone
  contradiction

end Runs
end MitosServices.Families
