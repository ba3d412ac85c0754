import MitosServices.Supervision

/-! Names in the table of tracked services. The table is keyed by pid, while readiness, cgroups
and reloads go by name; whether a name has one pid rests on when a rescue shell is started. -/
namespace MitosServices.Names
open Interaction Interaction.Program

def Unique (services : Services) : Prop :=
  ∀ p q s t, services.lookup p = some s → services.lookup q = some t →
    s.definition.name = t.definition.name → p = q

inductive Operation
  | handleExit (status : WaitStatus)
  | reloadServices (newDefs : List ServiceDef)

namespace Operation

def run : Operation → Code Unit
  | .handleExit status => do
    let _ ← MitosServices.handleExit status
    pure ()
  | .reloadServices newDefs => do
    let _ ← MitosServices.reloadServices newDefs
    pure ()

end Operation

def operate (defs : List ServiceDef) (operations : List Operation) : Code Unit := do
  spawnAll defs
  each operations Operation.run

/-- A rescue shell and a service configured as "shell" are never started one beside the other. -/
def shellApart : Condition Memory Op Op.Ans Kernel Event where
  event _ _ _ _ := true
  reply
    | .spawn .rescue _, m, _, .ok _ => !m.services.tracks fallbackShell.name
    | .spawn (.service name _) _, m, _, .ok _ =>
      name != fallbackShell.name || !m.services.tracks name
    | _, _, _, _ => true

section Table
variable {services : Services} {pid : Int} {sup : Supervised}

theorem unique_of_nodup
    (distinct : (services.toList.map fun entry => entry.2.definition.name).Nodup) :
    Unique services := by
  intro p q s t left right equal
  have same := List.inj_on_of_nodup_map distinct (Services.mem_toList.mpr left)
    (Services.mem_toList.mpr right) equal
  exact congrArg Prod.fst same

theorem unique_empty : Unique ∅ := by
  intro p q s t left
  simp at left

theorem unique_erase (unique : Unique services) : Unique (services.erase pid) := by
  intro p q s t left right equal
  exact unique p q s t (lookup_erase_iff.mp left).2 (lookup_erase_iff.mp right).2 equal

theorem unique_insert (unique : Unique services)
    (fresh : services.tracks sup.definition.name = false) : Unique (services.insert pid sup) := by
  rw [Services.tracks_eq_false] at fresh
  intro p q s t left right equal
  rcases lookup_insert_iff.mp left with ⟨rfl,rfl⟩ | ⟨_,old⟩
  · rcases lookup_insert_iff.mp right with ⟨rfl,-⟩ | ⟨_,other⟩
    · rfl
    · exact absurd equal.symm (fresh q t other)
  · rcases lookup_insert_iff.mp right with ⟨rfl,rfl⟩ | ⟨_,other⟩
    · exact absurd equal (fresh p s old)
    · exact unique p q s t old other equal

/-- Where names are unique, untracking a pid untracks its name. -/
theorem tracks_erase_self (unique : Unique services) (found : services.lookup pid = some sup) :
    Services.tracks (services.erase pid) sup.definition.name = false := by
  rw [Services.tracks_eq_false]
  intro p s there equal
  obtain ⟨differs,there⟩ := lookup_erase_iff.mp there
  exact differs (unique p pid s sup there found equal)

end Table

section Rules

abbrev surroundings : Surroundings Memory Op Op.Ans Kernel :=
  (Kernel.machine.under shellApart).surroundings

def asked (_ : Option Op) (m : Memory) (_ : Kernel) : Prop := Unique m.services

theorem visits : Visits surroundings := by
  intro listed m e visited e' replied
  exact Kernel.answer_iterate (m := m) (Machine.under_answer_iff.mp replied).2

theorem steady_unique : Steady surroundings asked fun m _ => Unique m.services :=
  steady_memory (P := fun m => Unique m.services) fun _ _ _ _ unique => unique

/-- While the table stands at `services`, whatever else holds. -/
theorem steady_at {services : Services} (unique : Unique services) (also : Prop) :
    Steady surroundings asked fun m _ => m.services = services ∧ also :=
  steady_memory (P := fun m => m.services = services ∧ also) fun _ m _ _ same => by
    change Unique m.services
    rw [same.1]
    exact unique

theorem steady_self {m : Memory} (unique : Unique m.services) :
    Steady surroundings asked fun m' _ => m' = m :=
  steady_memory (P := fun m' => m' = m) fun _ m' _ _ same => by
    subst same
    exact unique

/-- After a start from the table `services`, only the service's own name or the rescue shell's
can be new. -/
def Grown (services : Services) (d : ServiceDef) (m : Memory) : Prop :=
  Unique m.services ∧ ∀ n, m.services.tracks n = true →
    services.tracks n = true ∨ n = d.name ∨ n = fallbackShell.name

theorem grown_insert {services : Services} {d e : ServiceDef} {m : Memory} {pid : Int}
    {times : List Nat} {t : Nat} (unique : Unique services) (same : m.services = services)
    (fresh : services.tracks e.name = false) (named : e.name = d.name ∨ e.name = fallbackShell.name) :
    Grown services d (withService m pid ⟨e,times,t⟩) := by
  constructor
  · exact unique_insert (same.symm ▸ unique) (same.symm ▸ fresh)
  · intro n there
    rcases Services.tracks_insert there with old | rfl
    · exact .inl (same ▸ old)
    · exact .inr named

theorem grown_same {services : Services} {d : ServiceDef} {m : Memory} (unique : Unique services)
    (same : m.services = services) : Grown services d m := by
  subst same
  exact ⟨unique,fun n there => .inl there⟩

theorem start_phases {services : Services} {d : ServiceDef} {times : List Nat}
    (unique : Unique services)
    (apart : services.tracks d.name = true → d.name = fallbackShell.name) :
    StartPhases surroundings asked d times (fun m _ => m.services = services ∧ True)
      (fun _ m _ => m.services = services ∧ services.tracks d.name = false)
      (fun m _ => m.services = services ∧ True)
      (fun _ m _ => m.services = services ∧ services.tracks fallbackShell.name = false)
      (fun m _ => Grown services d m) where
  before_steady := steady_at unique _
  spawned_steady _ := steady_at unique _
  failed_steady := steady_at unique _
  rescue_steady _ := steady_at unique _
  child command pid m e e' held replied := by
    have allowed := (Machine.under_answer_iff.mp replied).1
    simp only [shellApart,Bool.or_eq_true,bne_iff_ne,ne_eq,Bool.not_eq_true',held.1] at allowed
    refine ⟨held.1,?_⟩
    by_cases tracked : services.tracks d.name = true
    · rcases allowed with other | free
      · exact absurd (apart tracked) other
      · exact free
    · simpa using tracked
  refused _ _ _ _ _ held _ := held
  shell command pid m e e' held critical replied := by
    have allowed := (Machine.under_answer_iff.mp replied).1
    simp only [shellApart,Bool.not_eq_true',held.1] at allowed
    exact ⟨held.1,allowed⟩
  noShell _ _ _ _ _ held _ _ := grown_same unique held.1
  tracked _ _ _ _ held := grown_insert unique held.1 held.2 (.inl rfl)
  trackedShell _ _ _ _ held := grown_insert unique held.1 held.2 (.inr rfl)
  missed _ _ held _ := grown_same unique held.1

theorem wp_start {d : ServiceDef} {times : List Nat} {m : Memory} {k : Kernel}
    (unique : Unique m.services)
    (apart : m.services.tracks d.name = true → d.name = fallbackShell.name) :
    (spawnWithHistory d times).wp surroundings asked (fun _ m' _ => Grown m.services d m') m k :=
  wp_spawnWithHistory (start_phases unique apart) ⟨rfl,trivial⟩

theorem wp_stop {pid : Int} {name : String} {m : Memory} {k : Kernel} (P : Memory → Prop)
    (implies : ∀ m, P m → Unique m.services) (start : P m) :
    (stopOne pid name).wp surroundings asked (fun _ m _ => P m) m k := by
  have steady : Steady surroundings asked fun m _ => P m :=
    steady_memory fun _ m _ _ held => implies m held
  exact wp_stopOne (.uniform steady (fun _ m _ held => implies m held) fun _ _ _ _ held _ => held) start

end Rules

section Operations
variable {m : Memory} {k : Kernel}

theorem wp_startEach {configured spawned : List String} {defs : List ServiceDef}
    (distinct : (defs.map ServiceDef.name).Nodup) (unique : Unique m.services)
    (apart : ∀ d ∈ defs, m.services.tracks d.name = true → d.name = fallbackShell.name) :
    (startEach configured spawned defs).wp surroundings asked (fun _ m _ => Unique m.services) m k := by
  induction defs generalizing spawned m k with
  | nil => exact unique
  | cons d rest ih =>
    obtain ⟨absent,distinct⟩ := List.nodup_cons.mp distinct
    have rest_apart : ∀ m', Grown m.services d m' → ∀ d' ∈ rest,
        m'.services.tracks d'.name = true → d'.name = fallbackShell.name := by
      intro m' grown d' member tracked
      rcases grown.2 d'.name tracked with old | same | shell
      · exact apart d' (.tail _ member) old
      · exact absurd (same ▸ List.mem_map_of_mem member) absent
      · exact shell
    refine (wp_bind _ _ _ _ _).mpr ?_
    unfold startOne
    dsimp only
    split
    · refine wp_bind_steady (steady_self unique) (plain_call rfl) rfl fun _ m' _ same => ?_
      subst same
      exact ih distinct unique fun d' member => apart d' (.tail _ member)
    · refine wp_bind_steady (steady_self unique)
        (uses_each fun dep _ => waitForReady_plain dep _) rfl fun _ m' _ same => ?_
      subst same
      refine (wp_bind _ _ _ _ _).mpr (wp_mono (wp_start unique (apart d (.head _))) ?_)
      intro _ m' k grown
      exact ⟨grown.1,ih distinct grown.1 (rest_apart m' grown)⟩

theorem wp_spawnAll {defs : List ServiceDef} (distinct : (defs.map ServiceDef.name).Nodup)
    (new : m.services = ∅) :
    (spawnAll defs).wp surroundings asked (fun _ m _ => Unique m.services) m k := by
  refine wp_bind_topologicalOrder (steady_at unique_empty True) ⟨new,trivial⟩ fun m k held => ?_
  refine wp_startEach (startingOrder_distinct distinct) ?_ ?_
  · rw [held.1]
    exact unique_empty
  · intro d member tracked
    rw [held.1] at tracked
    simp [Services.tracks,Services.toList] at tracked

/-- With its name untracked, a service can be started. -/
theorem wp_start_untracked {d : ServiceDef} {times : List Nat} (unique : Unique m.services)
    (free : m.services.tracks d.name = false) :
    (spawnWithHistory d times).wp surroundings asked (fun _ m _ => Unique m.services) m k := by
  refine wp_mono (wp_start unique ?_) fun _ m _ grown => grown.1
  intro tracked
  rw [free] at tracked
  contradiction

theorem wp_handleExit (status : WaitStatus) (unique : Unique m.services) :
    (handleExit status).wp surroundings asked (fun _ m _ => Unique m.services) m k := by
  cases status with
  | stillAlive => exact unique
  | other => exact unique
  | ended pid ending =>
    refine wp_bind_removeService unique ?_
    have kept : Unique (withoutService m pid).services := unique_erase unique
    cases found : m.services.lookup pid with
    | none => exact kept
    | some sup =>
      have free : (withoutService m pid).services.tracks sup.definition.name = false :=
        tracks_erase_self unique found
      refine wp_bind_perform steady_unique kept (fun _ _ unique => unique) fun k _ k' _ _ => ?_
      refine wp_bind_steady (steady_self kept) (plain_call rfl) rfl fun _ m' k same => ?_
      refine wp_bind_steady (steady_self kept) (plain_call rfl) same fun _ m' k same => ?_
      subst same
      split
      · exact kept
      · split
        · refine wp_bind_steady (steady_self kept) (plain_call rfl) rfl fun t m' k same => ?_
          subst same
          dsimp only
          split
          · refine wp_bind_perform steady_unique kept (fun _ _ unique => unique) ?_
            exact fun k _ k' kept _ => kept
          · exact wp_then (wp_start_untracked kept free) fun _ m k after => after
        · exact kept

theorem wp_stopRemoved (pid : Int) (unique : Unique m.services) :
    (stopRemoved pid).wp surroundings asked (fun _ m _ => Unique m.services) m k := by
  refine wp_bind_removeService unique ?_
  have kept : Unique (withoutService m pid).services := unique_erase unique
  cases found : m.services.lookup pid with
  | none => exact kept
  | some sup =>
    refine wp_bind_steady steady_unique (plain_call rfl) kept fun _ m k logged => ?_
    refine wp_then (wp_stop (fun m => Unique m.services) (fun _ held => held) logged) ?_
    exact fun _ m k stopped => wp_steady steady_unique (plain_call rfl) stopped

theorem wp_replace {pid : Int} {sup : Supervised} {d : ServiceDef} (unique : Unique m.services)
    (found : m.services.lookup pid = some sup) (named : sup.definition.name = d.name) :
    (replace pid d).wp surroundings asked (fun _ m _ => Unique m.services) m k := by
  refine wp_bind_steady (steady_self unique) (plain_call rfl) rfl fun _ m' k same => ?_
  subst same
  refine wp_bind_removeService unique ?_
  have kept : Unique (withoutService m' pid).services := unique_erase unique
  have free : (withoutService m' pid).services.tracks d.name = false := by
    rw [← named]
    exact tracks_erase_self unique found
  refine wp_then (wp_stop (fun m => Unique m.services ∧ m.services.tracks d.name = false)
    (fun _ held => held.1) ⟨kept,free⟩) ?_
  exact fun _ m k stopped => wp_start_untracked stopped.1 stopped.2

theorem wp_reconcileOne (d : ServiceDef) (unique : Unique m.services) :
    (reconcileOne d).wp surroundings asked (fun _ m _ => Unique m.services) m k := by
  refine wp_bind_read unique ?_
  refine wp_bind_entries (steady_self unique) visits rfl fun visited k' visit _ => ?_
  split
  · rename_i pid sup found
    obtain ⟨there,named⟩ := Services.find_visited visit found
    split
    · exact unique
    · exact wp_then (wp_replace unique there named) fun _ m k after => after
  · rename_i absent
    have free := Services.find_visited_none visit absent
    refine wp_bind_steady (steady_self unique) (plain_call rfl) rfl fun _ m' k same => ?_
    subst same
    exact wp_then (wp_start_untracked unique free) fun _ m k after => after

theorem wp_reconcile {touched : List String} (defs : List ServiceDef) (unique : Unique m.services) :
    (reconcile touched defs).wp surroundings asked (fun _ m _ => Unique m.services) m k := by
  induction defs generalizing touched m k with
  | nil => exact unique
  | cons d rest ih =>
    exact wp_then (wp_reconcileOne d unique) fun changed m k kept => ih kept

theorem wp_reloadServices (newDefs : List ServiceDef) (unique : Unique m.services) :
    (reloadServices newDefs).wp surroundings asked (fun _ m _ => Unique m.services) m k := by
  refine wp_bind_read unique ?_
  refine wp_bind_entries steady_unique visits unique fun visited k visit unique => ?_
  refine wp_then (wp_each (fun _ m _ => Unique (Memory.services m)) unique ?_) ?_
  · exact fun pid rest m k kept => wp_stopRemoved pid kept
  · exact fun _ m k kept => wp_reconcile newDefs kept

theorem wp_operate {defs : List ServiceDef} (distinct : (defs.map ServiceDef.name).Nodup)
    (operations : List Operation) (new : m.services = ∅) :
    (operate defs operations).wp surroundings asked (fun _ m _ => Unique m.services) m k := by
  refine wp_then (wp_spawnAll distinct new) fun _ m k unique => ?_
  refine wp_each (fun _ m _ => Unique (Memory.services m)) unique ?_
  intro operation rest m k kept
  cases operation with
  | handleExit status => exact wp_then (wp_handleExit status kept) fun _ m k after => after
  | reloadServices newDefs => exact wp_then (wp_reloadServices newDefs kept) fun _ m k after => after

end Operations

/-- Names stay unique through any operations, as long as the rescue shell and a service of its
name are kept apart. -/
theorem unique_names (defs : List ServiceDef) (operations : List Operation) (k : Kernel)
    (distinct : (defs.map ServiceDef.name).Nodup) {m : Memory} (new : m.services = ∅)
    {t : State Memory Op Op.Ans Kernel Unit}
    (run : Reaches (Kernel.machine.under shellApart).surroundings ⟨operate defs operations,m,k⟩ t) :
    Unique t.mem.services :=
  wp_everywhere run (wp_operate distinct operations new) fun _ _ _ unique => unique

section Runs

def shell : ServiceDef := { name := "shell", path := "/bin/mitos-shell", critical := true }

def display : ServiceDef := { name := "display", path := "/usr/bin/display", critical := true }

def job : ServiceDef := { name := "job", path := "/usr/bin/job", restart := .always }

def ordinaryRun : Option (State Memory Op Op.Ans Kernel Unit) :=
  drive (Kernel.machine.under shellApart) (Kernel.obliging (fun _ => true) Config.default)
    [.upTo (· == .waitpid (.only 102) true) 400,.stir (.exit 102 (some (.signaled .sigterm))),
      .upTo (fun _ => false) 400]
    ⟨operate [shell,job] [.handleExit (.ended 101 (.exited 1)),.reloadServices [shell,display]],{},{}⟩

theorem unique_names_ordinary : Unique (ordinaryRun.get (by decide +kernel)).mem.services :=
  unique_names [shell,job]
    [.handleExit (.ended 101 (.exited 1)),.reloadServices [shell,display]] {}
    (by decide +kernel) rfl (drive_reaches (Option.some_get _).symm)

def failingRun : Option (State Memory Op Op.Ans Kernel Unit) :=
  drive Kernel.machine (Kernel.obliging (· != .service "display" true) Config.default)
    [.upTo (fun _ => false) 400] ⟨operate [shell,display] [],{},{}⟩

theorem two_shells : ∃ (defs : List ServiceDef) (operations : List Operation) (m : Memory)
    (k : Kernel) (t : State Memory Op Op.Ans Kernel Unit), (defs.map ServiceDef.name).Nodup ∧
      m.services = ∅ ∧ Reaches Kernel.machine.surroundings ⟨operate defs operations,m,k⟩ t ∧
      ¬ Unique t.mem.services := by
  have both : failingRun.any (fun t => decide
      ((t.mem.services.lookup 100).map (fun sup => sup.definition.name) = some "shell" ∧
        (t.mem.services.lookup 101).map (fun sup => sup.definition.name) = some "shell")) = true := by
    decide +kernel
  obtain ⟨t,reached,named⟩ := (Option.any_eq_true _ _).mp both
  obtain ⟨left,right⟩ := of_decide_eq_true named
  obtain ⟨s,found,first⟩ := Option.map_eq_some_iff.mp left
  obtain ⟨s',found',second⟩ := Option.map_eq_some_iff.mp right
  refine ⟨[shell,display],[],{},{},t,by decide +kernel,rfl,drive_reaches reached,?_⟩
  intro unique
  have equal := unique 100 101 s s' found found' (first.trans second.symm)
  contradiction

end Runs
end MitosServices.Names
