import MitosServices.Ledger
import MitosServices.Names

/-! The boot and the reload that follows it. The boot tracks each service under the definition
that `effective_after` made of it, and a reload compares with the definitions as configured. -/
namespace MitosServices.Boot
open Interaction Interaction.Program
open Names (Unique)
open Pids (kindAt kindAt_none kindAt_addChild kindAt_addChild_self kindAt_reap_ne stir_kinds)

/-- Of the services in starting order, those the boot starts when no start fails. -/
def startedFrom (configured : List String) : List String → List ServiceDef → List ServiceDef
  | _, [] => []
  | spawned, d :: rest =>
    if (d.requires.filter fun r => configured.contains r && !spawned.contains r).isEmpty then
      d :: startedFrom configured (spawned ++ [d.name]) rest
    else startedFrom configured spawned rest

def startedAtBoot (defs : List ServiceDef) : List ServiceDef :=
  startedFrom (defs.map ServiceDef.name) [] (startingOrder (effectiveAfter defs))

def spawnsSucceed : Condition Memory Op Op.Ans Kernel Event where
  event _ _ _ _ := true
  reply
    | .spawn _ _, _, _, .error _ => false
    | _, _, _, _ => true

def rescueApart (name : String) : Condition Memory Op Op.Ans Kernel Event where
  event _ _ _ _ := true
  reply
    | .spawn .rescue _, _, _, .ok _ => name != fallbackShell.name
    | _, _, _, _ => true

/-- From `m` to `m'` the service has kept its entry in the table, and it is not among the touched. -/
def LeftAlone (name : String) (m m' : Memory) (touched : List String) : Prop :=
  (∃ pid sup, m.services.lookup pid = some sup ∧ sup.definition.name = name ∧
    m'.services.lookup pid = some sup) ∧ name ∉ touched

abbrev around (C : Condition Memory Op Op.Ans Kernel Event) : Surroundings Memory Op Op.Ans Kernel :=
  (Kernel.machine.under C).surroundings

abbrev asked (_ : Option Op) (_ : Memory) (_ : Kernel) : Prop := True

section Rules
variable {C : Condition Memory Op Op.Ans Kernel Event} {op : Op} {m : Memory} {k k' : Kernel}

theorem visits : Visits (around C) := by
  intro listed m e visited e' replied
  exact Kernel.answer_iterate (m := m) (Machine.under_answer_iff.mp replied).2

theorem moves_kinds {pid : Int} {κ : Pids.Kind} (moved : (around C).moves op m k k')
    (there : kindAt k pid = some κ) : kindAt k' pid = some κ := by
  obtain ⟨ev,stirred⟩ := moved
  exact stir_kinds (Machine.under_stir_iff.mp stirred).2 there

theorem replies_same {r : op.Ans} (quiet : op.quiet = true) (replied : (around C).replies op m k r k') :
    k' = k :=
  Kernel.answer_quiet quiet (Machine.under_answer_iff.mp replied).2

/-- A property that rests on the memory and on children being there. -/
theorem steady_children {P : Memory → Kernel → Prop}
    (grows : ∀ m k k', (∀ pid κ, kindAt k pid = some κ → kindAt k' pid = some κ) → P m k → P m k') :
    Steady (around C) asked P where
  moves _ m k k' moved held := grows m k k' (fun _ _ there => moves_kinds moved there) held
  replies _ _ _ _ _ quiet replied held := by
    rw [replies_same quiet replied]
    exact held
  holds _ _ _ _ _ := trivial

theorem spawned_new {origin : Origin} {command : Command} {pid : Int}
    (replied : (around C).replies (.spawn origin command) m k (.ok pid) k') :
    kindAt k pid = none ∧ kindAt k' pid = some (Pids.kind origin) ∧
      ∀ p κ, kindAt k p = some κ → kindAt k' p = some κ := by
  obtain ⟨fresh,rfl⟩ := @Kernel.answer_spawned origin command pid m _ _ (Machine.under_answer_iff.mp replied).2
  have unused : kindAt k pid = none := kindAt_none.mpr fresh
  exact ⟨unused,kindAt_addChild_self,fun p κ there => kindAt_addChild unused there⟩

end Rules

section Boot
variable {m : Memory} {k k' : Kernel} {done : List ServiceDef}

structure Booted (done : List ServiceDef) (m : Memory) (k : Kernel) : Prop where
  unique : Unique m.services
  defined : ∀ pid sup, m.services.lookup pid = some sup →
    sup.definition ∈ done ∧ kindAt k pid = some .service
  ran : ∀ d ∈ done, ∃ pid sup, m.services.lookup pid = some sup ∧ sup.definition = d

theorem booted_grows (kinds : ∀ pid κ, kindAt k pid = some κ → kindAt k' pid = some κ)
    (booted : Booted done m k) : Booted done m k' :=
  { booted with
    defined := fun pid sup found =>
      ⟨(booted.defined pid sup found).1,kinds pid _ (booted.defined pid sup found).2⟩ }

theorem booted_track {d : ServiceDef} {times : List Nat} {t : Nat} {pid : Int}
    (new : d.name ∉ done.map ServiceDef.name) (booted : Booted done m k)
    (free : m.services.lookup pid = none) (service : kindAt k pid = some .service) :
    Booted (done ++ [d]) (withService m pid ⟨d,times,t⟩) k where
  unique := by
    refine Names.unique_insert booted.unique (Services.tracks_eq_false.mpr fun p s found equal => ?_)
    exact new (equal ▸ List.mem_map_of_mem (booted.defined p s found).1)
  defined p s found := by
    rcases lookup_insert_iff.mp found with ⟨rfl,rfl⟩ | ⟨-,before⟩
    · exact ⟨List.mem_append_right _ (List.mem_singleton_self _),service⟩
    · exact ⟨List.mem_append_left _ (booted.defined p s before).1,(booted.defined p s before).2⟩
  ran d' member := by
    rcases List.mem_append.mp member with before | last
    · obtain ⟨p,s,found,equal⟩ := booted.ran d' before
      refine ⟨p,s,lookup_insert_iff.mpr (.inr ⟨?_,found⟩),equal⟩
      rintro rfl
      rw [free] at found
      contradiction
    · exact ⟨pid,_,lookup_insert_iff.mpr (.inl ⟨rfl,rfl⟩),(List.mem_singleton.mp last).symm⟩

theorem boot_phases {d : ServiceDef} (times : List Nat) (new : d.name ∉ done.map ServiceDef.name) :
    StartPhases (around spawnsSucceed) asked d times (Booted done)
      (fun pid m k => Booted done m k ∧ m.services.lookup pid = none ∧ kindAt k pid = some .service)
      (fun _ _ => False) (fun _ _ _ => False) (Booted (done ++ [d])) where
  before_steady := steady_children fun _ _ _ kinds booted => booted_grows kinds booted
  spawned_steady pid := steady_children fun _ _ _ kinds held =>
    ⟨booted_grows kinds held.1,held.2.1,kinds pid _ held.2.2⟩
  failed_steady := steady_children fun _ _ _ _ never => never
  rescue_steady _ := steady_children fun _ _ _ _ never => never
  child command pid m k k' booted replied := by
    obtain ⟨unused,service,kinds⟩ := spawned_new replied
    refine ⟨booted_grows kinds booted,?_,service⟩
    refine Option.eq_none_iff_forall_ne_some.mpr fun sup found => ?_
    rw [(booted.defined pid sup found).2] at unused
    contradiction
  refused _ _ _ _ _ _ replied := by
    have impossible := (Machine.under_answer_iff.mp replied).1
    simp [spawnsSucceed] at impossible
  shell _ _ _ _ _ never _ _ := never.elim
  noShell _ _ _ _ _ never _ _ := never.elim
  tracked pid t m k held := booted_track new held.1 held.2.1 held.2.2
  trackedShell _ _ _ _ never := never.elim
  missed _ _ never _ := never.elim

theorem wp_startEach {configured : List String} {rest : List ServiceDef}
    (distinct : ((done ++ rest).map ServiceDef.name).Nodup) (booted : Booted done m k) :
    (startEach configured (done.map ServiceDef.name) rest).wp (around spawnsSucceed) asked (fun _ =>
      Booted (done ++ startedFrom configured (done.map ServiceDef.name) rest)) m k := by
  induction rest generalizing done m k with
  | nil =>
    rw [startedFrom,List.append_nil]
    exact booted
  | cons d rest ih =>
    have new : d.name ∉ done.map ServiceDef.name := by
      rw [List.map_append,List.map_cons,List.nodup_middle,List.nodup_cons] at distinct
      exact fun member => distinct.1 (List.mem_append_left _ member)
    have steady : Steady (around spawnsSucceed) asked (Booted done) :=
      steady_children fun _ _ _ kinds booted => booted_grows kinds booted
    refine (wp_bind _ _ _ _ _).mpr ?_
    unfold startOne startedFrom
    dsimp only
    by_cases missing : (d.requires.filter fun r =>
        configured.contains r && !(done.map ServiceDef.name).contains r).isEmpty = true
    · rw [if_pos missing,if_neg (by rw [missing]; simp)]
      refine wp_bind_steady steady (uses_each fun dep _ => waitForReady_plain dep _) booted
        fun _ m k booted => ?_
      refine wp_then (wp_spawnWithHistory (boot_phases [] new) booted) fun _ m k booted => ?_
      have there : m.services.tracks d.name = true := by
        obtain ⟨pid,sup,found,equal⟩ := booted.ran d (List.mem_append_right _ (List.mem_singleton_self d))
        exact Services.tracks_iff.mpr ⟨pid,sup,found,equal ▸ rfl⟩
      refine wp_bind_read trivial ?_
      rw [if_pos there,wp_pure]
      have next := @ih m k (done ++ [d]) (by simpa using distinct) booted
      rw [List.map_append,List.append_assoc] at next
      exact next
    · rw [if_neg missing,if_pos (by simpa using missing)]
      refine wp_bind_steady steady (plain_call rfl) booted fun _ m k booted => ?_
      refine ih ?_ booted
      rw [List.map_append,List.map_cons,List.nodup_middle,List.nodup_cons] at distinct
      rw [List.map_append]
      exact distinct.2

theorem wp_spawnAll {defs : List ServiceDef} (distinct : (defs.map ServiceDef.name).Nodup)
    (new : m.services = ∅) : (spawnAll defs).wp (around spawnsSucceed) asked
      (fun _ => Booted (startedAtBoot defs)) m k := by
  have steady : Steady (around spawnsSucceed) asked fun m _ => m.services = ∅ :=
    steady_memory (P := fun m => m.services = ∅) fun _ _ _ _ _ => trivial
  refine wp_bind_topologicalOrder steady new fun m k new => ?_
  refine @wp_startEach m k [] _ _ (startingOrder_distinct distinct) ⟨?_,?_,by simp⟩
  · rw [new]
    exact Names.unique_empty
  · simp [new]

end Boot

section Reload
variable {name : String} {home : Option (Int × Supervised)} {m : Memory} {k k' : Kernel} {pid : Int}

/-- The one entry under `name`, if there is one, and the child behind it. -/
structure Standing (name : String) (home : Option (Int × Supervised)) (m : Memory) (k : Kernel) :
    Prop where
  only : ∀ pid sup, m.services.lookup pid = some sup → sup.definition.name = name →
    home = some (pid,sup)
  there : ∀ pid sup, home = some (pid,sup) → sup.definition.name = name ∧
    m.services.lookup pid = some sup ∧ kindAt k pid = some .service

def Beside (name : String) (home : Option (Int × Supervised)) (pid : Int) (m : Memory) (k : Kernel) :
    Prop :=
  Standing name home m k ∧ ∀ sup, home ≠ some (pid,sup)

theorem standing_grows (kinds : ∀ pid κ, kindAt k pid = some κ → kindAt k' pid = some κ)
    (standing : Standing name home m k) : Standing name home m k' where
  only := standing.only
  there pid sup here := by
    obtain ⟨named,found,service⟩ := standing.there pid sup here
    exact ⟨named,found,kinds pid _ service⟩

theorem standing_steady {C : Condition Memory Op Op.Ans Kernel Event} :
    Steady (around C) asked (Standing name home) :=
  steady_children fun _ _ _ kinds standing => standing_grows kinds standing

theorem beside_steady {C : Condition Memory Op Op.Ans Kernel Event} (pid : Int) :
    Steady (around C) asked (Beside name home pid) :=
  steady_children fun _ _ _ kinds beside => ⟨standing_grows kinds beside.1,beside.2⟩

theorem standing_erase (beside : Beside name home pid m k) :
    Standing name home (withoutService m pid) k where
  only p sup found named := beside.1.only p sup (lookup_erase_iff.mp found).2 named
  there p sup here := by
    obtain ⟨named,found,service⟩ := beside.1.there p sup here
    refine ⟨named,lookup_erase_iff.mpr ⟨?_,found⟩,service⟩
    rintro rfl
    exact beside.2 sup here

theorem standing_insert {sup : Supervised} (other : sup.definition.name ≠ name)
    (beside : Beside name home pid m k) : Standing name home (withService m pid sup) k where
  only p s found named := by
    rcases lookup_insert_iff.mp found with ⟨-,rfl⟩ | ⟨-,before⟩
    · exact absurd named other
    · exact beside.1.only p s before named
  there p s here := by
    obtain ⟨named,found,service⟩ := beside.1.there p s here
    refine ⟨named,lookup_insert_iff.mpr (.inr ⟨?_,found⟩),service⟩
    rintro rfl
    exact beside.2 s here

theorem standing_spawned {C : Condition Memory Op Op.Ans Kernel Event} {origin : Origin}
    {command : Command} (standing : Standing name home m k)
    (replied : (around C).replies (.spawn origin command) m k (.ok pid) k') :
    Beside name home pid m k' := by
  obtain ⟨unused,-,kinds⟩ := spawned_new replied
  refine ⟨standing_grows kinds standing,fun sup here => ?_⟩
  rw [(standing.there pid sup here).2.2] at unused
  contradiction

theorem standing_unspawned {C : Condition Memory Op Op.Ans Kernel Event} {origin : Origin}
    {command : Command} {err : String} (standing : Standing name home m k)
    (replied : (around C).replies (.spawn origin command) m k (.error err) k') :
    Standing name home m k' := by
  have same := Option.some.inj (Machine.under_answer_iff.mp replied).2
  exact same ▸ standing

theorem beside_phases {d : ServiceDef} (times : List Nat) (other : d.name ≠ name) :
    StartPhases (around (rescueApart name)) asked d times (Standing name home) (Beside name home)
      (Standing name home) (fun pid m k => Beside name home pid m k ∧ name ≠ fallbackShell.name)
      (Standing name home) where
  before_steady := standing_steady
  spawned_steady := beside_steady
  failed_steady := standing_steady
  rescue_steady pid := steady_children fun _ _ _ kinds held =>
    ⟨⟨standing_grows kinds held.1.1,held.1.2⟩,held.2⟩
  child _ _ _ _ _ standing replied := standing_spawned standing replied
  refused _ _ _ _ _ standing replied := standing_unspawned standing replied
  shell _ _ _ _ _ standing _ replied := by
    refine ⟨standing_spawned standing replied,?_⟩
    exact bne_iff_ne.mp (Machine.under_answer_iff.mp replied).1
  noShell _ _ _ _ _ standing _ replied := standing_unspawned standing replied
  tracked _ _ _ _ beside := standing_insert other beside
  trackedShell _ _ _ _ held := standing_insert (Ne.symm held.2) held.1
  missed _ _ standing _ := standing

theorem standing_waited {C : Condition Memory Op Op.Ans Kernel Event} {status : Except Errno WaitStatus}
    (beside : Beside name home pid m k)
    (replied : (around C).replies (.waitpid (.only pid) true) m k status k') :
    Beside name home pid m k' := by
  have answered := (Machine.under_answer_iff.mp replied).2
  refine ⟨⟨beside.1.only,fun p sup here => ?_⟩,beside.2⟩
  obtain ⟨named,found,service⟩ := beside.1.there p sup here
  refine ⟨named,found,?_⟩
  rcases Kernel.waited_only answered with ⟨children,-⟩ | ⟨reaped,-⟩
  · rw [kindAt,children]
    exact service
  · rw [reaped,kindAt_reap_ne,service]
    rintro rfl
    exact beside.2 sup here

theorem wp_stop {C : Condition Memory Op Op.Ans Kernel Event} {service : String}
    (beside : Beside name home pid m k) :
    (stopOne pid service).wp (around C) asked (fun _ => Standing name home) m k := by
  refine wp_mono (wp_stopOne (.uniform (beside_steady pid) (fun _ _ _ _ => trivial) ?_) beside)
    fun _ m k after => after.1
  exact fun status m k k' beside replied => standing_waited beside replied

theorem beside_of_named {sup : Supervised} (standing : Standing name home m k)
    (found : m.services.lookup pid = some sup) (other : sup.definition.name ≠ name) :
    Beside name home pid m k := by
  refine ⟨standing,fun s here => other ?_⟩
  obtain ⟨named,there,-⟩ := standing.there pid s here
  rw [found] at there
  exact Option.some.inj there ▸ named

theorem wp_stopRemoved {C : Condition Memory Op Op.Ans Kernel Event} (beside : Beside name home pid m k) :
    (stopRemoved pid).wp (around C) asked (fun _ => Standing name home) m k := by
  refine wp_bind_removeService trivial ?_
  have erased := standing_erase beside
  cases m.services.lookup pid with
  | none => exact erased
  | some sup =>
    refine wp_bind_steady (beside_steady pid) (plain_call rfl) ⟨erased,beside.2⟩ fun _ m k beside => ?_
    refine wp_then (wp_stop beside) fun _ m k standing => ?_
    exact wp_steady standing_steady (plain_call rfl) standing

theorem wp_reconcileOther {d : ServiceDef} (other : d.name ≠ name) (standing : Standing name home m k) :
    (reconcileOne d).wp (around (rescueApart name)) asked (fun _ => Standing name home) m k := by
  refine wp_bind_read trivial ?_
  refine wp_bind_entries (steady_memory_and standing_steady m) visits ⟨standing,rfl⟩
    fun visited k visit held => ?_
  have standing := held.1
  split
  · rename_i pid sup found
    obtain ⟨there,named⟩ := Services.find_visited visit found
    split
    · exact standing
    · refine wp_then (R := fun _ => Standing name home) ?_ fun _ m k after => after
      refine wp_bind_steady (steady_memory_and standing_steady m) (plain_call rfl) ⟨standing,rfl⟩ ?_
      intro _ m' k held
      have tracked : m'.services.lookup pid = some sup := held.2 ▸ there
      have beside : Beside name home pid m' k := beside_of_named held.1 tracked (named ▸ other)
      refine wp_bind_removeService trivial ?_
      refine wp_then (wp_stop ⟨standing_erase beside,beside.2⟩) fun _ m k standing => ?_
      exact wp_spawnWithHistory (beside_phases [] other) standing
  · refine wp_bind_steady standing_steady (plain_call rfl) standing fun _ m k standing => ?_
    refine wp_then (wp_spawnWithHistory (beside_phases [] other) standing) fun _ m k after => after

/-- Definitions of other names neither move the entry nor touch the name. -/
theorem wp_reconcileOthers {touched : List String} {defs : List ServiceDef}
    (others : name ∉ defs.map ServiceDef.name) (standing : Standing name home m k) :
    (reconcile touched defs).wp (around (rescueApart name)) asked (fun result m k =>
      Standing name home m k ∧ (name ∈ result ↔ name ∈ touched)) m k := by
  induction defs generalizing touched m k with
  | nil => exact ⟨standing,Iff.rfl⟩
  | cons d rest ih =>
    rw [List.map_cons,List.mem_cons,not_or] at others
    obtain ⟨other,others⟩ := others
    refine wp_then (wp_reconcileOther (Ne.symm other) standing) fun changed m k standing => ?_
    refine wp_mono (ih others standing) fun result m k after => ⟨after.1,after.2.trans ?_⟩
    split
    · simp [other]
    · exact Iff.rfl

/-- What has been touched stays so. -/
theorem wp_reconcile_touched {C : Condition Memory Op Op.Ans Kernel Event} {touched : List String}
    {defs : List ServiceDef} (before : name ∈ touched) :
    (reconcile touched defs).wp (around C) asked (fun result _ _ => name ∈ result) m k := by
  induction defs generalizing touched m k with
  | nil => exact before
  | cons d rest ih =>
    refine wp_then (wp_trivial _ m k) fun changed m k _ => ih ?_
    split
    · exact List.mem_append_left _ before
    · exact before

/-- The definition under the name itself: left alone if it is the tracked one, else touched. -/
theorem wp_reconcileSelf {C : Condition Memory Op Op.Ans Kernel Event} {d : ServiceDef}
    (standing : Standing d.name home m k) :
    (reconcileOne d).wp (around C) asked (fun changed m k =>
      changed = !home.any (fun entry => entry.2.definition == d) ∧
        (changed = false → Standing d.name home m k)) m k := by
  refine wp_bind_read trivial ?_
  refine wp_bind_entries (steady_memory_and standing_steady m) visits ⟨standing,rfl⟩
    fun visited k visit held => ?_
  have standing := held.1
  split
  · rename_i pid sup found
    obtain ⟨there,named⟩ := Services.find_visited visit found
    have here : home = some (pid,sup) := standing.only pid sup there named
    by_cases same : defsEqual sup.definition d = true
    · rw [if_pos same]
      rw [defsEqual_iff named] at same
      exact ⟨by simp [here,same],fun _ => standing⟩
    · rw [if_neg same]
      rw [defsEqual_iff named] at same
      exact wp_then (wp_trivial _ m k) fun _ m k _ => ⟨by simp [here,same],by simp⟩
  · rename_i absent
    have free := Services.find_visited_none visit absent
    have nowhere : home = none := by
      refine Option.eq_none_iff_forall_ne_some.mpr fun entry here => ?_
      obtain ⟨named,there,-⟩ := standing.there entry.1 entry.2 here
      exact Services.tracks_eq_false.mp free entry.1 entry.2 there named
    refine wp_then (wp_trivial _ m k) fun _ m k _ => ?_
    refine wp_then (wp_trivial _ m k) fun _ m k _ => ⟨by simp [nowhere],by simp⟩

/-- The service keeps its entry and its name stays out of the touched, just when the entry has
the definition. -/
theorem wp_reconcile {d : ServiceDef} {touched : List String} {before after : List ServiceDef}
    (distinct : ((before ++ d :: after).map ServiceDef.name).Nodup) (untouched : d.name ∉ touched)
    (standing : Standing d.name home m k) :
    (reconcile touched (before ++ d :: after)).wp (around (rescueApart d.name)) asked
      (fun result m k => if home.any (fun entry => entry.2.definition == d)
        then Standing d.name home m k ∧ d.name ∉ result else d.name ∈ result) m k := by
  rw [List.map_append,List.map_cons,List.nodup_middle,List.nodup_cons,List.mem_append,not_or] at distinct
  obtain ⟨⟨early,late⟩,-⟩ := distinct
  induction before generalizing touched m k with
  | nil =>
    refine wp_then (wp_reconcileSelf standing) fun changed m k self => ?_
    obtain ⟨result,stays⟩ := self
    cases kept : home.any fun entry => entry.2.definition == d with
    | true =>
      rw [kept] at result
      subst result
      refine wp_mono (wp_reconcileOthers late (stays rfl)) fun result m k after => ?_
      exact ⟨after.1,fun member => untouched (after.2.mp member)⟩
    | false =>
      rw [kept] at result
      subst result
      exact wp_reconcile_touched (List.mem_append_right _ (List.mem_singleton_self _))
  | cons d' rest ih =>
    rw [List.map_cons,List.mem_cons,not_or] at early
    obtain ⟨other,early⟩ := early
    refine wp_then (wp_reconcileOther (Ne.symm other) standing) fun changed m k standing => ?_
    refine ih ?_ standing early
    split
    · simp [untouched,other]
    · exact untouched

theorem wp_reloadServices {d : ServiceDef} {newDefs : List ServiceDef}
    (distinct : (newDefs.map ServiceDef.name).Nodup) (member : d ∈ newDefs)
    (standing : Standing d.name home m k) :
    (reloadServices newDefs).wp (around (rescueApart d.name)) asked
      (fun result m k => if home.any (fun entry => entry.2.definition == d)
        then Standing d.name home m k ∧ d.name ∉ result else d.name ∈ result) m k := by
  obtain ⟨before,after,rfl⟩ := List.append_of_mem member
  refine wp_bind_read trivial ?_
  refine wp_bind_entries (steady_memory_and standing_steady m) visits ⟨standing,rfl⟩
    fun visited k visit held => ?_
  have elsewhere : ∀ pid ∈ removedPids (before ++ d :: after) visited, ∀ sup, home ≠ some (pid,sup) := by
    intro pid removed sup here
    obtain ⟨named,there,-⟩ := held.1.there pid sup here
    obtain ⟨⟨p,s⟩,inside,rfl⟩ := List.mem_map.mp removed
    obtain ⟨seen,unnamed⟩ := List.mem_filter.mp inside
    have same := Services.mem_toList.mp (visit.mem_iff.mp seen)
    rw [there] at same
    cases same
    simp [named] at unnamed
  refine wp_then (wp_each (fun pids m k => Standing d.name home m k ∧
    ∀ pid ∈ pids, ∀ sup, home ≠ some (pid,sup)) ⟨held.1,elsewhere⟩ ?_) ?_
  · rintro pid rest m k ⟨standing,elsewhere⟩
    refine wp_mono (wp_stopRemoved ⟨standing,elsewhere pid (.head _)⟩) fun _ m k standing => ?_
    exact ⟨standing,fun p member => elsewhere p (.tail _ member)⟩
  · exact fun _ m k left => wp_reconcile distinct List.not_mem_nil left.1

end Reload

section Agreement
variable {defs : List ServiceDef} {d : ServiceDef}

theorem startedFrom_sublist (configured spawned : List String) (ordered : List ServiceDef) :
    (startedFrom configured spawned ordered).Sublist ordered := by
  induction ordered generalizing spawned with
  | nil => exact .slnil
  | cons d rest ih =>
    unfold startedFrom
    split
    · exact (ih _).cons_cons d
    · exact (ih _).cons d

/-- The boot tracks a service under its configured definition just when nothing was folded into
it, unless it skips the service. -/
theorem mem_startedAtBoot_iff (distinct : (defs.map ServiceDef.name).Nodup) (member : d ∈ defs) :
    d ∈ startedAtBoot defs ↔
      Settled defs d ∧ d.name ∈ (startedAtBoot defs).map ServiceDef.name := by
  have only : ∀ d' ∈ startedAtBoot defs, d'.name = d.name → d' = folded defs d := by
    intro d' started equal
    have placed := (startedFrom_sublist _ _ _).subset started
    rw [(startingOrder_perm _).mem_iff,effectiveAfter_eq distinct] at placed
    obtain ⟨source,inside,rfl⟩ := List.mem_map.mp placed
    rw [List.inj_on_of_nodup_map distinct inside member equal]
  constructor
  · intro started
    exact ⟨folded_eq_iff.mp (only d started rfl).symm,List.mem_map_of_mem started⟩
  · rintro ⟨settled,named⟩
    obtain ⟨d',started,equal⟩ := List.mem_map.mp named
    rw [only d' started equal,folded_eq_iff.mpr settled] at started
    exact started

theorem standing_booted {m : Memory} {k : Kernel} {done : List ServiceDef} (name : String)
    (booted : Booted done m k) : ∃ home, Standing name home m k ∧
      ∀ d : ServiceDef, d.name = name → (home.any (fun entry => entry.2.definition == d) = true ↔ d ∈ done) := by
  by_cases tracked : ∃ pid sup, m.services.lookup pid = some sup ∧ sup.definition.name = name
  · obtain ⟨pid,sup,found,named⟩ := tracked
    have only : ∀ p s, m.services.lookup p = some s → s.definition.name = name →
        some (pid,sup) = some (p,s) := by
      intro p s there equal
      obtain rfl := booted.unique pid p sup s found there (named.trans equal.symm)
      rw [found] at there
      rw [Option.some.inj there]
    refine ⟨some (pid,sup),⟨only,?_⟩,fun d equal => ?_⟩
    · rintro _ _ ⟨⟩
      exact ⟨named,found,(booted.defined pid sup found).2⟩
    · rw [Option.any_some,beq_iff_eq]
      constructor
      · rintro rfl
        exact (booted.defined pid sup found).1
      · intro member
        obtain ⟨p,s,there,rfl⟩ := booted.ran d member
        have same := only p s there equal
        cases same
        rfl
  · refine ⟨none,⟨fun pid sup found named => absurd ⟨pid,sup,found,named⟩ tracked,by simp⟩,?_⟩
    intro d equal
    simp only [Option.any_none,Bool.false_eq_true,false_iff]
    intro member
    obtain ⟨pid,sup,found,rfl⟩ := booted.ran d member
    exact tracked ⟨pid,sup,found,equal⟩

end Agreement

/-- After a boot in which every spawn succeeds, a reload leaves a service alone that is configured
as before if and only if the boot has started it and folded nothing into its definition. -/
theorem reload_leaves_alone_iff (old new : List ServiceDef) (d : ServiceDef)
    (oldDistinct : (old.map ServiceDef.name).Nodup) (newDistinct : (new.map ServiceDef.name).Nodup)
    (before : d ∈ old) (after : d ∈ new) {m m₁ m₂ : Memory} {k k₁ k₂ : Kernel}
    {touched : List String} (empty : m.services = ∅)
    (boot : Reaches (Kernel.machine.under spawnsSucceed).surroundings ⟨spawnAll old,m,k⟩ ⟨.ret (),m₁,k₁⟩)
    (reload : Reaches (Kernel.machine.under (rescueApart d.name)).surroundings
      ⟨reloadServices new,m₁,k₁⟩ ⟨.ret touched,m₂,k₂⟩) :
    LeftAlone d.name m₁ m₂ touched ↔
      Settled old d ∧ d.name ∈ (startedAtBoot old).map ServiceDef.name := by
  have booted := wp_returns boot (wp_spawnAll oldDistinct empty)
  obtain ⟨home,standing,runs⟩ := standing_booted d.name booted
  rw [← mem_startedAtBoot_iff oldDistinct before,← runs d rfl]
  have reloaded := wp_returns reload (wp_reloadServices newDistinct after standing)
  split at reloaded
  · rename_i kept
    rw [kept]
    obtain ⟨⟨pid,sup⟩,here,-⟩ := (Option.any_eq_true _ _).mp kept
    obtain ⟨named,found,-⟩ := standing.there pid sup here
    obtain ⟨-,found',-⟩ := reloaded.1.there pid sup here
    simp only [iff_true]
    exact ⟨⟨pid,sup,found,named,found'⟩,reloaded.2⟩
  · rename_i changed
    constructor
    · exact fun alone => absurd reloaded alone.2
    · exact fun kept => absurd kept changed

section Runs

def network : ServiceDef := { name := "network", path := "/usr/bin/network" }

def mail : ServiceDef := { name := "mail", path := "/usr/bin/mail", requires := ["network"] }

def booted : Option (State Memory Op Op.Ans Kernel Unit) :=
  drive (Kernel.machine.under spawnsSucceed) (Kernel.obliging (fun _ => true) Config.default)
    [.upTo (fun _ => false) 200] ⟨spawnAll [network,mail],{},{}⟩

def bootedMemory : Memory := (booted.get (by decide +kernel)).mem

def bootedKernel : Kernel := (booted.get (by decide +kernel)).env

theorem boot_reached : Reaches (Kernel.machine.under spawnsSucceed).surroundings
    ⟨spawnAll [network,mail],{},{}⟩ ⟨.ret (),bootedMemory,bootedKernel⟩ :=
  drive_returned (Option.some_get _).symm (by decide +kernel)

/-- The same definitions again: the mail service is stopped, and ends when it is told to. -/
def reloaded (C : Condition Memory Op Op.Ans Kernel Event) :
    Option (State Memory Op Op.Ans Kernel (List String)) :=
  drive (Kernel.machine.under C) (Kernel.obliging (fun _ => true) Config.default)
    [.upTo (· == .waitpid (.only 101) true) 200,.stir (.exit 101 (some (.signaled .sigterm))),
      .upTo (fun _ => false) 200]
    ⟨reloadServices [network,mail],bootedMemory,bootedKernel⟩

theorem reload_leaves_alone_iff_network : ∃ m₂, LeftAlone "network" bootedMemory m₂ ["mail"] := by
  have went : (reloaded (rescueApart network.name)).bind State.result? = some ["mail"] := by
    decide +kernel
  obtain ⟨m₂,k₂,run⟩ := drive_returns went
  refine ⟨m₂,(reload_leaves_alone_iff [network,mail] [network,mail] network (by decide) (by decide)
    (by simp) (by simp) rfl boot_reached run).mpr ⟨?_,by decide +kernel⟩⟩
  simp [Settled,network,mail]

theorem same_config_restarts : ∃ (old new : List ServiceDef) (d : ServiceDef) (m m₁ m₂ : Memory)
    (k k₁ k₂ : Kernel) (touched : List String), (old.map ServiceDef.name).Nodup ∧
      (new.map ServiceDef.name).Nodup ∧ d ∈ old ∧ d ∈ new ∧ m.services = ∅ ∧
      Reaches (Kernel.machine.under spawnsSucceed).surroundings ⟨spawnAll old,m,k⟩ ⟨.ret (),m₁,k₁⟩ ∧
      k₁.someEnded = false ∧ Reaches (Kernel.machine.under spawnsSucceed).surroundings
        ⟨reloadServices new,m₁,k₁⟩ ⟨.ret touched,m₂,k₂⟩ ∧ ¬ LeftAlone d.name m₁ m₂ touched := by
  have went : (reloaded spawnsSucceed).bind State.result? = some ["mail"] := by
    decide +kernel
  obtain ⟨m₂,k₂,run⟩ := drive_returns went
  refine ⟨[network,mail],[network,mail],mail,{},bootedMemory,m₂,{},bootedKernel,k₂,["mail"],
    by decide,by decide,by simp,by simp,rfl,boot_reached,by decide +kernel,run,?_⟩
  exact fun alone => alone.2 (by decide)

end Runs
end MitosServices.Boot
