import MitosServices.Turns

/-! Required services at boot. They are looked for among the services of the target that have been
started so far, whatever else is configured or is still to come. -/
namespace MitosServices.Requirements
open Interaction Interaction.Program
open Turns
open Pids (originAt)
open Boot (startedFrom startedAtBoot)

/-- No rescue shell stands in for a configured service of its name: it neither runs already when
that service fails to start, nor is started for it. -/
def noStandIn : Condition Memory Op Op.Ans (Kernel × Record) Event where
  event _ _ _ _ := true
  reply
    | .spawn (.service name _) _, m, _, .error _ => !m.services.tracks name
    | .spawn .rescue _, _, e, .ok _ => e.2.handed.getLast? != some fallbackShell.name
    | _, _, _, _ => true

abbrev surroundings : Surroundings Memory Op Op.Ans (Kernel × Record) :=
  (watched.under noStandIn).surroundings

def Running (name : String) (m : Memory) (k : Kernel) : Prop :=
  ∃ pid sup critical, m.services.lookup pid = some sup ∧ sup.definition.name = name ∧
    originAt k pid = some (.service name critical)

/-- Whatever the spawns come to, the boot of a target hands a service to spawn just when every
configured service it requires is running at the end. -/
def StartsByRequirements (all : List ServiceDef) (target : String) : Prop :=
  ∀ m k m' e', m.services = ∅ → Reaches surroundings
      ⟨spawnAll (Targets.servicesIn all target),m,(k,{})⟩ ⟨.ret (),m',e'⟩ →
    ∀ d ∈ Targets.servicesIn all target, d.name ∈ e'.2.handed ↔
      ∀ r ∈ d.requires, r ∈ all.map ServiceDef.name → Running r m' e'.1

def startedNames (all : List ServiceDef) (target : String) : List String :=
  (startedAtBoot (Targets.servicesIn all target)).map ServiceDef.name

/-- The services of a target require nothing outside it, as far as they are started, and those
that are not started do require something that is not. -/
structure SelfContained (all : List ServiceDef) (target : String) : Prop where
  contained : ∀ d ∈ Targets.servicesIn all target, d.name ∈ startedNames all target →
    ∀ r ∈ d.requires, r ∈ all.map ServiceDef.name →
      r ∈ (Targets.servicesIn all target).map ServiceDef.name
  justified : ∀ d ∈ Targets.servicesIn all target, d.name ∉ startedNames all target →
    ∃ r ∈ d.requires, r ∈ all.map ServiceDef.name ∧ r ∉ startedNames all target

section Turn
variable {m : Memory} {k k' : Kernel} {d : ServiceDef} {configured spawned names : List String}

structure Exact (spawned : List String) (m : Memory) (k : Kernel) : Prop where
  backed : ∀ pid sup, m.services.lookup pid = some sup → ∃ o, originAt k pid = some o
  running : ∀ n, n ∈ spawned ↔ Running n m k

theorem exact_grows
    (origins : ∀ pid origin, originAt k pid = some origin → originAt k' pid = some origin)
    (exact_ : Exact spawned m k) : Exact spawned m k' where
  backed pid sup found := by
    obtain ⟨o,there⟩ := exact_.backed pid sup found
    exact ⟨o,origins pid o there⟩
  running n := by
    rw [exact_.running n]
    constructor
    · rintro ⟨pid,sup,critical,found,named,there⟩
      exact ⟨pid,sup,critical,found,named,origins pid _ there⟩
    · rintro ⟨pid,sup,critical,found,named,after⟩
      obtain ⟨o,there⟩ := exact_.backed pid sup found
      have same := (origins pid o there).symm.trans after
      exact ⟨pid,sup,critical,found,named,there.trans same⟩

/-- A new entry: its name is running if it was started as a service. -/
theorem exact_insert {pid : Int} {sup : Supervised} {o : Origin} (unused : originAt k pid = none)
    (new : originAt k' pid = some o)
    (origins : ∀ p o, originAt k p = some o → originAt k' p = some o) (exact_ : Exact spawned m k)
    {after : List String} (grown : ∀ n, n ∈ after ↔ n ∈ spawned ∨
      sup.definition.name = n ∧ ∃ critical, o = .service n critical) :
    Exact after (withService m pid sup) k' := by
  have grows := exact_grows origins exact_
  have elsewhere : ∀ p s, m.services.lookup p = some s → p ≠ pid := by
    rintro p s found rfl
    obtain ⟨o,there⟩ := exact_.backed p s found
    rw [unused] at there
    contradiction
  constructor
  · intro p s found
    rcases lookup_insert_iff.mp found with ⟨rfl,-⟩ | ⟨-,before⟩
    · exact ⟨o,new⟩
    · exact grows.backed p s before
  · intro n
    rw [grown n,grows.running n]
    constructor
    · rintro (⟨p,s,critical,found,named,there⟩ | ⟨named,critical,rfl⟩)
      · exact ⟨p,s,critical,lookup_insert_iff.mpr (.inr ⟨elsewhere p s found,found⟩),named,there⟩
      · exact ⟨pid,sup,critical,lookup_insert_iff.mpr (.inl ⟨rfl,rfl⟩),named,new⟩
    · rintro ⟨p,s,critical,found,named,there⟩
      rcases lookup_insert_iff.mp found with ⟨rfl,rfl⟩ | ⟨-,before⟩
      · rw [new] at there
        exact .inr ⟨named,critical,Option.some.inj there⟩
      · exact .inl ⟨p,s,critical,before,named,there⟩

def Handed (spawned names : List String) (d : ServiceDef) (m : Memory) (e : Kernel × Record) : Prop :=
  e.2.handed = names ++ [d.name] ∧
    (m.services.tracks d.name = true ∧ Exact (spawned ++ [d.name]) m e.1 ∨
      m.services.tracks d.name = false ∧ Exact spawned m e.1)

theorem start_phases (times : List Nat) : StartPhases surroundings asked d times
    (fun m e => e.2.handed = names ∧ Exact spawned m e.1)
    (fun pid m e => e.2.handed = names ++ [d.name] ∧ ∀ sup, sup.definition = d →
      Exact (spawned ++ [d.name]) (withService m pid sup) e.1)
    (fun m e => e.2.handed = names ++ [d.name] ∧ m.services.tracks d.name = false ∧
      Exact spawned m e.1)
    (fun pid m e => e.2.handed = names ++ [d.name] ∧ d.name ≠ fallbackShell.name ∧
      m.services.tracks d.name = false ∧
      ∀ t, Exact spawned (withService m pid ⟨fallbackShell,[],t⟩) e.1)
    (Handed spawned names d) where
  before_steady := steady_handed (watches_under _) fun _ _ _ origins same held =>
    ⟨same.trans held.1,exact_grows origins held.2⟩
  spawned_steady _ := steady_handed (watches_under _) fun _ _ _ origins same held =>
    ⟨same.trans held.1,fun sup named => exact_grows origins (held.2 sup named)⟩
  failed_steady := steady_handed (watches_under _) fun _ _ _ origins same held =>
    ⟨same.trans held.1,held.2.1,exact_grows origins held.2.2⟩
  rescue_steady _ := steady_handed (watches_under _) fun _ _ _ origins same held =>
    ⟨same.trans held.1,held.2.1,held.2.2.1,fun t => exact_grows origins (held.2.2.2 t)⟩
  child command pid m e e' held replied := by
    obtain ⟨unused,service,origins⟩ := spawned_new (watches_under _) replied
    have named := handed_spawn (watches_under _) replied
    refine ⟨by rw [named,← held.1],?_⟩
    rintro sup rfl
    refine exact_insert unused service origins held.2 fun n => ?_
    simp only [List.mem_append,List.mem_singleton,Origin.service.injEq]
    constructor
    · exact fun known => known.imp id fun same => ⟨same.symm,_,same.symm,rfl⟩
    · exact fun known => known.imp id fun same => same.1.symm
  refused command err m e e' held replied := by
    have same := unspawned_same (watches_under _) replied
    have named := handed_spawn (watches_under _) replied
    have untracked := (Machine.under_answer_iff.mp replied).1
    simp only [noStandIn,Bool.not_eq_true'] at untracked
    refine ⟨by rw [named,← held.1],untracked,?_⟩
    rw [same]
    exact held.2
  shell command pid m e e' held critical replied := by
    obtain ⟨unused,rescue,origins⟩ := spawned_new (watches_under _) replied
    have unheard := rescue_unheard (watches_under _) replied
    have apart := (Machine.under_answer_iff.mp replied).1
    simp only [noStandIn,held.1,List.getLast?_append_cons,List.getLast?_singleton,bne_iff_ne,ne_eq,
      Option.some.injEq] at apart
    refine ⟨by rw [unheard,held.1],apart,held.2.1,fun t => ?_⟩
    exact exact_insert unused rescue origins held.2.2 fun n => by simp
  noShell command err m e e' held critical replied := by
    have same := unspawned_same (watches_under _) replied
    have unheard := rescue_unheard (watches_under _) replied
    refine ⟨by rw [unheard,held.1],.inr ⟨held.2.1,?_⟩⟩
    rw [same]
    exact held.2.2
  tracked pid t m e held := by
    refine ⟨held.1,.inl ⟨?_,held.2 _ rfl⟩⟩
    exact Services.tracks_iff.mpr ⟨pid,_,lookup_insert_iff.mpr (.inl ⟨rfl,rfl⟩),rfl⟩
  trackedShell pid t m e held := by
    refine ⟨held.1,.inr ⟨?_,held.2.2.2 t⟩⟩
    rw [← Bool.not_eq_true]
    intro there
    rcases Services.tracks_insert there with before | same
    · rw [held.2.2.1] at before
      contradiction
    · exact held.2.1 same
  missed m e held _ := ⟨held.1,.inr held.2⟩

/-- One turn: skipped if something is missing, else handed to spawn, and spawned if it runs. -/
theorem wp_startOne {e : Kernel × Record} (exact_ : Exact spawned m e.1) :
    (startOne configured spawned d).wp surroundings asked (fun spawned' m e' =>
      Exact spawned' m e'.1 ∧
      (Met configured spawned d ∧ e'.2.handed = e.2.handed ++ [d.name] ∧
          (spawned' = spawned ∨ spawned' = spawned ++ [d.name]) ∨
        ¬ Met configured spawned d ∧ e'.2.handed = e.2.handed ∧ spawned' = spawned)) m e := by
  have steady : Steady surroundings asked fun m e' =>
      e'.2.handed = e.2.handed ∧ Exact spawned m e'.1 :=
    steady_handed (watches_under _) fun _ _ _ origins same held =>
      ⟨same.trans held.1,exact_grows origins held.2⟩
  unfold startOne
  dsimp only
  by_cases met : Met configured spawned d
  · rw [met_iff.mpr met,if_neg (by simp)]
    refine wp_bind_steady steady (uses_each fun dep _ => waitForReady_plain dep _) ⟨rfl,exact_⟩
      fun _ m e' held => ?_
    refine wp_then (wp_spawnWithHistory (start_phases []) held) fun _ m e' after => ?_
    refine wp_bind_read trivial ?_
    rw [wp_pure]
    obtain ⟨named,⟨tracked,runs⟩ | ⟨untracked,same⟩⟩ := after
    · rw [if_pos tracked]
      exact ⟨runs,.inl ⟨met,named,.inr rfl⟩⟩
    · rw [if_neg (by simp [untracked])]
      exact ⟨same,.inl ⟨met,named,.inl rfl⟩⟩
  · have missing := fun empty => met (met_iff.mp empty)
    rw [if_pos (by simpa using missing)]
    refine wp_bind_steady steady (plain_call rfl) ⟨rfl,exact_⟩ fun _ m e' held => ?_
    exact ⟨held.2,.inr ⟨met,held.1,rfl⟩⟩

end Turn

section Run
variable {m : Memory} {e : Kernel × Record} {done rest : List ServiceDef} {d : ServiceDef}
  {configured spawned spawned' names names' : List String}

/-- Where a boot stands after the turns of `done`: nothing has gone further than it goes when
every spawn succeeds, and of what it reaches then, that is handed over which has all it requires. -/
structure Standing (configured : List String) (done : List ServiceDef) (spawned names : List String) :
    Prop where
  spawned_started : ∀ n ∈ spawned, n ∈ (startedFrom configured [] done).map ServiceDef.name
  handed_started : ∀ n ∈ names, n ∈ (startedFrom configured [] done).map ServiceDef.name
  fair : ∀ d ∈ startedFrom configured [] done, d.name ∈ names ↔ Met configured spawned d

theorem started_names {n : String} (member : n ∈ (startedFrom configured [] done).map ServiceDef.name) :
    n ∈ done.map ServiceDef.name :=
  ((Boot.startedFrom_sublist configured [] done).map ServiceDef.name).subset member

/-- What is spawned later is not what an earlier service was waiting for. -/
theorem met_append (new : d.name ∉ done.map ServiceDef.name) {d' : ServiceDef}
    (member : d' ∈ startedFrom configured [] done) :
    Met configured (spawned ++ [d.name]) d' ↔ Met configured spawned d' := by
  constructor
  · intro met r required known
    have early := startedFrom_met member r required known
    rw [List.nil_append] at early
    rcases List.mem_append.mp (met r required known) with before | last
    · exact before
    · rw [List.mem_singleton.mp last] at early
      exact absurd (started_names early) new
  · exact fun met => met_mono met fun n => List.mem_append_left _

theorem standing_skip (new : d.name ∉ done.map ServiceDef.name)
    (standing : Standing configured done spawned names) (unmet : ¬ Met configured spawned d) :
    Standing configured (done ++ [d]) spawned names := by
  have more : ∀ n, n ∈ (startedFrom configured [] done).map ServiceDef.name →
      n ∈ (startedFrom configured [] (done ++ [d])).map ServiceDef.name := by
    intro n member
    rw [startedFrom_append,List.map_append]
    exact List.mem_append_left _ member
  refine ⟨fun n member => more n (standing.spawned_started n member),
    fun n member => more n (standing.handed_started n member),fun d' member => ?_⟩
  rw [startedFrom_append] at member
  rcases List.mem_append.mp member with before | last
  · exact standing.fair d' before
  · have self : d' = d := by simpa using (Boot.startedFrom_sublist _ _ _).subset last
    rw [self]
    constructor
    · exact fun handed => absurd (started_names (standing.handed_started _ handed)) new
    · exact fun met => absurd met unmet

theorem standing_hand (new : d.name ∉ done.map ServiceDef.name)
    (standing : Standing configured done spawned names) (met : Met configured spawned d)
    (grown : spawned' = spawned ∨ spawned' = spawned ++ [d.name]) :
    Standing configured (done ++ [d]) spawned' (names ++ [d.name]) := by
  have last : Met configured ([] ++ (startedFrom configured [] done).map ServiceDef.name) d :=
    met_mono met standing.spawned_started
  have reached : startedFrom configured [] (done ++ [d]) = startedFrom configured [] done ++ [d] := by
    rw [startedFrom_append,startedFrom_cons_met last,startedFrom]
  have more : ∀ n ∈ spawned, n ∈ spawned' := by
    intro n member
    rcases grown with rfl | rfl
    · exact member
    · exact List.mem_append_left _ member
  constructor
  · intro n member
    rw [reached,List.map_append,List.mem_append]
    rcases grown with rfl | rfl
    · exact .inl (standing.spawned_started n member)
    · rcases List.mem_append.mp member with before | here
      · exact .inl (standing.spawned_started n before)
      · exact .inr (by simpa using here)
  · intro n member
    rw [reached,List.map_append,List.mem_append]
    rcases List.mem_append.mp member with before | here
    · exact .inl (standing.handed_started n before)
    · exact .inr (by simpa using here)
  · intro d' member
    rw [reached] at member
    rcases List.mem_append.mp member with before | here
    · have other : d'.name ≠ d.name := by
        intro same
        exact new (same ▸ started_names (List.mem_map_of_mem before))
      have kept : Met configured spawned' d' ↔ Met configured spawned d' := by
        rcases grown with rfl | rfl
        · exact Iff.rfl
        · exact met_append new before
      rw [kept,← standing.fair d' before]
      simp [other]
    · rw [List.mem_singleton.mp here]
      have handed : d.name ∈ names ++ [d.name] := by simp
      exact ⟨fun _ => met_mono met more,fun _ => handed⟩

theorem wp_startEach (distinct : ((done ++ rest).map ServiceDef.name).Nodup)
    (standing : Standing configured done spawned e.2.handed) (exact_ : Exact spawned m e.1) :
    (startEach configured spawned rest).wp surroundings asked (fun _ m e' => ∃ spawned',
      Standing configured (done ++ rest) spawned' e'.2.handed ∧ Exact spawned' m e'.1) m e := by
  induction rest generalizing done spawned m e with
  | nil =>
    rw [List.append_nil]
    exact ⟨spawned,standing,exact_⟩
  | cons d rest ih =>
    have new : d.name ∉ done.map ServiceDef.name := by
      rw [List.map_append,List.map_cons,List.nodup_middle,List.nodup_cons] at distinct
      exact fun member => distinct.1 (List.mem_append_left _ member)
    have split : done ++ d :: rest = (done ++ [d]) ++ rest := by simp
    rw [split] at distinct ⊢
    refine wp_then (wp_startOne exact_) fun spawned' m e' after => ?_
    obtain ⟨runs,⟨met,named,grown⟩ | ⟨unmet,named,rfl⟩⟩ := after
    · refine ih distinct ?_ runs
      rw [named]
      exact standing_hand new standing met grown
    · refine ih distinct ?_ runs
      rw [named]
      exact standing_skip new standing unmet

theorem wp_spawnAll {defs : List ServiceDef} {k : Kernel} (distinct : (defs.map ServiceDef.name).Nodup)
    (new : m.services = ∅) : (spawnAll defs).wp surroundings asked (fun _ m e' => ∃ spawned,
      Standing (defs.map ServiceDef.name) (startingOrder (effectiveAfter defs)) spawned e'.2.handed ∧
      Exact spawned m e'.1) m (k,{}) := by
  have steady : Steady surroundings asked fun m e => e.2.handed = [] ∧ Exact [] m e.1 :=
    steady_handed (watches_under _) fun _ _ _ origins same held =>
      ⟨same.trans held.1,exact_grows origins held.2⟩
  have start : Exact [] m k := by
    constructor
    · simp [new]
    · simp [new,Running]
  refine wp_bind_topologicalOrder steady ⟨rfl,start⟩ fun m e held => ?_
  refine @wp_startEach m e [] _ _ _ (startingOrder_distinct distinct) ?_ held.2
  rw [held.1]
  exact ⟨by simp,by simp,by simp [startedFrom]⟩

end Run

section Agreement
variable {all : List ServiceDef} {target : String} {m : Memory} {e : Kernel × Record}

theorem decided_noStandIn : (decided fun _ => true).Within noStandIn where
  event _ _ _ _ _ := rfl
  reply op m e r allowed := by
    cases op with
    | spawn origin command =>
      cases origin with
      | service name critical =>
        cases r with
        | ok pid => rfl
        | error err => simp [decided,Except.isOk,Except.toBool] at allowed
      | rescue => contradiction
      | _ => rfl
    | _ => rfl

theorem ran_running {ran : List ServiceDef} {n : String} (held : Ran ran m e) :
    Running n m e.1 ↔ n ∈ ran.map ServiceDef.name := by
  rw [← ran_tracks held,Services.tracks_iff]
  constructor
  · rintro ⟨pid,sup,critical,found,named,-⟩
    exact ⟨pid,sup,found,named⟩
  · rintro ⟨pid,sup,found,rfl⟩
    exact ⟨pid,sup,_,found,rfl,(held.defined pid sup found).2⟩

theorem target_distinct (distinct : (all.map ServiceDef.name).Nodup) :
    ((Targets.servicesIn all target).map ServiceDef.name).Nodup :=
  (List.filter_sublist.map ServiceDef.name).nodup distinct

theorem target_names {n : String} (member : n ∈ (Targets.servicesIn all target).map ServiceDef.name) :
    n ∈ all.map ServiceDef.name :=
  (List.filter_sublist.map ServiceDef.name).subset member

theorem startedNames_target {n : String} (started : n ∈ startedNames all target) :
    n ∈ (Targets.servicesIn all target).map ServiceDef.name := by
  have placed := started_names started
  exact (startingOrder_names _).mem_iff.mp placed

/-- What is started under a name requires what the configured service of that name does. -/
theorem started_requires {defs : List ServiceDef} (distinct : (defs.map ServiceDef.name).Nodup)
    {d : ServiceDef} (member : d ∈ defs) (started : d.name ∈ (startedAtBoot defs).map ServiceDef.name) :
    ∃ d' ∈ startedAtBoot defs, d'.name = d.name ∧ d'.requires = d.requires := by
  obtain ⟨d',there,named⟩ := List.mem_map.mp started
  have placed := (Boot.startedFrom_sublist _ _ _).subset there
  rw [(startingOrder_perm _).mem_iff,effectiveAfter_eq distinct] at placed
  obtain ⟨source,inside,rfl⟩ := List.mem_map.mp placed
  have same : source = d := List.inj_on_of_nodup_map distinct inside member named
  exact ⟨_,there,named,by rw [same]; rfl⟩

/-- At the end of any boot: of the services that can be started at all, those were handed to spawn
whose requirements within the target are running. -/
theorem handed_iff {defs : List ServiceDef} (distinct : (defs.map ServiceDef.name).Nodup)
    {spawned : List String} (standing : Standing (defs.map ServiceDef.name)
      (startingOrder (effectiveAfter defs)) spawned e.2.handed) (exact_ : Exact spawned m e.1)
    {d : ServiceDef} (member : d ∈ defs) (started : d.name ∈ (startedAtBoot defs).map ServiceDef.name) :
    d.name ∈ e.2.handed ↔
      ∀ r ∈ d.requires, r ∈ defs.map ServiceDef.name → Running r m e.1 := by
  obtain ⟨d',there,named,requires⟩ := started_requires distinct member started
  rw [← named,standing.fair d' there,← requires]
  constructor
  · exact fun met r required known => (exact_.running r).mp (met r required known)
  · exact fun runs r required known => (exact_.running r).mpr (runs r required known)

/-- The boot of a target keeps to the requirements, whatever fails, just when the services it
starts at best require nothing of another target, and those it does not start lack something. -/
theorem startsByRequirements_iff (all : List ServiceDef) (target : String)
    (distinct : (all.map ServiceDef.name).Nodup) :
    StartsByRequirements all target ↔ SelfContained all target := by
  have inTarget : ((Targets.servicesIn all target).map ServiceDef.name).Nodup := target_distinct distinct
  constructor
  · intro starts
    obtain ⟨m,e,run,ran⟩ := @decided_boot (fun _ => true) rfl (Targets.servicesIn all target)
    rw [List.filter_true] at ran
    have within := reaches_within decided_noStandIn run
    have property := starts {} {} m e rfl within
    obtain ⟨spawned,standing,exact_⟩ := wp_returns within (wp_spawnAll inTarget rfl)
    have runs : ∀ n, Running n m e.1 ↔ n ∈ startedNames all target := fun n => ran_running ran
    have handed : ∀ n ∈ e.2.handed, n ∈ startedNames all target := standing.handed_started
    constructor
    · intro d member started r required known
      obtain ⟨d',there,-,requires⟩ := started_requires inTarget member started
      have within_target : ∀ r ∈ d.requires, r ∈ (Targets.servicesIn all target).map ServiceDef.name →
          Running r m e.1 :=
        fun r needed inside => (runs r).mpr (startedFrom_met there r (requires ▸ needed) inside)
      have given := (handed_iff inTarget standing exact_ member started).mpr within_target
      exact startedNames_target ((runs r).mp ((property d member).mp given r required known))
    · intro d member unstarted
      by_contra none
      refine unstarted (handed d.name ((property d member).mpr fun r required known => ?_))
      by_contra idle
      exact none ⟨r,required,known,fun started => idle ((runs r).mpr started)⟩
  · intro contained m k m' e' new run d member
    obtain ⟨spawned,standing,exact_⟩ := wp_returns run (wp_spawnAll inTarget new)
    by_cases started : d.name ∈ startedNames all target
    · rw [handed_iff inTarget standing exact_ member started]
      constructor
      · intro runs r required known
        exact runs r required (contained.contained d member started r required known)
      · exact fun runs r required inside => runs r required (target_names inside)
    · constructor
      · exact fun handed => absurd (standing.handed_started _ handed) started
      · intro runs
        obtain ⟨r,required,known,unstarted⟩ := contained.justified d member started
        have spawnedThen := (exact_.running r).mpr (runs r required known)
        exact absurd (standing.spawned_started r spawnedThen) unstarted

end Agreement

section Runs

def network : ServiceDef := { name := "network", path := "/usr/bin/network", target := "basic" }

def mail : ServiceDef :=
  { name := "mail", path := "/usr/bin/mail", requires := ["network"], target := "basic" }

theorem startsByRequirements_mail : StartsByRequirements [mail,network] "basic" :=
  (startsByRequirements_iff [mail,network] "basic" (by decide)).mpr
    ⟨by decide +kernel,by decide +kernel⟩

def apart : Option (State Memory Op Op.Ans (Kernel × Record) Unit) :=
  drive (watched.under noStandIn)
    (fun op m e => Kernel.obliging (fun _ => true) Config.default op m e.1) [.upTo (fun _ => false) 200]
    ⟨spawnAll (Targets.servicesIn [network,{ mail with target := "multi-user" }] "multi-user"),{},({},{})⟩

/-- The mail service is started without the network it requires, though every spawn succeeds. -/
theorem started_without_requirement : ¬ ∀ (all : List ServiceDef) (target : String),
    (all.map ServiceDef.name).Nodup → StartsByRequirements all target := by
  intro claim
  have ended : apart.any (fun t => t.program.returned && t.env.2.handed == ["mail"] &&
      !t.mem.services.tracks "network") = true := by
    decide +kernel
  obtain ⟨⟨p,m,e⟩,went,result⟩ := (Option.any_eq_true _ _).mp ended
  simp only [Bool.and_eq_true,beq_iff_eq,Bool.not_eq_true'] at result
  obtain ⟨⟨returned,handed⟩,untracked⟩ := result
  cases p with
  | ret value =>
    have property := claim [network,{ mail with target := "multi-user" }] "multi-user" (by decide) {} {}
      m e rfl (drive_reaches went) { mail with target := "multi-user" } (by decide)
    have given : "mail" ∈ e.2.handed := by simp [handed]
    obtain ⟨pid,sup,critical,found,named,-⟩ := property.mp given "network" (by decide) (by decide)
    exact Services.tracks_eq_false.mp untracked pid sup found named
  | _ => contradiction

end Runs
end MitosServices.Requirements
