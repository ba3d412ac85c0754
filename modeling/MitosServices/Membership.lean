import MitosServices.LoopRule
import MitosServices.Tracking

/-! What the tracked services have to do with the configuration in force: the boot, reloads,
rollbacks and isolates each change both, and between two turns they agree. -/
namespace MitosServices.Membership
open Interaction Interaction.Program
open Names (Unique)
open Tracking

def Distinct (services : List ServiceDef) : Prop := (services.map ServiceDef.name).Nodup

instance (services : List ServiceDef) : Decidable (Distinct services) :=
  inferInstanceAs (Decidable (List.Nodup _))

def OneOf (defs : List ServiceDef) (d : ServiceDef) : Prop := ∃ d' ∈ defs, Alike d d'

/-- Every tracked service belongs to the current target of the configuration in force. -/
def Members (m : Memory) : Prop := ∀ pid sup, m.services.lookup pid = some sup →
  OneOf (Targets.servicesIn m.cfg.services m.currentTarget) sup.definition

section Distinct

theorem distinct_servicesIn {all : List ServiceDef} (distinct : Distinct all) (name : String) :
    Distinct (Targets.servicesIn all name) :=
  List.Nodup.sublist (List.Sublist.map _ List.filter_sublist) distinct

/-- Units are merged in under new names only: names are distinct after it if they were before. -/
theorem distinct_mergeServices_iff {base extra : List ServiceDef} :
    Distinct (Config.mergeServices base extra) ↔ Distinct base := by
  induction extra generalizing base with
  | nil => exact Iff.rfl
  | cons svc extra ih =>
    rw [Config.mergeServices]
    split
    · exact ih
    · rename_i fresh
      rw [ih]
      have absent : svc.name ∉ base.map ServiceDef.name := by simpa using fresh
      simp only [Distinct,List.map_append,List.map_singleton,List.nodup_append,List.nodup_singleton,
        List.mem_singleton,true_and]
      constructor
      · exact fun both => both.1
      · rintro distinct
        refine ⟨distinct,?_⟩
        rintro name member _ rfl rfl
        exact absent member

end Distinct

section Rules
variable {Env : Type} {S : Surroundings Memory Op Op.Ans Env} {A : Option Op → Memory → Env → Prop}
  {full : Env → Prop} {whole : Prop} {m : Memory} {e : Env}

/-- Critical services start, configurations have distinct names, and no isolate comes under a watch. -/
structure Ordinary (S : Surroundings Memory Op Op.Ans Env) (A : Option Op → Memory → Env → Prop)
    (full : Env → Prop) : Prop extends Starting S A full where
  loads : ∀ m e cfg e', S.replies .loadOrDefault m e cfg e' → Distinct cfg.services
  isolates : ∀ m e name e', S.replies .takePendingIsolate m e (some name) e' → m.watch = none

/-- Names are unique, every tracked service belongs to the current target, and so will those a
rollback restores. -/
structure Matched (m : Memory) : Prop where
  unique : Unique m.services
  members : Members m
  revertible : ∀ w, m.watch = some w → w.target = m.currentTarget

theorem oneOf_of_mem {defs : List ServiceDef} {d : ServiceDef} (member : d ∈ defs) : OneOf defs d :=
  ⟨d,member,rfl⟩

theorem sound_of_progress {defs : List ServiceDef} {services : Services}
    (progress : Progress whole defs [] services) : Sound (OneOf defs) services := by
  refine ⟨progress.unique,fun pid sup found => ?_⟩
  rcases progress.source pid sup found with member | ⟨_,member,-⟩
  · exact oneOf_of_mem member
  · exact absurd member List.not_mem_nil

/-- At what is mild nothing is asked of the memory. -/
theorem memory_calm (starting : Starting S A full) (P : Memory → Prop) : Calmly S A fun m _ => P m :=
  calmly_of_steady (steady_memory fun op m e mild _ => starting.unasked op m e (by
    rintro rfl
    exact absurd (mild _ rfl) (by decide)))

/-- A call at which nothing is asked, whatever it changes around the memory. -/
theorem wp_turnless {op : Op} {Q : op.Ans → Memory → Env → Prop} (starting : Starting S A full)
    (turnless : op ≠ .swap .rebootRequested) (rest : ∀ e r e', S.replies op m e r e' → Q r m e') :
    (call op).wp S A Q m e :=
  (wp_perform_iff _ _ _ _).mpr fun e₁ _ =>
    ⟨starting.unasked _ _ _ (by simpa using turnless),fun r e₂ replied => rest e₁ r e₂ replied⟩

theorem wp_loadConfig (ordinary : Ordinary S A full) {P : Memory → Prop} (start : P m) :
    loadConfig.wp S A (fun cfg m _ => Distinct cfg.services ∧ P m) m e := by
  have starting := ordinary.toStarting
  refine (wp_bind _ _ _ _ _).mpr (wp_turnless starting (by simp) fun e cfg e' replied => ?_)
  refine (wp_bind _ _ _ _ _).mpr (wp_turnless starting (by simp) fun _ units _ _ => ?_)
  exact ⟨distinct_mergeServices_iff.mpr (ordinary.loads m e cfg e' replied),start⟩

theorem wp_reloaded (starting : Starting S A full) (defs : List ServiceDef) (unique : Unique m.services) :
    (reloadServices defs).wp S A (fun _ m' _ => Sound (OneOf defs) m'.services ∧ OnlyServices m m') m e := by
  have reloaded := wp_reloadServices (e := e) starting defs (fun impossible : False => impossible.elim) unique
    False.elim
  exact wp_mono reloaded fun _ m' _ done => ⟨sound_of_progress done.1.1,done.2⟩

def Gathered (cfg : Config) (m : Memory) : Prop :=
  Sound (OneOf (Targets.servicesIn cfg.services m.currentTarget)) m.services

theorem reload_phases (ordinary : Ordinary S A full) : ReloadPhases S A (fun m _ => Matched m) (fun m _ => Matched m)
    (fun _ m _ => Matched m) (fun _ m _ => Matched m) (fun _ m _ => Matched m) (fun cfg _ m _ => Gathered cfg m)
    (fun _ m _ => Matched m) fun m _ => Matched m where
  unread _ _ := ordinary.unasked _ _ _ (by simp)
  takes _ _ matched := wp_turnless ordinary.toStarting (by simp) fun _ _ _ _ => matched
  skips _ _ matched := matched
  logs _ _ matched := wp_turnless ordinary.toStarting (by simp) fun _ _ _ _ => matched
  loads _ _ matched := wp_mono (wp_loadConfig ordinary matched) fun _ _ _ loaded => loaded.2
  levels _ _ _ matched := wp_turnless ordinary.toStarting (by simp) fun _ _ _ _ => matched
  levelled_calm _ := memory_calm ordinary.toStarting Matched
  times _ _ _ matched := wp_turnless ordinary.toStarting (by simp) fun _ _ _ _ =>
    ⟨matched.unique,matched.members,matched.revertible⟩
  reconciles cfg m _ matched := by
    refine wp_mono (wp_reloaded ordinary.toStarting _ matched.unique) fun _ m' _ reloaded => ?_
    rw [Gathered,(onlyServices_iff reloaded.2).2.1]
    exact reloaded.1
  reconciled_calm cfg _ := memory_calm ordinary.toStarting (Gathered cfg)
  dates _ _ _ _ gathered := wp_turnless ordinary.toStarting (by simp) fun _ _ _ _ =>
    ⟨gathered.1,gathered.2,by rintro _ ⟨⟩; rfl⟩
  publishes _ _ _ matched := wp_turnless ordinary.toStarting (by simp) fun _ _ _ _ => matched

/-- Without a watch nothing is left of the old target. -/
theorem isolate_phases (ordinary : Ordinary S A full) : IsolatePhases S A (fun m _ => Matched m)
    (fun _ m _ => Matched m ∧ m.watch = none)
    (fun name m _ => Sound (OneOf (Targets.servicesIn m.cfg.services name)) m.services ∧ m.watch = none)
    fun m _ => Matched m where
  unread _ _ := ordinary.unasked _ _ _ (by simp)
  takes m e matched := by
    refine wp_turnless ordinary.toStarting (by simp) fun e pending e' replied => ?_
    cases pending with
    | none => exact matched
    | some name => exact ⟨matched,ordinary.isolates m e name e' replied⟩
  refuses _ _ _ named := wp_turnless ordinary.toStarting (by simp) fun _ _ _ _ => named.1
  named_calm _ := memory_calm ordinary.toStarting fun m => Matched m ∧ m.watch = none
  reconciles name m _ named _ := by
    refine wp_mono (wp_reloaded ordinary.toStarting _ named.1.unique) fun _ m' _ reloaded => ?_
    obtain ⟨configured,-,watching,-⟩ := onlyServices_iff reloaded.2
    rw [configured,watching]
    exact ⟨reloaded.1,named.2⟩
  publishes _ _ _ reconciled := wp_turnless ordinary.toStarting (by simp) fun _ _ _ _ =>
    ⟨reconciled.1.1,reconciled.1.2,by simp [reconciled.2]⟩

theorem matched_only {m' : Memory} (matched : Matched m) (only : OnlyServices m m')
    (sound : Sound (OneOf (Targets.servicesIn m.cfg.services m.currentTarget)) m'.services) :
    Matched m' := by
  obtain ⟨configured,targeted,watching,-⟩ := onlyServices_iff only
  refine ⟨sound.1,?_,?_⟩
  · intro pid sup found
    rw [configured,targeted]
    exact sound.2 pid sup found
  · rw [watching,targeted]
    exact matched.revertible

theorem wp_handleExit_matched (ordinary : Ordinary S A full) (status : WaitStatus) (matched : Matched m) :
    (handleExit status).wp S A (fun _ m _ => Matched m) m e := by
  refine wp_mono (wp_handleExit ordinary.toStarting status ⟨matched.unique,matched.members⟩) ?_
  exact fun _ m' _ answered => matched_only matched answered.2 answered.1

/-- A rollback goes back to services of the target it still runs in. -/
theorem verdict_phases (ordinary : Ordinary S A full) : VerdictPhases S A (fun _ m _ => Matched m)
    (fun w m _ => Unique m.services ∧ w.target = m.currentTarget)
    (fun w m _ => Gathered w.previous m) (fun w m _ => Gathered w.previous m) fun m _ => Matched m where
  unread _ _ := ordinary.unasked _ _ _ (by simp)
  unwatched _ _ _ matched _ := matched
  rolls _ w _ _ matched watching _ := wp_turnless ordinary.toStarting (by simp) fun _ _ _ _ =>
    ⟨matched.unique,matched.revertible w watching⟩
  reconciles w m _ rolling := by
    refine wp_mono (wp_reloaded ordinary.toStarting _ rolling.1) fun _ m' _ reloaded => ?_
    rw [Gathered,(onlyServices_iff reloaded.2).2.1,← rolling.2]
    exact reloaded.1
  levels _ _ _ gathered := wp_turnless ordinary.toStarting (by simp) fun _ _ _ _ => gathered
  restored_calm w := memory_calm ordinary.toStarting (Gathered w.previous)
  ends _ _ _ gathered := wp_turnless ordinary.toStarting (by simp) fun _ _ _ _ =>
    ⟨gathered.1,gathered.2,by simp⟩
  looks _ w m _ matched watching _ := by
    refine wp_turnless ordinary.toStarting (by simp) fun _ t _ _ => ?_
    split
    · refine ⟨matched.unique,matched.members,?_⟩
      rintro _ ⟨⟩
      exact matched.revertible w watching
    · exact wp_turnless ordinary.toStarting (by simp) fun _ _ _ _ => ⟨matched.unique,matched.members,by simp⟩

theorem loop_invariant (ordinary : Ordinary S A full)
    (asks : ∀ m e, Matched m → A (some (.swap .rebootRequested)) m e) :
    LoopInvariant S A (fun m _ => Matched m) fun m _ => Matched m where
  pending _ _ _ _ matched := matched
  turned _ _ _ _ _ matched := matched
  moves _ _ _ _ _ matched := matched
  replies _ _ _ _ _ _ _ _ _ matched := matched
  settles _ _ matched := matched
  timers m m' _ written matched := by
    unfold OnlyTimers at written
    rw [written]
    exact ⟨matched.unique,matched.members,matched.revertible⟩
  unasked := ordinary.unasked
  head := asks
  reloads _ _ matched := (reload_phases ordinary).wp_handleReload matched
  isolates _ _ matched := (isolate_phases ordinary).wp_handleIsolate matched
  exits status _ _ matched := wp_handleExit_matched ordinary status matched
  resolves _ _ _ matched := (verdict_phases ordinary).wp_resolveWatch matched

/-- What is spawned first is from the configuration the boot has read. -/
theorem boot_phases (ordinary : Ordinary S A full) : BootPhases S A (fun _ _ => True)
    (fun cfg _ _ => Distinct cfg.services) (fun cfg _ _ => Distinct cfg.services)
    (fun cfg _ _ => Distinct cfg.services)
    (fun cfg m _ => Distinct cfg.services ∧ m.services = ∅ ∧ m.cfg = cfg ∧ m.currentTarget = cfg.defaultTarget)
    fun m _ => Unique m.services ∧ Members m where
  unread _ _ := ordinary.unasked _ _ _ (by simp)
  started_calm := memory_calm ordinary.toStarting fun _ => True
  loads _ _ _ := wp_mono (wp_loadConfig ordinary (P := fun _ => True) trivial) fun _ _ _ loaded => loaded.1
  levels _ _ _ distinct := wp_turnless ordinary.toStarting (by simp) fun _ _ _ _ => distinct
  levelled_calm cfg := memory_calm ordinary.toStarting fun _ => Distinct cfg.services
  blocks _ _ _ distinct := wp_turnless ordinary.toStarting (by simp) fun _ _ _ _ => distinct
  listens _ _ _ distinct := wp_turnless ordinary.toStarting (by simp) fun _ _ _ _ => distinct
  publishes _ _ _ distinct := wp_turnless ordinary.toStarting (by simp) fun _ _ _ _ => distinct
  times _ _ _ distinct := wp_turnless ordinary.toStarting (by simp) fun _ _ _ _ => ⟨distinct,rfl,rfl,rfl⟩
  spawns cfg m _ ready := by
    obtain ⟨distinct,bare,configured,targeted⟩ := ready
    refine wp_mono (wp_spawnAll ordinary.toStarting (distinct_servicesIn distinct _) bare) ?_
    rintro _ m' _ ⟨sound,only⟩
    obtain ⟨sameCfg,sameTarget,-,-⟩ := onlyServices_iff only
    refine ⟨sound.1,fun pid sup found => ?_⟩
    rw [sameCfg,sameTarget,configured,targeted]
    exact sound.2 pid sup found
  unblocks _ _ booted := wp_turnless ordinary.toStarting (by simp) fun _ _ _ _ => booted
  booted_calm := memory_calm ordinary.toStarting fun m => Unique m.services ∧ Members m

theorem wp_main (ordinary : Ordinary S A full)
    (asks : ∀ m e, Matched m → A (some (.swap .rebootRequested)) m e) :
    main.wp S A (fun _ _ _ => True) m e := by
  refine (boot_phases ordinary).wp_main (fun grace m e booted => ?_) trivial
  exact (loop_invariant ordinary asks).phases.wp_runEventLoop grace ⟨booted.1,booted.2,by simp⟩

end Rules

def ordinary : Condition Memory Op Op.Ans Kernel Event where
  event _ _ _ _ := true
  reply
    | .loadOrDefault, _, _, cfg => decide (Distinct cfg.services)
    | .spawn (.service _ critical) _, _, _, .error _ => !critical
    | .takePendingIsolate, m, _, some _ => m.watch.isNone
    | _, _, _, _ => true

abbrev surroundings : Surroundings Memory Op Op.Ans Kernel :=
  (Kernel.machine.under ordinary).surroundings

def asked (op : Option Op) (m : Memory) (_ : Kernel) : Prop :=
  op = some (.swap .rebootRequested) → Members m

theorem ordinary_surroundings : Ordinary surroundings asked fun _ => False where
  visits listed m e visited e' replied :=
    Kernel.answer_iterate (m := m) (Machine.under_answer_iff.mp replied).2
  unasked _ _ _ other turns := absurd turns other
  critical name command err m e e' replied := by
    have allowed := (Machine.under_answer_iff.mp replied).1
    simp [ordinary] at allowed
  moves _ _ _ _ _ filled := filled
  replies _ _ _ _ _ _ _ filled := filled
  succeeds _ _ _ _ _ _ filled := filled.elim
  fresh _ _ _ _ _ _ filled := filled.elim
  loads m e cfg e' replied := of_decide_eq_true (Machine.under_answer_iff.mp replied).1
  isolates m e name e' replied := by
    have allowed := (Machine.under_answer_iff.mp replied).1
    simpa [ordinary] using allowed

/-- At every turn of the loop, whatever has happened since the boot, every tracked service is, up
to its `after` list, one of the current target's in the configuration in force. -/
theorem tracked_are_members (m : Memory) (k : Kernel) {t : State Memory Op Op.Ans Kernel Unit}
    (run : Reaches surroundings ⟨main,m,k⟩ t)
    (turning : t.program.next? = some (.swap .rebootRequested)) : Members t.mem :=
  wp_everywhere run (wp_main ordinary_surroundings fun _ _ matched _ => matched.members)
    (fun _ _ _ _ other => by simp at other) turning

section Runs

def network : ServiceDef :=
  { name := "network", path := "/usr/bin/network", before := ["job"], restart := .always, target := "multi-user" }

def job : ServiceDef := { name := "job", path := "/usr/bin/job", target := "multi-user" }

def display : ServiceDef :=
  { name := "display", path := "/usr/bin/display", critical := true, target := "multi-user" }

def nextConfig (cfg : Config) : Config :=
  if cfg.services = [network,job] then { cfg with services := [network,job,display] }
  else { cfg with services := [network,job] }

def turning : Cue Op Event := .upTo (· == .swap .rebootRequested) 300

def rolledBackRun : Option (State Memory Op Op.Ans Kernel Unit) :=
  drive (Kernel.machine.under ordinary)
    (fun op m k => Kernel.obliging (fun _ => true) (nextConfig m.cfg) op m k)
    [turning,.stir (.exit 100 (some (.exited 1))),.step,turning,.stir .requestReload,.step,
      .upTo (· == .waitpid (.only 101) true) 300,.stir (.exit 101 (some (.signaled .sigterm))),turning,
      .stir (.exit 102 (some (.exited 1))),.step,turning] ⟨main,{},{}⟩

theorem tracked_are_members_rolledBack : ∃ t, rolledBackRun = some t ∧ t.mem.services.keys.length = 2 ∧
    Members t.mem := by
  have there : rolledBackRun.any (fun t => decide (t.program.next? = some (.swap .rebootRequested) ∧
      t.mem.services.keys.length = 2)) = true := by
    decide +kernel
  obtain ⟨t,reached,now⟩ := (Option.any_eq_true _ _).mp there
  obtain ⟨head,two⟩ := of_decide_eq_true now
  exact ⟨t,reached,two,tracked_are_members {} {} (drive_reaches reached) head⟩

end Runs
end MitosServices.Membership
