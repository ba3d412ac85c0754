import MitosServices.LoopRule

/-! What the rest of the process is told of the configuration in force: the log level, and the targets that
IPC clients are shown. -/
namespace MitosServices.Publishing
open Interaction Interaction.Program

/-- What has been told last, and whether a rollback has come since the targets were published. -/
structure Told where
  level : Option Level := none
  targets : Option (String × List String) := none
  restored : Bool := false

def Told.heard (g : Told) : Op → Told
  | .setLevel level => { g with level := some level }
  | .publishTargets current all => { g with targets := some (current,all), restored := false }
  | .log .rolledBack => { g with restored := true }
  | _ => g

def records {Env Event : Type} : Monitor Memory Op Op.Ans Env Event Told where
  event _ _ _ _ g := g
  reply op _ _ _ g := g.heard op

/-- The log level is the one in force, the target shown as active is the current one, and the targets
shown are those of the configuration in force, unless a rollback has gone back on it. -/
structure Current (m : Memory) (g : Told) : Prop where
  level : g.level = some m.cfg.loglevel
  targets : ∃ all, g.targets = some (m.currentTarget,all) ∧
    (g.restored = false → all = Targets.list m.cfg.services)

def asked {Env : Type} (op : Option Op) (m : Memory) (e : Env × Told) : Prop :=
  op = some (.swap .rebootRequested) → Current m e.2

section Rules
variable {Env Event : Type} {M : Machine Memory Op Op.Ans Env Event} {m : Memory} {e : Env × Told} {α β : Type}

structure Aside (op : Op) : Prop where
  unconfigured : op.configures = false
  turnless : op ≠ .swap .rebootRequested

theorem records_deaf : (records : Monitor Memory Op Op.Ans Env Event Told).Deaf Aside where
  event _ _ _ _ _ := rfl
  reply op m k r g aside := by
    have unconfigured := aside.unconfigured
    cases op with
    | setLevel level => simp [Op.configures] at unconfigured
    | publishTargets current all => simp [Op.configures] at unconfigured
    | log line => cases line <;> first | rfl | simp [Op.configures] at unconfigured
    | _ => rfl

theorem asked_of {op : Option Op} (other : op ≠ some (.swap .rebootRequested)) : asked op m e :=
  fun turns => absurd turns other

abbrev around (M : Machine Memory Op Op.Ans Env Event) : Surroundings Memory Op Op.Ans (Env × Told) :=
  (M.watched records).surroundings

/-- What is not written, and what has been told, stay as they are. -/
theorem told_frame {upd : Memory → Memory → Prop} {P : Memory → Told → Prop}
    (closed : ∀ m m' g, upd m m' → P m g → P m' g) :
    (around M).Frame asked upd Aside fun m e => P m e.2 := by
  refine Machine.watched_keeps records_deaf closed fun op m e aside _ => asked_of ?_
  rintro rfl
  exact (aside _ rfl).turnless rfl

theorem told_still (P : Memory → Told → Prop) : (around M).Frame asked Eq Aside fun m e => P m e.2 :=
  told_frame fun _ _ _ same held => same ▸ held

theorem told_calm (P : Memory → Told → Prop) : Calmly (around M) asked fun m e => P m e.2 := by
  refine calmly_of_frame (told_still P) fun op calm => ⟨calm.unconfigured,?_⟩
  rintro rfl
  exact absurd calm.plain.1 (by decide)

theorem aside_of_managing {op : Op} (allowed : op.supervises = true ∧ op.configures = false) : Aside op := by
  refine ⟨allowed.2,?_⟩
  rintro rfl
  exact absurd allowed.1 (by decide)

theorem aside_of_answering {op : Op} (allowed : op.answersExit = true) : Aside op := by
  refine ⟨?_,?_⟩
  · unfold Op.answersExit at allowed
    split at allowed
    · rfl
    · rfl
    · simpa using (Bool.and_eq_true_iff.mp allowed).2
  · rintro rfl
    exact absurd allowed (by decide)

/-- Services come and go untold. -/
theorem wp_managing {P : Memory → Told → Prop} {p : Code α} (manages : Managing p)
    (closed : ∀ m services g, P m g → P { m with services } g) (start : P m e.2) :
    p.wp (around M) asked (fun _ m e => P m e.2) m e := by
  refine wp_frame (told_frame fun m m' g written held => ?_)
    (uses_mono manages (fun _ _ written => written) fun _ => aside_of_managing) start
  unfold OnlyServices at written
  rw [written]
  exact closed m _ g held

/-- A call that tells something, and what is known with it. -/
theorem wp_tells {op : Op} {Q : op.Ans → Memory → Env × Told → Prop} (turnless : op ≠ .swap .rebootRequested)
    (rest : ∀ r k, Q r m (k,e.2.heard op)) : (call op).wp (around M) asked Q m e :=
  wp_noted records_deaf (fun _ => asked_of (by simpa using turnless)) fun _ r k _ => rest r k

theorem wp_aside {op : Op} (aside : Aside op) (start : Current m e.2) :
    (call op).wp (around M) asked (fun _ m e => Current m e.2) m e :=
  wp_frame (told_still Current) (uses_perform aside) start

theorem current_services (m : Memory) (services : Services) (g : Told) (current : Current m g) :
    Current { m with services } g := ⟨current.level,current.targets⟩

def Levelled (cfg : Config) (_ : Memory) (g : Told) : Prop := g.level = some cfg.loglevel

theorem wp_loadConfig {P : Memory → Told → Prop} (start : P m e.2) :
    loadConfig.wp (around M) asked (fun _ m e => P m e.2) m e := by
  refine (wp_bind _ _ _ _ _).mpr (wp_tells (by simp) fun cfg k => ?_)
  exact (wp_bind _ _ _ _ _).mpr (wp_tells (by simp) fun units k => start)

/-- A reload tells everything anew. -/
theorem reload_phases : ReloadPhases (around M) asked (fun m e => Current m e.2) (fun _ _ => True)
    (fun _ _ _ => True) (fun cfg m e => Levelled cfg m e.2) (fun cfg m e => Levelled cfg m e.2)
    (fun cfg _ m e => Levelled cfg m e.2) (fun cfg m e => m.cfg = cfg ∧ Levelled cfg m e.2)
    fun m e => Current m e.2 where
  unread _ _ := asked_of (by simp)
  takes _ _ current := wp_aside ⟨rfl,by simp⟩ current
  skips _ _ current := current
  logs _ _ _ := wp_tells (by simp) fun _ _ => trivial
  loads _ _ _ := wp_loadConfig (P := fun _ _ => True) trivial
  levels cfg _ _ _ := wp_tells (by simp) fun _ _ => rfl
  levelled_calm cfg := told_calm (Levelled cfg)
  times cfg _ _ levelled := wp_tells (by simp) fun _ _ => levelled
  reconciles cfg _ _ levelled := wp_managing (reloadServices_manages _) (fun _ _ _ held => held) levelled
  reconciled_calm cfg _ := told_calm (Levelled cfg)
  dates cfg _ _ _ levelled := wp_tells (by simp) fun _ _ => ⟨rfl,levelled⟩
  publishes cfg m e written := by
    obtain ⟨rfl,levelled⟩ := written
    exact wp_tells (by simp) fun _ _ => ⟨levelled,_,rfl,fun _ => rfl⟩

theorem isolate_phases : IsolatePhases (around M) asked (fun m e => Current m e.2) (fun _ m e => Current m e.2)
    (fun _ m e => Current m e.2) fun m e => Current m e.2 where
  unread _ _ := asked_of (by simp)
  takes _ _ current := by
    refine wp_mono (wp_aside ⟨rfl,by simp⟩ current) fun pending m e current => ?_
    cases pending <;> exact current
  refuses _ _ _ current := wp_aside ⟨rfl,by simp⟩ current
  named_calm _ := told_calm Current
  reconciles _ _ _ current _ := wp_managing (reloadServices_manages _) current_services current
  publishes _ _ _ current := wp_tells (by simp) fun _ _ => ⟨current.level,_,rfl,fun _ => rfl⟩

structure Reverting (m : Memory) (g : Told) : Prop where
  targets : ∃ all, g.targets = some (m.currentTarget,all)

theorem reverting_services (m : Memory) (services : Services) (g : Told) (reverting : Reverting m g) :
    Reverting { m with services } g := ⟨reverting.targets⟩

theorem verdict_phases : VerdictPhases (around M) asked (fun _ m e => Current m e.2) (fun _ m e => Reverting m e.2)
    (fun _ m e => Reverting m e.2) (fun w m e => Reverting m e.2 ∧ Levelled w.previous m e.2)
    fun m e => Current m e.2 where
  unread _ _ := asked_of (by simp)
  unwatched _ _ _ current _ := current
  rolls name w m e current _ _ := by
    obtain ⟨all,published,-⟩ := current.targets
    exact wp_tells (by simp) fun _ _ => ⟨all,published⟩
  reconciles _ _ _ reverting := wp_managing (reloadServices_manages _) reverting_services reverting
  levels w _ _ reverting := wp_tells (by simp) fun _ _ => ⟨⟨reverting.targets⟩,rfl⟩
  restored_calm w := told_calm fun m g => Reverting m g ∧ Levelled w.previous m g
  ends w _ _ restored := by
    obtain ⟨⟨all,published⟩,levelled⟩ := restored
    exact wp_tells (by simp) fun _ _ => ⟨levelled,all,published,by simp [Told.heard]⟩
  looks _ w _ _ current _ _ := by
    refine wp_tells (by simp) fun t k => ?_
    split
    · exact ⟨current.level,current.targets⟩
    · exact wp_tells (by simp) fun _ _ => ⟨current.level,current.targets⟩

theorem loop_current : LoopInvariant (around M) asked (fun m e => Current m e.2) fun m e => Current m e.2 where
  unasked _ _ _ other := asked_of other
  head _ _ held _ := held
  pending _ _ _ moved held := by
    rw [records_deaf.moves moved]
    exact held
  turned _ _ _ _ replied held := by
    rw [(Machine.watched_answer_iff.mp replied).2]
    exact held
  moves _ _ _ _ moved held := by
    rw [records_deaf.moves moved]
    exact held
  replies op m e r e' unconfigured unstarted turnless replied held := by
    rw [(Machine.watched_answer_iff.mp replied).2,records_deaf.reply op m e.1 r e.2 ⟨unconfigured,turnless⟩]
    exact held
  timers m m' _ written held := by
    unfold OnlyTimers at written
    rw [written]
    exact ⟨held.level,held.targets⟩
  settles _ _ held := held
  reloads _ _ held := reload_phases.wp_handleReload held
  isolates _ _ held := isolate_phases.wp_handleIsolate held
  exits status m e held := by
    refine wp_frame (told_frame fun m m' g written current => ?_)
      (uses_mono (handleExit_answersExit status) (fun _ _ written => written) fun _ => aside_of_answering) held
    unfold OnlyServices at written
    rw [written]
    exact current_services m _ g current
  resolves _ _ _ held := verdict_phases.wp_resolveWatch held

theorem boot_phases : BootPhases (around M) asked (fun _ _ => True) (fun _ _ _ => True)
    (fun cfg m e => Levelled cfg m e.2)
    (fun cfg m e => Levelled cfg m e.2 ∧ e.2.targets = some (cfg.defaultTarget,Targets.list cfg.services))
    (fun _ m e => Current m e.2) fun m e => Current m e.2 where
  unread _ _ := asked_of (by simp)
  started_calm := told_calm fun _ _ => True
  loads _ _ _ := wp_loadConfig (P := fun _ _ => True) trivial
  levels _ _ _ _ := wp_tells (by simp) fun _ _ => rfl
  levelled_calm cfg := told_calm (Levelled cfg)
  blocks _ _ _ levelled := wp_tells (by simp) fun _ _ => levelled
  listens _ _ _ levelled := wp_tells (by simp) fun _ _ => levelled
  publishes _ _ _ levelled := wp_tells (by simp) fun _ _ => ⟨levelled,rfl⟩
  times cfg _ _ published := wp_tells (by simp) fun _ _ => ⟨published.1,_,published.2,fun _ => rfl⟩
  spawns _ _ _ current := wp_managing (spawnAll_manages _) current_services current
  unblocks _ _ current := wp_aside ⟨rfl,by simp⟩ current
  booted_calm := told_calm Current

theorem wp_main : main.wp (around M) asked (fun _ _ _ => True) m e := by
  refine boot_phases.wp_main (fun grace m e current => ?_) trivial
  exact loop_current.phases.wp_runEventLoop grace ⟨current.level,current.targets⟩

/-- Among any surroundings and whatever has happened since the start: whenever the loop turns, the log level
and the active target are those in force, and unless a rollback has come since the targets were
published, so are the targets that clients are shown. -/
theorem told_what_is_current (M : Machine Memory Op Op.Ans Env Event) (m : Memory) (k : Env)
    {t : State Memory Op Op.Ans (Env × Told) Unit}
    (run : Reaches (M.watched records).surroundings ⟨main,m,(k,({} : Told))⟩ t)
    (turns : t.program.next? = some (.swap .rebootRequested)) : Current t.mem t.env.2 :=
  wp_everywhere run wp_main (fun _ m e _ => asked_of (by simp)) turns

end Rules

section Runs

def job : ServiceDef := { name := "job", path := "/usr/bin/job", target := "multi-user" }

def turning : Cue Op Event := .upTo (· == .swap .rebootRequested) 300

def reloadRun : Option (State Memory Op Op.Ans (Kernel × Told) Unit) :=
  drive (Kernel.machine.watched records)
    (fun op m e => Kernel.obliging (fun _ => true) { Config.default with loglevel := .debug, services := [job] } op m e.1)
    [turning,.stir .requestReload,.step,turning] ⟨main,{},({},{})⟩

theorem told_what_is_current_reloaded : ∃ t, reloadRun = some t ∧ t.mem.watch.isSome = true ∧ Current t.mem t.env.2 := by
  have there : reloadRun.any (fun t => decide (t.program.next? = some (.swap .rebootRequested) ∧
      t.mem.watch.isSome = true)) = true := by decide +kernel
  obtain ⟨t,reached,now⟩ := (Option.any_eq_true _ _).mp there
  obtain ⟨turns,watched⟩ := of_decide_eq_true now
  exact ⟨t,reached,watched,told_what_is_current Kernel.machine {} {} (drive_reaches reached) turns⟩

end Runs
end MitosServices.Publishing
