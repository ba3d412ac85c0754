import MitosServices.Footprint

/-! The rules for a reload, an isolate, the verdict on a watch and the boot. Each is put together here
once; of an invariant it has to be shown what the phases come to. -/
namespace MitosServices
open Interaction Interaction.Program

section Calm
variable {Env : Type} {S : Surroundings Memory Op Op.Ans Env} {A : Option Op → Memory → Env → Prop}
  {P : Memory → Env → Prop} {m : Memory} {e : Env}

abbrev Calmly (S : Surroundings Memory Op Op.Ans Env) (A : Option Op → Memory → Env → Prop)
    (P : Memory → Env → Prop) : Prop := S.Frame A Eq Op.Calm P

theorem calmly_of_frame {upd : Memory → Memory → Prop} {ok : Op → Prop} (frame : S.Frame A upd ok P)
    (allowed : ∀ op : Op, op.Calm → ok op) : Calmly S A P where
  updates _ _ _ same held := same ▸ held
  moves op m e e' calm := frame.moves op m e e' (allowed op calm)
  replies op m e r e' calm := frame.replies op m e r e' (allowed op calm)
  holds op m e calm := frame.holds op m e fun o member => allowed o (calm o member)

theorem calmly_of_steady (steady : Steady S A P) : Calmly S A P where
  updates _ _ _ same held := same ▸ held
  moves op m e e' _ := steady.moves op m e e'
  replies op m e r e' calm := steady.replies op m e r e' calm.plain.1
  holds op m e calm := steady.holds op m e fun o member => (calm o member).plain.2

/-- What is written before or after a calm part stays next to it. -/
theorem wp_bind_calmly {α β : Type} {p : Code α} {f : α → Code β} {Q : β → Memory → Env → Prop}
    (calmly : Calmly S A P) (calm : p.Uses Eq Op.Calm) (start : P m e)
    (rest : ∀ a e, P m e → (f a).wp S A Q m e) : (p >>= f).wp S A Q m e :=
  wp_bind_unwritten calm (wp_frame calmly calm start) rest

theorem wp_calmly {α : Type} {p : Code α} (calmly : Calmly S A P) (calm : p.Uses Eq Op.Calm) (start : P m e) :
    p.wp S A (fun _ => P) m e := wp_frame calmly calm start

end Calm

section Phases
variable {Env : Type} (S : Surroundings Memory Op Op.Ans Env) (A : Option Op → Memory → Env → Prop)

/-- The phases of a reload: `served` before it, `logged` once it is announced, `loaded` with the configuration
that was read, `levelled` once its log level is set, `ready` with its timers, `reconciled` with what was
touched, and `written` once it is in force and watched. -/
structure ReloadPhases (served logged : Memory → Env → Prop) (loaded levelled ready : Config → Memory → Env → Prop)
    (reconciled : Config → List String → Memory → Env → Prop) (written : Config → Memory → Env → Prop)
    (after : Memory → Env → Prop) : Prop where
  unread : ∀ m e, A none m e
  takes : ∀ m e, served m e → (swap .reloadRequested).wp S A (fun _ => served) m e
  skips : ∀ m e, served m e → after m e
  logs : ∀ m e, served m e → (log .reloadingConfig).wp S A (fun _ => logged) m e
  loads : ∀ m e, logged m e → loadConfig.wp S A loaded m e
  levels : ∀ cfg m e, loaded cfg m e → (call (.setLevel cfg.loglevel)).wp S A (fun _ => levelled cfg) m e
  levelled_calm : ∀ cfg, Calmly S A (levelled cfg)
  times : ∀ cfg m e, levelled cfg m e →
    (call .loadTimers).wp S A (fun timerDefs m e => ready cfg { m with timerDefs } e) m e
  reconciles : ∀ cfg m e, ready cfg m e →
    (reloadServices (Targets.servicesIn cfg.services m.currentTarget)).wp S A (reconciled cfg) m e
  reconciled_calm : ∀ cfg touched, Calmly S A (reconciled cfg touched)
  dates : ∀ cfg touched m e, reconciled cfg touched m e → now.wp S A (fun t m e => written cfg
    { m with watch := some ⟨t + Rollback.watchWindow,touched,m.cfg,m.currentTarget⟩, cfg } e) m e
  publishes : ∀ cfg m e, written cfg m e →
    (publishTargets m.currentTarget cfg.services).wp S A (fun _ => after) m e

/-- The phases of an isolate: `served` before it, `named` once a target is taken, `reconciled` with its
services, and `after` it is the current one, or none was to be handled. -/
structure IsolatePhases (served : Memory → Env → Prop) (named reconciled : String → Memory → Env → Prop)
    (after : Memory → Env → Prop) : Prop where
  unread : ∀ m e, A none m e
  takes : ∀ m e, served m e → (call .takePendingIsolate).wp S A
    (fun pending m e => pending.elim (after m e) fun name => named name m e) m e
  refuses : ∀ name m e, named name m e → (log (.isolateUnknown name)).wp S A (fun _ => after) m e
  named_calm : ∀ name, Calmly S A (named name)
  reconciles : ∀ name m e, named name m e → (Targets.list m.cfg.services).any (fun t => t == name) = true →
    (reloadServices (Targets.servicesIn m.cfg.services name)).wp S A (fun _ => reconciled name) m e
  publishes : ∀ name m e, reconciled name m e →
    (publishTargets name m.cfg.services).wp S A (fun _ => after) { m with currentTarget := name } e

/-- The phases of a verdict: `judging` a failure or none, `rolling` back with the watch taken, `back` with the
services of before the reload, `restored` with its log level, and `after` the watch is put back or gone. -/
structure VerdictPhases (judging : Option String → Memory → Env → Prop)
    (rolling back restored : Watch → Memory → Env → Prop) (after : Memory → Env → Prop) : Prop where
  unread : ∀ m e, A none m e
  unwatched : ∀ failedName m e, judging failedName m e → m.watch = none → after m e
  rolls : ∀ name w m e, judging (some name) m e → m.watch = some w → w.touches name = true →
    (log (.rollingBack name)).wp S A (fun _ => rolling w) { m with watch := none } e
  reconciles : ∀ w m e, rolling w m e →
    (reloadServices (Targets.servicesIn w.previous.services w.target)).wp S A (fun _ => back w) m e
  levels : ∀ w m e, back w m e → (call (.setLevel w.previous.loglevel)).wp S A (fun _ => restored w) m e
  restored_calm : ∀ w, Calmly S A (restored w)
  ends : ∀ w m e, restored w m e → (log .rolledBack).wp S A
    (fun _ m e => after { m with cfg := w.previous, watch := none } e) m e
  looks : ∀ failedName w m e, judging failedName m e → m.watch = some w → failedName.filter w.touches = none →
    now.wp S A (fun t m e => if t < w.deadline then after { m with watch := some w } e
      else (log .keeping).wp S A (fun _ m e => after { m with watch := none } e) m e) { m with watch := none } e

/-- The phases of the boot: `started` before a configuration is read, `loaded` with it, `levelled` once its log
level is set, `published` with its targets, `ready` to spawn its services, and `booted` once they are. -/
structure BootPhases (started : Memory → Env → Prop) (loaded levelled published ready : Config → Memory → Env → Prop)
    (booted : Memory → Env → Prop) : Prop where
  unread : ∀ m e, A none m e
  started_calm : Calmly S A started
  loads : ∀ m e, started m e → loadConfig.wp S A loaded m e
  levels : ∀ cfg m e, loaded cfg m e → (call (.setLevel cfg.loglevel)).wp S A (fun _ => levelled cfg) m e
  levelled_calm : ∀ cfg, Calmly S A (levelled cfg)
  blocks : ∀ cfg m e, levelled cfg m e → (call .blockHandled).wp S A (fun _ => levelled cfg) m e
  listens : ∀ cfg m e, levelled cfg m e → (call .spawnListener).wp S A (fun _ => levelled cfg) m e
  publishes : ∀ cfg m e, levelled cfg m e →
    (publishTargets cfg.defaultTarget cfg.services).wp S A (fun _ => published cfg) m e
  times : ∀ cfg m e, published cfg m e → (call .loadTimers).wp S A (fun timerDefs m e =>
    ready cfg { m with services := ∅, cfg, currentTarget := cfg.defaultTarget, timerDefs } e) m e
  spawns : ∀ cfg m e, ready cfg m e →
    (spawnAll (Targets.servicesIn cfg.services cfg.defaultTarget)).wp S A (fun _ => booted) m e
  unblocks : ∀ m e, booted m e → (call .unblockHandled).wp S A (fun _ => booted) m e
  booted_calm : Calmly S A booted

variable {S A}
variable {m : Memory} {e : Env}

section Reload
variable {served logged after : Memory → Env → Prop} {loaded levelled ready written : Config → Memory → Env → Prop}
  {reconciled : Config → List String → Memory → Env → Prop}
  (phases : ReloadPhases S A served logged loaded levelled ready reconciled written after)
include phases

theorem ReloadPhases.wp_begin {cfg : Config} (start : ready cfg m e) :
    (Rollback.begin cfg m.cfg m.currentTarget).wp S A (fun w m' e =>
      written cfg { m' with watch := some w, cfg } e ∧ m'.currentTarget = m.currentTarget) m e := by
  have reconciles := wp_onlyServices (reloadServices_supervises _) (phases.reconciles cfg m e start)
  refine wp_then reconciles ?_
  rintro touched m' e ⟨held,only⟩
  obtain ⟨configured,targeted,-,-⟩ := onlyServices_iff only
  rw [← configured,← targeted]
  refine wp_bind_calmly (phases.reconciled_calm cfg touched) (calm_log ?_) held fun _ e held => ?_
  · cases touched <;> rfl
  exact wp_bind_unwritten (calm_call rfl) (phases.dates cfg touched m' e held) fun t e held => ⟨held,rfl⟩

theorem ReloadPhases.wp_applyReload (start : served m e) : applyReload.wp S A (fun _ => after) m e := by
  refine wp_then (phases.logs m e start) fun _ m e held => ?_
  refine wp_then (phases.loads m e held) fun cfg m e held => ?_
  refine wp_then (phases.levels cfg m e held) fun _ m e held => ?_
  refine wp_bind_calmly (phases.levelled_calm cfg) (applyHostname_calm (fun _ _ => rfl) _) held fun _ e held => ?_
  refine wp_then (phases.times cfg m e held) fun timerDefs m e held => ?_
  refine wp_bind_update (phases.unread _ _) (wp_bind_read (phases.unread _ _) ?_)
  refine wp_then (phases.wp_begin held) ?_
  rintro w m' e ⟨held,aimed⟩
  have publishes := phases.publishes cfg _ e held
  refine wp_bind_update (phases.unread _ _) ?_
  rw [← aimed]
  exact publishes

theorem ReloadPhases.wp_handleReload (start : served m e) : handleReload.wp S A (fun _ => after) m e := by
  refine wp_then (phases.takes m e start) fun requested m e held => ?_
  rw [wp_provided]
  split
  · exact phases.wp_applyReload held
  · exact phases.skips m e held

end Reload

section Isolate
variable {served after : Memory → Env → Prop} {named reconciled : String → Memory → Env → Prop}
  (phases : IsolatePhases S A served named reconciled after)
include phases

theorem IsolatePhases.wp_isolate {name : String} (start : named name m e) :
    (isolate name).wp S A (fun _ => after) m e := by
  refine wp_bind_read (phases.unread _ _) ?_
  split
  · exact phases.refuses name m e start
  · rename_i known
    refine wp_bind_calmly (phases.named_calm name) (calm_log rfl) start fun _ e held => ?_
    have reconciles := wp_onlyServices (reloadServices_supervises _)
      (phases.reconciles name m e held (by simpa using known))
    refine wp_then reconciles ?_
    rintro _ m' e ⟨held,only⟩
    rw [← (onlyServices_iff only).1]
    exact wp_bind_update (phases.unread _ _) (phases.publishes name m' e held)

theorem IsolatePhases.wp_handleIsolate (start : served m e) : handleIsolate.wp S A (fun _ => after) m e := by
  refine wp_then (phases.takes m e start) fun pending m e held => ?_
  cases pending with
  | none => exact held
  | some name => exact wp_then (phases.wp_isolate held) fun _ _ _ done => done

end Isolate

section Verdict
variable {judging : Option String → Memory → Env → Prop} {rolling back restored : Watch → Memory → Env → Prop}
  {after : Memory → Env → Prop} (phases : VerdictPhases S A judging rolling back restored after)
include phases

theorem VerdictPhases.wp_restore {name : String} {w : Watch} (start : judging (some name) m e)
    (watching : m.watch = some w) (touched : w.touches name = true) :
    (Rollback.restore w name).wp S A (fun _ m e => after { m with watch := none } e) { m with watch := none } e := by
  refine wp_then (phases.rolls name w m e start watching touched) fun _ m e held => ?_
  refine wp_then (phases.reconciles w m e held) fun _ m e held => ?_
  refine wp_then (phases.levels w m e held) fun _ m e held => ?_
  refine wp_bind_calmly (phases.restored_calm w) ?_ held fun _ e held => ?_
  · exact uses_each fun h _ => uses_bind (calm_call rfl) fun _ => uses_pure _
  refine wp_then (phases.ends w m e held) fun _ m e held => ?_
  exact ⟨phases.unread _ _,held⟩

theorem VerdictPhases.wp_check {failedName : Option String} {w : Watch} (start : judging failedName m e)
    (watching : m.watch = some w) : (Rollback.check w failedName).wp S A
      (fun watch m e => after { m with watch } e) { m with watch := none } e := by
  unfold Rollback.check
  split
  · rename_i name failed
    obtain ⟨rfl,touched⟩ := Option.filter_eq_some_iff.mp failed
    exact wp_then (phases.wp_restore start watching touched) fun _ m e held => held
  · rename_i spared
    refine wp_then (phases.looks failedName w m e start watching spared) fun t m e held => ?_
    split
    · rename_i early
      rw [if_pos early] at held
      exact held
    · rename_i late
      rw [if_neg late] at held
      exact wp_then held fun _ m e held => held

theorem VerdictPhases.wp_resolveWatch {failedName : Option String} (start : judging failedName m e) :
    (resolveWatch failedName).wp S A (fun _ => after) m e := by
  refine wp_bind_exchange (phases.unread _ _) ?_
  cases watching : m.watch with
  | none =>
    have same : { m with watch := none } = m := by rw [← watching]
    dsimp only
    rw [same]
    exact phases.unwatched failedName m e start watching
  | some w =>
    refine wp_then (R := fun _ => after) ?_ fun _ _ _ held => held
    refine wp_then (phases.wp_check start watching) fun watch m e held => ?_
    exact ⟨phases.unread _ _,held⟩

end Verdict

section Boot
variable {started booted : Memory → Env → Prop} {loaded levelled published ready : Config → Memory → Env → Prop}
  (phases : BootPhases S A started loaded levelled published ready booted)
include phases

theorem BootPhases.wp_prepare (start : started m e) : prepare.wp S A (fun cfg => levelled cfg) m e := by
  have calm := phases.started_calm
  refine wp_bind_calmly calm (calm_log rfl) start fun _ e held => ?_
  refine wp_bind_calmly calm (calm_call rfl) held fun subreaper e held => ?_
  refine wp_bind_calmly calm (orElseLog_calm fun _ => rfl) held fun _ e held => ?_
  refine wp_bind_calmly calm (calm_call rfl) held fun available e held => ?_
  refine wp_bind_calmly calm (uses_provided (calm_log rfl)) held fun _ e held => ?_
  refine wp_then (phases.loads m e held) fun cfg m e held => ?_
  refine wp_then (phases.levels cfg m e held) fun _ m e held => ?_
  exact wp_bind_calmly (phases.levelled_calm cfg) (applyHostname_calm (fun _ _ => rfl) _) held fun _ e held => held

theorem BootPhases.wp_guardSignals {cfg : Config} (start : levelled cfg m e) :
    guardSignals.wp S A (fun _ => levelled cfg) m e := by
  have calm := phases.levelled_calm cfg
  refine wp_bind_calmly calm (calm_call rfl) start fun installed e held => ?_
  refine wp_bind_calmly calm (orElseLog_calm fun _ => rfl) held fun _ e held => ?_
  refine wp_then (phases.blocks cfg m e held) fun blocked m e held => ?_
  exact wp_calmly calm (orElseLog_calm fun _ => rfl) held

theorem BootPhases.wp_boot {cfg : Config} (start : levelled cfg m e) : (boot cfg).wp S A (fun _ => booted) m e := by
  refine wp_then (phases.listens cfg m e start) fun _ m e held => ?_
  refine wp_bind_calmly (phases.levelled_calm cfg) (calm_call rfl) held fun _ e held => ?_
  refine wp_then (phases.publishes cfg m e held) fun _ m e held => ?_
  refine wp_then (phases.times cfg m e held) fun timerDefs m e held => ?_
  exact wp_bind_update (phases.unread _ _) (phases.spawns cfg _ e held)

/-- From the start to the loop. -/
theorem BootPhases.wp_main {Q : Unit → Memory → Env → Prop}
    (loops : ∀ grace m e, booted m e → (runEventLoop grace).wp S A Q m e) (start : started m e) :
    main.wp S A Q m e := by
  refine wp_then (phases.wp_prepare start) fun cfg m e held => ?_
  refine wp_then (phases.wp_guardSignals held) fun _ m e held => ?_
  refine wp_then (phases.wp_boot held) fun _ m e held => ?_
  refine wp_then (phases.unblocks m e held) fun unblocked m e held => ?_
  refine wp_bind_calmly phases.booted_calm (orElseLog_calm fun _ => rfl) held fun _ e held => ?_
  exact loops _ m e held

end Boot
end Phases
end MitosServices
