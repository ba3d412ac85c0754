import MitosServices.Membership

/-! What a rollback undoes of a reload, component by component: the configuration, the tracked
services, the timers, the targets published to clients and the log level. -/
namespace MitosServices.Undoing
open Interaction Interaction.Program
open Names (Unique)
open Tracking MitosServices.Membership

structure Snapshot where
  cfg : Config := Config.default
  services : Services := ∅
  target : String := ""
  timerDefs : List TimerDef := []
  published : List String := []
  level : Level := .info

/-- What is noted of a run: the log level and the targets last published, the state before the last
reload, what was loaded last, and whether a rollback is under way or has just been done. -/
structure Record where
  level : Level := .info
  published : List String := []
  before : Snapshot := {}
  loaded : Config := Config.default
  loadedTimers : List TimerDef := []
  rolling : Bool := false
  rolled : Bool := false

def Record.heard (g : Record) : (op : Op) → Memory → op.Ans → Record
  | .setLevel level, _, _ => { g with level }
  | .publishTargets _ all, _, _ => { g with published := all }
  | .log .reloadingConfig, m, _ =>
    { g with before := ⟨m.cfg,m.services,m.currentTarget,m.timerDefs,g.published,g.level⟩ }
  | .loadOrDefault, _, cfg => { g with loaded := cfg }
  | .loadUnits, _, units =>
    { g with loaded := { g.loaded with services := Config.mergeServices g.loaded.services units } }
  | .loadTimers, _, loadedTimers => { g with loadedTimers }
  | .log (.rollingBack _), _, _ => { g with rolling := true }
  | .log .rolledBack, _, _ => { g with rolling := false, rolled := true }
  | .swap .rebootRequested, _, _ => { g with rolled := false }
  | _, _, _ => g

def records : Monitor Memory Op Op.Ans Kernel Event Record where
  event _ _ _ _ g := g
  reply op m _ r g := g.heard op m r

/-- As in an ordinary run, and every spawn of a rollback succeeds, with a pid that is not in the
table. -/
def respawning : Condition Memory Op Op.Ans (Kernel × Record) Event where
  event _ _ _ _ := true
  reply
    | .loadOrDefault, _, _, cfg => decide (Distinct cfg.services)
    | .spawn (.service _ critical) _, _, e, .error _ => !critical && !e.2.rolling
    | .spawn _ _, _, e, .error _ => !e.2.rolling
    | .spawn _ _, m, e, .ok pid => !e.2.rolling || (m.services.lookup pid).isNone
    | .takePendingIsolate, m, _, some _ => m.watch.isNone
    | _, _, _, _ => true

def machine : Machine Memory Op Op.Ans (Kernel × Record) Event :=
  (Kernel.machine.watched records).under respawning

def SameDefinitions (old new : Services) : Prop :=
  (∀ pid sup, old.lookup pid = some sup →
    ∃ p s, new.lookup p = some s ∧ Alike sup.definition s.definition) ∧
  ∀ pid sup, new.lookup pid = some sup →
    ∃ p s, old.lookup p = some s ∧ Alike s.definition sup.definition

structure Undone (before : Snapshot) (m : Memory) (g : Record) : Prop where
  cfg : m.cfg = before.cfg
  services : SameDefinitions before.services m.services
  timerDefs : m.timerDefs = before.timerDefs
  published : g.published = before.published
  level : g.level = before.level

/-- The reload has loaded the timers that were there and services in the same targets, and every
service of the current target was running when it came. -/
structure Undoable (g : Record) : Prop where
  timers : g.loadedTimers = g.before.timerDefs
  targets : Targets.list g.loaded.services = g.before.published
  running : ∀ d ∈ Targets.servicesIn g.before.cfg.services g.before.target,
    g.before.services.tracks d.name = true

def asked (op : Option Op) (m : Memory) (e : Kernel × Record) : Prop :=
  op = some (.swap .rebootRequested) → e.2.rolled = true → (Undone e.2.before m e.2 ↔ Undoable e.2)

section Definitions
variable {a b c : ServiceDef}

theorem alike_name (alike : Alike a b) : a.name = b.name := by
  unfold Alike at alike
  rw [← alike]

/-- Among definitions with distinct names, the one a tracked service is like is the one of its name. -/
theorem alike_of_named {defs : List ServiceDef} (distinct : Distinct defs) (one : OneOf defs a)
    (member : b ∈ defs) (named : a.name = b.name) : Alike a b := by
  obtain ⟨d,there,alike⟩ := one
  have same : d = b := List.inj_on_of_nodup_map distinct there member ((alike_name alike).symm.trans named)
  exact same ▸ alike

/-- Where exactly `defs` are tracked now, what was tracked before is the same if and only if none
of them was missing. -/
theorem sameDefinitions_iff {old new : Services} {defs : List ServiceDef} (distinct : Distinct defs)
    (sound : Sound (OneOf defs) old) (progress : Progress True defs [] new) :
    SameDefinitions old new ↔ ∀ d ∈ defs, old.tracks d.name = true := by
  have now : ∀ pid sup, new.lookup pid = some sup → sup.definition ∈ defs := by
    intro pid sup found
    rcases progress.source pid sup found with member | ⟨_,member,-⟩
    · exact member
    · exact absurd member List.not_mem_nil
  constructor
  · rintro ⟨-,back⟩ d member
    obtain ⟨pid,sup,found,rfl⟩ := progress.complete trivial d member
    obtain ⟨p,s,there,alike⟩ := back pid sup found
    exact Services.tracks_iff.mpr ⟨p,s,there,alike_name alike⟩
  · intro running
    constructor
    · intro pid sup found
      obtain ⟨d,member,alike⟩ := sound.2 pid sup found
      obtain ⟨p,s,there,rfl⟩ := progress.complete trivial d member
      exact ⟨p,s,there,alike⟩
    · intro pid sup found
      have member := now pid sup found
      obtain ⟨p,s,there,named⟩ := Services.tracks_iff.mp (running _ member)
      exact ⟨p,s,there,alike_of_named distinct (sound.2 p s there) member named⟩

end Definitions

section Surroundings
variable {m : Memory} {e e' : Kernel × Record}

abbrev surroundings : Surroundings Memory Op Op.Ans (Kernel × Record) := machine.surroundings

theorem replies_heard {op : Op} {r : op.Ans} (replied : surroundings.replies op m e r e') :
    e'.2 = e.2.heard op m r := (Machine.heard_iff.mp replied).2.2

theorem records_unstirred : records.Unstirred := fun _ _ _ _ _ => rfl

/-- Only a configuration and the turns of the loop are heard of. -/
theorem heard_apart {op : Op} {r : op.Ans} {g : Record} (apart : op.configures = false)
    (turnless : op ≠ .swap .rebootRequested) : g.heard op m r = g := by
  cases op with
  | swap flag => cases flag <;> first | rfl | exact absurd rfl turnless
  | log line => cases line <;> first | rfl | contradiction
  | _ => first | rfl | contradiction

theorem rolling_heard {op : Op} {r : op.Ans} {g : Record} (supervises : op.supervises = true) :
    (g.heard op m r).rolling = g.rolling := by
  cases op with
  | log line => cases line <;> first | rfl | contradiction
  | _ => first | rfl | contradiction

theorem ordinary_surroundings : Ordinary surroundings asked fun e => e.2.rolling = true where
  visits listed m e visited e' replied := by
    have answered := Machine.watched_answer_iff.mp (Machine.under_answer_iff.mp replied).2
    exact Kernel.answer_iterate (m := m) answered.1
  unasked _ _ _ other turns := absurd turns other
  critical name command err m e e' replied := by
    have allowed := (Machine.under_answer_iff.mp replied).1
    simp [respawning] at allowed
  moves _ _ _ _ moved rolling := records_unstirred.moves moved ▸ rolling
  replies _ _ _ _ _ supervises replied rolling := by
    rw [replies_heard replied,rolling_heard supervises]
    exact rolling
  succeeds origin command err m e e' rolling replied := by
    have allowed := (Machine.under_answer_iff.mp replied).1
    cases origin <;> simp [respawning,rolling] at allowed
  fresh origin command pid m e e' rolling replied := by
    have allowed := (Machine.under_answer_iff.mp replied).1
    simpa [respawning,rolling] using allowed
  loads m e cfg e' replied := of_decide_eq_true (Machine.under_answer_iff.mp replied).1
  isolates m e name e' replied := by
    have allowed := (Machine.under_answer_iff.mp replied).1
    simpa [respawning] using allowed

end Surroundings
section Unheard
variable {m : Memory} {e : Kernel × Record}

theorem wp_hears {op : Op} {Q : op.Ans → Memory → Kernel × Record → Prop} (turnless : op ≠ .swap .rebootRequested)
    (rest : ∀ e₁ r e', e'.2 = e.2.heard op m r → surroundings.replies op m e₁ r e' → Q r m e') :
    (call op).wp surroundings asked Q m e := by
  refine wp_perform (P := fun e' => e'.2 = e.2) rfl ?_ ?_ ?_
  · exact fun e₁ e₂ moved same => (records_unstirred.moves moved).trans same
  · exact fun e' _ turns => absurd (Option.some.inj turns) turnless
  · intro e₁ r e' same replied
    exact rest e₁ r e' (same ▸ replies_heard replied) replied

/-- A call of which the record, and with it what is known next, follows from the answer. -/
theorem wp_notes {op : Op} {P : Memory → Record → Prop} (turnless : op ≠ .swap .rebootRequested)
    (noted : ∀ r, P m (e.2.heard op m r)) : (call op).wp surroundings asked (fun _ m e => P m e.2) m e := by
  refine wp_hears turnless fun _ r e' heard _ => ?_
  rw [heard]
  exact noted r

/-- What has no part in a configuration leaves the record as it is. -/
theorem unheard_frame {upd : Memory → Memory → Prop} {ok : Op → Prop} {P : Memory → Record → Prop}
    (apart : ∀ op, ok op → op.configures = false ∧ op ≠ .swap .rebootRequested)
    (closed : ∀ m m' g, upd m m' → P m g → P m' g) :
    surroundings.Frame asked upd ok fun m e => P m e.2 where
  updates m m' e written held := closed m m' e.2 written held
  moves _ _ _ _ _ moved held := by
    rw [records_unstirred.moves moved]
    exact held
  replies op _ _ _ _ allowed replied held := by
    rw [replies_heard replied,heard_apart (apart op allowed).1 (apart op allowed).2]
    exact held
  holds op _ _ allowed _ := by
    rintro rfl
    exact absurd rfl (apart _ (allowed _ rfl)).2

theorem apart_of_calm {op : Op} (calm : op.Calm) : op.configures = false ∧ op ≠ .swap .rebootRequested := by
  refine ⟨calm.unconfigured,?_⟩
  rintro rfl
  exact absurd calm.plain.1 (by decide)

theorem record_calm (P : Memory → Record → Prop) : Calmly surroundings asked fun m e => P m e.2 :=
  unheard_frame (fun _ => apart_of_calm) fun _ _ _ same held => same ▸ held

/-- A part that tells nothing, next to what it comes to. -/
theorem wp_unheard {α : Type} {upd : Memory → Memory → Prop} {ok : Op → Prop} {p : Code α}
    {Q : α → Memory → Kernel × Record → Prop} (uses : p.Uses upd ok)
    (apart : ∀ op, ok op → op.configures = false ∧ op ≠ .swap .rebootRequested)
    (done : p.wp surroundings asked Q m e) :
    p.wp surroundings asked (fun a m' e' => Q a m' e' ∧ e'.2 = e.2) m e := by
  have unheard := wp_frame (unheard_frame (P := fun _ g => g = e.2) apart fun _ _ _ _ same => same) uses rfl (m := m)
  exact wp_weaken (wp_and done unheard) (fun _ _ _ both => both.1) fun _ _ _ both => both

theorem apart_of_managing {op : Op} (allowed : op.supervises = true ∧ op.configures = false) :
    op.configures = false ∧ op ≠ .swap .rebootRequested := by
  refine ⟨allowed.2,?_⟩
  rintro rfl
  exact absurd allowed.1 (by decide)

theorem apart_of_answering {op : Op} (allowed : op.answersExit = true) :
    op.configures = false ∧ op ≠ .swap .rebootRequested := by
  refine ⟨?_,?_⟩
  · unfold Op.answersExit at allowed
    split at allowed
    · rfl
    · rfl
    · simpa using (Bool.and_eq_true_iff.mp allowed).2
  · rintro rfl
    exact absurd allowed (by decide)

end Unheard

section Parts
variable {m : Memory} {e : Kernel × Record}

structure Reloaded (w : Watch) (m : Memory) (g : Record) : Prop where
  previous : w.previous = g.before.cfg
  target : w.target = g.before.target
  timers : m.timerDefs = g.loadedTimers
  published : g.published = Targets.list g.loaded.services
  level : g.before.level = g.before.cfg.loglevel
  distinct : Distinct g.before.cfg.services
  sound : Sound (OneOf (Targets.servicesIn g.before.cfg.services g.before.target)) g.before.services

structure Accounted (m : Memory) (g : Record) : Prop where
  matched : Matched m
  distinct : Distinct m.cfg.services
  level : g.level = m.cfg.loglevel
  still : g.rolling = false
  watched : ∀ w, m.watch = some w → Reloaded w m g

def Served (m : Memory) (g : Record) : Prop := Accounted m g ∧ g.rolled = false

def Judged (m : Memory) (g : Record) : Prop :=
  Accounted m g ∧ (g.rolled = true → (Undone g.before m g ↔ Undoable g))

theorem judged_of_served {g : Record} (served : Served m g) : Judged m g := by
  refine ⟨served.1,fun rolled => ?_⟩
  rw [served.2] at rolled
  contradiction

structure Begun (m : Memory) (g : Record) : Prop where
  still : g.rolling = false
  rolled : g.rolled = false
  cfg : g.before.cfg = m.cfg
  target : g.before.target = m.currentTarget
  level : g.before.level = g.before.cfg.loglevel
  distinct : Distinct g.before.cfg.services
  sound : Sound (OneOf (Targets.servicesIn g.before.cfg.services g.before.target)) g.before.services

def Loaded (cfg : Config) (m : Memory) (g : Record) : Prop := Begun m g ∧ Distinct cfg.services ∧ g.loaded = cfg

def Adjusted (cfg : Config) (m : Memory) (g : Record) : Prop := Loaded cfg m g ∧ g.level = cfg.loglevel

def Timed (cfg : Config) (m : Memory) (g : Record) : Prop := Adjusted cfg m g ∧ m.timerDefs = g.loadedTimers

def Due (cfg : Config) (m : Memory) (g : Record) : Prop :=
  Served m { g with published := Targets.list cfg.services }

theorem wp_loadConfig {P : Memory → Record → Prop} (start : ∀ cfg, P m { e.2 with loaded := cfg }) :
    loadConfig.wp surroundings asked (fun cfg m e => Distinct cfg.services ∧ e.2.loaded = cfg ∧ P m e.2) m e := by
  refine (wp_bind _ _ _ _ _).mpr (wp_hears (by simp) fun e₁ cfg e' heard replied => ?_)
  refine (wp_bind _ _ _ _ _).mpr (wp_hears (by simp) fun _ units e₂ merged _ => ?_)
  rw [heard] at merged
  refine ⟨distinct_mergeServices_iff.mpr (ordinary_surroundings.loads m _ cfg e' replied),?_,?_⟩
  · rw [merged]
    rfl
  · rw [merged]
    exact start _

theorem due_of_timed {cfg : Config} {g : Record} {deadline : Nat} {touched : List String} (timed : Timed cfg m g)
    (gathered : Gathered cfg m) :
    Due cfg { m with watch := some ⟨deadline,touched,m.cfg,m.currentTarget⟩, cfg } g := by
  obtain ⟨⟨⟨begun,named,loaded⟩,level⟩,timers⟩ := timed
  refine ⟨⟨⟨gathered.1,gathered.2,?_⟩,named,level,begun.still,?_⟩,begun.rolled⟩
  · rintro _ ⟨⟩
    rfl
  · rintro _ ⟨⟩
    exact ⟨begun.cfg.symm,begun.target.symm,timers,by rw [loaded],begun.level,begun.distinct,begun.sound⟩

theorem reload_phases : ReloadPhases surroundings asked (fun m e => Served m e.2)
    (fun m e => Begun m e.2 ∧ Matched m) (fun cfg m e => Loaded cfg m e.2 ∧ Matched m)
    (fun cfg m e => Adjusted cfg m e.2 ∧ Matched m) (fun cfg m e => Timed cfg m e.2 ∧ Matched m)
    (fun cfg _ m e => Timed cfg m e.2 ∧ Gathered cfg m) (fun cfg m e => Due cfg m e.2) fun m e => Served m e.2 where
  unread _ _ := ordinary_surroundings.unasked _ _ _ (by simp)
  takes _ _ served := wp_notes (by simp) fun _ => served
  skips _ _ served := served
  logs _ _ served := by
    obtain ⟨⟨matched,distinct,level,still,-⟩,rolled⟩ := served
    refine wp_notes (P := fun m g => Begun m g ∧ Matched m) (by simp) fun _ => ⟨?_,matched⟩
    exact ⟨still,rolled,rfl,rfl,level,distinct,matched.unique,matched.members⟩
  loads m e logged := by
    obtain ⟨⟨still,rolled,cfg,target,level,distinct,sound⟩,matched⟩ := logged
    refine wp_mono (wp_loadConfig (P := fun m g => Begun m g ∧ Matched m) fun _ => ⟨?_,matched⟩) ?_
    · exact ⟨still,rolled,cfg,target,level,distinct,sound⟩
    · exact fun cfg m e loaded => ⟨⟨loaded.2.2.1,loaded.1,loaded.2.1⟩,loaded.2.2.2⟩
  levels cfg m e loaded := by
    obtain ⟨⟨⟨still,rolled,known,target,level,distinct,sound⟩,read⟩,matched⟩ := loaded
    refine wp_notes (P := fun m g => Adjusted cfg m g ∧ Matched m) (by simp) fun _ => ⟨⟨⟨?_,read⟩,rfl⟩,matched⟩
    exact ⟨still,rolled,known,target,level,distinct,sound⟩
  levelled_calm cfg := record_calm fun m g => Adjusted cfg m g ∧ Matched m
  times cfg m e levelled := by
    obtain ⟨⟨⟨⟨still,rolled,known,target,level,distinct,sound⟩,read⟩,set⟩,matched⟩ := levelled
    refine wp_hears (by simp) fun _ timerDefs e' timed _ => ?_
    rw [timed]
    refine ⟨⟨⟨⟨?_,read⟩,set⟩,rfl⟩,matched.unique,matched.members,matched.revertible⟩
    exact ⟨still,rolled,known,target,level,distinct,sound⟩
  reconciles cfg m e ready := by
    obtain ⟨⟨⟨⟨⟨still,rolled,known,target,level,distinct,sound⟩,read⟩,set⟩,timed⟩,matched⟩ := ready
    have reloaded := wp_reloaded (e := e) ordinary_surroundings.toStarting
      (Targets.servicesIn cfg.services m.currentTarget) matched.unique
    refine wp_mono (wp_unheard (reloadServices_manages _) (fun _ => apart_of_managing) reloaded) ?_
    rintro _ m' e' ⟨⟨gathered,only⟩,same⟩
    obtain ⟨sameCfg,sameTarget,-,sameTimers⟩ := onlyServices_iff only
    rw [same,Gathered,sameTarget]
    refine ⟨⟨⟨⟨?_,read⟩,set⟩,sameTimers.trans timed⟩,gathered⟩
    exact ⟨still,rolled,known.trans sameCfg.symm,target.trans sameTarget.symm,level,distinct,sound⟩
  reconciled_calm cfg _ := record_calm fun m g => Timed cfg m g ∧ Gathered cfg m
  dates cfg _ _ _ reconciled := by
    refine wp_hears (by simp) fun _ t e' same _ => ?_
    rw [same]
    exact due_of_timed reconciled.1 reconciled.2
  publishes _ _ _ due := wp_notes (by simp) fun _ => due

/-- An isolate publishes the targets of the configuration it leaves in force. -/
theorem isolate_phases : IsolatePhases surroundings asked (fun m e => Served m e.2)
    (fun _ m e => Served m e.2 ∧ m.watch = none)
    (fun name m e => Sound (OneOf (Targets.servicesIn m.cfg.services name)) m.services ∧ m.watch = none ∧
      Distinct m.cfg.services ∧ e.2.level = m.cfg.loglevel ∧ e.2.rolling = false ∧ e.2.rolled = false)
    fun m e => Served m e.2 where
  unread _ _ := ordinary_surroundings.unasked _ _ _ (by simp)
  takes m e served := by
    refine wp_hears (by simp) fun e₁ pending e' same replied => ?_
    rw [← show e'.2 = e.2 from same] at served
    cases pending with
    | none => exact served
    | some name => exact ⟨served,ordinary_surroundings.isolates m e₁ name e' replied⟩
  refuses _ _ _ named := wp_notes (by simp) fun _ => named.1
  named_calm _ := record_calm fun m g => Served m g ∧ m.watch = none
  reconciles name m e named _ := by
    obtain ⟨⟨⟨matched,distinct,level,still,-⟩,rolled⟩,unwatched⟩ := named
    have reloaded := wp_reloaded (e := e) ordinary_surroundings.toStarting
      (Targets.servicesIn m.cfg.services name) matched.unique
    refine wp_mono (wp_unheard (reloadServices_manages _) (fun _ => apart_of_managing) reloaded) ?_
    rintro _ m' e' ⟨⟨gathered,only⟩,same⟩
    obtain ⟨sameCfg,-,sameWatch,-⟩ := onlyServices_iff only
    rw [same,sameCfg,sameWatch]
    exact ⟨gathered,unwatched,distinct,level,still,rolled⟩
  publishes name m e reconciled := by
    obtain ⟨gathered,unwatched,distinct,level,still,rolled⟩ := reconciled
    refine wp_notes (P := Served) (by simp) fun _ => ⟨⟨⟨gathered.1,gathered.2,?_⟩,distinct,level,still,?_⟩,rolled⟩
    · simp [unwatched]
    · simp [unwatched]

theorem wp_handleExit_served (status : WaitStatus) (served : Served m e.2) :
    (handleExit status).wp surroundings asked (fun _ m e => Served m e.2) m e := by
  obtain ⟨⟨matched,distinct,level,still,watched⟩,rolled⟩ := served
  have answered := Tracking.wp_handleExit (e := e) ordinary_surroundings.toStarting status
    ⟨matched.unique,matched.members⟩
  refine wp_mono (wp_unheard (handleExit_answersExit status) (fun _ => apart_of_answering) answered) ?_
  rintro _ m' e' ⟨⟨sound,only⟩,same⟩
  obtain ⟨configured,-,watching,ticking⟩ := onlyServices_iff only
  rw [same]
  refine ⟨⟨matched_only matched only sound,?_,?_,still,fun w found => ?_⟩,rolled⟩
  · rw [configured]
    exact distinct
  · rw [configured]
    exact level
  · obtain ⟨previous,target,timers,published,levelled,named,before⟩ := watched w (watching ▸ found)
    exact ⟨previous,target,ticking.trans timers,published,levelled,named,before⟩

structure Reverting (w : Watch) (m : Memory) (g : Record) : Prop where
  aimed : w.target = m.currentTarget
  reloaded : Reloaded w m g

/-- A rollback restores the configuration, its services and its log level, and neither the timers
nor the published targets. -/
theorem judged_rolledBack {w : Watch} {g : Record} (reverting : Reverting w m g)
    (progress : Progress True (Targets.servicesIn w.previous.services w.target) [] m.services)
    (level : g.level = w.previous.loglevel) :
    Judged { m with cfg := w.previous, watch := none } { g with rolling := false, rolled := true } := by
  obtain ⟨aimed,previous,target,timers,published,before,named,sound⟩ := reverting
  have distinct : Distinct w.previous.services := previous ▸ named
  have definitions := sameDefinitions_iff (distinct_servicesIn named _) sound
    (by rw [← previous,← target]; exact progress)
  have tracked := sound_of_progress progress
  rw [aimed] at tracked
  refine ⟨⟨⟨tracked.1,tracked.2,by simp⟩,distinct,level,rfl,by simp⟩,fun _ => ?_⟩
  constructor
  · rintro ⟨-,services,timed,publishes,-⟩
    exact ⟨timers.symm.trans timed,published.symm.trans publishes,definitions.mp services⟩
  · rintro ⟨sameTimers,targets,running⟩
    refine ⟨previous,definitions.mpr running,timers.trans sameTimers,published.trans targets,?_⟩
    rw [before,← previous]
    exact level

theorem reverting_only {w : Watch} {g : Record} {m' : Memory} (reverting : Reverting w m g)
    (only : OnlyServices m m') : Reverting w m' g := by
  obtain ⟨aimed,previous,target,timers,published,before,named,sound⟩ := reverting
  obtain ⟨-,targeted,-,ticking⟩ := onlyServices_iff only
  exact ⟨aimed.trans targeted.symm,previous,target,ticking.trans timers,published,before,named,sound⟩

theorem verdict_phases : VerdictPhases surroundings asked (fun _ m e => Served m e.2)
    (fun w m e => Reverting w m e.2 ∧ Unique m.services ∧ e.2.rolling = true)
    (fun w m e => Reverting w m e.2 ∧
      Progress True (Targets.servicesIn w.previous.services w.target) [] m.services)
    (fun w m e => (Reverting w m e.2 ∧
      Progress True (Targets.servicesIn w.previous.services w.target) [] m.services) ∧
        e.2.level = w.previous.loglevel)
    fun m e => Judged m e.2 where
  unread _ _ := ordinary_surroundings.unasked _ _ _ (by simp)
  unwatched _ _ _ served _ := judged_of_served served
  rolls name w m e served watching _ := by
    obtain ⟨⟨matched,-,-,-,watched⟩,-⟩ := served
    obtain ⟨previous,target,timers,published,before,named,sound⟩ := watched w watching
    refine wp_notes (P := fun m g => Reverting w m g ∧ Unique m.services ∧ g.rolling = true) (by simp)
      fun _ => ⟨⟨matched.revertible w watching,?_⟩,matched.unique,rfl⟩
    exact ⟨previous,target,timers,published,before,named,sound⟩
  reconciles w m e rolling := by
    obtain ⟨reverting,unique,filled⟩ := rolling
    have distinct : Distinct (Targets.servicesIn w.previous.services w.target) := by
      rw [reverting.reloaded.previous]
      exact distinct_servicesIn reverting.reloaded.distinct _
    have respawned := wp_reloadServices ordinary_surroundings.toStarting _ (fun _ : True => distinct) unique
      fun _ => filled
    refine wp_mono (wp_unheard (reloadServices_manages _) (fun _ => apart_of_managing) respawned) ?_
    rintro _ m' e' ⟨⟨⟨progress,-⟩,only⟩,same⟩
    rw [same]
    exact ⟨reverting_only reverting only,progress⟩
  levels w m e back := by
    obtain ⟨⟨aimed,previous,target,timers,published,before,named,sound⟩,progress⟩ := back
    refine wp_notes (P := fun m g => (Reverting w m g ∧
      Progress True (Targets.servicesIn w.previous.services w.target) [] m.services) ∧
        g.level = w.previous.loglevel) (by simp) fun _ => ⟨⟨⟨aimed,?_⟩,progress⟩,rfl⟩
    exact ⟨previous,target,timers,published,before,named,sound⟩
  restored_calm w := record_calm fun m g => (Reverting w m g ∧
    Progress True (Targets.servicesIn w.previous.services w.target) [] m.services) ∧ g.level = w.previous.loglevel
  ends w m e restored := by
    refine wp_hears (by simp) fun _ _ e' rolled _ => ?_
    rw [rolled]
    exact judged_rolledBack restored.1.1 restored.1.2 restored.2
  looks _ w m e served watching _ := by
    obtain ⟨⟨matched,distinct,level,still,watched⟩,rolled⟩ := served
    refine wp_hears (by simp) fun _ t e' same _ => ?_
    have same : e'.2 = e.2 := same
    split
    · rw [same]
      refine judged_of_served ⟨⟨⟨matched.unique,matched.members,?_⟩,distinct,level,still,?_⟩,rolled⟩
      · rintro _ ⟨⟩
        exact matched.revertible w watching
      · rintro _ ⟨⟩
        obtain ⟨previous,target,timers,published,before,named,sound⟩ := watched w watching
        exact ⟨previous,target,timers,published,before,named,sound⟩
    · refine wp_hears (by simp) fun _ _ e₂ kept _ => ?_
      rw [show e₂.2 = e.2 from Eq.trans kept same]
      exact judged_of_served ⟨⟨⟨matched.unique,matched.members,by simp⟩,distinct,level,still,by simp⟩,rolled⟩

end Parts

section Loop
variable {m : Memory} {e : Kernel × Record}

theorem loop_invariant : LoopInvariant surroundings asked (fun m e => Judged m e.2) fun m e => Served m e.2 where
  unasked := ordinary_surroundings.unasked
  head _ _ judged _ := judged.2
  pending m e e' moved judged := by
    rw [records_unstirred.moves moved]
    exact judged
  turned m e r e' replied judged := by
    obtain ⟨⟨matched,distinct,level,still,watched⟩,-⟩ := judged
    rw [replies_heard replied]
    refine ⟨⟨matched,distinct,level,still,fun w found => ?_⟩,rfl⟩
    obtain ⟨previous,target,timers,published,levelled,named,before⟩ := watched w found
    exact ⟨previous,target,timers,published,levelled,named,before⟩
  moves op m e e' moved served := by
    rw [records_unstirred.moves moved]
    exact served
  replies op m e r e' apart _ turnless replied served := by
    rw [replies_heard replied,heard_apart apart turnless]
    exact served
  timers m m' e written served := by
    unfold OnlyTimers at written
    obtain ⟨⟨matched,distinct,level,still,watched⟩,rolled⟩ := served
    rw [written]
    refine ⟨⟨⟨matched.unique,matched.members,matched.revertible⟩,distinct,level,still,fun w found => ?_⟩,rolled⟩
    obtain ⟨previous,target,timers,published,levelled,named,before⟩ := watched w found
    exact ⟨previous,target,timers,published,levelled,named,before⟩
  reloads _ _ served := reload_phases.wp_handleReload served
  isolates _ _ served := isolate_phases.wp_handleIsolate served
  exits status _ _ served := wp_handleExit_served status served
  resolves _ _ _ served := verdict_phases.wp_resolveWatch served
  settles _ _ served := judged_of_served served

def Unrolled (g : Record) : Prop := g.rolling = false ∧ g.rolled = false

def Levelled (cfg : Config) (g : Record) : Prop := (Distinct cfg.services ∧ g.level = cfg.loglevel) ∧ Unrolled g

theorem boot_phases : BootPhases surroundings asked (fun _ e => Unrolled e.2)
    (fun cfg _ e => Distinct cfg.services ∧ Unrolled e.2) (fun cfg _ e => Levelled cfg e.2)
    (fun cfg _ e => Levelled cfg e.2)
    (fun cfg m e => Levelled cfg e.2 ∧ m.services = ∅ ∧ m.cfg = cfg ∧ m.currentTarget = cfg.defaultTarget)
    fun m e => (Unique m.services ∧ Members m) ∧ Levelled m.cfg e.2 where
  unread _ _ := ordinary_surroundings.unasked _ _ _ (by simp)
  started_calm := record_calm fun _ g => Unrolled g
  loads _ _ unrolled := by
    refine wp_mono (wp_loadConfig (P := fun _ g => Unrolled g) fun _ => unrolled) ?_
    exact fun _ _ _ loaded => ⟨loaded.1,loaded.2.2⟩
  levels cfg _ _ loaded := wp_notes (P := fun _ g => Levelled cfg g) (by simp) fun _ => ⟨⟨loaded.1,rfl⟩,loaded.2⟩
  levelled_calm cfg := record_calm fun _ g => Levelled cfg g
  blocks cfg _ _ levelled := wp_notes (P := fun _ g => Levelled cfg g) (by simp) fun _ => levelled
  listens cfg _ _ levelled := wp_notes (P := fun _ g => Levelled cfg g) (by simp) fun _ => levelled
  publishes cfg _ _ levelled := wp_notes (P := fun _ g => Levelled cfg g) (by simp) fun _ => levelled
  times cfg m e levelled := by
    refine wp_hears (by simp) fun _ timerDefs e' timed _ => ?_
    rw [timed]
    exact ⟨levelled,rfl,rfl,rfl⟩
  spawns cfg m e ready := by
    obtain ⟨levelled,bare,configured,targeted⟩ := ready
    have spawned := wp_spawnAll (e := e) ordinary_surroundings.toStarting
      (distinct_servicesIn levelled.1.1 cfg.defaultTarget) bare
    refine wp_mono (wp_unheard (spawnAll_manages _) (fun _ => apart_of_managing) spawned) ?_
    rintro _ m' e' ⟨⟨sound,only⟩,same⟩
    obtain ⟨sameCfg,sameTarget,-,-⟩ := onlyServices_iff only
    rw [same,Members,sameCfg,sameTarget,configured,targeted]
    exact ⟨sound,levelled⟩
  unblocks _ _ booted :=
    wp_notes (P := fun m g => (Unique m.services ∧ Members m) ∧ Levelled m.cfg g) (by simp) fun _ => booted
  booted_calm := record_calm fun m g => (Unique m.services ∧ Members m) ∧ Levelled m.cfg g

theorem wp_main (unrolled : Unrolled e.2) : main.wp surroundings asked (fun _ _ _ => True) m e := by
  refine boot_phases.wp_main (fun grace m e booted => ?_) unrolled
  obtain ⟨⟨unique,members⟩,⟨distinct,level⟩,still,rolled⟩ := booted
  refine loop_invariant.phases.wp_runEventLoop grace (judged_of_served ⟨⟨?_,distinct,level,still,?_⟩,rolled⟩)
  · exact ⟨unique,members,by simp⟩
  · simp

end Loop
/-- In a run whose configurations have distinct names, whose critical services start and whose
rollbacks find every spawn succeeding, a rollback with no isolate between it and the reload leaves
everything as it was before exactly if the reload loaded the timers and targets that were there and
every service of the current target was running when it came. -/
theorem rollback_undoes_iff (m : Memory) (k : Kernel)
    {t : State Memory Op Op.Ans (Kernel × Record) Unit}
    (run : Reaches surroundings ⟨main,m,(k,({} : Record))⟩ t)
    (turning : t.program.next? = some (.swap .rebootRequested)) (rolled : t.env.2.rolled = true) :
    Undone t.env.2.before t.mem t.env.2 ↔ Undoable t.env.2 :=
  wp_everywhere run (wp_main ⟨rfl,rfl⟩) (fun _ _ _ _ other => by simp at other) turning rolled

section Runs

def mailcheck : TimerDef := ⟨"mailcheck",none,none⟩

def rolledBackRun (timers : List TimerDef) : Option (State Memory Op Op.Ans (Kernel × Record) Unit) :=
  drive machine
    (fun op m e => match op with
      | .loadTimers => if m.cfg.services = [network,job] then timers else []
      | op => Kernel.obliging (fun _ => true) (nextConfig m.cfg) op m e.1)
    [turning,.stir .requestReload,.step,.upTo (· == .waitpid (.only 101) true) 300,
      .stir (.exit 101 (some (.signaled .sigterm))),turning,.stir (.exit 102 (some (.exited 1))),.step,turning]
    ⟨main,{},({},({} : Record))⟩

theorem rollback_undoes_iff_display : ∃ t, rolledBackRun [] = some t ∧ t.env.2.rolled = true ∧
    Undone t.env.2.before t.mem t.env.2 := by
  have there : (rolledBackRun []).any (fun t => decide (t.program.next? = some (.swap .rebootRequested) ∧
      t.env.2.rolled = true ∧ t.env.2.loadedTimers = t.env.2.before.timerDefs ∧
      Targets.list t.env.2.loaded.services = t.env.2.before.published ∧
      ∀ d ∈ Targets.servicesIn t.env.2.before.cfg.services t.env.2.before.target,
        t.env.2.before.services.tracks d.name = true)) = true := by
    decide +kernel
  obtain ⟨t,reached,now⟩ := (Option.any_eq_true _ _).mp there
  obtain ⟨head,rolled,timers,targets,running⟩ := of_decide_eq_true now
  refine ⟨t,reached,rolled,?_⟩
  exact (rollback_undoes_iff {} {} (drive_reaches reached) head rolled).mpr ⟨timers,targets,running⟩

theorem keeps_new_timers : ∃ (m : Memory) (k : Kernel)
    (t : State Memory Op Op.Ans (Kernel × Record) Unit),
    Reaches surroundings ⟨main,m,(k,({} : Record))⟩ t ∧
      t.program.next? = some (.swap .rebootRequested) ∧ t.env.2.rolled = true ∧
      ¬ Undone t.env.2.before t.mem t.env.2 := by
  have there : (rolledBackRun [mailcheck]).any (fun t =>
      decide (t.program.next? = some (.swap .rebootRequested) ∧ t.env.2.rolled = true ∧
        t.mem.timerDefs ≠ t.env.2.before.timerDefs)) = true := by
    decide +kernel
  obtain ⟨t,reached,now⟩ := (Option.any_eq_true _ _).mp there
  obtain ⟨head,rolled,others⟩ := of_decide_eq_true now
  exact ⟨{},{},t,drive_reaches reached,head,rolled,fun undone => others undone.timerDefs⟩

end Runs
end MitosServices.Undoing
