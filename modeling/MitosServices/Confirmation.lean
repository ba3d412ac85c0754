import MitosServices.LoopRule

/-! What a rollback restores: the configuration that was in force when the watched reload was
handled. It is the last confirmed one unless reloads have overlapped since. -/
namespace MitosServices.Confirmation
open Interaction Interaction.Program

/-- What is noted of a run: the last confirmed configuration, the one in force when the last
reload was handled, whether a reload has been handled under an unresolved watch since the last
confirmation, the service reaped last, and of the current turn whether a service touched by the
watched reload was reported to have failed for good and how far a rollback has come. -/
structure Record where
  confirmed : Config
  previous : Config
  overlapped : Bool := false
  reaped : Option Supervised := none
  failed : Bool := false
  rolling : Bool := false
  rolled : Bool := false

def Record.start (cfg : Config) : Record := { confirmed := cfg, previous := cfg }

def records : Monitor Memory Op Op.Ans Kernel Event Record where
  event _ _ _ _ g := g
  reply
    | .swap .rebootRequested, _, _, _, g => { g with failed := false, rolling := false, rolled := false }
    | .log .reloadingConfig, m, _, _, g =>
      { g with previous := m.cfg, overlapped := g.overlapped || m.watch.isSome }
    | .waitpid .any _, m, _, status, g =>
      { g with reaped := (openedBy status).bind fun pid => m.services.lookup pid }
    | .log (.serviceEnded name _), m, _, _, g =>
      { g with failed := g.failed || (g.reaped.any (fun sup => sup.definition.critical) &&
          m.watch.any fun w => w.touches name) }
    | .log (.givingUp name _), m, _, _, g =>
      { g with failed := g.failed || m.watch.any fun w => w.touches name }
    | .log (.rollingBack _), _, _, _, g => { g with rolling := true }
    | .log .rolledBack, _, _, _, g => { g with rolled := true }
    | .log .keeping, m, _, _, g => { g with confirmed := m.cfg, overlapped := false }
    | _, _, _, _, g => g

def Unheard : Op → Prop
  | .swap .rebootRequested | .waitpid .any _ | .log .reloadingConfig | .log (.serviceEnded _ _)
  | .log (.givingUp _ _) | .log (.rollingBack _) | .log .rolledBack | .log .keeping
  | .log .criticalExited => False
  | _ => True

/-- Nothing but the end of the exit's report comes between a failure and the rollback, which is
done when the loop turns, has restored the configuration in force before the reload, and never
gives way to the shutdown for a critical service. -/
def asked : Option Op → Memory → Kernel × Record → Prop
  | some (.swap .rebootRequested), m, e => (e.2.failed = true → e.2.rolled = true) ∧
    (e.2.rolled = true → m.cfg = e.2.previous ∧ (e.2.overlapped = false → m.cfg = e.2.confirmed))
  | some (.log .criticalExited), _, e => e.2.failed = false
  | some (.killAndRemove _), _, _ | some (.forget _), _, _ | some (.log (.rollingBack _)), _, _
  | none, _, _ => True
  | some _, _, e => e.2.failed = true → e.2.rolling = true

abbrev surroundings : Surroundings Memory Op Op.Ans (Kernel × Record) :=
  (Kernel.machine.watched records).surroundings

section Deaf

theorem records_deaf : records.Deaf Unheard where
  event _ _ _ _ _ := rfl
  reply op m k r g unheard := by
    cases op with
    | swap flag => cases flag <;> first | rfl | exact unheard.elim
    | waitpid target nohang => cases target <;> first | rfl | exact unheard.elim
    | log line => cases line <;> first | rfl | exact unheard.elim
    | _ => rfl

theorem asked_unheard {op : Option Op} {m : Memory} {e : Kernel × Record}
    (unheard : ∀ o ∈ op, Unheard o) (answered : e.2.failed = true → e.2.rolling = true) :
    asked op m e := by
  cases op with
  | none => trivial
  | some op =>
    have unheard := unheard op rfl
    cases op with
    | swap flag => cases flag <;> first | exact answered | exact unheard.elim
    | log line => cases line <;> first | exact answered | exact unheard.elim
    | killAndRemove name => trivial
    | forget name => trivial
    | _ => exact answered

theorem unheard_of_supervises {op : Op} (supervises : op.supervises = true) : Unheard op := by
  cases op with
  | swap flag => contradiction
  | waitpid target nohang => cases target <;> trivial
  | log line => cases line <;> trivial
  | _ => trivial

theorem unheard_of_times {op : Op} (times : op.times = true) : Unheard op := by
  cases op with
  | swap flag => contradiction
  | waitpid target nohang => contradiction
  | log line => cases line <;> trivial
  | _ => trivial

theorem unheard_of_offers {op : Op} (offers : op.offers = true) : Unheard op := by
  cases op with
  | swap flag => contradiction
  | waitpid target nohang => contradiction
  | log line => cases line <;> trivial
  | _ => trivial

end Deaf

section Frames
variable {α κ : Type} {p : Code α} {key : Memory → κ} {P : Memory → Kernel × Record → Prop} {m : Memory}
  {e : Kernel × Record} {g : Record}

structure Rests (key : Memory → κ) (P : Memory → Kernel × Record → Prop) : Prop where
  same : ∀ m m' e e', key m' = key m → e'.2 = e.2 → P m e → P m' e'
  answered : ∀ m e, P m e → e.2.failed = true → e.2.rolling = true

theorem Rests.frame (rests : Rests key P) : surroundings.Frame asked (fun m m' => key m' = key m) Unheard P where
  updates m m' e written held := rests.same m m' e e written rfl held
  moves op m e e' _ moved held := rests.same m m e e' rfl (records_deaf.moves moved) held
  replies op m e r e' unheard replied held := by
    refine rests.same m m e e' rfl ?_ held
    rw [(Machine.watched_answer_iff.mp replied).2,records_deaf.reply _ _ _ _ _ unheard]
  holds op m e unheard held := asked_unheard unheard (rests.answered m e held)

theorem Rests.calmly (rests : Rests key P) : Calmly surroundings asked P :=
  calmly_of_frame rests.frame fun _ calm => unheard_of_supervises (Op.supervises_of_plain calm.plain)

theorem wp_rests (rests : Rests key P) (keeps : p.Uses (fun m m' => key m' = key m) Unheard) (held : P m e) :
    p.wp surroundings asked (fun _ => P) m e := wp_frame rests.frame keeps held

def force (m : Memory) : Config × Option Watch := (m.cfg,m.watch)

abbrev Keeps (p : Code α) : Prop := p.Uses (fun m m' => force m' = force m) Unheard

theorem keeps_of_supervising (h : Supervising p) : Keeps p := by
  refine uses_mono h (fun m m' written => ?_) fun _ => unheard_of_supervises
  unfold OnlyServices at written
  rw [written]
  rfl

theorem keeps_of_plain (h : p.Uses Eq Op.Plain) : Keeps p := keeps_of_supervising (supervising_of_plain h)

theorem keeps_call {op : Op} (unheard : Unheard op) : Keeps (call op) := uses_perform unheard

theorem unfailed (failed : g.failed = false) : g.failed = true → g.rolling = true := by
  simp [failed]

end Frames

section Turn
variable {m : Memory} {e : Kernel × Record} {cfg : Config} {watch : Option Watch} {g : Record}

structure Accounted (cfg : Config) (watch : Option Watch) (g : Record) : Prop where
  source : ∀ w, watch = some w → w.previous = g.previous
  settled : g.overlapped = false → watch = none → cfg = g.confirmed
  trusted : g.overlapped = false → ∀ w, watch = some w → w.previous = g.confirmed

def Head (m : Memory) (e : Kernel × Record) : Prop :=
  Accounted m.cfg m.watch e.2 ∧ asked (some (.swap .rebootRequested)) m e

structure Serving (m : Memory) (e : Kernel × Record) : Prop where
  accounted : Accounted m.cfg m.watch e.2
  failed : e.2.failed = false
  rolled : e.2.rolled = false

theorem head_of_serving (serving : Serving m e) : Head m e := by
  refine ⟨serving.accounted,?_,?_⟩
  · simp [serving.failed]
  · simp [serving.rolled]

theorem serving_rests : Rests force Serving where
  same m m' e e' same noted serving := by
    obtain ⟨cfg,watch⟩ := Prod.mk.inj same
    refine ⟨?_,noted ▸ serving.failed,noted ▸ serving.rolled⟩
    rw [cfg,watch,noted]
    exact serving.accounted
  answered _ _ serving := unfailed serving.failed

structure Reloading (m : Memory) (e : Kernel × Record) : Prop where
  source : m.cfg = e.2.previous
  trusted : e.2.overlapped = false → m.cfg = e.2.confirmed
  failed : e.2.failed = false
  rolled : e.2.rolled = false

theorem reloading_rests : Rests force Reloading where
  same m m' e e' same noted reloading := by
    obtain ⟨source,trusted,failed,rolled⟩ := reloading
    rw [← noted,← (Prod.mk.inj same).1] at source trusted
    exact ⟨source,trusted,noted ▸ failed,noted ▸ rolled⟩
  answered _ _ reloading := unfailed reloading.failed

theorem reload_phases : ReloadPhases surroundings asked Serving Reloading (fun _ => Reloading) (fun _ => Reloading)
    (fun _ => Reloading) (fun _ _ => Reloading) (fun _ => Serving) Serving where
  unread _ _ := trivial
  takes _ _ serving := wp_rests serving_rests (keeps_call trivial) serving
  skips _ _ serving := serving
  logs m e serving := by
    refine wp_noted records_deaf (fun _ => unfailed serving.failed) fun k _ k' _ => ?_
    -- the old watch has to be resolved for what is in force to be a confirmed configuration
    refine ⟨rfl,fun apart => ?_,serving.failed,serving.rolled⟩
    obtain ⟨before,resolved⟩ := Bool.or_eq_false_iff.mp apart
    exact serving.accounted.settled before (by simpa using resolved)
  loads _ _ reloading := wp_rests reloading_rests (keeps_of_plain loadConfig_plain) reloading
  levels _ _ _ reloading := wp_rests reloading_rests (keeps_call trivial) reloading
  levelled_calm _ := reloading_rests.calmly
  times _ _ _ reloading := wp_mono (wp_rests reloading_rests (keeps_call trivial) reloading) fun _ m e reloading =>
    ⟨reloading.source,reloading.trusted,reloading.failed,reloading.rolled⟩
  reconciles _ _ _ reloading :=
    wp_rests reloading_rests (keeps_of_supervising (reloadServices_supervises _)) reloading
  reconciled_calm _ _ := reloading_rests.calmly
  dates _ _ _ _ reloading := by
    refine wp_mono (wp_rests reloading_rests (keeps_call trivial) reloading) fun t m e reloading => ?_
    refine ⟨⟨?_,by simp,?_⟩,reloading.failed,reloading.rolled⟩
    · rintro _ ⟨⟩
      exact reloading.source
    · rintro apart _ ⟨⟩
      exact reloading.trusted apart
  publishes _ _ _ serving := wp_rests serving_rests (keeps_of_plain (publishTargets_plain _ _)) serving

theorem handleIsolate_keeps : Keeps handleIsolate := by
  refine uses_bind (keeps_call trivial) fun pending => uses_each fun name _ => ?_
  refine uses_mono (isolate_uses name) (fun m m' written => ?_) fun _ => unheard_of_supervises
  unfold OnlyIsolated at written
  rw [written]
  rfl

theorem dumpStatus_keeps : Keeps dumpStatus := by
  refine uses_bind (keeps_call trivial) fun _ => uses_provided ?_
  refine uses_bind (uses_read fun _ => rfl) fun _ => ?_
  refine uses_bind (keeps_of_plain statusSummary_plain) fun _ => ?_
  exact uses_bind (keeps_call trivial) fun _ => keeps_call trivial

theorem tick_keeps (timers : List TimerDef) (services : List ServiceDef) : Keeps (Timers.tick timers services) := by
  refine uses_mono (tick_times timers services) (fun m m' written => ?_) fun _ => unheard_of_times
  unfold OnlyTimers at written
  rw [written]
  rfl

end Turn

section Verdict
variable {m : Memory} {e : Kernel × Record} {w : Watch}

structure Reported (failedName : Option String) (m : Memory) (e : Kernel × Record) : Prop where
  accounted : Accounted m.cfg m.watch e.2
  rolled : e.2.rolled = false
  blamed : e.2.failed = true → ∃ w name, m.watch = some w ∧ failedName = some name ∧ w.touches name = true

theorem reported_of_serving (failedName : Option String) (serving : Serving m e) :
    Reported failedName m e :=
  ⟨serving.accounted,serving.rolled,by simp [serving.failed]⟩

/-- Nothing has failed that the watch does not answer for. -/
theorem serving_of_reported {failedName : Option String} (reported : Reported failedName m e)
    (spared : ∀ w name, m.watch = some w → failedName = some name → w.touches name = false) : Serving m e := by
  refine ⟨reported.accounted,?_,reported.rolled⟩
  rw [← Bool.not_eq_true]
  intro failed
  obtain ⟨w,name,watching,named,touched⟩ := reported.blamed failed
  simp [spared w name watching named] at touched

structure Rolling (w : Watch) (m : Memory) (e : Kernel × Record) : Prop where
  rolling : e.2.rolling = true
  source : w.previous = e.2.previous
  trusted : e.2.overlapped = false → w.previous = e.2.confirmed

theorem rolling_rests (w : Watch) : Rests force (Rolling w) where
  same m m' e e' _ noted held := by
    obtain ⟨rolling,source,trusted⟩ := held
    rw [← noted] at rolling source trusted
    exact ⟨rolling,source,trusted⟩
  answered _ _ held _ := held.rolling

abbrev Watching (w : Watch) (m : Memory) (e : Kernel × Record) : Prop := Serving { m with watch := some w } e

theorem watching_rests (w : Watch) : Rests force (Watching w) where
  same m m' e e' same noted watching := by
    have cfg : m'.cfg = m.cfg := congrArg Prod.fst same
    exact serving_rests.same _ _ e e' (by rw [force,cfg,force]) noted watching
  answered _ _ watching := unfailed watching.failed

theorem verdict_phases : VerdictPhases surroundings asked Reported Rolling Rolling Rolling Head where
  unread _ _ := trivial
  unwatched _ _ _ reported unwatched := by
    refine head_of_serving (serving_of_reported reported ?_)
    simp [unwatched]
  rolls name w m e reported watching _ := by
    refine wp_noted records_deaf (fun _ => trivial) fun k _ k' _ => ?_
    exact ⟨rfl,reported.accounted.source w watching,fun apart => reported.accounted.trusted apart w watching⟩
  reconciles w _ _ held := wp_rests (rolling_rests w) (keeps_of_supervising (reloadServices_supervises _)) held
  levels w _ _ held := wp_rests (rolling_rests w) (keeps_call trivial) held
  restored_calm w := (rolling_rests w).calmly
  ends w m e held := by
    refine wp_noted records_deaf (fun _ _ => held.rolling) fun k _ k' _ => ?_
    exact ⟨⟨by simp,fun sound _ => held.trusted sound,by simp⟩,fun _ => rfl,fun _ => ⟨held.source,held.trusted⟩⟩
  looks failedName w m e reported watching spared := by
    have serving : Serving m e := serving_of_reported reported fun w' name there named => by
      obtain rfl : w = w' := Option.some.inj (watching.symm.trans there)
      subst named
      rw [← Bool.not_eq_true]
      intro touched
      simp [Option.filter,touched] at spared
    have taken : Watching w { m with watch := none } e := by
      refine ⟨?_,serving.failed,serving.rolled⟩
      rw [← watching]
      exact serving.accounted
    refine wp_mono (wp_rests (watching_rests w) (keeps_call trivial) taken) fun t m e held => ?_
    split
    · exact head_of_serving held
    · refine wp_noted records_deaf (fun _ => unfailed held.failed) fun k _ k' _ => ?_
      refine ⟨⟨by simp,fun _ _ => rfl,by simp⟩,?_,?_⟩
      · simp [records,held.failed]
      · simp [records,held.rolled]

abbrev Unfailed (_ : Memory) (e : Kernel × Record) : Prop := e.2.failed = false

theorem unfailed_frame : surroundings.Frame asked (fun _ _ => True) (fun op => op.windsDown = true) Unfailed where
  updates _ _ _ _ failed := failed
  moves _ _ _ _ _ moved failed := by
    rw [Unfailed,records_deaf.moves moved]
    exact failed
  replies op m e r e' winds replied failed := by
    obtain ⟨-,noted⟩ := Machine.watched_answer_iff.mp replied
    rw [Unfailed,noted]
    cases op with
    | waitpid target nohang => cases target <;> exact failed
    | swap flag => contradiction
    | log line => cases line <;> first | exact failed | contradiction
    | _ => exact failed
  holds op m e winds failed := by
    cases op with
    | none => trivial
    | some op =>
      have winds := winds op rfl
      cases op with
      | swap flag => contradiction
      | log line => cases line <;> first | exact unfailed failed | trivial
      | killAndRemove name => trivial
      | forget name => trivial
      | _ => exact unfailed failed

theorem wp_windingDown {α : Type} {p : Code α} (winds : WindingDown p) (failed : Unfailed m e) :
    p.wp surroundings asked (fun _ => Unfailed) m e :=
  wp_frame unfailed_frame (uses_mono winds (fun _ _ _ => trivial) fun _ allowed => allowed) failed

end Verdict

section Exit
variable {m : Memory} {e : Kernel × Record} {pid : Int} {known : Option Int}

theorem wp_restart {sup : Supervised} (serving : Serving m e) :
    (restart sup).wp surroundings asked (fun outcome => Reported outcome.failedName) m e := by
  refine wp_then (wp_rests serving_rests (keeps_call trivial) serving) fun t m e serving => ?_
  dsimp only
  split
  · refine wp_bind_noted records_deaf (fun _ => unfailed serving.failed) fun k _ k' _ => ?_
    obtain ⟨⟨source,settled,trusted⟩,unfailed,rolled⟩ := serving
    refine ⟨⟨source,settled,trusted⟩,rolled,fun failed => ?_⟩
    simp only [records,unfailed,Bool.false_or] at failed
    obtain ⟨w,watching,touched⟩ := (Option.any_eq_true _ _).mp failed
    exact ⟨w,_,watching,rfl,touched⟩
  · refine wp_then (wp_rests serving_rests (keeps_of_supervising (spawnWithHistory_supervises _ _)) serving) ?_
    exact fun _ m e serving => reported_of_serving _ serving

theorem wp_handleExit {ending : Ending} (serving : Serving m e)
    (reaped : e.2.reaped = m.services.lookup pid) :
    (handleExit (.ended pid ending)).wp surroundings asked (fun outcome => Reported outcome.failedName)
      m e := by
  refine wp_bind_removeService trivial ?_
  cases tracked : m.services.lookup pid with
  | none => exact reported_of_serving _ ⟨serving.accounted,serving.failed,serving.rolled⟩
  | some sup =>
    obtain ⟨⟨source,settled,trusted⟩,failed,rolled⟩ := serving
    refine wp_bind_noted records_deaf (fun _ => unfailed failed) fun k _ k' _ => ?_
    refine wp_bind_noted records_deaf (fun _ => trivial) fun k _ k' _ => ?_
    refine wp_bind_noted records_deaf (fun _ => trivial) fun k _ k' _ => ?_
    split
    · rename_i critical
      refine ⟨⟨source,settled,trusted⟩,rolled,fun hard => ?_⟩
      simp only [records,failed,Bool.false_or,Bool.and_eq_true] at hard
      obtain ⟨w,watching,touched⟩ := (Option.any_eq_true _ _).mp hard.2
      exact ⟨w,_,watching,rfl,touched⟩
    · rename_i ordinary
      have soft : (e.2.failed || (e.2.reaped.any (fun sup => sup.definition.critical) &&
          (withoutService m pid).watch.any fun w => w.touches sup.definition.name)) = false := by
        rw [failed,reaped,tracked]
        simp [ordinary]
      have serving : Serving (withoutService m pid) (k',{ e.2 with failed := e.2.failed ||
          (e.2.reaped.any (fun sup => sup.definition.critical) &&
            (withoutService m pid).watch.any fun w => w.touches sup.definition.name) }) :=
        ⟨⟨source,settled,trusted⟩,soft,rolled⟩
      split
      · exact wp_restart serving
      · exact reported_of_serving _ serving

structure Opened (reaped : Option Int) (m : Memory) (e : Kernel × Record) : Prop where
  serving : Serving m e
  reaped : ∀ pid, reaped = some pid → e.2.reaped = m.services.lookup pid

def whole (m : Memory) : Services × Config × Option Watch := (m.services,force m)

theorem opened_rests (known : Option Int) : Rests whole (Opened known) where
  same m m' e e' same noted opened := by
    obtain ⟨services,forced⟩ := Prod.mk.inj same
    refine ⟨serving_rests.same m m' e e' forced noted opened.serving,fun pid ended => ?_⟩
    rw [services,noted]
    exact opened.reaped pid ended
  answered _ _ opened := unfailed opened.serving.failed

theorem killExpired_keeps : killExpired.Uses (fun m m' => whole m' = whole m) Unheard := by
  refine uses_bind (uses_mono expiredWatchdogs_plain (fun m m' same => ?_) fun _ plain => ?_) fun pids => ?_
  · rw [same]
  · exact unheard_of_supervises (Op.supervises_of_plain plain)
  · exact uses_each fun pid _ => uses_bind (uses_perform trivial) fun _ => uses_perform trivial

theorem offer_keeps (pid : Int) : (offer pid).Uses (fun m m' => whole m' = whole m) Unheard := by
  refine uses_mono (offer_offers pid) (fun m m' written => ?_) fun _ offered => unheard_of_offers offered.offers
  unfold OnlyTimers at written
  rw [written]
  rfl

theorem wp_waits (serving : Serving m e) :
    (waitpid .any (polls m)).wp surroundings asked (fun status => Opened (openedBy status)) m e := by
  refine wp_noted records_deaf (fun _ => unfailed serving.failed) fun k status k' _ => ?_
  obtain ⟨⟨source,settled,trusted⟩,failed,rolled⟩ := serving
  refine ⟨⟨⟨source,settled,trusted⟩,failed,rolled⟩,fun pid ended => ?_⟩
  change (openedBy status).bind (fun pid => m.services.lookup pid) = m.services.lookup pid
  rw [show openedBy status = some pid from ended]
  rfl

end Exit

section Loop
variable {m : Memory} {e : Kernel × Record}

theorem wp_takeFlags (head : Head m e) : takeFlags.wp surroundings asked (fun _ => Serving) m e := by
  obtain ⟨⟨source,settled,trusted⟩,asks⟩ := head
  refine wp_bind_noted records_deaf (fun _ => asks) fun k reboot k' _ => ?_
  have serving : Serving m (k',{ e.2 with failed := false, rolling := false, rolled := false }) :=
    ⟨⟨source,settled,trusted⟩,rfl,rfl⟩
  have rest : Keeps (do
      let poweroff ← swap .poweroffRequested
      let halt ← swap .haltRequested
      pure (reboot || poweroff || halt) : Code Bool) :=
    uses_bind (keeps_call trivial) fun _ => uses_bind (keeps_call trivial) fun _ => uses_pure _
  exact wp_rests serving_rests rest serving

theorem loop_phases : LoopPhases surroundings asked Head Serving Serving Serving
    (fun status => Opened (openedBy status)) (fun pid _ _ => Opened (some pid))
    (fun outcome => Reported outcome.failedName) Serving Unfailed Unfailed fun _ _ => True where
  unread _ _ := trivial
  takes _ _ head := wp_mono (wp_takeFlags head) fun raised _ _ serving => by cases raised <;> exact serving
  reloads _ _ serving := reload_phases.wp_handleReload serving
  isolates _ _ serving := wp_rests serving_rests handleIsolate_keeps serving
  dumps _ _ serving := wp_rests serving_rests dumpStatus_keeps serving
  ticks _ _ serving := wp_rests serving_rests (tick_keeps _ _) serving
  waits _ _ serving := wp_waits serving
  kills _ _ _ opened := wp_rests (opened_rests _) killExpired_keeps opened
  offers pid _ _ _ opened := wp_rests (opened_rests _) (offer_keeps pid) opened
  claims _ _ _ _ opened := reported_of_serving none opened.serving
  exits pid _ _ _ opened := wp_handleExit opened.serving (opened.reaped pid rfl)
  waited_calm _ _ := (opened_rests _).calmly
  passes _ _ _ opened _ := reported_of_serving none opened.serving
  fails _ _ _ opened := head_of_serving opened.serving
  resolves _ _ _ reported _ := verdict_phases.wp_resolveWatch reported
  halts name m e reported untouched := by
    have serving : Serving m e := serving_of_reported reported fun w _ watching named => by
      cases named
      simpa [watching] using untouched
    exact wp_noted records_deaf (fun _ => serving.failed) fun k _ k' _ => serving.failed
  relays _ _ serving :=
    wp_mono (wp_rests serving_rests (keeps_call trivial) serving) fun _ _ _ serving => serving.failed
  closes grace _ _ failed := wp_windingDown (shutdownAll_windsDown grace) failed
  acknowledges _ _ failed := by
    have winds := windingDown_of_supervising (supervising_of_plain acknowledgeShutdown_plain)
    exact wp_mono (wp_windingDown winds failed) fun _ _ _ _ => trivial

theorem wp_runEventLoop (grace : Nat) (k : Kernel) :
    (runEventLoop grace).wp surroundings asked (fun _ _ _ => True) m (k,.start m.cfg) := by
  refine loop_phases.wp_runEventLoop grace ⟨⟨by simp,fun _ _ => rfl,by simp⟩,?_⟩
  simp [asked,Record.start]

end Loop

/-- In every run of the event loop a rollback restores the configuration that was in force when
the watched reload was handled, which is the last confirmed one if no reload has been handled under
an unresolved watch since; and a service of the watched reload that is reported to have failed for
good is answered by a rollback at once. -/
theorem rollback_restores (grace : Nat) (m : Memory) (k : Kernel)
    {t : State Memory Op Op.Ans (Kernel × Record) Unit}
    (run : Reaches surroundings ⟨runEventLoop grace,m,(k,.start m.cfg)⟩ t) :
    asked t.program.next? t.mem t.env :=
  wp_everywhere run (wp_runEventLoop grace k) fun _ _ _ _ => trivial

section Runs

def job : ServiceDef := { name := "job", path := "/usr/bin/job" }

def display : ServiceDef := { name := "display", path := "/usr/bin/display", critical := true }

def nextConfig (cfg : Config) : Config :=
  match cfg.services with
  | [] => { cfg with services := [job] }
  | _ => { cfg with services := [job,display] }

def empty : Memory := { cfg := { Config.default with services := [] } }

def turns (events : List Event) : Option (State Memory Op Op.Ans (Kernel × Record) Unit) :=
  drive (Kernel.machine.watched records)
    (fun op m e => Kernel.obliging (fun _ => true) (nextConfig m.cfg) op m e.1)
    (.upTo (· == .swap .rebootRequested) 100 ::
      events.flatMap fun event => [.stir event,.step,.upTo (· == .swap .rebootRequested) 200])
    ⟨runEventLoop 0,empty,({ ipc := .idle },.start empty.cfg)⟩

/-- The job is confirmed before the display is added and exits. -/
def confirmedRun : Option (State Memory Op Op.Ans (Kernel × Record) Unit) :=
  turns [.requestReload,.tick (fromSecs 11),.requestReload,.exit 101 (some (.exited 1))]

theorem rollback_restores_confirmed : ∃ t, confirmedRun = some t ∧ t.env.2.rolled = true ∧
    t.mem.cfg = t.env.2.confirmed := by
  have there : confirmedRun.any (fun t => decide (t.program.next? = some (.swap .rebootRequested)) &&
      (t.env.2.rolled && !t.env.2.overlapped)) = true := by
    decide +kernel
  obtain ⟨t,reached,now⟩ := (Option.any_eq_true _ _).mp there
  simp only [Bool.and_eq_true,decide_eq_true_eq,Bool.not_eq_true'] at now
  obtain ⟨head,rolled,apart⟩ := now
  have restored := rollback_restores 0 empty { ipc := .idle } (drive_reaches reached)
  rw [head] at restored
  exact ⟨t,reached,rolled,(restored.2 rolled).2 apart⟩

/-- The display is added while the job is still being watched. -/
def overlappingRun : Option (State Memory Op Op.Ans (Kernel × Record) Unit) :=
  turns [.requestReload,.requestReload,.exit 101 (some (.exited 1))]

theorem restores_unconfirmed : ∃ (grace : Nat) (m : Memory) (k : Kernel)
    (t : State Memory Op Op.Ans (Kernel × Record) Unit),
    Reaches surroundings ⟨runEventLoop grace,m,(k,.start m.cfg)⟩ t ∧ t.env.2.rolled = true ∧
      t.mem.cfg ≠ t.env.2.confirmed := by
  have there : overlappingRun.any (fun t =>
      t.env.2.rolled && decide (t.mem.cfg ≠ t.env.2.confirmed)) = true := by
    decide +kernel
  obtain ⟨t,reached,now⟩ := (Option.any_eq_true _ _).mp there
  simp only [Bool.and_eq_true,decide_eq_true_eq] at now
  exact ⟨0,empty,{ ipc := .idle },t,drive_reaches reached,now.1,now.2⟩

end Runs
end MitosServices.Confirmation
