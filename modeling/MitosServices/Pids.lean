import MitosServices.Ledger
import MitosServices.LoopRule

/-! Pids in the event loop. The registry of apps, the pending timers and the supervised services
agree with the children at every loop head, and signals go to children only, as long as apps are
registered in time, no service is reaped just as its watchdog expires and none without being told of. -/
namespace MitosServices.Pids
open Interaction Interaction.Program

/-- What is noted of a run: the child the loop's last wait reaped, the last reading of the clock
and whether the services are being shut down. -/
structure Reaping where
  reaped : Option Int := none
  reading : Nat := 0
  ending : Bool := false

def reapings : Monitor Memory Op Op.Ans Kernel Event Reaping where
  event _ _ _ _ g := g
  reply
    | .waitpid .any _, _, _, .ok (.ended pid _), g => { g with reaped := some pid }
    | .waitpid .any _, _, _, _, g => { g with reaped := none }
    | .now, _, _, t, g => { g with reading := t }
    | .log .shutdownRelayed, _, _, _, g => { g with ending := true }
    | .log .criticalExited, _, _, _, g => { g with ending := true }
    | _, _, _, _, g => g

/-- An app is registered while it is still a child, and not on the pid of a service that was
reaped and is still in its table. -/
def registered : Condition Memory Op Op.Ans (Kernel × Reaping) Event where
  event
    | .register, _, m, e => e.2.ending || match e.1.ipc with
      | .launched info => kindAt e.1 info.pid == some .app &&
        (e.2.reaped != some info.pid || (m.services.lookup info.pid).isNone)
      | _ => true
    | _, _, _, _ => true
  reply _ _ _ _ := true

/-- As long as services are served, a child that is reaped without being told of is in no table. -/
def unlisted : Condition Memory Op Op.Ans (Kernel × Reaping) Event where
  event _ _ _ _ := true
  reply
    | .waitpid .any _, m, e, .error .other => e.2.ending || (m.services.lookup e.1.chosen).isNone &&
      (pendingAt m e.1.chosen).isNone && (e.1.apps.lookup e.1.chosen).isNone
    | _, _, _, _ => true

/-- The registry claims no exit of a supervised service. -/
def unclaimed : Condition Memory Op Op.Ans (Kernel × Reaping) Event where
  event _ _ _ _ := true
  reply
    | .takeApp pid, m, _, some _ => (m.services.lookup pid).isNone
    | _, _, _, _ => true

/-- A child that is reaped without being told of is no service, and no timer's as long as services are served. -/
def untracked : Condition Memory Op Op.Ans (Kernel × Reaping) Event where
  event _ _ _ _ := true
  reply
    | .waitpid .any _, m, e, .error .other => (m.services.lookup e.1.chosen).isNone &&
      (e.2.ending || (pendingAt m e.1.chosen).isNone)
    | _, _, _, _ => true

/-- The service that was reaped just before the watchdogs are looked at has not missed its own. -/
def alive : Condition Memory Op Op.Ans (Kernel × Reaping) Event where
  event _ _ _ _ := true
  reply
    | .lastPing name, m, e, ping =>
      (e.2.reaped.bind fun pid => m.services.lookup pid).all fun sup =>
        sup.definition.name != name || sup.definition.watchdogTimeout.all fun timeout =>
          e.2.reading - ping.getD sup.startedAt ≤ timeout
    | _, _, _, _ => true

/-- The three tables have no pid in common, and each of their pids is a child not yet reaped. -/
structure Apart (m : Memory) (k : Kernel) : Prop where
  services_child : ∀ pid sup, m.services.lookup pid = some sup → (k.children.lookup pid).isSome
  pending_child : ∀ pid name, pendingAt m pid = some name → (k.children.lookup pid).isSome
  apps_child : ∀ pid info, k.apps.lookup pid = some info → (k.children.lookup pid).isSome
  services_pending : ∀ pid sup, m.services.lookup pid = some sup → pendingAt m pid = none
  services_apps : ∀ pid sup, m.services.lookup pid = some sup → k.apps.lookup pid = none
  pending_apps : ∀ pid name, pendingAt m pid = some name → k.apps.lookup pid = none

/-- What the tables owe: they are apart at the loop head, and neither the registry nor the timers
take the exit of a supervised service. -/
structure Sound (op : Option Op) (m : Memory) (k : Kernel) : Prop where
  head : op = some (.swap .rebootRequested) → Apart m k
  apps_reap : ∀ pid, op = some (.takeApp pid) → (k.apps.lookup pid).isSome →
    m.services.lookup pid = none
  timers_reap : ∀ name pid, op = some (.log (.timerFinished name pid)) →
    m.services.lookup pid = none

def Guarded (op : Option Op) (k : Kernel) : Prop :=
  ∀ pid sig, op = some (.kill pid sig) →
    ∃ child, k.children.lookup pid = some child ∧ child.origin ≠ .orphan

def asked (strict dogs : Bool) (op : Option Op) (m : Memory) (e : Kernel × Reaping) : Prop :=
  (strict = true → Sound op m e.1) ∧ (dogs = true → Guarded op e.1)

structure Held (C : Condition Memory Op Op.Ans (Kernel × Reaping) Event) (strict dogs : Bool) :
    Prop where
  registered : strict = true → C.Within registered
  unlisted : strict = true → C.Within unlisted
  unclaimed : strict = false → C.Within unclaimed
  untracked : strict = false ∨ dogs = true → C.Within untracked
  alive : dogs = true → C.Within alive

section Kept
variable {C : Condition Memory Op Op.Ans (Kernel × Reaping) Event} {strict dogs : Bool}
  {hole : Option Int} {m m' : Memory} {e e' : Kernel × Reaping} {op : Op}

abbrev around (C : Condition Memory Op Op.Ans (Kernel × Reaping) Event) :
    Surroundings Memory Op Op.Ans (Kernel × Reaping) :=
  ((Kernel.machine.watched reapings).under C).surroundings

theorem moves_stir (moved : (around C).moves op m e e') : ∃ ev, C.event ev op m e = true ∧
    Kernel.stir ev op m e.1 = some e'.1 ∧ e'.2 = e.2 := by
  obtain ⟨ev,stir⟩ := moved
  obtain ⟨allowed,watched⟩ := Machine.under_stir_iff.mp stir
  obtain ⟨inner,same⟩ := Machine.watched_stir_iff.mp watched
  exact ⟨ev,allowed,inner,same⟩

theorem replies_answer {r : op.Ans} (replied : (around C).replies op m e r e') :
    C.reply op m e r = true ∧ Kernel.answer op m e.1 r = some e'.1 ∧
      e'.2 = reapings.reply op m e.1 r e.2 := by
  obtain ⟨allowed,watched⟩ := Machine.under_answer_iff.mp replied
  exact ⟨allowed,Machine.watched_answer_iff.mp watched⟩

theorem visits : Visits (around C) := by
  intro listed m e visited e' replied
  exact Kernel.answer_iterate (m := m) (replies_answer replied).2.1

/-- While services are served: the ledger, with a hole only where the last wait reaped. -/
structure Kept (strict : Bool) (hole : Option Int) (m : Memory) (e : Kernel × Reaping) : Prop where
  ledger : Ledger strict hole m e.1
  reaped : ∀ pid, hole = some pid → e.2.reaped = some pid
  serving : e.2.ending = false

theorem registered_stir {ev : Event} (held : Held C strict dogs) (kept : Kept strict hole m e)
    (allowed : C.event ev op m e = true) (isStrict : strict = true) (event : ev = .register)
    (info : AppInfo) (launched : e.1.ipc = .launched info) : kindAt e.1 info.pid = some .app ∧
      (hole = some info.pid → m.services.lookup info.pid = none) := by
  subst event
  have inTime := (held.registered isStrict).event _ _ _ _ allowed
  simp only [registered,launched,kept.serving,Bool.false_or,Bool.and_eq_true,beq_iff_eq,
    Bool.or_eq_true,bne_iff_ne,ne_eq,Option.isNone_iff_eq_none] at inTime
  refine ⟨inTime.1,fun inside => inTime.2.resolve_left ?_⟩
  exact fun other => other (kept.reaped _ inside)

theorem kept_moves (held : Held C strict dogs) (moved : (around C).moves op m e e')
    (kept : Kept strict hole m e) : Kept strict hole m e' := by
  obtain ⟨ev,allowed,stir,same⟩ := moves_stir moved
  refine ⟨ledger_stir kept.ledger (registered_stir held kept allowed) stir,?_,?_⟩
  · rw [same]
    exact kept.reaped
  · rw [same]
    exact kept.serving

theorem asked_of_mild {op : Option Op} (mild : ∀ o ∈ op, o.mild = true) : asked strict dogs op m e := by
  refine ⟨fun _ => ⟨?_,?_,?_⟩,?_⟩
  · rintro rfl
    exact absurd (mild _ rfl) (by simp [Op.mild])
  · rintro pid rfl
    exact absurd (mild _ rfl) (by simp [Op.mild])
  · rintro name pid rfl
    exact absurd (mild _ rfl) (by simp [Op.mild,Line.marks])
  · rintro - pid sig rfl
    exact absurd (mild _ rfl) (by simp [Op.mild])

/-- Answers that leave the children and the registry alone. -/
theorem kept_answered {r : op.Ans} (children : e'.1.children = e.1.children)
    (apps : e'.1.apps = e.1.apps) (noted : e'.2 = reapings.reply op m e.1 r e.2)
    (unnoted : (reapings.reply op m e.1 r e.2).reaped = e.2.reaped ∧
      (reapings.reply op m e.1 r e.2).ending = e.2.ending)
    (kept : Kept strict hole m e) : Kept strict hole m e' := by
  refine ⟨ledger_kernel kept.ledger children apps,?_,?_⟩
  · rw [noted,unnoted.1]
    exact kept.reaped
  · rw [noted,unnoted.2]
    exact kept.serving

theorem reapings_quiet {r : op.Ans} {k : Kernel} {g : Reaping} (quiet : op.quiet = true) :
    (reapings.reply op m k r g).reaped = g.reaped ∧ (reapings.reply op m k r g).ending = g.ending := by
  cases op with
  | waitpid target nohang => contradiction
  | log line =>
    cases line with
    | shutdownRelayed => contradiction
    | criticalExited => contradiction
    | _ => exact ⟨rfl,rfl⟩
  | _ => exact ⟨rfl,rfl⟩

theorem kept_quiet {r : op.Ans} (quiet : op.quiet = true) (replied : (around C).replies op m e r e')
    (kept : Kept strict hole m e) : Kept strict hole m e' := by
  obtain ⟨-,answered,noted⟩ := replies_answer replied
  have same := Kernel.answer_quiet quiet answered
  exact kept_answered (by rw [same]) (by rw [same]) noted (reapings_quiet quiet) kept

theorem kept_steady (held : Held C strict dogs) (hole : Option Int) :
    Steady (around C) (asked strict dogs) (Kept strict hole) where
  moves _ _ _ _ moved kept := kept_moves held moved kept
  replies _ _ _ _ _ quiet replied kept := kept_quiet quiet replied kept
  holds _ _ _ mild _ := asked_of_mild mild

def Holding (strict : Bool) (hole : Option Int) (pid : Int) (κ : Kind) (also : Memory → Prop) (m : Memory)
    (e : Kernel × Reaping) : Prop :=
  Kept strict hole m e ∧ kindAt e.1 pid = some κ ∧ also m

theorem holding_steady (held : Held C strict dogs) (hole : Option Int) (pid : Int) (κ : Kind)
    (also : Memory → Prop) :
    Steady (around C) (asked strict dogs) (Holding strict hole pid κ also) where
  moves _ _ _ _ moved holding := by
    obtain ⟨ev,-,stir,-⟩ := moves_stir moved
    exact ⟨kept_moves held moved holding.1,stir_kinds stir holding.2.1,holding.2.2⟩
  replies _ _ _ _ _ quiet replied holding := by
    have same := Kernel.answer_quiet quiet (replies_answer replied).2.1
    exact ⟨kept_quiet quiet replied holding.1,same ▸ holding.2.1,holding.2.2⟩
  holds _ _ _ mild _ := asked_of_mild mild

theorem kept_calm (held : Held C strict dogs) (hole : Option Int) :
    Calmly (around C) (asked strict dogs) (Kept strict hole) := calmly_of_steady (kept_steady held hole)

/-- A call that leaves the children and the registry alone and at which nothing is asked. -/
theorem wp_harmless (held : Held C strict dogs) (kept : Kept strict hole m e)
    (unasked : ∀ m e, asked strict dogs (some op) m e)
    (same : ∀ r m k k', Kernel.answer op m k r = some k' →
      k'.children = k.children ∧ k'.apps = k.apps)
    (unnoted : ∀ r m k g, (reapings.reply op m k r g).reaped = g.reaped ∧
      (reapings.reply op m k r g).ending = g.ending) :
    (call op).wp (around C) (asked strict dogs) (fun _ => Kept strict hole) m e := by
  refine wp_steady_perform (kept_steady held hole) kept (fun m e _ => unasked m e) ?_
  intro e r e' kept replied
  obtain ⟨-,answered,noted⟩ := replies_answer replied
  obtain ⟨children,apps⟩ := same r m _ _ answered
  exact kept_answered children apps noted (unnoted r m _ _) kept

theorem wp_log {line : Line} (held : Held C strict dogs) (kept : Kept strict hole m e)
    (unasked : ∀ name pid, line ≠ .timerFinished name pid)
    (unnoted : ∀ m k g, reapings.reply (.log line) m k () g = g) :
    (log line).wp (around C) (asked strict dogs) (fun _ => Kept strict hole) m e := by
  refine wp_harmless held kept ?_ ?_ ?_
  · intro m e
    refine ⟨fun _ => ⟨by simp,by simp,?_⟩,fun _ => by simp [Guarded]⟩
    intro name pid equal
    exact absurd (Op.log.inj (Option.some.inj equal)) (unasked name pid)
  · intro _ m k k' answered
    cases Option.some.inj answered
    exact ⟨rfl,rfl⟩
  · intro _ m k g
    rw [unnoted]
    exact ⟨rfl,rfl⟩

end Kept

section Upkeep
variable {C : Condition Memory Op Op.Ans (Kernel × Reaping) Event} {strict dogs : Bool}
  {hole : Option Int} {m m' : Memory} {e e' : Kernel × Reaping} {pid : Int}

theorem spawned_child {origin : Origin} {command : Command} (kept : Kept strict none m e)
    (replied : (around C).replies (.spawn origin command) m e (.ok pid) e') :
    Kept strict none m e' ∧ kindAt e'.1 pid = some (kind origin) := by
  obtain ⟨-,answered,noted⟩ := replies_answer replied
  obtain ⟨fresh,added⟩ := Kernel.answer_spawned answered
  have unused : kindAt e.1 pid = none := kindAt_none.mpr fresh
  refine ⟨⟨?_,by simp,?_⟩,?_⟩
  · rw [added]
    exact ledger_addChild kept.ledger unused
  · rw [noted]
    exact kept.serving
  · rw [added]
    exact kindAt_addChild_self

theorem spawned_none {origin : Origin} {command : Command} {err : String} (kept : Kept strict none m e)
    (replied : (around C).replies (.spawn origin command) m e (.error err) e') :
    Kept strict none m e' := by
  obtain ⟨-,answered,noted⟩ := replies_answer replied
  have same := Option.some.inj answered
  exact kept_answered (by rw [same]) (by rw [same]) noted ⟨rfl,rfl⟩ kept

theorem kept_track {sup : Supervised} (kept : Kept strict none m e)
    (service : kindAt e.1 pid = some .service) : Kept strict none (withService m pid sup) e :=
  ⟨ledger_track kept.ledger service,kept.reaped,kept.serving⟩

theorem start_phases (held : Held C strict dogs) (d : ServiceDef) (times : List Nat) :
    StartPhases (around C) (asked strict dogs) d times (Kept strict none)
      (fun pid => Holding strict none pid .service fun _ => True) (Kept strict none)
      (fun pid => Holding strict none pid .service fun _ => True) (Kept strict none) where
  before_steady := kept_steady held none
  spawned_steady _ := holding_steady held _ _ _ _
  failed_steady := kept_steady held none
  rescue_steady _ := holding_steady held _ _ _ _
  child _ _ _ _ _ kept replied := by
    obtain ⟨kept,service⟩ := spawned_child kept replied
    exact ⟨kept,service,trivial⟩
  refused _ _ _ _ _ kept replied := spawned_none kept replied
  shell _ _ _ _ _ kept _ replied := by
    obtain ⟨kept,service⟩ := spawned_child kept replied
    exact ⟨kept,service,trivial⟩
  noShell _ _ _ _ _ kept _ replied := spawned_none kept replied
  tracked _ _ _ _ holding := kept_track holding.1 holding.2.1
  trackedShell _ _ _ _ holding := kept_track holding.1 holding.2.1
  missed _ _ kept _ := kept

abbrev Struck (strict : Bool) (pid : Int) : Memory → Kernel × Reaping → Prop :=
  Holding strict none pid .service fun m => m.services.lookup pid = none

theorem struck_of_tracked {sup : Supervised} (kept : Kept strict none m e)
    (found : m.services.lookup pid = some sup) : Struck strict pid (withoutService m pid) e :=
  ⟨⟨ledger_untrack kept.ledger,kept.reaped,kept.serving⟩,
    kept.ledger.services pid sup found (by simp),AList.lookup_erase _ _⟩

theorem asked_of_child {sig : Signal} (service : dogs = true → kindAt e.1 pid = some .service) :
    asked strict dogs (some (.kill pid sig)) m e := by
  refine ⟨fun _ => ⟨by simp,by simp,by simp⟩,?_⟩
  rintro dog p s ⟨⟩
  obtain ⟨child,found,origin⟩ := kindAt_some.mp (service dog)
  refine ⟨child,found,?_⟩
  intro orphan
  rw [orphan] at origin
  contradiction

/-- A wait for one service that the tables do not have leaves the ledger whole. -/
theorem kept_waited_only {status : Except Errno WaitStatus} (struck : Struck strict pid m e)
    (replied : (around C).replies (.waitpid (.only pid) true) m e status e') :
    Kept strict none m e' ∧ (∀ s, status = .ok s → (∀ p ending, s ≠ .ended p ending) →
      Struck strict pid m e') := by
  obtain ⟨kept,service,untracked⟩ := struck
  obtain ⟨-,answered,noted⟩ := replies_answer replied
  have unnoted : e'.2 = e.2 := noted
  have unreaped : e'.1.children = e.1.children → e'.1.apps = e.1.apps →
      Struck strict pid m e' := by
    intro children apps
    refine ⟨kept_answered children apps noted ⟨rfl,rfl⟩ kept,?_,untracked⟩
    unfold kindAt
    rw [children]
    exact service
  rcases Kernel.waited_only answered with ⟨children,apps,-⟩ | ⟨reaped,told⟩
  · have struck := unreaped children apps
    exact ⟨struck.1,fun _ _ _ => struck⟩
  · refine ⟨⟨?_,by simp,?_⟩,?_⟩
    · rw [reaped]
      exact ledger_reap_untracked kept.ledger service untracked
    · rw [unnoted]
      exact kept.serving
    · rintro s rfl alive
      obtain ⟨ending,same⟩ : ∃ ending, Except.ok s = .ok (.ended pid ending) := told.resolve_right (by simp)
      exact absurd (Except.ok.inj same) (alive pid ending)

theorem stop_phases (held : Held C strict dogs) (pid : Int) (name : String) :
    StopPhases (around C) (asked strict dogs) pid name (Struck strict pid) (Struck strict pid)
      (Kept strict none) (Kept strict none) where
  before_steady := holding_steady held _ _ _ _
  dying_steady := holding_steady held _ _ _ _
  gone_steady := kept_steady held none
  may_terminate _ _ struck := asked_of_child fun _ => struck.2.1
  may_kill _ _ struck := asked_of_child fun _ => struck.2.1
  terminated _ _ _ struck replied :=
    (holding_steady held _ _ _ _).replies _ _ _ _ _ rfl replied struck
  reaped _ _ _ _ _ struck replied := (kept_waited_only struck replied).1
  remains _ _ _ _ struck alive replied := by
    exact (kept_waited_only struck replied).2 _ rfl alive
  lost _ _ _ _ struck replied := (kept_waited_only struck replied).1
  killed _ _ _ struck replied := kept_quiet rfl replied struck.1
  swept _ _ _ kept replied := kept_quiet rfl replied kept

theorem upkeep (held : Held C strict dogs) :
    Upkeep (around C) (asked strict dogs) (Kept strict none) (Struck strict) where
  steady := kept_steady held none
  halfway_steady _ := holding_steady held _ _ _ _
  visits := visits
  starts d times _ _ kept := wp_spawnWithHistory (start_phases held d times) kept
  struck _ _ _ _ kept found := struck_of_tracked kept found
  stops pid name _ _ struck := wp_stopOne (stop_phases held pid name) struck

end Upkeep

section Watchdogs
variable {C : Condition Memory Op Op.Ans (Kernel × Reaping) Event} {strict dogs : Bool}
  {hole : Option Int} {m m' : Memory} {e e' : Kernel × Reaping}

def Looking (strict : Bool) (hole : Option Int) (t : Nat) (m₀ m : Memory) (e : Kernel × Reaping) :
    Prop :=
  (Kept strict hole m e ∧ m = m₀) ∧ e.2.reading = t

theorem looking_moves {t : Nat} {m₀ : Memory} {op : Op} (held : Held C strict dogs)
    (moved : (around C).moves op m e e') (looking : Looking strict hole t m₀ m e) :
    Looking strict hole t m₀ m e' := by
  have steady := steady_memory_and (kept_steady held hole) m₀
  obtain ⟨ev,-,-,same⟩ := moves_stir moved
  exact ⟨steady.moves op m e e' moved looking.1,(congrArg Reaping.reading same).trans looking.2⟩

theorem looking_replies {t : Nat} {m₀ : Memory} {op : Op} {r : op.Ans} (held : Held C strict dogs)
    (quiet : op.quiet = true) (timeless : ∀ k g, (reapings.reply op m k r g).reading = g.reading)
    (replied : (around C).replies op m e r e') (looking : Looking strict hole t m₀ m e) :
    Looking strict hole t m₀ m e' := by
  have steady := steady_memory_and (kept_steady held hole) m₀
  refine ⟨steady.replies op m e r e' quiet replied looking.1,?_⟩
  rw [(replies_answer replied).2.2,timeless]
  exact looking.2

/-- The service that was just reaped is not among the expired. -/
theorem reaped_alive {name : String} {ping : Option Nat} {t : Nat} {pid : Int} {sup : Supervised}
    {timeout : Nat} (held : Held C strict dogs) (dog : dogs = true)
    (looking : Looking strict hole t m' m e) (found : m.services.lookup pid = some sup)
    (named : sup.definition.name = name) (timed : sup.definition.watchdogTimeout = some timeout)
    (replied : (around C).replies (.lastPing name) m e ping e')
    (expired : t - ping.getD sup.startedAt > timeout) : hole ≠ some pid := by
  intro inside
  have allowed := (held.alive dog).reply _ _ _ _ (replies_answer replied).1
  have reaped := looking.1.1.reaped pid inside
  simp only [alive,reaped,Option.bind_some,found,Option.all_some,named,bne_self_eq_false,
    Bool.false_or,timed,looking.2,decide_eq_true_eq] at allowed
  omega

theorem wp_expiredAmong {t : Nat} {m₀ : Memory} (held : Held C strict dogs)
    {visited : List (Int × Supervised)}
    (tracked : ∀ entry ∈ visited, m₀.services.lookup entry.1 = some entry.2)
    (looking : Looking strict hole t m₀ m e) :
    (expiredAmong t visited).wp (around C) (asked strict dogs) (fun pids m e =>
      Looking strict hole t m₀ m e ∧ ∀ pid ∈ pids, ∃ sup, m₀.services.lookup pid = some sup ∧
        (dogs = true → hole ≠ some pid)) m e := by
  induction visited generalizing m e with
  | nil => exact ⟨looking,fun pid member => absurd member List.not_mem_nil⟩
  | cons entry rest ih =>
    obtain ⟨pid,sup⟩ := entry
    have found : m₀.services.lookup pid = some sup := tracked (pid,sup) (.head _)
    have later : ∀ entry ∈ rest, m₀.services.lookup entry.1 = some entry.2 :=
      fun entry member => tracked entry (.tail _ member)
    unfold expiredAmong
    split
    · exact ih later looking
    · rename_i timeout timed
      refine (wp_bind _ _ _ _ _).mpr ?_
      refine wp_perform looking (fun e e' moved => looking_moves held moved)
        (fun e _ => asked_of_mild (by rintro o ⟨⟩; rfl)) ?_
      intro e ping e' looking replied
      have answered := looking_replies held rfl (fun _ _ => rfl) replied looking
      refine wp_then (ih later answered) fun pids m' e'' after => ?_
      refine ⟨after.1,fun p member => ?_⟩
      split at member
      · rename_i expired
        rcases List.mem_cons.mp member with rfl | old
        · refine ⟨sup,found,fun dog => ?_⟩
          have same := looking.1.2
          subst same
          exact reaped_alive held dog looking found rfl timed replied expired
        · exact after.2 p old
      · exact after.2 p member

theorem wp_killExpired (held : Held C strict dogs) (kept : Kept strict hole m e) :
    killExpired.wp (around C) (asked strict dogs) (fun _ => Kept strict hole) m e := by
  refine wp_then (R := fun pids m e => Kept strict hole m e ∧ ∀ pid ∈ pids, ∃ sup,
    m.services.lookup pid = some sup ∧ (dogs = true → hole ≠ some pid)) ?_ ?_
  · refine wp_bind_perform (kept_steady held hole) kept
      (fun _ _ _ => asked_of_mild (by rintro o ⟨⟩; rfl)) fun e t e' kept replied => ?_
    have looking : Looking strict hole t m m e' := by
      refine ⟨⟨kept_quiet rfl replied kept,rfl⟩,?_⟩
      rw [(replies_answer replied).2.2]
      rfl
    refine wp_bind_read (asked_of_mild (by simp)) ?_
    refine (wp_bind _ _ _ _ _).mpr ?_
    refine wp_perform looking (fun e e' moved => looking_moves held moved)
      (fun e _ => asked_of_mild (by rintro o ⟨⟩; rfl)) ?_
    intro e visited e' looking replied
    have visit := visits _ _ _ _ _ replied
    have answered := looking_replies held rfl (fun _ _ => rfl) replied looking
    refine wp_mono (wp_expiredAmong held ?_ answered) fun pids m' e'' after => ?_
    · exact fun entry member => Services.mem_toList.mp (visit.mem_iff.mp member)
    · obtain ⟨looking,all⟩ := after
      have same := looking.1.2
      subst same
      exact ⟨looking.1.1,all⟩
  · rintro pids m e ⟨kept,all⟩
    refine wp_mono (wp_each (fun rest m' e => (Kept strict hole m' e ∧ m' = m) ∧
      ∀ pid ∈ rest, pid ∈ pids) ⟨⟨kept,rfl⟩,fun _ member => member⟩ ?_) fun _ m' e' after => after.1.1
    rintro pid rest m' e ⟨both,within⟩
    have steady := steady_memory_and (kept_steady held hole) m
    refine wp_bind_steady steady (plain_call rfl) both fun _ m' e both => ?_
    refine wp_steady_perform steady both ?_ ?_
    · intro m' e both
      obtain ⟨sup,found,outside⟩ := all pid (within pid (.head _))
      rw [← both.2] at found
      refine asked_of_child fun dog => ?_
      exact both.1.ledger.services pid sup found (outside dog)
    · intro e _ e' both replied
      exact ⟨steady.replies _ _ _ _ _ rfl replied both,fun p member => within p (.tail _ member)⟩

end Watchdogs

section Exits
variable {C : Condition Memory Op Op.Ans (Kernel × Reaping) Event} {strict dogs : Bool}
  {hole : Option Int} {m m' : Memory} {e e' : Kernel × Reaping} {pid : Int}

theorem kept_memory (kept : Kept strict hole m e) (services : m'.services = m.services)
    (pending : ∀ p, pendingAt m' p = pendingAt m p) : Kept strict hole m' e :=
  ⟨ledger_memory kept.ledger services pending,kept.reaped,kept.serving⟩

theorem wp_state (held : Held C strict dogs) (kept : Kept strict hole m e) :
    Timers.state.wp (around C) (asked strict dogs) (fun _ => Kept strict hole) m e := by
  refine wp_bind_read (asked_of_mild (by simp)) ?_
  split
  · exact kept
  · rename_i absent
    refine wp_bind_steady (steady_memory_and (kept_steady held hole) m) (plain_call rfl) ⟨kept,rfl⟩ ?_
    rintro boot m' e ⟨kept,same⟩
    refine ⟨asked_of_mild (by simp),kept_memory kept rfl fun p => ?_⟩
    have none_before : m'.timers = none := same ▸ absent
    simp [pendingAt,none_before]

theorem pendingAt_change (change : Timers.State → Timers.State)
    (same : ∀ s, (change s).pending = s.pending) (p : Int) :
    pendingAt { m with timers := m.timers.map change } p = pendingAt m p := by
  unfold pendingAt
  cases m.timers with
  | none => rfl
  | some s => simp [same]

def withoutPending (m : Memory) (pid : Int) : Memory :=
  { m with timers := m.timers.map fun s => { s with pending := s.pending.erase pid } }

theorem pendingAt_withoutPending {p : Int} {name : String} :
    pendingAt (withoutPending m pid) p = some name ↔ p ≠ pid ∧ pendingAt m p = some name := by
  unfold pendingAt withoutPending
  cases m.timers with
  | none => simp
  | some s => simp [lookup_erase_iff]

theorem withoutPending_self : pendingAt (withoutPending m pid) pid = none := by
  refine Option.eq_none_iff_forall_ne_some.mpr fun name there => ?_
  exact (pendingAt_withoutPending.mp there).1 rfl

theorem kept_unpended (kept : Kept strict hole m e) : Kept strict hole (withoutPending m pid) e :=
  ⟨ledger_unpend kept.ledger rfl fun _ _ there => (pendingAt_withoutPending.mp there).2,
    kept.reaped,kept.serving⟩

/-- The exit of a timer's run leaves its table, and nothing else had its pid. -/
theorem kept_finished {name : String} (kept : Kept strict (some pid) m e)
    (there : pendingAt m pid = some name) : Kept strict none (withoutPending m pid) e ∧
      (withoutPending m pid).services.lookup pid = none := by
  have untracked : m.services.lookup pid = none := by
    refine Option.eq_none_iff_forall_ne_some.mpr fun sup found => ?_
    have idle := kept.ledger.services_pending pid sup found
    rw [there] at idle
    contradiction
  refine ⟨⟨?_,by simp,kept.serving⟩,untracked⟩
  refine ledger_close (kept_unpended kept).ledger untracked withoutPending_self ?_
  exact fun isStrict info listed => (kept.ledger.pending_apps isStrict pid name info there listed).2

def Refused (strict : Bool) (pid : Int) (m : Memory) (e : Kernel × Reaping) : Prop :=
  Kept strict (some pid) m e ∧ pendingAt m pid = none

theorem refused_steady (held : Held C strict dogs) (pid : Int) :
    Steady (around C) (asked strict dogs) (Refused strict pid) where
  moves _ _ _ _ moved refused := ⟨kept_moves held moved refused.1,refused.2⟩
  replies _ _ _ _ _ quiet replied refused := ⟨kept_quiet quiet replied refused.1,refused.2⟩
  holds _ _ _ mild _ := asked_of_mild mild

theorem wp_timers_reap (held : Held C strict dogs) (kept : Kept strict (some pid) m e) :
    (Timers.reap pid).wp (around C) (asked strict dogs) (fun claimed m e =>
      if claimed then Kept strict none m e else Refused strict pid m e) m e := by
  refine wp_then (wp_state held kept) fun _ m e kept => ?_
  refine wp_bind_exchange (asked_of_mild (by simp)) ?_
  cases there : pendingAt m pid with
  | none =>
    rw [pendingAt] at there
    rw [there]
    exact ⟨kept_unpended kept,withoutPending_self⟩
  | some name =>
    have shown := there
    rw [pendingAt] at shown
    rw [shown]
    obtain ⟨closed,untracked⟩ := kept_finished kept there
    have steady := steady_memory_and (kept_steady held none) (withoutPending m pid)
    refine wp_bind_perform steady ⟨closed,rfl⟩ ?_ ?_
    · rintro m' e' ⟨-,same⟩
      refine ⟨fun _ => ⟨by simp,by simp,?_⟩,fun _ => by simp [Guarded]⟩
      rintro _ _ ⟨⟩
      rw [same]
      exact untracked
    · rintro e _ e' ⟨kept,-⟩ replied
      obtain ⟨-,answered,noted⟩ := replies_answer replied
      have same := Option.some.inj answered
      have logged : Kept strict none (withoutPending m pid) e' :=
        kept_answered (by rw [same]) (by rw [same]) noted ⟨rfl,rfl⟩ kept
      refine wp_bind_steady (kept_steady held none) (plain_call rfl) logged fun t m e kept => ?_
      exact wp_bind_update (asked_of_mild (by simp))
        (kept_memory kept rfl fun p => pendingAt_change (Timers.noteFinished name t) (fun _ => rfl) p)

def Unclaimed (strict : Bool) (pid : Int) (m : Memory) (e : Kernel × Reaping) : Prop :=
  Refused strict pid m e ∧ (strict = true → e.1.apps.lookup pid = none)

theorem wp_reapApp (held : Held C strict dogs) (refused : Refused strict pid m e) :
    (reapApp pid).wp (around C) (asked strict dogs) (fun claimed m e =>
      if claimed then Kept strict none m e else Unclaimed strict pid m e) m e := by
  refine wp_bind_perform (refused_steady held pid) refused ?_ ?_
  · intro m e refused
    refine ⟨fun isStrict => ⟨by simp,?_,by simp⟩,fun _ => by simp [Guarded]⟩
    rintro _ ⟨⟩ listed
    refine Option.eq_none_iff_forall_ne_some.mpr fun sup found => ?_
    rw [refused.1.ledger.services_apps isStrict pid sup found] at listed
    contradiction
  · intro e removed e' refused replied
    obtain ⟨allowed,answered,noted⟩ := replies_answer replied
    simp only [Kernel.answer,Option.ite_none_right_eq_some,Option.some.injEq] at answered
    obtain ⟨listed,unlisted⟩ := answered
    have unnoted : e'.2 = e.2 := noted
    have kept : Kept strict (some pid) m e' := by
      refine ⟨?_,unnoted ▸ refused.1.reaped,unnoted ▸ refused.1.serving⟩
      rw [← unlisted]
      exact ledger_unlist refused.1.ledger
    have absent : e'.1.apps.lookup pid = none := by
      rw [← unlisted]
      exact AList.lookup_erase _ _
    cases removed with
    | none => exact ⟨⟨kept,refused.2⟩,fun _ => absent⟩
    | some info =>
      have untracked : m.services.lookup pid = none := by
        cases isStrict : strict with
        | true =>
          refine Option.eq_none_iff_forall_ne_some.mpr fun sup found => ?_
          rw [refused.1.ledger.services_apps isStrict pid sup found] at listed
          contradiction
        | false =>
          have fair := (held.unclaimed isStrict).reply _ _ _ _ allowed
          simpa only [unclaimed,Option.isNone_iff_eq_none] using fair
      have closed : Kept strict none m e' := by
        refine ⟨ledger_close kept.ledger untracked refused.2 ?_,by simp,kept.serving⟩
        rw [absent]
        simp
      refine wp_bind_steady (kept_steady held none) (plain_call rfl) closed fun _ m e kept => ?_
      exact wp_bind_steady (kept_steady held none) (plain_call rfl) kept fun _ m e kept => kept

theorem wp_offer (held : Held C strict dogs) (kept : Kept strict (some pid) m e) :
    (offer pid).wp (around C) (asked strict dogs) (fun claimed m e =>
      if claimed then Kept strict none m e else Unclaimed strict pid m e) m e := by
  refine wp_then (wp_timers_reap held kept) fun claimed m e after => ?_
  cases claimed with
  | true => exact after
  | false => exact wp_reapApp held after

theorem kept_handled (unclaimed : Unclaimed strict pid m e) :
    Kept strict none (withoutService m pid) e := by
  obtain ⟨⟨kept,idle⟩,unlisted⟩ := unclaimed
  refine ⟨ledger_close (ledger_untrack kept.ledger) (AList.lookup_erase _ _) idle ?_,by simp,
    kept.serving⟩
  intro isStrict info listed
  rw [unlisted isStrict] at listed
  contradiction

theorem wp_restart (held : Held C strict dogs) (sup : Supervised) (kept : Kept strict none m e) :
    (restart sup).wp (around C) (asked strict dogs) (fun _ => Kept strict none) m e := by
  refine wp_bind_steady (kept_steady held none) (plain_call rfl) kept fun t m e kept => ?_
  dsimp only
  split
  · exact wp_then (wp_log held kept (by simp) fun _ _ _ => rfl) fun _ m e kept => kept
  · exact wp_then ((upkeep held).starts _ _ m e kept) fun _ m e kept => kept

theorem wp_handleExit (held : Held C strict dogs) {ending : Ending} (unclaimed : Unclaimed strict pid m e) :
    (handleExit (.ended pid ending)).wp (around C) (asked strict dogs) (fun _ => Kept strict none) m e := by
  refine wp_bind_removeService (asked_of_mild (by simp)) ?_
  have kept := kept_handled unclaimed
  cases m.services.lookup pid with
  | none => exact kept
  | some sup =>
    refine wp_then (wp_log held kept (by simp) fun _ _ _ => rfl) fun _ m e kept => ?_
    refine wp_bind_steady (kept_steady held none) (plain_call rfl) kept fun _ m e kept => ?_
    refine wp_bind_steady (kept_steady held none) (plain_call rfl) kept fun _ m e kept => ?_
    split
    · exact kept
    · split
      · exact wp_restart held sup kept
      · exact kept

/-- Going back to the configuration of before the reload writes to none of the tables. -/
theorem verdict_phases (held : Held C strict dogs) : VerdictPhases (around C) (asked strict dogs)
    (fun _ => Kept strict none) (fun _ => Kept strict none) (fun _ => Kept strict none) (fun _ => Kept strict none)
    (Kept strict none) where
  unread _ _ := asked_of_mild (by simp)
  unwatched _ _ _ kept _ := kept
  rolls _ _ _ _ kept _ _ := wp_log held (kept_memory kept rfl fun _ => rfl) (by simp) fun _ _ _ => rfl
  reconciles _ _ _ kept := wp_reloadServices_keeps (upkeep held) _ kept
  levels _ _ _ kept := wp_steady (kept_steady held none) (plain_call rfl) kept
  restored_calm _ := kept_calm held none
  ends _ _ _ kept := wp_mono (wp_log held kept (by simp) fun _ _ _ => rfl) fun _ _ _ kept =>
    kept_memory kept rfl fun _ => rfl
  looks _ _ m _ kept _ _ := by
    have taken : Kept strict none { m with watch := none } _ := kept_memory kept rfl fun _ => rfl
    refine wp_mono (wp_steady (kept_steady held none) (plain_call rfl) taken) fun t m e kept => ?_
    split
    · exact kept_memory kept rfl fun _ => rfl
    · exact wp_mono (wp_log held kept (by simp) fun _ _ _ => rfl) fun _ _ _ kept => kept_memory kept rfl fun _ => rfl

end Exits

section Shutdown
variable {C : Condition Memory Op Op.Ans (Kernel × Reaping) Event} {strict dogs : Bool}
  {hole : Option Int} {m m' : Memory} {e e' : Kernel × Reaping} {pid : Int}

def Tracked (dogs : Bool) (hole : Option Int) (m : Memory) (e : Kernel × Reaping) : Prop :=
  dogs = true → ∀ pid sup, m.services.lookup pid = some sup → hole ≠ some pid → kindAt e.1 pid = some .service

theorem tracked_moves {op : Op} (moved : (around C).moves op m e e') (tracked : Tracked dogs hole m e) :
    Tracked dogs hole m e' := by
  obtain ⟨ev,-,stir,-⟩ := moves_stir moved
  exact fun dog pid sup found outside => stir_kinds stir (tracked dog pid sup found outside)

theorem tracked_steady (hole : Option Int) :
    Steady (around C) (asked strict dogs) (Tracked dogs hole) where
  moves _ _ _ _ moved tracked := tracked_moves moved tracked
  replies _ _ _ _ _ quiet replied tracked := by
    have same := Kernel.answer_quiet quiet (replies_answer replied).2.1
    intro dog pid sup found outside
    rw [same]
    exact tracked dog pid sup found outside
  holds _ _ _ mild _ := asked_of_mild mild

theorem tracked_waited {nohang : Bool} {status : Except Errno WaitStatus} (held : Held C strict dogs)
    (tracked : Tracked dogs none m e) (replied : (around C).replies (.waitpid .any nohang) m e status e') :
    Tracked dogs (openedBy status) m e' := by
  intro dog pid sup found outside
  have service := tracked dog pid sup found (by simp)
  obtain ⟨allowed,answered,-⟩ := replies_answer replied
  rcases Kernel.waited_children answered with same | ⟨p,opened,reaped,-⟩ | ⟨rfl,reaped,-⟩
  · unfold kindAt
    rw [same.1]
    exact service
  · rw [reaped,kindAt_reap_ne,service]
    rintro rfl
    exact outside opened
  · have apart := (held.untracked (.inr dog)).reply _ _ _ _ allowed
    simp only [untracked,Bool.and_eq_true,Option.isNone_iff_eq_none] at apart
    rw [reaped,kindAt_reap_ne,service]
    rintro rfl
    exact absurd (apart.1.symm.trans found) (by simp)

theorem tracked_removed (tracked : Tracked dogs (some pid) m e) : Tracked dogs none (withoutService m pid) e := by
  intro dog p sup found _
  obtain ⟨other,before⟩ := lookup_erase_iff.mp found
  exact tracked dog p sup before fun same => other (Option.some.inj same).symm

theorem wp_awaitExits (held : Held C strict dogs) (deadline : Nat) (tracked : Tracked dogs none m e) :
    (awaitExits deadline).wp (around C) (asked strict dogs) (fun _ => Tracked dogs none) m e := by
  have steady : Steady (around C) (asked strict dogs) (Tracked dogs none) := tracked_steady none
  refine wp_repeatFrom (fun _ => Tracked dogs none) tracked (fun _ _ _ _ => asked_of_mild (by simp)) ?_
  intro _ m e tracked
  refine wp_bind_steady steady (plain_call rfl) tracked fun t m e tracked => ?_
  refine wp_bind_read (asked_of_mild (by simp)) ?_
  split
  · refine wp_bind_perform steady tracked (fun _ _ _ => asked_of_mild (by rintro o ⟨⟩; rfl)) ?_
    intro e status e' tracked replied
    have after := tracked_waited held tracked replied
    match status with
    | .ok (.ended pid ending) =>
      exact wp_bind_removeService (asked_of_mild (by simp)) (tracked_removed after)
    | .ok .stillAlive => exact wp_bind_steady steady (plain_call rfl) after fun _ _ _ held => held
    | .ok .other => exact after
    | .error .echild => exact after
    | .error .eintr => exact wp_bind_steady steady (plain_call rfl) after fun _ _ _ held => held
    | .error .other => exact wp_bind_steady steady (plain_call rfl) after fun _ _ _ held => held
  · exact tracked

/-- Signals to pids of the table as it stands. -/
theorem wp_each_kill (before : Int × Supervised → Code Unit) {entries : List (Int × Supervised)}
    {f : Int × Supervised → Code Unit} {sig : Signal}
    (body : ∀ entry, f entry = before entry >>= fun _ => kill entry.1 sig)
    (plain : ∀ entry, (before entry).Uses Eq Op.Plain) (tracked : Tracked dogs none m e)
    (visit : entries.Perm m.services.toList) :
    (each entries f).wp (around C) (asked strict dogs) (fun _ => Tracked dogs none) m e := by
  have inner : Steady (around C) (asked strict dogs) (Tracked dogs none) := tracked_steady none
  have steady := steady_memory_and inner m
  refine wp_mono (wp_each (fun rest m' e => (Tracked dogs none m' e ∧ m' = m) ∧
    ∀ entry ∈ rest, m.services.lookup entry.1 = some entry.2) ⟨⟨tracked,rfl⟩,?_⟩ ?_)
    fun _ m' e after => after.1.1
  · exact fun entry member => Services.mem_toList.mp (visit.mem_iff.mp member)
  · rintro entry rest m' e ⟨both,listed⟩
    rw [body]
    refine wp_bind_steady steady (plain entry) both fun _ m' e both => ?_
    refine wp_steady_perform steady both ?_ ?_
    · intro m' e both
      refine asked_of_child fun dog => both.1 dog entry.1 entry.2 ?_ (by simp)
      rw [both.2]
      exact listed entry (.head _)
    · intro e _ e' both replied
      exact ⟨steady.replies _ _ _ _ _ rfl replied both,fun entry member => listed entry (.tail _ member)⟩

theorem wp_bind_visit {β : Type} {f : List (Int × Supervised) → Code β}
    {Q : β → Memory → Kernel × Reaping → Prop} (tracked : Tracked dogs none m e)
    (rest : ∀ visited e, visited.Perm m.services.toList → Tracked dogs none m e →
      (f visited).wp (around C) (asked strict dogs) Q m e) :
    (entries m.services >>= f).wp (around C) (asked strict dogs) Q m e := by
  have inner : Steady (around C) (asked strict dogs) (Tracked dogs none) := tracked_steady none
  refine wp_bind_entries (steady_memory_and inner m) visits ⟨tracked,rfl⟩ ?_
  intro visited e visit held
  exact rest visited e visit held.1

theorem wp_shutdownAll (held : Held C strict dogs) (grace : Nat) (tracked : Tracked dogs none m e) :
    (shutdownAll grace).wp (around C) (asked strict dogs) (fun _ => Tracked dogs none) m e := by
  have steady : Steady (around C) (asked strict dogs) (Tracked dogs none) := tracked_steady none
  refine wp_bind_read (asked_of_mild (by simp)) ?_
  refine wp_bind_visit tracked fun named e _ tracked => ?_
  refine wp_bind_visit tracked fun keyed e visit tracked => ?_
  refine wp_then (wp_each_kill (fun _ => pure ()) (fun _ => rfl) (fun _ => uses_pure ())
    tracked visit) fun _ m e tracked => ?_
  refine wp_bind_steady steady (plain_call rfl) tracked fun start m e tracked => ?_
  refine wp_bind_steady steady (plain_of_calm (checkInstant_calm _)) tracked fun _ m e tracked => ?_
  refine wp_then (wp_awaitExits held _ tracked) fun _ m e tracked => ?_
  refine wp_bind_read (asked_of_mild (by simp)) ?_
  refine wp_bind_visit tracked fun late e visit tracked => ?_
  refine wp_then (wp_each_kill (fun entry => log (.killingLate entry.1)) (fun _ => rfl)
    (fun _ => plain_call rfl) tracked visit)
    fun _ m e tracked => ?_
  refine wp_steady steady (uses_each fun _ _ => ?_) tracked
  exact uses_bind (plain_call rfl) fun _ => plain_call rfl

/-- The last line before the shutdown. -/
theorem wp_last {line : Line} (unasked : ∀ name pid, line ≠ .timerFinished name pid) (tracked : Tracked dogs none m e) :
    (log line).wp (around C) (asked strict dogs) (fun _ => Tracked dogs none) m e := by
  refine wp_steady_perform (tracked_steady none) tracked ?_ ?_
  · intro m e _
    refine ⟨fun _ => ⟨by simp,by simp,?_⟩,fun _ => by simp [Guarded]⟩
    intro name pid equal
    exact absurd (Op.log.inj (Option.some.inj equal)) (unasked name pid)
  · intro e _ e' tracked replied dog pid sup found outside
    rw [← Option.some.inj (replies_answer replied).2.1]
    exact tracked dog pid sup found outside

end Shutdown

section Loop
variable {C : Condition Memory Op Op.Ans (Kernel × Reaping) Event} {strict dogs : Bool}
  {hole : Option Int} {m m' : Memory} {e e' : Kernel × Reaping} {pid : Int}

theorem apart_of_kept (isStrict : strict = true) (kept : Kept strict none m e) : Apart m e.1 := by
  have child : ∀ pid κ, kindAt e.1 pid = some κ → (e.1.children.lookup pid).isSome := by
    intro pid κ there
    obtain ⟨child,found,-⟩ := kindAt_some.mp there
    rw [found]
    rfl
  have ledger := kept.ledger
  constructor
  · exact fun pid sup found => child pid _ (ledger.services pid sup found (by simp))
  · exact fun pid name there => child pid _ (ledger.pending pid name there (by simp))
  · exact fun pid info listed => child pid _ (ledger.apps isStrict pid info listed (by simp))
  · exact ledger.services_pending
  · exact ledger.services_apps isStrict
  · exact fun pid name there => apart_of_whole ledger isStrict there

theorem tracked_of_kept (kept : Kept strict hole m e) : Tracked dogs hole m e := fun _ => kept.ledger.services

/-- A child that is reaped without being told of opens no hole. -/
theorem untold_unlisted {nohang : Bool} (held : Held C strict dogs) (kept : Kept strict none m e)
    (allowed : C.reply (.waitpid .any nohang) m e (.error .other) = true) :
    m.services.lookup e.1.chosen = none ∧ pendingAt m e.1.chosen = none ∧
      (strict = true → e.1.apps.lookup e.1.chosen = none) := by
  cases strict with
  | true =>
    have apart := (held.unlisted rfl).reply _ _ _ _ allowed
    simp only [unlisted,kept.serving,Bool.false_or,Bool.and_eq_true,Option.isNone_iff_eq_none] at apart
    exact ⟨apart.1.1,apart.1.2,fun _ => apart.2⟩
  | false =>
    have apart := (held.untracked (.inl rfl)).reply _ _ _ _ allowed
    simp only [untracked,kept.serving,Bool.false_or,Bool.and_eq_true,Option.isNone_iff_eq_none] at apart
    exact ⟨apart.1,apart.2,by simp⟩

theorem wp_waits (held : Held C strict dogs) (kept : Kept strict none m e) : (waitpid .any (polls m)).wp (around C)
    (asked strict dogs) (fun status => Kept strict (openedBy status)) m e := by
  refine wp_steady_perform (kept_steady held none) kept ?_ ?_
  · intro m e _
    exact ⟨fun _ => ⟨by simp,by simp,by simp⟩,fun _ => by simp [Guarded]⟩
  · intro e status e' kept replied
    obtain ⟨allowed,answered,noted⟩ := replies_answer replied
    have serving : e'.2.ending = e.2.ending := by
      rw [noted]
      cases status with
      | error err => rfl
      | ok status => cases status <;> rfl
    rcases Kernel.waited_children answered with ⟨children,apps,closed⟩ | ⟨pid,opened,reaped,-⟩ | ⟨rfl,reaped,-⟩
    · rw [closed]
      exact ⟨ledger_kernel kept.ledger children apps,by simp,serving.trans kept.serving⟩
    · rw [opened]
      refine ⟨reaped ▸ ledger_reap kept.ledger,?_,serving.trans kept.serving⟩
      rintro _ ⟨⟩
      rw [noted]
      match status, opened with
      | .ok (.ended p ending), opened => exact opened
    · obtain ⟨untracked,idle,absent⟩ := untold_unlisted held kept allowed
      refine ⟨?_,by simp [openedBy],serving.trans kept.serving⟩
      rw [reaped]
      refine ledger_close (ledger_reap kept.ledger) untracked idle fun isStrict info listed => ?_
      have none_ : e.1.apps.lookup e.1.chosen = none := absent isStrict
      exact absurd (none_.symm.trans listed) (by simp)

theorem pendingAt_started {name n : String} {p : Int}
    (there : pendingAt { m with timers := m.timers.map (Timers.noteStarted name pid) } p = some n) :
    p = pid ∨ pendingAt m p = some n := by
  unfold pendingAt at there ⊢
  cases timers : m.timers with
  | none =>
    rw [timers] at there
    contradiction
  | some s =>
    rw [timers] at there
    rcases lookup_insert_iff.mp there with ⟨same,-⟩ | ⟨-,before⟩
    · exact .inl same
    · exact .inr before

theorem wp_fire (held : Held C strict dogs) (services : List ServiceDef) (name : String)
    (kept : Kept strict none m e) :
    (Timers.fire services name).wp (around C) (asked strict dogs) (fun _ => Kept strict none) m e := by
  have steady : Steady (around C) (asked strict dogs) (Kept strict none) := kept_steady held none
  unfold Timers.fire
  split
  · exact wp_steady steady (plain_call rfl) kept
  · rename_i d _
    refine wp_then (R := fun child m e => Kept strict none m e ∧
      ∀ pid, child = .ok pid → kindAt e.1 pid = some .timer) ?_ fun child m e spawned => ?_
    · refine wp_bind_steady steady (resolveWith_uses (fun _ => plain_call rfl) _) kept
        fun uid m e kept => ?_
      refine wp_bind_steady steady (resolveWith_uses (fun _ => plain_call rfl) _) kept
        fun gid m e kept => ?_
      refine wp_steady_perform steady kept (fun _ _ _ => asked_of_mild (by rintro o ⟨⟩; rfl)) ?_
      intro e child e' kept replied
      cases child with
      | ok pid =>
        obtain ⟨kept,timer⟩ := spawned_child kept replied
        refine ⟨kept,?_⟩
        rintro _ ⟨⟩
        exact timer
      | error err => exact ⟨spawned_none kept replied,by simp⟩
    · obtain ⟨kept,timer⟩ := spawned
      cases child with
      | error err => exact wp_steady steady (plain_call rfl) kept
      | ok pid =>
        refine wp_bind_steady (holding_steady held none pid .timer fun _ => True) (plain_call rfl)
          ⟨kept,timer pid rfl,trivial⟩ fun _ m e holding => ?_
        obtain ⟨kept,timer,-⟩ := holding
        refine ⟨asked_of_mild (by simp),?_,kept.reaped,kept.serving⟩
        exact ledger_pend kept.ledger timer rfl fun p n there => pendingAt_started there

theorem wp_tick (held : Held C strict dogs) (timers : List TimerDef) (services : List ServiceDef)
    (kept : Kept strict none m e) :
    (Timers.tick timers services).wp (around C) (asked strict dogs) (fun _ => Kept strict none) m e := by
  unfold Timers.tick
  split
  · exact kept
  · refine wp_then (wp_state held kept) fun s m e kept => ?_
    refine wp_bind_steady (kept_steady held none) (dueNames_plain s timers) kept
      fun due m e kept => ?_
    exact wp_each (fun _ => Kept strict none) kept fun name rest m e kept => wp_fire held services name kept

theorem wp_swap (held : Held C strict dogs) (flag : Flag) (kept : Kept strict none m e) :
    (swap flag).wp (around C) (asked strict dogs) (fun _ => Kept strict none) m e := by
  refine wp_steady_perform (kept_steady held none) kept ?_ ?_
  · intro m e kept
    refine ⟨fun isStrict => ⟨fun _ => apart_of_kept isStrict kept,by simp,by simp⟩,?_⟩
    exact fun _ => by simp [Guarded]
  · intro e r e' kept replied
    obtain ⟨-,answered,noted⟩ := replies_answer replied
    simp only [Kernel.answer,Option.ite_none_right_eq_some,Option.some.injEq] at answered
    refine kept_answered ?_ ?_ noted ⟨rfl,rfl⟩ kept
    · rw [← answered.2]
      rfl
    · rw [← answered.2]
      rfl

theorem wp_takeFlags (held : Held C strict dogs) (kept : Kept strict none m e) :
    takeFlags.wp (around C) (asked strict dogs) (fun _ => Kept strict none) m e := by
  refine wp_then (wp_swap held .rebootRequested kept) fun reboot m e kept => ?_
  refine wp_then (wp_swap held .poweroffRequested kept) fun poweroff m e kept => ?_
  exact wp_then (wp_swap held .haltRequested kept) fun halt m e kept => kept

theorem wp_dumpStatus (held : Held C strict dogs) (kept : Kept strict none m e) :
    dumpStatus.wp (around C) (asked strict dogs) (fun _ => Kept strict none) m e := by
  refine wp_then (wp_swap held .statusDumpRequested kept) fun requested m e kept => ?_
  refine wp_steady (kept_steady held none) (uses_provided ?_) kept
  refine uses_bind (uses_read fun _ => rfl) fun m => uses_bind statusSummary_plain fun _ => ?_
  exact uses_bind (plain_call rfl) fun _ => plain_call rfl

theorem reload_phases (held : Held C strict dogs) : ReloadPhases (around C) (asked strict dogs) (Kept strict none)
    (Kept strict none) (fun _ => Kept strict none) (fun _ => Kept strict none) (fun _ => Kept strict none)
    (fun _ _ => Kept strict none) (fun _ => Kept strict none) (Kept strict none) where
  unread _ _ := asked_of_mild (by simp)
  takes _ _ kept := wp_swap held .reloadRequested kept
  skips _ _ kept := kept
  logs _ _ kept := wp_log held kept (by simp) fun _ _ _ => rfl
  loads _ _ kept := wp_steady (kept_steady held none) loadConfig_plain kept
  levels _ _ _ kept := wp_steady (kept_steady held none) (plain_call rfl) kept
  levelled_calm _ := kept_calm held none
  times _ _ _ kept := wp_mono (wp_steady (kept_steady held none) (plain_call rfl) kept) fun _ _ _ kept =>
    kept_memory kept rfl fun _ => rfl
  reconciles _ _ _ kept := wp_reloadServices_keeps (upkeep held) _ kept
  reconciled_calm _ _ := kept_calm held none
  dates _ _ _ _ kept := wp_mono (wp_steady (kept_steady held none) (plain_call rfl) kept) fun _ _ _ kept =>
    kept_memory kept rfl fun _ => rfl
  publishes _ _ _ kept := wp_steady (kept_steady held none) (publishTargets_plain _ _) kept

theorem isolate_phases (held : Held C strict dogs) : IsolatePhases (around C) (asked strict dogs) (Kept strict none)
    (fun _ => Kept strict none) (fun _ => Kept strict none) (Kept strict none) where
  unread _ _ := asked_of_mild (by simp)
  takes _ _ kept := by
    refine wp_mono (wp_harmless held kept ?_ ?_ fun _ _ _ _ => ⟨rfl,rfl⟩) fun pending _ _ kept => ?_
    · exact fun _ _ => ⟨fun _ => ⟨by simp,by simp,by simp⟩,fun _ => by simp [Guarded]⟩
    · intro r m k k' answered
      simp only [Kernel.answer,Option.ite_none_right_eq_some,Option.some.injEq] at answered
      rw [← answered.2]
      exact ⟨rfl,rfl⟩
    · cases pending <;> exact kept
  refuses _ _ _ kept := wp_steady (kept_steady held none) (plain_call rfl) kept
  named_calm _ := kept_calm held none
  reconciles _ _ _ kept _ := wp_reloadServices_keeps (upkeep held) _ kept
  publishes _ _ _ kept :=
    wp_steady (kept_steady held none) (publishTargets_plain _ _) (kept_memory kept rfl fun _ => rfl)

/-- A wait may open a hole, and whoever claims the exit closes it. -/
theorem loop_phases (held : Held C strict dogs) : LoopPhases (around C) (asked strict dogs) (Kept strict none)
    (Kept strict none) (Kept strict none) (Kept strict none) (fun status => Kept strict (openedBy status))
    (fun pid _ claimed m e => if claimed then Kept strict none m e else Unclaimed strict pid m e)
    (fun _ => Kept strict none) (Kept strict none) (Tracked dogs none) (Tracked dogs none) fun _ _ => True where
  unread _ _ := asked_of_mild (by simp)
  takes _ _ kept := wp_mono (wp_takeFlags held kept) fun raised _ _ kept => by cases raised <;> exact kept
  reloads _ _ kept := (reload_phases held).wp_handleReload kept
  isolates _ _ kept := (isolate_phases held).wp_handleIsolate kept
  dumps _ _ kept := wp_dumpStatus held kept
  ticks _ _ kept := wp_tick held _ _ kept
  waits _ _ kept := wp_waits held kept
  kills _ _ _ kept := wp_killExpired held kept
  offers _ _ _ _ kept := wp_offer held kept
  claims _ _ _ _ kept := kept
  exits _ _ _ _ unclaimed := wp_handleExit held unclaimed
  waited_calm _ _ := kept_calm held _
  passes _ _ _ kept unopened := unopened ▸ kept
  fails _ _ _ kept := kept
  resolves _ _ _ kept _ := (verdict_phases held).wp_resolveWatch kept
  halts _ _ _ kept _ := wp_last (by simp) (tracked_of_kept kept)
  relays _ _ kept := wp_last (by simp) (tracked_of_kept kept)
  closes grace _ _ tracked := wp_shutdownAll held grace tracked
  acknowledges _ _ tracked :=
    wp_mono (wp_steady (tracked_steady none) acknowledgeShutdown_plain tracked) fun _ _ _ _ => trivial

theorem kept_empty {m' : Memory} (kept : Kept strict none m e) (services : m'.services = ∅)
    (timers : m'.timers = m.timers) : Kept strict none m' e := by
  have pending : ∀ p, pendingAt m' p = pendingAt m p := fun p => by rw [pendingAt,timers,pendingAt]
  have untracked : ∀ p sup, m'.services.lookup p ≠ some sup := by simp [services]
  refine ⟨⟨?_,?_,?_,kept.ledger.apps,?_,?_⟩,kept.reaped,kept.serving⟩
  · exact fun p sup found => absurd found (untracked p sup)
  · exact fun p name there => kept.ledger.pending p name (pending p ▸ there)
  · exact fun p sup found => absurd found (untracked p sup)
  · exact fun _ p sup found => absurd found (untracked p sup)
  · exact fun isStrict p name info there => kept.ledger.pending_apps isStrict p name info (pending p ▸ there)

/-- A change of the signal mask, or the start of the IPC thread. -/
theorem wp_masked {op : Op} (held : Held C strict dogs)
    (masks : op = .blockHandled ∨ op = .unblockHandled ∨ op = .spawnListener)
    (kept : Kept strict none m e) :
    (call op).wp (around C) (asked strict dogs) (fun _ => Kept strict none) m e := by
  refine wp_harmless held kept ?_ ?_ ?_
  · rcases masks with rfl | rfl | rfl
    all_goals exact fun _ _ => ⟨fun _ => ⟨by simp,by simp,by simp⟩,fun _ => by simp [Guarded]⟩
  · intro r m k k' answered
    rcases masks with rfl | rfl | rfl
    · cases r <;> cases Option.some.inj answered <;> exact ⟨rfl,rfl⟩
    · cases r <;> cases Option.some.inj answered <;> exact ⟨rfl,rfl⟩
    · cases Option.some.inj answered
      exact ⟨rfl,rfl⟩
  · rcases masks with rfl | rfl | rfl
    all_goals exact fun _ _ _ _ => ⟨rfl,rfl⟩

theorem boot_phases (held : Held C strict dogs) : BootPhases (around C) (asked strict dogs) (Kept strict none)
    (fun _ => Kept strict none) (fun _ => Kept strict none) (fun _ => Kept strict none) (fun _ => Kept strict none)
    (Kept strict none) where
  unread _ _ := asked_of_mild (by simp)
  started_calm := kept_calm held none
  loads _ _ kept := wp_steady (kept_steady held none) loadConfig_plain kept
  levels _ _ _ kept := wp_steady (kept_steady held none) (plain_call rfl) kept
  levelled_calm _ := kept_calm held none
  blocks _ _ _ kept := wp_masked held (by simp) kept
  listens _ _ _ kept := wp_masked held (by simp) kept
  publishes _ _ _ kept := wp_steady (kept_steady held none) (publishTargets_plain _ _) kept
  times _ _ _ kept := wp_mono (wp_steady (kept_steady held none) (plain_call rfl) kept) fun _ _ _ kept =>
    kept_empty kept rfl rfl
  spawns _ _ _ kept := wp_spawnAll_keeps (kept_steady held none) (upkeep held).starts _ kept
  unblocks _ _ kept := wp_masked held (by simp) kept
  booted_calm := kept_calm held none

theorem wp_main (held : Held C strict dogs) (kept : Kept strict none m e) :
    main.wp (around C) (asked strict dogs) (fun _ _ _ => True) m e :=
  (boot_phases held).wp_main (fun grace _ _ kept =>
    (loop_phases held).wp_runEventLoop grace (kept_memory kept rfl fun _ => rfl)) kept

/-- At the start of the program there is nothing in any table. -/
theorem kept_start (k : Kernel) : Kept strict none {} ({ k with apps := ∅ },({} : Reaping)) := by
  refine ⟨⟨?_,?_,?_,?_,?_,?_⟩,by simp,rfl⟩
  · simp
  · simp [pendingAt]
  · simp [pendingAt]
  · simp
  · simp
  · simp [pendingAt]

end Loop

section Registry

/-- As long as apps are registered in time and no child of a table is reaped without being told of,
the three tables are apart and up to date at every loop head, and no exit of a service is taken for
an app's or a timer's. -/
theorem tables_stay_apart (k : Kernel) {t : State Memory Op Op.Ans (Kernel × Reaping) Unit}
    (run : Reaches ((Kernel.machine.watched reapings).under (registered.both unlisted)).surroundings
      ⟨main,{},({ k with apps := ∅ },({} : Reaping))⟩ t) :
    Sound t.program.next? t.mem t.env.1 := by
  have held : Held (registered.both unlisted) true false :=
    ⟨fun _ => Condition.both_left,fun _ => Condition.both_right,by simp,by simp,by simp⟩
  have there := wp_everywhere run (wp_main held (kept_start k)) fun _ _ _ _ => asked_of_mild (by simp)
  exact there.1 rfl

def viewer : AppInfo := ⟨"app-1","/usr/bin/viewer",[],200,"00"⟩

def guardedJob : ServiceDef :=
  { name := "job", path := "/usr/bin/job", watchdogTimeout := some (fromSecs 1), target := "multi-user" }

def guarding : Config := { Config.default with services := [guardedJob] }

def registeredRun : Option (State Memory Op Op.Ans (Kernel × Reaping) Unit) :=
  drive ((Kernel.machine.watched reapings).under (registered.both unlisted))
    (fun op m e => Kernel.obliging (fun _ => true) Config.default op m e.1)
    [.upTo (· == .waitpid .any false) 200,.stir (.launch viewer),.stir .register,
      .stir (.exit 200 (some (.exited 0))),.upTo (· == .swap .rebootRequested) 200]
    ⟨main,{},({ ({} : Kernel) with apps := ∅ },{})⟩

theorem tables_stay_apart_registered : Sound (registeredRun.get (by decide +kernel)).program.next?
    (registeredRun.get (by decide +kernel)).mem (registeredRun.get (by decide +kernel)).env.1 :=
  tables_stay_apart {} (drive_reaches (Option.some_get _).symm)

def lateRun : Option (State Memory Op Op.Ans Kernel Unit) :=
  drive Kernel.machine (Kernel.obliging (fun _ => true) Config.default)
    [.upTo (· == .waitpid .any false) 200,.stir (.launch viewer),.stir (.exit 200 (some (.exited 0))),
      .upTo (· == .swap .rebootRequested) 200,.stir .register]
    ⟨main,{},{}⟩

theorem registry_goes_stale : ∃ (k : Kernel) (t : State Memory Op Op.Ans Kernel Unit),
    Reaches Kernel.machine.surroundings ⟨main,{},{ k with apps := ∅ }⟩ t ∧
      ¬ Sound t.program.next? t.mem t.env := by
  have stale : lateRun.any (fun t => decide (t.program.next? = some (.swap .rebootRequested) ∧
      t.env.apps.lookup 200 = some viewer ∧ (t.env.children.lookup 200).isSome = false)) = true := by
    decide +kernel
  obtain ⟨t,reached,head,listed,gone⟩ := by
    simpa only [Option.any_eq_true,decide_eq_true_eq] using stale
  refine ⟨{},t,drive_reaches reached,fun sound => ?_⟩
  have child := (sound.head head).apps_child 200 viewer listed
  rw [gone] at child
  contradiction

end Registry

section Signals

/-- As long as the registry claims no service's exit, no service is reaped just as its watchdog
expires and none is reaped without being told of, signals are sent to unreaped children only. -/
theorem signals_reach_children (k : Kernel) {t : State Memory Op Op.Ans (Kernel × Reaping) Unit}
    (run : Reaches ((Kernel.machine.watched reapings).under ((unclaimed.both untracked).both alive)).surroundings
      ⟨main,{},({ k with apps := ∅ },({} : Reaping))⟩ t) :
    Guarded t.program.next? t.env.1 := by
  have first : ((unclaimed.both untracked).both alive).Within (unclaimed.both untracked) := Condition.both_left
  have held : Held ((unclaimed.both untracked).both alive) false true :=
    ⟨by simp,by simp,fun _ => first.trans Condition.both_left,fun _ => first.trans Condition.both_right,
      fun _ => Condition.both_right⟩
  have there := wp_everywhere run (wp_main held (kept_start k)) fun _ _ _ _ => asked_of_mild (by simp)
  exact there.2 rfl

def hangingRun : Option (State Memory Op Op.Ans (Kernel × Reaping) Unit) :=
  drive ((Kernel.machine.watched reapings).under ((unclaimed.both untracked).both alive))
    (fun op m e => Kernel.obliging (fun _ => true) guarding op m e.1)
    [.upTo (· == .waitpid .any true) 200,.stir (.tick (fromSecs 2)),
      .upTo (· == .kill 100 .sigkill) 200]
    ⟨main,{},({ ({} : Kernel) with apps := ∅ },{})⟩

theorem signals_reach_children_hanging : Guarded (hangingRun.get (by decide +kernel)).program.next?
    (hangingRun.get (by decide +kernel)).env.1 :=
  signals_reach_children {} (drive_reaches (Option.some_get _).symm)

def reapedRun : Option (State Memory Op Op.Ans Kernel Unit) :=
  drive Kernel.machine (Kernel.obliging (fun _ => true) guarding)
    [.upTo (· == .waitpid .any true) 200,.stir (.tick (fromSecs 2)),.stir (.exit 100 (some (.exited 1))),
      .upTo (· == .kill 100 .sigkill) 200]
    ⟨main,{},{}⟩

theorem signal_goes_astray : ∃ (k : Kernel) (t : State Memory Op Op.Ans Kernel Unit),
    Reaches Kernel.machine.surroundings ⟨main,{},{ k with apps := ∅ }⟩ t ∧
      ¬ Guarded t.program.next? t.env := by
  have astray : reapedRun.any (fun t => decide (t.program.next? = some (.kill 100 .sigkill) ∧
      (t.env.children.lookup 100).isSome = false)) = true := by
    decide +kernel
  obtain ⟨t,reached,signal,gone⟩ := by
    simpa only [Option.any_eq_true,decide_eq_true_eq] using astray
  refine ⟨{},t,drive_reaches reached,fun guarded => ?_⟩
  obtain ⟨child,found,-⟩ := guarded 100 .sigkill signal
  rw [found] at gone
  contradiction

end Signals
end MitosServices.Pids
