import MitosServices.LoopRule

/-! Whether a reload that breaks a service ends in a rollback. The news of a failure reach the
watch only through exits the event loop itself reaps, while the watch is the one in force. -/
namespace MitosServices.Trials
open Interaction Interaction.Program

/-- How the last reload stands: the names it has started, whether it is still reconciling, the
deadline of its watch; what the reloads before it had started that were superseded unresolved, with
their deadlines; whether a failure was reported, and whether the exit of a critical service was
reaped that the watched reload has not touched. -/
structure Course where
  started : List String := []
  applying : Bool := false
  deadline : Option Nat := none
  superseded : List (List String × Nat) := []
  failed : Bool := false
  doomed : Bool := false

namespace Course

def starting (c : Course) (name : String) : Course :=
  { c with started := if c.applying then name :: c.started else c.started }

def deadlineAt (c : Course) : Op → Memory → Option Nat
  | .publishTargets _ _, m => if c.applying then m.watch.map Watch.deadline else c.deadline
  | .takePendingIsolate, m => if c.applying then m.watch.map Watch.deadline else c.deadline
  | _, _ => if c.applying then none else c.deadline

/-- A failure of this service now is one of the last reload, in its window. -/
def counts (c : Course) (op : Op) (m : Memory) (name : String) (clock : Nat) : Bool :=
  c.started.contains name && (c.deadlineAt op m).all fun deadline => clock < deadline

/-- A failure of this service now is one of a superseded reload, in its window. -/
def overdue (c : Course) (name : String) (clock : Nat) : Bool :=
  c.superseded.any fun earlier => earlier.1.contains name && clock < earlier.2

def lapsed (c : Course) (clock : Nat) : Bool :=
  c.started.isEmpty || c.deadline.all fun deadline => deadline ≤ clock

end Course

/-- With the course of the reload: the critical services started in the run and not told to stop;
the pids whose exit counts and is not yet reaped; whether a service of the reload has failed in its
window, however that may have become known; and whether such a failure went by the watch. -/
structure Trial where
  course : Course := {}
  own : Int → Option String := fun _ => none
  failing : List Int := []
  broken : Bool := false
  lost : Bool := false

def untouched (m : Memory) (pid : Int) : Bool :=
  (m.services.lookup pid).any fun sup => sup.definition.critical &&
    !m.watch.any fun w => w.touches sup.definition.name

namespace Trial

def fails (g : Trial) (op : Op) (m : Memory) (clock : Nat) (name : String) : Trial :=
  { g with
    broken := g.broken || g.course.counts op m name clock
    lost := g.lost || g.course.overdue name clock }

def exited (g : Trial) (op : Op) (m : Memory) (clock : Nat) (pid : Int) (name : String) : Trial :=
  { g.fails op m clock name with
    failing := if g.course.counts op m name clock then pid :: g.failing else g.failing }

/-- A failure of the reload that is superseded cannot be answered any more. -/
def reloading (g : Trial) : Trial :=
  { g with
    course := { g.course with
      started := []
      applying := true
      deadline := none
      superseded := (g.course.deadline.map fun d => (g.course.started,d)).toList ++ g.course.superseded }
    failing := []
    broken := false
    lost := g.lost || g.broken }

def watching (g : Trial) (m : Memory) : Trial :=
  if g.course.applying then
    { g with course := { g.course with applying := false, deadline := m.watch.map Watch.deadline } }
  else g

def spawned (g : Trial) (name : String) (critical : Bool) (pid : Int) : Trial :=
  { g with
    course := g.course.starting name
    own := Function.update g.own pid (if critical then some name else none) }

/-- The supervisor says itself that a service has failed. -/
def givesUp (g : Trial) (op : Op) (m : Memory) (clock : Nat) (name : String) : Trial :=
  { g.fails op m clock name with
    course := { g.course with failed := g.course.failed || g.course.counts op m name clock } }

def disown (g : Trial) (pid : Int) : Trial := { g with own := Function.update g.own pid none }

def reaped (g : Trial) (pid : Int) : Trial :=
  { g.disown pid with failing := g.failing.filter fun p => p != pid }

def opened (g : Trial) (m : Memory) (pid : Int) : Trial :=
  { g.reaped pid with course := { g.course with
      failed := g.course.failed || g.failing.contains pid
      doomed := g.course.doomed || untouched m pid } }

def resolved (g : Trial) : Trial :=
  { g with course := { g.course with started := [], deadline := none }, failing := [], broken := false }

def ended (g : Trial) : Trial :=
  { g with course := { g.course with started := [], superseded := [] }, failing := [], broken := false }

end Trial

def trials : Monitor Memory Op Op.Ans Kernel Event Trial where
  event
    | .exit pid _, op, m, k, g => ((g.own pid).map (g.exited op m k.clock pid)).getD g
    | _, _, _, _, g => g
  reply
    | .swap .rebootRequested, _, _, _, g => { g with course := { g.course with doomed := false } }
    | .log .reloadingConfig, _, _, _, g => g.reloading
    | .takePendingIsolate, m, _, _, g => g.watching m
    | .spawn (.service name critical) _, _, _, .ok pid, g => g.spawned name critical pid
    | .spawn (.service name critical) command, m, k, .error _, g =>
      { g with course := g.course.starting name }.fails
        (.spawn (.service name critical) command) m k.clock name
    | .spawn _ _, _, _, .ok pid, g => g.disown pid
    | .kill pid .sigterm, _, _, _, g => g.disown pid
    | .waitpid .any _, m, _, .ok (.ended pid _), g => g.opened m pid
    | .waitpid (.only _) _, _, _, .ok (.ended pid _), g => g.reaped pid
    | .waitpid _ _, _, k, .error .other, g => g.reaped k.chosen
    | .log (.givingUp name times), m, k, _, g =>
      g.givesUp (.log (.givingUp name times)) m k.clock name
    | .log (.rollingBack _), _, _, _, g => g.resolved
    | .log .keeping, _, _, _, g => g.resolved
    | .log .rolledBack, _, _, _, g => { g with course := { g.course with failed := false } }
    | .log .criticalExited, _, _, _, g => g.ended
    | .log .shutdownRelayed, _, _, _, g => g.ended
    | _, _, _, _, g => g

/-- No service the reload is starting, or whose failure would count, fails to be spawned; no reload
is handled while the window of one that has started something is open; no exit that counts is by a
signal without a name; and the exits that count are reaped by the event loop in time: before the
next reload is handled, the deadline is noticed, the service is stopped or the exit of an untouched
critical service is taken, and by nobody else. -/
def fair : Condition Memory Op Op.Ans (Kernel × Trial) Event where
  event
    | .exit pid ending, op, m, e => (e.2.own pid).all fun name =>
      !e.2.course.counts op m name e.1.clock || (ending.isSome && !e.2.course.doomed)
    | _, _, _, _ => true
  reply
    | .spawn (.service name critical) command, m, e, .error _ =>
      !(e.2.course.starting name).counts (.spawn (.service name critical) command) m name e.1.clock
    | .log .reloadingConfig, _, e, _ => e.2.failing.isEmpty && e.2.course.lapsed e.1.clock
    | .now, m, e, t =>
      !(m.watch.isNone && e.2.course.deadline.any fun deadline => deadline ≤ t) || e.2.failing.isEmpty
    | .kill pid .sigterm, _, e, _ => !e.2.failing.contains pid
    | .waitpid .any _, m, e, .ok (.ended pid _) => (!untouched m pid || e.2.failing.isEmpty) &&
      (!e.2.failing.contains pid || m.timers.all fun s => (s.pending.lookup pid).isNone)
    | .takeApp _, _, e, some _ => !e.2.course.failed
    | _, _, _, _ => true

def Ended (k : Kernel) (pid : Int) : Prop :=
  ∃ child exit, k.children.lookup pid = some child ∧ child.ended = some exit ∧ exit.ending ≠ none

/-- No failure goes by the watch; when the loop turns, one that has not been rolled back is an exit
still to be reaped; and neither is a reload confirmed while it is broken, nor does a critical exit
end it. -/
def asked : Option Op → Memory → Kernel × Trial → Prop
  | some (.swap .rebootRequested), _, e => e.2.lost = false ∧ e.2.course.failed = false ∧
    (e.2.broken = true → ∃ pid ∈ e.2.failing, Ended e.1 pid)
  | some (.log .keeping), _, e | some (.log .criticalExited), _, e => e.2.lost = false ∧ e.2.broken = false
  | some _, _, e => e.2.lost = false
  | none, _, _ => True

abbrev surroundings : Surroundings Memory Op Op.Ans (Kernel × Trial) :=
  ((Kernel.machine.watched trials).under fair).surroundings

theorem moves_iff {op : Op} {m : Memory} {e e' : Kernel × Trial} : surroundings.moves op m e e' ↔
    ∃ ev, fair.event ev op m e = true ∧ Kernel.stir ev op m e.1 = some e'.1 ∧
      e'.2 = trials.event ev op m e.1 e.2 := by
  constructor
  · rintro ⟨ev,stir⟩
    obtain ⟨allowed,watched⟩ := Machine.under_stir_iff.mp stir
    exact ⟨ev,allowed,Machine.watched_stir_iff.mp watched⟩
  · rintro ⟨ev,allowed,watched⟩
    exact ⟨ev,Machine.under_stir_iff.mpr ⟨allowed,Machine.watched_stir_iff.mpr watched⟩⟩

theorem replies_iff {op : Op} {m : Memory} {e e' : Kernel × Trial} {r : op.Ans} :
    surroundings.replies op m e r e' ↔ fair.reply op m e r = true ∧
      Kernel.answer op m e.1 r = some e'.1 ∧ e'.2 = trials.reply op m e.1 r e.2 := Machine.heard_iff

theorem visits : Visits surroundings := by
  intro listed m e visited e' replied
  exact Kernel.answer_iterate (m := m) (replies_iff.mp replied).2.1

section Tried
variable {φ : Course → Prop} {watch : Option Watch} {hole : Option Int} {m m' : Memory}
  {e e' : Kernel × Trial} {op : Op}

def Tracked (m : Memory) (pid : Int) (name : String) : Prop :=
  ∃ sup, m.services.lookup pid = some sup ∧ sup.definition.name = name ∧ sup.definition.critical = true

def Past (e : Kernel × Trial) : Prop :=
  ∀ earlier ∈ e.2.course.superseded, earlier.1 = [] ∨ earlier.2 ≤ e.1.clock

/-- The exits that count are still there to be reaped, and no failure is known to nobody; what the
run has started is tracked but for the pid in the hole, just started or just struck from the table. -/
structure Tried (φ : Course → Prop) (watch : Option Watch) (hole : Option Int) (m : Memory)
    (e : Kernel × Trial) : Prop where
  watched : m.watch = watch
  course : φ e.2.course
  kept : e.2.lost = false
  past : Past e
  sound : e.2.broken = true → e.2.course.failed = true ∨ e.2.failing ≠ []
  standing : e.2.broken = true → e.2.course.started ≠ []
  known : ∀ pid name, e.2.own pid = some name → hole ≠ some pid → Tracked m pid name
  counted : ∀ pid ∈ e.2.failing, ∃ name, e.2.own pid = some name ∧ name ∈ e.2.course.started
  pending : ∀ pid ∈ e.2.failing, Ended e.1 pid

theorem timely_of_past (past : Past e) (name : String) : e.2.course.overdue name e.1.clock = false := by
  rw [← Bool.not_eq_true]
  intro overdue
  obtain ⟨earlier,member,late⟩ := List.any_eq_true.mp overdue
  simp only [Bool.and_eq_true,List.contains_iff_mem,decide_eq_true_eq] at late
  rcases past earlier member with none_ | lapsed
  · rw [none_] at late
    exact absurd late.1 List.not_mem_nil
  · exact absurd late.2 (Nat.not_lt.mpr lapsed)

/-- Windows that are over stay over. -/
theorem past_later (past : Past e) (later : e.1.clock ≤ e'.1.clock)
    (superseded : e'.2.course.superseded = e.2.course.superseded) : Past e' := by
  intro earlier member
  rw [superseded] at member
  exact (past earlier member).imp_right fun lapsed => Nat.le_trans lapsed later

theorem past_answered {r : op.Ans} (past : Past e) (answered : Kernel.answer op m e.1 r = some e'.1)
    (superseded : e'.2.course.superseded = e.2.course.superseded) : Past e' :=
  past_later past (Nat.le_of_eq (Kernel.answer_clock answered).symm) superseded

/-- An event changes nothing of a trial but that an exit may come to count. -/
theorem moves_trial (moved : surroundings.moves op m e e') : e'.2.course = e.2.course ∧
    e'.2.own = e.2.own ∧ (e'.2.failing = e.2.failing ∧ e'.2.broken = e.2.broken ∨
      ∃ pid name, e.2.own pid = some name ∧ e.2.course.counts op m name e.1.clock = true ∧
        e.2.course.doomed = false ∧ Ended e'.1 pid ∧ e'.2.failing = pid :: e.2.failing) := by
  obtain ⟨ev,allowed,stir,noted⟩ := moves_iff.mp moved
  rw [noted]
  cases ev with
  | exit pid ending =>
    cases own : e.2.own pid with
    | none => simp [trials,own]
    | some name =>
      simp only [trials,own,Option.map_some,Option.getD_some,Trial.exited,Trial.fails,true_and]
      cases counts : e.2.course.counts op m name e.1.clock with
      | false => simp
      | true =>
        simp only [fair,own,Option.all_some,counts,Bool.not_true,Bool.false_or,Bool.and_eq_true,
          Bool.not_eq_true'] at allowed
        refine .inr ⟨pid,name,own,counts,allowed.2,?_,by simp⟩
        generalize e'.1 = after at stir
        cases Kernel.stir_cases stir with
        | exit ending found running =>
          refine ⟨_,_,lookup_insert_iff.mpr (.inl ⟨rfl,rfl⟩),rfl,?_⟩
          exact Option.isSome_iff_ne_none.mp allowed.1
  | _ => exact ⟨rfl,rfl,.inl ⟨rfl,rfl⟩⟩

/-- Nor does one go by the watch while no superseded window is open. -/
theorem moves_lost (moved : surroundings.moves op m e e') (past : Past e) : e'.2.lost = e.2.lost := by
  obtain ⟨ev,-,-,noted⟩ := moves_iff.mp moved
  rw [noted]
  cases ev with
  | exit pid ending =>
    cases own : e.2.own pid with
    | none => simp [trials,own]
    | some name => simp [trials,own,Trial.exited,Trial.fails,timely_of_past past name]
  | _ => rfl

theorem moves_clock (moved : surroundings.moves op m e e') : e.1.clock ≤ e'.1.clock := by
  obtain ⟨ev,-,stir,-⟩ := moves_iff.mp moved
  exact Kernel.stir_clock stir

theorem moves_ended (moved : surroundings.moves op m e e') {pid : Int} (ended : Ended e.1 pid) :
    Ended e'.1 pid := by
  obtain ⟨ev,-,stir,-⟩ := moves_iff.mp moved
  obtain ⟨child,exit,found,exited,told⟩ := ended
  exact ⟨child,exit,Kernel.stir_ended stir found (by simp [exited]),exited,told⟩

theorem started_of_counts {c : Course} {name : String} {clock : Nat}
    (counts : c.counts op m name clock = true) : name ∈ c.started := by
  simpa using (Bool.and_eq_true_iff.mp counts).1

theorem tried_moves (moved : surroundings.moves op m e e') (tried : Tried φ watch hole m e) :
    Tried φ watch hole m e' := by
  obtain ⟨course,own,failing⟩ := moves_trial moved
  have past := past_later tried.past (moves_clock moved) (congrArg Course.superseded course)
  refine ⟨tried.watched,course ▸ tried.course,(moves_lost moved tried.past).trans tried.kept,past,?_,?_,
    own ▸ tried.known,?_,?_⟩
  · rcases failing with ⟨same,broken⟩ | ⟨pid,-,-,-,-,-,more⟩
    · rw [same,broken,course]
      exact tried.sound
    · exact fun _ => .inr (by rw [more]; simp)
  · rw [course]
    rcases failing with ⟨-,broken⟩ | ⟨pid,name,-,counts,-⟩
    · rw [broken]
      exact tried.standing
    · exact fun _ => List.ne_nil_of_mem (started_of_counts counts)
  · rw [own,course]
    rcases failing with ⟨same,-⟩ | ⟨pid,name,owned,counts,-,-,more⟩
    · rw [same]
      exact tried.counted
    · rw [more]
      rintro p (_ | ⟨_,member⟩)
      · exact ⟨name,owned,started_of_counts counts⟩
      · exact tried.counted p member
  · rcases failing with ⟨same,-⟩ | ⟨pid,-,-,-,-,ended,more⟩
    · rw [same]
      exact fun p member => moves_ended moved (tried.pending p member)
    · rw [more]
      rintro p (_ | ⟨_,member⟩)
      · exact ended
      · exact moves_ended moved (tried.pending p member)

/-- An answer that ends no child's being there and leaves the record as it is. -/
theorem tried_same {r : op.Ans} (tried : Tried φ watch hole m e) (answered : Kernel.answer op m e.1 r = some e'.1)
    (children : ∀ pid child, e.1.children.lookup pid = some child → e'.1.children.lookup pid = some child)
    (noted : e'.2 = e.2) : Tried φ watch hole m e' where
  watched := tried.watched
  course := noted ▸ tried.course
  kept := noted ▸ tried.kept
  past := past_answered tried.past answered (by rw [noted])
  sound := noted ▸ tried.sound
  standing := noted ▸ tried.standing
  known := noted ▸ tried.known
  counted := noted ▸ tried.counted
  pending pid member := by
    obtain ⟨child,exit,found,exited⟩ := tried.pending pid (noted ▸ member)
    exact ⟨child,exit,children pid child found,exited⟩

theorem tried_disown (pid : Int) {hole' : Option Int} {r : op.Ans} (tried : Tried φ watch hole m e)
    (answered : Kernel.answer op m e.1 r = some e'.1) (closes : hole' = hole ∨ hole = some pid)
    (absent : pid ∉ e.2.failing)
    (children : ∀ p child, p ≠ pid → e.1.children.lookup p = some child →
      e'.1.children.lookup p = some child) (noted : e'.2 = e.2.disown pid) : Tried φ watch hole' m e' := by
  obtain ⟨k,g⟩ := e'
  obtain rfl : g = e.2.disown pid := noted
  refine { tried with past := past_answered tried.past answered rfl, known := ?_, counted := ?_, pending := ?_ }
  · intro p name own beside
    simp only [Trial.disown,Function.update_apply] at own
    split at own
    · contradiction
    · rename_i other
      refine tried.known p name own ?_
      rcases closes with rfl | rfl
      · exact beside
      · simpa using fun same => other same.symm
  · intro p member
    have other : p ≠ pid := fun same => absent (same ▸ member)
    simp only [Trial.disown,Function.update_of_ne other]
    exact tried.counted p member
  · intro p member
    have other : p ≠ pid := fun same => absent (same ▸ member)
    obtain ⟨child,exit,found,exited⟩ := tried.pending p member
    exact ⟨child,exit,children p child other found,exited⟩

/-- The pid of a process the trial does not wait for. -/
theorem absent_of_unowned {pid : Int} (tried : Tried φ watch hole m e) (unowned : e.2.own pid = none) :
    pid ∉ e.2.failing := by
  intro member
  obtain ⟨name,own,-⟩ := tried.counted pid member
  rw [unowned] at own
  contradiction

/-- A wait has reaped a child the trial does not wait for. -/
theorem tried_reaped {pid : Int} {r : op.Ans} (tried : Tried φ watch hole m e)
    (answered : Kernel.answer op m e.1 r = some e'.1) (reaped : e'.1 = e.1.reap pid)
    (absent : pid ∉ e.2.failing) (noted : e'.2 = e.2.reaped pid) : Tried φ watch hole m e' := by
  have same : e.2.reaped pid = e.2.disown pid := by
    have all : e.2.failing.filter (fun p => p != pid) = e.2.failing := by
      refine List.filter_eq_self.mpr fun p member => bne_iff_ne.mpr ?_
      rintro rfl
      exact absent member
    simp [Trial.reaped,Trial.disown,all]
  refine tried_disown pid tried answered (.inl rfl) absent ?_ (noted.trans same)
  intro p child other found
  rw [reaped]
  exact lookup_erase_iff.mpr ⟨other,found⟩

/-- A child whose status a wait cannot tell is none that counts. -/
theorem untold_absent {target : WaitFor} {nohang : Bool} (tried : Tried φ watch hole m e)
    (answered : Kernel.answer (.waitpid target nohang) m e.1 (.error .other) = some e'.1) :
    e'.1 = e.1.reap e.1.chosen ∧ e.1.chosen ∉ e.2.failing := by
  generalize after : e'.1 = k at answered
  have waited : e.1.waited target nohang (.error .other) = some k := answered
  cases Kernel.waited_cases waited with
  | untold covered found nameless =>
    refine ⟨rfl,fun member => ?_⟩
    obtain ⟨child,exit,there,exited,told⟩ := tried.pending _ member
    rw [found] at there
    cases there
    rw [exited] at nameless
    exact told (Option.some.inj nameless)

/-- A wait that reaps no child, or one whose status it cannot tell. -/
theorem tried_unopened {target : WaitFor} {nohang : Bool} {status : Except Errno WaitStatus}
    (tried : Tried φ watch hole m e) (unopened : openedBy status = none)
    (replied : surroundings.replies (.waitpid target nohang) m e status e') : Tried φ watch hole m e' := by
  obtain ⟨-,answered,noted⟩ := replies_iff.mp replied
  have kept : status ≠ .error .other → e'.2 = e.2 → Tried φ watch hole m e' := by
    intro told noted
    refine tried_same tried answered ?_ noted
    rcases Kernel.waited_children answered with ⟨same,-,-⟩ | ⟨pid,opened,-⟩ | ⟨untold,-⟩
    · rw [same]
      exact fun _ _ found => found
    · rw [unopened] at opened
      contradiction
    · exact absurd untold told
  match status with
  | .ok (.ended pid ending) => contradiction
  | .ok .stillAlive => exact kept (by simp) (by cases target <;> exact noted)
  | .ok .other => exact kept (by simp) (by cases target <;> exact noted)
  | .error .eintr => exact kept (by simp) (by cases target <;> exact noted)
  | .error .echild => exact kept (by simp) (by cases target <;> exact noted)
  | .error .other =>
    obtain ⟨reaped,absent⟩ := untold_absent tried answered
    exact tried_reaped tried answered reaped absent (by cases target <;> exact noted)

def Idle : Op → Prop
  | .takeApp _ | .log (.timerFinished _ _) | .log (.serviceEnded _ _) | .spawn (.timer _) _ => True
  | .swap flag => flag ≠ .rebootRequested
  | op => op.quiet = true

theorem idle_of_plain (plain : op.Plain) : Idle op := by
  obtain ⟨quiet,mild⟩ := plain
  cases op with
  | swap flag => contradiction
  | takeApp pid => trivial
  | spawn origin command => contradiction
  | log line => cases line <;> first | exact quiet | trivial
  | _ => exact quiet

theorem idle_of_times (times : op.times = true) : Idle op := by
  cases op with
  | swap flag => contradiction
  | takeApp pid => trivial
  | spawn origin command => cases origin <;> trivial
  | log line => cases line <;> trivial
  | _ => first | rfl | contradiction

theorem idle_of_offers (offers : op.offers = true) : Idle op := by
  cases op with
  | swap flag => contradiction
  | takeApp pid => trivial
  | spawn origin command => contradiction
  | log line => cases line <;> trivial
  | _ => first | rfl | contradiction

theorem fresh_of_spawn {origin : Origin} {command : Command} {pid : Int}
    (answered : Kernel.answer (.spawn origin command) m e.1 (.ok pid) = some e'.1) :
    e.1.children.lookup pid = none ∧ e'.1.children = e.1.children.insert pid ⟨origin,none,e.1.mainMask⟩ := by
  obtain ⟨fresh,added⟩ := Kernel.answer_spawned answered
  exact ⟨fresh,by rw [added]; rfl⟩

theorem fresh_not_failing (tried : Tried φ watch hole m e) {pid : Int}
    (fresh : e.1.children.lookup pid = none) : pid ∉ e.2.failing := by
  intro member
  obtain ⟨child,exit,found,-⟩ := tried.pending pid member
  rw [fresh] at found
  contradiction

theorem tried_idle {r : op.Ans} (idle : Idle op) (replied : surroundings.replies op m e r e')
    (tried : Tried φ watch hole m e) : Tried φ watch hole m e' := by
  obtain ⟨allowed,answered,noted⟩ := replies_iff.mp replied
  cases op with
  | swap flag =>
    refine tried_same tried answered ?_ ?_
    · simp only [Kernel.answer,Option.ite_none_right_eq_some,Option.some.injEq] at answered
      rw [← answered.2]
      exact fun _ _ found => found
    · cases flag <;> first | exact noted | exact absurd rfl idle
  | takeApp pid =>
    refine tried_same tried answered ?_ noted
    simp only [Kernel.answer,Option.ite_none_right_eq_some,Option.some.injEq] at answered
    rw [← answered.2]
    exact fun _ _ found => found
  | spawn origin command =>
    cases origin with
    | timer name =>
      cases r with
      | ok pid =>
        obtain ⟨fresh,children⟩ := fresh_of_spawn answered
        refine tried_disown pid tried answered (.inl rfl) (fresh_not_failing tried fresh) ?_ noted
        intro p child other found
        rw [children]
        exact lookup_insert_iff.mpr (.inr ⟨other,found⟩)
      | error err =>
        have same : e'.1 = e.1 := (Option.some.inj answered).symm
        exact tried_same tried answered (by rw [same]; exact fun _ _ found => found) noted
    | _ => contradiction
  | log line =>
    have same : e'.1 = e.1 := (Option.some.inj answered).symm
    refine tried_same tried answered (by rw [same]; exact fun _ _ found => found) ?_
    cases line <;> first | exact noted | contradiction
  | kill pid sig =>
    have same : e'.1 = e.1 := (Option.some.inj answered).symm
    by_cases term : sig = .sigterm
    · subst term
      have absent : pid ∉ e.2.failing := by simpa [fair] using allowed
      exact tried_disown pid tried answered (.inl rfl) absent (by rw [same]; exact fun _ _ _ found => found) noted
    · refine tried_same tried answered (by rw [same]; exact fun _ _ found => found) ?_
      cases sig <;> first | exact noted | contradiction
  | _ =>
    have same : e'.1 = e.1 := Kernel.answer_quiet idle answered
    refine tried_same tried answered (by rw [same]; exact fun _ _ found => found) ?_
    first | exact noted | contradiction

theorem asked_idle {op : Option Op} (idle : ∀ o ∈ op, Idle o) (kept : e.2.lost = false) : asked op m e := by
  cases op with
  | none => trivial
  | some op =>
    have idle := idle op rfl
    cases op with
    | swap flag => cases flag <;> first | exact kept | exact absurd rfl idle
    | log line => cases line <;> first | exact kept | contradiction
    | _ => exact kept

theorem tried_memory (tried : Tried φ watch hole m e) (services : m'.services = m.services)
    (watched : m'.watch = m.watch) : Tried φ watch hole m' e :=
  { tried with
    watched := watched.trans tried.watched
    known := fun pid name own beside => by
      unfold Tracked
      rw [services]
      exact tried.known pid name own beside }

abbrev Keeps (m m' : Memory) : Prop := m'.services = m.services ∧ m'.watch = m.watch

theorem tried_frame (φ : Course → Prop) (watch : Option Watch) (hole : Option Int) :
    surroundings.Frame asked Keeps Idle (Tried φ watch hole) where
  updates _ _ _ keeps tried := tried_memory tried keeps.1 keeps.2
  moves _ _ _ _ _ moved tried := tried_moves moved tried
  replies _ _ _ _ _ idle replied tried := tried_idle idle replied tried
  holds _ _ _ idle tried := asked_idle idle tried.kept

theorem tried_steady (φ : Course → Prop) (watch : Option Watch) (hole : Option Int) :
    Steady surroundings asked (Tried φ watch hole) where
  moves _ _ _ _ moved tried := tried_moves moved tried
  replies op m e r e' quiet replied tried := by
    refine tried_idle ?_ replied tried
    cases op with
    | swap flag => contradiction
    | takeApp pid => contradiction
    | spawn origin command => contradiction
    | log line => cases line <;> first | exact quiet | trivial
    | _ => exact quiet
  holds op m e mild tried := by
    cases op with
    | none => trivial
    | some op =>
      have mild := mild op rfl
      cases op with
      | swap flag => contradiction
      | log line => cases line <;> first | exact tried.kept | contradiction
      | _ => exact tried.kept

end Tried

section Services
variable {φ : Course → Prop} {watch : Option Watch} {hole : Option Int} {m : Memory}
  {e e' : Kernel × Trial} {pid : Int}

structure Started (φ : Course → Prop) (watch : Option Watch) (d : ServiceDef) (pid : Int) (m : Memory)
    (e : Kernel × Trial) : Prop where
  tried : Tried φ watch (some pid) m e
  own : ∀ name, e.2.own pid = some name → name = d.name ∧ d.critical = true

theorem quiet_own {op : Op} {r : op.Ans} (quiet : op.quiet = true) (replied : surroundings.replies op m e r e')
    {p : Int} {name : String} (own : e'.2.own p = some name) : e.2.own p = some name := by
  obtain ⟨-,-,noted⟩ := replies_iff.mp replied
  rw [noted] at own
  cases op with
  | kill pid sig =>
    by_cases term : sig = .sigterm
    · subst term
      change Function.update e.2.own pid none p = some name at own
      rw [Function.update_apply] at own
      split at own
      · contradiction
      · exact own
    · cases sig <;> first | exact own | exact absurd rfl term
  | log line => cases line <;> exact own
  | swap flag => contradiction
  | takePendingIsolate => contradiction
  | spawn origin command => contradiction
  | waitpid target nohang => contradiction
  | takeApp pid => contradiction
  | _ => exact own

theorem started_steady (φ : Course → Prop) (watch : Option Watch) (d : ServiceDef) (pid : Int) :
    Steady surroundings asked (Started φ watch d pid) where
  moves op m e e' moved started := by
    refine ⟨tried_moves moved started.tried,fun name own => ?_⟩
    rw [(moves_trial moved).2.1] at own
    exact started.own name own
  replies op m e r e' quiet replied started :=
    ⟨(tried_steady φ watch (some pid)).replies op m e r e' quiet replied started.tried,
      fun name own => started.own name (quiet_own quiet replied own)⟩
  holds op m e mild started := (tried_steady φ watch (some pid)).holds op m e mild started.tried

theorem starting_started (c : Course) {name other : String} (member : other ∈ c.started) :
    other ∈ (c.starting name).started := by
  simp only [Course.starting]
  split
  · exact .tail _ member
  · exact member

theorem starting_standing {c : Course} (name : String) (standing : c.started ≠ []) :
    (c.starting name).started ≠ [] := by
  obtain ⟨other,member⟩ := List.exists_mem_of_ne_nil _ standing
  exact List.ne_nil_of_mem (starting_started c member)

/-- The course is as before, or has one more service the reload started. -/
theorem spawned_started {d : ServiceDef} {command : Command} (tried : Tried φ watch none m e)
    (bears : ∀ c, φ c → φ (c.starting d.name))
    (replied : surroundings.replies (.spawn (.service d.name d.critical) command) m e (.ok pid) e') :
    Started φ watch d pid m e' := by
  obtain ⟨-,answered,noted⟩ := replies_iff.mp replied
  obtain ⟨fresh,children⟩ := fresh_of_spawn answered
  have absent := fresh_not_failing tried fresh
  obtain ⟨k,g⟩ := e'
  obtain rfl : g = e.2.spawned d.name d.critical pid := noted
  constructor
  · refine { tried with
      course := bears _ tried.course
      past := past_answered tried.past answered rfl
      standing := fun broken => starting_standing d.name (tried.standing broken)
      known := ?_
      counted := ?_
      pending := ?_ }
    · intro p name own beside
      have other : p ≠ pid := fun same => beside (same ▸ rfl)
      simp only [Trial.spawned,Function.update_of_ne other] at own
      exact tried.known p name own (by simp)
    · intro p member
      have other : p ≠ pid := fun same => absent (same ▸ member)
      obtain ⟨name,own,started⟩ := tried.counted p member
      refine ⟨name,?_,starting_started _ started⟩
      simp only [Trial.spawned,Function.update_of_ne other]
      exact own
    · intro p member
      have other : p ≠ pid := fun same => absent (same ▸ member)
      obtain ⟨child,exit,found,exited⟩ := tried.pending p member
      refine ⟨child,exit,?_,exited⟩
      rw [children]
      exact lookup_insert_iff.mpr (.inr ⟨other,found⟩)
  · intro name own
    simp only [Trial.spawned,Function.update_self] at own
    split at own
    · rename_i critical
      exact ⟨(Option.some.inj own).symm,critical⟩
    · contradiction

theorem refused_tried {d : ServiceDef} {command : Command} {err : String} (tried : Tried φ watch none m e)
    (bears : ∀ c, φ c → φ (c.starting d.name))
    (replied : surroundings.replies (.spawn (.service d.name d.critical) command) m e (.error err) e') :
    Tried φ watch none m e' := by
  obtain ⟨allowed,answered,noted⟩ := replies_iff.mp replied
  have uncounted : (e.2.course.starting d.name).counts (.spawn (.service d.name d.critical) command) m d.name
      e.1.clock = false := by simpa [fair] using allowed
  have timely : (e.2.course.starting d.name).overdue d.name e.1.clock = false :=
    timely_of_past (e := e) tried.past d.name
  have record : e'.2 = { e.2 with course := e.2.course.starting d.name } := by
    rw [noted]
    simp only [trials,Trial.fails,uncounted,timely,Bool.or_false]
  obtain rfl : e' = (e.1,{ e.2 with course := e.2.course.starting d.name }) :=
    Prod.ext (Option.some.inj answered).symm record
  refine { tried with
    course := bears _ tried.course
    standing := fun broken => starting_standing d.name (tried.standing broken)
    counted := fun p member => ?_ }
  obtain ⟨name,own,started⟩ := tried.counted p member
  exact ⟨name,own,starting_started _ started⟩

/-- The rescue shell is nobody's own. -/
theorem rescued_started {d : ServiceDef} {command : Command} (tried : Tried φ watch none m e)
    (replied : surroundings.replies (.spawn .rescue command) m e (.ok pid) e') :
    Started φ watch d pid m e' := by
  obtain ⟨-,answered,noted⟩ := replies_iff.mp replied
  obtain ⟨fresh,children⟩ := fresh_of_spawn answered
  have record : e'.2 = e.2.disown pid := noted
  have disowned : Tried φ watch none m e' := by
    refine tried_disown pid tried answered (.inl rfl) (fresh_not_failing tried fresh) ?_ record
    intro p child other found
    rw [children]
    exact lookup_insert_iff.mpr (.inr ⟨other,found⟩)
  refine ⟨{ disowned with known := fun p name own _ => disowned.known p name own (by simp) },?_⟩
  intro name own
  simp only [record,Trial.disown,Function.update_self] at own
  contradiction

theorem tried_track {d : ServiceDef} {times : List Nat} {t : Nat} (started : Started φ watch d pid m e) :
    Tried φ watch none (withService m pid ⟨d,times,t⟩) e := by
  obtain ⟨tried,own⟩ := started
  refine { tried with known := fun p name owned _ => ?_ }
  by_cases same : p = pid
  · subst same
    obtain ⟨rfl,critical⟩ := own name owned
    exact ⟨_,lookup_insert_iff.mpr (.inl ⟨rfl,rfl⟩),rfl,critical⟩
  · obtain ⟨other,found,named⟩ := tried.known p name owned (by simpa using fun equal => same equal.symm)
    exact ⟨other,lookup_insert_iff.mpr (.inr ⟨same,found⟩),named⟩

theorem start_phases {d : ServiceDef} (times : List Nat) (bears : ∀ c, φ c → φ (c.starting d.name)) :
    StartPhases surroundings asked d times (Tried φ watch none) (Started φ watch d)
      (Tried φ watch none) (Started φ watch fallbackShell) (Tried φ watch none) where
  before_steady := tried_steady φ watch none
  spawned_steady := started_steady φ watch d
  failed_steady := tried_steady φ watch none
  rescue_steady := started_steady φ watch fallbackShell
  child _ _ _ _ _ tried replied := spawned_started tried bears replied
  refused _ _ _ _ _ tried replied := refused_tried tried bears replied
  shell _ _ _ _ _ tried _ replied := rescued_started tried replied
  noShell _ err m e e' tried _ replied := by
    obtain ⟨-,answered,noted⟩ := replies_iff.mp replied
    have same : e'.1 = e.1 := (Option.some.inj answered).symm
    exact tried_same tried answered (by rw [same]; exact fun _ _ found => found) noted
  tracked _ _ _ _ started := tried_track started
  trackedShell _ _ _ _ started := tried_track started
  missed _ _ tried _ := tried

structure Dying (φ : Course → Prop) (watch : Option Watch) (pid : Int) (m : Memory) (e : Kernel × Trial) : Prop where
  tried : Tried φ watch none m e
  disowned : e.2.own pid = none

theorem dying_steady (φ : Course → Prop) (watch : Option Watch) (pid : Int) :
    Steady surroundings asked (Dying φ watch pid) where
  moves op m e e' moved dying := by
    refine ⟨tried_moves moved dying.tried,?_⟩
    rw [(moves_trial moved).2.1]
    exact dying.disowned
  replies op m e r e' quiet replied dying := by
    refine ⟨(tried_steady φ watch none).replies op m e r e' quiet replied dying.tried,?_⟩
    refine Option.eq_none_iff_forall_ne_some.mpr fun name own => ?_
    exact absurd (quiet_own quiet replied own) (by simp [dying.disowned])
  holds op m e mild dying := (tried_steady φ watch none).holds op m e mild dying.tried

/-- A stop disowns the service before its exit can count. -/
theorem stop_phases (name : String) : StopPhases surroundings asked pid name
    (Tried φ watch (some pid)) (Dying φ watch pid) (Tried φ watch none) (Tried φ watch none) where
  before_steady := tried_steady φ watch (some pid)
  dying_steady := dying_steady φ watch pid
  gone_steady := tried_steady φ watch none
  may_terminate _ _ tried := tried.kept
  may_kill _ _ dying := dying.tried.kept
  terminated m e e' tried replied := by
    obtain ⟨allowed,answered,noted⟩ := replies_iff.mp replied
    have same : e'.1 = e.1 := (Option.some.inj answered).symm
    have absent : pid ∉ e.2.failing := by simpa [fair] using allowed
    refine ⟨?_,?_⟩
    · exact tried_disown pid tried answered (.inr rfl) absent (by rw [same]; exact fun _ _ _ found => found) noted
    · rw [noted]
      exact Function.update_self _ _ _
  reaped p ending m e e' dying replied := by
    obtain ⟨-,answered,noted⟩ := replies_iff.mp replied
    have absent := absent_of_unowned dying.tried dying.disowned
    have waited : e.1.waited (.only pid) true (.ok (.ended p ending)) = some e'.1 := answered
    rcases Kernel.waited_only waited with ⟨-,-,unopened⟩ | ⟨reaped,told⟩
    · contradiction
    · obtain ⟨told,same⟩ : ∃ told, (.ok (.ended p ending) : Except Errno WaitStatus) = .ok (.ended pid told) :=
        told.resolve_right (by simp)
      cases same
      exact tried_reaped dying.tried answered reaped absent noted
  remains status m e e' dying unended replied := by
    have unopened : openedBy (.ok status) = none := by
      cases status <;> first | rfl | exact absurd rfl (unended _ _)
    refine ⟨tried_unopened dying.tried unopened replied,?_⟩
    obtain ⟨-,-,noted⟩ := replies_iff.mp replied
    rw [noted]
    cases status <;> first | exact dying.disowned | exact absurd rfl (unended _ _)
  lost err m e e' dying replied := tried_unopened dying.tried rfl replied
  killed m e e' dying replied := (tried_steady φ watch none).replies _ _ _ _ _ rfl replied dying.tried
  swept _ _ _ tried replied := (tried_steady φ watch none).replies _ _ _ _ _ rfl replied tried

theorem stopping (φ : Course → Prop) (watch : Option Watch) :
    Stopping surroundings asked (Tried φ watch none) fun pid => Tried φ watch (some pid) where
  steady := tried_steady φ watch none
  halfway_steady pid := tried_steady φ watch (some pid)
  visits := visits
  struck pid _ m e tried _ := by
    refine { tried with known := fun p name own beside => ?_ }
    obtain ⟨sup,found,named⟩ := tried.known p name own (by simp)
    exact ⟨sup,lookup_erase_iff.mpr ⟨fun same => beside (same ▸ rfl),found⟩,named⟩
  stops pid name _ _ tried := wp_stopOne (stop_phases name) tried

end Services

section Reload
variable {failed : Bool} {φ : Option Watch → Course → Prop} {watch : Option Watch} {m : Memory} {e e' : Kernel × Trial}

structure Settled (failed : Bool) (watch : Option Watch) (c : Course) : Prop where
  applying : c.applying = false
  failed : c.failed = failed
  watched : ∀ name ∈ c.started, ∃ w, watch = some w ∧ c.deadline = some w.deadline ∧
    w.touches name = true

structure Applying (names : List String) (c : Course) : Prop where
  applying : c.applying = true
  failed : c.failed = false
  named : ∀ name ∈ c.started, name ∈ names

theorem settled_starting {c : Course} (name : String) (settled : Settled failed watch c) :
    Settled failed watch (c.starting name) := by
  have same : c.starting name = c := by
    unfold Course.starting
    rw [if_neg (by simp [settled.applying])]
  rw [same]
  exact settled

theorem settled_upkeep (failed : Bool) (watch later : Option Watch) : Upkeep surroundings asked
    (Tried (Settled failed watch) later none) fun pid => Tried (Settled failed watch) later (some pid) where
  toStopping := stopping (Settled failed watch) later
  starts d times _ _ tried := wp_spawnWithHistory (start_phases times fun _ => settled_starting d.name) tried

theorem applying_starting {names : List String} {name : String} {c : Course} (member : name ∈ names)
    (applying : Applying names c) : Applying names (c.starting name) := by
  refine ⟨applying.applying,applying.failed,fun n started => ?_⟩
  simp only [Course.starting,applying.applying,if_true] at started
  rcases List.mem_cons.mp started with rfl | before
  · exact member
  · exact applying.named n before

theorem growth (watch : Option Watch) : Growth surroundings asked
    (fun names => Tried (Applying names) watch none)
    fun names pid => Tried (Applying names) watch (some pid) where
  stopping names := stopping (Applying names) watch
  wider names name m e tried := by
    obtain ⟨applying,failed,named⟩ := tried.course
    exact { tried with course := ⟨applying,failed,fun n started => List.mem_append_left _ (named n started)⟩ }
  starts names d m e tried := by
    refine wp_spawnWithHistory (start_phases [] fun c applying => ?_) tried
    exact applying_starting (List.mem_append_right _ (List.mem_singleton_self _)) applying

theorem keeps_of_plain {α : Type} {p : Code α} (plain : p.Uses Eq Op.Plain) : p.Uses Keeps Idle :=
  uses_mono plain (fun _ _ same => by rw [same]; exact ⟨rfl,rfl⟩) fun _ => idle_of_plain

abbrev Trying (φ : Option Watch → Course → Prop) (m : Memory) (e : Kernel × Trial) : Prop :=
  Tried (φ m.watch) m.watch none m e

theorem trying_of_tried (tried : Tried (φ watch) watch none m e) : Trying φ m e := by
  have watched := tried.watched
  subst watched
  exact tried

theorem trying_steady (φ : Option Watch → Course → Prop) : Steady surroundings asked (Trying φ) where
  moves _ _ _ _ moved tried := tried_moves moved tried
  replies op m e r e' := (tried_steady (φ m.watch) m.watch none).replies op m e r e'
  holds op m e := (tried_steady (φ m.watch) m.watch none).holds op m e

theorem wp_trying {α : Type} {p : Code α} (keeps : p.Uses Keeps Idle) (trying : Trying φ m e) :
    p.wp surroundings asked (fun _ => Trying φ) m e :=
  wp_mono (wp_frame (tried_frame _ _ none) keeps trying) fun _ _ _ tried => trying_of_tried tried

abbrev Serving : Memory → Kernel × Trial → Prop := Trying (Settled false)

abbrev Touching (names : List String) : Memory → Kernel × Trial → Prop := Trying fun _ => Applying names

def Handled (m : Memory) (e : Kernel × Trial) : Prop :=
  Serving m e ∨ ∃ w, m.watch = some w ∧ Touching w.touched m e

theorem unbroken_of_idle {later : Option Watch} (tried : Tried (Settled false watch) later none m e)
    (idle : e.2.failing = []) : e.2.broken = false := by
  rw [← Bool.not_eq_true]
  intro broken
  rcases tried.sound broken with failed | failing
  · rw [tried.course.failed] at failed
    contradiction
  · exact failing idle

/-- The window of the reload before is over, and it has not been broken. -/
theorem reloading_touching (serving : Serving m e) (replied : surroundings.replies (.log .reloadingConfig) m e () e') :
    Touching [] m e' := by
  obtain ⟨allowed,answered,noted⟩ := replies_iff.mp replied
  obtain rfl : e' = (e.1,e.2.reloading) := Prod.ext (Option.some.inj answered).symm noted
  simp only [fair,Bool.and_eq_true,List.isEmpty_iff] at allowed
  have unbroken := unbroken_of_idle serving allowed.1
  refine { serving with
    course := ⟨rfl,serving.course.failed,fun _ started => absurd started List.not_mem_nil⟩
    kept := by simp [Trial.reloading,serving.kept,unbroken]
    past := fun earlier member => ?_
    sound := fun broken => absurd broken (by simp [Trial.reloading])
    standing := fun broken => absurd broken (by simp [Trial.reloading])
    counted := fun _ member => absurd member List.not_mem_nil
    pending := fun _ member => absurd member List.not_mem_nil }
  rcases List.mem_append.mp member with last | before
  · simp only [Option.mem_toList,Option.map_eq_some_iff] at last
    obtain ⟨deadline,dated,rfl⟩ := last
    have lapsed := allowed.2
    simpa [Course.lapsed,dated] using lapsed
  · exact serving.past earlier before

theorem reload_phases : ReloadPhases surroundings asked Serving (Touching []) (fun _ => Touching [])
    (fun _ => Touching []) (fun _ => Touching []) (fun _ => Touching) (fun _ m e => ∃ w, m.watch = some w ∧
      Touching w.touched m e) Handled where
  unread _ _ := trivial
  takes _ _ serving := wp_trying (uses_perform (by simp [Idle])) serving
  skips _ _ serving := .inl serving
  logs _ _ serving := wp_steady_perform (trying_steady _) serving (fun _ _ serving => serving.kept)
    fun _ _ _ serving replied => reloading_touching serving replied
  loads _ _ held := wp_steady (trying_steady _) loadConfig_plain held
  levels _ _ _ held := wp_steady (trying_steady _) (plain_call rfl) held
  levelled_calm _ := calmly_of_steady (trying_steady _)
  times _ _ _ held := wp_mono (wp_steady (trying_steady _) (plain_call rfl) held) fun _ _ _ held =>
    tried_memory held rfl rfl
  reconciles _ m _ held := wp_mono (wp_reloadServices_grows (growth m.watch) _ held) fun _ _ _ tried =>
    trying_of_tried tried
  reconciled_calm _ _ := calmly_of_steady (trying_steady _)
  dates _ _ _ _ held := wp_mono (wp_steady (trying_steady _) (plain_call rfl) held) fun _ _ _ held =>
    ⟨_,rfl,{ held with watched := rfl }⟩
  publishes _ m _ held := by
    obtain ⟨w,watching,held⟩ := held
    have steady := steady_memory_and (trying_steady fun _ => Applying w.touched) m
    refine wp_mono (wp_steady steady (publishTargets_plain _ _) ⟨held,rfl⟩) ?_
    rintro _ m' e ⟨touching,rfl⟩
    exact .inr ⟨w,watching,touching⟩

end Reload

section Isolate
variable {m : Memory} {e e' : Kernel × Trial}

/-- From here on the watch of the reload is known. -/
theorem watching_settled {r : Option String} (handled : Handled m e)
    (replied : surroundings.replies .takePendingIsolate m e r e') : Serving m e' := by
  obtain ⟨-,answered,noted⟩ := replies_iff.mp replied
  have taken := answered
  simp only [Kernel.answer,Option.ite_none_right_eq_some,Option.some.injEq] at taken
  have children : ∀ pid child, e.1.children.lookup pid = some child →
      e'.1.children.lookup pid = some child := by
    rw [← taken.2]
    exact fun _ _ found => found
  have record : e'.2 = e.2.watching m := noted
  rcases handled with serving | ⟨w,watching,tried⟩
  · refine tried_same serving answered children ?_
    rw [record]
    simp [Trial.watching,serving.course.applying]
  · have known : e'.2 = { e.2 with course := { e.2.course with applying := false, deadline := some w.deadline } } := by
      rw [record,Trial.watching,if_pos tried.course.applying,watching]
      rfl
    obtain ⟨k,g⟩ := e'
    obtain rfl : g = { e.2 with course := { e.2.course with applying := false, deadline := some w.deadline } } := known
    refine { tried with
      course := ⟨rfl,tried.course.failed,fun name started => ⟨w,watching,rfl,?_⟩⟩
      past := past_answered tried.past answered rfl
      pending := fun pid member => ?_ }
    · exact List.any_eq_true.mpr ⟨name,tried.course.named name started,beq_self_eq_true name⟩
    · obtain ⟨child,exit,found,exited⟩ := tried.pending pid member
      exact ⟨child,exit,children pid child found,exited⟩

theorem isolate_phases : IsolatePhases surroundings asked Handled (fun _ => Serving) (fun _ => Serving) Serving where
  unread _ _ := trivial
  takes m e handled := by
    refine wp_perform (P := Handled m) handled ?_ ?_ ?_
    · rintro e e' moved (serving | ⟨w,watching,tried⟩)
      · exact .inl (tried_moves moved serving)
      · exact .inr ⟨w,watching,tried_moves moved tried⟩
    · rintro e (serving | ⟨w,watching,tried⟩)
      · exact serving.kept
      · exact tried.kept
    · intro e pending e' handled replied
      have serving := watching_settled handled replied
      cases pending <;> exact serving
  refuses _ _ _ serving := wp_steady (trying_steady _) (plain_call rfl) serving
  named_calm _ := calmly_of_steady (trying_steady _)
  reconciles _ m _ serving _ := wp_mono (wp_reloadServices_keeps (settled_upkeep false m.watch m.watch) _ serving)
    fun _ _ _ tried => trying_of_tried tried
  publishes _ _ _ serving :=
    wp_steady (trying_steady _) (publishTargets_plain _ _) (tried_memory serving rfl rfl)

end Isolate

section Verdict
variable {failed : Bool} {watch : Option Watch} {m : Memory} {e e' : Kernel × Trial} {w : Watch}

def Judging (failedName : Option String) (m : Memory) (e : Kernel × Trial) : Prop :=
  ∃ failed, Trying (Settled failed) m e ∧ (failed = true →
    ∃ w name, m.watch = some w ∧ failedName = some name ∧ w.touches name = true)

theorem judging_serving (failedName : Option String) (serving : Serving m e) : Judging failedName m e :=
  ⟨false,serving,by simp⟩

/-- With nothing the watch answers for, nothing has been reported. -/
theorem serving_of_judging {failedName : Option String} (judging : Judging failedName m e)
    (spared : ∀ w name, m.watch = some w → failedName = some name → w.touches name = false) : Serving m e := by
  obtain ⟨failed,tried,blamed⟩ := judging
  cases failed with
  | false => exact tried
  | true =>
    obtain ⟨w,name,watching,named,touched⟩ := blamed rfl
    simp [spared w name watching named] at touched

def Over (m : Memory) (e : Kernel × Trial) : Prop := ∃ failed, Tried (Settled failed none) none none m e

theorem over_steady : Steady surroundings asked Over where
  moves _ _ _ _ moved := Exists.imp fun _ => tried_moves moved
  replies op m e r e' quiet replied :=
    Exists.imp fun failed => (tried_steady (Settled failed none) none none).replies op m e r e' quiet replied
  holds op m e mild ended := by
    obtain ⟨failed,tried⟩ := ended
    exact (tried_steady (Settled failed none) none none).holds op m e mild tried

theorem log_answer {line : Line} (replied : surroundings.replies (.log line) m e () e') :
    e'.1 = e.1 ∧ e'.2 = trials.reply (.log line) m e.1 () e.2 := by
  obtain ⟨-,answered,noted⟩ := replies_iff.mp replied
  exact ⟨(Option.some.inj answered).symm,noted⟩

/-- A verdict ends the trial, whatever its exits. -/
theorem resolved_tried {later : Option Watch} (tried : Tried (Settled failed watch) later none m e)
    (same : e'.1 = e.1) (noted : e'.2 = e.2.resolved) : Tried (Settled failed none) later none m e' := by
  obtain rfl : e' = (e.1,e.2.resolved) := Prod.ext same noted
  exact { tried with
    course := ⟨tried.course.applying,tried.course.failed,fun _ started => absurd started List.not_mem_nil⟩
    sound := fun broken => absurd broken (by simp [Trial.resolved])
    standing := fun broken => absurd broken (by simp [Trial.resolved])
    counted := fun _ member => absurd member List.not_mem_nil
    pending := fun _ member => absurd member List.not_mem_nil }

/-- The report of the failure is answered once the rollback is done. -/
theorem rolledBack_over (ended : Over m e) (replied : surroundings.replies (.log .rolledBack) m e () e') :
    Tried (Settled false none) none none m e' := by
  obtain ⟨failed,tried⟩ := ended
  obtain ⟨same,noted⟩ := log_answer replied
  obtain rfl : e' = (e.1,{ e.2 with course := { e.2.course with failed := false } }) := Prod.ext same noted
  have unstarted : e.2.course.started = [] := by
    refine List.eq_nil_iff_forall_not_mem.mpr fun name started => ?_
    obtain ⟨w,absent,-⟩ := tried.course.watched name started
    contradiction
  have unbroken : e.2.broken ≠ true := fun broken => tried.standing broken unstarted
  exact { tried with
    course := ⟨tried.course.applying,rfl,tried.course.watched⟩
    sound := fun broken => absurd broken unbroken }

structure Cleared (w : Watch) (m : Memory) (e : Kernel × Trial) : Prop where
  tried : Tried (Settled false (some w)) none none m e
  failing : e.2.failing = []
  late : w.deadline ≤ e.1.clock

theorem cleared_moves {op : Op} (moved : surroundings.moves op m e e') (cleared : Cleared w m e) :
    Cleared w m e' := by
  obtain ⟨-,-,failing⟩ := moves_trial moved
  refine ⟨tried_moves moved cleared.tried,?_,Nat.le_trans cleared.late (moves_clock moved)⟩
  rcases failing with ⟨same,-⟩ | ⟨pid,name,own,counts,-⟩
  · exact same.trans cleared.failing
  · exfalso
    obtain ⟨w',same,deadline,-⟩ := cleared.tried.course.watched name (started_of_counts counts)
    cases same
    obtain ⟨-,timely⟩ := Bool.and_eq_true_iff.mp counts
    have at_ : e.2.course.deadlineAt op m = some w.deadline := by
      unfold Course.deadlineAt
      split <;> simp [cleared.tried.course.applying,deadline]
    rw [at_,Option.all_some,decide_eq_true_eq] at timely
    exact absurd cleared.late (Nat.not_le.mpr timely)

/-- The reading of the clock that ends the watch finds nothing left to reap. -/
theorem now_cleared {t : Nat} (tried : Tried (Settled false (some w)) none none m e)
    (replied : surroundings.replies .now m e t e') (late : ¬ t < w.deadline) : Cleared w m e' := by
  obtain ⟨allowed,answered,noted⟩ := replies_iff.mp replied
  simp only [Kernel.answer,Option.ite_none_right_eq_some,Option.some.injEq] at answered
  obtain ⟨rfl,same⟩ := answered
  have after : e' = e := Prod.ext same.symm noted
  subst after
  refine ⟨tried,?_,Nat.not_lt.mp late⟩
  refine List.eq_nil_iff_forall_not_mem.mpr fun pid member => ?_
  obtain ⟨name,-,started⟩ := tried.counted pid member
  obtain ⟨w',equal,deadline,-⟩ := tried.course.watched name started
  cases equal
  simp only [fair,tried.watched,Option.isNone_none,deadline,Option.any_some,Bool.true_and,
    Bool.or_eq_true,Bool.not_eq_true',decide_eq_false_iff_not,List.isEmpty_iff] at allowed
  rcases allowed with early | none_
  · exact early (Nat.not_lt.mp late)
  · rw [none_] at member
    exact absurd member List.not_mem_nil

theorem wp_keeping (cleared : Cleared w m e) : (log .keeping).wp surroundings asked
    (fun _ m e => Serving { m with watch := none } e) m e := by
  refine wp_perform cleared (fun e e' moved => cleared_moves moved) ?_ ?_
  · exact fun e cleared => ⟨cleared.tried.kept,unbroken_of_idle cleared.tried cleared.failing⟩
  · intro e _ e' cleared replied
    obtain ⟨same,noted⟩ := log_answer replied
    exact { resolved_tried cleared.tried same noted with watched := rfl }

theorem verdict_phases : VerdictPhases surroundings asked Judging (fun _ => Over) (fun _ => Over) (fun _ => Over)
    Serving where
  unread _ _ := trivial
  unwatched _ _ _ judging unwatched := serving_of_judging judging (by simp [unwatched])
  rolls name w m e judging _ _ := by
    obtain ⟨failed,tried,-⟩ := judging
    have taken : Tried (Settled failed m.watch) none none { m with watch := none } e := { tried with watched := rfl }
    refine wp_steady_perform (tried_steady _ _ _) taken (fun _ _ tried => tried.kept) ?_
    intro e _ e' tried replied
    obtain ⟨same,noted⟩ := log_answer replied
    exact ⟨failed,resolved_tried tried same noted⟩
  reconciles _ m _ ended := by
    obtain ⟨failed,tried⟩ := ended
    exact wp_mono (wp_reloadServices_keeps (settled_upkeep failed none none) _ tried) fun _ _ _ tried => ⟨failed,tried⟩
  levels _ _ _ ended := wp_steady over_steady (plain_call rfl) ended
  restored_calm _ := calmly_of_steady over_steady
  ends _ _ _ ended := wp_steady_perform over_steady ended (fun _ _ ended => ended.choose_spec.kept)
    fun _ _ _ ended replied => { rolledBack_over ended replied with watched := rfl }
  looks failedName w m e judging watching spared := by
    have serving : Serving m e := serving_of_judging judging fun w' name there named => by
      obtain rfl : w = w' := Option.some.inj (watching.symm.trans there)
      subst named
      rw [← Bool.not_eq_true]
      intro touched
      simp [Option.filter,touched] at spared
    have taken : Tried (Settled false (some w)) none none { m with watch := none } e :=
      { serving with watched := rfl, course := watching ▸ serving.course }
    refine wp_steady_perform (tried_steady _ _ _) taken (fun _ _ tried => tried.kept) ?_
    intro e t e' tried replied
    split
    · exact { (tried_steady _ _ _).replies _ _ _ _ _ rfl replied tried with watched := rfl }
    · rename_i late
      exact wp_keeping (now_cleared tried replied late)

end Verdict

section Exit
variable {failed : Bool} {watch : Option Watch} {still : Prop} {pid : Int} {m : Memory}
  {e e' : Kernel × Trial}

theorem idle_record {op : Op} {r : op.Ans} (idle : Idle op) (replied : surroundings.replies op m e r e') :
    e'.2.course = e.2.course ∧ e'.2.failing = e.2.failing ∧
      ∀ p, e.2.own p = none → e'.2.own p = none := by
  obtain ⟨-,-,noted⟩ := replies_iff.mp replied
  rw [noted]
  have disowned : ∀ q p, e.2.own p = none → (e.2.disown q).own p = none := by
    intro q p before
    simp only [Trial.disown,Function.update_apply]
    split
    · rfl
    · exact before
  cases op with
  | swap flag => cases flag <;> first | exact ⟨rfl,rfl,fun _ before => before⟩ | exact absurd rfl idle
  | takeApp pid => exact ⟨rfl,rfl,fun _ before => before⟩
  | spawn origin command =>
    cases origin with
    | timer name =>
      cases r with
      | ok q => exact ⟨rfl,rfl,disowned q⟩
      | error err => exact ⟨rfl,rfl,fun _ before => before⟩
    | _ => contradiction
  | kill q sig =>
    cases sig with
    | sigterm => exact ⟨rfl,rfl,disowned q⟩
    | _ => exact ⟨rfl,rfl,fun _ before => before⟩
  | log line => cases line <;> first | exact ⟨rfl,rfl,fun _ before => before⟩ | contradiction
  | takePendingIsolate => contradiction
  | waitpid target nohang => contradiction
  | _ => exact ⟨rfl,rfl,fun _ before => before⟩

/-- After the loop has reaped a child, which is nobody's own any more: if a doomed run stands
still, no further exit comes to count. -/
structure Calm (failed : Bool) (watch : Option Watch) (still : Prop) (pid : Int) (m : Memory)
    (e : Kernel × Trial) : Prop where
  tried : Tried (Settled failed watch) watch none m e
  disowned : e.2.own pid = none
  still : still → e.2.course.doomed = true ∧ e.2.failing = []

theorem stilled_moves {op : Op} (moved : surroundings.moves op m e e')
    (stilled : e.2.course.doomed = true ∧ e.2.failing = []) :
    e'.2.course.doomed = true ∧ e'.2.failing = [] := by
  obtain ⟨course,-,failing⟩ := moves_trial moved
  refine ⟨by rw [course]; exact stilled.1,?_⟩
  rcases failing with ⟨same,-⟩ | ⟨q,name,-,-,undoomed,-⟩
  · exact same.trans stilled.2
  · rw [stilled.1] at undoomed
    contradiction

theorem calm_moves {op : Op} (moved : surroundings.moves op m e e') (calm : Calm failed watch still pid m e) :
    Calm failed watch still pid m e' := by
  obtain ⟨-,own,-⟩ := moves_trial moved
  refine ⟨tried_moves moved calm.tried,?_,fun stands => stilled_moves moved (calm.still stands)⟩
  rw [own]
  exact calm.disowned

theorem calm_frame {β : Type} (failed : Bool) (watch : Option Watch) (still : Prop) (pid : Int)
    (part : Memory → β) (x : β) :
    surroundings.Frame asked (fun m m' => Keeps m m' ∧ part m' = part m) Idle
      fun m e => Calm failed watch still pid m e ∧ part m = x where
  updates _ _ _ keeps held :=
    ⟨⟨tried_memory held.1.tried keeps.1.1 keeps.1.2,held.1.disowned,held.1.still⟩,keeps.2.trans held.2⟩
  moves _ _ _ _ _ moved held := ⟨calm_moves moved held.1,held.2⟩
  replies op m e r e' idle replied held := by
    obtain ⟨calm,same⟩ := held
    obtain ⟨course,failing,own⟩ := idle_record idle replied
    refine ⟨⟨tried_idle idle replied calm.tried,own pid calm.disowned,?_⟩,same⟩
    rw [course,failing]
    exact calm.still
  holds _ _ _ idle held := asked_idle idle held.1.tried.kept

def Guilty (services : Services) (watch : Option Watch) (pid : Int) : Prop :=
  ∃ sup w, services.lookup pid = some sup ∧ sup.definition.critical = true ∧ watch = some w ∧
    w.touches sup.definition.name = true

def Unpending (timers : Option Timers.State) (pid : Int) : Prop :=
  ∀ s, timers = some s → s.pending.lookup pid = none

structure Opened (failed : Bool) (pid : Int) (m : Memory) (e : Kernel × Trial) : Prop where
  calm : Calm failed m.watch (failed = false ∧ untouched m pid = true) pid m e
  guilty : failed = true → Guilty m.services m.watch pid

/-- What was still to be reaped has been, or is still there. -/
theorem opened_tried {nohang : Bool} {ending : Ending} (serving : Serving m e)
    (answered : Kernel.answer (.waitpid .any nohang) m e.1 (.ok (.ended pid ending)) = some e'.1)
    (noted : e'.2 = e.2.opened m pid) :
    Tried (Settled (e.2.failing.contains pid) m.watch) m.watch none m e' := by
  obtain ⟨k,g⟩ := e'
  obtain rfl : g = e.2.opened m pid := noted
  have left : ∀ q ∈ (e.2.opened m pid).failing, q ∈ e.2.failing ∧ q ≠ pid := by
    intro q member
    simpa [Trial.opened,Trial.reaped] using member
  refine { serving with
    course := ⟨serving.course.applying,by simp [Trial.opened,serving.course.failed],serving.course.watched⟩
    past := past_answered serving.past answered rfl
    sound := fun broken => ?_
    known := fun q name own _ => ?_
    counted := fun q member => ?_
    pending := fun q member => ?_ }
  · have failing := (serving.sound broken).resolve_left (by simp [serving.course.failed])
    obtain ⟨q,member⟩ := List.exists_mem_of_ne_nil _ failing
    by_cases same : q = pid
    · exact .inl (by simp [Trial.opened,← same,member])
    · exact .inr (List.ne_nil_of_mem (List.mem_filter.mpr ⟨member,bne_iff_ne.mpr same⟩))
  · simp only [Trial.opened,Trial.reaped,Trial.disown,Function.update_apply] at own
    split at own
    · contradiction
    · exact serving.known q name own (by simp)
  · obtain ⟨before,other⟩ := left q member
    simp only [Trial.opened,Trial.reaped,Trial.disown,Function.update_of_ne other]
    exact serving.counted q before
  · obtain ⟨before,other⟩ := left q member
    obtain ⟨child,exit,found,exited⟩ := serving.pending q before
    have waited : e.1.waited .any nohang (.ok (.ended pid ending)) = some k := answered
    rcases Kernel.waited_children waited with ⟨-,-,unopened⟩ | ⟨p,opened,reaped,-⟩ | ⟨untold,-⟩
    · contradiction
    · cases opened
      rw [reaped]
      exact ⟨child,exit,lookup_erase_iff.mpr ⟨other,found⟩,exited⟩
    · contradiction

theorem opened_reaped {nohang : Bool} {ending : Ending} (serving : Serving m e)
    (replied : surroundings.replies (.waitpid .any nohang) m e (.ok (.ended pid ending)) e') :
    ∃ failed, Opened failed pid m e' ∧ (failed = true → Unpending m.timers pid) := by
  obtain ⟨allowed,answered,noted⟩ := replies_iff.mp replied
  have record : e'.2 = e.2.opened m pid := noted
  simp only [fair,Bool.and_eq_true,Bool.or_eq_true,Bool.not_eq_true',List.isEmpty_iff] at allowed
  obtain ⟨apart,unpending⟩ := allowed
  refine ⟨e.2.failing.contains pid,⟨⟨opened_tried serving answered record,?_,?_⟩,fun hard => ?_⟩,fun hard => ?_⟩
  · rw [record]
    exact Function.update_self _ _ _
  · rintro ⟨-,stands⟩
    rw [record]
    refine ⟨by simp [Trial.opened,stands],?_⟩
    have none_ := apart.resolve_left (by simp [stands])
    simp [Trial.opened,Trial.reaped,none_]
  · have member : pid ∈ e.2.failing := by simpa using hard
    obtain ⟨name,own,started⟩ := serving.counted pid member
    obtain ⟨sup,found,named,critical⟩ := serving.known pid name own (by simp)
    obtain ⟨w,watching,-,touched⟩ := serving.course.watched name started
    exact ⟨sup,w,found,critical,watching,named ▸ touched⟩
  · intro s present
    have free := unpending.resolve_left (by simp [show pid ∈ e.2.failing by simpa using hard])
    rw [present,Option.all_some,Option.isNone_iff_eq_none] at free
    exact free

theorem opened_keeps {m' : Memory} (opened : Opened failed pid m e)
    (calm : Calm failed m.watch (failed = false ∧ untouched m pid = true) pid m' e')
    (services : m'.services = m.services) : Opened failed pid m' e' := by
  have watched : m'.watch = m.watch := calm.tried.watched
  have same : untouched m' pid = untouched m pid := by rw [untouched,untouched,services,watched]
  refine ⟨?_,?_⟩
  · rw [watched,same]
    exact calm
  · rw [services,watched]
    exact opened.guilty

theorem killExpired_idle : killExpired.Uses Eq Idle := by
  have plain : expiredWatchdogs.Uses Eq Idle :=
    uses_mono expiredWatchdogs_plain (fun _ _ same => same) fun _ => idle_of_plain
  refine uses_bind plain fun pids => uses_each fun pid _ => ?_
  exact uses_bind (uses_perform rfl) fun _ => uses_perform rfl

theorem wp_killExpired (opened : Opened failed pid m e) : killExpired.wp surroundings asked
    (fun _ m' e' => Opened failed pid m' e' ∧ m'.timers = m.timers) m e := by
  refine wp_mono (wp_frame (calm_frame failed m.watch _ pid (fun m => (m.services,m.timers)) _) ?_
    ⟨opened.calm,rfl⟩) ?_
  · exact uses_mono killExpired_idle (fun m m' same => by rw [same]; exact ⟨⟨rfl,rfl⟩,rfl⟩)
      fun _ idle => idle
  · rintro _ m' e' ⟨calm,same⟩
    obtain ⟨services,timers⟩ := Prod.mk.injEq .. ▸ same
    exact ⟨opened_keeps opened calm services,timers⟩

theorem opened_timers {timers : Option Timers.State} (opened : Opened failed pid m e) :
    Opened failed pid { m with timers } e :=
  opened_keeps opened
    ⟨tried_memory opened.calm.tried rfl rfl,opened.calm.disowned,opened.calm.still⟩ rfl

theorem wp_opened_call {β : Type} {op : Op} {f : op.Ans → Code β}
    {Q : β → Memory → Kernel × Trial → Prop} (opened : Opened failed pid m e) (idle : Idle op)
    (rest : ∀ e r e', surroundings.replies op m e r e' → Opened failed pid m e →
      Opened failed pid m e' → (f r).wp surroundings asked Q m e') :
    (call op >>= f).wp surroundings asked Q m e := by
  have frame := calm_frame failed m.watch (failed = false ∧ untouched m pid = true) pid
    (fun m => m.services) m.services
  refine (wp_bind _ _ _ _ _).mpr (wp_perform (P := Opened failed pid m) opened ?_ ?_ ?_)
  · exact fun e e' moved opened => opened_keeps opened (calm_moves moved opened.calm) rfl
  · exact fun e opened => frame.holds (some op) m e (by rintro o ⟨⟩; exact idle) ⟨opened.calm,rfl⟩
  · intro e r e' opened replied
    exact rest e r e' replied opened
      (opened_keeps opened (frame.replies op m e r e' idle replied ⟨opened.calm,rfl⟩).1 rfl)

/-- Neither the timers nor the registry claim the exit of a service that failed in its window. -/
theorem wp_offer_guilty (opened : Opened true pid m e) (unpending : Unpending m.timers pid) :
    (offer pid).wp surroundings asked (fun claimed m e => claimed = false ∧ Opened true pid m e) m e := by
  refine wp_then (R := fun claimed m e => claimed = false ∧ Opened true pid m e) ?_ ?_
  · refine wp_then (R := fun _ m e => Opened true pid m e ∧ Unpending m.timers pid) ?_ fun _ m e made => ?_
    · refine wp_bind_read trivial ?_
      cases timers : m.timers with
      | some s =>
        rw [timers] at unpending
        exact ⟨opened,by rw [timers]; exact unpending⟩
      | none =>
        refine wp_opened_call opened rfl fun _ boot e _ _ opened => ?_
        refine ⟨trivial,opened_timers opened,?_⟩
        rintro _ ⟨⟩
        rfl
    · obtain ⟨opened,unpending⟩ := made
      refine wp_bind_exchange trivial ?_
      have absent : (m.timers.bind fun s => s.pending.lookup pid) = none := by
        refine Option.bind_eq_none_iff.mpr fun s present => unpending s present
      dsimp only
      rw [absent]
      exact ⟨rfl,opened_timers opened⟩
  · rintro claimed m e ⟨rfl,opened⟩
    refine wp_opened_call opened trivial fun e info e' replied before opened => ?_
    obtain ⟨allowed,-,-⟩ := replies_iff.mp replied
    cases info with
    | none => exact ⟨rfl,opened⟩
    | some info => simp [fair,before.calm.tried.course.failed] at allowed

theorem wp_offer (opened : Opened failed pid m e) (unpending : failed = true → Unpending m.timers pid) :
    (offer pid).wp surroundings asked
      (fun claimed m e => (failed = true → claimed = false) ∧ Opened failed pid m e) m e := by
  cases failed with
  | true =>
    refine wp_mono (wp_offer_guilty opened (unpending rfl)) fun claimed m e offered => ?_
    exact ⟨fun _ => offered.1,offered.2⟩
  | false =>
    refine wp_mono (wp_frame (calm_frame false m.watch _ pid (fun m => m.services) _) ?_ ⟨opened.calm,rfl⟩) ?_
    · refine uses_mono (offer_offers pid) (fun m m' written => ?_) fun _ offered => idle_of_offers offered.offers
      unfold OnlyTimers at written
      rw [written]
      exact ⟨⟨rfl,rfl⟩,rfl⟩
    · exact fun claimed m' e' held => ⟨by simp,opened_keeps opened held.1 held.2⟩

structure Judged (outcome : Outcome) (m : Memory) (e : Kernel × Trial) : Prop where
  judging : Judging outcome.failedName m e
  halted : ∀ name, outcome = .halt name → (m.watch.any fun w => w.touches name) = false →
    e.2.course.doomed = true ∧ e.2.failing = []

theorem judged_serving (serving : Serving m e) : Judged .continue m e :=
  ⟨judging_serving none serving,by simp⟩

theorem judged_givingUp {name : String} {times : Nat} (serving : Serving m e)
    (replied : surroundings.replies (.log (.givingUp name times)) m e () e') : Judged (.gaveUp name) m e' := by
  obtain ⟨same,noted⟩ := log_answer replied
  obtain rfl : e' = (e.1,e.2.givesUp (.log (.givingUp name times)) m e.1.clock name) := Prod.ext same noted
  have timely := timely_of_past serving.past name
  generalize counted : e.2.course.counts (.log (.givingUp name times)) m name e.1.clock = counts
  refine ⟨⟨counts,{ serving with course := ?_, kept := ?_, sound := fun broken => ?_, standing := fun broken => ?_ },
    fun hard => ?_⟩,by simp⟩
  · refine ⟨serving.course.applying,?_,serving.course.watched⟩
    simp [Trial.givesUp,serving.course.failed,counted]
  · simp [Trial.givesUp,Trial.fails,serving.kept,timely]
  · simp only [Trial.givesUp,Trial.fails,counted,Bool.or_eq_true] at broken ⊢
    rcases broken with before | now
    · exact (serving.sound before).imp_left .inl
    · exact .inl (.inr now)
  · simp only [Trial.givesUp,Trial.fails,counted,Bool.or_eq_true] at broken
    rcases broken with before | now
    · exact serving.standing before
    · have started : name ∈ e.2.course.started := started_of_counts (counted.trans now)
      exact List.ne_nil_of_mem started
  · obtain ⟨w,watching,-,touched⟩ := serving.course.watched name (started_of_counts (counted.trans hard))
    exact ⟨w,name,watching,rfl,touched⟩

theorem wp_restart {sup : Supervised} (serving : Serving m e) : (restart sup).wp surroundings asked Judged m e := by
  refine wp_bind_steady (trying_steady _) (plain_call rfl) serving fun t m e serving => ?_
  dsimp only
  split
  · refine wp_bind_perform (trying_steady _) serving (fun _ _ serving => serving.kept) ?_
    exact fun e _ e' serving replied => judged_givingUp serving replied
  · refine wp_then ((settled_upkeep false m.watch m.watch).starts _ _ _ _ serving) ?_
    exact fun _ m e tried => judged_serving (trying_of_tried tried)

theorem wp_handleExit {ending : Ending} (opened : Opened failed pid m e) :
    (handleExit (.ended pid ending)).wp surroundings asked Judged m e := by
  refine wp_bind_removeService trivial ?_
  have calm := opened.calm
  have struck : Calm failed m.watch (failed = false ∧ untouched m pid = true) pid (withoutService m pid) e := by
    refine ⟨{ calm.tried with known := fun p name own _ => ?_ },calm.disowned,calm.still⟩
    obtain ⟨sup,found,named⟩ := calm.tried.known p name own (by simp)
    refine ⟨sup,lookup_erase_iff.mpr ⟨?_,found⟩,named⟩
    rintro rfl
    rw [calm.disowned] at own
    contradiction
  cases tracked : m.services.lookup pid with
  | none =>
    have unfailed : failed = false := by
      rw [← Bool.not_eq_true]
      intro hard
      obtain ⟨sup,-,found,-⟩ := opened.guilty hard
      rw [tracked] at found
      contradiction
    subst unfailed
    exact judged_serving struck.tried
  | some sup =>
    have frame := calm_frame failed m.watch (failed = false ∧ untouched m pid = true) pid
      (fun _ => ()) ()
    have idle : ∀ {op : Op}, Idle op → (call op).Uses (fun m m' => Keeps m m' ∧ () = ()) Idle :=
      fun idle => uses_perform idle
    refine wp_bind_frame frame (idle trivial) ⟨struck,rfl⟩ fun _ m' e held => ?_
    refine wp_bind_frame frame (idle rfl) held fun _ m' e held => ?_
    refine wp_bind_frame frame (idle rfl) held fun _ m' e held => ?_
    obtain ⟨calm,-⟩ := held
    have watched := calm.tried.watched
    split
    · rename_i critical
      refine ⟨⟨failed,?_,fun hard => ?_⟩,?_⟩
      · exact trying_of_tried calm.tried
      · obtain ⟨sup',w,found,-,watching,touched⟩ := opened.guilty hard
        rw [tracked] at found
        cases found
        exact ⟨w,_,watched.trans watching,rfl,touched⟩
      · rintro _ ⟨⟩ apart
        rw [watched] at apart
        refine calm.still ⟨?_,?_⟩
        · rw [← Bool.not_eq_true]
          intro hard
          obtain ⟨sup',w,found,-,watching,touched⟩ := opened.guilty hard
          rw [tracked] at found
          cases found
          simp [watching,touched] at apart
        · simp [untouched,tracked,critical,apart]
    · rename_i ordinary
      have unfailed : failed = false := by
        rw [← Bool.not_eq_true]
        intro hard
        obtain ⟨sup',w,found,critical,-⟩ := opened.guilty hard
        rw [tracked] at found
        cases found
        exact ordinary critical
      subst unfailed
      have serving : Serving m' e := trying_of_tried calm.tried
      split
      · exact wp_restart serving
      · exact judged_serving serving

end Exit

section Loop
variable {m : Memory} {e e' : Kernel × Trial}

structure Closing (m : Memory) (e : Kernel × Trial) : Prop where
  kept : e.2.lost = false
  superseded : e.2.course.superseded = []

theorem closing_past (closing : Closing m e) : Past e := by
  intro earlier member
  rw [closing.superseded] at member
  exact absurd member List.not_mem_nil

theorem closing_frame : surroundings.Frame asked (fun _ _ => True) (fun op => op.windsDown = true) Closing where
  updates _ _ _ _ closing := ⟨closing.kept,closing.superseded⟩
  moves _ _ _ _ _ moved closing := by
    refine ⟨(moves_lost moved (closing_past closing)).trans closing.kept,?_⟩
    rw [(moves_trial moved).1]
    exact closing.superseded
  replies op m e r e' winds replied closing := by
    obtain ⟨kept,superseded⟩ := closing
    obtain ⟨-,-,noted⟩ := replies_iff.mp replied
    cases op with
    | spawn origin command =>
      cases origin with
      | service name critical =>
        cases r with
        | ok pid => exact ⟨noted ▸ kept,noted ▸ superseded⟩
        | error err =>
          refine ⟨?_,noted ▸ superseded⟩
          rw [noted]
          simp [trials,Trial.fails,Course.overdue,Course.starting,kept,superseded]
      | _ => cases r <;> exact ⟨noted ▸ kept,noted ▸ superseded⟩
    | kill pid sig => cases sig <;> exact ⟨noted ▸ kept,noted ▸ superseded⟩
    | waitpid target nohang =>
      match target, r with
      | .any, .ok (.ended pid ending) => exact ⟨noted ▸ kept,noted ▸ superseded⟩
      | .only _, .ok (.ended pid ending) => exact ⟨noted ▸ kept,noted ▸ superseded⟩
      | .any, .ok .stillAlive => exact ⟨noted ▸ kept,noted ▸ superseded⟩
      | .only _, .ok .stillAlive => exact ⟨noted ▸ kept,noted ▸ superseded⟩
      | .any, .ok .other => exact ⟨noted ▸ kept,noted ▸ superseded⟩
      | .only _, .ok .other => exact ⟨noted ▸ kept,noted ▸ superseded⟩
      | .any, .error err => cases err <;> exact ⟨noted ▸ kept,noted ▸ superseded⟩
      | .only _, .error err => cases err <;> exact ⟨noted ▸ kept,noted ▸ superseded⟩
    | takePendingIsolate => contradiction
    | swap flag => contradiction
    | log line => cases line <;> first | exact ⟨noted ▸ kept,noted ▸ superseded⟩ | contradiction
    | _ => exact ⟨noted ▸ kept,noted ▸ superseded⟩
  holds op m e winds closing := by
    cases op with
    | none => trivial
    | some op =>
      have winds := winds op rfl
      cases op with
      | swap flag => contradiction
      | log line => cases line <;> first | exact closing.kept | contradiction
      | _ => exact closing.kept

theorem wp_closing {α : Type} {p : Code α} (winds : WindingDown p) (closing : Closing m e) :
    p.wp surroundings asked (fun _ => Closing) m e :=
  wp_frame closing_frame (uses_mono winds (fun _ _ _ => trivial) fun _ allowed => allowed) closing

def Waited : Except Errno WaitStatus → Memory → Kernel × Trial → Prop
  | .ok (.ended pid _), m, e => ∃ failed, Opened failed pid m e ∧ (failed = true → Unpending m.timers pid)
  | _, m, e => Serving m e

theorem waited_unopened {status : Except Errno WaitStatus} (unopened : openedBy status = none) :
    Waited status = Serving := by
  match status with
  | .ok (.ended pid ending) => contradiction
  | .ok .stillAlive => rfl
  | .ok .other => rfl
  | .error err => rfl

theorem wp_waits (serving : Serving m e) : (waitpid .any (polls m)).wp surroundings asked Waited m e := by
  refine wp_steady_perform (trying_steady _) serving (fun _ _ serving => serving.kept) ?_
  intro e status e' serving replied
  match status with
  | .ok (.ended pid ending) => exact opened_reaped serving replied
  | .ok .stillAlive => exact tried_unopened serving rfl replied
  | .ok .other => exact tried_unopened serving rfl replied
  | .error err => exact tried_unopened serving rfl replied

theorem wp_kills {status : Except Errno WaitStatus} (waited : Waited status m e) :
    killExpired.wp surroundings asked (fun _ => Waited status) m e := by
  have serves : Serving m e → killExpired.wp surroundings asked (fun _ => Serving) m e := fun serving =>
    wp_trying (uses_mono killExpired_idle (fun m m' same => by rw [same]; exact ⟨rfl,rfl⟩) fun _ idle => idle) serving
  match status with
  | .ok (.ended pid ending) =>
    obtain ⟨failed,opened,unpending⟩ := waited
    refine wp_mono (wp_killExpired opened) fun _ m' e' held => ⟨failed,held.1,?_⟩
    rw [held.2]
    exact unpending
  | .ok .stillAlive => exact serves waited
  | .ok .other => exact serves waited
  | .error err => exact serves waited

theorem dumpStatus_idle : dumpStatus.Uses Keeps Idle := by
  refine uses_bind (uses_perform (by simp [Idle])) fun _ => uses_provided ?_
  refine uses_bind (uses_read fun _ => ⟨rfl,rfl⟩) fun _ => ?_
  refine uses_bind (keeps_of_plain statusSummary_plain) fun _ => ?_
  exact uses_bind (keeps_of_plain (plain_call rfl)) fun _ => keeps_of_plain (plain_call rfl)

theorem tick_idle (timers : List TimerDef) (services : List ServiceDef) :
    (Timers.tick timers services).Uses Keeps Idle := by
  refine uses_mono (tick_times timers services) (fun m m' written => ?_) fun _ => idle_of_times
  unfold OnlyTimers at written
  rw [written]
  exact ⟨rfl,rfl⟩

/-- Whatever has failed and is not reported is still to be reaped. -/
theorem asked_head (serving : Serving m e) : asked (some (.swap .rebootRequested)) m e := by
  refine ⟨serving.kept,serving.course.failed,fun broken => ?_⟩
  have failing := (serving.sound broken).resolve_left (by simp [serving.course.failed])
  obtain ⟨pid,member⟩ := List.exists_mem_of_ne_nil _ failing
  exact ⟨pid,member,serving.pending pid member⟩

theorem wp_takeFlags (serving : Serving m e) : takeFlags.wp surroundings asked (fun _ => Serving) m e := by
  refine wp_bind_perform (trying_steady _) serving (fun _ _ serving => asked_head serving) ?_
  intro e reboot e' serving replied
  have turned : Serving m e' := by
    obtain ⟨-,answered,noted⟩ := replies_iff.mp replied
    rw [show e' = (e'.1,{ e.2 with course := { e.2.course with doomed := false } }) from Prod.ext rfl noted]
    have course : Settled false m.watch { e.2.course with doomed := false } :=
      ⟨serving.course.applying,serving.course.failed,serving.course.watched⟩
    refine ⟨rfl,course,serving.kept,past_answered serving.past answered rfl,serving.sound,serving.standing,
      serving.known,serving.counted,fun pid member => ?_⟩
    simp only [Kernel.answer,Option.ite_none_right_eq_some,Option.some.injEq] at answered
    rw [← answered.2]
    exact serving.pending pid member
  have idle : ∀ flag, flag ≠ .rebootRequested → (swap flag).Uses Keeps Idle := fun _ other => uses_perform other
  refine wp_then (wp_trying (idle .poweroffRequested (by simp)) turned) fun poweroff m e serving => ?_
  exact wp_then (wp_trying (idle .haltRequested (by simp)) serving) fun halt m e serving => serving

/-- A line that ends the trial is the last but for the shutdown. -/
theorem closing_ended {line : Line} (serving : Serving m e) (replied : surroundings.replies (.log line) m e () e')
    (ends : trials.reply (.log line) m e.1 () e.2 = e.2.ended) : Closing m e' := by
  obtain ⟨-,noted⟩ := log_answer replied
  rw [show e' = (e'.1,e.2.ended) from Prod.ext rfl (noted.trans ends)]
  exact ⟨serving.kept,rfl⟩

theorem loop_phases : LoopPhases surroundings asked Serving Serving Handled Serving Waited
    (fun pid _ claimed m e => ∃ failed, (failed = true → claimed = false) ∧ Opened failed pid m e) Judged
    Serving Closing Closing Closing where
  unread _ _ := trivial
  takes _ _ serving := wp_mono (wp_takeFlags serving) fun raised _ _ serving => by cases raised <;> exact serving
  reloads _ _ serving := reload_phases.wp_handleReload serving
  isolates _ _ handled := isolate_phases.wp_handleIsolate handled
  dumps _ _ serving := wp_trying dumpStatus_idle serving
  ticks _ _ serving := wp_trying (tick_idle _ _) serving
  waits _ _ serving := wp_waits serving
  kills _ _ _ waited := wp_kills waited
  offers _ _ _ _ waited := by
    obtain ⟨failed,opened,unpending⟩ := waited
    exact wp_mono (wp_offer opened unpending) fun _ _ _ offered => ⟨failed,offered⟩
  claims _ _ _ _ offered := by
    obtain ⟨failed,unclaimed,opened⟩ := offered
    cases failed with
    | true => exact absurd (unclaimed rfl) (by simp)
    | false => exact judged_serving opened.calm.tried
  exits _ _ _ _ offered := wp_handleExit offered.choose_spec.2
  waited_calm _ unopened := waited_unopened unopened ▸ calmly_of_steady (trying_steady _)
  passes status m e waited unopened := by
    rw [waited_unopened unopened] at waited
    exact judged_serving waited
  fails _ _ _ serving := serving
  resolves _ _ _ judged _ := verdict_phases.wp_resolveWatch judged.judging
  halts name m e judged apart := by
    have serving : Serving m e := serving_of_judging judged.judging fun w named watching same => by
      cases same
      simpa [watching] using apart
    refine wp_perform (P := fun e => Serving m e ∧ e.2.course.doomed = true ∧ e.2.failing = [])
      ⟨serving,judged.halted name rfl apart⟩ ?_ ?_ ?_
    · exact fun e e' moved held => ⟨tried_moves moved held.1,stilled_moves moved held.2⟩
    · exact fun e held => ⟨held.1.kept,unbroken_of_idle held.1 held.2.2⟩
    · exact fun e _ e' held replied => closing_ended held.1 replied rfl
  relays _ _ serving := wp_steady_perform (trying_steady _) serving (fun _ _ serving => serving.kept)
    fun _ _ _ serving replied => closing_ended serving replied rfl
  closes grace _ _ closing := wp_closing (shutdownAll_windsDown grace) closing
  acknowledges _ _ closing :=
    wp_closing (windingDown_of_supervising (supervising_of_plain acknowledgeShutdown_plain)) closing

theorem wp_runEventLoop (grace : Nat) (k : Kernel) :
    (runEventLoop grace).wp surroundings asked (fun _ => Closing) m (k,({} : Trial)) := by
  refine loop_phases.wp_runEventLoop grace ⟨rfl,⟨rfl,rfl,?_⟩,rfl,?_,?_,?_,?_,?_,?_⟩ <;> simp [Past]

end Loop

/-- In every run of the event loop whose steps are fair, a service started by a reload that fails
in the reload's window is rolled back: the failure does not go by the watch, it is rolled back by the
time the loop turns unless its exit is still to be reaped, and neither is the reload confirmed nor
does a critical exit end it before. -/
theorem failure_rolls_back (grace : Nat) (m : Memory) (k : Kernel)
    {t : State Memory Op Op.Ans (Kernel × Trial) Unit}
    (run : Reaches surroundings ⟨runEventLoop grace,m,(k,({} : Trial))⟩ t) :
    asked t.program.next? t.mem t.env :=
  wp_everywhere run (wp_runEventLoop grace k) fun _ _ _ _ => trivial

section Runs

def display : ServiceDef := { name := "display", path := "/usr/bin/display", critical := true }

def config : Config := { Config.default with services := [display] }

def turns (M : Machine Memory Op Op.Ans (Kernel × Trial) Event) (starts : Origin → Bool)
    (events : List Event) : Option (State Memory Op Op.Ans (Kernel × Trial) Unit) :=
  drive M (fun op m e => Kernel.obliging starts config op m e.1)
    (.upTo (· == .swap .rebootRequested) 100 ::
      events.flatMap fun event => [.stir event,.step,.upTo (· == .swap .rebootRequested) 200])
    ⟨runEventLoop 0,{},({ ipc := .idle },{})⟩

def brokenRun : Option (State Memory Op Op.Ans (Kernel × Trial) Unit) :=
  turns ((Kernel.machine.watched trials).under fair) (fun _ => true)
    [.requestReload,.tick (fromSecs 3),.exit 100 (some (.exited 1))]

theorem failure_rolls_back_display : ∃ t, brokenRun = some t ∧ t.env.2.lost = false ∧
    t.env.2.course.failed = false := by
  have there : brokenRun.any (fun t =>
      decide (t.program.next? = some (.swap .rebootRequested))) = true := by
    decide +kernel
  obtain ⟨t,reached,now⟩ := (Option.any_eq_true _ _).mp there
  have rolled := failure_rolls_back 0 {} { ipc := .idle } (drive_reaches reached)
  rw [of_decide_eq_true now] at rolled
  exact ⟨t,reached,rolled.1,rolled.2.1⟩

def confirmedRun : Option (State Memory Op Op.Ans (Kernel × Trial) Unit) :=
  drive (Kernel.machine.watched trials)
    (fun op m e => Kernel.obliging (· != .service "display" true) config op m e.1)
    [.upTo (· == .swap .rebootRequested) 100,.stir .requestReload,.step,.upTo (· == .swap .rebootRequested) 200,
      .stir (.tick (fromSecs 11)),.step,.upTo (· == .log .keeping) 200]
    ⟨runEventLoop 0,{},({ ipc := .idle },{})⟩

theorem confirms_failed_reload : ∃ (grace : Nat) (m : Memory) (k : Kernel)
    (t : State Memory Op Op.Ans (Kernel × Trial) Unit),
    Reaches (Kernel.machine.watched trials).surroundings ⟨runEventLoop grace,m,(k,({} : Trial))⟩ t ∧
      ¬ asked t.program.next? t.mem t.env := by
  have there : confirmedRun.any (fun t => decide (t.program.next? = some (.log .keeping) ∧
      t.env.2.broken = true)) = true := by
    decide +kernel
  obtain ⟨t,reached,now⟩ := (Option.any_eq_true _ _).mp there
  obtain ⟨keeping,broken⟩ := of_decide_eq_true now
  refine ⟨0,{},{ ipc := .idle },t,drive_reaches reached,fun asks => ?_⟩
  rw [keeping] at asks
  exact absurd (broken.symm.trans asks.2) (by simp)

end Runs
end MitosServices.Trials
