import MitosServices.Serving
import MitosServices.Kernel

/-! The end of a run. Whatever exits in the meantime, a shutdown leaves no service of the table it
began with behind, and acknowledges once, when it has done with all of them. -/
namespace MitosServices.Shutdown
open Interaction Interaction.Program

structure Record where
  /-- The table it began with. -/
  began : Option Services := none
  reaped : List Int := []
  killed : List Int := []
  swept : List String := []
  forgotten : List String := []
  deadline : Option Nat := none
  /-- The clock was read at the deadline or later, or there were no children left. -/
  expired : Bool := false
  acknowledged : Nat := 0

def Record.heard (grace : Nat) (r : Record) : (op : Op) → op.Ans → Record
  | .now, t => match r.deadline with
    | none => { r with deadline := some (t + grace) }
    | some d => { r with expired := r.expired || decide (d ≤ t) }
  | .waitpid _ _, .ok (.ended pid _) => { r with reaped := pid :: r.reaped }
  | .waitpid _ _, .error .echild => { r with expired := true }
  | .kill pid .sigkill, _ => { r with killed := pid :: r.killed }
  | .killAndRemove name, _ => { r with swept := name :: r.swept }
  | .forget name, _ => { r with forgotten := name :: r.forgotten }
  | _, _ => r

def observer (grace : Nat) : Monitor Memory Op Op.Ans Kernel Event Record where
  event _ _ _ _ r := r
  reply
    | .log line, m, _, _, r => if line.closes then { r with began := some m.services } else r
    | .openAck, _, _, _, r => { r with acknowledged := r.acknowledged + 1 }
    | op, _, _, answer, r => if r.began.isSome then r.heard grace op answer else r

abbrev around (grace : Nat) : Surroundings Memory Op Op.Ans (Kernel × Record) :=
  (Kernel.machine.watched (observer grace)).surroundings

/-- Every pid tracked at the beginning has been reaped or sent SIGKILL, and every name has been swept
and forgotten. -/
def Stopped (r : Record) : Prop :=
  ∃ table, r.began = some table ∧ ∀ pid sup, table.lookup pid = some sup →
    (pid ∈ r.reaped ∨ pid ∈ r.killed) ∧ sup.definition.name ∈ r.swept ∧ sup.definition.name ∈ r.forgotten

/-- A shutdown is acknowledged when it is done, for the first time; it waits for an exit only before
its deadline, while there are services and children; it goes on for one of these reasons only. -/
def asked : Option Op → Memory → Kernel × Record → Prop
  | some .openAck, _, e => Stopped e.2 ∧ e.2.acknowledged = 0
  | some (.waitpid .any true), m, e => e.2.began.isSome → e.2.expired = false ∧ m.services.entries ≠ []
  | some (.iterate _), m, e => e.2.deadline.isSome → e.2.expired = true ∨ m.services.entries = []
  | _, _, _ => True

section Rules
variable {grace : Nat} {op : Op} {m : Memory} {e : Kernel × Record}

def unheard : Op → Bool
  | .log line => !line.closes
  | .iterate _ | .sleep _ | .kill _ .sigterm | .writeAck | .panic => true
  | _ => false

theorem observer_deaf : (observer grace).Deaf fun op => unheard op = true where
  event _ _ _ _ _ := rfl
  reply op m k answer r quiet := by
    cases op with
    | log line =>
      have further : line.closes = false := by simpa [unheard] using quiet
      simp [observer,further]
    | kill pid sig => cases sig <;> first | contradiction | simp [observer,Record.heard]
    | iterate _ | sleep _ | writeAck | panic => simp [observer,Record.heard]
    | _ => contradiction

def heeded : Op → Bool
  | .now | .waitpid _ _ | .kill _ _ | .killAndRemove _ | .forget _ => true
  | _ => false

theorem reply_heeded {k : Kernel} {answer : op.Ans} {r : Record} (heard : heeded op = true)
    (began : r.began.isSome) : (observer grace).reply op m k answer r = r.heard grace op answer := by
  cases op <;> first | contradiction | exact if_pos began

theorem wp_unheard {Q : op.Ans → Memory → Kernel × Record → Prop} (quiet : unheard op = true)
    (holds : ∀ k, asked (some op) m (k,e.2))
    (rest : ∀ k r k', Kernel.answer op m k r = some k' → Q r m (k',e.2)) :
    (call op).wp (around grace) asked Q m e := by
  refine wp_noted observer_deaf holds fun k r k' answered => ?_
  rw [observer_deaf.reply op m k r _ quiet]
  exact rest k r k' answered

theorem wp_heeded {Q : op.Ans → Memory → Kernel × Record → Prop} (heard : heeded op = true)
    (began : e.2.began.isSome) (holds : ∀ k, asked (some op) m (k,e.2))
    (rest : ∀ k r k', Kernel.answer op m k r = some k' → Q r m (k',e.2.heard grace op r)) :
    (call op).wp (around grace) asked Q m e := by
  refine wp_noted observer_deaf holds fun k r k' answered => ?_
  rw [reply_heeded heard began]
  exact rest k r k' answered

end Rules

section Phases
variable {grace : Nat} {table : Services} {m : Memory} {e : Kernel × Record}

structure Under (table : Services) (r : Record) : Prop where
  began : r.began = some table
  unacknowledged : r.acknowledged = 0

theorem Under.isSome {r : Record} (under : Under table r) : r.began.isSome := by
  rw [under.began]
  rfl

def Covered (table : Services) (m : Memory) (r : Record) : Prop :=
  ∀ pid sup, table.lookup pid = some sup → m.services.lookup pid = some sup ∨ pid ∈ r.reaped

structure Waiting (table : Services) (d : Nat) (m : Memory) (r : Record) : Prop where
  under : Under table r
  deadline : r.deadline = some d
  pending : r.expired = false
  covered : Covered table m r

structure Waited (table : Services) (m : Memory) (r : Record) : Prop where
  under : Under table r
  deadline : r.deadline.isSome
  expired : r.expired = true ∨ m.services.entries = []
  covered : Covered table m r

theorem covered_removed {pid : Int} {r : Record} (covered : Covered table m r) :
    Covered table (withoutService m pid) { r with reaped := pid :: r.reaped } := by
  intro p sup there
  by_cases same : p = pid
  · exact .inr (same ▸ List.mem_cons_self)
  · rcases covered p sup there with tracked | reaped
    · exact .inl (lookup_erase_iff.mpr ⟨same,tracked⟩)
    · exact .inr (List.mem_cons_of_mem _ reaped)

theorem wp_awaitExits {d : Nat} (waiting : Waiting table d m e.2) :
    (awaitExits d).wp (around grace) asked (fun _ m e => Waited table m e.2) m e := by
  apply wp_repeatFrom (fun _ m e => Waiting table d m e.2) waiting (fun _ _ _ _ => trivial)
  intro _ m e waiting
  refine (wp_bind _ _ _ _ _).mpr (wp_heeded rfl waiting.under.isSome (fun _ => trivial) ?_)
  intro _ t k _
  have heard : e.2.heard grace .now t = { e.2 with expired := decide (d ≤ t) } := by
    simp [Record.heard,waiting.deadline,waiting.pending]
  rw [heard]
  apply wp_bind_read trivial
  split
  · rename_i goes
    simp only [Bool.and_eq_true,decide_eq_true_eq,Bool.not_eq_true',List.isEmpty_eq_false_iff] at goes
    have early : decide (d ≤ t) = false := by simpa using goes.1
    rw [early]
    have waiting : Waiting table d m { e.2 with expired := false } :=
      ⟨⟨waiting.under.began,waiting.under.unacknowledged⟩,waiting.deadline,rfl,waiting.covered⟩
    refine (wp_bind _ _ _ _ _).mpr (wp_heeded rfl waiting.under.isSome (fun _ _ => ⟨rfl,goes.2⟩) ?_)
    intro _ status k _
    match status with
    | .ok (.ended pid ending) =>
      refine wp_bind_exchange trivial ?_
      exact ⟨⟨waiting.under.began,waiting.under.unacknowledged⟩,waiting.deadline,rfl,
        covered_removed waiting.covered⟩
    | .ok .stillAlive =>
      refine (wp_bind _ _ _ _ _).mpr (wp_unheard rfl (fun _ => trivial) ?_)
      exact fun _ _ _ _ => waiting
    | .ok .other => exact waiting
    | .error .echild =>
      exact ⟨⟨waiting.under.began,waiting.under.unacknowledged⟩,by simp [Record.heard,waiting.deadline],
        .inl rfl,waiting.covered⟩
    | .error .eintr =>
      refine (wp_bind _ _ _ _ _).mpr (wp_unheard rfl (fun _ => trivial) ?_)
      exact fun _ _ _ _ => waiting
    | .error .other =>
      refine (wp_bind _ _ _ _ _).mpr (wp_unheard rfl (fun _ => trivial) ?_)
      exact fun _ _ _ _ => waiting
  · rename_i stops
    refine ⟨⟨waiting.under.began,waiting.under.unacknowledged⟩,?_,?_,waiting.covered⟩
    · exact Option.isSome_iff_exists.mpr ⟨d,waiting.deadline⟩
    · simp only [Bool.and_eq_true,decide_eq_true_eq,Bool.not_eq_true',List.isEmpty_eq_false_iff,
        not_and_or,not_lt,ne_eq,not_not] at stops
      rcases stops with late | empty
      · exact .inl (decide_eq_true late)
      · exact .inr empty

structure Killing (table : Services) (rest : List (Int × Supervised)) (r : Record) : Prop where
  under : Under table r
  gone : ∀ pid sup, table.lookup pid = some sup → (pid ∈ r.reaped ∨ pid ∈ r.killed) ∨ ∃ entry ∈ rest, entry.1 = pid

theorem killing_waited {late : List (Int × Supervised)} {r : Record} (waited : Waited table m r)
    (visit : late.Perm m.services.toList) : Killing table late r := by
  refine ⟨waited.under,?_⟩
  intro pid sup there
  rcases waited.covered pid sup there with tracked | reaped
  · exact .inr ⟨(pid,sup),visit.mem_iff.mpr (Services.mem_toList.mpr tracked),rfl⟩
  · exact .inl (.inl reaped)

theorem killing_killed {entry : Int × Supervised} {rest : List (Int × Supervised)} {r : Record}
    (killing : Killing table (entry :: rest) r) :
    Killing table rest { r with killed := entry.1 :: r.killed } := by
  refine ⟨⟨killing.under.began,killing.under.unacknowledged⟩,?_⟩
  intro pid sup there
  rcases killing.gone pid sup there with (reaped | killed) | ⟨late,member,same⟩
  · exact .inl (.inl reaped)
  · exact .inl (.inr (List.mem_cons_of_mem _ killed))
  · rcases List.mem_cons.mp member with rfl | later
    · exact .inl (.inr (same ▸ List.mem_cons_self))
    · exact .inr ⟨late,later,same⟩

theorem wp_killLate {late : List (Int × Supervised)} (killing : Killing table late e.2) :
    (each late fun entry => do
      log (.killingLate entry.1)
      kill entry.1 .sigkill).wp (around grace) asked (fun _ _ e => Killing table [] e.2) m e := by
  refine wp_each (fun rest _ (e : Kernel × Record) => Killing table rest e.2) killing ?_
  intro entry rest m e killing
  refine (wp_bind _ _ _ _ _).mpr (wp_unheard rfl (fun _ => trivial) ?_)
  intro _ _ k _
  refine wp_heeded rfl killing.under.isSome (fun _ => trivial) ?_
  intro _ _ _ _
  exact killing_killed killing

structure Sweeping (table : Services) (rest : List (Int × Supervised)) (r : Record) : Prop where
  under : Under table r
  gone : ∀ pid sup, table.lookup pid = some sup → pid ∈ r.reaped ∨ pid ∈ r.killed
  swept : ∀ pid sup, table.lookup pid = some sup →
    (sup.definition.name ∈ r.swept ∧ sup.definition.name ∈ r.forgotten) ∨
      ∃ entry ∈ rest, entry.2.definition.name = sup.definition.name

theorem sweeping_killed {named : List (Int × Supervised)} {r : Record} (killing : Killing table [] r)
    (visit : named.Perm table.toList) : Sweeping table named r := by
  refine ⟨killing.under,?_,?_⟩
  · intro pid sup there
    rcases killing.gone pid sup there with gone | ⟨entry,member,-⟩
    · exact gone
    · contradiction
  · intro pid sup there
    exact .inr ⟨(pid,sup),visit.mem_iff.mpr (Services.mem_toList.mpr there),rfl⟩

theorem sweeping_swept {entry : Int × Supervised} {rest : List (Int × Supervised)} {r : Record}
    (sweeping : Sweeping table (entry :: rest) r) : Sweeping table rest { r with
      swept := entry.2.definition.name :: r.swept
      forgotten := entry.2.definition.name :: r.forgotten } := by
  refine ⟨⟨sweeping.under.began,sweeping.under.unacknowledged⟩,sweeping.gone,?_⟩
  intro pid sup there
  rcases sweeping.swept pid sup there with ⟨swept,forgotten⟩ | ⟨named,member,same⟩
  · exact .inl ⟨List.mem_cons_of_mem _ swept,List.mem_cons_of_mem _ forgotten⟩
  · rcases List.mem_cons.mp member with rfl | later
    · rw [same]
      exact .inl ⟨List.mem_cons_self,List.mem_cons_self⟩
    · exact .inr ⟨named,later,same⟩

theorem wp_sweepAll {named : List (Int × Supervised)} (sweeping : Sweeping table named e.2) :
    (each named fun entry => do
      killAndRemove entry.2.definition.name
      forget entry.2.definition.name).wp (around grace) asked
      (fun _ _ e => Sweeping table [] e.2) m e := by
  refine wp_each (fun rest _ (e : Kernel × Record) => Sweeping table rest e.2) sweeping ?_
  intro entry rest m e sweeping
  refine (wp_bind _ _ _ _ _).mpr (wp_heeded rfl sweeping.under.isSome (fun _ => trivial) ?_)
  intro _ _ k _
  refine wp_heeded rfl sweeping.under.isSome (fun _ => trivial) ?_
  intro _ _ _ _
  exact sweeping_swept sweeping

theorem stopped_swept {r : Record} (sweeping : Sweeping table [] r) : Stopped r := by
  refine ⟨table,sweeping.under.began,?_⟩
  intro pid sup there
  rcases sweeping.swept pid sup there with swept | ⟨entry,member,-⟩
  · exact ⟨sweeping.gone pid sup there,swept⟩
  · contradiction

theorem wp_warnAll (keyed : List (Int × Supervised)) :
    (each keyed fun entry => kill entry.1 .sigterm).wp (around grace) asked
      (fun _ m' e' => m' = m ∧ e'.2 = e.2) m e := by
  refine wp_each (fun _ m' (e' : Kernel × Record) => m' = m ∧ e'.2 = e.2) ⟨rfl,rfl⟩ ?_
  rintro entry rest _ ⟨k,_⟩ ⟨rfl,rfl⟩
  refine wp_unheard rfl (fun _ => trivial) ?_
  exact fun _ _ _ _ => ⟨rfl,rfl⟩

theorem wp_checkInstant (t : Nat) : (checkInstant t).wp (around grace) asked
    (fun _ m' e' => m' = m ∧ e'.2 = e.2) m e := by
  unfold checkInstant
  rw [wp_provided]
  split
  · refine wp_unheard rfl (fun _ => trivial) ?_
    exact fun _ _ _ _ => ⟨rfl,rfl⟩
  · exact ⟨rfl,rfl⟩

structure Beginning (m : Memory) (r : Record) : Prop where
  under : Under m.services r
  undated : r.deadline = none
  pending : r.expired = false

theorem wp_shutdownAll (beginning : Beginning m e.2) : (shutdownAll grace).wp (around grace) asked
    (fun _ _ e => Stopped e.2 ∧ e.2.acknowledged = 0) m e := by
  have undated : e.2.deadline.isSome → e.2.expired = true ∨ m.services.entries = [] := by
    rw [beginning.undated]
    exact fun dated => absurd dated (by simp)
  apply wp_bind_read trivial
  refine (wp_bind _ _ _ _ _).mpr (wp_unheard rfl (fun _ => undated) ?_)
  intro _ named k replied
  have visitNamed := Kernel.answer_iterate replied
  refine (wp_bind _ _ _ _ _).mpr (wp_unheard rfl (fun _ => undated) ?_)
  intro _ keyed k _
  refine wp_then (wp_warnAll keyed) ?_
  rintro _ m ⟨k,_⟩ ⟨rfl,rfl⟩
  refine (wp_bind _ _ _ _ _).mpr (wp_heeded rfl beginning.under.isSome (fun _ => trivial) ?_)
  intro _ start k _
  have heard : e.2.heard grace .now start = { e.2 with deadline := some (start + grace) } := by
    simp [Record.heard,beginning.undated]
  rw [heard]
  refine wp_then (wp_checkInstant (start + grace)) ?_
  rintro _ m ⟨k,_⟩ ⟨rfl,rfl⟩
  have waiting : Waiting m.services (start + grace) m { e.2 with deadline := some (start + grace) } :=
    ⟨⟨beginning.under.began,beginning.under.unacknowledged⟩,rfl,beginning.pending,
      fun _ _ there => .inl there⟩
  refine wp_then (wp_awaitExits waiting) ?_
  intro _ m' e waited
  apply wp_bind_read trivial
  refine (wp_bind _ _ _ _ _).mpr (wp_unheard rfl (fun _ _ => waited.expired) ?_)
  intro _ late k replied
  refine wp_then (wp_killLate (killing_waited waited (Kernel.answer_iterate replied))) ?_
  intro _ m' e killing
  refine wp_mono (wp_sweepAll (sweeping_killed killing visitNamed)) ?_
  intro _ m' e sweeping
  exact ⟨stopped_swept sweeping,sweeping.under.unacknowledged⟩

end Phases

section Loop
variable {grace : Nat} {m : Memory} {e : Kernel × Record}

def Op.goesOn (op : Op) : Prop := op.serves = true ∨ op = .panic

theorem reply_serving {op : Op} {answer : op.Ans} {k : Kernel} (serving : Op.goesOn op) :
    (observer grace).reply op m k answer {} = {} := by
  rcases serving with serves | rfl
  · cases op with
    | log line =>
      have further : line.closes = false := by simpa [Op.serves] using serves
      simp [observer,further]
    | openAck => contradiction
    | _ => rfl
  · rfl

theorem asked_serving {op : Option Op} {e : Kernel × Record} (serving : ∀ o ∈ op, Op.goesOn o) (idle : e.2 = {}) :
    asked op m e := by
  unfold asked
  split
  · have acknowledges := serving .openAck rfl
    rcases acknowledges with serves | aborts <;> contradiction
  · rw [idle]
    exact fun began => absurd began (by simp)
  · rw [idle]
    exact fun dated => absurd dated (by simp)
  · trivial

theorem serving_frame : (around grace).Frame asked (fun _ _ => True) Op.goesOn fun _ e => e.2 = {} where
  updates _ _ _ _ idle := idle
  moves _ _ _ _ _ moved idle := (observer_deaf.moves moved).trans idle
  replies op m e r e' allowed replied idle := by
    rw [(Machine.watched_answer_iff.mp replied).2,idle]
    exact reply_serving allowed
  holds _ _ _ allowed idle := asked_serving allowed idle

theorem tick_goesOn (timers : List TimerDef) (services : List ServiceDef) :
    (Timers.tick timers services).Uses (fun _ _ => True) Op.goesOn := by
  have widen : ∀ {α : Type} {p : Code α}, Serving p → p.Uses (fun _ _ => True) Op.goesOn :=
    fun serves => uses_mono serves (fun _ _ _ => trivial) fun _ => .inl
  have due : ∀ s timers, (Timers.dueNames s timers).Uses (fun _ _ => True) Op.goesOn := by
    intro s timers
    induction timers with
    | nil => exact uses_pure _
    | cons t rest ih =>
      unfold Timers.dueNames
      split
      · exact ih
      · apply uses_bind
        · exact uses_bind (widen (serving_call rfl)) fun _ =>
            uses_bind (uses_each fun _ _ => uses_provided (uses_perform (.inr rfl))) fun _ => uses_pure _
        · exact fun _ => uses_bind ih fun _ => uses_pure _
  unfold Timers.tick
  split
  · exact uses_pure _
  · exact uses_bind (widen state_serves) fun s =>
      uses_bind (due s timers) fun _ => uses_each fun name _ => widen (fire_serves services name)

theorem wp_acknowledge (stopped : Stopped e.2) (first : e.2.acknowledged = 0) :
    acknowledgeShutdown.wp (around grace) asked (fun _ _ e => Stopped e.2 ∧ e.2.acknowledged = 1) m e := by
  refine (wp_bind _ _ _ _ _).mpr ?_
  apply wp_perform (P := fun e' => e'.2 = e.2) rfl
  · exact fun _ _ moved same => (observer_deaf.moves moved).trans same
  · rintro ⟨k,_⟩ rfl
    exact ⟨stopped,first⟩
  rintro ⟨k,_⟩ opened ⟨k',r⟩ rfl replied
  have noted : r = { e.2 with acknowledged := e.2.acknowledged + 1 } := (Machine.watched_answer_iff.mp replied).2
  have done : Stopped r ∧ r.acknowledged = 1 := by
    rw [noted,first]
    exact ⟨stopped,rfl⟩
  cases opened with
  | ok _ => exact wp_unheard rfl (fun _ => trivial) fun _ _ _ _ => done
  | error _ => exact wp_unheard rfl (fun _ => trivial) fun _ _ _ _ => done

/-- Either way out of the loop: a line, the shutdown and its acknowledgement. -/
theorem wp_closing {line : Line} (closes : line.closes = true) (idle : e.2 = {}) : (do
    log line
    shutdownAll grace
    acknowledgeShutdown : Code Unit).wp (around grace) asked (fun _ _ e => Stopped e.2 ∧ e.2.acknowledged = 1) m e := by
  refine (wp_bind _ _ _ _ _).mpr ?_
  apply wp_perform (P := fun e => e.2 = {}) idle
  · exact fun _ _ moved idle => (observer_deaf.moves moved).trans idle
  · exact fun _ _ => trivial
  intro e _ e' idle replied
  have noted : e'.2 = { e.2 with began := some m.services } :=
    (Machine.watched_answer_iff.mp replied).2.trans (if_pos closes)
  rw [idle] at noted
  have beginning : Beginning m e'.2 := by
    rw [noted]
    exact ⟨⟨rfl,rfl⟩,rfl,rfl⟩
  refine wp_then (wp_shutdownAll beginning) ?_
  exact fun _ m e stopped => wp_acknowledge stopped.1 stopped.2

theorem servesUntil : ServesUntil (around grace) asked grace (fun _ e => e.2 = {})
    (fun _ e => Stopped e.2 ∧ e.2.acknowledged = 1) where
  frame := serving_frame.narrow fun _ => .inl
  ticks rest R m e idle next := by
    have goesOn : dumpStatus.Uses (fun _ _ => True) Op.goesOn :=
      uses_mono dumpStatus_serves (fun _ _ _ => trivial) fun _ => .inl
    apply wp_bind_frame serving_frame goesOn idle
    intro _ m e idle
    apply wp_bind_read trivial
    apply wp_bind_frame serving_frame (tick_goesOn _ _) idle
    exact fun _ m e idle => next m e idle
  closes _ _ _ closes idle := wp_closing closes idle

end Loop

/-- A run that returns has stopped every service it had when it began to shut down, and has
acknowledged that once; on the way nothing else is waited for. -/
theorem shutdown_complete {grace : Nat} {m : Memory} {k : Kernel} {t : State Memory Op Op.Ans (Kernel × Record) Unit}
    (run : Reaches (around grace) ⟨runEventLoop grace,m,(k,{})⟩ t) :
    asked t.program.next? t.mem t.env ∧
      (t.program.returned = true → Stopped t.env.2 ∧ t.env.2.acknowledged = 1) := by
  constructor
  · exact wp_everywhere run (wp_runEventLoop_until servesUntil rfl) fun _ _ _ _ => trivial
  · intro returned
    obtain ⟨p,m',e⟩ := t
    cases p with
    | ret value => exact wp_returns run (wp_runEventLoop_until servesUntil rfl)
    | _ => contradiction

section Runs

def network : ServiceDef := { name := "network", path := "/sbin/net" }

def poweringOff : Kernel :=
  ({} : Kernel).addChild 100 (.service "network" false) (fun _ => false) |>.raise .poweroffRequested

def stopped : Option (State Memory Op Op.Ans (Kernel × Record) Unit) :=
  drive (Kernel.machine.watched (observer (fromSecs 5)))
    (fun op m e => Kernel.obliging (fun _ => true) Config.default op m e.1)
    [.upTo (· == .sleep (fromMillis 50)) 60,.stir (.exit 100 (some (.signaled .sigterm))),.upTo (fun _ => false) 60]
    ⟨runEventLoop (fromSecs 5),{ services := AList.insert 100 ⟨network,[],0⟩ ∅ },(poweringOff,{})⟩

theorem shutdown_complete_network : ∃ m e, Reaches (around (fromSecs 5)) ⟨runEventLoop (fromSecs 5),
    { services := AList.insert 100 ⟨network,[],0⟩ ∅ },(poweringOff,{})⟩ ⟨.ret (),m,e⟩ ∧
    e.2.reaped = [100] ∧ Stopped e.2 ∧ e.2.acknowledged = 1 := by
  have went : stopped.map (fun t => (t.result?,t.env.2.reaped)) = some (some (),[100]) := by decide +kernel
  obtain ⟨t,driven,seen⟩ := Option.map_eq_some_iff.mp went
  obtain ⟨result,reaped⟩ := Prod.mk.inj seen
  have run := drive_returned driven result
  exact ⟨t.mem,t.env,run,reaped,(shutdown_complete run).2 rfl⟩

end Runs
end MitosServices.Shutdown
