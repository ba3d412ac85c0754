import MitosServices.Serving
import MitosServices.Units
import MitosServices.Kernel

/-! Deadlines computed from configured durations. A sum that an instant cannot keep aborts the
process: at a shutdown before anything is stopped, and at the tick of a timer. -/
namespace MitosServices.Deadlines
open Interaction Interaction.Program

/-- The shutdown timeout of the first configuration; whether the next reading of the clock is the one
the shutdown adds it to; and whether the timers are looked at. -/
structure Record where
  grace : Option Nat := none
  closing : Bool := false
  ticking : Bool := false
deriving DecidableEq

def observer : Monitor Memory Op Op.Ans Kernel Event Record where
  event _ _ _ _ g := g
  reply
    | .loadOrDefault, _, _, cfg, g =>
      { g with grace := some (g.grace.getD (fromSecs cfg.shutdownTimeoutSecs)) }
    | .log line, _, _, _, g => if line.closes then { g with closing := true } else g
    | .now, _, _, _, g => { g with closing := false }
    | .swap .statusDumpRequested, _, _, _, g => { g with ticking := true }
    | .waitpid _ _, _, _, _, g => { g with ticking := false }
    | _, _, _, _, g => g

def terms (t : TimerDef) (s : Timers.State) : Option (Nat × Nat) :=
  match s.lastFinished.lookup t.name with
  | none => (t.onBoot <|> t.onActive).map fun d => (s.boot,d)
  | some last => t.onActive.map fun d => (last,d)

theorem dueInstant_eq (t : TimerDef) (s : Timers.State) :
    Timers.dueInstant t s = (terms t s).map fun term => term.1 + term.2 := by
  unfold Timers.dueInstant terms
  cases s.lastFinished.lookup t.name <;> simp [Function.comp_def]

/-- No idle timer waits for longer than an instant can keep. -/
def timersFit (m : Memory) : Bool :=
  m.timers.all fun s => m.timerDefs.all fun t =>
    s.running.contains t.name || (terms t s).all fun term => representable (term.1 + term.2)

/-- Where a deadline is computed, at this reading of the clock, it can be kept. -/
def fits : Condition Memory Op Op.Ans (Kernel × Record) Event where
  event _ _ _ _ := true
  reply
    | .now, m, e, t => (!e.2.closing || representable (t + e.2.grace.getD 0)) &&
      (!e.2.ticking || timersFit m)
    | _, _, _, _ => true

abbrev around : Surroundings Memory Op Op.Ans (Kernel × Record) :=
  ((Kernel.machine.watched observer).under fits).surroundings

def asked (op : Option Op) (_ : Memory) (_ : Kernel × Record) : Prop := op ≠ some .panic

section Rules
variable {op : Op} {m : Memory} {e e' : Kernel × Record} {g : Record} {limit : Nat}

theorem observer_unstirred : observer.Unstirred := fun _ _ _ _ _ => rfl

/-- What calls do not change in the record, programs of such calls do not. -/
theorem record_frame {ok : Op → Prop} {P : Record → Prop}
    (kept : ∀ op m k (r : op.Ans) g, ok op → P g → P (observer.reply op m k r g)) (safe : ∀ op, ok op → op ≠ .panic) :
    around.Frame asked (fun _ _ => True) ok fun _ e => P e.2 where
  updates _ _ _ _ held := held
  moves _ _ _ _ _ moved held := observer_unstirred.moves moved ▸ held
  replies _ _ _ _ _ allowed replied held := by
    rw [(Machine.heard_iff.mp replied).2.2]
    exact kept _ _ _ _ _ allowed held
  holds op _ _ allowed _ := by
    rintro rfl
    exact safe _ (allowed _ rfl) rfl

theorem unaborted_of_serves (serves : op.serves = true) : op ≠ .panic := by
  rintro rfl
  contradiction

structure Open (limit : Nat) (g : Record) : Prop where
  grace : g.grace = some limit
  closing : g.closing = false

theorem open_frame : around.Frame asked (fun _ _ => True) (fun op => op.serves = true)
    fun _ e => Open limit e.2 := by
  apply record_frame
  · intro op m k r g serves held
    cases op with
    | log line =>
      have further : line.closes = false := by simpa [Op.serves] using serves
      simpa [observer,further] using held
    | loadOrDefault => exact ⟨by simp [observer,held.grace],held.closing⟩
    | now => exact ⟨held.grace,rfl⟩
    | swap flag => cases flag <;> exact ⟨held.grace,held.closing⟩
    | waitpid _ _ => exact ⟨held.grace,held.closing⟩
    | _ => exact held
  · exact fun _ => unaborted_of_serves

theorem wp_bind_open {α β : Type} {p : Code α} {f : α → Code β} {Q : β → Memory → Kernel × Record → Prop}
    (serves : Serving p) (held : Open limit e.2)
    (rest : ∀ a m e, Open limit e.2 → (f a).wp around asked Q m e) : (p >>= f).wp around asked Q m e :=
  wp_bind_frame open_frame serves held rest

theorem wp_open {α : Type} {p : Code α} (serves : Serving p) (held : Open limit e.2) :
    p.wp around asked (fun _ _ e => Open limit e.2) m e := wp_frame open_frame serves held

/-- A call by itself: what the condition lets through of its answers, and what is noted of them. -/
theorem wp_noted {Q : op.Ans → Memory → Kernel × Record → Prop} (safe : op ≠ .panic)
    (rest : ∀ k r k', fits.reply op m (k,e.2) r = true → Q r m (k',observer.reply op m k r e.2)) :
    (call op).wp around asked Q m e := by
  apply wp_heard observer_unstirred
  · exact fun _ same => safe (Option.some.inj same)
  · exact fun k r k' allowed _ => rest k r k' allowed

theorem wp_bind_noted {α : Type} {f : op.Ans → Code α} {Q : α → Memory → Kernel × Record → Prop} (safe : op ≠ .panic)
    (rest : ∀ k r k', fits.reply op m (k,e.2) r = true →
      (f r).wp around asked Q m (k',observer.reply op m k r e.2)) : (call op >>= f).wp around asked Q m e :=
  (wp_bind _ _ _ _ _).mpr (wp_noted safe rest)

theorem wp_safe {α : Type} {p : Code α} (safe : p.Uses (fun _ _ => True) fun op => op ≠ .panic) :
    p.wp around asked (fun _ _ _ => True) m e := by
  refine wp_frame (P := fun _ _ => True) ⟨fun _ _ _ _ _ => trivial,fun _ _ _ _ _ _ _ => trivial,
    fun _ _ _ _ _ _ _ _ => trivial,?_⟩ safe trivial
  intro op _ _ allowed _
  rintro rfl
  exact allowed _ rfl rfl

theorem wp_checkInstant {t : Nat} {Q : Unit → Memory → Kernel × Record → Prop} (kept : representable t = true)
    (done : Q () m e) : (checkInstant t).wp around asked Q m e := by
  unfold checkInstant
  rw [wp_provided,if_neg (by simp [kept])]
  exact done

end Rules

section Tick
variable {m : Memory} {e : Kernel × Record} {limit : Nat}

structure Ticking (limit : Nat) (g : Record) : Prop where
  serving : Open limit g
  ticking : g.ticking = true

theorem ticking_frame : around.Frame asked (fun _ _ => True) (fun op => op.serves = true ∧ op.quiet = true)
    fun _ e => Ticking limit e.2 := by
  apply record_frame
  · intro op m k r g allowed held
    obtain ⟨serves,quiet⟩ := allowed
    cases op with
    | log line =>
      have further : line.closes = false := by simpa [Op.serves] using serves
      simpa [observer,further] using held
    | loadOrDefault => exact ⟨⟨by simp [observer,held.serving.grace],held.serving.closing⟩,held.ticking⟩
    | now => exact ⟨⟨held.serving.grace,rfl⟩,held.ticking⟩
    | swap _ => contradiction
    | waitpid _ _ => contradiction
    | _ => exact held
  · exact fun _ allowed => unaborted_of_serves allowed.1

theorem statusSummary_still :
    statusSummary.Uses (fun _ _ => True) fun op => op.serves = true ∧ op.quiet = true := by
  apply uses_mono (uses_and statusSummary_serves statusSummary_plain)
  · exact fun _ _ _ => trivial
  · exact fun _ allowed => ⟨allowed.1,allowed.2.1⟩

theorem wp_dumpStatus (held : Open limit e.2) :
    dumpStatus.wp around asked (fun _ _ e => Ticking limit e.2) m e := by
  refine wp_bind_noted (by simp) ?_
  intro k requested k' _
  have ticking : Ticking limit (observer.reply (.swap .statusDumpRequested) m k requested e.2) :=
    ⟨⟨held.grace,held.closing⟩,rfl⟩
  apply wp_frame ticking_frame _ ticking
  exact uses_provided (
    uses_bind (uses_read fun _ => trivial) fun _ =>
    uses_bind statusSummary_still fun _ =>
    uses_bind (uses_perform ⟨rfl,rfl⟩) fun _ => uses_perform ⟨rfl,rfl⟩)

structure Looking (limit : Nat) (timers : List TimerDef) (s : Timers.State) (m : Memory) (g : Record) :
    Prop where
  ticking : Ticking limit g
  defs : m.timerDefs = timers
  schedule : m.timers = some s

theorem wp_state (ticking : Ticking limit e.2) : Timers.state.wp around asked
    (fun s m' e => Looking limit m.timerDefs s m' e.2) m e := by
  unfold Timers.state
  apply wp_bind_read (by simp [asked])
  cases made : m.timers with
  | some s => exact ⟨ticking,rfl,made⟩
  | none =>
    refine wp_bind_noted (by simp) ?_
    intro k boot k' _
    rw [wp_exchange]
    exact ⟨by simp [asked],⟨⟨ticking.serving.grace,rfl⟩,ticking.ticking⟩,rfl,rfl⟩

variable {timers : List TimerDef} {s : Timers.State}

theorem terms_fit {t : TimerDef} {now : Nat} {k : Kernel} (looking : Looking limit timers s m e.2)
    (member : t ∈ timers) (idle : s.running.contains t.name = false)
    (allowed : fits.reply .now m (k,e.2) now = true) : (Timers.dueInstant t s).all representable = true := by
  have timersFit : timersFit m = true := by
    have either := (Bool.and_eq_true_iff.mp allowed).2
    simpa [looking.ticking.ticking] using either
  rw [Deadlines.timersFit,looking.schedule,looking.defs,Option.all_some,List.all_eq_true] at timersFit
  have fit := timersFit t member
  rw [idle,Bool.false_or] at fit
  rw [dueInstant_eq,Option.all_map]
  exact fit

theorem wp_checks {due : Option Nat} (fit : due.all representable = true) (looking : Looking limit timers s m e.2) :
    (each due.toList checkInstant).wp around asked (fun _ m e => Looking limit timers s m e.2) m e := by
  cases due with
  | none => exact looking
  | some instant => exact (wp_bind _ _ _ _ _).mpr (wp_checkInstant fit looking)

theorem wp_isDue {t : TimerDef} (looking : Looking limit timers s m e.2) (member : t ∈ timers)
    (idle : s.running.contains t.name = false) : (Timers.isDue t s).wp around asked
      (fun _ m e => Looking limit timers s m e.2) m e := by
  refine wp_bind_noted (by simp) ?_
  intro k now k' allowed
  have fit := terms_fit looking member idle allowed
  have later : Looking limit timers s m (observer.reply .now m k now e.2) :=
    ⟨⟨⟨looking.ticking.serving.grace,rfl⟩,looking.ticking.ticking⟩,looking.defs,looking.schedule⟩
  refine wp_then (wp_checks fit later) ?_
  exact fun _ _ _ looking => looking

theorem wp_dueNames {rest : List TimerDef} (looking : Looking limit timers s m e.2) (among : rest ⊆ timers) :
    (Timers.dueNames s rest).wp around asked (fun _ _ e => Open limit e.2) m e := by
  induction rest generalizing m e with
  | nil => exact looking.ticking.serving
  | cons t rest ih =>
    obtain ⟨member,later⟩ := List.cons_subset.mp among
    unfold Timers.dueNames
    split
    · exact ih looking later
    · rename_i idle
      refine wp_then (wp_isDue looking member (by simpa using idle)) ?_
      intro _ m e looking
      exact wp_then (ih looking later) fun _ _ _ held => held

theorem wp_tick (services : List ServiceDef) (ticking : Ticking limit e.2) :
    (Timers.tick m.timerDefs services).wp around asked (fun _ _ e => Open limit e.2) m e := by
  unfold Timers.tick
  split
  · exact ticking.serving
  · refine wp_then (wp_state ticking) ?_
    intro s m' e looking
    refine wp_then (wp_dueNames looking (List.Subset.refl _)) ?_
    intro due m e held
    exact wp_open (uses_each fun name _ => fire_serves services name) held

end Tick

section Shutdown
variable {m : Memory} {e : Kernel × Record} {limit : Nat}

structure Closing (limit : Nat) (g : Record) : Prop where
  grace : g.grace = some limit
  closing : g.closing = true

theorem closing_frame : around.Frame asked (fun _ _ => True) (fun op => op ≠ .now ∧ op ≠ .panic)
    fun _ e => Closing limit e.2 := by
  apply record_frame
  · intro op m k r g allowed held
    cases op with
    | log line =>
      dsimp only [observer]
      split
      · exact ⟨held.grace,rfl⟩
      · exact held
    | loadOrDefault => exact ⟨by simp [observer,held.grace],held.closing⟩
    | now => exact absurd rfl allowed.1
    | swap flag => cases flag <;> exact ⟨held.grace,held.closing⟩
    | waitpid _ _ => exact ⟨held.grace,held.closing⟩
    | _ => exact held
  · exact fun _ allowed => allowed.2

theorem wp_shutdownAll (closing : Closing limit e.2) :
    (shutdownAll limit).wp around asked (fun _ _ _ => True) m e := by
  have calls : ∀ {op : Op}, op ≠ .now → op ≠ .panic → (call op).Uses (fun _ _ => True) fun op => op ≠ .now ∧ op ≠ .panic :=
    fun read aborts => uses_perform ⟨read,aborts⟩
  apply wp_bind_read (by simp [asked])
  refine wp_bind_frame closing_frame (calls (by simp) (by simp)) closing ?_
  intro named m e closing
  refine wp_bind_frame closing_frame (calls (by simp) (by simp)) closing ?_
  intro keyed m e closing
  refine wp_bind_frame closing_frame (uses_each fun _ _ => calls (by simp) (by simp)) closing ?_
  intro _ m e closing
  refine wp_bind_noted (by simp) ?_
  intro k start k' allowed
  have fit : representable (start + limit) = true := by
    have either := (Bool.and_eq_true_iff.mp allowed).1
    simpa [closing.grace,closing.closing] using either
  refine wp_then (wp_checkInstant (Q := fun _ _ _ => True) fit trivial) ?_
  intro _ m e _
  apply wp_safe
  have safe : ∀ {op : Op}, op ≠ .panic → (call op).Uses (fun _ _ => True) fun op => op ≠ .panic :=
    fun aborts => uses_perform aborts
  apply uses_bind (uses_mono (awaitExits_serves _) (fun _ _ _ => trivial) fun _ => unaborted_of_serves)
  exact fun _ =>
    uses_bind (uses_read fun _ => trivial) fun _ =>
    uses_bind (safe (by simp)) fun _ =>
    uses_bind (uses_each fun _ _ => uses_bind (safe (by simp)) fun _ => safe (by simp)) fun _ =>
    uses_each fun _ _ => uses_bind (safe (by simp)) fun _ => safe (by simp)

theorem wp_acknowledge : acknowledgeShutdown.wp around asked (fun _ _ _ => True) m e := by
  apply wp_safe
  apply uses_bind (uses_perform (by simp))
  intro opened
  cases opened with
  | ok _ => exact uses_perform (by simp)
  | error _ => exact uses_perform (by simp)

end Shutdown

section Loop
variable {m : Memory} {e : Kernel × Record} {limit : Nat}

theorem wp_closing {line : Line} (closes : line.closes = true) (held : Open limit e.2) : (do
    log line
    shutdownAll limit
    acknowledgeShutdown : Code Unit).wp around asked (fun _ _ _ => True) m e := by
  refine wp_bind_noted (by simp) ?_
  intro k _ k' _
  have closing : Closing limit (observer.reply (.log line) m k () e.2) := by
    simp only [observer,closes,if_true]
    exact ⟨held.grace,rfl⟩
  refine wp_then (wp_shutdownAll closing) ?_
  exact fun _ _ _ _ => wp_acknowledge

theorem servesUntil : ServesUntil around asked limit (fun _ e => Open limit e.2) (fun _ _ => True) where
  frame := open_frame
  ticks rest R m e held next := by
    apply wp_then (wp_dumpStatus held)
    intro _ m e ticking
    apply wp_bind_read (by simp [asked])
    apply wp_then (wp_tick m.cfg.services ticking)
    exact fun _ m e held => next m e held
  closes _ _ _ closes held := wp_closing closes held

theorem wp_runEventLoop (held : Open limit e.2) :
    (runEventLoop limit).wp around asked (fun _ _ _ => True) m e := wp_runEventLoop_until servesUntil held

end Loop

section Main
variable {m : Memory} {e : Kernel × Record}

structure Fresh (g : Record) : Prop where
  grace : g.grace = none
  closing : g.closing = false

def Op.early (op : Op) : Prop := op.serves = true ∧ op ≠ .loadOrDefault

theorem fresh_frame : around.Frame asked (fun _ _ => True) Op.early fun _ e => Fresh e.2 := by
  apply record_frame
  · intro op m k r g early held
    obtain ⟨serves,unread⟩ := early
    cases op with
    | log line =>
      have further : line.closes = false := by simpa [Op.serves] using serves
      simpa [observer,further] using held
    | loadOrDefault => contradiction
    | now => exact ⟨held.grace,rfl⟩
    | swap flag => cases flag <;> exact ⟨held.grace,held.closing⟩
    | waitpid _ _ => exact ⟨held.grace,held.closing⟩
    | _ => exact held
  · exact fun _ early => unaborted_of_serves early.1

theorem wp_loadConfig (fresh : Fresh e.2) : loadConfig.wp around asked
    (fun cfg _ e => Open (fromSecs cfg.shutdownTimeoutSecs) e.2) m e := by
  refine wp_bind_noted (by simp) ?_
  intro k cfg k' _
  have held : Open (fromSecs cfg.shutdownTimeoutSecs) (observer.reply .loadOrDefault m k cfg e.2) :=
    ⟨by simp [observer,fresh.grace],fresh.closing⟩
  exact wp_bind_open (serving_call rfl) held fun _ _ _ held => held

theorem wp_prepare (fresh : Fresh e.2) : prepare.wp around asked
    (fun cfg _ e => Open (fromSecs cfg.shutdownTimeoutSecs) e.2) m e := by
  have early : ∀ {op : Op}, op.serves = true → op ≠ .loadOrDefault → (call op).Uses (fun _ _ => True) Op.early :=
    fun serves unread => uses_perform ⟨serves,unread⟩
  refine wp_bind_frame fresh_frame (early rfl (by simp)) fresh ?_
  intro _ m e fresh
  refine wp_bind_frame fresh_frame (early rfl (by simp)) fresh ?_
  intro subreaper m e fresh
  refine wp_bind_frame fresh_frame ?_ fresh ?_
  · cases subreaper with
    | ok _ => exact uses_pure _
    | error _ => exact early rfl (by simp)
  intro _ m e fresh
  refine wp_bind_frame fresh_frame (early rfl (by simp)) fresh ?_
  intro available m e fresh
  refine wp_bind_frame fresh_frame (uses_provided (early rfl (by simp))) fresh ?_
  intro _ m e fresh
  refine wp_then (wp_loadConfig fresh) ?_
  intro cfg m e held
  apply wp_bind_open (serving_call rfl) held
  intro _ m e held
  exact wp_bind_open (applyHostname_serves (fun _ _ => rfl) _) held fun _ _ _ held => held

theorem wp_main (fresh : Fresh e.2) : main.wp around asked (fun _ _ _ => True) m e := by
  refine wp_then (wp_prepare fresh) ?_
  intro cfg m e held
  apply wp_bind_open guardSignals_serves held
  intro _ m e held
  apply wp_bind_open (boot_serves cfg) held
  intro _ m e held
  apply wp_bind_open (serving_call rfl) held
  intro unblocked m e held
  apply wp_bind_open (orElseLog_serves fun _ => rfl) held
  exact fun _ m e held => wp_runEventLoop held

end Main

/-- While what is configured fits the clock, the process is never aborted. -/
theorem never_aborts {k : Kernel} {t : State Memory Op Op.Ans (Kernel × Record) Unit}
    (run : Reaches around ⟨main,{},(k,{})⟩ t) : t.program.next? ≠ some .panic :=
  wp_everywhere run (wp_main ⟨rfl,rfl⟩) fun _ _ _ _ => by simp [asked]

section Runs

def files (conf timer : List Char) : Option (List Char) × List TimerDef :=
  (some conf,(Timers.parseTimer (some "backup".toList) timer).toOption.toList)

def reads (read : Option (List Char) × List TimerDef) : Condition Memory Op Op.Ans Kernel Event where
  event _ _ _ _ := true
  reply
    | .loadOrDefault, _, _, cfg => cfg == Config.loadOrDefault read.1
    | .loadTimers, _, _, timers => timers == read.2
    | _, _, _, _ => true

def answered (read : Option (List Char) × List TimerDef) : (op : Op) → Memory → Kernel → op.Ans
  | .loadTimers, _, _ => read.2
  | op, m, k => Kernel.obliging (fun _ => true) (Config.loadOrDefault read.1) op m k

def closingRun : Option (State Memory Op Op.Ans (Kernel × Record) Unit) :=
  drive ((Kernel.machine.watched observer).under fits)
    (fun op m e => answered (files "shutdown_timeout=5".toList []) op m e.1)
    [.upTo (· == .swap .rebootRequested) 200,.stir (.deliver .sigterm),
      .upTo (· == .sleep (fromMillis 50)) 200,.stir (.exit 100 (some (.signaled .sigterm))),.upTo (· == .openAck) 200]
    ⟨main,{},({ clock := 1 },{})⟩

theorem never_aborts_closing : ∃ t, closingRun = some t ∧ t.program.next? = some .openAck ∧
    t.program.next? ≠ some .panic := by
  have there : closingRun.any (fun t => t.program.next? == some .openAck) = true := by decide +kernel
  obtain ⟨t,reached,acknowledges⟩ := (Option.any_eq_true _ _).mp there
  exact ⟨t,reached,beq_iff_eq.mp acknowledges,never_aborts (drive_reaches reached)⟩

def abortedRun (conf timer : List Char) (cues : List (Cue Op Event)) : Option (State Memory Op Op.Ans Kernel Unit) :=
  drive (Kernel.machine.under (reads (files conf timer))) (answered (files conf timer))
    (.upTo (· == .swap .rebootRequested) 200 :: cues ++ [.upTo (· == .panic) 200]) ⟨main,{},{}⟩

theorem aborted_stays {C : Condition Memory Op Op.Ans Kernel Event} {t t' : State Memory Op Op.Ans Kernel Unit}
    (run : Reaches (Kernel.machine.under C).surroundings t t') (aborted : t.program.next? = some .panic) :
    t'.program.next? = some .panic := by
  induction run with
  | refl => exact aborted
  | tail _ step ih =>
    cases step with
    | move op next m e e' moved => exact ih
    | reply op next m e r e' replied =>
      obtain rfl : op = .panic := Option.some.inj ih
      have answered := (Machine.under_answer_iff.mp replied).2
      contradiction
    | access act next m e => contradiction
    | unroll body b next m e => contradiction

/-- What these files say aborts a process that has services, for good. -/
def Aborts (conf timer : List Char) : Prop :=
  ∃ t : State Memory Op Op.Ans Kernel Unit,
    Reaches (Kernel.machine.under (reads (files conf timer))).surroundings ⟨main,{},{}⟩ t ∧
      t.mem.services.entries ≠ [] ∧
      ∀ t', Reaches (Kernel.machine.under (reads (files conf timer))).surroundings t t' →
        t'.program.next? = some .panic

theorem aborts_of_run {conf timer : List Char} {cues : List (Cue Op Event)}
    (went : (abortedRun conf timer cues).any (fun t =>
      t.program.next? == some .panic && !t.mem.services.entries.isEmpty) = true) : Aborts conf timer := by
  obtain ⟨t,reached,there⟩ := (Option.any_eq_true _ _).mp went
  obtain ⟨aborts,serving⟩ := Bool.and_eq_true_iff.mp there
  refine ⟨t,drive_reaches reached,by simpa using serving,?_⟩
  exact fun t' later => aborted_stays later (beq_iff_eq.mp aborts)

/-- As many seconds as a `u64` can say: for the shutdown, and for a timer. -/
theorem aborts_serving :
    Aborts "shutdown_timeout=18446744073709551615".toList [] ∧
      Aborts [] "[Timer]\nOnBootSec=18446744073709551615".toList := by
  constructor
  · exact @aborts_of_run _ _ [.stir (.deliver .sigterm)] (by decide +kernel)
  · exact @aborts_of_run _ _ [] (by decide +kernel)

end Runs
end MitosServices.Deadlines
