import MitosServices.Supervision

/-! Which calls the parts of the program make and which part of the memory they write, so that
what they cannot touch is framed around them. -/
namespace MitosServices
open Interaction Interaction.Program

namespace Op

def supervises : Op → Bool
  | .log line => !line.marks
  | .swap _ | .takePendingIsolate | .takeApp _ | .waitpid .any _ | .blockHandled | .unblockHandled
  | .spawnListener | .spawn (.timer _) _ | .spawn (.app _) _ | .spawn .orphan _ => false
  | _ => true

/-- The calls that neither take a request, nor wait without end, nor change a signal mask. -/
def gentle : Op → Bool
  | .swap _ | .takePendingIsolate | .waitpid .any false | .blockHandled | .unblockHandled
  | .spawnListener => false
  | _ => true

def windsDown : Op → Bool
  | .waitpid .any nohang => nohang
  | op => op.supervises

def offers : Op → Bool
  | .takeApp _ | .log (.timerFinished _ _) => true
  | op => op.quiet && op.mild

theorem gentle_of_supervises {op : Op} (h : op.supervises = true) : op.gentle = true := by
  cases op with
  | waitpid target nohang =>
    cases target with
    | any => contradiction
    | only pid => rfl
  | _ => first | rfl | contradiction

theorem windsDown_of_supervises {op : Op} (h : op.supervises = true) : op.windsDown = true := by
  cases op with
  | waitpid target nohang =>
    cases target with
    | any => contradiction
    | only pid => rfl
  | _ => exact h

theorem gentle_of_windsDown {op : Op} (h : op.windsDown = true) : op.gentle = true := by
  cases op with
  | waitpid target nohang =>
    cases target with
    | any =>
      obtain rfl : nohang = true := h
      rfl
    | only pid => rfl
  | _ => exact gentle_of_supervises h

theorem offers_of_plain {op : Op} (plain : op.Plain) : op.offers = true := by
  obtain ⟨quiet,mild⟩ := plain
  cases op with
  | log line =>
    cases line with
    | timerFinished name pid => rfl
    | _ => simp only [offers,quiet,mild,Bool.and_self]
  | takeApp pid => rfl
  | _ => simp only [offers,quiet,mild,Bool.and_self]

theorem gentle_of_offers {op : Op} (h : op.offers = true) : op.gentle = true := by
  cases op with
  | waitpid target nohang => contradiction
  | _ => first | rfl | contradiction

theorem supervises_of_plain {op : Op} (h : op.Plain) : op.supervises = true := by
  obtain ⟨quiet,mild⟩ := h
  cases op with
  | log line => exact quiet
  | _ => first | rfl | contradiction

end Op

def OnlyServices (m m' : Memory) : Prop := m' = { m with services := m'.services }

def OnlyTimers (m m' : Memory) : Prop := m' = { m with timers := m'.timers }

theorem onlyServices_of_eq (m m' : Memory) (same : m = m') : OnlyServices m m' := by
  subst same
  rfl

theorem onlyTimers_of_eq (m m' : Memory) (same : m = m') : OnlyTimers m m' := by
  subst same
  rfl

section Frames
variable {Env : Type} {S : Surroundings Memory Op Op.Ans Env} {A : Option Op → Memory → Env → Prop}
  {m : Memory} {e : Env}

/-- A part that writes no more than the table of services has left the rest of the memory as it is. -/
theorem wp_onlyServices {α : Type} {ok : Op → Prop} {p : Code α} {Q : α → Memory → Env → Prop}
    (uses : p.Uses OnlyServices ok) (done : p.wp S A Q m e) :
    p.wp S A (fun a m' e' => Q a m' e' ∧ OnlyServices m m') m e := by
  refine wp_writes (fun m₁ m₂ written before => ?_) uses rfl done
  unfold OnlyServices at written before ⊢
  rw [written,before]

theorem onlyServices_iff {m' : Memory} (only : OnlyServices m m') : m'.cfg = m.cfg ∧
    m'.currentTarget = m.currentTarget ∧ m'.watch = m.watch ∧ m'.timerDefs = m.timerDefs := by
  unfold OnlyServices at only
  rw [only]
  exact ⟨rfl,rfl,rfl,rfl⟩

end Frames

section Supervisor

abbrev Supervising {α : Type} (p : Code α) : Prop :=
  p.Uses OnlyServices fun op => op.supervises = true

theorem supervising_of_plain {α : Type} {p : Code α} (plain : p.Uses Eq Op.Plain) : Supervising p :=
  uses_mono plain onlyServices_of_eq fun _ => Op.supervises_of_plain

theorem supervising_call {op : Op} (allowed : op.supervises = true) : Supervising (call op) :=
  uses_perform allowed

abbrev Managing {α : Type} (p : Code α) : Prop :=
  p.Uses OnlyServices fun op => op.supervises = true ∧ op.configures = false

theorem supervising_of_managing {α : Type} {p : Code α} (h : Managing p) : Supervising p :=
  uses_mono h (fun _ _ written => written) fun _ allowed => allowed.1

theorem managing_of_calm {α : Type} {p : Code α} (calm : p.Uses Eq Op.Calm) : Managing p :=
  uses_mono calm onlyServices_of_eq fun _ allowed =>
    ⟨Op.supervises_of_plain allowed.plain,allowed.unconfigured⟩

theorem managing_read : Managing (read : Code Memory) := uses_read fun _ => rfl

theorem managing_call {op : Op} (allowed : (op.supervises && !op.configures) = true) :
    Managing (call op) := by
  simp only [Bool.and_eq_true,Bool.not_eq_true'] at allowed
  exact uses_perform allowed

theorem managing_removeService (pid : Int) : Managing (removeService pid) := uses_exchange fun _ => rfl

abbrev Following {α : Type} (p : Code α) : Prop := p.Uses OnlyServices fun op => op.besides = true

theorem following_call {op : Op} (allowed : op.besides = true) : Following (call op) :=
  uses_perform allowed

theorem track_follows (pid : Int) (d : ServiceDef) (times : List Nat) : Following (track pid d times) :=
  uses_bind (following_call rfl) fun _ => uses_update fun _ => rfl

theorem started_follows (d : ServiceDef) (times : List Nat) (pid : Int) :
    Following (started d times pid) :=
  uses_bind (following_call rfl) fun _ =>
  uses_bind (following_call rfl) fun _ =>
  uses_bind (following_call rfl) fun _ =>
  uses_bind (uses_each fun _ _ => following_call rfl) fun _ => track_follows _ _ _

theorem rescued_follows (pid : Int) : Following (rescued pid) :=
  uses_bind (following_call rfl) fun _ =>
  uses_bind (following_call rfl) fun _ =>
  uses_bind (following_call rfl) fun _ => track_follows _ _ _

theorem managing_of_following {α : Type} {p : Code α} (h : Following p) : Managing p := by
  refine uses_mono h (fun _ _ written => written) fun _ allowed => ?_
  obtain ⟨plain,apart⟩ := Op.plain_of_besides allowed
  exact ⟨Op.supervises_of_plain plain,apart⟩

theorem started_manages (d : ServiceDef) (times : List Nat) (pid : Int) :
    Managing (started d times pid) :=
  managing_of_following (started_follows d times pid)

theorem rescued_manages (pid : Int) : Managing (rescued pid) :=
  managing_of_following (rescued_follows pid)

theorem fallBack_manages : Managing fallBack := by
  refine uses_bind (managing_call rfl) fun shell => ?_
  cases shell with
  | ok pid => exact rescued_manages pid
  | error _ => exact uses_pure ()

theorem spawnWithHistory_manages (d : ServiceDef) (times : List Nat) :
    Managing (spawnWithHistory d times) := by
  have prepares : Managing (prepareCommand d) :=
    managing_of_following (uses_mono (prepareCommand_besides d) onlyServices_of_eq fun _ allowed => allowed)
  refine uses_bind prepares fun command => ?_
  refine uses_bind (managing_call rfl) fun child => ?_
  cases child with
  | ok pid => exact started_manages d times pid
  | error e => exact uses_bind (managing_call rfl) fun _ => uses_provided fallBack_manages

theorem startOne_manages (configured spawned : List String) (d : ServiceDef) :
    Managing (startOne configured spawned d) := by
  unfold startOne
  dsimp only
  split
  · exact uses_bind (managing_call rfl) fun _ => uses_pure _
  · exact uses_bind (uses_each fun _ _ => managing_of_calm (waitForReady_calm _ _)) fun _ =>
      uses_bind (spawnWithHistory_manages d []) fun _ =>
      uses_bind managing_read fun _ => uses_pure _

theorem startEach_manages (configured spawned : List String) (defs : List ServiceDef) :
    Managing (startEach configured spawned defs) := by
  induction defs generalizing spawned with
  | nil => exact uses_pure ()
  | cons d rest ih => exact uses_bind (startOne_manages configured spawned d) fun _ => ih _

theorem spawnAll_manages (defs : List ServiceDef) : Managing (spawnAll defs) := by
  refine uses_bind ?_ fun ordered => startEach_manages _ _ ordered
  exact uses_bind (uses_provided (managing_call rfl)) fun _ => uses_pure _

theorem stopOne_manages (pid : Int) (name : String) : Managing (stopOne pid name) := by
  refine uses_bind (managing_call rfl) fun _ => uses_bind (managing_call rfl) fun start => ?_
  refine uses_bind (uses_repeatFrom fun _ => ?_) fun _ => managing_call rfl
  refine uses_bind (managing_call rfl) fun t => ?_
  split
  · exact uses_bind (managing_call rfl) fun _ => uses_pure _
  · refine uses_bind (managing_call rfl) fun status => ?_
    split
    · exact uses_pure _
    · exact uses_bind (managing_call rfl) fun _ => uses_pure _
    · exact uses_pure _

theorem stopRemoved_manages (pid : Int) : Managing (stopRemoved pid) := by
  refine uses_bind (managing_removeService pid) fun removed => ?_
  cases removed with
  | none => exact uses_pure ()
  | some sup =>
    exact uses_bind (managing_call rfl) fun _ =>
      uses_bind (stopOne_manages _ _) fun _ => managing_call rfl

theorem replace_manages (pid : Int) (d : ServiceDef) : Managing (replace pid d) :=
  uses_bind (managing_call rfl) fun _ =>
  uses_bind (managing_removeService pid) fun _ =>
  uses_bind (stopOne_manages _ _) fun _ => spawnWithHistory_manages d []

theorem reconcileOne_manages (d : ServiceDef) : Managing (reconcileOne d) := by
  refine uses_bind managing_read fun m => ?_
  refine uses_bind (managing_of_calm (entries_calm _)) fun visited => ?_
  split
  · split
    · exact uses_pure _
    · exact uses_bind (replace_manages _ _) fun _ => uses_pure _
  · exact uses_bind (managing_call rfl) fun _ =>
      uses_bind (spawnWithHistory_manages d []) fun _ => uses_pure _

theorem reconcile_manages (touched : List String) (defs : List ServiceDef) :
    Managing (reconcile touched defs) := by
  induction defs generalizing touched with
  | nil => exact uses_pure _
  | cons d rest ih => exact uses_bind (reconcileOne_manages d) fun _ => ih _

theorem reloadServices_manages (defs : List ServiceDef) : Managing (reloadServices defs) :=
  uses_bind managing_read fun _ =>
  uses_bind (managing_of_calm (entries_calm _)) fun _ =>
  uses_bind (uses_each fun _ _ => stopRemoved_manages _) fun _ => reconcile_manages _ _

theorem spawnWithHistory_supervises (d : ServiceDef) (times : List Nat) :
    Supervising (spawnWithHistory d times) := supervising_of_managing (spawnWithHistory_manages d times)

theorem spawnAll_supervises (defs : List ServiceDef) : Supervising (spawnAll defs) :=
  supervising_of_managing (spawnAll_manages defs)

theorem reloadServices_supervises (defs : List ServiceDef) : Supervising (reloadServices defs) :=
  supervising_of_managing (reloadServices_manages defs)

end Supervisor

section Shutdown

abbrev WindingDown {α : Type} (p : Code α) : Prop :=
  p.Uses OnlyServices fun op => op.windsDown = true

theorem windingDown_of_supervising {α : Type} {p : Code α} (h : Supervising p) : WindingDown p :=
  uses_mono h (fun _ _ written => written) fun _ => Op.windsDown_of_supervises

abbrev ShuttingDown {α : Type} (p : Code α) : Prop :=
  p.Uses OnlyServices fun op => op.windsDown = true ∧ op.starts = false

theorem windingDown_of_shuttingDown {α : Type} {p : Code α} (h : ShuttingDown p) : WindingDown p :=
  uses_mono h (fun _ _ written => written) fun _ allowed => allowed.1

theorem shuttingDown_call {op : Op} (allowed : (op.windsDown && !op.starts) = true) :
    ShuttingDown (call op) := by
  simp only [Bool.and_eq_true,Bool.not_eq_true'] at allowed
  exact uses_perform allowed

theorem shuttingDown_read : ShuttingDown (read : Code Memory) := uses_read fun _ => rfl

theorem awaitExits_shutsDown (deadline : Nat) : ShuttingDown (awaitExits deadline) := by
  refine uses_repeatFrom fun _ => uses_bind (shuttingDown_call rfl) fun t =>
    uses_bind shuttingDown_read fun m => ?_
  split
  · refine uses_bind (shuttingDown_call rfl) fun status => ?_
    split
    · exact uses_bind (uses_exchange fun _ => rfl) fun _ => uses_pure _
    · exact uses_bind (shuttingDown_call rfl) fun _ => uses_pure _
    · exact uses_pure _
    · exact uses_pure _
    · exact uses_bind (shuttingDown_call rfl) fun _ => uses_pure _
  · exact uses_pure _

theorem shutdownAll_shutsDown (grace : Nat) : ShuttingDown (shutdownAll grace) :=
  uses_bind shuttingDown_read fun _ =>
  uses_bind (shuttingDown_call rfl) fun _ =>
  uses_bind (shuttingDown_call rfl) fun _ =>
  uses_bind (uses_each fun _ _ => shuttingDown_call rfl) fun _ =>
  uses_bind (shuttingDown_call rfl) fun _ =>
  uses_bind (uses_provided (shuttingDown_call rfl)) fun _ =>
  uses_bind (awaitExits_shutsDown _) fun _ =>
  uses_bind shuttingDown_read fun _ =>
  uses_bind (shuttingDown_call rfl) fun _ =>
  uses_bind (uses_each fun _ _ => uses_bind (shuttingDown_call rfl) fun _ => shuttingDown_call rfl)
    fun _ =>
  uses_each fun _ _ => uses_bind (shuttingDown_call rfl) fun _ => shuttingDown_call rfl

theorem shutdownAll_windsDown (grace : Nat) : WindingDown (shutdownAll grace) :=
  windingDown_of_shuttingDown (shutdownAll_shutsDown grace)

end Shutdown

section Gentle

abbrev Gentle {α : Type} (p : Code α) : Prop := p.Uses (fun _ _ => True) fun op => op.gentle = true

theorem gentle_of_supervising {α : Type} {p : Code α} (h : Supervising p) : Gentle p :=
  uses_mono h (fun _ _ _ => trivial) fun _ => Op.gentle_of_supervises

theorem gentle_of_plain {α : Type} {p : Code α} (h : p.Uses Eq Op.Plain) : Gentle p :=
  gentle_of_supervising (supervising_of_plain h)

theorem gentle_call {op : Op} (allowed : op.gentle = true) : Gentle (call op) := uses_perform allowed

theorem gentle_read : Gentle (read : Code Memory) := uses_read fun _ => trivial

theorem gentle_update (f : Memory → Memory) : Gentle (update f : Code Unit) := uses_update fun _ => trivial

def Op.answersExit : Op → Bool
  | .log (.serviceEnded _ _) | .log (.givingUp _ _) => true
  | op => op.supervises && !op.configures

abbrev AnsweringExit {α : Type} (p : Code α) : Prop :=
  p.Uses OnlyServices fun op => op.answersExit = true

theorem answeringExit_of_managing {α : Type} {p : Code α} (h : Managing p) : AnsweringExit p := by
  refine uses_mono h (fun _ _ written => written) fun op allowed => ?_
  unfold Op.answersExit
  split
  · rfl
  · rfl
  · simp only [allowed,Bool.not_false,Bool.and_self]

theorem answeringExit_call {op : Op} (allowed : op.answersExit = true) : AnsweringExit (call op) :=
  uses_perform allowed

theorem restart_answersExit (sup : Supervised) : AnsweringExit (restart sup) := by
  refine uses_bind (answeringExit_call rfl) fun t => ?_
  dsimp only
  split
  · exact uses_bind (answeringExit_call rfl) fun _ => uses_pure _
  · exact uses_bind (answeringExit_of_managing (spawnWithHistory_manages _ _)) fun _ => uses_pure _

theorem handleExit_answersExit (status : WaitStatus) : AnsweringExit (handleExit status) := by
  cases status with
  | stillAlive => exact uses_pure _
  | other => exact uses_pure _
  | ended pid ending =>
    refine uses_bind (answeringExit_of_managing (managing_removeService pid)) fun removed => ?_
    cases removed with
    | none => exact uses_pure _
    | some sup =>
      refine uses_bind (answeringExit_call rfl) fun _ => uses_bind (answeringExit_call rfl) fun _ =>
        uses_bind (answeringExit_call rfl) fun _ => ?_
      split
      · exact uses_pure _
      · split
        · exact restart_answersExit sup
        · exact uses_pure _

theorem Op.gentle_of_answersExit {op : Op} (h : op.answersExit = true) : op.gentle = true := by
  unfold answersExit at h
  split at h
  · rfl
  · rfl
  · exact gentle_of_supervises (Bool.and_eq_true_iff.mp h).1

theorem handleExit_gentle (status : WaitStatus) : Gentle (handleExit status) :=
  uses_mono (handleExit_answersExit status) (fun _ _ _ => trivial) fun _ => Op.gentle_of_answersExit

theorem acknowledgeShutdown_plain : acknowledgeShutdown.Uses Eq Op.Plain := by
  refine uses_bind (plain_call rfl) fun opened => ?_
  cases opened with
  | ok _ => exact plain_call rfl
  | error _ => exact plain_call rfl

theorem acknowledgeShutdown_gentle : Gentle acknowledgeShutdown := gentle_of_plain acknowledgeShutdown_plain

theorem shutdownAll_gentle (grace : Nat) : Gentle (shutdownAll grace) :=
  uses_mono (shutdownAll_windsDown grace) (fun _ _ _ => trivial) fun _ => Op.gentle_of_windsDown

theorem stopServing_gentle (grace : Nat) : Gentle (stopServing grace) :=
  uses_bind (gentle_call rfl) fun _ =>
  uses_bind (shutdownAll_gentle grace) fun _ =>
  uses_bind acknowledgeShutdown_gentle fun _ => uses_pure _

theorem expiredAmong_calm (t : Nat) (visited : List (Int × Supervised)) :
    (expiredAmong t visited).Uses Eq Op.Calm := by
  induction visited with
  | nil => exact uses_pure _
  | cons entry rest ih =>
    obtain ⟨pid,sup⟩ := entry
    unfold expiredAmong
    split
    · exact ih
    · exact uses_bind (calm_call rfl) fun _ => uses_bind ih fun _ => uses_pure _

theorem expiredWatchdogs_calm : expiredWatchdogs.Uses Eq Op.Calm :=
  uses_bind (calm_call rfl) fun _ =>
  uses_bind (uses_read fun _ => rfl) fun _ =>
  uses_bind (entries_calm _) fun _ => expiredAmong_calm _ _

theorem expiredWatchdogs_plain : expiredWatchdogs.Uses Eq Op.Plain := plain_of_calm expiredWatchdogs_calm

theorem killExpired_gentle : Gentle killExpired :=
  uses_bind (gentle_of_plain expiredWatchdogs_plain) fun _ =>
  uses_each fun _ _ => uses_bind (gentle_call rfl) fun _ => gentle_call rfl

theorem statusLines_calm (visited : List (Int × Supervised)) :
    (statusLines visited).Uses Eq Op.Calm := by
  induction visited with
  | nil => exact uses_pure _
  | cons entry rest ih => exact uses_bind (calm_call rfl) fun _ => uses_bind ih fun _ => uses_pure _

theorem statusSummary_calm : statusSummary.Uses Eq Op.Calm := by
  refine uses_bind (uses_read fun _ => rfl) fun m => ?_
  split
  · exact uses_pure _
  · exact uses_bind (entries_calm _) fun _ => uses_bind (statusLines_calm _) fun _ => uses_pure _

theorem statusSummary_plain : statusSummary.Uses Eq Op.Plain := plain_of_calm statusSummary_calm

end Gentle

section Timers

def Op.times : Op → Bool
  | .spawn (.timer _) _ => true
  | op => op.quiet && op.mild

abbrev Timing {α : Type} (p : Code α) : Prop := p.Uses OnlyTimers fun op => op.times = true

structure Op.Ticks (op : Op) : Prop where
  times : op.times = true
  unconfigured : op.configures = false
  unstarted : op.starts = false
  unacknowledged : op.acknowledges = false

abbrev Ticking {α : Type} (p : Code α) : Prop := p.Uses OnlyTimers Op.Ticks

theorem timing_of_ticking {α : Type} {p : Code α} (h : Ticking p) : Timing p :=
  uses_mono h (fun _ _ written => written) fun _ allowed => allowed.times

theorem ticking_call {op : Op}
    (allowed : (op.times && !op.configures && !op.starts && !op.acknowledges) = true) : Ticking (call op) := by
  simp only [Bool.and_eq_true,Bool.not_eq_true'] at allowed
  exact uses_perform ⟨allowed.1.1.1,allowed.1.1.2,allowed.1.2,allowed.2⟩

theorem Op.times_of_plain {op : Op} (plain : op.Plain) : op.times = true := by
  obtain ⟨quiet,mild⟩ := plain
  cases op with
  | spawn origin command => contradiction
  | _ => simp only [Op.times,quiet,mild,Bool.and_self]

theorem Op.ticks_of_calm {op : Op} (calm : op.Calm) : op.Ticks :=
  ⟨Op.times_of_plain calm.plain,calm.unconfigured,calm.unstarted,calm.unacknowledged⟩

theorem ticking_of_calm {α : Type} {p : Code α} (h : p.Uses Eq Op.Calm) : Ticking p :=
  uses_mono h onlyTimers_of_eq fun _ => Op.ticks_of_calm

theorem state_calm : Timers.state.Uses OnlyTimers Op.Calm := by
  refine uses_bind (uses_read fun _ => rfl) fun m => ?_
  split
  · exact uses_pure _
  · exact uses_bind (uses_mono (calm_call rfl) onlyTimers_of_eq fun _ calm => calm) fun _ =>
      uses_exchange fun _ => rfl

theorem state_ticks : Ticking Timers.state :=
  uses_mono state_calm (fun _ _ written => written) fun _ => Op.ticks_of_calm

theorem isDue_calm (t : TimerDef) (s : Timers.State) : (Timers.isDue t s).Uses Eq Op.Calm :=
  uses_bind (calm_call rfl) fun _ =>
  uses_bind (uses_each fun _ _ => checkInstant_calm _) fun _ => uses_pure _

theorem dueNames_calm (s : Timers.State) (timers : List TimerDef) :
    (Timers.dueNames s timers).Uses Eq Op.Calm := by
  induction timers with
  | nil => exact uses_pure _
  | cons t rest ih =>
    unfold Timers.dueNames
    split
    · exact ih
    · exact uses_bind (isDue_calm t s) fun _ => uses_bind ih fun _ => uses_pure _

theorem dueNames_plain (s : Timers.State) (timers : List TimerDef) :
    (Timers.dueNames s timers).Uses Eq Op.Plain := plain_of_calm (dueNames_calm s timers)

theorem changeState_ticks (change : Timers.State → Timers.State) : Ticking (Timers.changeState change) :=
  uses_update fun _ => rfl

theorem spawnOneshot_ticks (d : ServiceDef) : Ticking (Timers.spawnOneshot d) :=
  uses_bind (ticking_of_calm (resolveWith_uses (fun _ => calm_call rfl) _)) fun _ =>
  uses_bind (ticking_of_calm (resolveWith_uses (fun _ => calm_call rfl) _)) fun _ => ticking_call rfl

theorem fire_ticks (services : List ServiceDef) (name : String) : Ticking (Timers.fire services name) := by
  unfold Timers.fire
  split
  · exact ticking_call rfl
  · refine uses_bind (spawnOneshot_ticks _) fun child => ?_
    cases child with
    | ok pid => exact uses_bind (ticking_call rfl) fun _ => changeState_ticks _
    | error _ => exact ticking_call rfl

theorem tick_ticks (timers : List TimerDef) (services : List ServiceDef) :
    Ticking (Timers.tick timers services) := by
  unfold Timers.tick
  split
  · exact uses_pure _
  · exact uses_bind state_ticks fun _ =>
      uses_bind (ticking_of_calm (dueNames_calm _ _)) fun _ =>
      uses_each fun _ _ => fire_ticks _ _

theorem tick_times (timers : List TimerDef) (services : List ServiceDef) :
    Timing (Timers.tick timers services) := timing_of_ticking (tick_ticks timers services)

theorem gentle_of_timing {α : Type} {p : Code α} (h : Timing p) : Gentle p := by
  refine uses_mono h (fun _ _ _ => trivial) fun op times => ?_
  cases op with
  | waitpid target nohang => contradiction
  | _ => first | rfl | contradiction

structure Op.Offers (op : Op) : Prop where
  offers : op.offers = true
  unconfigured : op.configures = false
  unstarted : op.starts = false

abbrev Offering {α : Type} (p : Code α) : Prop := p.Uses OnlyTimers Op.Offers

theorem offering_call {op : Op} (allowed : (op.offers && !op.configures && !op.starts) = true) :
    Offering (call op) := by
  simp only [Bool.and_eq_true,Bool.not_eq_true'] at allowed
  exact uses_perform ⟨allowed.1.1,allowed.1.2,allowed.2⟩

theorem state_offers : Offering Timers.state :=
  uses_mono state_calm (fun _ _ written => written) fun _ allowed =>
    ⟨Op.offers_of_plain allowed.plain,allowed.unconfigured,allowed.unstarted⟩

theorem reap_offers (pid : Int) : Offering (Timers.reap pid) := by
  refine uses_bind state_offers fun _ => uses_bind (uses_exchange fun _ => rfl) fun removed => ?_
  cases removed with
  | none => exact uses_pure _
  | some name =>
    exact uses_bind (offering_call rfl) fun _ => uses_bind (offering_call rfl) fun _ =>
      uses_bind (uses_update fun _ => rfl) fun _ => uses_pure _

end Timers

section Requests

theorem begin_manages (newCfg previous : Config) (target : String) :
    Managing (Rollback.begin newCfg previous target) :=
  uses_bind (reloadServices_manages _) fun touched => by
    refine uses_bind (managing_call ?_) fun _ => uses_bind (managing_call rfl) fun _ => uses_pure _
    cases touched <;> rfl

theorem begin_supervises (newCfg previous : Config) (target : String) :
    Supervising (Rollback.begin newCfg previous target) :=
  supervising_of_managing (begin_manages newCfg previous target)

theorem loadConfig_plain : loadConfig.Uses Eq Op.Plain :=
  uses_bind (plain_call rfl) fun _ => uses_bind (plain_call rfl) fun _ => uses_pure _

theorem calm_log {line : Line} (unmarked : line.marks = false) : (log line).Uses Eq Op.Calm := by
  refine uses_perform ⟨by simp [Op.Plain,Op.quiet,Op.mild,unmarked],?_,rfl,rfl⟩
  cases line <;> first | rfl | contradiction

theorem applyHostname_calm {refused : String → String → Line}
    (unmarked : ∀ h e, (refused h e).marks = false) (hostname : Option String) :
    (applyHostname refused hostname).Uses Eq Op.Calm := by
  refine uses_each fun h _ => uses_bind (calm_call rfl) fun result => ?_
  cases result with
  | ok _ => exact uses_pure _
  | error e => exact calm_log (unmarked h e)

theorem applyHostname_plain {refused : String → String → Line}
    (unmarked : ∀ h e, (refused h e).marks = false) (hostname : Option String) :
    (applyHostname refused hostname).Uses Eq Op.Plain := plain_of_calm (applyHostname_calm unmarked hostname)

theorem publishTargets_plain (target : String) (services : List ServiceDef) :
    (publishTargets target services).Uses Eq Op.Plain := plain_call rfl

theorem orElseLog_calm {result : Except String Unit} {refused : String → Line}
    (unmarked : ∀ err, (refused err).marks = false) : (orElseLog result refused).Uses Eq Op.Calm := by
  cases result with
  | ok _ => exact uses_pure _
  | error err => exact calm_log (unmarked err)

theorem orElseLog_plain {result : Except String Unit} {refused : String → Line}
    (unmarked : ∀ err, (refused err).marks = false) : (orElseLog result refused).Uses Eq Op.Plain :=
  plain_of_calm (orElseLog_calm unmarked)

theorem prepare_plain : prepare.Uses Eq Op.Plain := by
  refine uses_bind (plain_call rfl) fun _ => uses_bind (plain_call rfl) fun subreaper => ?_
  refine uses_bind (orElseLog_plain fun _ => rfl) fun _ => ?_
  refine uses_bind (plain_call rfl) fun available => ?_
  refine uses_bind (uses_provided (plain_call rfl)) fun _ => ?_
  refine uses_bind loadConfig_plain fun cfg => uses_bind (plain_call rfl) fun _ => ?_
  exact uses_bind (applyHostname_plain (fun _ _ => rfl) _) fun _ => uses_pure _

def OnlyIsolated (m m' : Memory) : Prop :=
  m' = { m with services := m'.services, currentTarget := m'.currentTarget }

def Op.isolates : Op → Bool
  | .publishTargets _ _ => true
  | op => op.supervises && !op.configures

theorem isolates_of_managing {α : Type} {p : Code α} (h : Managing p) :
    p.Uses OnlyIsolated fun op => op.isolates = true := by
  refine uses_mono h (fun m m' written => ?_) fun op allowed => ?_
  · unfold OnlyServices at written
    rw [written]
    rfl
  · unfold Op.isolates
    split
    · rfl
    · simp only [allowed,Bool.not_false,Bool.and_self]

theorem isolate_isolates (name : String) :
    (isolate name).Uses OnlyIsolated fun op => op.isolates = true := by
  refine uses_bind (uses_read fun _ => rfl) fun m => ?_
  split
  · exact isolates_of_managing (managing_call rfl)
  · exact uses_bind (isolates_of_managing (managing_call rfl)) fun _ =>
      uses_bind (isolates_of_managing (reloadServices_manages _)) fun _ =>
      uses_bind (uses_update fun _ => rfl) fun _ => uses_perform rfl

theorem isolate_uses (name : String) :
    (isolate name).Uses OnlyIsolated fun op => op.supervises = true := by
  refine uses_mono (isolate_isolates name) (fun _ _ written => written) fun op allowed => ?_
  unfold Op.isolates at allowed
  split at allowed
  · rfl
  · exact (Bool.and_eq_true_iff.mp allowed).1

theorem applyReload_gentle : Gentle applyReload :=
  uses_bind (gentle_call rfl) fun _ =>
  uses_bind (gentle_of_plain loadConfig_plain) fun _ =>
  uses_bind (gentle_call rfl) fun _ =>
  uses_bind (gentle_of_plain (applyHostname_plain (fun _ _ => rfl) _)) fun _ =>
  uses_bind (gentle_call rfl) fun _ =>
  uses_bind (gentle_update _) fun _ =>
  uses_bind gentle_read fun _ =>
  uses_bind (gentle_of_supervising (begin_supervises _ _ _)) fun _ =>
  uses_bind (gentle_update _) fun _ => gentle_of_plain (publishTargets_plain _ _)

theorem isolate_gentle (name : String) : Gentle (isolate name) :=
  uses_mono (isolate_uses name) (fun _ _ _ => trivial) fun _ => Op.gentle_of_supervises

end Requests

section Dispatch

def Outcome.failedName : Outcome → Option String
  | .continue => none
  | .halt name | .gaveUp name => some name

theorem reapApp_offers (pid : Int) : Offering (reapApp pid) := by
  refine uses_bind (offering_call rfl) fun removed => ?_
  cases removed with
  | none => exact uses_pure _
  | some info =>
    exact uses_bind (offering_call rfl) fun _ => uses_bind (offering_call rfl) fun _ => uses_pure _

theorem offer_offers (pid : Int) : Offering (offer pid) := by
  refine uses_bind (reap_offers pid) fun timer => ?_
  cases timer with
  | true => exact uses_pure _
  | false => exact reapApp_offers pid

theorem offer_gentle (pid : Int) : Gentle (offer pid) :=
  uses_mono (offer_offers pid) (fun _ _ _ => trivial) fun _ offered => Op.gentle_of_offers offered.offers

theorem restore_gentle (watch : Watch) (name : String) : Gentle (Rollback.restore watch name) :=
  uses_bind (gentle_call rfl) fun _ =>
  uses_bind (gentle_of_supervising (reloadServices_supervises _)) fun _ =>
  uses_bind (gentle_call rfl) fun _ =>
  uses_bind (uses_each fun _ _ => uses_bind (gentle_call rfl) fun _ => uses_pure _) fun _ =>
  uses_bind (gentle_call rfl) fun _ => gentle_update _

theorem check_gentle (watch : Watch) (failedName : Option String) :
    Gentle (Rollback.check watch failedName) := by
  unfold Rollback.check
  split
  · exact uses_bind (restore_gentle _ _) fun _ => uses_pure _
  · refine uses_bind (gentle_call rfl) fun t => ?_
    split
    · exact uses_pure _
    · exact uses_bind (gentle_call rfl) fun _ => uses_pure _

theorem resolveWatch_gentle (failedName : Option String) : Gentle (resolveWatch failedName) :=
  uses_bind (uses_exchange fun _ => trivial) fun _ =>
  uses_each fun _ _ => uses_bind (check_gentle _ _) fun _ => gentle_update _

theorem judge_gentle (grace : Nat) (outcome : Outcome) : Gentle (judge grace outcome) := by
  cases outcome with
  | «continue» => exact uses_bind (resolveWatch_gentle _) fun _ => uses_pure _
  | gaveUp name => exact uses_bind (resolveWatch_gentle _) fun _ => uses_pure _
  | halt name =>
    refine uses_bind gentle_read fun m => ?_
    split
    · exact uses_bind (resolveWatch_gentle _) fun _ => uses_pure _
    · exact uses_bind (gentle_call rfl) fun _ => uses_bind (shutdownAll_gentle grace) fun _ =>
        uses_bind acknowledgeShutdown_gentle fun _ => uses_pure _

theorem dispatchExit_gentle (grace : Nat) (pid : Int) (ending : Ending) :
    Gentle (dispatchExit grace pid ending) := by
  refine uses_bind (offer_gentle pid) fun claimed => ?_
  refine uses_bind ?_ fun outcome => judge_gentle grace outcome
  cases claimed with
  | true => exact uses_pure _
  | false => exact handleExit_gentle (.ended pid ending)

theorem dispatch_gentle (grace : Nat) (polling : Bool) (waited : Except Errno WaitStatus) :
    Gentle (dispatch grace polling waited) := by
  match waited with
  | .ok (.ended pid ending) => exact dispatchExit_gentle grace pid ending
  | .ok .stillAlive =>
    exact uses_bind (uses_provided (gentle_call rfl)) fun _ =>
      uses_bind (resolveWatch_gentle _) fun _ => uses_pure _
  | .ok .other => exact uses_bind (handleExit_gentle _) fun outcome => judge_gentle grace outcome
  | .error .eintr => exact uses_pure _
  | .error .echild =>
    exact uses_bind (gentle_call rfl) fun _ => uses_bind (gentle_call rfl) fun _ => uses_pure _
  | .error .other => exact uses_bind (gentle_call rfl) fun _ => uses_pure _

end Dispatch
end MitosServices
