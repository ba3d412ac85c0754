import MitosServices.Kernel

/-! What the supervisor's operations do among any surroundings: which calls they make, and one
rule each for a start and for a stop. -/
namespace MitosServices
open Interaction Interaction.Program

def Line.marks : Line → Bool
  | .reloadingConfig | .serviceEnded _ _ | .givingUp _ _ | .rollingBack _ | .rolledBack | .keeping
  | .criticalExited | .timerFinished _ _ | .shutdownRelayed => true
  | _ => false

namespace Op

def quiet : Op → Bool
  | .log line => !line.marks
  | .swap _ | .takePendingIsolate | .spawn _ _ | .waitpid _ _ | .takeApp _ | .blockHandled
  | .unblockHandled | .spawnListener => false
  | _ => true

def mild : Op → Bool
  | .log line => !line.marks
  | .swap _ | .takePendingIsolate | .takeApp _ | .kill _ _ | .waitpid .any false => false
  | _ => true

def Plain (op : Op) : Prop := op.quiet = true ∧ op.mild = true

def configures : Op → Bool
  | .loadOrDefault | .loadUnits | .loadTimers | .setLevel _ | .publishTargets _ _ => true
  | .log .reloadingConfig | .log (.rollingBack _) | .log .rolledBack => true
  | _ => false

def starts : Op → Bool
  | .listenFor _ _ _ | .createFor _ _ | .attach _ _ | .setScoreAdjust _ _ => true
  | .spawn origin _ => match origin with
    | .service _ _ | .rescue => true
    | _ => false
  | _ => false

def acknowledges : Op → Bool
  | .openAck => true
  | _ => false

structure Calm (op : Op) : Prop where
  plain : op.Plain
  unconfigured : op.configures = false
  unstarted : op.starts = false
  unacknowledged : op.acknowledges = false

end Op

theorem Kernel.answer_quiet {op : Op} {m : Memory} {k k' : Kernel} {r : op.Ans}
    (quiet : op.quiet = true) (replied : answer op m k r = some k') : k' = k := by
  cases op with
  | swap flag => contradiction
  | takePendingIsolate => contradiction
  | spawn origin command => contradiction
  | waitpid target nohang => contradiction
  | takeApp pid => contradiction
  | blockHandled => contradiction
  | unblockHandled => contradiction
  | spawnListener => contradiction
  | panic => contradiction
  | now =>
    simp only [answer] at replied
    split at replied <;> simp_all
  | iterate entries =>
    simp only [answer] at replied
    split at replied <;> simp_all
  | _ => exact (Option.some.inj replied).symm

/-- A spawn that succeeds adds a child under a pid no child has. -/
theorem Kernel.answer_spawned {origin : Origin} {command : Command} {pid : Int} {m : Memory}
    {k k' : Kernel} (replied : answer (.spawn origin command) m k (.ok pid) = some k') :
    k.children.lookup pid = none ∧ k' = k.addChild pid origin k.mainMask := by
  simp only [answer,Option.ite_none_left_eq_some,Option.some.injEq,Bool.not_eq_true,
    Option.isSome_eq_false_iff,Option.isNone_iff_eq_none] at replied
  exact ⟨replied.1,replied.2.symm⟩

/-- Only a spawn adds a child, and only three calls change a mask or the IPC thread. -/
theorem Kernel.answer_within {op : Op} {m : Memory} {k k' : Kernel} {r : op.Ans}
    (replied : answer op m k r = some k') (unspawned : ∀ origin command, op ≠ .spawn origin command)
    (unmasked : op ≠ .blockHandled ∧ op ≠ .unblockHandled ∧ op ≠ .spawnListener) :
    (∀ pid child, k'.children.lookup pid = some child → k.children.lookup pid = some child) ∧
      k'.mainMask = k.mainMask ∧ k'.ipcMask = k.ipcMask ∧ k'.ipc = k.ipc := by
  cases op with
  | spawn origin command => exact absurd rfl (unspawned origin command)
  | blockHandled => exact absurd rfl unmasked.1
  | unblockHandled => exact absurd rfl unmasked.2.1
  | spawnListener => exact absurd rfl unmasked.2.2
  | waitpid target nohang => exact waited_within replied
  | swap flag =>
    simp only [answer,Option.ite_none_right_eq_some,Option.some.injEq] at replied
    obtain ⟨-,rfl⟩ := replied
    exact ⟨fun _ _ there => there,rfl,rfl,rfl⟩
  | takePendingIsolate =>
    simp only [answer,Option.ite_none_right_eq_some,Option.some.injEq] at replied
    obtain ⟨-,rfl⟩ := replied
    exact ⟨fun _ _ there => there,rfl,rfl,rfl⟩
  | takeApp pid =>
    simp only [answer,Option.ite_none_right_eq_some,Option.some.injEq] at replied
    obtain ⟨-,rfl⟩ := replied
    exact ⟨fun _ _ there => there,rfl,rfl,rfl⟩
  | log line =>
    cases Option.some.inj replied
    exact ⟨fun _ _ there => there,rfl,rfl,rfl⟩
  | _ =>
    have same := answer_quiet rfl replied
    rw [same]
    exact ⟨fun _ _ there => there,rfl,rfl,rfl⟩

def openedBy : Except Errno WaitStatus → Option Int
  | .ok (.ended pid _) => some pid
  | _ => none

/-- What a wait does to the children: nothing, or it reaps the one it tells of, or one it cannot tell of. -/
theorem Kernel.waited_children {target : WaitFor} {nohang : Bool} {status : Except Errno WaitStatus}
    {k k' : Kernel} (answered : k.waited target nohang status = some k') :
    (k'.children = k.children ∧ k'.apps = k.apps ∧ openedBy status = none) ∨
      (∃ pid, openedBy status = some pid ∧ k' = k.reap pid ∧ Kernel.covers target pid = true) ∨
        (status = .error .other ∧ k' = k.reap k.chosen ∧ Kernel.covers target k.chosen = true) := by
  cases waited_cases answered with
  | @ended pid ending covered => exact .inr (.inl ⟨pid,rfl,rfl,covered⟩)
  | untold covered => exact .inr (.inr ⟨rfl,rfl,covered⟩)
  | _ => exact .inl ⟨rfl,rfl,rfl⟩

/-- A wait for one child reaps that child or none. -/
theorem Kernel.waited_only {pid : Int} {nohang : Bool} {status : Except Errno WaitStatus}
    {k k' : Kernel} (answered : k.waited (.only pid) nohang status = some k') :
    (k'.children = k.children ∧ k'.apps = k.apps ∧ openedBy status = none) ∨
      (k' = k.reap pid ∧ ((∃ ending, status = .ok (.ended pid ending)) ∨ status = .error .other)) := by
  cases waited_cases answered with
  | @ended p ending covered =>
    obtain rfl : pid = p := beq_iff_eq.mp covered
    exact .inr ⟨rfl,.inl ⟨ending,rfl⟩⟩
  | untold covered =>
    obtain rfl : pid = k.chosen := beq_iff_eq.mp covered
    exact .inr ⟨rfl,.inr rfl⟩
  | _ => exact .inl ⟨rfl,rfl,rfl⟩

theorem Kernel.answer_iterate {listed visited : List (Int × Supervised)} {m : Memory} {k k' : Kernel}
    (replied : answer (.iterate listed) m k visited = some k') : visited.Perm listed := by
  simp only [answer,Option.ite_none_right_eq_some] at replied
  exact replied.1

section Plain

theorem plain_call {op : Op} (allowed : (op.quiet && op.mild) = true) :
    (call op).Uses Eq Op.Plain :=
  uses_perform (Bool.and_eq_true_iff.mp allowed)

theorem calm_call {op : Op}
    (allowed : (op.quiet && op.mild && !op.configures && !op.starts && !op.acknowledges) = true) :
    (call op).Uses Eq Op.Calm := by
  simp only [Bool.and_eq_true,Bool.not_eq_true'] at allowed
  exact uses_perform ⟨allowed.1.1.1,allowed.1.1.2,allowed.1.2,allowed.2⟩

theorem plain_of_calm {α : Type} {p : Code α} (calm : p.Uses Eq Op.Calm) : p.Uses Eq Op.Plain :=
  uses_mono calm (fun _ _ same => same) fun _ allowed => allowed.plain

theorem resolveWith_uses {ok : Op → Prop} {resolve : String → Code (Option Nat)}
    (inside : ∀ spec, (resolve spec).Uses Eq ok) (spec : Option String) :
    (resolveWith resolve spec).Uses Eq ok := by
  cases spec with
  | none => exact uses_pure none
  | some spec => exact inside spec

def Op.prepares : Op → Bool
  | .log line => match line with
    | .unresolvedUser _ _ | .unresolvedGroup _ _ => true
    | _ => false
  | .resolveUid _ | .resolveGid _ | .forget _ | .listenFor _ _ _ => true
  | _ => false

def Op.besides : Op → Bool
  | .log line => match line with
    | .unresolvedUser _ _ | .unresolvedGroup _ _ | .started _ _ _ | .failedToStart _ _ _ | .fellBack => true
    | _ => false
  | .now | .resolveUid _ | .resolveGid _ | .forget _ | .listenFor _ _ _ | .createFor _ _ | .attach _ _
  | .setScoreAdjust _ _ => true
  | _ => false

def Op.awaits (name : String) : Op → Bool
  | .log line => line == .readyTimedOut name
  | .isReady n => n == name
  | .now | .sleep _ => true
  | _ => false

theorem Op.besides_of_prepares {op : Op} (h : op.prepares = true) : op.besides = true := by
  cases op with
  | log line => cases line <;> first | rfl | contradiction
  | _ => first | rfl | contradiction

theorem Op.plain_of_besides {op : Op} (h : op.besides = true) : op.Plain ∧ op.configures = false := by
  cases op with
  | log line => cases line <;> first | exact ⟨⟨rfl,rfl⟩,rfl⟩ | contradiction
  | _ => first | exact ⟨⟨rfl,rfl⟩,rfl⟩ | contradiction

theorem Op.calm_of_awaits {name : String} {op : Op} (h : op.awaits name = true) : op.Calm := by
  cases op with
  | log line =>
    obtain rfl : line = .readyTimedOut name := beq_iff_eq.mp h
    exact ⟨⟨rfl,rfl⟩,rfl,rfl,rfl⟩
  | _ => first | exact ⟨⟨rfl,rfl⟩,rfl,rfl,rfl⟩ | contradiction

theorem prepares_call {op : Op} (allowed : op.prepares = true) :
    (call op).Uses Eq fun op => op.prepares = true :=
  uses_perform allowed

theorem prepareCommand_prepares (d : ServiceDef) :
    (prepareCommand d).Uses Eq fun op => op.prepares = true :=
  uses_bind (resolveWith_uses (fun _ => prepares_call rfl) _) fun _ =>
    uses_bind (uses_provided (prepares_call rfl)) fun _ =>
    uses_bind (resolveWith_uses (fun _ => prepares_call rfl) _) fun _ =>
    uses_bind (uses_provided (prepares_call rfl)) fun _ =>
    uses_bind (prepares_call rfl) fun _ =>
    uses_bind (prepares_call rfl) fun _ => uses_pure _

theorem prepareCommand_besides (d : ServiceDef) :
    (prepareCommand d).Uses Eq fun op => op.besides = true :=
  uses_mono (prepareCommand_prepares d) (fun _ _ same => same) fun _ => Op.besides_of_prepares

theorem prepareCommand_plain (d : ServiceDef) : (prepareCommand d).Uses Eq Op.Plain :=
  uses_mono (prepareCommand_besides d) (fun _ _ same => same) fun _ allowed =>
    (Op.plain_of_besides allowed).1

theorem checkInstant_calm (t : Nat) : (checkInstant t).Uses Eq Op.Calm := uses_provided (calm_call rfl)

theorem entries_calm (services : Services) : (entries services).Uses Eq Op.Calm := calm_call rfl

theorem waitForReady_awaits (name : String) (timeout : Nat) :
    (waitForReady name timeout).Uses Eq fun op => op.awaits name = true := by
  have asks : Op.awaits name (.isReady name) = true := beq_self_eq_true name
  have tells : Op.awaits name (.log (.readyTimedOut name)) = true := beq_self_eq_true _
  refine uses_bind (uses_perform rfl) fun start => uses_bind (uses_repeatFrom fun _ => ?_) fun ready =>
    uses_provided (uses_perform tells)
  refine uses_bind (uses_perform rfl) fun t => ?_
  by_cases early : t < start + timeout
  · rw [if_pos early]
    refine uses_bind (uses_perform asks) fun ready => ?_
    cases ready with
    | true => exact uses_pure _
    | false => exact uses_bind (uses_perform rfl) fun _ => uses_pure _
  · rw [if_neg early]
    exact uses_pure _

theorem waitForReady_calm (name : String) (timeout : Nat) :
    (waitForReady name timeout).Uses Eq Op.Calm :=
  uses_mono (waitForReady_awaits name timeout) (fun _ _ same => same) fun _ => Op.calm_of_awaits

theorem waitForReady_plain (name : String) (timeout : Nat) :
    (waitForReady name timeout).Uses Eq Op.Plain := plain_of_calm (waitForReady_calm name timeout)

end Plain

section Rules
variable {Env : Type} {S : Surroundings Memory Op Op.Ans Env}
  {A : Option Op → Memory → Env → Prop}

abbrev Steady (S : Surroundings Memory Op Op.Ans Env) (A : Option Op → Memory → Env → Prop)
    (P : Memory → Env → Prop) : Prop :=
  S.Steady A (fun op => op.quiet = true) (fun op => op.mild = true) P

def withService (m : Memory) (pid : Int) (sup : Supervised) : Memory :=
  { m with services := m.services.insert pid sup }

def withoutService (m : Memory) (pid : Int) : Memory :=
  { m with services := m.services.erase pid }

theorem withoutService_untracked {m : Memory} {pid : Int} (untracked : m.services.lookup pid = none) :
    withoutService m pid = m := by
  unfold withoutService
  rw [erase_absent untracked]

theorem wp_bind_removeService {pid : Int} {β : Type} {f : Option Supervised → Code β}
    {Q : β → Memory → Env → Prop} {m : Memory} {e : Env} (holds : A none m e)
    (rest : (f (m.services.lookup pid)).wp S A Q (withoutService m pid) e) :
    (removeService pid >>= f).wp S A Q m e :=
  wp_bind_exchange holds rest

theorem wp_track {R Q : Memory → Env → Prop} {pid : Int} {d : ServiceDef} {times : List Nat}
    {m : Memory} {e : Env} (steady : Steady S A R) (start : R m e)
    (inserted : ∀ t m e, R m e → Q (withService m pid ⟨d,times,t⟩) e) :
    (track pid d times).wp S A (fun _ => Q) m e := by
  refine wp_bind_steady steady (plain_call rfl) start fun t m e before => ?_
  exact ⟨steady.holds none m e (by simp) before,inserted t m e before⟩

theorem wp_started {R Q : Memory → Env → Prop} {pid : Int} {d : ServiceDef} {times : List Nat}
    {m : Memory} {e : Env} (steady : Steady S A R) (start : R m e)
    (inserted : ∀ t m e, R m e → Q (withService m pid ⟨d,times,t⟩) e) :
    (started d times pid).wp S A (fun _ => Q) m e := by
  refine wp_bind_steady steady (plain_call rfl) start fun _ m e logged => ?_
  refine wp_bind_steady steady (plain_call rfl) logged fun _ m e created => ?_
  refine wp_bind_steady steady (plain_call rfl) created fun _ m e attached => ?_
  refine wp_bind_steady steady (uses_each fun _ _ => plain_call rfl) attached fun _ m e scored => ?_
  exact wp_track steady scored inserted

theorem wp_rescued {T Q : Memory → Env → Prop} {pid : Int} {m : Memory} {e : Env}
    (steady : Steady S A T) (start : T m e)
    (inserted : ∀ t m e, T m e → Q (withService m pid ⟨fallbackShell,[],t⟩) e) :
    (rescued pid).wp S A (fun _ => Q) m e := by
  refine wp_bind_steady steady (plain_call rfl) start fun _ m e logged => ?_
  refine wp_bind_steady steady (plain_call rfl) logged fun _ m e created => ?_
  refine wp_bind_steady steady (plain_call rfl) created fun _ m e attached => ?_
  exact wp_track steady attached inserted

theorem steady_memory {P : Memory → Prop}
    (holds : ∀ op m e, (∀ o ∈ op, Op.mild o = true) → P m → A op m e) :
    Steady S A fun m _ => P m where
  moves _ _ _ _ _ before := before
  replies _ _ _ _ _ _ _ before := before
  holds := holds

def Visits (S : Surroundings Memory Op Op.Ans Env) : Prop :=
  ∀ listed m e visited e', S.replies (.iterate listed) m e visited e' → visited.Perm listed

theorem wp_bind_entries {P : Memory → Env → Prop} {β : Type} {services : Services}
    {f : List (Int × Supervised) → Code β} {Q : β → Memory → Env → Prop} {m : Memory} {e : Env}
    (steady : Steady S A P) (visits : Visits S) (start : P m e)
    (rest : ∀ visited e, visited.Perm services.toList → P m e → (f visited).wp S A Q m e) :
    (entries services >>= f).wp S A Q m e := by
  refine wp_bind_perform steady start ?_ ?_
  · intro m e holds
    exact steady.holds _ m e (by rintro o ⟨⟩; rfl) holds
  intro e visited e' held replied
  exact rest visited e' (visits _ _ _ _ _ replied) (steady.replies _ _ _ _ _ rfl replied held)

theorem wp_bind_topologicalOrder {P : Memory → Env → Prop} {β : Type} {defs : List ServiceDef}
    {f : List ServiceDef → Code β} {Q : β → Memory → Env → Prop} {m : Memory} {e : Env}
    (steady : Steady S A P) (start : P m e)
    (rest : ∀ m e, P m e → (f (startingOrder defs)).wp S A Q m e) :
    (topologicalOrder defs >>= f).wp S A Q m e := by
  refine (wp_bind _ _ _ _ _).mpr ?_
  exact wp_bind_steady steady (uses_provided (plain_call rfl)) start fun _ m e held => rest m e held

/-- The phases of a start: `before` the spawn, `spawned` until the table has the child, `failed`
after a spawn that failed, `rescue` until the table has the rescue shell, and `after` it all. -/
structure StartPhases (S : Surroundings Memory Op Op.Ans Env) (A : Option Op → Memory → Env → Prop)
    (d : ServiceDef) (times : List Nat) (before : Memory → Env → Prop)
    (spawned : Int → Memory → Env → Prop) (failed : Memory → Env → Prop)
    (rescue : Int → Memory → Env → Prop) (after : Memory → Env → Prop) : Prop where
  before_steady : Steady S A before
  spawned_steady : ∀ pid, Steady S A (spawned pid)
  failed_steady : Steady S A failed
  rescue_steady : ∀ pid, Steady S A (rescue pid)
  child : ∀ command pid m e e', before m e →
    S.replies (.spawn (.service d.name d.critical) command) m e (.ok pid) e' → spawned pid m e'
  refused : ∀ command err m e e', before m e →
    S.replies (.spawn (.service d.name d.critical) command) m e (.error err) e' → failed m e'
  shell : ∀ command pid m e e', failed m e → d.critical = true →
    S.replies (.spawn .rescue command) m e (.ok pid) e' → rescue pid m e'
  noShell : ∀ command err m e e', failed m e → d.critical = true →
    S.replies (.spawn .rescue command) m e (.error err) e' → after m e'
  tracked : ∀ pid t m e, spawned pid m e → after (withService m pid ⟨d,times,t⟩) e
  trackedShell : ∀ pid t m e, rescue pid m e → after (withService m pid ⟨fallbackShell,[],t⟩) e
  missed : ∀ m e, failed m e → d.critical = false → after m e

/-- What a start does once its command is prepared. -/
theorem wp_launch {d : ServiceDef} {times : List Nat} {before failed after : Memory → Env → Prop}
    {spawned rescue : Int → Memory → Env → Prop}
    (phases : StartPhases S A d times before spawned failed rescue after) {command : Command}
    {m : Memory} {e : Env} (start : before m e) :
    (spawn (.service d.name d.critical) command >>= fun child => match child with
      | .ok pid => started d times pid
      | .error err => do
        log (.failedToStart d.name d.path err)
        provided d.critical fallBack).wp S A (fun _ => after) m e := by
  refine wp_bind_perform phases.before_steady start ?_ ?_
  · intro m e holds
    exact phases.before_steady.holds _ m e (by rintro o ⟨⟩; rfl) holds
  intro e child e' held replied
  cases child with
  | ok pid =>
    exact wp_started (phases.spawned_steady pid) (phases.child command pid m e e' held replied)
      fun t m e => phases.tracked pid t m e
  | error err =>
    have failed := phases.refused command err m e e' held replied
    refine wp_bind_steady phases.failed_steady (plain_call rfl) failed fun _ m e failed => ?_
    rw [wp_provided]
    by_cases critical : d.critical = true
    · rw [if_pos critical]
      refine wp_bind_perform phases.failed_steady failed ?_ ?_
      · intro m e holds
        exact phases.failed_steady.holds _ m e (by rintro o ⟨⟩; rfl) holds
      intro e shell e' held replied
      cases shell with
      | ok pid =>
        exact wp_rescued (phases.rescue_steady pid)
          (phases.shell _ pid m e e' held critical replied) fun t m e => phases.trackedShell pid t m e
      | error err => exact phases.noShell _ err m e e' held critical replied
    · rw [if_neg critical]
      exact phases.missed m e failed (by simpa using critical)

theorem wp_spawnWithHistory {d : ServiceDef} {times : List Nat}
    {before failed after : Memory → Env → Prop} {spawned rescue : Int → Memory → Env → Prop}
    (phases : StartPhases S A d times before spawned failed rescue after) {m : Memory} {e : Env}
    (start : before m e) : (spawnWithHistory d times).wp S A (fun _ => after) m e :=
  wp_bind_steady phases.before_steady (prepareCommand_plain d) start
    fun _ _ _ prepared => wp_launch phases prepared

/-- Before the spawn whatever is recorded under the name is forgotten. -/
theorem wp_prepareCommand {d : ServiceDef} {before cleared : Memory → Env → Prop}
    (steady : Steady S A before) (cleared_steady : Steady S A cleared)
    (forgotten : ∀ m e r e', before m e → S.replies (.forget d.name) m e r e' → cleared m e')
    {m : Memory} {e : Env} (start : before m e) :
    (prepareCommand d).wp S A (fun _ => cleared) m e := by
  refine wp_bind_steady steady (resolveWith_uses (fun _ => plain_call rfl) _) start fun uid m e held => ?_
  refine wp_bind_steady steady (uses_provided (plain_call rfl)) held fun _ m e held => ?_
  refine wp_bind_steady steady (resolveWith_uses (fun _ => plain_call rfl) _) held fun gid m e held => ?_
  refine wp_bind_steady steady (uses_provided (plain_call rfl)) held fun _ m e held => ?_
  refine wp_bind_perform steady held ?_ fun e r e' held replied => ?_
  · intro m e holds
    exact steady.holds _ m e (by rintro o ⟨⟩; rfl) holds
  have held := forgotten m e r e' held replied
  exact wp_bind_steady cleared_steady (plain_call rfl) held fun _ m e held => held

/-- A start from a state `before` it in which the name is still to be forgotten. -/
theorem wp_spawnCleared {d : ServiceDef} {times : List Nat}
    {before cleared failed after : Memory → Env → Prop} {spawned rescue : Int → Memory → Env → Prop}
    (steady : Steady S A before)
    (forgotten : ∀ m e r e', before m e → S.replies (.forget d.name) m e r e' → cleared m e')
    (phases : StartPhases S A d times cleared spawned failed rescue after) {m : Memory} {e : Env}
    (start : before m e) : (spawnWithHistory d times).wp S A (fun _ => after) m e :=
  wp_then (wp_prepareCommand steady phases.before_steady forgotten start)
    fun _ _ _ prepared => wp_launch phases prepared

/-- The phases of a stop: `before` it, `dying` once SIGTERM is sent, `gone` when the child has been
reaped, lost or sent SIGKILL, and `after` its cgroup is swept. -/
structure StopPhases (S : Surroundings Memory Op Op.Ans Env) (A : Option Op → Memory → Env → Prop)
    (pid : Int) (name : String) (before dying gone after : Memory → Env → Prop) : Prop where
  before_steady : Steady S A before
  dying_steady : Steady S A dying
  gone_steady : Steady S A gone
  may_terminate : ∀ m e, before m e → A (some (.kill pid .sigterm)) m e
  may_kill : ∀ m e, dying m e → A (some (.kill pid .sigkill)) m e
  terminated : ∀ m e e', before m e → S.replies (.kill pid .sigterm) m e () e' → dying m e'
  reaped : ∀ p ending m e e', dying m e →
    S.replies (.waitpid (.only pid) true) m e (.ok (.ended p ending)) e' → gone m e'
  remains : ∀ status m e e', dying m e → (∀ p ending, status ≠ .ended p ending) →
    S.replies (.waitpid (.only pid) true) m e (.ok status) e' → dying m e'
  lost : ∀ err m e e', dying m e →
    S.replies (.waitpid (.only pid) true) m e (.error err) e' → gone m e'
  killed : ∀ m e e', dying m e → S.replies (.kill pid .sigkill) m e () e' → gone m e'
  swept : ∀ m e e', gone m e → S.replies (.killAndRemove name) m e () e' → after m e'

theorem wp_stopOne {pid : Int} {name : String} {before dying gone after : Memory → Env → Prop}
    (phases : StopPhases S A pid name before dying gone after) {m : Memory} {e : Env}
    (start : before m e) : (stopOne pid name).wp S A (fun _ => after) m e := by
  refine wp_bind_perform phases.before_steady start phases.may_terminate ?_
  intro e _ e' held replied
  have held := phases.terminated m e e' held replied
  refine wp_bind_steady phases.dying_steady (plain_call rfl) held fun from_ m e held => ?_
  refine wp_then (R := fun _ => gone) ?_ fun _ m e gone => ?_
  · refine wp_repeatFrom (fun _ => dying) held ?_ ?_
    · intro _ m e held
      exact phases.dying_steady.holds none m e (by simp) held
    intro _ m e held
    refine wp_bind_steady phases.dying_steady (plain_call rfl) held fun t m e held => ?_
    by_cases late : t ≥ from_ + fromSecs 3
    · rw [if_pos late]
      refine wp_bind_perform phases.dying_steady held phases.may_kill ?_
      exact fun e _ e' held replied => phases.killed m e e' held replied
    · rw [if_neg late]
      refine wp_bind_perform phases.dying_steady held ?_ ?_
      · intro m e holds
        exact phases.dying_steady.holds _ m e (by rintro o ⟨⟩; rfl) holds
      intro e status e' held replied
      match status with
      | .ok (.ended p ending) => exact phases.reaped p ending m e e' held replied
      | .ok .stillAlive =>
        have held := phases.remains _ m e e' held (by simp) replied
        exact wp_bind_steady phases.dying_steady (plain_call rfl) held fun _ m e held => held
      | .ok .other =>
        have held := phases.remains _ m e e' held (by simp) replied
        exact wp_bind_steady phases.dying_steady (plain_call rfl) held fun _ m e held => held
      | .error err => exact phases.lost err m e e' held replied
  · refine wp_steady_perform phases.gone_steady gone ?_ ?_
    · intro m e holds
      exact phases.gone_steady.holds _ m e (by rintro o ⟨⟩; rfl) holds
    · exact fun e _ e' held replied => phases.swept m e e' held replied

/-- A stop in a state that stays as it is through all of it. -/
theorem StopPhases.uniform {pid : Int} {name : String} {P : Memory → Env → Prop}
    (steady : Steady S A P) (kills : ∀ sig m e, P m e → A (some (.kill pid sig)) m e)
    (waits : ∀ status m e e', P m e → S.replies (.waitpid (.only pid) true) m e status e' → P m e') :
    StopPhases S A pid name P P P P where
  before_steady := steady
  dying_steady := steady
  gone_steady := steady
  may_terminate := kills .sigterm
  may_kill := kills .sigkill
  terminated _ _ _ held replied := steady.replies _ _ _ _ _ rfl replied held
  reaped _ _ m e e' held replied := waits _ m e e' held replied
  remains _ m e e' held _ replied := waits _ m e e' held replied
  lost _ m e e' held replied := waits _ m e e' held replied
  killed _ _ _ held replied := steady.replies _ _ _ _ _ rfl replied held
  swept _ _ _ held replied := steady.replies _ _ _ _ _ rfl replied held

/-- What is steady stays so together with a memory that plain calls cannot write. -/
theorem steady_memory_and {P : Memory → Env → Prop} (steady : Steady S A P) (m : Memory) :
    Steady S A fun m' e => P m' e ∧ m' = m where
  moves op m e e' moved held := ⟨steady.moves op m e e' moved held.1,held.2⟩
  replies op m e r e' quiet replied held := ⟨steady.replies op m e r e' quiet replied held.1,held.2⟩
  holds op m e mild held := steady.holds op m e mild held.1

/-- What stops keep by way of `halfway`: once the pid is struck from the table and until it has
been stopped. -/
structure Stopping (S : Surroundings Memory Op Op.Ans Env) (A : Option Op → Memory → Env → Prop)
    (P : Memory → Env → Prop) (halfway : Int → Memory → Env → Prop) : Prop where
  steady : Steady S A P
  halfway_steady : ∀ pid, Steady S A (halfway pid)
  visits : Visits S
  struck : ∀ pid sup m e, P m e → m.services.lookup pid = some sup →
    halfway pid (withoutService m pid) e
  stops : ∀ pid name m e, halfway pid m e → (stopOne pid name).wp S A (fun _ => P) m e

structure Upkeep (S : Surroundings Memory Op Op.Ans Env) (A : Option Op → Memory → Env → Prop)
    (P : Memory → Env → Prop) (halfway : Int → Memory → Env → Prop) : Prop
    extends Stopping S A P halfway where
  starts : ∀ d times m e, P m e → (spawnWithHistory d times).wp S A (fun _ => P) m e

section Upkeep
variable {P : Memory → Env → Prop} {halfway : Int → Memory → Env → Prop} {m : Memory} {e : Env}

theorem wp_stopRemoved_keeps (stopping : Stopping S A P halfway) (pid : Int) (start : P m e) :
    (stopRemoved pid).wp S A (fun _ => P) m e := by
  refine wp_bind_removeService (stopping.steady.holds none m e (by simp) start) ?_
  cases found : m.services.lookup pid with
  | none =>
    rw [withoutService_untracked found]
    exact start
  | some sup =>
    have struck := stopping.struck pid sup m e start found
    refine wp_bind_steady (stopping.halfway_steady pid) (plain_call rfl) struck fun _ m e logged => ?_
    refine wp_then (stopping.stops pid _ m e logged) fun _ m e stopped => ?_
    exact wp_steady stopping.steady (plain_call rfl) stopped

theorem wp_replace_keeps (stopping : Stopping S A P halfway) {pid : Int} {sup : Supervised}
    {d : ServiceDef} (starts : ∀ m e, P m e → (spawnWithHistory d []).wp S A (fun _ => P) m e)
    (start : P m e) (found : m.services.lookup pid = some sup) :
    (replace pid d).wp S A (fun _ => P) m e := by
  refine wp_bind_steady (steady_memory_and stopping.steady m) (plain_call rfl) ⟨start,rfl⟩
    fun _ m' e logged => ?_
  obtain ⟨logged,rfl⟩ := logged
  refine wp_bind_removeService (stopping.steady.holds none m' e (by simp) logged) ?_
  refine wp_then (stopping.stops pid _ _ e (stopping.struck pid sup m' e logged found)) ?_
  exact fun _ m e stopped => starts m e stopped

/-- What a reload keeps in a way that depends on the names it has touched so far. -/
structure Growth (S : Surroundings Memory Op Op.Ans Env) (A : Option Op → Memory → Env → Prop)
    (P : List String → Memory → Env → Prop) (halfway : List String → Int → Memory → Env → Prop) :
    Prop where
  stopping : ∀ names, Stopping S A (P names) (halfway names)
  wider : ∀ names name m e, P names m e → P (names ++ [name]) m e
  starts : ∀ names (d : ServiceDef) m e, P (names ++ [d.name]) m e →
    (spawnWithHistory d []).wp S A (fun _ => P (names ++ [d.name])) m e

section Growth
variable {P : List String → Memory → Env → Prop} {halfway : List String → Int → Memory → Env → Prop}

theorem wp_reconcileOne_grows (growth : Growth S A P halfway) (names : List String) (d : ServiceDef) (start : P names m e) :
    (reconcileOne d).wp S A (fun changed => P (if changed then names ++ [d.name] else names)) m e := by
  have steady := (growth.stopping names).steady
  refine wp_bind_read (steady.holds none m e (by simp) start) ?_
  refine wp_bind_entries (steady_memory_and steady m) (growth.stopping names).visits ⟨start,rfl⟩
    fun visited e visit held => ?_
  have stopping := growth.stopping (names ++ [d.name])
  have grown := growth.wider names d.name m e held.1
  split
  · rename_i pid sup found
    obtain ⟨there,-⟩ := Services.find_visited visit found
    split
    · exact held.1
    · exact wp_then (wp_replace_keeps stopping (growth.starts names d) grown there) fun _ m e after => after
  · refine wp_bind_steady stopping.steady (plain_call rfl) grown fun _ m e logged => ?_
    exact wp_then (growth.starts names d m e logged) fun _ m e after => after

theorem wp_reconcile_grows (growth : Growth S A P halfway) (names : List String) (defs : List ServiceDef)
    (start : P names m e) : (reconcile names defs).wp S A P m e := by
  induction defs generalizing names m e with
  | nil => exact start
  | cons d rest ih =>
    exact wp_then (wp_reconcileOne_grows growth names d start) fun changed m e after => ih _ after

theorem wp_reloadServices_grows (growth : Growth S A P halfway) (newDefs : List ServiceDef) (start : P [] m e) :
    (reloadServices newDefs).wp S A P m e := by
  have stopping := growth.stopping []
  refine wp_bind_read (stopping.steady.holds none m e (by simp) start) ?_
  refine wp_bind_entries stopping.steady stopping.visits start fun visited e visit held => ?_
  refine wp_then (wp_each (fun _ => P []) held ?_) ?_
  · exact fun pid rest m e kept => wp_stopRemoved_keeps stopping pid kept
  · exact fun _ m e kept => wp_reconcile_grows growth [] newDefs kept

end Growth

theorem Upkeep.growth (upkeep : Upkeep S A P halfway) :
    Growth S A (fun _ => P) (fun _ => halfway) where
  stopping _ := upkeep.toStopping
  wider _ _ _ _ held := held
  starts _ d m e held := upkeep.starts d [] m e held

theorem wp_reloadServices_keeps (upkeep : Upkeep S A P halfway) (newDefs : List ServiceDef)
    (start : P m e) : (reloadServices newDefs).wp S A (fun _ => P) m e :=
  wp_reloadServices_grows upkeep.growth newDefs start

theorem wp_startEach_keeps (steady : Steady S A P)
    (starts : ∀ d times m e, P m e → (spawnWithHistory d times).wp S A (fun _ => P) m e)
    (configured spawned : List String) (defs : List ServiceDef) (start : P m e) :
    (startEach configured spawned defs).wp S A (fun _ => P) m e := by
  induction defs generalizing spawned m e with
  | nil => exact start
  | cons d rest ih =>
    refine wp_then (R := fun _ => P) ?_ fun spawned m e after => ih spawned after
    unfold startOne
    dsimp only
    split
    · exact wp_bind_steady steady (plain_call rfl) start fun _ m e logged => logged
    · refine wp_bind_steady steady (uses_each fun dep _ => waitForReady_plain dep _) start ?_
      intro _ m e waited
      refine wp_then (starts d [] m e waited) fun _ m e after => ?_
      exact wp_bind_read (steady.holds none m e (by simp) after) after

theorem wp_spawnAll_keeps (steady : Steady S A P)
    (starts : ∀ d times m e, P m e → (spawnWithHistory d times).wp S A (fun _ => P) m e)
    (defs : List ServiceDef) (start : P m e) : (spawnAll defs).wp S A (fun _ => P) m e :=
  wp_bind_topologicalOrder steady start fun _ _ held =>
    wp_startEach_keeps steady starts _ _ _ held

end Upkeep
end Rules
end MitosServices
