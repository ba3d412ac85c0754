import MitosServices.Footprint
import MitosServices.Names

/-! Requests and the wait. The loop tests every request once a turn and then waits; a request
made after its test is served late, or never, unless the wait is going to return. -/
namespace MitosServices.Wakeup
open Interaction Interaction.Program

inductive Request
  | flag (f : Flag)
  | isolate
deriving DecidableEq, Repr

def pending (k : Kernel) : Request → Bool
  | .flag f => k.requested f
  | .isolate => k.isolate.isSome

def raises : Event → Option Request
  | .deliver sig => (onSignal sig).map .flag
  | .requestReload => some (.flag .reloadRequested)
  | .requestStatus => some (.flag .statusDumpRequested)
  | .requestIsolate _ => some .isolate
  | _ => none

def byOwnSignal : Event → Bool
  | .deliver _ => true
  | _ => false

/-- How far the turn is: the requests tested, and whether it has taken a reload or a shutdown. -/
structure Turn where
  tested : List Request := []
  reloading : Bool := false
  stopping : Bool := false

def turns : Monitor Memory Op Op.Ans Kernel Event Turn where
  event _ _ _ _ g := g
  reply
    | .swap .reloadRequested, _, _, taken, g =>
      { g with tested := .flag .reloadRequested :: g.tested, reloading := taken }
    | .swap .statusDumpRequested, _, _, _, g =>
      { g with tested := .flag .statusDumpRequested :: g.tested }
    | .swap f, _, _, taken, g => { g with tested := .flag f :: g.tested, stopping := g.stopping || taken }
    | .takePendingIsolate, _, _, _, g => { g with tested := .isolate :: g.tested }
    | .waitpid .any _, _, _, _, g => { g with tested := [], reloading := false }
    | _, _, _, _, g => g

/-- The loop is not going to sleep before its next turn: it stops, or it will poll, or the
wait finds a child that has ended or has been interrupted. -/
def willReturn (m : Memory) (k : Kernel) (g : Turn) : Bool :=
  g.stopping || g.reloading || m.watch.isSome || !m.timerDefs.isEmpty ||
    g.tested.contains (.flag .statusDumpRequested) &&
      (hasWatchdogServices m.services || k.someEnded) || k.waiting == .interrupted

/-- A request is made before its test, or when the loop will not sleep; a signal also wakes the
wait it finds asleep. -/
def inTime : Condition Memory Op Op.Ans (Kernel × Turn) Event where
  event ev _ m e := (raises ev).all fun x =>
    !e.2.tested.contains x || willReturn m e.1 e.2 || byOwnSignal ev && e.1.waiting == .blocked
  reply _ _ _ _ := true

def asleep (op : Option Op) (k : Kernel) : Prop :=
  op = some (.waitpid .any false) ∧ k.waiting = .blocked

section Kernel
variable {ev : Event} {op : Op} {m : Memory} {k k' : Kernel} {x : Request}

theorem someEnded_iff : k.someEnded = true ↔
    ∃ pid child, k.children.lookup pid = some child ∧ child.ended.isSome = true := by
  rw [Kernel.someEnded,List.any_eq_true]
  constructor
  · rintro ⟨⟨pid,child⟩,member,ended⟩
    exact ⟨pid,child,AList.mem_lookup_iff.mpr member,ended⟩
  · rintro ⟨pid,child,found,ended⟩
    exact ⟨⟨pid,child⟩,AList.mem_lookup_iff.mp found,ended⟩

theorem someEnded_addChild {pid : Int} (origin : Origin) (mask : Mask)
    (fresh : k.children.lookup pid = none) :
    (k.addChild pid origin mask).someEnded = k.someEnded := by
  rw [Bool.eq_iff_iff,someEnded_iff,someEnded_iff]
  constructor
  · rintro ⟨p,child,found,ended⟩
    rcases lookup_insert_iff.mp found with ⟨-,rfl⟩ | ⟨-,before⟩
    · contradiction
    · exact ⟨p,child,before,ended⟩
  · rintro ⟨p,child,found,ended⟩
    refine ⟨p,child,lookup_insert_iff.mpr (.inr ⟨?_,found⟩),ended⟩
    rintro rfl
    rw [fresh] at found
    contradiction

theorem someEnded_endChild {pid : Int} {child : Child} {ending : Option Ending} :
    (k.endChild pid child ending).someEnded = true :=
  someEnded_iff.mpr ⟨pid,_,lookup_insert_iff.mpr (.inl ⟨rfl,rfl⟩),rfl⟩

structure Stirred (ev : Event) (op : Op) (k k' : Kernel) : Prop where
  pending : ∀ x, pending k' x = true → pending k x = true ∨ raises ev = some x
  ended : k.someEnded = true → k'.someEnded = true
  waiting : k'.waiting = k.waiting ∨
    op = .waitpid .any false ∧ k.waiting = .idle ∧ k'.waiting = .blocked ∧ k.someEnded = false ∨
    k.waiting = .blocked ∧ (k'.waiting = .interrupted ∨ k'.waiting = .idle ∧ k'.someEnded = true)
  woken : byOwnSignal ev = true → k'.waiting ≠ .blocked
  running : k'.waiting = .blocked → k.someEnded = false → k'.someEnded = false

theorem pending_raise {flag : Flag} (held : pending (k.raise flag) x = true) :
    pending k x = true ∨ x = .flag flag := by
  cases x with
  | isolate => exact .inl held
  | flag f =>
    change (k.requested f || f == flag) = true at held
    rw [Bool.or_eq_true,beq_iff_eq] at held
    exact held.imp_right (congrArg Request.flag)

theorem stirred_same (others : byOwnSignal ev = false)
    (requests : ∀ x, pending k' x = true → pending k x = true ∨ raises ev = some x)
    (children : k'.someEnded = k.someEnded) (wait : k'.waiting = k.waiting) : Stirred ev op k k' where
  pending := requests
  ended held := children.trans held
  waiting := .inl wait
  woken own := by
    rw [others] at own
    contradiction
  running _ none := children.trans none

theorem stirred_raise {flag : Flag} (others : byOwnSignal ev = false)
    (raised : raises ev = some (.flag flag)) : Stirred ev op k (k.raise flag) := by
  refine stirred_same others ?_ rfl rfl
  intro x held
  rcases pending_raise held with before | rfl
  · exact .inl before
  · exact .inr raised

/-- Every event does what `Stirred` allows. -/
theorem stirred (moved : Kernel.stir ev op m k = some k') : Stirred ev op k k' := by
  cases Kernel.stir_cases moved with
  | tick elapsed => exact stirred_same rfl (fun _ held => .inl held) rfl rfl
  | exit ending found running =>
    refine ⟨fun x held => .inl held,fun _ => someEnded_endChild,?_,fun own => by contradiction,?_⟩
    · by_cases blocked : k.waiting = .blocked
      · exact .inr (.inr ⟨blocked,.inr ⟨if_pos blocked,someEnded_endChild⟩⟩)
      · exact .inl (if_neg blocked)
    · intro blocked
      change (if k.waiting = .blocked then .idle else k.waiting) = Waiting.blocked at blocked
      split at blocked <;> contradiction
  | choose pid => exact stirred_same rfl (fun _ held => .inl held) rfl rfl
  | adopt fresh =>
    exact stirred_same rfl (fun _ held => .inl held) (someEnded_addChild _ _ fresh) rfl
  | @deliver sig flag handled =>
    refine ⟨?_,fun held => held,?_,fun _ => ?_,fun _ none => none⟩
    · intro x held
      have requested : pending (k.raise flag) x = true := by cases x <;> exact held
      rcases pending_raise requested with before | rfl
      · exact .inl before
      · exact .inr (by rw [raises,handled]; rfl)
    · by_cases blocked : k.waiting = .blocked
      · exact .inr (.inr ⟨blocked,.inl (if_pos blocked)⟩)
      · exact .inl (if_neg blocked)
    · change (if k.waiting = .blocked then .interrupted else k.waiting) ≠ Waiting.blocked
      split
      · simp
      · assumption
  | requestReload => exact stirred_raise rfl rfl
  | requestStatus => exact stirred_raise rfl rfl
  | requestIsolate name =>
    refine stirred_same rfl ?_ rfl rfl
    intro x held
    cases x with
    | flag f => exact .inl held
    | isolate => exact .inr rfl
  | @launch info idle fresh =>
    exact stirred_same rfl (fun x held => .inl (by cases x <;> exact held))
      (someEnded_addChild (.app info.id) k.ipcMask fresh) rfl
  | register launched =>
    exact stirred_same rfl (fun x held => .inl (by cases x <;> exact held)) rfl rfl
  | block waits idle none =>
    exact ⟨fun x held => .inl (by cases x <;> exact held),fun held => held,
      .inr (.inl ⟨waits,idle,rfl,none⟩),fun own => by contradiction,fun _ none => none⟩

/-- Any answer to a wait leaves it awake. -/
theorem waited {target : WaitFor} {nohang : Bool} {status : Except Errno WaitStatus}
    (replied : k.waited target nohang status = some k') : (∀ x, pending k' x = pending k x) ∧
      (k'.waiting = .idle ∨ k' = k ∧ nohang = true) := by
  cases Kernel.waited_cases replied with
  | stillAlive polled => exact ⟨fun _ => rfl,.inr ⟨rfl,polled⟩⟩
  | _ => exact ⟨fun x => by cases x <;> rfl,.inl rfl⟩

/-- The answers to gentle calls leave requests as they are and never put the loop to sleep. -/
theorem answered {r : op.Ans} (gentle : op.gentle = true)
    (replied : Kernel.answer op m k r = some k') :
    (∀ x, pending k' x = pending k x) ∧ (k.waiting = .idle → k'.waiting = .idle) := by
  by_cases quiet : op.quiet = true
  · obtain rfl := Kernel.answer_quiet quiet replied
    exact ⟨fun _ => rfl,fun idle => idle⟩
  · cases op with
    | spawn origin command =>
      cases r with
      | ok pid =>
        obtain ⟨-,rfl⟩ := Kernel.answer_spawned replied
        exact ⟨fun x => by cases x <;> rfl,fun idle => idle⟩
      | error err =>
        cases Option.some.inj replied
        exact ⟨fun _ => rfl,fun idle => idle⟩
    | waitpid target nohang =>
      obtain ⟨same,wait⟩ := waited replied
      refine ⟨same,fun idle => ?_⟩
      rcases wait with awake | ⟨rfl,-⟩
      · exact awake
      · exact idle
    | takeApp pid =>
      simp only [Kernel.answer,Option.ite_none_right_eq_some,Option.some.injEq] at replied
      obtain ⟨-,rfl⟩ := replied
      exact ⟨fun x => by cases x <;> rfl,fun idle => idle⟩
    | log line =>
      cases Option.some.inj replied
      exact ⟨fun _ => rfl,fun idle => idle⟩
    | _ => contradiction

end Kernel

section Phases

def machine : Machine Memory Op Op.Ans (Kernel × Turn) Event :=
  (Kernel.machine.watched turns).under inTime

/-- What is asked of a run: while the main thread sleeps, no request waits. -/
def asked (op : Option Op) (_ : Memory) (e : Kernel × Turn) : Prop :=
  asleep op e.1 → ∀ x, pending e.1 x = false

/-- A point of the turn: a request that came after its test comes with what will make the loop
poll (`base`) or, `late` in the turn, with a child that has ended. -/
structure Phase (g : Turn) (also base : Memory → Prop) (late : Bool) (m : Memory)
    (e : Kernel × Turn) : Prop where
  awake : e.1.waiting = .idle
  turn : e.2 = g
  also : also m
  served : ∀ x ∈ g.tested, pending e.1 x = true → base m ∨ late = true ∧ e.1.someEnded = true

variable {g : Turn} {also base : Memory → Prop} {late : Bool} {m : Memory} {e e' : Kernel × Turn}
  {op : Op}

theorem moves_stirred (moved : machine.surroundings.moves op m e e') : ∃ ev,
    inTime.event ev op m e = true ∧ Stirred ev op e.1 e'.1 ∧ e'.2 = e.2 := by
  obtain ⟨ev,stir⟩ := moved
  obtain ⟨allowed,watched⟩ := Machine.under_stir_iff.mp stir
  obtain ⟨inner,same⟩ := Machine.watched_stir_iff.mp watched
  exact ⟨ev,allowed,stirred inner,same⟩

theorem replies_answered {r : op.Ans} (replied : machine.surroundings.replies op m e r e') :
    Kernel.answer op m e.1 r = some e'.1 ∧ e'.2 = turns.reply op m e.1 r e.2 :=
  Machine.watched_answer_iff.mp (Machine.under_answer_iff.mp replied).2

/-- A request raised at a tested point of the turn finds the loop about to return. -/
theorem raised_in_time {ev : Event} {x : Request} (allowed : inTime.event ev op m e = true)
    (raised : raises ev = some x) (tested : x ∈ e.2.tested) :
    willReturn m e.1 e.2 = true ∨ byOwnSignal ev = true ∧ e.1.waiting = .blocked := by
  simp only [inTime,raised,Option.all_some,Bool.or_eq_true,Bool.and_eq_true,Bool.not_eq_true',
    beq_iff_eq] at allowed
  rcases allowed with (untested | returns) | own
  · rw [List.contains_eq_mem,decide_eq_false_iff_not] at untested
    exact absurd tested untested
  · exact .inl returns
  · exact .inr own

theorem phase_moves (returns : ∀ m k, also m → willReturn m k g = true → k.waiting = .idle →
      base m ∨ late = true ∧ k.someEnded = true)
    (passing : op ≠ .waitpid .any false) (moved : machine.surroundings.moves op m e e')
    (phase : Phase g also base late m e) : Phase g also base late m e' := by
  obtain ⟨ev,allowed,event,same⟩ := moves_stirred moved
  refine ⟨?_,same.trans phase.turn,phase.also,?_⟩
  · rcases event.waiting with unchanged | ⟨blocks,-⟩ | ⟨blocked,-⟩
    · exact unchanged.trans phase.awake
    · exact absurd blocks passing
    · rw [phase.awake] at blocked
      contradiction
  · intro x tested held
    have before : base m ∨ late = true ∧ e.1.someEnded = true := by
      rcases event.pending x held with old | raised
      · exact phase.served x tested old
      · rcases raised_in_time allowed raised (phase.turn ▸ tested) with soon | ⟨-,blocked⟩
        · exact returns m e.1 phase.also (phase.turn ▸ soon) phase.awake
        · rw [phase.awake] at blocked
          contradiction
    exact before.imp_right fun ended => ⟨ended.1,event.ended ended.2⟩

def passes (late : Bool) (op : Op) : Prop :=
  op.gentle = true ∧ (∀ nohang, op ≠ .waitpid .any nohang) ∧ (late = true → op.times = true)

theorem times_ended {r : op.Ans} {k k' : Kernel} (times : op.times = true)
    (replied : Kernel.answer op m k r = some k') (ended : k.someEnded = true) :
    k'.someEnded = true := by
  cases op with
  | spawn origin command =>
    cases r with
    | ok pid =>
      obtain ⟨fresh,rfl⟩ := Kernel.answer_spawned replied
      exact (someEnded_addChild _ _ fresh).trans ended
    | error err =>
      cases Option.some.inj replied
      exact ended
  | _ =>
    simp only [Op.times,Bool.and_eq_true] at times
    exact Kernel.answer_quiet times.1 replied ▸ ended

theorem turns_passes {r : op.Ans} {k : Kernel} {g : Turn} (pass : passes late op) :
    turns.reply op m k r g = g := by
  obtain ⟨gentle,nowait,-⟩ := pass
  cases op with
  | waitpid target nohang =>
    cases target with
    | any => exact absurd rfl (nowait nohang)
    | only pid => rfl
  | _ => first | rfl | contradiction

theorem phase_frame (upd : Memory → Memory → Prop)
    (returns : ∀ m k, also m → willReturn m k g = true → k.waiting = .idle →
      base m ∨ late = true ∧ k.someEnded = true)
    (keeps : ∀ m m', upd m m' → (also m → also m') ∧ (base m → base m')) :
    machine.surroundings.Frame asked upd (passes late) (Phase g also base late) where
  updates m m' e written phase := {
    awake := phase.awake
    turn := phase.turn
    also := (keeps m m' written).1 phase.also
    served := fun x tested held => (phase.served x tested held).imp_left (keeps m m' written).2 }
  moves op m e e' pass moved phase := phase_moves returns (pass.2.1 false) moved phase
  replies op m e r e' pass replied phase := by
    obtain ⟨answers,same⟩ := replies_answered replied
    obtain ⟨requests,awake⟩ := answered pass.1 answers
    refine ⟨awake phase.awake,?_,phase.also,?_⟩
    · rw [same,turns_passes pass]
      exact phase.turn
    · intro x tested held
      rw [requests x] at held
      refine (phase.served x tested held).imp_right fun ended => ⟨ended.1,?_⟩
      exact times_ended (pass.2.2 ended.1) answers ended.2
  holds op m e pass _ := by
    rintro ⟨rfl,-⟩
    have gentle := (pass _ rfl).1
    contradiction

theorem passes_of_supervises {op : Op} (h : op.supervises = true) : passes false op := by
  refine ⟨Op.gentle_of_supervises h,?_,by simp⟩
  rintro nohang rfl
  contradiction

theorem passes_of_times {op : Op} (h : op.times = true) : passes true op := by
  refine ⟨?_,?_,fun _ => h⟩
  · cases op with
    | waitpid target nohang => contradiction
    | _ => first | rfl | contradiction
  · rintro nohang rfl
    contradiction

/-- A call at which a request is tested, or any other that is not the untimed wait. -/
theorem wp_bind_phase {op : Op} {β : Type} {f : op.Ans → Code β}
    {Q : β → Memory → Kernel × Turn → Prop} (passing : op ≠ .waitpid .any false)
    (returns : ∀ m k, also m → willReturn m k g = true → k.waiting = .idle →
      base m ∨ late = true ∧ k.someEnded = true)
    (phase : Phase g also base late m e)
    (rest : ∀ e r e', Phase g also base late m e → Kernel.answer op m e.1 r = some e'.1 →
      e'.2 = turns.reply op m e.1 r e.2 → (f r).wp machine.surroundings asked Q m e') :
    (call op >>= f).wp machine.surroundings asked Q m e := by
  refine (wp_bind _ _ _ _ _).mpr ?_
  refine wp_perform (P := Phase g also base late m) phase ?_ ?_ ?_
  · exact fun e e' moved phase => phase_moves returns passing moved phase
  · rintro e phase ⟨same,-⟩
    exact absurd (Option.some.inj same) passing
  · intro e r e' phase replied
    obtain ⟨answers,same⟩ := replies_answered replied
    exact rest e r e' phase answers same

/-- After the test of `y` nothing of `y` is left, and what was tested before is served as before. -/
theorem phase_tested {y : Request} {tested : List Request} {reloading stopping : Bool}
    {also' base' : Memory → Prop} {late' : Bool} (phase : Phase g also base late m e)
    (turn : e'.2 = ⟨y :: tested,reloading,stopping⟩) (older : tested = g.tested)
    (awake : e'.1.waiting = e.1.waiting) (here : also' m)
    (taken : ∀ x, pending e'.1 x = true → pending e.1 x = true ∧ x ≠ y)
    (implies : base m ∨ late = true ∧ e.1.someEnded = true →
      base' m ∨ late' = true ∧ e'.1.someEnded = true) :
    Phase ⟨y :: tested,reloading,stopping⟩ also' base' late' m e' where
  awake := awake.trans phase.awake
  turn := turn
  also := here
  served x member held := by
    obtain ⟨before,differs⟩ := taken x held
    have earlier : x ∈ g.tested := older ▸ (List.mem_cons.mp member).resolve_left differs
    exact implies (phase.served x earlier before)

theorem pending_lower {k : Kernel} {f : Flag} {x : Request} (held : pending (k.lower f) x = true) :
    pending k x = true ∧ x ≠ .flag f := by
  cases x with
  | isolate => exact ⟨held,by simp⟩
  | flag f' =>
    change (k.requested f' && f' != f) = true at held
    rw [Bool.and_eq_true,bne_iff_ne] at held
    exact ⟨held.1,fun same => held.2 (Request.flag.inj same)⟩

theorem answer_swap {f : Flag} {r : Bool} {m : Memory} {k k' : Kernel}
    (answers : Kernel.answer (.swap f) m k r = some k') : k' = k.lower f := by
  simp only [Kernel.answer,Option.ite_none_right_eq_some,Option.some.injEq] at answers
  exact answers.2.symm

end Phases

section Loop
variable {m : Memory} {e : Kernel × Turn}

def polling (m : Memory) : Prop := m.watch.isSome = true ∨ m.timerDefs.isEmpty = false

abbrev Early (tested : List Request) (stopping : Bool) : Memory → Kernel × Turn → Prop :=
  Phase ⟨tested,false,stopping⟩ (fun _ => True) (fun m => stopping = true ∨ polling m) false

abbrev Applying (tested : List Request) : Memory → Kernel × Turn → Prop :=
  Phase ⟨tested,true,false⟩ (fun _ => True) (fun _ => True) false

abbrev Ready (tested : List Request) (reloading : Bool) : Memory → Kernel × Turn → Prop :=
  Phase ⟨tested,reloading,false⟩ (fun m => reloading = true → m.watch.isSome = true) polling false

abbrev Late (tested : List Request) (reloading : Bool) : Memory → Kernel × Turn → Prop :=
  Phase ⟨tested,reloading,false⟩ (fun m => reloading = true → m.watch.isSome = true)
    (fun m => polling m ∨ hasWatchdogServices m.services = true) true

theorem early_returns {tested : List Request} {stopping : Bool}
    (open_ : .flag .statusDumpRequested ∉ tested) : ∀ (m : Memory) (k : Kernel), True →
      willReturn m k ⟨tested,false,stopping⟩ = true → k.waiting = .idle →
      (stopping = true ∨ polling m) ∨ false = true ∧ k.someEnded = true := by
  intro m k _ returns idle
  simp [willReturn,open_,idle] at returns
  rcases returns with (stopping | watch) | timers
  · exact .inl (.inl stopping)
  · exact .inl (.inr (.inl watch))
  · exact .inl (.inr (.inr (by simpa using timers)))

theorem ready_returns {tested : List Request} {reloading : Bool}
    (open_ : .flag .statusDumpRequested ∉ tested) : ∀ (m : Memory) (k : Kernel),
      (reloading = true → m.watch.isSome = true) → willReturn m k ⟨tested,reloading,false⟩ = true →
      k.waiting = .idle → polling m ∨ false = true ∧ k.someEnded = true := by
  intro m k watched returns idle
  simp [willReturn,open_,idle] at returns
  rcases returns with (reloads | watch) | timers
  · exact .inl (.inl (watched reloads))
  · exact .inl (.inl watch)
  · exact .inl (.inr (by simpa using timers))

theorem late_returns {tested : List Request} {reloading : Bool} : ∀ (m : Memory) (k : Kernel),
    (reloading = true → m.watch.isSome = true) → willReturn m k ⟨tested,reloading,false⟩ = true →
      k.waiting = .idle →
      (polling m ∨ hasWatchdogServices m.services = true) ∨ true = true ∧ k.someEnded = true := by
  intro m k watched returns idle
  simp [willReturn,idle] at returns
  rcases returns with ((reloads | watch) | timers) | ⟨-,watchdog | ended⟩
  · exact .inl (.inl (.inl (watched reloads)))
  · exact .inl (.inl (.inl watch))
  · exact .inl (.inl (.inr (by simpa using timers)))
  · exact .inl (.inr watchdog)
  · exact .inr ⟨rfl,ended⟩

theorem wp_bind_swap_shutdown {f : Flag} {tested : List Request} {stopping : Bool} {β : Type}
    {rest : Bool → Code β} {Q : β → Memory → Kernel × Turn → Prop}
    (noted : ∀ k r g, turns.reply (.swap f) m k r g =
      { g with tested := .flag f :: g.tested, stopping := g.stopping || r })
    (open_ : .flag .statusDumpRequested ∉ tested) (phase : Early tested stopping m e)
    (next : ∀ r e, Early (.flag f :: tested) (stopping || r) m e →
      (rest r).wp machine.surroundings asked Q m e) :
    (swap f >>= rest).wp machine.surroundings asked Q m e := by
  refine wp_bind_phase (by simp) (early_returns open_) phase fun e r e' phase answers turn => ?_
  have lowered := answer_swap answers
  refine next r e' (phase_tested phase ?_ rfl (by rw [lowered]; rfl) trivial ?_ ?_)
  · rw [turn,noted,phase.turn]
  · intro x held
    rw [lowered] at held
    exact pending_lower held
  · rintro ((stops | polls) | ⟨never,-⟩)
    · exact .inl (.inl (by rw [stops]; rfl))
    · exact .inl (.inr polls)
    · contradiction

theorem wp_applyReload {tested : List Request} (open_ : .flag .statusDumpRequested ∉ tested)
    (phase : Applying tested m e) :
    applyReload.wp machine.surroundings asked (fun _ => Ready tested true) m e := by
  have frame : machine.surroundings.Frame asked (fun _ _ => True) (passes false)
      (Applying tested) :=
    phase_frame _ (fun _ _ _ _ _ => .inl trivial) fun _ _ _ => ⟨fun _ => trivial,fun _ => trivial⟩
  have passing : ∀ {α : Type} {p : Code α}, Supervising p →
      p.Uses (fun _ _ => True) (passes false) := fun h =>
    uses_mono h (fun _ _ _ => trivial) fun _ => passes_of_supervises
  refine wp_bind_frame frame (uses_perform ⟨rfl,by simp,by simp⟩) phase fun _ m e phase => ?_
  refine wp_bind_frame frame (passing (supervising_of_plain loadConfig_plain)) phase
    fun newCfg m e phase => ?_
  refine wp_bind_frame frame (passing (supervising_call rfl)) phase fun _ m e phase => ?_
  refine wp_bind_frame frame (passing (supervising_of_plain (applyHostname_plain (fun _ _ => rfl) _)))
    phase fun _ m e phase => ?_
  refine wp_bind_frame frame (passing (supervising_call rfl)) phase fun timerDefs m e phase => ?_
  refine wp_bind_frame frame (uses_update fun _ => trivial) phase fun _ m e phase => ?_
  refine wp_bind_frame frame (uses_read fun _ => trivial) phase fun before m e phase => ?_
  refine wp_bind_frame frame (passing (begin_supervises _ _ _)) phase fun watch m e phase => ?_
  refine wp_bind_update (frame.holds none m e (by simp) phase) ?_
  have ready : Ready tested true { m with watch := some watch, cfg := newCfg } e :=
    ⟨phase.awake,phase.turn,fun _ => rfl,fun _ _ _ => .inl (.inl rfl)⟩
  exact wp_frame (phase_frame Eq (ready_returns open_) fun m m' same => by
    subst same
    exact ⟨id,id⟩) (uses_mono (publishTargets_plain _ _) (fun _ _ same => same) fun _ plain =>
      passes_of_supervises (Op.supervises_of_plain plain)) ready

theorem wp_handleReload {tested : List Request} (open_ : .flag .statusDumpRequested ∉ tested)
    (phase : Early tested false m e) : handleReload.wp machine.surroundings asked
      (fun _ m e => ∃ reloading, Ready (.flag .reloadRequested :: tested) reloading m e) m e := by
  refine wp_bind_phase (by simp) (early_returns open_) phase fun e r e' phase answers turn => ?_
  have lowered := answer_swap answers
  have noted : e'.2 = ⟨.flag .reloadRequested :: tested,r,false⟩ := by
    rw [turn,phase.turn]
    rfl
  have taken : ∀ x, pending e'.1 x = true → pending e.1 x = true ∧ x ≠ .flag .reloadRequested := by
    intro x held
    rw [lowered] at held
    exact pending_lower held
  have awake : e'.1.waiting = e.1.waiting := by
    rw [lowered]
    rfl
  rw [wp_provided]
  cases r with
  | true =>
    refine wp_mono (wp_applyReload (by simpa using open_) ?_) fun _ m e ready => ⟨true,ready⟩
    exact phase_tested phase noted rfl awake trivial taken fun _ => .inl trivial
  | false =>
    refine ⟨false,phase_tested phase noted rfl awake (by simp) taken ?_⟩
    rintro ((stops | polls) | ⟨never,-⟩)
    · contradiction
    · exact .inl polls
    · contradiction

theorem wp_handleIsolate {tested : List Request} {reloading : Bool}
    (open_ : .flag .statusDumpRequested ∉ tested) (phase : Ready tested reloading m e) :
    handleIsolate.wp machine.surroundings asked
      (fun _ => Ready (.isolate :: tested) reloading) m e := by
  refine wp_bind_phase (by simp) (ready_returns open_) phase fun e r e' phase answers turn => ?_
  simp only [Kernel.answer,Option.ite_none_right_eq_some,Option.some.injEq] at answers
  obtain ⟨-,emptied⟩ := answers
  have ready : Ready (.isolate :: tested) reloading m e' := by
    refine phase_tested phase ?_ rfl (by rw [← emptied]) phase.also ?_ ?_
    · rw [turn,phase.turn]
      rfl
    · intro x held
      rw [← emptied] at held
      cases x with
      | flag f => exact ⟨held,by simp⟩
      | isolate => contradiction
    · exact Or.imp_right fun ended => absurd ended.1 (by simp)
  refine wp_frame (phase_frame OnlyIsolated (ready_returns (by simpa using open_)) ?_)
    (uses_each fun name _ => uses_mono (isolate_uses name) (fun _ _ written => written)
      fun _ => passes_of_supervises) ready
  intro m m' written
  unfold OnlyIsolated at written
  rw [written]
  exact ⟨id,id⟩

theorem wp_dumpStatus {tested : List Request} {reloading : Bool}
    (open_ : .flag .statusDumpRequested ∉ tested) (phase : Ready tested reloading m e) :
    dumpStatus.wp machine.surroundings asked
      (fun _ => Late (.flag .statusDumpRequested :: tested) reloading) m e := by
  refine wp_bind_phase (by simp) (ready_returns open_) phase fun e r e' phase answers turn => ?_
  have lowered := answer_swap answers
  have late : Late (.flag .statusDumpRequested :: tested) reloading m e' := by
    refine phase_tested phase ?_ rfl (by rw [lowered]; rfl) phase.also ?_ ?_
    · rw [turn,phase.turn]
      rfl
    · intro x held
      rw [lowered] at held
      exact pending_lower held
    · rintro (polls | ⟨never,-⟩)
      · exact .inl (.inl polls)
      · contradiction
  have plain : (do
      let m ← read
      let services ← statusSummary
      let summary := s!"active target: {m.currentTarget}\n{services}"
      log (.status summary)
      call (.publishStatus summary) : Code Unit).Uses Eq Op.Plain :=
    uses_bind (uses_read fun _ => rfl) fun _ => uses_bind statusSummary_plain fun _ =>
      uses_bind (plain_call rfl) fun _ => plain_call rfl
  refine wp_frame (phase_frame Eq late_returns ?_)
    (uses_provided (uses_mono plain (fun _ _ same => same) fun _ plain =>
      passes_of_times (Op.times_of_plain plain))) late
  intro m m' same
  subst same
  exact ⟨id,id⟩

structure Sleepy (tested : List Request) (m : Memory) (e : Kernel × Turn) : Prop where
  turn : e.2 = ⟨tested,false,false⟩
  idle_memory : polls m = false
  served : ∀ x, pending e.1 x = true → e.1.someEnded = true ∨ e.1.waiting = .interrupted
  unanswered : e.1.waiting = .blocked → e.1.someEnded = false

theorem sleepy_moves {tested : List Request} {e' : Kernel × Turn} (all : ∀ x, x ∈ tested)
    (moved : machine.surroundings.moves (.waitpid .any false) m e e') (sleepy : Sleepy tested m e) :
    Sleepy tested m e' := by
  obtain ⟨ev,allowed,event,same⟩ := moves_stirred moved
  have unraised : ∀ x, raises ev = some x → (e.1.someEnded = true ∨ e.1.waiting = .interrupted) ∨
      byOwnSignal ev = true ∧ e.1.waiting = .blocked := by
    intro x raised
    have there := raised_in_time allowed raised (sleepy.turn ▸ all x)
    refine there.imp_left fun returns => ?_
    have idle := sleepy.idle_memory
    simp only [polls,Timers.hasAny,Bool.or_eq_false_iff,Bool.not_eq_false'] at idle
    simp [willReturn,sleepy.turn,idle] at returns
    exact returns.imp_left fun ended => ended.2
  refine ⟨same.trans sleepy.turn,sleepy.idle_memory,?_,?_⟩
  · intro x held
    have reason : (e.1.someEnded = true ∨ e.1.waiting = .interrupted) ∨
        byOwnSignal ev = true ∧ e.1.waiting = .blocked := by
      rcases event.pending x held with old | raised
      · exact .inl (sleepy.served x old)
      · exact unraised x raised
    rcases reason with (ended | interrupted) | ⟨own,blocked⟩
    · exact .inl (event.ended ended)
    · rcases event.waiting with unchanged | ⟨-,idle,-⟩ | ⟨blocked,-⟩
      · exact .inr (unchanged.trans interrupted)
      · rw [interrupted] at idle
        contradiction
      · rw [interrupted] at blocked
        contradiction
    · rcases event.waiting with unchanged | ⟨-,idle,-⟩ | ⟨-,interrupted | ⟨-,ended⟩⟩
      · exact absurd (unchanged.trans blocked) (event.woken own)
      · rw [blocked] at idle
        contradiction
      · exact .inr interrupted
      · exact .inl ended
  · intro blocked
    apply event.running blocked
    rcases event.waiting with unchanged | ⟨-,-,-,none⟩ | ⟨-,interrupted | ⟨idle,-⟩⟩
    · exact sleepy.unanswered (unchanged.symm.trans blocked)
    · exact none
    · rw [blocked] at interrupted
      contradiction
    · rw [blocked] at idle
      contradiction

theorem sleepy_asked {tested : List Request} (sleepy : Sleepy tested m e) :
    asked (some (.waitpid .any false)) m e := by
  rintro ⟨-,blocked⟩ x
  rw [← Bool.not_eq_true]
  intro held
  rcases sleepy.served x held with ended | interrupted
  · rw [sleepy.unanswered blocked] at ended
    contradiction
  · rw [blocked] at interrupted
    contradiction

theorem sleepy_of_late {tested : List Request} {reloading : Bool} (all : ∀ x, x ∈ tested)
    (late : Late tested reloading m e) (idle : polls m = false) : Sleepy tested m e := by
  simp only [polls,Timers.hasAny,Bool.or_eq_false_iff,Bool.not_eq_false'] at idle
  have unwatched : reloading = false := by
    rw [← Bool.not_eq_true]
    intro reloads
    have watched := late.also reloads
    rw [idle.1.1] at watched
    contradiction
  refine ⟨unwatched ▸ late.turn,by simp [polls,Timers.hasAny,idle],?_,?_⟩
  · intro x held
    rcases late.served x (all x) held with ((watch | timers) | watchdog) | ⟨-,ended⟩
    · rw [idle.1.1] at watch
      contradiction
    · rw [idle.2] at timers
      contradiction
    · rw [idle.1.2] at watchdog
      contradiction
    · exact .inl ended
  · rw [late.awake]
    simp

abbrev Fresh : Memory → Kernel × Turn → Prop := Early [] false

theorem fresh_of_waited {nohang : Bool} {status : Except Errno WaitStatus} {e' : Kernel × Turn}
    {tested : List Request} {reloading : Bool} (turn : e.2 = ⟨tested,reloading,false⟩)
    (awake : nohang = true → e.1.waiting = .idle)
    (answers : Kernel.answer (.waitpid .any nohang) m e.1 status = some e'.1)
    (noted : e'.2 = turns.reply (.waitpid .any nohang) m e.1 status e.2) : Fresh m e' := by
  refine ⟨?_,?_,trivial,fun x member => absurd member List.not_mem_nil⟩
  · rcases (waited answers).2 with idle | ⟨same,polled⟩
    · exact idle
    · rw [same]
      exact awake polled
  · rw [noted,turn]
    rfl

theorem wp_wait {tested : List Request} {reloading : Bool} (all : ∀ x, x ∈ tested)
    (late : Late tested reloading m e) :
    wait.wp machine.surroundings asked (fun _ => Fresh) m e := by
  refine wp_bind_read ?_ ?_
  · rintro ⟨asleep,-⟩
    contradiction
  cases idle : polls m with
  | true =>
    refine wp_bind_phase (by simp) late_returns late fun e status e' late answers turn => ?_
    exact fresh_of_waited late.turn (fun _ => late.awake) answers turn
  | false =>
    refine (wp_bind _ _ _ _ _).mpr ?_
    refine wp_perform (P := Sleepy tested m) (sleepy_of_late all late idle) ?_ ?_ ?_
    · exact fun e e' moved sleepy => sleepy_moves all moved sleepy
    · exact fun e sleepy => sleepy_asked sleepy
    · intro e status e' sleepy replied
      obtain ⟨answers,turn⟩ := replies_answered replied
      exact fresh_of_waited sleepy.turn (by simp) answers turn

theorem gentle_passing {op : Op} (gentle : op.gentle = true) : op ≠ .waitpid .any false := by
  rintro rfl
  contradiction

theorem fresh_frame : machine.surroundings.Frame asked (fun _ _ => True)
    (fun op => op.gentle = true) Fresh where
  updates _ _ _ _ fresh := ⟨fresh.awake,fresh.turn,trivial,fun x member => absurd member List.not_mem_nil⟩
  moves _ _ _ _ gentle moved fresh :=
    phase_moves (early_returns List.not_mem_nil) (gentle_passing gentle) moved fresh
  replies op m e r e' gentle replied fresh := by
    obtain ⟨answers,turn⟩ := replies_answered replied
    refine ⟨(answered gentle answers).2 fresh.awake,?_,trivial,fun x member => absurd member List.not_mem_nil⟩
    rw [turn,fresh.turn]
    cases op with
    | waitpid target nohang => cases target <;> rfl
    | _ => first | rfl | contradiction
  holds op m e gentle _ := by
    rintro ⟨rfl,-⟩
    have never := gentle _ rfl
    contradiction

theorem awake_frame : machine.surroundings.Frame asked (fun _ _ => True)
    (fun op => op.gentle = true) fun _ e => e.1.waiting = .idle where
  updates _ _ _ _ awake := awake
  moves op m e e' gentle moved awake := by
    obtain ⟨ev,-,event,-⟩ := moves_stirred moved
    rcases event.waiting with unchanged | ⟨blocks,-⟩ | ⟨blocked,-⟩
    · exact unchanged.trans awake
    · exact absurd blocks (gentle_passing gentle)
    · rw [awake] at blocked
      contradiction
  replies op m e r e' gentle replied awake := (answered gentle (replies_answered replied).1).2 awake
  holds op m e gentle _ := by
    rintro ⟨rfl,-⟩
    have never := gentle _ rfl
    contradiction

theorem wp_serve {grace : Nat} (phase : Early [.flag .haltRequested,.flag .poweroffRequested,
      .flag .rebootRequested] false m e) :
    (serve grace).wp machine.surroundings asked (fun _ => Fresh) m e := by
  refine wp_then (wp_handleReload (by simp) phase) fun _ m e ⟨reloading,phase⟩ => ?_
  refine wp_then (wp_handleIsolate (by simp) phase) fun _ m e phase => ?_
  refine wp_then (wp_dumpStatus (by simp) phase) fun _ m e phase => ?_
  refine wp_bind_read ?_ ?_
  · rintro ⟨asleep,-⟩
    contradiction
  refine wp_bind_frame (phase_frame OnlyTimers late_returns ?_)
    (uses_mono (tick_times _ _) (fun _ _ written => written) fun _ => passes_of_times) phase ?_
  · intro m m' written
    unfold OnlyTimers at written
    rw [written]
    exact ⟨id,id⟩
  intro _ m e phase
  refine wp_then (wp_wait ?_ phase) fun waited m e fresh => ?_
  · intro x
    cases x with
    | isolate => simp
    | flag f => cases f <;> simp
  refine wp_bind_frame fresh_frame killExpired_gentle fresh fun _ m e fresh => ?_
  exact wp_frame fresh_frame (dispatch_gentle grace _ _) fresh

theorem wp_stopServing {grace : Nat} {Q : Unit ⊕ Unit → Memory → Kernel × Turn → Prop}
    (stopped : ∀ m e, Q (.inr ()) m e) (awake : e.1.waiting = .idle) :
    (stopServing grace).wp machine.surroundings asked Q m e := by
  refine wp_bind_frame awake_frame (gentle_call rfl) awake fun _ m e awake => ?_
  refine wp_bind_frame awake_frame (shutdownAll_gentle grace) awake fun _ m e awake => ?_
  refine wp_bind_frame awake_frame acknowledgeShutdown_gentle awake fun _ m e awake => ?_
  exact stopped m e

theorem wp_turn {grace : Nat} (fresh : Fresh m e) : (turn grace).wp machine.surroundings asked
    (fun turn m e => match turn with
      | .inl _ => Fresh m e
      | .inr _ => True) m e := by
  refine wp_bind_swap_shutdown (fun _ _ _ => rfl) List.not_mem_nil fresh fun reboot e phase => ?_
  refine wp_bind_swap_shutdown (fun _ _ _ => rfl) (by simp) phase fun poweroff e phase => ?_
  refine wp_bind_swap_shutdown (fun _ _ _ => rfl) (by simp) phase fun halt e phase => ?_
  split
  · exact wp_stopServing (fun _ _ => trivial) phase.awake
  · rename_i running
    rw [Bool.not_eq_true] at running
    rw [Bool.false_or,running] at phase
    refine wp_mono (wp_serve phase) fun turn m e fresh => ?_
    cases turn with
    | inl _ => exact fresh
    | inr _ => trivial

theorem wp_runEventLoop {grace : Nat} (awake : e.1.waiting = .idle) (turn : e.2 = {}) :
    (runEventLoop grace).wp machine.surroundings asked (fun _ _ _ => True) m e := by
  refine wp_bind_update ?_ ?_
  · rintro ⟨asleep,-⟩
    contradiction
  refine wp_repeatFrom (fun _ => Fresh) ?_ ?_ ?_
  · exact ⟨awake,turn,trivial,fun x member => absurd member List.not_mem_nil⟩
  · rintro _ m e - ⟨asleep,-⟩
    contradiction
  · intro _ m e fresh
    refine wp_mono (wp_turn fresh) fun turn m e after => ?_
    cases turn with
    | inl _ => exact after
    | inr _ => trivial

end Loop

/-- As long as every request is made in time, the main thread never sleeps on one. -/
theorem sleeps_on_no_request (grace : Nat) (m : Memory) (k : Kernel) (awake : k.waiting = .idle)
    {t : State Memory Op Op.Ans (Kernel × Turn) Unit}
    (run : Reaches ((Kernel.machine.watched turns).under inTime).surroundings
      ⟨runEventLoop grace,m,(k,({} : Turn))⟩ t) :
    ¬ (asleep t.program.next? t.env.1 ∧ ∃ x, pending t.env.1 x = true) := by
  rintro ⟨sleeps,x,held⟩
  have there := wp_everywhere run (wp_runEventLoop awake rfl) fun _ _ _ _ => by
    rintro ⟨none,-⟩
    contradiction
  rw [there sleeps x] at held
  contradiction

section Runs

def oneService : Memory :=
  { services := AList.insert 100 ⟨Names.shell,[],0⟩ ∅ }

def oneChild : Kernel :=
  { ({} : Kernel).addChild 100 (.service "shell" true) fun _ => false with ipc := .idle }

def wokenRun : Option (State Memory Op Op.Ans (Kernel × Turn) Unit) :=
  drive machine (fun op m e => Kernel.obliging (fun _ => true) Config.default op m e.1)
    [.upTo (· == .waitpid .any false) 100,.stir .block,.stir (.deliver .sigusr1),.step,
      .upTo (· == .loadOrDefault) 100]
    ⟨runEventLoop (fromSecs 5),oneService,(oneChild,{})⟩

theorem sleeps_on_no_request_woken : ¬ (asleep (wokenRun.get (by decide +kernel)).program.next?
      (wokenRun.get (by decide +kernel)).env.1 ∧
    ∃ x, pending (wokenRun.get (by decide +kernel)).env.1 x = true) :=
  sleeps_on_no_request _ oneService oneChild rfl (drive_reaches (Option.some_get _).symm)

def sleepingRun : Option (State Memory Op Op.Ans Kernel Unit) :=
  drive Kernel.machine (Kernel.obliging (fun _ => true) Config.default)
    [.upTo (· == .waitpid .any false) 100,.stir .block,.stir .requestReload]
    ⟨runEventLoop (fromSecs 5),oneService,oneChild⟩

theorem sleeps_on_reload : ∃ (grace : Nat) (m : Memory) (k : Kernel)
    (t : State Memory Op Op.Ans Kernel Unit), k.waiting = .idle ∧
      Reaches Kernel.machine.surroundings ⟨runEventLoop grace,m,k⟩ t ∧
      asleep t.program.next? t.env ∧ pending t.env (.flag .reloadRequested) = true := by
  have asleep_then : sleepingRun.any (fun t => decide
      ((t.program.next? = some (.waitpid .any false) ∧ t.env.waiting = .blocked) ∧
        t.env.requested .reloadRequested = true)) = true := by
    decide +kernel
  obtain ⟨t,reached,sleeps⟩ := (Option.any_eq_true _ _).mp asleep_then
  obtain ⟨sleeps,held⟩ := of_decide_eq_true sleeps
  exact ⟨fromSecs 5,oneService,oneChild,t,rfl,drive_reaches reached,sleeps,held⟩

end Runs
end MitosServices.Wakeup
