import MitosServices.Footprint

/-! The signal mask a process starts with. The main thread blocks the handled signals before it
starts the IPC thread and the services of the boot, and unblocks them only for itself. -/
namespace MitosServices.Masks
open Interaction Interaction.Program

def Clear (mask : Mask) : Prop := ∀ sig ∈ handledSet, mask sig = false

/-- What is noted of a run: whether the handled signals were blocked and unblocked, whether the
event loop has begun, and which pids it has started. -/
structure Starts where
  blocked : Bool := false
  unblocked : Bool := false
  looping : Bool := false
  fromLoop : Int → Bool := fun _ => false

def starts : Monitor Memory Op Op.Ans Kernel Event Starts where
  event
    | .launch info, _, _, _, g => { g with fromLoop := Function.update g.fromLoop info.pid false }
    | _, _, _, _, g => g
  reply
    | .blockHandled, _, _, .ok _, g => { g with blocked := true }
    | .unblockHandled, _, _, .ok _, g => { g with unblocked := true }
    | .swap .rebootRequested, _, _, _, g => { g with looping := true }
    | .spawn _ _, _, _, .ok pid, g => { g with fromLoop := Function.update g.fromLoop pid g.looping }
    | _, _, _, _, g => g

/-- The process with this pid was started by the event loop, on an unblocked main thread, or all
of the program runs unblocked. -/
def startsFree (initial : Mask) (g : Starts) (pid : Int) : Prop :=
  g.fromLoop pid = true ∧ g.unblocked = true ∨ g.blocked = false ∧ Clear initial

/-- Every started process began with the handled signals unblocked just when it was started free. -/
def Begun (initial : Mask) (e : Kernel × Starts) : Prop :=
  ∀ pid child, e.1.children.lookup pid = some child → child.origin ≠ .orphan →
    (Clear child.mask ↔ startsFree initial e.2 pid)

section Masks
variable {mask : Mask}

theorem not_clear_block : ¬ Clear mask.block := by
  intro clear
  have blocked := clear .sigterm (by simp [handledSet])
  simp [Mask.block,handledSet] at blocked

theorem clear_unblock : Clear mask.unblock := by
  intro sig member
  simp [Mask.unblock,member]

end Masks

abbrev surroundings : Surroundings Memory Op Op.Ans (Kernel × Starts) :=
  (Kernel.machine.watched starts).surroundings

section Phases
variable {initial : Mask} {m : Memory} {e e' : Kernel × Starts} {op : Op}

def asked (initial : Mask) (_ : Option Op) (_ : Memory) (e : Kernel × Starts) : Prop := Begun initial e

inductive Phase
  | starting
  | booting
  | ready
  | looping
deriving DecidableEq

/-- What the masks are in each phase, and what the children of that phase began with. -/
structure At (initial : Mask) (phase : Phase) (e : Kernel × Starts) : Prop where
  looping : e.2.looping = decide (phase = .looping)
  unstarted : phase = .starting → e.1.mainMask = initial ∧ e.2.blocked = false
  still : phase = .starting ∨ phase = .booting → e.2.unblocked = false
  main : Clear e.1.mainMask ↔
    (phase = .ready ∨ phase = .looping) ∧ e.2.unblocked = true ∨ e.2.blocked = false ∧ Clear initial
  ipc : e.1.ipc ≠ .absent → (Clear e.1.ipcMask ↔ e.2.blocked = false ∧ Clear initial)
  absent : phase = .starting → e.1.ipc = .absent
  unborn : phase = .starting → ∀ pid child, e.1.children.lookup pid = some child →
    child.origin = .orphan
  early : phase ≠ .looping → ∀ pid, e.2.fromLoop pid = false
  begun : Begun initial e

/-- A step in which the masks stay as they are and the children are accounted for. -/
theorem at_step {phase : Phase} (there : At initial phase e)
    (main : e'.1.mainMask = e.1.mainMask) (thread : e'.1.ipcMask = e.1.ipcMask)
    (absent : e'.1.ipc = .absent ↔ e.1.ipc = .absent) (looping : e'.2.looping = e.2.looping)
    (blocked : e'.2.blocked = e.2.blocked) (unblocked : e'.2.unblocked = e.2.unblocked)
    (unborn : phase = .starting → ∀ pid child, e'.1.children.lookup pid = some child →
      child.origin = .orphan)
    (early : phase ≠ .looping → ∀ pid, e'.2.fromLoop pid = false) (begun : Begun initial e') :
    At initial phase e' where
  looping := looping.trans there.looping
  unstarted unstarted := by
    rw [main,blocked]
    exact there.unstarted unstarted
  still still := unblocked.trans (there.still still)
  main := by
    rw [main,blocked,unblocked]
    exact there.main
  ipc present := by
    rw [thread,blocked]
    exact there.ipc fun gone => present (absent.mpr gone)
  absent unstarted := absent.mpr (there.absent unstarted)
  unborn := unborn
  early := early
  begun := begun

theorem begun_same (children : e'.1.children = e.1.children) (noted : e'.2 = e.2)
    (begun : Begun initial e) : Begun initial e' := by
  intro pid child found own
  rw [noted]
  exact begun pid child (children ▸ found) own

/-- One more child: its own start, and the others as before. -/
theorem begun_insert {pid : Int} {new : Child} {byLoop : Bool} (begun : Begun initial e)
    (children : e'.1.children = e.1.children.insert pid new)
    (noted : e'.2 = { e.2 with fromLoop := Function.update e.2.fromLoop pid byLoop })
    (own : new.origin ≠ .orphan → (Clear new.mask ↔
      byLoop = true ∧ e.2.unblocked = true ∨ e.2.blocked = false ∧ Clear initial)) :
    Begun initial e' := by
  intro p child found started
  rw [children] at found
  rw [noted,startsFree]
  rcases lookup_insert_iff.mp found with ⟨rfl,rfl⟩ | ⟨other,before⟩
  · dsimp only
    rw [Function.update_self]
    exact own started
  · dsimp only
    rw [Function.update_of_ne other]
    exact begun p child before started

theorem starts_event (op : Op) (m : Memory) (ev : Event) (k : Kernel) (g : Starts) :
    (starts.event ev op m k g).looping = g.looping ∧ (starts.event ev op m k g).blocked = g.blocked ∧
      (starts.event ev op m k g).unblocked = g.unblocked ∧
      ∀ pid, g.fromLoop pid = false → (starts.event ev op m k g).fromLoop pid = false := by
  cases ev with
  | launch info =>
    refine ⟨rfl,rfl,rfl,fun pid before => ?_⟩
    change Function.update g.fromLoop info.pid false pid = false
    rw [Function.update_apply]
    split
    · rfl
    · exact before
  | _ => exact ⟨rfl,rfl,rfl,fun _ before => before⟩

/-- What an app inherits is the mask of the IPC thread. -/
theorem at_moves {phase : Phase} (moved : surroundings.moves op m e e') (there : At initial phase e) :
    At initial phase e' := by
  obtain ⟨ev,watched⟩ := moved
  obtain ⟨stir,noted⟩ := Machine.watched_stir_iff.mp watched
  obtain ⟨main,thread,absent⟩ := Kernel.stir_masks stir
  obtain ⟨looping,blocked,unblocked,early⟩ := starts_event op m ev e.1 e.2
  rw [← noted] at looping blocked unblocked early
  refine at_step there main thread absent looping blocked unblocked ?_
    (fun loopless pid => early pid (there.early loopless pid)) ?_
  · intro unstarted pid child found
    rcases Kernel.stir_children stir with ⟨same,-⟩ | ⟨p,before,ending,-,known,-,changed⟩ |
      ⟨p,-,-,changed⟩ | ⟨info,-,idle,-,-⟩
    · exact there.unborn unstarted pid child (same ▸ found)
    · rw [changed] at found
      rcases lookup_insert_iff.mp found with ⟨rfl,rfl⟩ | ⟨-,old⟩
      · exact there.unborn unstarted pid before known
      · exact there.unborn unstarted pid child old
    · rw [changed] at found
      rcases lookup_insert_iff.mp found with ⟨-,rfl⟩ | ⟨-,old⟩
      · rfl
      · exact there.unborn unstarted pid child old
    · rw [there.absent unstarted] at idle
      contradiction
  rcases Kernel.stir_children stir with ⟨same,other⟩ | ⟨pid,child,ending,rfl,found,-,changed⟩ |
    ⟨pid,rfl,-,changed⟩ | ⟨info,rfl,idle,-,changed⟩
  · refine begun_same same ?_ there.begun
    rw [noted]
    cases ev with
    | launch info => exact absurd rfl (other info)
    | _ => rfl
  · intro p child' present own
    rw [changed] at present
    rw [noted]
    rcases lookup_insert_iff.mp present with ⟨rfl,rfl⟩ | ⟨-,before⟩
    · exact there.begun p child found own
    · exact there.begun p child' before own
  · intro p child present own
    rw [changed] at present
    rw [noted]
    rcases lookup_insert_iff.mp present with ⟨-,rfl⟩ | ⟨-,before⟩
    · exact absurd rfl own
    · exact there.begun p child before own
  · refine begun_insert there.begun changed noted fun _ => ?_
    have inherited := there.ipc (by simp [idle])
    simpa using inherited

def passes (phase : Phase) : Op → Prop
  | .blockHandled | .unblockHandled | .spawnListener => False
  | .swap .rebootRequested => phase = .looping
  | .spawn _ _ => phase = .booting ∨ phase = .looping
  | _ => True

theorem at_fewer {phase : Phase} (there : At initial phase e)
    (fewer : ∀ pid child, e'.1.children.lookup pid = some child → e.1.children.lookup pid = some child)
    (main : e'.1.mainMask = e.1.mainMask) (thread : e'.1.ipcMask = e.1.ipcMask)
    (ipc : e'.1.ipc = e.1.ipc) (noted : e'.2 = e.2) : At initial phase e' := by
  refine at_step there main thread (by rw [ipc]) (by rw [noted]) (by rw [noted]) (by rw [noted])
    (fun unstarted pid child found => there.unborn unstarted pid child (fewer pid child found))
    (fun loopless => noted ▸ there.early loopless) fun pid child found own => ?_
  rw [noted]
  exact there.begun pid child (fewer pid child found) own

/-- What the main thread starts inherits its mask, and only the event loop runs unblocked. -/
theorem at_spawned {phase : Phase} {origin : Origin} {command : Command} {pid : Int}
    (running : phase = .booting ∨ phase = .looping) (replied : surroundings.replies (.spawn origin command) m e (.ok pid) e')
    (there : At initial phase e) : At initial phase e' := by
  obtain ⟨answered,noted⟩ := Machine.watched_answer_iff.mp replied
  obtain ⟨-,added⟩ := @Kernel.answer_spawned origin command pid m _ _ answered
  have unlooped : phase ≠ .looping → e.2.looping = false := fun other =>
    there.looping.trans (decide_eq_false other)
  have recorded : e'.2 = { e.2 with fromLoop := Function.update e.2.fromLoop pid e.2.looping } := noted
  refine at_step there (by rw [added]; rfl) (by rw [added]; rfl) (by rw [added]; rfl)
    (by rw [recorded]) (by rw [recorded]) (by rw [recorded]) ?_ ?_ ?_
  · rcases running with rfl | rfl <;> simp
  · intro loopless p
    rw [recorded]
    dsimp only
    rw [Function.update_apply]
    split
    · exact unlooped loopless
    · exact there.early loopless p
  · refine begun_insert there.begun (by rw [added]; rfl) recorded fun _ => ?_
    have loops : (phase = .ready ∨ phase = .looping) ↔ e.2.looping = true := by
      rw [there.looping,decide_eq_true_eq]
      rcases running with rfl | rfl <;> simp
    rw [← loops]
    exact there.main

theorem starts_passes {phase : Phase} {r : op.Ans} (pass : passes phase op)
    (unspawned : ∀ origin command, op ≠ .spawn origin command) (there : At initial phase e) :
    starts.reply op m e.1 r e.2 = e.2 := by
  cases op with
  | spawn origin command => exact absurd rfl (unspawned origin command)
  | blockHandled => exact pass.elim
  | unblockHandled => exact pass.elim
  | swap flag =>
    cases flag with
    | rebootRequested =>
      have already : e.2.looping = true := there.looping.trans (decide_eq_true pass)
      change { e.2 with looping := true } = e.2
      rw [← already]
    | _ => rfl
  | _ => rfl

theorem at_replies {phase : Phase} {r : op.Ans} (pass : passes phase op)
    (replied : surroundings.replies op m e r e') (there : At initial phase e) : At initial phase e' := by
  by_cases spawns : ∃ origin command, op = .spawn origin command
  · obtain ⟨origin,command,rfl⟩ := spawns
    cases r with
    | ok pid => exact at_spawned pass replied there
    | error err =>
      obtain ⟨answered,noted⟩ := Machine.watched_answer_iff.mp replied
      have same := Option.some.inj answered
      exact at_fewer there (by simp [same]) (by rw [same]) (by rw [same]) (by rw [same]) noted
  · have unspawned : ∀ origin command, op ≠ .spawn origin command := fun origin command same =>
      spawns ⟨origin,command,same⟩
    have unmasked : op ≠ .blockHandled ∧ op ≠ .unblockHandled ∧ op ≠ .spawnListener := by
      refine ⟨?_,?_,?_⟩ <;> rintro rfl <;> exact pass
    obtain ⟨answered,noted⟩ := Machine.watched_answer_iff.mp replied
    obtain ⟨fewer,main,thread,ipc⟩ := Kernel.answer_within answered unspawned unmasked
    exact at_fewer there fewer main thread ipc (noted.trans (starts_passes pass unspawned there))

theorem at_frame (initial : Mask) (phase : Phase) : surroundings.Frame (asked initial) (fun _ _ => True)
    (passes phase) fun _ => At initial phase where
  updates _ _ _ _ there := there
  moves _ _ _ _ _ moved there := at_moves moved there
  replies _ _ _ _ _ pass replied there := at_replies pass replied there
  holds _ _ _ _ there := there.begun

theorem passes_of_gentle {phase : Phase} (running : phase = .booting ∨ phase = .looping)
    (gentle : op.gentle = true) : passes phase op := by
  cases op with
  | spawn origin command => exact running
  | _ => trivial

theorem passes_of_plain {phase : Phase} (plain : op.Plain) : passes phase op := by
  obtain ⟨quiet,mild⟩ := plain
  cases op with
  | _ => trivial

end Phases

section Program
variable {initial : Mask} {m : Memory} {e e' : Kernel × Starts} {phase : Phase}

theorem uses_gentle {α : Type} {p : Code α} (running : phase = .booting ∨ phase = .looping)
    (gentle : Gentle p) : p.Uses (fun _ _ => True) (passes phase) :=
  uses_mono gentle (fun _ _ _ => trivial) fun _ => passes_of_gentle running

theorem uses_plain {α : Type} {p : Code α} (plain : p.Uses Eq Op.Plain) :
    p.Uses (fun _ _ => True) (passes phase) :=
  uses_mono plain (fun _ _ _ => trivial) fun _ => passes_of_plain

theorem wp_bind_plain {α β : Type} {p : Code α} {f : α → Code β} {Q : β → Memory → Kernel × Starts → Prop}
    (plain : p.Uses Eq Op.Plain) (there : At initial phase e)
    (rest : ∀ a m e, At initial phase e → (f a).wp surroundings (asked initial) Q m e) :
    (p >>= f).wp surroundings (asked initial) Q m e :=
  wp_bind_frame (at_frame initial phase) (uses_plain plain) there rest

/-- A call that takes the program from one phase to the next. -/
theorem wp_bind_turning {β : Type} {op : Op} {next : Phase} {f : op.Ans → Code β}
    {Q : β → Memory → Kernel × Starts → Prop} (there : At initial phase e)
    (turns : ∀ e r e', At initial phase e → surroundings.replies op m e r e' → At initial next e')
    (rest : ∀ r e, At initial next e → (f r).wp surroundings (asked initial) Q m e) :
    (call op >>= f).wp surroundings (asked initial) Q m e := by
  refine (wp_bind _ _ _ _ _).mpr ?_
  refine wp_perform there (fun e e' moved there => at_moves moved there) (fun e there => there.begun) ?_
  exact fun e r e' there replied => rest r e' (turns e r e' there replied)

theorem blocked_booting {r : Except String Unit} (there : At initial .starting e)
    (replied : surroundings.replies .blockHandled m e r e') : At initial .booting e' := by
  obtain ⟨answered,noted⟩ := Machine.watched_answer_iff.mp replied
  obtain ⟨k',g'⟩ := e'
  have still := there.still (.inl rfl)
  have absent := there.absent rfl
  cases r with
  | error err =>
    obtain rfl : e.1 = k' := Option.some.inj answered
    obtain rfl : g' = e.2 := noted
    refine ⟨there.looping,by simp,fun _ => still,?_,there.ipc,by simp,by simp,
      fun _ => there.early (by simp),there.begun⟩
    simpa [still] using there.main
  | ok _ =>
    obtain rfl : { e.1 with mainMask := e.1.mainMask.block } = k' := Option.some.inj answered
    obtain rfl : g' = { e.2 with blocked := true } := noted
    refine ⟨there.looping,by simp,fun _ => still,?_,?_,by simp,by simp,
      fun _ => there.early (by simp),?_⟩
    · simpa [still] using not_clear_block
    · exact fun present => absurd absent present
    · exact fun pid child found own => absurd (there.unborn rfl pid child found) own

theorem listening_booting {r : Unit} (there : At initial .booting e)
    (replied : surroundings.replies .spawnListener m e r e') : At initial .booting e' := by
  obtain ⟨answered,noted⟩ := Machine.watched_answer_iff.mp replied
  obtain ⟨k',g'⟩ := e'
  obtain rfl : { e.1 with ipc := .idle, ipcMask := e.1.mainMask } = k' := Option.some.inj answered
  obtain rfl : g' = e.2 := noted
  refine ⟨there.looping,by simp,there.still,there.main,fun _ => ?_,by simp,by simp,there.early,there.begun⟩
  simpa using there.main

theorem unblocked_ready {r : Except String Unit} (there : At initial .booting e)
    (replied : surroundings.replies .unblockHandled m e r e') : At initial .ready e' := by
  obtain ⟨answered,noted⟩ := Machine.watched_answer_iff.mp replied
  obtain ⟨k',g'⟩ := e'
  have still := there.still (.inr rfl)
  have early := there.early (by simp)
  cases r with
  | error err =>
    obtain rfl : e.1 = k' := Option.some.inj answered
    obtain rfl : g' = e.2 := noted
    refine ⟨there.looping,by simp,by simp,?_,there.ipc,by simp,by simp,fun _ => early,there.begun⟩
    simpa [still] using there.main
  | ok _ =>
    obtain rfl : { e.1 with mainMask := e.1.mainMask.unblock } = k' := Option.some.inj answered
    obtain rfl : g' = { e.2 with unblocked := true } := noted
    refine ⟨there.looping,by simp,by simp,?_,there.ipc,by simp,by simp,fun _ => early,?_⟩
    · simpa using clear_unblock
    · intro pid child found own
      have before := there.begun pid child found own
      simpa [startsFree,early pid] using before

def AtHead (initial : Mask) (e : Kernel × Starts) : Prop := At initial .ready e ∨ At initial .looping e

theorem looped {r : Bool} (head : AtHead initial e)
    (replied : surroundings.replies (.swap .rebootRequested) m e r e') : At initial .looping e' := by
  obtain ⟨answered,noted⟩ := Machine.watched_answer_iff.mp replied
  simp only [Kernel.machine,Kernel.answer,Option.ite_none_right_eq_some,Option.some.injEq] at answered
  obtain ⟨k',g'⟩ := e'
  obtain ⟨-,rfl⟩ := answered
  obtain rfl : g' = { e.2 with looping := true } := noted
  have running : Clear e.1.mainMask ↔ e.2.unblocked = true ∨ e.2.blocked = false ∧ Clear initial := by
    rcases head with there | there
    · simpa using there.main
    · simpa using there.main
  have main : Clear (e.1.lower .rebootRequested).mainMask ↔
      (Phase.looping = .ready ∨ Phase.looping = .looping) ∧ e.2.unblocked = true ∨
        e.2.blocked = false ∧ Clear initial := by
    change Clear e.1.mainMask ↔ _
    simpa using running
  rcases head with there | there
  · exact ⟨rfl,by simp,by simp,main,there.ipc,by simp,by simp,by simp,there.begun⟩
  · exact ⟨rfl,by simp,by simp,main,there.ipc,by simp,by simp,by simp,there.begun⟩

theorem serve_passes (grace : Nat) : (serve grace).Uses (fun _ _ => True) (passes .looping) := by
  have gentle : ∀ {α : Type} {p : Code α}, Gentle p → p.Uses (fun _ _ => True) (passes .looping) :=
    fun h => uses_gentle (.inr rfl) h
  refine uses_bind (uses_bind (uses_perform trivial) fun _ => ?_) fun _ => ?_
  · exact uses_provided (gentle applyReload_gentle)
  refine uses_bind (uses_bind (uses_perform trivial) fun pending => ?_) fun _ => ?_
  · exact uses_each fun name _ => gentle (isolate_gentle name)
  refine uses_bind (uses_bind (uses_perform trivial) fun _ => uses_provided ?_) fun _ => ?_
  · refine uses_bind (uses_read fun _ => trivial) fun _ => ?_
    refine uses_bind (uses_plain statusSummary_plain) fun _ => ?_
    exact uses_bind (uses_perform trivial) fun _ => uses_perform trivial
  refine uses_bind (uses_read fun _ => trivial) fun m => ?_
  refine uses_bind (gentle (gentle_of_timing (tick_times _ _))) fun _ => ?_
  refine uses_bind ?_ fun waited => ?_
  · exact uses_bind (uses_read fun _ => trivial) fun _ =>
      uses_bind (uses_perform trivial) fun _ => uses_pure _
  exact uses_bind (gentle killExpired_gentle) fun _ => gentle (dispatch_gentle grace _ _)

theorem wp_turn (grace : Nat) (head : AtHead initial e) : (turn grace).wp surroundings (asked initial)
    (fun _ _ => AtHead initial) m e := by
  refine (wp_bind _ _ _ _ _).mpr ?_
  refine wp_perform (P := AtHead initial) head ?_ ?_ ?_
  · exact fun e e' moved head => head.imp (at_moves moved) (at_moves moved)
  · exact fun e head => head.elim At.begun At.begun
  intro e reboot e' head replied
  refine wp_mono (wp_frame (at_frame initial .looping) ?_ (looped head replied))
    fun _ _ _ there => .inr there
  refine uses_bind (uses_perform trivial) fun poweroff => ?_
  refine uses_bind (uses_perform trivial) fun halt => ?_
  split
  · exact uses_gentle (.inr rfl) (stopServing_gentle grace)
  · exact serve_passes grace

theorem wp_runEventLoop (grace : Nat) (there : At initial .ready e) :
    (runEventLoop grace).wp surroundings (asked initial) (fun _ _ => Begun initial) m e := by
  refine wp_bind_update there.begun ?_
  have begun : ∀ e, AtHead initial e → Begun initial e := fun e head => head.elim At.begun At.begun
  refine wp_repeatFrom (fun _ _ => AtHead initial) (.inl there) (fun _ _ e head => begun e head) ?_
  intro _ m e head
  refine wp_mono (wp_turn grace head) fun turn m e after => ?_
  cases turn with
  | inl _ => exact after
  | inr _ => exact begun e after

theorem wp_main (there : At initial .starting e) :
    main.wp surroundings (asked initial) (fun _ _ => Begun initial) m e := by
  refine wp_bind_plain prepare_plain there fun cfg m e there => ?_
  refine wp_then (R := fun _ _ => At initial .booting) ?_ fun _ m e there => ?_
  · refine wp_bind_plain (plain_call rfl) there fun installed m e there => ?_
    refine wp_bind_plain (orElseLog_plain fun _ => rfl) there fun _ m e there => ?_
    refine wp_bind_turning there (fun e r e' => blocked_booting) fun blocked e there => ?_
    exact wp_frame (at_frame initial .booting) (uses_plain (orElseLog_plain fun _ => rfl)) there
  refine wp_then (R := fun _ _ => At initial .booting) ?_ fun _ m e there => ?_
  · refine wp_bind_turning there (fun e r e' => listening_booting) fun _ e there => ?_
    refine wp_bind_plain (plain_call rfl) there fun _ m e there => ?_
    refine wp_bind_plain (publishTargets_plain _ _) there fun _ m e there => ?_
    refine wp_bind_plain (plain_call rfl) there fun timerDefs m e there => ?_
    refine wp_bind_update there.begun ?_
    exact wp_frame (at_frame initial .booting)
      (uses_gentle (.inl rfl) (gentle_of_supervising (spawnAll_supervises _))) there
  refine wp_bind_turning there (fun e r e' => unblocked_ready) fun unblocked e there => ?_
  refine wp_bind_plain (orElseLog_plain fun _ => rfl) there fun _ m e there => ?_
  exact wp_runEventLoop _ there

end Program

def newProcess (k : Kernel) : Kernel := { k with children := ∅, ipc := .absent }

/-- A started process begins with the handled signals unblocked if and only if the event loop
started it after the main thread was unblocked, or they never were blocked. -/
theorem begins_unblocked_iff (k : Kernel) {t : State Memory Op Op.Ans (Kernel × Starts) Unit}
    (run : Reaches (Kernel.machine.watched starts).surroundings
      ⟨main,{},(newProcess k,({} : Starts))⟩ t) (pid : Int) (child : Child)
    (found : t.env.1.children.lookup pid = some child) (own : child.origin ≠ .orphan) :
    Clear child.mask ↔ startsFree k.mainMask t.env.2 pid := by
  have start : At k.mainMask .starting (newProcess k,({} : Starts)) := by
    refine ⟨rfl,fun _ => ⟨rfl,rfl⟩,fun _ => rfl,?_,fun present => absurd rfl present,fun _ => rfl,?_,
      fun _ _ => rfl,?_⟩
    · simp [newProcess]
    · simp [newProcess]
    · intro pid child found
      simp [newProcess] at found
  exact wp_everywhere run (wp_main start) (fun _ _ _ begun => begun) pid child found own

section Runs

def job : ServiceDef :=
  { name := "job", path := "/usr/bin/job", restart := .always, target := "multi-user" }

def config : Config := { Config.default with services := [job] }

def restartedRun : Option (State Memory Op Op.Ans (Kernel × Starts) Unit) :=
  drive (Kernel.machine.watched starts) (fun op m e => Kernel.obliging (fun _ => true) config op m e.1)
    [.upTo (· == .waitpid .any false) 200,.stir (.exit 100 (some (.exited 1))),
      .upTo (· == .swap .rebootRequested) 200]
    ⟨main,{},(newProcess {},{})⟩

theorem begins_unblocked_iff_restarted : ∃ t child, restartedRun = some t ∧
    t.env.1.children.lookup 100 = some child ∧ Clear child.mask := by
  have there : restartedRun.any (fun t =>
      (t.env.1.children.lookup 100).any (fun child => decide (child.origin ≠ .orphan)) &&
        (t.env.2.fromLoop 100 && t.env.2.unblocked)) = true := by
    decide +kernel
  obtain ⟨t,reached,now⟩ := (Option.any_eq_true _ _).mp there
  obtain ⟨present,free⟩ := Bool.and_eq_true_iff.mp now
  obtain ⟨child,found,own⟩ := (Option.any_eq_true _ _).mp present
  refine ⟨t,child,reached,found,?_⟩
  rw [begins_unblocked_iff {} (drive_reaches reached) 100 child found (of_decide_eq_true own)]
  exact .inl (Bool.and_eq_true_iff.mp free)

def bootedRun : Option (State Memory Op Op.Ans Kernel Unit) :=
  drive Kernel.machine (Kernel.obliging (fun _ => true) config)
    [.upTo (· == .waitpid .any false) 200] ⟨main,{},newProcess {}⟩

theorem boot_starts_blocked : ∃ (k : Kernel) (t : State Memory Op Op.Ans Kernel Unit) (pid : Int)
    (child : Child), Reaches Kernel.machine.surroundings ⟨main,{},newProcess k⟩ t ∧
      t.env.children.lookup pid = some child ∧ child.origin ≠ .orphan ∧ child.mask .sigterm = true := by
  have there : bootedRun.any (fun t => (t.env.children.lookup 100).any fun child =>
      decide (child.origin ≠ .orphan ∧ child.mask .sigterm = true)) = true := by
    decide +kernel
  obtain ⟨t,reached,present⟩ := (Option.any_eq_true _ _).mp there
  obtain ⟨child,found,blocked⟩ := (Option.any_eq_true _ _).mp present
  exact ⟨{},t,100,child,drive_reaches reached,found,of_decide_eq_true blocked⟩

end Runs
end MitosServices.Masks
