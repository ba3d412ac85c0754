import MitosServices.Membership

/-! Nothing that was started is left behind: a process that is tracked no longer has had the cgroup of its
service killed since. -/
namespace MitosServices.Residue
open Interaction Interaction.Program

/-- The processes that have been started as services, with the names of their cgroups, less those whose
cgroups have been killed since. -/
def loose : (op : Op) → op.Ans → List (Int × String) → List (Int × String)
  | .spawn (.service name _) _, .ok pid, started => (pid,name) :: started
  | .spawn .rescue _, .ok pid, started => (pid,fallbackShell.name) :: started
  | .killAndRemove name, _, started => started.filter fun process => process.2 ≠ name
  | _, _, started => started

def remains {Env Event : Type} : Monitor Memory Op Op.Ans Env Event (List (Int × String)) where
  event _ _ _ _ started := started
  reply op _ _ r started := loose op r started

def Held (but : Int × String → Prop) (services : Services) (started : List (Int × String)) : Prop :=
  ∀ pid name, (pid,name) ∈ started → ¬ but (pid,name) →
    ∃ sup, services.lookup pid = some sup ∧ sup.definition.name = name

abbrev nothing (_ : Int × String) : Prop := False

abbrev Tidy {Env : Type} (m : Memory) (e : Env × List (Int × String)) : Prop := Held nothing m.services e.2

structure Regular {Env : Type} (S : Surroundings Memory Op Op.Ans Env) : Prop where
  visits : Visits S
  fresh : ∀ origin command pid m e e', S.replies (.spawn origin command) m e (.ok pid) e' →
    m.services.lookup pid = none

section Rules
variable {Env Event : Type} {M : Machine Memory Op Op.Ans Env Event} {m : Memory} {e e' : Env × List (Int × String)}
  {services : Services} {started : List (Int × String)} {pid : Int} {name : String} {but : Int × String → Prop}

abbrev around (M : Machine Memory Op Op.Ans Env Event) : Surroundings Memory Op Op.Ans (Env × List (Int × String)) :=
  (M.watched remains).surroundings

def asked (op : Option Op) (m : Memory) (e : Env × List (Int × String)) : Prop :=
  op = some (.swap .rebootRequested) → Held nothing m.services e.2

theorem asked_of {op : Option Op} (other : op ≠ some (.swap .rebootRequested)) : asked op m e :=
  fun turns => absurd turns other

theorem held_fewer {fewer : List (Int × String)} (sub : fewer ⊆ started) (held : Held but services started) :
    Held but services fewer := fun pid name member => held pid name (sub member)

theorem held_insert {sup : Supervised} (fresh : services.lookup pid = none) (held : Held but services started) :
    Held but (services.insert pid sup) started := by
  intro p name member kept
  obtain ⟨s,found,named⟩ := held p name member kept
  refine ⟨s,lookup_insert_iff.mpr (.inr ⟨?_,found⟩),named⟩
  rintro rfl
  rw [fresh] at found
  contradiction

/-- What has been started is held once it is tracked. -/
theorem held_tracked {sup : Supervised} (fresh : services.lookup pid = none)
    (held : Held (· = (pid,sup.definition.name)) services started) :
    Held nothing (services.insert pid sup) started := by
  intro p name member _
  by_cases same : (p,name) = (pid,sup.definition.name)
  · cases same
    exact ⟨sup,lookup_insert_iff.mpr (.inl ⟨rfl,rfl⟩),rfl⟩
  · exact held_insert fresh held p name member same

/-- What is struck from the table leaves those under its name to be swept. -/
theorem held_erase {sup : Supervised} (found : services.lookup pid = some sup) (held : Held nothing services started) :
    Held (·.2 = sup.definition.name) (services.erase pid) started := by
  intro p name member other
  obtain ⟨s,known,named⟩ := held p name member id
  refine ⟨s,lookup_erase_iff.mpr ⟨?_,known⟩,named⟩
  rintro rfl
  rw [found] at known
  cases known
  exact other named.symm

theorem held_swept (held : Held (·.2 = name) services started) :
    Held nothing services (started.filter fun process => process.2 ≠ name) := by
  intro p x member _
  obtain ⟨inside,other⟩ := List.mem_filter.mp member
  exact held p x inside (of_decide_eq_true other)

theorem held_started (held : Held nothing services started) :
    Held (· = (pid,name)) services ((pid,name) :: started) := by
  intro p x member other
  rcases List.mem_cons.mp member with same | before
  · exact absurd same other
  · exact held p x before id

theorem heard {op : Op} {r : op.Ans} (replied : (around M).replies op m e r e') : e'.2 = loose op r e.2 :=
  (Machine.watched_answer_iff.mp replied).2

theorem still {op : Op} (moved : (around M).moves op m e e') : e'.2 = e.2 := by
  obtain ⟨ev,stirred⟩ := moved
  exact (Machine.watched_stir_iff.mp stirred).2

def idles : Op → Bool
  | .spawn origin _ => match origin with
    | .service _ _ | .rescue => false
    | _ => true
  | .swap .rebootRequested => false
  | _ => true

theorem idles_of_plain {op : Op} (plain : op.Plain) : idles op = true := by
  cases op with
  | spawn origin command => exact absurd plain.1 (by simp [Op.quiet])
  | swap flag => cases flag <;> first | rfl | exact absurd plain.1 (by decide)
  | _ => rfl

theorem asked_idle (op : Option Op) (idle : ∀ o ∈ op, idles o = true) : asked op m e := by
  refine asked_of ?_
  rintro rfl
  exact absurd (idle _ rfl) (by decide)

/-- Only a start adds to them. -/
theorem loose_fewer {op : Op} {r : op.Ans} (idle : idles op = true) : loose op r started ⊆ started := by
  cases op with
  | spawn origin command =>
    cases origin with
    | service _ _ => contradiction
    | rescue => contradiction
    | _ => exact fun _ there => there
  | killAndRemove name => exact List.filter_subset_self started
  | _ => exact fun _ there => there

theorem held_replies {op : Op} {r : op.Ans} (idle : idles op = true)
    (replied : (around M).replies op m e r e') (held : Held but services e.2) : Held but services e'.2 := by
  rw [heard replied]
  exact held_fewer (loose_fewer idle) held

theorem held_moves {op : Op} (moved : (around M).moves op m e e') (held : Held but services e.2) :
    Held but services e'.2 := by
  rw [still moved]
  exact held

theorem idles_of_quiet {op : Op} (quiet : op.quiet = true) : idles op = true := by
  cases op with
  | spawn origin command => contradiction
  | swap flag => cases flag <;> first | rfl | contradiction
  | _ => rfl

theorem held_steady (but : Int × String → Prop) : Steady (around M) asked fun m e => Held but m.services e.2 where
  moves _ _ _ _ moved held := held_moves moved held
  replies _ _ _ _ _ quiet replied held := held_replies (idles_of_quiet quiet) replied held
  holds op _ _ mild _ := by
    refine asked_of ?_
    rintro rfl
    exact absurd (mild _ rfl) (by decide)

theorem apart_steady (but : Int × String → Prop) (pid : Int) : Steady (around M) asked
    fun m e => Held but m.services e.2 ∧ m.services.lookup pid = none where
  moves _ _ _ _ moved held := ⟨held_moves moved held.1,held.2⟩
  replies _ _ _ _ _ quiet replied held := ⟨held_replies (idles_of_quiet quiet) replied held.1,held.2⟩
  holds op m e mild held := (held_steady (M := M) but).holds op m e mild held.1

/-- Once the cgroup of its service is killed, nothing of it is left. -/
theorem wp_stop (held : Held (·.2 = name) m.services e.2) :
    (stopOne pid name).wp (around M) asked (fun _ => Tidy) m e := by
  have steady : Steady (around M) asked fun m e => Held (·.2 = name) m.services e.2 := held_steady _
  have phases : StopPhases (around M) asked pid name (fun m e => Held (·.2 = name) m.services e.2)
      (fun m e => Held (·.2 = name) m.services e.2) (fun m e => Held (·.2 = name) m.services e.2)
      Tidy := {
    before_steady := steady
    dying_steady := steady
    gone_steady := steady
    may_terminate := fun _ _ _ => asked_of (by simp)
    may_kill := fun _ _ _ => asked_of (by simp)
    terminated := fun _ _ _ held replied => held_replies rfl replied held
    reaped := fun _ _ _ _ _ held replied => held_replies rfl replied held
    remains := fun _ _ _ _ held _ replied => held_replies rfl replied held
    lost := fun _ _ _ _ held replied => held_replies rfl replied held
    killed := fun _ _ _ held replied => held_replies rfl replied held
    swept := fun _ _ _ held replied => by
      rw [Tidy,heard replied]
      exact held_swept held }
  exact wp_stopOne phases held

/-- What is stopped has been struck from the table before. -/
theorem wp_bind_stop {β : Type} {sup : Supervised} {f : Unit → Code β}
    {Q : β → Memory → Env × List (Int × String) → Prop}
    (found : m.services.lookup pid = some sup) (held : Tidy m e)
    (rest : ∀ m e, Tidy m e → (f ()).wp (around M) asked Q m e) :
    (stopOne pid sup.definition.name >>= f).wp (around M) asked Q (withoutService m pid) e :=
  wp_then (wp_stop (held_erase found held)) fun _ m e stopped => rest m e stopped

section Starts
variable (regular : Regular M.surroundings)
include regular

theorem fresh {origin : Origin} {command : Command}
    (replied : (around M).replies (.spawn origin command) m e (.ok pid) e') : m.services.lookup pid = none :=
  regular.fresh origin command pid m e.1 e'.1 (Machine.watched_answer_iff.mp replied).1

theorem visits : Visits (around M) :=
  fun listed m e visited e' replied =>
    regular.visits listed m e.1 visited e'.1 (Machine.watched_answer_iff.mp replied).1

theorem start_phases (d : ServiceDef) (times : List Nat) :
    StartPhases (around M) asked d times Tidy
      (fun pid m e => Held (· = (pid,d.name)) m.services e.2 ∧ m.services.lookup pid = none)
      Tidy
      (fun pid m e => Held (· = (pid,fallbackShell.name)) m.services e.2 ∧ m.services.lookup pid = none)
      Tidy where
  before_steady := held_steady _
  spawned_steady _ := apart_steady _ _
  failed_steady := held_steady _
  rescue_steady _ := apart_steady _ _
  child command pid m e e' held replied := by
    refine ⟨?_,fresh regular replied⟩
    rw [heard replied]
    exact held_started held
  refused command err m e e' held replied := by
    rw [Tidy,heard replied]
    exact held
  shell command pid m e e' held _ replied := by
    refine ⟨?_,fresh regular replied⟩
    rw [heard replied]
    exact held_started held
  noShell command err m e e' held _ replied := by
    rw [Tidy,heard replied]
    exact held
  tracked pid t m e held := held_tracked held.2 held.1
  trackedShell pid t m e held := held_tracked held.2 held.1
  missed m e held _ := held

theorem wp_start (d : ServiceDef) (times : List Nat) (held : Tidy m e) :
    (spawnWithHistory d times).wp (around M) asked (fun _ => Tidy) m e :=
  wp_spawnWithHistory (start_phases regular d times) held

omit regular in
theorem wp_stopRemoved (held : Tidy m e) :
    (stopRemoved pid).wp (around M) asked (fun _ => Tidy) m e := by
  refine wp_bind_removeService (asked_of (by simp)) ?_
  cases found : m.services.lookup pid with
  | none =>
    rw [withoutService_untracked found]
    exact held
  | some sup =>
    have struck : Held (·.2 = sup.definition.name) (withoutService m pid).services e.2 := held_erase found held
    refine wp_bind_steady (held_steady _) (plain_call rfl) struck fun _ m e struck => ?_
    exact wp_then (wp_stop struck) fun _ m e stopped => wp_steady (held_steady _) (plain_call rfl) stopped

theorem wp_reconcileOne (d : ServiceDef) (held : Tidy m e) :
    (reconcileOne d).wp (around M) asked (fun _ => Tidy) m e := by
  refine wp_bind_read (asked_of (by simp)) ?_
  have steady := steady_memory_and (held_steady (M := M) nothing) m
  refine wp_bind_entries steady (visits regular) ⟨held,rfl⟩ fun visited e visit held => ?_
  split
  · rename_i pid sup found
    obtain ⟨there,named⟩ := Services.find_visited visit found
    split
    · exact held.1
    · refine wp_then (R := fun _ => Tidy) ?_ fun _ _ _ after => after
      refine wp_bind_steady steady (plain_call rfl) held ?_
      rintro _ m' e ⟨logged,rfl⟩
      refine wp_bind_removeService (asked_of (by simp)) ?_
      rw [← named]
      exact wp_bind_stop there logged fun m e held => wp_start regular d [] held
  · refine wp_bind_steady (held_steady _) (plain_call rfl) held.1 fun _ m e held => ?_
    exact wp_then (wp_start regular d [] held) fun _ _ _ started => started

theorem wp_reconcile (touched : List String) (defs : List ServiceDef) (held : Tidy m e) :
    (reconcile touched defs).wp (around M) asked (fun _ => Tidy) m e := by
  induction defs generalizing touched m e with
  | nil => exact held
  | cons d rest ih =>
    refine wp_then (wp_reconcileOne regular d held) fun changed m e after => ?_
    exact ih _ after

theorem wp_reloadServices (defs : List ServiceDef) (held : Tidy m e) :
    (reloadServices defs).wp (around M) asked (fun _ => Tidy) m e := by
  refine wp_bind_read (asked_of (by simp)) ?_
  refine wp_bind_entries (held_steady _) (visits regular) held fun visited e _ held => ?_
  refine wp_then (wp_each (fun _ => Tidy) held ?_) fun _ m e held =>
    wp_reconcile regular [] defs held
  exact fun pid rest m e held => wp_stopRemoved held

theorem wp_restart (sup : Supervised) (held : Tidy m e) :
    (restart sup).wp (around M) asked (fun _ => Tidy) m e := by
  refine wp_bind_steady (held_steady _) (plain_call rfl) held fun t m e held => ?_
  dsimp only
  split
  · refine wp_bind_perform (held_steady _) held (fun _ _ _ => asked_of (by simp)) ?_
    exact fun e _ e' held replied => held_replies rfl replied held
  · exact wp_then (wp_start regular _ _ held) fun _ m e held => held

/-- An exit sweeps what the service may have left. -/
theorem wp_handleExit (status : WaitStatus) (held : Tidy m e) :
    (handleExit status).wp (around M) asked (fun _ => Tidy) m e := by
  cases status with
  | stillAlive => exact held
  | other => exact held
  | ended pid ending =>
    refine wp_bind_removeService (asked_of (by simp)) ?_
    cases found : m.services.lookup pid with
    | none =>
      rw [withoutService_untracked found]
      exact held
    | some sup =>
      have struck : Held (·.2 = sup.definition.name) (withoutService m pid).services e.2 := held_erase found held
      refine wp_bind_perform (held_steady _) struck (fun _ _ _ => asked_of (by simp)) fun e _ e' struck replied => ?_
      have struck := held_replies rfl replied struck
      refine wp_bind_perform (held_steady _) struck (fun _ _ _ => asked_of (by simp)) fun e _ e' struck replied => ?_
      have swept : Held nothing (withoutService m pid).services e'.2 := by
        rw [heard replied]
        exact held_swept struck
      refine wp_bind_steady (held_steady _) (plain_call rfl) swept fun _ m e held => ?_
      split
      · exact held
      split
      · exact wp_restart regular sup held
      · exact held

end Starts

section Turns
variable {α : Type} {p : Code α}

abbrev Idle (p : Code α) : Prop := p.Uses (fun m m' => m'.services = m.services) fun op => idles op = true

theorem idle_call {op : Op} (idle : idles op = true) : Idle (call op) := uses_perform idle

theorem idle_of_plain (plain : p.Uses Eq Op.Plain) : Idle p :=
  uses_mono plain (fun _ _ same => same ▸ rfl) fun _ allowed => idles_of_plain allowed

theorem loadConfig_idle : Idle loadConfig :=
  uses_bind (idle_call rfl) fun _ => uses_bind (idle_call rfl) fun _ => uses_pure _

theorem wp_idle (idle : Idle p) :
    p.wp (around M) asked (fun _ m' e' => m'.services = m.services ∧ e'.2 ⊆ e.2) m e := by
  let P (m' : Memory) (e' : Env × List (Int × String)) : Prop := m'.services = m.services ∧ e'.2 ⊆ e.2
  refine wp_frame (P := P) ⟨?_,?_,?_,?_⟩ idle ⟨rfl,List.Subset.refl _⟩
  · exact fun _ _ _ written kept => ⟨written.trans kept.1,kept.2⟩
  · intro op m' e₁ e₂ _ moved kept
    refine ⟨kept.1,?_⟩
    rw [still moved]
    exact kept.2
  · intro op m' e₁ r e₂ allowed replied kept
    refine ⟨kept.1,?_⟩
    rw [heard replied]
    exact fun _ member => kept.2 (loose_fewer allowed member)
  · exact fun op m e allowed _ => asked_idle op allowed

theorem wp_held (idle : Idle p) (held : Tidy m e) : p.wp (around M) asked (fun _ => Tidy) m e := by
  refine wp_mono (wp_idle idle) fun _ m' e' kept => ?_
  rw [Tidy,kept.1]
  exact held_fewer kept.2 held

theorem tidy_calm : Calmly (around M) asked Tidy := calmly_of_steady (held_steady nothing)

abbrev Before (_ : Memory) (e : Env × List (Int × String)) : Prop := e.2 = []

theorem before_of_fewer {fewer : List (Int × String)} (sub : fewer ⊆ started) (before : started = []) : fewer = [] := by
  rw [before] at sub
  exact List.subset_nil.mp sub

/-- Nothing comes of it as long as nothing has been started. -/
theorem wp_before (idle : Idle p) (before : Before m e) : p.wp (around M) asked (fun _ => Before) m e :=
  wp_mono (wp_idle idle) fun _ _ _ kept => before_of_fewer kept.2 before

theorem before_calm : Calmly (around M) asked Before where
  updates _ _ _ _ before := before
  moves _ _ _ _ _ moved before := (still moved).trans before
  replies _ _ _ _ _ calm replied before := by
    rw [Before,heard replied]
    exact before_of_fewer (loose_fewer (idles_of_plain calm.plain)) before
  holds op _ _ calm _ := asked_idle op fun o member => idles_of_plain (calm o member).plain

variable (regular : Regular M.surroundings)
include regular

theorem reload_phases : ReloadPhases (around M) asked Tidy Tidy (fun _ => Tidy) (fun _ => Tidy) (fun _ => Tidy)
    (fun _ _ => Tidy) (fun _ => Tidy) Tidy where
  unread _ _ := asked_of (by simp)
  takes _ _ held := wp_held (idle_call rfl) held
  skips _ _ held := held
  logs _ _ held := wp_held (idle_call rfl) held
  loads _ _ held := wp_held loadConfig_idle held
  levels _ _ _ held := wp_held (idle_call rfl) held
  levelled_calm _ := tidy_calm
  times _ _ _ held := wp_held (idle_call rfl) held
  reconciles _ _ _ held := wp_reloadServices regular _ held
  reconciled_calm _ _ := tidy_calm
  dates _ _ _ _ held := wp_held (idle_call rfl) held
  publishes _ _ _ held := wp_held (idle_of_plain (publishTargets_plain _ _)) held

theorem isolate_phases : IsolatePhases (around M) asked Tidy (fun _ => Tidy) (fun _ => Tidy) Tidy where
  unread _ _ := asked_of (by simp)
  takes _ _ held := by
    refine wp_mono (wp_held (idle_call rfl) held) fun pending _ _ kept => ?_
    cases pending <;> exact kept
  refuses _ _ _ held := wp_held (idle_call rfl) held
  named_calm _ := tidy_calm
  reconciles _ _ _ held _ := wp_reloadServices regular _ held
  publishes _ _ _ held := wp_held (idle_of_plain (publishTargets_plain _ _)) held

theorem verdict_phases : VerdictPhases (around M) asked (fun _ => Tidy) (fun _ => Tidy) (fun _ => Tidy)
    (fun _ => Tidy) Tidy where
  unread _ _ := asked_of (by simp)
  unwatched _ _ _ held _ := held
  rolls _ _ _ _ held _ _ := wp_held (idle_call rfl) held
  reconciles _ _ _ held := wp_reloadServices regular _ held
  levels _ _ _ held := wp_held (idle_call rfl) held
  restored_calm _ := tidy_calm
  ends _ _ _ held := wp_held (idle_call rfl) held
  looks _ _ _ _ held _ _ := by
    refine wp_mono (wp_held (idle_call rfl) held) fun t m e held => ?_
    split
    · exact held
    · exact wp_held (idle_call rfl) held

/-- The table is empty when the first service is started, and so is the record. -/
theorem boot_phases : BootPhases (around M) asked Before (fun _ => Before) (fun _ => Before) (fun _ => Before)
    (fun _ => Before) Tidy where
  unread _ _ := asked_of (by simp)
  started_calm := before_calm
  loads _ _ before := wp_before loadConfig_idle before
  levels _ _ _ before := wp_before (idle_call rfl) before
  levelled_calm _ := before_calm
  blocks _ _ _ before := wp_before (idle_call rfl) before
  listens _ _ _ before := wp_before (idle_call rfl) before
  publishes _ _ _ before := wp_before (idle_of_plain (publishTargets_plain _ _)) before
  times _ _ _ before := wp_before (idle_call rfl) before
  spawns cfg m e before := by
    refine wp_spawnAll_keeps (held_steady nothing) ?_ _ ?_
    · exact fun d times m e held => wp_start regular d times held
    · intro pid name member
      rw [before] at member
      exact absurd member List.not_mem_nil
  unblocks _ _ held := wp_held (idle_call rfl) held
  booted_calm := tidy_calm

theorem loop_held : LoopInvariant (around M) asked Tidy Tidy where
  unasked _ _ _ other := asked_of other
  head _ _ held _ := held
  pending _ _ _ moved held := held_moves moved held
  turned _ _ _ _ replied held := by
    rw [Tidy,heard replied]
    exact held
  moves _ _ _ _ moved held := held_moves moved held
  replies op _ _ _ _ _ unstarted turnless replied held := by
    refine held_replies ?_ replied held
    cases op with
    | spawn origin command => cases origin <;> first | rfl | contradiction
    | swap flag => cases flag <;> first | rfl | contradiction
    | _ => rfl
  timers m m' _ written held := by
    unfold OnlyTimers at written
    rw [written]
    exact held
  settles _ _ held := held
  reloads _ _ held := (reload_phases regular).wp_handleReload held
  isolates _ _ held := (isolate_phases regular).wp_handleIsolate held
  exits status _ _ held := wp_handleExit regular status held
  resolves _ _ _ held := (verdict_phases regular).wp_resolveWatch held

theorem wp_main (before : Before m e) : main.wp (around M) asked (fun _ _ _ => True) m e :=
  (boot_phases regular).wp_main (fun grace _ _ held => (loop_held regular).phases.wp_runEventLoop grace held) before

omit regular in
/-- Whatever comes and whatever fails: whenever the loop turns, a process that was started as a service is still
tracked under its pid, as the service it was started as, or the cgroup of its service has been killed since. -/
theorem none_left_behind (M : Machine Memory Op Op.Ans Env Event) (regular : Regular M.surroundings) (m : Memory)
    (k : Env) {t : State Memory Op Op.Ans (Env × List (Int × String)) Unit}
    (run : Reaches (M.watched remains).surroundings ⟨main,m,(k,[])⟩ t)
    (turns : t.program.next? = some (.swap .rebootRequested)) : Tidy t.mem t.env :=
  wp_everywhere run (wp_main regular rfl) (fun _ m e _ => asked_of (by simp)) turns

end Turns
end Rules

section Runs

def freshPids : Condition Memory Op Op.Ans Kernel Event where
  event _ _ _ _ := true
  reply
    | .spawn _ _, m, _, .ok pid => (m.services.lookup pid).isNone
    | _, _, _, _ => true

theorem freshPids_regular : Regular (Kernel.machine.under freshPids).surroundings where
  visits listed m e visited e' replied := Kernel.answer_iterate (m := m) (Machine.under_answer_iff.mp replied).2
  fresh origin command pid m e e' replied := by
    have allowed := (Machine.under_answer_iff.mp replied).1
    simpa [freshPids] using allowed

def web : ServiceDef := { name := "web", path := "/usr/bin/web", restart := .always, target := "multi-user" }

def job : ServiceDef := { name := "job", path := "/usr/bin/job", target := "multi-user" }

def turning : Cue Op Event := .upTo (· == .swap .rebootRequested) 400

def restlessRun : Option (State Memory Op Op.Ans (Kernel × List (Int × String)) Unit) :=
  drive ((Kernel.machine.under freshPids).watched remains)
    (fun op m e => Kernel.obliging (fun _ => true) { Config.default with services := [web,job] } op m e.1)
    [turning,.stir (.exit 100 (some (.exited 0))),.step,turning,.stir (.exit 101 (some (.exited 0))),.step,turning]
    ⟨main,{},({},[])⟩

theorem none_left_behind_restless : ∃ t, restlessRun = some t ∧ t.env.2 = [(100,"web")] ∧ Tidy t.mem t.env := by
  have there : restlessRun.any (fun t => decide (t.program.next? = some (.swap .rebootRequested) ∧
      t.env.2 = [(100,"web")])) = true := by decide +kernel
  obtain ⟨t,reached,now⟩ := (Option.any_eq_true _ _).mp there
  obtain ⟨turns,loose⟩ := of_decide_eq_true now
  exact ⟨t,reached,loose,none_left_behind _ freshPids_regular {} {} (drive_reaches reached) turns⟩

end Runs
end MitosServices.Residue
