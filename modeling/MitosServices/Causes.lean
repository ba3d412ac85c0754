import MitosServices.Serving

/-! Why the program stops: for a cause only, and whenever there is one. -/
namespace MitosServices.Causes
open Interaction Interaction.Program

/-- What has been found: a shutdown flag that was raised, or the exit of a critical service that no reload
being watched has touched. -/
structure Cause where
  flagged : Bool := false
  fatal : Bool := false
deriving DecidableEq

def Cause.given (c : Cause) : Bool := c.flagged || c.fatal

def stops : Flag → Bool
  | .rebootRequested | .poweroffRequested | .haltRequested => true
  | _ => false

def timed (m : Memory) (pid : Int) : Bool := (m.timers.bind fun s => s.pending.lookup pid).isSome

def vital (m : Memory) (pid : Int) : Bool := (m.services.lookup pid).any fun sup =>
  sup.definition.critical && !m.watch.any fun w => w.touches sup.definition.name

/-- An exit is fatal unless a timer or an app claims it. -/
def found : (op : Op) → Memory → op.Ans → Cause → Cause
  | .swap flag, _, raised, c => { c with flagged := c.flagged || stops flag && raised }
  | .waitpid .any _, m, .ok (.ended pid _), c => { c with fatal := c.fatal || !timed m pid && vital m pid }
  | .takeApp _, _, some _, c => { c with fatal := false }
  | _, _, _, c => c

def causes {Env Event : Type} : Monitor Memory Op Op.Ans Env Event Cause where
  event _ _ _ _ c := c
  reply op m _ r c := found op m r c

section Rules
variable {Env Event : Type} {M : Machine Memory Op Op.Ans Env Event} {m : Memory} {e e' : Env × Cause}
  {α β : Type} {p : Code α} {f : α → Code β} {Q : β → Memory → Env × Cause → Prop}

abbrev around (M : Machine Memory Op Op.Ans Env Event) : Surroundings Memory Op Op.Ans (Env × Cause) :=
  (M.watched causes).surroundings

/-- The end is acknowledged when there is a cause, and the loop turns while there is none. -/
def asked : Option Op → Memory → Env × Cause → Prop
  | some .openAck, _, e => e.2.given = true
  | some (.swap .rebootRequested), _, e => e.2 = {}
  | _, _, _ => True

theorem heard {op : Op} {r : op.Ans} (replied : (around M).replies op m e r e') : e'.2 = found op m r e.2 :=
  (Machine.watched_answer_iff.mp replied).2

theorem still {op : Op} (moved : (around M).moves op m e e') : e'.2 = e.2 := by
  obtain ⟨ev,stirred⟩ := moved
  exact (Machine.watched_stir_iff.mp stirred).2

def innocent : Op → Bool
  | .swap flag => !stops flag
  | .waitpid .any _ | .takeApp _ | .openAck => false
  | _ => true

theorem found_innocent {op : Op} {r : op.Ans} (allowed : innocent op = true) : found op m r e.2 = e.2 := by
  cases op with
  | swap flag =>
    have other : stops flag = false := by simpa [innocent] using allowed
    simp [found,other]
  | waitpid target nohang =>
    cases target with
    | any => contradiction
    | only pid => rfl
  | takeApp pid => contradiction
  | _ => rfl

theorem asked_innocent (op : Option Op) (allowed : ∀ o ∈ op, innocent o = true) : asked op m e := by
  unfold asked
  split
  · exact absurd (allowed _ rfl) (by decide)
  · exact absurd (allowed _ rfl) (by decide)
  · trivial

abbrev Innocent (upd : Memory → Memory → Prop) (p : Code α) : Prop := p.Uses upd fun op => innocent op = true

theorem innocent_call {upd : Memory → Memory → Prop} {op : Op} (allowed : innocent op = true) :
    Innocent upd (call op) := uses_perform allowed

theorem innocent_of_supervises {op : Op} (supervises : op.supervises = true) (serves : op.serves = true) :
    innocent op = true := by
  cases op with
  | waitpid target nohang =>
    cases target with
    | any => contradiction
    | only pid => rfl
  | swap flag => contradiction
  | takeApp pid => contradiction
  | openAck => contradiction
  | _ => rfl

/-- A part that brings nothing to light leaves what has been found as it is, and writes what it may. -/
theorem wp_innocent {upd : Memory → Memory → Prop} (refl : ∀ m, upd m m)
    (trans : ∀ m₁ m₂ m₃, upd m₁ m₂ → upd m₂ m₃ → upd m₁ m₃) (uses : Innocent upd p) :
    p.wp (around M) asked (fun _ m' e' => upd m m' ∧ e'.2 = e.2) m e := by
  refine wp_frame (P := fun m' (e' : Env × Cause) => upd m m' ∧ e'.2 = e.2) ⟨?_,?_,?_,?_⟩ uses ⟨refl m,rfl⟩
  · exact fun m₁ m₂ _ written kept => ⟨trans _ _ _ kept.1 written,kept.2⟩
  · exact fun op m' e₁ e₂ _ moved kept => ⟨kept.1,(still moved).trans kept.2⟩
  · intro op m' e₁ r e₂ allowed replied kept
    exact ⟨kept.1,((heard replied).trans (found_innocent allowed)).trans kept.2⟩
  · exact fun op m e allowed _ => asked_innocent op allowed

theorem wp_bind_innocent (uses : Innocent (fun _ _ => True) p)
    (rest : ∀ a m' e', e'.2 = e.2 → (f a).wp (around M) asked Q m' e') : (p >>= f).wp (around M) asked Q m e := by
  have done := wp_innocent (M := M) (m := m) (e := e) (fun _ => trivial) (fun _ _ _ _ _ => trivial) uses
  exact wp_then done fun a m' e' kept => rest a m' e' kept.2

/-- A part that does not write the memory at all. -/
theorem wp_bind_still (uses : Innocent Eq p) (rest : ∀ a e', e'.2 = e.2 → (f a).wp (around M) asked Q m e') :
    (p >>= f).wp (around M) asked Q m e := by
  refine wp_then (wp_innocent (fun _ => rfl) (fun _ _ _ => Eq.trans) uses) ?_
  rintro a m' e' ⟨rfl,same⟩
  exact rest a e' same

end Rules

section Parts
variable {upd : Memory → Memory → Prop}

abbrev Harmless {α : Type} (p : Code α) : Prop := Innocent (fun _ _ => True) p

theorem innocent_of_calm {op : Op} (calm : op.Calm) : innocent op = true := by
  have quiet := calm.plain.1
  cases op with
  | waitpid target nohang => contradiction
  | swap flag => contradiction
  | takeApp pid => contradiction
  | openAck => exact absurd calm.unacknowledged (by decide)
  | _ => rfl

theorem innocent_of_ticks {op : Op} (ticks : op.Ticks) : innocent op = true := by
  have times := ticks.times
  cases op with
  | waitpid target nohang => contradiction
  | swap flag => contradiction
  | takeApp pid => contradiction
  | openAck => exact absurd ticks.unacknowledged (by decide)
  | _ => rfl

theorem still_of_calm {α : Type} {p : Code α} (calm : p.Uses Eq Op.Calm) : Innocent Eq p :=
  uses_mono calm (fun _ _ same => same) fun _ => innocent_of_calm

theorem harmless_of_still {α : Type} {p : Code α} (still : Innocent Eq p) : Harmless p :=
  uses_mono still (fun _ _ _ => trivial) fun _ allowed => allowed

theorem harmless_of_supervising {α : Type} {p : Code α} (supervises : Supervising p) (serves : Serving p) :
    Harmless p :=
  uses_mono (uses_and supervises serves) (fun _ _ _ => trivial) fun _ both => innocent_of_supervises both.1 both.2

theorem reloadServices_harmless (defs : List ServiceDef) : Harmless (reloadServices defs) :=
  harmless_of_supervising (reloadServices_supervises defs) (reloadServices_serves defs)

theorem dumpStatus_harmless : Harmless dumpStatus := by
  refine uses_bind (innocent_call rfl) fun _ => uses_provided (uses_bind (uses_read fun _ => trivial) fun m => ?_)
  refine uses_bind (harmless_of_still (still_of_calm statusSummary_calm)) fun services => ?_
  exact uses_bind (innocent_call rfl) fun _ => innocent_call rfl

theorem tick_harmless (timers : List TimerDef) (services : List ServiceDef) :
    Harmless (Timers.tick timers services) :=
  uses_mono (tick_ticks timers services) (fun _ _ _ => trivial) fun _ => innocent_of_ticks

theorem killExpired_still : Innocent Eq killExpired :=
  uses_bind (still_of_calm expiredWatchdogs_calm) fun _ =>
  uses_each fun _ _ => uses_bind (innocent_call rfl) fun _ => innocent_call rfl

end Parts

section Turns
variable {Env Event : Type} {M : Machine Memory Op Op.Ans Env Event} {m : Memory} {e : Env × Cause}
  {pid : Int} {ending : Ending} {grace : Nat}

def Fatal (pid : Int) (m : Memory) (e : Env × Cause) : Prop := e.2 = ⟨false,vital m pid⟩

/-- A timer's run is claimed first, then an app. -/
theorem wp_offer (waited : e.2 = ⟨false,!timed m pid && vital m pid⟩) :
    (offer pid).wp (around M) asked (fun claimed m e => if claimed then e.2 = {} else Fatal pid m e) m e := by
  refine wp_then (R := fun timer m e => if timer then e.2 = {} else Fatal pid m e) ?_ ?_
  · refine wp_then (R := fun _ m e => e.2 = ⟨false,!timed m pid && vital m pid⟩) ?_ fun _ m e waited => ?_
    · refine wp_bind_read trivial ?_
      cases scheduled : m.timers with
      | some s => exact waited
      | none =>
        refine wp_bind_still (innocent_call rfl) fun boot e' same => ?_
        have unscheduled : timed { m with timers := some ⟨boot,∅,[],∅⟩ } pid = timed m pid := by
          simp [timed,scheduled]
        rw [← unscheduled] at waited
        exact ⟨trivial,same.trans waited⟩
    · refine wp_bind_exchange trivial ?_
      cases pending : (m.timers.bind fun s => s.pending.lookup pid) with
      | some name =>
        have clear : e.2 = {} := by simp [waited,timed,pending]
        refine wp_bind_still (innocent_call rfl) fun _ e' same => ?_
        refine wp_bind_still (innocent_call rfl) fun finished e'' same' => ?_
        refine wp_bind_update trivial ?_
        exact (same'.trans same).trans clear
      | none =>
        have fatal : e.2 = ⟨false,vital m pid⟩ := by simp [waited,timed,pending]
        exact fatal
  · intro timer m e known
    cases timer with
    | true => exact known
    | false =>
      have known : e.2 = ⟨false,vital m pid⟩ := known
      refine (wp_bind _ _ _ _ _).mpr (wp_perform (P := fun e => e.2 = ⟨false,vital m pid⟩) known ?_ ?_ ?_)
      · exact fun e e' moved known => (still moved).trans known
      · exact fun _ _ => trivial
      intro e info e' known replied
      cases info with
      | none => exact (heard replied).trans known
      | some info =>
        have clear : e'.2 = {} := by rw [heard replied,known,found]
        refine wp_bind_still (innocent_call rfl) fun _ e₁ same => ?_
        refine wp_bind_still (innocent_call rfl) fun _ e₂ same' => ?_
        exact (same'.trans same).trans clear

def Judged : Outcome → Memory → Env × Cause → Prop
  | .halt name, m, e => e.2 = ⟨false,!m.watch.any fun w => w.touches name⟩
  | _, _, e => e.2 = {}

theorem wp_restart (sup : Supervised) (clear : e.2 = {}) : (restart sup).wp (around M) asked Judged m e := by
  have starts : ∀ times, Harmless (spawnWithHistory sup.definition times) := fun times =>
    harmless_of_supervising (spawnWithHistory_supervises _ times) (spawnWithHistory_serves _ times)
  refine wp_bind_still (innocent_call rfl) fun t e₁ same => ?_
  have clear := same.trans clear
  dsimp only
  split
  · exact wp_bind_still (innocent_call rfl) fun _ e₂ same₂ => same₂.trans clear
  · exact wp_bind_innocent (starts _) fun _ m e₂ same₂ => same₂.trans clear

/-- A critical service is not started again, and nothing else stops the program. -/
theorem wp_handleExit (fatal : Fatal pid m e) :
    (handleExit (.ended pid ending)).wp (around M) asked Judged m e := by
  refine wp_bind_exchange trivial ?_
  dsimp only
  cases tracked : m.services.lookup pid with
  | none =>
    rw [Fatal,vital,tracked] at fatal
    exact fatal
  | some sup =>
    have fatal : e.2 = ⟨false,sup.definition.critical && !m.watch.any fun w => w.touches sup.definition.name⟩ := by
      rw [Fatal,vital,tracked] at fatal
      exact fatal
    refine wp_bind_still (innocent_call rfl) fun _ e₁ same => ?_
    refine wp_bind_still (innocent_call rfl) fun _ e₂ same₂ => ?_
    refine wp_bind_still (innocent_call rfl) fun _ e₃ same₃ => ?_
    have fatal := ((same₃.trans same₂).trans same).trans fatal
    cases critical : sup.definition.critical with
    | true =>
      rw [critical,Bool.true_and] at fatal
      exact fatal
    | false =>
      have clear : e₃.2 = {} := by rw [fatal,critical,Bool.false_and]
      rw [if_neg (by simp)]
      split
      · exact wp_restart sup clear
      · exact clear

def lasting : Op → Bool
  | .swap _ | .takeApp _ => false
  | _ => true

theorem lasting_of_windsDown {op : Op} (h : op.windsDown = true) : lasting op = true := by
  cases op <;> first | rfl | contradiction

theorem lasting_of_plain {op : Op} (plain : op.Plain) : lasting op = true := by
  cases op <;> first | rfl | exact absurd plain.1 (by simp [Op.quiet])

theorem given_lasts {op : Op} {r : op.Ans} {c : Cause} (lasts : lasting op = true) (given : c.given = true) :
    (found op m r c).given = true := by
  unfold found
  split
  · contradiction
  · simp only [Cause.given,Bool.or_eq_true] at given ⊢
    exact given.imp_right .inl
  · contradiction
  · exact given

abbrev Clear (_ : Memory) (e : Env × Cause) : Prop := e.2 = {}

abbrev Given (_ : Memory) (e : Env × Cause) : Prop := e.2.given = true

theorem wp_clear {α : Type} {p : Code α} (harmless : Harmless p) (clear : Clear m e) :
    p.wp (around M) asked (fun _ => Clear) m e := by
  refine wp_mono (wp_innocent (fun _ => trivial) (fun _ _ _ _ _ => trivial) harmless) ?_
  exact fun _ _ _ kept => kept.2.trans clear

theorem wp_given {α : Type} {p : Code α} (lasts : p.Uses (fun _ _ => True) fun op => lasting op = true)
    (given : Given m e) : p.wp (around M) asked (fun _ => Given) m e := by
  refine wp_frame ⟨fun _ _ _ _ given => given,?_,?_,?_⟩ lasts given
  · intro op m e e' _ moved given
    rw [Given,still moved]
    exact given
  · intro op m e r e' allowed replied given
    rw [Given,heard replied]
    exact given_lasts allowed given
  · intro op m e allowed given
    unfold asked
    split
    · exact given
    · exact absurd (allowed _ rfl) (by decide)
    · trivial

/-- What a calm part does is no cause, and takes none back. -/
theorem still_calm {P : Memory → Env × Cause → Prop} (kept : ∀ m e e', e'.2 = e.2 → P m e → P m e') :
    Calmly (around M) asked P where
  updates _ _ _ same held := same ▸ held
  moves _ _ _ _ _ moved held := kept _ _ _ (still moved) held
  replies _ _ _ _ _ calm replied held :=
    kept _ _ _ ((heard replied).trans (found_innocent (innocent_of_calm calm))) held
  holds op _ _ calm _ := asked_innocent op fun o member => innocent_of_calm (calm o member)

theorem clear_calm : Calmly (around M) asked Clear := still_calm fun _ _ _ same clear => same.trans clear

theorem loadConfig_harmless : Harmless loadConfig :=
  uses_bind (innocent_call rfl) fun _ => uses_bind (innocent_call rfl) fun _ => uses_pure _

theorem reload_phases : ReloadPhases (around M) asked Clear Clear (fun _ => Clear) (fun _ => Clear) (fun _ => Clear)
    (fun _ _ => Clear) (fun _ => Clear) Clear where
  unread _ _ := trivial
  takes _ _ clear := wp_clear (innocent_call rfl) clear
  skips _ _ clear := clear
  logs _ _ clear := wp_clear (innocent_call rfl) clear
  loads _ _ clear := wp_clear loadConfig_harmless clear
  levels _ _ _ clear := wp_clear (innocent_call rfl) clear
  levelled_calm _ := clear_calm
  times _ _ _ clear := wp_clear (innocent_call rfl) clear
  reconciles _ _ _ clear := wp_clear (reloadServices_harmless _) clear
  reconciled_calm _ _ := clear_calm
  dates _ _ _ _ clear := wp_clear (innocent_call rfl) clear
  publishes _ _ _ clear := wp_clear (innocent_call rfl) clear

theorem isolate_phases : IsolatePhases (around M) asked Clear (fun _ => Clear) (fun _ => Clear) Clear where
  unread _ _ := trivial
  takes _ _ clear := by
    refine wp_mono (wp_clear (innocent_call rfl) clear) fun pending _ _ kept => ?_
    cases pending <;> exact kept
  refuses _ _ _ clear := wp_clear (innocent_call rfl) clear
  named_calm _ := clear_calm
  reconciles _ _ _ clear _ := wp_clear (reloadServices_harmless _) clear
  publishes _ _ _ clear := wp_clear (innocent_call rfl) clear

theorem verdict_phases : VerdictPhases (around M) asked (fun _ => Clear) (fun _ => Clear) (fun _ => Clear)
    (fun _ => Clear) Clear where
  unread _ _ := trivial
  unwatched _ _ _ clear _ := clear
  rolls _ _ _ _ clear _ _ := wp_clear (innocent_call rfl) clear
  reconciles _ _ _ clear := wp_clear (reloadServices_harmless _) clear
  levels _ _ _ clear := wp_clear (innocent_call rfl) clear
  restored_calm _ := clear_calm
  ends _ _ _ clear := wp_clear (innocent_call rfl) clear
  looks _ _ _ _ clear _ _ := by
    refine wp_mono (wp_clear (innocent_call rfl) clear) fun t m e clear => ?_
    split
    · exact clear
    · exact wp_clear (innocent_call rfl) clear

theorem boot_phases : BootPhases (around M) asked Clear (fun _ => Clear) (fun _ => Clear) (fun _ => Clear)
    (fun _ => Clear) Clear where
  unread _ _ := trivial
  started_calm := clear_calm
  loads _ _ clear := wp_clear loadConfig_harmless clear
  levels _ _ _ clear := wp_clear (innocent_call rfl) clear
  levelled_calm _ := clear_calm
  blocks _ _ _ clear := wp_clear (innocent_call rfl) clear
  listens _ _ _ clear := wp_clear (innocent_call rfl) clear
  publishes _ _ _ clear := wp_clear (innocent_call rfl) clear
  times _ _ _ clear := wp_clear (innocent_call rfl) clear
  spawns _ _ _ clear :=
    wp_clear (harmless_of_supervising (spawnAll_supervises _) (spawnAll_serves _)) clear
  unblocks _ _ clear := wp_clear (innocent_call rfl) clear
  booted_calm := clear_calm

def Waited : Except Errno WaitStatus → Memory → Env × Cause → Prop
  | .ok (.ended pid _), m, e => e.2 = ⟨false,!timed m pid && vital m pid⟩
  | _, _, e => e.2 = {}

theorem waited_still (status : Except Errno WaitStatus) (m : Memory) (e e' : Env × Cause) (same : e'.2 = e.2)
    (waited : Waited status m e) : Waited status m e' := by
  match status with
  | .ok (.ended pid ending) => exact same.trans waited
  | .ok .stillAlive => exact same.trans waited
  | .ok .other => exact same.trans waited
  | .error _ => exact same.trans waited

theorem wp_waits (clear : Clear m e) : (waitpid .any (polls m)).wp (around M) asked Waited m e := by
  refine wp_perform (P := fun e => e.2 = {}) clear ?_ ?_ ?_
  · exact fun e e' moved clear => (still moved).trans clear
  · exact fun _ _ => trivial
  intro e status e' clear replied
  have known := heard replied
  rw [clear] at known
  match status with
  | .ok (.ended pid ending) => exact known
  | .ok .stillAlive => exact known
  | .ok .other => exact known
  | .error _ => exact known

/-- A shutdown flag that is raised is found as it is lowered. -/
theorem wp_bind_flag {β : Type} {flag : Flag} {f : Bool → Code β} {Q : β → Memory → Env × Cause → Prop}
    {c : Cause} (known : e.2 = c) (head : flag = .rebootRequested → c = {})
    (rest : ∀ raised e', e'.2 = { c with flagged := c.flagged || stops flag && raised } →
      (f raised).wp (around M) asked Q m e') : (swap flag >>= f).wp (around M) asked Q m e := by
  refine (wp_bind _ _ _ _ _).mpr (wp_perform (P := fun e => e.2 = c) known ?_ ?_ ?_)
  · exact fun e e' moved known => (still moved).trans known
  · intro e known
    cases flag with
    | rebootRequested => exact known.trans (head rfl)
    | _ => trivial
  · intro e raised e' known replied
    refine rest raised e' ?_
    rw [heard replied,known]
    rfl

theorem wp_takeFlags (clear : Clear m e) :
    takeFlags.wp (around M) asked (fun raised m e => if raised then Given m e else Clear m e) m e := by
  refine wp_bind_flag clear (fun _ => rfl) fun reboot e known => ?_
  refine wp_bind_flag known (by simp) fun poweroff e known => ?_
  refine wp_bind_flag known (by simp) fun halt e known => ?_
  have known : e.2 = ⟨reboot || poweroff || halt,false⟩ := by
    rw [known]
    simp [stops]
  cases raised : (reboot || poweroff || halt) with
  | true =>
    rw [raised] at known
    exact congrArg Cause.given known
  | false =>
    rw [raised] at known
    exact known

/-- The loop turns while there is no cause, and it is left when there is one. -/
theorem loop_phases : LoopPhases (around M) asked Clear Clear Clear Clear Waited
    (fun pid _ claimed m e => if claimed then e.2 = {} else Fatal pid m e) Judged Given Given Given Given where
  unread _ _ := trivial
  takes _ _ clear := wp_takeFlags clear
  reloads _ _ clear := reload_phases.wp_handleReload clear
  isolates _ _ clear := isolate_phases.wp_handleIsolate clear
  dumps _ _ clear := wp_clear dumpStatus_harmless clear
  ticks _ _ clear := wp_clear (tick_harmless _ _) clear
  waits _ _ clear := wp_waits clear
  kills status m e waited := by
    refine wp_mono (wp_innocent (fun _ => rfl) (fun _ _ _ => Eq.trans) killExpired_still) ?_
    rintro _ m' e' ⟨rfl,same⟩
    exact waited_still status m e e' same waited
  offers _ _ _ _ waited := wp_offer waited
  claims _ _ _ _ clear := clear
  exits _ _ _ _ fatal := wp_handleExit fatal
  waited_calm status _ := still_calm (waited_still status)
  passes status _ _ waited unopened := by
    cases status with
    | ended pid ending => contradiction
    | stillAlive => exact waited
    | other => exact waited
  fails _ _ _ waited := waited
  resolves outcome m e judged touched := by
    have clear : Clear m e := by
      cases outcome with
      | halt name =>
        have judged : e.2 = ⟨false,!m.watch.any fun w => w.touches name⟩ := judged
        rw [touched name rfl] at judged
        exact judged
      | _ => exact judged
    exact verdict_phases.wp_resolveWatch clear
  halts name m e judged untouched := by
    have judged : e.2 = ⟨false,!m.watch.any fun w => w.touches name⟩ := judged
    rw [untouched] at judged
    exact wp_given (uses_perform rfl) (congrArg Cause.given judged)
  relays _ _ given := wp_given (uses_perform rfl) given
  closes grace _ _ given :=
    wp_given (uses_mono (shutdownAll_windsDown grace) (fun _ _ _ => trivial) fun _ => lasting_of_windsDown) given
  acknowledges _ _ given :=
    wp_given (uses_mono acknowledgeShutdown_plain (fun _ _ _ => trivial) fun _ => lasting_of_plain) given

theorem wp_main (clear : Clear m e) : main.wp (around M) asked (fun _ => Given) m e :=
  boot_phases.wp_main (fun grace _ _ clear => loop_phases.wp_runEventLoop grace clear) clear

/-- Whatever comes and whatever fails, the program stops for a cause, and does not go on when there is one: it
acknowledges its end, or returns, only once a shutdown flag has been found raised or a critical service that no
reload being watched has touched has exited, unclaimed by timers and apps; and when its loop turns, neither has. -/
theorem stops_for_cause (M : Machine Memory Op Op.Ans Env Event) (m : Memory) (k : Env)
    {t : State Memory Op Op.Ans (Env × Cause) Unit}
    (run : Reaches (M.watched causes).surroundings ⟨main,m,(k,{})⟩ t) :
    (t.program.next? = some .openAck ∨ t.program = .ret () → t.env.2.given = true) ∧
      (t.program.next? = some (.swap .rebootRequested) → t.env.2.given = false) := by
  have there := wp_reaches run (wp_main (M := M) (m := m) (e := (k,{})) rfl)
  have asks : asked t.program.next? t.mem t.env :=
    wp_everywhere run (wp_main (M := M) rfl) fun _ _ _ _ => trivial
  refine ⟨?_,fun turns => ?_⟩
  · rintro (acknowledges | returned)
    · rw [acknowledges] at asks
      exact asks
    · rw [returned] at there
      exact there
  · rw [turns] at asks
    have clear : t.env.2 = {} := asks
    rw [clear]
    rfl

end Turns

section Runs

def web : ServiceDef := { name := "web", path := "/usr/bin/web", target := "multi-user" }

def getty : ServiceDef := { name := "getty", path := "/usr/bin/getty", critical := true, target := "multi-user" }

def turning : Cue Op Event := .upTo (· == .swap .rebootRequested) 400

def lastRun : Option (State Memory Op Op.Ans (Kernel × Cause) Unit) :=
  drive (Kernel.machine.watched causes)
    (fun op m e => Kernel.obliging (fun _ => true) { Config.default with services := [web,getty] } op m e.1)
    [turning,.stir (.exit 100 (some (.exited 1))),.step,turning,.stir (.exit 101 (some (.exited 0))),.step,
      .upTo (· == .openAck) 400]
    ⟨main,{},({},{})⟩

theorem stops_for_cause_last : ∃ t, lastRun = some t ∧ t.program.next? = some .openAck ∧
    t.env.2.flagged = false ∧ t.env.2.given = true := by
  have there : lastRun.any (fun t => decide (t.program.next? = some .openAck ∧ t.env.2.flagged = false)) = true := by
    decide +kernel
  obtain ⟨t,reached,now⟩ := (Option.any_eq_true _ _).mp there
  obtain ⟨acknowledges,unflagged⟩ := of_decide_eq_true now
  have caused := stops_for_cause Kernel.machine {} {} (drive_reaches reached)
  exact ⟨t,reached,acknowledges,unflagged,caused.1 (.inl acknowledges)⟩

end Runs
end MitosServices.Causes
