import MitosServices.Membership

/-! No service of the current target goes missing unheard: at every turn of the loop each one is tracked,
or the last that was heard of it is why it is not. -/
namespace MitosServices.Absence
open Interaction Interaction.Program

/-- The services that were last heard to be down: they ended, could not be spawned, or were skipped for
want of a requirement. -/
def news : (op : Op) → op.Ans → List String → List String
  | .spawn (.service name _) _, .ok _, down => down.filter (· ≠ name)
  | .spawn (.service name _) _, .error _, down => name :: down
  | .log (.serviceEnded name _), _, down => name :: down
  | .log (.requiresMissing name _), _, down => name :: down
  | _, _, down => down

def absences {Env Event : Type} : Monitor Memory Op Op.Ans Env Event (List String) where
  event _ _ _ _ down := down
  reply op _ _ r down := news op r down

def wanted (m : Memory) : List String :=
  (Targets.servicesIn m.cfg.services m.currentTarget).map ServiceDef.name

def Accounted {Env : Type} (names : List String) (m : Memory) (e : Env × List String) : Prop :=
  ∀ name ∈ names, m.services.tracks name = true ∨ name ∈ e.2

/-- Hash maps are visited entry by entry, a child that is spawned has a pid that is not in the table, and no
isolate comes under a watch. -/
structure Orderly {Env : Type} (S : Surroundings Memory Op Op.Ans Env) : Prop where
  visits : Visits S
  fresh : ∀ origin command pid m e e', S.replies (.spawn origin command) m e (.ok pid) e' →
    m.services.lookup pid = none
  isolates : ∀ m e name e', S.replies .takePendingIsolate m e (some name) e' → m.watch = none

def asked {Env : Type} (op : Option Op) (m : Memory) (e : Env × List String) : Prop :=
  op = some (.swap .rebootRequested) → Accounted (wanted m) m e

section Rules
variable {Env Event : Type} {M : Machine Memory Op Op.Ans Env Event} {m : Memory} {e e' : Env × List String}
  {names : List String}

abbrev around (M : Machine Memory Op Op.Ans Env Event) : Surroundings Memory Op Op.Ans (Env × List String) :=
  (M.watched absences).surroundings

theorem asked_of {op : Option Op} (other : op ≠ some (.swap .rebootRequested)) : asked op m e :=
  fun turns => absurd turns other

theorem asked_mild (op : Option Op) (mild : ∀ o ∈ op, Op.mild o = true) : asked op m e := by
  refine asked_of ?_
  rintro rfl
  exact absurd (mild _ rfl) (by decide)

theorem still_down {op : Op} (moved : (around M).moves op m e e') : e'.2 = e.2 := by
  obtain ⟨ev,stirred⟩ := moved
  exact (Machine.watched_stir_iff.mp stirred).2

theorem heard {op : Op} {r : op.Ans} (replied : (around M).replies op m e r e') :
    e'.2 = news op r e.2 := (Machine.watched_answer_iff.mp replied).2

/-- Only a spawn is good news. -/
theorem down_grows {op : Op} {r : op.Ans} (unspawned : ∀ name critical command, op ≠ .spawn (.service name critical) command)
    (replied : (around M).replies op m e r e') : e.2 ⊆ e'.2 := by
  rw [heard replied]
  cases op with
  | spawn origin command =>
    cases origin with
    | service name critical => exact absurd rfl (unspawned name critical command)
    | _ => exact fun _ there => there
  | log line =>
    cases line with
    | serviceEnded name ending => exact fun _ there => .tail _ there
    | requiresMissing name missing => exact fun _ there => .tail _ there
    | _ => exact fun _ there => there
  | _ => exact fun _ there => there

theorem accounted_grows (grows : e.2 ⊆ e'.2) (held : Accounted names m e) : Accounted names m e' :=
  fun name member => (held name member).imp_right fun down => grows down

abbrev Beside (name : String) (names : List String) (m : Memory) (e : Env × List String) : Prop :=
  Accounted (names.filter (· ≠ name)) m e

theorem beside_of_accounted (name : String) (held : Accounted names m e) : Beside name names m e :=
  fun other member => held other (List.mem_filter.mp member).1

/-- With the one that was missing, all are accounted for. -/
theorem accounted_cons {name : String} (held : Beside name names m e)
    (found : m.services.tracks name = true ∨ name ∈ e.2) : Accounted (name::names) m e := by
  intro other member
  by_cases same : other = name
  · subst same
    exact found
  · rcases List.mem_cons.mp member with equal | later
    · exact absurd equal same
    · exact held other (List.mem_filter.mpr ⟨later,decide_eq_true same⟩)

/-- A service that is heard to be down is accounted for. -/
theorem accounted_told {name : String} (told : e'.2 = name :: e.2) (held : Beside name names m e) :
    Accounted (name::names) m e' := by
  refine accounted_cons (accounted_grows ?_ held) (.inr ?_)
  · rw [told]
    exact fun _ there => .tail _ there
  · rw [told]
    exact .head _

theorem accounted_steady : Steady (around M) asked (Accounted names) where
  moves op m e e' moved held := by
    rw [Accounted,still_down moved]
    exact held
  replies op m e r e' quiet replied held := by
    refine accounted_grows (down_grows ?_ replied) held
    rintro name critical command rfl
    contradiction
  holds op _ _ mild _ := asked_mild op mild

theorem untracked_steady (pid : Int) : Steady (around M) asked fun m e =>
    Accounted names m e ∧ m.services.lookup pid = none where
  moves op m e e' moved held := ⟨accounted_steady.moves op m e e' moved held.1,held.2⟩
  replies op m e r e' quiet replied held := ⟨accounted_steady.replies op m e r e' quiet replied held.1,held.2⟩
  holds op _ _ mild _ := asked_mild op mild

theorem tracks_insert_self {services : Services} {pid : Int} {sup : Supervised} :
    Services.tracks (services.insert pid sup) sup.definition.name = true :=
  Services.tracks_iff.mpr ⟨pid,sup,AList.lookup_insert _,rfl⟩

theorem tracks_insert_other {services : Services} {pid : Int} {sup : Supervised} {name : String}
    (fresh : services.lookup pid = none) (there : services.tracks name = true) :
    Services.tracks (services.insert pid sup) name = true := by
  obtain ⟨p,s,found,named⟩ := Services.tracks_iff.mp there
  refine Services.tracks_iff.mpr ⟨p,s,lookup_insert_iff.mpr (.inr ⟨?_,found⟩),named⟩
  rintro rfl
  rw [fresh] at found
  contradiction

theorem accounted_insert {pid : Int} {sup : Supervised} (fresh : m.services.lookup pid = none)
    (held : Accounted names m e) : Accounted names (withService m pid sup) e :=
  fun name member => (held name member).imp_left (tracks_insert_other fresh)

/-- A service that is struck from the table takes its own name along and no other. -/
theorem beside_erase {pid : Int} {sup : Supervised} (found : m.services.lookup pid = some sup)
    (held : Accounted names m e) : Beside sup.definition.name names (withoutService m pid) e := by
  intro name member
  obtain ⟨inside,other⟩ := List.mem_filter.mp member
  refine (held name inside).imp_left fun there => ?_
  obtain ⟨p,s,known,named⟩ := Services.tracks_iff.mp there
  refine Services.tracks_iff.mpr ⟨p,s,lookup_erase_iff.mpr ⟨?_,known⟩,named⟩
  rintro rfl
  rw [found] at known
  cases known
  exact of_decide_eq_true other named.symm

theorem wp_stop {pid : Int} {name : String} (start : Accounted names m e) :
    (stopOne pid name).wp (around M) asked (fun _ => Accounted names) m e := by
  refine wp_stopOne (.uniform accounted_steady ?_ ?_) start
  · exact fun sig m e _ => asked_of (by simp)
  · exact fun status m e e' held replied => accounted_grows (down_grows (by simp) replied) held

section Starts
variable (orderly : Orderly M.surroundings)
include orderly

theorem fresh {origin : Origin} {command : Command} {pid : Int}
    (replied : (around M).replies (.spawn origin command) m e (.ok pid) e') : m.services.lookup pid = none :=
  orderly.fresh origin command pid m e.1 e'.1 (Machine.watched_answer_iff.mp replied).1

theorem visits : Visits (around M) :=
  fun listed m e visited e' replied =>
    orderly.visits listed m e.1 visited e'.1 (Machine.watched_answer_iff.mp replied).1

theorem start_phases (names : List String) (d : ServiceDef) (times : List Nat) :
    StartPhases (around M) asked d times (Beside d.name names)
      (fun pid m e => Beside d.name names m e ∧ m.services.lookup pid = none)
      (Accounted (d.name::names))
      (fun pid m e => Accounted (d.name::names) m e ∧ m.services.lookup pid = none)
      (Accounted (d.name::names)) where
  before_steady := accounted_steady
  spawned_steady := untracked_steady
  failed_steady := accounted_steady
  rescue_steady := untracked_steady
  child command pid m e e' held replied := by
    refine ⟨fun name member => ?_,fresh orderly replied⟩
    refine (held name member).imp_right fun down => ?_
    rw [heard replied]
    exact List.mem_filter.mpr ⟨down,(List.mem_filter.mp member).2⟩
  refused command err m e e' held replied := accounted_told (heard replied) held
  shell command pid m e e' held _ replied :=
    ⟨accounted_grows (down_grows (by simp) replied) held,fresh orderly replied⟩
  noShell command err m e e' held _ replied := accounted_grows (down_grows (by simp) replied) held
  tracked pid t m e held := accounted_cons (accounted_insert held.2 held.1) (.inl tracks_insert_self)
  trackedShell pid t m e held := accounted_insert held.2 held.1
  missed m e held _ := held

theorem wp_start {d : ServiceDef} {times : List Nat} (start : Beside d.name names m e) :
    (spawnWithHistory d times).wp (around M) asked (fun _ => Accounted (d.name::names)) m e :=
  wp_spawnWithHistory (start_phases orderly names d times) start

theorem wp_reconcileOne (d : ServiceDef) (start : Accounted names m e) :
    (reconcileOne d).wp (around M) asked (fun _ => Accounted (d.name::names)) m e := by
  refine wp_bind_read (asked_of (by simp)) ?_
  refine wp_bind_entries (steady_memory_and accounted_steady m) (visits orderly) ⟨start,rfl⟩ fun visited e visit held => ?_
  split
  · rename_i pid sup found
    obtain ⟨there,named⟩ := Services.find_visited visit found
    split
    · exact accounted_cons (beside_of_accounted d.name held.1) (.inl (Services.tracks_iff.mpr ⟨pid,sup,there,named⟩))
    · refine wp_then (R := fun _ => Accounted (d.name::names)) ?_ fun _ _ _ after => after
      refine wp_bind_steady (steady_memory_and accounted_steady m) (plain_call rfl) held ?_
      rintro _ m' e ⟨logged,rfl⟩
      refine wp_bind_removeService (asked_of (by simp)) ?_
      have struck := beside_erase there logged
      rw [named] at struck
      exact wp_then (wp_stop struck) fun _ m e stopped => wp_start orderly stopped
  · refine wp_bind_steady accounted_steady (plain_call rfl) held.1 fun _ m e held => ?_
    exact wp_then (wp_start orderly (beside_of_accounted d.name held)) fun _ _ _ after => after

/-- Whatever was tracked, a reconciliation accounts for every definition it comes to. -/
theorem wp_reconcile {touched : List String} (defs : List ServiceDef) (start : Accounted names m e) :
    (reconcile touched defs).wp (around M) asked (fun _ => Accounted (names ++ defs.map ServiceDef.name)) m e := by
  induction defs generalizing names touched m e with
  | nil =>
    rw [List.map_nil,List.append_nil]
    exact start
  | cons d rest ih =>
    refine wp_then (wp_reconcileOne orderly d start) fun changed m e after => ?_
    refine wp_mono (ih after) fun _ m e all name member => all name ?_
    simpa [or_left_comm] using member

theorem nothing_stops : Stopping (around M) asked (Accounted []) fun _ => Accounted [] where
  steady := accounted_steady
  halfway_steady _ := accounted_steady
  visits := visits orderly
  struck _ _ _ _ _ _ _ member := absurd member List.not_mem_nil
  stops _ _ _ _ held := wp_stop held

theorem wp_reloadServices (defs : List ServiceDef) :
    (reloadServices defs).wp (around M) asked (fun _ => Accounted (defs.map ServiceDef.name)) m e := by
  have nothing : Accounted [] m e := fun _ member => absurd member List.not_mem_nil
  refine wp_bind_read (asked_of (by simp)) ?_
  refine wp_bind_entries accounted_steady (visits orderly) nothing fun visited e _ nothing => ?_
  refine wp_then (wp_each (fun _ => Accounted []) nothing ?_) fun _ m e nothing => wp_reconcile orderly defs nothing
  exact fun pid rest m e kept => wp_stopRemoved_keeps (nothing_stops orderly) pid kept

/-- What is accounted for stays so over an exit: that it ended is heard. -/
theorem wp_handleExit (status : WaitStatus) (start : Accounted names m e) :
    (handleExit status).wp (around M) asked (fun _ => Accounted names) m e := by
  cases status with
  | stillAlive => exact start
  | other => exact start
  | ended pid ending =>
    refine wp_bind_removeService (asked_of (by simp)) ?_
    cases found : m.services.lookup pid with
    | none =>
      rw [withoutService_untracked found]
      exact start
    | some sup =>
      refine wp_bind_perform accounted_steady (beside_erase found start) (fun _ _ _ => asked_of (by simp)) ?_
      intro e _ e' held replied
      have held : Accounted (sup.definition.name::names) (withoutService m pid) e' :=
        accounted_told (heard replied) held
      refine wp_mono (Q := fun _ => Accounted (sup.definition.name::names)) ?_
        fun _ _ _ all name member => all name (.tail _ member)
      refine wp_bind_steady accounted_steady (plain_call rfl) held fun _ m e held => ?_
      refine wp_bind_steady accounted_steady (plain_call rfl) held fun _ m e held => ?_
      split
      · exact held
      split
      · refine wp_bind_steady accounted_steady (plain_call rfl) held fun t m e held => ?_
        dsimp only
        split
        · exact wp_bind_perform accounted_steady held (fun _ _ _ => asked_of (by simp)) fun e _ e' held replied =>
            accounted_grows (down_grows (by simp) replied) held
        · have beside := beside_of_accounted sup.definition.name held
          refine wp_then (wp_start orderly beside) fun _ m e all name member => all name (.tail _ member)
      · exact held

end Starts

section Turns

/-- What a turn keeps: the current target is accounted for, and it is what a rollback would go back to. -/
structure Heard (m : Memory) (e : Env × List String) : Prop where
  accounted : Accounted (wanted m) m e
  aimed : ∀ w, m.watch = some w → w.target = m.currentTarget

theorem heard_only {m' : Memory} (only : OnlyServices m m') (aimed : ∀ w, m.watch = some w → w.target = m.currentTarget)
    (accounted : Accounted (wanted m) m' e) : Heard m' e := by
  unfold OnlyServices at only
  rw [only] at accounted ⊢
  exact ⟨accounted,aimed⟩

theorem heard_steady : Steady (around M) asked Heard where
  moves op m e e' moved held := ⟨accounted_steady.moves op m e e' moved held.accounted,held.aimed⟩
  replies op m e r e' quiet replied held :=
    ⟨accounted_steady.replies op m e r e' quiet replied held.accounted,held.aimed⟩
  holds op _ _ mild _ := asked_mild op mild

theorem accounted_calm (names : Memory → List String) :
    Calmly (around M) asked fun m e => Accounted (names m) m e where
  updates _ _ _ same held := same ▸ held
  moves op m e e' _ moved held := accounted_steady.moves op m e e' moved held
  replies op m e r e' calm replied held := accounted_steady.replies op m e r e' calm.plain.1 replied held
  holds op _ _ calm _ := asked_mild op fun o member => (calm o member).plain.2

theorem memory_calm (P : Memory → Prop) : Calmly (around M) asked fun m _ => P m :=
  calmly_of_steady (steady_memory fun op _ _ mild _ => asked_mild op mild)

/-- A call at which nothing is asked, and what is heard with its answer. -/
theorem wp_hears {op : Op} {Q : op.Ans → Memory → Env × List String → Prop} (turnless : op ≠ .swap .rebootRequested)
    (rest : ∀ e₁ r e', e₁.2 = e.2 → (around M).replies op m e₁ r e' → Q r m e') :
    (call op).wp (around M) asked Q m e := by
  refine wp_perform (P := fun e₁ => e₁.2 = e.2) rfl ?_ ?_ ?_
  · exact fun e₁ e₂ moved same => (still_down moved).trans same
  · exact fun e₁ _ => asked_of (by simpa using turnless)
  · exact fun e₁ r e' same replied => rest e₁ r e' same replied

/-- A call that spawns no service. -/
theorem wp_grows {op : Op} (names : Memory → List String) (turnless : op ≠ .swap .rebootRequested)
    (unspawned : ∀ name critical command, op ≠ .spawn (.service name critical) command)
    (start : Accounted (names m) m e) :
    (call op).wp (around M) asked (fun _ m e => Accounted (names m) m e) m e := by
  refine wp_hears turnless fun e₁ r e' same replied => accounted_grows ?_ start
  rw [← same]
  exact down_grows unspawned replied

theorem wp_stays {op : Op} {P : Memory → Prop} (turnless : op ≠ .swap .rebootRequested) (start : P m) :
    (call op).wp (around M) asked (fun _ m _ => P m) m e := wp_hears turnless fun _ _ _ _ _ => start

theorem loadConfig_stays : loadConfig.wp (around M) asked (fun _ _ _ => True) m e :=
  (wp_bind _ _ _ _ _).mpr (wp_hears (by simp) fun _ _ _ _ _ =>
    (wp_bind _ _ _ _ _).mpr (wp_hears (by simp) fun _ _ _ _ _ => trivial))

abbrev namesIn (cfg : Config) (target : String) : List String :=
  (Targets.servicesIn cfg.services target).map ServiceDef.name

variable (orderly : Orderly M.surroundings)
include orderly

theorem wp_reloaded (defs : List ServiceDef) : (reloadServices defs).wp (around M) asked
    (fun _ m' e => Accounted (defs.map ServiceDef.name) m' e ∧ OnlyServices m m') m e :=
  wp_onlyServices (reloadServices_supervises defs) (wp_reloadServices orderly defs)

theorem reload_phases : ReloadPhases (around M) asked Heard (fun _ _ => True) (fun _ _ _ => True)
    (fun _ _ _ => True) (fun _ _ _ => True) (fun cfg _ m e => Accounted (namesIn cfg m.currentTarget) m e)
    (fun _ => Heard) Heard where
  unread _ _ := asked_of (by simp)
  takes m e held := wp_hears (by simp) fun _ _ _ same replied =>
    ⟨accounted_grows (same ▸ down_grows (by simp) replied) held.accounted,held.aimed⟩
  skips _ _ held := held
  logs _ _ _ := wp_stays (P := fun _ => True) (by simp) trivial
  loads _ _ _ := loadConfig_stays
  levels _ _ _ _ := wp_stays (P := fun _ => True) (by simp) trivial
  levelled_calm _ := memory_calm fun _ => True
  times _ _ _ _ := wp_hears (by simp) fun _ _ _ _ _ => trivial
  reconciles cfg m _ _ := by
    refine wp_mono (wp_reloaded orderly _) fun _ m' _ reloaded => ?_
    rw [(onlyServices_iff reloaded.2).2.1]
    exact reloaded.1
  reconciled_calm cfg _ := accounted_calm fun m => namesIn cfg m.currentTarget
  dates cfg _ m _ reconciled := by
    refine wp_mono (wp_grows (fun m => namesIn cfg m.currentTarget) (by simp) (by simp) reconciled) ?_
    exact fun _ _ _ kept => ⟨kept,by rintro _ ⟨⟩; rfl⟩
  publishes _ _ _ held := wp_steady heard_steady (publishTargets_plain _ _) held

theorem isolate_phases : IsolatePhases (around M) asked Heard (fun _ m e => Heard m e ∧ m.watch = none)
    (fun name m e => m.watch = none ∧ Accounted (namesIn m.cfg name) m e) Heard where
  unread _ _ := asked_of (by simp)
  takes m e held := by
    refine wp_hears (by simp) fun e₁ pending e' same replied => ?_
    have kept : Heard m e' := ⟨accounted_grows (same ▸ down_grows (by simp) replied) held.accounted,held.aimed⟩
    cases pending with
    | none => exact kept
    | some name => exact ⟨kept,orderly.isolates m e₁.1 name e'.1 (Machine.watched_answer_iff.mp replied).1⟩
  refuses _ _ _ named := wp_steady heard_steady (plain_call rfl) named.1
  named_calm _ := calmly_of_steady {
    moves := fun op m e e' moved held => ⟨heard_steady.moves op m e e' moved held.1,held.2⟩
    replies := fun op m e r e' quiet replied held => ⟨heard_steady.replies op m e r e' quiet replied held.1,held.2⟩
    holds := fun op _ _ mild _ => asked_mild op mild }
  reconciles name m _ named _ := by
    refine wp_mono (wp_reloaded orderly _) fun _ m' _ reloaded => ?_
    obtain ⟨configured,-,watching,-⟩ := onlyServices_iff reloaded.2
    rw [configured,watching]
    exact ⟨named.2,reloaded.1⟩
  publishes _ m _ reconciled :=
    wp_steady heard_steady (publishTargets_plain _ _) ⟨reconciled.2,by simp [reconciled.1]⟩

/-- A rollback goes back to services of the target it still runs in. -/
theorem verdict_phases : VerdictPhases (around M) asked (fun _ => Heard) (fun w m _ => w.target = m.currentTarget)
    (fun w m e => Accounted (namesIn w.previous m.currentTarget) m e)
    (fun w m e => Accounted (namesIn w.previous m.currentTarget) m e) Heard where
  unread _ _ := asked_of (by simp)
  unwatched _ _ _ held _ := held
  rolls _ w _ _ held watching _ :=
    wp_stays (P := fun m => w.target = m.currentTarget) (by simp) (held.aimed w watching)
  reconciles w m _ aimed := by
    refine wp_mono (wp_reloaded orderly _) fun _ m' _ reloaded => ?_
    rw [(onlyServices_iff reloaded.2).2.1,← aimed]
    exact reloaded.1
  levels w m _ back := wp_grows (fun m => namesIn w.previous m.currentTarget) (by simp) (by simp) back
  restored_calm w := accounted_calm fun m => namesIn w.previous m.currentTarget
  ends w m _ restored := by
    refine wp_mono (wp_grows (fun m => namesIn w.previous m.currentTarget) (by simp) (by simp) restored) ?_
    exact fun _ _ _ kept => ⟨kept,by simp⟩
  looks _ w m e held watching _ := by
    refine wp_hears (by simp) fun e₁ t e' same replied => ?_
    have accounted : Accounted (wanted m) m e' :=
      accounted_grows (same ▸ down_grows (by simp) replied) held.accounted
    split
    · refine ⟨accounted,?_⟩
      rintro _ ⟨⟩
      exact held.aimed w watching
    · refine wp_hears (by simp) fun e₂ _ e₃ same replied => ?_
      exact ⟨accounted_grows (same ▸ down_grows (by simp) replied) accounted,by simp⟩

theorem loop_heard : LoopInvariant (around M) asked Heard Heard where
  unasked _ _ _ other := asked_of other
  head _ _ held _ := held.accounted
  pending _ _ _ moved held := heard_steady.moves _ _ _ _ moved held
  turned _ _ _ _ replied held := ⟨accounted_grows (down_grows (by simp) replied) held.accounted,held.aimed⟩
  moves _ _ _ _ moved held := heard_steady.moves _ _ _ _ moved held
  replies op m e r e' _ unstarted _ replied held := by
    refine ⟨accounted_grows (down_grows ?_ replied) held.accounted,held.aimed⟩
    rintro name critical command rfl
    contradiction
  timers m m' _ written held := by
    unfold OnlyTimers at written
    rw [written]
    exact ⟨held.accounted,held.aimed⟩
  settles _ _ held := held
  reloads _ _ held := (reload_phases orderly).wp_handleReload held
  isolates _ _ held := (isolate_phases orderly).wp_handleIsolate held
  exits status m e held := by
    have answered := wp_handleExit orderly status held.accounted
    refine wp_mono (wp_onlyServices (handleExit_answersExit status) answered) ?_
    exact fun _ m' e answered => heard_only answered.2 held.aimed answered.1
  resolves _ _ _ held := (verdict_phases orderly).wp_resolveWatch held

/-- At the boot a service is started or skipped. -/
theorem wp_startEach {configured spawned : List String} (defs : List ServiceDef) (start : Accounted names m e) :
    (startEach configured spawned defs).wp (around M) asked
      (fun _ => Accounted (names ++ defs.map ServiceDef.name)) m e := by
  induction defs generalizing names spawned m e with
  | nil =>
    rw [List.map_nil,List.append_nil]
    exact start
  | cons d rest ih =>
    refine wp_then (R := fun _ => Accounted (d.name::names)) ?_ fun spawned m e after => ?_
    · have beside := beside_of_accounted d.name start
      unfold startOne
      dsimp only
      split
      · exact wp_bind_perform accounted_steady beside (fun _ _ _ => asked_of (by simp)) fun e _ e' held replied =>
          accounted_told (heard replied) held
      · refine wp_bind_steady accounted_steady (uses_each fun dep _ => waitForReady_plain dep _) beside
          fun _ m e held => ?_
        refine wp_then (wp_start orderly held) fun _ m e after => ?_
        exact wp_bind_read (asked_of (by simp)) after
    · refine wp_mono (ih after) fun _ m e all name member => all name ?_
      simpa [or_left_comm] using member

theorem wp_spawnAll (defs : List ServiceDef) :
    (spawnAll defs).wp (around M) asked (fun _ => Accounted (defs.map ServiceDef.name)) m e := by
  have nothing : Accounted [] m e := fun _ member => absurd member List.not_mem_nil
  refine wp_bind_topologicalOrder accounted_steady nothing fun m e nothing => ?_
  refine wp_mono (wp_startEach orderly _ nothing) fun _ m e all name member => all name ?_
  rw [List.nil_append]
  exact (startingOrder_names defs).mem_iff.mpr member

theorem boot_phases : BootPhases (around M) asked (fun _ _ => True) (fun _ _ _ => True) (fun _ _ _ => True)
    (fun _ _ _ => True) (fun cfg m _ => m.cfg = cfg ∧ m.currentTarget = cfg.defaultTarget)
    fun m e => Accounted (wanted m) m e where
  unread _ _ := asked_of (by simp)
  started_calm := memory_calm fun _ => True
  loads _ _ _ := loadConfig_stays
  levels _ _ _ _ := wp_stays (P := fun _ => True) (by simp) trivial
  levelled_calm _ := memory_calm fun _ => True
  blocks _ _ _ _ := wp_stays (P := fun _ => True) (by simp) trivial
  listens _ _ _ _ := wp_stays (P := fun _ => True) (by simp) trivial
  publishes _ _ _ _ := wp_stays (P := fun _ => True) (by simp) trivial
  times _ _ _ _ := wp_hears (by simp) fun _ _ _ _ _ => ⟨rfl,rfl⟩
  spawns cfg m _ ready := by
    refine wp_mono (wp_onlyServices (spawnAll_supervises _) (wp_spawnAll orderly _)) ?_
    rintro _ m' e ⟨accounted,only⟩
    obtain ⟨configured,targeted,-,-⟩ := onlyServices_iff only
    rw [wanted,configured,targeted,ready.1,ready.2]
    exact accounted
  unblocks _ _ booted := wp_grows wanted (by simp) (by simp) booted
  booted_calm := accounted_calm wanted

theorem wp_main : main.wp (around M) asked (fun _ _ _ => True) m e := by
  refine (boot_phases orderly).wp_main (fun grace m e booted => ?_) trivial
  exact (loop_heard orderly).phases.wp_runEventLoop grace ⟨booted,by simp⟩

end Turns

/-- Among any orderly surroundings, whatever comes and whatever fails: whenever the loop turns, every service
of the current target in the configuration in force is tracked, or was last heard to have ended, to have
failed to start or to have been skipped. -/
theorem none_missing (M : Machine Memory Op Op.Ans Env Event) (orderly : Orderly M.surroundings) (m : Memory) (k : Env)
    {t : State Memory Op Op.Ans (Env × List String) Unit}
    (run : Reaches (M.watched absences).surroundings ⟨main,m,(k,[])⟩ t)
    (turns : t.program.next? = some (.swap .rebootRequested)) : Accounted (wanted t.mem) t.mem t.env :=
  wp_everywhere run (wp_main orderly) (fun _ m e _ => asked_of (by simp)) turns

end Rules

section Runs

def keepsOrder : Condition Memory Op Op.Ans Kernel Event where
  event _ _ _ _ := true
  reply
    | .spawn _ _, m, _, .ok pid => (m.services.lookup pid).isNone
    | .takePendingIsolate, m, _, some _ => m.watch.isNone
    | _, _, _, _ => true

theorem keepsOrder_orderly : Orderly (Kernel.machine.under keepsOrder).surroundings where
  visits listed m e visited e' replied := Kernel.answer_iterate (m := m) (Machine.under_answer_iff.mp replied).2
  fresh origin command pid m e e' replied := by
    have allowed := (Machine.under_answer_iff.mp replied).1
    simpa [keepsOrder] using allowed
  isolates m e name e' replied := by
    have allowed := (Machine.under_answer_iff.mp replied).1
    simpa [keepsOrder] using allowed

def network : ServiceDef := { name := "network", path := "/usr/bin/network", target := "multi-user" }

def web : ServiceDef := { name := "web", path := "/usr/bin/web", requires := ["network"], target := "multi-user" }

def job : ServiceDef := { name := "job", path := "/usr/bin/job", target := "multi-user" }

def getty : ServiceDef := { name := "getty", path := "/usr/bin/getty", restart := .always, target := "multi-user" }

def turning : Cue Op Event := .upTo (· == .swap .rebootRequested) 400

def unluckyRun : Option (State Memory Op Op.Ans (Kernel × List String) Unit) :=
  drive ((Kernel.machine.under keepsOrder).watched absences)
    (fun op m e => Kernel.obliging (fun origin => origin != .service "network" false)
      { Config.default with services := [web,network,job,getty] } op m e.1)
    [turning,.stir (.exit 100 (some (.exited 0))),.step,turning,.stir (.exit 101 (some (.exited 1))),.step,turning]
    ⟨main,{},({},[])⟩

theorem none_missing_unlucky : ∃ t, unluckyRun = some t ∧ t.mem.services.keys.length = 1 ∧
    t.env.2 = ["job","web","network"] ∧ Accounted (wanted t.mem) t.mem t.env := by
  have there : unluckyRun.any (fun t => decide (t.program.next? = some (.swap .rebootRequested) ∧
      t.mem.services.keys.length = 1 ∧ t.env.2 = ["job","web","network"])) = true := by decide +kernel
  obtain ⟨t,reached,now⟩ := (Option.any_eq_true _ _).mp there
  obtain ⟨turns,one,down⟩ := of_decide_eq_true now
  exact ⟨t,reached,one,down,none_missing _ keepsOrder_orderly {} {} (drive_reaches reached) turns⟩

end Runs
end MitosServices.Absence
