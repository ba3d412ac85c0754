import MitosServices.Membership

/-! Whatever is done to the others, a service that stays configured as it is and does not end is left alone. -/
namespace MitosServices.Bystanders
open Interaction Interaction.Program

/-- These services have the definition, and no other under its name in its target. -/
def Keeps (d : ServiceDef) (services : List ServiceDef) : Prop :=
  d ∈ services ∧ ∀ other ∈ services, other.target = d.target → other.name = d.name → other = d

instance (d : ServiceDef) (services : List ServiceDef) : Decidable (Keeps d services) :=
  inferInstanceAs (Decidable (_ ∧ _))

/-- The service is tracked as it was, and no other under its name. -/
structure Alone (pid : Int) (sup : Supervised) (services : Services) : Prop where
  tracked : services.lookup pid = some sup
  only : ∀ p s, services.lookup p = some s → s.definition.name = sup.definition.name → p = pid

/-- The configurations in force and to go back to keep the definition, and its target is the current one. -/
structure Wanted (d : ServiceDef) (configured : List ServiceDef) (target : String) (watch : Option Watch) : Prop where
  configured : Keeps d configured
  current : target = d.target
  restored : ∀ w, watch = some w → Keeps d w.previous.services ∧ w.target = d.target

structure Spared (pid : Int) (sup : Supervised) (m : Memory) : Prop where
  alone : Alone pid sup m.services
  wanted : Wanted sup.definition m.cfg.services m.currentTarget m.watch

/-- Hash maps are visited entry by entry, a child has a pid that is not in the table, every configuration that
is read keeps the definition, and no isolate goes to another target there is. -/
structure Loyal {Env : Type} (S : Surroundings Memory Op Op.Ans Env) (d : ServiceDef) : Prop where
  visits : Visits S
  fresh : ∀ origin command pid m e e', S.replies (.spawn origin command) m e (.ok pid) e' →
    m.services.lookup pid = none
  reads : ∀ m e cfg e', S.replies .loadOrDefault m e cfg e' → ∀ m₁ e₁ units e₁',
    S.replies .loadUnits m₁ e₁ units e₁' → Keeps d (Config.mergeServices cfg.services units)
  isolates : ∀ m e name e', S.replies .takePendingIsolate m e (some name) e' →
    name = d.target ∨ (Targets.list m.cfg.services).any (fun t => t == name) = false

def endings {Env Event : Type} (name : String) : Monitor Memory Op Op.Ans Env Event Bool where
  event _ _ _ _ ended := ended
  reply
    | .log (.serviceEnded other _), _, _, _, ended => ended || other == name
    | _, _, _, _, ended => ended

section Rules
variable {Env Event : Type} {M : Machine Memory Op Op.Ans Env Event} {pid : Int} {sup : Supervised} {m : Memory}
  {e e' : Env × Bool}

abbrev around (M : Machine Memory Op Op.Ans Env Event) (sup : Supervised) :
    Surroundings Memory Op Op.Ans (Env × Bool) := (M.watched (endings sup.definition.name)).surroundings

def Left (pid : Int) (sup : Supervised) (m : Memory) (e : Env × Bool) : Prop := e.2 = true ∨ Spared pid sup m

def asked (pid : Int) (sup : Supervised) (op : Option Op) (m : Memory) (e : Env × Bool) : Prop :=
  op = some (.swap .rebootRequested) → Left pid sup m e

theorem asked_of {op : Option Op} (other : op ≠ some (.swap .rebootRequested)) : asked pid sup op m e :=
  fun turns => absurd turns other

theorem moves_ended {op : Op} (moved : (around M sup).moves op m e e') : e'.2 = e.2 := by
  obtain ⟨ev,stirred⟩ := moved
  exact (Machine.watched_stir_iff.mp stirred).2

theorem ended_stays {op : Op} {r : op.Ans} (replied : (around M sup).replies op m e r e') (ended : e.2 = true) :
    e'.2 = true := by
  rw [(Machine.watched_answer_iff.mp replied).2]
  cases op with
  | log line =>
    cases line with
    | serviceEnded other ending => simp [endings,ended]
    | _ => exact ended
  | _ => exact ended

theorem left_moves {op : Op} (moved : (around M sup).moves op m e e') (held : Left pid sup m e) : Left pid sup m e' := by
  rwa [Left,moves_ended moved]

theorem left_replies {op : Op} {r : op.Ans} (replied : (around M sup).replies op m e r e')
    (held : Left pid sup m e) : Left pid sup m e' := held.imp_left (ended_stays replied)

/-- Nothing brings back what has ended. -/
theorem ended_frame (pid : Int) (sup : Supervised) : (around M sup).Frame (asked pid sup) (fun _ _ => True)
    (fun _ => True) fun _ e => e.2 = true where
  updates _ _ _ _ ended := ended
  moves _ _ _ _ _ moved ended := (moves_ended moved).trans ended
  replies _ _ _ _ _ _ replied ended := ended_stays replied ended
  holds _ _ _ _ ended _ := .inl ended

theorem wp_ended {α : Type} (p : Code α) (ended : e.2 = true) :
    p.wp (around M sup) (asked pid sup) (fun _ => Left pid sup) m e :=
  wp_mono (wp_frame (ended_frame pid sup) (uses_any p) ended) fun _ _ _ => .inl

theorem left_steady : Steady (around M sup) (asked pid sup) (Left pid sup) where
  moves _ _ _ _ moved held := left_moves moved held
  replies _ _ _ _ _ _ replied held := left_replies replied held
  holds op _ _ mild _ := by
    refine asked_of ?_
    rintro rfl
    exact absurd (mild _ rfl) (by decide)

theorem wp_bind_asks {β : Type} {op : Op} {f : op.Ans → Code β} {Q : β → Memory → Env × Bool → Prop}
    (turnless : op ≠ .swap .rebootRequested) (held : Left pid sup m e)
    (rest : ∀ r e, Left pid sup m e → (f r).wp (around M sup) (asked pid sup) Q m e) :
    (call op >>= f).wp (around M sup) (asked pid sup) Q m e := by
  refine wp_bind_perform (steady_memory_and left_steady m) ⟨held,rfl⟩ (fun _ _ _ => asked_of (by simpa using turnless)) ?_
  rintro e r e' ⟨held,-⟩ replied
  exact rest r e' (left_replies replied held)

theorem alone_insert {services : Services} {p : Int} {s : Supervised} (fresh : services.lookup p = none)
    (other : s.definition.name ≠ sup.definition.name) (alone : Alone pid sup services) :
    Alone pid sup (services.insert p s) where
  tracked := by
    refine lookup_insert_iff.mpr (.inr ⟨?_,alone.tracked⟩)
    rintro rfl
    exact absurd alone.tracked (by simp [fresh])
  only q r found named := by
    rcases lookup_insert_iff.mp found with ⟨-,rfl⟩ | ⟨-,before⟩
    · exact absurd named other
    · exact alone.only q r before named

theorem alone_erase {services : Services} {p : Int} (other : p ≠ pid) (alone : Alone pid sup services) :
    Alone pid sup (services.erase p) where
  tracked := lookup_erase_iff.mpr ⟨other.symm,alone.tracked⟩
  only q r found := alone.only q r (lookup_erase_iff.mp found).2

theorem left_track {p : Int} {s : Supervised} (fresh : m.services.lookup p = none)
    (other : s.definition.name ≠ sup.definition.name) (held : Left pid sup m e) :
    Left pid sup (withService m p s) e :=
  held.imp_right fun spared => ⟨alone_insert fresh other spared.alone,spared.wanted⟩

theorem left_strike {p : Int} (other : Spared pid sup m → p ≠ pid) (held : Left pid sup m e) :
    Left pid sup (withoutService m p) e :=
  held.imp_right fun spared => ⟨alone_erase (other spared) spared.alone,spared.wanted⟩

theorem wp_stop {p : Int} {name : String} (held : Left pid sup m e) :
    (stopOne p name).wp (around M sup) (asked pid sup) (fun _ => Left pid sup) m e := by
  refine wp_stopOne (.uniform left_steady ?_ ?_) held
  · exact fun sig m e _ => asked_of (by simp)
  · exact fun status m e e' held replied => left_replies replied held

section Starts
variable (loyal : Loyal M.surroundings sup.definition) (unlike : sup.definition.name ≠ fallbackShell.name)
include loyal unlike

/-- Another service is started, and if it cannot be, perhaps a shell. -/
theorem start_phases {d : ServiceDef} {times : List Nat} (other : d.name ≠ sup.definition.name) :
    StartPhases (around M sup) (asked pid sup) d times (Left pid sup)
      (fun p m e => Left pid sup m e ∧ m.services.lookup p = none) (Left pid sup)
      (fun p m e => Left pid sup m e ∧ m.services.lookup p = none) (Left pid sup) := by
  have apart : ∀ p, Steady (around M sup) (asked pid sup) fun m e => Left pid sup m e ∧ m.services.lookup p = none :=
    fun p => {
      moves := fun op m e e' moved held => ⟨left_moves moved held.1,held.2⟩
      replies := fun op m e r e' _ replied held => ⟨left_replies replied held.1,held.2⟩
      holds := fun op m e mild held => (left_steady (M := M)).holds op m e mild held.1 }
  have fresh : ∀ origin command p m e e', (around M sup).replies (.spawn origin command) m e (.ok p) e' →
      m.services.lookup p = none :=
    fun origin command p m e e' replied =>
      loyal.fresh origin command p m e.1 e'.1 (Machine.watched_answer_iff.mp replied).1
  exact {
    before_steady := left_steady
    spawned_steady := apart
    failed_steady := left_steady
    rescue_steady := apart
    child := fun command p m e e' held replied => ⟨left_replies replied held,fresh _ _ p m e e' replied⟩
    refused := fun command err m e e' held replied => left_replies replied held
    shell := fun command p m e e' held _ replied => ⟨left_replies replied held,fresh _ _ p m e e' replied⟩
    noShell := fun command err m e e' held _ replied => left_replies replied held
    tracked := fun p t m e held => left_track held.2 other held.1
    trackedShell := fun p t m e held => left_track held.2 unlike.symm held.1
    missed := fun m e held _ => held }

theorem wp_start {d : ServiceDef} {times : List Nat} (other : d.name ≠ sup.definition.name)
    (held : Left pid sup m e) :
    (spawnWithHistory d times).wp (around M sup) (asked pid sup) (fun _ => Left pid sup) m e :=
  wp_spawnWithHistory (start_phases loyal unlike other) held

omit unlike in
theorem wp_bind_visit {β : Type} {services : Services} {f : List (Int × Supervised) → Code β}
    {Q : β → Memory → Env × Bool → Prop} (held : Left pid sup m e)
    (rest : ∀ visited e, visited.Perm services.toList → Left pid sup m e →
      (f visited).wp (around M sup) (asked pid sup) Q m e) :
    (entries services >>= f).wp (around M sup) (asked pid sup) Q m e := by
  have visits : Visits (around M sup) := fun listed m e visited e' replied =>
    loyal.visits listed m e.1 visited e'.1 (Machine.watched_answer_iff.mp replied).1
  refine wp_bind_entries (steady_memory_and left_steady m) visits ⟨held,rfl⟩ ?_
  exact fun visited e visit held => rest visited e visit held.1

/-- A definition that is the service's own finds it as it is; any other is nothing to it. -/
theorem wp_reconcileOne {d : ServiceDef} (same : d.name = sup.definition.name → d = sup.definition)
    (held : Left pid sup m e) :
    (reconcileOne d).wp (around M sup) (asked pid sup) (fun _ => Left pid sup) m e := by
  refine wp_bind_read (asked_of (by simp)) ?_
  refine wp_bind_visit loyal held fun visited e visit held => ?_
  rcases held with ended | spared
  · exact wp_ended _ ended
  by_cases named : d.name = sup.definition.name
  · obtain rfl : sup.definition = d := (same named).symm
    split
    · rename_i p s found
      obtain ⟨there,equal⟩ := Services.find_visited visit found
      obtain rfl := spared.alone.only p s there equal
      rw [spared.alone.tracked] at there
      cases there
      rw [if_pos ((defsEqual_iff rfl).mpr rfl)]
      exact .inr spared
    · rename_i absent
      have untracked := Services.find_visited_none visit absent
      exact absurd rfl (Services.tracks_eq_false.mp untracked pid sup spared.alone.tracked)
  · split
    · rename_i p s found
      obtain ⟨there,equal⟩ := Services.find_visited visit found
      split
      · exact .inr spared
      · refine wp_then (R := fun _ => Left pid sup) ?_ fun _ _ _ held => held
        refine wp_bind_steady (steady_memory_and left_steady m) (plain_call rfl) ⟨.inr spared,rfl⟩ ?_
        rintro _ _ e ⟨logged,rfl⟩
        refine wp_bind_removeService (asked_of (by simp)) ?_
        have other : p ≠ pid := by
          rintro rfl
          rw [spared.alone.tracked] at there
          cases there
          exact named equal.symm
        have struck := left_strike (fun _ => other) logged
        exact wp_then (wp_stop struck) fun _ m e held => wp_start loyal unlike named held
    · refine wp_bind_steady left_steady (plain_call rfl) (.inr spared) fun _ m e held => ?_
      exact wp_then (wp_start loyal unlike named held) fun _ _ _ held => held

theorem wp_reconcile {touched : List String} {defs : List ServiceDef}
    (same : ∀ d ∈ defs, d.name = sup.definition.name → d = sup.definition) (held : Left pid sup m e) :
    (reconcile touched defs).wp (around M sup) (asked pid sup) (fun _ => Left pid sup) m e := by
  induction defs generalizing touched m e with
  | nil => exact held
  | cons d rest ih =>
    refine wp_then (wp_reconcileOne loyal unlike (same d (.head _)) held) fun changed m e held => ?_
    exact ih (fun d member => same d (.tail _ member)) held

omit loyal unlike in
/-- Only what has no definition any more is stopped, and this one has one. -/
theorem wp_stopRemoved {p : Int} (other : p ≠ pid) (held : Left pid sup m e) :
    (stopRemoved p).wp (around M sup) (asked pid sup) (fun _ => Left pid sup) m e := by
  refine wp_bind_removeService (asked_of (by simp)) ?_
  have struck : Left pid sup (withoutService m p) e := left_strike (fun _ => other) held
  cases m.services.lookup p with
  | none => exact struck
  | some s =>
    refine wp_bind_steady left_steady (plain_call rfl) struck fun _ m e held => ?_
    exact wp_then (wp_stop held) fun _ m e held => wp_steady left_steady (plain_call rfl) held

theorem wp_reloadServices {all : List ServiceDef} (keeps : Keeps sup.definition all) (held : Left pid sup m e) :
    (reloadServices (Targets.servicesIn all sup.definition.target)).wp (around M sup) (asked pid sup)
      (fun _ => Left pid sup) m e := by
  obtain ⟨there,only⟩ := keeps
  have listed : sup.definition ∈ Targets.servicesIn all sup.definition.target :=
    List.mem_filter.mpr ⟨there,beq_self_eq_true _⟩
  have same : ∀ d ∈ Targets.servicesIn all sup.definition.target,
      d.name = sup.definition.name → d = sup.definition := by
    intro d member named
    obtain ⟨inside,targeted⟩ := List.mem_filter.mp member
    exact only d inside (beq_iff_eq.mp targeted) named
  refine wp_bind_read (asked_of (by simp)) ?_
  refine wp_bind_visit loyal held fun visited e visit held => ?_
  rcases held with ended | spared
  · exact wp_ended _ ended
  refine wp_then (wp_each (fun pids m e => Left pid sup m e ∧ pid ∉ pids) ⟨.inr spared,?_⟩ ?_) ?_
  · intro member
    obtain ⟨⟨p,s⟩,gone,rfl⟩ := List.mem_map.mp member
    obtain ⟨visited,unnamed⟩ := List.mem_filter.mp gone
    have found := Services.mem_toList.mp (visit.mem_iff.mp visited)
    obtain rfl : sup = s := Option.some.inj (spared.alone.tracked.symm.trans found)
    have named : (Targets.servicesIn all sup.definition.target).any
        (fun d => d.name == sup.definition.name) = true :=
      List.any_eq_true.mpr ⟨_,listed,beq_self_eq_true _⟩
    simp [named] at unnamed
  · rintro p rest m e ⟨held,apart⟩
    have other : p ≠ pid := fun same => apart (same ▸ .head _)
    exact wp_mono (wp_stopRemoved other held) fun _ m e held => ⟨held,fun member => apart (.tail _ member)⟩
  · exact fun _ m e held => wp_reconcile loyal unlike same held.1

/-- An exit is its own, and then it is reported, or it takes another service along. -/
theorem wp_handleExit (status : WaitStatus) (held : Left pid sup m e) :
    (handleExit status).wp (around M sup) (asked pid sup) (fun _ => Left pid sup) m e := by
  cases status with
  | stillAlive => exact held
  | other => exact held
  | ended p ending =>
    refine wp_bind_removeService (asked_of (by simp)) ?_
    cases found : m.services.lookup p with
    | none =>
      rw [withoutService_untracked found]
      exact held
    | some s =>
      by_cases own : s.definition.name = sup.definition.name
      · refine (wp_bind _ _ _ _ _).mpr (wp_perform (P := fun _ => True) trivial (fun _ _ _ _ => trivial)
          (fun _ _ => asked_of (by simp)) ?_)
        intro e _ e' _ replied
        refine wp_ended _ ?_
        rw [(Machine.watched_answer_iff.mp replied).2]
        simp [endings,own]
      have other : Spared pid sup m → p ≠ pid := by
        rintro spared rfl
        rw [spared.alone.tracked] at found
        cases found
        exact own rfl
      refine wp_bind_asks (by simp) (left_strike other held) fun _ e held => ?_
      refine wp_bind_steady left_steady (plain_call rfl) held fun _ m e held => ?_
      refine wp_bind_steady left_steady (plain_call rfl) held fun _ m e held => ?_
      split
      · exact held
      split
      · refine wp_bind_steady left_steady (plain_call rfl) held fun t m e held => ?_
        dsimp only
        split
        · exact wp_bind_asks (by simp) held fun _ _ held => held
        · exact wp_then (wp_start loyal unlike own held) fun _ _ _ held => held
      · exact held

end Starts

section Turns

def Unless (P : Memory → Prop) (m : Memory) (e : Env × Bool) : Prop := e.2 = true ∨ P m

theorem unless_calm (P : Memory → Prop) : Calmly (around M sup) (asked pid sup) (Unless P) where
  updates _ _ _ same held := same ▸ held
  moves _ _ _ _ _ moved held := held.imp_left fun ended => (moves_ended moved).trans ended
  replies _ _ _ _ _ _ replied held := held.imp_left (ended_stays replied)
  holds op _ _ calm _ := by
    refine asked_of ?_
    rintro rfl
    exact absurd (calm _ rfl).plain.1 (by decide)

/-- A call at which nothing is asked. -/
theorem wp_asks {op : Op} {P : Memory → Prop} {Q : op.Ans → Memory → Env × Bool → Prop}
    (turnless : op ≠ .swap .rebootRequested) (held : Unless P m e)
    (rest : ∀ e r e', Unless P m e' → (around M sup).replies op m e r e' → Q r m e') :
    (call op).wp (around M sup) (asked pid sup) Q m e := by
  refine wp_perform held ?_ (fun _ _ => asked_of (by simpa using turnless)) ?_
  · exact fun e₁ e₂ moved held => held.imp_left fun ended => (moves_ended moved).trans ended
  · exact fun e₁ r e₂ held replied => rest e₁ r e₂ (held.imp_left (ended_stays replied)) replied

theorem wp_passes {op : Op} {P : Memory → Prop} (turnless : op ≠ .swap .rebootRequested) (held : Unless P m e) :
    (call op).wp (around M sup) (asked pid sup) (fun _ => Unless P) m e :=
  wp_asks turnless held fun _ _ _ held _ => held

def Faithful (pid : Int) (sup : Supervised) (cfg : Config) (m : Memory) : Prop :=
  Spared pid sup m ∧ Keeps sup.definition cfg.services

def Aiming (pid : Int) (sup : Supervised) (all : List ServiceDef) (target : String) (m : Memory) : Prop :=
  Spared pid sup m ∧ Keeps sup.definition all ∧ target = sup.definition.target

def Returning (pid : Int) (sup : Supervised) (w : Watch) (m : Memory) : Prop :=
  Faithful pid sup w.previous m ∧ w.target = sup.definition.target

/-- What is written beside the table is for the service whatever it is, if it has ended. -/
theorem left_rewrite {m' : Memory} (held : Left pid sup m e) (services : m'.services = m.services)
    (wanted : Wanted sup.definition m.cfg.services m.currentTarget m.watch →
      Wanted sup.definition m'.cfg.services m'.currentTarget m'.watch) : Left pid sup m' e := by
  refine held.imp_right fun spared => ⟨?_,wanted spared.wanted⟩
  rw [services]
  exact spared.alone

variable (loyal : Loyal M.surroundings sup.definition) (unlike : sup.definition.name ≠ fallbackShell.name)

include loyal in
/-- Whatever is read keeps the definition. -/
theorem wp_loadConfig (held : Left pid sup m e) : loadConfig.wp (around M sup) (asked pid sup)
    (fun cfg => Unless (Faithful pid sup cfg)) m e := by
  refine (wp_bind _ _ _ _ _).mpr (wp_asks (P := Spared pid sup) (by simp) held fun e₁ cfg e₁' held loaded => ?_)
  refine (wp_bind _ _ _ _ _).mpr (wp_asks (by simp) held fun e₂ units e₂' held united => ?_)
  have keeps := loyal.reads m e₁.1 cfg e₁'.1 (Machine.watched_answer_iff.mp loaded).1 m e₂.1 units e₂'.1
    (Machine.watched_answer_iff.mp united).1
  exact held.imp_right fun spared => ⟨spared,keeps⟩

include loyal unlike

theorem wp_reconciled {all : List ServiceDef} {target : String} (held : Unless (Aiming pid sup all target) m e) :
    (reloadServices (Targets.servicesIn all target)).wp (around M sup) (asked pid sup)
      (fun _ => Unless (Aiming pid sup all target)) m e := by
  rcases held with ended | ⟨spared,keeps,rfl⟩
  · exact wp_mono (wp_frame (P := fun _ e => e.2 = true) (ended_frame pid sup) (uses_any _) ended) fun _ _ _ => .inl
  · refine wp_mono (wp_reloadServices loyal unlike keeps (.inr spared)) fun _ m e held => ?_
    exact held.imp_right fun spared => ⟨spared,keeps,rfl⟩

theorem reload_phases : ReloadPhases (around M sup) (asked pid sup) (Left pid sup) (Left pid sup)
    (fun cfg => Unless (Faithful pid sup cfg)) (fun cfg => Unless (Faithful pid sup cfg))
    (fun cfg => Unless (Faithful pid sup cfg)) (fun cfg _ => Unless (Faithful pid sup cfg)) (fun _ => Left pid sup)
    (Left pid sup) where
  unread _ _ := asked_of (by simp)
  takes _ _ held := wp_passes (P := Spared pid sup) (by simp) held
  skips _ _ held := held
  logs _ _ held := wp_passes (P := Spared pid sup) (by simp) held
  loads _ _ held := wp_loadConfig loyal held
  levels _ _ _ held := wp_passes (by simp) held
  levelled_calm cfg := unless_calm (Faithful pid sup cfg)
  times cfg _ _ held := wp_asks (by simp) held fun _ _ _ held _ =>
    held.imp_right fun faithful => ⟨⟨faithful.1.alone,faithful.1.wanted⟩,faithful.2⟩
  reconciles cfg m _ held := by
    have ready : Unless (Aiming pid sup cfg.services m.currentTarget) m _ :=
      held.imp_right fun faithful => ⟨faithful.1,faithful.2,faithful.1.wanted.current⟩
    exact wp_mono (wp_reconciled loyal unlike ready) fun _ _ _ held => held.imp_right fun kept => ⟨kept.1,kept.2.1⟩
  reconciled_calm cfg _ := unless_calm (Faithful pid sup cfg)
  dates cfg _ _ _ held := by
    refine wp_asks (by simp) held fun _ t _ held _ => held.imp_right fun faithful => ?_
    obtain ⟨⟨alone,configured,current,-⟩,keeps⟩ := faithful
    refine ⟨alone,keeps,current,?_⟩
    rintro _ ⟨⟩
    exact ⟨configured,current⟩
  publishes _ _ _ held := wp_passes (P := Spared pid sup) (by simp) held

/-- An isolate to its own target finds it in place, and there is no other that is known. -/
theorem isolate_phases : IsolatePhases (around M sup) (asked pid sup) (Left pid sup)
    (fun name => Unless fun m => Spared pid sup m ∧
      (name = sup.definition.target ∨ (Targets.list m.cfg.services).any (fun t => t == name) = false))
    (fun name => Unless fun m => Spared pid sup m ∧ name = sup.definition.target) (Left pid sup) where
  unread _ _ := asked_of (by simp)
  takes m _ held := by
    refine wp_asks (P := Spared pid sup) (by simp) held fun e pending e' held replied => ?_
    cases pending with
    | none => exact held
    | some name =>
      have aimed := loyal.isolates m e.1 name e'.1 (Machine.watched_answer_iff.mp replied).1
      exact held.imp_right fun spared => ⟨spared,aimed⟩
  refuses _ _ _ held := wp_asks (by simp) held fun _ _ _ held _ => held.imp_right And.left
  named_calm name := unless_calm _
  reconciles name m _ held known := by
    have ready : Unless (Aiming pid sup m.cfg.services name) m _ := held.imp_right fun both =>
      ⟨both.1,both.1.wanted.configured,both.2.resolve_right (by simp [known])⟩
    exact wp_mono (wp_reconciled loyal unlike ready) fun _ _ _ held => held.imp_right fun kept => ⟨kept.1,kept.2.2⟩
  publishes name m _ held := by
    have moved : Left pid sup { m with currentTarget := name } _ := held.imp_right fun both =>
      ⟨both.1.alone,both.1.wanted.configured,both.2,both.1.wanted.restored⟩
    exact wp_passes (by simp) moved

/-- A rollback goes back to a configuration that has it. -/
theorem verdict_phases : VerdictPhases (around M sup) (asked pid sup) (fun _ => Left pid sup)
    (fun w => Unless (Returning pid sup w)) (fun w => Unless (Faithful pid sup w.previous))
    (fun w => Unless (Faithful pid sup w.previous)) (Left pid sup) where
  unread _ _ := asked_of (by simp)
  unwatched _ _ _ held _ := held
  rolls name w m _ held watching _ := by
    refine wp_passes (by simp) (held.imp_right fun spared => ?_)
    obtain ⟨keeps,aimed⟩ := spared.wanted.restored w watching
    exact ⟨⟨⟨spared.alone,spared.wanted.configured,spared.wanted.current,by simp⟩,keeps⟩,aimed⟩
  reconciles w m _ held := by
    have ready : Unless (Aiming pid sup w.previous.services w.target) m _ :=
      held.imp_right fun returning => ⟨returning.1.1,returning.1.2,returning.2⟩
    exact wp_mono (wp_reconciled loyal unlike ready) fun _ _ _ held => held.imp_right fun kept => ⟨kept.1,kept.2.1⟩
  levels _ _ _ held := wp_passes (by simp) held
  restored_calm w := unless_calm (Faithful pid sup w.previous)
  ends _ _ _ held := wp_asks (by simp) held fun _ _ _ held _ =>
    held.imp_right fun faithful => ⟨faithful.1.alone,faithful.2,faithful.1.wanted.current,by simp⟩
  looks _ w m _ held watching _ := by
    have taken : Unless (Returning pid sup w) { m with watch := none } _ := held.imp_right fun spared =>
      ⟨⟨⟨spared.alone,spared.wanted.configured,spared.wanted.current,by simp⟩,
        (spared.wanted.restored w watching).1⟩,(spared.wanted.restored w watching).2⟩
    refine wp_asks (by simp) taken fun _ t _ held _ => ?_
    split
    · refine held.imp_right fun ⟨⟨spared,keeps⟩,aimed⟩ =>
        ⟨spared.alone,spared.wanted.configured,spared.wanted.current,?_⟩
      rintro _ ⟨⟩
      exact ⟨keeps,aimed⟩
    · exact wp_asks (by simp) held fun _ _ _ held _ => held.imp_right fun returning => returning.1.1

theorem loop_left : LoopInvariant (around M sup) (asked pid sup) (Left pid sup) (Left pid sup) where
  unasked _ _ _ other := asked_of other
  head _ _ held _ := held
  pending _ _ _ moved held := left_moves moved held
  turned _ _ _ _ replied held := left_replies replied held
  moves _ _ _ _ moved held := left_moves moved held
  replies _ _ _ _ _ _ _ _ replied held := left_replies replied held
  timers m m' _ written held := by
    unfold OnlyTimers at written
    rw [written]
    exact left_rewrite (m := m) held rfl id
  settles _ _ held := held
  reloads _ _ held := (reload_phases loyal unlike).wp_handleReload held
  isolates _ _ held := (isolate_phases loyal unlike).wp_handleIsolate held
  exits status _ _ held := wp_handleExit loyal unlike status held
  resolves _ _ _ held := (verdict_phases loyal unlike).wp_resolveWatch held

end Turns
end Rules

section Runs

def loyalty (d : ServiceDef) : Condition Memory Op Op.Ans Kernel Event where
  event _ _ _ _ := true
  reply
    | .spawn _ _, m, _, .ok pid => (m.services.lookup pid).isNone
    | .loadOrDefault, _, _, cfg => decide (Keeps d cfg.services)
    | .loadUnits, _, _, units => units.isEmpty
    | .takePendingIsolate, m, _, some name => name == d.target || !(Targets.list m.cfg.services).any fun t => t == name
    | _, _, _, _ => true

theorem loyalty_loyal (d : ServiceDef) : Loyal (Kernel.machine.under (loyalty d)).surroundings d where
  visits listed m e visited e' replied := Kernel.answer_iterate (m := m) (Machine.under_answer_iff.mp replied).2
  fresh origin command pid m e e' replied := by
    have allowed := (Machine.under_answer_iff.mp replied).1
    simpa [loyalty] using allowed
  reads m e cfg e' loaded m₁ e₁ units e₁' united := by
    have keeps := (Machine.under_answer_iff.mp loaded).1
    have empty := (Machine.under_answer_iff.mp united).1
    obtain rfl : units = [] := List.isEmpty_iff.mp empty
    exact of_decide_eq_true keeps
  isolates m e name e' replied := by
    have allowed := (Machine.under_answer_iff.mp replied).1
    simpa [loyalty] using allowed

def web : Supervised :=
  { definition := { name := "web", path := "/usr/bin/web", target := "multi-user" }, startedAt := 3, restartTimes := [1] }

def job : ServiceDef := { name := "job", path := "/usr/bin/job", target := "multi-user" }

def getty : ServiceDef := { name := "getty", path := "/usr/bin/getty", critical := true, target := "multi-user" }

def before : Memory where
  services := ((∅ : Services).insert 101 ⟨job,[],4⟩).insert 100 web
  cfg := { Config.default with services := [web.definition,job] }
  currentTarget := "multi-user"

def running : Kernel :=
  let blocked : Mask := fun _ => false
  (Kernel.addChild { ipc := .idle } 100 (.service "web" false) blocked).addChild 101 (.service "job" false) blocked

def turning : Cue Op Event := .upTo (· == .swap .rebootRequested) 400

/-- The job goes and a console comes that soon ends: the reload is rolled back, and the job comes back. -/
def eventfulRun : Option (State Memory Op Op.Ans (Kernel × Bool) Unit) :=
  drive ((Kernel.machine.under (loyalty web.definition)).watched (endings "web"))
    (fun op m e => Kernel.obliging (fun _ => true) { Config.default with services := [getty,web.definition] } op m e.1)
    [turning,.stir .requestReload,.upTo (· == .waitpid (.only 101) true) 400,.stir (.exit 101 (some (.exited 0))),.step,
      turning,.stir (.exit 101 (some (.exited 1))),.step,turning]
    ⟨runEventLoop 0,before,(running,false)⟩

end Runs
end MitosServices.Bystanders
