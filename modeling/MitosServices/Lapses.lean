import MitosServices.LoopRule

/-! Rollbacks and the deadline of the watch. A watch is held until it is next looked at, however
late that is, and a failure that is reported before counts against it. -/
namespace MitosServices.Lapses
open Interaction Interaction.Program

/-- An exit that has been reaped: whose it was and when, the watch then held, the one held last, and the clock as
the loop had last read it to look at a watch. -/
structure Reaped where
  name : String
  critical : Bool
  time : Nat
  watch : Option Watch
  last : Option Watch
  looked : Nat

/-- The exit came before the deadline of a watch on the service, or the loop had already seen that deadline pass
when it reaped the exit. -/
def Reaped.noticed (r : Reaped) : Bool :=
  r.last.all fun w => !w.touches r.name || r.time < w.deadline || w.deadline ≤ r.looked

/-- What is noted of a run: the watch held last, whether it has yet to be resolved after the last wait, the clock
as it was read to look at a watch last, and the exit that was reaped last. -/
structure Record where
  last : Option Watch := none
  attending : Bool := false
  looked : Nat := 0
  reaped : Option Reaped := none

def Record.reapedAs (g : Record) (m : Memory) (k : Kernel) (pid : Int) : Option Reaped := do
  let sup ← m.services.lookup pid
  let child ← k.children.lookup pid
  let exit ← child.ended
  pure ⟨sup.definition.name,sup.definition.critical,exit.time,m.watch,m.watch <|> g.last,g.looked⟩

/-- The loop takes the watch out of its place to look at it, so a clock that is read meanwhile is read for that. -/
def sightings : Monitor Memory Op Op.Ans Kernel Event Record where
  event _ _ _ _ g := g
  reply
    | .waitpid .any _, m, k, status, g =>
      { g with last := m.watch <|> g.last, attending := m.watch.isSome,
               reaped := (openedBy status).bind (g.reapedAs m k) }
    | .now, m, _, t, g => if g.attending && m.watch.isNone then { g with looked := t } else g
    | .log (.rollingBack _), _, _, _, g => { g with last := none, attending := false }
    | .log .keeping, _, _, _, g => { g with attending := false }
    | _, _, _, _, g => g

/-- When a service is reported to have failed for good, because it is critical or has used up its restarts, it
has done so before the deadline of a watch on it, or the loop had already seen that deadline pass. -/
def noticed : Condition Memory Op Op.Ans (Kernel × Record) Event where
  event _ _ _ _ := true
  reply
    | .log (.serviceEnded _ _), _, e, _ => e.2.reaped.all fun r => !r.critical || r.noticed
    | .log (.givingUp _ _), _, e, _ => e.2.reaped.all Reaped.noticed
    | _, _, _, _ => true

/-- A rollback answers the exit of a service the watch is on, from before its deadline. -/
def asked : Option Op → Memory → Kernel × Record → Prop
  | some (.log (.rollingBack name)), _, e => ∃ r w, e.2.reaped = some r ∧ r.name = name ∧
    r.watch = some w ∧ w.touches name = true ∧ r.time < w.deadline
  | _, _, _ => True

abbrev surroundings : Surroundings Memory Op Op.Ans (Kernel × Record) :=
  ((Kernel.machine.watched sightings).under noticed).surroundings

section Frames
variable {m m' : Memory} {e e' : Kernel × Record} {op : Op}

theorem sightings_unstirred : sightings.Unstirred := fun _ _ _ _ _ => rfl

def Unrolled (op : Op) : Prop := ∀ name, op ≠ .log (.rollingBack name)

theorem asked_unrolled {op : Option Op} (unrolled : ∀ o ∈ op, Unrolled o) : asked op m e := by
  cases op with
  | none => trivial
  | some op =>
    cases op with
    | log line =>
      cases line with
      | rollingBack name => exact absurd rfl (unrolled _ rfl name)
      | _ => trivial
    | _ => trivial

theorem unrolled_of_windsDown (winds : op.windsDown = true) : Unrolled op := by
  rintro name rfl
  contradiction

theorem unrolled_frame : surroundings.Frame asked (fun _ _ => True) Unrolled fun _ _ => True where
  updates _ _ _ _ _ := trivial
  moves _ _ _ _ _ _ _ := trivial
  replies _ _ _ _ _ _ _ _ := trivial
  holds _ _ _ allowed _ := asked_unrolled allowed

def Aside : Op → Prop
  | .waitpid .any _ | .log (.rollingBack _) | .log .keeping => False
  | _ => True

theorem unrolled_of_aside (aside : Aside op) : Unrolled op := by
  rintro name rfl
  exact aside

theorem aside_of_supervises (supervises : op.supervises = true) : Aside op := by
  cases op with
  | waitpid target nohang => cases target <;> trivial
  | log line => cases line <;> trivial
  | _ => trivial

theorem aside_of_plain (plain : op.Plain) : Aside op := aside_of_supervises (Op.supervises_of_plain plain)

theorem aside_of_times (times : op.times = true) : Aside op := by
  cases op with
  | waitpid target nohang => contradiction
  | log line => cases line <;> trivial
  | _ => trivial

theorem aside_of_offers (offers : op.offers = true) : Aside op := by
  cases op with
  | waitpid target nohang => contradiction
  | log line => cases line <;> trivial
  | _ => trivial

def Still (m : Memory) (g : Record) : Prop := m.watch = none → g.attending = false

theorem sightings_aside {k : Kernel} {r : op.Ans} {g : Record} (aside : Aside op) (still : Still m g) :
    sightings.reply op m k r g = g := by
  cases op with
  | waitpid target nohang => cases target <;> first | rfl | exact aside.elim
  | log line => cases line <;> first | rfl | exact aside.elim
  | now =>
    refine if_neg fun looks => ?_
    obtain ⟨attending,untracked⟩ := Bool.and_eq_true_iff.mp looks
    rw [still (Option.isNone_iff_eq_none.mp untracked)] at attending
    contradiction
  | _ => rfl

theorem clock_moves (moved : surroundings.moves op m e e') : e.1.clock ≤ e'.1.clock := by
  obtain ⟨ev,stirred⟩ := moved
  exact Kernel.stir_clock (Machine.watched_stir_iff.mp (Machine.under_stir_iff.mp stirred).2).1

structure Rests {κ : Type} (key : Memory → κ) (P : Memory → Kernel × Record → Prop) : Prop where
  same : ∀ m m' e e', key m' = key m → e'.2 = e.2 → e.1.clock ≤ e'.1.clock → P m e → P m' e'
  still : ∀ m e, P m e → Still m e.2

variable {α κ : Type} {key : Memory → κ} {P : Memory → Kernel × Record → Prop} {p : Code α}

theorem Rests.frame (rests : Rests key P) : surroundings.Frame asked (fun m m' => key m' = key m) Aside P where
  updates m m' e written held := rests.same m m' e e written rfl le_rfl held
  moves op m e e' _ moved held := rests.same m m e e' rfl (sightings_unstirred.moves moved) (clock_moves moved) held
  replies op m e r e' aside replied held := by
    obtain ⟨-,answered,noted⟩ := Machine.heard_iff.mp replied
    rw [sightings_aside aside (rests.still m e held)] at noted
    exact rests.same m m e e' rfl noted (Nat.le_of_eq (Kernel.answer_clock answered).symm) held
  holds _ _ _ aside _ := asked_unrolled fun o member => unrolled_of_aside (aside o member)

theorem Rests.calmly (rests : Rests key P) : Calmly surroundings asked P :=
  calmly_of_frame rests.frame fun _ calm => aside_of_plain calm.plain

theorem wp_rests (rests : Rests key P) (keeps : p.Uses (fun m m' => key m' = key m) Aside) (held : P m e) :
    p.wp surroundings asked (fun _ => P) m e := wp_frame rests.frame keeps held

/-- A call, with the clock as it is when the call is answered. -/
theorem wp_timed {Q : op.Ans → Memory → Kernel × Record → Prop} (holds : ∀ k, asked (some op) m (k,e.2))
    (rest : ∀ k r k', e.1.clock ≤ k.clock → noticed.reply op m (k,e.2) r = true →
      Kernel.answer op m k r = some k' → Q r m (k',sightings.reply op m k r e.2)) :
    (call op).wp surroundings asked Q m e := by
  refine wp_perform (P := fun e' => e'.2 = e.2 ∧ e.1.clock ≤ e'.1.clock) ⟨rfl,le_rfl⟩ ?_ ?_ ?_
  · rintro e₁ e₂ moved ⟨same,later⟩
    exact ⟨(sightings_unstirred.moves moved).trans same,Nat.le_trans later (clock_moves moved)⟩
  · rintro ⟨k,g⟩ ⟨rfl,-⟩
    exact holds k
  · rintro ⟨k,g⟩ r ⟨k',g'⟩ ⟨rfl,later⟩ replied
    obtain ⟨allowed,answered,noted⟩ := Machine.heard_iff.mp replied
    dsimp only at noted
    rw [noted]
    exact rest k r k' later allowed answered

end Frames

section Footprints
variable {α : Type} {p : Code α}

abbrev KeepsWatch (p : Code α) : Prop := p.Uses (fun m m' => m'.watch = m.watch) Aside

theorem keepsWatch_call {op : Op} (aside : Aside op) : KeepsWatch (call op) := uses_perform aside

theorem keepsWatch_of_supervising (supervising : Supervising p) : KeepsWatch p := by
  refine uses_mono supervising (fun m m' written => ?_) fun _ => aside_of_supervises
  unfold OnlyServices at written
  rw [written]

theorem keepsWatch_of_plain (plain : p.Uses Eq Op.Plain) : KeepsWatch p :=
  keepsWatch_of_supervising (supervising_of_plain plain)

theorem handleIsolate_keepsWatch : KeepsWatch handleIsolate := by
  refine uses_bind (keepsWatch_call trivial) fun pending => uses_each fun name _ => ?_
  refine uses_mono (isolate_uses name) (fun m m' written => ?_) fun _ => aside_of_supervises
  unfold OnlyIsolated at written
  rw [written]

theorem dumpStatus_keepsWatch : KeepsWatch dumpStatus := by
  refine uses_bind (keepsWatch_call trivial) fun _ => uses_provided ?_
  refine uses_bind (uses_read fun _ => rfl) fun _ => ?_
  refine uses_bind (keepsWatch_of_plain statusSummary_plain) fun _ => ?_
  exact uses_bind (keepsWatch_call trivial) fun _ => keepsWatch_call trivial

theorem tick_keepsWatch (timers : List TimerDef) (services : List ServiceDef) :
    KeepsWatch (Timers.tick timers services) := by
  refine uses_mono (tick_times timers services) (fun m m' written => ?_) fun _ => aside_of_times
  unfold OnlyTimers at written
  rw [written]

theorem takeFlags_keepsWatch : KeepsWatch takeFlags :=
  uses_bind (keepsWatch_call trivial) fun _ => uses_bind (keepsWatch_call trivial) fun _ =>
  uses_bind (keepsWatch_call trivial) fun _ => uses_pure _

def tracked (m : Memory) : Services × Option Watch := (m.services,m.watch)

theorem killExpired_keeps : killExpired.Uses (fun m m' => tracked m' = tracked m) Aside := by
  refine uses_bind (uses_mono expiredWatchdogs_plain (fun m m' same => ?_) fun _ => aside_of_plain) fun pids => ?_
  · rw [same]
  · exact uses_each fun pid _ => uses_bind (uses_perform trivial) fun _ => uses_perform trivial

theorem offer_keeps (pid : Int) : (offer pid).Uses (fun m m' => tracked m' = tracked m) Aside := by
  refine uses_mono (offer_offers pid) (fun m m' written => ?_) fun _ offered => aside_of_offers offered.offers
  unfold OnlyTimers at written
  rw [written]
  rfl

end Footprints

section Watch
variable {m : Memory} {e : Kernel × Record}

/-- A watch is held only as long as the loop has not seen its deadline pass. -/
structure Sighted (m : Memory) (e : Kernel × Record) : Prop where
  past : e.2.looked ≤ e.1.clock
  early : ∀ w, m.watch = some w → e.2.looked < w.deadline
  still : Still m e.2

theorem sighted_rests : Rests Memory.watch Sighted where
  same m m' e e' same noted later sighted := by
    obtain ⟨past,early,still⟩ := sighted
    refine ⟨?_,?_,?_⟩
    · rw [noted]
      exact Nat.le_trans past later
    · rw [noted,same]
      exact early
    · rw [Still,noted,same]
      exact still
  still _ _ sighted := sighted.still

/-- A watch that has just been set is looked at later. -/
theorem reload_phases : ReloadPhases surroundings asked Sighted Sighted (fun _ => Sighted) (fun _ => Sighted)
    (fun _ => Sighted) (fun _ _ => Sighted) (fun _ => Sighted) Sighted where
  unread _ _ := trivial
  takes _ _ sighted := wp_rests sighted_rests (keepsWatch_call trivial) sighted
  skips _ _ sighted := sighted
  logs _ _ sighted := wp_rests sighted_rests (keepsWatch_call trivial) sighted
  loads _ _ sighted := wp_rests sighted_rests (keepsWatch_of_plain loadConfig_plain) sighted
  levels _ _ _ sighted := wp_rests sighted_rests (keepsWatch_call trivial) sighted
  levelled_calm _ := sighted_rests.calmly
  times _ _ _ sighted := wp_mono (wp_rests sighted_rests (keepsWatch_call trivial) sighted) fun _ m e sighted =>
    ⟨sighted.past,sighted.early,sighted.still⟩
  reconciles _ _ _ sighted :=
    wp_rests sighted_rests (keepsWatch_of_supervising (reloadServices_supervises _)) sighted
  reconciled_calm _ _ := sighted_rests.calmly
  dates _ _ m e sighted := by
    refine wp_timed (fun _ => trivial) fun k t k' later _ answered => ?_
    obtain ⟨rfl,rfl⟩ : t = k.clock ∧ k = k' := by simpa [Kernel.answer] using answered
    have aside : Aside .now := trivial
    have past := Nat.le_trans sighted.past later
    rw [sightings_aside aside sighted.still]
    refine ⟨past,?_,by simp [Still]⟩
    rintro w ⟨⟩
    exact Nat.lt_of_le_of_lt past (Nat.lt_add_of_pos_right (by decide))
  publishes _ _ _ sighted := wp_rests sighted_rests (keepsWatch_of_plain (publishTargets_plain _ _)) sighted

def Reported (failedName : Option String) (watch : Option Watch) (g : Record) : Prop :=
  ∀ name ∈ failedName, ∃ r, g.reaped = some r ∧ r.name = name ∧ r.watch = watch ∧
    ∀ w, watch = some w → w.touches name = true → r.time < w.deadline

theorem reported_none {watch : Option Watch} {g : Record} : Reported none watch g :=
  fun _ named => by simp at named

structure Resolved (e : Kernel × Record) : Prop where
  past : e.2.looked ≤ e.1.clock
  unattended : e.2.attending = false

theorem resolved_rests : Rests Memory.watch fun _ => Resolved where
  same m m' e e' _ noted later resolved := by
    refine ⟨?_,?_⟩
    · rw [noted]
      exact Nat.le_trans resolved.past later
    · rw [noted]
      exact resolved.unattended
  still _ _ resolved _ := resolved.unattended

theorem sighted_of_resolved (unwatched : m.watch = none) (resolved : Resolved e) : Sighted m e :=
  ⟨resolved.past,by simp [unwatched],fun _ => resolved.unattended⟩

theorem verdict_phases : VerdictPhases surroundings asked
    (fun failedName m e => Sighted m e ∧ Reported failedName m.watch e.2) (fun _ _ => Resolved) (fun _ _ => Resolved)
    (fun _ _ => Resolved) Sighted where
  unread _ _ := trivial
  unwatched _ _ _ held _ := held.1
  rolls name w m e held watching touched := by
    obtain ⟨sighted,reported⟩ := held
    obtain ⟨r,last,named,under,inTime⟩ := reported name rfl
    refine wp_timed (fun _ => ?_) fun k _ k' later _ answered => ?_
    · exact ⟨r,w,last,named,under.trans watching,touched,inTime w watching touched⟩
    · obtain rfl : k = k' := Option.some.inj answered
      exact ⟨Nat.le_trans sighted.past later,rfl⟩
  reconciles _ _ _ held := wp_rests resolved_rests (keepsWatch_of_supervising (reloadServices_supervises _)) held
  levels _ _ _ held := wp_rests resolved_rests (keepsWatch_call trivial) held
  restored_calm _ := resolved_rests.calmly
  ends _ _ _ held := wp_mono (wp_rests resolved_rests (keepsWatch_call trivial) held) fun _ m e resolved =>
    sighted_of_resolved rfl resolved
  looks failedName w m e held watching spared := by
    obtain ⟨⟨past,early,still⟩,-⟩ := held
    refine wp_timed (fun _ => trivial) fun k t k' later _ answered => ?_
    obtain ⟨rfl,rfl⟩ : t = k.clock ∧ k = k' := by simpa [Kernel.answer] using answered
    have seen : (sightings.reply .now { m with watch := none } k k.clock e.2).looked ≤ k.clock := by
      simp only [sightings]
      split
      · exact le_rfl
      · exact Nat.le_trans past later
    split
    · rename_i before
      refine ⟨seen,?_,by simp [Still]⟩
      rintro w' ⟨⟩
      exact Nat.lt_of_le_of_lt seen before
    · refine wp_timed (fun _ => trivial) fun k₂ _ k₃ after _ answered => ?_
      obtain rfl : k₂ = k₃ := Option.some.inj answered
      exact sighted_of_resolved rfl ⟨Nat.le_trans seen after,rfl⟩

end Watch

section Exit
variable {m : Memory} {e : Kernel × Record} {pid : Int}

/-- An exit that was reaped under the watch that is held, whose deadline had not been seen to pass. -/
structure Sees (r : Reaped) (watch : Option Watch) : Prop where
  under : r.watch = watch
  last : ∀ w, watch = some w → r.last = some w
  early : ∀ w, watch = some w → r.looked < w.deadline

/-- Such an exit came in time, or it is not noticed how late it was. -/
theorem inTime_of_noticed {r : Reaped} {watch : Option Watch} {w : Watch} (sees : Sees r watch)
    (watching : watch = some w) (touched : w.touches r.name = true) (noticed : r.noticed = true) :
    r.time < w.deadline := by
  have early := sees.early w watching
  simp only [Reaped.noticed,sees.last w watching,Option.all_some,touched,Bool.not_true,Bool.false_or,
    Bool.or_eq_true,decide_eq_true_eq] at noticed
  omega

def Arrived (pid : Int) (m : Memory) (g : Record) : Prop :=
  ∀ sup, m.services.lookup pid = some sup → ∃ r, g.reaped = some r ∧ r.name = sup.definition.name ∧
    r.critical = sup.definition.critical ∧ Sees r m.watch

structure Waited (status : Except Errno WaitStatus) (m : Memory) (e : Kernel × Record) : Prop where
  sighted : Sighted m e
  arrived : ∀ pid, openedBy status = some pid → Arrived pid m e.2

theorem waited_rests (status : Except Errno WaitStatus) : Rests tracked (Waited status) where
  same m m' e e' same noted later waited := by
    obtain ⟨services,watch⟩ := Prod.mk.inj same
    refine ⟨sighted_rests.same m m' e e' watch noted later waited.sighted,fun pid opened => ?_⟩
    rw [Arrived,noted,services,watch]
    exact waited.arrived pid opened
  still _ _ waited := waited.sighted.still

theorem reapedAs_sees {g : Record} {k k' : Kernel} {ending : Ending} (nohang : Bool)
    (answered : Kernel.answer (.waitpid .any nohang) m k (.ok (.ended pid ending)) = some k')
    (early : ∀ w, m.watch = some w → g.looked < w.deadline) :
    ∀ sup, m.services.lookup pid = some sup → ∃ r, g.reapedAs m k pid = some r ∧ r.name = sup.definition.name ∧
      r.critical = sup.definition.critical ∧ Sees r m.watch := by
  obtain ⟨child,there,reaps⟩ := Option.bind_eq_some_iff.mp answered
  simp only [Option.ite_none_right_eq_some,Option.map_eq_some_iff] at reaps
  obtain ⟨⟨-,exit,ended,-⟩,-⟩ := reaps
  intro sup found
  refine ⟨⟨sup.definition.name,sup.definition.critical,exit.time,m.watch,m.watch <|> g.last,g.looked⟩,?_,rfl,rfl,?_⟩
  · simp [Record.reapedAs,found,there,ended]
  · exact ⟨rfl,fun w watching => by simp [watching],early⟩

theorem wp_waits (sighted : Sighted m e) : (waitpid .any (polls m)).wp surroundings asked Waited m e := by
  refine wp_timed (fun _ => trivial) fun k status k' later _ answered => ?_
  have clock := Kernel.answer_clock answered
  refine ⟨⟨?_,sighted.early,?_⟩,fun pid opened => ?_⟩
  · rw [clock]
    exact Nat.le_trans sighted.past later
  · exact fun unwatched => by simp [sightings,unwatched]
  · match status with
    | .ok (.ended p ending) =>
      cases opened
      exact reapedAs_sees (polls m) answered sighted.early

structure Held (r : Reaped) (m : Memory) (e : Kernel × Record) : Prop where
  sighted : Sighted m e
  last : e.2.reaped = some r
  sees : Sees r m.watch

theorem held_rests (r : Reaped) : Rests Memory.watch (Held r) where
  same m m' e e' same noted later held := by
    refine ⟨sighted_rests.same m m' e e' same noted later held.sighted,?_,?_⟩
    · rw [noted]
      exact held.last
    · rw [same]
      exact held.sees
  still _ _ held := held.sighted.still

theorem reported_of_held {r : Reaped} {name : String} (held : Held r m e) (named : r.name = name)
    (noticed : r.noticed = true) : Reported (some name) m.watch e.2 := by
  rintro _ ⟨⟩
  refine ⟨r,held.last,named,held.sees.under,fun w watching touched => ?_⟩
  exact inTime_of_noticed held.sees watching (named ▸ touched) noticed

theorem wp_restart {sup : Supervised} {r : Reaped} (held : Held r m e) (named : r.name = sup.definition.name) :
    (restart sup).wp surroundings asked
      (fun outcome m e => Sighted m e ∧ Reported outcome.failedName m.watch e.2) m e := by
  refine wp_then (wp_rests (held_rests r) (keepsWatch_call trivial) held) fun t m e held => ?_
  dsimp only
  split
  · refine (wp_bind _ _ _ _ _).mpr (wp_timed (fun _ => trivial) fun k _ k' later allowed answered => ?_)
    have held : Held r m (k',e.2) := by
      obtain rfl : k = k' := Option.some.inj answered
      exact (held_rests r).same m m e (k,e.2) rfl rfl later held
    refine ⟨held.sighted,reported_of_held held named ?_⟩
    have last : e.2.reaped = some r := held.last
    simpa [noticed,last] using allowed
  · refine wp_then (wp_rests (held_rests r) (keepsWatch_of_supervising (spawnWithHistory_supervises _ _)) held) ?_
    exact fun _ m e held => ⟨held.sighted,reported_none⟩

theorem wp_handleExit {ending : Ending} (sighted : Sighted m e) (arrived : Arrived pid m e.2) :
    (handleExit (.ended pid ending)).wp surroundings asked
      (fun outcome m e => Sighted m e ∧ Reported outcome.failedName m.watch e.2) m e := by
  refine wp_bind_removeService trivial ?_
  have removed : Sighted (withoutService m pid) e := ⟨sighted.past,sighted.early,sighted.still⟩
  cases found : m.services.lookup pid with
  | none => exact ⟨removed,reported_none⟩
  | some sup =>
    obtain ⟨r,last,named,critical,sees⟩ := arrived sup found
    have held : Held r (withoutService m pid) e := ⟨removed,last,sees⟩
    refine (wp_bind _ _ _ _ _).mpr (wp_timed (fun _ => trivial) fun k _ k' later allowed answered => ?_)
    have reported : r.critical = false ∨ r.noticed = true := by simpa [noticed,last] using allowed
    have held : Held r (withoutService m pid) (k',e.2) := by
      obtain rfl : k = k' := Option.some.inj answered
      exact (held_rests r).same _ _ e (k,e.2) rfl rfl later held
    refine wp_then (wp_rests (held_rests r) (keepsWatch_call trivial) held) fun _ m e held => ?_
    refine wp_then (wp_rests (held_rests r) (keepsWatch_call trivial) held) fun _ m e held => ?_
    split
    · rename_i fatal
      rw [critical,fatal] at reported
      exact ⟨held.sighted,reported_of_held held named (reported.resolve_left Bool.true_eq_false.mp)⟩
    · split
      · exact wp_restart held named
      · exact ⟨held.sighted,reported_none⟩

end Exit

section Loop
variable {m : Memory} {e : Kernel × Record}

theorem wp_unrolled {α : Type} {p : Code α} (winds : WindingDown p) :
    p.wp surroundings asked (fun _ _ _ => True) m e :=
  wp_frame unrolled_frame (uses_mono winds (fun _ _ _ => trivial) fun _ => unrolled_of_windsDown) trivial

theorem loop_phases : LoopPhases surroundings asked Sighted Sighted Sighted Sighted Waited
    (fun pid ending _ => Waited (.ok (.ended pid ending)))
    (fun outcome m e => Sighted m e ∧ Reported outcome.failedName m.watch e.2) (fun _ _ => True) (fun _ _ => True)
    (fun _ _ => True) fun _ _ => True where
  unread _ _ := trivial
  takes _ _ sighted := wp_mono (wp_rests sighted_rests takeFlags_keepsWatch sighted) fun raised _ _ sighted => by
    cases raised with
    | true => trivial
    | false => exact sighted
  reloads _ _ sighted := reload_phases.wp_handleReload sighted
  isolates _ _ sighted := wp_rests sighted_rests handleIsolate_keepsWatch sighted
  dumps _ _ sighted := wp_rests sighted_rests dumpStatus_keepsWatch sighted
  ticks _ _ sighted := wp_rests sighted_rests (tick_keepsWatch _ _) sighted
  waits _ _ sighted := wp_waits sighted
  kills status _ _ waited := wp_rests (waited_rests status) killExpired_keeps waited
  offers pid _ _ _ waited := wp_rests (waited_rests _) (offer_keeps pid) waited
  claims _ _ _ _ waited := ⟨waited.sighted,reported_none⟩
  exits pid _ _ _ waited := wp_handleExit waited.sighted (waited.arrived pid rfl)
  waited_calm status _ := (waited_rests status).calmly
  passes _ _ _ waited _ := ⟨waited.sighted,reported_none⟩
  fails _ _ _ waited := waited.sighted
  resolves _ _ _ held _ := verdict_phases.wp_resolveWatch held
  halts _ _ _ _ _ := wp_frame unrolled_frame (uses_perform fun _ => by simp) trivial
  relays _ _ _ := wp_frame unrolled_frame (uses_perform fun _ => by simp) trivial
  closes grace _ _ _ := wp_unrolled (shutdownAll_windsDown grace)
  acknowledges _ _ _ := wp_unrolled (windingDown_of_supervising (supervising_of_plain acknowledgeShutdown_plain))

theorem wp_runEventLoop (grace : Nat) (k : Kernel) :
    (runEventLoop grace).wp surroundings asked (fun _ _ _ => True) m (k,{}) :=
  loop_phases.wp_runEventLoop grace ⟨Nat.zero_le _,by simp,fun _ => rfl⟩

end Loop

/-- In every run of the event loop in which each exit that counts came before the deadline of a watch on the
service, or was reaped after the loop had seen that deadline pass, each rollback answers the exit of a service
the watch is on, from before the deadline. -/
theorem rollback_in_time (grace : Nat) (m : Memory) (k : Kernel)
    {t : State Memory Op Op.Ans (Kernel × Record) Unit}
    (run : Reaches surroundings ⟨runEventLoop grace,m,(k,{})⟩ t) :
    asked t.program.next? t.mem t.env :=
  wp_everywhere run (wp_runEventLoop grace k) fun _ _ _ _ => trivial

section Runs

def display : ServiceDef :=
  { name := "display", path := "/usr/bin/display", critical := true, target := "multi-user" }

def greeter : ServiceDef :=
  { name := "greeter", path := "/usr/bin/greeter", critical := true, target := "multi-user" }

def config : Config := { Config.default with services := [display,greeter] }

def empty : Memory := { cfg := { Config.default with services := [] }, currentTarget := "multi-user" }

def starts : Origin → Bool
  | .service name _ => name == "display"
  | _ => true

def turning : Cue Op Event := .upTo (· == .swap .rebootRequested) 300

def rolling : Cue Op Event := .upTo (· == .log (.rollingBack "display")) 300

def run (M : Machine Memory Op Op.Ans (Kernel × Record) Event) (cues : List (Cue Op Event)) :
    Option (State Memory Op Op.Ans (Kernel × Record) Unit) :=
  drive M (fun op m e => Kernel.obliging starts config op m e.1) cues
    ⟨runEventLoop 0,empty,({ ipc := .idle },{})⟩

def promptRun : Option (State Memory Op Op.Ans (Kernel × Record) Unit) :=
  run ((Kernel.machine.watched sightings).under noticed)
    [turning,.stir .requestReload,.step,turning,.stir (.exit 100 (some (.exited 1))),.step,rolling]

theorem rollback_in_time_prompt : ∃ t, promptRun = some t ∧
    ∃ r w, t.env.2.reaped = some r ∧ r.name = "display" ∧ r.watch = some w ∧ w.touches "display" = true ∧
      r.time < w.deadline := by
  have there : promptRun.any (fun t =>
      decide (t.program.next? = some (.log (.rollingBack "display")))) = true := by
    decide +kernel
  obtain ⟨t,reached,now⟩ := (Option.any_eq_true _ _).mp there
  have inTime := rollback_in_time 0 empty { ipc := .idle } (drive_reaches reached)
  rw [of_decide_eq_true now] at inTime
  exact ⟨t,reached,inTime⟩

def lateRun : Option (State Memory Op Op.Ans (Kernel × Record) Unit) :=
  run (Kernel.machine.watched sightings)
    [turning,.stir .requestReload,.step,turning,.stir (.tick (fromSecs 9)),
      .stir (.requestIsolate "multi-user"),.step,.upTo (· == .waitpid (.only 101) true) 300,.step,
      .stir (.tick (fromSecs 2)),.stir (.exit 100 (some (.exited 1))),.stir (.tick (fromSecs 1)),rolling]

/-- The watch has not been looked at meanwhile, and the exit is taken for a failure within it. -/
theorem late_exit_rolls_back : ¬ ∀ (grace : Nat) (m : Memory) (k : Kernel)
    (t : State Memory Op Op.Ans (Kernel × Record) Unit),
    Reaches (Kernel.machine.watched sightings).surroundings ⟨runEventLoop grace,m,(k,{})⟩ t →
      asked t.program.next? t.mem t.env := by
  intro claim
  have there : lateRun.any (fun t =>
      decide (t.program.next? = some (.log (.rollingBack "display"))) &&
        t.env.2.reaped.any fun r => r.watch.any fun w => decide (w.deadline ≤ r.time)) = true := by
    decide +kernel
  obtain ⟨t,reached,now⟩ := (Option.any_eq_true _ _).mp there
  obtain ⟨rolls,late⟩ := Bool.and_eq_true_iff.mp now
  have inTime := claim 0 empty { ipc := .idle } t (drive_reaches reached)
  rw [of_decide_eq_true rolls] at inTime
  obtain ⟨r,w,last,-,watch,-,before⟩ := inTime
  rw [last,Option.any_some,watch,Option.any_some,decide_eq_true_eq] at late
  omega

end Runs
end MitosServices.Lapses
