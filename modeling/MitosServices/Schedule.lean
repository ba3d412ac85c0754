import MitosServices.Supervision

/-! Whole runs of the timers: any ticks and reaps, with the timer list replaced at will between
them. A record of the starts and finishes is kept beside the schedule and compared with it. -/
namespace MitosServices.Schedule
open Interaction Interaction.Program

inductive Use
  | adopt (timerDefs : List TimerDef) (distinct : (timerDefs.map TimerDef.name).Nodup)
      (services : List ServiceDef)
  | tick
  | reap (pid : Int)

def Use.code : Use → Code Unit
  | .adopt timerDefs _ services => update fun m => { m with timerDefs, cfg.services := services }
  | .tick => do
    let m ← read
    Timers.tick m.timerDefs m.cfg.services
  | .reap pid => do
    let _ ← Timers.reap pid
    pure ()

section Surroundings

def answer : (op : Op) → Memory → Nat → op.Ans → Option Nat
  | .now, _, clock, t => if t = clock then some clock else none
  | .spawn _ _, m, clock, .ok pid =>
    if (m.timers.bind fun s => s.pending.lookup pid).isNone then some clock else none
  | .panic, _, _, _ => none
  | _, _, clock, _ => some clock

def machine : Machine Memory Op Op.Ans Nat Nat where
  stir elapsed _ _ clock := some (clock + elapsed)
  answer := answer

/-- While a call is pending the clock goes on, and nothing is recorded. -/
theorem ticks_later {Ghost : Type} {M : Machine Memory Op Op.Ans Nat Nat}
    {W : Monitor Memory Op Op.Ans Nat Nat Ghost} {op : Op} {m : Memory} {e e' : Nat × Ghost}
    (ticks : ∀ elapsed op m clock, M.stir elapsed op m clock = some (clock + elapsed))
    (unstirred : W.Unstirred) (moved : (M.watched W).surroundings.moves op m e e') :
    e.1 ≤ e'.1 ∧ e'.2 = e.2 := by
  obtain ⟨elapsed,stirred⟩ := moved
  obtain ⟨ticked,noted⟩ := Machine.watched_stir_iff.mp stirred
  rw [ticks] at ticked
  rw [unstirred] at noted
  have later : e'.1 = e.1 + elapsed := (Option.some.inj ticked).symm
  exact ⟨by omega,noted⟩

theorem answer_clock {op : Op} {m : Memory} {clock clock' : Nat} {r : op.Ans}
    (answered : machine.answer op m clock r = some clock') : clock' = clock := by
  change answer op m clock r = some clock' at answered
  unfold answer at answered
  split at answered
  · simp only [Option.ite_none_right_eq_some,Option.some.injEq] at answered
    exact answered.2.symm
  · simp only [Option.ite_none_right_eq_some,Option.some.injEq] at answered
    exact answered.2.symm
  · contradiction
  · exact (Option.some.inj answered).symm

end Surroundings

section History

/-- A successful start, with the definition then in force, or a finish. -/
inductive Happening
  | started (name : String) (time : Nat) (definition : Option TimerDef)
  | finished (name : String) (time : Nat)

abbrev History := List Happening

def inForce (m : Memory) (name : String) : Option TimerDef :=
  m.timerDefs.find? fun t => t.name == name

def monitor : Monitor Memory Op Op.Ans Nat Nat History where
  event _ _ _ _ history := history
  reply op m clock r history := match op, r with
    | .spawn (.timer name) _, .ok _ => .started name clock (inForce m name) :: history
    | .log (.timerFinished name _), _ => .finished name clock :: history
    | _, _ => history

def lastFinish (name : String) : History → Option Nat
  | [] => none
  | .started _ _ _ :: rest => lastFinish name rest
  | .finished n t :: rest => if n = name then some t else lastFinish name rest

def unfinished (name : String) : History → Bool
  | [] => false
  | .started n _ _ :: rest => n == name || unfinished name rest
  | .finished n _ :: rest => n != name && unfinished name rest

def timesStarted (name : String) : History → Nat
  | [] => 0
  | .started n _ _ :: rest => timesStarted name rest + if n = name then 1 else 0
  | .finished _ _ :: rest => timesStarted name rest

/-- `OnBootSec`, or `OnUnitActiveSec` when that is unset. -/
def firstDelay (t : TimerDef) : Option Nat := t.onBoot.or t.onActive

/-- A first run keeps its delay from boot, a later one the interval from the last finish. -/
def OnTime (boot time : Nat) (t : TimerDef) : Option Nat → Prop
  | none => ∃ delay, firstDelay t = some delay ∧ boot + delay ≤ time
  | some finish => ∃ interval, t.onActive = some interval ∧ finish + interval ≤ time

/-- Every start was on time under the definition in force, and none while a run was unfinished. -/
def Orderly (boot : Nat) : History → Prop
  | [] => True
  | .started name time definition :: rest =>
    (∃ t, definition = some t ∧ t.name = name ∧ OnTime boot time t (lastFinish name rest)) ∧
      unfinished name rest = false ∧ Orderly boot rest
  | .finished _ _ :: rest => Orderly boot rest

theorem ran_before {name : String} {history : History} (before : timesStarted name history ≠ 0) :
    unfinished name history = true ∨ lastFinish name history ≠ none := by
  induction history with
  | nil => exact absurd rfl before
  | cons happening rest ih =>
    cases happening with
    | started n time definition =>
      by_cases same : n = name
      · exact .inl (by simp [unfinished,same])
      · rw [timesStarted,if_neg same,Nat.add_zero] at before
        cases ih before with
        | inl running => exact .inl (by simp [unfinished,running])
        | inr finished => exact .inr finished
    | finished n time =>
      by_cases same : n = name
      · exact .inr (by simp [lastFinish,same])
      · cases ih before with
        | inl running => exact .inl (by simp [unfinished,running,same])
        | inr finished => exact .inr (by rwa [lastFinish,if_neg same])

end History

section Invariant

/-- The schedule says of every timer what has happened to it. -/
structure Agrees (s : Timers.State) (history : History) : Prop where
  running : ∀ name, name ∈ s.running ↔ ∃ pid, s.pending.lookup pid = some name
  single : ∀ pid pid' name, s.pending.lookup pid = some name → s.pending.lookup pid' = some name →
    pid = pid'
  nodup : s.running.Nodup
  unfinished : ∀ name, unfinished name history = true ↔ name ∈ s.running
  unfinishing : ∀ name, lastFinish name history = none ↔ s.lastFinished.lookup name = none
  finished : ∀ name finish last, lastFinish name history = some finish →
    s.lastFinished.lookup name = some last → finish ≤ last
  orderly : Orderly s.boot history

def BootOnly (once : String → Prop) (timerDefs : List TimerDef) : Prop :=
  ∀ t ∈ timerDefs, once t.name → t.onActive = none

structure Kept (once : String → Prop) (m : Memory) (history : History) : Prop where
  orderly : ∀ s, m.timers = some s → Orderly s.boot history
  unused : m.timers = none → history = []
  fired : ∀ name, once name → timesStarted name history ≤ 1

structure Sched (once : String → Prop) (m : Memory) (history : History) : Prop where
  agrees : ∀ s, m.timers = some s → Agrees s history
  unused : m.timers = none → history = []
  fired : ∀ name, once name → timesStarted name history ≤ 1
  distinct : (m.timerDefs.map TimerDef.name).Nodup
  bootOnly : BootOnly once m.timerDefs

variable {once : String → Prop} {m : Memory} {history : History} {s : Timers.State}

theorem Sched.kept (sched : Sched once m history) : Kept once m history where
  orderly s there := (sched.agrees s there).orderly
  unused := sched.unused
  fired := sched.fired

theorem inForce_of_mem {t : TimerDef} (distinct : (m.timerDefs.map TimerDef.name).Nodup)
    (member : t ∈ m.timerDefs) : inForce m t.name = some t := Timers.find_distinct distinct member

section Due
variable {t : TimerDef} {clock clock' : Nat}

theorem dueAt_iff : Timers.dueAt t s clock = true ↔
    OnTime s.boot clock t (s.lastFinished.lookup t.name) := by
  unfold Timers.dueAt
  cases s.lastFinished.lookup t.name with
  | none => cases boot : t.onBoot <;> cases active : t.onActive <;> simp [OnTime,firstDelay,boot,active]
  | some last => cases active : t.onActive <;> simp [OnTime,active]

theorem OnTime.later {boot : Nat} {finish : Option Nat} (later : clock ≤ clock')
    (due : OnTime boot clock t finish) : OnTime boot clock' t finish := by
  cases finish with
  | none =>
    obtain ⟨delay,first,past⟩ := due
    exact ⟨delay,first,by omega⟩
  | some finish =>
    obtain ⟨interval,active,past⟩ := due
    exact ⟨interval,active,by omega⟩

def Ripe (m : Memory) (clock : Nat) (name : String) : Prop :=
  ∃ s t, m.timers = some s ∧ t ∈ m.timerDefs ∧ t.name = name ∧ name ∉ s.running ∧
    OnTime s.boot clock t (s.lastFinished.lookup name)

theorem Ripe.later {name : String} (ripe : Ripe m clock name) (later : clock ≤ clock') :
    Ripe m clock' name := by
  obtain ⟨s,t,there,member,named,idle,due⟩ := ripe
  exact ⟨s,t,there,member,named,idle,due.later later⟩

/-- What the schedule finds due is on time by the record. -/
theorem onTime_of_due (agrees : Agrees s history)
    (due : OnTime s.boot clock t (s.lastFinished.lookup t.name)) :
    OnTime s.boot clock t (lastFinish t.name history) := by
  cases recorded : lastFinish t.name history with
  | none =>
    rw [(agrees.unfinishing t.name).mp recorded] at due
    exact due
  | some finish =>
    cases found : s.lastFinished.lookup t.name with
    | none =>
      rw [(agrees.unfinishing t.name).mpr found] at recorded
      contradiction
    | some last =>
      rw [found] at due
      obtain ⟨interval,active,past⟩ := due
      have earlier := agrees.finished t.name finish last recorded found
      exact ⟨interval,active,by omega⟩

theorem idle_iff {name : String} (agrees : Agrees s history) :
    unfinished name history = false ↔ name ∉ s.running := by
  rw [← agrees.unfinished name,Bool.not_eq_true]

/-- A start that is recorded in the schedule. -/
theorem agrees_noteStarted {pid : Int} (agrees : Agrees s history) (idle : t.name ∉ s.running)
    (due : OnTime s.boot clock t (s.lastFinished.lookup t.name))
    (fresh : s.pending.lookup pid = none) :
    Agrees (Timers.noteStarted t.name pid s) (.started t.name clock (some t) :: history) := by
  have unlisted : ∀ p, s.pending.lookup p ≠ some t.name := by
    intro p there
    exact idle ((agrees.running t.name).mpr ⟨p,there⟩)
  have running : (Timers.noteStarted t.name pid s).running = s.running ++ [t.name] := by
    rw [Timers.noteStarted,if_neg (by simpa using idle)]
  have pending : (Timers.noteStarted t.name pid s).pending = s.pending.insert pid t.name := rfl
  constructor
  · intro name
    rw [running,pending,List.mem_append,List.mem_singleton,agrees.running name]
    constructor
    · intro there
      cases there with
      | inl before =>
        obtain ⟨p,before⟩ := before
        have other : p ≠ pid := by
          intro same
          rw [same,fresh] at before
          contradiction
        exact ⟨p,lookup_insert_iff.mpr (.inr ⟨other,before⟩)⟩
      | inr same => exact ⟨pid,lookup_insert_iff.mpr (.inl ⟨rfl,same⟩)⟩
    · intro there
      obtain ⟨p,there⟩ := there
      cases lookup_insert_iff.mp there with
      | inl new => exact .inr new.2
      | inr before => exact .inl ⟨p,before.2⟩
  · intro p p' name there there'
    rw [pending] at there there'
    cases lookup_insert_iff.mp there with
    | inl new =>
      cases lookup_insert_iff.mp there' with
      | inl new' => rw [new.1,new'.1]
      | inr before' => exact absurd (new.2 ▸ before'.2) (unlisted p')
    | inr before =>
      cases lookup_insert_iff.mp there' with
      | inl new' => exact absurd (new'.2 ▸ before.2) (unlisted p)
      | inr before' => exact agrees.single p p' name before.2 before'.2
  · rw [running]
    exact List.nodup_append.mpr ⟨agrees.nodup,List.nodup_singleton _,by
      intro a member b single
      rw [List.mem_singleton.mp single]
      intro same
      exact idle (same ▸ member)⟩
  · intro name
    rw [running,List.mem_append,List.mem_singleton,unfinished,Bool.or_eq_true,beq_iff_eq,
      agrees.unfinished name,or_comm,eq_comm]
  · exact agrees.unfinishing
  · exact agrees.finished
  · have onTime := onTime_of_due agrees due
    exact ⟨⟨t,rfl,rfl,onTime⟩,(idle_iff agrees).mpr idle,agrees.orderly⟩

/-- A finish that is recorded in the schedule. -/
theorem agrees_noteFinished {name : String} {pid : Int} {finish last : Nat}
    (agrees : Agrees s history) (there : s.pending.lookup pid = some name) (later : finish ≤ last) :
    Agrees (Timers.noteFinished name last { s with pending := s.pending.erase pid })
      (.finished name finish :: history) := by
  constructor
  · intro n
    have erased : n ∈ s.running.erase name ↔ n ≠ name ∧ n ∈ s.running :=
      agrees.nodup.mem_erase_iff
    rw [Timers.noteFinished,erased,agrees.running n]
    constructor
    · intro listed
      obtain ⟨other,p,before⟩ := listed
      have otherPid : p ≠ pid := by
        intro same
        rw [same,there] at before
        exact other (Option.some.inj before).symm
      exact ⟨p,lookup_erase_iff.mpr ⟨otherPid,before⟩⟩
    · intro listed
      obtain ⟨p,before⟩ := listed
      obtain ⟨otherPid,before⟩ := lookup_erase_iff.mp before
      have other : n ≠ name := by
        intro same
        exact otherPid (agrees.single p pid name (same ▸ before) there)
      exact ⟨other,p,before⟩
  · intro p p' n before before'
    exact agrees.single p p' n (lookup_erase_iff.mp before).2 (lookup_erase_iff.mp before').2
  · exact agrees.nodup.erase name
  · intro n
    have erased : n ∈ s.running.erase name ↔ n ≠ name ∧ n ∈ s.running :=
      agrees.nodup.mem_erase_iff
    rw [Timers.noteFinished,erased,unfinished,Bool.and_eq_true,bne_iff_ne,agrees.unfinished n,
      ne_comm]
  · intro n
    by_cases same : name = n
    · subst same
      simp [lastFinish,Timers.noteFinished]
    · rw [lastFinish,if_neg same,agrees.unfinishing n]
      simp [Timers.noteFinished,AList.lookup_insert_ne (Ne.symm same)]
  · intro n f l recorded found
    by_cases same : name = n
    · subst same
      rw [lastFinish,if_pos rfl] at recorded
      have same := Option.some.inj recorded
      simp only [Timers.noteFinished,AList.lookup_insert,Option.some.injEq] at found
      omega
    · rw [lastFinish,if_neg same] at recorded
      rw [Timers.noteFinished] at found
      rw [AList.lookup_insert_ne (Ne.symm same)] at found
      exact agrees.finished n f l recorded found
  · exact agrees.orderly

/-- A pid nobody waits for is removed to no effect. -/
theorem agrees_erase {pid : Int} (agrees : Agrees s history) (absent : s.pending.lookup pid = none) :
    Agrees { s with pending := s.pending.erase pid } history := by
  rw [erase_absent absent]
  exact agrees

end Due
end Invariant

section Runs

abbrev around : Surroundings Memory Op Op.Ans (Nat × History) := (machine.watched monitor).surroundings

abbrev asked (once : String → Prop) : Option Op → Memory → Nat × History → Prop :=
  fun _ m e => Kept once m e.2

variable {once : String → Prop} {m : Memory} {e : Nat × History}

theorem moves_later {op : Op} {e' : Nat × History} (moved : around.moves op m e e') :
    e.1 ≤ e'.1 ∧ e'.2 = e.2 := ticks_later (fun _ _ _ _ => rfl) (fun _ _ _ _ _ => rfl) moved

theorem replies_quiet {op : Op} {r : op.Ans} {e' : Nat × History} (quiet : op.quiet = true)
    (replied : around.replies op m e r e') : e' = e := by
  obtain ⟨answered,noted⟩ := Machine.watched_answer_iff.mp replied
  have silent : monitor.reply op m e.1 r e.2 = e.2 := by
    unfold monitor
    dsimp only
    split
    · contradiction
    · contradiction
    · rfl
  exact Prod.ext (answer_clock answered) (noted.trans silent)

/-- What the passing of time does not spoil, plain calls do not either. -/
theorem steady_of {P : Memory → Nat × History → Prop}
    (later : ∀ m clock clock' history, clock ≤ clock' → P m (clock,history) → P m (clock',history))
    (kept : ∀ m e, P m e → Kept once m e.2) : Steady around (asked once) P where
  moves op m e e' moved before := by
    obtain ⟨clock,history⟩ := e
    obtain ⟨clock',history'⟩ := e'
    obtain ⟨passed,same⟩ := moves_later moved
    cases same
    exact later m clock clock' history passed before
  replies op m e r e' quiet replied before := by
    rw [replies_quiet quiet replied]
    exact before
  holds op m e _ before := kept m e before

theorem steady_sched : Steady around (asked once) fun m e => Sched once m e.2 :=
  steady_of (fun _ _ _ _ _ before => before) fun _ _ before => before.kept

theorem replies_now {t : Nat} {e' : Nat × History} (replied : around.replies .now m e t e') :
    t = e.1 ∧ e' = e := by
  obtain ⟨answered,-⟩ := Machine.watched_answer_iff.mp replied
  have same := replies_quiet rfl replied
  simp only [machine,answer,Option.ite_none_right_eq_some] at answered
  exact ⟨answered.1,same⟩

theorem sched_fresh (sched : Sched once m e.2) (unused : m.timers = none) (boot : Nat) :
    Sched once { m with timers := some ⟨boot,∅,[],∅⟩ } e.2 := by
  have empty := sched.unused unused
  refine ⟨?_,by simp,sched.fired,sched.distinct,sched.bootOnly⟩
  intro s there
  cases Option.some.inj there
  rw [empty]
  exact ⟨by simp,by simp,by simp,by simp [unfinished],by simp [lastFinish],by simp [lastFinish],trivial⟩

/-- The schedule exists from here on; the definitions stay as they are. -/
theorem wp_state (start : Sched once m e.2) : Timers.state.wp around (asked once)
    (fun s m' e => m'.timers = some s ∧ Sched once m' e.2 ∧ m'.timerDefs = m.timerDefs) m e := by
  apply wp_bind_read start.kept
  cases there : m.timers with
  | some s => exact ⟨there,start,rfl⟩
  | none =>
    refine wp_bind_steady (steady_memory_and steady_sched m) (plain_call rfl) ⟨start,rfl⟩ ?_
    intro boot m' e held
    obtain ⟨sched,rfl⟩ := held
    exact ⟨sched.kept,rfl,sched_fresh sched there boot,rfl⟩

/-- The timers found due are among those asked about, and ripe. -/
theorem wp_dueNames {s : Timers.State} {clock : Nat} (timers : List TimerDef)
    (listed : ∀ t ∈ timers, t ∈ m.timerDefs) (there : m.timers = some s)
    (start : Sched once m e.2) (late : clock ≤ e.1) :
    (Timers.dueNames s timers).wp around (asked once) (fun names m' e => m' = m ∧
      Sched once m' e.2 ∧ clock ≤ e.1 ∧ names.Sublist (timers.map TimerDef.name) ∧
      ∀ name ∈ names, Ripe m' e.1 name) m e := by
  induction timers generalizing clock e with
  | nil => exact ⟨rfl,start,late,.slnil,by simp⟩
  | cons t rest ih =>
    have listedRest : ∀ t ∈ rest, t ∈ m.timerDefs := fun t member => listed t (by simp [member])
    rw [Timers.dueNames]
    split
    · refine wp_mono (ih listedRest start late) ?_
      intro names m' e after
      obtain ⟨same,sched,late,sub,ripe⟩ := after
      exact ⟨same,sched,late,sub.cons _,ripe⟩
    · rename_i idle
      have steady : ∀ since, Steady around (asked once)
          fun m' e => Sched once m' e.2 ∧ m' = m ∧ since ≤ e.1 :=
        fun _ => steady_of
          (fun _ _ _ _ passed before => ⟨before.1,before.2.1,Nat.le_trans before.2.2 passed⟩)
          fun _ _ before => before.1.kept
      refine (wp_bind _ _ _ _ _).mpr (wp_bind_perform (steady clock) ⟨start,rfl,late⟩ ?_ ?_)
      · exact fun _ _ before => before.1.kept
      intro e now e' before replied
      obtain ⟨sched,-,late⟩ := before
      obtain ⟨rfl,rfl⟩ := replies_now replied
      refine wp_bind_steady (steady e'.1) (uses_each fun _ _ => plain_of_calm (checkInstant_calm _))
        ⟨sched,rfl,le_rfl⟩ ?_
      rintro _ m' e ⟨kept,rfl,passed⟩
      rw [wp_pure]
      refine wp_then (ih listedRest kept passed) ?_
      intro names m' e after
      obtain ⟨rfl,sched,later,sub,ripe⟩ := after
      refine ⟨rfl,sched,Nat.le_trans late later,?_⟩
      split
      · rename_i due
        refine ⟨sub.cons_cons _,?_⟩
        intro name member
        cases List.mem_cons.mp member with
        | inl same =>
          rw [same]
          have onTime := (dueAt_iff.mp due).later later
          exact ⟨s,t,there,listed t (by simp),rfl,by simpa using idle,onTime⟩
        | inr earlier => exact ripe name earlier
      · exact ⟨sub.cons _,ripe⟩

def Firing (once : String → Prop) (names : List String) (m : Memory) (e : Nat × History) : Prop :=
  Sched once m e.2 ∧ names.Nodup ∧ ∀ name ∈ names, Ripe m e.1 name

theorem steady_firing (names : List String) : Steady around (asked once) (Firing once names) := by
  apply steady_of
  · intro m clock clock' history later before
    exact ⟨before.1,before.2.1,fun name member => (before.2.2 name member).later later⟩
  · exact fun _ _ before => before.1.kept

theorem fired_noteStarted {t : TimerDef} {s : Timers.State} {clock : Nat} {history : History}
    (sched : Sched once m history) (there : m.timers = some s) (member : t ∈ m.timerDefs)
    (idle : t.name ∉ s.running) (due : OnTime s.boot clock t (s.lastFinished.lookup t.name))
    (name : String) (only : once name) :
    timesStarted name (.started t.name clock (some t) :: history) ≤ 1 := by
  rw [timesStarted]
  split
  · rename_i same
    subst same
    have agrees := sched.agrees s there
    have never : timesStarted t.name history = 0 := by
      by_contra before
      cases ran_before before with
      | inl running => exact idle ((agrees.unfinished t.name).mp running)
      | inr finished =>
        cases recorded : lastFinish t.name history with
        | none => exact finished recorded
        | some finish =>
          have onTime := onTime_of_due agrees due
          rw [recorded] at onTime
          obtain ⟨interval,active,-⟩ := onTime
          rw [sched.bootOnly t member only] at active
          contradiction
    omega
  · exact sched.fired name only

theorem sched_noteStarted {t : TimerDef} {s : Timers.State} {clock : Nat} {history : History}
    {pid : Int} (sched : Sched once m history) (there : m.timers = some s)
    (member : t ∈ m.timerDefs) (idle : t.name ∉ s.running)
    (due : OnTime s.boot clock t (s.lastFinished.lookup t.name))
    (fresh : s.pending.lookup pid = none) :
    Sched once { m with timers := some (Timers.noteStarted t.name pid s) }
      (.started t.name clock (some t) :: history) := by
  refine ⟨?_,by simp,?_,sched.distinct,sched.bootOnly⟩
  · intro s' there'
    cases Option.some.inj there'
    exact agrees_noteStarted (sched.agrees s there) idle due fresh
  · exact fired_noteStarted sched there member idle due

theorem ripe_noteStarted {s : Timers.State} {clock : Nat} {name other : String} {pid : Int}
    (there : m.timers = some s) (different : name ≠ other) (ripe : Ripe m clock name) :
    Ripe { m with timers := some (Timers.noteStarted other pid s) } clock name := by
  obtain ⟨s',t,there',member,named,idle,due⟩ := ripe
  rw [there] at there'
  cases there'
  refine ⟨_,t,rfl,member,named,?_,due⟩
  rw [Timers.noteStarted]
  dsimp only
  split
  · exact idle
  · simpa [idle] using different

/-- What the calls of a start amount to once the child is there. -/
theorem wp_noteStarted {names : List String} {t : TimerDef} {s : Timers.State} {clock : Nat}
    {history : History} {pid : Int} (firing : Firing once (t.name :: names) m (clock,history))
    (there : m.timers = some s) (member : t ∈ m.timerDefs) (idle : t.name ∉ s.running)
    (due : OnTime s.boot clock t (s.lastFinished.lookup t.name))
    (fresh : s.pending.lookup pid = none) :
    (do log (.timerStarted t.name pid); Timers.changeState (Timers.noteStarted t.name pid) :
      Code Unit).wp around (asked once) (fun _ => Firing once names) m
      (clock,.started t.name clock (some t) :: history) := by
  obtain ⟨sched,nodup,ripe⟩ := firing
  obtain ⟨absent,nodup⟩ := List.nodup_cons.mp nodup
  have after := sched_noteStarted sched there member idle due fresh
  have kept : Kept once m (.started t.name clock (some t) :: history) := by
    refine ⟨?_,?_,after.fired⟩
    · intro s' there'
      rw [there] at there'
      cases there'
      have orderly := (after.agrees _ rfl).orderly
      exact orderly
    · intro unused
      rw [there] at unused
      contradiction
  let P : Memory → Nat × History → Prop := fun m' e => m' = m ∧ clock ≤ e.1 ∧
    e.2 = .started t.name clock (some t) :: history
  have steady : Steady around (asked once) P := by
    apply steady_of
    · intro m' c c' h passed before
      exact ⟨before.1,Nat.le_trans before.2.1 passed,before.2.2⟩
    · intro m' e before
      rw [before.1,before.2.2]
      exact kept
  refine wp_bind_steady steady (plain_call rfl) ⟨rfl,le_rfl,rfl⟩ ?_
  intro _ m' e held
  obtain ⟨rfl,late,recorded⟩ := held
  refine ⟨by rw [asked,recorded]; exact kept,?_⟩
  change Firing once names { m' with timers := m'.timers.map (Timers.noteStarted t.name pid) } e
  rw [there,Option.map_some,Firing,recorded]
  refine ⟨after,nodup,?_⟩
  intro name member
  have different : name ≠ t.name := by
    intro same
    exact absent (same ▸ member)
  exact ripe_noteStarted there different ((ripe name (by simp [member])).later late)

theorem replies_spawn {name : String} {command : Command} {pid : Int} {e' : Nat × History}
    (replied : around.replies (.spawn (.timer name) command) m e (.ok pid) e') :
    (m.timers.bind fun s => s.pending.lookup pid) = none ∧ e'.1 = e.1 ∧
      e'.2 = .started name e.1 (inForce m name) :: e.2 := by
  obtain ⟨answered,noted⟩ := Machine.watched_answer_iff.mp replied
  have same : e'.1 = e.1 := answer_clock answered
  simp only [machine,answer,Option.ite_none_right_eq_some,Option.isNone_iff_eq_none] at answered
  exact ⟨answered.1,same,noted⟩

theorem replies_spawn_error {name : String} {command : Command} {err : String} {e' : Nat × History}
    (replied : around.replies (.spawn (.timer name) command) m e (.error err) e') : e' = e := by
  obtain ⟨answered,noted⟩ := Machine.watched_answer_iff.mp replied
  exact Prod.ext (answer_clock answered) noted

def Spawned (once : String → Prop) (name : String) (names : List String) :
    Except String Int → Memory → Nat × History → Prop
  | .ok pid, m, e => ∃ clock history t s, Firing once (name :: names) m (clock,history) ∧
      e = (clock,.started name clock (some t) :: history) ∧ t.name = name ∧
      m.timers = some s ∧ t ∈ m.timerDefs ∧ name ∉ s.running ∧
      OnTime s.boot clock t (s.lastFinished.lookup name) ∧ s.pending.lookup pid = none
  | .error _, m, e => Firing once names m e

theorem wp_fire {services : List ServiceDef} {name : String} {names : List String}
    (start : Firing once (name :: names) m e) :
    (Timers.fire services name).wp around (asked once) (fun _ => Firing once names) m e := by
  have fewer : ∀ m e, Firing once (name :: names) m e → Firing once names m e := by
    intro m e firing
    obtain ⟨sched,nodup,ripe⟩ := firing
    exact ⟨sched,(List.nodup_cons.mp nodup).2,fun n member => ripe n (by simp [member])⟩
  unfold Timers.fire
  split
  · refine wp_mono (wp_steady (steady_firing _) (plain_call rfl) start) ?_
    exact fun _ m e after => fewer m e after
  · rename_i d found
    have named : d.name = name := by simpa using List.find?_some found
    refine wp_then (R := Spawned once name names) ?_ ?_
    · have steady : Steady around (asked once) (Firing once (name :: names)) := steady_firing _
      refine wp_bind_steady steady (resolveWith_uses (fun _ => plain_call rfl) _) start ?_
      intro uid m e held
      refine wp_bind_steady steady (resolveWith_uses (fun _ => plain_call rfl) _) held ?_
      intro gid m e held
      refine wp_steady_perform steady held (fun _ _ firing => firing.1.kept) ?_
      intro e child e' firing replied
      rw [named] at replied
      cases child with
      | error err =>
        rw [replies_spawn_error replied]
        exact fewer m e firing
      | ok pid =>
        obtain ⟨fresh,same,noted⟩ := replies_spawn replied
        obtain ⟨s,t,there,member,rfl,idle,due⟩ := firing.2.2 name (by simp)
        rw [there,Option.bind_some] at fresh
        rw [inForce_of_mem firing.1.distinct member] at noted
        exact ⟨e.1,e.2,t,s,firing,Prod.ext same noted,rfl,there,member,idle,due,fresh⟩
    · intro child m e after
      cases child with
      | ok pid =>
        obtain ⟨clock,history,t,s,firing,rfl,rfl,there,member,idle,due,fresh⟩ := after
        exact wp_noteStarted firing there member idle due fresh
      | error err => exact wp_steady (steady_firing _) (plain_call rfl) after

theorem wp_tick (services : List ServiceDef) (start : Sched once m e.2) :
    (Timers.tick m.timerDefs services).wp around (asked once)
      (fun _ m e => Sched once m e.2) m e := by
  unfold Timers.tick
  split
  · exact start
  · refine wp_then (wp_state start) ?_
    intro s m' e state
    obtain ⟨there,sched,same⟩ := state
    have listed : ∀ t ∈ m.timerDefs, t ∈ m'.timerDefs := by
      intro t member
      rw [same]
      exact member
    refine wp_then (wp_dueNames m.timerDefs listed there sched le_rfl) ?_
    intro names m'' e after
    obtain ⟨rfl,sched,-,sub,ripe⟩ := after
    have nodup : names.Nodup := sub.nodup (same ▸ sched.distinct)
    refine wp_mono (wp_each (Firing once) ⟨sched,nodup,ripe⟩ ?_) ?_
    · exact fun name rest m e firing => wp_fire firing
    · exact fun _ m e firing => firing.1

theorem sched_noteFinished {s : Timers.State} {history : History} {name : String} {pid : Int}
    {finish last : Nat} (sched : Sched once m history) (there : m.timers = some s)
    (found : s.pending.lookup pid = some name) (later : finish ≤ last) :
    Sched once { m with timers := some (Timers.noteFinished name last
      { s with pending := s.pending.erase pid }) } (.finished name finish :: history) := by
  refine ⟨?_,by simp,sched.fired,sched.distinct,sched.bootOnly⟩
  intro s' there'
  cases Option.some.inj there'
  exact agrees_noteFinished (sched.agrees s there) found later

/-- What the calls of a reap amount to once the pid is known to be a timer's. -/
theorem wp_noteFinished {s : Timers.State} {name : String} {pid : Int} (sched : Sched once m e.2)
    (there : m.timers = some s) (found : s.pending.lookup pid = some name) :
    (do log (.timerFinished name pid)
        let finished ← now
        Timers.changeState (Timers.noteFinished name finished)
        pure true : Code Bool).wp around (asked once) (fun _ m e => Sched once m e.2)
      { m with timers := some { s with pending := s.pending.erase pid } } e := by
  let struck : Memory := { m with timers := some { s with pending := s.pending.erase pid } }
  have kept : Kept once struck e.2 := by
    refine ⟨?_,by simp [struck],sched.fired⟩
    intro s' there'
    cases Option.some.inj there'
    have orderly := (sched.agrees s there).orderly
    exact orderly
  have kept' : ∀ finish, Kept once struck (.finished name finish :: e.2) := by
    intro finish
    refine ⟨?_,by simp [struck],sched.fired⟩
    exact kept.orderly
  have steady : Steady around (asked once) fun m' e' => m' = struck ∧ e'.2 = e.2 := by
    apply steady_of
    · exact fun _ _ _ _ _ before => before
    · intro m' e' before
      rw [before.1,before.2]
      exact kept
  refine wp_bind_perform steady ⟨rfl,rfl⟩ ?_ ?_
  · intro m' e' before
    rw [asked,before.1,before.2]
    exact kept
  intro e₁ _ e₂ before replied
  obtain ⟨answered,noted⟩ := Machine.watched_answer_iff.mp replied
  have same : e₂.1 = e₁.1 := answer_clock answered
  have recorded : e₂.2 = .finished name e₁.1 :: e.2 := by
    rw [← before.2]
    exact noted
  let P : Memory → Nat × History → Prop := fun m' e' => m' = struck ∧
    e'.2 = .finished name e₁.1 :: e.2 ∧ e₁.1 ≤ e'.1
  have steady' : Steady around (asked once) P := by
    apply steady_of
    · exact fun _ _ _ _ passed held => ⟨held.1,held.2.1,Nat.le_trans held.2.2 passed⟩
    · intro m' e' held
      rw [held.1,held.2.1]
      exact kept' _
  refine wp_bind_perform steady' ⟨rfl,recorded,by omega⟩ ?_ ?_
  · intro m' e' held
    rw [asked,held.1,held.2.1]
    exact kept' _
  intro e₃ last e₄ held replied
  obtain ⟨rfl,rfl⟩ := replies_now replied
  refine ⟨?_,?_⟩
  · rw [asked,held.2.1]
    exact kept' _
  · have after := sched_noteFinished sched there found held.2.2
    change Sched once _ e₄.2
    rw [held.2.1]
    exact after

theorem wp_reap (pid : Int) (start : Sched once m e.2) :
    (Timers.reap pid).wp around (asked once) (fun _ m e => Sched once m e.2) m e := by
  refine wp_then (wp_state start) ?_
  intro s m e state
  obtain ⟨there,sched,-⟩ := state
  apply wp_bind_exchange sched.kept
  rw [there,Option.bind_some,Option.map_some]
  cases found : s.pending.lookup pid with
  | some name => exact wp_noteFinished sched there found
  | none =>
    refine ⟨?_,by simp,sched.fired,sched.distinct,sched.bootOnly⟩
    intro s' there'
    cases Option.some.inj there'
    exact agrees_erase (sched.agrees s there) found

def OnlyBoot (uses : List Use) (name : String) : Prop :=
  ∀ timerDefs distinct services, .adopt timerDefs distinct services ∈ uses →
    ∀ t ∈ timerDefs, t.name = name → t.onActive = none

theorem wp_use {use : Use} {uses : List Use} (listed : use ∈ uses)
    (start : Sched (OnlyBoot uses) m e.2) :
    use.code.wp around (asked (OnlyBoot uses)) (fun _ m e => Sched (OnlyBoot uses) m e.2) m e := by
  cases use with
  | adopt timerDefs distinct services =>
    refine ⟨start.kept,start.agrees,start.unused,start.fired,distinct,?_⟩
    exact fun t member only => only timerDefs distinct services listed t member rfl
  | tick => exact wp_bind_read start.kept (wp_tick _ start)
  | reap pid => exact wp_then (wp_reap pid start) fun _ _ _ after => after

theorem wp_uses (uses : List Use) (clock : Nat) :
    (each uses Use.code).wp around (asked (OnlyBoot uses)) (fun _ m e => Sched (OnlyBoot uses) m e.2)
      {} (clock,[]) := by
  have initial : Sched (OnlyBoot uses) {} [] :=
    ⟨by simp,fun _ => rfl,by simp [timesStarted],by simp,by simp [BootOnly]⟩
  have all : ∀ rest, (∀ use ∈ rest, use ∈ uses) → ∀ m e, Sched (OnlyBoot uses) m e.2 →
      (each rest Use.code).wp around (asked (OnlyBoot uses))
        (fun _ m e => Sched (OnlyBoot uses) m e.2) m e := by
    intro rest
    induction rest with
    | nil => exact fun _ m e sched => sched
    | cons use rest ih =>
      intro listed m e sched
      refine wp_then (wp_use (listed use (by simp)) sched) ?_
      exact fun _ m e after => ih (fun use member => listed use (by simp [member])) m e after
  exact all uses (fun _ member => member) _ _ initial

abbrev Moment := State Memory Op Op.Ans (Nat × History) PUnit

/-- At any moment of any run every start so far was on time and alone, and a timer that only ever
had `OnBootSec` was started at most once; between calls the timers running are those with a pid. -/
theorem timers_keep_time (uses : List Use) (clock : Nat) {t : Moment}
    (run : Reaches around ⟨each uses Use.code,{},(clock,[])⟩ t) :
    (∀ s, t.mem.timers = some s → Orderly s.boot t.env.2) ∧
    (∀ name, OnlyBoot uses name → timesStarted name t.env.2 ≤ 1) ∧
    (t.program.returned = true → ∀ s, t.mem.timers = some s →
      (∀ name, name ∈ s.running ↔ ∃ pid, s.pending.lookup pid = some name) ∧
      ∀ pid pid' name, s.pending.lookup pid = some name → s.pending.lookup pid' = some name →
        pid = pid') := by
  have safe := wp_uses uses clock
  have kept := wp_everywhere run safe fun _ _ _ sched => sched.kept
  refine ⟨kept.orderly,kept.fired,?_⟩
  intro returned s there
  obtain ⟨p,m,e⟩ := t
  cases p with
  | ret value =>
    have agrees := (wp_returns run safe).agrees s there
    exact ⟨agrees.running,agrees.single⟩
  | _ => contradiction

def backups : List Use :=
  [.adopt [⟨"backup",some 5,none⟩] (by decide) [{ name := "backup" }],.tick,.reap 100,.tick]

def backupRun : Option Moment :=
  drive (machine.watched monitor)
    (fun op m e => Kernel.obliging (fun _ => true) Config.default op m { clock := e.1 })
    [.upTo (fun op => op == .now) 20,.step,.upTo (fun op => op == .now) 20,.stir 5,
      .upTo (fun _ => false) 200]
    ⟨each backups Use.code,{},(0,[])⟩

theorem timers_keep_time_backup : ∃ t : Moment, t.program.returned = true ∧
    timesStarted "backup" t.env.2 = 1 ∧ lastFinish "backup" t.env.2 = some 5 ∧
    (∀ s, t.mem.timers = some s → Orderly s.boot t.env.2) ∧
    ∀ name, OnlyBoot backups name → timesStarted name t.env.2 ≤ 1 := by
  have went : backupRun.any (fun t => t.program.returned && timesStarted "backup" t.env.2 == 1 &&
      lastFinish "backup" t.env.2 == some 5) = true := by
    decide +kernel
  obtain ⟨t,ran,held⟩ := (Option.any_eq_true _ _).mp went
  simp only [Bool.and_eq_true,beq_iff_eq] at held
  have kept := timers_keep_time backups 0 (drive_reaches ran)
  exact ⟨t,held.1.1,held.1.2,held.2,kept.1,kept.2.1⟩

end Runs
end MitosServices.Schedule
