import MitosServices.Schedule
import MitosServices.Units

/-! The attempts of the timers over runs of ticks and reaps. An attempt that does not start a run
leaves the schedule as it was, so the next tick with that timer makes another. -/
namespace MitosServices.Attempts
open Interaction Interaction.Program
open Schedule (OnTime dueAt_iff)

/-- A call on the timers. What `Timers.loadAll` reads of a directory names no timer twice. -/
inductive Use
  | tick (timers : List TimerDef) (distinct : (timers.map TimerDef.name).Nodup)
      (services : List ServiceDef)
  | reap (pid : Int)

def Use.code : Use → Code Unit
  | .tick timers _ services => Timers.tick timers services
  | .reap pid => do
    let _ ← Timers.reap pid
    pure ()

section History

inductive Result
  | started
  | failed
  | unmatched
deriving DecidableEq, Repr

/-- `definition` is the one the tick was called with. -/
structure Attempt where
  name : String
  time : Nat
  definition : Option TimerDef
  result : Result
deriving DecidableEq, Repr

def Attempt.vain (a : Attempt) : Bool := a.result != .started

/-- A tick has been called with these timers, or it has made an attempt. -/
inductive Happening
  | asked (timers : List TimerDef)
  | attempted (attempt : Attempt)
deriving DecidableEq, Repr

abbrev History := List Happening

def inForce (name : String) : History → Option TimerDef
  | [] => none
  | .asked timers :: _ => timers.find? fun t => t.name == name
  | .attempted _ :: rest => inForce name rest

def lastAttempt (name : String) : History → Option Attempt
  | [] => none
  | .asked _ :: rest => lastAttempt name rest
  | .attempted a :: rest => if a.name = name then some a else lastAttempt name rest

def timesAttempted (name : String) : History → Nat
  | [] => 0
  | .asked _ :: rest => timesAttempted name rest
  | .attempted a :: rest => timesAttempted name rest + if a.name = name then 1 else 0

def thisTick : History → List Attempt
  | .attempted a :: rest => a :: thisTick rest
  | _ => []

def previousTick : History → List Attempt
  | [] => []
  | .asked _ :: rest => thisTick rest
  | .attempted _ :: rest => previousTick rest

def OnlyBoot (name : String) (history : History) : Prop :=
  ∀ a t, .attempted a ∈ history → a.name = name → a.definition = some t → t.onActive = none

/-- Every attempt is of a timer the tick was called with, the interval of which has passed since the
attempt before. -/
def Spaced : History → Prop
  | [] => True
  | .asked _ :: rest => Spaced rest
  | .attempted a :: rest => (∃ t, a.definition = some t ∧ t.name = a.name ∧
      ∀ b interval, lastAttempt a.name rest = some b → t.onActive = some interval →
        b.time + interval ≤ a.time) ∧ Spaced rest

/-- No attempt in vain is followed by one in the next tick. -/
def Unretried : History → Prop
  | [] => True
  | .asked _ :: rest => Unretried rest
  | .attempted a :: rest => (∀ b ∈ previousTick rest, b.name = a.name → b.vain = false) ∧ Unretried rest

structure Paced (history : History) : Prop where
  once : ∀ name, OnlyBoot name history → timesAttempted name history ≤ 1
  spaced : Spaced history
  unretried : Unretried history

/-- No tick was called with a timer the latest attempt of which was in vain. -/
def NoneInVain : History → Prop
  | [] => True
  | .asked timers :: rest =>
    (∀ t ∈ timers, ∀ a, lastAttempt t.name rest = some a → a.vain = false) ∧ NoneInVain rest
  | .attempted _ :: rest => NoneInVain rest

end History

section Surroundings

def answer : (op : Op) → Memory → Nat → op.Ans → Option Nat
  | .now, _, clock, t => if t = clock then some clock else none
  | .panic, _, _, _ => none
  | _, _, clock, _ => some clock

def machine : Machine Memory Op Op.Ans Nat Nat where
  stir elapsed _ _ clock := some (clock + elapsed)
  answer := answer

def record (name : String) (clock : Nat) (result : Result) (history : History) : History :=
  .attempted ⟨name,clock,inForce name history,result⟩ :: history

def monitor : Monitor Memory Op Op.Ans Nat Nat History where
  event _ _ _ _ history := history
  reply op _ clock r history := match op, r with
    | .spawn (.timer name) _, .ok _ => record name clock .started history
    | .spawn (.timer name) _, .error _ => record name clock .failed history
    | .log (.timerUnmatched name), _ => record name clock .unmatched history
    | _, _ => history

abbrev around : Surroundings Memory Op Op.Ans (Nat × History) := (machine.watched monitor).surroundings

def Use.begins : Use → Nat × History → Nat × History
  | .tick timers _ _, e => (e.1,.asked timers :: e.2)
  | .reap _, e => e

/-- Between two calls of a run of ticks and reaps, in any order and with any arguments. -/
inductive Run : Memory → Nat × History → Prop
  | start (clock : Nat) : Run {} (clock,[])
  | use {m m' : Memory} {e e' : Nat × History} (use : Use) (before : Run m e)
      (ran : Reaches around ⟨use.code,m,use.begins e⟩ ⟨.ret (),m',e'⟩) : Run m' e'

end Surroundings

section Records
variable {name : String} {history base : History} {a : Attempt} {timers : List TimerDef}

theorem lastAttempt_attempted {b : Attempt} (last : lastAttempt name (.attempted a :: history) = some b) :
    a.name = name ∧ b = a ∨ a.name ≠ name ∧ lastAttempt name history = some b := by
  rw [lastAttempt] at last
  split at last
  · rename_i same
    exact .inl ⟨same,(Option.some.inj last).symm⟩
  · rename_i other
    exact .inr ⟨other,last⟩

theorem lastAttempt_name (last : lastAttempt name history = some a) : a.name = name := by
  induction history with
  | nil => contradiction
  | cons happening rest ih =>
    cases happening with
    | asked timers => exact ih last
    | attempted b =>
      rcases lastAttempt_attempted last with ⟨same,rfl⟩ | ⟨-,earlier⟩
      · exact same
      · exact ih earlier

theorem never_attempted (never : lastAttempt name history = none) : timesAttempted name history = 0 := by
  induction history with
  | nil => rfl
  | cons happening rest ih =>
    cases happening with
    | asked timers => exact ih never
    | attempted b =>
      rw [lastAttempt] at never
      split at never
      · contradiction
      · rename_i other
        rw [timesAttempted,if_neg other,ih never]

/-- Every attempt that follows another does so after its interval, and that one was not in vain. -/
def Measured : History → Prop
  | [] => True
  | .asked _ :: rest => Measured rest
  | .attempted a :: rest => (∃ t, a.definition = some t ∧ t.name = a.name ∧
      ∀ b, lastAttempt a.name rest = some b → b.vain = false ∧
        ∃ interval, t.onActive = some interval ∧ b.time + interval ≤ a.time) ∧ Measured rest

theorem spaced_of_measured (measured : Measured history) : Spaced history := by
  induction history with
  | nil => trivial
  | cons happening rest ih =>
    cases happening with
    | asked timers => exact ih measured
    | attempted a =>
      obtain ⟨⟨t,definition,named,earlier⟩,before⟩ := measured
      refine ⟨⟨t,definition,named,?_⟩,ih before⟩
      intro b interval last active
      obtain ⟨-,i,active',late⟩ := earlier b last
      rw [active] at active'
      cases Option.some.inj active'
      exact late

/-- Only the latest attempt can have been in vain. -/
theorem fruitful_of_measured (measured : Measured history)
    (latest : ∀ b, lastAttempt name history = some b → b.vain = false) (member : .attempted a ∈ history)
    (named : a.name = name) : a.vain = false := by
  induction history with
  | nil => contradiction
  | cons happening rest ih =>
    cases happening with
    | asked timers =>
      have earlier : .attempted a ∈ rest := by simpa using member
      exact ih measured latest earlier
    | attempted c =>
      obtain ⟨⟨t,-,-,before⟩,measured⟩ := measured
      by_cases same : c.name = name
      · cases List.mem_cons.mp member with
        | inl here =>
          cases Happening.attempted.inj here
          exact latest a (by rw [lastAttempt,if_pos same])
        | inr earlier => exact ih measured (fun b last => (before b (same ▸ last)).1) earlier
      · have earlier : .attempted a ∈ rest := by
          cases List.mem_cons.mp member with
          | inl here =>
            cases Happening.attempted.inj here
            exact absurd named same
          | inr earlier => exact earlier
        refine ih measured (fun b last => latest b ?_) earlier
        rw [lastAttempt,if_neg same]
        exact last

theorem mem_of_thisTick (member : a ∈ thisTick history) : .attempted a ∈ history := by
  induction history with
  | nil => contradiction
  | cons happening rest ih =>
    cases happening with
    | asked timers => contradiction
    | attempted b =>
      cases List.mem_cons.mp member with
      | inl same => simp [same]
      | inr earlier => exact List.mem_cons_of_mem _ (ih earlier)

theorem mem_of_previousTick (member : a ∈ previousTick history) : .attempted a ∈ history := by
  induction history with
  | nil => contradiction
  | cons happening rest ih =>
    cases happening with
    | asked timers => exact List.mem_cons_of_mem _ (mem_of_thisTick member)
    | attempted b => exact List.mem_cons_of_mem _ (ih member)

theorem unretried_of_measured (measured : Measured history) : Unretried history := by
  induction history with
  | nil => trivial
  | cons happening rest ih =>
    cases happening with
    | asked timers => exact ih measured
    | attempted a =>
      obtain ⟨⟨t,-,-,before⟩,measured⟩ := measured
      refine ⟨?_,ih measured⟩
      intro b member named
      exact fruitful_of_measured measured (fun c last => (before c last).1) (mem_of_previousTick member) named

theorem once_of_measured (measured : Measured history) (only : OnlyBoot name history) :
    timesAttempted name history ≤ 1 := by
  induction history with
  | nil => exact Nat.zero_le 1
  | cons happening rest ih =>
    have onlyRest : OnlyBoot name rest := fun a t member => only a t (List.mem_cons_of_mem _ member)
    cases happening with
    | asked timers => exact ih measured onlyRest
    | attempted a =>
      obtain ⟨⟨t,definition,-,before⟩,measured⟩ := measured
      rw [timesAttempted]
      split
      · rename_i same
        have first : lastAttempt name rest = none := by
          cases last : lastAttempt name rest with
          | none => rfl
          | some b =>
            obtain ⟨-,interval,active,-⟩ := before b (same ▸ last)
            rw [only a t List.mem_cons_self same definition] at active
            contradiction
        rw [never_attempted first]
      · exact ih measured onlyRest

theorem paced_of_measured (measured : Measured history) : Paced history where
  once _ only := once_of_measured measured only
  spaced := spaced_of_measured measured
  unretried := unretried_of_measured measured

section Tick
variable {attempts : List Attempt}

def during (attempts : List Attempt) (timers : List TimerDef) (base : History) : History :=
  attempts.map .attempted ++ .asked timers :: base

theorem inForce_during (name : String) :
    inForce name (during attempts timers base) = timers.find? fun t => t.name == name := by
  induction attempts with
  | nil => rfl
  | cons a rest ih => exact ih

theorem noneInVain_during : NoneInVain (during attempts timers base) ↔ NoneInVain (.asked timers :: base) := by
  induction attempts with
  | nil => rfl
  | cons a rest ih => exact ih

theorem lastAttempt_during (untried : name ∉ attempts.map Attempt.name) :
    lastAttempt name (during attempts timers base) = lastAttempt name base := by
  induction attempts with
  | nil => rfl
  | cons a rest ih =>
    rw [List.map_cons,List.mem_cons,not_or] at untried
    change lastAttempt name (.attempted a :: during rest timers base) = _
    rw [lastAttempt,if_neg (Ne.symm untried.1)]
    exact ih untried.2

theorem previousTick_during : previousTick (during attempts timers base) = thisTick base := by
  induction attempts with
  | nil => rfl
  | cons a rest ih => exact ih

/-- No timer tried in vain by one tick is tried by the next. -/
theorem fruitful_of_unretried (unretried : Unretried (during attempts timers base))
    (tried : name ∈ attempts.map Attempt.name) {b : Attempt} (member : b ∈ thisTick base)
    (named : b.name = name) : b.vain = false := by
  induction attempts with
  | nil => contradiction
  | cons a rest ih =>
    obtain ⟨here,before⟩ := unretried
    cases List.mem_cons.mp tried with
    | inl same =>
      refine here b ?_ (named.trans same)
      change b ∈ previousTick (during rest timers base)
      rw [previousTick_during]
      exact member
    | inr earlier => exact ih before earlier

theorem unretried_base (unretried : Unretried (during attempts timers base)) : Unretried base := by
  induction attempts with
  | nil => exact unretried
  | cons a rest ih => exact ih unretried.2

end Tick

def OneList (timers : List TimerDef) (history : History) : Prop :=
  ∀ asked, .asked asked ∈ history → asked = timers

/-- With one list for all ticks, a listed timer's attempt in vain was made by the last of them. -/
theorem mem_thisTick {t : TimerDef} (noneInVain : NoneInVain history) (one : OneList timers history)
    (member : t ∈ timers) (last : lastAttempt t.name history = some a) (vain : a.vain = true) :
    a ∈ thisTick history := by
  induction history with
  | nil => contradiction
  | cons happening rest ih =>
    have oneRest : OneList timers rest := fun asked there => one asked (List.mem_cons_of_mem _ there)
    cases happening with
    | asked asked =>
      rw [one asked List.mem_cons_self] at noneInVain
      rw [noneInVain.1 t member a last] at vain
      contradiction
    | attempted b =>
      rcases lastAttempt_attempted last with ⟨-,rfl⟩ | ⟨-,earlier⟩
      · exact List.mem_cons_self
      · exact List.mem_cons_of_mem _ (ih noneInVain oneRest earlier)

end Records

section Invariant
variable {s : Timers.State} {clock : Nat} {history : History} {name : String} {pid : Int}

def Due (s : Timers.State) (clock : Nat) (history : History) (name : String) : Prop :=
  ∃ timers t, .asked timers ∈ history ∧ t ∈ timers ∧ t.name = name ∧
    OnTime s.boot clock t (s.lastFinished.lookup name)

theorem Due.longer {happening : Happening} (due : Due s clock history name) :
    Due s clock (happening :: history) name := by
  obtain ⟨timers,t,asked,rest⟩ := due
  exact ⟨timers,t,List.mem_cons_of_mem _ asked,rest⟩

/-- What the schedule knows of the latest attempts: of a start the run or its finish, of an attempt in
vain nothing. -/
structure Kept (s : Timers.State) (clock : Nat) (history : History) : Prop where
  pending : ∀ pid name, s.pending.lookup pid = some name → name ∈ s.running
  single : ∀ pid pid' name, s.pending.lookup pid = some name → s.pending.lookup pid' = some name →
    pid = pid'
  nodup : s.running.Nodup
  past : ∀ name a, lastAttempt name history = some a → a.time ≤ clock
  started : ∀ name a, lastAttempt name history = some a → a.vain = false →
    name ∈ s.running ∨ ∃ last, s.lastFinished.lookup name = some last ∧ a.time ≤ last
  vain : ∀ name a, lastAttempt name history = some a → a.vain = true →
    name ∉ s.running ∧ Due s clock history name

theorem Kept.later {clock' : Nat} (later : clock ≤ clock') (kept : Kept s clock history) :
    Kept s clock' history where
  pending := kept.pending
  single := kept.single
  nodup := kept.nodup
  past name a last := Nat.le_trans (kept.past name a last) later
  started := kept.started
  vain name a last vain := by
    obtain ⟨idle,timers,t,asked,member,named,due⟩ := kept.vain name a last vain
    exact ⟨idle,timers,t,asked,member,named,due.later later⟩

theorem kept_asked (timers : List TimerDef) (kept : Kept s clock history) :
    Kept s clock (.asked timers :: history) where
  pending := kept.pending
  single := kept.single
  nodup := kept.nodup
  past := kept.past
  started := kept.started
  vain name a last vain := by
    obtain ⟨idle,due⟩ := kept.vain name a last vain
    exact ⟨idle,due.longer⟩

/-- An attempt in vain leaves the timer idle and due. -/
theorem kept_vain {a : Attempt} (kept : Kept s clock history) (vain : a.vain = true) (time : a.time = clock)
    (idle : a.name ∉ s.running) (due : Due s clock history a.name) :
    Kept s clock (.attempted a :: history) where
  pending := kept.pending
  single := kept.single
  nodup := kept.nodup
  past name b last := by
    rcases lastAttempt_attempted last with ⟨-,rfl⟩ | ⟨-,earlier⟩
    · exact Nat.le_of_eq time
    · exact kept.past name b earlier
  started name b last fruitful := by
    rcases lastAttempt_attempted last with ⟨-,rfl⟩ | ⟨-,earlier⟩
    · rw [vain] at fruitful
      contradiction
    · exact kept.started name b earlier fruitful
  vain name b last vain := by
    rcases lastAttempt_attempted last with ⟨rfl,rfl⟩ | ⟨-,earlier⟩
    · exact ⟨idle,due.longer⟩
    · obtain ⟨idle,due⟩ := kept.vain name b earlier vain
      exact ⟨idle,due.longer⟩

/-- A start is recorded in the schedule. -/
theorem kept_noteStarted {a : Attempt} (kept : Kept s clock history) (started : a.vain = false)
    (past : a.time ≤ clock) (idle : a.name ∉ s.running) :
    Kept (Timers.noteStarted a.name pid s) clock (.attempted a :: history) := by
  have running : (Timers.noteStarted a.name pid s).running = s.running ++ [a.name] := by
    rw [Timers.noteStarted,if_neg (by simpa using idle)]
  have pending : (Timers.noteStarted a.name pid s).pending = s.pending.insert pid a.name := rfl
  have unlisted : ∀ p, s.pending.lookup p ≠ some a.name := fun p there => idle (kept.pending p _ there)
  constructor
  · intro p name there
    rw [pending] at there
    rw [running,List.mem_append,List.mem_singleton]
    rcases lookup_insert_iff.mp there with ⟨-,rfl⟩ | ⟨-,before⟩
    · exact .inr rfl
    · exact .inl (kept.pending p name before)
  · intro p p' name there there'
    rw [pending] at there there'
    rcases lookup_insert_iff.mp there with ⟨same,rfl⟩ | ⟨-,before⟩
    · rcases lookup_insert_iff.mp there' with ⟨same',-⟩ | ⟨-,before'⟩
      · rw [same,same']
      · exact absurd before' (unlisted p')
    · rcases lookup_insert_iff.mp there' with ⟨-,rfl⟩ | ⟨-,before'⟩
      · exact absurd before (unlisted p)
      · exact kept.single p p' name before before'
  · rw [running]
    refine List.nodup_append.mpr ⟨kept.nodup,List.nodup_singleton _,?_⟩
    intro name member other single
    rw [List.mem_singleton.mp single]
    intro same
    exact idle (same ▸ member)
  · intro name b last
    rcases lastAttempt_attempted last with ⟨-,rfl⟩ | ⟨-,earlier⟩
    · exact past
    · exact kept.past name b earlier
  · intro name b last fruitful
    rw [running,List.mem_append,List.mem_singleton]
    rcases lastAttempt_attempted last with ⟨rfl,-⟩ | ⟨-,earlier⟩
    · exact .inl (.inr rfl)
    · rcases kept.started name b earlier fruitful with before | finished
      · exact .inl (.inl before)
      · exact .inr finished
  · intro name b last vain
    rcases lastAttempt_attempted last with ⟨-,rfl⟩ | ⟨other,earlier⟩
    · rw [started] at vain
      contradiction
    · obtain ⟨idle,due⟩ := kept.vain name b earlier vain
      rw [running,List.mem_append,List.mem_singleton,not_or]
      exact ⟨⟨idle,Ne.symm other⟩,due.longer⟩

/-- A finish is recorded in the schedule. -/
theorem kept_noteFinished (kept : Kept s clock history) (there : s.pending.lookup pid = some name) :
    Kept (Timers.noteFinished name clock { s with pending := s.pending.erase pid }) clock history := by
  have erased : ∀ n, n ∈ s.running.erase name ↔ n ≠ name ∧ n ∈ s.running := fun n =>
    kept.nodup.mem_erase_iff
  constructor
  · intro p n left
    obtain ⟨otherPid,before⟩ := lookup_erase_iff.mp left
    have other : n ≠ name := by
      intro same
      rw [same] at before
      exact otherPid (kept.single p pid name before there)
    exact (erased n).mpr ⟨other,kept.pending p n before⟩
  · intro p p' n before before'
    exact kept.single p p' n (lookup_erase_iff.mp before).2 (lookup_erase_iff.mp before').2
  · exact kept.nodup.erase name
  · exact kept.past
  · intro n a last fruitful
    by_cases same : n = name
    · subst same
      exact .inr ⟨clock,AList.lookup_insert _,kept.past n a last⟩
    · rcases kept.started n a last fruitful with running | ⟨finish,found,late⟩
      · exact .inl ((erased n).mpr ⟨same,running⟩)
      · exact .inr ⟨finish,(AList.lookup_insert_ne same).trans found,late⟩
  · intro n a last vain
    obtain ⟨idle,timers,t,asked,member,named,due⟩ := kept.vain n a last vain
    have other : n ≠ name := by
      rintro rfl
      exact idle (kept.pending pid n there)
    have unfinished : (Timers.noteFinished name clock { s with pending := s.pending.erase pid }).lastFinished.lookup n =
        s.lastFinished.lookup n := AList.lookup_insert_ne other
    refine ⟨fun running => idle ((erased n).mp running).2,timers,t,asked,member,named,?_⟩
    rw [unfinished]
    exact due

structure Sched (m : Memory) (e : Nat × History) : Prop where
  kept : ∀ s, m.timers = some s → Kept s e.1 e.2
  unused : m.timers = none → ∀ name, lastAttempt name e.2 = none
  measured : NoneInVain e.2 → Measured e.2

theorem Sched.later {m : Memory} {clock' : Nat} (later : clock ≤ clock') (sched : Sched m (clock,history)) :
    Sched m (clock',history) where
  kept s there := (sched.kept s there).later later
  unused := sched.unused
  measured := sched.measured

theorem sched_begins {m : Memory} {e : Nat × History} (use : Use) (sched : Sched m e) :
    Sched m (use.begins e) := by
  cases use with
  | tick timers distinct services =>
    exact ⟨fun s there => kept_asked timers (sched.kept s there),sched.unused,fun none => sched.measured none.2⟩
  | reap pid => exact sched

end Invariant

section Calls
variable {m : Memory} {e e' : Nat × History} {op : Op} {pid : Int} {s : Timers.State}

abbrev asked : Option Op → Memory → Nat × History → Prop := fun _ _ e => NoneInVain e.2 → Measured e.2

def noticed : Op → Bool
  | .spawn (.timer _) _ | .log (.timerUnmatched _) => true
  | _ => false

theorem moves_later (moved : around.moves op m e e') : e.1 ≤ e'.1 ∧ e'.2 = e.2 :=
  Schedule.ticks_later (fun _ _ _ _ => rfl) (fun _ _ _ _ _ => rfl) moved

theorem answer_clock {clock clock' : Nat} {r : op.Ans} (answered : machine.answer op m clock r = some clock') :
    clock' = clock := by
  change answer op m clock r = some clock' at answered
  unfold answer at answered
  split at answered
  · simp only [Option.ite_none_right_eq_some,Option.some.injEq] at answered
    exact answered.2.symm
  · contradiction
  · exact (Option.some.inj answered).symm

theorem replies_unnoticed {r : op.Ans} (unnoticed : noticed op = false)
    (replied : around.replies op m e r e') : e' = e := by
  obtain ⟨answered,noted⟩ := Machine.watched_answer_iff.mp replied
  have silent : monitor.reply op m e.1 r e.2 = e.2 := by
    unfold monitor
    dsimp only
    split
    · contradiction
    · contradiction
    · contradiction
    · rfl
  exact Prod.ext (answer_clock answered) (noted.trans silent)

theorem replies_now {t : Nat} (replied : around.replies .now m e t e') : t = e.1 ∧ e' = e := by
  obtain ⟨answered,-⟩ := Machine.watched_answer_iff.mp replied
  simp only [machine,answer,Option.ite_none_right_eq_some] at answered
  exact ⟨answered.1,replies_unnoticed rfl replied⟩

abbrev Heedless (P : Memory → Nat × History → Prop) : Prop :=
  around.Steady asked (fun op => noticed op = false) (fun _ => True) P

theorem heedless_of {P : Memory → Nat × History → Prop}
    (later : ∀ m clock clock' history, clock ≤ clock' → P m (clock,history) → P m (clock',history))
    (measured : ∀ m e, P m e → NoneInVain e.2 → Measured e.2) : Heedless P where
  moves op m e e' moved before := by
    obtain ⟨clock,history⟩ := e
    obtain ⟨clock',history'⟩ := e'
    obtain ⟨passed,same⟩ := moves_later moved
    cases same
    exact later m clock clock' history passed before
  replies op m e r e' unnoticed replied before := by
    rw [replies_unnoticed unnoticed replied]
    exact before
  holds op m e _ before := measured m e before

theorem Heedless.measured {P : Memory → Nat × History → Prop} (heedless : Heedless P) (m : Memory)
    (e : Nat × History) (held : P m e) : asked (some op) m e :=
  heedless.holds _ m e (fun _ _ => trivial) held

theorem unnoticed_call (unnoticed : noticed op = false) :
    (call op).Uses Eq fun op => noticed op = false ∧ True :=
  uses_perform ⟨unnoticed,trivial⟩

theorem sched_fresh (sched : Sched m e) (unused : m.timers = none) (boot : Nat) :
    Sched { m with timers := some ⟨boot,∅,[],∅⟩ } e := by
  have never := sched.unused unused
  refine ⟨?_,by simp,sched.measured⟩
  intro s there
  cases Option.some.inj there
  exact ⟨by simp,by simp,by simp,by simp [never],by simp [never],by simp [never]⟩

/-- The schedule exists from here on. -/
theorem wp_state (start : Sched m e) : Timers.state.wp around asked
    (fun s m' e' => m'.timers = some s ∧ Sched m' e' ∧ e'.2 = e.2) m e := by
  apply wp_bind_read start.measured
  cases there : m.timers with
  | some s => exact ⟨there,start,rfl⟩
  | none =>
    have heedless : Heedless fun m' e' => Sched m' e' ∧ m' = m ∧ e'.2 = e.2 :=
      heedless_of (fun _ _ _ _ later held => ⟨held.1.later later,held.2⟩) fun _ _ held => held.1.measured
    refine wp_bind_steady heedless (unnoticed_call rfl) ⟨start,rfl,rfl⟩ ?_
    intro boot m' e' held
    obtain ⟨sched,rfl,same⟩ := held
    exact ⟨sched.measured,rfl,sched_fresh sched there boot,same⟩

/-- The timers found due are idle and on time, and those that were before are among them. -/
theorem wp_dueNames {clock : Nat} {history : History} (timers : List TimerDef)
    (measured : NoneInVain history → Measured history) (late : clock ≤ e.1) (same : e.2 = history) :
    (Timers.dueNames s timers).wp around asked (fun names m' e' => m' = m ∧ e'.2 = history ∧
      clock ≤ e'.1 ∧ names.Sublist (timers.map TimerDef.name) ∧
      (∀ name ∈ names, ∃ t ∈ timers, t.name = name ∧ name ∉ s.running ∧
        OnTime s.boot e'.1 t (s.lastFinished.lookup name)) ∧
      ∀ t ∈ timers, t.name ∉ s.running → OnTime s.boot clock t (s.lastFinished.lookup t.name) →
        t.name ∈ names) m e := by
  induction timers generalizing clock e with
  | nil => exact ⟨rfl,same,late,.slnil,by simp,by simp⟩
  | cons t rest ih =>
    rw [Timers.dueNames]
    split
    · rename_i running
      refine wp_mono (ih late same) ?_
      intro names m' e' after
      obtain ⟨rfl,same,late,sub,ripe,all⟩ := after
      refine ⟨rfl,same,late,sub.cons _,?_,?_⟩
      · intro name member
        obtain ⟨t,there,due⟩ := ripe name member
        exact ⟨t,List.mem_cons_of_mem _ there,due⟩
      · intro t' member idle due
        cases List.mem_cons.mp member with
        | inl here =>
          rw [here] at idle
          exact absurd (by simpa using running) idle
        | inr later => exact all t' later idle due
    · rename_i idle
      have heedless : ∀ since, Heedless fun m' e' => m' = m ∧ e'.2 = history ∧ since ≤ e'.1 := fun _ =>
        heedless_of (fun _ _ _ _ later held => ⟨held.1,held.2.1,Nat.le_trans held.2.2 later⟩)
          fun _ _ held => held.2.1 ▸ measured
      refine (wp_bind _ _ _ _ _).mpr (wp_bind_perform (heedless clock) ⟨rfl,same,late⟩ ?_ ?_)
      · intro m e held
        rw [asked,held.2.1]
        exact measured
      intro e now e' held replied
      obtain ⟨-,same,late⟩ := held
      obtain ⟨rfl,rfl⟩ := replies_now replied
      refine wp_bind_steady (heedless e'.1) ?_ ⟨rfl,same,le_rfl⟩ ?_
      · exact uses_each fun _ _ => uses_provided (unnoticed_call rfl)
      intro _ m' e held
      obtain ⟨rfl,same,passed⟩ := held
      rw [wp_pure]
      refine wp_then (ih passed same) ?_
      intro names m' e after
      obtain ⟨rfl,same,later,sub,ripe,all⟩ := after
      have ripe' : ∀ name ∈ names, ∃ t' ∈ t :: rest, t'.name = name ∧ name ∉ s.running ∧
          OnTime s.boot e.1 t' (s.lastFinished.lookup name) := by
        intro name member
        obtain ⟨t',there,due⟩ := ripe name member
        exact ⟨t',List.mem_cons_of_mem _ there,due⟩
      refine ⟨rfl,same,Nat.le_trans late later,?_⟩
      split
      · rename_i due
        refine ⟨sub.cons_cons _,?_,?_⟩
        · intro name member
          cases List.mem_cons.mp member with
          | inl here =>
            rw [here]
            exact ⟨t,List.mem_cons_self,rfl,by simpa using idle,(dueAt_iff.mp due).later later⟩
          | inr there => exact ripe' name there
        · intro t' member idle due
          cases List.mem_cons.mp member with
          | inl here => exact here ▸ List.mem_cons_self
          | inr there => exact List.mem_cons_of_mem _ (all t' there idle (due.later late))
      · rename_i early
        refine ⟨sub.cons _,ripe',?_⟩
        intro t' member idle due
        cases List.mem_cons.mp member with
        | inl here =>
          rw [here] at due
          exact absurd (dueAt_iff.mpr (due.later late)) early
        | inr there => exact all t' there idle (due.later late)

end Calls

section Tick
variable {m : Memory} {e e' : Nat × History} {timers : List TimerDef} {base : History} {name : String}
  {names rest : List String}

/-- Within a tick: `names` were found due, and all but the `rest` have been attempted, once each. -/
structure Firing (timers : List TimerDef) (base : History) (names rest : List String) (m : Memory)
    (e : Nat × History) : Prop where
  sched : Sched m e
  during : ∃ attempts, e.2 = during attempts timers base ∧
    names = (attempts.map Attempt.name).reverse ++ rest
  ripe : ∀ name ∈ rest, ∃ s t, m.timers = some s ∧ t ∈ timers ∧ t.name = name ∧ name ∉ s.running ∧
    OnTime s.boot e.1 t (s.lastFinished.lookup name)

theorem heedless_firing : Heedless (Firing timers base names rest) := by
  refine heedless_of ?_ fun _ _ firing => firing.sched.measured
  intro m clock clock' history later firing
  refine ⟨firing.sched.later later,firing.during,?_⟩
  intro name member
  obtain ⟨s,t,there,listed,named,idle,due⟩ := firing.ripe name member
  exact ⟨s,t,there,listed,named,idle,due.later later⟩

theorem asked_during (firing : Firing timers base names rest m e) : .asked timers ∈ e.2 := by
  obtain ⟨attempts,same,-⟩ := firing.during
  rw [same,during]
  simp

/-- An attempt of the next timer is on time if the tick was called with none tried in vain. -/
theorem measured_attempt (result : Result) (nodup : names.Nodup) (distinct : (timers.map TimerDef.name).Nodup)
    (firing : Firing timers base names (name :: rest) m e) :
    NoneInVain (record name e.1 result e.2) → Measured (record name e.1 result e.2) := by
  intro noneInVain
  obtain ⟨s,t,there,listed,rfl,idle,due⟩ := firing.ripe name List.mem_cons_self
  obtain ⟨attempts,same,split⟩ := firing.during
  have untried : t.name ∉ attempts.map Attempt.name := by
    intro tried
    rw [split] at nodup
    have apart := (List.nodup_append.mp nodup).2.2
    exact apart t.name (List.mem_reverse.mpr tried) t.name List.mem_cons_self rfl
  have begun : NoneInVain (.asked timers :: base) := by
    rw [record,same] at noneInVain
    exact noneInVain_during.mp noneInVain
  refine ⟨⟨t,?_,rfl,?_⟩,firing.sched.measured noneInVain⟩
  · dsimp only
    rw [same,inForce_during,Timers.find_distinct distinct listed]
  · intro b last
    dsimp only at last
    have kept := firing.sched.kept s there
    have fruitful : b.vain = false := by
      rw [same,lastAttempt_during untried] at last
      exact begun.1 t listed b last
    refine ⟨fruitful,?_⟩
    rcases kept.started t.name b last fruitful with running | ⟨finish,found,late⟩
    · exact absurd running idle
    · rw [found] at due
      obtain ⟨interval,active,past⟩ := due
      exact ⟨interval,active,by dsimp only; omega⟩

theorem during_attempt (result : Result) (firing : Firing timers base names (name :: rest) m e) :
    ∃ attempts, record name e.1 result e.2 = during attempts timers base ∧
      names = (attempts.map Attempt.name).reverse ++ rest := by
  obtain ⟨attempts,same,split⟩ := firing.during
  refine ⟨⟨name,e.1,inForce name e.2,result⟩ :: attempts,?_,?_⟩
  · rw [record,same]
    rfl
  · simp [split]

/-- After an attempt in vain nothing has changed but the record. -/
theorem firing_vain {result : Result} (vain : result ≠ .started) (nodup : names.Nodup)
    (distinct : (timers.map TimerDef.name).Nodup) (firing : Firing timers base names (name :: rest) m e) :
    Firing timers base names rest m (e.1,record name e.1 result e.2) := by
  refine ⟨⟨?_,?_,measured_attempt _ nodup distinct firing⟩,during_attempt _ firing,?_⟩
  · intro s there
    obtain ⟨s',t,there',listed,named,idle,due⟩ := firing.ripe name List.mem_cons_self
    rw [there] at there'
    cases there'
    refine kept_vain (firing.sched.kept s there) (bne_iff_ne.mpr vain) rfl idle ?_
    exact ⟨timers,t,asked_during firing,listed,named,due⟩
  · intro unused
    obtain ⟨s,-,there,-⟩ := firing.ripe name List.mem_cons_self
    rw [there] at unused
    contradiction
  · exact fun n member => firing.ripe n (List.mem_cons_of_mem _ member)

/-- What the calls of a start amount to once the child is there. -/
theorem wp_noteStarted {pid : Int} (nodup : names.Nodup) (distinct : (timers.map TimerDef.name).Nodup)
    (firing : Firing timers base names (name :: rest) m e) :
    (do log (.timerStarted name pid); Timers.changeState (Timers.noteStarted name pid) : Code Unit).wp
      around asked (fun _ => Firing timers base names rest) m (e.1,record name e.1 .started e.2) := by
  have measured := measured_attempt .started nodup distinct firing
  have heedless : Heedless fun m' e' => m' = m ∧ e.1 ≤ e'.1 ∧ e'.2 = record name e.1 .started e.2 := by
    apply heedless_of
    · exact fun _ _ _ _ later held => ⟨held.1,Nat.le_trans held.2.1 later,held.2.2⟩
    · intro _ _ held
      rw [held.2.2]
      exact measured
  refine wp_bind_steady heedless (unnoticed_call rfl) ⟨rfl,le_rfl,rfl⟩ ?_
  intro _ m' e' held
  obtain ⟨rfl,late,recorded⟩ := held
  obtain ⟨clock,history⟩ := e'
  dsimp only at late recorded
  subst recorded
  refine ⟨measured,?_⟩
  obtain ⟨s,t,there,listed,named,idle,due⟩ := firing.ripe name List.mem_cons_self
  change Firing timers base names rest { m' with timers := m'.timers.map (Timers.noteStarted name pid) } _
  rw [there,Option.map_some]
  refine ⟨⟨?_,by simp,measured⟩,during_attempt _ firing,?_⟩
  · intro s' there'
    cases Option.some.inj there'
    have kept := (firing.sched.kept s there).later late
    exact kept_noteStarted (a := ⟨name,e.1,inForce name e.2,.started⟩) kept rfl late idle
  · intro n member
    obtain ⟨s',t',there',listed',named',idle',due'⟩ := firing.ripe n (List.mem_cons_of_mem _ member)
    rw [there] at there'
    cases there'
    have other : n ≠ name := by
      rintro rfl
      obtain ⟨attempts,-,split⟩ := firing.during
      rw [split] at nodup
      exact (List.nodup_cons.mp (List.nodup_append.mp nodup).2.1).1 member
    refine ⟨_,t',rfl,listed',named',?_,due'.later late⟩
    rw [Timers.noteStarted]
    dsimp only
    split
    · exact idle'
    · simpa [other] using idle'

/-- Once a spawn for the timer is answered: the start of its run is still to be noted, if it has one. -/
def Spawned (timers : List TimerDef) (base : History) (names : List String) (name : String)
    (rest : List String) : Except String Int → Memory → Nat × History → Prop
  | .ok _, m, e => ∃ clock history, Firing timers base names (name :: rest) m (clock,history) ∧
      e = (clock,record name clock .started history)
  | .error _, m, e => Firing timers base names rest m e

theorem wp_fire {services : List ServiceDef} (nodup : names.Nodup)
    (distinct : (timers.map TimerDef.name).Nodup) (start : Firing timers base names (name :: rest) m e) :
    (Timers.fire services name).wp around asked (fun _ => Firing timers base names rest) m e := by
  unfold Timers.fire
  split
  · refine wp_steady_perform heedless_firing start (fun _ _ firing => firing.sched.measured) ?_
    intro e _ e' firing replied
    obtain ⟨answered,noted⟩ := Machine.watched_answer_iff.mp replied
    have after := firing_vain (show Result.unmatched ≠ .started by decide) nodup distinct firing
    rwa [show e' = (e.1,record name e.1 .unmatched e.2) from Prod.ext (answer_clock answered) noted]
  · rename_i d found
    have named : d.name = name := by simpa using List.find?_some found
    refine wp_then (R := Spawned timers base names name rest) ?_ ?_
    · have resolves : ∀ op : Op, noticed op = false → (call op).Uses Eq fun op => noticed op = false ∧ True :=
        fun _ => unnoticed_call
      refine wp_bind_steady heedless_firing (resolveWith_uses (fun _ => resolves _ rfl) _) start ?_
      intro uid m e firing
      refine wp_bind_steady heedless_firing (resolveWith_uses (fun _ => resolves _ rfl) _) firing ?_
      intro gid m e firing
      refine wp_steady_perform heedless_firing firing (fun _ _ firing => firing.sched.measured) ?_
      intro e child e' firing replied
      rw [named] at replied
      obtain ⟨answered,noted⟩ := Machine.watched_answer_iff.mp replied
      cases child with
      | ok pid => exact ⟨e.1,e.2,firing,Prod.ext (answer_clock answered) noted⟩
      | error err =>
        have after := firing_vain (show Result.failed ≠ .started by decide) nodup distinct firing
        rw [Spawned]
        rwa [show e' = (e.1,record name e.1 .failed e.2) from Prod.ext (answer_clock answered) noted]
    · intro child m e after
      cases child with
      | ok pid =>
        obtain ⟨clock,history,firing,rfl⟩ := after
        exact wp_noteStarted nodup distinct firing
      | error err => exact wp_steady heedless_firing (unnoticed_call rfl) after

/-- What a tick does: each timer found due is attempted once, and those tried in vain are. -/
structure Ticked (timers : List TimerDef) (base : History) (m : Memory) (e : Nat × History) : Prop where
  sched : Sched m e
  during : ∃ attempts, e.2 = during attempts timers base ∧ (attempts.map Attempt.name).Nodup ∧
    ∀ t ∈ timers, ∀ a, OneList timers base → lastAttempt t.name base = some a → a.vain = true →
      t.name ∈ attempts.map Attempt.name

theorem due_of_vain {s : Timers.State} {clock : Nat} {t : TimerDef} {a : Attempt}
    (kept : Kept s clock (.asked timers :: base)) (distinct : (timers.map TimerDef.name).Nodup)
    (one : OneList timers base) (member : t ∈ timers) (last : lastAttempt t.name base = some a)
    (vain : a.vain = true) :
    t.name ∉ s.running ∧ OnTime s.boot clock t (s.lastFinished.lookup t.name) := by
  obtain ⟨idle,timers',t',there,member',named,due⟩ := kept.vain t.name a last vain
  have same : timers' = timers := by
    cases List.mem_cons.mp there with
    | inl here => exact Happening.asked.inj here
    | inr earlier => exact one timers' earlier
  subst same
  rw [List.inj_on_of_nodup_map distinct member' member named] at due
  exact ⟨idle,due⟩

theorem wp_tick (distinct : (timers.map TimerDef.name).Nodup) (services : List ServiceDef)
    (start : Sched m e) : (Timers.tick timers services).wp around asked
      (fun _ => Ticked timers e.2) m (e.1,.asked timers :: e.2) := by
  have begun : Sched m (e.1,.asked timers :: e.2) := sched_begins (.tick timers distinct services) start
  unfold Timers.tick
  split
  · rename_i empty
    obtain rfl := List.isEmpty_iff.mp empty
    exact ⟨begun,[],rfl,List.nodup_nil,by simp⟩
  · refine wp_then (wp_state begun) ?_
    intro s m e' state
    obtain ⟨there,sched,same⟩ := state
    have kept := sched.kept s there
    rw [same] at kept
    have measured := sched.measured
    rw [same] at measured
    refine wp_then (wp_dueNames timers measured le_rfl same) ?_
    intro names m' e'' after
    obtain ⟨rfl,recorded,late,sub,ripe,all⟩ := after
    obtain ⟨clock,history⟩ := e'
    obtain ⟨clock',history'⟩ := e''
    dsimp only at same recorded late ripe all kept
    subst same recorded
    have nodup : names.Nodup := sub.nodup distinct
    have firing : Firing timers e.2 names names m' (clock',.asked timers :: e.2) := by
      refine ⟨sched.later late,⟨[],rfl,rfl⟩,?_⟩
      intro name member
      obtain ⟨t,listed,rest⟩ := ripe name member
      exact ⟨s,t,there,listed,rest⟩
    refine wp_mono (wp_each (Firing timers e.2 names) firing ?_) ?_
    · exact fun name rest m e firing => wp_fire nodup distinct firing
    · intro _ m e after
      obtain ⟨attempts,made,split⟩ := after.during
      rw [List.append_nil] at split
      refine ⟨after.sched,attempts,made,?_,?_⟩
      · rw [split] at nodup
        exact List.nodup_reverse.mp nodup
      · intro t member a one last vain
        obtain ⟨idle,due⟩ := due_of_vain kept distinct one member last vain
        have found := all t member idle due
        rw [split] at found
        exact List.mem_reverse.mp found

end Tick

section Reap
variable {m : Memory} {e : Nat × History}

/-- What the calls of a reap amount to once the pid is known to be a timer's. -/
theorem wp_noteFinished {s : Timers.State} {name : String} {pid : Int} (sched : Sched m e)
    (there : m.timers = some s) (found : s.pending.lookup pid = some name) :
    (do log (.timerFinished name pid)
        let finished ← now
        Timers.changeState (Timers.noteFinished name finished)
        pure true : Code Bool).wp around asked (fun _ m' e' => Sched m' e' ∧ e'.2 = e.2)
      { m with timers := some { s with pending := s.pending.erase pid } } e := by
  let struck : Memory := { m with timers := some { s with pending := s.pending.erase pid } }
  have heedless : Heedless fun m' e' => m' = struck ∧ e.1 ≤ e'.1 ∧ e'.2 = e.2 := by
    apply heedless_of
    · exact fun _ _ _ _ later held => ⟨held.1,Nat.le_trans held.2.1 later,held.2.2⟩
    · intro _ _ held
      rw [held.2.2]
      exact sched.measured
  refine wp_bind_steady heedless (unnoticed_call rfl) ⟨rfl,le_rfl,rfl⟩ ?_
  intro _ m' e' held
  refine wp_bind_perform heedless held heedless.measured ?_
  intro e' finish e'' held replied
  obtain ⟨rfl,late,same⟩ := held
  obtain ⟨rfl,rfl⟩ := replies_now replied
  obtain ⟨clock,history⟩ := e''
  dsimp only at late same
  subst same
  refine ⟨sched.measured,?_⟩
  change Sched { struck with timers := struck.timers.map (Timers.noteFinished name clock) } _ ∧ _
  refine ⟨⟨?_,by simp [struck],sched.measured⟩,rfl⟩
  intro s' there'
  cases Option.some.inj there'
  exact kept_noteFinished ((sched.kept s there).later late) found

theorem wp_reap (pid : Int) (start : Sched m e) : (Timers.reap pid).wp around asked
    (fun _ m' e' => Sched m' e' ∧ e'.2 = e.2) m e := by
  refine wp_then (wp_state start) ?_
  intro s m' e' state
  obtain ⟨there,sched,same⟩ := state
  rw [← same]
  apply wp_bind_exchange sched.measured
  rw [there,Option.bind_some,Option.map_some]
  cases found : s.pending.lookup pid with
  | some name => exact wp_noteFinished sched there found
  | none =>
    rw [erase_absent found,← there]
    exact ⟨sched,rfl⟩

end Reap

section Runs
variable {m : Memory} {e : Nat × History}

abbrev Moment := State Memory Op Op.Ans (Nat × History) Unit

theorem wp_reapUse (pid : Int) (start : Sched m e) : (Use.reap pid).code.wp around asked
    (fun _ m' e' => Sched m' e' ∧ e'.2 = e.2) m e :=
  wp_then (wp_reap pid start) fun _ _ _ after => after

theorem wp_use (use : Use) (start : Sched m e) :
    use.code.wp around asked (fun _ => Sched) m (use.begins e) := by
  cases use with
  | tick timers distinct services =>
    exact wp_mono (wp_tick distinct services start) fun _ _ _ ticked => ticked.sched
  | reap pid => exact wp_mono (wp_reapUse pid start) fun _ _ _ after => after.1

theorem sched_of_run (run : Run m e) : Sched m e := by
  induction run with
  | start clock => exact ⟨by simp,fun _ _ => rfl,fun _ => trivial⟩
  | use use _ ran ih => exact wp_returns ran (wp_use use ih)

/-- With one list for all ticks, an attempt in vain is followed by another in the next tick. -/
theorem noneInVain_of_unretried {timers : List TimerDef} (run : Run m e) (one : OneList timers e.2)
    (unretried : Unretried e.2) : NoneInVain e.2 := by
  induction run with
  | start clock => trivial
  | @use m m' e e' use before ran ih =>
    have sched := sched_of_run before
    cases use with
    | tick asked distinct services =>
      have ticked := wp_returns ran (wp_tick distinct services sched)
      obtain ⟨attempts,made,-,tried⟩ := ticked.during
      rw [made] at one unretried ⊢
      have same : asked = timers := one asked (by simp [during])
      subst same
      have oneBase : OneList asked e.2 := fun other there => one other (by simp [during,there])
      have base := ih oneBase (unretried_base unretried)
      refine noneInVain_during.mpr ⟨?_,base⟩
      intro t member a last
      by_contra vain
      have vain : a.vain = true := by simpa using vain
      have again := tried t member a oneBase last vain
      have here := mem_thisTick base oneBase member last vain
      rw [fruitful_of_unretried unretried again here (lastAttempt_name last)] at vain
      contradiction
    | reap pid =>
      have same : e'.2 = e.2 := (wp_returns ran (wp_reapUse pid sched)).2
      rw [same] at one unretried ⊢
      exact ih one unretried

/-- As long as no tick is called with a timer whose latest attempt was in vain, the attempts keep
their pace, at every moment; and with one list for all ticks, only so long. -/
theorem attempts_paced (run : Run m e) :
    (∀ (use : Use) (t : Moment), Reaches around ⟨use.code,m,use.begins e⟩ t →
      NoneInVain t.env.2 → Paced t.env.2) ∧
    ∀ timers, OneList timers e.2 → (Paced e.2 ↔ NoneInVain e.2) := by
  have sched := sched_of_run run
  refine ⟨?_,?_⟩
  · intro use t reached noneInVain
    have measured := wp_everywhere reached (wp_use use sched) fun _ _ _ sched => sched.measured
    exact paced_of_measured (measured noneInVain)
  · intro timers one
    constructor
    · exact fun paced => noneInVain_of_unretried run one paced.unretried
    · exact fun noneInVain => paced_of_measured (sched.measured noneInVain)

def carried (starts : Bool) : List (Use × List (Cue Op Nat)) → Memory × Nat × History →
    Option (Memory × Nat × History)
  | [], s => some s
  | (use,cues) :: rest, (m,e) =>
    (drive (machine.watched monitor)
      (fun op m e => Kernel.obliging (fun _ => starts) Config.default op m { clock := e.1 })
      cues ⟨use.code,m,use.begins e⟩).bind fun t =>
        if t.result? = some () then carried starts rest (t.mem,t.env) else none

theorem run_carried {starts : Bool} {uses : List (Use × List (Cue Op Nat))} {s s' : Memory × Nat × History}
    (run : Run s.1 s.2) (went : carried starts uses s = some s') : Run s'.1 s'.2 := by
  induction uses generalizing s with
  | nil =>
    cases Option.some.inj went
    exact run
  | cons first rest ih =>
    obtain ⟨use,cues⟩ := first
    obtain ⟨m,e⟩ := s
    obtain ⟨t,driven,further⟩ := Option.bind_eq_some_iff.mp went
    simp only [Option.ite_none_right_eq_some] at further
    exact ih (.use use run (drive_returned driven further.1)) further.2

def asking (text : String) : Use :=
  .tick (Timers.loadAll [⟨"backup.timer".toList,some text.toList⟩])
    (Timers.loadAll_distinct (List.nodup_singleton _)) [{ name := "backup" }]

def after (elapsed : Nat) : List (Cue Op Nat) :=
  [.upTo (· == .now) 50,.stir elapsed,.upTo (fun _ => false) 100]

def backup : TimerDef := ⟨"backup",some (fromSecs 5),some (fromSecs 60)⟩

/-- The first tick finds the timer due, it finishes, and is due again a minute later. -/
def backups : List (Use × List (Cue Op Nat)) :=
  let use := asking "[Timer]\nOnBootSec=5\nOnUnitActiveSec=60\n"
  [(use,[.upTo (· == .now) 50,.step] ++ after (fromSecs 5)),(.reap 100,after 0),
    (use,after (fromSecs 60))]

def backupHistory : History :=
  [.attempted ⟨"backup",fromSecs 65,some backup,.started⟩,.asked [backup],
    .attempted ⟨"backup",fromSecs 5,some backup,.started⟩,.asked [backup]]

theorem attempts_paced_backup : ∃ m e, Run m e ∧ e.2 = backupHistory ∧ Paced e.2 := by
  have went : (carried true backups ({},0,[])).any (fun s => s.2.2 == backupHistory) = true := by
    decide +kernel
  obtain ⟨s,carried,same⟩ := (Option.any_eq_true _ _).mp went
  have run : Run s.1 s.2 := run_carried (.start 0) carried
  have noneInVain : NoneInVain s.2.2 := by
    rw [beq_iff_eq.mp same]
    simp [backupHistory,NoneInVain,lastAttempt,Attempt.vain]
  exact ⟨s.1,s.2,run,beq_iff_eq.mp same,(attempts_paced run).1 (.reap 0) _ .refl noneInVain⟩

def onlyOnce : TimerDef := ⟨"backup",some (fromSecs 5),none⟩

def retries : List (Use × List (Cue Op Nat)) :=
  let use := asking "[Timer]\nOnBootSec=5\n"
  [(use,[.upTo (· == .now) 50,.step] ++ after (fromSecs 5)),(use,after 0),(use,after 0)]

def retryHistory : History :=
  (List.replicate 3 [.attempted ⟨"backup",fromSecs 5,some onlyOnce,.failed⟩,.asked [onlyOnce]]).flatten

/-- The service cannot be started, and the next two ticks try again at once. -/
theorem retries_in_vain : ¬ ∀ m e, Run m e → Paced e.2 := by
  intro claim
  have went : (carried false retries ({},0,[])).any (fun s => s.2.2 == retryHistory) = true := by
    decide +kernel
  obtain ⟨s,carried,same⟩ := (Option.any_eq_true _ _).mp went
  have paced := claim s.1 s.2 (run_carried (.start 0) carried)
  rw [beq_iff_eq.mp same] at paced
  have only : OnlyBoot "backup" retryHistory := by
    intro a t member named definition
    obtain rfl : a = ⟨"backup",fromSecs 5,some onlyOnce,.failed⟩ := by
      simpa [retryHistory,List.replicate] using member
    cases Option.some.inj definition
    rfl
  have few := paced.once "backup" only
  revert few
  decide

end Runs
end MitosServices.Attempts
