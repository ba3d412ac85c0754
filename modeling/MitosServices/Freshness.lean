import MitosServices.Ipc
import MitosServices.EventLoop
import MitosServices.Interaction.Live

/-! `STATUS` between two threads. The request is raised before the version it is compared with is
read, so a dump that is published in between is taken for an old one. -/
namespace MitosServices.Freshness
open Interaction Interaction.Program
open Ipc (status waitForFreshStatus timedOut)

def summary (target services : String) : String := s!"active target: {target}\n{services}"

/-- What the two threads share, and whether the main loop is between taking the flag and publishing. -/
structure Shared where
  clock : Nat := 0
  requested : Bool := false
  version : Nat := 0
  text : String := ""
  dumping : Bool := false
deriving DecidableEq

/-- What happens around the command: time passes, `SIGUSR2` arrives, the main loop takes the flag
and publishes. -/
inductive Event
  | tick (elapsed : Nat)
  | raise
  | take
  | publish (target services : String)

namespace Shared

def stir : Event → Ipc.Op → Unit → Shared → Option Shared
  | .tick elapsed, _, _, e => some { e with clock := e.clock + elapsed }
  | .raise, _, _, e => some { e with requested := true }
  | .take, _, _, e =>
    if e.requested && !e.dumping then some { e with requested := false, dumping := true } else none
  | .publish target services, _, _, e =>
    if e.dumping then
      some { e with version := e.version + 1, text := summary target services, dumping := false }
    else none

def answer : (op : Ipc.Op) → Unit → Shared → op.Ans → Option Shared
  | .store flag, _, e, _ =>
    some { e with requested := e.requested || flag == .statusDumpRequested }
  | .snapshot, _, e, seen => if seen = (e.version,e.text) then some e else none
  | .now, _, e, t => if t = e.clock then some e else none
  | _, _, e, _ => some e

def machine : Machine Unit Ipc.Op Ipc.Op.Ans Shared Event := ⟨stir,answer⟩

end Shared

inductive Moment
  | requested
  | baseline
  | deadline (at_ : Nat)
  | polled
  | published (text : String) (at_ : Nat)
deriving DecidableEq

abbrev History := List Moment

def isDeadline : Moment → Bool
  | .deadline _ => true
  | _ => false

def observer : Monitor Unit Ipc.Op Ipc.Op.Ans Shared Event History where
  event
    | .publish target services, _, _, e, h => .published (summary target services) e.clock :: h
    | _, _, _, _, h => h
  reply
    | .store .statusDumpRequested, _, _, _, h => .requested :: h
    | .snapshot, _, _, _, h => (if .baseline ∈ h then .polled else .baseline) :: h
    | .now, _, _, t, h => if h.any isDeadline then h else .deadline (t + fromMillis 500) :: h
    | _, _, _, _, h => h

def around : Surroundings Unit Ipc.Op Ipc.Op.Ans (Shared × History) :=
  (Shared.machine.watched observer).surroundings

/-- A dump is published after the request and before the deadline, and there is a poll after it. -/
def PublishedInTime (h : History) : Prop :=
  ∃ text t d, [.polled,.published text t,.requested].Sublist h ∧ .deadline d ∈ h ∧ t < d

/-- A dump is published after the version was read, and there is a poll after it. -/
def PublishedLater (h : History) : Prop :=
  ∃ text t, [.polled,.published text t,.baseline].Sublist h

/-- The client is sent a dump that was published after the request. -/
def Served (h : History) (response : String) : Prop :=
  ∃ text t, [.published text t,.requested].Sublist h ∧ response = s!"{text}\n"

section Summaries

theorem summary_ne_timedOut (target services : String) : s!"{summary target services}\n" ≠ timedOut := by
  intro same
  have chars : ("active target: " ++ target ++ "\n" ++ services ++ "\n").toList.head? = some 's' :=
    congrArg (fun s => s.toList.head?) same
  simp only [String.toList_append] at chars
  have first : some 'a' = some 's' := chars
  contradiction

def Summaries (h : History) : Prop :=
  ∀ text t, .published text t ∈ h → ∃ target services, text = summary target services

theorem not_served_timedOut {h : History} (summaries : Summaries h) : ¬ Served h timedOut := by
  intro ⟨text,t,early,same⟩
  obtain ⟨target,services,rfl⟩ := summaries text t (early.subset (by simp))
  exact summary_ne_timedOut target services same.symm

end Summaries

section MainLoop
variable {Env Event : Type}

def taking : Monitor Memory Op Op.Ans Env Event Bool where
  event _ _ _ _ g := g
  reply
    | .swap .statusDumpRequested, _, _, taken, _ => taken
    | .publishStatus _, _, _, _, _ => false
    | _, _, _, _, g => g

def surveys : Op → Bool
  | .iterate _ | .isReady _ | .log _ => true
  | _ => false

theorem taking_deaf : (taking : Monitor Memory Op Op.Ans Env Event Bool).Deaf fun op => surveys op = true where
  event _ _ _ _ _ := rfl
  reply op _ _ _ _ allowed := by
    cases op with
    | swap flag => contradiction
    | publishStatus text => contradiction
    | _ => rfl

theorem statusSummary_surveys : statusSummary.Uses Eq fun op => surveys op = true := by
  have lines : ∀ visited, (statusLines visited).Uses Eq fun op => surveys op = true := by
    intro visited
    induction visited with
    | nil => exact uses_pure _
    | cons entry rest ih =>
      exact uses_bind (uses_perform rfl) fun _ => uses_bind ih fun _ => uses_pure _
  refine uses_bind (uses_read fun _ => rfl) fun m => ?_
  split
  · exact uses_pure _
  · exact uses_bind (uses_perform rfl) fun _ => uses_bind (lines _) fun _ => uses_pure _

/-- The main loop takes the flag and then publishes a summary, once, which is what `Event` has of it. -/
theorem dumpStatus_publishes (K : Machine Memory Op Op.Ans Env Event) (m : Memory) (k : Env) :
    dumpStatus.wp (K.watched taking).surroundings
      (fun op _ e => ∀ text, op = some (.publishStatus text) →
        e.2 = true ∧ ∃ target services, text = summary target services)
      (fun _ _ e => e.2 = false) m (k,false) := by
  apply wp_bind_noted taking_deaf
  · simp
  intro k taken k' _
  rw [wp_provided]
  cases taken with
  | false => exact rfl
  | true =>
    apply wp_bind_read (by simp)
    have frame : (K.watched taking).surroundings.Frame
        (fun op _ e => ∀ text, op = some (.publishStatus text) →
          e.2 = true ∧ ∃ target services, text = summary target services)
        (fun m m' => m' = m) (fun op => surveys op = true) fun m' e => m' = m ∧ e.2 = true := by
      refine @Machine.watched_frame _ _ _ _ _ _ K _ _ _ _ (fun m => m) _ _ taking_deaf ?_
      intro op m k allowed _ text publishes
      have surveyed := allowed _ publishes
      contradiction
    refine wp_then (wp_frame frame ?_ ⟨rfl,rfl⟩) ?_
    · exact uses_mono statusSummary_surveys (fun _ _ same => same.symm) fun _ allowed => allowed
    intro services m' e held
    refine wp_then (wp_frame frame (uses_perform rfl) held) ?_
    intro _ m' e held
    obtain ⟨rfl,taken⟩ := held
    apply wp_perform (P := fun e => e.2 = true) taken
    · exact fun _ _ moved taken => (taking_deaf.moves moved).trans taken
    · intro e taken text publishes
      cases publishes
      exact ⟨taken,m'.currentTarget,services,rfl⟩
    · exact fun _ _ _ _ replied => (Machine.watched_answer_iff.mp replied).2

end MainLoop

section Phases

structure Requested (e : Shared × History) : Prop where
  requested : .requested ∈ e.2
  unread : .baseline ∉ e.2
  summaries : Summaries e.2

structure Polling (v : Nat) (e : Shared × History) : Prop where
  requested : .requested ∈ e.2
  baseline : .baseline ∈ e.2
  summaries : Summaries e.2
  unseen : ¬ PublishedLater e.2
  same : e.1.version = v → ∀ text t, ¬ [.published text t,.baseline].Sublist e.2
  other : e.1.version ≠ v → v < e.1.version ∧ ∃ t, [.published e.1.text t,.baseline].Sublist e.2 ∧
    [.published e.1.text t,.requested].Sublist e.2

section Moves
variable {op : Ipc.Op} {e e' : Shared × History} {v : Nat}

/-- What surroundings do to the version, the text and the history: nothing, or they publish. -/
theorem moves_cases (moved : around.moves op () e e') :
    (e'.2 = e.2 ∧ e'.1.version = e.1.version ∧ e'.1.text = e.1.text) ∨
    ∃ target services, e'.1.version = e.1.version + 1 ∧ e'.1.text = summary target services ∧
      e'.2 = .published (summary target services) e.1.clock :: e.2 := by
  obtain ⟨ev,watched⟩ := moved
  obtain ⟨stirred,noted⟩ := Machine.watched_stir_iff.mp watched
  rw [noted]
  cases ev with
  | tick elapsed =>
    rw [← Option.some.inj stirred]
    exact .inl ⟨rfl,rfl,rfl⟩
  | raise =>
    rw [← Option.some.inj stirred]
    exact .inl ⟨rfl,rfl,rfl⟩
  | take =>
    simp only [Shared.machine,Shared.stir,Option.ite_none_right_eq_some,Option.some.injEq] at stirred
    rw [← stirred.2]
    exact .inl ⟨rfl,rfl,rfl⟩
  | publish target services =>
    simp only [Shared.machine,Shared.stir,Option.ite_none_right_eq_some,Option.some.injEq] at stirred
    rw [← stirred.2]
    exact .inr ⟨target,services,rfl,rfl,rfl⟩

theorem summaries_published {h : History} (summaries : Summaries h) (target services : String) (t : Nat) :
    Summaries (.published (summary target services) t :: h) := by
  intro text t' member
  rcases List.mem_cons.mp member with here | before
  · cases here
    exact ⟨target,services,rfl⟩
  · exact summaries text t' before

theorem requested_moves (moved : around.moves op () e e') (held : Requested e) : Requested e' := by
  rcases moves_cases moved with ⟨history,-,-⟩ | ⟨target,services,-,-,history⟩
  · exact ⟨history ▸ held.requested,history ▸ held.unread,history ▸ held.summaries⟩
  · constructor
    · rw [history]
      exact List.mem_cons_of_mem _ held.requested
    · rw [history]
      simp [held.unread]
    · rw [history]
      exact summaries_published held.summaries target services _

theorem polling_moves (moved : around.moves op () e e') (held : Polling v e) : Polling v e' := by
  rcases moves_cases moved with ⟨history,version,text⟩ | ⟨target,services,version,text,history⟩
  · constructor
    · exact history ▸ held.requested
    · exact history ▸ held.baseline
    · exact history ▸ held.summaries
    · exact history ▸ held.unseen
    · rw [version,history]
      exact held.same
    · rw [version,history,text]
      exact held.other
  · have older : v ≤ e.1.version := by
      by_cases same : e.1.version = v
      · exact same.ge
      · exact (held.other same).1.le
    constructor
    · rw [history]
      exact List.mem_cons_of_mem _ held.requested
    · rw [history]
      exact List.mem_cons_of_mem _ held.baseline
    · rw [history]
      exact summaries_published held.summaries target services _
    · rw [history]
      intro ⟨text',t,later⟩
      apply held.unseen
      refine ⟨text',t,?_⟩
      cases later with
      | cons _ before => exact before
    · intro same
      omega
    · intro _
      rw [text,history]
      refine ⟨by omega,e.1.clock,?_,?_⟩
      · exact (List.singleton_sublist.mpr held.baseline).cons_cons _
      · exact (List.singleton_sublist.mpr held.requested).cons_cons _

end Moves

section Replies
variable {e e' : Shared × History} {v : Nat}

theorem polling_now {t : Nat} (replied : around.replies .now () e t e') (held : Polling v e) :
    Polling v e' := by
  obtain ⟨answered,noted⟩ := Machine.watched_answer_iff.mp replied
  simp only [Shared.machine,Shared.answer,Option.ite_none_right_eq_some,Option.some.injEq] at answered
  obtain ⟨k,h⟩ := e
  obtain ⟨k',h'⟩ := e'
  obtain ⟨rfl,rfl⟩ : k = k' ∧ h' = _ := ⟨answered.2,noted⟩
  dsimp only [observer]
  split
  · exact held
  · constructor
    · exact List.mem_cons_of_mem _ held.requested
    · exact List.mem_cons_of_mem _ held.baseline
    · intro text t' member
      exact held.summaries text t' (by simpa using member)
    · intro ⟨text,t',later⟩
      cases later with
      | cons _ before => exact held.unseen ⟨text,t',before⟩
    · intro same text t' later
      cases later with
      | cons _ before => exact held.same same text t' before
    · intro other
      obtain ⟨newer,t',based,early⟩ := held.other other
      exact ⟨newer,t',based.cons _,early.cons _⟩

theorem polling_sleep {duration : Nat} (replied : around.replies (.sleep duration) () e () e')
    (held : Polling v e) : Polling v e' := by
  obtain ⟨answered,noted⟩ := Machine.watched_answer_iff.mp replied
  have same : e' = e := Prod.ext (Option.some.inj answered).symm noted
  exact same ▸ held

theorem snapshot_cases {seen : Nat × String} (replied : around.replies .snapshot () e seen e') :
    seen = (e.1.version,e.1.text) ∧ e' = (e.1,(if .baseline ∈ e.2 then .polled else .baseline) :: e.2) := by
  obtain ⟨answered,noted⟩ := Machine.watched_answer_iff.mp replied
  simp only [Shared.machine,Shared.answer,Option.ite_none_right_eq_some,Option.some.injEq] at answered
  exact ⟨answered.1,Prod.ext answered.2.symm noted⟩

theorem polling_baseline {seen : Nat × String} (replied : around.replies .snapshot () e seen e')
    (held : Requested e) : Polling seen.1 e' := by
  obtain ⟨rfl,rfl⟩ := snapshot_cases replied
  have unbased : ∀ text t, ¬ [.published text t,.baseline].Sublist (Moment.baseline :: e.2) := by
    intro text t later
    cases later with
    | cons _ before => exact held.unread (before.subset (by simp))
  rw [if_neg held.unread]
  constructor
  · exact List.mem_cons_of_mem _ held.requested
  · exact List.mem_cons_self
  · intro text t member
    exact held.summaries text t (by simpa using member)
  · intro ⟨text,t,later⟩
    exact unbased text t ((List.sublist_cons_self _ _).trans later)
  · exact fun _ => unbased
  · intro other
    exact absurd rfl other

theorem polling_polled {seen : Nat × String} (replied : around.replies .snapshot () e seen e')
    (held : Polling v e) (same : seen.1 = v) : Polling v e' := by
  obtain ⟨rfl,rfl⟩ := snapshot_cases replied
  rw [if_pos held.baseline]
  constructor
  · exact List.mem_cons_of_mem _ held.requested
  · exact List.mem_cons_of_mem _ held.baseline
  · intro text t member
    exact held.summaries text t (by simpa using member)
  · intro ⟨text,t,later⟩
    cases later with
    | cons _ before => exact held.unseen ⟨text,t,before⟩
    | cons_cons _ before => exact held.same same text t before
  · intro _ text t later
    cases later with
    | cons _ before => exact held.same same text t before
  · intro other
    exact absurd same other

def Answered (h : History) (response : String) : Prop :=
  Served h response ∧ PublishedLater h ∨ response = timedOut ∧ Summaries h ∧ ¬ PublishedLater h

theorem answered_polled {seen : Nat × String} (replied : around.replies .snapshot () e seen e')
    (held : Polling v e) (other : seen.1 ≠ v) : Answered e'.2 s!"{seen.2}\n" := by
  obtain ⟨rfl,rfl⟩ := snapshot_cases replied
  obtain ⟨-,t,based,early⟩ := held.other other
  rw [if_pos held.baseline]
  left
  constructor
  · exact ⟨e.1.text,t,early.cons _,rfl⟩
  · exact ⟨e.1.text,t,based.cons_cons _⟩

end Replies

section Rules
variable {e : Shared × History} {v : Nat}

theorem wp_bind_polling {α : Type} {op : Ipc.Op} {f : op.Ans → Ipc.Code α}
    {Q : α → Unit → Shared × History → Prop} (start : Polling v e)
    (answered : ∀ e r e', Polling v e → around.replies op () e r e' →
      (f r).wp around (fun _ _ _ => True) Q () e') :
    (Ipc.call op >>= f).wp around (fun _ _ _ => True) Q () e := by
  refine (wp_bind _ _ _ _ _).mpr ?_
  exact wp_perform start (fun _ _ moved held => polling_moves moved held) (fun _ _ => trivial) answered

theorem wp_waitForFreshStatus (timeout : Nat) (start : Requested e) :
    (waitForFreshStatus timeout).wp around (fun _ _ _ => True) (fun response _ e => Answered e.2 response) () e := by
  refine (wp_bind _ _ _ _ _).mpr ?_
  apply wp_perform start (fun _ _ moved held => requested_moves moved held) (fun _ _ => trivial)
  intro e baseline e' held replied
  apply wp_bind_polling (polling_baseline replied held)
  intro e begun e' held replied
  have held := polling_now replied held
  apply wp_repeatFrom (fun _ _ e => Polling baseline.1 e) held (fun _ _ _ _ => trivial)
  intro _ _ e held
  apply wp_bind_polling held
  intro e t e' held replied
  have held := polling_now replied held
  split
  · apply wp_bind_polling held
    intro e seen e' held replied
    by_cases same : seen.1 = baseline.1
    · rw [if_neg (not_not.mpr same)]
      apply wp_bind_polling (polling_polled replied held same)
      intro e _ e' held replied
      exact polling_sleep replied held
    · rw [if_pos same]
      exact answered_polled replied held same
  · exact .inr ⟨rfl,held.summaries,held.unseen⟩

end Rules
structure Idle (e : Shared × History) : Prop where
  unread : .baseline ∉ e.2
  summaries : Summaries e.2

theorem idle_moves {op : Ipc.Op} {e e' : Shared × History} (moved : around.moves op () e e')
    (held : Idle e) : Idle e' := by
  rcases moves_cases moved with ⟨history,-,-⟩ | ⟨target,services,-,-,history⟩
  · exact ⟨history ▸ held.unread,history ▸ held.summaries⟩
  · constructor
    · rw [history]
      simp [held.unread]
    · rw [history]
      exact summaries_published held.summaries target services _

theorem wp_status {e : Shared × History} (start : Idle e) :
    status.wp around (fun _ _ _ => True) (fun response _ e => Answered e.2 response) () e := by
  refine (wp_bind _ _ _ _ _).mpr ?_
  apply wp_perform start (fun _ _ moved held => idle_moves moved held) (fun _ _ => trivial)
  intro e _ e' held replied
  apply wp_waitForFreshStatus
  obtain ⟨-,noted⟩ := Machine.watched_answer_iff.mp replied
  have history : e'.2 = .requested :: e.2 := noted
  constructor
  · rw [history]
    exact List.mem_cons_self
  · rw [history]
    simp [held.unread]
  · rw [history]
    intro text t member
    exact held.summaries text t (by simpa using member)

end Phases

section Server

theorem respond_status : Ipc.respond "STATUS\n".toList = status := by
  have command : Ipc.splitCommand "STATUS\n".toList = ("STATUS".toList,[]) := by decide
  rw [Ipc.respond,command]
  rfl

/-- A dump that is published between the request and the deadline is served just when one is
published after the version has been read. -/
theorem served_iff {k : Shared} {e : Shared × History} {response : String}
    (run : Reaches around ⟨status,(),(k,[])⟩ ⟨.ret response,(),e⟩) :
    (PublishedInTime e.2 → Served e.2 response) ↔ (PublishedInTime e.2 → PublishedLater e.2) := by
  have idle : Idle (k,([] : History)) := ⟨by simp,by simp [Summaries]⟩
  rcases wp_returns run (wp_status idle) with ⟨served,later⟩ | ⟨late,summaries,unseen⟩
  · exact ⟨fun _ _ => later,fun _ _ => served⟩
  · have unserved : ¬ Served e.2 response := late ▸ not_served_timedOut summaries
    constructor
    · intro claim early
      exact absurd (claim early) unserved
    · intro claim early
      exact absurd (claim early) unseen

end Server

section Runs

def asIs : (op : Ipc.Op) → Unit → Shared × History → op.Ans
  | .readLine, _, _ => some "STATUS\n".toList
  | .snapshot, _, e => (e.1.version,e.1.text)
  | .now, _, e => e.1.clock
  | .lastTargets, _, _ => ("",[])
  | .launch _ _, _, _ => .error ""
  | .apps, _, _ => ""
  | .recent _, _, _ => []
  | .store _, _, _ | .sleep _, _, _ | .requestIsolate _, _, _ | .writeAll _, _, _ => ()

def dumped : List (Cue Ipc.Op Event) :=
  [.stir .take,.stir (.publish "multi-user" "no supervised services running")]

def statusRun (early : Bool) : Option (State Unit Ipc.Op Ipc.Op.Ans (Shared × History) String) :=
  let polls : List (Cue Ipc.Op Event) :=
    [.upTo (· == .sleep (fromMillis 20)) 20,.stir (.tick (fromMillis 500)),.upTo (fun _ => false) 20]
  drive (Shared.machine.watched observer) asIs
    ([.step] ++ if early then dumped ++ [.step] ++ polls
      else [.step] ++ dumped ++ [.upTo (fun _ => false) 20])
    ⟨status,(),({},[])⟩

def dump : String := "active target: multi-user\nno supervised services running"

theorem served_iff_fresh : ∃ e, Reaches around ⟨status,(),({},[])⟩ ⟨.ret s!"{dump}\n",(),e⟩ ∧
    PublishedInTime e.2 ∧ Served e.2 s!"{dump}\n" := by
  have went : (statusRun false).map (fun t => (t.result?,t.env.2)) = some (some s!"{dump}\n",
      [.polled,.deadline (fromMillis 500),.published dump 0,.baseline,.requested]) := by decide +kernel
  obtain ⟨t,driven,seen⟩ := Option.map_eq_some_iff.mp went
  obtain ⟨result,history⟩ := Prod.mk.inj seen
  have run := drive_returned driven result
  have early : PublishedInTime t.env.2 := by
    rw [history]
    exact ⟨dump,0,fromMillis 500,by decide,by decide,by decide⟩
  have later : PublishedLater t.env.2 := by
    rw [history]
    exact ⟨dump,0,by decide⟩
  exact ⟨t.env,run,early,(served_iff run).mpr (fun _ => later) early⟩

/-- The dump made for the command is published before the command reads the version. -/
theorem misses_early_dump : ¬ ∀ (k : Shared) (e : Shared × History) (response : String),
    Reaches around ⟨status,(),(k,[])⟩ ⟨.ret response,(),e⟩ → PublishedInTime e.2 → Served e.2 response := by
  intro claim
  have went : (statusRun true).map (fun t => (t.result?,t.env.2)) = some (some timedOut,
      [.polled,.deadline (fromMillis 500),.baseline,.published dump 0,.requested]) := by decide +kernel
  obtain ⟨t,driven,seen⟩ := Option.map_eq_some_iff.mp went
  obtain ⟨result,history⟩ := Prod.mk.inj seen
  have early : PublishedInTime t.env.2 := by
    rw [history]
    exact ⟨dump,0,fromMillis 500,by decide,by decide,by decide⟩
  have served := claim {} t.env timedOut (drive_returned driven result) early
  apply not_served_timedOut _ served
  rw [history]
  intro text at_ member
  simp only [List.mem_cons,reduceCtorEq,Moment.published.injEq,List.not_mem_nil,false_or,or_false] at member
  exact ⟨"multi-user","no supervised services running",member.1⟩

end Runs
end MitosServices.Freshness
