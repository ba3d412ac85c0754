import MitosServices.Ipc
import Mathlib.Data.List.DropRight
import Mathlib.Data.List.Infix

/-! The journal: the latest log lines, each with the newline it was written with, and the answer to
`LOGS` that joins them with another. -/
namespace MitosServices.Journal

def maxLines : Nat := 2000

def record (journal : List String) (line : String) : List String :=
  (if maxLines ≤ journal.length then journal.tail else journal) ++ [line]

def contains (line filter : String) : Bool := decide (filter.toList <:+: line.toList)

def recent (journal : List String) (filter : String) : List String :=
  journal.filter fun line => filter.isEmpty || contains line filter

end MitosServices.Journal

namespace MitosServices.Logging

def code : Level → Nat
  | .error => 0
  | .warn => 1
  | .info => 2
  | .debug => 3

def tag : Level → String
  | .error => "FAIL"
  | .warn => "WARN"
  | .info => "OK"
  | .debug => "DBG"

def padded (tag : String) : String := String.ofList (List.replicate (4 - tag.length) ' ') ++ tag

structure Log where
  level : Level := .info
  journal : List String := []

inductive Event
  | setLevel (level : Level)
  | message (level : Level) (msg : String) (uptime : Nat)

variable (stamp : Nat → String)

def formatted (level : Level) (msg : String) (uptime : Nat) : String :=
  s!"mitos-services [{padded (tag level)}] [{stamp uptime}] {msg}"

def writeLine (log : Log) (level : Level) (msg : String) (uptime : Nat) : Log :=
  if code log.level < code level then log
  else { log with journal := Journal.record log.journal (formatted stamp level msg uptime ++ "\n") }

def step (log : Log) : Event → Log
  | .setLevel level => { log with level }
  | .message level msg uptime => writeLine stamp log level msg uptime

def run (events : List Event) : Log := events.foldl (step stamp) {}

def written (level : Level) : List Event → List String
  | [] => []
  | .setLevel level :: events => written level events
  | .message other msg uptime :: events =>
    if code level < code other then written level events
    else formatted stamp other msg uptime :: written level events

section Journal
variable {log : Log} {events : List Event} {lines : List String}

/-- A full list loses its first entry to the new one. -/
theorem rtake_concat {α : Type} {cap : Nat} (some_room : 0 < cap) (entries : List α) (entry : α) :
    (entries ++ [entry]).rtake cap =
      (if cap ≤ (entries.rtake cap).length then (entries.rtake cap).tail else entries.rtake cap) ++ [entry] := by
  obtain ⟨room,rfl⟩ : ∃ room, cap = room + 1 := ⟨cap - 1,by omega⟩
  rw [List.rtake_concat_succ,List.rtake,List.rtake,List.length_drop,List.tail_drop]
  congr 1
  split
  · congr 1
    omega
  · rw [Nat.sub_eq_zero_of_le (by omega : entries.length ≤ room),
      Nat.sub_eq_zero_of_le (by omega : entries.length ≤ room + 1)]

/-- What has been recorded last is what the journal holds. -/
theorem foldl_record (lines : List String) :
    lines.foldl Journal.record [] = lines.rtake Journal.maxLines := by
  induction lines using List.reverseRecOn with
  | nil => rfl
  | append_singleton lines line ih =>
    have some_room : 0 < Journal.maxLines := by decide
    rw [List.foldl_concat,ih,rtake_concat some_room]
    rfl

theorem foldl_step (events : List Event) (log : Log) : (events.foldl (step stamp) log).journal =
    ((written stamp log.level events).map (· ++ "\n")).foldl Journal.record log.journal := by
  induction events generalizing log with
  | nil => rfl
  | cons event events ih =>
    rw [List.foldl_cons,ih]
    cases event with
    | setLevel level => rfl
    | message level msg uptime =>
      rw [step,writeLine,written]
      split
      · rfl
      · rfl

theorem run_journal (events : List Event) : (run stamp events).journal =
    ((written stamp .info events).rtake Journal.maxLines).map (· ++ "\n") := by
  rw [run,foldl_step,foldl_record,List.rtake,List.rtake,List.length_map,List.map_drop]

end Journal

section Response

def logsText (lines : List String) : String :=
  if lines.isEmpty then "no matching log lines buffered\n" else "\n".intercalate lines ++ "\n"

theorem logsResponse_eq (filter : String) : Ipc.logsResponse filter =
    (Ipc.call (.recent filter) >>= fun lines => pure (logsText lines)) := by
  unfold Ipc.logsResponse logsText
  congr 1
  funext lines
  split <;> rfl

theorem lines_spread {ls : List (List Char)} (single : ∀ line ∈ ls, '\n' ∉ line) :
    Text.lines (ls.flatMap fun line => line ++ ['\n'] ++ ['\n']) = ls.flatMap fun line => [Text.unended line,[]] := by
  induction ls with
  | nil => rfl
  | cons line ls ih =>
    have here := single line List.mem_cons_self
    have later := ih fun other member => single other (List.mem_cons_of_mem _ member)
    have ended : ∀ rest, Text.lines (line ++ ['\n'] ++ ['\n'] ++ rest) = Text.unended line :: [] :: Text.lines rest := by
      intro rest
      rw [List.append_assoc,List.append_assoc]
      exact (Text.lines_cons_unended here _).trans (congrArg _ (Text.lines_cons_unended List.not_mem_nil rest))
    rw [List.flatMap_cons,List.flatMap_cons,ended,later]
    rfl

theorem length_spread (ls : List (List Char)) :
    (ls.flatMap fun line => [Text.unended line,[]]).length = 2 * ls.length := by
  induction ls with
  | nil => rfl
  | cons line ls ih =>
    rw [List.flatMap_cons,List.length_append,ih,List.length_cons,List.length_cons,List.length_cons,List.length_nil]
    omega

/-- An empty line comes after every line that matches. -/
theorem lines_logsText {lines : List String} (single : ∀ line ∈ lines, '\n' ∉ line.toList) (some_match : lines ≠ []) :
    Text.lines (logsText (lines.map (· ++ "\n"))).toList =
      (lines.map String.toList).flatMap fun line => [Text.unended line,[]] := by
  have joined : (logsText (lines.map (· ++ "\n"))).toList =
      (lines.map String.toList).flatMap fun line => line ++ ['\n'] ++ ['\n'] := by
    rw [logsText,if_neg (by simpa using some_match),String.toList_append,String.toList_intercalate]
    have pieces : (lines.map (· ++ "\n")).map String.toList ≠ [] := by simpa using some_match
    refine (Text.intercalate_ended '\n' pieces).trans ?_
    simp [List.flatMap_map]
  rw [joined]
  apply lines_spread
  intro line member
  obtain ⟨text,there,rfl⟩ := List.mem_map.mp member
  exact single text there

def Event.Single : Event → Prop
  | .setLevel _ => True
  | .message _ msg _ => '\n' ∉ msg.toList

theorem single_formatted {stamp : Nat → String} (plain : ∀ t, '\n' ∉ (stamp t).toList) {msg : String}
    (single : '\n' ∉ msg.toList) (level : Level) (uptime : Nat) : '\n' ∉ (formatted stamp level msg uptime).toList := by
  have tagged : '\n' ∉ (padded (tag level)).toList := by cases level <;> decide
  unfold formatted
  simp only [String.toList_append,List.mem_append,not_or,and_assoc]
  exact ⟨by decide,tagged,by decide,plain uptime,by decide,single⟩

theorem single_written {stamp : Nat → String} (plain : ∀ t, '\n' ∉ (stamp t).toList) {events : List Event}
    (single : ∀ event ∈ events, event.Single) (level : Level) :
    ∀ line ∈ written stamp level events, '\n' ∉ line.toList := by
  induction events generalizing level with
  | nil => exact fun _ member => nomatch member
  | cons event events ih =>
    have later := fun level => ih (fun other member => single other (List.mem_cons_of_mem _ member)) level
    cases event with
    | setLevel other => exact later other
    | message other msg uptime =>
      have here : '\n' ∉ msg.toList := single (.message other msg uptime) List.mem_cons_self
      rw [written]
      split
      · exact later level
      · intro line member
        obtain rfl | rest := List.mem_cons.mp member
        · exact single_formatted plain here other uptime
        · exact later level line rest

/-- The lines that are asked for: of the latest, those that hold the filter. -/
def asked (stamp : Nat → String) (events : List Event) (filter : String) : List String :=
  ((written stamp .info events).rtake Journal.maxLines).filter fun line => Journal.contains line filter

def answered (stamp : Nat → String) (events : List Event) (filter : String) : String :=
  logsText (Journal.recent (run stamp events).journal filter)

/-- The lines that are found: the filter may take in the newline. -/
def found (stamp : Nat → String) (events : List Event) (filter : String) : List String :=
  ((written stamp .info events).rtake Journal.maxLines).filter fun line =>
    filter.isEmpty || Journal.contains (line ++ "\n") filter

theorem recent_run (stamp : Nat → String) (events : List Event) (filter : String) :
    Journal.recent (run stamp events).journal filter = (found stamp events filter).map (· ++ "\n") := by
  simp only [run_journal,Journal.recent,List.filter_map,found,Function.comp_def]

theorem asked_sublist (stamp : Nat → String) (events : List Event) (filter : String) :
    (asked stamp events filter).Sublist (found stamp events filter) := by
  unfold asked found
  apply List.monotone_filter_right
  intro line matched
  have within : filter.toList <:+: line.toList := of_decide_eq_true matched
  have ended : filter.toList <:+: (line ++ "\n").toList := by
    rw [String.toList_append]
    exact within.trans (List.infix_append [] line.toList _)
  rw [Journal.contains,decide_eq_true ended,Bool.or_true]

/-- The answer never comes apart into the lines that are asked for. -/
theorem logs_answer_other (stamp : Nat → String) (plain : ∀ t, '\n' ∉ (stamp t).toList) (events : List Event)
    (single : ∀ event ∈ events, event.Single) (filter : String) :
    Text.lines (answered stamp events filter).toList ≠ (asked stamp events filter).map String.toList := by
  have fewer := (asked_sublist stamp events filter).length_le
  have alone : ∀ line ∈ found stamp events filter, '\n' ∉ line.toList := by
    intro line member
    apply single_written plain single .info line
    exact (List.drop_suffix _ _).subset (List.mem_filter.mp member).1
  rw [answered,recent_run]
  intro same
  have lengths := congrArg List.length same
  rw [List.length_map] at lengths
  by_cases none : found stamp events filter = []
  · -- the notice is a line too
    have notice : (Text.lines (logsText []).toList).length = 1 := by decide +kernel
    rw [none] at fewer lengths
    rw [List.map_nil,notice] at lengths
    rw [← lengths] at fewer
    exact absurd fewer (by decide)
  · rw [lines_logsText alone none] at lengths
    have some_found := List.length_pos_iff.mpr none
    rw [length_spread,List.length_map] at lengths
    omega

section Runs

def clock (_ : Nat) : String := "   1.000"

theorem logs_answer_other_started : Text.lines (answered clock [.message .info "started" 0] "").toList ≠
    (asked clock [.message .info "started" 0] "").map String.toList :=
  logs_answer_other clock (fun _ => (by decide : '\n' ∉ "   1.000".toList)) _ (by
    intro event member
    obtain rfl := List.mem_singleton.mp member
    simp [Event.Single]) ""

/-- Two lines are asked for and four come back. -/
theorem logs_answer_spread :
    (asked clock [.message .info "one" 0,.message .warn "two" 0] "") =
      ["mitos-services [  OK] [   1.000] one","mitos-services [WARN] [   1.000] two"] ∧
    (Text.lines (answered clock [.message .info "one" 0,.message .warn "two" 0] "").toList).map String.ofList =
      ["mitos-services [  OK] [   1.000] one","","mitos-services [WARN] [   1.000] two",""] := by
  decide +kernel

end Runs
end Response
end MitosServices.Logging
