import MitosServices.Text
import MitosServices.Interaction.Machine

/-! Memory pressure: what is read off `/proc/pressure/memory`, and the thread that warns of it. The numbers
are whatever `f32::from_str` makes of their text. -/
namespace MitosServices.Pressure
open Interaction Interaction.Program

variable {V : Type} (parse : List Char → Option V)

structure Reading (V : Type) where
  someAvg10 : V
  fullAvg10 : V

/-- The first `avg10=` among the words of a line. -/
def avg10 (rest : List Char) : Option V :=
  ((Text.splitWhitespace rest).findSome? (Text.stripPrefix "avg10=".toList)).bind parse

def readLine (seen : Option V × Option V) (line : List Char) : Option (Option V × Option V) :=
  (Text.splitOnce ' ' line).map fun halves =>
    if halves.1 = "some".toList then (avg10 parse halves.2,seen.2)
    else if halves.1 = "full".toList then (seen.1,avg10 parse halves.2)
    else seen

def parsePressure (text : List Char) : Option (Reading V) := do
  let seen ← (Text.lines text).foldlM (readLine parse) (none,none)
  let someAvg10 ← seen.1
  let fullAvg10 ← seen.2
  pure ⟨someAvg10,fullAvg10⟩

section Parsing
variable {parse} {ls : List (List Char)} {label line : List Char} {seen seen' : Option V × Option V}

def lastUnder (label : List Char) (ls : List (List Char)) : Option (List Char) :=
  (ls.filterMap fun line => (Text.splitOnce ' ' line).bind fun halves =>
    if halves.1 = label then some halves.2 else none).getLast?

theorem lastUnder_concat (halves : List Char × List Char) (cut : Text.splitOnce ' ' line = some halves) :
    lastUnder label (ls ++ [line]) = if halves.1 = label then some halves.2 else lastUnder label ls := by
  rw [lastUnder,List.filterMap_append]
  by_cases here : halves.1 = label
  · simp [cut,here]
  · simp [cut,here,lastUnder]

/-- After any number of lines: what the last ones under either label say. -/
theorem foldlM_readLine : ls.foldlM (readLine parse) (none,none) =
    if ∀ line ∈ ls, ' ' ∈ line then some ((lastUnder "some".toList ls).bind (avg10 parse),
      (lastUnder "full".toList ls).bind (avg10 parse)) else none := by
  induction ls using List.reverseRecOn with
  | nil => simp [lastUnder]
  | append_singleton ls line ih =>
    rw [List.foldlM_append,ih]
    by_cases blanks : ∀ line ∈ ls, ' ' ∈ line
    · rw [if_pos blanks]
      change (List.foldlM (readLine parse) _ [line]) = _
      rw [List.foldlM_cons]
      by_cases blank : ' ' ∈ line
      · obtain ⟨halves,cut⟩ := Text.exists_splitOnce blank
        have all : ∀ other ∈ ls ++ [line], ' ' ∈ other := by
          intro other member
          obtain earlier | same := List.mem_append.mp member
          · exact blanks other earlier
          · exact List.mem_singleton.mp same ▸ blank
        rw [if_pos all,lastUnder_concat halves cut,lastUnder_concat halves cut,readLine,cut]
        by_cases some_line : halves.1 = "some".toList
        · have other : halves.1 ≠ "full".toList := by rw [some_line]; decide
          simp [some_line]
        · by_cases full_line : halves.1 = "full".toList
          · simp [full_line]
          · rw [Option.map_some,if_neg some_line,if_neg full_line,if_neg some_line,if_neg full_line]
            rfl
      · have none_cut : Text.splitOnce ' ' line = none := Text.splitOnce_eq_none blank
        rw [if_neg (fun all => blank (all line (by simp))),readLine,none_cut]
        rfl
    · rw [if_neg blanks,if_neg (fun all => blanks fun line member => all line (by simp [member]))]
      rfl

/-- A reading is made exactly if every line has a blank in it and the last lines under `some` and under
`full` each give a number behind their first `avg10=`. -/
theorem parsePressure_eq_some_iff (parse : List Char → Option V) (text : List Char) (p : Reading V) :
    parsePressure parse text = some p ↔ (∀ line ∈ Text.lines text, ' ' ∈ line) ∧
      (lastUnder "some".toList (Text.lines text)).bind (avg10 parse) = some p.someAvg10 ∧
      (lastUnder "full".toList (Text.lines text)).bind (avg10 parse) = some p.fullAvg10 := by
  rw [parsePressure,foldlM_readLine]
  by_cases blanks : ∀ line ∈ Text.lines text, ' ' ∈ line
  · rw [if_pos blanks]
    obtain ⟨s,f⟩ := p
    cases (lastUnder "some".toList (Text.lines text)).bind (avg10 parse) with
    | none => simp
    | some a =>
      cases (lastUnder "full".toList (Text.lines text)).bind (avg10 parse) with
      | none => simp
      | some b => simpa using fun _ _ => blanks
  · rw [if_neg blanks]
    simp [blanks]

end Parsing

section Monitor

def checkInterval : Nat := 30 * 1000000000

inductive Op (V : Type)
  | sleep (duration : Nat)
  | readPressureFile
  | warn (p : Reading V)

@[reducible] def Op.Ans : Op V → Type
  | readPressureFile => Option (List Char)
  | _ => Unit

abbrev Code (V α : Type) := Program Unit (Op V) (@Op.Ans V) α

def sleep (duration : Nat) : Code V Unit := perform (Op.sleep duration : Op V)
def readPressureFile : Code V (Option (List Char)) := perform (Op.readPressureFile : Op V)
def warn (p : Reading V) : Code V Unit := perform (Op.warn p : Op V)

variable (high : V → Bool)

def readPressure : Code V (Option (Reading V)) := do
  let text ← readPressureFile
  pure (text.bind (parsePressure parse))

def check : Code V (Unit ⊕ Empty) := do
  sleep checkInterval
  let pressure ← readPressure parse
  match pressure with
  | some p =>
    provided (high p.someAvg10) (warn p)
    pure (.inl ())
  | none => pure (.inl ())

def spawnMonitor : Code V Empty := repeatFrom () fun _ => check parse high

structure Seen (V : Type) where
  texts : List (Option (List Char)) := []
  warnings : List (Reading V) := []

def answer : (op : Op V) → Unit → Seen V → op.Ans → Option (Seen V)
  | .readPressureFile, _, e, text => some { e with texts := text :: e.texts }
  | .warn p, _, e, _ => some { e with warnings := p :: e.warnings }
  | .sleep _, _, e, _ => some e

def machine : Machine Unit (Op V) (@Op.Ans V) (Seen V) Empty where
  stir event := nomatch event
  answer := answer

def due (texts : List (Option (List Char))) : List (Reading V) :=
  (texts.filterMap fun text => text.bind (parsePressure parse)).filter fun p => high p.someAvg10

def Kept (op : Option (Op V)) (_ : Unit) (e : Seen V) : Prop :=
  match op with
  | some (.warn p) => due parse high e.texts = p :: e.warnings
  | _ => due parse high e.texts = e.warnings

section Watching
variable {parse} {high} {e : Seen V}

theorem due_cons (text : Option (List Char)) (texts : List (Option (List Char))) :
    due parse high (text :: texts) = ((text.bind (parsePressure parse)).filter
      fun p => high p.someAvg10).toList ++ due parse high texts := by
  rw [due,List.filterMap_cons]
  cases text.bind (parsePressure parse) with
  | none => rfl
  | some p =>
    rw [List.filter_cons,Option.filter_some]
    cases high p.someAvg10 <;> rfl

/-- No one else touches what the thread has seen. -/
theorem wp_call (op : Op V) {Q : op.Ans → Unit → Seen V → Prop} (holds : Kept parse high (some op) () e)
    (rest : ∀ r e', answer op () e r = some e' → Q r () e') :
    (perform op : Code V op.Ans).wp machine.surroundings (Kept parse high) Q () e := by
  refine wp_perform (P := fun e' => e' = e) rfl ?_ ?_ ?_
  · rintro e₁ e₂ ⟨event,-⟩ _
    exact event.elim
  · rintro e₁ rfl
    exact holds
  · rintro e₁ r e₂ rfl answered
    exact rest r e₂ answered

theorem wp_check (warned : due parse high e.texts = e.warnings) :
    (check parse high).wp machine.surroundings (Kept parse high)
      (fun turn _ e => match turn with
        | .inl _ => due parse high e.texts = e.warnings
        | .inr c => nomatch c) () e := by
  refine (wp_bind _ _ _ _ _).mpr (wp_call (.sleep checkInterval) warned fun _ e₁ slept => ?_)
  obtain rfl := Option.some.inj slept
  refine (wp_bind _ _ _ _ _).mpr ((wp_bind _ _ _ _ _).mpr (wp_call .readPressureFile warned fun text e₂ read => ?_))
  obtain rfl := Option.some.inj read
  have next : due parse high (text :: e.texts) = _ := due_cons text e.texts
  rw [wp_pure]
  cases reading : text.bind (parsePressure parse) with
  | none =>
    rw [reading] at next
    exact next.trans warned
  | some p =>
    rw [reading] at next
    refine (wp_bind _ _ _ _ _).mpr ((wp_provided _ _ _ _ _).mpr ?_)
    cases above : high p.someAvg10 with
    | false =>
      rw [Option.filter_some,above] at next
      exact next.trans warned
    | true =>
      rw [Option.filter_some,above] at next
      have one_left : due parse high (text :: e.texts) = p :: e.warnings :=
        next.trans (congrArg (p :: ·) warned)
      rw [if_pos rfl]
      refine wp_call (.warn p) one_left fun _ e₃ told => ?_
      obtain rfl := Option.some.inj told
      exact one_left

end Watching

/-- However long the monitor runs and whatever it reads: it has warned of exactly the readings at the
threshold or beyond, each once and in their order, but for the one it is about to warn of. -/
theorem warned_of_all (parse : List Char → Option V) (high : V → Bool)
    (s : State Unit (Op V) (@Op.Ans V) (Seen V) Empty)
    (run : Reaches machine.surroundings ⟨spawnMonitor parse high,(),{}⟩ s) :
    Kept parse high s.program.next? s.mem s.env := by
  refine wp_everywhere run (Q := fun a _ _ => nomatch a) ?_ (fun a => nomatch a)
  refine wp_repeatFrom (fun _ _ e => due parse high e.texts = e.warnings) rfl ?_ ?_
  · exact fun _ _ _ warned => warned
  · intro _ _ _ warned
    refine wp_mono (wp_check warned) ?_
    intro turn m e done
    cases turn with
    | inl _ => exact done
    | inr c => exact c.elim

def hundredths (s : List Char) : Option Nat := do
  let halves ← Text.splitOnce '.' s
  let whole ← Text.digits halves.1
  let parts ← Text.digits halves.2
  pure (100 * whole + parts)

def pressureFile (someAvg10 fullAvg10 : String) : List Char :=
  s!"some avg10={someAvg10} avg60=0.00 avg300=0.00 total=123\nfull avg10={fullAvg10} avg60=0.00 avg300=0.00 total=45\n".toList

def readings : List (Option (List Char)) :=
  [some (pressureFile "12.34" "1.20"),none,some (pressureFile "60.00" "3.10"),some (pressureFile "0.00" "0.00")]

def reader : (op : Op Nat) → Unit → Seen Nat → op.Ans
  | .readPressureFile, _, e => readings.getD e.texts.length none
  | .sleep _, _, _ => ()
  | .warn _, _, _ => ()

def atWarning : Op Nat → Bool
  | .warn _ => true
  | _ => false

theorem warned_of_all_pressing : ∃ s : State Unit (Op Nat) (@Op.Ans Nat) (Seen Nat) Empty,
    s.env.texts.length = 5 ∧ s.env.warnings.length = 1 ∧
    Kept hundredths (6000 ≤ ·) s.program.next? s.mem s.env := by
  have there : (drive machine reader (.upTo atWarning 20 :: List.replicate 7 .step)
      (⟨spawnMonitor hundredths (6000 ≤ ·),(),{}⟩ : State Unit (Op Nat) (@Op.Ans Nat) (Seen Nat) Empty)).any
      (fun s => s.env.texts.length == 5 && s.env.warnings.length == 1) = true := by decide +kernel
  obtain ⟨s,driven,counts⟩ := (Option.any_eq_true _ _).mp there
  obtain ⟨five,one⟩ := Bool.and_eq_true_iff.mp counts
  exact ⟨s,beq_iff_eq.mp five,beq_iff_eq.mp one,
    warned_of_all hundredths (6000 ≤ ·) s (drive_reaches driven)⟩

end Monitor
end MitosServices.Pressure
