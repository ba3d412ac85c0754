import MitosServices.EventLoop
import MitosServices.Units

/-! What is handed to `spawn_all` at boot. The fallback service and the filter by target are chosen
apart from each other, so the list can come out empty. -/
namespace MitosServices.Config

def loaded (text : Option (List Char)) (units : List ServiceDef) : Config :=
  let cfg := loadOrDefault text
  { cfg with services := mergeServices cfg.services units }

def bootServices (text : Option (List Char)) (units : List ServiceDef) : List ServiceDef :=
  Targets.servicesIn (loaded text units).services (loaded text units).defaultTarget

/-- It is this list that `main` goes on to start. -/
theorem boot_loaded (text : Option (List Char)) (units : List ServiceDef) :
    boot (loaded text units) = (do
      call .spawnListener
      call .spawnMonitor
      publishTargets (loaded text units).defaultTarget (loaded text units).services
      let timerDefs ← call .loadTimers
      Interaction.Program.update fun m => { m with
        services := ∅
        cfg := loaded text units
        currentTarget := (loaded text units).defaultTarget
        timerDefs }
      spawnAll (bootServices text units)) := rfl

section Lines

def serviceLine (line : List Char) : Option ServiceDef :=
  (Text.stripPrefix "service ".toList line).bind fun rest => (parseService rest).toOption

def targetLine (line : List Char) : Option String :=
  match Text.stripPrefix "service ".toList line with
  | some _ => none
  | none => (Text.splitOnce '=' line).bind fun (key,value) =>
    if String.ofList (Text.trim key) = "default_target" then
      some (String.ofList (Text.trimMatches '"' (Text.trim value)))
    else none

def declared (text : Option (List Char)) : List ServiceDef :=
  (text.elim [] spokenLines).filterMap serviceLine

def chosenTarget (text : Option (List Char)) : String :=
  ((text.elim [] spokenLines).filterMap targetLine).getLast?.getD Targets.defaultTarget

variable {parsed : Parsed} {line : List Char}

theorem setKey_services (parsed : Parsed) (key : String) (value : List Char) :
    (setKey parsed key value).cfg.services = parsed.cfg.services := by
  unfold setKey
  split <;> rfl

theorem setKey_defaultTarget (parsed : Parsed) (key : String) (value : List Char) :
    (setKey parsed key value).cfg.defaultTarget =
      if key = "default_target" then String.ofList value else parsed.cfg.defaultTarget := by
  unfold setKey
  split <;> simp_all [Parsed.warn]

theorem parseLine_services : (parseLine parsed line).cfg.services =
    parsed.cfg.services ++ (serviceLine line).toList := by
  unfold parseLine serviceLine
  cases Text.stripPrefix "service ".toList line with
  | some rest =>
    dsimp only [addService,Option.bind_some]
    cases parseService rest with
    | ok svc => rfl
    | error e => exact (List.append_nil _).symm
  | none =>
    rw [Option.bind_none,Option.toList_none,List.append_nil]
    dsimp only
    split
    · exact setKey_services _ _ _
    · rfl

theorem parseLine_defaultTarget : (parseLine parsed line).cfg.defaultTarget =
    (targetLine line).getD parsed.cfg.defaultTarget := by
  unfold parseLine targetLine
  cases Text.stripPrefix "service ".toList line with
  | some rest =>
    dsimp only [addService]
    split <;> rfl
  | none =>
    dsimp only
    split
    · rename_i key value found
      rw [found,setKey_defaultTarget]
      dsimp only [Option.bind_some]
      split <;> rfl
    · rename_i found
      rw [found]
      rfl

theorem foldl_parseLine_services (lines : List (List Char)) :
    (lines.foldl parseLine parsed).cfg.services =
      parsed.cfg.services ++ lines.filterMap serviceLine := by
  induction lines generalizing parsed with
  | nil => exact (List.append_nil _).symm
  | cons line lines ih =>
    rw [List.foldl_cons,ih,parseLine_services,List.append_assoc,List.filterMap_cons]
    cases serviceLine line <;> rfl

theorem foldl_parseLine_defaultTarget (lines : List (List Char)) :
    (lines.foldl parseLine parsed).cfg.defaultTarget =
      (lines.filterMap targetLine).getLast?.getD parsed.cfg.defaultTarget := by
  induction lines generalizing parsed with
  | nil => rfl
  | cons line lines ih =>
    rw [List.foldl_cons,ih,parseLine_defaultTarget,List.filterMap_cons]
    cases targetLine line with
    | none => rfl
    | some target =>
      dsimp only [Option.getD_some]
      rw [List.getLast?_cons]
      rfl

/-- The services of a file are those it declares, or the built-in one if it declares none. -/
theorem loadOrDefault_services (text : Option (List Char)) : (loadOrDefault text).services =
    if (declared text).isEmpty then default.services else declared text := by
  cases text with
  | none => rfl
  | some text =>
    have read : (parseLines text).cfg.services = declared (some text) :=
      (foldl_parseLine_services _).trans (List.nil_append _)
    dsimp only [loadOrDefault,parse]
    rw [read]
    split
    · rfl
    · exact read

theorem loadOrDefault_defaultTarget (text : Option (List Char)) :
    (loadOrDefault text).defaultTarget = chosenTarget text := by
  cases text with
  | none => rfl
  | some text =>
    have read : (parseLines text).cfg.defaultTarget = chosenTarget (some text) :=
      foldl_parseLine_defaultTarget _
    dsimp only [loadOrDefault,parse]
    split
    · exact read
    · exact read

end Lines

section Merged

/-- `d` is in the list, and neither `names` nor an earlier service has its name. -/
def FirstNamed (names : List String) (extra : List ServiceDef) (d : ServiceDef) : Prop :=
  ∃ before after, extra = before ++ d :: after ∧ d.name ∉ names ∧ d.name ∉ before.map ServiceDef.name

theorem firstNamed_cons_iff {names : List String} {svc d : ServiceDef} {extra : List ServiceDef} :
    FirstNamed names (svc :: extra) d ↔ d = svc ∧ d.name ∉ names ∨
      FirstNamed (names ++ [svc.name]) extra d := by
  constructor
  · rintro ⟨before,after,split,fresh,first⟩
    cases before with
    | nil =>
      obtain ⟨rfl,-⟩ := List.cons.inj split
      exact .inl ⟨rfl,fresh⟩
    | cons head before =>
      obtain ⟨rfl,rest⟩ := List.cons.inj split
      simp only [List.map_cons,List.mem_cons,not_or] at first
      exact .inr ⟨before,after,rest,by simp [fresh,first.1],first.2⟩
  · rintro (⟨rfl,fresh⟩ | ⟨before,after,rfl,fresh,first⟩)
    · exact ⟨[],extra,rfl,fresh,by simp⟩
    · simp only [List.mem_append,List.mem_singleton,not_or] at fresh
      exact ⟨svc::before,after,rfl,fresh.1,by simp [fresh.2,first]⟩

theorem firstNamed_shadowed {names : List String} {name : String} {d : ServiceDef}
    {extra : List ServiceDef} (shadowed : name ∈ names) :
    FirstNamed (names ++ [name]) extra d ↔ FirstNamed names extra d := by
  simp only [FirstNamed,List.mem_append,List.mem_singleton,not_or]
  refine exists_congr fun before => exists_congr fun after => and_congr_right fun _ => and_congr_left fun _ => ?_
  constructor
  · exact fun fresh => fresh.1
  · exact fun fresh => ⟨fresh,fun same => fresh (same ▸ shadowed)⟩

/-- A unit is merged in if it is the first of its name and none of the base has that name. -/
theorem mem_mergeServices_iff {base extra : List ServiceDef} {d : ServiceDef} :
    d ∈ mergeServices base extra ↔ d ∈ base ∨ FirstNamed (base.map ServiceDef.name) extra d := by
  induction extra generalizing base with
  | nil => simp [mergeServices,FirstNamed]
  | cons svc extra ih =>
    have shadowed_iff : (base.any fun s => s.name == svc.name) = true ↔
        svc.name ∈ base.map ServiceDef.name := by simp
    rw [mergeServices,firstNamed_cons_iff]
    split
    · rename_i shadowed
      rw [shadowed_iff] at shadowed
      rw [ih,firstNamed_shadowed shadowed]
      constructor
      · exact fun there => there.imp_right .inr
      · rintro (there | ⟨rfl,fresh⟩ | there)
        · exact .inl there
        · exact absurd shadowed fresh
        · exact .inr there
    · rename_i fresh
      rw [shadowed_iff] at fresh
      rw [ih,List.mem_append,List.mem_singleton,List.map_append,List.map_singleton]
      constructor
      · rintro ((there | rfl) | there)
        · exact .inl there
        · exact .inr (.inl ⟨rfl,fresh⟩)
        · exact .inr (.inr there)
      · rintro (there | ⟨rfl,-⟩ | there)
        · exact .inl (.inl there)
        · exact .inl (.inr rfl)
        · exact .inr there

end Merged

def takenNames (text : Option (List Char)) : List String :=
  if (declared text).isEmpty then ["shell"] else (declared text).map ServiceDef.name

theorem loadOrDefault_names (text : Option (List Char)) :
    (loadOrDefault text).services.map ServiceDef.name = takenNames text := by
  rw [loadOrDefault_services,takenNames]
  split <;> rfl

/-- The list is not empty exactly if the chosen target has a service in it: one declared inline,
the built-in one where none is declared, or a unit whose name is not taken by another. -/
theorem bootServices_nonempty_iff (text : Option (List Char)) (units : List ServiceDef) :
    bootServices text units ≠ [] ↔
      (∃ d ∈ declared text, d.target = chosenTarget text) ∨
      (declared text = [] ∧ chosenTarget text = "multi-user") ∨
      ∃ unit, FirstNamed (takenNames text) units unit ∧ unit.target = chosenTarget text := by
  have members : bootServices text units ≠ [] ↔
      ∃ d ∈ mergeServices (loadOrDefault text).services units, d.target = chosenTarget text := by
    rw [bootServices,Targets.servicesIn,loaded,loadOrDefault_defaultTarget,ne_eq,
      List.filter_eq_nil_iff]
    simp
  have inline : (∃ d ∈ (loadOrDefault text).services, d.target = chosenTarget text) ↔
      (∃ d ∈ declared text, d.target = chosenTarget text) ∨
        declared text = [] ∧ chosenTarget text = "multi-user" := by
    rw [loadOrDefault_services]
    cases declared text with
    | nil => simp [default,Targets.defaultTarget,eq_comm]
    | cons d rest => simp
  rw [members,← or_assoc,← inline]
  simp only [mem_mergeServices_iff,loadOrDefault_names,or_and_right,exists_or]

/-- A target nothing belongs to: the built-in shell is left out too. -/
theorem boots_nothing : ¬ ∀ text units, bootServices text units ≠ [] := by
  intro claim
  exact claim (some "default_target=graphical\n".toList) [] (by decide +kernel)

end MitosServices.Config
