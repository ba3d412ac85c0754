import MitosServices.Formats

/-! `services.d`: unit files and timer files side by side. They are read in the order of their names,
however the directory lists them; a file that is neither, or that is broken, is passed over. -/
namespace MitosServices.Units
open Timers (File filesWith)

def loadUnit (f : File) : Option ServiceDef := f.text.bind fun text =>
  (parseUnit ("/etc/mitos/services.d/" ++ String.ofList f.name) (some (fileStem f.name)) text).toOption

def loadAll (files : List File) : List ServiceDef := (filesWith "service" files).filterMap loadUnit

end MitosServices.Units

namespace MitosServices.DropIns
open Timers (File filesWith)

section Listing
variable {β : Type} {ext : String} {files files' : List File} {load : File → Option β} {name : β → String}

def byFile (ext : String) (name : β → String) (a b : β) : Bool :=
  decide (name a ++ "." ++ ext ≤ name b ++ "." ++ ext)

theorem mem_filesWith {f : File} (member : f ∈ filesWith ext files) :
    f ∈ files ∧ Units.extension f.name = some ext.toList := by
  obtain ⟨there,extension⟩ := List.mem_filter.mp ((List.mergeSort_perm _ _).mem_iff.mp member)
  exact ⟨there,beq_iff_eq.mp extension⟩

theorem filesWith_sorted (ext : String) (files : List File) :
    (filesWith ext files).Pairwise fun f g => String.ofList f.name ≤ String.ofList g.name := by
  have sorted := @List.pairwise_mergeSort File (fun f g => decide (String.ofList f.name ≤ String.ofList g.name))
    (fun a b c first second => decide_eq_true (String.le_trans (of_decide_eq_true first) (of_decide_eq_true second)))
    (fun a b => by simpa using String.le_total (String.ofList a.name) (String.ofList b.name))
    (files.filter fun f => Units.extension f.name == some ext.toList)
  exact sorted.imp fun before => of_decide_eq_true before

def Named (ext : String) (load : File → Option β) (name : β → String) : Prop :=
  ∀ f b, Units.extension f.name = some ext.toList → load f = some b → String.ofList f.name = name b ++ "." ++ ext

theorem loaded_sorted (named : Named ext load name) :
    ((filesWith ext files).filterMap load).Pairwise fun a b => byFile ext name a b = true := by
  rw [List.pairwise_filterMap]
  refine (filesWith_sorted ext files).imp_of_mem ?_
  intro f g inF inG before a loadedA b loadedB
  rw [byFile,← named f a (mem_filesWith inF).2 loadedA,← named g b (mem_filesWith inG).2 loadedB]
  exact decide_eq_true before

/-- What is loaded, in the order of the file names, whatever order the directory lists them in. -/
theorem loaded_eq (named : Named ext load name) {bs : List β} (distinct : (bs.map name).Nodup)
    (loads : ((files.filter fun f => Units.extension f.name == some ext.toList).filterMap load).Perm bs) :
    (filesWith ext files).filterMap load = bs.mergeSort (byFile ext name) := by
  have same : ((filesWith ext files).filterMap load).Perm (bs.mergeSort (byFile ext name)) :=
    (((List.mergeSort_perm _ _).filterMap load).trans loads).trans (List.mergeSort_perm _ _).symm
  have sorted : (bs.mergeSort (byFile ext name)).Pairwise fun a b => byFile ext name a b = true := by
    apply List.pairwise_mergeSort
    · exact fun a b c first second => decide_eq_true (String.le_trans (of_decide_eq_true first) (of_decide_eq_true second))
    · exact fun a b => by simpa [byFile] using String.le_total (name a ++ "." ++ ext) (name b ++ "." ++ ext)
  refine same.eq_of_pairwise ?_ (loaded_sorted named) sorted
  intro a b inA inB before after
  have names : name a ++ "." ++ ext = name b ++ "." ++ ext :=
    String.le_antisymm (of_decide_eq_true before) (of_decide_eq_true after)
  have inBs : a ∈ bs := (List.mergeSort_perm _ _).mem_iff.mp (same.mem_iff.mp inA)
  refine List.inj_on_of_nodup_map distinct inBs ((List.mergeSort_perm _ _).mem_iff.mp inB) ?_
  simpa using names

end Listing

theorem fileStem_append {stem ext : List Char} (nonempty : stem ≠ []) (plain : '.' ∉ ext) :
    Units.fileStem (stem ++ '.' :: ext) = stem ∧ Units.extension (stem ++ '.' :: ext) = some ext := by
  have backwards : (stem ++ '.' :: ext).reverse = ext.reverse ++ '.' :: stem.reverse := by simp
  have back : stem.reverse ≠ [] := by simpa using nonempty
  obtain ⟨c,rest,first⟩ := List.exists_cons_of_ne_nil back
  rw [Units.fileStem,Units.extension,backwards,Text.splitOnce_append (by simpa using plain),first]
  simp only
  rw [← first,List.reverse_reverse,List.reverse_reverse]
  exact ⟨rfl,rfl⟩

section Layout
variable {own : List Char} {inside : Bool} {lines entries : List (List Char)}

/-- Lines in which these entries stand, one on a line, under headings `[own]`, and between them comments, blank
lines and whatever stands under other headings. `inside` tells whether the heading above them all is `[own]`. -/
inductive Layout (own : List Char) : Bool → List (List Char) → List (List Char) → Prop
  | done (inside : Bool) : Layout own inside [] []
  | silent {inside : Bool} {line : List Char} {lines entries : List (List Char)}
      (quiet : Units.ignored (Text.trim line) = true) (rest : Layout own inside lines entries) :
      Layout own inside (line :: lines) entries
  | heading {inside : Bool} {line name : List Char} {lines entries : List (List Char)}
      (spoken : Units.ignored (Text.trim line) = false) (named : Units.sectionName (Text.trim line) = some name)
      (rest : Layout own (name == own) lines entries) : Layout own inside (line :: lines) entries
  | entry {line : List Char} {lines entries : List (List Char)} (spoken : Units.ignored (Text.trim line) = false)
      (unnamed : Units.sectionName (Text.trim line) = none) (rest : Layout own true lines entries) :
      Layout own true (line :: lines) (Text.trim line :: entries)
  | foreign {line : List Char} {lines entries : List (List Char)}
      (unnamed : Units.sectionName (Text.trim line) = none) (rest : Layout own false lines entries) :
      Layout own false (line :: lines) entries

theorem layout_headed {line : List Char} (spoken : Units.ignored (Text.trim line) = false)
    (named : Units.sectionName (Text.trim line) = some own) (rest : Layout own true lines entries) :
    Layout own inside (line :: lines) entries := .heading spoken named (by rwa [beq_self_eq_true])

theorem layout_elsewhere {line name : List Char} (spoken : Units.ignored (Text.trim line) = false)
    (named : Units.sectionName (Text.trim line) = some name) (apart : name ≠ own) (rest : Layout own false lines entries) :
    Layout own inside (line :: lines) entries := .heading spoken named (by rwa [beq_eq_false_iff_ne.mpr apart])

/-- Entries written one after the other. -/
theorem layout_written (written : ∀ e ∈ entries, Formats.Unit.Written e ∧ Units.sectionName e = none)
    (rest : Layout own true lines []) : Layout own true (entries ++ lines) entries := by
  induction entries with
  | nil => exact rest
  | cons e entries ih =>
    obtain ⟨here,unnamed⟩ := written e List.mem_cons_self
    have trimmed : Text.trim e = e := Text.trim_word here.word
    have later := ih fun e member => written e (List.mem_cons_of_mem _ member)
    have stands : Layout own true (e :: (entries ++ lines)) (Text.trim e :: entries) := by
      refine .entry ?_ ?_ later
      · rw [trimmed]
        exact here.spoken
      · rw [trimmed]
        exact unnamed
    rwa [trimmed] at stands

variable {R B : Type} {parse : R → List Char → R} {body : R → B} {heading : R → List Char}
  {step : B → List Char → B}

structure Sectional (own : List Char) (parse : R → List Char → R) (body : R → B) (heading : R → List Char)
    (step : B → List Char → B) : Prop where
  named : ∀ r line name, Units.sectionName line = some name → body (parse r line) = body r ∧ heading (parse r line) = name
  unnamed : ∀ r line, Units.sectionName line = none → heading (parse r line) = heading r
  foreign : ∀ r line, Units.sectionName line = none → heading r ≠ own → body (parse r line) = body r
  heeds : ∀ r line, Units.sectionName line = none → heading r = own → body (parse r line) = step (body r) line

/-- All that is read of a text is its entries. -/
theorem Layout.foldl_parse (sectional : Sectional own parse body heading step) (layout : Layout own inside lines entries)
    (r : R) (under : (heading r == own) = inside) :
    body (((lines.map Text.trim).filter fun line => !Units.ignored line).foldl parse r) = entries.foldl step (body r) := by
  induction layout generalizing r with
  | done inside => rfl
  | silent quiet rest ih =>
    rw [List.map_cons,List.filter_cons_of_neg (by simp [quiet])]
    exact ih r under
  | heading spoken named rest ih =>
    obtain ⟨same,headed⟩ := sectional.named r _ _ named
    rw [List.map_cons,List.filter_cons_of_pos (by simp [spoken]),List.foldl_cons,ih _ (by rw [headed]),same]
  | entry spoken unnamed rest ih =>
    have here := sectional.heeds r _ unnamed (beq_iff_eq.mp under)
    rw [List.map_cons,List.filter_cons_of_pos (by simp [spoken]),List.foldl_cons,
      ih _ (by rw [sectional.unnamed r _ unnamed,under]),here,List.foldl_cons]
  | @foreign line lines entries unnamed rest ih =>
    rw [List.map_cons,List.filter_cons]
    split
    · have apart : heading r ≠ own := fun same => by simp [same] at under
      rw [List.foldl_cons,ih _ (by rw [sectional.unnamed r _ unnamed,under]),sectional.foreign r _ unnamed apart]
    · exact ih r under

end Layout

section Service
open Formats (Key Plain)
variable {d : ServiceDef} {keys : List Key} {text text' : List Char} {entries : List (List Char)}

def unitFile (text : List Char) (d : ServiceDef) : File := ⟨d.name.toList ++ ".service".toList,some text⟩

/-- A text that spells the service out under `[Service]`, with the keys in some order. -/
def SpellsUnit (text : List Char) (d : ServiceDef) : Prop := ∃ keys : List Key, keys.Perm Key.all ∧
  Layout "Service".toList false (Text.lines text) (keys.filterMap (Formats.Unit.entry d))

theorem setKey_heading (path : String) (u : Units.Reading) (key : String) (value : List Char) :
    (Units.setKey path u key value).heading = u.heading := by
  unfold Units.setKey
  split <;> rfl

theorem setKey_fields (path : String) (u : Units.Reading) (key : String) (value : List Char) :
    (Units.setKey path u key value).fields = (Units.setKey path { fields := u.fields } key value).fields := by
  unfold Units.setKey
  split <;> rfl

def unitStep (path : String) (fields : Config.Fields) (line : List Char) : Config.Fields :=
  (Units.parseLine path { fields, heading := "Service".toList } line).fields

theorem unit_sectional (path : String) :
    Sectional "Service".toList (Units.parseLine path) Units.Reading.fields Units.Reading.heading (unitStep path) where
  named r line name named := by
    unfold Units.parseLine
    rw [named]
    exact ⟨rfl,rfl⟩
  unnamed r line unnamed := by
    simp only [Units.parseLine,unnamed]
    split
    · rfl
    · split
      · rfl
      · exact setKey_heading _ _ _ _
  foreign r line unnamed apart := by
    simp only [Units.parseLine,unnamed]
    split
    · rfl
    · rw [if_pos apart]
  heeds r line unnamed own := by
    unfold unitStep Units.parseLine
    generalize "Service".toList = service at own ⊢
    rw [unnamed]
    dsimp only
    split
    · rfl
    · rw [if_neg (not_not_intro own),if_neg (not_not_intro rfl)]
      exact (setKey_fields _ r _ _).trans (setKey_fields _ { fields := r.fields, heading := _ } _ _).symm

/-- Texts with the same entries hold the same service. -/
theorem parseUnit_layout {path : String} {stem : List Char}
    (first : Layout "Service".toList false (Text.lines text) entries)
    (second : Layout "Service".toList false (Text.lines text') entries) :
    Units.parseUnit path (some stem) text = Units.parseUnit path (some stem) text' := by
  have one := first.foldl_parse (unit_sectional path) { fields := { svc := { name := String.ofList stem } } } rfl
  have two := second.foldl_parse (unit_sectional path) { fields := { svc := { name := String.ofList stem } } } rfl
  have same : (Units.parseLines path stem text).fields = (Units.parseLines path stem text').fields := one.trans two.symm
  simp only [Units.parseUnit,same]

theorem written_entries (plain : Plain d) (keys : List Key) : ∀ e ∈ keys.filterMap (Formats.Unit.entry d),
    Formats.Unit.Written e ∧ Units.sectionName e = none := by
  intro e member
  obtain ⟨k,-,there⟩ := List.mem_filterMap.mp member
  obtain ⟨v,spelt,rfl⟩ := Option.map_eq_some_iff.mp there
  exact ⟨Formats.Unit.written_entry plain spelt,Formats.Unit.unnamed_entry k v⟩

theorem layout_text (plain : Plain d) (keys : List Key) : Layout "Service".toList false
    (Text.lines (Formats.Unit.text d keys)) (keys.filterMap (Formats.Unit.entry d)) := by
  have written := written_entries plain keys
  have lines : Text.lines (Formats.Unit.text d keys) = "[Service]".toList :: keys.filterMap (Formats.Unit.entry d) := by
    refine Text.lines_flatMap fun line member => ?_
    rcases List.mem_cons.mp member with rfl | later
    · decide
    · exact (written line later).1.single
  rw [lines]
  exact layout_headed (by decide) (by decide) (by simpa using layout_written written (.done true))

theorem extension_unitFile (plain : Plain d) : Units.extension (unitFile text d).name = some "service".toList :=
  (fileStem_append (Formats.solid_named plain.name.1).nonempty (by decide)).2

theorem loadUnit_unitFile (plain : Plain d) (spells : SpellsUnit text d) : Units.loadUnit (unitFile text d) = some d := by
  obtain ⟨keys,all,layout⟩ := spells
  have stem : Units.fileStem (unitFile text d).name = d.name.toList :=
    (fileStem_append (Formats.solid_named plain.name.1).nonempty (by decide)).1
  have read : Units.parseUnit ("/etc/mitos/services.d/" ++ String.ofList (unitFile text d).name) (some d.name.toList)
      text = .ok d := (parseUnit_layout layout (layout_text plain keys)).trans (Formats.Unit.parseUnit_text plain all)
  rw [Units.loadUnit,stem]
  change (Units.parseUnit _ _ text).toOption = some d
  rw [read]
  rfl

theorem setKey_name (path : String) (u : Units.Reading) (key : String) (value : List Char) :
    (Units.setKey path u key value).fields.svc.name = u.fields.svc.name := by
  unfold Units.setKey
  split <;> rfl

theorem parseLine_name (path : String) (u : Units.Reading) (line : List Char) :
    (Units.parseLine path u line).fields.svc.name = u.fields.svc.name := by
  unfold Units.parseLine
  split
  · rfl
  · split
    · rfl
    · split
      · rfl
      · exact setKey_name _ _ _ _

theorem parseUnit_name {path : String} {stem text : List Char}
    (parsed : Units.parseUnit path (some stem) text = .ok d) : d.name = String.ofList stem := by
  have kept : ∀ (ls : List (List Char)) (u : Units.Reading),
      (ls.foldl (Units.parseLine path) u).fields.svc.name = u.fields.svc.name := by
    intro ls
    induction ls with
    | nil => exact fun _ => rfl
    | cons line ls ih => exact fun u => (ih _).trans (parseLine_name path u line)
  have named := kept (Units.spokenLines text) { fields := { svc := { name := String.ofList stem } } }
  unfold Units.parseUnit Units.finish at parsed
  dsimp only at parsed
  split at parsed
  · contradiction
  · split at parsed
    · contradiction
    · cases parsed
      exact named

theorem file_named {f : File} {ext : String} {name : String} (extension : Units.extension f.name = some ext.toList)
    (named : name = String.ofList (Units.fileStem f.name)) : String.ofList f.name = name ++ "." ++ ext := by
  have whole := Units.stem_extension extension
  apply String.toList_inj.mp
  rw [named,String.toList_ofList,whole,← whole]
  simpa using whole

theorem loadUnit_named : Named "service" Units.loadUnit ServiceDef.name := by
  intro f d extension loaded
  obtain ⟨text,-,parsed⟩ := Option.bind_eq_some_iff.mp loaded
  refine file_named extension ?_
  cases result : Units.parseUnit ("/etc/mitos/services.d/" ++ String.ofList f.name) (some (Units.fileStem f.name)) text with
  | error e =>
    rw [result] at parsed
    contradiction
  | ok d' =>
    rw [result] at parsed
    obtain rfl : d' = d := Option.some.inj parsed
    exact parseUnit_name result

end Service

section Timer
variable {t : TimerDef} {text text' : List Char} {entries : List (List Char)}

inductive TimerKey
  | onBoot | onActive
deriving DecidableEq, Repr

def TimerKey.word : TimerKey → String
  | onBoot => "OnBootSec"
  | onActive => "OnUnitActiveSec"

def TimerKey.value (t : TimerDef) : TimerKey → Option Nat
  | onBoot => t.onBoot
  | onActive => t.onActive

/-- What a timer file can say: whole seconds, of which there has to be one kind. -/
structure Sound (t : TimerDef) : Prop where
  name : t.name ≠ ""
  seconds : ∀ k : TimerKey, ∀ s ∈ k.value t, ∃ n < 2^64, s = fromSecs n
  either : t.onBoot.isSome ∨ t.onActive.isSome

def timerEntry (t : TimerDef) (k : TimerKey) : Option (List Char) :=
  (k.value t).map fun s => k.word.toList ++ '=' :: Formats.seconds s

def timerText (keys : List TimerKey) (t : TimerDef) : List Char :=
  ("[Timer]".toList :: keys.filterMap (timerEntry t)).flatMap fun line => line ++ ['\n']

def timerFile (text : List Char) (t : TimerDef) : File := ⟨t.name.toList ++ ".timer".toList,some text⟩

def SpellsTimer (text : List Char) (t : TimerDef) : Prop := ∃ keys : List TimerKey, keys.Perm [.onBoot,.onActive] ∧
  Layout "Timer".toList false (Text.lines text) (keys.filterMap (timerEntry t))

def putTimer (t : TimerDef) (k : TimerKey) (r : Timers.Reading) : Timers.Reading :=
  match k with
  | .onBoot => { r with onBoot := t.onBoot.or r.onBoot }
  | .onActive => { r with onActive := t.onActive.or r.onActive }

theorem putTimer_heading (t : TimerDef) (k : TimerKey) (r : Timers.Reading) : (putTimer t k r).heading = r.heading := by
  cases k <;> rfl

theorem solid_word (k : TimerKey) : Text.Solid k.word.toList ∧ '=' ∉ k.word.toList ∧
    ∃ rest, k.word.toList = 'O' :: rest := by
  cases k <;> exact ⟨Text.solid_of_all (by decide) (by decide),by decide,_,rfl⟩

theorem solid_timerEntry (k : TimerKey) (s : Nat) : Text.Solid (k.word.toList ++ '=' :: Formats.seconds s) where
  nonempty := by simp
  solid c member := by
    rcases List.mem_append.mp member with key | rest
    · exact (solid_word k).1.solid c key
    · rcases List.mem_cons.mp rest with rfl | inside
      · rfl
      · exact (Formats.solid_digits _).solid c inside

theorem written_timerEntry (k : TimerKey) (s : Nat) :
    Formats.Unit.Written (k.word.toList ++ '=' :: Formats.seconds s) := by
  have solid := solid_timerEntry k s
  refine ⟨solid.word,⟨?_,?_⟩,?_⟩
  · exact fun member => absurd (solid.solid _ member) (by decide)
  · exact fun member => absurd (solid.solid _ member) (by decide)
  · obtain ⟨rest,first⟩ := (solid_word k).2.2
    rw [first]
    rfl

theorem setKey_value {k : TimerKey} {s : Nat} (sound : Sound t) (spelt : k.value t = some s) (r : Timers.Reading) :
    Timers.setKey r k.word (Formats.seconds s) = putTimer t k r := by
  obtain ⟨n,fits,rfl⟩ := sound.seconds k s spelt
  have read : Config.parseSecs (Formats.seconds (fromSecs n)) = some (fromSecs n) := Formats.parseSecs_seconds fits
  cases k with
  | onBoot =>
    have spelt : t.onBoot = some (fromSecs n) := spelt
    simp [TimerKey.word,Timers.setKey,putTimer,read,spelt]
  | onActive =>
    have spelt : t.onActive = some (fromSecs n) := spelt
    simp [TimerKey.word,Timers.setKey,putTimer,read,spelt]

theorem unnamed_timerEntry (k : TimerKey) (s : Nat) :
    Units.sectionName (k.word.toList ++ '=' :: Formats.seconds s) = none := by
  obtain ⟨rest,first⟩ := (solid_word k).2.2
  rw [Units.sectionName,Text.stripPrefix_eq_none]
  · rfl
  · rw [first]
    simp

theorem parseLine_timerEntry {k : TimerKey} {s : Nat} {r : Timers.Reading} (sound : Sound t)
    (within : r.heading = "Timer".toList) (spelt : k.value t = some s) :
    Timers.parseLine r (k.word.toList ++ '=' :: Formats.seconds s) = putTimer t k r := by
  obtain ⟨solid,unequal,-⟩ := solid_word k
  have value : Text.trim (Formats.seconds s) = Formats.seconds s := Text.trim_word (Formats.solid_digits _).word
  simp only [Timers.parseLine,unnamed_timerEntry k s,Text.splitOnce_append unequal,within,ne_eq,not_true_eq_false,if_false,
    Text.trim_word solid.word,value,String.ofList_toList,setKey_value sound spelt]

theorem foldl_timerEntries (sound : Sound t) (keys : List TimerKey) (r : Timers.Reading)
    (within : r.heading = "Timer".toList) :
    (keys.filterMap (timerEntry t)).foldl Timers.parseLine r = keys.foldl (fun r k => putTimer t k r) r := by
  induction keys generalizing r with
  | nil => rfl
  | cons k keys ih =>
    cases spelt : k.value t with
    | none =>
      have left : timerEntry t k = none := by rw [timerEntry,spelt]; rfl
      have same : putTimer t k r = r := by
        cases k with
        | onBoot => simp [putTimer,show t.onBoot = none from spelt]
        | onActive => simp [putTimer,show t.onActive = none from spelt]
      rw [List.filterMap_cons_none left,List.foldl_cons,same,ih r within]
    | some s =>
      have there : timerEntry t k = some (k.word.toList ++ '=' :: Formats.seconds s) := by rw [timerEntry,spelt]; rfl
      rw [List.filterMap_cons_some there,List.foldl_cons,parseLine_timerEntry sound within spelt,List.foldl_cons]
      exact ih _ ((putTimer_heading t k r).trans within)

theorem spokenLines_timerText (t : TimerDef) (keys : List TimerKey) :
    Units.spokenLines (timerText keys t) = "[Timer]".toList :: keys.filterMap (timerEntry t) := by
  apply Formats.Unit.spokenLines_written
  intro line member
  rcases List.mem_cons.mp member with rfl | later
  · exact ⟨Text.word_of_ends (c := '[') (d := ']') (by decide) (by decide) (by decide),by decide,by decide⟩
  · obtain ⟨k,-,there⟩ := List.mem_filterMap.mp later
    obtain ⟨s,-,rfl⟩ := Option.map_eq_some_iff.mp there
    exact written_timerEntry k s

theorem parseTimer_timerText (sound : Sound t) {keys : List TimerKey} (all : keys.Perm [.onBoot,.onActive]) :
    Timers.parseTimer (some t.name.toList) (timerText keys t) = .ok t := by
  have heading : Timers.parseLine {} "[Timer]".toList = { heading := "Timer".toList } := rfl
  have commute : ∀ (k l : TimerKey) (r : Timers.Reading), putTimer t k (putTimer t l r) = putTimer t l (putTimer t k r) := by
    intro k l r
    cases k <;> cases l <;> rfl
  have whole : (keys.filterMap (timerEntry t)).foldl Timers.parseLine { heading := "Timer".toList } =
      { onBoot := t.onBoot, onActive := t.onActive, heading := "Timer".toList } := by
    rw [foldl_timerEntries sound keys _ rfl,all.foldl_eq' fun k _ l _ r => commute l k r]
    simp [putTimer]
  have some_key : (t.onBoot.isNone && t.onActive.isNone) = false := by
    cases sound.either with
    | inl boot => rw [Option.isNone_eq_false_iff.mpr boot]; rfl
    | inr active => rw [Option.isNone_eq_false_iff.mpr active,Bool.and_false]
  rw [Timers.parseTimer]
  simp only [spokenLines_timerText,List.foldl_cons,heading,whole,some_key,
    String.ofList_toList,Bool.false_eq_true,if_false]

def timerStep (said : Option Nat × Option Nat) (line : List Char) : Option Nat × Option Nat :=
  let r := Timers.parseLine ⟨said.1,said.2,"Timer".toList⟩ line
  (r.onBoot,r.onActive)

theorem timer_sectional : Sectional "Timer".toList Timers.parseLine (fun r => (r.onBoot,r.onActive))
    Timers.Reading.heading timerStep where
  named r line name named := by
    unfold Timers.parseLine
    rw [named]
    exact ⟨rfl,rfl⟩
  unnamed r line unnamed := by
    simp only [Timers.parseLine,unnamed]
    split
    · rfl
    · split
      · rfl
      · unfold Timers.setKey
        split <;> rfl
  foreign r line unnamed apart := by
    simp only [Timers.parseLine,unnamed]
    split
    · rfl
    · rw [if_pos apart]
  heeds r line unnamed own := by
    obtain ⟨onBoot,onActive,heading⟩ := r
    obtain rfl : heading = "Timer".toList := own
    rfl

/-- Texts with the same entries hold the same timer. -/
theorem parseTimer_layout {stem : List Char} (first : Layout "Timer".toList false (Text.lines text) entries)
    (second : Layout "Timer".toList false (Text.lines text') entries) :
    Timers.parseTimer (some stem) text = Timers.parseTimer (some stem) text' := by
  have one := first.foldl_parse timer_sectional {} rfl
  have two := second.foldl_parse timer_sectional {} rfl
  have onBoot : ((Units.spokenLines text).foldl Timers.parseLine {}).onBoot =
      ((Units.spokenLines text').foldl Timers.parseLine {}).onBoot := congrArg Prod.fst (one.trans two.symm)
  have onActive : ((Units.spokenLines text).foldl Timers.parseLine {}).onActive =
      ((Units.spokenLines text').foldl Timers.parseLine {}).onActive := congrArg Prod.snd (one.trans two.symm)
  simp only [Timers.parseTimer,onBoot,onActive]

theorem layout_timerText (t : TimerDef) (keys : List TimerKey) : Layout "Timer".toList false
    (Text.lines (timerText keys t)) (keys.filterMap (timerEntry t)) := by
  have written : ∀ e ∈ keys.filterMap (timerEntry t), Formats.Unit.Written e ∧ Units.sectionName e = none := by
    intro e member
    obtain ⟨k,-,there⟩ := List.mem_filterMap.mp member
    obtain ⟨s,-,rfl⟩ := Option.map_eq_some_iff.mp there
    exact ⟨written_timerEntry k s,unnamed_timerEntry k s⟩
  have lines : Text.lines (timerText keys t) = "[Timer]".toList :: keys.filterMap (timerEntry t) := by
    refine Text.lines_flatMap fun line member => ?_
    rcases List.mem_cons.mp member with rfl | later
    · decide
    · exact (written line later).1.single
  rw [lines]
  exact layout_headed (by decide) (by decide) (by simpa using layout_written written (.done true))

def loadTimer (f : File) : Option TimerDef := f.text.bind fun text =>
  (Timers.parseTimer (some (Units.fileStem f.name)) text).toOption

theorem loadTimer_named : Named "timer" loadTimer TimerDef.name := by
  intro f t extension loaded
  obtain ⟨text,-,parsed⟩ := Option.bind_eq_some_iff.mp loaded
  exact file_named extension (Timers.parseTimer_name parsed)

theorem extension_timerFile (sound : Sound t) : Units.extension (timerFile text t).name = some "timer".toList :=
  (fileStem_append (fun empty => sound.name (String.toList_inj.mp empty)) (by decide)).2

theorem loadTimer_timerFile (sound : Sound t) (spells : SpellsTimer text t) : loadTimer (timerFile text t) = some t := by
  obtain ⟨keys,all,layout⟩ := spells
  have stem : Units.fileStem (timerFile text t).name = t.name.toList :=
    (fileStem_append (fun empty => sound.name (String.toList_inj.mp empty)) (by decide)).1
  rw [loadTimer,stem]
  change (Timers.parseTimer _ text).toOption = some t
  rw [parseTimer_layout layout (layout_timerText t keys),parseTimer_timerText sound all]
  rfl

end Timer

section Directory
open Formats (Plain)
variable {ds : List ServiceDef} {ts : List TimerDef} {others files : List File}

def Useless (f : File) : Prop :=
  (Units.extension f.name = some "service".toList → Units.loadUnit f = none) ∧
  (Units.extension f.name = some "timer".toList → loadTimer f = none)

/-- What is loaded from a directory in which some files are the things' own and the others are useless. -/
theorem loads_own {β : Type} {ext : String} {load : File → Option β} {bs : List β} {file : β → File} {rest : List File}
    (own : ∀ b ∈ bs, Units.extension (file b).name = some ext.toList ∧ load (file b) = some b)
    (useless : ∀ f ∈ rest, Units.extension f.name = some ext.toList → load f = none)
    (listing : files.Perm (bs.map file ++ rest)) :
    ((files.filter fun f => Units.extension f.name == some ext.toList).filterMap load).Perm bs := by
  refine ((listing.filter _).filterMap load).trans ?_
  rw [List.filter_append,List.filterMap_append]
  have mine : ((bs.map file).filter fun f => Units.extension f.name == some ext.toList).filterMap load = bs := by
    rw [List.filter_eq_self.mpr]
    · rw [List.filterMap_map]
      calc bs.filterMap (load ∘ file) = bs.filterMap some :=
          List.filterMap_congr fun b member => (own b member).2
        _ = bs := List.filterMap_some
    · intro f member
      obtain ⟨b,here,rfl⟩ := List.mem_map.mp member
      exact beq_iff_eq.mpr (own b here).1
  have nothing : (rest.filter fun f => Units.extension f.name == some ext.toList).filterMap load = [] := by
    rw [List.filterMap_eq_nil_iff]
    intro f member
    obtain ⟨there,extension⟩ := List.mem_filter.mp member
    exact useless f there (beq_iff_eq.mp extension)
  rw [mine,nothing,List.append_nil]

/-- A directory that tells of just these services and timers, each in a file of its own, in whatever order it is
listed and whatever useless files there are. -/
structure Tells (files : List File) (ds : List ServiceDef) (ts : List TimerDef) : Prop where
  plain : ∀ d ∈ ds, Plain d
  sound : ∀ t ∈ ts, Sound t
  services : (ds.map ServiceDef.name).Nodup
  timers : (ts.map TimerDef.name).Nodup
  listing : ∃ (unit : ServiceDef → List Char) (timer : TimerDef → List Char) (others : List File),
    (∀ d ∈ ds, SpellsUnit (unit d) d) ∧ (∀ t ∈ ts, SpellsTimer (timer t) t) ∧ (∀ f ∈ others, Useless f) ∧
    files.Perm (ds.map (fun d => unitFile (unit d) d) ++ (ts.map (fun t => timerFile (timer t) t) ++ others))

theorem services_told (tells : Tells files ds ts) :
    Units.loadAll files = ds.mergeSort (byFile "service" ServiceDef.name) := by
  obtain ⟨unit,timer,others,spells,spellsTimer,useless,listing⟩ := tells.listing
  refine loaded_eq loadUnit_named tells.services (loads_own ?_ ?_ listing)
  · intro d member
    have plain := tells.plain d member
    exact ⟨extension_unitFile plain,loadUnit_unitFile plain (spells d member)⟩
  · intro f member extension
    obtain timer | other := List.mem_append.mp member
    · obtain ⟨t,here,rfl⟩ := List.mem_map.mp timer
      rw [extension_timerFile (tells.sound t here)] at extension
      exact absurd extension (by decide)
    · exact (useless f other).1 extension

theorem timers_told (tells : Tells files ds ts) :
    Timers.loadAll files = ts.mergeSort (byFile "timer" TimerDef.name) := by
  obtain ⟨unit,timer,others,spells,spellsTimer,useless,listing⟩ := tells.listing
  have swapped := listing.trans (List.perm_append_comm_assoc _ _ _)
  refine loaded_eq loadTimer_named tells.timers (loads_own ?_ ?_ swapped)
  · intro t member
    have sound := tells.sound t member
    exact ⟨extension_timerFile sound,loadTimer_timerFile sound (spellsTimer t member)⟩
  · intro f member extension
    obtain unit | other := List.mem_append.mp member
    · obtain ⟨d,here,rfl⟩ := List.mem_map.mp unit
      rw [extension_unitFile (tells.plain d here)] at extension
      exact absurd extension (by decide)
    · exact (useless f other).2 extension

/-- What a directory tells of is what is loaded from it, in the order of the file names. -/
theorem loads_told (tells : Tells files ds ts) :
    Units.loadAll files = ds.mergeSort (byFile "service" ServiceDef.name) ∧
    Timers.loadAll files = ts.mergeSort (byFile "timer" TimerDef.name) :=
  ⟨services_told tells,timers_told tells⟩

end Directory

section Runs

def daily : TimerDef := ⟨"web.app",none,some (fromSecs 86400)⟩

def early : TimerDef := ⟨"cache",some (fromSecs 60),some (fromSecs 3600)⟩

def cache : ServiceDef := { name := "cache", path := "/usr/bin/cache", target := "multi-user" }

def clutter : List File :=
  [⟨"README".toList,some "[Service]\nExecStart=/bin/readme\n".toList⟩,
    ⟨"broken.service".toList,some "[Service]\nRestart=no\n".toList⟩,⟨"secret.service".toList,none⟩]

def cacheText : List Char :=
  (["; keeps the pages","","[Unit]","Description=Cache","[Service]"].map String.toList ++
    (Formats.Key.all.reverse.filterMap (Formats.Unit.entry cache) ++
      ["","[Install]","WantedBy=multi-user.target"].map String.toList)).flatMap fun line => line ++ ['\n']

def unitText (d : ServiceDef) : List Char :=
  if d.name = "cache" then cacheText else Formats.Unit.text d Formats.Key.all

def directory : List File :=
  ([unitFile (unitText Formats.web) Formats.web,unitFile (unitText cache) cache] ++
    ([timerFile (timerText [.onActive,.onBoot] daily) daily,timerFile (timerText [.onActive,.onBoot] early) early] ++
      clutter)).reverse

theorem useless_clutter : ∀ f ∈ clutter, Useless f := by
  intro f member
  obtain rfl | later := List.mem_cons.mp member
  · exact ⟨fun unit => absurd unit (by decide),fun timer => absurd timer (by decide)⟩
  · obtain rfl | rfl := List.mem_pair.mp later
    · exact ⟨fun _ => by decide +kernel,fun timer => absurd timer (by decide)⟩
    · exact ⟨fun _ => rfl,fun _ => rfl⟩

theorem sound_daily : Sound daily where
  name := by decide
  seconds k s member := by
    cases k with
    | onBoot => contradiction
    | onActive =>
      obtain rfl := Option.some.inj member
      exact ⟨86400,by decide,rfl⟩
  either := .inr rfl

theorem sound_early : Sound early where
  name := by decide
  seconds k s member := by
    cases k with
    | onBoot =>
      obtain rfl := Option.some.inj member
      exact ⟨60,by decide,rfl⟩
    | onActive =>
      obtain rfl := Option.some.inj member
      exact ⟨3600,by decide,rfl⟩
  either := .inl rfl

theorem plain_cache : Formats.Plain cache where
  name := by decide
  path := by decide
  lists := by decide
  options := by simp [cache]
  target := by decide
  environment := by decide
  memoryLimit := by simp [cache]
  watchdogTimeout := by simp [cache]
  oomScoreAdjust := by simp [cache]

theorem spells_cacheText : SpellsUnit cacheText cache := by
  have written := written_entries plain_cache Formats.Key.all.reverse
  have lines : Text.lines cacheText = ["; keeps the pages","","[Unit]","Description=Cache","[Service]"].map String.toList ++
      (Formats.Key.all.reverse.filterMap (Formats.Unit.entry cache) ++
        ["","[Install]","WantedBy=multi-user.target"].map String.toList) := by
    refine Text.lines_flatMap fun line member => ?_
    rcases List.mem_append.mp member with front | later
    · revert line
      decide
    · rcases List.mem_append.mp later with entry | back
      · exact (written line entry).1.single
      · revert line
        decide
  have unit : Units.sectionName (Text.trim "[Unit]".toList) = some "Unit".toList := by decide
  have install : Units.sectionName (Text.trim "[Install]".toList) = some "Install".toList := by decide
  have back : Layout "Service".toList true (["","[Install]","WantedBy=multi-user.target"].map String.toList) [] :=
    .silent (by decide) (layout_elsewhere (by decide) install (by decide) (.foreign (by decide) (.done false)))
  refine ⟨Formats.Key.all.reverse,List.reverse_perm _,?_⟩
  rw [lines]
  refine .silent (by decide) (.silent (by decide) (layout_elsewhere (by decide) unit (by decide) ?_))
  exact .foreign (by decide) (layout_headed (by decide) (by decide) (layout_written written back))

theorem tells_directory : Tells directory [Formats.web,cache] [daily,early] where
  plain d member := by
    obtain rfl | rfl := List.mem_pair.mp member
    · exact Formats.plain_web
    · exact plain_cache
  sound t member := by
    obtain rfl | rfl := List.mem_pair.mp member
    · exact sound_daily
    · exact sound_early
  services := by decide
  timers := by decide
  listing := by
    refine ⟨unitText,timerText [.onActive,.onBoot],clutter,?_,?_,useless_clutter,List.reverse_perm _⟩
    · intro d member
      obtain rfl | rfl := List.mem_pair.mp member
      · exact ⟨Formats.Key.all,List.Perm.refl _,layout_text Formats.plain_web _⟩
      · exact spells_cacheText
    · intro t _
      exact ⟨_,List.Perm.swap _ _ _,layout_timerText t _⟩

theorem sorted_directory :
    [Formats.web,cache].mergeSort (byFile "service" ServiceDef.name) = [cache,Formats.web] ∧
    [daily,early].mergeSort (byFile "timer" TimerDef.name) = [early,daily] := by
  have apart : byFile "service" ServiceDef.name Formats.web cache = false ∧
      byFile "timer" TimerDef.name daily early = false := by decide +kernel
  constructor
  · simp [List.mergeSort,List.MergeSort.Internal.splitInTwo,apart.1]
  · simp [List.mergeSort,List.MergeSort.Internal.splitInTwo,apart.2]

theorem loads_told_directory : Units.loadAll directory = [cache,Formats.web] ∧ Timers.loadAll directory = [early,daily] := by
  obtain ⟨services,timers⟩ := loads_told tells_directory
  exact ⟨services.trans sorted_directory.1,timers.trans sorted_directory.2⟩

end Runs
end MitosServices.DropIns
