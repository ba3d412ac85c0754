import MitosServices.Units
import MitosServices.Ordering

/-! Lists of names in unit files. The value is trimmed as a whole, and what stands between two commas
is a name as it stands. -/
namespace MitosServices.Units
open Config

inductive ListKey
  | after | afterReady | before | requires | wants
deriving DecidableEq, Repr

namespace ListKey

def word : ListKey → String
  | after => "After"
  | afterReady => "X-AfterReady"
  | before => "Before"
  | requires => "Requires"
  | wants => "Wants"

def names : ListKey → ServiceDef → List String
  | after => ServiceDef.after
  | afterReady => ServiceDef.afterReady
  | before => ServiceDef.before
  | requires => ServiceDef.requires
  | wants => ServiceDef.wants

end ListKey

/-- What is put around the first comma, the second, and so on. -/
abbrev Gaps := Nat → List Char × List Char

def spaced (gaps : Gaps) : List String → List Char
  | [] => []
  | [name] => name.toList
  | name :: next :: names =>
    name.toList ++ (gaps 0).1 ++ ',' :: (gaps 0).2 ++ spaced (fun i => gaps (i + 1)) (next :: names)

def Gaps.Blank (gaps : Gaps) : Prop := ∀ i, ∀ c ∈ (gaps i).1 ++ (gaps i).2, c = ' ' ∨ c = '\t'

def Tight (gaps : Gaps) (names : List String) : Prop := ∀ i, i + 1 < names.length → gaps i = ([],[])

def Listable (name : String) : Prop := ∀ c ∈ name.toList, Text.isWhitespace c = false ∧ c ≠ ','

section Values
variable {gaps : Gaps} {names : List String} {name next : String} {pad : List Char}

def pieces (pad : List Char) (gaps : Gaps) : List String → List (List Char)
  | [] => []
  | [name] => [pad ++ name.toList]
  | name :: next :: names =>
    (pad ++ name.toList ++ (gaps 0).1) :: pieces (gaps 0).2 (fun i => gaps (i + 1)) (next :: names)

theorem spaced_pieces (pad : List Char) (gaps : Gaps) (names : List String) (nonempty : names ≠ []) :
    pad ++ spaced gaps names = [','].intercalate (pieces pad gaps names) := by
  induction names generalizing pad gaps with
  | nil => contradiction
  | cons name names ih =>
    cases names with
    | nil => rw [spaced,pieces,List.intercalate_singleton]
    | cons next names =>
      have later := ih (gaps 0).2 (fun i => gaps (i + 1)) (List.cons_ne_nil _ _)
      obtain ⟨piece,more,split⟩ : ∃ piece more,
          pieces (gaps 0).2 (fun i => gaps (i + 1)) (next :: names) = piece :: more := by
        cases names <;> exact ⟨_,_,rfl⟩
      rw [pieces,split,List.intercalate_cons_cons,← split,← later,spaced]
      simp only [List.append_assoc,List.cons_append,List.nil_append]

theorem tight_cons_iff : Tight gaps (name :: next :: names) ↔
    gaps 0 = ([],[]) ∧ Tight (fun i => gaps (i + 1)) (next :: names) := by
  constructor
  · intro tight
    constructor
    · exact tight 0 (by simp)
    · intro i inside
      exact tight (i + 1) (by simpa using inside)
  · rintro ⟨first,later⟩ i inside
    cases i with
    | zero => exact first
    | succ i => exact later i (by simpa using inside)

theorem padded_eq_iff {before after : List Char} :
    String.ofList (before ++ name.toList ++ after) = name ↔ before = [] ∧ after = [] := by
  constructor
  · intro same
    have length := congrArg (fun s => s.toList.length) same
    simp only [String.toList_ofList,List.length_append] at length
    exact ⟨List.length_eq_zero_iff.mp (by omega),List.length_eq_zero_iff.mp (by omega)⟩
  · rintro ⟨rfl,rfl⟩
    rw [List.nil_append,List.append_nil,String.ofList_toList]

/-- The pieces are the names exactly if there is nothing around them. -/
theorem pieces_eq_iff (pad : List Char) (gaps : Gaps) (name : String) (names : List String) :
    (pieces pad gaps (name :: names)).map String.ofList = name :: names ↔
      pad = [] ∧ Tight gaps (name :: names) := by
  induction names generalizing pad gaps name with
  | nil =>
    have tight : Tight gaps [name] := fun i inside => absurd inside (by simp)
    simp [pieces,tight]
  | cons next names ih =>
    rw [pieces,List.map_cons,List.cons.injEq,padded_eq_iff,ih,tight_cons_iff,Prod.ext_iff]
    tauto

theorem solid_listable (listable : ∀ name ∈ names, Listable name) (named : "" ∉ names) :
    ∀ name ∈ names, Text.Solid name.toList := by
  intro name member
  constructor
  · intro empty
    have same : name = "" := String.toList_inj.mp empty
    exact named (same ▸ member)
  · exact fun c inside => (listable name member c inside).1

theorem comma_not_mem_blank (blank : ∀ c ∈ pad, c = ' ' ∨ c = '\t') : ',' ∉ pad := by
  intro comma
  have other := blank ',' comma
  contradiction

theorem Gaps.Blank.shift (blank : gaps.Blank) : Gaps.Blank fun i => gaps (i + 1) := fun i => blank (i + 1)

theorem pieces_apart (blank : gaps.Blank) (padded : ∀ c ∈ pad, c = ' ' ∨ c = '\t')
    (listable : ∀ name ∈ names, Listable name) (named : "" ∉ names) :
    ∀ piece ∈ pieces pad gaps names, piece ≠ [] ∧ ',' ∉ piece := by
  have plain : ∀ name ∈ names, name.toList ≠ [] ∧ ',' ∉ name.toList := fun name member =>
    ⟨(solid_listable listable named name member).nonempty,fun comma => (listable name member ',' comma).2 rfl⟩
  induction names generalizing pad gaps with
  | nil => exact fun _ member => nomatch member
  | cons name names ih =>
    obtain ⟨nonempty,uncut⟩ := plain name List.mem_cons_self
    cases names with
    | nil =>
      intro piece member
      obtain rfl := List.mem_singleton.mp member
      exact ⟨by simp [nonempty],by simp [uncut,comma_not_mem_blank padded]⟩
    | cons next names =>
      intro piece member
      rcases List.mem_cons.mp member with rfl | later
      · have before : ',' ∉ (gaps 0).1 := comma_not_mem_blank fun c inside => blank 0 c (by simp [inside])
        exact ⟨by simp [nonempty],by simp [uncut,before,comma_not_mem_blank padded]⟩
      · refine ih blank.shift (fun c inside => blank 0 c (by simp [inside])) ?_ ?_ ?_ piece later
        · exact fun other inside => listable other (List.mem_cons_of_mem _ inside)
        · exact fun empty => named (List.mem_cons_of_mem _ empty)
        · exact fun other inside => plain other (List.mem_cons_of_mem _ inside)

theorem word_spaced (listable : ∀ name ∈ names, Listable name) (named : "" ∉ names) (nonempty : names ≠ []) :
    Text.Word (spaced gaps names) := by
  have words : ∀ name ∈ names, Text.Word name.toList :=
    fun name member => (solid_listable listable named name member).word
  clear listable named
  induction names generalizing gaps with
  | nil => contradiction
  | cons name names ih =>
    have first := words name List.mem_cons_self
    cases names with
    | nil => exact first
    | cons next names =>
      have rest : Text.Word (spaced (fun i => gaps (i + 1)) (next :: names)) :=
        ih (List.cons_ne_nil _ _) fun other inside => words other (List.mem_cons_of_mem _ inside)
      rw [spaced]
      refine ⟨?_,?_,?_⟩
      · rw [List.append_assoc,List.append_assoc,List.head?_append_of_ne_nil _ first.nonempty]
        exact first.first
      · rw [List.getLast?_append_of_ne_nil _ rest.nonempty]
        exact rest.last
      · simp [first.nonempty]

theorem parseNameList_spaced_iff (blank : gaps.Blank) (listable : ∀ name ∈ names, Listable name) :
    parseNameList (Text.trim (spaced gaps names)) = names ↔ "" ∉ names ∧ Tight gaps names := by
  have read : "" ∉ names → names ≠ [] →
      parseNameList (Text.trim (spaced gaps names)) = (pieces [] gaps names).map String.ofList := by
    intro named nonempty
    have cut : spaced gaps names = [','].intercalate (pieces [] gaps names) := spaced_pieces [] gaps names nonempty
    have apart : ∀ piece ∈ pieces [] gaps names, piece ≠ [] ∧ ',' ∉ piece :=
      pieces_apart blank (fun _ member => nomatch member) listable named
    rw [Text.trim_word (word_spaced listable named nonempty),parseNameList,cut,Text.split_intercalate apart]
  cases names with
  | nil => exact iff_of_true rfl ⟨List.not_mem_nil,fun i inside => absurd inside (by simp)⟩
  | cons name names =>
    constructor
    · intro same
      have named : "" ∉ name :: names := by
        intro member
        rw [← same,parseNameList,List.mem_map] at member
        obtain ⟨piece,there,empty⟩ := member
        have nothing : piece = [] := String.ofList_inj.mp empty
        rw [nothing] at there
        simp at there
      rw [read named (List.cons_ne_nil _ _),pieces_eq_iff] at same
      exact ⟨named,same.2⟩
    · rintro ⟨named,tight⟩
      rw [read named (List.cons_ne_nil _ _),pieces_eq_iff]
      exact ⟨rfl,tight⟩

end Values

section Unit
variable {k : ListKey} {path : String} {u : Reading} {line value stem text : List Char} {svc : ServiceDef}
  {names : List String} {gaps : Gaps}

def keyOf (line : List Char) : Option String :=
  (Text.splitOnce '=' line).map fun halves => String.ofList (Text.trim halves.1)

def listLine (k : ListKey) (value : List Char) : List Char := Text.trim (k.word.toList ++ '=' :: value)

/-- No line has the key, but outside of the service's section. -/
def Unset (k : ListKey) (path : String) (u : Reading) (ls : List (List Char)) : Prop :=
  ∀ before line after, ls = before ++ line :: after →
    (before.foldl (parseLine path) u).heading = "Service".toList → keyOf line ≠ some k.word

/-- The last line of the unit that is about the key gives it the value. -/
def Says (path : String) (stem text : List Char) (k : ListKey) (value : List Char) : Prop :=
  ∃ xs ys, spokenLines text = xs ++ listLine k value :: ys ∧
    (xs.foldl (parseLine path) { fields := { svc := { name := String.ofList stem } } }).heading =
      "Service".toList ∧
    Unset k path ((xs ++ [listLine k value]).foldl (parseLine path)
      { fields := { svc := { name := String.ofList stem } } }) ys

theorem setKey_names (k : ListKey) (u : Reading) (key : String) (value : List Char) :
    k.names (setKey path u key value).fields.svc =
      if key = k.word then parseNameList value else k.names u.fields.svc := by
  by_cases same : key = k.word
  · subst same
    rw [if_pos rfl]
    cases k <;> rfl
  · rw [if_neg same]
    cases k <;> unfold setKey <;> split <;> first | rfl | contradiction

theorem word_plain (k : ListKey) : Text.Solid k.word.toList ∧ '=' ∉ k.word.toList ∧ k.word.toList.head? ≠ some '[' := by
  cases k <;> exact ⟨Text.solid_of_all (by decide) (by decide),by decide,by decide⟩

theorem listLine_eq (k : ListKey) (value : List Char) :
    listLine k value = k.word.toList ++ '=' :: Text.trimEnd value := by
  have opened : Text.trimEnd (k.word.toList ++ ['=']) = k.word.toList ++ ['='] := by
    apply Text.trimEnd_of_last
    intro c last
    obtain rfl : '=' = c := by simpa using last
    decide
  have cut : k.word.toList ++ '=' :: value = (k.word.toList ++ ['=']) ++ value := by simp
  rw [listLine,Text.trim,Text.trimStart_word_append (word_plain k).1.word,cut,Text.trimEnd_append,opened]
  split
  · rename_i nothing
    rw [nothing]
  · simp

theorem parseLine_listLine (within : u.heading = "Service".toList) :
    k.names (parseLine path u (listLine k value)).fields.svc = parseNameList (Text.trim value) := by
  obtain ⟨solid,unequal,opens⟩ := word_plain k
  have unnamed : sectionName (listLine k value) = none := by
    rw [sectionName,Text.stripPrefix_eq_none]
    · rfl
    · rwa [listLine_eq,List.head?_append_of_ne_nil _ solid.nonempty]
  rw [parseLine,unnamed,listLine_eq,Text.splitOnce_append unequal]
  dsimp only
  rw [if_neg (not_not.mpr within),setKey_names,Text.trim_word solid.word,String.ofList_toList,if_pos rfl,
    Text.trim_trimEnd]

theorem parseLine_unset (unset : u.heading = "Service".toList → keyOf line ≠ some k.word) :
    k.names (parseLine path u line).fields.svc = k.names u.fields.svc := by
  unfold parseLine
  split
  · rfl
  · split
    · rfl
    · rename_i key value cut
      split
      · rfl
      · rename_i within
        have other := unset (not_not.mp within)
        rw [keyOf,cut] at other
        rw [setKey_names,if_neg fun same => other (congrArg some same)]

theorem foldl_unset {ls : List (List Char)} (unset : Unset k path u ls) :
    k.names (ls.foldl (parseLine path) u).fields.svc = k.names u.fields.svc := by
  induction ls generalizing u with
  | nil => rfl
  | cons line ls ih =>
    have first : u.heading = "Service".toList → keyOf line ≠ some k.word := unset [] line ls rfl
    have later : Unset k path (parseLine path u line) ls := by
      intro before l after split
      exact unset (line :: before) l after (by rw [split]; rfl)
    rw [List.foldl_cons,ih later,parseLine_unset first]

theorem finish_names {fields : Fields} (read : finish fields = .ok svc) : k.names svc = k.names fields.svc := by
  unfold finish at read
  split at read
  · contradiction
  · split at read
    · contradiction
    · obtain rfl := Except.ok.inj read
      cases k <;> rfl

theorem parseUnit_list (said : Says path stem text k value) (read : parseUnit path (some stem) text = .ok svc) :
    k.names svc = parseNameList (Text.trim value) := by
  obtain ⟨xs,ys,spoken,within,unset⟩ := said
  rw [finish_names read,parseLines,spoken,List.foldl_append,List.foldl_cons]
  rw [List.foldl_append] at unset
  exact (foldl_unset unset).trans (parseLine_listLine within)

/-- A list of names is read as it was written exactly if nothing but the commas is between them. -/
theorem reads_names_iff (k : ListKey) (gaps : Gaps) (names : List String) (path : String) (stem text : List Char)
    (svc : ServiceDef) (blank : gaps.Blank) (listable : ∀ name ∈ names, Listable name)
    (said : Says path stem text k (spaced gaps names)) (read : parseUnit path (some stem) text = .ok svc) :
    k.names svc = names ↔ "" ∉ names ∧ Tight gaps names := by
  rw [parseUnit_list said read]
  exact parseNameList_spaced_iff blank listable

end Unit

section Runs

instance (name : String) : Decidable (Listable name) := List.decidableBAll _ name.toList

def web (after : List String) : ServiceDef :=
  { name := "web", path := "/bin/web", after, restart := .never, target := "multi-user" }

theorem reads_names_iff_web : ListKey.after.names (web ["log","db"]) = ["log","db"] ↔
    "" ∉ ["log","db"] ∧ Tight (fun _ => ([],[])) ["log","db"] :=
  reads_names_iff .after (fun _ => ([],[])) ["log","db"] "web.service" "web".toList
    "[Service]\nExecStart=/bin/web\nAfter=log,db\n".toList (web ["log","db"]) (fun _ _ member => nomatch member)
    (by decide)
    ⟨["[Service]".toList,"ExecStart=/bin/web".toList],[],by decide +kernel,by decide +kernel,
      fun before _ _ split => absurd split (by simp)⟩
    (by decide +kernel)

/-- A blank behind the comma: what is waited for is a service that nobody has. -/
theorem waits_for_nobody :
    Says "web.service" "web".toList "[Service]\nExecStart=/bin/web\nAfter=log, db\n".toList .after
      (spaced (fun _ => ([],[' '])) ["log","db"]) ∧
    Units.parseUnit "web.service" (some "web".toList) "[Service]\nExecStart=/bin/web\nAfter=log, db\n".toList =
      .ok (web ["log"," db"]) ∧
    (startingOrder [web ["log"," db"],{ name := "log" },{ name := "db" }]).map ServiceDef.name =
      ["log","web","db"] ∧
    ListKey.after.names (web ["log"," db"]) ≠ ["log","db"] := by
  refine ⟨?_,by decide +kernel,by decide +kernel,by decide +kernel⟩
  exact ⟨["[Service]".toList,"ExecStart=/bin/web".toList],[],by decide +kernel,by decide +kernel,
    fun before _ _ split => absurd split (by simp)⟩

end Runs
end MitosServices.Units
