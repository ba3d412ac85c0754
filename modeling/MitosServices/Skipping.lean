import MitosServices.Bootable

/-! What `init.conf` may hold besides what is read from it. A line that says nothing is passed over;
a field of a service has to look like one. -/
namespace MitosServices.Config

def lineKeys : List String := ["hostname","loglevel","shutdown_timeout","default_target"]

def fieldKeys : List String :=
  ["path","args","critical","restart","mem_max","after","after_ready","before","requires","wants","user","group",
    "watchdog_sec","environment","workdir","target","private_tmp","protect_system","no_new_privileges",
    "oom_score_adjust"]

/-- A line that is blank, a comment, about an unknown key, or accepted by no branch. -/
inductive Idle (line : List Char) : Prop
  | unspoken (silent : ignored (Text.trim line) = true)
  | unknown (key value : List Char) (plain : Text.stripPrefix "service ".toList (Text.trim line) = none)
    (cut : Text.splitOnce '=' (Text.trim line) = some (key,value))
    (other : String.ofList (Text.trim key) ∉ lineKeys)
  | uncut (plain : Text.stripPrefix "service ".toList (Text.trim line) = none)
    (whole : Text.splitOnce '=' (Text.trim line) = none)
  | refused (rest : List Char) (e : String)
    (service : Text.stripPrefix "service ".toList (Text.trim line) = some rest)
    (bad : parseService rest = .error e)

def InsertsLine (line text text' : List Char) : Prop :=
  ∃ xs ys, Text.lines text = xs ++ ys ∧ Text.lines text' = xs ++ line :: ys

def InsertsField (field text text' : List Char) : Prop :=
  ∃ xs ys line line' rest rest' name front back d,
    Text.lines text = xs ++ line :: ys ∧ Text.lines text' = xs ++ line' :: ys ∧
    Text.trim line = "service ".toList ++ rest ∧ Text.trim line' = "service ".toList ++ rest' ∧
    Text.splitWhitespace rest = name :: (front ++ back) ∧
    Text.splitWhitespace rest' = name :: (front ++ field :: back) ∧ parseService rest = .ok d

def Unrecognised (field : List Char) : Prop :=
  String.ofList ((Text.splitOnce '=' field).elim field Prod.fst) ∉ fieldKeys

instance (field : List Char) : Decidable (Unrecognised field) := inferInstanceAs (Decidable (_ ∉ fieldKeys))

section Lines
variable {p q : Parsed} {line text text' : List Char}

theorem setKey_cfg (same : p.cfg = q.cfg) (key : String) (value : List Char) :
    (setKey p key value).cfg = (setKey q key value).cfg := by
  unfold setKey
  split <;> simp [same,Parsed.warn]

/-- The warnings have no part in what is read. -/
theorem parseLine_cfg (same : p.cfg = q.cfg) : (parseLine p line).cfg = (parseLine q line).cfg := by
  unfold parseLine
  split
  · unfold addService
    split
    · simp [same]
    · exact same
  · split
    · exact setKey_cfg same _ _
    · exact same

theorem foldl_parseLine_cfg (same : p.cfg = q.cfg) (ls : List (List Char)) :
    (ls.foldl parseLine p).cfg = (ls.foldl parseLine q).cfg := by
  induction ls generalizing p q with
  | nil => exact same
  | cons line ls ih => exact ih (parseLine_cfg same)

theorem setKey_unknown {key : String} (other : key ∉ lineKeys) (value : List Char) :
    (setKey p key value).cfg = p.cfg := by
  unfold setKey
  split
  case h_5 => rfl
  all_goals exact absurd (by decide) other

theorem parseLine_idle (idle : Idle line) (spoken : ignored (Text.trim line) = false) :
    (parseLine p (Text.trim line)).cfg = p.cfg := by
  unfold parseLine
  cases idle with
  | unspoken silent =>
    rw [silent] at spoken
    contradiction
  | unknown key value plain cut other =>
    rw [plain,cut]
    exact setKey_unknown other _
  | uncut plain whole => rw [plain,whole]
  | refused rest e service bad =>
    rw [service]
    dsimp only [addService]
    rw [bad]
    rfl

theorem parseLines_eq {ls : List (List Char)} (lines : Text.lines text = ls) : parseLines text =
    ((ls.map Text.trim).filter fun line => !ignored line).foldl parseLine ⟨{ default with services := [] },[]⟩ := by
  rw [parseLines,spokenLines,lines]

theorem parse_same (same : (parseLines text').cfg = (parseLines text).cfg) : parse text' = parse text := by
  rw [parse,parse,same]

theorem parseLines_insert (idle : Idle line) (inserts : InsertsLine line text text') :
    (parseLines text').cfg = (parseLines text).cfg := by
  obtain ⟨xs,ys,lines,lines'⟩ := inserts
  rw [parseLines_eq lines,parseLines_eq lines']
  simp only [List.map_append,List.map_cons,List.filter_append,List.foldl_append]
  cases spoken : ignored (Text.trim line) with
  | true => rw [List.filter_cons_of_neg (by simp [spoken])]
  | false =>
    rw [List.filter_cons_of_pos (by simp [spoken]),List.foldl_cons]
    exact foldl_parseLine_cfg (parseLine_idle idle spoken) _

end Lines

section Fields
variable {field rest rest' name : List Char} {front back : List (List Char)} {text text' : List Char}

theorem setField_unknown {key : String} (other : key ∉ fieldKeys) (f : Fields) (value : List Char) :
    setField f key value = f := by
  unfold setField
  dsimp only
  split
  case h_21 => rfl
  all_goals exact absurd (by decide) other

theorem readField_unknown (unknown : Unrecognised field) (cut : '=' ∈ field) (f : Fields) :
    readField f field = .ok f := by
  obtain ⟨⟨key,value⟩,found⟩ := Text.exists_splitOnce cut
  rw [Unrecognised,found] at unknown
  rw [readField,found]
  exact congrArg Except.ok (setField_unknown unknown f _)

theorem readField_uncut (uncut : '=' ∉ field) (f : Fields) :
    readField f field = .error s!"bad field '{String.ofList field}'" := by
  rw [readField,Text.splitOnce_eq_none uncut]

theorem parseService_skips (unknown : Unrecognised field) (cut : '=' ∈ field)
    (words : Text.splitWhitespace rest = name :: (front ++ back))
    (words' : Text.splitWhitespace rest' = name :: (front ++ field :: back)) :
    parseService rest' = parseService rest := by
  have skipped : (fun f => (field :: back).foldlM readField f) = fun f => back.foldlM readField f := by
    funext f
    rw [List.foldlM_cons,readField_unknown unknown cut]
    rfl
  simp only [parseService,words,words',List.foldlM_append,skipped]

theorem parseService_refuses (uncut : '=' ∉ field)
    (words' : Text.splitWhitespace rest' = name :: (front ++ field :: back)) :
    ∃ e, parseService rest' = .error e := by
  simp only [parseService,words',List.foldlM_append,List.foldlM_cons,readField_uncut uncut]
  cases front.foldlM readField ⟨{ name := String.ofList name, restart := .onFailure },none,none⟩ with
  | error e => exact ⟨e,rfl⟩
  | ok f => exact ⟨_,rfl⟩

theorem spoken_service {line : List Char} (service : line = "service ".toList ++ rest) : ignored line = false := by
  rw [service]
  rfl

theorem serviceLine_service {line : List Char} (service : line = "service ".toList ++ rest) :
    serviceLine line = (parseService rest).toOption := by
  rw [serviceLine,service,Text.stripPrefix_append,Option.bind_some]

theorem parseLine_service {p : Parsed} {line : List Char} (service : line = "service ".toList ++ rest) :
    parseLine p line = addService p line rest := by
  rw [parseLine,service,Text.stripPrefix_append]

/-- A field with an equals sign is passed over, and one without takes its service with it. -/
theorem parseLines_field_iff (unknown : Unrecognised field) (inserts : InsertsField field text text') :
    (parseLines text').cfg = (parseLines text).cfg ↔ '=' ∈ field := by
  obtain ⟨xs,ys,line,line',rest,rest',name,front,back,d,lines,lines',service,service',words,words',accepted⟩ :=
    inserts
  rw [parseLines_eq lines,parseLines_eq lines']
  simp only [List.map_append,List.map_cons,List.filter_append,List.filter_cons,spoken_service service,
    spoken_service service',Bool.not_false,if_true]
  constructor
  · intro same
    by_contra uncut
    obtain ⟨e,bad⟩ := parseService_refuses uncut words'
    have services := congrArg (fun cfg => cfg.services.length) same
    simp only [foldl_parseLine_services,List.filterMap_append,List.filterMap_cons,serviceLine_service service,
      serviceLine_service service',accepted,bad,Except.toOption,List.length_append,List.length_cons] at services
    omega
  · intro cut
    have same := parseService_skips unknown cut words words'
    simp only [List.foldl_append,List.foldl_cons]
    apply foldl_parseLine_cfg
    rw [parseLine_service service,parseLine_service service',addService,addService,same,accepted]

end Fields

/-- A line that says nothing is always passed over; an unrecognised field exactly if it has an
equals sign. -/
theorem skips_unknown_iff (line field text text' : List Char) :
    (Idle line → InsertsLine line text text' → parse text' = parse text) ∧
    (Unrecognised field → InsertsField field text text' →
      ((parseLines text').cfg = (parseLines text).cfg ↔ '=' ∈ field)) := by
  constructor
  · intro idle inserts
    exact parse_same (parseLines_insert idle inserts)
  · exact parseLines_field_iff

/-- An unknown key in a line of its own and one in the line of a service are both passed over. -/
theorem skips_unknown_color :
    parse "color=red\nservice db path=/bin/db".toList = parse "service db path=/bin/db".toList ∧
    (parseLines "service db color=red path=/bin/db".toList).cfg =
      (parseLines "service db path=/bin/db".toList).cfg := by
  have skips := skips_unknown_iff "color=red".toList "color=red".toList "service db path=/bin/db".toList
  have idle : Idle "color=red".toList :=
    .unknown "color".toList "red".toList (by decide +kernel) (by decide +kernel) (by decide +kernel)
  have line : InsertsLine "color=red".toList "service db path=/bin/db".toList
      "color=red\nservice db path=/bin/db".toList :=
    ⟨[],["service db path=/bin/db".toList],by decide +kernel,by decide +kernel⟩
  have field : InsertsField "color=red".toList "service db path=/bin/db".toList
      "service db color=red path=/bin/db".toList :=
    ⟨[],[],"service db path=/bin/db".toList,"service db color=red path=/bin/db".toList,"db path=/bin/db".toList,
      "db color=red path=/bin/db".toList,"db".toList,[],["path=/bin/db".toList],
      { name := "db", path := "/bin/db", restart := .onFailure, target := "multi-user" },by decide +kernel,
      by decide +kernel,by decide +kernel,by decide +kernel,by decide +kernel,by decide +kernel,by decide +kernel⟩
  constructor
  · exact (skips _).1 idle line
  · exact ((skips _).2 (by decide) field).mpr (by decide)

/-- A word left over in its line takes a service away, and the built-in shell comes instead. -/
theorem typo_drops_service : ¬ ∀ field text text', Unrecognised field → InsertsField field text text' →
    parse text' = parse text := by
  intro claim
  have inserts : InsertsField "on".toList "service db path=/bin/db".toList "service db on path=/bin/db".toList :=
    ⟨[],[],"service db path=/bin/db".toList,"service db on path=/bin/db".toList,"db path=/bin/db".toList,
      "db on path=/bin/db".toList,"db".toList,[],["path=/bin/db".toList],
      { name := "db", path := "/bin/db", restart := .onFailure, target := "multi-user" },by decide +kernel,
      by decide +kernel,by decide +kernel,by decide +kernel,by decide +kernel,by decide +kernel,by decide +kernel⟩
  have same := claim _ _ _ (by decide) inserts
  have shell : (parse "service db on path=/bin/db".toList).services.map ServiceDef.name = ["shell"] := by
    decide +kernel
  have db : (parse "service db path=/bin/db".toList).services.map ServiceDef.name = ["db"] := by decide +kernel
  rw [same,db] at shell
  exact absurd shell (by decide)

end MitosServices.Config
