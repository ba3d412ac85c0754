import MitosServices.DropIns
import MitosServices.LoopRule

/-! `init.conf` as a whole, and the boot from it and `services.d`: a configuration that is written down
line by line, with comments and blank lines in between, is the one the machine comes up with. -/
namespace MitosServices.BootFiles
open Config Formats

inductive Setting
  | hostname | loglevel | shutdownTimeout | defaultTarget
deriving DecidableEq, Repr

namespace Setting

def word : Setting → String
  | hostname => "hostname"
  | loglevel => "loglevel"
  | shutdownTimeout => "shutdown_timeout"
  | defaultTarget => "default_target"

def levelText : Level → String
  | .error => "error"
  | .warn => "warn"
  | .info => "info"
  | .debug => "debug"

def value (cfg : Config) : Setting → Option (List Char)
  | hostname => cfg.hostname.map String.toList
  | loglevel => some (levelText cfg.loglevel).toList
  | shutdownTimeout => some (Nat.toDigits 10 cfg.shutdownTimeoutSecs)
  | defaultTarget => some cfg.defaultTarget.toList

def Agree (c cfg : Config) : Setting → Prop
  | hostname => c.hostname = cfg.hostname
  | loglevel => c.loglevel = cfg.loglevel
  | shutdownTimeout => c.shutdownTimeoutSecs = cfg.shutdownTimeoutSecs
  | defaultTarget => c.defaultTarget = cfg.defaultTarget

def put (cfg : Config) (k : Setting) (c : Config) : Config :=
  match k with
  | hostname => { c with hostname := cfg.hostname }
  | loglevel => { c with loglevel := cfg.loglevel }
  | shutdownTimeout => { c with shutdownTimeoutSecs := cfg.shutdownTimeoutSecs }
  | defaultTarget => { c with defaultTarget := cfg.defaultTarget }

end Setting

inductive Item
  | silent (text : List Char)
  | setting (k : Setting) (quoted : Bool)
  | service (d : ServiceDef) (keys : List Key)

def quote (quoted : Bool) (v : List Char) : List Char := if quoted then '"' :: (v ++ ['"']) else v

namespace Item

def text (cfg : Config) : Item → List Char
  | silent text => text
  | setting k quoted => k.word.toList ++ '=' :: quote quoted ((k.value cfg).getD [])
  | service d keys => "service ".toList ++ Inline.line d keys

def service? : Item → Option ServiceDef
  | service d _ => some d
  | _ => none

def put (cfg : Config) (item : Item) (c : Config) : Config :=
  match item with
  | silent _ => c
  | setting k _ => k.put cfg c
  | service d _ => { c with services := c.services ++ [d] }

/-- What makes an item readable. Without quotes a value loses the white space at its ends. -/
inductive Sound (cfg : Config) : Item → Prop
  | silent {text : List Char} (unspoken : ignored (Text.trim text) = true) (single : '\n' ∉ text ∧ '\r' ∉ text) :
      Sound cfg (.silent text)
  | setting {k : Setting} {quoted : Bool} {v : List Char} (spelt : k.value cfg = some v) (unquoted : '"' ∉ v)
      (single : '\n' ∉ v ∧ '\r' ∉ v) (bare : quoted = false → Text.trim v = v)
      (fits : cfg.shutdownTimeoutSecs < 2 ^ 64) : Sound cfg (.setting k quoted)
  | service {d : ServiceDef} {keys : List Key} (plain : Plain d) (all : keys.Perm Key.all) :
      Sound cfg (.service d keys)

end Item

def blank : Config := { Config.default with services := [] }

structure Line where
  before : List Char
  item : Item
  after : List Char

def Line.text (cfg : Config) (l : Line) : List Char := l.before ++ l.item.text cfg ++ l.after

structure Line.Sound (cfg : Config) (l : Line) : Prop where
  before : Text.Blank l.before ∧ '\n' ∉ l.before ∧ '\r' ∉ l.before
  item : l.item.Sound cfg
  after : Text.Blank l.after ∧ '\n' ∉ l.after ∧ '\r' ∉ l.after

/-- A text that tells of just this configuration: every setting that is not the default is there, as often
as one likes, and the services in their order, or none of them if they are the default. -/
structure Tells (text : List Char) (cfg : Config) : Prop where
  lines : ∃ ls : List Line, text = ls.flatMap (fun l => l.text cfg ++ ['\n']) ∧ (∀ l ∈ ls, l.Sound cfg) ∧
    (∀ k : Setting, (∃ l ∈ ls, ∃ quoted, l.item = .setting k quoted) ∨ k.Agree default cfg) ∧
    (ls.filterMap (fun l => l.item.service?) = cfg.services ∧ cfg.services ≠ [] ∨
      ls.filterMap (fun l => l.item.service?) = [] ∧ cfg.services = default.services)

section Reading
variable {cfg c : Config} {k : Setting} {quoted : Bool} {v : List Char} {item : Item} {l : Line}

theorem parse_level (level : Level) : Level.parse (Setting.levelText level).toList = some level := by
  cases level <;> decide

theorem setKey_value (spelt : k.value cfg = some v) (fits : cfg.shutdownTimeoutSecs < 2 ^ 64) (p : Parsed) :
    setKey p k.word v = { p with cfg := k.put cfg p.cfg } := by
  cases k with
  | hostname =>
    obtain ⟨h,there,rfl⟩ := Option.map_eq_some_iff.mp spelt
    simp [Setting.word,setKey,Setting.put,there]
  | loglevel =>
    obtain rfl := Option.some.inj spelt
    simp [Setting.word,setKey,Setting.put,parse_level]
  | shutdownTimeout =>
    obtain rfl := Option.some.inj spelt
    simp [Setting.word,setKey,Setting.put,Text.parseUnsigned_toDigits fits]
  | defaultTarget =>
    obtain rfl := Option.some.inj spelt
    simp [Setting.word,setKey,Setting.put]

theorem text_setting (spelt : k.value cfg = some v) :
    (Item.setting k quoted).text cfg = k.word.toList ++ '=' :: quote quoted v := by
  change k.word.toList ++ '=' :: quote quoted ((k.value cfg).getD []) = _
  rw [spelt]
  rfl

theorem word_plain (k : Setting) : Text.Solid k.word.toList ∧ '=' ∉ k.word.toList ∧
    ∃ c rest, k.word.toList = c :: rest ∧ c ≠ '#' := by
  cases k <;> exact ⟨Text.solid_of_all (by decide) (by decide),by decide,_,_,rfl,by decide⟩

theorem no_service (k : Setting) (rest : List Char) :
    Text.stripPrefix "service ".toList (k.word.toList ++ '=' :: rest) = none := by
  cases k <;> rfl

theorem trimMatches_quote (unquoted : '"' ∉ v) : Text.trimMatches '"' (quote quoted v) = v := by
  cases quoted with
  | false => exact Text.trimMatches_same unquoted
  | true =>
    have inner := Text.trimMatches_same unquoted
    cases v with
    | nil => rfl
    | cons c rest =>
      have other : (c == '"') = false := beq_false_of_ne fun same => unquoted (same ▸ List.mem_cons_self)
      rw [Text.trimMatches,List.dropWhile_cons_of_neg (by simp [other])] at inner
      rw [Text.trimMatches,quote,if_pos rfl,List.dropWhile_cons_of_pos (by decide),List.cons_append,
        List.dropWhile_cons_of_neg (by simp [other]),← List.cons_append,List.rdropWhile_concat_pos _ _ _ (by decide)]
      exact inner

theorem trim_quote (bare : quoted = false → Text.trim v = v) : Text.trim (quote quoted v) = quote quoted v := by
  cases quoted with
  | false => exact bare rfl
  | true =>
    have ends : (quote true v).getLast? = some '"' := by
      rw [quote,if_pos rfl,List.getLast?_cons_of_ne_nil (by simp),List.getLast?_concat]
    exact Text.trim_word (Text.word_of_ends rfl ends ⟨by decide,by decide⟩)

/-- A setting with its value, as the line says it. -/
theorem word_setting (spelt : k.value cfg = some v) (bare : quoted = false → Text.trim v = v) :
    Text.Word ((Item.setting k quoted).text cfg) := by
  obtain ⟨solid,-,c,rest,first,-⟩ := word_plain k
  rw [text_setting spelt]
  refine ⟨?_,?_,by simp⟩
  · intro x head
    rw [List.head?_append_of_ne_nil _ solid.nonempty] at head
    exact solid.word.first x head
  · intro x last
    rw [List.getLast?_append_of_ne_nil _ (by simp)] at last
    by_cases empty : quote quoted v = []
    · rw [empty] at last
      obtain rfl : '=' = x := Option.some.inj last
      decide
    · rw [List.getLast?_cons_of_ne_nil empty,← trim_quote bare] at last
      exact Text.last_trimEnd _ x last

theorem parseLine_setting (spelt : k.value cfg = some v) (unquoted : '"' ∉ v)
    (bare : quoted = false → Text.trim v = v) (fits : cfg.shutdownTimeoutSecs < 2 ^ 64) (p : Parsed) :
    parseLine p ((Item.setting k quoted).text cfg) = { p with cfg := k.put cfg p.cfg } := by
  obtain ⟨solid,unequal,-⟩ := word_plain k
  rw [text_setting spelt,parseLine,no_service,Text.splitOnce_append unequal]
  simp only [Text.trim_word solid.word,trim_quote bare,trimMatches_quote unquoted,String.ofList_toList,
    setKey_value spelt fits]

theorem parseLine_service {d : ServiceDef} {keys : List Key} (plain : Plain d) (all : keys.Perm Key.all) (p : Parsed) :
    parseLine p ((Item.service d keys).text cfg) = { p with cfg.services := p.cfg.services ++ [d] } := by
  change parseLine p ("service ".toList ++ Inline.line d keys) = _
  rw [parseLine,Text.stripPrefix_append]
  simp only [addService,Inline.parseService_line plain all]

theorem text_service (d : ServiceDef) (keys : List Key) : (Item.service d keys).text cfg =
    [' '].intercalate ("service".toList :: d.name.toList :: keys.filterMap (Inline.field d)) := by
  rw [List.intercalate_cons_cons]
  rfl

theorem solid_service {d : ServiceDef} {keys : List Key} (plain : Plain d) :
    ∀ w ∈ "service".toList :: d.name.toList :: keys.filterMap (Inline.field d), Text.Solid w := by
  intro w member
  rcases List.mem_cons.mp member with rfl | later
  · exact Text.solid_of_all (by decide) (by decide)
  · rcases List.mem_cons.mp later with rfl | field
    · exact solid_named plain.name.1
    · obtain ⟨k,-,there⟩ := List.mem_filterMap.mp field
      exact Inline.solid_field plain there

theorem trim_silent {before text after : List Char} (blank : Text.Blank before) (blankEnd : Text.Blank after)
    (unspoken : ignored (Text.trim text) = true) : ignored (Text.trim (before ++ text ++ after)) = true := by
  obtain ⟨left,right,blankLeft,blankRight,split⟩ := Text.trim_split text
  by_cases empty : Text.trim text = []
  · have blanks : Text.Blank (before ++ text ++ after) := by
      rw [split,empty]
      intro c member
      simp only [List.append_nil,List.mem_append] at member
      rcases member with (here | here | here) | here
      · exact blank c here
      · exact blankLeft c here
      · exact blankRight c here
      · exact blankEnd c here
    have nothing : Text.trimStart (before ++ text ++ after) = [] := List.dropWhile_eq_nil_iff.mpr blanks
    rw [Text.trim,nothing]
    rfl
  · have word : Text.Word (Text.trim text) := ⟨Text.first_trim text,Text.last_trimEnd _,empty⟩
    have whole : before ++ text ++ after = (before ++ left) ++ Text.trim text ++ (right ++ after) := by
      conv_lhs => rw [split]
      simp only [List.append_assoc]
    rw [whole,Text.trim_padded _ word _]
    · exact unspoken
    · exact fun c member => (List.mem_append.mp member).elim (blank c) (blankLeft c)
    · exact fun c member => (List.mem_append.mp member).elim (blankRight c) (blankEnd c)

def readLine (p : Parsed) (line : List Char) : Parsed :=
  if ignored (Text.trim line) then p else parseLine p (Text.trim line)

theorem readLine_text (sound : l.Sound cfg) (p : Parsed) :
    readLine p (l.text cfg) = { p with cfg := l.item.put cfg p.cfg } := by
  obtain ⟨before,item,after⟩ := l
  obtain ⟨⟨blank,-⟩,item_sound,blankEnd,-⟩ := sound
  dsimp only at blank blankEnd item_sound
  cases item_sound with
  | silent unspoken single =>
    exact if_pos (trim_silent blank blankEnd unspoken)
  | @setting k quoted v spelt unquoted single bare fits =>
    obtain ⟨-,-,c,rest,first,noComment⟩ := word_plain k
    have said : ignored ((Item.setting k quoted).text cfg) = false := by
      rw [text_setting spelt,first]
      simp [ignored,noComment]
    rw [readLine,Line.text,Text.trim_padded blank (word_setting spelt bare) blankEnd,said]
    exact parseLine_setting spelt unquoted bare fits p
  | @service d keys plain all =>
    have word : Text.Word ((Item.service d keys).text cfg) := by
      rw [text_service]
      exact Text.word_intercalate (solid_service plain) (by simp)
    rw [readLine,Line.text,Text.trim_padded blank word blankEnd]
    exact parseLine_service plain all p

theorem single_text (sound : l.Sound cfg) : '\n' ∉ l.text cfg ∧ '\r' ∉ l.text cfg := by
  have plain : ∀ c, (c = '\n' ∨ c = '\r') → c ∉ l.item.text cfg := by
    intro c ends member
    have white : Text.isWhitespace c = true ∧ c ≠ '=' ∧ c ≠ '"' ∧ c ≠ ' ' := by
      rcases ends with rfl | rfl <;> decide
    obtain ⟨before,item,after⟩ := l
    cases sound.item with
    | silent unspoken single => rcases ends with rfl | rfl <;> [exact single.1 member; exact single.2 member]
    | @setting k quoted v spelt unquoted single bare fits =>
      have absent : c ∉ v := by rcases ends with rfl | rfl <;> [exact single.1; exact single.2]
      change c ∈ (Item.setting k quoted).text cfg at member
      rw [text_setting spelt] at member
      rcases List.mem_append.mp member with key | rest
      · exact absurd ((word_plain k).1.solid c key) (by simp [white.1])
      · rcases List.mem_cons.mp rest with equals | inside
        · exact white.2.1 equals
        · cases quoted with
          | false => exact absent inside
          | true =>
            rcases List.mem_cons.mp inside with opening | inside
            · exact white.2.2.1 opening
            · rcases List.mem_append.mp inside with inside | closing
              · exact absent inside
              · exact white.2.2.1 (List.mem_singleton.mp closing)
    | @service d keys service_plain all =>
      change c ∈ (Item.service d keys).text cfg at member
      rw [text_service] at member
      rcases Text.mem_intercalate member with blank | ⟨w,there,inside⟩
      · exact white.2.2.2 blank
      · exact absurd ((solid_service service_plain w there).solid c inside) (by simp [white.1])
  simp only [Line.text,List.mem_append,not_or]
  exact ⟨⟨⟨sound.before.2.1,plain _ (.inl rfl)⟩,sound.after.2.1⟩,⟨sound.before.2.2,plain _ (.inr rfl)⟩,sound.after.2.2⟩

theorem parseLines_readLine (text : List Char) : parseLines text =
    (Text.lines text).foldl readLine ⟨blank,[]⟩ := by
  rw [parseLines,spokenLines,List.foldl_filter,List.foldl_map]
  congr 1
  funext p line
  rw [readLine]
  cases ignored (Text.trim line) <;> rfl

theorem foldl_text {ls : List Line} (sound : ∀ l ∈ ls, l.Sound cfg) (p : Parsed) :
    (ls.map (Line.text cfg)).foldl readLine p = { p with cfg := ls.foldl (fun c l => l.item.put cfg c) p.cfg } := by
  induction ls generalizing p with
  | nil => rfl
  | cons l ls ih =>
    rw [List.map_cons,List.foldl_cons,readLine_text (sound l List.mem_cons_self),
      ih fun other member => sound other (List.mem_cons_of_mem _ member)]
    rfl

/-- No item disturbs a setting that is as it should be. -/
theorem put_agree (item : Item) (agree : k.Agree c cfg) : k.Agree (item.put cfg c) cfg := by
  cases item with
  | silent text => exact agree
  | service d keys => cases k <;> exact agree
  | setting l quoted => cases k <;> cases l <;> first | exact agree | rfl

theorem foldl_agree {ls : List Line} (told : (∃ l ∈ ls, ∃ quoted, l.item = .setting k quoted) ∨ k.Agree c cfg) :
    k.Agree (ls.foldl (fun c l => l.item.put cfg c) c) cfg := by
  induction ls generalizing c with
  | nil =>
    rcases told with ⟨l,member,-⟩ | agree
    · contradiction
    · exact agree
  | cons l ls ih =>
    rw [List.foldl_cons]
    rcases told with ⟨other,member,quoted,said⟩ | agree
    · rcases List.mem_cons.mp member with rfl | later
      · refine ih (.inr ?_)
        rw [said]
        cases k <;> rfl
      · exact ih (.inl ⟨other,later,quoted,said⟩)
    · exact ih (.inr (put_agree l.item agree))

theorem foldl_services (ls : List Line) (c : Config) : (ls.foldl (fun c l => l.item.put cfg c) c).services =
    c.services ++ ls.filterMap fun l => l.item.service? := by
  induction ls generalizing c with
  | nil => simp
  | cons l ls ih =>
    rw [List.foldl_cons,ih,List.filterMap_cons]
    cases l.item with
    | silent text => rfl
    | setting k quoted => cases k <;> rfl
    | service d keys => simp [Item.put,Item.service?]

theorem parseLines_told {ls : List Line} (sound : ∀ l ∈ ls, l.Sound cfg) :
    parseLines (ls.flatMap fun l => l.text cfg ++ ['\n']) = ⟨ls.foldl (fun c l => l.item.put cfg c) blank,[]⟩ := by
  have single : ∀ line ∈ ls.map (Line.text cfg), '\n' ∉ line ∧ '\r' ∉ line := by
    intro line member
    obtain ⟨l,here,rfl⟩ := List.mem_map.mp member
    exact single_text (sound l here)
  have lines : Text.lines (ls.flatMap fun l => l.text cfg ++ ['\n']) = ls.map (Line.text cfg) := by
    rw [← Text.lines_flatMap single,List.flatMap_map]
  rw [parseLines_readLine,lines,foldl_text sound]

theorem parse_told {text : List Char} (tells : Tells text cfg) : parse text = cfg := by
  obtain ⟨ls,rfl,sound,settings,services⟩ := tells.lines
  have agree (k : Setting) : k.Agree (ls.foldl (fun c (l : Line) => l.item.put cfg c) blank) cfg := by
    refine foldl_agree ((settings k).imp_right fun same => ?_)
    cases k <;> exact same
  have whole : (ls.foldl (fun c (l : Line) => l.item.put cfg c) blank).services = _ := foldl_services ls blank
  have hostname := agree .hostname
  have loglevel := agree .loglevel
  have shutdown := agree .shutdownTimeout
  have target := agree .defaultTarget
  rw [parse,parseLines_told sound]
  dsimp only
  generalize ls.foldl (fun c (l : Line) => l.item.put cfg c) blank = c at *
  obtain ⟨h,level,secs,t,ds⟩ := c
  obtain rfl : h = cfg.hostname := hostname
  obtain rfl : level = cfg.loglevel := loglevel
  obtain rfl : secs = cfg.shutdownTimeoutSecs := shutdown
  obtain rfl : t = cfg.defaultTarget := target
  dsimp only [blank] at whole
  rw [List.nil_append] at whole
  rcases services with ⟨same,nonempty⟩ | ⟨none_told,standard⟩
  · rw [whole,same,if_neg (by simpa using nonempty)]
  · rw [whole,none_told]
    exact congrArg (fun services => { cfg with services }) standard.symm

/-- A configuration that is written down is read back, and nothing in the text is complained of. -/
theorem reads_told {text : List Char} (tells : Tells text cfg) :
    parse text = cfg ∧ (parseLines text).warnings = [] := by
  refine ⟨parse_told tells,?_⟩
  obtain ⟨ls,rfl,sound,-⟩ := tells.lines
  rw [parseLines_told sound]

end Reading

section Boot
open Interaction Interaction.Program
open DropIns (byFile)
open Timers (File)
variable {Env : Type} {S : Surroundings Memory Op Op.Ans Env} {A : Option Op → Memory → Env → Prop}
  {m : Memory} {e : Env} {text : List Char} {files : List File} {cfg : Config} {ds : List ServiceDef} {ts : List TimerDef}

/-- The files are what a configuration is loaded from, and nobody asks for a reload. -/
structure Installed (S : Surroundings Memory Op Op.Ans Env) (text : List Char) (files : List File) : Prop where
  conf : ∀ m e r e', S.replies .loadOrDefault m e r e' → r = loadOrDefault (some text)
  units : ∀ m e r e', S.replies .loadUnits m e r e' → r = Units.loadAll files
  timers : ∀ m e r e', S.replies .loadTimers m e r e' → r = Timers.loadAll files
  unreloaded : ∀ m e r e', S.replies (.swap .reloadRequested) m e r e' → r = false

/-- What the files come to: a unit is left out if an inline service has its name. -/
def whole (cfg : Config) (ds : List ServiceDef) : Config :=
  { cfg with services := cfg.services ++
      (ds.mergeSort (byFile "service" ServiceDef.name)).filter fun d => !cfg.services.any fun s => s.name == d.name }

abbrev ordered (ts : List TimerDef) : List TimerDef := ts.mergeSort (byFile "timer" TimerDef.name)

structure InForce (cfg : Config) (ts : List TimerDef) (m : Memory) : Prop where
  cfg : m.cfg = cfg
  timerDefs : m.timerDefs = ts
  watch : m.watch = none

def asked (cfg : Config) (ts : List TimerDef) (op : Option Op) (m : Memory) (_ : Env) : Prop :=
  op = some (.swap .rebootRequested) → InForce cfg ts m

theorem unasked {ts : List TimerDef} (op : Option Op) (m : Memory) (e : Env) (other : op ≠ some (.swap .rebootRequested)) :
    asked cfg ts op m e := fun turns => absurd turns other

/-- Before the loop turns nothing is asked. -/
theorem wp_aside {α : Type} {upd : Memory → Memory → Prop} {ok : Op → Prop} {p : Code α} {P : Memory → Prop}
    (uses : p.Uses upd ok) (kept : ∀ m m', upd m m' → P m → P m') (turnless : ¬ ok (.swap .rebootRequested))
    (start : P m) : p.wp S (asked cfg ts) (fun _ m _ => P m) m e := by
  refine wp_frame (P := fun m _ => P m) ⟨?_,?_,?_,?_⟩ uses start
  · exact fun m m' _ written before => kept m m' written before
  · exact fun _ _ _ _ _ _ before => before
  · exact fun _ _ _ _ _ _ _ before => before
  · intro op m e allowed _
    refine unasked op m e ?_
    rintro rfl
    exact turnless (allowed _ rfl)

/-- Calm calls are no turn of the loop. -/
theorem calmly_memory (P : Memory → Prop) : Calmly S (asked cfg ts) fun m _ => P m where
  updates _ _ _ same held := same ▸ held
  moves _ _ _ _ _ _ held := held
  replies _ _ _ _ _ _ _ held := held
  holds op m e calm _ := by
    refine unasked op m e ?_
    rintro rfl
    exact absurd (calm _ rfl).plain.1 (by decide)

theorem wp_call {op : Op} {P : Memory → Prop} (turnless : op ≠ .swap .rebootRequested) (start : P m) :
    (call op).wp S (asked cfg ts) (fun _ m _ => P m) m e := by
  have uses : (call op).Uses Eq (· = op) := uses_perform rfl
  refine wp_aside uses ?_ (Ne.symm turnless) start
  rintro _ _ rfl held
  exact held

/-- A call whose answer is known. -/
theorem wp_bind_answered {β : Type} {op : Op} {f : op.Ans → Code β} {Q : β → Memory → Env → Prop}
    (turnless : op ≠ .swap .rebootRequested) (rest : ∀ e r e', S.replies op m e r e' → (f r).wp S (asked cfg ts) Q m e') :
    (call op >>= f).wp S (asked cfg ts) Q m e := by
  refine (wp_bind _ _ _ _ _).mpr (wp_perform (P := fun _ => True) trivial (fun _ _ _ _ => trivial) ?_ ?_)
  · exact fun e _ => unasked _ _ _ (by simpa using turnless)
  · exact fun e r e' _ replied => rest e r e' replied

/-- Units with names of their own: those whose names are taken are left out. -/
theorem mergeServices_distinct {base extra : List ServiceDef} (distinct : (extra.map ServiceDef.name).Nodup) :
    mergeServices base extra = base ++ extra.filter fun d => !base.any fun s => s.name == d.name := by
  induction extra generalizing base with
  | nil => exact (List.append_nil base).symm
  | cons d extra ih =>
    obtain ⟨new,distinct⟩ := List.nodup_cons.mp distinct
    rw [mergeServices]
    split
    · rename_i taken
      rw [ih distinct,List.filter_cons_of_neg (by simpa using taken)]
    · rename_i free
      have same : (extra.filter fun d' => !(base ++ [d]).any fun s => s.name == d'.name) =
          extra.filter fun d' => !base.any fun s => s.name == d'.name := by
        refine List.filter_congr fun d' member => ?_
        have apart : d.name ≠ d'.name := fun equal => new (equal ▸ List.mem_map_of_mem member)
        simp [apart]
      rw [ih distinct,same,List.filter_cons_of_pos (by simpa using free),List.append_assoc,List.singleton_append]

theorem wp_loadConfig (installed : Installed S text files) (tells : Tells text cfg) (told : DropIns.Tells files ds ts)
    {force : Config} {timers : List TimerDef} :
    loadConfig.wp S (asked force timers) (fun loaded _ _ => loaded = whole cfg ds) m e := by
  refine wp_bind_answered (by simp) fun e conf e' answered => ?_
  obtain rfl := installed.conf m e conf e' answered
  refine wp_bind_answered (by simp) fun e units e' answered => ?_
  obtain rfl := installed.units m e units e' answered
  have sorted : (ds.mergeSort (byFile "service" ServiceDef.name)).Perm ds := List.mergeSort_perm _ _
  have distinct := (sorted.map ServiceDef.name).nodup_iff.mpr told.services
  rw [wp_pure,loadOrDefault,parse_told tells,DropIns.services_told told,mergeServices_distinct distinct]
  rfl

theorem inForce_only {force : Config} (held : InForce force ts m) {m' : Memory} (only : OnlyServices m m') :
    InForce force ts m' := by
  unfold OnlyServices at only
  rw [only]
  exact ⟨held.cfg,held.timerDefs,held.watch⟩

theorem inForce_isolated {force : Config} (held : InForce force ts m) {m' : Memory} (only : OnlyIsolated m m') :
    InForce force ts m' := by
  unfold OnlyIsolated at only
  rw [only]
  exact ⟨held.cfg,held.timerDefs,held.watch⟩

/-- Without a reload there is nothing to watch, and no turn changes the configuration. -/
theorem loop_keeps (installed : Installed S text files) {force : Config} :
    LoopInvariant S (asked force ts) (fun m _ => InForce force ts m) fun m _ => InForce force ts m where
  unasked := unasked
  head _ _ held _ := held
  pending _ _ _ _ held := held
  turned _ _ _ _ _ held := held
  moves _ _ _ _ _ held := held
  replies _ _ _ _ _ _ _ _ _ held := held
  settles _ _ held := held
  timers m m' _ written held := by
    unfold OnlyTimers at written
    rw [written]
    exact ⟨held.cfg,held.timerDefs,held.watch⟩
  reloads m e held := by
    refine wp_bind_answered (by simp) fun e requested e' answered => ?_
    obtain rfl := installed.unreloaded m e requested e' answered
    exact held
  isolates m e held := by
    refine wp_bind_answered (by simp) fun e pending e' _ => ?_
    have kept : ∀ m m', OnlyIsolated m m' → InForce force ts m → InForce force ts m' :=
      fun _ _ only held => inForce_isolated held only
    exact wp_aside (uses_each fun name _ => isolate_isolates name) kept (by decide) held
  exits status m e held :=
    wp_aside (handleExit_answersExit status) (fun _ _ only held => inForce_only held only) (by decide) held
  resolves failedName m e held := by
    refine wp_bind_exchange (unasked _ _ _ (by simp)) ?_
    rw [held.watch]
    exact ⟨held.cfg,held.timerDefs,rfl⟩

/-- The configuration is loaded before the loop, with the timers. -/
theorem boot_phases (installed : Installed S text files) (tells : Tells text cfg) (told : DropIns.Tells files ds ts) :
    BootPhases S (asked (whole cfg ds) (ordered ts)) (fun _ _ => True) (fun loaded _ _ => loaded = whole cfg ds)
      (fun loaded _ _ => loaded = whole cfg ds) (fun loaded _ _ => loaded = whole cfg ds)
      (fun _ m _ => m.cfg = whole cfg ds ∧ m.timerDefs = ordered ts)
      fun m _ => m.cfg = whole cfg ds ∧ m.timerDefs = ordered ts where
  unread m e := unasked none m e (by simp)
  started_calm := calmly_memory fun _ => True
  loads _ _ _ := wp_loadConfig installed tells told
  levels loaded _ _ same := wp_call (P := fun _ => loaded = whole cfg ds) (by simp) same
  levelled_calm loaded := calmly_memory fun _ => loaded = whole cfg ds
  blocks loaded _ _ same := wp_call (P := fun _ => loaded = whole cfg ds) (by simp) same
  listens loaded _ _ same := wp_call (P := fun _ => loaded = whole cfg ds) (by simp) same
  publishes loaded _ _ same := wp_call (P := fun _ => loaded = whole cfg ds) (by simp) same
  times loaded m e same := by
    refine (wp_perform_iff _ _ _ _).mpr fun e₁ _ => ⟨unasked _ _ _ (by simp),fun timerDefs e₂ answered => ?_⟩
    rw [installed.timers m e₁ timerDefs e₂ answered]
    exact ⟨same,DropIns.timers_told told⟩
  spawns loaded m e held := by
    refine wp_aside (spawnAll_supervises _) (fun m m' only held => ?_) (by decide) held
    unfold OnlyServices at only
    rw [only]
    exact held
  unblocks m e held := wp_call (by simp) held
  booted_calm := calmly_memory _

theorem wp_main (installed : Installed S text files) (tells : Tells text cfg) (told : DropIns.Tells files ds ts) :
    main.wp S (asked (whole cfg ds) (ordered ts)) (fun _ _ _ => True) m e := by
  refine (boot_phases installed tells told).wp_main (fun grace m e booted => ?_) trivial
  refine wp_bind_update (unasked _ _ _ (by simp)) ?_
  exact wp_loop_keeps (loop_keeps installed) grace ⟨booted.1,booted.2,rfl⟩

end Boot

section Runs
open Interaction
open Timers (File)

def front : ServiceDef := { web with name := "front", target := "kiosk" }

def box : Config where
  hostname := some "box"
  loglevel := .debug
  shutdownTimeoutSecs := 5
  defaultTarget := "kiosk"
  services := [front]

def boxLines : List Line :=
  [⟨[],.silent "# the box in the hall".toList,[]⟩,⟨"  ".toList,.setting .hostname true,[]⟩,⟨[],.silent [],"\t".toList⟩,
    ⟨[],.service front Key.all.reverse,[' ']⟩,⟨[],.setting .defaultTarget false,[]⟩,⟨[],.setting .loglevel false,[]⟩]

def boxText : List Char := boxLines.flatMap fun l => l.text box ++ ['\n']

theorem plain_front : Plain front where
  name := by decide
  path := plain_web.path
  lists := plain_web.lists
  options := plain_web.options
  target := by decide
  environment := plain_web.environment
  memoryLimit := plain_web.memoryLimit
  watchdogTimeout := plain_web.watchdogTimeout
  oomScoreAdjust := plain_web.oomScoreAdjust

theorem sound_boxLines : ∀ l ∈ boxLines, l.Sound box := by
  have nothing : Text.Blank [] ∧ '\n' ∉ ([] : List Char) ∧ '\r' ∉ ([] : List Char) := by simp [Text.Blank]
  simp only [boxLines,List.mem_cons,List.not_mem_nil,or_false,forall_eq_or_imp,forall_eq]
  refine ⟨⟨nothing,.silent (by decide) (by decide),nothing⟩,
    ⟨?_,.setting rfl (by decide) (by decide) (by simp) (by decide),nothing⟩,
    ⟨nothing,.silent (by decide) (by decide),?_⟩,⟨nothing,.service plain_front (List.reverse_perm _),?_⟩,
    ⟨nothing,.setting rfl (by decide) (by decide) (fun _ => by decide) (by decide),nothing⟩,
    ⟨nothing,.setting rfl (by decide) (by decide) (fun _ => by decide) (by decide),nothing⟩⟩
  all_goals simp [Text.Blank]; decide

theorem tells_box : Tells boxText box where
  lines := by
    refine ⟨boxLines,rfl,sound_boxLines,?_,.inl ⟨rfl,by simp [box]⟩⟩
    intro k
    cases k with
    | hostname => exact .inl ⟨_,.tail _ (.head _),true,rfl⟩
    | loglevel => exact .inl ⟨⟨[],.setting .loglevel false,[]⟩,by simp [boxLines],false,rfl⟩
    | shutdownTimeout => exact .inr rfl
    | defaultTarget => exact .inl ⟨⟨[],.setting .defaultTarget false,[]⟩,by simp [boxLines],false,rfl⟩

theorem reads_told_box : parse boxText = box ∧ (parseLines boxText).warnings = [] := reads_told tells_box

def onDisk : Condition Memory Op Op.Ans Kernel Event where
  event _ _ _ _ := true
  reply
    | .loadOrDefault, _, _, cfg => decide (cfg = box)
    | .loadUnits, _, _, units => decide (units = [DropIns.cache,web])
    | .loadTimers, _, _, timers => decide (timers = [DropIns.early,DropIns.daily])
    | .swap .reloadRequested, _, _, requested => !requested
    | _, _, _, _ => true

def obliging : (op : Op) → Memory → Kernel → op.Ans
  | .loadUnits, _, _ => [DropIns.cache,web]
  | .loadTimers, _, _ => [DropIns.early,DropIns.daily]
  | op, m, k => Kernel.obliging (fun _ => true) box op m k

theorem installed_onDisk : Installed (Kernel.machine.under onDisk).surroundings boxText DropIns.directory where
  conf _ _ _ _ replied := by
    rw [loadOrDefault,parse_told tells_box]
    exact of_decide_eq_true (Machine.under_answer_iff.mp replied).1
  units _ _ _ _ replied := by
    rw [DropIns.services_told DropIns.tells_directory,DropIns.sorted_directory.1]
    exact of_decide_eq_true (Machine.under_answer_iff.mp replied).1
  timers _ _ _ _ replied := by
    rw [DropIns.timers_told DropIns.tells_directory,DropIns.sorted_directory.2]
    exact of_decide_eq_true (Machine.under_answer_iff.mp replied).1
  unreloaded _ _ _ _ replied := by simpa [onDisk] using (Machine.under_answer_iff.mp replied).1

def turning : Cue Op Event := .upTo (· == .swap .rebootRequested) 400

def boxRun : Option (State Memory Op Op.Ans Kernel Unit) :=
  drive (Kernel.machine.under onDisk) obliging [turning,.stir .requestStatus,.step,turning] ⟨main,{},{}⟩

end Runs
end MitosServices.BootFiles
