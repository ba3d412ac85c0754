import MitosServices.InitConf
import MitosServices.Memory

/-! Unit files: one service each, named after the file, in sections of `Key=Value` lines; and the
timer files that share their form. -/
namespace MitosServices.Units
open Config

/-- `Path::file_stem` of a file name: what comes before the last dot, unless nothing does. -/
def fileStem (file : List Char) : List Char :=
  match Text.splitOnce '.' file.reverse with
  | some (_,[]) | none => file
  | some (_,stem) => stem.reverse

/-- `Path::extension` of a file name: what comes after the last dot, unless nothing comes before it. -/
def extension (file : List Char) : Option (List Char) :=
  match Text.splitOnce '.' file.reverse with
  | some (_,[]) | none => none
  | some (ext,_) => some ext.reverse

theorem stem_extension {file ext : List Char} (found : extension file = some ext) :
    file = fileStem file ++ '.' :: ext := by
  unfold extension at found
  unfold fileStem
  cases cut : Text.splitOnce '.' file.reverse with
  | none =>
    rw [cut] at found
    contradiction
  | some halves =>
    obtain ⟨back,front⟩ := halves
    cases front with
    | nil =>
      rw [cut] at found
      contradiction
    | cons c front =>
      rw [cut] at found
      obtain rfl : back.reverse = ext := Option.some.inj found
      have whole := congrArg List.reverse (Text.eq_of_splitOnce cut)
      simpa using whole

/-- `Path::file_name`: the last part of a path, unless that is `..`. -/
def fileName (path : List Char) : Option (List Char) :=
  (((Text.split '/' path).filter fun part => !part.isEmpty && part != ['.']).getLast?).filter fun part =>
    part != ['.','.']

def parseEnvPairs (value : List Char) : List (String × String) :=
  (Text.splitWhitespace value).filterMap parsePair

structure Reading where
  fields : Fields
  heading : List Char := []
  warnings : List String := []

def parseRestart (path : String) (value : String) : RestartPolicy × List String :=
  match value with
  | "always" => (.always,[])
  | "no" => (.never,[])
  | "on-failure" => (.onFailure,[])
  | other => (.onFailure,[s!"{path}: unrecognized Restart={other}, treating as on-failure"])

def setRestart (path : String) (u : Reading) (value : String) : Reading :=
  let (restart,warnings) := parseRestart path value
  { u with fields.svc.restart := restart, warnings := u.warnings ++ warnings }

def protects (value : List Char) : Bool :=
  !Text.eqIgnoreAsciiCase value "no".toList && !Text.eqIgnoreAsciiCase value "false".toList

def setKey (path : String) (u : Reading) (key : String) (value : List Char) : Reading :=
  let text := String.ofList value
  match key with
  | "ExecStart" => { u with fields.exec := some text }
  | "Restart" => setRestart path u text
  | "X-Critical" => { u with fields.svc.critical := isTrue value }
  | "MemoryMax" => { u with fields.svc.memoryLimit := Cgroups.parseSize value }
  | "After" => { u with fields.svc.after := parseNameList value }
  | "X-AfterReady" => { u with fields.svc.afterReady := parseNameList value }
  | "Before" => { u with fields.svc.before := parseNameList value }
  | "Requires" => { u with fields.svc.requires := parseNameList value }
  | "Wants" => { u with fields.svc.wants := parseNameList value }
  | "User" => { u with fields.svc.user := some text }
  | "Group" => { u with fields.svc.group := some text }
  | "WatchdogSec" => { u with fields.svc.watchdogTimeout := parseSecs value }
  | "Environment" => { u with
    fields.svc.environment := u.fields.svc.environment ++ parseEnvPairs value }
  | "WorkingDirectory" => { u with fields.svc.workingDir := some text }
  | "X-Target" => { u with fields.target := some text }
  | "PrivateTmp" => { u with fields.svc.privateTmp := isTrue value }
  | "NoNewPrivileges" => { u with fields.svc.noNewPrivileges := isTrue value }
  | "ProtectSystem" => { u with fields.svc.protectSystem := protects value }
  | "OOMScoreAdjust" => { u with fields.svc.oomScoreAdjust := Text.parseSigned 32 value }
  | _ => u

def sectionName (line : List Char) : Option (List Char) :=
  (Text.stripPrefix ['['] line).bind fun rest => Text.stripSuffix [']'] rest

def parseLine (path : String) (u : Reading) (line : List Char) : Reading :=
  match sectionName line with
  | some name => { u with heading := name }
  | none => match Text.splitOnce '=' line with
    | none => u
    | some (key,value) =>
      if u.heading ≠ "Service".toList then u
      else setKey path u (String.ofList (Text.trim key)) (Text.trim value)

def ignored (line : List Char) : Bool :=
  line.isEmpty || line.head? == some '#' || line.head? == some ';'

def spokenLines (text : List Char) : List (List Char) :=
  ((Text.lines text).map Text.trim).filter fun line => !ignored line

def parseLines (path : String) (stem text : List Char) : Reading :=
  (spokenLines text).foldl (parseLine path) { fields := { svc := { name := String.ofList stem } } }

/-- What the fields make: white space alone separates the arguments of `ExecStart=`. -/
def finish (fields : Fields) : Except String ServiceDef :=
  match fields.exec with
  | none => .error "missing ExecStart= in [Service]"
  | some exec => match Text.splitWhitespace exec.toList with
    | [] => .error "empty ExecStart="
    | bin :: args => .ok { fields.svc with
      path := String.ofList bin
      args := args.map String.ofList
      target := fields.target.getD Targets.defaultTarget }

def parseUnit (path : String) (stem : Option (List Char)) (text : List Char) :
    Except String ServiceDef :=
  match stem with
  | none => .error "unreadable filename"
  | some stem => finish (parseLines path stem text).fields

end MitosServices.Units

namespace MitosServices.Timers

structure Reading where
  onBoot : Option Nat := none
  onActive : Option Nat := none
  heading : List Char := []

def setKey (r : Reading) (key : String) (value : List Char) : Reading :=
  match key with
  | "OnBootSec" => { r with onBoot := Config.parseSecs value }
  | "OnUnitActiveSec" => { r with onActive := Config.parseSecs value }
  | _ => r

def parseLine (r : Reading) (line : List Char) : Reading :=
  match Units.sectionName line with
  | some name => { r with heading := name }
  | none => match Text.splitOnce '=' line with
    | none => r
    | some (key,value) =>
      if r.heading ≠ "Timer".toList then r
      else setKey r (String.ofList (Text.trim key)) (Text.trim value)

def parseTimer (stem : Option (List Char)) (text : List Char) : Except String TimerDef :=
  match stem with
  | none => .error "unreadable filename"
  | some stem =>
    let r := (Units.spokenLines text).foldl parseLine {}
    if r.onBoot.isNone && r.onActive.isNone then .error "neither OnBootSec= nor OnUnitActiveSec= set"
    else .ok ⟨String.ofList stem,r.onBoot,r.onActive⟩

structure File where
  name : List Char
  text : Option (List Char)

def filesWith (ext : String) (files : List File) : List File :=
  (files.filter fun f => Units.extension f.name == some ext.toList).mergeSort fun f g =>
    decide (String.ofList f.name ≤ String.ofList g.name)

/-- The timers of a directory; a file that cannot be read or is no timer is passed over, and so is one
whose name is not text. -/
def loadAll (files : List File) : List TimerDef :=
  (filesWith "timer" files).filterMap fun f => f.text.bind fun text =>
    (parseTimer (some (Units.fileStem f.name)) text).toOption

theorem parseTimer_name {stem text : List Char} {t : TimerDef}
    (parsed : (parseTimer (some stem) text).toOption = some t) : t.name = String.ofList stem := by
  unfold parseTimer at parsed
  dsimp only at parsed
  split at parsed
  · contradiction
  · cases Option.some.inj parsed
    rfl

/-- The files of a directory have names of their own, and so have the timers. -/
theorem loadAll_distinct {files : List File} (distinct : (files.map File.name).Nodup) :
    ((loadAll files).map TimerDef.name).Nodup := by
  have sorted : ((filesWith "timer" files).map File.name).Nodup := by
    refine (((List.mergeSort_perm _ _).map File.name).nodup_iff).mpr ?_
    exact distinct.sublist (List.filter_sublist.map _)
  have timed : ∀ f ∈ filesWith "timer" files, f.name = Units.fileStem f.name ++ ".timer".toList := by
    intro f member
    have kept := (List.mem_filter.mp ((List.mergeSort_perm _ _).mem_iff.mp member)).2
    exact Units.stem_extension (beq_iff_eq.mp kept)
  rw [List.Nodup,List.pairwise_map,loadAll,List.pairwise_filterMap]
  refine (List.pairwise_map.mp sorted).imp_of_mem ?_
  intro f g inF inG different t first u second same
  obtain ⟨_,-,parsed⟩ := Option.bind_eq_some_iff.mp first
  obtain ⟨_,-,parsed'⟩ := Option.bind_eq_some_iff.mp second
  rw [parseTimer_name parsed,parseTimer_name parsed',String.ofList_inj] at same
  apply different
  rw [timed f inF,timed g inG,same]

end MitosServices.Timers
