import MitosServices.Config
import MitosServices.Text

/-! `init.conf`: global settings, one a line, and services declared inline. -/
namespace MitosServices

/-- `to_ascii_lowercase` first, so the case of a level does not matter. -/
def Level.parse (s : List Char) : Option Level :=
  match String.ofList (Text.lowerAscii s) with
  | "error" => some .error
  | "warn" | "warning" => some .warn
  | "info" => some .info
  | "debug" => some .debug
  | _ => none

namespace Cgroups

def sizeSuffix (s : List Char) : List Char × Nat :=
  let cut (long short : String) : Option (List Char) :=
    (Text.stripSuffix long.toList s).or (Text.stripSuffix short.toList s)
  match cut "Ki" "K" with
  | some number => (number,1024)
  | none => match cut "Mi" "M" with
    | some number => (number,1024^2)
    | none => match cut "Gi" "G" with
      | some number => (number,1024^3)
      | none => (s,1)

/-- The product is a `u64`, unchecked in a release build. -/
def parseSize (s : List Char) : Option Nat :=
  let (number,mult) := sizeSuffix (Text.trim s)
  (Text.parseUnsigned 64 (Text.trim number)).map fun n => n * mult % 2^64

end Cgroups

namespace Config

def isTrue (value : List Char) : Bool := Text.eqIgnoreAsciiCase value "true".toList

def parseSecs (value : List Char) : Option Nat := (Text.parseUnsigned 64 value).map fromSecs

def parseNameList (value : List Char) : List String :=
  ((Text.split ',' value).filter fun s => !s.isEmpty).map String.ofList

def parsePair (pair : List Char) : Option (String × String) :=
  (Text.splitOnce '=' pair).map fun halves => (String.ofList halves.1,String.ofList halves.2)

def parseEnvList (value : List Char) : List (String × String) :=
  ((Text.split ',' value).filter fun s => !s.isEmpty).filterMap parsePair

/-- What has been read of a service so far: what to execute and the target have no value yet. -/
structure Fields where
  svc : ServiceDef
  exec : Option String := none
  target : Option String := none

def setField (f : Fields) (key : String) (value : List Char) : Fields :=
  let text := String.ofList value
  match key with
  | "path" => { f with exec := some text }
  | "args" => { f with svc.args := parseNameList value }
  | "critical" => { f with svc.critical := isTrue value }
  | "restart" => { f with svc.restart := match text with
    | "always" => .always
    | "never" => .never
    | _ => .onFailure }
  | "mem_max" => { f with svc.memoryLimit := Cgroups.parseSize value }
  | "after" => { f with svc.after := parseNameList value }
  | "after_ready" => { f with svc.afterReady := parseNameList value }
  | "before" => { f with svc.before := parseNameList value }
  | "requires" => { f with svc.requires := parseNameList value }
  | "wants" => { f with svc.wants := parseNameList value }
  | "user" => { f with svc.user := some text }
  | "group" => { f with svc.group := some text }
  | "watchdog_sec" => { f with svc.watchdogTimeout := parseSecs value }
  | "environment" => { f with svc.environment := parseEnvList value }
  | "workdir" => { f with svc.workingDir := some text }
  | "target" => { f with target := some text }
  | "private_tmp" => { f with svc.privateTmp := isTrue value }
  | "protect_system" => { f with svc.protectSystem := isTrue value }
  | "no_new_privileges" => { f with svc.noNewPrivileges := isTrue value }
  | "oom_score_adjust" => { f with svc.oomScoreAdjust := Text.parseSigned 32 value }
  | _ => f

def readField (f : Fields) (field : List Char) : Except String Fields :=
  match Text.splitOnce '=' field with
  | none => .error s!"bad field '{String.ofList field}'"
  | some (key,value) => .ok (setField f (String.ofList key) (Text.trimMatches '"' value))

def parseService (rest : List Char) : Except String ServiceDef := do
  match Text.splitWhitespace rest with
  | [] => .error "missing service name"
  | name :: parts =>
    let fields ← parts.foldlM readField ⟨{ name := String.ofList name, restart := .onFailure },none,none⟩
    match fields.exec with
    | none => .error "missing path="
    | some path => .ok { fields.svc with path, target := fields.target.getD Targets.defaultTarget }

structure Parsed where
  cfg : Config
  warnings : List String := []

def Parsed.warn (parsed : Parsed) (text : String) : Parsed :=
  { parsed with warnings := parsed.warnings ++ ["mitos-init [WARN]: " ++ text] }

def setKey (parsed : Parsed) (key : String) (value : List Char) : Parsed :=
  match key with
  | "hostname" => { parsed with cfg.hostname := some (String.ofList value) }
  | "loglevel" => { parsed with cfg.loglevel := (Level.parse value).getD parsed.cfg.loglevel }
  | "shutdown_timeout" => { parsed with
    cfg.shutdownTimeoutSecs := (Text.parseUnsigned 64 value).getD parsed.cfg.shutdownTimeoutSecs }
  | "default_target" => { parsed with cfg.defaultTarget := String.ofList value }
  | _ => parsed.warn s!"unknown config key '{key}'"

def addService (parsed : Parsed) (line rest : List Char) : Parsed :=
  match parseService rest with
  | .ok svc => { parsed with cfg.services := parsed.cfg.services ++ [svc] }
  | .error e => parsed.warn s!"skipping bad service line ({e}): {String.ofList line}"

def parseLine (parsed : Parsed) (line : List Char) : Parsed :=
  match Text.stripPrefix "service ".toList line with
  | some rest => addService parsed line rest
  | none => match Text.splitOnce '=' line with
    | some (key,value) =>
      setKey parsed (String.ofList (Text.trim key)) (Text.trimMatches '"' (Text.trim value))
    | none => parsed

def ignored (line : List Char) : Bool := line.isEmpty || line.head? == some '#'

def spokenLines (text : List Char) : List (List Char) :=
  ((Text.lines text).map Text.trim).filter fun line => !ignored line

def parseLines (text : List Char) : Parsed :=
  (spokenLines text).foldl parseLine ⟨{ default with services := [] },[]⟩

def parse (text : List Char) : Config :=
  let cfg := (parseLines text).cfg
  if cfg.services.isEmpty then { cfg with services := default.services } else cfg

/-- The file's text, if there is a file and it is text. -/
def loadOrDefault : Option (List Char) → Config
  | some text => parse text
  | none => default

end Config
end MitosServices
