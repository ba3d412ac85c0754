import Mathlib.Algebra.Group.Int.Defs
import Mathlib.Algebra.Group.Nat.Defs
import Mathlib.Data.List.Basic

/-! Service definitions, the configuration built from them and the named groups of services.
A field the source leaves to `Default` has that value here too. -/
namespace MitosServices

def fromSecs (n : Nat) : Nat := n * 1000000000

def fromMillis (n : Nat) : Nat := n * 1000000

inductive RestartPolicy
  | always
  | onFailure
  | never
deriving DecidableEq, Repr

structure ServiceDef where
  name : String := ""
  path : String := ""
  args : List String := []
  critical : Bool := false
  restart : RestartPolicy := .never
  memoryLimit : Option Nat := none
  after : List String := []
  afterReady : List String := []
  before : List String := []
  requires : List String := []
  wants : List String := []
  user : Option String := none
  group : Option String := none
  watchdogTimeout : Option Nat := none
  environment : List (String × String) := []
  workingDir : Option String := none
  target : String := ""
  privateTmp : Bool := false
  protectSystem : Bool := false
  noNewPrivileges : Bool := false
  oomScoreAdjust : Option Int := none
deriving DecidableEq, Repr

inductive Level
  | error
  | warn
  | info
  | debug
deriving DecidableEq, Repr

namespace Targets

def defaultTarget : String := "multi-user"

def servicesIn (all : List ServiceDef) (name : String) : List ServiceDef :=
  all.filter fun d => d.target == name

def list (all : List ServiceDef) : List String :=
  (all.foldl (fun names d => if names.contains d.target then names else names ++ [d.target]) []).mergeSort
    fun a b => decide (a ≤ b)

end Targets

structure Config where
  hostname : Option String
  loglevel : Level
  shutdownTimeoutSecs : Nat
  defaultTarget : String
  services : List ServiceDef
deriving DecidableEq, Repr

namespace Config

def default : Config where
  hostname := some "mitos"
  loglevel := .info
  shutdownTimeoutSecs := 5
  defaultTarget := Targets.defaultTarget
  services := [{
    name := "shell"
    path := "/bin/mitos-shell"
    critical := true
    target := Targets.defaultTarget }]

/-- Of two services with one name the first seen is kept. -/
def mergeServices (base : List ServiceDef) : List ServiceDef → List ServiceDef
  | [] => base
  | svc :: extra =>
    if base.any fun s => s.name == svc.name then mergeServices base extra
    else mergeServices (base ++ [svc]) extra

end Config
end MitosServices
