import MitosServices.Memory
import MitosServices.Interaction.Program

/-! The calls the main thread makes: to the kernel, to the file system and to the state it shares
with the other threads. A call is named after the function of the source it stands for, and its
answer is whatever the source can see of the result. -/
namespace MitosServices

inductive Signal
  | sighup | sigint | sigquit | sigill | sigtrap | sigabrt | sigbus | sigfpe | sigkill | sigusr1
  | sigsegv | sigusr2 | sigpipe | sigalrm | sigterm | sigstkflt | sigchld | sigcont | sigstop
  | sigtstp | sigttin | sigttou | sigurg | sigxcpu | sigxfsz | sigvtalrm | sigprof | sigwinch
  | sigio | sigpwr | sigsys
deriving DecidableEq, Repr

def Signal.text : Signal → String
  | sighup => "SIGHUP" | sigint => "SIGINT" | sigquit => "SIGQUIT" | sigill => "SIGILL"
  | sigtrap => "SIGTRAP" | sigabrt => "SIGABRT" | sigbus => "SIGBUS" | sigfpe => "SIGFPE"
  | sigkill => "SIGKILL" | sigusr1 => "SIGUSR1" | sigsegv => "SIGSEGV" | sigusr2 => "SIGUSR2"
  | sigpipe => "SIGPIPE" | sigalrm => "SIGALRM" | sigterm => "SIGTERM" | sigstkflt => "SIGSTKFLT"
  | sigchld => "SIGCHLD" | sigcont => "SIGCONT" | sigstop => "SIGSTOP" | sigtstp => "SIGTSTP"
  | sigttin => "SIGTTIN" | sigttou => "SIGTTOU" | sigurg => "SIGURG" | sigxcpu => "SIGXCPU"
  | sigxfsz => "SIGXFSZ" | sigvtalrm => "SIGVTALRM" | sigprof => "SIGPROF"
  | sigwinch => "SIGWINCH" | sigio => "SIGIO" | sigpwr => "SIGPWR" | sigsys => "SIGSYS"

inductive Flag
  | rebootRequested
  | poweroffRequested
  | haltRequested
  | reloadRequested
  | statusDumpRequested
deriving DecidableEq, Repr

inductive Ending
  | exited (code : Int)
  | signaled (sig : Signal)
deriving DecidableEq, Repr

def Ending.summary : Ending → String
  | .exited code => s!"exited with status {code}"
  | .signaled sig => s!"killed by signal {sig.text}"

inductive WaitStatus
  | ended (pid : Int) (ending : Ending)
  | stillAlive
  | other
deriving DecidableEq, Repr

inductive Errno
  | eintr
  | echild
  | other
deriving DecidableEq, Repr

inductive WaitFor
  | any
  | only (pid : Int)
deriving DecidableEq, Repr

inductive Origin
  | service (name : String) (critical : Bool)
  | rescue
  | timer (name : String)
  | app (id : String)
  | orphan
deriving DecidableEq, Repr

structure ServiceSandbox where
  privateTmp : Bool
  protectSystem : Bool
  noNewPrivileges : Bool
deriving DecidableEq, Repr

def ServiceSandbox.isEmpty (sandbox : ServiceSandbox) : Bool :=
  !sandbox.privateTmp && !sandbox.protectSystem && !sandbox.noNewPrivileges

/-- What a `pre_exec` closure does: the sandbox first, then the identity by hand. -/
structure PreExec where
  sandbox : ServiceSandbox
  gid : Option Nat
  uid : Option Nat
deriving DecidableEq, Repr

structure Command where
  program : String
  args : List String := []
  env : List (String × String) := []
  currentDir : Option String := none
  uid : Option Nat := none
  gid : Option Nat := none
  preExec : Option PreExec := none
deriving DecidableEq, Repr

/-- Rust's `{:?}` of a string: the common escapes; other control characters as code points. -/
def debugString (s : String) : String :=
  let escape (c : Char) : String :=
    if c = '"' then "\\\"" else if c = '\\' then "\\\\" else if c = '\n' then "\\n"
    else if c = '\r' then "\\r" else if c = '\t' then "\\t" else if c = '\x00' then "\\0"
    else if c.toNat < 32 ∨ c.toNat = 127 then
      "\\u\x7b" ++ String.ofList (Nat.toDigits 16 c.toNat) ++ "\x7d"
    else c.toString
  "\"" ++ String.join (s.toList.map escape) ++ "\""

def debugList (names : List String) : String :=
  "[" ++ ", ".intercalate (names.map debugString) ++ "]"

inductive Line
  | subreaperRefused (e : String)
  | cgroupsUnavailable
  | starting
  | hostnameRefused (hostname e : String)
  | handlersRefused (e : String)
  | blockRefused (e : String)
  | unblockRefused (e : String)
  | shutdownRelayed
  | reloadingConfig
  | reloadedHostnameRefused (e : String)
  | isolateUnknown (name : String)
  | isolating (name : String)
  | status (summary : String)
  | missedWatchdog (pid : Int)
  | criticalExited
  | noChildrenLeft
  | waitFailed (e : Errno)
  | ackRefused (e : String)
  | requiresMissing (name : String) (missing : List String)
  | readyTimedOut (name : String)
  | unresolvedUser (name user : String)
  | unresolvedGroup (name group : String)
  | started (name path : String) (pid : Int)
  | failedToStart (name path e : String)
  | fellBack
  | serviceEnded (name : String) (ending : Ending)
  | givingUp (name : String) (times : Nat)
  | stoppingRemoved (name : String)
  | restartingChanged (name : String)
  | startingNew (name : String)
  | killingLate (pid : Int)
  | cycle (names : List String)
  | nothingToApply
  | watching (count : Nat)
  | rollingBack (name : String)
  | rolledBack
  | keeping
  | timerUnmatched (name : String)
  | timerStarted (name : String) (pid : Int)
  | timerFailed (name e : String)
  | timerFinished (name : String) (pid : Int)
  | appExited (id path : String)
deriving DecidableEq, Repr

namespace Line

def level : Line → Level
  | handlersRefused _ | unblockRefused _ | missedWatchdog _ | waitFailed _ | requiresMissing _ _
  | failedToStart _ _ _ | givingUp _ _ | rollingBack _ | timerFailed _ _ => .error
  | subreaperRefused _ | cgroupsUnavailable | hostnameRefused _ _ | blockRefused _
  | reloadedHostnameRefused _ | isolateUnknown _ | noChildrenLeft | readyTimedOut _
  | unresolvedUser _ _ | unresolvedGroup _ _ | fellBack | serviceEnded _ _ | killingLate _
  | cycle _ | timerUnmatched _ => .warn
  | ackRefused _ => .debug
  | _ => .info

def text : Line → String
  | subreaperRefused e => s!"couldn't become a child subreaper: {e} - orphaned grandchildren of services may reparent to mitos-init instead of here"
  | cgroupsUnavailable => "cgroup delegation from mitos-init unavailable - falling back to plain pid-based supervision only"
  | starting => "mitos-services starting"
  | hostnameRefused hostname e => s!"failed to set hostname to '{hostname}': {e}"
  | handlersRefused e => s!"failed to install signal handlers: {e}"
  | blockRefused e => s!"failed to block signals ahead of worker threads: {e}"
  | unblockRefused e => s!"failed to unblock signals: {e}"
  | shutdownRelayed => "shutdown relayed from mitos-init - stopping services"
  | reloadingConfig => "reloading config"
  | reloadedHostnameRefused e => s!"failed to apply reloaded hostname: {e}"
  | isolateUnknown name => s!"isolate: no services configured for target '{name}', ignoring"
  | isolating name => s!"isolating to target '{name}'"
  | status summary => summary
  | missedWatchdog pid => s!"pid {pid} missed its watchdog deadline, killing it"
  | criticalExited => "critical service exited, stopping mitos-services"
  | noChildrenLeft => "no children left to wait for"
  | waitFailed .eintr => "waitpid failed: EINTR: Interrupted system call"
  | waitFailed .echild => "waitpid failed: ECHILD: No child processes"
  | waitFailed .other => "waitpid failed: EINVAL: Invalid argument"
  | ackRefused e => s!"couldn't open /run/mitos-init/shutdown-ack to acknowledge shutdown: {e}"
  | requiresMissing name missing =>
    s!"service '{name}' requires {debugList missing} which didn't start - skipping"
  | readyTimedOut name =>
    s!"timed out waiting for '{name}' to report ready, starting the dependent service anyway"
  | unresolvedUser name user => s!"service '{name}': couldn't resolve user '{user}', running as root"
  | unresolvedGroup name group =>
    s!"service '{name}': couldn't resolve group '{group}', running with the default group"
  | started name path pid => s!"started '{name}' ({path}) as pid {pid}"
  | failedToStart name path e => s!"failed to start '{name}' ({path}): {e}"
  | fellBack => "fell back to /bin/sh"
  | serviceEnded name ending => s!"service '{name}' {ending.summary}"
  | givingUp name times => s!"service '{name}' restarted {times} times within 10s, giving up"
  | stoppingRemoved name => s!"reload: stopping removed service '{name}'"
  | restartingChanged name => s!"reload: restarting changed service '{name}'"
  | startingNew name => s!"reload: starting new service '{name}'"
  | killingLate pid => s!"pid {pid} didn't exit in time, sending SIGKILL"
  | cycle names => s!"dependency cycle among service(s) {debugList names}, starting in listed order"
  | nothingToApply => "reload: no service changes to apply"
  | watching count => s!"reload: watching {count} changed service(s) for 10s before confirming"
  | rollingBack name => s!"reload: '{name}' failed within the watch window, rolling back"
  | rolledBack => "reload: rolled back to the previous config"
  | keeping => "reload: no failures in the watch window, keeping the new config"
  | timerUnmatched name => s!"timer '{name}': no matching service definition, skipping"
  | timerStarted name pid => s!"timer '{name}': started pid {pid}"
  | timerFailed name e => s!"timer '{name}': failed to start: {e}"
  | timerFinished name pid => s!"timer '{name}': run finished (pid {pid})"
  | appExited id path => s!"app '{id}' ({path}) exited"

end Line

inductive Op
  | now
  | sleep (duration : Nat)
  | log (line : Line)
  | setLevel (level : Level)
  | sethostname (name : String)
  | swap (flag : Flag)
  | takePendingIsolate
  | publishStatus (text : String)
  | publishTargets (current : String) (all : List String)
  | loadOrDefault
  | loadUnits
  | loadTimers
  | resolveUid (spec : String)
  | resolveGid (spec : String)
  | listenFor (name : String) (uid gid : Option Nat)
  | forget (name : String)
  | isReady (name : String)
  | lastPing (name : String)
  | iterate (entries : List (Int × Supervised))
  | spawn (origin : Origin) (command : Command)
  | createFor (name : String) (memoryLimit : Option Nat)
  | attach (name : String) (pid : Int)
  | killAndRemove (name : String)
  | killAndRemoveApp (id : String)
  | setScoreAdjust (pid score : Int)
  | kill (pid : Int) (sig : Signal)
  | waitpid (target : WaitFor) (nohang : Bool)
  | takeApp (pid : Int)
  | openAck
  | writeAck
  | becomeSubreaper
  | cgroupsAvailable
  | installHandlers
  | blockHandled
  | unblockHandled
  | spawnListener
  | spawnMonitor
  | panic
deriving DecidableEq, Repr

@[reducible] def Op.Ans : Op → Type
  | now => Nat
  | sethostname _ | openAck | becomeSubreaper | installHandlers | blockHandled
  | unblockHandled => Except String Unit
  | swap _ | isReady _ | cgroupsAvailable => Bool
  | takePendingIsolate | listenFor _ _ _ => Option String
  | loadOrDefault => Config
  | loadUnits => List ServiceDef
  | loadTimers => List TimerDef
  | resolveUid _ | resolveGid _ | lastPing _ => Option Nat
  | iterate _ => List (Int × Supervised)
  | spawn _ _ => Except String Int
  | waitpid _ _ => Except Errno WaitStatus
  | takeApp _ => Option AppInfo
  | _ => Unit

open Interaction

abbrev Code := Program Memory Op Op.Ans

def call (op : Op) : Code op.Ans := Program.perform op

section Wrappers

def now : Code Nat := call .now
def sleep (duration : Nat) : Code Unit := call (.sleep duration)
def log (line : Line) : Code Unit := call (.log line)
def swap (flag : Flag) : Code Bool := call (.swap flag)
def forget (name : String) : Code Unit := call (.forget name)
def killAndRemove (name : String) : Code Unit := call (.killAndRemove name)
def kill (pid : Int) (sig : Signal) : Code Unit := call (.kill pid sig)
def spawn (origin : Origin) (command : Command) : Code (Except String Int) :=
  call (.spawn origin command)
def waitpid (target : WaitFor) (nohang : Bool) : Code (Except Errno WaitStatus) :=
  call (.waitpid target nohang)

/-- The seconds of an instant are kept in an `i64`. -/
def representable (t : Nat) : Bool := t / 1000000000 < 2 ^ 63

/-- `Instant + Duration` aborts the process if it cannot keep the sum. -/
def checkInstant (t : Nat) : Code Unit :=
  Program.provided (!representable t) (call .panic)

/-- The table in the order this iteration of the hash map visits it. -/
def entries (services : Services) : Code (List (Int × Supervised)) :=
  call (.iterate services.toList)

end Wrappers
end MitosServices
