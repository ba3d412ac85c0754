import MitosServices.Text
import MitosServices.Calls

/-! The control server: one line in, one answer out. `STATUS` raises the flag the main loop looks at
and then polls for the dump; everything else is answered at once. -/
namespace MitosServices.Ipc
open Interaction Interaction.Program

inductive Op
  | readLine
  | store (flag : Flag)
  | snapshot
  | now
  | sleep (duration : Nat)
  | lastTargets
  | requestIsolate (name : String)
  | launch (path : String) (args : List String)
  | apps
  | recent (filter : String)
  | writeAll (text : String)
deriving DecidableEq, Repr

@[reducible] def Op.Ans : Op → Type
  | readLine => Option (List Char)
  | snapshot => Nat × String
  | now => Nat
  | lastTargets => String × List String
  | launch _ _ => Except String String
  | apps => String
  | recent _ => List String
  | _ => Unit

abbrev Code := Program Unit Op Op.Ans

def call (op : Op) : Code op.Ans := perform op

section Status

def timedOut : String := "status request timed out\n"

/-- Polls until the version is another than the one it starts from. -/
def waitForFreshStatus (timeout : Nat) : Code String := do
  let baseline ← call .snapshot
  let start ← call .now
  repeatFrom () fun _ => do
    let t ← call .now
    if t < start + timeout then do
      let seen ← call .snapshot
      if seen.1 ≠ baseline.1 then pure (.inr s!"{seen.2}\n")
      else do
        call (.sleep (fromMillis 20))
        pure (.inl ())
    else pure (.inr timedOut)

def status : Code String := do
  call (.store .statusDumpRequested)
  waitForFreshStatus (fromMillis 500)

end Status

section Responses

def reload : Code String := do
  call (.store .reloadRequested)
  pure "reload requested - see the log for the outcome\n"

def targetLine (current name : String) : String :=
  (if name = current then "*" else " ") ++ " " ++ name

def targetsResponse : Code String := do
  let published ← call .lastTargets
  if published.2.isEmpty then pure "no targets published yet\n"
  else pure ("\n".intercalate
    ((s!"active: {published.1}" :: published.2.map (targetLine published.1)) ++ [""]))

def isolate (name : String) : Code String := do
  call (.requestIsolate name)
  pure s!"isolate to '{name}' requested - see the log for the outcome\n"

def launch (path : String) (args : List String) : Code String := do
  let launched ← call (.launch path args)
  match launched with
  | .ok id => pure s!"launched: {id}\n"
  | .error e => pure s!"launch failed: {e}\n"

/-- The first word is the path: there is one where `rest` is something and trimmed. -/
def launchWords (rest : List Char) : Code String :=
  let parts := (Text.splitWhitespace rest).map String.ofList
  launch (parts.head?.getD "") parts.tail

def logsResponse (filter : String) : Code String := do
  let lines ← call (.recent filter)
  if lines.isEmpty then pure "no matching log lines buffered\n"
  else pure ("\n".intercalate lines ++ "\n")

def apps : Code String := do
  let list ← call .apps
  pure s!"{list}\n"

end Responses

def splitCommand (line : List Char) : List Char × List Char :=
  let trimmed := Text.trim line
  let halves := (Text.splitOnce ' ' trimmed).getD (trimmed,[])
  (halves.1,Text.trim halves.2)

def answer (cmd : String) (rest : List Char) : Code String :=
  match cmd with
  | "STATUS" => status
  | "RELOAD" => reload
  | "PING" => pure "PONG\n"
  | "TARGETS" => targetsResponse
  | "ISOLATE" =>
    if rest.isEmpty then pure "usage: ISOLATE <target-name>\n" else isolate (String.ofList rest)
  | "LAUNCH" =>
    if rest.isEmpty then pure "usage: LAUNCH <path> [args...]\n" else launchWords rest
  | "APPS" => apps
  | "LOGS" => logsResponse (String.ofList rest)
  | other => pure s!"unknown command '{other}'\n"

def respond (line : List Char) : Code String :=
  let command := splitCommand line
  answer (String.ofList command.1) command.2

def handle : Code Unit := do
  let line ← call .readLine
  match line with
  | none => pure ()
  | some line => do
    let response ← respond line
    call (.writeAll response)

end MitosServices.Ipc
