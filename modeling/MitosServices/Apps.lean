import MitosServices.Text
import MitosServices.Calls
import MitosServices.Interaction.Run

/-! Launching an app on request: the IPC thread hashes the file, asks the policy daemon and only
then spawns. `DENY` and `ASK` are meant to fail closed, but a reply that cannot be read to its end
counts as no reply. -/
namespace MitosServices.Apps
open Interaction Interaction.Program

def appsCgroupRoot : String := "/sys/fs/cgroup/mitos-init/apps"

structure Sandbox where
  capLastCap : Nat
deriving DecidableEq, Repr

structure Command where
  program : String
  args : List String
  env : List (String × String)
  sandbox : Sandbox
deriving DecidableEq, Repr

inductive Op
  | read (path : String)
  | connect
  | writeAll (text : String)
  | readToString
  | log (level : Level) (text : String)
  | nextSeq
  | unixTime
  | prepareIntermediate (path : String)
  | prepareSandbox
  | term
  | spawn (command : Command)
  | createUnder (root name : String) (memoryLimit : Option Nat)
  | attachUnder (root name : String) (pid : Int)
  | register (info : AppInfo)

@[reducible] def Op.Ans : Op → Type
  | read _ => Except String ByteArray
  | connect | writeAll _ => Bool
  | readToString => Option (List Char)
  | nextSeq | unixTime => Nat
  | prepareSandbox => Sandbox
  | term => Option String
  | spawn _ => Except String Int
  | _ => Unit

abbrev Code := Program Unit Op Op.Ans

def call (op : Op) : Code op.Ans := perform op

def log (level : Level) (text : String) : Code Unit := call (.log level text)

section Authorize

def judge (path : String) (response : List Char) : Code (Except String Unit) :=
  if response = "ALLOW".toList then pure (.ok ())
  else if response = "DENY".toList ∨ "ASK".toList <+: response then do
    log .info s!"app launch for '{path}' blocked by mitos-service: {String.ofList response}"
    pure (.error s!"not permitted by mitos-service ({String.ofList response})")
  else do
    log .warn s!"mitos-service gave an unrecognized CHECK response '{String.ofList response}', denying"
    pure (.error s!"unrecognized response from mitos-service: {String.ofList response}")

def authorize (path sha256 : String) : Code (Except String Unit) := do
  let connected ← call .connect
  if !connected then pure (.ok ())
  else do
    let written ← call (.writeAll s!"CHECK {sha256} app_launch\n")
    if !written then pure (.ok ())
    else do
      let response ← call .readToString
      match response with
      | none => pure (.ok ())
      | some text => judge path (Text.trim text)

end Authorize

section Launch

def hexByte (b : UInt8) : String :=
  String.ofList [Nat.digitChar (b.toNat / 16),Nat.digitChar (b.toNat % 16)]

def hex (bytes : ByteArray) : String := String.join (bytes.toList.map hexByte)

def lowerHex (n : Nat) : String := String.ofList (Nat.toDigits 16 n)

variable (digest : ByteArray → ByteArray)

def hashFile (path : String) : Code (Except String String) := do
  let bytes ← call (.read path)
  match bytes with
  | .ok bytes => pure (.ok (hex (digest bytes)))
  | .error e => pure (.error s!"couldn't read '{path}': {e}")

def appId (now seq : Nat) : String := s!"app-{lowerHex now}-{lowerHex seq}"

def nextId : Code String := do
  let seq ← call .nextSeq
  let now ← call .unixTime
  pure (appId now seq)

def appCommand (path : String) (args : List String) (id : String) (term : Option String)
    (sandbox : Sandbox) : Command where
  program := path
  args := args
  env := [("MITOS_APP_ID",id),("PATH","/usr/local/sbin:/usr/local/bin:/usr/sbin:/usr/bin:/sbin:/bin")] ++
    term.toList.map fun term => ("TERM",term)
  sandbox := sandbox

def spawnApp (id path : String) (args : List String) (sha256 : String) (cmd : Command) :
    Code (Except String String) := do
  let child ← call (.spawn cmd)
  match child with
  | .ok pid => do
    call (.createUnder appsCgroupRoot id none)
    call (.attachUnder appsCgroupRoot id pid)
    log .info s!"launched app '{id}' ({path}) as pid {pid}, sha256:{sha256}"
    call (.register ⟨id,path,args,pid,sha256⟩)
    pure (.ok id)
  | .error e => pure (.error s!"couldn't launch '{path}': {e}")

def start (path : String) (args : List String) (sha256 : String) : Code (Except String String) := do
  let id ← nextId
  call (.prepareIntermediate appsCgroupRoot)
  let sandbox ← call .prepareSandbox
  let term ← call .term
  spawnApp id path args sha256 (appCommand path args id term sandbox)

/-- `launch` once the file is hashed. -/
def startAuthorized (path : String) (args : List String) (sha256 : String) :
    Code (Except String String) := do
  let authorized ← authorize path sha256
  match authorized with
  | .error e => pure (.error e)
  | .ok _ => start path args sha256

def launch (path : String) (args : List String) : Code (Except String String) := do
  let hashed ← hashFile digest path
  match hashed with
  | .error e => pure (.error e)
  | .ok sha256 => startAuthorized path args sha256

end Launch

section Daemon

inductive ReplyEnd
  | endOfStream
  | failed
  | timedOut
deriving DecidableEq, Repr

/-- What the policy daemon sends once it has the request, and how the stream ends. -/
structure Reply where
  chunks : List ByteArray
  ending : ReplyEnd

def Reply.delivered (reply : Reply) : ByteArray :=
  reply.chunks.foldl (fun bytes chunk => bytes ++ chunk) ByteArray.empty

/-- `read_to_string`: all of the stream, if it ends in good order and is text. -/
def Reply.readToString (reply : Reply) : Option (List Char) :=
  match reply.ending with
  | .endOfStream => Text.decode reply.delivered
  | _ => none

def daemon (reply : Reply) : Surroundings Unit Op Op.Ans Unit where
  moves _ _ _ _ := False
  replies op _ _ r _ := match op, r with
    | .connect, connected => connected = true
    | .writeAll _, written => written = true
    | .readToString, response => response = reply.readToString
    | _, _ => True

def Returns {α : Type} (reply : Reply) (p : Code α) (r : α) : Prop :=
  Reaches (daemon reply) ⟨p,(),()⟩ ⟨.ret r,(),()⟩

def Spawns {α : Type} (reply : Reply) (p : Code α) : Prop :=
  ∃ t, Reaches (daemon reply) ⟨p,(),()⟩ t ∧ ∃ command, t.program.next? = some (.spawn command)

def Says (bytes : ByteArray) (word : String) : Prop :=
  ∃ before after, Text.Blank before ∧ Text.Blank after ∧
    bytes = (before ++ word.toList ++ after).utf8Encode

def StartsWith (bytes : ByteArray) (word : String) : Prop :=
  ∃ before rest, Text.Blank before ∧ bytes = (before ++ word.toList).utf8Encode ++ rest

def Denied (bytes : ByteArray) : Prop := Says bytes "DENY" ∨ StartsWith bytes "ASK"

def Allowed (bytes : ByteArray) : Prop := Says bytes "ALLOW"

variable {reply : Reply} {bytes : ByteArray} {s : List Char}

section Words

theorem allow_word : Text.Word "ALLOW".toList :=
  Text.word_of_ends (c := 'A') (d := 'W') (by decide) (by decide) (by decide)

theorem deny_word : Text.Word "DENY".toList :=
  Text.word_of_ends (c := 'D') (d := 'Y') (by decide) (by decide) (by decide)

theorem ask_word : Text.Word "ASK".toList :=
  Text.word_of_ends (c := 'A') (d := 'K') (by decide) (by decide) (by decide)

theorem says_iff {word : String} (solid : Text.Word word.toList) :
    Says s.utf8Encode word ↔ Text.trim s = word.toList := by
  rw [Text.trim_eq_iff solid]
  constructor
  · rintro ⟨before,after,blank,blankEnd,same⟩
    exact ⟨before,after,blank,blankEnd,Text.utf8Encode_inj same⟩
  · rintro ⟨before,after,blank,blankEnd,rfl⟩
    exact ⟨before,after,blank,blankEnd,rfl⟩

theorem startsWith_iff {word : String} (solid : Text.Word word.toList) :
    StartsWith s.utf8Encode word ↔ word.toList <+: Text.trim s := by
  rw [Text.prefix_trim_iff solid]
  constructor
  · rintro ⟨before,rest,blank,same⟩
    obtain ⟨more,whole⟩ := List.isPrefix_of_utf8Encode_append_eq_utf8Encode rest same.symm
    exact ⟨before,more,blank,whole.symm⟩
  · rintro ⟨before,rest,blank,rfl⟩
    exact ⟨before,rest.utf8Encode,blank,List.utf8Encode_append⟩

theorem allowed_iff : Allowed s.utf8Encode ↔ Text.trim s = "ALLOW".toList := says_iff allow_word

theorem denied_iff :
    Denied s.utf8Encode ↔ Text.trim s = "DENY".toList ∨ "ASK".toList <+: Text.trim s :=
  or_congr (says_iff deny_word) (startsWith_iff ask_word)

theorem not_denied_of_allowed (allowed : Allowed bytes) : ¬ Denied bytes := by
  obtain ⟨before,after,blank,blankEnd,rfl⟩ := allowed
  rw [denied_iff,Text.trim_padded blank allow_word blankEnd]
  decide

theorem not_denied_empty : ¬ Denied ByteArray.empty := by
  rw [← List.utf8Encode_nil,denied_iff]
  decide

end Words

section Verdict

def verdict : Option (List Char) → Except String Unit
  | none => .ok ()
  | some text =>
    let response := Text.trim text
    if response = "ALLOW".toList then .ok ()
    else if response = "DENY".toList ∨ "ASK".toList <+: response then
      .error s!"not permitted by mitos-service ({String.ofList response})"
    else .error s!"unrecognized response from mitos-service: {String.ofList response}"

theorem verdict_ok_iff : verdict (some s) = .ok () ↔ Text.trim s = "ALLOW".toList := by
  dsimp only [verdict]
  split
  · simp_all
  · split <;> simp_all

theorem readToString_none_or (reply : Reply) : reply.readToString = none ∨
    ∃ s, reply.readToString = some s ∧ reply.delivered = s.utf8Encode := by
  cases found : reply.readToString with
  | none => exact .inl rfl
  | some s =>
    unfold Reply.readToString at found
    split at found
    · exact .inr ⟨s,rfl,Text.decode_eq_some_iff.mp found⟩
    · contradiction

theorem readToString_eq_none_iff : reply.readToString = none ↔
    ¬ (reply.ending = .endOfStream ∧ reply.delivered.IsValidUTF8) := by
  rw [← Text.isSome_decode_iff,Reply.readToString]
  split
  · rename_i ended
    simp [ended]
  · rename_i other
    simp only [true_iff,not_and]
    exact fun ended => absurd ended other

/-- A reply that is read as text is judged as it should be. -/
theorem verdict_right (read : reply.readToString = some s) :
    verdict reply.readToString = .ok () ↔ Allowed reply.delivered := by
  rcases readToString_none_or reply with none | ⟨s',read',delivered⟩
  · rw [read] at none
    contradiction
  · rw [read',delivered,verdict_ok_iff,allowed_iff]

end Verdict

section Runs
variable {path sha256 : String}

theorem wp_judge {A : Option Op → Unit → Unit → Prop} {Q : Except String Unit → Unit → Unit → Prop}
    (quiet : ∀ level text, A (some (.log level text)) () ())
    (final : Q (verdict (some s)) () ()) :
    (judge path (Text.trim s)).wp (daemon reply) A Q () () := by
  unfold judge
  dsimp only [verdict] at final
  split
  · rename_i allow
    rw [if_pos allow] at final
    exact final
  · rename_i other
    rw [if_neg other] at final
    split
    · rename_i deny
      rw [if_pos deny] at final
      exact fun _ _ => ⟨quiet _ _,fun _ _ _ => final⟩
    · rename_i unknown
      rw [if_neg unknown] at final
      exact fun _ _ => ⟨quiet _ _,fun _ _ _ => final⟩

/-- The daemon decides what `authorize` returns; nothing is spawned on the way. -/
theorem wp_authorize {A : Option Op → Unit → Unit → Prop}
    {Q : Except String Unit → Unit → Unit → Prop}
    (quiet : ∀ op : Op, (∀ command, op ≠ .spawn command) → A (some op) () ())
    (final : Q (verdict reply.readToString) () ()) :
    (authorize path sha256).wp (daemon reply) A Q () () := by
  refine fun _ _ => ⟨quiet _ (by simp),?_⟩
  rintro _ _ ⟨⟩
  refine fun _ _ => ⟨quiet _ (by simp),?_⟩
  rintro _ _ ⟨⟩
  refine fun _ _ => ⟨quiet _ (by simp),?_⟩
  rintro _ _ ⟨⟩
  rcases readToString_none_or reply with none | ⟨s,read,-⟩
  · rw [none] at final ⊢
    exact final
  · rw [read] at final ⊢
    exact wp_judge (fun _ _ => quiet _ (by simp)) final

theorem judge_returns : Returns reply (judge path (Text.trim s)) (verdict (some s)) := by
  unfold judge
  dsimp only [verdict]
  split
  · exact .refl
  · split
    · exact reaches_call (m := ()) (e := ()) (r := ()) _ () trivial
    · exact reaches_call (m := ()) (e := ()) (r := ()) _ () trivial

theorem authorize_returns (reply : Reply) (path sha256 : String) :
    Returns reply (authorize path sha256) (verdict reply.readToString) := by
  refine (reaches_call (r := true) _ () rfl).trans ?_
  refine (reaches_call (r := true) _ () rfl).trans ?_
  refine (reaches_call (r := reply.readToString) _ () rfl).trans ?_
  rcases readToString_none_or reply with none | ⟨s,read,-⟩
  · rw [none]
    exact .refl
  · rw [read]
    exact judge_returns

theorem authorize_returns_iff {r : Except String Unit} :
    Returns reply (authorize path sha256) r ↔ r = verdict reply.readToString := by
  constructor
  · intro returned
    exact wp_returns returned (A := fun _ _ _ => True) (Q := fun r _ _ => r = verdict reply.readToString)
      (wp_authorize (fun _ _ => trivial) rfl)
  · rintro rfl
    exact authorize_returns reply path sha256

variable {digest : ByteArray → ByteArray} {args : List String}

theorem nextId_returns (seq now : Nat) :
    Returns reply nextId (appId now seq) := by
  have first := reaches_call (S := daemon reply) (m := ()) (e := ()) .nextSeq ()
    (r := seq) (f := fun seq => do
      let now ← call .unixTime
      pure (appId now seq)) trivial
  have second := reaches_call (S := daemon reply) (m := ()) (e := ()) .unixTime ()
    (r := now) (f := fun now => (pure (appId now seq) : Code String)) trivial
  exact first.trans second

theorem start_spawns (reply : Reply) (path sha256 : String) (args : List String) :
    Spawns reply (start path args sha256) := by
  refine ⟨⟨spawnApp (appId 0 0) path args sha256 (appCommand path args (appId 0 0) none ⟨40⟩),(),()⟩,
    ?_,_,rfl⟩
  refine (reaches_bind _ (nextId_returns 0 0)).trans ?_
  refine (reaches_call (r := ()) _ () (by exact trivial)).trans ?_
  refine (reaches_call (r := Sandbox.mk 40) _ () (by exact trivial)).trans ?_
  exact reaches_call (S := daemon reply) (r := none) Op.term () trivial

theorem wp_startAuthorized (refused : verdict reply.readToString ≠ .ok ()) :
    (startAuthorized path args sha256).wp (daemon reply)
      (fun op _ _ => ∀ command, op ≠ some (.spawn command)) (fun _ _ _ => True) () () := by
  refine (wp_bind _ _ _ _ _).mpr (wp_authorize ?_ ?_)
  · intro op other command
    simpa using other command
  · cases found : verdict reply.readToString with
    | ok _ => exact absurd found refused
    | error err => exact trivial

theorem startAuthorized_spawns (path sha256 : String) (args : List String)
    (allowed : verdict reply.readToString = .ok ()) :
    Spawns reply (startAuthorized path args sha256) := by
  obtain ⟨t,run,spawning⟩ := start_spawns reply path sha256 args
  have authorized := reaches_bind (fun authorized : Except String Unit => match authorized with
    | .error e => (pure (.error e) : Code (Except String String))
    | .ok _ => start path args sha256)
    (authorize_returns reply path sha256)
  rw [allowed] at authorized
  exact ⟨t,authorized.trans run,spawning⟩

/-- A launch goes ahead exactly if the reply, as far as it could be read, lets it. -/
theorem launch_spawns_iff :
    Spawns reply (launch digest path args) ↔ verdict reply.readToString = .ok () := by
  constructor
  · rintro ⟨t,run,command,spawning⟩
    by_contra refused
    have unspawned : (launch digest path args).wp (daemon reply)
        (fun op _ _ => ∀ command, op ≠ some (.spawn command)) (fun _ _ _ => True) () () := by
      refine fun _ _ => ⟨by simp,?_⟩
      intro bytes _ _
      cases bytes with
      | error e => trivial
      | ok bytes => exact wp_startAuthorized refused
    exact wp_everywhere run unspawned (by simp) command spawning
  · intro allowed
    obtain ⟨t,run,spawning⟩ := startAuthorized_spawns path (hex (digest ByteArray.empty)) args allowed
    have hashed := reaches_call (S := daemon reply) (m := ()) (e := ())
      (.read path) () (r := .ok ByteArray.empty) (f := fun bytes => (match bytes with
        | .ok bytes => pure (.ok (hex (digest bytes)))
        | .error e => pure (.error s!"couldn't read '{path}': {e}") : Code (Except String String)))
      trivial
    exact ⟨t,(reaches_bind _ hashed).trans run,spawning⟩

end Runs

/-- `authorize` and `launch` do as the reply says: a denial or a question fails closed, and only
`ALLOW` lets a launch go ahead once anything was delivered. -/
structure Obeys (digest : ByteArray → ByteArray) (reply : Reply) : Prop where
  refuses : Denied reply.delivered → ∀ path sha256, ∃ err, ∀ r,
    Returns reply (authorize path sha256) r ↔ r = .error err
  blocks : Denied reply.delivered → ∀ path args, ¬ Spawns reply (launch digest path args)
  admits : ∀ path args, Spawns reply (launch digest path args) →
    reply.delivered ≠ ByteArray.empty → Allowed reply.delivered

/-- A reply has to end in good order and be text, unless nothing was delivered at all or what was
delivered is `ALLOW`. -/
theorem obeys_iff (digest : ByteArray → ByteArray) (reply : Reply) : Obeys digest reply ↔
    (reply.ending = .endOfStream ∧ reply.delivered.IsValidUTF8) ∨
      reply.delivered = ByteArray.empty ∨ Allowed reply.delivered := by
  constructor
  · intro obeys
    by_contra other
    obtain ⟨unread,delivered,disallowed⟩ := by simpa only [not_or] using other
    have none := readToString_eq_none_iff.mpr unread
    have spawns : Spawns reply (launch digest "" []) := by
      rw [launch_spawns_iff,none]
      rfl
    exact disallowed (obeys.admits "" [] spawns delivered)
  · intro good
    have denied_refused : Denied reply.delivered → ∃ err, verdict reply.readToString = .error err := by
      intro denied
      rcases readToString_none_or reply with none | ⟨s,read,-⟩
      · exfalso
        have unread := readToString_eq_none_iff.mp none
        rcases good with ended | empty | allowed
        · exact unread ended
        · exact not_denied_empty (empty ▸ denied)
        · exact not_denied_of_allowed allowed denied
      · cases found : verdict reply.readToString with
        | ok _ => exact absurd denied (not_denied_of_allowed ((verdict_right read).mp found))
        | error err => exact ⟨err,rfl⟩
    refine ⟨?_,?_,?_⟩
    · intro denied path sha256
      obtain ⟨err,refused⟩ := denied_refused denied
      refine ⟨err,fun r => ?_⟩
      rw [authorize_returns_iff,refused]
    · intro denied path args
      obtain ⟨err,refused⟩ := denied_refused denied
      simp [launch_spawns_iff,refused]
    · intro path args spawns delivered
      rw [launch_spawns_iff] at spawns
      rcases readToString_none_or reply with none | ⟨s,read,-⟩
      · have unread := readToString_eq_none_iff.mp none
        rcases good with ended | empty | allowed
        · exact absurd ended unread
        · exact absurd empty delivered
        · exact allowed
      · exact (verdict_right read).mp spawns

/-- The daemon says `DENY` and then stalls: the app is launched. -/
theorem launches_after_denial :
    ¬ ∀ (digest : ByteArray → ByteArray) (reply : Reply), Obeys digest reply := by
  intro claim
  let reply : Reply := ⟨["DENY".toList.utf8Encode],.timedOut⟩
  have denied : Denied reply.delivered :=
    .inl ⟨[],[],by simp [Text.Blank],by simp [Text.Blank],by simp [reply,Reply.delivered]⟩
  have obeys := claim id reply
  apply obeys.blocks denied "/usr/bin/app" []
  rw [launch_spawns_iff]
  rfl

end Daemon

end MitosServices.Apps
