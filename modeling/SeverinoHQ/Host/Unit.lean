/-
# The unit helper

Root answers one request of a caller it does not trust: stop, start or restart
the systemd unit that runs a container. Three texts are read on the way, the
request, docker's list of the containers that name the unit and what systemd
shows of the unit, and any of them may hold anything.
-/

import SeverinoHQ.Host.Argv

namespace SeverinoHQ.Host

open SeverinoHQ.Math
open SeverinoHQ.Math.Bytes (ascii cut cutPrefix isAlphanumeric isNameByte splitSeq)

/-! ## The request -/

/-- `Label`. -/
def unitLabel : Bytes := ascii "severino-hq.unit"

/-- `Verbs`. -/
def verbs : List Bytes := ["stop", "start", "restart"].map ascii

/-- `RequestLimit`. -/
def requestLimit : Nat := 256

/-- `Name`: a plain service unit's name, matched whole. -/
def isUnitName (name : Bytes) : Bool :=
  (ascii ".service").isSuffixOf name &&
    match name.take (name.length - 8) with
    | [] => false
    | first :: middle => isAlphanumeric first && middle.length ≤ 240 && middle.all isNameByte

/-- What a connection carries, and whether reading on from there fails rather
than ends. -/
structure Stream where
  bytes : Bytes
  fails : Bool
  deriving DecidableEq, Repr

/-- `ReadRequest`: one line without its newline, within the limit. -/
def readRequest (stream : Stream) : Except Bytes Bytes :=
  let limited := stream.bytes.take requestLimit
  if limited.contains 10 then .ok (limited.takeWhile (· != 10))
  else if stream.fails ∧ stream.bytes.length < requestLimit then
    .error (ascii "the request could not be read")
  else if requestLimit ≤ limited.length then
    .error (ascii "the request is longer than one can be")
  else .ok limited

/-- `Parse`: a verb and a unit, and nothing else. -/
def parseRequest (request : Bytes) : Except Bytes (Bytes × Bytes) :=
  match cut 32 request with
  | (verb, name, found) =>
      if !found ∨ name.contains 32 then
        .error (ascii "a request is a verb and a unit, one space between")
      else if !verbs.contains verb then .error (ascii "the verb is not stop, start or restart")
      else if !isUnitName name then .error (ascii "the unit is not a plain .service name")
      else .ok (verb, name)

/-! ## What docker lists -/

/-- The command that lists every container, running or stopped, whose label names
the unit. -/
def listCommand (name : Bytes) : Command where
  program := ascii "docker"
  args := ["container", "ls", "--all", "--no-trunc", "--filter"].map ascii ++
    [ascii "label=" ++ unitLabel ++ ascii "=" ++ name] ++
    ["--format", "\x7b\x7bjson .Names\x7d\x7d"].map ascii

/-- The lines of docker's list. -/
def listedLines (output : Bytes) : List Bytes :=
  (splitSeq [10] (Bytes.trimSpace output)).filter (· != [])

/-- A listed container's own name, of those it is listed under: the first without
a slash. -/
def ownName (names : Bytes) : Option Bytes :=
  (splitSeq (ascii ",") names).find? fun each => !each.contains 47

/-- The containers of a list: each line's own name, or nothing where a line does
not read. -/
def readListing (decoder : Decoder) : List Bytes → Option (List Bytes)
  | [] => some []
  | line :: lines =>
      match decoder.text line with
      | none => none
      | some names => (readListing decoder lines).map ((ownName names).toList ++ ·)

/-- `labeled`. -/
def labeled (decoder : Decoder) (name : Bytes) : Session (Except Bytes (List Bytes)) := do
  let listed ← Dialogue.call (listCommand name)
  if listed.exit ≠ .ok then return .error (ascii "docker could not list the containers")
  else
    match readListing decoder (listedLines listed.text) with
    | none => return .error (ascii "docker's container list did not read")
    | some containers => return .ok containers

/-! ## What systemd shows -/

/-- The command that shows a unit's id, load state and start commands. -/
def showCommand (name : Bytes) : Command where
  program := ascii "systemctl"
  args := ["show", "--property=Id", "--property=LoadState", "--property=ExecStartPre",
    "--property=ExecStart", "--"].map ascii ++ [name]

/-- `execArgv`: the arguments systemctl show prints for one command. -/
def execArgv (value : Bytes) : Option (List Bytes) :=
  ((splitSeq (ascii " ; ") (Bytes.trim (ascii "\x7b\x7d ") value)).findSome? fun field =>
    cutPrefix (Bytes.trimSpace field) (ascii "argv[]=")).map Bytes.fields

/-- A unit as its properties are read, line by line. -/
structure Shown where
  id : Bytes
  load : Bytes
  commands : List (List Bytes)
  deriving DecidableEq, Repr

/-- One line of what systemctl shows. -/
def Shown.line (shown : Shown) (line : Bytes) : Shown :=
  let property := (cut 61 line).1
  let value := (cut 61 line).2.1
  if property = ascii "Id" then { shown with id := value }
  else if property = ascii "LoadState" then { shown with load := value }
  else if property = ascii "ExecStartPre" ∨ property = ascii "ExecStart" then
    { shown with commands := shown.commands ++ (execArgv value).toList }
  else shown

/-- The unit a text shows. -/
def readShown (output : Bytes) : Shown := (splitSeq [10] output).foldl Shown.line ⟨[], [], []⟩

/-- `startCommands`. -/
def startCommands (name : Bytes) : Session (Except Bytes (List (List Bytes))) := do
  let shown ← Dialogue.call (showCommand name)
  if shown.exit ≠ .ok then return .error (ascii "systemd could not show " ++ name)
  else if (readShown shown.text).id ≠ name ∨ (readShown shown.text).load ≠ ascii "loaded" then
    return .error (name ++ ascii " is not a loaded unit of that name")
  else return .ok (readShown shown.text).commands

/-! ## The checks, and the act -/

/-- One starter for each start command, in order. -/
def starters (decoder : Decoder) : List (List Bytes) → Session (List (Bytes → Bool))
  | [] => return []
  | argv :: commands => do
      let first ← starter decoder argv
      let rest ← starters decoder commands
      return first :: rest

/-- `Verify`. -/
def verify (decoder : Decoder) (name : Bytes) : Session (Except Bytes Unit) := do
  match ← labeled decoder name with
  | .error reason => return .error reason
  | .ok [] =>
      return .error (ascii "no container on this machine names " ++ name ++ ascii " in " ++ unitLabel)
  | .ok containers =>
      match ← startCommands name with
      | .error reason => return .error reason
      | .ok commands =>
          let starting ← starters decoder commands
          match containers.find? fun container => !starting.any fun starts => starts container with
          | some container => return .error (name ++ ascii " does not start " ++ container)
          | none => return .ok ()

/-- The command that acts. -/
def actCommand (verb name : Bytes) : Command := ⟨ascii "systemctl", [verb, ascii "--", name]⟩

/-- What a request is answered with. -/
inductive Answer where
  | done (verb unit : Bytes)
  | failed (verb unit reason : Bytes)
  | refused (reason : Bytes)
  deriving DecidableEq, Repr

/-- What the helper runs as and reads with. -/
structure Runner where
  euid : Nat
  decoder : Decoder
  /-- `runtime.LastLine`. -/
  lastLine : Bytes → Bytes

/-- `failure`: the last line systemctl printed, else how it exited. -/
def Runner.failure (runner : Runner) (output : Output) : Bytes :=
  if runner.lastLine output.text ≠ [] then runner.lastLine output.text
  else
    match output.exit with
    | .code status => ascii ("systemctl exited " ++ toString status)
    | _ => ascii "systemctl did not run"

/-- `Run`. -/
def Runner.run (runner : Runner) (request : Bytes) : Session Answer :=
  match parseRequest request with
  | .error reason => return .refused reason
  | .ok (verb, name) =>
      if runner.euid ≠ 0 then return .refused (ascii "must run as root")
      else do
        match ← verify runner.decoder name with
        | .error reason => return .refused reason
        | .ok () =>
            let acted ← Dialogue.call (actCommand verb name)
            if acted.exit ≠ .ok then return .failed verb name (runner.failure acted)
            else return .done verb name

/-- `Serve`. -/
def Runner.serve (runner : Runner) (stream : Stream) : Session Answer :=
  match readRequest stream with
  | .error reason => return .refused reason
  | .ok line => runner.run line

/-- `hostcore.WebUID`. -/
def webUid : Nat := 10001

/-- What the request arrives on. -/
inductive Carrier where
  /-- Not a socket: a pipe or a terminal, which has admitted its caller already. -/
  | other
  | unreadable
  /-- A socket, and its peer's uid where one is known. -/
  | socket (peer : Option Nat)
  deriving DecidableEq, Repr

/-- `admit`: what a caller that may not ask is told. -/
def admitCaller : Carrier → Option Bytes
  | .other => none
  | .unreadable => some (ascii "the request's connection could not be read")
  | .socket none => some (ascii "the request did not come over a local socket")
  | .socket (some uid) =>
      if uid ≠ 0 ∧ uid ≠ webUid then
        some (ascii "the request came from an account that may not ask")
      else none

/-- `Main`: the answer and the exit status. -/
def Runner.main (runner : Runner) (args : List Bytes) (carrier : Carrier) (stream : Stream) :
    Session (Answer × Nat) :=
  if args ≠ [ascii "--serve"] then return (.refused (ascii "usage: hq-host unit --serve"), 2)
  else
    match admitCaller carrier with
    | some reason => return (.refused reason, 0)
    | none => do
        let answer ← runner.serve stream
        return (answer, 0)

/-! ## What is shown of a unit -/

/-- The value of the last line of a text that gives a property. -/
def lastProperty (property text : Bytes) : Bytes :=
  (((splitSeq [10] text).filter fun line => (cut 61 line).1 = property).getLast?.map fun line =>
    (cut 61 line).2.1).getD []

/-- The argument lists of the start commands a text shows. -/
def startArgvs (text : Bytes) : List (List Bytes) :=
  (splitSeq [10] text).flatMap fun line =>
    if (cut 61 line).1 = ascii "ExecStartPre" ∨ (cut 61 line).1 = ascii "ExecStart" then
      (execArgv (cut 61 line).2.1).toList
    else []

end SeverinoHQ.Host
