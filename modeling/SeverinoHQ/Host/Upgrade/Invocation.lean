/-
# An invocation of the upgrade helper

The arguments are read, each flag once with a value; the stack they name is checked
on the machine; the result of an operation that already ran is printed; and an
operation runs where its directory could be made, which is once.
-/

import Mathlib.Algebra.Group.Int.Defs
import Mathlib.Algebra.Group.Nat.Defs
import SeverinoHQ.Host.Upgrade.Execution

namespace SeverinoHQ.Host.Upgrade

open SeverinoHQ.Math
open SeverinoHQ.Math.Bytes (ascii cut cutPrefix isAlphanumeric isNameByte splitSeq)

/-! ## Texts and paths -/

/-- `strings.Contains`. -/
def contains (text part : Bytes) : Bool := 1 < (splitSeq part text).length

/-- `strings.CutLast` at one byte, where there is one. -/
def cutLast (separator : UInt8) (text : Bytes) : Option (Bytes × Bytes) :=
  match cut separator text.reverse with
  | (last, before, true) => some (before.reverse, last.reverse)
  | (_, _, false) => none

/-- The number decimal digits say. -/
def digitsValue (digits : Bytes) : Nat :=
  digits.foldl (fun value digit => value * 10 + (digit.toNat - 48)) 0

def isDigit (byte : UInt8) : Bool := 48 ≤ byte ∧ byte ≤ 57

/-- `strconv.Atoi`, on a machine of 64 bits. -/
def atoi : Bytes → Option Int
  | 45 :: digits =>
      if digits ≠ [] ∧ digits.all isDigit ∧ digitsValue digits ≤ 2 ^ 63 then
        some (-(digitsValue digits : Int))
      else none
  | 43 :: digits | digits =>
      if digits ≠ [] ∧ digits.all isDigit ∧ digitsValue digits < 2 ^ 63 then
        some (digitsValue digits)
      else none

/-- `strconv.Itoa` of an exit code, and the newline the exit file ends in. -/
def exitText (code : Nat) : Bytes := ascii (toString code ++ "\n")

/-- `filepath.Clean` of a rooted path, as the elements it leaves, the last first. -/
def cleanElements (path : Bytes) : List Bytes :=
  (splitSeq (ascii "/") path).foldl (fun kept element =>
    if element = [] ∨ element = ascii "." then kept
    else if element = ascii ".." then kept.tail
    else element :: kept) []

/-- A rooted path of its elements, the last first. -/
def rooted (elements : List Bytes) : Bytes :=
  match elements with
  | [] => ascii "/"
  | _ => elements.reverse.flatMap fun element => 47 :: element

/-- `filepath.Join` below a rooted path. -/
def join (path name : Bytes) : Bytes := rooted (cleanElements (path ++ 47 :: name))

/-- `filepath.Base` of a path that does not end in a slash. -/
def baseName (path : Bytes) : Bytes := ((cutLast 47 path).map Prod.snd).getD path

/-- `filepath.Dir` of a rooted path. -/
def parent (path : Bytes) : Bytes :=
  rooted (cleanElements (((cutLast 47 path).map Prod.fst).getD []))

/-! ## Patterns -/

def isOperation (text : Bytes) : Bool :=
  1 ≤ text.length ∧ text.length ≤ 64 ∧ text.all fun byte => isAlphanumeric byte || byte = 45

/-- A first letter or digit, and at most so many of a class after it. -/
def isReference (most : Nat) (after : UInt8 → Bool) : Bytes → Bool
  | first :: rest => isAlphanumeric first && rest.length ≤ most && rest.all after
  | [] => false

def isService (text : Bytes) : Bool := isReference 62 isNameByte text

/-- `[A-Za-z0-9_./:-]`. -/
def isPathByte (byte : UInt8) : Bool := isNameByte byte || byte = 47 || byte = 58

def isFrom (text : Bytes) : Bool := isReference 254 (fun byte => isPathByte byte || byte = 64) text

def isHex (byte : UInt8) : Bool := isDigit byte || (97 ≤ byte && byte ≤ 102)

/-- A repository and a SHA-256 digest. -/
def isTo (text : Bytes) : Bool :=
  let (before, digest, found) := cut 64 text
  found && isReference 200 isPathByte before &&
    match cutPrefix digest (ascii "sha256:") with
    | some hex => hex.length = 64 && hex.all isHex
    | none => false

def isTag (text : Bytes) : Bool := 1 ≤ text.length ∧ text.length ≤ 128 ∧ text.all isNameByte

/-- `\d{1,most}`. -/
def isCount (most : Nat) (text : Bytes) : Bool :=
  1 ≤ text.length ∧ text.length ≤ most ∧ text.all isDigit

def isStackName (text : Bytes) : Bool := isReference 127 isNameByte text

/-- `absolute`. -/
def isAbsolute : Bytes → Bool
  | 47 :: rest => rest ≠ [] ∧ rest.all fun byte => isNameByte byte || byte = 47
  | _ => false

/-- `strings.ToLower` of ASCII text. -/
def toLower (byte : UInt8) : UInt8 := if 65 ≤ byte ∧ byte ≤ 90 then byte + 32 else byte

/-- `[a-z0-9]`. -/
def isLowerAlphanumeric (byte : UInt8) : Bool := isDigit byte || (97 ≤ byte && byte ≤ 122)

/-- The compose project name that follows from a stack's. -/
def projectName (name : Bytes) : Bytes :=
  (name.map toLower).filter fun byte => isLowerAlphanumeric byte || byte = 95 || byte = 45

/-- `project`. -/
def isProject : Bytes → Bool
  | first :: rest => isLowerAlphanumeric first &&
      rest.all fun byte => isLowerAlphanumeric byte || byte = 95 || byte = 45
  | [] => false

/-! ## Arguments -/

/-- What the flags were given. -/
structure Flags where
  operation : Bytes
  projectDir : Bytes
  service : Bytes
  fromImage : Bytes
  toImage : Bytes
  tag : Bytes
  wait : Bytes
  data : Bool
  deriving DecidableEq, Repr

/-- The flags before any is given. -/
def Flags.defaults : Flags := ⟨[], [], [], [], [], [], ascii "120", false⟩

/-- A flag given a value, where there is one of that name. -/
def Flags.set (flags : Flags) (name value : Bytes) : Option Flags :=
  if name = ascii "operation" then some { flags with operation := value }
  else if name = ascii "project-dir" then some { flags with projectDir := value }
  else if name = ascii "service" then some { flags with service := value }
  else if name = ascii "from" then some { flags with fromImage := value }
  else if name = ascii "to" then some { flags with toImage := value }
  else if name = ascii "tag" then some { flags with tag := value }
  else if name = ascii "wait" then some { flags with wait := value }
  else if name = ascii "data" then some { flags with data := true }
  else none

/-- One argument, as package flag reads it. -/
inductive FlagToken where
  | operand
  | terminator
  | malformed
  | flag (name : Bytes) (value : Option Bytes)
  deriving DecidableEq, Repr

/-- What follows an argument's dashes. -/
def flagName (name : Bytes) : FlagToken :=
  match name with
  | [] | 45 :: _ | 61 :: _ => .malformed
  | _ =>
      match cut 61 name with
      | (name, value, true) => .flag name (some value)
      | (name, _, false) => .flag name none

def flagToken : Bytes → FlagToken
  | [45, 45] => .terminator
  | 45 :: 45 :: name => flagName name
  | [45] => .operand
  | 45 :: name => flagName name
  | _ => .operand

/-- `flag.FlagSet.Parse`: the flags and what is left, or the error's text. -/
def parseFlags : Flags → List Bytes → Except Bytes (Flags × List Bytes)
  | flags, [] => .ok (flags, [])
  | flags, arg :: args =>
      match flagToken arg with
      | .operand => .ok (flags, arg :: args)
      | .terminator => .ok (flags, args)
      | .malformed => .error (ascii "bad flag syntax: " ++ arg)
      | .flag name value =>
          match flags.set name [] with
          | none =>
              if name = ascii "help" ∨ name = ascii "h" then .error (ascii "flag: help requested")
              else .error (ascii "flag provided but not defined: -" ++ name)
          | some _ =>
              match value, args with
              | some text, args => parseFlags ((flags.set name text).getD flags) args
              | none, text :: args => parseFlags ((flags.set name text).getD flags) args
              | none, [] => .error (ascii "flag needs an argument: -" ++ name)

/-- `repository`: a reference without its digest, and without a tag after its last
slash. -/
def repository (ref : Bytes) : Bytes :=
  let ref := (cut 64 ref).1
  match cutLast 58 ref with
  | some (before, tag) => if contains tag (ascii "/") then ref else before
  | none => ref

/-- Whole seconds, in nanoseconds. -/
def seconds (count : Bytes) : Int := (atoi count).getD 0 * 10 ^ 9

/-- The checks of `Parse`, in order: the first that fails is the reason. -/
def checkFlags (flags : Flags) : Except Bytes Request :=
  if !isOperation flags.operation then .error (ascii "operation is not an id")
  else if !isService flags.service then .error (ascii "service is not a name")
  else if !isFrom flags.fromImage then .error (ascii "from is not an image reference")
  else if !isTo flags.toImage then .error (ascii "to is not pinned by digest")
  else if !isCount 4 flags.wait then .error (ascii "wait is not a number of seconds")
  else if flags.tag ≠ [] ∧ !isTag flags.tag then .error (ascii "tag is not a tag")
  else if repository flags.toImage ≠ repository flags.fromImage then
    .error (ascii "to is not the repository from names")
  else .ok ⟨flags.operation, flags.projectDir, flags.service, flags.fromImage, flags.toImage,
    flags.tag, seconds flags.wait⟩

/-- `Parse`. -/
def parse (args : List Bytes) : Except Bytes Request :=
  match parseFlags .defaults args with
  | .error text =>
      if contains text (ascii "needs an argument") then .error (ascii "an argument has no value")
      else .error (ascii "unknown argument")
  | .ok (flags, operands) =>
      if flags.data then .error (ascii "data is read from the running service, not given")
      else if operands ≠ [] then .error (ascii "unknown argument")
      else checkFlags flags

/-! ## Where an upgrade acts -/

/-- `Upgrader`. -/
structure Upgrader where
  stacksRoot : Bytes
  stateRoot : Bytes
  poll : Int
  settle : Int
  caller : Bytes
  euid : Int
  deriving DecidableEq, Repr

/-- A bound read from the environment, where it is set. -/
def bound (value : Bytes) (most : Nat) (fallback : Int) : Except Bytes Int :=
  if value = [] then .ok fallback
  else if !isCount most value then .error (ascii "poll and settle are not numbers")
  else .ok (seconds value)

/-- `FromEnvironment`: through sudo every path and bound is fixed. -/
def fromEnvironment (getenv : Bytes → Bytes) (euid : Int) : Except Bytes Upgrader :=
  let shared := ascii "/opt/apps"
  let state := ascii "/var/lib/severino-hq/upgrades"
  let poll : Int := 2 * 10 ^ 9
  let settle : Int := 10 * 10 ^ 9
  let caller := getenv (ascii "SUDO_UID")
  if caller ≠ [] then
    .ok ⟨shared, state, poll, settle, if caller ≠ ascii "0" then caller else [], euid⟩
  else do
    let poll ← bound (getenv (ascii "SEVERINO_UPGRADE_POLL")) 3 poll
    let settle ← bound (getenv (ascii "SEVERINO_UPGRADE_SETTLE")) 4 settle
    let moved := getenv (ascii "SEVERINO_UPGRADE_STACKS")
    let kept := getenv (ascii "SEVERINO_UPGRADE_STATE")
    .ok ⟨if moved ≠ [] then moved else shared, if kept ≠ [] then kept else state, poll, settle, [],
      euid⟩

/-! ## What an invocation asks -/

/-- What is at a path, by `Lstat`. -/
inductive FileKind where
  | regular
  | directory
  | symlink
  | other
  deriving DecidableEq, Repr

/-- What `Lstat` says of a file: its kind, its owner's uid as text and its permissions. -/
structure Info where
  kind : FileKind
  owner : Bytes
  perm : Nat
  deriving DecidableEq, Repr

/-- Everything an invocation asks of the machine. -/
inductive Ask where
  | lstat (path : Bytes)
  /-- `hasACL`. -/
  | hasACL (path : Bytes)
  /-- `os.ReadFile` of the operation's `result.json` and `exit`. -/
  | readResult (state : Bytes)
  | readExit (state : Bytes)
  /-- `os.MkdirAll` of the state root, and `os.Mkdir` of the operation's directory. -/
  | mkdirAll (root : Bytes)
  | mkdir (state : Bytes)
  /-- A call of the run itself. -/
  | run (state : Bytes) (request : Request) (call : Call)
  deriving DecidableEq

@[reducible]
def Ask.Reply : Ask → Type
  | .lstat _ => Option Info
  | .hasACL _ | .mkdirAll _ | .mkdir _ => Bool
  | .readResult _ | .readExit _ => Option Bytes
  | .run _ _ call => Upgrade.Reply call

/-- A program of an invocation. -/
abbrev Visit := Dialogue Ask Ask.Reply

abbrev askFor (call : Ask) : Visit call.Reply := Dialogue.call call

/-- A run's calls, made in its directory. -/
def within {α : Type} (state : Bytes) (request : Request) : Session α → Visit α
  | .done result => .done result
  | .ask call next => .ask (.run state request call) fun reply => within state request (next reply)

/-! ## The stack -/

/-- `present`. -/
def present (path : Bytes) : Visit Bool := do
  let found : Option Info ← askFor (.lstat path)
  return found.isSome

/-- `othersWrite`. -/
def othersWrite (path : Bytes) (info : Info) : Visit Bool :=
  if info.perm &&& 0o022 ≠ 0 then return true else askFor (.hasACL path)

/-- What a guarded path has to be. -/
def wantedKind (directory : Bool) : FileKind := if directory then .directory else .regular

/-- What a refusal names it as. -/
def kindName (directory : Bool) : Bytes := if directory then ascii "directory" else ascii "file"

namespace Upgrader

variable (upgrader : Upgrader)

/-- Whether a file is root's or the stacks root owner's, and not the caller's. -/
def owns (trusted : Bytes) (info : Info) : Bool :=
  (info.owner = ascii "0" ∨ info.owner = trusted) ∧ info.owner ≠ upgrader.caller

/-- `guarded`. -/
def guarded (trusted path what : Bytes) (directory : Bool) : Visit (Except Bytes Unit) := do
  let found : Option Info ← askFor (.lstat path)
  match found with
  | none => return .error (what ++ ascii " is not a " ++ kindName directory)
  | some info =>
      if info.kind = .symlink then return .error (what ++ ascii " is a symlink")
      else if info.kind ≠ wantedKind directory then
        return .error (what ++ ascii " is not a " ++ kindName directory)
      else if !upgrader.owns trusted info then
        return .error (what ++ ascii " is not owned by root or the owner of " ++ upgrader.stacksRoot)
      else if ← othersWrite path info then
        return .error (what ++ ascii " is writable by its group or others")
      else return .ok ()

/-- The stacks root, checked: who owns it. -/
def guardRoot : Visit (Except Bytes Bytes) := do
  let found : Option Info ← askFor (.lstat upgrader.stacksRoot)
  match found with
  | none => return .error (ascii "the stacks root is not a directory")
  | some info =>
      if info.kind ≠ .directory then return .error (ascii "the stacks root is not a directory")
      else if info.owner = upgrader.caller then
        return .error (ascii "the stacks root belongs to the account asking")
      else if ← othersWrite upgrader.stacksRoot info then
        return .error (ascii "the stacks root is writable by its group or others")
      else return .ok info.owner

end Upgrader

/-- What follows a check that passed. -/
def andThen {α β : Type} (check : Visit (Except Bytes α)) (next : α → Visit (Except Bytes β)) :
    Visit (Except Bytes β) := do
  match ← check with
  | .error reason => return .error reason
  | .ok result => next result

/-- The first of some files that is there. -/
def firstPresent (dir : Bytes) : List Bytes → Visit (Option Bytes)
  | [] => return none
  | name :: names => do
      if ← present (join dir name) then return some name else firstPresent dir names

/-- The compose files, in the order compose takes them. -/
def composeFiles : List Bytes :=
  ["compose.yaml", "compose.yml", "docker-compose.yaml", "docker-compose.yml"].map ascii

/-- `filepath.Ext`, and the name without it. -/
def extension (name : Bytes) : Bytes × Bytes :=
  match cutLast 46 name with
  | some (before, after) => (before, 46 :: after)
  | none => (name, [])

/-- The override compose loads beside a compose file. -/
def overrideOf (composeFile : Bytes) : Bytes :=
  (extension composeFile).1 ++ ascii ".override" ++ (extension composeFile).2

/-- The overrides of every compose file. -/
def overrideFiles : List Bytes := composeFiles.map overrideOf

/-- A stack, checked: the override compose loads beside its compose file, and
whether it is there. -/
structure Stack where
  pinFile : Bytes
  override : Bool
  deriving DecidableEq, Repr

namespace Upgrader

variable (upgrader : Upgrader)

/-- The end of `guardStack`: the stack's `.env`. -/
def guardEnv (trusted dir : Bytes) (stack : Stack) : Visit (Except Bytes Stack) := do
  if ← present (join dir (ascii ".env")) then
    andThen (upgrader.guarded trusted (join dir (ascii ".env")) (ascii "the stack's .env") false)
      fun _ => return .ok stack
  else return .ok stack

/-- The override compose loads, checked where it is there. -/
def guardOverride (trusted dir pinFile : Bytes) : Visit (Except Bytes Stack) := do
  if ← present (join dir pinFile) then
    andThen (upgrader.guarded trusted (join dir pinFile) (ascii "the compose override") false)
      fun _ => upgrader.guardEnv trusted dir ⟨pinFile, true⟩
  else upgrader.guardEnv trusted dir ⟨pinFile, false⟩

/-- The file set compose uses by default. -/
def guardFiles (trusted dir : Bytes) : Visit (Except Bytes Stack) := do
  match ← firstPresent dir composeFiles with
  | none => return .error (ascii "no compose file in the project directory")
  | some composeFile =>
      andThen (upgrader.guarded trusted (join dir composeFile) (ascii "the compose file") false)
        fun _ => do
          let pinFile := overrideOf composeFile
          match ← firstPresent dir (overrideFiles.filter (· ≠ pinFile)) with
          | some other =>
              return .error (other ++ ascii " is not the override compose loads beside " ++ composeFile)
          | none => upgrader.guardOverride trusted dir pinFile

/-- `guardStack`. -/
def guardStack (dir : Bytes) : Visit (Except Bytes Stack) :=
  andThen upgrader.guardRoot fun trusted => do
    if !(← present dir) then return .error (ascii "project directory does not exist")
    else
      andThen (upgrader.guarded trusted dir (ascii "the project directory") true)
        fun _ => upgrader.guardFiles trusted dir

/-- The checks `prepare` makes of the paths alone. -/
def checkPaths (dir : Bytes) : Except Bytes Unit :=
  let canonical := upgrader.stacksRoot ++ 32 :: dir
  if !isAbsolute upgrader.stacksRoot then .error (ascii "the stacks root is not an absolute path")
  else if contains canonical (ascii "..") ∨ contains canonical (ascii "//") ∨
      (ascii "/").isSuffixOf upgrader.stacksRoot ∨ (ascii "/").isSuffixOf dir then
    .error (ascii "a path climbs out or is not canonical")
  else if !isAbsolute dir then .error (ascii "project directory is not an absolute path")
  else if parent dir ≠ upgrader.stacksRoot then
    .error (ascii "project directory is not directly under " ++ upgrader.stacksRoot)
  else if !isStackName (baseName dir) then .error (ascii "project directory is not a stack name")
  else if !isProject (projectName (baseName dir)) then
    .error (ascii "no compose project name follows from the directory")
  else if upgrader.euid ≠ 0 then .error (ascii "must run as root")
  else .ok ()

/-- Where an operation keeps its result. -/
def stateOf (operation : Bytes) : Bytes := join upgrader.stateRoot operation

/-- `prepare`: the stack the request names, refusing anything outside it. -/
def prepare (request : Request) : Visit (Except Bytes Stack) :=
  match upgrader.checkPaths request.projectDir with
  | .error reason => return .error reason
  | .ok () =>
      andThen (upgrader.guardStack request.projectDir) fun stack =>
        if !isAbsolute upgrader.stateRoot then
          return .error (ascii "the state directory is not an absolute path")
        else return .ok stack

/-- The run `prepare` makes for the stack. -/
def runOf (request : Request) (stack : Stack) : Run where
  request := request
  settle := upgrader.settle
  poll := upgrader.poll
  dir := request.projectDir
  trial := ascii "hq-trial-" ++ request.operation
  override := stack.override
  trialFile := false
  data := []
  steps := []
  phase := .checking

end Upgrader

/-! ## An invocation -/

/-- What an invocation prints, and its exit code. -/
structure Answer where
  printed : Bytes
  code : Int
  deriving DecidableEq, Repr

/-- How a refusal and a result are printed: `encoding/json`. -/
structure Encoder where
  refusal : Bytes → Bytes
  result : Request → Outcome → List Step → Bytes

namespace Encoder

variable (encoder : Encoder)

/-- `refuse`. -/
def refuse (reason : Bytes) : Answer := ⟨encoder.refusal reason, 2⟩

/-- What `finish` prints, and the code it returns. -/
def report (report : Report) : Answer :=
  ⟨encoder.result report.run.request report.outcome report.run.steps, report.outcome.code⟩

end Encoder

/-- The exit code a kept `exit` file says: `Failed` where it cannot be read. -/
def recordedCode (exit : Option Bytes) : Int :=
  ((exit.map Bytes.trimSpace).bind atoi).getD 1

/-- `recorded`: the result of an operation that already ran, where there is one. -/
def recorded (state : Bytes) : Visit (Option Answer) := do
  let result : Option Bytes ← askFor (.readResult state)
  match result with
  | none => return none
  | some printed =>
      let exit : Option Bytes ← askFor (.readExit state)
      return some ⟨printed, recordedCode exit⟩

/-- The end of `Upgrade`: the operation's directory is made, and the operation runs
where it was not there. -/
def startRun (encoder : Encoder) (state : Bytes) (run : Run) (pinFile : Bytes) (fuel : Nat) :
    Visit Answer := do
  let made : Bool ← askFor (.mkdir state)
  if !made then
    return encoder.refuse (ascii "the operation is running, or stopped without a result")
  else
    let report ← within state run.request (run.execute fuel pinFile)
    return encoder.report report

/-- The middle of `Upgrade`: a recorded result is printed. -/
def answer (encoder : Encoder) (upgrader : Upgrader) (request : Request) (stack : Stack)
    (fuel : Nat) : Visit Answer := do
  match ← recorded (upgrader.stateOf request.operation) with
  | some kept => return kept
  | none =>
      let root : Bool ← askFor (.mkdirAll upgrader.stateRoot)
      if !root then return encoder.refuse (ascii "the state directory could not be made")
      else
        startRun encoder (upgrader.stateOf request.operation) (upgrader.runOf request stack)
          stack.pinFile fuel

/-- `Upgrade`. -/
def upgrade (encoder : Encoder) (upgrader : Upgrader) (args : List Bytes) (fuel : Nat) :
    Visit Answer :=
  match parse args with
  | .error reason => return encoder.refuse reason
  | .ok request => do
      match ← upgrader.prepare request with
      | .error reason => return encoder.refuse reason
      | .ok stack => answer encoder upgrader request stack fuel

/-- `Main`. -/
def main (encoder : Encoder) (getenv : Bytes → Bytes) (euid : Int) (args : List Bytes)
    (fuel : Nat) : Visit Answer :=
  match fromEnvironment getenv euid with
  | .error reason => return encoder.refuse reason
  | .ok upgrader => upgrade encoder upgrader args fuel

end SeverinoHQ.Host.Upgrade
