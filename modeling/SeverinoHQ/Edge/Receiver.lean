/-
# The receiver on a Caddy edge

What an edge does with a certificate it is handed: it reads the bundle, proves the
key is the leaf's, puts the two files in place one after the other and has Caddy
reload. Each call may fail, and so may each call of what puts the previous pair back.
-/

import SeverinoHQ.Files.Placing
import SeverinoHQ.Math.Text

namespace SeverinoHQ.Edge

open SeverinoHQ.Math Dialogue
open Atomicfile (Place Node Files)

/-! ## The bundle -/

/-- The two files a certificate bundle holds, as the edge serves them. -/
def fullchainName : String := "fullchain.pem"

def privateKeyName : String := "privkey.pem"

/-- One entry of a tar, with what it holds where that can be read. -/
structure TarEntry where
  name : String
  regular : Bool
  data : Option Bytes
  deriving DecidableEq, Repr

/-- A certificate, as far as a pair is judged by it. -/
structure Leaf where
  notAfter : Int
  publicKey : Except String Bytes

/-- What the receiver uses of packages tar, pem and x509. -/
structure Library where
  /-- The entries of an archive, up to one that cannot be read. -/
  entries : Bytes → List (Option TarEntry)
  /-- The first certificate of a text of PEM blocks. -/
  firstCertificate : Bytes → Except String Leaf
  /-- The public half of its first private key. -/
  firstPrivateKey : Bytes → Except String (Except String Bytes)

def bundleInvalid : String := "certificate snapshot was invalid"

def bundleUnexpected : String := "certificate snapshot contained unexpected files"

def bundleIncomplete : String := "certificate snapshot was incomplete"

/-- The entries left, after the files read so far and whether one was irregular. -/
def readEntries (files : List (String × Bytes)) (irregular : Bool) :
    List (Option TarEntry) → Except String (List (String × Bytes) × Bool)
  | [] => .ok (files, irregular)
  | none :: _ => .error bundleInvalid
  | some entry :: rest =>
      if entry.name ≠ fullchainName ∧ entry.name ≠ privateKeyName then .error bundleUnexpected
      else if (files.lookup entry.name).isSome then .error bundleUnexpected
      else if !entry.regular then readEntries (files ++ [(entry.name, [])]) true rest
      else
        match entry.data with
        | none => .error bundleInvalid
        | some data => readEntries (files ++ [(entry.name, data)]) irregular rest

variable (library : Library)

/-- A bundle's chain and key: exactly the two names, each once and a regular file. -/
def readBundle (payload : Bytes) : Except String (Bytes × Bytes) :=
  match readEntries [] false (library.entries payload) with
  | .error problem => .error problem
  | .ok (files, irregular) =>
      if files.length = 0 then .error bundleInvalid
      else if files.length ≠ 2 then .error bundleUnexpected
      else if irregular then .error bundleIncomplete
      else .ok ((files.lookup fullchainName).getD [], (files.lookup privateKeyName).getD [])

/-- How a pair is refused. -/
inductive PairError
  | mismatch
  | unreadable (side problem : String)
  deriving DecidableEq, Repr

/-- The leaf of a chain, once a private key is proven to be its key. -/
def pair (fullchain privateKey : Bytes) : Except PairError Leaf :=
  match library.firstCertificate fullchain with
  | .error problem => .error (.unreadable "certificate unreadable" problem)
  | .ok leaf =>
      match library.firstPrivateKey privateKey with
      | .error problem => .error (.unreadable "private key unreadable" problem)
      | .ok half =>
          match leaf.publicKey, half with
          | .error problem, _ => .error (.unreadable "certificate unreadable" problem)
          | .ok _, .error problem => .error (.unreadable "private key unreadable" problem)
          | .ok certified, .ok held => if certified = held then .ok leaf else .error .mismatch

/-! ## The calls -/

/-- The writes of one deploy: the pair, and the previous pair put back. -/
inductive Write
  | chain
  | key
  | chainBack
  | keyBack
  deriving DecidableEq, Repr

inductive Call
  | lookupUser (write : Write) (name : String)
  | lookupGroup (write : Write) (name : String)
  | file (write : Write) (call : Atomicfile.Call)
  | read (place : Place)
  | now
  | reload
  deriving DecidableEq, Repr

@[reducible]
def Reply : Call → Type
  | .lookupUser _ _ => Option String
  | .lookupGroup _ _ => Option String
  | .file _ call => Atomicfile.Reply call
  | .read _ => Except String Bytes
  | .now => Int
  | .reload => Option String

/-- What a call did to the edge's files, by its reply: a file read is the file that
stands, and Caddy's reload writes none. The receiver runs as root. -/
def Step (before : Files) : Exchange Call Reply → Files → Prop
  | ⟨.file _ call, reply⟩, after => Atomicfile.Step 0 0 before ⟨call, reply⟩ after
  | ⟨.read place, .ok data⟩, after => after = before ∧ ∃ node, before place = some node ∧ node.data = data
  | ⟨.read _, .error _⟩, after => after = before
  | ⟨.lookupUser _ _, _⟩, after => after = before
  | ⟨.lookupGroup _ _, _⟩, after => after = before
  | ⟨.now, _⟩, after => after = before
  | ⟨.reload, _⟩, after => after = before

abbrev Session := Dialogue Call Reply

abbrev ask (call : Call) : Session (Reply call) := Dialogue.call call

/-! ## The receiver -/

/-- One edge's certificate directory, and who owns what is installed in it. -/
structure Receiver where
  certDir : String
  owner : String
  group : String
  deriving DecidableEq, Repr

variable (receiver : Receiver)

def Receiver.chainPlace : Place := ⟨receiver.certDir, fullchainName⟩

def Receiver.keyPlace : Place := ⟨receiver.certDir, privateKeyName⟩

/-- A user or group by name, or by number as install(1) takes one. -/
def identify (name : String) (found : Option String) : Except String Int :=
  match found with
  | some number =>
      match Text.atoi number with
      | some number => .ok number
      | none => .error ("strconv.Atoi: parsing " ++ number)
  | none =>
      match Text.atoi name with
      | some number => if number < 0 then .error ("no user or group " ++ name) else .ok number
      | none => .error ("no user or group " ++ name)

/-- A file's owner and mode set beside its destination, and the file put in place. -/
def putInPlace (target : Place) (data : Bytes) (uid gid : Int) (mode : Nat) :
    Atomicfile.Program (Option String) := do
  let created ← Atomicfile.create target mode
  match created with
  | .error problem => return some problem
  | .ok file =>
      let owned : Option String ← Atomicfile.ask (.chown file.temp uid gid)
      match owned with
      | some problem =>
          Atomicfile.discard file
          return some problem
      | none => Atomicfile.write file data

/-- Data put at a place whole, owned by the receiver's owner and group. -/
def install (write : Write) (target : Place) (data : Bytes) (mode : Nat) :
    Session (Option String) := do
  let user : Option String ← ask (.lookupUser write receiver.owner)
  match identify receiver.owner user with
  | .error problem => return some problem
  | .ok uid =>
      let group : Option String ← ask (.lookupGroup write receiver.group)
      match identify receiver.group group with
      | .error problem => return some problem
      | .ok gid => (putInPlace target data uid gid mode).within (Call.file write)

/-- One file's contents and mode, and the write that installs it. -/
structure Installation where
  write : Write
  target : Place
  data : Bytes
  mode : Nat
  deriving DecidableEq, Repr

/-- Files installed one after another, up to one that fails. -/
def put : List Installation → Session (Option String)
  | [] => return none
  | file :: files => do
      let installed ← install receiver file.write file.target file.data file.mode
      match installed with
      | some problem => return some problem
      | none => put files

/-- `errors.Join`, as it reads. -/
def join (first : String) (second : Option String) : String :=
  match second with
  | none => first
  | some problem => first ++ "\n" ++ problem

/-- Files put back after a reload that failed, and reloaded; it fails with the message
either way. -/
def restore (message : String) (files : List Installation) : Session (Option String) := do
  let restored ← put receiver files
  match restored with
  | some problem => return some (join message (some problem))
  | none =>
      let reloaded : Option String ← ask .reload
      return some (join message reloaded)

/-- The installed pair. -/
def installed : Session (Except String (Bytes × Bytes)) := do
  let chain : Except String Bytes ← ask (.read receiver.chainPlace)
  match chain with
  | .error problem => return .error problem
  | .ok fullchain =>
      let key : Except String Bytes ← ask (.read receiver.keyPlace)
      match key with
      | .error problem => return .error problem
      | .ok privateKey => return .ok (fullchain, privateKey)

/-- The pair put in place and reloaded, or the previous pair put back. -/
def replacePair (fullchain privateKey previousChain previousKey : Bytes) :
    Session (Option String) := do
  let chain ← install receiver .chain receiver.chainPlace fullchain 0o644
  match chain with
  | some problem => return some problem
  | none =>
      let key ← install receiver .key receiver.keyPlace privateKey 0o600
      match key with
      | some problem =>
          let restored ← put receiver [⟨.chainBack, receiver.chainPlace, previousChain, 0o644⟩]
          return some (join problem restored)
      | none =>
          let reloaded : Option String ← ask .reload
          match reloaded with
          | some _ =>
              restore receiver "Severino HQ certificate reload failed; previous certificate restored."
                [⟨.chainBack, receiver.chainPlace, previousChain, 0o644⟩,
                  ⟨.keyBack, receiver.keyPlace, previousKey, 0o600⟩]
          | none => return none

/-- The refusal of a pair, on one line. -/
def refusal : PairError → String
  | .mismatch => "Refusing: the private key does not match the certificate."
  | .unreadable side problem =>
      "Refusing: " ++ String.ofList ((side ++ "\n" ++ problem).toList.flatMap fun c =>
        if c = '\n' then [':', ' '] else [c]) ++ "."

/-- A certificate and its key installed and Caddy reloaded; an answer is an error. -/
def deploy (body : Bytes) : Session (Option String) := do
  match readBundle library body with
  | .error problem => return some ("Refusing: " ++ problem ++ ".")
  | .ok (fullchain, privateKey) =>
      match pair library fullchain privateKey with
      | .error problem => return some (refusal problem)
      | .ok leaf =>
          let now : Int ← ask .now
          if ¬now < leaf.notAfter then
            return some "Refusing: the certificate has already expired."
          else
            let previous ← installed receiver
            match previous with
            | .error problem => return some problem
            | .ok (previousChain, previousKey) =>
                replacePair receiver fullchain privateKey previousChain previousKey

end SeverinoHQ.Edge
