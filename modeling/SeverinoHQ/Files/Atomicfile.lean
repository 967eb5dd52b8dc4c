/-
# Files put in place whole

The writer makes a file beside its destination, syncs it, renames or links it over
the destination, and syncs the directory. It makes one call at a time, any of which
may fail. A call that fails has done what its documentation leaves open: a write any
part of its bytes, a change of mode or owner all or nothing, a rename nothing.
-/

import SeverinoHQ.Math.Bytes
import SeverinoHQ.Math.Dialogue
import Mathlib.Logic.Function.Basic
import Mathlib.Tactic.Common

namespace SeverinoHQ.Atomicfile

open SeverinoHQ.Math Dialogue

/-! ## Directories -/

/-- A name in a directory. -/
structure Place where
  dir : String
  name : String
  deriving DecidableEq, Repr

inductive Kind
  | regular
  | directory
  | other
  deriving DecidableEq, Repr

/-- What stands at a name: bytes, where it is a regular file. -/
structure Node where
  kind : Kind
  links : Nat
  uid : Nat
  gid : Nat
  mode : Nat
  data : Bytes
  deriving DecidableEq, Repr

/-- What stands at every name. -/
abbrev Files := Place → Option Node

/-- One field of what stands at a name, changed. -/
def Files.change (files : Files) (place : Place) (made : Node → Node) : Files :=
  Function.update files place ((files place).map made)

/-! ## The calls -/

inductive Call
  | random
  | create (temp : Place)
  | chmod (place : Place) (mode : Nat)
  | chown (place : Place) (uid gid : Int)
  | write (place : Place) (data : Bytes)
  | sync (place : Place)
  | close (place : Place)
  | rename (temp target : Place)
  | link (temp target : Place)
  | remove (place : Place)
  | openDir (dir : String)
  | syncDir (dir : String)
  deriving DecidableEq, Repr

/-- A call's error, where it has one. -/
@[reducible]
def Reply : Call → Type
  | .random => String
  | _ => Option String

/-- An owner after a change of it: −1 leaves it. -/
def owned (held : Nat) (asked : Int) : Nat := if asked = -1 then held else asked.toNat

/-- What a call did to the files, by its reply. A new file is the process's own. -/
def Step (uid gid : Nat) (before : Files) : Exchange Call Reply → Files → Prop
  | ⟨.create temp, none⟩, after =>
      before temp = none ∧ after = Function.update before temp (some ⟨.regular, 1, uid, gid, 0o600, []⟩)
  | ⟨.chmod place mode, none⟩, after => after = before.change place fun node => { node with mode }
  | ⟨.chmod place mode, some _⟩, after =>
      after = before ∨ after = before.change place fun node => { node with mode }
  | ⟨.chown place uid gid, none⟩, after =>
      after = before.change place fun node =>
        { node with uid := owned node.uid uid, gid := owned node.gid gid }
  | ⟨.chown place uid gid, some _⟩, after =>
      after = before ∨ after = before.change place fun node =>
        { node with uid := owned node.uid uid, gid := owned node.gid gid }
  | ⟨.write place data, none⟩, after =>
      after = before.change place fun node => { node with data := node.data ++ data }
  | ⟨.write place data, some _⟩, after =>
      ∃ part, part <+: data ∧
        after = before.change place fun node => { node with data := node.data ++ part }
  | ⟨.rename temp target, none⟩, after =>
      after = Function.update (Function.update before temp none) target (before temp)
  | ⟨.link temp target, none⟩, after =>
      before target = none ∧ after = Function.update before target (before temp)
  | ⟨.remove place, none⟩, after => after = Function.update before place none
  | ⟨.random, _⟩, after => after = before
  | ⟨.create _, some _⟩, after => after = before
  | ⟨.sync _, _⟩, after => after = before
  | ⟨.close _, _⟩, after => after = before
  | ⟨.rename _ _, some _⟩, after => after = before
  | ⟨.link _ _, some _⟩, after => after = before
  | ⟨.remove _, some _⟩, after => after = before
  | ⟨.openDir _, _⟩, after => after = before
  | ⟨.syncDir _, _⟩, after => after = before

/-- A call done, or refused. -/
def attempt (refused : Bool) (files after : Files) : Option String × Files :=
  if refused then (some "failed", files) else (none, after)

/-- Files whose every call does what it is asked, but for those that fail. -/
def machine (uid gid : Nat) (fails : Call → Bool) (files : Files) : (call : Call) → Reply call × Files
  | .random => ("0", files)
  | .create temp =>
      attempt (fails (.create temp) || (files temp).isSome) files
        (Function.update files temp (some ⟨.regular, 1, uid, gid, 0o600, []⟩))
  | .chmod place mode =>
      attempt (fails (.chmod place mode)) files (files.change place fun node => { node with mode })
  | .chown place uid gid =>
      attempt (fails (.chown place uid gid)) files (files.change place fun node =>
        { node with uid := owned node.uid uid, gid := owned node.gid gid })
  | .write place data =>
      attempt (fails (.write place data)) files
        (files.change place fun node => { node with data := node.data ++ data })
  | .sync place => attempt (fails (.sync place)) files files
  | .close place => attempt (fails (.close place)) files files
  | .rename temp target =>
      attempt (fails (.rename temp target)) files
        (Function.update (Function.update files temp none) target (files temp))
  | .link temp target =>
      attempt (fails (.link temp target) || (files target).isSome) files
        (Function.update files target (files temp))
  | .remove place =>
      attempt (fails (.remove place)) files (Function.update files place none)
  | .openDir dir => attempt (fails (.openDir dir)) files files
  | .syncDir dir => attempt (fails (.syncDir dir)) files files

theorem attempt_step {refused : Bool} {files after : Files} (effect : Option String → Files → Prop)
    (hrefused : effect (some "failed") files) (hdone : refused = false → effect none after) :
    effect (attempt refused files after).1 (attempt refused files after).2 := by
  cases refused with
  | true => exact hrefused
  | false => exact hdone rfl

theorem step_machine (uid gid : Nat) (fails : Call → Bool) (files : Files) (call : Call) :
    Step uid gid files ⟨call, (machine uid gid fails files call).1⟩
      (machine uid gid fails files call).2 := by
  cases call with
  | random => rfl
  | create temp =>
      apply attempt_step fun reply after => Step uid gid files ⟨.create temp, reply⟩ after
      · rfl
      · intro hfree
        simp only [Bool.or_eq_false_iff, Option.isSome_eq_false_iff, Option.isNone_iff_eq_none] at hfree
        exact ⟨hfree.2, rfl⟩
  | link temp target =>
      apply attempt_step fun reply after => Step uid gid files ⟨.link temp target, reply⟩ after
      · rfl
      · intro hfree
        simp only [Bool.or_eq_false_iff, Option.isSome_eq_false_iff, Option.isNone_iff_eq_none] at hfree
        exact ⟨hfree.2, rfl⟩
  | chmod place mode =>
      exact attempt_step (fun reply after => Step uid gid files ⟨.chmod place mode, reply⟩ after)
        (Or.inl rfl) fun _ => rfl
  | chown place newUid newGid =>
      exact attempt_step (fun reply after => Step uid gid files ⟨.chown place newUid newGid, reply⟩ after)
        (Or.inl rfl) fun _ => rfl
  | write place data =>
      apply attempt_step fun reply after => Step uid gid files ⟨.write place data, reply⟩ after
      · refine ⟨[], List.nil_prefix, ?_⟩
        funext other
        by_cases hother : other = place
        · subst hother
          cases hnode : files other <;> simp [Files.change, hnode]
        · simp [Files.change, hother]
      · exact fun _ => rfl
  | rename temp target =>
      exact attempt_step (fun reply after => Step uid gid files ⟨.rename temp target, reply⟩ after)
        rfl fun _ => rfl
  | remove place =>
      exact attempt_step (fun reply after => Step uid gid files ⟨.remove place, reply⟩ after)
        rfl fun _ => rfl
  | sync place =>
      exact attempt_step (fun reply after => Step uid gid files ⟨.sync place, reply⟩ after)
        rfl fun _ => rfl
  | close place =>
      exact attempt_step (fun reply after => Step uid gid files ⟨.close place, reply⟩ after)
        rfl fun _ => rfl
  | openDir dir =>
      exact attempt_step (fun reply after => Step uid gid files ⟨.openDir dir, reply⟩ after)
        rfl fun _ => rfl
  | syncDir dir =>
      exact attempt_step (fun reply after => Step uid gid files ⟨.syncDir dir, reply⟩ after)
        rfl fun _ => rfl

/-! ## The writer -/

abbrev Program := Dialogue Call Reply

abbrev ask (call : Call) : Program (Reply call) := Dialogue.call call

/-- A file being written beside its destination. -/
structure File where
  temp : Place
  target : Place
  deriving DecidableEq, Repr

/-- The name a file is written under, beside its destination. -/
def temporary (target : Place) (text : String) : Place :=
  ⟨target.dir, "." ++ target.name ++ "." ++ text⟩

/-- `Discard`: the file, closed and removed; neither reply is read. -/
def discard (file : File) : Program Unit := do
  let _ ← ask (.close file.temp)
  let _ ← ask (.remove file.temp)

/-- A file for a destination, with its mode set before anything is written. -/
def create (target : Place) (mode : Nat) : Program (Except String File) := do
  let text : String ← ask .random
  let file : File := ⟨temporary target text, target⟩
  let created : Option String ← ask (.create file.temp)
  match created with
  | some problem => return .error problem
  | none =>
      let closed : Option String ← ask (.chmod file.temp mode)
      match closed with
      | some problem =>
          discard file
          return .error problem
      | none => return .ok file

/-- The names in a directory made durable. -/
def syncDir (dir : String) : Program (Option String) := do
  let opened : Option String ← ask (.openDir dir)
  match opened with
  | some problem => return some problem
  | none => ask (.syncDir dir)

/-- The file synced and closed, put in place, and its directory synced. -/
def commit (file : File) (place : Program (Option String)) : Program (Option String) := do
  let synced : Option String ← ask (.sync file.temp)
  match synced with
  | some problem =>
      discard file
      return some problem
  | none =>
      let closed : Option String ← ask (.close file.temp)
      match closed with
      | some problem =>
          let _ ← ask (.remove file.temp)
          return some problem
      | none =>
          let placed ← place
          match placed with
          | some problem =>
              let _ ← ask (.remove file.temp)
              return some problem
          | none => syncDir file.target.dir

/-- `Replace`: the file at its destination, over whatever is there. -/
def replace (file : File) : Program (Option String) :=
  commit file (ask (.rename file.temp file.target))

/-- The bytes written, and the file put in place. -/
def write (file : File) (data : Bytes) : Program (Option String) := do
  let written : Option String ← ask (.write file.temp data)
  match written with
  | some problem =>
      discard file
      return some problem
  | none => replace file

/-- `WriteFile`: the destination replaced with `data`, readable by `mode`. -/
def writeFile (target : Place) (data : Bytes) (mode : Nat) : Program (Option String) := do
  let created ← create target mode
  match created with
  | .error problem => return some problem
  | .ok file => write file data

end SeverinoHQ.Atomicfile
