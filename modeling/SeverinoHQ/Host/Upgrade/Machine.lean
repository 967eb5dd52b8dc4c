/-
# The machine an upgrade acts on

The override beside the compose file, the copies a run makes of it, the data at
each path, the snapshots, and whether the service runs. A command that succeeds has
done what it was asked, at the path it was given. One that fails may have done any
part of it to what it writes, and a rename is done or not. While the service runs it
writes its data between any two calls.
-/

import SeverinoHQ.Host.Upgrade.Execution

namespace SeverinoHQ.Host.Upgrade

open SeverinoHQ.Math

/-- A file: its bytes, and who may do what with them. -/
structure File where
  bytes : Bytes
  owner : Owner
  mode : Nat
  deriving DecidableEq, Repr

/-- A copy in the state directory: the path it was taken of, and what was there. -/
structure Copy (κ : Type) where
  place : Bytes
  contents : κ
  deriving DecidableEq, Repr

/-- The machine, as far as a run reads and changes it. Data goes by its path, and the
copies of a mount by its index. -/
structure Machine (κ : Type) where
  /-- The file a pin goes into. -/
  override : Option File
  staged : Option File
  restoring : Option File
  before : Option File
  pinnedCopy : Option File
  data : Bytes → κ
  parts : Nat → Option (Copy κ)
  snapshots : Nat → Option (Copy κ)
  running : Bool
  /-- The data the service was last recreated on. -/
  recreated : Option (Bytes → κ)

variable {κ : Type} (resolve : Option File → Bytes) (mountpoint : Bytes → Bytes) (blank : κ)

/-- Where a mount's data is: a volume where docker keeps it, and anything else where
the inspection found it. -/
def Mount.place (mount : Mount) : Bytes :=
  match mount.kind with
  | .volume => mountpoint mount.ref
  | .bind | .file => mount.ref

namespace Machine

/-- The override a compose command is given. -/
def given (host : Machine κ) : Option OverrideFile → Option File
  | none => none
  | some .pinFile => host.override
  | some .pinnedCopy => host.pinnedCopy

/-- The data at a path, written. -/
def write (host : Machine κ) (path : Bytes) (contents : κ) : Machine κ :=
  { host with data := Function.update host.data path contents }

/-- A mount's partial copy, written. -/
def writePart (host : Machine κ) (mount : Mount) (part : Option (Copy κ)) : Machine κ :=
  { host with parts := Function.update host.parts mount.index part }

end Machine

/-- The service writes its data while it runs, and nothing else. -/
def Drifts (host next : Machine κ) : Prop :=
  next = { host with data := next.data } ∧ (host.running = false → next.data = host.data)

/-- What a call does to the machine, by what it is answered. `resolve` is the image
compose reads for the service with an override, `mountpoint` where docker keeps a
volume, and `blank` a directory with nothing in it. -/
def Effect (host : Machine κ) : Dialogue.Exchange Call Reply → Machine κ → Prop
  | ⟨.config files, reply⟩, next =>
      next = host ∧ ∀ image, reply = some image → image = resolve (host.given files.override)
  | ⟨.stop _, stopped⟩, next =>
      ∃ running, next = { host with running := running } ∧
        (running = true → host.running = true ∧ stopped = false)
  | ⟨.start _, started⟩, next =>
      ∃ running, next = { host with running := running } ∧ (started = true → running = true)
  | ⟨.up _, up⟩, next =>
      ∃ running, next = { host with running := running, recreated := some host.data } ∧
        (up = true → running = true)
  | ⟨.volumeInspect name, reply⟩, next =>
      next = host ∧ ∀ printed, reply = some printed → Bytes.trimSpace printed = mountpoint name
  | ⟨.readOverride, reply⟩, next =>
      next = host ∧ ∀ text, reply = .ok text → ∃ file, host.override = some file ∧ text = file.bytes
  | ⟨.statOverride, reply⟩, next =>
      next = host ∧ ∀ mode, reply = .ok mode → ∃ file, host.override = some file ∧ mode = file.mode
  | ⟨.writePinned body mode, error⟩, next =>
      ∃ copy, next = { host with pinnedCopy := copy } ∧
        (error = none → ∃ owner, copy = some ⟨body, owner, mode⟩)
  | ⟨.chmodPinned mode, error⟩, next =>
      ∃ copy, next = { host with pinnedCopy := copy } ∧
        (error = none → copy = host.pinnedCopy.map fun file => { file with mode := mode })
  | ⟨.copyToPart mount source, error⟩, next | ⟨.tarToPart mount source, error⟩, next =>
      ∃ part, next = host.writePart mount part ∧
        (error = none → part = some ⟨source, host.data source⟩)
  | ⟨.keepSnapshot mount, error⟩, next =>
      (error ≠ none → next = host) ∧ (error = none → ∃ copy,
        host.parts mount.index = some copy ∧ next = { host.writePart mount none with
          snapshots := Function.update host.snapshots mount.index (some copy) })
  | ⟨.removePart mount, _⟩, next => ∃ part, next = host.writePart mount part
  | ⟨.copyBefore, error⟩, next =>
      ∃ before, next = { host with before := before } ∧
        (error = none → before = host.override ∧ host.override.isSome)
  | ⟨.lstatOwner ofOverride, reply⟩, next =>
      next = host ∧ (ofOverride = true → ∀ owner, reply = .ok owner →
        ∃ file, host.override = some file ∧ owner = file.owner)
  | ⟨.copyStaged owner, error⟩, next =>
      ∃ staged, next = { host with staged := staged } ∧
        (error = none → ∃ file, host.pinnedCopy = some file ∧
          staged = some { file with owner := owner })
  | ⟨.removeStaged, _⟩, next => ∃ staged, next = { host with staged := staged }
  | ⟨.renameStaged, error⟩, next =>
      (error ≠ none → next = host) ∧ (error = none → host.staged.isSome ∧
        next = { host with override := host.staged, staged := none })
  | ⟨.presentBefore, present⟩, next => next = host ∧ present = host.before.isSome
  | ⟨.copyRestored, error⟩, next =>
      ∃ restoring, next = { host with restoring := restoring } ∧
        (error = none → restoring = host.before ∧ host.before.isSome)
  | ⟨.renameRestored, error⟩, next =>
      (error ≠ none → next = host) ∧ (error = none → host.restoring.isSome ∧
        next = { host with override := host.restoring, restoring := none })
  | ⟨.removeOverride, reply⟩, next =>
      (∀ error, reply = .error error → next = host) ∧
        ∀ present, reply = .ok present →
          present = host.override.isSome ∧ next = { host with override := none }
  | ⟨.tarForTrial _ target, _⟩, next => ∃ contents, next = host.write target contents
  | ⟨.copyBack mount target, error⟩, next =>
      ∃ contents, next = host.write target contents ∧ (error = none →
        ∃ copy, host.snapshots mount.index = some copy ∧ contents = copy.contents)
  | ⟨.empty _ target, error⟩, next =>
      ∃ contents, next = host.write target contents ∧ (error = none → contents = blank)
  | ⟨.tarBack mount target, error⟩, next =>
      ∃ contents, next = host.write target contents ∧ (error = none → host.data target = blank →
        ∃ copy, host.snapshots mount.index = some copy ∧ contents = copy.contents)
  | _, next => next = host

/-- What may happen over one call: the service writes, and the call is done. -/
def World (host : Machine κ) (exchange : Dialogue.Exchange Call Reply) (next : Machine κ) : Prop :=
  ∃ drifted, Drifts host drifted ∧ Effect resolve mountpoint blank drifted exchange next

variable {resolve} {mountpoint} {blank}

/-! ## What most calls keep -/

/-- The calls that record a result. -/
def Call.records : Call → Bool
  | .writeExit _ | .writeResult _ _ => true
  | _ => false

/-- The calls that find out what a container's mounts hold. -/
def Call.inspects : Call → Bool
  | .inspectMounts _ | .stat _ => true
  | _ => false

/-- The calls that look at a path. -/
def Call.looks : Call → Bool
  | .unmoved _ | .stat _ => true
  | _ => false

/-- The other calls that leave the override, its copy, the snapshots and the service's
state alone, and record nothing. -/
def Call.isCalm : Call → Bool
  | .stop _ | .start _ | .up _ | .keepSnapshot _ | .copyBefore | .renameStaged | .renameRestored
  | .removeOverride | .inspectMounts _ | .stat _ | .writeExit _ | .writeResult _ _ => false
  | _ => true

/-- The override, its copy, the snapshots and the service's state are as they were. -/
structure Keeps (host next : Machine κ) : Prop where
  override : next.override = host.override
  before : next.before = host.before
  running : next.running = host.running
  snapshots : next.snapshots = host.snapshots

theorem Keeps.refl (host : Machine κ) : Keeps host host := ⟨rfl, rfl, rfl, rfl⟩

theorem Keeps.trans {first second third : Machine κ} (h : Keeps first second)
    (h' : Keeps second third) : Keeps first third :=
  ⟨h'.override.trans h.override, h'.before.trans h.before, h'.running.trans h.running,
    h'.snapshots.trans h.snapshots⟩

theorem Drifts.keeps {host next : Machine κ} (h : Drifts host next) : Keeps host next := by
  rw [h.1]
  exact ⟨rfl, rfl, rfl, rfl⟩

theorem Effect.keeps {host next : Machine κ} {exchange : Dialogue.Exchange Call Reply}
    (hcalm : (exchange.1.isCalm || exchange.1.inspects) = true)
    (h : Effect resolve mountpoint blank host exchange next) : Keeps host next := by
  obtain ⟨call, reply⟩ := exchange
  cases call with
  | stop | start | up | keepSnapshot | copyBefore | renameStaged | renameRestored | removeOverride
  | writeExit | writeResult =>
      exact absurd hcalm (by simp [Call.isCalm, Call.inspects])
  | config | volumeInspect | readOverride | statOverride | lstatOwner | presentBefore =>
      rw [h.1]
      exact Keeps.refl host
  | writePinned | chmodPinned | copyToPart | tarToPart | copyStaged | copyRestored | copyBack
  | empty | tarBack =>
      obtain ⟨_, rfl, -⟩ := h
      exact ⟨rfl, rfl, rfl, rfl⟩
  | removePart | removeStaged | tarForTrial =>
      obtain ⟨_, rfl⟩ := h
      exact ⟨rfl, rfl, rfl, rfl⟩
  | _ =>
      rw [show next = host from h]
      exact Keeps.refl host

theorem World.keeps {host next : Machine κ} {exchange : Dialogue.Exchange Call Reply}
    (hcalm : (exchange.1.isCalm || exchange.1.inspects) = true)
    (h : World resolve mountpoint blank host exchange next) : Keeps host next := by
  obtain ⟨drifted, hdrift, heffect⟩ := h
  exact hdrift.keeps.trans (heffect.keeps hcalm)

/-- Stopping and recreating the service leave the override, its copy and the snapshots
alone. -/
theorem World.override_eq {host next : Machine κ} {exchange : Dialogue.Exchange Call Reply}
    (hcall : (∃ files, exchange.1 = .stop files) ∨ ∃ files, exchange.1 = .up files)
    (h : World resolve mountpoint blank host exchange next) :
    next.override = host.override ∧ next.before = host.before ∧
      next.snapshots = host.snapshots := by
  obtain ⟨drifted, hdrift, heffect⟩ := h
  obtain ⟨call, reply⟩ := exchange
  rcases hcall with ⟨files, rfl⟩ | ⟨files, rfl⟩ <;> obtain ⟨running, rfl, -⟩ := heffect <;>
    exact ⟨hdrift.keeps.override, hdrift.keeps.before, hdrift.keeps.snapshots⟩

/-- A service that stopped, or did not run, does not run once it was asked to stop. -/
theorem World.stopped {host next : Machine κ} {files : Files} {stopped : Bool}
    (h : World resolve mountpoint blank host ⟨.stop files, stopped⟩ next)
    (hstops : host.running = false ∨ stopped = true) : next.running = false := by
  obtain ⟨drifted, hdrift, running, rfl, hrunning⟩ := h
  have hsame : drifted.running = host.running := hdrift.keeps.running
  grind

/-- The calls that change nothing of the machine. -/
def Call.isIdle : Call → Bool
  | .removeContainer _ | .volumeRemove _ | .writeExit _ | .writeResult _ _ => true
  | _ => false

/-- All but the data is as it was. -/
def Rests (host next : Machine κ) : Prop := next = { host with data := next.data }

theorem World.rests {host next : Machine κ} {exchange : Dialogue.Exchange Call Reply}
    (hidle : exchange.1.isIdle = true) (h : World resolve mountpoint blank host exchange next) :
    Rests host next := by
  obtain ⟨drifted, hdrift, heffect⟩ := h
  obtain ⟨call, reply⟩ := exchange
  cases call with
  | removeContainer | volumeRemove | writeExit | writeResult =>
      rw [show next = drifted from heffect]
      exact hdrift.1
  | _ => exact absurd hidle (by simp [Call.isIdle])

/-- A service that does not run writes nothing. -/
theorem Drifts.eq_of_stopped {host next : Machine κ} (h : Drifts host next)
    (hstopped : host.running = false) : next = host := by
  rw [h.1, h.2 hstopped]

end SeverinoHQ.Host.Upgrade
