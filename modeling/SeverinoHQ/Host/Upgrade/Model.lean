/-
# One upgrade, as root runs it

A compose service is moved to an image pinned by digest: checked while it still
runs, stopped, its data snapshotted, tried on a copy, pinned in the override,
recreated and verified, and put back where any of that fails. Every command, every
file operation, the clock and the signal are calls, so each of them may fail, or
arrive, anywhere.
-/

import SeverinoHQ.Host.Override
import SeverinoHQ.Host.Argv

namespace SeverinoHQ.Host.Upgrade

open SeverinoHQ.Math
open SeverinoHQ.Math.Bytes (ascii cut cutPrefix isAlphanumeric isNameByte)

/-! ## What an upgrade is asked with, and how it ends -/

/-- One upgrade, as asked. Times are whole nanoseconds. -/
structure Request where
  operation : Bytes
  projectDir : Bytes
  service : Bytes
  fromImage : Bytes
  toImage : Bytes
  tag : Bytes
  wait : Int
  deriving DecidableEq, Repr

/-- How a run ends. -/
inductive Outcome where
  | kept
  | rolledBack
  | refused
  | unchanged
  | failed
  deriving DecidableEq, Repr

/-- The outcome as the result says it. -/
def Outcome.value : Outcome → String
  | .kept => "kept"
  | .rolledBack => "rolled_back"
  | .refused => "refused"
  | .unchanged => "unchanged"
  | .failed => "failed"

/-- The exit code of an outcome. -/
def Outcome.code : Outcome → Nat
  | .kept => 0
  | .failed => 1
  | .refused | .unchanged => 2
  | .rolledBack => 3

/-- How far a run got, which decides how it is put back. -/
inductive Phase where
  | checking
  | stopped
  | pinned
  deriving DecidableEq, Repr

/-- One line of the result. -/
structure Step where
  step : String
  ok : Bool
  detail : Bytes
  deriving DecidableEq, Repr

/-- What a writable mount is. -/
inductive MountKind where
  | volume
  | bind
  | file
  deriving DecidableEq, Repr

/-- One writable mount the run snapshots. -/
structure Mount where
  index : Nat
  kind : MountKind
  ref : Bytes
  mounted : Bytes
  deriving DecidableEq, Repr

/-- A mount, as docker's inspection says it. -/
structure InspectedMount where
  type : Bytes
  name : Bytes
  source : Bytes
  destination : Bytes
  rw : Bool
  deriving DecidableEq, Repr

/-! ## Calls -/

/-- The override a compose command is given: the one beside the compose file, or
its pinned copy in the state directory. -/
inductive OverrideFile where
  | pinFile
  | pinnedCopy
  deriving DecidableEq, Repr

/-- The files a compose command is given beyond the compose file. -/
structure Files where
  override : Option OverrideFile
  trial : Bool
  deriving DecidableEq, Repr

/-- Why a file operation failed. -/
structure FileError where
  noSpace : Bool
  symlink : Bool
  text : Bytes
  deriving DecidableEq, Repr

/-- A file's numeric owner and group. -/
structure Owner where
  uid : Nat
  gid : Nat
  deriving DecidableEq, Repr

/-- What is at a bind mount's source. -/
inductive SourceKind where
  | regular
  | directory
  | other
  deriving DecidableEq, Repr

/-- Everything a run asks of the machine. -/
inductive Call where
  /-- `docker compose … config --format json`. -/
  | config (files : Files)
  /-- `docker compose … ps -q SERVICE`. -/
  | ps (files : Files)
  /-- `docker compose … stop SERVICE`. -/
  | stop (files : Files)
  /-- `docker compose … start SERVICE`. -/
  | start (files : Files)
  /-- `docker compose … up -d --no-deps SERVICE`. -/
  | up (files : Files)
  /-- `docker compose … run -d --no-deps --name TRIAL SERVICE`. -/
  | runTrial (files : Files)
  /-- `docker inspect`, of the image, the mounts and the state of a container. -/
  | inspectImage (container : Bytes)
  | inspectMounts (container : Bytes)
  | inspectState (container : Bytes)
  | pull (image : Bytes)
  | removeContainer (name : Bytes)
  | volumeInspect (name : Bytes)
  | volumeCreate (name : Bytes)
  | volumeRemove (name : Bytes)
  /-- `unmoved`. -/
  | unmoved (path : Bytes)
  /-- `os.Stat` of a bind mount's source. -/
  | stat (path : Bytes)
  /-- `os.ReadFile` and `os.Stat` of the override. -/
  | readOverride
  | statOverride
  /-- `os.WriteFile` and `os.Chmod` of `override.pinned`. -/
  | writePinned (body : Bytes) (mode : Nat)
  | chmodPinned (mode : Nat)
  /-- The copy of a mount into its `data-N.part`: by `copyFile`, or by `tar -czf`. -/
  | copyToPart (mount : Mount) (source : Bytes)
  | tarToPart (mount : Mount) (source : Bytes)
  /-- `data-N.part` renamed to the mount's snapshot, or removed. -/
  | keepSnapshot (mount : Mount)
  | removePart (mount : Mount)
  /-- `os.WriteFile` of `trial.yaml`. -/
  | writeTrial
  /-- The copy of a snapshot for the trial: by `copyFile`, or by `tar -xzf` into a volume. -/
  | copyForTrial (mount : Mount)
  | tarForTrial (mount : Mount) (target : Bytes)
  /-- `copyFile` of the override to `override.before`. -/
  | copyBefore
  /-- `os.Lstat` of the override, or of the stack's directory where there is none. -/
  | lstatOwner (ofOverride : Bool)
  /-- `copyFileOwned` of `override.pinned` to the staged pin, and the staged pin removed. -/
  | copyStaged (owner : Owner)
  | removeStaged
  /-- The staged pin renamed over the override. -/
  | renameStaged
  /-- `atomicfile.SyncDir` of the stack's directory. -/
  | syncDir
  /-- Whether `override.before` is present. -/
  | presentBefore
  /-- `copyFile` of `override.before` beside the override, and its rename over it. -/
  | copyRestored
  | renameRestored
  /-- `os.Remove` of the override: whether one was there. -/
  | removeOverride
  /-- A mount put back: by `copyFile`, or emptied and filled by `tar -xzf`. -/
  | copyBack (mount : Mount) (target : Bytes)
  | empty (mount : Mount) (target : Bytes)
  | tarBack (mount : Mount) (target : Bytes)
  | writeExit (code : Nat)
  | writeResult (outcome : Outcome) (steps : List Step)
  /-- Whether a signal has arrived. -/
  | interrupted
  | now
  /-- `Sleep`: whether it was waited out. -/
  | sleep (duration : Int)
  deriving DecidableEq

/-- What a call is answered with. A command that prints is answered with its
output, read where it is JSON, and nothing where it failed or did not read. -/
@[reducible]
def Reply : Call → Type
  | .config _ | .ps _ | .inspectState _ | .volumeInspect _ => Option Bytes
  | .inspectImage _ => Bytes
  | .inspectMounts _ => Option (List InspectedMount)
  | .stop _ | .start _ | .up _ | .runTrial _ | .pull _ | .removeContainer _ | .volumeCreate _
  | .volumeRemove _ | .unmoved _ | .presentBefore | .interrupted | .sleep _ => Bool
  | .stat _ => SourceKind
  | .readOverride => Except FileError Bytes
  | .statOverride => Except FileError Nat
  | .lstatOwner _ => Except FileError Owner
  | .removeOverride => Except FileError Bool
  | .writePinned _ _ | .chmodPinned _ | .copyToPart _ _ | .tarToPart _ _ | .keepSnapshot _
  | .removePart _ | .writeTrial | .copyForTrial _ | .tarForTrial _ _ | .copyBefore
  | .copyStaged _ | .removeStaged | .renameStaged | .syncDir | .copyRestored | .renameRestored
  | .copyBack _ _ | .empty _ _ | .tarBack _ _ | .writeExit _ | .writeResult _ _ =>
      Option FileError
  | .now => Int

/-- A program of the helper. -/
abbrev Session := Dialogue Call Reply

/-- One call. -/
abbrev ask (call : Call) : Session (Reply call) := Dialogue.call call

/-! ## A run -/

/-- A run as far as it has come: whether compose loads an override now, whether
the trial's file is set, and the data it found. -/
structure Run where
  request : Request
  settle : Int
  poll : Int
  dir : Bytes
  trial : Bytes
  override : Bool
  trialFile : Bool
  data : List Mount
  steps : List Step
  phase : Phase
  deriving DecidableEq, Repr

/-- What a run returns: its outcome, and itself as it ended. -/
structure Report where
  outcome : Outcome
  run : Run
  deriving DecidableEq, Repr

namespace Run

/-- `step`. -/
def step (run : Run) (name : String) (ok : Bool) (detail : Bytes) : Run :=
  { run with steps := run.steps ++ [⟨name, ok, detail⟩] }

/-- The files compose is given now. -/
def files (run : Run) : Files := ⟨if run.override then some .pinFile else none, run.trialFile⟩

/-- `interrupted`. -/
def interrupted : Session Bool := ask .interrupted

/-- `serviceImage`: the image compose resolves for the service, with an override
standing in for the stack's own. -/
def serviceImage (run : Run) (override : Option OverrideFile) : Session Bytes := do
  let printed : Option Bytes ← ask (.config ⟨override, run.trialFile⟩)
  return printed.getD []

/-- `containerID`. -/
def isContainerId (id : Bytes) : Bool := 1 ≤ id.length ∧ id.length ≤ 128 ∧ id.all isNameByte

/-- `mountPath`. -/
def isMountPath : Bytes → Bool
  | 47 :: rest => rest.all fun byte => isNameByte byte || byte = 47 || byte = 64 || byte = 43
  | _ => false

/-- `volumeName`. -/
def isVolumeName : Bytes → Bool
  | first :: rest => isAlphanumeric first && rest.length ≤ 254 && rest.all isNameByte
  | [] => false

/-- `onlyContainer`: the one container compose runs for the service. -/
def onlyContainer (run : Run) : Session (Option Bytes) := do
  let printed : Option Bytes ← ask (.ps run.files)
  return (printed.map fun text => text.rdropWhile (· == 10)).filter isContainerId

/-- `dataPath`: where one mount lives on this machine. -/
def dataPath (kind : MountKind) (ref : Bytes) : Session Bytes :=
  match kind with
  | .volume => do
      let printed : Option Bytes ← ask (.volumeInspect ref)
      return (printed.map Bytes.trimSpace).getD []
  | .bind | .file => return ref

/-- The end of a round of `proves`: another reading, while the wait lasts. -/
def readAgain (run : Run) (deadline now : Int) (next : Session Bool) : Session Bool :=
  if ¬now < deadline then return false
  else do
    let slept : Bool ← ask (.sleep run.poll)
    if !slept then return false else next

/-- `proves`, from its first reading on. A run takes finitely many readings, `fuel`
of them here; one cut short is as one whose wait a signal ended. -/
def provesLoop (run : Run) (container : Bytes) (deadline : Int) :
    Nat → Int → Bytes → Bool → Session Bool
  | 0, _, _, _ => return false
  | fuel + 1, since, last, settling => do
      let printed : Option Bytes ← ask (.inspectState container)
      let now : Int ← ask .now
      let seen := (printed.map Bytes.trimSpace).getD (ascii "gone gone")
      let status := (cut 32 seen).1
      let health := (cut 32 (cut 32 seen).2.1).1
      let started := (cut 32 (cut 32 seen).2.1).2.1
      if status = ascii "running" ∧ (health = ascii "healthy" ∨ health = ascii "none") then
        if settling = true ∧ started = last then
          if run.settle ≤ now - since then return true
          else run.readAgain deadline now (provesLoop run container deadline fuel since last settling)
        else run.readAgain deadline now (provesLoop run container deadline fuel now started true)
      else if (status = ascii "running" ∧ health = ascii "starting") ∨ status = ascii "restarting" ∨
          status = ascii "created" then
        run.readAgain deadline now (provesLoop run container deadline fuel since last false)
      else return false

/-- `proves`: whether a container keeps running, healthy and not restarted, for the
settle time across at least two readings, within the wait. -/
def proves (run : Run) (fuel : Nat) (container : Bytes) : Session Bool := do
  let started : Int ← ask .now
  let since : Int ← ask .now
  provesLoop run container (started + run.request.wait) fuel since [] false

end Run

end SeverinoHQ.Host.Upgrade
