/-
# The steps of an upgrade, and how each is put back

Before the pin the service is started again as it was; after it the override is
restored, then the data, then the service is recreated. A signal is acted on
between steps, and an error is put back the way a signal would be, by how far
the run got.
-/

import SeverinoHQ.Host.Upgrade.Model

namespace SeverinoHQ.Host.Upgrade

open SeverinoHQ.Math
open SeverinoHQ.Math.Bytes (ascii cut cutPrefix isAlphanumeric isNameByte splitSeq)

namespace Run

/-! ## Ending a run -/

/-- A mount's copy for the trial, and the volume that holds it. -/
def trialVolume (run : Run) (mount : Mount) : Bytes :=
  run.trial ++ ascii ("-" ++ toString mount.index)

/-- The trial's volumes removed, whatever docker says. -/
def removeVolumes (run : Run) : List Mount → Session Unit
  | [] => return ()
  | mount :: mounts => do
      let _ ← ask (.volumeRemove (run.trialVolume mount))
      removeVolumes run mounts

/-- `cleanupTrial`. -/
def cleanupTrial (run : Run) : Session Run := do
  let _ ← ask (.removeContainer run.trial)
  run.removeVolumes run.data
  return { run with trialFile := false }

/-- `finish`: the result is recorded, and returned whether or not it could be. -/
def finish (run : Run) (outcome : Outcome) : Session Report := do
  let run ← run.cleanupTrial
  let error : Option FileError ← ask (.writeExit outcome.code)
  if error = none then
    let _ ← ask (.writeResult outcome run.steps)
    return ⟨outcome, run⟩
  else return ⟨outcome, run⟩

/-- `unchanged`: the stopped service started again as it was. -/
def unchanged (run : Run) : Session Report := do
  let run ← run.cleanupTrial
  let started : Bool ← ask (.start run.files)
  if started then
    (run.step "restart" true (ascii "the service is running again, unchanged")).finish .unchanged
  else (run.step "restart" false (ascii "the service could not be started again")).finish .failed

/-- The reason a mount was not put back. -/
def restoreFailure (mount : Mount) (error : FileError) : Bytes :=
  let data := "data-" ++ toString mount.index
  if error.symlink then
    ascii (data ++ " could not be restored: its path now leads through a symlink; its snapshot is " ++
      "kept in the state directory")
  else if error.noSpace then
    ascii ("the disk filled restoring " ++ data ++ "; its snapshot is kept in the state directory")
  else ascii (data ++ " could not be restored; its snapshot is kept in the state directory")

/-- A directory emptied, and filled from its snapshot. -/
def refill (mount : Mount) (target : Bytes) : Session (Option FileError) := do
  let emptied : Option FileError ← ask (.empty mount target)
  match emptied with
  | some error => return some error
  | none => ask (.tarBack mount target)

/-- One mount put back from its snapshot, at its place. -/
def restoreMount (mount : Mount) (target : Bytes) : Session (Option FileError) :=
  match mount.kind with
  | .file => ask (.copyBack mount target)
  | .bind => do
      let unmoved : Bool ← ask (.unmoved target)
      if !unmoved then return some ⟨false, true, ascii "too many levels of symbolic links"⟩
      else refill mount target
  | .volume => refill mount target

/-- The loop of `restoreData`. -/
def restoreMounts (run : Run) : List Mount → Session (Bool × Run)
  | [] => return (true, run.step "restore" true (ascii "the data is back"))
  | mount :: mounts => do
      let target ← dataPath mount.kind mount.ref
      if target = [] ∨ target = ascii "/" then
        return (false, run.step "restore" false
          (ascii ("data-" ++ toString mount.index ++ " has no mountpoint")))
      else
        match ← restoreMount mount target with
        | some error => return (false, run.step "restore" false (restoreFailure mount error))
        | none => run.restoreMounts mounts

/-- `restoreData`. -/
def restoreData (run : Run) : Session (Bool × Run) := run.restoreMounts run.data

/-- The override as it was before the pin: its copy renamed over it, or nothing
where there was none. -/
def restoreOverride (run : Run) : Session (Option FileError × Run) := do
  let present : Bool ← ask .presentBefore
  if present then
    let copied : Option FileError ← ask .copyRestored
    match copied with
    | some error => return (some error, run)
    | none =>
        let renamed : Option FileError ← ask .renameRestored
        match renamed with
        | some error => return (some error, run)
        | none =>
            let synced : Option FileError ← ask .syncDir
            return (synced, run)
  else
    let removed : Except FileError Bool ← ask .removeOverride
    match removed with
    | .error error => return (some error, { run with override := false })
    | .ok _ => return (none, { run with override := false })

/-- `rollBack`: the override exactly as it was, then the data, then recreate. -/
def rollBack (run : Run) : Session Report := do
  let (error, run) ← run.restoreOverride
  if error ≠ none then
    (run.step "rollback" false (ascii "the compose override could not be restored")).finish .failed
  else
    let _ ← ask (.stop run.files)
    let (restored, run) ← run.restoreData
    if !restored then run.finish .failed
    else
      let up : Bool ← ask (.up run.files)
      if up then
        (run.step "rollback" true (ascii "the previous image and data are back")).finish .rolledBack
      else
        (run.step "rollback" false
          (ascii "the previous image could not be started again")).finish .failed

/-- `stopped`: what a signal interrupted is put back, by how far the run got. -/
def stopped (run : Run) : Session Report :=
  match run.phase with
  | .checking => (run.step "stopped" false (ascii "stopped before anything changed")).finish .refused
  | .stopped => (run.step "stopped" false (ascii "stopped part way, before the pin")).unchanged
  | .pinned => (run.step "stopped" false (ascii "stopped part way, after the pin")).rollBack

/-- `fault`: what an error interrupted is put back the way a signal would be. -/
def fault (run : Run) (error : FileError) : Session Report :=
  match run.phase with
  | .checking => (run.step "error" false error.text).finish .refused
  | .stopped => (run.step "error" false error.text).unchanged
  | .pinned => (run.step "error" false error.text).rollBack

/-! ## Step 0: what runs today -/

/-- A mount added to the run's data. -/
def adding (run : Run) (kind : MountKind) (ref mounted : Bytes) : Run :=
  { run with data := run.data ++ [⟨run.data.length, kind, ref, mounted⟩] }

/-- Whether a path lies inside a directory. -/
def isInside (dir path : Bytes) : Bool :=
  match cutPrefix (path ++ ascii "/") (dir ++ ascii "/") with
  | none => false
  | some inside => inside != []

/-- The loop of `readData`. -/
def readMounts (run : Run) : List InspectedMount → Session (Bool × Run)
  | [] => return (true, run)
  | found :: rest =>
      let refused (reason : Bytes) : Session (Bool × Run) :=
        return (false, run.step "check" false reason)
      if found.type = [] ∨ !found.rw ∨ found.type = ascii "tmpfs" then run.readMounts rest
      else if !isMountPath found.destination then
        refused (ascii "a mount has an unreadable destination")
      else if found.type = ascii "volume" then
        if !isVolumeName found.name then refused (ascii "a volume has an unreadable name")
        else (run.adding .volume found.name found.destination).readMounts rest
      else if found.type = ascii "bind" then
        if !isMountPath found.source then refused (ascii "a mount has an unreadable source")
        else do
          let unmoved : Bool ← ask (.unmoved found.source)
          if !unmoved then
            refused (ascii "a mount at " ++ found.destination ++ ascii " is reached through a symlink")
          else
            let kind : SourceKind ← ask (.stat found.source)
            if kind = .other then run.readMounts rest
            else if 1 < (splitSeq (ascii "..") found.source).length then
              refused (ascii "a mount source climbs out")
            else if !isInside run.dir found.source then
              refused (ascii "a writable path outside the stack is mounted at " ++ found.destination)
            else
              (run.adding (if kind = .regular then .file else .bind) found.source
                found.destination).readMounts rest
      else refused (ascii "a mount of an unknown kind")

/-- `readData`: the container's writable mounts, volumes and paths inside the stack. -/
def readData (run : Run) (container : Bytes) : Session (Bool × Run) := do
  let inspected : Option (List InspectedMount) ← ask (.inspectMounts container)
  match inspected with
  | none => return (false, run.step "check" false (ascii "the container's mounts could not be read"))
  | some mounts => run.readMounts mounts

/-- What the pin is made of: the override's text and mode. -/
def readOverride (run : Run) : Session (Except FileError (Bytes × Nat)) :=
  if run.override then do
    let body : Except FileError Bytes ← ask .readOverride
    match body with
    | .error error => return .error error
    | .ok text =>
        let mode : Except FileError Nat ← ask .statOverride
        return mode.map fun mode => (text, mode)
  else return .ok ([], 0o644)

/-- `writePinned`: the override as it would be pinned, in the state directory; false
when it cannot be edited. -/
def writePinned (run : Run) : Session (Except FileError Bool) := do
  match ← run.readOverride with
  | .error error => return .error error
  | .ok (current, mode) =>
      match pin current run.request.service run.request.toImage with
      | none => return .ok false
      | some edited =>
          let written : Option FileError ← ask (.writePinned edited mode)
          match written with
          | some error => return .error error
          | none =>
              let changed : Option FileError ← ask (.chmodPinned mode)
              match changed with
              | some error => return .error error
              | none => return .ok true

/-! ## Steps 2 and 3: the snapshot and the trial -/

/-- Whether the path a mount is reached by is still the one that was checked, asked
of a directory that tar reaches by its path. -/
def isUnswapped (mount : Mount) (source : Bytes) : Session Bool :=
  if mount.kind = .bind then ask (.unmoved source) else return true

/-- A mount copied to its temporary name. -/
def copyPart (mount : Mount) (source : Bytes) : Session (Option FileError) :=
  if mount.kind = .file then ask (.copyToPart mount source) else ask (.tarToPart mount source)

/-- The copy renamed, where it is whole. -/
def keepPart (mount : Mount) (copied : Option FileError) : Session (Option FileError) :=
  if copied = none then ask (.keepSnapshot mount) else return copied

/-- `snapshot`: one mount copied into the state directory, whole or not at all. -/
def snapshot (mount : Mount) : Session Bool := do
  let source ← dataPath mount.kind mount.ref
  if source = [] ∨ source = ascii "/" then return false
  else
    let unswapped ← isUnswapped mount source
    if !unswapped then return false
    else
      let copied ← copyPart mount source
      let kept ← keepPart mount copied
      if kept = none then return true
      else
        let _ ← ask (.removePart mount)
        return false

/-- The mounts snapshotted in order, up to the first that could not be. -/
def snapshotMounts : List Mount → Session (Option Mount)
  | [] => return none
  | mount :: mounts => do
      if ← snapshot mount then snapshotMounts mounts else return some mount

/-- `copyForTrial`. -/
def copyForTrial (run : Run) (mount : Mount) : Session Bool :=
  match mount.kind with
  | .file => do
      let copied : Option FileError ← ask (.copyForTrial mount)
      return copied = none
  | .volume | .bind => do
      let created : Bool ← ask (.volumeCreate (run.trialVolume mount))
      if !created then return false
      else
        let target ← dataPath .volume (run.trialVolume mount)
        if target = [] then return false
        else
          let copied : Option FileError ← ask (.tarForTrial mount target)
          return copied = none

/-- The snapshots copied for the trial in order, up to the first that could not be. -/
def copyMounts (run : Run) : List Mount → Session (Option Mount)
  | [] => return none
  | mount :: mounts => do
      if ← run.copyForTrial mount then run.copyMounts mounts else return some mount

/-- The target run against the copies until it proves itself. -/
def tryTarget (run : Run) (fuel : Nat) : Session Bool := do
  let ran : Bool ← ask (.runTrial run.files)
  if ran then run.proves fuel run.trial else return false

/-- `runTrial`: how the run ended, where the service was put back, or the run as
the trial left it. -/
def runTrial (run : Run) (fuel : Nat) : Session (Report ⊕ Run) := do
  let written : Option FileError ← ask .writeTrial
  match written with
  | some error => return .inl (← run.fault error)
  | none =>
      let run := { run with trialFile := true }
      match ← run.copyMounts run.data with
      | some mount =>
          return .inl (← (run.step "trial" false
            (ascii ("data-" ++ toString mount.index ++
              " could not be copied for the trial"))).unchanged)
      | none =>
          if ← run.tryTarget fuel then
            return .inr (← (run.step "trial" true
              (ascii "proven on a copy of the data, with no network")).cleanupTrial)
          else if ← interrupted then return .inl (← run.stopped)
          else
            return .inl (← (run.step "trial" false
              (ascii "the target did not prove itself as the service would run it")).unchanged)

/-! ## The steps, last to first -/

/-- The container the recreated service runs. -/
def recreated (run : Run) (up : Bool) : Session (Option Bytes) :=
  if up then run.onlyContainer else return none

/-- Whether there is one container and it proves itself. -/
def provesOnly (run : Run) (fuel : Nat) : Option Bytes → Session Bool
  | some container => run.proves fuel container
  | none => return false

/-- Step 5: recreate, and verify; step 6: roll back. -/
def verifyStep (run : Run) (fuel : Nat) : Session Report := do
  let up : Bool ← ask (.up run.files)
  if ← interrupted then run.stopped
  else
    let upgraded ← run.recreated up
    if ← run.provesOnly fuel upgraded then
      (run.step "verify" true (ascii "running and proven")).finish .kept
    else if ← interrupted then run.stopped
    else (run.step "verify" false (ascii "the upgraded service did not prove itself")).rollBack

/-- What the pin step says: the override's name, and the tag where one was given. -/
def pinDetail (run : Run) (pinFile : Bytes) : Bytes :=
  if run.request.tag = [] then pinFile else pinFile ++ ascii ", " ++ run.request.tag

/-- The rest of step 4, once the pin is in place. -/
def pinnedStep (run : Run) (fuel : Nat) (pinFile : Bytes) : Session Report := do
  let image ← run.serviceImage (if run.override then some .pinFile else none)
  if image ≠ run.request.toImage then
    (run.step "pin" false (ascii "compose does not resolve the pin")).rollBack
  else
    let run := run.step "pin" true (run.pinDetail pinFile)
    if ← interrupted then run.stopped else run.verifyStep fuel

/-- The byte-exact copy of the override, where there is one. -/
def keepBefore (run : Run) : Session (Option FileError) :=
  if run.override then ask .copyBefore else return none

/-- Step 4: the pin put in the override, with a byte-exact copy kept of it. -/
def pinStep (run : Run) (fuel : Nat) (pinFile : Bytes) : Session Report := do
  let kept ← run.keepBefore
  match kept with
  | some error => run.fault error
  | none =>
      let owner : Except FileError Owner ← ask (.lstatOwner run.override)
      match owner with
      | .error error => run.fault error
      | .ok owner =>
          let staged : Option FileError ← ask (.copyStaged owner)
          match staged with
          | some error =>
              let _ ← ask .removeStaged
              run.fault error
          | none =>
              let run := { run with phase := .pinned }
              let renamed : Option FileError ← ask .renameStaged
              match renamed with
              | some error => run.fault error
              | none =>
                  let synced : Option FileError ← ask .syncDir
                  match synced with
                  | some error => run.fault error
                  | none => ({ run with override := true } : Run).pinnedStep fuel pinFile

/-- Step 3: the trial. -/
def trialStep (run : Run) (fuel : Nat) (pinFile : Bytes) : Session Report := do
  match ← run.runTrial fuel with
  | .inl report => return report
  | .inr run => if ← interrupted then run.stopped else run.pinStep fuel pinFile

/-- Step 2: stop, and snapshot each mount. -/
def stopStep (run : Run) (fuel : Nat) (pinFile : Bytes) : Session Report := do
  let run := { run with phase := .stopped }
  let stopped : Bool ← ask (.stop run.files)
  if !stopped then (run.step "stop" false (ascii "the service did not stop")).unchanged
  else
    match ← snapshotMounts run.data with
    | some mount =>
        (run.step "snapshot" false (ascii ("data-" ++ toString mount.index ++
          " could not be snapshotted; nothing changed"))).unchanged
    | none =>
        let run := run.step "snapshot" true (ascii (toString run.data.length ++ " data mount(s)"))
        if ← interrupted then run.stopped else run.trialStep fuel pinFile

/-- Step 1: pull by digest. -/
def pullStep (run : Run) (fuel : Nat) (pinFile : Bytes) : Session Report := do
  let pulled : Bool ← ask (.pull run.request.toImage)
  if !pulled then (run.step "pull" false run.request.toImage).finish .refused
  else
    let run := run.step "pull" true run.request.toImage
    if ← interrupted then run.stopped else run.stopStep fuel pinFile

/-- The rest of step 0: the pin is written and proved while the service still runs. -/
def pinCheck (run : Run) (fuel : Nat) (pinFile : Bytes) : Session Report := do
  match ← run.writePinned with
  | .error error => run.fault error
  | .ok false =>
      (run.step "check" false (ascii
        "the compose override is not block style YAML this can edit; nothing changed")).finish .refused
  | .ok true =>
      let image ← run.serviceImage (some .pinnedCopy)
      if image ≠ run.request.toImage then
        (run.step "check" false (ascii
          "compose would not resolve the pin from the override; nothing changed")).finish .refused
      else
        let run := run.step "check" true (run.request.service ++ ascii " runs " ++
          run.request.fromImage ++ ascii (", with " ++ toString run.data.length ++ " data mount(s)"))
        if ← interrupted then run.stopped else run.pullStep fuel pinFile

/-- `execute`: steps 0 to 6, each with as many readings of a container as `fuel`. -/
def execute (run : Run) (fuel : Nat) (pinFile : Bytes) : Session Report := do
  let image ← run.serviceImage (if run.override then some .pinFile else none)
  if image ≠ run.request.fromImage then
    (run.step "check" false (ascii "compose does not resolve " ++ run.request.service ++
      ascii " to " ++ run.request.fromImage)).finish .refused
  else
    match ← run.onlyContainer with
    | none =>
        (run.step "check" false (run.request.service ++
          ascii " is not exactly one running container")).finish .refused
    | some live =>
        let running : Bytes ← ask (.inspectImage live)
        if Bytes.trimSpace running ≠ run.request.fromImage then
          (run.step "check" false (ascii "the running container is not " ++
            run.request.fromImage)).finish .refused
        else
          let (read, run) ← run.readData live
          if !read then run.finish .refused else run.pinCheck fuel pinFile

end Run

end SeverinoHQ.Host.Upgrade
