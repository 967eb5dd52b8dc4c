/-
# Putting an upgrade back

Most calls leave the override, its copy and the service's state alone, and a run
that ends adds none that does not. What is left is the service started again, and
the roll back: the override from its copy, then each mount from its snapshot, then
the service recreated.
-/

import SeverinoHQ.Host.Upgrade.Machine
import SeverinoHQ.Host.Upgrade.Readings

namespace SeverinoHQ.Host.Upgrade

open SeverinoHQ.Math SeverinoHQ.Math.Dialogue
open SeverinoHQ.Math.Bytes (ascii cut)

/-! ## The calls that change nothing an outcome speaks of -/

/-- A program that makes calm calls alone. -/
abbrev Calm {α : Type} (program : Session α) : Prop := program.Only fun call => call.isCalm = true

theorem calm_ask {call : Call} (h : call.isCalm = true) : Calm (ask call) := (only_call call).mpr h

/-- A program that makes calm calls, and finds out what a container's mounts hold. -/
abbrev Reads {α : Type} (program : Session α) : Prop :=
  program.Only fun call => (call.isCalm || call.inspects) = true

theorem Calm.reads {α : Type} {program : Session α} (h : Calm program) : Reads program :=
  h.mono fun _ hcalm => by rw [hcalm, Bool.true_or]

namespace Run

variable (run : Run)

theorem removeVolumes_calm (mounts : List Mount) : Calm (run.removeVolumes mounts) := by
  induction mounts with
  | nil => exact only_pure _
  | cons mount mounts ih => exact Only.bind (calm_ask rfl) fun _ => ih

theorem cleanupTrial_calm : Calm run.cleanupTrial :=
  Only.bind (calm_ask rfl) fun _ =>
    Only.bind (run.removeVolumes_calm run.data) fun _ => only_pure _

theorem interrupted_calm : Calm interrupted := calm_ask rfl

theorem serviceImage_calm (override : Option OverrideFile) : Calm (run.serviceImage override) :=
  Only.bind (calm_ask rfl) fun _ => only_pure _

theorem onlyContainer_calm : Calm run.onlyContainer :=
  Only.bind (calm_ask rfl) fun _ => only_pure _

theorem dataPath_calm (kind : MountKind) (ref : Bytes) : Calm (dataPath kind ref) := by
  cases kind with
  | volume => exact Only.bind (calm_ask rfl) fun _ => only_pure _
  | bind => exact only_pure _
  | file => exact only_pure _

theorem readAgain_calm {deadline now : Int} {next : Session Bool} (h : Calm next) :
    Calm (run.readAgain deadline now next) := by
  unfold readAgain
  split
  · exact only_pure _
  · refine Only.bind (calm_ask rfl) fun slept => ?_
    split
    · exact only_pure _
    · exact h

theorem provesLoop_calm (container : Bytes) (deadline : Int) (fuel : Nat) (since : Int)
    (last : Bytes) (settling : Bool) :
    Calm (run.provesLoop container deadline fuel since last settling) := by
  induction fuel generalizing since last settling with
  | zero => exact only_pure _
  | succ fuel ih =>
      refine Only.bind (calm_ask rfl) fun printed =>
        Only.bind (calm_ask rfl) fun now => ?_
      dsimp only
      split
      · split
        · split
          · exact only_pure _
          · exact run.readAgain_calm (ih _ _ _)
        · exact run.readAgain_calm (ih _ _ _)
      · split
        · exact run.readAgain_calm (ih _ _ _)
        · exact only_pure _

theorem proves_calm (fuel : Nat) (container : Bytes) : Calm (run.proves fuel container) :=
  Only.bind (calm_ask rfl) fun _ => Only.bind (calm_ask rfl) fun _ =>
    run.provesLoop_calm container _ fuel _ _ _

theorem refill_calm (mount : Mount) (target : Bytes) : Calm (refill mount target) := by
  refine Only.bind (calm_ask rfl) fun emptied => ?_
  split
  · exact only_pure _
  · exact calm_ask rfl

theorem restoreMount_calm (mount : Mount) (target : Bytes) : Calm (restoreMount mount target) := by
  unfold restoreMount
  split
  · exact calm_ask rfl
  · refine Only.bind (calm_ask rfl) fun unmoved => ?_
    split
    · exact only_pure _
    · exact refill_calm mount target
  · exact refill_calm mount target

theorem restoreMounts_calm (mounts : List Mount) : Calm (run.restoreMounts mounts) := by
  induction mounts generalizing run with
  | nil => exact only_pure _
  | cons mount mounts ih =>
      refine Only.bind (dataPath_calm _ _) fun target => ?_
      split
      · exact only_pure _
      · refine Only.bind (restoreMount_calm _ _) fun error => ?_
        split
        · exact only_pure _
        · exact ih run

/-- Reading the mounts looks at paths alone. -/
theorem readMounts_looks (mounts : List InspectedMount) :
    (run.readMounts mounts).Only fun call => call.looks = true := by
  induction mounts generalizing run with
  | nil => exact only_pure _
  | cons found mounts ih =>
      apply Only.ite (ih run)
      apply Only.ite (only_pure _)
      apply Only.ite
      · exact Only.ite (only_pure _) (ih _)
      · apply Only.ite
        · apply Only.ite (only_pure _)
          refine Only.bind ((only_call _).mpr rfl) fun unmoved => ?_
          apply Only.ite (only_pure _)
          refine Only.bind ((only_call _).mpr rfl) fun kind => ?_
          apply Only.ite (ih run)
          apply Only.ite (only_pure _)
          exact Only.ite (only_pure _) (ih _)
        · exact only_pure _

theorem readData_reads (container : Bytes) : Reads (run.readData container) := by
  refine Only.bind ((only_call _).mpr rfl) fun inspected => ?_
  split
  · exact only_pure _
  · refine (run.readMounts_looks _).mono fun call hlooks => ?_
    cases call with
    | unmoved | stat => rfl
    | _ => exact absurd hlooks (by simp [Call.looks])

theorem writePinned_calm : Calm run.writePinned := by
  refine Only.bind ?_ fun current => ?_
  · unfold readOverride
    split
    · refine Only.bind (calm_ask rfl) fun body => ?_
      split
      · exact only_pure _
      · exact Only.bind (calm_ask rfl) fun _ => only_pure _
    · exact only_pure _
  · split
    · exact only_pure _
    · split
      · exact only_pure _
      · refine Only.bind (calm_ask rfl) fun written => ?_
        split
        · exact only_pure _
        · refine Only.bind (calm_ask rfl) fun changed => ?_
          split
          · exact only_pure _
          · exact only_pure _

theorem copyMounts_calm (mounts : List Mount) : Calm (run.copyMounts mounts) := by
  induction mounts with
  | nil => exact only_pure _
  | cons mount mounts ih =>
      refine Only.bind ?_ fun copied => ?_
      · have hvolume : Calm (do
            let created : Bool ← ask (.volumeCreate (run.trialVolume mount))
            if !created then return false
            else
              let target ← dataPath .volume (run.trialVolume mount)
              if target = [] then return false
              else
                let copied : Option FileError ← ask (.tarForTrial mount target)
                return copied = none) := by
          refine Only.bind (calm_ask rfl) fun created => ?_
          split
          · exact only_pure _
          · refine Only.bind (dataPath_calm _ _) fun target => ?_
            split
            · exact only_pure _
            · exact Only.bind (calm_ask rfl) fun _ => only_pure _
        unfold copyForTrial
        split
        · exact Only.bind (calm_ask rfl) fun _ => only_pure _
        · exact hvolume
        · exact hvolume
      · split
        · exact ih
        · exact only_pure _

theorem tryTarget_calm (fuel : Nat) : Calm (run.tryTarget fuel) := by
  refine Only.bind (calm_ask rfl) fun ran => ?_
  split
  · exact run.proves_calm fuel run.trial
  · exact only_pure _

theorem recreated_calm (up : Bool) : Calm (run.recreated up) := by
  unfold recreated
  split
  · exact run.onlyContainer_calm
  · exact only_pure _

theorem provesOnly_calm (fuel : Nat) (found : Option Bytes) : Calm (run.provesOnly fuel found) := by
  cases found with
  | none => exact only_pure _
  | some container => exact run.proves_calm fuel container

end Run

/-- The service was asked to stop. -/
def Stops (exchanges : Exchanges) : Prop := ∃ files stopped, ⟨.stop files, stopped⟩ ∈ exchanges

/-- Exchanges of calm calls, and of such as find out what mounts hold. -/
def Quiet (exchanges : Exchanges) : Prop :=
  ∀ exchange ∈ exchanges, (exchange.1.isCalm || exchange.1.inspects) = true

variable {κ : Type} {resolve : Option File → Bytes} {mountpoint : Bytes → Bytes} {blank : κ}
  {host : Machine κ}

/-- A program of such calls keeps the override, its copy, the snapshots and the
service's state. -/
theorem Reads.keeps {α : Type} {program : Session α} (h : Reads program) :
    Always (World resolve mountpoint blank) program host fun exchanges _ final =>
      Keeps host final ∧ Quiet exchanges :=
  (Only.keeps h Keeps.refl (fun _ _ _ => Keeps.trans) fun _ _ _ => World.keeps).and h.exchanges

theorem Calm.keeps {α : Type} {program : Session α} (h : Calm program) :
    Always (World resolve mountpoint blank) program host fun exchanges _ final =>
      Keeps host final ∧ Quiet exchanges := h.reads.keeps

namespace Run

variable (run : Run)

/-! ## Ending a run -/

theorem cleanupTrial_result {σ : Type} {world : σ → Exchange Call Reply → σ → Prop} {state : σ} :
    Always world run.cleanupTrial state fun _ ended _ => ended = { run with trialFile := false } := by
  unfold cleanupTrial
  rw [always_bind, always_call]
  intro _ after _
  rw [always_bind]
  exact fun _ _ _ _ => always_pure.mpr rfl

theorem removeVolumes_idle (mounts : List Mount) :
    (run.removeVolumes mounts).Only fun call => call.isIdle = true := by
  induction mounts with
  | nil => exact only_pure _
  | cons mount mounts ih => exact Only.bind ((only_call _).mpr rfl) fun _ => ih

theorem finish_idle (outcome : Outcome) :
    (run.finish outcome).Only fun call => call.isIdle = true := by
  refine Only.bind ?_ fun ended => Only.bind ((only_call _).mpr rfl) fun error => ?_
  · exact Only.bind ((only_call _).mpr rfl) fun _ =>
      Only.bind (run.removeVolumes_idle run.data) fun _ => only_pure _
  · split
    · exact Only.bind ((only_call _).mpr rfl) fun _ => only_pure _
    · exact only_pure _

/-- A run that ends returns its outcome, and leaves the machine as it was but for
what the service writes. -/
theorem finish_spec (outcome : Outcome) :
    Always (World resolve mountpoint blank) (run.finish outcome) host fun exchanges report final =>
      Rests host final ∧ ¬Stops exchanges ∧
        report = ⟨outcome, { run with trialFile := false }⟩ := by
  have hrests : Always (World resolve mountpoint blank) (run.finish outcome) host fun _ _ final =>
      Rests host final :=
    Only.keeps (run.finish_idle outcome) (fun _ => rfl)
      (fun first second third h h' => by rw [h', h]; rfl) fun _ _ _ => World.rests
  have hreport : Always (World resolve mountpoint blank) (run.finish outcome) host fun _ report _ =>
      report = ⟨outcome, { run with trialFile := false }⟩ := by
    unfold finish
    rw [always_bind]
    refine run.cleanupTrial_result.mono fun _ ended _ hended => ?_
    rw [always_bind, always_call]
    intro error after _
    subst hended
    split
    · rw [always_bind, always_call]
      intro _ _ _
      exact always_pure.mpr rfl
    · exact always_pure.mpr rfl
  refine hrests.and (Always.and (Always.mono (run.finish_idle outcome).exchanges ?_) hreport)
  rintro exchanges _ _ hidle ⟨files, stopped, hmem⟩
  exact absurd (hidle _ hmem) (by simp [Call.isIdle])

theorem finish_outcome (outcome : Outcome) :
    Always (World resolve mountpoint blank) (run.finish outcome) host fun _ report _ =>
      report.outcome = outcome := by
  refine (run.finish_spec outcome).mono fun _ report _ hfinish => ?_
  rw [hfinish.2.2]

/-- A service started again is as it was, or could not be started. -/
theorem unchanged_spec :
    Always (World resolve mountpoint blank) run.unchanged host fun _ report final =>
      final.override = host.override ∧
        (report.outcome = .unchanged ∧ final.running = true ∨ report.outcome = .failed) := by
  unfold unchanged
  rw [always_bind]
  refine (run.cleanupTrial_calm.keeps).mono fun _ ended cleaned hcleaned => ?_
  rw [always_bind, always_call]
  rintro started after ⟨drifted, hdrift, running, rfl, hstarted⟩
  have hoverride : drifted.override = host.override :=
    hdrift.keeps.override.trans hcleaned.1.override
  split
  · next hup =>
      refine (finish_spec _ _).mono fun _ report final hfinish => ?_
      obtain ⟨hrests, -, rfl⟩ := hfinish
      rw [hrests]
      exact ⟨hoverride, Or.inl ⟨rfl, hstarted hup⟩⟩
  · refine (finish_spec _ _).mono fun _ report final hfinish => ?_
    obtain ⟨hrests, -, rfl⟩ := hfinish
    rw [hrests]
    exact ⟨hoverride, Or.inr rfl⟩

/-! ## Rolling back -/

/-- Where an override was copied before the pin, its copy is put back; where there
was none, there is none again. The service and the snapshots are left alone. -/
theorem restoreOverride_spec {kept : Option File} (hbefore : host.before = kept) :
    Always (World resolve mountpoint blank) run.restoreOverride host fun _ restored final =>
      (restored.1 = none → final.override = kept) ∧ restored.2.data = run.data ∧
        final.running = host.running ∧ final.snapshots = host.snapshots := by
  unfold restoreOverride
  rw [always_bind, always_call]
  rintro present after ⟨drifted, hdrift, rfl, hpresent⟩
  have hkept : after.before = kept := hdrift.keeps.before.trans hbefore
  have hrunning : after.running = host.running := hdrift.keeps.running
  have hsnapshots : after.snapshots = host.snapshots := hdrift.keeps.snapshots
  split
  · rw [always_bind, always_call]
    rintro copied copy ⟨drifted, hdrift, restoring, rfl, hcopied⟩
    have hrunning : drifted.running = host.running := hdrift.keeps.running.trans hrunning
    have hsnapshots : drifted.snapshots = host.snapshots := hdrift.keeps.snapshots.trans hsnapshots
    split
    · exact always_pure.mpr ⟨nofun, rfl, hrunning, hsnapshots⟩
    · rw [always_bind, always_call]
      rintro renamed placed ⟨between, hbetween, hfailed, hrenamed⟩
      have hrunning : between.running = host.running := hbetween.keeps.running.trans hrunning
      have hsnapshots : between.snapshots = host.snapshots :=
        hbetween.keeps.snapshots.trans hsnapshots
      split
      · rw [hfailed (by simp)]
        exact always_pure.mpr ⟨nofun, rfl, hrunning, hsnapshots⟩
      · obtain ⟨-, rfl⟩ := hrenamed rfl
        rw [always_bind, always_call]
        rintro synced final ⟨last, hlast, rfl⟩
        rw [always_pure]
        refine ⟨fun _ => ?_, rfl, hlast.keeps.running.trans hrunning,
          hlast.keeps.snapshots.trans hsnapshots⟩
        rw [hlast.keeps.override]
        show between.restoring = kept
        rw [hbetween.1, (hcopied rfl).1, hdrift.keeps.before, hkept]
  · next habsent =>
      rw [always_bind, always_call]
      rintro removed final ⟨last, hlast, hfailed, hremoved⟩
      have hrunning : last.running = host.running := hlast.keeps.running.trans hrunning
      have hsnapshots : last.snapshots = host.snapshots := hlast.keeps.snapshots.trans hsnapshots
      split
      · next error =>
          rw [hfailed error rfl]
          exact always_pure.mpr ⟨nofun, rfl, hrunning, hsnapshots⟩
      · next present =>
          obtain ⟨-, rfl⟩ := hremoved present rfl
          rw [always_pure]
          refine ⟨fun _ => ?_, rfl, hrunning, hsnapshots⟩
          show none = kept
          rw [hpresent, hkept] at habsent
          cases kept with
          | none => rfl
          | some file => exact absurd rfl habsent

end Run

/-! ## Where a mount is -/

/-- With the service stopped, finding a mount changes nothing, and finds its place. -/
theorem dataPath_spec (hstopped : host.running = false) (mount : Mount) :
    Always (World resolve mountpoint blank) (Run.dataPath mount.kind mount.ref) host
      fun _ target final => final = host ∧ (target ≠ [] → target = mount.place mountpoint) := by
  unfold Mount.place
  cases mount.kind with
  | volume =>
      unfold Run.dataPath
      rw [always_bind, always_call]
      rintro printed after ⟨drifted, hdrift, rfl, hprinted⟩
      refine always_pure.mpr ⟨hdrift.eq_of_stopped hstopped, fun htarget => ?_⟩
      cases printed with
      | none => exact absurd rfl htarget
      | some path => exact hprinted path rfl
  | bind => exact always_pure.mpr ⟨rfl, fun _ => rfl⟩
  | file => exact always_pure.mpr ⟨rfl, fun _ => rfl⟩

/-- With the service stopped, asking whether a path is unmoved changes nothing. -/
theorem unmoved_spec (hstopped : host.running = false) (path : Bytes) :
    Always (World resolve mountpoint blank) (ask (.unmoved path)) host fun _ _ final =>
      final = host := by
  rw [always_call]
  rintro unmoved after ⟨drifted, hdrift, rfl⟩
  exact hdrift.eq_of_stopped hstopped

/-! ## Taking the snapshots -/

/-- With the service stopped, only these mounts' copies have been written since. -/
structure Snapping (mounts : List Mount) (host next : Machine κ) : Prop where
  rest : next = { host with parts := next.parts, snapshots := next.snapshots }
  others : ∀ index, index ∉ mounts.map Mount.index → next.snapshots index = host.snapshots index

theorem Snapping.refl (mounts : List Mount) : Snapping mounts host host := ⟨rfl, fun _ _ => rfl⟩

theorem Snapping.trans {first second : List Mount} {between final : Machine κ}
    (h : Snapping first host between) (h' : Snapping second between final) :
    Snapping (first ++ second) host final where
  rest := by rw [h'.rest, h.rest]
  others index hindex := by
    rw [List.map_append, List.mem_append, not_or] at hindex
    exact (h'.others index hindex.2).trans (h.others index hindex.1)

theorem Snapping.running {mounts : List Mount} {next : Machine κ} (h : Snapping mounts host next) :
    next.running = host.running := by rw [h.rest]

theorem Snapping.data {mounts : List Mount} {next : Machine κ} (h : Snapping mounts host next) :
    next.data = host.data := by rw [h.rest]

/-- Each mount's snapshot is of its own place, as `taken` has it. -/
def Snapshotted (mountpoint : Bytes → Bytes) (taken : Bytes → κ) (mounts : List Mount)
    (host : Machine κ) : Prop :=
  ∀ mount ∈ mounts, host.snapshots mount.index =
    some ⟨mount.place mountpoint, taken (mount.place mountpoint)⟩

namespace Run

theorem isUnswapped_spec (hstopped : host.running = false) (mount : Mount) (source : Bytes) :
    Always (World resolve mountpoint blank) (isUnswapped mount source) host fun _ _ final =>
      final = host := by
  unfold isUnswapped
  split
  · exact unmoved_spec hstopped source
  · exact always_pure.mpr rfl

theorem copyPart_spec (hstopped : host.running = false) (mount : Mount) (source : Bytes) :
    Always (World resolve mountpoint blank) (copyPart mount source) host fun _ copied final =>
      ∃ part, final = host.writePart mount part ∧
        (copied = none → part = some ⟨source, host.data source⟩) := by
  unfold copyPart
  split <;> rw [always_call] <;> rintro copied final ⟨drifted, hdrift, hpart⟩ <;>
    obtain rfl := hdrift.eq_of_stopped hstopped <;> exact hpart

/-- The copy is kept as it was taken, where it was. -/
theorem keepPart_spec (hstopped : host.running = false) (mount : Mount)
    (copied : Option FileError) :
    Always (World resolve mountpoint blank) (keepPart mount copied) host fun _ kept final =>
      Snapping [mount] host final ∧ (kept = none →
        copied = none ∧ final.snapshots mount.index = host.parts mount.index) := by
  unfold keepPart
  split
  · next hcopied =>
      rw [always_call]
      rintro kept final ⟨drifted, hdrift, hfailed, hkept⟩
      obtain rfl := hdrift.eq_of_stopped hstopped
      by_cases hnone : kept = none
      · obtain ⟨copy, hcopy, rfl⟩ := hkept hnone
        refine ⟨⟨rfl, fun index hindex => ?_⟩, fun _ => ⟨hcopied, ?_⟩⟩
        · rw [List.map_singleton, List.mem_singleton] at hindex
          exact Function.update_of_ne hindex _ _
        · exact (Function.update_self _ _ _).trans hcopy.symm
      · rw [hfailed hnone]
        exact ⟨Snapping.refl _, fun hkept => absurd hkept hnone⟩
  · next hcopied =>
      exact always_pure.mpr ⟨Snapping.refl _, fun hnone => absurd hnone hcopied⟩

/-- A snapshot taken while the service is stopped is the mount's data, at its place. -/
theorem snapshot_takes (hstopped : host.running = false) (mount : Mount) :
    Always (World resolve mountpoint blank) (snapshot mount) host fun _ taken final =>
      Snapping [mount] host final ∧
        (taken = true → Snapshotted mountpoint host.data [mount] final) := by
  unfold snapshot
  rw [always_bind]
  refine (dataPath_spec hstopped mount).mono fun _ source after hafter => ?_
  obtain ⟨rfl, hsource⟩ := hafter
  split
  · exact always_pure.mpr ⟨Snapping.refl _, nofun⟩
  · next hplaced =>
      have hplace : source = mount.place mountpoint := hsource (not_or.mp hplaced).1
      rw [always_bind]
      refine (isUnswapped_spec hstopped mount source).mono fun _ unswapped same hsame => ?_
      subst hsame
      split
      · exact always_pure.mpr ⟨Snapping.refl _, nofun⟩
      · rw [always_bind]
        refine (copyPart_spec hstopped mount source).mono fun _ copied copy hcopied => ?_
        obtain ⟨part, rfl, hpart⟩ := hcopied
        rw [always_bind]
        have hhalted : (same.writePart mount part).running = false := hstopped
        refine (keepPart_spec hhalted mount copied).mono ?_
        rintro _ kept final ⟨hsnapping, hkept⟩
        have hwhole : Snapping [mount] same final :=
          ⟨by rw [hsnapping.rest]; rfl, hsnapping.others⟩
        split
        · next hnone =>
            refine always_pure.mpr ⟨hwhole, fun _ other hother => ?_⟩
            obtain rfl := List.mem_singleton.mp hother
            obtain ⟨hcopied, hsnapshot⟩ := hkept hnone
            rw [hsnapshot, ← hplace]
            exact (Function.update_self _ _ _).trans (hpart hcopied)
        · rw [always_bind, always_call]
          rintro _ removed ⟨drifted, hdrift, left, rfl⟩
          obtain rfl := hdrift.eq_of_stopped (hwhole.running.trans hstopped)
          refine always_pure.mpr ⟨⟨?_, hwhole.others⟩, nofun⟩
          rw [Machine.writePart, hwhole.rest]

/-- Snapshots taken in order while the service is stopped are all of the data it left. -/
theorem snapshotMounts_takes (hstopped : host.running = false) {mounts : List Mount}
    (hnodup : (mounts.map Mount.index).Nodup) :
    Always (World resolve mountpoint blank) (snapshotMounts mounts) host fun _ untaken final =>
      Snapping mounts host final ∧
        (untaken = none → Snapshotted mountpoint host.data mounts final) := by
  induction mounts generalizing host with
  | nil => exact always_pure.mpr ⟨Snapping.refl _, nofun⟩
  | cons mount mounts ih =>
      rw [List.map_cons, List.nodup_cons] at hnodup
      unfold snapshotMounts
      rw [always_bind]
      refine (snapshot_takes hstopped mount).mono fun _ taken between hbetween => ?_
      obtain ⟨hsnapping, htaken⟩ := hbetween
      split
      · next hok =>
          refine (ih (hsnapping.running.trans hstopped) hnodup.2).mono ?_
          rintro _ untaken final ⟨hrest, hall⟩
          refine ⟨hsnapping.trans hrest, fun hnone other hother => ?_⟩
          rcases List.mem_cons.mp hother with rfl | hmem
          · rw [hrest.others _ hnodup.1]
            exact htaken hok other (List.mem_singleton_self other)
          · rw [← hsnapping.data]
            exact hall hnone other hmem
      · refine always_pure.mpr ⟨hsnapping.trans (Snapping.refl mounts), nofun⟩

/-! ## Putting the data back -/

theorem refill_fills (hstopped : host.running = false) {mount : Mount} {copy : Copy κ}
    (hcopy : host.snapshots mount.index = some copy) (target : Bytes) :
    Always (World resolve mountpoint blank) (refill mount target) host fun _ error final =>
      error = none → final.data = Function.update host.data target copy.contents := by
  unfold refill
  rw [always_bind, always_call]
  rintro emptied after ⟨drifted, hdrift, contents, rfl, hempty⟩
  obtain rfl := hdrift.eq_of_stopped hstopped
  split
  · exact always_pure.mpr nofun
  · rw [always_call]
    rintro filled final ⟨between, hbetween, filling, rfl, hfill⟩ hnone
    obtain rfl := hbetween.eq_of_stopped hstopped
    have hblank : (drifted.write target contents).data target = blank := by
      rw [hempty rfl]
      exact Function.update_self _ _ _
    obtain ⟨found, hfound, rfl⟩ := hfill hnone hblank
    obtain rfl : copy = found := Option.some.inj (hcopy.symm.trans hfound)
    exact Function.update_idem _ _ _

/-- A mount put back while the service is stopped holds its copy. -/
theorem restoreMount_fills (hstopped : host.running = false) {mount : Mount} {copy : Copy κ}
    (hcopy : host.snapshots mount.index = some copy) (target : Bytes) :
    Always (World resolve mountpoint blank) (restoreMount mount target) host fun _ error final =>
      error = none → final.data = Function.update host.data target copy.contents := by
  unfold restoreMount
  split
  · rw [always_call]
    rintro copied final ⟨drifted, hdrift, contents, rfl, hcopied⟩ hnone
    obtain rfl := hdrift.eq_of_stopped hstopped
    obtain ⟨found, hfound, rfl⟩ := hcopied hnone
    obtain rfl : copy = found := Option.some.inj (hcopy.symm.trans hfound)
    rfl
  · rw [always_bind]
    refine (unmoved_spec hstopped target).mono fun _ unmoved after hafter => ?_
    subst hafter
    split
    · exact always_pure.mpr nofun
    · exact refill_fills hstopped hcopy target
  · exact refill_fills hstopped hcopy target

/-- Data put back while the service is stopped is as it was taken: at each mount's
place, and wherever it already was. -/
theorem restoreMounts_fills (run : Run) {taken : Bytes → κ} {mounts : List Mount}
    (hstopped : host.running = false) (htaken : Snapshotted mountpoint taken mounts host) :
    Always (World resolve mountpoint blank) (run.restoreMounts mounts) host fun _ restored final =>
      restored.1 = true → ∀ path,
        path ∈ mounts.map (Mount.place mountpoint) ∨ host.data path = taken path →
          final.data path = taken path := by
  induction mounts generalizing host with
  | nil => exact always_pure.mpr fun _ path hpath => hpath.resolve_left (List.not_mem_nil)
  | cons mount mounts ih =>
      have hcopy := htaken mount (List.mem_cons_self ..)
      unfold restoreMounts
      rw [always_bind]
      refine (dataPath_spec hstopped mount).mono fun _ target after hafter => ?_
      obtain ⟨rfl, htarget⟩ := hafter
      split
      · exact always_pure.mpr nofun
      · next hplaced =>
          obtain rfl := htarget (not_or.mp hplaced).1
          rw [always_bind]
          refine ((restoreMount_calm mount _).keeps.and
            (restoreMount_fills hstopped hcopy _)).mono ?_
          rintro _ error between ⟨⟨hkeeps, -⟩, hdata⟩
          split
          · exact always_pure.mpr nofun
          · have htaken' : Snapshotted mountpoint taken mounts between := fun other hother => by
              rw [hkeeps.snapshots]
              exact htaken other (List.mem_cons_of_mem _ hother)
            refine (ih (hkeeps.running.trans hstopped) htaken').mono fun _ restored final hrest => ?_
            intro hrestored path hpath
            refine hrest hrestored path ?_
            rw [hdata rfl]
            by_cases hsame : path = mount.place mountpoint
            · rw [hsame, Function.update_self]
              exact Or.inr rfl
            · rw [Function.update_of_ne hsame]
              rw [List.map_cons, List.mem_cons, or_assoc] at hpath
              exact hpath.resolve_left hsame

end Run

/-- Once the service was recreated, it stops whenever it is asked to. -/
def Halts (recreated : Prop) (exchanges : Exchanges) : Prop :=
  ∀ earlier files stopped later, exchanges = earlier ++ ⟨.stop files, stopped⟩ :: later →
    (recreated ∨ ∃ files up, ⟨.up files, up⟩ ∈ earlier) → stopped = true

/-- The service was last recreated on each mount's snapshot. -/
def Restored (mountpoint : Bytes → Bytes) (mounts : List Mount) (final : Machine κ) : Prop :=
  ∃ found, final.recreated = some found ∧ ∀ mount ∈ mounts, final.snapshots mount.index =
    some ⟨mount.place mountpoint, found (mount.place mountpoint)⟩

namespace Run

variable (run : Run)

/-- A run that rolls back, from a machine whose copy is the override as it was and
whose service, unless it was recreated, is stopped. -/
theorem rollBack_spec {initial : Option File} {recreated : Prop} {taken : Bytes → κ}
    (hbefore : host.before = initial) (htaken : Snapshotted mountpoint taken run.data host)
    (hstopped : ¬recreated → host.running = false) :
    Always (World resolve mountpoint blank) run.rollBack host fun exchanges report final =>
      report.outcome = .rolledBack ∧ final.override = initial ∧
          (Halts recreated exchanges → Restored mountpoint run.data final) ∨
        report.outcome = .failed := by
  unfold rollBack
  rw [always_bind]
  refine (run.restoreOverride_spec hbefore).mono fun first restored after hafter => ?_
  obtain ⟨error, run'⟩ := restored
  obtain ⟨hoverride, hdata, hrunning, hsnapshots⟩ := hafter
  dsimp only at hoverride hdata ⊢
  split
  · exact (finish_outcome _ _).mono fun _ _ _ hended => Or.inr hended
  · next herror =>
      rw [always_bind, always_call]
      intro stopped halted hhalted
      obtain ⟨hkept, -, hcopies⟩ := World.override_eq (Or.inl ⟨_, rfl⟩) hhalted
      have htaken' : Snapshotted mountpoint taken run'.data halted := fun mount hmount => by
        rw [hcopies, hsnapshots]
        exact htaken mount (hdata ▸ hmount)
      rw [always_bind]
      have hfills : Always (World resolve mountpoint blank) run'.restoreData halted
          fun _ back final => halted.running = false → back.1 = true →
            ∀ mount ∈ run'.data, final.data (mount.place mountpoint) =
              taken (mount.place mountpoint) := by
        intro _ back final hruns hidle hback mount hmount
        exact run'.restoreMounts_fills hidle htaken' _ _ _ hruns hback _
          (Or.inl (List.mem_map_of_mem hmount))
      refine ((run'.restoreMounts_calm _).keeps.and hfills).mono fun second back between hback => ?_
      obtain ⟨restored, run''⟩ := back
      obtain ⟨⟨hkeeps, -⟩, hrestored⟩ := hback
      dsimp only at hrestored ⊢
      split
      · exact (finish_outcome _ _).mono fun _ _ _ hended => Or.inr hended
      · next hok =>
          rw [always_bind, always_call]
          intro up raised hup
          have hplaced : between.override = initial :=
            (hkeeps.override.trans hkept).trans (hoverride (not_not.mp herror))
          obtain ⟨hsame, -, hcopied⟩ := World.override_eq (Or.inr ⟨_, rfl⟩) hup
          obtain ⟨drifted, hdrift, running, rfl, -⟩ := hup
          split
          · refine (finish_spec _ _).mono fun third report final hfinish => Or.inl ?_
            obtain ⟨hrests, -, rfl⟩ := hfinish
            rw [hrests]
            refine ⟨rfl, hsame.trans hplaced, fun hhalts => ?_⟩
            -- The service stands still from the stop on: it was stopped before, or the
            -- stop was done.
            have hidle : halted.running = false := by
              apply hhalted.stopped
              by_cases hraised : recreated
              · exact Or.inr (hhalts first _ stopped _ rfl (Or.inl hraised))
              · exact Or.inl (hrunning.trans (hstopped hraised))
            obtain rfl := hdrift.eq_of_stopped (hkeeps.running.trans hidle)
            refine ⟨drifted.data, rfl, fun mount hmount => ?_⟩
            have hmount' : mount ∈ run'.data := hdata ▸ hmount
            rw [hrestored hidle (by simpa using hok) mount hmount']
            show drifted.snapshots mount.index = _
            rw [hkeeps.snapshots]
            exact htaken' mount hmount'
          · exact (finish_outcome _ _).mono fun _ _ _ hended => Or.inr hended

end Run

end SeverinoHQ.Host.Upgrade
