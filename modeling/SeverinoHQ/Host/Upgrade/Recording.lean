/-
# A run records its result once, and last

Whatever fails, a run ends by recording its exit code and then its result, and
records nothing before. So the records a run has made at any moment are a start of
those two, and a result is only ever beside the exit code that goes with it.
-/

import SeverinoHQ.Host.Upgrade.Restore
import SeverinoHQ.Math.Pool

namespace SeverinoHQ.Host.Upgrade

open SeverinoHQ.Math SeverinoHQ.Math.Dialogue
open SeverinoHQ.Math.Bytes (ascii)

/-- The calls that record nothing and ask nothing of the mounts. -/
def Call.isSilent (call : Call) : Bool := !call.records && !call.inspects

/-- A program that makes such calls alone. -/
abbrev Silent {α : Type} (program : Session α) : Prop :=
  program.Only fun call => call.isSilent = true

theorem silent_ask {call : Call} (h : call.isSilent = true) : Silent (ask call) :=
  (only_call call).mpr h

theorem Calm.silent {α : Type} {program : Session α} (h : Calm program) : Silent program := by
  apply h.mono
  intro call hcalm
  cases call with
  | writeExit | writeResult | inspectMounts | stat => exact absurd hcalm (by simp [Call.isCalm])
  | _ => rfl

/-- A run that makes certain calls until it finishes. -/
inductive Concludes (allowed : Call → Prop) : Session Report → Prop where
  | finish (run : Run) (outcome : Outcome) : Concludes allowed (run.finish outcome)
  | bind {α : Type} {program : Session α} {next : α → Session Report} (h : program.Only allowed)
      (hnext : ∀ result, Concludes allowed (next result)) : Concludes allowed (program >>= next)

theorem Concludes.mono {allowed wider : Call → Prop} {program : Session Report}
    (h : Concludes allowed program) (hwider : ∀ call, allowed call → wider call) :
    Concludes wider program := by
  induction h with
  | finish run outcome => exact .finish run outcome
  | bind h _ ih => exact .bind (h.mono hwider) ih

/-- A run that records nothing, and asks nothing of the mounts, until it finishes. -/
abbrev SilentlyConcludes : Session Report → Prop := Concludes fun call => call.isSilent = true

/-- It asks nothing of the mounts at all. -/
theorem Concludes.asks_nothing {program : Session Report} (h : SilentlyConcludes program) :
    program.Only fun call => call.inspects = false := by
  induction h with
  | finish run outcome =>
      refine (run.finish_idle outcome).mono fun call hidle => ?_
      cases call with
      | inspectMounts | stat => exact absurd hidle (by simp [Call.isIdle])
      | _ => rfl
  | bind h _ ih =>
      refine Only.bind (h.mono fun call hsilent => ?_) ih
      simpa using (Bool.and_eq_true_iff.mp hsilent).2

/-- A trial that records nothing unless it ends the run. -/
inductive TrialConcludes : Session (Report ⊕ Run) → Prop where
  | goOn (run : Run) : TrialConcludes (pure (.inr run))
  | ended {program : Session Report} (h : SilentlyConcludes program) :
      TrialConcludes (program >>= fun report => pure (.inl report))
  | bind {α : Type} {program : Session α} {next : α → Session (Report ⊕ Run)} (h : Silent program)
      (hnext : ∀ result, TrialConcludes (next result)) : TrialConcludes (program >>= next)

/-- A run that goes on from its trial. -/
theorem TrialConcludes.concludes {program : Session (Report ⊕ Run)} {next : Run → Session Report}
    (h : TrialConcludes program) (hnext : ∀ run, SilentlyConcludes (next run)) :
    SilentlyConcludes (program >>= fun ended =>
      match ended with
      | .inl report => pure report
      | .inr run => next run) := by
  induction h with
  | goOn run =>
      rw [pure_bind]
      exact hnext run
  | ended h => simpa using h
  | bind h _ ih =>
      rw [bind_assoc]
      exact .bind h ih

namespace Run

variable (run : Run)

theorem unchanged_concludes : SilentlyConcludes run.unchanged := by
  refine .bind run.cleanupTrial_calm.silent fun _ => .bind (silent_ask rfl) fun started => ?_
  split
  · exact .finish _ _
  · exact .finish _ _

theorem restoreOverride_silent : Silent run.restoreOverride := by
  refine Only.bind (silent_ask rfl) fun present => ?_
  split
  · refine Only.bind (silent_ask rfl) fun copied => ?_
    split
    · exact only_pure _
    · refine Only.bind (silent_ask rfl) fun renamed => ?_
      split
      · exact only_pure _
      · exact Only.bind (silent_ask rfl) fun _ => only_pure _
  · refine Only.bind (silent_ask rfl) fun removed => ?_
    split
    · exact only_pure _
    · exact only_pure _

theorem rollBack_concludes : SilentlyConcludes run.rollBack := by
  refine .bind run.restoreOverride_silent fun ⟨error, run⟩ => ?_
  dsimp only
  split
  · exact .finish _ _
  · refine .bind (silent_ask rfl) fun _ =>
      .bind (run.restoreMounts_calm _).silent fun ⟨restored, run⟩ => ?_
    dsimp only
    split
    · exact .finish _ _
    · refine .bind (silent_ask rfl) fun up => ?_
      split
      · exact .finish _ _
      · exact .finish _ _

theorem stopped_concludes : SilentlyConcludes run.stopped := by
  unfold stopped
  split
  · exact .finish _ _
  · exact unchanged_concludes _
  · exact rollBack_concludes _

theorem fault_concludes (error : FileError) : SilentlyConcludes (run.fault error) := by
  unfold fault
  split
  · exact .finish _ _
  · exact unchanged_concludes _
  · exact rollBack_concludes _

theorem verifyStep_concludes (fuel : Nat) : SilentlyConcludes (run.verifyStep fuel) := by
  refine .bind (silent_ask rfl) fun up => .bind interrupted_calm.silent fun signalled => ?_
  split
  · exact run.stopped_concludes
  · refine .bind (run.recreated_calm up).silent fun upgraded =>
      .bind (run.provesOnly_calm fuel upgraded).silent fun proven => ?_
    split
    · exact .finish _ _
    · refine .bind interrupted_calm.silent fun signalled => ?_
      split
      · exact run.stopped_concludes
      · exact rollBack_concludes _

theorem pinnedStep_concludes (fuel : Nat) (pinFile : Bytes) :
    SilentlyConcludes (run.pinnedStep fuel pinFile) := by
  refine .bind (run.serviceImage_calm _).silent fun image => ?_
  split
  · exact rollBack_concludes _
  · refine .bind interrupted_calm.silent fun signalled => ?_
    split
    · exact stopped_concludes _
    · exact verifyStep_concludes _ fuel

theorem keepBefore_silent : Silent run.keepBefore := by
  unfold keepBefore
  split
  · exact silent_ask rfl
  · exact only_pure _

theorem pinStep_concludes (fuel : Nat) (pinFile : Bytes) :
    SilentlyConcludes (run.pinStep fuel pinFile) := by
  refine .bind run.keepBefore_silent fun kept => ?_
  split
  · exact run.fault_concludes _
  · refine .bind (silent_ask rfl) fun owner => ?_
    split
    · exact run.fault_concludes _
    · refine .bind (silent_ask rfl) fun staged => ?_
      split
      · exact .bind (silent_ask rfl) fun _ => run.fault_concludes _
      · refine .bind (silent_ask rfl) fun renamed => ?_
        split
        · exact fault_concludes _ _
        · refine .bind (silent_ask rfl) fun synced => ?_
          split
          · exact fault_concludes _ _
          · exact pinnedStep_concludes _ fuel pinFile

theorem runTrial_concludes (fuel : Nat) : TrialConcludes (run.runTrial fuel) := by
  refine .bind (silent_ask rfl) fun written => ?_
  split
  · exact .ended (run.fault_concludes _)
  · refine .bind (copyMounts_calm _ _).silent fun uncopied => ?_
    split
    · exact .ended (unchanged_concludes _)
    · refine .bind (tryTarget_calm _ fuel).silent fun proven => ?_
      split
      · exact .bind (cleanupTrial_calm _).silent fun ended => .goOn ended
      · refine .bind interrupted_calm.silent fun signalled => ?_
        split
        · exact .ended (stopped_concludes _)
        · exact .ended (unchanged_concludes _)

theorem trialStep_concludes (fuel : Nat) (pinFile : Bytes) :
    SilentlyConcludes (run.trialStep fuel pinFile) := by
  refine (run.runTrial_concludes fuel).concludes fun run => ?_
  refine .bind interrupted_calm.silent fun signalled => ?_
  split
  · exact run.stopped_concludes
  · exact run.pinStep_concludes fuel pinFile

theorem snapshot_silent (mount : Mount) : Silent (snapshot mount) := by
  refine Only.bind (dataPath_calm _ _).silent fun source => ?_
  split
  · exact only_pure _
  · refine Only.bind ?_ fun unswapped => ?_
    · unfold isUnswapped
      split
      · exact silent_ask rfl
      · exact only_pure _
    · split
      · exact only_pure _
      · refine Only.bind ?_ fun copied => Only.bind ?_ fun kept => ?_
        · unfold copyPart
          split
          · exact silent_ask rfl
          · exact silent_ask rfl
        · unfold keepPart
          split
          · exact silent_ask rfl
          · exact only_pure _
        · split
          · exact only_pure _
          · exact Only.bind (silent_ask rfl) fun _ => only_pure _

theorem snapshotMounts_silent (mounts : List Mount) : Silent (snapshotMounts mounts) := by
  induction mounts with
  | nil => exact only_pure _
  | cons mount mounts ih =>
      refine Only.bind (snapshot_silent mount) fun kept => ?_
      split
      · exact ih
      · exact only_pure _

theorem stopStep_concludes (fuel : Nat) (pinFile : Bytes) :
    SilentlyConcludes (run.stopStep fuel pinFile) := by
  refine .bind (silent_ask rfl) fun stopped => ?_
  split
  · exact unchanged_concludes _
  · refine .bind (snapshotMounts_silent _) fun unkept => ?_
    split
    · exact unchanged_concludes _
    · refine .bind interrupted_calm.silent fun signalled => ?_
      split
      · exact stopped_concludes _
      · exact trialStep_concludes _ fuel pinFile

theorem pullStep_concludes (fuel : Nat) (pinFile : Bytes) :
    SilentlyConcludes (run.pullStep fuel pinFile) := by
  refine .bind (silent_ask rfl) fun pulled => ?_
  split
  · exact .finish _ _
  · refine .bind interrupted_calm.silent fun signalled => ?_
    split
    · exact stopped_concludes _
    · exact stopStep_concludes _ fuel pinFile

theorem pinCheck_concludes (fuel : Nat) (pinFile : Bytes) :
    SilentlyConcludes (run.pinCheck fuel pinFile) := by
  refine .bind run.writePinned_calm.silent fun written => ?_
  split
  · exact run.fault_concludes _
  · exact .finish _ _
  · refine .bind (run.serviceImage_calm _).silent fun image => ?_
    split
    · exact .finish _ _
    · refine .bind interrupted_calm.silent fun signalled => ?_
      split
      · exact stopped_concludes _
      · exact pullStep_concludes _ fuel pinFile

/-- A run records nothing until it finishes. -/
theorem execute_concludes (fuel : Nat) (pinFile : Bytes) :
    Concludes (fun call => call.records = false) (run.execute fuel pinFile) := by
  have hsilent : ∀ call : Call, call.isSilent = true → call.records = false := fun call h => by
    simpa using (Bool.and_eq_true_iff.mp h).1
  refine .bind ((run.serviceImage_calm _).silent.mono hsilent) fun image => ?_
  split
  · exact .finish _ _
  · refine .bind (run.onlyContainer_calm.silent.mono hsilent) fun found => ?_
    split
    · exact .finish _ _
    · next live =>
        refine .bind ((only_call _).mpr rfl) fun running => ?_
        split
        · exact .finish _ _
        · refine .bind ((run.readData_reads live).mono fun call hreads => ?_) fun ⟨read, run⟩ => ?_
          · cases call with
            | writeExit | writeResult =>
                exact absurd hreads (by simp [Call.isCalm, Call.inspects])
            | _ => rfl
          · dsimp only
            split
            · exact .finish _ _
            · exact (run.pinCheck_concludes fuel pinFile).mono hsilent

end Run

/-! ## The records of a run at any moment -/

/-- What a run has recorded. -/
def records (exchanges : Exchanges) : Exchanges := exchanges.filter fun exchange => exchange.1.records

/-- A start of an exit code and the result it goes with: a result is recorded only
once its exit code was, and nothing after it. -/
def Orderly (recorded : Exchanges) : Prop :=
  recorded = [] ∨ (∃ outcome error, recorded = [⟨.writeExit (Outcome.code outcome), error⟩]) ∨
    ∃ outcome steps error,
      recorded = [⟨.writeExit (Outcome.code outcome), none⟩, ⟨.writeResult outcome steps, error⟩]

theorem records_append (first second : Exchanges) :
    records (first ++ second) = records first ++ records second := List.filter_append ..

theorem records_eq_nil {α : Type} {program rest : Session α} {exchanges : Exchanges}
    (h : program.Only fun call => call.records = false)
    (hfollows : Follows program exchanges rest) : records exchanges = [] := by
  apply List.filter_eq_nil_iff.mpr
  intro exchange hexchange
  rw [h.follows hfollows exchange hexchange]
  exact Bool.false_ne_true

theorem Run.cleanupTrial_records_nothing (run : Run) :
    run.cleanupTrial.Only fun call => call.records = false :=
  run.cleanupTrial_calm.silent.mono fun _ h => by simpa using (Bool.and_eq_true_iff.mp h).1

theorem finish_orderly {run : Run} {outcome : Outcome} {exchanges : Exchanges}
    {rest : Session Report} (h : Follows (run.finish outcome) exchanges rest) :
    Orderly (records exchanges) := by
  rcases Follows.of_bind h with ⟨_, _, hcleanup, -⟩ | ⟨first, second, ended, rfl, hcleanup, hrest⟩
  · exact Or.inl (records_eq_nil run.cleanupTrial_records_nothing hcleanup)
  · rw [records_append, records_eq_nil run.cleanupTrial_records_nothing hcleanup, List.nil_append]
    cases hrest with
    | nil => exact Or.inl rfl
    | @ask _ _ error later _ hrest =>
        cases error with
        | some error =>
            obtain rfl : later = [] := (Follows.of_done hrest).1
            exact Or.inr (Or.inl ⟨outcome, some error, rfl⟩)
        | none =>
            cases hrest with
            | nil => exact Or.inr (Or.inl ⟨outcome, none, rfl⟩)
            | @ask _ _ written later _ hrest =>
                obtain rfl : later = [] := (Follows.of_done hrest).1
                exact Or.inr (Or.inr ⟨outcome, ended.steps, written, rfl⟩)

/-- At any moment a run's records are orderly. -/
theorem Concludes.orderly {program rest : Session Report} {exchanges : Exchanges}
    (h : Concludes (fun call => call.records = false) program) (hfollows : Follows program exchanges rest) :
    Orderly (records exchanges) := by
  induction h generalizing exchanges rest with
  | finish run outcome => exact finish_orderly hfollows
  | bind h _ ih =>
      rcases Follows.of_bind hfollows with ⟨_, _, hfirst, -⟩ | ⟨first, second, result, rfl, hfirst, hrest⟩
      · exact Or.inl (records_eq_nil h hfirst)
      · rw [records_append, records_eq_nil h hfirst, List.nil_append]
        exact ih result hrest

end SeverinoHQ.Host.Upgrade
