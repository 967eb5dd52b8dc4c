/-
# What only a save changes

Operations are queued, claimed and reported, dependents advance and declarations go, and
what an operator authored stays as it was: a declaration stored after any event but a
save was stored before it, under the same key.
-/

import SeverinoHQ.ControlPlane.Dependents
import SeverinoHQ.ControlPlane.Generations

namespace SeverinoHQ.ControlPlane

open SeverinoHQ.Math

/-- Every declaration stored later was stored before, as it was authored. -/
def AsAuthored (db stored : Database) : Prop := stored.declarations ⊆ db.declarations

section Statements

variable {env : Environment} {now : Moment} {db stored : Database}

theorem AsAuthored.refl (db : Database) : AsAuthored db db := List.Subset.refl _

theorem AsAuthored.trans {third : Database} (h : AsAuthored db stored)
    (hthird : AsAuthored stored third) : AsAuthored db third := List.Subset.trans hthird h

theorem asAuthored_of_resources (h : stored.resources = db.resources) : AsAuthored db stored := by
  unfold AsAuthored Database.declarations
  rw [h]
  exact List.Subset.refl _

/-- A write that keeps what was authored keeps it over the table. -/
theorem asAuthored_updateResources {selects : ManagedResource → Bool}
    {write : ManagedResource → ManagedResource} (h : ∀ row, (write row).declaration = row.declaration) :
    AsAuthored db (db.updateResources selects write) := by
  have hsame : (db.updateResources selects write).declarations = db.declarations :=
    Table.map_update ManagedResource.declaration fun row _ _ => h row
  unfold AsAuthored
  rw [hsame]
  exact List.Subset.refl _

theorem asAuthored_delete (gone : ManagedResource → Bool) :
    AsAuthored db { db with resources := Table.delete db.resources gone } := by
  intro declaration hmem
  obtain ⟨row, hrow, rfl⟩ := List.mem_map.mp hmem
  exact List.mem_map_of_mem (Table.mem_delete.mp hrow).1

theorem advanceDependents_asAuthored (hids : (db.resources.map ManagedResource.id).Nodup)
    (h : advanceDependents env now db = .ok stored) : AsAuthored db stored := by
  unfold AsAuthored
  rw [advanceDependents_declarations hids h]
  exact List.Subset.refl _

theorem requestReading_resources (kind : String) :
    (requestReading now kind db).resources = db.resources := by
  unfold requestReading
  split_ifs <;> rfl

theorem enqueue_map_asAuthored {ask : Ask}
    (h : (enqueue now ask db).map Prod.fst = .ok stored) : AsAuthored db stored := by
  obtain ⟨⟨rows, operation, created⟩, henqueue, rfl⟩ := exists_of_map_eq_ok h
  exact asAuthored_of_resources (enqueue_resources henqueue)

theorem queueOperation_asAuthored {resource : ManagedResource} {command : OperationCommand}
    {principal : Principal} {action : Action} {requireEnabled : Bool} {queued : Queued}
    (h : queueOperation env now resource command principal action requireEnabled db = .ok queued) :
    AsAuthored db queued.db := by
  obtain ⟨ask, -, h⟩ := exists_of_bind_eq_ok h
  obtain ⟨⟨rows, operation, created⟩, henqueue, h⟩ := exists_of_bind_eq_ok h
  dsimp only at h
  split_ifs at h
  · cases h
  · cases h
    exact asAuthored_of_resources (enqueue_resources henqueue)

theorem requestReconcile_asAuthored {command : OperationCommand} {principal : Principal}
    {key : String} {queued : Queued}
    (h : requestReconcile env now command principal key db = .ok queued) : AsAuthored db queued.db := by
  obtain ⟨resource, -, h⟩ := exists_of_bind_eq_ok h
  dsimp only at h
  split_ifs at h
  · cases h
  · exact queueOperation_asAuthored h

theorem requestLifecycle_asAuthored {command : OperationCommand} {principal : Principal}
    {key : String} {action : Action} {queued : Queued}
    (h : requestLifecycle env now command principal key action db = .ok queued) :
    AsAuthored db queued.db := by
  obtain ⟨resource, -, h⟩ := exists_of_bind_eq_ok h
  dsimp only at h
  split_ifs at h
  · cases h
  · obtain ⟨inner, hinner, h⟩ := exists_of_bind_eq_ok h
    have hauthored := queueOperation_asAuthored hinner
    split_ifs at h
    · cases h
      exact hauthored.trans (asAuthored_of_resources (requestReading_resources _))
    · cases h
      exact hauthored

theorem requestRouteApproval_asAuthored {command : OperationCommand} {principal : Principal}
    {key : String} {queued : Queued}
    (h : requestRouteApproval env now command principal key db = .ok queued) :
    AsAuthored db queued.db := by
  obtain ⟨resource, -, h⟩ := exists_of_bind_eq_ok h
  exact queueOperation_asAuthored h

theorem queueRepairs_asAuthored {began : Moment} {controllerId : String} {repairs : List Repair}
    (h : queueRepairs env began now controllerId repairs db = .ok stored) : AsAuthored db stored := by
  induction repairs generalizing db with
  | nil =>
      cases h
      exact .refl _
  | cons repair repairs ih =>
      rw [queueRepairs] at h
      split at h
      · exact ih h
      · split_ifs at h
        · exact ih h
        · split at h
          · cases h
          · next henqueue => exact (asAuthored_of_resources (enqueue_resources henqueue)).trans (ih h)

theorem findingRepairs_asAuthored {began : Moment} {controllerId : String}
    (h : findingRepairs env began now controllerId db = .ok stored) : AsAuthored db stored := by
  unfold findingRepairs at h
  split_ifs at h
  · exact queueRepairs_asAuthored h
  · cases h
    exact .refl _

theorem forgetDeclaration_asAuthored {resource : ManagedResource} (hsound : db.Sound)
    (h : forgetDeclaration env now resource db = .ok stored) : AsAuthored db stored := by
  unfold forgetDeclaration at h
  dsimp only at h
  split_ifs at h
  · have hids := Table.nodup_map_delete hsound.resource_ids
      fun row => row.id == resource.id || env.contains resource row
    exact (asAuthored_delete _).trans (advanceDependents_asAuthored hids h)
  · cases h
    exact asAuthored_delete _

/-- A claim writes operations only. -/
theorem claimNextOperation_resources {call : ClaimCall} {claimed : Option Claimed}
    (h : claimNextOperation env now call db = .ok (stored, claimed)) :
    stored.resources = db.resources := by
  have hpick := pickClaim_resources env now call db
  unfold claimNextOperation at h
  split_ifs at h
  split at h
  · next before hbefore =>
      rw [hbefore] at hpick
      cases h
      exact hpick
  · next before operation contract hbefore =>
      rw [hbefore] at hpick
      cases h
      exact hpick

theorem performWrite_asAuthored {reporting : Reporting} {write : ReportWrite}
    (h : performWrite env now reporting db write = .ok stored) : AsAuthored db stored := by
  cases write with
  | saveOperation =>
      rw [performWrite] at h
      split_ifs at h
      cases h
      exact asAuthored_of_resources rfl
  | saveResource =>
      rw [performWrite] at h
      split at h
      · cases h
      · split_ifs at h
        cases h
        refine asAuthored_updateResources fun row => ?_
        unfold recorded
        dsimp only
        split_ifs <;> rfl
  | confirmTargets =>
      obtain ⟨reached, -, rfl⟩ := performWrite_confirmTargets_ok h
      exact asAuthored_updateResources fun row => rfl
  | readBack =>
      cases h
      exact asAuthored_of_resources (requestReading_resources _)
  | deleteOperations =>
      cases h
      exact asAuthored_of_resources rfl
  | strikeInventory =>
      cases h
      exact asAuthored_of_resources rfl
  | deleteResource =>
      rw [performWrite] at h
      split_ifs at h
      cases h
      exact asAuthored_delete _

end Statements

section Events

variable {world : World}

theorem commit_asAuthored {outcome : Except Raised Database}
    (h : ∀ stored, outcome = .ok stored → AsAuthored world.db stored) :
    AsAuthored world.db (world.commit outcome).db := by
  cases outcome with
  | error raised => exact .refl _
  | ok stored => exact h stored rfl

theorem commit_map_asAuthored {α : Type} {outcome : Except Raised α} {rows : α → Database}
    (h : ∀ answer, outcome = .ok answer → AsAuthored world.db (rows answer)) :
    AsAuthored world.db (world.commit (outcome.map rows)).db := by
  cases outcome with
  | error raised => exact .refl _
  | ok answer => exact h answer rfl

theorem advanceQueueing_asAuthored {env : Environment} {index : Nat} {queueing : Queueing} :
    AsAuthored world.db (world.advanceQueueing env index queueing).db := by
  unfold World.advanceQueueing
  dsimp only
  split
  · split
    · exact .refl _
    · exact commit_asAuthored fun stored h => findingRepairs_asAuthored h
  · split
    · split
      · exact .refl _
      · exact .refl _
    · split
      · exact .refl _
      · exact .refl _
    · split
      · next hcreate =>
          rcases createOrGet_eq_ok hcreate with rfl | hcreate
          · exact .refl _
          · obtain ⟨-, -, rfl⟩ := create_eq_ok hcreate
            exact asAuthored_of_resources rfl
      · exact .refl _

theorem claim_asAuthored {env : Environment} {call : ClaimCall} :
    AsAuthored world.db (world.claim env call).db := by
  unfold World.claim
  split
  · exact .refl _
  · next hclaim => exact asAuthored_of_resources (claimNextOperation_resources hclaim)
  · next hclaim => exact asAuthored_of_resources (claimNextOperation_resources hclaim)

theorem advanceReport_asAuthored {env : Environment} {index : Nat} {report : ReportRun} {fails : Bool} :
    AsAuthored world.db (world.advanceReport env index report fails).db := by
  unfold World.advanceReport
  dsimp only
  split
  · exact .refl _
  · split_ifs
    · exact .refl _
    · split
      · exact .refl _
      · next hwrite => exact performWrite_asAuthored hwrite

/-- Any event but a save leaves what was authored, of every declaration it leaves. -/
theorem step_asAuthored (hsound : world.Sound) {event : Event}
    (hsave : ∀ call, event.call ≠ .save call) : AsAuthored world.db (world.step event).db := by
  obtain ⟨env, call⟩ := event
  cases call with
  | tick elapsed => exact .refl _
  | save call => exact absurd rfl (hsave call)
  | advanceDependents =>
      exact commit_asAuthored fun stored h => advanceDependents_asAuthored hsound.rows.resource_ids h
  | requestReconcile command principal key =>
      exact commit_map_asAuthored fun answer h => requestReconcile_asAuthored h
  | requestLifecycle command principal key action =>
      exact commit_map_asAuthored fun answer h => requestLifecycle_asAuthored h
  | requestRouteApproval command principal key =>
      exact commit_map_asAuthored fun answer h => requestRouteApproval_asAuthored h
  | requestRemoval command principal key =>
      refine commit_asAuthored fun stored h => ?_
      unfold World.remove at h
      split at h
      · cases h
      · exact forgetDeclaration_asAuthored hsound.rows h
      · exact enqueue_map_asAuthored h
  | requestCertificateRenewal command principal key =>
      refine commit_asAuthored fun stored h => ?_
      dsimp only at h
      split at h
      · cases h
      · exact enqueue_map_asAuthored h
  | beginRemoval command principal key =>
      simp only [World.step]
      split
      · exact .refl _
      · exact .refl _
  | beginCertificateRenewal command principal key =>
      simp only [World.step]
      split
      · exact .refl _
      · exact .refl _
  | beginSchedule controllerId => exact .refl _
  | advanceQueueing index =>
      simp only [World.step]
      split
      · exact .refl _
      · exact advanceQueueing_asAuthored
  | forget resource =>
      exact commit_asAuthored fun stored h => forgetDeclaration_asAuthored hsound.rows h
  | claim call => exact claim_asAuthored
  | beginReport call =>
      simp only [World.step]
      split
      · exact .refl _
      · exact .refl _
  | advanceReport index fails =>
      simp only [World.step]
      split
      · exact .refl _
      · exact advanceReport_asAuthored

end Events

end SeverinoHQ.ControlPlane
