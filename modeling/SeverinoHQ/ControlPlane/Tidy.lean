/-
# Declarations that pass their own checks

A declaration is checked when it is saved: its fields, its key against every other, its
generations. Nothing that happens to it afterwards fails the check again, so the pass over
the declarations that depend on others never stops at one, and forgetting a declaration is
refused only by the operations that refer to what would go.
-/

import SeverinoHQ.ControlPlane.Authored
import SeverinoHQ.ControlPlane.Updates

namespace SeverinoHQ.ControlPlane

open SeverinoHQ.Math

/-- The fields of a row are checked by what was authored of it. -/
def Environment.Checks (env : Environment) (check : Declaration → Option String) : Prop :=
  ∀ row, env.fieldErrors row = check row.declaration

/-- Every stored declaration passes the check of a save. -/
structure Tidy (check : Declaration → Option String) (db : Database) : Prop where
  checked : ∀ declaration ∈ db.declarations, check declaration = none
  keys : ∀ first ∈ db.declarations, ∀ second ∈ db.declarations,
    first.key = second.key → first.id = second.id
  begun : ∀ row ∈ db.resources, 1 ≤ row.generation

section Passing

variable {check : Declaration → Option String} {env : Environment} {now : Moment}
  {db stored : Database}

theorem Database.empty_tidy : Tidy check .empty :=
  ⟨by simp [Database.empty, Database.declarations], by simp [Database.empty, Database.declarations],
    by simp [Database.empty]⟩

/-- A row stored later, as it was authored before, has begun its generations. -/
theorem begun_of_later (hsound : db.Sound) (hbegun : ∀ row ∈ db.resources, 1 ≤ row.generation)
    (hauthored : AsAuthored db stored) (hlater : Later db stored) :
    ∀ row ∈ stored.resources, 1 ≤ row.generation := by
  intro row hrow
  obtain ⟨before, hbefore, hsame⟩ :=
    List.mem_map.mp (hauthored (List.mem_map_of_mem (f := ManagedResource.declaration) hrow))
  have hid : before.id = row.id := (Declaration.mk.inj hsame).1
  rcases hlater.resources row hrow with hnew | ⟨old, hold, -, hgeneration⟩
  · exact absurd (hid ▸ hsound.resource_old before hbefore) (not_lt.mpr hnew)
  · exact (hbegun old hold).trans hgeneration

theorem Tidy.later (h : Tidy check db) (hsound : db.Sound) (hauthored : AsAuthored db stored)
    (hlater : Later db stored) : Tidy check stored :=
  ⟨fun declaration hmem => h.checked declaration (hauthored hmem),
    fun first hfirst second hsecond => h.keys first (hauthored hfirst) second (hauthored hsecond),
    begun_of_later hsound h.begun hauthored hlater⟩

/-! ## The check -/

theorem fullClean_eq_ok {resource : ManagedResource} :
    fullClean env db resource = .ok () ↔
      env.fieldErrors resource = none ∧
        (∀ other ∈ db.resources, other.key = resource.key → other.id = resource.id) ∧
        1 ≤ resource.generation ∧ resource.observedGeneration ≤ resource.generation := by
  unfold fullClean
  cases hfields : env.fieldErrors resource with
  | some text => simp
  | none =>
      by_cases hkeys : (db.resources.any fun other =>
          other.key == resource.key && other.id != resource.id) = true
      · have hclash : ¬∀ other ∈ db.resources, other.key = resource.key → other.id = resource.id := by
          intro hunique
          obtain ⟨other, hother, hsame⟩ := List.any_eq_true.mp hkeys
          simp only [Bool.and_eq_true, beq_iff_eq, bne_iff_ne, ne_eq] at hsame
          exact hsame.2 (hunique other hother hsame.1)
        simp [hkeys, hclash]
      · have hunique : ∀ other ∈ db.resources, other.key = resource.key → other.id = resource.id := by
          intro other hother hsame
          by_contra hne
          apply hkeys
          exact List.any_eq_true.mpr ⟨other, hother, by simp [hsame, hne]⟩
        simp only [hkeys, Bool.false_eq_true, if_false, true_and]
        split_ifs with hbegun hobserved
        · simp only [false_iff, not_and]
          intro _ hone
          omega
        · simp only [false_iff, not_and]
          intro _ _
          omega
        · simp only [true_iff]
          exact ⟨hunique, by omega, by omega⟩

/-- What a check raises is a refusal of the values. -/
theorem fullClean_error {resource : ManagedResource} {raised : Raised}
    (h : fullClean env db resource = .error raised) : ∃ text, raised = .validationError text := by
  unfold fullClean at h
  split at h
  · cases h
    exact ⟨_, rfl⟩
  · split_ifs at h
    all_goals
      cases h
      exact ⟨_, rfl⟩

/-- A row that moves on as it was authored passes again. -/
theorem Tidy.fullClean_moved (h : Tidy check db) (hchecks : env.Checks check)
    {row moved : ManagedResource} (hrow : row ∈ db.resources)
    (hmoved : moved.declaration = row.declaration) (hgeneration : row.generation ≤ moved.generation)
    (hobserved : moved.observedGeneration ≤ moved.generation) :
    fullClean env db moved = .ok () := by
  have hmem : row.declaration ∈ db.declarations := List.mem_map_of_mem hrow
  refine fullClean_eq_ok.mpr ⟨?_, fun other hother hkey => ?_,
    (h.begun row hrow).trans hgeneration, hobserved⟩
  · rw [hchecks, hmoved]
    exact h.checked _ hmem
  · have hsame : moved.key = row.key ∧ moved.id = row.id :=
      ⟨(Declaration.mk.inj hmoved).2.1, (Declaration.mk.inj hmoved).1⟩
    rw [hsame.2]
    exact h.keys other.declaration (List.mem_map_of_mem hother) row.declaration hmem
      (hkey.trans hsame.1)

/-! ## The dependents' pass -/

theorem advanceRows_ok (hchecks : env.Checks check) {rows : List ManagedResource}
    (hsound : db.Sound) (htidy : Tidy check db) (hnodup : (rows.map ManagedResource.id).Nodup)
    (hrows : ∀ row ∈ rows, row ∈ db.resources ∧ row.enabled = true) :
    ∃ stored, advanceRows env now rows db = .ok stored := by
  induction rows generalizing db with
  | nil => exact ⟨db, rfl⟩
  | cons row rows ih =>
      rw [List.map_cons, List.nodup_cons] at hnodup
      obtain ⟨hrow, hrest⟩ := List.forall_mem_cons.mp hrows
      rw [advanceRows]
      cases hadvanced : advanced env now db row with
      | none => exact ih hsound htidy hnodup.2 hrest
      | some moved =>
          obtain ⟨hid, hgeneration, hobserved, hstatus, henabled⟩ := advanced_eq_some hadvanced
          have hmove : moved.declaration = row.declaration := by
            rw [← refreshed_eq_of_some hadvanced, refreshed_declaration]
          have hreached := hsound.observed_reached row hrow.1
          have hclean := htidy.fullClean_moved hchecks hrow.1 hmove hgeneration (by omega)
          have hchange : Change now db (db.saveResource moved) :=
            .rewrite row moved hrow.1 hid hgeneration hobserved hstatus (henabled.trans hrow.2)
          obtain ⟨hsaved, hlater⟩ := hchange.sound_later hsound
          have hauthored : AsAuthored db (db.saveResource moved) := by
            unfold AsAuthored
            rw [saveResource_declarations hsound.resource_ids hrow.1 hmove]
            exact List.Subset.refl _
          have hremain : ∀ other ∈ rows,
              other ∈ (db.saveResource moved).resources ∧ other.enabled = true := by
            intro other hother
            refine ⟨mem_saveResource_of_ne (hrest other hother).1 ?_, (hrest other hother).2⟩
            intro hsame
            exact hnodup.1 (List.mem_map.mpr ⟨other, hother, hsame.trans hid⟩)
          simp only [hclean]
          exact ih hsaved (htidy.later hsound hauthored hlater) hnodup.2 hremain

/-- The pass never stops at a declaration that was checked. -/
theorem advanceDependents_ok (hchecks : env.Checks check) (hsound : db.Sound)
    (htidy : Tidy check db) : ∃ stored, advanceDependents env now db = .ok stored := by
  apply advanceRows_ok hchecks hsound htidy
  · exact hsound.resource_ids.sublist (List.filter_sublist.map _)
  · intro row hrow
    exact List.mem_filter.mp hrow

/-- The pass writes declarations and nothing else. -/
theorem advanceRows_frame {rows : List ManagedResource} (h : advanceRows env now rows db = .ok stored) :
    stored.operations = db.operations ∧ stored.inventories = db.inventories ∧
      stored.serial = db.serial := by
  induction rows generalizing db with
  | nil =>
      cases h
      exact ⟨rfl, rfl, rfl⟩
  | cons row rows ih =>
      rw [advanceRows] at h
      split at h
      · exact ih h
      · obtain ⟨-, -, h⟩ := exists_of_bind_eq_ok h
        have hrest := ih h
        exact hrest

theorem advanceRows_error {rows : List ManagedResource} {raised : Raised}
    (h : advanceRows env now rows db = .error raised) : ∃ text, raised = .validationError text := by
  induction rows generalizing db with
  | nil => cases h
  | cons row rows ih =>
      rw [advanceRows] at h
      split at h
      · exact ih h
      · next moved hmoved =>
          cases hclean : fullClean env db moved with
          | error problem =>
              rw [hclean] at h
              cases h
              exact fullClean_error hclean
          | ok passed =>
              rw [hclean] at h
              exact ih h

/-! ## Forgetting -/

/-- A declaration goes with those it holds, unless an operation refers to one of them. -/
theorem forgetDeclaration_ok (hchecks : env.Checks check) (hsound : db.Sound)
    (htidy : Tidy check db) {resource : ManagedResource}
    (hfree : ∀ row ∈ db.resources, row.id = resource.id ∨ env.contains resource row = true →
      ∀ operation ∈ db.operations, operation.resource ≠ row.id) :
    ∃ stored, forgetDeclaration env now resource db = .ok stored := by
  let gone : ManagedResource → Bool := fun row => row.id == resource.id || env.contains resource row
  have hrefers : (db.resources.any fun row =>
      gone row && db.operations.any fun operation => operation.resource == row.id) = false := by
    rw [List.any_eq_false]
    intro row hrow hgone
    simp only [gone, Bool.and_eq_true, Bool.or_eq_true, beq_iff_eq, List.any_eq_true] at hgone
    obtain ⟨hgone, operation, hoperation, hid⟩ := hgone
    exact hfree row hrow hgone operation hoperation hid
  have hchange : Change now db { db with resources := Table.delete db.resources gone } := by
    apply Change.forget gone
    intro row hrow hgone operation hoperation
    exact hfree row hrow (by simpa [gone] using hgone) operation hoperation
  obtain ⟨hleft, hlater⟩ := hchange.sound_later hsound
  unfold forgetDeclaration
  dsimp only
  rw [if_neg (by simpa [gone] using hrefers)]
  split_ifs
  · exact advanceDependents_ok hchecks hleft (htidy.later hsound (asAuthored_delete gone) hlater)
  · exact ⟨_, rfl⟩

/-! ## Saving -/

section Saved

variable {call : SaveCall} {prepared : PreparedSave}

theorem prepareSave_checked (h : prepareSave env now call db = .ok prepared) :
    fullClean env db prepared.resource = .ok () := by
  obtain ⟨resource, -, h⟩ := exists_of_bind_eq_ok h
  dsimp only at h
  split_ifs at h
  · cases h
  · cases h
  · obtain ⟨validated, -, h⟩ := exists_of_bind_eq_ok h
    obtain ⟨-, -, h⟩ := exists_of_bind_eq_ok h
    obtain ⟨passed, hclean, h⟩ := exists_of_bind_eq_ok h
    cases h
    exact hclean
  · obtain ⟨validated, -, h⟩ := exists_of_bind_eq_ok h
    obtain ⟨passed, hclean, h⟩ := exists_of_bind_eq_ok h
    cases h
    exact hclean

theorem prepareSave_validated (h : prepareSave env now call db = .ok prepared) :
    ∃ spec, env.validateSpec prepared.resource.kind spec = .ok prepared.resource.spec := by
  obtain ⟨resource, validated, -, hvalidated, rfl⟩ := exists_declared_of_prepareSave h
  exact ⟨_, hvalidated⟩

/-- What a save leaves is what was stored, and the declaration it saved. -/
theorem mem_save_declarations (hsound : db.Sound)
    (h : saveManagedResource env now call db = .ok (prepared, stored)) {declaration : Declaration}
    (hmem : declaration ∈ stored.declarations) :
    declaration = prepared.resource.declaration ∨ declaration ∈ db.declarations := by
  rw [save_declarations hsound h] at hmem
  obtain ⟨row, hrow, rfl⟩ := List.mem_map.mp hmem
  rcases mem_writeSaved hrow with rfl | ⟨hold, -⟩
  · exact Or.inl rfl
  · exact Or.inr (List.mem_map_of_mem hold)

theorem save_tidy (hchecks : env.Checks check) (hsound : db.Sound) (htidy : Tidy check db)
    (h : saveManagedResource env now call db = .ok (prepared, stored)) : Tidy check stored := by
  obtain ⟨hprepare, moved, hmoved, hresources⟩ := saveManagedResource_eq_ok h
  obtain ⟨hfields, hunique, hbegun, -⟩ := fullClean_eq_ok.mp (prepareSave_checked hprepare)
  have hwritten := ((writeSaved_transaction hprepare).1.sound_later hsound).1
  have hfirst : Tidy check (writeSaved now prepared db) := by
    refine ⟨fun declaration hmem => ?_, fun first hfirst second hsecond hkey => ?_, fun row hrow => ?_⟩
    · obtain ⟨row, hrow, rfl⟩ := List.mem_map.mp hmem
      rcases mem_writeSaved hrow with rfl | ⟨hold, -⟩
      · rw [← hchecks]
        exact hfields
      · exact htidy.checked _ (List.mem_map_of_mem hold)
    · obtain ⟨one, hone, rfl⟩ := List.mem_map.mp hfirst
      obtain ⟨two, htwo, rfl⟩ := List.mem_map.mp hsecond
      rcases mem_writeSaved hone with rfl | ⟨honeOld, -⟩
      · rcases mem_writeSaved htwo with rfl | ⟨htwoOld, -⟩
        · rfl
        · exact (hunique two htwoOld hkey.symm).symm
      · rcases mem_writeSaved htwo with rfl | ⟨htwoOld, -⟩
        · exact hunique one honeOld hkey
        · exact htidy.keys _ (List.mem_map_of_mem honeOld) _ (List.mem_map_of_mem htwoOld) hkey
    · rcases mem_writeSaved hrow with rfl | ⟨hold, -⟩
      · exact hbegun
      · exact htidy.begun row hold
  have hpass : Tidy check moved := by
    unfold advanceAfter at hmoved
    split_ifs at hmoved
    · exact hfirst.later hwritten (advanceDependents_asAuthored hwritten.resource_ids hmoved)
        ((advanceDependents_transaction hwritten hmoved).1.sound_later hwritten).2
    · cases hmoved
      exact hfirst
  have hsame : stored.declarations = moved.declarations := by
    rw [Database.declarations, Database.declarations, hresources]
  exact ⟨fun declaration hmem => hpass.checked declaration (hsame ▸ hmem),
    fun first hone second htwo => hpass.keys first (hsame ▸ hone) second (hsame ▸ htwo),
    fun row hrow => hpass.begun row (hresources ▸ hrow)⟩

end Saved

end Passing

/-! ## Every event -/

section Events

variable {check : Declaration → Option String} {world : World}

/-- Whatever happens, what is stored passes the check. -/
theorem step_tidy (hsound : world.Sound) (htidy : Tidy check world.db) {event : Event}
    (hchecks : event.env.Checks check) : Tidy check (world.step event).db := by
  by_cases hsave : ∀ call, event.call ≠ .save call
  · exact htidy.later hsound.rows (step_asAuthored hsound hsave)
      ((step_outcome hsound event).rows_sound_later hsound).2
  · obtain ⟨env, call⟩ := event
    push Not at hsave
    obtain ⟨save, rfl⟩ := hsave
    simp only [World.step]
    cases hsaved : saveManagedResource env world.now save world.db with
    | error raised => exact htidy
    | ok saved => exact save_tidy hchecks hsound.rows htidy hsaved

/-- A declaration stored after an event was stored before it, or is what a save was given,
validated. -/
theorem step_declared (hsound : world.Sound) {event : Event} {declaration : Declaration}
    (hmem : declaration ∈ (world.step event).db.declarations) :
    declaration ∈ world.db.declarations ∨
      ∃ spec, event.env.validateSpec declaration.kind spec = .ok declaration.spec := by
  by_cases hsave : ∀ call, event.call ≠ .save call
  · exact Or.inl (step_asAuthored hsound hsave hmem)
  · obtain ⟨env, call⟩ := event
    push Not at hsave
    obtain ⟨save, rfl⟩ := hsave
    simp only [World.step] at hmem
    cases hsaved : saveManagedResource env world.now save world.db with
    | error raised =>
        rw [hsaved] at hmem
        exact Or.inl hmem
    | ok saved =>
        rw [hsaved] at hmem
        rcases mem_save_declarations hsound.rows hsaved hmem with rfl | hold
        · exact Or.inr (prepareSave_validated (saveManagedResource_eq_ok hsaved).1)
        · exact Or.inl hold

theorem requestReading_inventories (now : Moment) (kind : String) (db : Database) :
    (requestReading now kind db).inventories = db.inventories := by
  unfold requestReading
  split_ifs <;> rfl

/-- A transaction leaves the readings as they are. -/
theorem Transaction.inventories {now : Moment} {db stored : Database}
    (h : Transaction now db stored) : stored.inventories = db.inventories := by
  induction h with
  | refl => rfl
  | tail _ hchange ih =>
      rw [← ih]
      cases hchange with
      | read kind => exact requestReading_inventories now kind _
      | _ => rfl

/-- What is read after a write of a report was read before it. -/
theorem performWrite_inventories {env : Environment} {now : Moment} {reporting : Reporting}
    {db stored : Database} {write : ReportWrite}
    (h : performWrite env now reporting db write = .ok stored) {snapshot : ProviderInventory}
    (hmem : snapshot ∈ stored.inventories) :
    ∃ old ∈ db.inventories, old.kind = snapshot.kind ∧ snapshot.records ⊆ old.records := by
  have hsame : stored.inventories = db.inventories → ∃ old ∈ db.inventories,
      old.kind = snapshot.kind ∧ snapshot.records ⊆ old.records :=
    fun hinventories => ⟨snapshot, hinventories ▸ hmem, rfl, List.Subset.refl _⟩
  cases write with
  | saveOperation | deleteResource =>
      simp only [performWrite] at h
      split_ifs at h
      cases h
      exact hsame rfl
  | saveResource =>
      simp only [performWrite] at h
      split at h
      · cases h
      · split_ifs at h
        cases h
        exact hsame rfl
  | confirmTargets =>
      obtain ⟨reached, -, rfl⟩ := exists_of_map_eq_ok h
      exact hsame rfl
  | readBack =>
      cases h
      exact hsame (requestReading_inventories now _ db)
  | deleteOperations =>
      cases h
      exact hsame rfl
  | strikeInventory =>
      cases h
      rcases Table.mem_update.mp hmem with ⟨hold, -⟩ | ⟨old, hold, -, rfl⟩
      · exact ⟨snapshot, hold, rfl, List.Subset.refl _⟩
      · exact ⟨old, hold, rfl, fun _ hrecord => (List.mem_filter.mp hrecord).1⟩

/-- What is read after an event was read before it: an event takes records away at most. -/
theorem step_inventories (hsound : world.Sound) {event : Event} {snapshot : ProviderInventory}
    (hmem : snapshot ∈ (world.step event).db.inventories) :
    ∃ old ∈ world.db.inventories, old.kind = snapshot.kind ∧ snapshot.records ⊆ old.records := by
  have hsame : ∀ {stored : Database}, stored.inventories = world.db.inventories →
      snapshot ∈ stored.inventories → ∃ old ∈ world.db.inventories, old.kind = snapshot.kind ∧
        snapshot.records ⊆ old.records :=
    fun hinventories hstored => ⟨snapshot, hinventories ▸ hstored, rfl, List.Subset.refl _⟩
  have houtcome := step_outcome hsound event
  revert hmem houtcome
  generalize world.step event = after
  intro hmem houtcome
  cases houtcome with
  | tick | begin | accept | finish => exact hsame rfl hmem
  | transact stored queueings htransaction => exact hsame htransaction.inventories hmem
  | insertLate index queueing ask asks stored created queueings hcall hfound hasks hphase hcreate =>
      obtain ⟨-, -, rfl⟩ := create_eq_ok hcreate
      exact hsame rfl hmem
  | hand call before operation contract hcall hpick htransaction =>
      exact hsame htransaction.inventories hmem
  | write index report write remaining stored hcall hfound hnext hwrite =>
      exact performWrite_inventories hwrite hmem

end Events

end SeverinoHQ.ControlPlane
