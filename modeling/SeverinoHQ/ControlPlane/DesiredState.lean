/-
# What a declaration is supposed to be

The fingerprint of a declaration covers what it resolves to, so it is a function
of every stored declaration and not of its own row alone. This module says what
the dependents' pass leaves of each row: nothing an operator authored moves, a
row whose fingerprint stands is left as it is, and any other row takes the
fingerprint the stored declarations give it.
-/

import SeverinoHQ.ControlPlane.Transactions

namespace SeverinoHQ.ControlPlane

open SeverinoHQ.Math

/-! ## What is authored -/

/-- What an operator authors of a declaration, under its primary key. -/
structure Declaration where
  id : Id
  key : String
  kind : String
  spec : Json
  enabled : Bool
  deriving DecidableEq, Repr

/-- The authored part of a row. -/
def ManagedResource.declaration (resource : ManagedResource) : Declaration :=
  ⟨resource.id, resource.key, resource.kind, resource.spec, resource.enabled⟩

/-- The authored part of every row, in the order they are stored. -/
def Database.declarations (db : Database) : List Declaration :=
  db.resources.map ManagedResource.declaration

/-- The fingerprint a row's authored part has among the stored declarations. -/
def fingerprintIn (env : Environment) (db : Database) (resource : ManagedResource) : String :=
  desiredFingerprint env db resource.key resource.kind resource.spec resource.enabled

/-- Resolution reads the stored declarations only by what was authored of them. -/
def Environment.Authored (env : Environment) : Prop :=
  ∀ db other : Database, db.declarations = other.declarations →
    env.resolveProviderSpec db = env.resolveProviderSpec other

section Pass

variable {env : Environment} {now : Moment} {db stored : Database}

theorem Environment.Authored.desiredFingerprint (h : env.Authored) {other : Database}
    (hsame : db.declarations = other.declarations) :
    desiredFingerprint env db = desiredFingerprint env other := by
  unfold ControlPlane.desiredFingerprint
  rw [h db other hsame]

theorem Environment.Authored.fingerprintIn (h : env.Authored) {other : Database}
    (hsame : db.declarations = other.declarations) :
    fingerprintIn env db = fingerprintIn env other := by
  unfold ControlPlane.fingerprintIn
  rw [h.desiredFingerprint hsame]

theorem fingerprintIn_congr {first second : ManagedResource}
    (h : first.declaration = second.declaration) :
    fingerprintIn env db first = fingerprintIn env db second := by
  obtain ⟨-, hkey, hkind, hspec, henabled⟩ := Declaration.mk.inj h
  unfold fingerprintIn
  rw [hkey, hkind, hspec, henabled]

/-! ## One row -/

theorem advanced_eq_none {resource : ManagedResource} :
    advanced env now db resource = none ↔
      fingerprintIn env db resource = resource.desiredFingerprint := by
  simp [advanced, fingerprintIn]

/-- What the pass makes of a row it reads. -/
def refreshed (env : Environment) (now : Moment) (db : Database) (resource : ManagedResource) :
    ManagedResource :=
  (advanced env now db resource).getD resource

theorem refreshed_eq_self {resource : ManagedResource}
    (h : fingerprintIn env db resource = resource.desiredFingerprint) :
    refreshed env now db resource = resource := by
  rw [refreshed, advanced_eq_none.mpr h, Option.getD_none]

theorem refreshed_eq_of_some {resource moved : ManagedResource}
    (h : advanced env now db resource = some moved) : refreshed env now db resource = moved := by
  rw [refreshed, h, Option.getD_some]

@[simp]
theorem refreshed_declaration (resource : ManagedResource) :
    (refreshed env now db resource).declaration = resource.declaration := by
  unfold refreshed advanced
  dsimp only
  split_ifs <;> rfl

@[simp]
theorem refreshed_id (resource : ManagedResource) :
    (refreshed env now db resource).id = resource.id :=
  (Declaration.mk.inj (refreshed_declaration resource)).1

@[simp]
theorem refreshed_desiredFingerprint (resource : ManagedResource) :
    (refreshed env now db resource).desiredFingerprint = fingerprintIn env db resource := by
  by_cases h : fingerprintIn env db resource = resource.desiredFingerprint
  · rw [refreshed_eq_self h, h]
  · have hmoved : ¬(desiredFingerprint env db resource.key resource.kind resource.spec
        resource.enabled == resource.desiredFingerprint) = true := by
      simpa [fingerprintIn] using h
    simp only [refreshed, advanced, if_neg hmoved, Option.getD_some, fingerprintIn]

/-- A generation rises by one for a row that had a fingerprint and lost it. -/
theorem refreshed_generation (resource : ManagedResource) :
    (refreshed env now db resource).generation =
      resource.generation +
        if resource.desiredFingerprint ≠ "" ∧
          resource.desiredFingerprint ≠ fingerprintIn env db resource then 1 else 0 := by
  by_cases h : fingerprintIn env db resource = resource.desiredFingerprint
  · rw [refreshed_eq_self h, if_neg (by simp [h])]
    rfl
  · have hmoved : ¬(desiredFingerprint env db resource.key resource.kind resource.spec
        resource.enabled == resource.desiredFingerprint) = true := by
      simpa [fingerprintIn] using h
    simp only [refreshed, advanced, if_neg hmoved, Option.getD_some]
    by_cases hadopting : resource.desiredFingerprint = ""
    · simp [hadopting]
    · rw [if_pos hadopting, if_pos ⟨hadopting, fun hsame => h hsame.symm⟩]

theorem Environment.Authored.refreshed (h : env.Authored) (now : Moment) {other : Database}
    (hsame : db.declarations = other.declarations) :
    refreshed env now db = refreshed env now other := by
  funext resource
  unfold ControlPlane.refreshed advanced
  rw [h.desiredFingerprint hsame]

/-! ## The pass -/

/-- Saving a row under the authored part it had leaves every authored part as it was. -/
theorem saveResource_declarations (hids : (db.resources.map ManagedResource.id).Nodup)
    {row moved : ManagedResource} (hrow : row ∈ db.resources)
    (hmoved : moved.declaration = row.declaration) :
    (db.saveResource moved).declarations = db.declarations := by
  apply Table.map_update
  intro old hold hselected
  have hid : moved.id = row.id := (Declaration.mk.inj hmoved).1
  have hsame : old.id = moved.id := by simpa using hselected
  rw [Table.eq_of_column_eq hids hold hrow (hsame.trans hid)]
  exact hmoved

theorem saveResource_ids (moved : ManagedResource) :
    (db.saveResource moved).resources.map ManagedResource.id =
      db.resources.map ManagedResource.id := by
  apply Table.map_update
  intro old _ hselected
  exact (by simpa using hselected : old.id = moved.id).symm

/-- The pass moves nothing that was authored. -/
theorem advanceRows_declarations {rows : List ManagedResource}
    (hids : (db.resources.map ManagedResource.id).Nodup)
    (hnodup : (rows.map ManagedResource.id).Nodup) (hrows : ∀ row ∈ rows, row ∈ db.resources)
    (h : advanceRows env now rows db = .ok stored) :
    stored.declarations = db.declarations := by
  induction rows generalizing db with
  | nil =>
      cases h
      rfl
  | cons row rows ih =>
      rw [List.map_cons, List.nodup_cons] at hnodup
      obtain ⟨hrow, hrest⟩ := List.forall_mem_cons.mp hrows
      rw [advanceRows] at h
      split at h
      · exact ih hids hnodup.2 hrest h
      · next moved hmoved =>
          obtain ⟨-, -, h⟩ := exists_of_bind_eq_ok h
          have hmove : moved.declaration = row.declaration := by
            rw [← refreshed_eq_of_some hmoved, refreshed_declaration]
          have hremain : ∀ other ∈ rows, other ∈ (db.saveResource moved).resources := by
            intro other hother
            apply mem_saveResource_of_ne (hrest other hother)
            rintro hsame
            have hid := hsame.trans (Declaration.mk.inj hmove).1
            exact hnodup.1 (List.mem_map.mpr ⟨other, hother, hid⟩)
          rw [ih (by rwa [saveResource_ids]) hnodup.2 hremain h]
          exact saveResource_declarations hids hrow hmove

theorem advanceDependents_declarations (hids : (db.resources.map ManagedResource.id).Nodup)
    (h : advanceDependents env now db = .ok stored) : stored.declarations = db.declarations := by
  apply advanceRows_declarations hids _ _ h
  · exact hids.sublist (List.filter_sublist.map _)
  · intro row hrow
    exact (List.mem_filter.mp hrow).1

/-- The pass leaves each row it reads refreshed among the declarations it started
from, and every other row as it was. -/
theorem advanceRows_eq (hauthored : env.Authored) {rows : List ManagedResource}
    (hids : (db.resources.map ManagedResource.id).Nodup)
    (hnodup : (rows.map ManagedResource.id).Nodup) (hrows : ∀ row ∈ rows, row ∈ db.resources)
    (h : advanceRows env now rows db = .ok stored) :
    stored = { db with
      resources := db.resources.map fun row =>
        if row ∈ rows then refreshed env now db row else row } := by
  induction rows generalizing db with
  | nil =>
      cases h
      simp
  | cons row rows ih =>
      rw [List.map_cons, List.nodup_cons] at hnodup
      obtain ⟨hrow, hrest⟩ := List.forall_mem_cons.mp hrows
      rw [advanceRows] at h
      split at h
      · next hnone =>
          rw [ih hids hnodup.2 hrest h]
          congr 1
          apply List.map_congr_left
          intro other _
          by_cases hother : other = row
          · subst hother
            simp [refreshed, hnone]
          · simp [hother]
      · next moved hmoved =>
          obtain ⟨-, -, h⟩ := exists_of_bind_eq_ok h
          have hsettled : refreshed env now db row = moved := refreshed_eq_of_some hmoved
          have hid : moved.id = row.id := by rw [← hsettled, refreshed_id]
          have hmove : moved.declaration = row.declaration := by rw [← hsettled, refreshed_declaration]
          have habsent : ∀ other ∈ rows, other.id ≠ row.id := by
            intro other hother hsame
            exact hnodup.1 (List.mem_map.mpr ⟨other, hother, hsame⟩)
          have hremain : ∀ other ∈ rows, other ∈ (db.saveResource moved).resources := by
            intro other hother
            exact mem_saveResource_of_ne (hrest other hother)
              (fun hsame => habsent other hother (hsame.trans hid))
          have hsame := hauthored.refreshed now (saveResource_declarations hids hrow hmove)
          rw [ih (by rwa [saveResource_ids]) hnodup.2 hremain h, hsame]
          simp only [Database.saveResource, Database.updateResources, Table.update, List.map_map]
          congr 1
          apply List.map_congr_left
          intro other hother
          by_cases hown : other.id = row.id
          · -- The row just moved: none of the rows still to come is it.
            obtain rfl := Table.eq_of_column_eq hids hother hrow hown
            have hgone : moved ∉ rows := fun hmem => habsent moved hmem hid
            simp [hid, hgone, hsettled]
          · have hne : other ≠ row := fun hsame => hown (by rw [hsame])
            simp [hid, hown, hne]

/-- The pass, whole: every row that is on is refreshed. -/
theorem advanceDependents_eq (hauthored : env.Authored)
    (hids : (db.resources.map ManagedResource.id).Nodup)
    (h : advanceDependents env now db = .ok stored) :
    stored = { db with
      resources := db.resources.map fun row =>
        if row.enabled then refreshed env now db row else row } := by
  rw [advanceRows_eq hauthored hids (hids.sublist (List.filter_sublist.map _))
    (fun row hrow => (List.mem_filter.mp hrow).1) h]
  congr 1
  apply List.map_congr_left
  intro row hrow
  simp [List.mem_filter, hrow]

/-- A pass over rows whose fingerprints stand writes nothing. -/
theorem advanceRows_of_standing {rows : List ManagedResource}
    (h : ∀ row ∈ rows, fingerprintIn env db row = row.desiredFingerprint) :
    advanceRows env now rows db = .ok db := by
  induction rows with
  | nil => rfl
  | cons row rows ih =>
      obtain ⟨hrow, hrest⟩ := List.forall_mem_cons.mp h
      rw [advanceRows, advanced_eq_none.mpr hrow]
      exact ih hrest

end Pass

end SeverinoHQ.ControlPlane
