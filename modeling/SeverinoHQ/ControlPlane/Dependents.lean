/-
# What a save or a removal leaves of the others

A delivery target is what certificates resolve against, so saving or forgetting
one can move the desired state of many other declarations. After either, the
stored fingerprint of every declaration that is on is the one the stored
declarations give it, each of the others was moved on at most once and only for
a fingerprint it lost, and a second pass has nothing to do.
-/

import SeverinoHQ.ControlPlane.Resolution

namespace SeverinoHQ.ControlPlane

open SeverinoHQ.Math

/-- Every declaration that is on holds the fingerprint the stored declarations give it. -/
def Standing (env : Environment) (db : Database) : Prop :=
  ∀ row ∈ db.resources, row.enabled = true → row.desiredFingerprint = fingerprintIn env db row

/-- A row after a pass: as authored, off rows as they were, and its generation
raised by one for a fingerprint it had and lost. -/
structure Moved (old row : ManagedResource) : Prop where
  authored : row.declaration = old.declaration
  off : old.enabled = false → row = old
  generation : row.generation = old.generation +
    if old.desiredFingerprint ≠ "" ∧ old.desiredFingerprint ≠ row.desiredFingerprint then 1 else 0

/-- What a pass leaves, row by row. -/
structure Restored (env : Environment) (before stored : Database) : Prop where
  standing : Standing env stored
  moved : ∀ row ∈ stored.resources, ∃ old ∈ before.resources, Moved old row
  again : ∀ later : Moment, advanceDependents env later stored = .ok stored

section Pass

variable {env : Environment} {now : Moment} {db stored : Database}

theorem moved_refreshed {row : ManagedResource} (henabled : row.enabled = true) :
    Moved row (refreshed env now db row) := by
  refine ⟨refreshed_declaration row, fun hoff => ?_, ?_⟩
  · rw [henabled] at hoff
    cases hoff
  · rw [refreshed_generation, refreshed_desiredFingerprint]

theorem moved_self (row : ManagedResource) : Moved row row := ⟨rfl, fun _ => rfl, by simp⟩

/-- What stands needs no second pass. -/
theorem Standing.advanceDependents (h : Standing env stored) (later : Moment) :
    advanceDependents env later stored = .ok stored := by
  apply advanceRows_of_standing
  intro row hrow
  obtain ⟨hstored, henabled⟩ := List.mem_filter.mp hrow
  exact (h row hstored henabled).symm

theorem advanceDependents_restored (hauthored : env.Authored)
    (hids : (db.resources.map ManagedResource.id).Nodup)
    (h : advanceDependents env now db = .ok stored) : Restored env db stored := by
  have hsame := advanceDependents_declarations hids h
  have hfingerprint := hauthored.fingerprintIn hsame
  have hresources := congrArg Database.resources (advanceDependents_eq hauthored hids h)
  have hrows : ∀ row ∈ stored.resources, ∃ old ∈ db.resources,
      (if old.enabled then refreshed env now db old else old) = row := by
    intro row hrow
    rw [hresources] at hrow
    exact List.mem_map.mp hrow
  have hstanding : Standing env stored := by
    intro row hrow henabled
    obtain ⟨old, -, rfl⟩ := hrows row hrow
    split_ifs at henabled ⊢ with hold
    · rw [refreshed_desiredFingerprint, hfingerprint]
      exact fingerprintIn_congr (refreshed_declaration old).symm
    · exact absurd henabled hold
  refine ⟨hstanding, fun row hrow => ?_, hstanding.advanceDependents⟩
  obtain ⟨old, hold, rfl⟩ := hrows row hrow
  refine ⟨old, hold, ?_⟩
  split_ifs with henabled
  · exact moved_refreshed henabled
  · exact moved_self old

/-! ## The parts of a save -/

theorem enqueue_resources {ask : Ask} {operation : OperationRequest} {queued : Bool}
    (h : enqueue now ask db = .ok (stored, operation, queued)) :
    stored.resources = db.resources := by
  rcases enqueue_eq_ok h with rfl | hcreate
  · rfl
  · obtain ⟨-, -, rfl⟩ := create_eq_ok hcreate
    rfl

/-- Applying what was saved writes operations only. -/
theorem applyAfter_resources {call : SaveCall} {prepared : PreparedSave}
    (h : applyAfter env now call prepared db = .ok stored) : stored.resources = db.resources := by
  unfold applyAfter applySaved at h
  split_ifs at h
  · cases h
    rfl
  · obtain ⟨queued, hqueued, rfl⟩ := exists_of_map_eq_ok h
    obtain ⟨ask, -, hqueued⟩ := exists_of_bind_eq_ok hqueued
    obtain ⟨⟨rows, operation, created⟩, henqueue, hqueued⟩ := exists_of_bind_eq_ok hqueued
    dsimp only at hqueued
    split_ifs at hqueued
    · cases hqueued
    · cases hqueued
      exact enqueue_resources henqueue
  · cases h
    rfl

theorem writeSaved_resources (prepared : PreparedSave) :
    (writeSaved now prepared db).resources =
      if prepared.created then db.resources ++ [prepared.resource]
      else (db.saveResource prepared.resource).resources := by
  unfold writeSaved
  split_ifs <;> rfl

/-- The rows after a save's own write: the row it saved, and the others untouched. -/
theorem mem_writeSaved {prepared : PreparedSave} {row : ManagedResource}
    (h : row ∈ (writeSaved now prepared db).resources) :
    row = prepared.resource ∨ row ∈ db.resources ∧ (prepared.created = true ∨
      row.id ≠ prepared.resource.id) := by
  rw [writeSaved_resources] at h
  split_ifs at h with hcreated
  · rcases List.mem_append.mp h with hold | hnew
    · exact Or.inr ⟨hold, Or.inl hcreated⟩
    · exact Or.inl (List.mem_singleton.mp hnew)
  · rcases mem_saveResource h with ⟨hold, hne⟩ | rfl
    · exact Or.inr ⟨hold, Or.inr hne⟩
    · exact Or.inl rfl

/-- A save, part by part: the row prepared, the dependents' pass over it, and the
operations queued, which leave every declaration as the pass left it. -/
theorem saveManagedResource_eq_ok {call : SaveCall} {prepared : PreparedSave}
    (h : saveManagedResource env now call db = .ok (prepared, stored)) :
    prepareSave env now call db = .ok prepared ∧
      ∃ moved, advanceAfter env now prepared (writeSaved now prepared db) = .ok moved ∧
        stored.resources = moved.resources := by
  obtain ⟨inner, hprepare, h⟩ := exists_of_bind_eq_ok h
  obtain ⟨moved, hmoved, h⟩ := exists_of_bind_eq_ok h
  obtain ⟨applied, happlied, h⟩ := exists_of_bind_eq_ok h
  cases h
  exact ⟨hprepare, moved, hmoved, applyAfter_resources happlied⟩

/-- The row an update saves, against the row it held: what the caller changed
raises its generation by one. -/
theorem prepareSave_generation {call : SaveCall} {prepared : PreparedSave}
    (h : prepareSave env now call db = .ok prepared) :
    (prepared.created = true ∧ prepared.changed = true ∧ prepared.resource.generation = 1) ∨
      prepared.created = false ∧ ∃ old ∈ db.resources, old.id = prepared.resource.id ∧
        prepared.resource.generation = old.generation + (if prepared.changed then 1 else 0) ∧
          (prepared.changed = false → prepared.resource.declaration = old.declaration) := by
  obtain ⟨resource, validated, hstart, -, rfl⟩ := exists_declared_of_prepareSave h
  unfold SaveCall.start at hstart
  split at hstart
  · next hkey =>
      cases hstart
      rw [hkey]
      exact Or.inl ⟨rfl, rfl, rfl⟩
  · next key hkey =>
      have hstored : resource ∈ db.resources := mem_of_held hstart
      rw [hkey]
      refine Or.inr ⟨rfl, resource, hstored, rfl, ?_, fun hsame => ?_⟩
      · simp only [declared, Option.isNone_some, Bool.not_false, Bool.true_and, Bool.false_or]
        split_ifs <;> rfl
      · simp only [declared, Option.isNone_some, Bool.false_or, Bool.or_eq_false_iff,
          bne_eq_false_iff_eq] at hsame
        obtain ⟨⟨⟨hsameKey, hkind⟩, hspec⟩, henabled⟩ := hsame
        simp only [declared, ManagedResource.declaration, hsameKey, hkind, hspec, henabled]

end Pass

/-! ## The delivery targets -/

section Targets

variable {env : Environment} {providers : Providers} {now : Moment} {db stored : Database}

/-- The fingerprint a save gives a delivery target stands whatever else is stored. -/
theorem prepareSave_fingerprint {call : SaveCall} {prepared : PreparedSave}
    (h : prepareSave (env.resolving providers) now call db = .ok prepared)
    (hkind : prepared.resource.kind = deliveryTargetKind) (other : Database) :
    fingerprintIn (env.resolving providers) other prepared.resource =
      prepared.resource.desiredFingerprint := by
  obtain ⟨resource, validated, -, -, rfl⟩ := exists_declared_of_prepareSave h
  simp only [declared] at hkind
  simp only [fingerprintIn, declared, hkind]
  exact desiredFingerprint_deliveryTarget env providers other db _ _ validated _

/-- A save that changes a delivery target, or makes a record one. -/
theorem save_restored (hsound : db.Sound) {call : SaveCall} {prepared : PreparedSave}
    (h : saveManagedResource (env.resolving providers) now call db = .ok (prepared, stored))
    (hchanged : prepared.changed = true) (hkind : prepared.resource.kind = deliveryTargetKind) :
    Restored (env.resolving providers) (writeSaved now prepared db) stored ∧
      ∀ row ∈ stored.resources, row.id = prepared.resource.id → row = prepared.resource := by
  obtain ⟨hprepare, moved, hmoved, hresources⟩ := saveManagedResource_eq_ok h
  obtain ⟨hwritten, hsaved⟩ := writeSaved_transaction hprepare
  have hids := (hwritten.sound_later hsound).1.resource_ids
  have hpass : advanceDependents (env.resolving providers) now (writeSaved now prepared db) =
      .ok moved := by
    have hcondition : (prepared.changed &&
        (env.resolving providers).resolutionInput prepared.resource.kind) = true := by
      rw [hchanged, hkind]
      rfl
    rwa [advanceAfter, if_pos hcondition] at hmoved
  have hauthored := resolving_authored env providers
  have hrestored := advanceDependents_restored hauthored hids hpass
  have hsame : moved.declarations = stored.declarations := by
    rw [Database.declarations, Database.declarations, hresources]
  have hstanding : Standing (env.resolving providers) stored := by
    intro row hrow henabled
    rw [← hauthored.fingerprintIn hsame]
    exact hrestored.standing row (hresources ▸ hrow) henabled
  refine ⟨⟨hstanding, fun row hrow => hrestored.moved row (hresources ▸ hrow),
    hstanding.advanceDependents⟩, fun row hrow hid => ?_⟩
  -- The saved row is the only one under its id, and its fingerprint already stands.
  rw [hresources, congrArg Database.resources (advanceDependents_eq hauthored hids hpass)] at hrow
  obtain ⟨old, hold, rfl⟩ := List.mem_map.mp hrow
  have hown : old = prepared.resource := by
    apply Table.eq_of_column_eq hids hold hsaved
    split_ifs at hid
    · rw [← hid, refreshed_id]
    · exact hid
  rw [hown, refreshed_eq_self (prepareSave_fingerprint hprepare hkind _), ite_self]

/-- A save that changes nothing writes its own row and no other. -/
theorem save_unchanged {env : Environment} {call : SaveCall} {prepared : PreparedSave}
    (h : saveManagedResource env now call db = .ok (prepared, stored))
    (hchanged : prepared.changed = false) :
    stored.resources = (writeSaved now prepared db).resources := by
  obtain ⟨-, moved, hmoved, hresources⟩ := saveManagedResource_eq_ok h
  rw [advanceAfter, hchanged, Bool.false_and, if_neg (by simp)] at hmoved
  rw [hresources, ← Except.ok.inj hmoved]

/-- Forgetting a delivery target, and what it holds. -/
theorem forget_restored (hsound : db.Sound) {resource : ManagedResource}
    (h : forgetDeclaration (env.resolving providers) now resource db = .ok stored)
    (hkind : resource.kind = deliveryTargetKind) :
    Restored (env.resolving providers) db stored := by
  have hinput : (env.resolving providers).resolutionInput resource.kind = true := by
    rw [hkind]
    rfl
  unfold forgetDeclaration at h
  dsimp only at h
  split_ifs at h
  have hids := Table.nodup_map_delete hsound.resource_ids
    fun row => row.id == resource.id || (env.resolving providers).contains resource row
  have hrestored := advanceDependents_restored (resolving_authored env providers) hids h
  refine ⟨hrestored.standing, fun row hrow => ?_, hrestored.again⟩
  obtain ⟨old, hold, hmoved⟩ := hrestored.moved row hrow
  exact ⟨old, (Table.mem_delete.mp hold).1, hmoved⟩

end Targets

/-- After any save of a delivery target that changes something, and any removal
of one, every fingerprint stands and a second pass changes nothing; each other
row rose by one exactly where it had a fingerprint and lost it. The saved row
rises by one exactly where the save changed it, and a save that changes nothing
leaves every other row as it was. -/
theorem targets_restored (env : Environment) (providers : Providers) (now : Moment)
    (db stored : Database) (hsound : db.Sound) :
    (∀ (call : SaveCall) (prepared : PreparedSave),
      saveManagedResource (env.resolving providers) now call db = .ok (prepared, stored) →
      prepared.resource.kind = deliveryTargetKind →
        (prepared.changed = true → Standing (env.resolving providers) stored ∧
          (∀ later, advanceDependents (env.resolving providers) later stored = .ok stored) ∧
          ∀ row ∈ stored.resources, row.id ≠ prepared.resource.id →
            ∃ old ∈ db.resources, Moved old row) ∧
        (prepared.changed = false → ∀ row ∈ stored.resources, row.id ≠ prepared.resource.id →
          row ∈ db.resources) ∧
        ∀ row ∈ stored.resources, row.id = prepared.resource.id →
          prepared.created = true ∧ row.generation = 1 ∨
            ∃ old ∈ db.resources, old.id = row.id ∧
              row.generation = old.generation + if prepared.changed then 1 else 0) ∧
    ∀ resource : ManagedResource, resource.kind = deliveryTargetKind →
      forgetDeclaration (env.resolving providers) now resource db = .ok stored →
        Standing (env.resolving providers) stored ∧
          (∀ later, advanceDependents (env.resolving providers) later stored = .ok stored) ∧
          ∀ row ∈ stored.resources, ∃ old ∈ db.resources, Moved old row := by
  refine ⟨fun call prepared h hkind => ?_, fun resource hkind h => ?_⟩
  · have hprepare := (saveManagedResource_eq_ok h).1
    have hothers : ∀ row ∈ (writeSaved now prepared db).resources,
        row.id ≠ prepared.resource.id → row ∈ db.resources := by
      intro row hrow hne
      rcases mem_writeSaved hrow with rfl | ⟨hold, -⟩
      · exact absurd rfl hne
      · exact hold
    refine ⟨fun hchanged => ?_, fun hchanged row hrow => ?_, fun row hrow hid => ?_⟩
    · obtain ⟨hrestored, -⟩ := save_restored hsound h hchanged hkind
      refine ⟨hrestored.standing, hrestored.again, fun row hrow hne => ?_⟩
      obtain ⟨old, hold, hmoved⟩ := hrestored.moved row hrow
      have hid : row.id = old.id := (Declaration.mk.inj hmoved.authored).1
      exact ⟨old, hothers old hold (hid ▸ hne), hmoved⟩
    · rw [save_unchanged h hchanged] at hrow
      exact hothers row hrow
    · have hown : row = prepared.resource := by
        cases hchanged : prepared.changed with
        | true => exact (save_restored hsound h hchanged hkind).2 row hrow hid
        | false =>
            rw [save_unchanged h hchanged] at hrow
            obtain ⟨hwritten, hsaved⟩ := writeSaved_transaction hprepare
            exact Table.eq_of_column_eq (hwritten.sound_later hsound).1.resource_ids hrow hsaved hid
      rw [hown]
      rcases prepareSave_generation hprepare with ⟨hcreated, -, hfirst⟩ |
        ⟨-, old, hold, hsame, hraised, -⟩
      · exact Or.inl ⟨hcreated, hfirst⟩
      · exact Or.inr ⟨old, hold, hsame, hraised⟩
  · have hrestored := forget_restored hsound h hkind
    exact ⟨hrestored.standing, hrestored.again, hrestored.moved⟩

/-! ## A target moved, and a target renamed -/

/-- What an edge says of itself: certificates are placed in `directory`. -/
def edgeTarget (directory : String) : Json :=
  .obj [("certificate_directory", .str directory), ("certificate_resource", .str ""),
    ("connection_ref", .str "an-edge"), ("discover_covered_hosts", .bool false),
    ("install_domains", .arr []), ("item", .str ""), ("kind", .str "caddy"),
    ("name", .str "edge-caddy"), ("vault", .str ""), ("verify_domains", .arr [])]

/-- A route the edge serves. -/
def appRoute : List (String × Json) :=
  [("connection_ref", .str "an-edge"), ("domain", .str "app.example.com"),
    ("upstream", .str "app:8080")]

/-- The route as it resolves where the edge's certificates are in `directory`. -/
def resolvedRoute (directory : String) : Json :=
  .obj <| ("certificate_directory", .str directory) :: appRoute.take 2
    ++ [("routes", .arr [])] ++ appRoute.drop 2

/-- What an enabled target's fingerprint is of. -/
def edgeDesired (directory : String) : Json :=
  .obj [("enabled", .bool true), ("kind", .str deliveryTargetKind),
    ("spec", edgeTarget directory)]

/-- What an enabled route's fingerprint is of. -/
def routeDesired (directory : String) : Json :=
  .obj [("enabled", .bool true), ("kind", .str "caddy.route"),
    ("resolved", resolvedRoute directory), ("spec", .obj appRoute)]

/-- The SHA-256 digests of the four documents fingerprinted. -/
def edgeDigests : List (Json × String) :=
  [(edgeDesired "/srv/certs", "fcd4354282d2290b0ca903a1a50772ec9b520e5f2615a9bce448bc429dd7ba6b"),
    (routeDesired "/srv/certs",
      "a349df266b59ef913b0db1f8c172ddc24b3205917a3728ee5fd1892752942f60"),
    (edgeDesired "/srv/tls", "3295c7cc482d74a5d95a2c1d3cc127c8f8913a9702bc398dc73b60ec25d373e0"),
    (routeDesired "/srv/tls", "9620680ff5b6fdc94d69260c6db19eb3f19f4977774269ace7a3692f0035d220")]

/-- The digest of one of the documents. -/
def edgeDigest (document : Json) : String := (edgeDigests.lookup document).getD ""

/-- The sample estate, with the digests of the documents it fingerprints. -/
def edgeEnvironment : Environment := { sampleEnvironment with digest := edgeDigest }

/-- Checks that a complete spec passes as it is. -/
def edgeProviders : Providers where
  validateSpec _ spec := .ok spec
  validateResolved _ spec := .ok spec
  namesByConnection _ _ := []
  normalizedHostname name := name

/-- The declared target, as it was first saved. -/
def edge : ManagedResource where
  id := 0
  key := "edge"
  kind := deliveryTargetKind
  spec := edgeTarget "/srv/certs"
  enabled := true
  desiredFingerprint := edgeDigest (edgeDesired "/srv/certs")
  generation := 1
  observedGeneration := 0
  status := .obj []
  conditions := []
  lastObservedAt := none
  updatedAt := 0

/-- The declared route, as it was first saved. -/
def app : ManagedResource :=
  { edge with
    id := 1, key := "app", kind := "caddy.route", spec := .obj appRoute
    desiredFingerprint := edgeDigest (routeDesired "/srv/certs") }

/-- The tables with the target and the route it serves. -/
def edgeDeclared : Database := ⟨2, [edge, app], [], [], []⟩

theorem edgeDeclared_sound : edgeDeclared.Sound := by
  constructor <;> simp [edgeDeclared, edge, app]

/-- The edge's certificates move to another directory. -/
def moveEdge : SaveCall where
  command := ⟨"edge", deliveryTargetKind, edgeTarget "/srv/tls", true⟩
  principal := ⟨"operator", "browser", "", ""⟩
  currentKey := some "edge"
  expectedUpdatedAt := none
  copiedFromLive := false
  sent := some [.spec]

/-- The target as the move leaves it. -/
def movedEdge : ManagedResource :=
  { edge with
    spec := edgeTarget "/srv/tls", generation := 2, updatedAt := 60
    desiredFingerprint := edgeDigest (edgeDesired "/srv/tls") }

/-- The route as the move leaves it, which nobody edited. -/
def movedApp : ManagedResource :=
  { app with
    generation := 2, updatedAt := 60
    desiredFingerprint := edgeDigest (routeDesired "/srv/tls") }

theorem moveEdge_saved :
    saveManagedResource (edgeEnvironment.resolving edgeProviders) 60 moveEdge edgeDeclared =
      .ok (⟨false, true, movedEdge⟩, { edgeDeclared with resources := [movedEdge, movedApp] }) := by
  rfl

theorem moved_target_restored :
    Standing (edgeEnvironment.resolving edgeProviders)
        { edgeDeclared with resources := [movedEdge, movedApp] } ∧
      ∃ old ∈ edgeDeclared.resources, Moved old movedApp := by
  have hrestored := (targets_restored edgeEnvironment edgeProviders 60 edgeDeclared _
    edgeDeclared_sound).1 moveEdge _ moveEdge_saved rfl
  obtain ⟨hstanding, -, hmoved⟩ := hrestored.1 rfl
  exact ⟨hstanding, hmoved movedApp (by simp) (by decide)⟩

/-- The target is given another key, and nothing else is sent. -/
def renameEdge : SaveCall :=
  { moveEdge with
    command := ⟨"edge-proxy", deliveryTargetKind, edgeTarget "/srv/certs", true⟩
    sent := some [.key] }

/-- The target as the rename leaves it. -/
def renamedEdge : ManagedResource :=
  { edge with key := "edge-proxy", generation := 2, updatedAt := 60 }

theorem renameEdge_saved :
    saveManagedResource (edgeEnvironment.resolving edgeProviders) 60 renameEdge edgeDeclared =
      .ok (⟨false, true, renamedEdge⟩,
        { edgeDeclared with resources := [renamedEdge, app] }) := by
  rfl

/-- The key is no part of the fingerprint, and a rename raises the generation of
a row whose fingerprint stands. -/
theorem renamed_target_raised :
    ¬∀ (env : Environment) (providers : Providers) (now : Moment) (db stored : Database)
      (call : SaveCall) (prepared : PreparedSave), db.Sound →
      saveManagedResource (env.resolving providers) now call db = .ok (prepared, stored) →
      prepared.resource.kind = deliveryTargetKind →
      ∀ old ∈ db.resources, ∀ row ∈ stored.resources, row.id = old.id →
        row.generation = old.generation +
          if old.desiredFingerprint ≠ "" ∧ old.desiredFingerprint ≠ row.desiredFingerprint
          then 1 else 0 := by
  intro h
  have hraised := h edgeEnvironment edgeProviders 60 edgeDeclared _ renameEdge _
    edgeDeclared_sound renameEdge_saved rfl edge (by simp [edgeDeclared]) renamedEdge (by simp) rfl
  revert hraised
  decide

end SeverinoHQ.ControlPlane
