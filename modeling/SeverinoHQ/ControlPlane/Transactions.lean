/-
# What a transaction can do to the rows

Every transaction of the control plane is a sequence of a few kinds of change.
`Change` lists them with what each is guarded by, and each transactional
function is shown once to make nothing else. Every invariant is then a case
analysis over `Change`, beside the two things that happen outside a
transaction: a late insert, and a report's own writes.
-/

import SeverinoHQ.ControlPlane.System
import SeverinoHQ.Math.Fallible
import Mathlib.Logic.Relation

namespace SeverinoHQ.ControlPlane

open SeverinoHQ.Math

/-! ## What the stored rows keep -/

/-- What holds of the stored rows between any two events. -/
structure Database.Sound (db : Database) : Prop where
  operation_ids : (db.operations.map OperationRequest.id).Nodup
  operation_old : ∀ operation ∈ db.operations, operation.id < db.serial
  resource_ids : (db.resources.map ManagedResource.id).Nodup
  resource_old : ∀ resource ∈ db.resources, resource.id < db.serial
  resource_stored : ∀ operation ∈ db.operations, ∃ resource ∈ db.resources,
    resource.id = operation.resource
  one_active : ∀ first ∈ db.operations, ∀ second ∈ db.operations,
    first.state.isActive = true → second.state.isActive = true →
      first.resource = second.resource → first.action = second.action → first = second
  queued_unclaimed : ∀ operation ∈ db.operations, operation.state = .queued →
    operation.claimedBy = "" ∧ operation.claimedAt = none ∧ operation.leaseExpiresAt = none
  claimed_leased : ∀ operation ∈ db.operations, operation.state = .claimed →
    operation.claimedBy ≠ "" ∧ operation.leaseExpiresAt.isSome = true
  finished_says_when : ∀ operation ∈ db.operations,
    operation.completedAt.isSome = !operation.state.isActive
  observed_reached : ∀ resource ∈ db.resources, resource.observedGeneration ≤ resource.generation
  input_reached : ∀ operation ∈ db.operations, ∀ resource ∈ db.resources,
    resource.id = operation.resource → operation.input.generation ≤ resource.generation

theorem Database.empty_sound : Database.empty.Sound := by
  constructor <;> simp [Database.empty]

/-- The rows of a later moment: each is new, or an earlier row whose identity
stands and whose generation has not gone back. -/
structure Later (db later : Database) : Prop where
  serial : db.serial ≤ later.serial
  operations : ∀ row ∈ later.operations, db.serial ≤ row.id ∨ ∃ old ∈ db.operations,
    old.id = row.id ∧ old.resource = row.resource ∧ old.action = row.action ∧
      old.input = row.input
  resources : ∀ row ∈ later.resources, db.serial ≤ row.id ∨ ∃ old ∈ db.resources,
    old.id = row.id ∧ old.generation ≤ row.generation

theorem Later.refl (db : Database) : Later db db :=
  ⟨le_refl _, fun row hrow => Or.inr ⟨row, hrow, rfl, rfl, rfl, rfl⟩,
    fun row hrow => Or.inr ⟨row, hrow, rfl, le_refl _⟩⟩

theorem Later.trans {first second third : Database} (h : Later first second)
    (h' : Later second third) : Later first third := by
  refine ⟨h.serial.trans h'.serial, fun row hrow => ?_, fun row hrow => ?_⟩
  · rcases h'.operations row hrow with hnew | ⟨old, hold, hid, hresource, haction, hinput⟩
    · exact Or.inl (h.serial.trans hnew)
    · rcases h.operations old hold with hnew | ⟨first, hfirst, hid', hres', hact', hin'⟩
      · exact Or.inl (hid ▸ hnew)
      · exact Or.inr ⟨first, hfirst, hid'.trans hid, hres'.trans hresource,
          hact'.trans haction, hin'.trans hinput⟩
  · rcases h'.resources row hrow with hnew | ⟨old, hold, hid, hgeneration⟩
    · exact Or.inl (h.serial.trans hnew)
    · rcases h.resources old hold with hnew | ⟨first, hfirst, hid', hgeneration'⟩
      · exact Or.inl (hid ▸ hnew)
      · exact Or.inr ⟨first, hfirst, hid'.trans hid, hgeneration'.trans hgeneration⟩

/-! ## Changes in place -/

/-- A write of an operation that keeps what the table's constraints ask of it. -/
structure OperationRequest.Becomes (old new : OperationRequest) : Prop where
  id : new.id = old.id
  resource : new.resource = old.resource
  action : new.action = old.action
  input : new.input = old.input
  active : new.state.isActive = true → old.state.isActive = true
  queued_unclaimed : new.state = .queued →
    new.claimedBy = "" ∧ new.claimedAt = none ∧ new.leaseExpiresAt = none
  claimed_leased : new.state = .claimed → new.claimedBy ≠ "" ∧ new.leaseExpiresAt.isSome = true
  finished_says_when : new.completedAt.isSome = !new.state.isActive

/-- A write of a declaration that keeps what the table's constraints ask of it. -/
structure ManagedResource.Becomes (old new : ManagedResource) : Prop where
  id : new.id = old.id
  generation : old.generation ≤ new.generation
  observed : new.observedGeneration ≤ new.generation

section InPlaceWrites

variable {db : Database}

theorem Database.Sound.updateOperations (h : db.Sound) {selects : OperationRequest → Bool}
    {write : OperationRequest → OperationRequest}
    (hwrite : ∀ row ∈ db.operations, selects row = true → row.Becomes (write row)) :
    (db.updateOperations selects write).Sound := by
  have hrows : ∀ row ∈ (db.updateOperations selects write).operations,
      ∃ old ∈ db.operations, row = old ∨ old.Becomes row := by
    intro row hrow
    rcases Table.mem_update.mp hrow with ⟨hold, -⟩ | ⟨old, hold, hselects, rfl⟩
    · exact ⟨row, hold, Or.inl rfl⟩
    · exact ⟨old, hold, Or.inr (hwrite old hold hselects)⟩
  have hids : (db.updateOperations selects write).operations.map OperationRequest.id =
      db.operations.map OperationRequest.id :=
    Table.map_update _ fun row hrow hselects => (hwrite row hrow hselects).id
  have hnodup : ((db.updateOperations selects write).operations.map OperationRequest.id).Nodup :=
    hids ▸ h.operation_ids
  refine ⟨hnodup, ?_, h.resource_ids, h.resource_old, ?_, ?_, ?_, ?_, ?_, h.observed_reached, ?_⟩
  · intro row hrow
    obtain ⟨old, hold, rfl | hbecomes⟩ := hrows row hrow
    · exact h.operation_old row hold
    · rw [hbecomes.id]
      exact h.operation_old old hold
  · intro row hrow
    obtain ⟨old, hold, rfl | hbecomes⟩ := hrows row hrow
    · exact h.resource_stored row hold
    · rw [hbecomes.resource]
      exact h.resource_stored old hold
  · intro first hfirst second hsecond hactive hactive' hresource haction
    obtain ⟨old, hold, hfirstOld⟩ := hrows first hfirst
    obtain ⟨other, hother, hsecondOld⟩ := hrows second hsecond
    have hkept : ∀ {row old : OperationRequest}, row = old ∨ old.Becomes row →
        row.state.isActive = true → old.state.isActive = true ∧ row.id = old.id ∧
          row.resource = old.resource ∧ row.action = old.action := by
      rintro row old (rfl | hbecomes) hrow
      · exact ⟨hrow, rfl, rfl, rfl⟩
      · exact ⟨hbecomes.active hrow, hbecomes.id, hbecomes.resource, hbecomes.action⟩
    obtain ⟨ha, hid, hr, hac⟩ := hkept hfirstOld hactive
    obtain ⟨ha', hid', hr', hac'⟩ := hkept hsecondOld hactive'
    have hsame := h.one_active old hold other hother ha ha'
      (by rw [← hr, ← hr', hresource]) (by rw [← hac, ← hac', haction])
    exact Table.eq_of_column_eq hnodup hfirst hsecond (by rw [hid, hid', hsame])
  · intro row hrow
    obtain ⟨old, hold, rfl | hbecomes⟩ := hrows row hrow
    · exact h.queued_unclaimed row hold
    · exact hbecomes.queued_unclaimed
  · intro row hrow
    obtain ⟨old, hold, rfl | hbecomes⟩ := hrows row hrow
    · exact h.claimed_leased row hold
    · exact hbecomes.claimed_leased
  · intro row hrow
    obtain ⟨old, hold, rfl | hbecomes⟩ := hrows row hrow
    · exact h.finished_says_when row hold
    · exact hbecomes.finished_says_when
  · intro row hrow resource hresource hid
    obtain ⟨old, hold, rfl | hbecomes⟩ := hrows row hrow
    · exact h.input_reached row hold resource hresource hid
    · rw [hbecomes.input]
      exact h.input_reached old hold resource hresource (hid.trans hbecomes.resource)

theorem Later.updateOperations {selects : OperationRequest → Bool}
    {write : OperationRequest → OperationRequest}
    (hwrite : ∀ row ∈ db.operations, selects row = true → row.Becomes (write row)) :
    Later db (db.updateOperations selects write) := by
  refine ⟨le_refl _, fun row hrow => ?_, (Later.refl db).resources⟩
  rcases Table.mem_update.mp hrow with ⟨hold, -⟩ | ⟨old, hold, hselects, rfl⟩
  · exact (Later.refl db).operations row hold
  · have hbecomes := hwrite old hold hselects
    exact Or.inr ⟨old, hold, hbecomes.id.symm, hbecomes.resource.symm, hbecomes.action.symm,
      hbecomes.input.symm⟩

theorem Database.Sound.updateResources (h : db.Sound) {selects : ManagedResource → Bool}
    {write : ManagedResource → ManagedResource}
    (hwrite : ∀ row ∈ db.resources, selects row = true → row.Becomes (write row)) :
    (db.updateResources selects write).Sound := by
  have hids : (db.updateResources selects write).resources.map ManagedResource.id =
      db.resources.map ManagedResource.id :=
    Table.map_update _ fun row hrow hselects => (hwrite row hrow hselects).id
  have hrows : ∀ row ∈ (db.updateResources selects write).resources,
      ∃ old ∈ db.resources, row = old ∨ old.Becomes row := by
    intro row hrow
    rcases Table.mem_update.mp hrow with ⟨hold, -⟩ | ⟨old, hold, hselects, rfl⟩
    · exact ⟨row, hold, Or.inl rfl⟩
    · exact ⟨old, hold, Or.inr (hwrite old hold hselects)⟩
  refine ⟨h.operation_ids, h.operation_old, hids ▸ h.resource_ids, ?_, ?_, h.one_active,
    h.queued_unclaimed, h.claimed_leased, h.finished_says_when, ?_, ?_⟩
  · intro row hrow
    obtain ⟨old, hold, rfl | hbecomes⟩ := hrows row hrow
    · exact h.resource_old row hold
    · rw [hbecomes.id]
      exact h.resource_old old hold
  · intro operation hoperation
    obtain ⟨resource, hresource, hid⟩ := h.resource_stored operation hoperation
    have hmem : operation.resource ∈ (db.updateResources selects write).resources.map
        ManagedResource.id := by
      rw [hids, ← hid]
      exact List.mem_map_of_mem hresource
    simpa using hmem
  · intro row hrow
    obtain ⟨old, hold, rfl | hbecomes⟩ := hrows row hrow
    · exact h.observed_reached row hold
    · exact hbecomes.observed
  · intro operation hoperation row hrow hid
    obtain ⟨old, hold, rfl | hbecomes⟩ := hrows row hrow
    · exact h.input_reached operation hoperation row hold hid
    · exact (h.input_reached operation hoperation old hold (hbecomes.id ▸ hid)).trans
        hbecomes.generation

theorem Later.updateResources {selects : ManagedResource → Bool}
    {write : ManagedResource → ManagedResource}
    (hwrite : ∀ row ∈ db.resources, selects row = true → row.Becomes (write row)) :
    Later db (db.updateResources selects write) := by
  refine ⟨le_refl _, (Later.refl db).operations, fun row hrow => ?_⟩
  rcases Table.mem_update.mp hrow with ⟨hold, -⟩ | ⟨old, hold, hselects, rfl⟩
  · exact (Later.refl db).resources row hold
  · have hbecomes := hwrite old hold hselects
    exact Or.inr ⟨old, hold, hbecomes.id.symm, hbecomes.generation⟩

end InPlaceWrites

/-! ## The changes a transaction makes -/

/-- The rows with an ask inserted. -/
def Database.inserted (db : Database) (now : Moment) (ask : Ask) : Database :=
  { db with
    serial := db.serial + 1
    operations := db.operations ++ [ask.operation db.serial now] }

/-- One change of the rows inside a transaction at `now`. -/
inductive Change (now : Moment) (db : Database) : Database → Prop
  /-- A declaration is created. -/
  | declare (row : ManagedResource) (hid : row.id = db.serial)
      (hobserved : row.observedGeneration = 0) (hstatus : row.status = .obj []) :
      Change now db { db with serial := db.serial + 1, resources := db.resources ++ [row] }
  /-- A declaration is rewritten, and is on. -/
  | rewrite (old row : ManagedResource) (hold : old ∈ db.resources) (hid : row.id = old.id)
      (hgeneration : old.generation ≤ row.generation)
      (hobserved : row.observedGeneration = old.observedGeneration)
      (hstatus : row.status = old.status) (hswitch : row.enabled = true) :
      Change now db (db.saveResource row)
  /-- A declaration is rewritten and off, and what waited for it is called off. -/
  | switchOff (old row : ManagedResource) (hold : old ∈ db.resources) (hid : row.id = old.id)
      (hgeneration : old.generation ≤ row.generation)
      (hobserved : row.observedGeneration = old.observedGeneration)
      (hstatus : row.status = old.status) :
      Change now db (callOffWaiting now row.id (db.saveResource row))
  /-- An operation is queued for a declaration that is on, or its removal is. -/
  | insert (ask : Ask) (row : ManagedResource) (hrow : row ∈ db.resources)
      (hid : row.id = ask.resource.id) (hinactive : db.active? ask.resource.id ask.action = none)
      (hgeneration : ask.input.generation ≤ row.generation)
      (hswitch : row.enabled = true ∨ ask.action = .delete) :
      Change now db (db.inserted now ask)
  | release : Change now db (releaseLapsed now db)
  | fail (operation : OperationRequest) (hoperation : operation ∈ db.operations)
      (hqueued : operation.state = .queued) (raised : Raised) :
      Change now db (failUnresolvable now operation.id raised db)
  | lease (operation : OperationRequest) (hoperation : operation ∈ db.operations)
      (hqueued : operation.state = .queued) (controllerId : String) (hnamed : controllerId ≠ "")
      (leaseSeconds : Int) :
      Change now db (db.updateOperations (fun row => row.id == operation.id)
        (ControlPlane.lease now controllerId leaseSeconds))
  | read (kind : String) : Change now db (requestReading now kind db)
  /-- Declarations nothing refers to go. -/
  | forget (gone : ManagedResource → Bool)
      (hfree : ∀ row ∈ db.resources, gone row = true →
        ∀ operation ∈ db.operations, operation.resource ≠ row.id) :
      Change now db { db with resources := Table.delete db.resources gone }

/-- A transaction: its changes in order. -/
abbrev Transaction (now : Moment) : Database → Database → Prop :=
  Relation.ReflTransGen (Change now)

section Changes

variable {now : Moment} {db stored : Database}

/-- A write that ends an operation keeps the constraints, whatever it was. -/
theorem OperationRequest.Becomes.of_finished {old new : OperationRequest} (hid : new.id = old.id)
    (hresource : new.resource = old.resource) (haction : new.action = old.action)
    (hinput : new.input = old.input) (hfinished : new.state.isActive = false)
    (hwhen : new.completedAt.isSome = true) : old.Becomes new where
  id := hid
  resource := hresource
  action := haction
  input := hinput
  active h := by rw [hfinished] at h; cases h
  queued_unclaimed h := by rw [h] at hfinished; cases hfinished
  claimed_leased h := by rw [h] at hfinished; cases hfinished
  finished_says_when := by rw [hfinished, hwhen]; rfl

theorem becomes_released (operation : OperationRequest) (h : operation.state = .claimed) :
    operation.Becomes (released db now operation) := by
  rw [released]
  split
  · exact .of_finished rfl rfl rfl rfl rfl rfl
  · exact ⟨rfl, rfl, rfl, rfl, fun _ => by rw [h]; rfl, fun _ => ⟨rfl, rfl, rfl⟩, nofun, rfl⟩

theorem becomes_leased (operation : OperationRequest) (h : operation.state = .queued)
    (hfinished : operation.completedAt.isSome = !operation.state.isActive)
    {controllerId : String} (hnamed : controllerId ≠ "") (leaseSeconds : Int) :
    operation.Becomes (lease now controllerId leaseSeconds operation) := by
  rw [h] at hfinished
  exact ⟨rfl, rfl, rfl, rfl, fun _ => by rw [h]; rfl, nofun, fun _ => ⟨hnamed, rfl⟩, hfinished⟩

theorem becomes_settled (operation : OperationRequest) (report : ControllerReport) :
    operation.Becomes (settled now report operation) :=
  .of_finished rfl rfl rfl rfl (settled_isActive now report operation) rfl

/-- The rows of a save: an update of the one row it names. -/
theorem becomes_saved (h : db.Sound) {old row : ManagedResource} (hold : old ∈ db.resources)
    (hid : row.id = old.id) (hgeneration : old.generation ≤ row.generation)
    (hobserved : row.observedGeneration = old.observedGeneration) :
    ∀ other ∈ db.resources, (other.id == row.id) = true → other.Becomes row := by
  intro other hother hsame
  have heq : other = old :=
    Table.eq_of_column_eq h.resource_ids hother hold ((beq_iff_eq.mp hsame).trans hid)
  have hreached := h.observed_reached old hold
  subst heq
  exact ⟨hid, hgeneration, by omega⟩

/-- A row with a queued operation's id is that operation. -/
theorem eq_of_id_beq (h : db.Sound) {operation row : OperationRequest}
    (hoperation : operation ∈ db.operations) (hrow : row ∈ db.operations)
    (hid : (row.id == operation.id) = true) : row = operation :=
  Table.eq_of_column_eq h.operation_ids hrow hoperation (beq_iff_eq.mp hid)

theorem Database.Sound.inserted (h : db.Sound) {ask : Ask} {row : ManagedResource}
    (hrow : row ∈ db.resources) (hid : row.id = ask.resource.id)
    (hinactive : db.active? ask.resource.id ask.action = none)
    (hgeneration : ask.input.generation ≤ row.generation) : (db.inserted now ask).Sound := by
  have hmem : ∀ operation ∈ (db.inserted now ask).operations,
      operation ∈ db.operations ∨ operation = ask.operation db.serial now := by
    intro operation hoperation
    simpa [Database.inserted] using hoperation
  have hinactive' := Database.active?_eq_none.mp hinactive
  refine ⟨?_, ?_, h.resource_ids, ?_, ?_, ?_, ?_, ?_, ?_, h.observed_reached, ?_⟩
  · exact Table.nodup_map_append_singleton h.operation_ids fun old hold =>
      (h.operation_old old hold).ne
  · intro operation hoperation
    rcases hmem operation hoperation with hold | rfl
    · exact (h.operation_old operation hold).trans (Nat.lt_succ_self _)
    · exact Nat.lt_succ_self _
  · exact fun resource hresource => (h.resource_old resource hresource).trans (Nat.lt_succ_self _)
  · intro operation hoperation
    rcases hmem operation hoperation with hold | rfl
    · exact h.resource_stored operation hold
    · exact ⟨row, hrow, hid⟩
  · intro first hfirst second hsecond hactive hactive' hresource haction
    rcases hmem first hfirst with hold | rfl <;> rcases hmem second hsecond with hold' | rfl
    · exact h.one_active first hold second hold' hactive hactive' hresource haction
    · rw [hinactive' first hold hresource haction] at hactive
      cases hactive
    · rw [hinactive' second hold' hresource.symm haction.symm] at hactive'
      cases hactive'
    · rfl
  · intro operation hoperation hstate
    rcases hmem operation hoperation with hold | rfl
    · exact h.queued_unclaimed operation hold hstate
    · exact ⟨rfl, rfl, rfl⟩
  · intro operation hoperation hstate
    rcases hmem operation hoperation with hold | rfl
    · exact h.claimed_leased operation hold hstate
    · cases hstate
  · intro operation hoperation
    rcases hmem operation hoperation with hold | rfl
    · exact h.finished_says_when operation hold
    · rfl
  · intro operation hoperation resource hresource hsame
    rcases hmem operation hoperation with hold | rfl
    · exact h.input_reached operation hold resource hresource hsame
    · have heq : resource = row :=
        Table.eq_of_column_eq h.resource_ids hresource hrow (hsame.trans hid.symm)
      rw [heq]
      exact hgeneration

theorem Later.inserted (db : Database) (ask : Ask) : Later db (db.inserted now ask) := by
  refine ⟨Nat.le_succ _, fun operation hoperation => ?_, (Later.refl db).resources⟩
  have hmem : operation ∈ db.operations ∨ operation = ask.operation db.serial now := by
    simpa [Database.inserted] using hoperation
  rcases hmem with hold | rfl
  · exact (Later.refl db).operations operation hold
  · exact Or.inl (le_refl _)

theorem Database.Sound.declared (h : db.Sound) {row : ManagedResource}
    (hid : row.id = db.serial) (hobserved : row.observedGeneration = 0) :
    Database.Sound
      { db with serial := db.serial + 1, resources := db.resources ++ [row] } := by
  have hmem : ∀ resource ∈ db.resources ++ [row], resource ∈ db.resources ∨ resource = row := by
    simp
  refine ⟨h.operation_ids, ?_, ?_, ?_, ?_, h.one_active, h.queued_unclaimed, h.claimed_leased,
    h.finished_says_when, ?_, ?_⟩
  · exact fun operation hold => (h.operation_old operation hold).trans (Nat.lt_succ_self _)
  · exact Table.nodup_map_append_singleton h.resource_ids fun old hold =>
      hid ▸ (h.resource_old old hold).ne
  · intro resource hresource
    rcases hmem resource hresource with hold | rfl
    · exact (h.resource_old resource hold).trans (Nat.lt_succ_self _)
    · rw [hid]
      exact Nat.lt_succ_self _
  · intro operation hoperation
    obtain ⟨resource, hresource, hsame⟩ := h.resource_stored operation hoperation
    exact ⟨resource, List.mem_append_left _ hresource, hsame⟩
  · intro resource hresource
    rcases hmem resource hresource with hold | rfl
    · exact h.observed_reached resource hold
    · rw [hobserved]
      exact Nat.zero_le _
  · intro operation hoperation resource hresource hsame
    rcases hmem resource hresource with hold | rfl
    · exact h.input_reached operation hoperation resource hold hsame
    · -- No stored operation can name a declaration that is only now created.
      obtain ⟨other, hother, hstored⟩ := h.resource_stored operation hoperation
      exact absurd (hstored.trans (hsame.symm.trans hid)) (h.resource_old other hother).ne

theorem Database.Sound.deleteResources (h : db.Sound) {gone : ManagedResource → Bool}
    (hfree : ∀ row ∈ db.resources, gone row = true →
      ∀ operation ∈ db.operations, operation.resource ≠ row.id) :
    Database.Sound { db with resources := Table.delete db.resources gone } := by
  refine ⟨h.operation_ids, h.operation_old, Table.nodup_map_delete h.resource_ids gone, ?_, ?_,
    h.one_active, h.queued_unclaimed, h.claimed_leased, h.finished_says_when, ?_, ?_⟩
  · exact fun row hrow => h.resource_old row (Table.mem_delete.mp hrow).1
  · intro operation hoperation
    obtain ⟨row, hrow, hid⟩ := h.resource_stored operation hoperation
    cases hgone : gone row with
    | true => exact absurd hid.symm (hfree row hrow hgone operation hoperation)
    | false => exact ⟨row, Table.mem_delete.mpr ⟨hrow, hgone⟩, hid⟩
  · exact fun row hrow => h.observed_reached row (Table.mem_delete.mp hrow).1
  · exact fun operation hoperation row hrow =>
      h.input_reached operation hoperation row (Table.mem_delete.mp hrow).1

theorem Later.deleteResources (db : Database) (gone : ManagedResource → Bool) :
    Later db { db with resources := Table.delete db.resources gone } :=
  ⟨le_refl _, (Later.refl db).operations,
    fun row hrow => (Later.refl db).resources row (Table.mem_delete.mp hrow).1⟩

theorem Database.Sound.read (h : db.Sound) (kind : String) : (requestReading now kind db).Sound := by
  rw [requestReading]
  split <;> exact ⟨h.operation_ids, h.operation_old, h.resource_ids, h.resource_old,
    h.resource_stored, h.one_active, h.queued_unclaimed, h.claimed_leased, h.finished_says_when,
    h.observed_reached, h.input_reached⟩

theorem Later.read (db : Database) (kind : String) : Later db (requestReading now kind db) := by
  rw [requestReading]
  split <;> exact ⟨le_refl _, (Later.refl db).operations, (Later.refl db).resources⟩

/-- Every change keeps the rows sound and moves them on. -/
theorem Change.sound_later (h : Change now db stored) (hsound : db.Sound) :
    stored.Sound ∧ Later db stored := by
  cases h with
  | declare row hid hobserved hstatus =>
      refine ⟨hsound.declared hid hobserved, ⟨Nat.le_succ _, (Later.refl db).operations, ?_⟩⟩
      intro resource hresource
      rcases List.mem_append.mp hresource with hold | hnew
      · exact (Later.refl db).resources resource hold
      · rw [List.mem_singleton.mp hnew, hid]
        exact Or.inl (le_refl _)
  | rewrite old row hold hid hgeneration hobserved hstatus hswitch =>
      have hbecomes := becomes_saved hsound hold hid hgeneration hobserved
      exact ⟨hsound.updateResources hbecomes, Later.updateResources hbecomes⟩
  | switchOff old row hold hid hgeneration hobserved hstatus =>
      have hbecomes := becomes_saved hsound hold hid hgeneration hobserved
      have hsaved := hsound.updateResources hbecomes
      have hoff : ∀ operation ∈ (db.saveResource row).operations,
          operation.waitsFor row.id = true → operation.Becomes (calledOff now operation) :=
        fun operation _ _ => .of_finished rfl rfl rfl rfl rfl rfl
      exact ⟨hsaved.updateOperations hoff,
        (Later.updateResources hbecomes).trans (Later.updateOperations hoff)⟩
  | insert ask row hrow hid hinactive hgeneration hswitch =>
      exact ⟨hsound.inserted hrow hid hinactive hgeneration, Later.inserted db ask⟩
  | release =>
      have hbecomes : ∀ row ∈ db.operations, row.isLapsed now = true →
          row.Becomes (released db now row) := by
        intro row _ hlapsed
        rw [OperationRequest.isLapsed, Bool.and_eq_true, beq_iff_eq] at hlapsed
        exact becomes_released row hlapsed.1
      exact ⟨hsound.updateOperations hbecomes, Later.updateOperations hbecomes⟩
  | fail operation hoperation hqueued raised =>
      have hbecomes : ∀ row ∈ db.operations, (row.id == operation.id) = true →
          row.Becomes (unresolvable now raised row) :=
        fun row _ _ => .of_finished rfl rfl rfl rfl rfl rfl
      exact ⟨hsound.updateOperations hbecomes, Later.updateOperations hbecomes⟩
  | lease operation hoperation hqueued controllerId hnamed leaseSeconds =>
      have hbecomes : ∀ row ∈ db.operations, (row.id == operation.id) = true →
          row.Becomes (ControlPlane.lease now controllerId leaseSeconds row) := by
        intro row hrow hid
        rw [eq_of_id_beq hsound hoperation hrow hid]
        exact becomes_leased operation hqueued (hsound.finished_says_when operation hoperation)
          hnamed leaseSeconds
      exact ⟨hsound.updateOperations hbecomes, Later.updateOperations hbecomes⟩
  | read kind => exact ⟨hsound.read kind, Later.read db kind⟩
  | forget gone hfree => exact ⟨hsound.deleteResources hfree, Later.deleteResources db gone⟩

theorem Transaction.sound_later (h : Transaction now db stored) (hsound : db.Sound) :
    stored.Sound ∧ Later db stored := by
  induction h with
  | refl => exact ⟨hsound, Later.refl db⟩
  | tail _ hchange ih =>
      obtain ⟨hnext, hlater⟩ := hchange.sound_later ih.1
      exact ⟨hnext, ih.2.trans hlater⟩

end Changes

/-! ## Each transactional function -/

section Functions

variable {env : Environment} {now : Moment} {db stored : Database}

/-- What an insert was guarded by. -/
theorem create_eq_ok {ask : Ask} {operation : OperationRequest}
    (h : db.create now ask = .ok (stored, operation)) :
    db.active? ask.resource.id ask.action = none ∧
      (∃ row ∈ db.resources, row.id = ask.resource.id) ∧ stored = db.inserted now ask := by
  unfold Database.create at h
  split_ifs at h with hkey hactive hresource
  cases h
  cases hfound : db.resource? ask.resource.id with
  | none => simp [hfound] at hresource
  | some row => exact ⟨by simpa using hactive, ⟨row, Database.mem_of_resource? hfound⟩, rfl⟩

/-- What the last statement of an enqueue leaves: nothing new, or its insert. -/
theorem createOrGet_eq_ok {ask : Ask} {operation : OperationRequest} {queued : Bool}
    (h : createOrGet now ask db = .ok (stored, operation, queued)) :
    stored = db ∨ db.create now ask = .ok (stored, operation) := by
  unfold createOrGet at h
  split at h
  · next created hcreated =>
      cases h
      exact Or.inr hcreated
  · split at h
    · cases h
      exact Or.inl rfl
    · cases h

theorem enqueue_eq_ok {ask : Ask} {operation : OperationRequest} {queued : Bool}
    (h : enqueue now ask db = .ok (stored, operation, queued)) :
    stored = db ∨ db.create now ask = .ok (stored, operation) := by
  unfold enqueue at h
  split at h
  · cases h
    exact Or.inl rfl
  · split at h
    · cases h
      exact Or.inl rfl
    · exact createOrGet_eq_ok h

/-- An ask that a transaction may enqueue: made of a declaration as it stands,
which is on unless its removal is asked. -/
structure Ask.Prompt (ask : Ask) (db : Database) : Prop where
  old : ask.resource.id < db.serial
  generation : ∀ row ∈ db.resources, row.id = ask.resource.id →
    ask.input.generation ≤ row.generation
  switch : ∀ row ∈ db.resources, row.id = ask.resource.id →
    row.enabled = true ∨ ask.action = .delete

theorem enqueue_transaction {ask : Ask} {operation : OperationRequest} {queued : Bool}
    (hprompt : ask.Prompt db) (h : enqueue now ask db = .ok (stored, operation, queued)) :
    Transaction now db stored := by
  rcases enqueue_eq_ok h with rfl | hcreate
  · exact .refl
  · obtain ⟨hinactive, ⟨row, hrow, hid⟩, rfl⟩ := create_eq_ok hcreate
    exact .single (.insert ask row hrow hid hinactive (hprompt.generation row hrow hid)
      (hprompt.switch row hrow hid))

/-- What `_queue_operation` checked of the declaration an ask is made of. -/
theorem askOperation_eq_ok {resource : ManagedResource} {command : OperationCommand}
    {principal : Principal} {action : Action} {requireEnabled : Bool} {ask : Ask}
    (h : askOperation env resource command principal action requireEnabled = .ok ask) :
    ask.resource = resource ∧ ask.action = action ∧ ask.input.generation = resource.generation ∧
      (requireEnabled = true → resource.enabled = true) := by
  unfold askOperation at h
  split_ifs at h with hswitch
  all_goals
    cases h
    exact ⟨rfl, rfl, rfl, fun hrequired => by simpa [hrequired] using hswitch⟩

/-- A declaration as a transaction holds it: its row has the same switch, and a
generation no older. -/
structure ManagedResource.Held (resource : ManagedResource) (db : Database) : Prop where
  old : resource.id < db.serial
  generation : ∀ row ∈ db.resources, row.id = resource.id → resource.generation ≤ row.generation
  switch : ∀ row ∈ db.resources, row.id = resource.id → row.enabled = resource.enabled

theorem ManagedResource.held_of_mem (h : db.Sound) {resource : ManagedResource}
    (hresource : resource ∈ db.resources) : resource.Held db := by
  have heq : ∀ row ∈ db.resources, row.id = resource.id → row = resource :=
    fun row hrow hid => Table.eq_of_column_eq h.resource_ids hrow hresource hid
  exact ⟨h.resource_old resource hresource, fun row hrow hid => (heq row hrow hid) ▸ le_refl _,
    fun row hrow hid => (heq row hrow hid) ▸ rfl⟩

theorem prompt_of_askOperation {resource : ManagedResource} {command : OperationCommand}
    {principal : Principal} {action : Action} {requireEnabled : Bool} {ask : Ask}
    (hheld : resource.Held db) (hswitch : requireEnabled = true ∨ action = .delete)
    (h : askOperation env resource command principal action requireEnabled = .ok ask) :
    ask.Prompt db := by
  obtain ⟨rfl, rfl, hinput, henabled⟩ := askOperation_eq_ok h
  refine ⟨hheld.old, fun row hrow hid => hinput ▸ hheld.generation row hrow hid, fun row hrow hid => ?_⟩
  rcases hswitch with hrequired | hdelete
  · exact Or.inl ((hheld.switch row hrow hid).trans (henabled hrequired))
  · exact Or.inr hdelete

theorem queueOperation_transaction {resource : ManagedResource} {command : OperationCommand}
    {principal : Principal} {action : Action} {requireEnabled : Bool} {queued : Queued}
    (hheld : resource.Held db) (hswitch : requireEnabled = true ∨ action = .delete)
    (h : queueOperation env now resource command principal action requireEnabled db = .ok queued) :
    Transaction now db queued.db := by
  obtain ⟨ask, hask, h⟩ := exists_of_bind_eq_ok h
  obtain ⟨⟨stored, operation, created⟩, henqueue, h⟩ := exists_of_bind_eq_ok h
  dsimp only at h
  split_ifs at h
  · cases h
  · cases h
    exact enqueue_transaction (prompt_of_askOperation hheld hswitch hask) henqueue

theorem resourceForOperation_eq_ok {key : String} {resource : ManagedResource}
    (h : resourceForOperation db key = .ok resource) : resource ∈ db.resources := by
  unfold resourceForOperation at h
  split at h
  · next found hfound =>
      cases h
      exact (Database.mem_of_resourceNamed? hfound).1
  · cases h

theorem requestReconcile_transaction {command : OperationCommand} {principal : Principal}
    {key : String} {queued : Queued} (hsound : db.Sound)
    (h : requestReconcile env now command principal key db = .ok queued) :
    Transaction now db queued.db := by
  obtain ⟨resource, hresource, h⟩ := exists_of_bind_eq_ok h
  have hheld := ManagedResource.held_of_mem hsound (resourceForOperation_eq_ok hresource)
  dsimp only at h
  split_ifs at h
  · cases h
  · exact queueOperation_transaction hheld (Or.inl rfl) h

theorem requestLifecycle_transaction {command : OperationCommand} {principal : Principal}
    {key : String} {action : Action} {queued : Queued} (hsound : db.Sound)
    (h : requestLifecycle env now command principal key action db = .ok queued) :
    Transaction now db queued.db := by
  obtain ⟨resource, hresource, h⟩ := exists_of_bind_eq_ok h
  have hheld := ManagedResource.held_of_mem hsound (resourceForOperation_eq_ok hresource)
  dsimp only at h
  split_ifs at h
  · cases h
  · obtain ⟨inner, hinner, h⟩ := exists_of_bind_eq_ok h
    have hqueued := queueOperation_transaction hheld (Or.inl rfl) hinner
    split_ifs at h
    · cases h
      exact hqueued.tail (.read resource.kind)
    · cases h
      exact hqueued

theorem requestRouteApproval_transaction {command : OperationCommand} {principal : Principal}
    {key : String} {queued : Queued} (hsound : db.Sound)
    (h : requestRouteApproval env now command principal key db = .ok queued) :
    Transaction now db queued.db := by
  obtain ⟨resource, hresource, h⟩ := exists_of_bind_eq_ok h
  have hheld := ManagedResource.held_of_mem hsound (resourceForOperation_eq_ok hresource)
  exact queueOperation_transaction hheld (Or.inl rfl) h

theorem prompt_of_askRemoval {command : OperationCommand} {principal : Principal} {key : String}
    {ask : Ask} (hsound : db.Sound)
    (h : askRemoval env command principal key db = .ok (.ask ask)) : ask.Prompt db := by
  obtain ⟨resource, hresource, h⟩ := exists_of_bind_eq_ok h
  have hheld := ManagedResource.held_of_mem hsound (resourceForOperation_eq_ok hresource)
  dsimp only at h
  split_ifs at h
  · cases h
  · cases h
  · obtain ⟨inner, hinner, h⟩ := exists_of_bind_eq_ok h
    cases h
    exact prompt_of_askOperation hheld (Or.inr rfl) hinner

theorem prompt_of_askCertificateRenewal {command : OperationCommand} {principal : Principal}
    {key : String} {ask : Ask} (hsound : db.Sound)
    (h : askCertificateRenewal env now command principal key db = .ok ask) : ask.Prompt db := by
  obtain ⟨resource, hresource, h⟩ := exists_of_bind_eq_ok h
  have hheld := ManagedResource.held_of_mem hsound (resourceForOperation_eq_ok hresource)
  dsimp only at h
  split_ifs at h
  · cases h
  · exact prompt_of_askOperation hheld (Or.inl rfl) h

/-- The asks of the automatic pass are prompt when it makes them. -/
theorem prompt_of_mem_automaticAsks {controllerId : String} {ask : Ask} (hsound : db.Sound)
    (h : ask ∈ automaticAsks env now controllerId db) : ask.Prompt db := by
  obtain ⟨resource, hresource, hask⟩ := List.mem_filterMap.mp h
  obtain ⟨hstored, henabled⟩ := List.mem_filter.mp hresource
  have hheld := ManagedResource.held_of_mem hsound hstored
  have hmade : ask.resource = resource ∧ ask.input.generation = resource.generation := by
    unfold automaticAsk at hask
    split_ifs at hask
    obtain ⟨action, -, haction⟩ := List.exists_of_findSome?_eq_some hask
    obtain ⟨found, -, rfl⟩ := Option.map_eq_some_iff.mp haction
    exact ⟨rfl, rfl⟩
  obtain ⟨rfl, hinput⟩ := hmade
  refine ⟨hheld.old, fun row hrow hid => hinput ▸ hheld.generation row hrow hid, fun row hrow hid => ?_⟩
  rw [hheld.switch row hrow hid]
  exact Or.inl (Bool.and_eq_true _ _ ▸ henabled).1

theorem queueRepairs_transaction {began : Moment} {controllerId : String} {repairs : List Repair}
    (hsound : db.Sound) (h : queueRepairs env began now controllerId repairs db = .ok stored) :
    Transaction now db stored := by
  induction repairs generalizing db with
  | nil =>
      cases h
      exact .refl
  | cons repair repairs ih =>
      rw [queueRepairs] at h
      split at h
      · exact ih hsound h
      · next resource hresource =>
          split_ifs at h
          · exact ih hsound h
          · split at h
            · cases h
            · next between hbetween =>
                have hfound := List.find?_some hresource
                have hheld := ManagedResource.held_of_mem hsound
                  (List.mem_of_find?_eq_some hresource)
                have hprompt : (repairAsk env began controllerId repair resource).Prompt db := by
                  refine ⟨hheld.old, hheld.generation, fun row hrow hid => Or.inl ?_⟩
                  rw [hheld.switch row hrow hid]
                  exact (Bool.and_eq_true _ _ ▸ hfound).2
                have hfirst := enqueue_transaction hprompt hbetween
                exact hfirst.trans (ih (hfirst.sound_later hsound).1 h)

theorem findingRepairs_transaction {began : Moment} {controllerId : String} (hsound : db.Sound)
    (h : findingRepairs env began now controllerId db = .ok stored) :
    Transaction now db stored := by
  unfold findingRepairs at h
  split_ifs at h
  · exact queueRepairs_transaction hsound h
  · cases h
    exact .refl

theorem advanced_eq_some {resource moved : ManagedResource}
    (h : advanced env now db resource = some moved) :
    moved.id = resource.id ∧ resource.generation ≤ moved.generation ∧
      moved.observedGeneration = resource.observedGeneration ∧ moved.status = resource.status ∧
        moved.enabled = resource.enabled := by
  unfold advanced at h
  dsimp only at h
  split_ifs at h
  all_goals
    cases h
    exact ⟨rfl, by simp, rfl, rfl, rfl⟩

/-- The rows after one save, by where they come from. -/
theorem mem_saveResource {row other : ManagedResource}
    (h : other ∈ (db.saveResource row).resources) :
    other ∈ db.resources ∧ other.id ≠ row.id ∨ other = row := by
  rcases Table.mem_update.mp h with ⟨hold, hother⟩ | ⟨old, -, -, rfl⟩
  · exact Or.inl ⟨hold, by simpa using hother⟩
  · exact Or.inr rfl

theorem mem_saveResource_of_ne {row other : ManagedResource} (h : other ∈ db.resources)
    (hne : other.id ≠ row.id) : other ∈ (db.saveResource row).resources :=
  Table.mem_update.mpr (Or.inl ⟨h, by simpa using hne⟩)

/-- The dependents' pass is a transaction, and a declaration held before it is
held after it. -/
theorem advanceRows_transaction {rows : List ManagedResource} (hsound : db.Sound)
    (hnodup : (rows.map ManagedResource.id).Nodup)
    (hrows : ∀ row ∈ rows, row ∈ db.resources ∧ row.enabled = true)
    (h : advanceRows env now rows db = .ok stored) :
    Transaction now db stored ∧
      ∀ resource : ManagedResource, resource.Held db → resource.Held stored := by
  induction rows generalizing db with
  | nil =>
      cases h
      exact ⟨.refl, fun _ hheld => hheld⟩
  | cons row rows ih =>
      rw [List.map_cons, List.nodup_cons] at hnodup
      obtain ⟨hrow, hrest⟩ := List.forall_mem_cons.mp hrows
      rw [advanceRows] at h
      split at h
      · exact ih hsound hnodup.2 hrest h
      · next moved hmoved =>
          obtain ⟨hid, hgeneration, hobserved, hstatus, henabled⟩ := advanced_eq_some hmoved
          obtain ⟨-, -, h⟩ := exists_of_bind_eq_ok h
          have hchange : Change now db (db.saveResource moved) :=
            .rewrite row moved hrow.1 hid hgeneration hobserved hstatus (henabled.trans hrow.2)
          have hremain : ∀ other ∈ rows,
              other ∈ (db.saveResource moved).resources ∧ other.enabled = true := by
            intro other hother
            refine ⟨mem_saveResource_of_ne (hrest other hother).1 ?_, (hrest other hother).2⟩
            rintro hsame
            exact hnodup.1 (List.mem_map.mpr ⟨other, hother, hsame.trans hid⟩)
          obtain ⟨htransaction, hkept⟩ := ih (hchange.sound_later hsound).1 hnodup.2 hremain h
          refine ⟨.head hchange htransaction, fun resource hheld => hkept resource ⟨hheld.old, ?_, ?_⟩⟩
          · intro other hother hsame
            rcases mem_saveResource hother with ⟨hold, -⟩ | rfl
            · exact hheld.generation other hold hsame
            · exact (hheld.generation row hrow.1 (hid ▸ hsame)).trans hgeneration
          · intro other hother hsame
            rcases mem_saveResource hother with ⟨hold, -⟩ | rfl
            · exact hheld.switch other hold hsame
            · exact henabled.trans (hheld.switch row hrow.1 (hid ▸ hsame))

theorem advanceDependents_transaction (hsound : db.Sound)
    (h : advanceDependents env now db = .ok stored) :
    Transaction now db stored ∧
      ∀ resource : ManagedResource, resource.Held db → resource.Held stored := by
  apply advanceRows_transaction hsound _ _ h
  · exact hsound.resource_ids.sublist (List.filter_sublist.map _)
  · intro row hrow
    exact List.mem_filter.mp hrow

theorem exists_declared_of_prepareSave {call : SaveCall} {prepared : PreparedSave}
    (h : prepareSave env now call db = .ok prepared) :
    ∃ resource validated, call.start now db = .ok resource ∧
      env.validateSpec (call.effective resource).kind (call.effective resource).spec =
        .ok validated ∧
      prepared = declared env now db call.currentKey.isNone resource (call.effective resource)
        validated := by
  obtain ⟨resource, hresource, h⟩ := exists_of_bind_eq_ok h
  dsimp only at h
  split_ifs at h
  · cases h
  · cases h
  · obtain ⟨validated, hvalidated, h⟩ := exists_of_bind_eq_ok h
    obtain ⟨-, -, h⟩ := exists_of_bind_eq_ok h
    obtain ⟨-, -, h⟩ := exists_of_bind_eq_ok h
    exact ⟨resource, validated, hresource, hvalidated, (Except.ok.inj h).symm⟩
  · obtain ⟨validated, hvalidated, h⟩ := exists_of_bind_eq_ok h
    obtain ⟨-, -, h⟩ := exists_of_bind_eq_ok h
    exact ⟨resource, validated, hresource, hvalidated, (Except.ok.inj h).symm⟩

theorem mem_of_held {key : String} {expectedUpdatedAt : Option Moment}
    {resource : ManagedResource} (h : held db key expectedUpdatedAt = .ok resource) :
    resource ∈ db.resources := by
  unfold held at h
  split at h
  · cases h
  · next found hfound =>
      split_ifs at h
      cases h
      exact (Database.mem_of_resourceNamed? hfound).1

/-- The row a save prepares, by the record it started from. -/
theorem prepareSave_eq_ok {call : SaveCall} {prepared : PreparedSave}
    (h : prepareSave env now call db = .ok prepared) :
    (prepared.created = true ∧ prepared.resource.id = db.serial ∧
        prepared.resource.observedGeneration = 0 ∧ prepared.resource.status = .obj []) ∨
      prepared.created = false ∧ ∃ old ∈ db.resources, prepared.resource.id = old.id ∧
        old.generation ≤ prepared.resource.generation ∧
          prepared.resource.observedGeneration = old.observedGeneration ∧
            prepared.resource.status = old.status := by
  obtain ⟨resource, validated, hresource, -, rfl⟩ := exists_declared_of_prepareSave h
  unfold SaveCall.start at hresource
  split at hresource
  · next hkey =>
      cases hresource
      exact Or.inl ⟨by rw [hkey]; rfl, rfl, rfl, rfl⟩
  · next key hkey =>
      have hstored : resource ∈ db.resources := mem_of_held hresource
      refine Or.inr ⟨by rw [hkey]; rfl, resource, hstored, rfl, ?_, rfl, rfl⟩
      rw [declared]
      dsimp only
      split <;> omega

/-- The first writes of a save are a transaction that leaves its row stored. -/
theorem writeSaved_transaction {call : SaveCall} {prepared : PreparedSave}
    (h : prepareSave env now call db = .ok prepared) :
    Transaction now db (writeSaved now prepared db) ∧
      prepared.resource ∈ (writeSaved now prepared db).resources := by
  rcases prepareSave_eq_ok h with ⟨hcreated, hid, hobserved, hstatus⟩ |
    ⟨hcreated, old, hold, hid, hgeneration, hobserved, hstatus⟩
  · rw [writeSaved, if_pos hcreated]
    exact ⟨.single (.declare _ hid hobserved hstatus), by simp⟩
  · have hmem : prepared.resource ∈ (db.saveResource prepared.resource).resources :=
      Table.mem_update.mpr (Or.inr ⟨old, hold, by simpa using hid.symm, rfl⟩)
    rw [writeSaved, if_neg (by simp [hcreated])]
    split_ifs with hswitch
    · exact ⟨.single (.rewrite old _ hold hid hgeneration hobserved hstatus hswitch), hmem⟩
    · exact ⟨.single (.switchOff old _ hold hid hgeneration hobserved hstatus), hmem⟩

theorem applySaved_transaction {resource : ManagedResource} {principal : Principal}
    (hheld : resource.Held db) (h : applySaved env now resource principal db = .ok stored) :
    Transaction now db stored := by
  unfold applySaved at h
  split_ifs at h
  · cases h
    exact .refl
  · obtain ⟨queued, hqueued, rfl⟩ := exists_of_map_eq_ok h
    exact queueOperation_transaction hheld (Or.inl rfl) hqueued

theorem saveManagedResource_transaction {call : SaveCall} {prepared : PreparedSave}
    (hsound : db.Sound)
    (h : saveManagedResource env now call db = .ok (prepared, stored)) :
    Transaction now db stored := by
  obtain ⟨inner, hprepare, h⟩ := exists_of_bind_eq_ok h
  obtain ⟨hwritten, hstored⟩ := writeSaved_transaction hprepare
  have hsaved := (hwritten.sound_later hsound).1
  obtain ⟨moved, hmoved, h⟩ := exists_of_bind_eq_ok h
  obtain ⟨applied, happlied, h⟩ := exists_of_bind_eq_ok h
  cases h
  have hadvanced : Transaction now (writeSaved now prepared db) moved ∧
      prepared.resource.Held moved := by
    have hheld := ManagedResource.held_of_mem hsaved hstored
    unfold advanceAfter at hmoved
    split_ifs at hmoved
    · obtain ⟨htransaction, hkept⟩ := advanceDependents_transaction hsaved hmoved
      exact ⟨htransaction, hkept _ hheld⟩
    · cases hmoved
      exact ⟨.refl, hheld⟩
  have hlast : Transaction now moved stored := by
    unfold applyAfter at happlied
    split_ifs at happlied
    · exact applySaved_transaction hadvanced.2 happlied
    · cases happlied
      exact .refl
  exact (hwritten.trans hadvanced.1).trans hlast

theorem forgetDeclaration_transaction {resource : ManagedResource} (hsound : db.Sound)
    (h : forgetDeclaration env now resource db = .ok stored) : Transaction now db stored := by
  unfold forgetDeclaration at h
  dsimp only at h
  split_ifs at h with hrefers hinput
  all_goals
    have hforget : Change now db _ := .forget
      (fun row => row.id == resource.id || env.contains resource row) (by
        intro row hrow hgone operation hoperation hid
        exact hrefers (List.any_eq_true.mpr ⟨row, hrow, by
          rw [Bool.and_eq_true]
          exact ⟨hgone, List.any_eq_true.mpr ⟨operation, hoperation, by simpa using hid⟩⟩⟩))
  · exact .head hforget
      (advanceDependents_transaction (hforget.sound_later hsound).1 h).1
  · cases h
    exact .single hforget

/-- The contract a claim hands out is made of the operation's declaration. -/
structure Describes (db : Database) (operation : OperationRequest) (contract : Contract) : Prop where
  queued : operation ∈ db.operations ∧ operation.state = .queued
  resource : ∃ resource ∈ db.resources, resource.id = operation.resource ∧
    contract.generation = resource.generation ∧ contract.enabled = resource.enabled

theorem nextResolvable_transaction {operations : List OperationRequest} (hsound : db.Sound)
    (hnodup : (operations.map OperationRequest.id).Nodup)
    (hqueued : ∀ operation ∈ operations, operation ∈ db.operations ∧ operation.state = .queued) :
    Transaction now db (nextResolvable env now operations db).1 ∧
      ∀ operation contract, (nextResolvable env now operations db).2 = some (operation, contract) →
        Describes (nextResolvable env now operations db).1 operation contract := by
  induction operations generalizing db with
  | nil =>
      rw [nextResolvable]
      exact ⟨.refl, fun _ _ h => (Option.some_ne_none _ h.symm).elim⟩
  | cons operation operations ih =>
      rw [List.map_cons, List.nodup_cons] at hnodup
      obtain ⟨hfirst, hrest⟩ := List.forall_mem_cons.mp hqueued
      rw [nextResolvable]
      split
      · exact ih hsound hnodup.2 hrest
      · next resource hresource =>
          split
          · next contract hcontract =>
              refine ⟨.refl, fun picked answer h => ?_⟩
              obtain ⟨rfl, rfl⟩ := Prod.mk.inj (Option.some.inj h)
              obtain ⟨spec, -, rfl⟩ := exists_of_map_eq_ok hcontract
              obtain ⟨hstored, hid⟩ := Database.mem_of_resource? hresource
              exact ⟨hfirst, resource, hstored, hid, rfl, rfl⟩
          · next raised hraised =>
              have hchange : Change now db (failUnresolvable now operation.id raised db) :=
                .fail operation hfirst.1 hfirst.2 raised
              have hremain : ∀ other ∈ operations,
                  other ∈ (failUnresolvable now operation.id raised db).operations ∧
                    other.state = .queued := by
                intro other hother
                refine ⟨Table.mem_update.mpr (Or.inl ⟨(hrest other hother).1, ?_⟩),
                  (hrest other hother).2⟩
                simp only [beq_eq_false_iff_ne]
                rintro hsame
                exact hnodup.1 (List.mem_map.mpr ⟨other, hother, hsame⟩)
              obtain ⟨htransaction, hdescribes⟩ :=
                ih (hchange.sound_later hsound).1 hnodup.2 hremain
              exact ⟨.head hchange htransaction, hdescribes⟩

theorem pickClaim_transaction (env : Environment) (now : Moment) (call : ClaimCall)
    (hsound : db.Sound) :
    Transaction now db (pickClaim env now call db).1 ∧
      ∀ operation contract, (pickClaim env now call db).2 = some (operation, contract) →
        Describes (pickClaim env now call db).1 operation contract := by
  have hrelease : Change now db (releaseLapsed now db) := .release
  have hreleased := (hrelease.sound_later hsound).1
  have hperm := List.perm_insertionSort
    (fun first second : OperationRequest => first.createdAt ≤ second.createdAt)
    ((releaseLapsed now db).operations.filter fun operation =>
      operation.state == .queued && !env.heldAskers operation
        && (releaseLapsed now db).isCompatible call.capabilities operation)
  have hnodup : ((claimable env call.capabilities (releaseLapsed now db)).map
      OperationRequest.id).Nodup :=
    (hperm.map OperationRequest.id).nodup_iff.mpr
      (hreleased.operation_ids.sublist (List.filter_sublist.map _))
  have hqueued : ∀ operation ∈ claimable env call.capabilities (releaseLapsed now db),
      operation ∈ (releaseLapsed now db).operations ∧ operation.state = .queued := by
    intro operation hoperation
    obtain ⟨hstored, hselected⟩ := List.mem_filter.mp (hperm.mem_iff.mp hoperation)
    simp only [Bool.and_eq_true, beq_iff_eq] at hselected
    exact ⟨hstored, hselected.1.1⟩
  obtain ⟨htransaction, hdescribes⟩ := nextResolvable_transaction hreleased hnodup hqueued
  exact ⟨.head hrelease htransaction, hdescribes⟩

/-- A claim is a transaction, and what it hands out described a queued operation
just before it was leased. -/
theorem claimNextOperation_transaction {call : ClaimCall} {claimed : Option Claimed}
    (hsound : db.Sound) (h : claimNextOperation env now call db = .ok (stored, claimed)) :
    Transaction now db stored ∧ ∀ answer, claimed = some answer →
      ∃ before operation, Transaction now db before ∧
        (pickClaim env now call db) = (before, some (operation, answer.contract)) ∧
        Describes before operation answer.contract ∧
        answer.operation = lease now call.controllerId call.leaseSeconds operation ∧
        stored = before.updateOperations (fun row => row.id == operation.id)
          (lease now call.controllerId call.leaseSeconds) := by
  obtain ⟨hpick, hdescribes⟩ := pickClaim_transaction env now call hsound
  unfold claimNextOperation at h
  split_ifs at h with hseconds hcontroller
  split at h
  · next before hbefore =>
      obtain ⟨rfl, rfl⟩ := Prod.mk.inj (Except.ok.inj h)
      rw [hbefore] at hpick
      exact ⟨hpick, fun _ h => (Option.some_ne_none _ h.symm).elim⟩
  · next before operation contract hbefore =>
      obtain ⟨rfl, rfl⟩ := Prod.mk.inj (Except.ok.inj h)
      rw [hbefore] at hpick hdescribes
      have hdescribed := hdescribes operation contract rfl
      refine ⟨hpick.tail (.lease operation hdescribed.queued.1 hdescribed.queued.2 _ hcontroller _),
        fun answer h => ?_⟩
      obtain rfl := Option.some.inj h
      exact ⟨before, operation, hpick, hbefore, hdescribed, rfl, rfl⟩

end Functions

end SeverinoHQ.ControlPlane
