/-
# One report, with nothing beside it

`report_operation` carries no transaction of its own: the decorator that was
meant for it stands on the helper above it, and its bridge caller opens none.
Each of its writes is committed as it is made. This file runs one report to its
end, with any of its statements refused by the database, and says exactly when
such a call is all or nothing.
-/

import SeverinoHQ.ControlPlane.Controller

namespace SeverinoHQ.ControlPlane

open SeverinoHQ.Math

/-! ## The call -/

/-- One call of `report_operation`. -/
structure ReportCall where
  operationId : Id
  report : ControllerReport
  controllerId : String
  deriving DecidableEq, Repr

/-- What a report answers. -/
structure Reported where
  operation : OperationRequest
  resource : ManagedResource
  removed : Bool
  deriving DecidableEq, Repr

/-- The writes of a report, made one after the other. The first that the
database refuses, or that raises by itself, ends the call; what was written
before it stays. -/
def performWrites (env : Environment) (clock : ReportWrite → Moment) (fails : ReportWrite → Bool)
    (reporting : Reporting) : List ReportWrite → Database → Database × Except Raised Unit
  | [], db => (db, .ok ())
  | write :: writes, db =>
      if fails write then
        (db, .error (.databaseError "The statement failed."))
      else
        match performWrite env (clock write) reporting db write with
        | .error raised => (db, .error raised)
        | .ok stored => performWrites env clock fails reporting writes stored

/-- `report_operation`. The check of the lease reads the clock at `now`, and
each write at the moment `clock` gives it. -/
def reportOperation (env : Environment) (now : Moment) (clock : ReportWrite → Moment)
    (fails : ReportWrite → Bool) (call : ReportCall) (db : Database) :
    Database × Except Raised Reported :=
  match acceptReport now call.operationId call.report call.controllerId db with
  | .error raised => (db, .error raised)
  | .ok reporting =>
      match performWrites env clock fails reporting (reporting.writes env) db with
      | (stored, .error raised) => (stored, .error raised)
      | (stored, .ok ()) => (stored, .ok {
          operation := settled (clock .saveOperation) call.report reporting.operation
          resource := recorded (clock .saveResource) reporting reporting.resource
          removed := call.report.success && reporting.operation.action == .delete })

/-- What a report checks before it writes anything. -/
structure Acceptable (now : Moment) (call : ReportCall) (db : Database)
    (operation : OperationRequest) (resource : ManagedResource) : Prop where
  operation_found : db.operation? call.operationId = some operation
  resource_found : db.resource? operation.resource = some resource
  claimed : operation.state = .claimed
  by_its_controller : operation.claimedBy = call.controllerId
  under_its_lease : operation.isLapsed now = false
  generation_matches : call.report.observedGeneration = operation.input.generation

theorem Acceptable.acceptReport_eq {now : Moment} {call : ReportCall} {db : Database}
    {operation : OperationRequest} {resource : ManagedResource}
    (h : Acceptable now call db operation resource) :
    acceptReport now call.operationId call.report call.controllerId db =
      .ok ⟨operation, resource, call.report⟩ := by
  rw [acceptReport, h.operation_found]
  simp only [h.resource_found]
  rw [if_neg (not_not.mpr h.claimed), if_neg (not_not.mpr h.by_its_controller),
    if_neg (by simp [h.under_its_lease]), if_neg (not_not.mpr h.generation_matches)]

theorem acceptable_of_acceptReport {now : Moment} {call : ReportCall} {db : Database}
    {reporting : Reporting}
    (h : acceptReport now call.operationId call.report call.controllerId db = .ok reporting) :
    Acceptable now call db reporting.operation reporting.resource ∧
      reporting.report = call.report := by
  unfold acceptReport at h
  split at h
  · cases h
  · next operation hoperation =>
      split at h
      · cases h
      · next resource hresource =>
          split_ifs at h with hclaimed hcontroller hlease hgeneration
          cases h
          exact ⟨⟨hoperation, hresource, not_not.mp hclaimed, not_not.mp hcontroller,
            by simpa using hlease, not_not.mp hgeneration⟩, rfl⟩

theorem Acceptable.unique {now : Moment} {call : ReportCall} {db : Database}
    {operation other : OperationRequest} {resource second : ManagedResource}
    (h : Acceptable now call db operation resource) (h' : Acceptable now call db other second) :
    other = operation ∧ second = resource := by
  have hoperation := h'.operation_found
  rw [h.operation_found] at hoperation
  cases hoperation
  have hresource := h'.resource_found
  rw [h.resource_found] at hresource
  cases hresource
  exact ⟨rfl, rfl⟩

/-! ## What one write does -/

section Writes

variable {env : Environment} {clock : ReportWrite → Moment} {fails : ReportWrite → Bool}
  {reporting : Reporting} {db stored : Database}

theorem performWrites_cons_ok {write : ReportWrite} {writes : List ReportWrite}
    (h : performWrites env clock fails reporting (write :: writes) db = (stored, .ok ())) :
    fails write = false ∧ ∃ between,
      performWrite env (clock write) reporting db write = .ok between ∧
        performWrites env clock fails reporting writes between = (stored, .ok ()) := by
  rw [performWrites] at h
  split_ifs at h with hfails
  · cases h
  · split at h
    · cases h
    · next between hbetween => exact ⟨by simpa using hfails, between, hbetween, h⟩

theorem performWrites_cons_of_ok {write : ReportWrite} {writes : List ReportWrite}
    {between : Database} (hfails : fails write = false)
    (hwrite : performWrite env (clock write) reporting db write = .ok between) :
    performWrites env clock fails reporting (write :: writes) db =
      performWrites env clock fails reporting writes between := by
  rw [performWrites, if_neg (by simp [hfails]), hwrite]

/-- No write of a report gives a settled operation back to the controllers. -/
theorem performWrite_keeps_settled {now : Moment} {write : ReportWrite} {id : Id}
    (hsettled : ∀ row ∈ db.operations, row.id = id → row.state.isActive = false)
    (h : performWrite env now reporting db write = .ok stored) :
    ∀ row ∈ stored.operations, row.id = id → row.state.isActive = false := by
  cases write with
  | saveOperation =>
      rw [performWrite] at h
      split_ifs at h
      cases h
      intro row hrow hid
      rcases Table.mem_update.mp hrow with ⟨hold, -⟩ | ⟨old, hold, -, rfl⟩
      · exact hsettled row hold hid
      · exact settled_isActive now reporting.report old
  | saveResource =>
      rw [performWrite] at h
      split at h
      · cases h
      · split_ifs at h
        cases h
        exact hsettled
  | confirmTargets =>
      rw [performWrite] at h
      cases hreached : reachedConnections env db reporting.resource reporting.report.status with
      | error raised =>
          rw [hreached] at h
          cases h
      | ok reached =>
          rw [hreached] at h
          cases h
          exact hsettled
  | readBack =>
      cases h
      rw [requestReading]
      split <;> exact hsettled
  | deleteOperations =>
      cases h
      intro row hrow hid
      exact hsettled row (Table.mem_delete.mp hrow).1 hid
  | strikeInventory =>
      cases h
      exact hsettled
  | deleteResource =>
      rw [performWrite] at h
      split_ifs at h
      cases h
      exact hsettled

theorem performWrites_keeps_settled {id : Id} (writes : List ReportWrite)
    (hsettled : ∀ row ∈ db.operations, row.id = id → row.state.isActive = false) :
    ∀ row ∈ (performWrites env clock fails reporting writes db).1.operations,
      row.id = id → row.state.isActive = false := by
  induction writes generalizing db with
  | nil => exact hsettled
  | cons write writes ih =>
      rw [performWrites]
      split_ifs with hfails
      · exact hsettled
      · split
        · exact hsettled
        · next between hbetween => exact ih (performWrite_keeps_settled hsettled hbetween)

theorem performWrites_append (first second : List ReportWrite) :
    performWrites env clock fails reporting (first ++ second) db =
      match performWrites env clock fails reporting first db with
      | (between, .ok ()) => performWrites env clock fails reporting second between
      | (between, .error raised) => (between, .error raised) := by
  induction first generalizing db with
  | nil => rfl
  | cons write first ih =>
      rw [List.cons_append, performWrites, performWrites]
      split_ifs with hfails
      · rfl
      · cases hwrite : performWrite env (clock write) reporting db write with
        | error raised => rfl
        | ok between => exact ih

theorem performWrites_append_ok {first second : List ReportWrite}
    (h : performWrites env clock fails reporting (first ++ second) db = (stored, .ok ())) :
    ∃ between, performWrites env clock fails reporting first db = (between, .ok ()) ∧
      performWrites env clock fails reporting second between = (stored, .ok ()) := by
  rw [performWrites_append] at h
  split at h
  · next between hbetween => exact ⟨between, hbetween, h⟩
  · cases h

theorem performWrites_ok_fails {writes : List ReportWrite}
    (h : performWrites env clock fails reporting writes db = (stored, .ok ())) :
    ∀ write ∈ writes, fails write = false := by
  induction writes generalizing db with
  | nil => simp
  | cons write writes ih =>
      obtain ⟨hfails, between, -, hrest⟩ := performWrites_cons_ok h
      exact List.forall_mem_cons.mpr ⟨hfails, ih hrest⟩

end Writes

/-! ## All of the writes -/

/-- The rows after the two saves every report makes. -/
def savedRows (clock : ReportWrite → Moment) (reporting : Reporting) (db : Database) : Database :=
  (db.updateOperations (fun row => row.id == reporting.operation.id)
      (settled (clock .saveOperation) reporting.report)).updateResources
    (fun row => row.id == reporting.resource.id) (recorded (clock .saveResource) reporting)

/-- Whether a report ends a removal, after which the declaration goes too. -/
def Reporting.removes (reporting : Reporting) : Bool :=
  reporting.report.success && reporting.operation.action == .delete

/-- Every write of a report stands in the rows it left behind. -/
structure InPlace (env : Environment) (clock : ReportWrite → Moment) (reporting : Reporting)
    (db stored : Database) : Prop where
  operation_settled : reporting.removes = false →
    stored.operation? reporting.operation.id =
      some (settled (clock .saveOperation) reporting.report reporting.operation)
  resource_recorded : reporting.removes = false →
    stored.resource? reporting.resource.id =
      some (recorded (clock .saveResource) reporting reporting.resource)
  targets_observed : reporting.report.success = true → ∀ reached,
    reachedConnections env (savedRows clock reporting db) reporting.resource
        reporting.report.status = .ok reached →
      ∀ row ∈ stored.resources, row.kind = deliveryTargetKind →
        (row.spec.get? "connection_ref").any reached.contains = true →
          row.lastObservedAt = some (clock .confirmTargets)
  reading_asked : reporting.operation.action.isLifecycle = true →
    env.swept reporting.resource.kind = true →
      ∃ request ∈ stored.readRequests, request.kind = reporting.resource.kind ∧
        request.requestedAt = clock .readBack
  operations_gone : reporting.removes = true →
    ∀ operation ∈ stored.operations, operation.resource ≠ reporting.resource.id
  record_struck : reporting.removes = true →
    ∀ inventory ∈ stored.inventories, inventory.kind = reporting.resource.kind →
      ∀ record ∈ inventory.records,
        env.isRecord reporting.resource.kind record reporting.resource.spec = false
  resource_gone : reporting.removes = true →
    ∀ resource ∈ stored.resources, resource.id ≠ reporting.resource.id

/-- The tables a report writes to are as they were. -/
structure Unchanged (db stored : Database) : Prop where
  operations : stored.operations = db.operations
  resources : stored.resources = db.resources
  inventories : stored.inventories = db.inventories

/-- A report is all or nothing: what raises changed no row, and what returns
left every write in place. -/
def AllOrNothing (env : Environment) (now : Moment) (clock : ReportWrite → Moment)
    (fails : ReportWrite → Bool) (call : ReportCall) (db : Database) : Prop :=
  match reportOperation env now clock fails call db with
  | (stored, .error _) => Unchanged db stored
  | (stored, .ok _) => ∀ operation resource, Acceptable now call db operation resource →
      InPlace env clock ⟨operation, resource, call.report⟩ db stored

/-- Nothing stops a report between its writes: the database refuses none of
them, and a success is for a generation the declaration has reached and lists
its consumers as objects where the kind is a certificate. -/
structure Unhindered (env : Environment) (fails : ReportWrite → Bool) (reporting : Reporting) :
    Prop where
  none_refused : ∀ write ∈ reporting.writes env, fails write = false
  generation_reached : reporting.report.success = true →
    reporting.operation.input.generation ≤ reporting.resource.generation
  consumers_listed : reporting.report.success = true →
    reporting.resource.kind = certificateKind ∨ reporting.resource.kind = uploadedCertificateKind →
      ∃ items, statusConsumers reporting.report.status = .ok items

section Stages

variable {env : Environment} {clock : ReportWrite → Moment} {fails : ReportWrite → Bool}
  {reporting : Reporting} {db stored : Database}

theorem performWrite_saveOperation {now : Moment}
    (hfound : db.operation? reporting.operation.id = some reporting.operation) :
    performWrite env now reporting db .saveOperation =
      .ok (db.updateOperations (fun row => row.id == reporting.operation.id)
        (settled now reporting.report)) := by
  rw [performWrite, hfound, if_neg (by simp)]

theorem performWrite_saveResource {now : Moment}
    (hfound : db.resource? reporting.resource.id = some reporting.resource) :
    performWrite env now reporting db .saveResource =
      if reporting.report.success
          ∧ reporting.resource.generation < reporting.report.observedGeneration.toNat then
        .error (.integrityError "resource_observed_no_later_than_declared")
      else
        .ok (db.updateResources (fun row => row.id == reporting.resource.id)
          (recorded now reporting)) := by
  rw [performWrite, hfound]

theorem resource?_updateOperations {id : Id} {resource : ManagedResource}
    (selects : OperationRequest → Bool) (write : OperationRequest → OperationRequest)
    (h : db.resource? id = some resource) :
    (db.updateOperations selects write).resource? id = some resource := h

theorem performWrite_confirmTargets_ok {now : Moment}
    (h : performWrite env now reporting db .confirmTargets = .ok stored) :
    ∃ reached, reachedConnections env db reporting.resource reporting.report.status = .ok reached ∧
      stored = observeTargets now reached db := by
  rw [performWrite] at h
  cases hreached : reachedConnections env db reporting.resource reporting.report.status with
  | error raised =>
      rw [hreached] at h
      cases h
  | ok reached =>
      rw [hreached] at h
      cases h
      exact ⟨reached, rfl, rfl⟩

/-- Nothing is reached for a kind that installs nowhere. -/
theorem eq_nil_of_reachedConnections {resource : ManagedResource} {status : Json}
    {reached : List Json} (hkind : resource.kind = deliveryTargetKind)
    (h : reachedConnections env db resource status = .ok reached) : reached = [] := by
  rw [reachedConnections, hkind, if_pos (by decide)] at h
  cases h
  rfl

/-- Confirming delivery targets passes over any row that is not one of them. -/
theorem resource?_observeTargets {now : Moment} {reached : List Json} {id : Id}
    {row : ManagedResource} (hfound : db.resource? id = some row)
    (hkind : row.kind = deliveryTargetKind → reached = []) :
    (observeTargets now reached db).resource? id = some row := by
  have hid : ∀ row, (observedAt now row).id = row.id := fun _ => rfl
  rw [observeTargets, Database.resource?_updateResources hid, hfound, Option.map_some]
  congr 1
  apply if_neg
  rw [Bool.and_eq_true, beq_iff_eq]
  rintro ⟨hrow, hreached⟩
  rw [Option.any_eq_true, hkind hrow] at hreached
  simp at hreached

/-- The two saves, where both go through. -/
theorem saves_ok (hoperation : db.operation? reporting.operation.id = some reporting.operation)
    (hresource : db.resource? reporting.resource.id = some reporting.resource)
    (h : performWrites env clock fails reporting [.saveOperation, .saveResource] db =
      (stored, .ok ())) :
    (reporting.report.success = true →
      reporting.report.observedGeneration.toNat ≤ reporting.resource.generation) ∧
      stored = savedRows clock reporting db := by
  obtain ⟨-, between, hbetween, hrest⟩ := performWrites_cons_ok h
  rw [performWrite_saveOperation hoperation] at hbetween
  cases hbetween
  obtain ⟨-, last, hlast, hend⟩ := performWrites_cons_ok hrest
  have hstands := resource?_updateOperations (fun row => row.id == reporting.operation.id)
    (settled (clock .saveOperation) reporting.report) hresource
  rw [performWrite_saveResource hstands] at hlast
  split_ifs at hlast with hgeneration
  cases hlast
  cases hend
  exact ⟨fun hsuccess => by simpa [hsuccess] using hgeneration, rfl⟩

theorem saves_of_unhindered
    (hoperation : db.operation? reporting.operation.id = some reporting.operation)
    (hresource : db.resource? reporting.resource.id = some reporting.resource)
    (hmatches : reporting.report.observedGeneration = reporting.operation.input.generation)
    (h : Unhindered env fails reporting) :
    performWrites env clock fails reporting [.saveOperation, .saveResource] db =
      (savedRows clock reporting db, .ok ()) := by
  have hfails : fails .saveOperation = false ∧ fails .saveResource = false :=
    ⟨h.none_refused _ (by simp [Reporting.writes]), h.none_refused _ (by simp [Reporting.writes])⟩
  rw [performWrites_cons_of_ok hfails.1 (performWrite_saveOperation hoperation)]
  have hgeneration : ¬(reporting.report.success = true ∧
      reporting.resource.generation < reporting.report.observedGeneration.toNat) := by
    rintro ⟨hsuccess, hlt⟩
    have hreached := h.generation_reached hsuccess
    rw [hmatches, Int.toNat_natCast] at hlt
    omega
  have hstands := resource?_updateOperations (fun row => row.id == reporting.operation.id)
    (settled (clock .saveOperation) reporting.report) hresource
  rw [performWrites_cons_of_ok hfails.2 ((performWrite_saveResource hstands).trans
    (if_neg hgeneration))]
  rfl

/-- The delivery targets' statement, where the report makes it. -/
theorem targets_ok
    (h : performWrites env clock fails reporting
      (if reporting.report.success then [.confirmTargets] else []) db = (stored, .ok ())) :
    stored.operations = db.operations ∧ stored.inventories = db.inventories ∧
      stored.readRequests = db.readRequests ∧
      ((reporting.report.success = false ∧ stored.resources = db.resources) ∨
        reporting.report.success = true ∧ ∃ reached,
          reachedConnections env db reporting.resource reporting.report.status = .ok reached ∧
            stored = observeTargets (clock .confirmTargets) reached db) := by
  cases hsuccess : reporting.report.success with
  | false =>
      rw [hsuccess] at h
      cases h
      exact ⟨rfl, rfl, rfl, Or.inl ⟨rfl, rfl⟩⟩
  | true =>
      rw [hsuccess, if_pos rfl] at h
      obtain ⟨-, between, hbetween, hend⟩ := performWrites_cons_ok h
      cases hend
      obtain ⟨reached, hreached, rfl⟩ := performWrite_confirmTargets_ok hbetween
      exact ⟨rfl, rfl, rfl, Or.inr ⟨rfl, reached, hreached, rfl⟩⟩

theorem exists_requestReading (now : Moment) (kind : String) (db : Database) :
    ∃ request ∈ (requestReading now kind db).readRequests,
      request.kind = kind ∧ request.requestedAt = now := by
  rw [requestReading]
  split_ifs with hany
  · obtain ⟨request, hrequest, hkind⟩ := List.any_eq_true.mp hany
    refine ⟨{ request with requestedAt := now }, ?_, by simpa using hkind, rfl⟩
    exact Table.mem_update.mpr (Or.inr ⟨request, hrequest, hkind, rfl⟩)
  · exact ⟨⟨kind, now⟩, by simp, rfl, rfl⟩

/-- The reading a lifecycle verb asks for, where the report asks. -/
theorem reading_ok
    (h : performWrites env clock fails reporting
      (if reporting.operation.action.isLifecycle && env.swept reporting.resource.kind
        then [.readBack] else []) db = (stored, .ok ())) :
    stored.operations = db.operations ∧ stored.inventories = db.inventories ∧
      stored.resources = db.resources ∧
      (reporting.operation.action.isLifecycle = true →
        env.swept reporting.resource.kind = true →
          ∃ request ∈ stored.readRequests, request.kind = reporting.resource.kind ∧
            request.requestedAt = clock .readBack) := by
  split_ifs at h with hreads
  · obtain ⟨-, between, hbetween, hend⟩ := performWrites_cons_ok h
    cases hend
    cases hbetween
    refine ⟨?_, ?_, ?_, fun _ _ => exists_requestReading _ _ _⟩ <;>
      (rw [requestReading]; split <;> rfl)
  · cases h
    refine ⟨rfl, rfl, rfl, fun hlifecycle hswept => ?_⟩
    simp [hlifecycle, hswept] at hreads

/-- The removal of everything a removed declaration left, where the report makes it. -/
theorem removal_ok
    (h : performWrites env clock fails reporting
      (if reporting.removes then [.deleteOperations, .strikeInventory, .deleteResource] else [])
        db = (stored, .ok ())) :
    stored.readRequests = db.readRequests ∧
      stored.resources ⊆ db.resources ∧
      (reporting.removes = false → stored = db) ∧
      (reporting.removes = true →
        (∀ operation ∈ stored.operations, operation.resource ≠ reporting.resource.id) ∧
        (∀ inventory ∈ stored.inventories, inventory.kind = reporting.resource.kind →
          ∀ record ∈ inventory.records,
            env.isRecord reporting.resource.kind record reporting.resource.spec = false) ∧
        ∀ resource ∈ stored.resources, resource.id ≠ reporting.resource.id) := by
  cases hremoves : reporting.removes with
  | false =>
      rw [hremoves] at h
      cases h
      exact ⟨rfl, List.Subset.refl _, fun _ => rfl, nofun⟩
  | true =>
      rw [hremoves, if_pos rfl] at h
      obtain ⟨-, first, hfirst, hrest⟩ := performWrites_cons_ok h
      cases hfirst
      obtain ⟨-, second, hsecond, hrest⟩ := performWrites_cons_ok hrest
      cases hsecond
      obtain ⟨-, third, hthird, hend⟩ := performWrites_cons_ok hrest
      cases hend
      rw [performWrite] at hthird
      split_ifs at hthird
      cases hthird
      refine ⟨rfl, fun row hrow => (Table.mem_delete.mp hrow).1, nofun, fun _ => ⟨?_, ?_, ?_⟩⟩
      · intro operation hoperation
        simpa using (Table.mem_delete.mp hoperation).2
      · intro inventory hinventory hkind record hrecord
        rcases Table.mem_update.mp hinventory with ⟨-, hother⟩ | ⟨old, -, -, rfl⟩
        · simp [hkind] at hother
        · simpa using (List.mem_filter.mp hrecord).2
      · intro row hrow
        simpa using (Table.mem_delete.mp hrow).2

theorem targets_of_unhindered (db : Database) (h : Unhindered env fails reporting) :
    ∃ stored, performWrites env clock fails reporting
      (if reporting.report.success then [.confirmTargets] else []) db = (stored, .ok ()) := by
  cases hsuccess : reporting.report.success with
  | false => exact ⟨db, rfl⟩
  | true =>
      have hreached : ∃ reached,
          reachedConnections env db reporting.resource reporting.report.status = .ok reached := by
        rw [reachedConnections]
        split_ifs with hkind
        · exact ⟨[], rfl⟩
        · obtain ⟨items, hitems⟩ := h.consumers_listed hsuccess (by tauto)
          rw [hitems]
          exact ⟨_, rfl⟩
      obtain ⟨reached, hreached⟩ := hreached
      have hfails := h.none_refused .confirmTargets (by simp [Reporting.writes, hsuccess])
      refine ⟨observeTargets (clock .confirmTargets) reached db, ?_⟩
      rw [if_pos rfl, performWrites_cons_of_ok hfails (by rw [performWrite, hreached]; rfl)]
      rfl

theorem reading_of_unhindered (db : Database) (h : Unhindered env fails reporting) :
    ∃ stored, performWrites env clock fails reporting
      (if reporting.operation.action.isLifecycle && env.swept reporting.resource.kind
        then [.readBack] else []) db = (stored, .ok ()) := by
  split_ifs with hreads
  · have hfails := h.none_refused .readBack (by simp [Reporting.writes, hreads])
    exact ⟨_, by rw [performWrites_cons_of_ok hfails rfl]; rfl⟩
  · exact ⟨db, rfl⟩

theorem removal_of_unhindered (db : Database) (h : Unhindered env fails reporting) :
    ∃ stored, performWrites env clock fails reporting
      (if reporting.removes then [.deleteOperations, .strikeInventory, .deleteResource] else [])
        db = (stored, .ok ()) := by
  split_ifs with hremoves
  · have hfails : ∀ write ∈ [ReportWrite.deleteOperations, .strikeInventory, .deleteResource],
        fails write = false := by
      intro write hwrite
      apply h.none_refused
      rw [Reporting.removes] at hremoves
      rw [Reporting.writes, if_pos hremoves]
      exact List.mem_append_right _ hwrite
    rw [performWrites_cons_of_ok (hfails _ (by simp)) rfl,
      performWrites_cons_of_ok (hfails _ (by simp)) rfl]
    refine ⟨_, performWrites_cons_of_ok (hfails _ (by simp)) (if_neg ?_)⟩
    -- The operations went first, so nothing refers to the declaration any more.
    rw [List.any_eq_true]
    rintro ⟨operation, hoperation, hrefers⟩
    exact absurd hrefers (by simpa using (Table.mem_delete.mp hoperation).2)
  · exact ⟨db, rfl⟩

end Stages

section AllOrNothing

variable {env : Environment} {now : Moment} {clock : ReportWrite → Moment}
  {fails : ReportWrite → Bool} {reporting : Reporting} {call : ReportCall} {db stored : Database}

/-- The order of a report's statements, in the four stages above. -/
theorem Reporting.writes_eq (env : Environment) (reporting : Reporting) :
    reporting.writes env =
      [.saveOperation, .saveResource]
        ++ ((if reporting.report.success then [.confirmTargets] else [])
          ++ ((if reporting.operation.action.isLifecycle && env.swept reporting.resource.kind
              then [.readBack] else [])
            ++ (if reporting.removes
              then [.deleteOperations, .strikeInventory, .deleteResource] else []))) := by
  simp [Reporting.writes, Reporting.removes, List.append_assoc]

theorem operation?_savedRows
    (hoperation : db.operation? reporting.operation.id = some reporting.operation) :
    (savedRows clock reporting db).operation? reporting.operation.id =
      some (settled (clock .saveOperation) reporting.report reporting.operation) := by
  have hfind := db.operation?_updateOperations (settled_id (clock .saveOperation) reporting.report)
    (fun row => row.id == reporting.operation.id) reporting.operation.id
  rw [hoperation, Option.map_some, if_pos (by simp)] at hfind
  exact hfind

theorem resource?_savedRows
    (hresource : db.resource? reporting.resource.id = some reporting.resource) :
    (savedRows clock reporting db).resource? reporting.resource.id =
      some (recorded (clock .saveResource) reporting reporting.resource) := by
  rw [savedRows, Database.resource?_updateResources (recorded_id _ _),
    resource?_updateOperations _ _ hresource, Option.map_some, if_pos (by simp)]

/-- A report that ran to its end left every write in place. -/
theorem inPlace_of_ok
    (hoperation : db.operation? reporting.operation.id = some reporting.operation)
    (hresource : db.resource? reporting.resource.id = some reporting.resource)
    (h : performWrites env clock fails reporting (reporting.writes env) db = (stored, .ok ())) :
    InPlace env clock reporting db stored := by
  rw [Reporting.writes_eq] at h
  obtain ⟨saved, hsaved, h⟩ := performWrites_append_ok h
  obtain ⟨observed, hobserved, h⟩ := performWrites_append_ok h
  obtain ⟨asked, hasked, hremoval⟩ := performWrites_append_ok h
  obtain ⟨-, rfl⟩ := saves_ok hoperation hresource hsaved
  obtain ⟨hops, -, -, htargets⟩ := targets_ok hobserved
  obtain ⟨hopsAsked, -, hresAsked, hreading⟩ := reading_ok hasked
  obtain ⟨hreads, hsubset, hkept, hremoved⟩ := removal_ok hremoval
  constructor
  · intro hremoves
    rw [hkept hremoves, Database.operation?, hopsAsked, hops]
    exact operation?_savedRows hoperation
  · intro hremoves
    rw [hkept hremoves, Database.resource?, hresAsked]
    have hrow : (savedRows clock reporting db).resource? reporting.resource.id = _ :=
      resource?_savedRows hresource
    rcases htargets with ⟨-, hsame⟩ | ⟨-, reached, hreached, rfl⟩
    · rw [hsame]
      exact hrow
    · apply resource?_observeTargets hrow
      intro hkind
      rw [recorded_kind] at hkind
      exact eq_nil_of_reachedConnections hkind hreached
  · intro hsuccess reached hreached row hrow hkind hconnection
    rcases htargets with ⟨hfailure, -⟩ | ⟨-, other, hother, rfl⟩
    · rw [hsuccess] at hfailure
      cases hfailure
    · rw [hreached] at hother
      cases hother
      have hmem := hsubset hrow
      rw [hresAsked] at hmem
      rcases Table.mem_update.mp hmem with ⟨-, hunselected⟩ | ⟨old, -, -, rfl⟩
      · rw [hconnection, hkind] at hunselected
        simp at hunselected
      · rfl
  · intro hlifecycle hswept
    rw [hreads]
    exact hreading hlifecycle hswept
  · exact fun hremoves => (hremoved hremoves).1
  · exact fun hremoves => (hremoved hremoves).2.1
  · exact fun hremoves => (hremoved hremoves).2.2

/-- A report that ran to its end was hindered by nothing. -/
theorem unhindered_of_ok
    (hoperation : db.operation? reporting.operation.id = some reporting.operation)
    (hresource : db.resource? reporting.resource.id = some reporting.resource)
    (hmatches : reporting.report.observedGeneration = reporting.operation.input.generation)
    (h : performWrites env clock fails reporting (reporting.writes env) db = (stored, .ok ())) :
    Unhindered env fails reporting := by
  have hfails := performWrites_ok_fails h
  rw [Reporting.writes_eq] at h
  obtain ⟨saved, hsaved, h⟩ := performWrites_append_ok h
  obtain ⟨observed, hobserved, -⟩ := performWrites_append_ok h
  obtain ⟨hgeneration, rfl⟩ := saves_ok hoperation hresource hsaved
  refine ⟨hfails, ?_, ?_⟩
  · intro hsuccess
    have hreached := hgeneration hsuccess
    rwa [hmatches, Int.toNat_natCast] at hreached
  · intro hsuccess hkind
    obtain ⟨-, -, -, ⟨hfailure, -⟩ | ⟨-, reached, hreached, -⟩⟩ := targets_ok hobserved
    · rw [hsuccess] at hfailure
      cases hfailure
    · rw [reachedConnections, if_neg (by tauto)] at hreached
      cases hitems : statusConsumers reporting.report.status with
      | error raised =>
          rw [hitems] at hreached
          cases hreached
      | ok items => exact ⟨items, rfl⟩

/-- A report that nothing hinders runs to its end. -/
theorem ok_of_unhindered
    (hoperation : db.operation? reporting.operation.id = some reporting.operation)
    (hresource : db.resource? reporting.resource.id = some reporting.resource)
    (hmatches : reporting.report.observedGeneration = reporting.operation.input.generation)
    (h : Unhindered env fails reporting) :
    ∃ stored, performWrites env clock fails reporting (reporting.writes env) db =
      (stored, .ok ()) := by
  have hfails := h.none_refused
  rw [Reporting.writes_eq] at hfails ⊢
  rw [performWrites_append, saves_of_unhindered hoperation hresource hmatches h]
  obtain ⟨observed, hobserved⟩ := targets_of_unhindered (savedRows clock reporting db) h
  dsimp only
  rw [performWrites_append, hobserved]
  obtain ⟨asked, hasked⟩ := reading_of_unhindered observed h
  dsimp only
  rw [performWrites_append, hasked]
  exact removal_of_unhindered asked h

/-- Once a report has saved its operation, that operation is finished or gone. -/
theorem performWrites_settles
    (hoperation : db.operation? reporting.operation.id = some reporting.operation)
    (writes : List ReportWrite) (hfails : fails .saveOperation = false) :
    ∀ row ∈ (performWrites env clock fails reporting (.saveOperation :: writes) db).1.operations,
      row.id = reporting.operation.id → row.state.isActive = false := by
  rw [performWrites_cons_of_ok hfails (performWrite_saveOperation hoperation)]
  apply performWrites_keeps_settled
  intro row hrow hid
  rcases Table.mem_update.mp hrow with ⟨-, hother⟩ | ⟨old, -, -, rfl⟩
  · simp [hid] at hother
  · exact settled_isActive _ reporting.report old

/-- The rows an accepted report leaves are those its writes leave. -/
theorem reportOperation_rows {operation : OperationRequest} {resource : ManagedResource}
    (h : Acceptable now call db operation resource) :
    (reportOperation env now clock fails call db).1 =
      (performWrites env clock fails ⟨operation, resource, call.report⟩
        (Reporting.writes env ⟨operation, resource, call.report⟩) db).1 := by
  rw [reportOperation, h.acceptReport_eq]
  dsimp only
  split <;> next heq => rw [heq]

/-- An accepted report whose first write goes through leaves its operation
finished or gone, however it ends. -/
theorem reportOperation_settles {operation : OperationRequest} {resource : ManagedResource}
    (h : Acceptable now call db operation resource) (hfails : fails .saveOperation = false) :
    ∀ row ∈ (reportOperation env now clock fails call db).1.operations,
      row.id = operation.id → row.state.isActive = false := by
  have hoperation : db.operation? operation.id = some operation := by
    rw [(Database.mem_of_operation? h.operation_found).2]
    exact h.operation_found
  rw [reportOperation_rows h]
  exact performWrites_settles hoperation _ hfails

/-- What a report changed by settling its operation shows in the stored rows. -/
theorem not_unchanged_of_settled
    (hoperation : db.operation? reporting.operation.id = some reporting.operation)
    (hclaimed : reporting.operation.state = .claimed) (writes : List ReportWrite)
    (hfails : fails .saveOperation = false) :
    ¬Unchanged db (performWrites env clock fails reporting (.saveOperation :: writes) db).1 := by
  intro hunchanged
  have hmem := (Database.mem_of_operation? hoperation).1
  rw [← hunchanged.operations] at hmem
  have hfinished := performWrites_settles hoperation writes hfails _ hmem rfl
  rw [hclaimed] at hfinished
  cases hfinished

/-- The call of an accepted report, by how its writes end. -/
theorem allOrNothing_of_acceptable {operation : OperationRequest} {resource : ManagedResource}
    (h : Acceptable now call db operation resource) :
    AllOrNothing env now clock fails call db ↔
      fails .saveOperation = true ∨ Unhindered env fails ⟨operation, resource, call.report⟩ := by
  have hoperation : db.operation? operation.id = some operation := by
    rw [(Database.mem_of_operation? h.operation_found).2]
    exact h.operation_found
  have hresource : db.resource? resource.id = some resource := by
    rw [(Database.mem_of_resource? h.resource_found).2]
    exact h.resource_found
  rw [AllOrNothing, reportOperation, h.acceptReport_eq]
  dsimp only
  generalize hreporting : (⟨operation, resource, call.report⟩ : Reporting) = reporting
  obtain ⟨rest, hwrites⟩ : ∃ rest, reporting.writes env = .saveOperation :: rest := ⟨_, rfl⟩
  cases hfails : fails .saveOperation with
  | true =>
      rw [hwrites, performWrites, if_pos hfails]
      exact ⟨fun _ => Or.inl rfl, fun _ => ⟨rfl, rfl, rfl⟩⟩
  | false =>
      rw [or_iff_right (by simp)]
      subst hreporting
      rcases houtcome : performWrites env clock fails ⟨operation, resource, call.report⟩
        (Reporting.writes env ⟨operation, resource, call.report⟩) db with ⟨stored, raised | _⟩
      · -- An operation was settled before the call raised, and its row shows it.
        have hchanged : ¬Unchanged db (performWrites env clock fails
            ⟨operation, resource, call.report⟩ (.saveOperation :: rest) db).1 :=
          not_unchanged_of_settled hoperation h.claimed rest hfails
        rw [← hwrites, houtcome] at hchanged
        refine ⟨fun hunchanged => absurd hunchanged hchanged, fun hunhindered => ?_⟩
        have hend : ∃ last, performWrites env clock fails ⟨operation, resource, call.report⟩
            (Reporting.writes env ⟨operation, resource, call.report⟩) db = (last, .ok ()) :=
          ok_of_unhindered hoperation hresource h.generation_matches hunhindered
        obtain ⟨last, hlast⟩ := hend
        rw [houtcome] at hlast
        cases hlast
      · refine ⟨fun _ => unhindered_of_ok hoperation hresource h.generation_matches houtcome,
          fun _ other second hother => ?_⟩
        obtain ⟨rfl, rfl⟩ := h.unique hother
        exact inPlace_of_ok hoperation hresource houtcome

/-- A report is all or nothing exactly when it is refused before it writes, or
its first write is the one that fails, or nothing hinders any of its writes. -/
theorem reportOperation_allOrNothing_iff (env : Environment) (now : Moment)
    (clock : ReportWrite → Moment) (fails : ReportWrite → Bool) (call : ReportCall)
    (db : Database) :
    AllOrNothing env now clock fails call db ↔
      ∀ operation resource, Acceptable now call db operation resource →
        fails .saveOperation = true ∨ Unhindered env fails ⟨operation, resource, call.report⟩ := by
  by_cases haccept : ∃ operation resource, Acceptable now call db operation resource
  · obtain ⟨operation, resource, hacceptable⟩ := haccept
    have hcondition : (∀ other second, Acceptable now call db other second →
        fails .saveOperation = true ∨ Unhindered env fails ⟨other, second, call.report⟩) ↔
        fails .saveOperation = true ∨ Unhindered env fails ⟨operation, resource, call.report⟩ := by
      refine ⟨fun h => h operation resource hacceptable, fun h other second hother => ?_⟩
      obtain ⟨rfl, rfl⟩ := hacceptable.unique hother
      exact h
    rw [hcondition, allOrNothing_of_acceptable hacceptable]
  · have hrefused : ∀ operation resource, ¬Acceptable now call db operation resource := by
      simpa using haccept
    refine ⟨fun _ operation resource h => absurd h (hrefused operation resource), fun _ => ?_⟩
    rw [AllOrNothing, reportOperation]
    cases h : acceptReport now call.operationId call.report call.controllerId db with
    | error raised => exact ⟨rfl, rfl, rfl⟩
    | ok reporting => exact absurd (acceptable_of_acceptReport h).1 (hrefused _ _)

end AllOrNothing

/-- A certificate held by `controller-1` under a lease. -/
def leasedCertificate : Database where
  serial := 2
  resources := [{
    id := 0
    key := "wildcard"
    kind := certificateKind
    spec := .obj []
    enabled := true
    desiredFingerprint := "fingerprint"
    generation := 1
    observedGeneration := 0
    status := .obj []
    conditions := []
    lastObservedAt := none
    updatedAt := 0 }]
  operations := [{
    id := 1
    resource := 0
    action := .reconcile
    state := .claimed
    requestedActor := "controller-1"
    requestedInterface := controllerInterface
    requestedDevice := ""
    reason := ""
    idempotencyKey := "reconcile:0:g1"
    input := ⟨1, none⟩
    result := .obj []
    claimedBy := "controller-1"
    claimedAt := some 0
    leaseExpiresAt := some (seconds 300)
    attemptCount := 1
    completedAt := none
    createdAt := 0
    updatedAt := 0 }]
  inventories := []
  readRequests := []

/-- A success that lists a consumer by its name alone. -/
def bareConsumerReport : ReportCall where
  operationId := 1
  report := {
    success := true
    observedGeneration := 1
    status := .obj [("consumers", .arr [.str "nas"])]
    conditions := []
    message := "" }
  controllerId := "controller-1"

/-- The database refuses nothing, and the call still raises half-way: the
operation and the declaration are written when the consumers are read. -/
theorem bareConsumerReport_not_allOrNothing :
    ¬AllOrNothing sampleEnvironment (seconds 1) (fun _ => seconds 1) (fun _ => false)
      bareConsumerReport leasedCertificate := by
  intro h
  have hraised : (reportOperation sampleEnvironment (seconds 1) (fun _ => seconds 1)
      (fun _ => false) bareConsumerReport leasedCertificate).2 = .error .attributeError := by
    decide
  have hwritten : (reportOperation sampleEnvironment (seconds 1) (fun _ => seconds 1)
      (fun _ => false) bareConsumerReport leasedCertificate).1.operations ≠
        leasedCertificate.operations := by
    decide
  rw [AllOrNothing] at h
  split at h
  · next stored raised heq => exact hwritten (by rw [heq]; exact h.operations)
  · next stored answer heq =>
      rw [heq] at hraised
      cases hraised

end SeverinoHQ.ControlPlane
