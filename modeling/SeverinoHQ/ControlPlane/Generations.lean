/-
# Generations across the queue

An operation freezes its declaration's generation when it is queued, a claim
hands out the generation of the row as it stands, and a report is held to the
frozen one. The two agree in every run whose claims hand out operations queued
at the generation their declaration still has; an edit that finds an operation
waiting breaks it, because the waiting operation is kept as it was.

What a declaration says was observed is what the last recorded success said:
reports of different actions may be recorded in either order.
-/

import SeverinoHQ.ControlPlane.Outcomes

namespace SeverinoHQ.ControlPlane

open SeverinoHQ.Math

/-! ## What was handed out is accepted -/

/-- Every controller that still holds what it claimed, under a lease that has
not run out, and reports the generation its contract carried, is accepted; and
its report leaves the operation settled. -/
def AcceptsHanded (world : World) : Prop :=
  ∀ handed ∈ world.handed, ∀ operation,
    world.db.operation? handed.operation = some operation → operation.state = .claimed →
    operation.claimedBy = handed.controllerId → operation.isLapsed world.now = false →
    ∀ report : ControllerReport, report.observedGeneration = handed.generation →
      (∃ reporting, acceptReport world.now handed.operation report handed.controllerId world.db =
        .ok reporting) ∧
      ∀ env clock fails, fails ReportWrite.saveOperation = false →
        ∀ row ∈ (reportOperation env world.now clock fails
            ⟨handed.operation, report, handed.controllerId⟩ world.db).1.operations,
          row.id = handed.operation → row.state.isActive = false

/-- A claim hands out an operation queued at the generation its declaration has. -/
def claimsUpToDate (world : World) (event : Event) : Bool :=
  match event.call with
  | .claim call =>
      match (pickClaim event.env world.now call world.db).2 with
      | some (operation, _) => world.db.resources.all fun resource =>
          resource.id != operation.resource || operation.input.generation == resource.generation
      | none => true
  | _ => true

/-- The contracts handed out agree with the operations they were handed out for. -/
structure World.HandsOutFrozen (world : World) : Prop where
  old : ∀ handed ∈ world.handed, handed.operation < world.db.serial
  frozen : ∀ handed ∈ world.handed, ∀ row ∈ world.db.operations, row.id = handed.operation →
    row.input.generation = handed.generation

theorem nextResolvable_resources (env : Environment) (now : Moment)
    (operations : List OperationRequest) (db : Database) :
    (nextResolvable env now operations db).1.resources = db.resources := by
  induction operations generalizing db with
  | nil => rfl
  | cons operation operations ih =>
      rw [nextResolvable]
      split
      · exact ih db
      · split
        · rfl
        · exact ih _

/-- A claim reads the declarations as they stand: it changes none. -/
theorem pickClaim_resources (env : Environment) (now : Moment) (call : ClaimCall) (db : Database) :
    (pickClaim env now call db).1.resources = db.resources :=
  nextResolvable_resources env now _ _

section Handed

variable {world after : World} {event : Event}

theorem World.HandsOutFrozen.later (h : world.HandsOutFrozen) (hlater : Later world.db after.db)
    (hhanded : after.handed = world.handed) : after.HandsOutFrozen := by
  constructor
  · intro handed hmem
    rw [hhanded] at hmem
    exact (h.old handed hmem).trans_le hlater.serial
  · intro handed hmem row hrow hid
    rw [hhanded] at hmem
    rcases hlater.operations row hrow with hnew | ⟨old, hold, hsame, -, -, hinput⟩
    · exact absurd (hid ▸ hnew) (not_le.mpr (h.old handed hmem))
    · rw [← hinput]
      exact h.frozen handed hmem old hold (hsame.trans hid)

/-- The step: an event whose claim is up to date hands out what was frozen. -/
theorem Outcome.handsOutFrozen (hsound : world.Sound) (h : Outcome world event after)
    (hcondition : claimsUpToDate world event = true) (hfrozen : world.HandsOutFrozen) :
    after.HandsOutFrozen := by
  obtain ⟨hrows, hlater⟩ := h.rows_sound_later hsound
  cases h with
  | hand call before operation contract hcall hpick htransaction hdescribes hnamed =>
      have hkept : World.HandsOutFrozen { world with
          db := before.updateOperations (fun row => row.id == operation.id)
            (lease world.now call.controllerId call.leaseSeconds) } :=
        hfrozen.later hlater rfl
      obtain ⟨resource, hresource, hid, hgeneration, -⟩ := hdescribes.resource
      -- The claim's own condition, at the declaration the contract was made of.
      have hagrees : operation.input.generation = contract.generation := by
        have hsame := pickClaim_resources event.env world.now call world.db
        rw [hpick] at hsame
        rw [claimsUpToDate, hcall] at hcondition
        simp only [hpick, List.all_eq_true, Bool.or_eq_true, bne_iff_ne, ne_eq,
          beq_iff_eq] at hcondition
        rw [hgeneration]
        exact (hcondition resource (hsame ▸ hresource)).resolve_left (not_not.mpr hid)
      have hbefore := (Transaction.sound_later htransaction hsound.rows).1
      have hstored := hbefore.operation_old operation hdescribes.queued.1
      refine ⟨fun handed hmem => ?_, fun handed hmem row hrow hrowId => ?_⟩
      · rcases List.mem_cons.mp hmem with rfl | hold
        · exact hstored
        · exact hkept.old handed hold
      · rcases List.mem_cons.mp hmem with rfl | hold
        · rcases Table.mem_update.mp hrow with ⟨-, hother⟩ | ⟨old, hmemOld, hselected, rfl⟩
          · simp [hrowId] at hother
          · rw [eq_of_id_beq hbefore hdescribes.queued.1 hmemOld hselected]
            exact hagrees
        · exact hkept.frozen handed hold row hrow hrowId
  | tick elapsed => exact hfrozen.later hlater rfl
  | transact stored queueings => exact hfrozen.later hlater rfl
  | begin queueing => exact hfrozen.later hlater rfl
  | insertLate index queueing ask asks stored => exact hfrozen.later hlater rfl
  | accept call reporting => exact hfrozen.later hlater rfl
  | finish reports => exact hfrozen.later hlater rfl
  | write index report write remaining stored => exact hfrozen.later hlater rfl

theorem acceptsHanded_of_frozen (hsound : world.Sound) (h : world.HandsOutFrozen) :
    AcceptsHanded world := by
  intro handed hhanded operation hoperation hclaimed hcontroller hlease report hgeneration
  obtain ⟨hstored, hid⟩ := Database.mem_of_operation? hoperation
  obtain ⟨resource, hresource, hsame⟩ := hsound.rows.resource_stored operation hstored
  have hfound : ∃ found, world.db.resource? operation.resource = some found := by
    rw [← Option.isSome_iff_exists, Database.resource?, List.find?_isSome]
    exact ⟨resource, hresource, by simpa using hsame⟩
  obtain ⟨found, hfound⟩ := hfound
  have hacceptable : Acceptable world.now ⟨handed.operation, report, handed.controllerId⟩ world.db
      operation found := by
    refine ⟨hoperation, hfound, hclaimed, hcontroller, hlease, ?_⟩
    rw [h.frozen handed hhanded operation hstored hid]
    exact hgeneration
  refine ⟨⟨_, hacceptable.acceptReport_eq⟩, fun env clock fails hfails row hrow hrowId => ?_⟩
  exact reportOperation_settles hacceptable hfails row hrow (hrowId.trans hid.symm)

end Handed

/-- In every run whose claims are up to date, a report of the generation the
contract carried is accepted and settles the operation, as long as the lease
stands. -/
theorem run_accepts_handed_generation (now : Moment) (events : List Event)
    (hmeets : Meets World.step (fun world event => claimsUpToDate world event = true)
      (World.start now) events) :
    AcceptsHanded (run World.step (World.start now) events) := by
  have hinv := run_invariant (fun world => world.Sound ∧ world.HandsOutFrozen)
    (fun world event hworld hcondition =>
      ⟨(step_outcome hworld.1 event).sound hworld.1,
        (step_outcome hworld.1 event).handsOutFrozen hworld.1 hcondition hworld.2⟩)
    ⟨World.start_sound now, ⟨by simp [World.start], by simp [World.start]⟩⟩ hmeets
  exact acceptsHanded_of_frozen hinv.1 hinv.2

/-! ### A run that goes well, and one that does not -/

/-- The person the sample runs are asked by. -/
def samplePrincipal : Principal := ⟨"operator", "web", "", ""⟩

/-- A save of an address rewrite, or of a change to it. -/
def saveRewrite (currentKey : Option String) (answer : String) (enabled copied : Bool) : Event where
  env := sampleEnvironment
  call := .save {
    command := {
      key := "nas-rewrite"
      kind := "adguard.rewrite"
      spec := .obj [("answer", .str answer)]
      enabled := enabled }
    principal := samplePrincipal
    currentKey := currentKey
    expectedUpdatedAt := none
    copiedFromLive := copied
    sent := none }

/-- A claim by a controller, for as many seconds as it asks. -/
def claimBy (controllerId : String) (leaseSeconds : Int) : Event :=
  ⟨sampleEnvironment, .claim ⟨controllerId, leaseSeconds, []⟩⟩

/-- A report that only says a generation was applied. -/
def appliedReport (generation : Int) (version : String) : ControllerReport where
  success := true
  observedGeneration := generation
  status := .obj [("version", .str version)]
  conditions := []
  message := "Applied."

/-- A declaration is saved, which queues its reconcile, and the reconcile claimed. -/
def savedThenClaimed : List Event :=
  [saveRewrite none "10.0.0.4" true false, claimBy "controller-1" 300]

theorem savedThenClaimed_accepted :
    Meets World.step (fun world event => claimsUpToDate world event = true) (World.start 0)
        savedThenClaimed ∧
      AcceptsHanded (run World.step (World.start 0) savedThenClaimed) ∧
      (run World.step (World.start 0) savedThenClaimed).handed =
        [⟨1, "controller-1", 1, true, .reconcile⟩] :=
  ⟨by decide, run_accepts_handed_generation 0 savedThenClaimed (by decide), by decide⟩

/-- A declaration is edited while its reconcile still waits: the edit keeps the
waiting operation, and the contract then carries the new generation. -/
def editedWhileQueued : List Event :=
  [saveRewrite none "10.0.0.4" true false, saveRewrite (some "nas-rewrite") "10.0.0.5" true false,
    claimBy "controller-1" 300]

theorem editedWhileQueued_refused :
    ¬AcceptsHanded (run World.step (World.start 0) editedWhileQueued) := by
  intro h
  have hhanded : (run World.step (World.start 0) editedWhileQueued).handed =
      [⟨1, "controller-1", 2, true, .reconcile⟩] := by decide
  have hfound : ((run World.step (World.start 0) editedWhileQueued).db.operation? 1).any
      (fun operation => operation.state == .claimed && operation.claimedBy == "controller-1"
        && !operation.isLapsed (run World.step (World.start 0) editedWhileQueued).now) = true := by
    decide
  obtain ⟨operation, hoperation, hheld⟩ := Option.any_eq_true _ _ |>.mp hfound
  simp only [Bool.and_eq_true, beq_iff_eq, Bool.not_eq_true'] at hheld
  obtain ⟨⟨reporting, haccept⟩, -⟩ := h ⟨1, "controller-1", 2, true, .reconcile⟩
    (by rw [hhanded]; simp) operation hoperation hheld.1.1 hheld.1.2 hheld.2
    (appliedReport 2 "2") rfl
  have hrefused : acceptReport (run World.step (World.start 0) editedWhileQueued).now 1
      (appliedReport 2 "2") "controller-1" (run World.step (World.start 0) editedWhileQueued).db =
        .error (.valueError
          "Report generation does not match the operation's requested generation.") := by
    decide
  rw [hrefused] at haccept
  cases haccept

/-! ## What was last recorded is what shows -/

/-- The last recording for a declaration. -/
def lastRecorded (recordings : List Recording) (resource : Id) : Option Recording :=
  recordings.find? fun recording => recording.resource == resource

/-- A declaration shows what the last success recorded for it said, and what it
was created with where none was. -/
def ShowsLastRecorded (recordings : List Recording) (row : ManagedResource) : Prop :=
  match lastRecorded recordings row.id with
  | none => row.observedGeneration = 0 ∧ row.status = .obj []
  | some recording =>
      row.observedGeneration = recording.generation ∧ row.status = recording.status

/-- A row as observed before: the same row, or one only now created. -/
def ObservedAsBefore (db : Database) (row : ManagedResource) : Prop :=
  (∃ old ∈ db.resources, old.id = row.id ∧ row.observedGeneration = old.observedGeneration ∧
    row.status = old.status) ∨
  db.serial ≤ row.id ∧ row.observedGeneration = 0 ∧ row.status = .obj []

theorem observedAsBefore_of_mem {db : Database} {row : ManagedResource} (h : row ∈ db.resources) :
    ObservedAsBefore db row :=
  Or.inl ⟨row, h, rfl, rfl, rfl⟩

/-- No change inside a transaction touches what was observed. -/
theorem Change.observedAsBefore {now : Moment} {db stored : Database}
    (h : Change now db stored) : ∀ row ∈ stored.resources, ObservedAsBefore db row := by
  intro row hrow
  cases h with
  | declare created hid hobserved hstatus =>
      rcases List.mem_append.mp hrow with hold | hnew
      · exact observedAsBefore_of_mem hold
      · rw [List.mem_singleton.mp hnew]
        exact Or.inr ⟨hid.ge, hobserved, hstatus⟩
  | rewrite old saved hold hid hgeneration hobserved hstatus hswitch =>
      rcases mem_saveResource hrow with ⟨hmem, -⟩ | rfl
      · exact observedAsBefore_of_mem hmem
      · exact Or.inl ⟨old, hold, hid.symm, hobserved, hstatus⟩
  | switchOff old saved hold hid hgeneration hobserved hstatus =>
      rcases mem_saveResource hrow with ⟨hmem, -⟩ | rfl
      · exact observedAsBefore_of_mem hmem
      · exact Or.inl ⟨old, hold, hid.symm, hobserved, hstatus⟩
  | insert ask resource => exact observedAsBefore_of_mem hrow
  | release => exact observedAsBefore_of_mem hrow
  | fail operation => exact observedAsBefore_of_mem hrow
  | lease operation => exact observedAsBefore_of_mem hrow
  | read kind =>
      refine observedAsBefore_of_mem ?_
      rw [requestReading] at hrow
      split_ifs at hrow <;> exact hrow
  | forget gone => exact observedAsBefore_of_mem (Table.mem_delete.mp hrow).1

theorem Transaction.observedAsBefore {now : Moment} {db stored : Database} (hsound : db.Sound)
    (h : Transaction now db stored) : ∀ row ∈ stored.resources, ObservedAsBefore db row := by
  induction h with
  | refl => exact fun row hrow => observedAsBefore_of_mem hrow
  | tail hinitial hchange ih =>
      intro row hrow
      rcases hchange.observedAsBefore row hrow with ⟨old, hold, hid, hobserved, hstatus⟩ |
        ⟨hnew, hobserved, hstatus⟩
      · rcases ih old hold with ⟨first, hfirst, hid', hobserved', hstatus'⟩ |
          ⟨hnew, hobserved', hstatus'⟩
        · exact Or.inl ⟨first, hfirst, hid'.trans hid, hobserved.trans hobserved',
            hstatus.trans hstatus'⟩
        · exact Or.inr ⟨hid ▸ hnew, hobserved.trans hobserved', hstatus.trans hstatus'⟩
      · exact Or.inr ⟨(Transaction.sound_later hinitial hsound).2.serial.trans hnew, hobserved,
          hstatus⟩

/-- A report's write leaves a row as observed before, or is the save of a success
for that row. -/
theorem performWrite_observedAsBefore {env : Environment} {now : Moment} {reporting : Reporting}
    {db stored : Database} {write : ReportWrite}
    (h : performWrite env now reporting db write = .ok stored) :
    ∀ row ∈ stored.resources,
      (ObservedAsBefore db row ∧ (write = .saveResource → reporting.report.success = true →
        row.id ≠ reporting.resource.id)) ∨
      write = .saveResource ∧ reporting.report.success = true ∧ row.id = reporting.resource.id ∧
        row.observedGeneration = reporting.report.observedGeneration.toNat ∧
          row.status = reporting.report.status ∧ ∃ old ∈ db.resources, old.id = row.id := by
  intro row hrow
  cases write with
  | saveResource =>
      rw [performWrite] at h
      split at h
      · cases h
      · split_ifs at h
        cases h
        rcases Table.mem_update.mp hrow with ⟨hmem, hother⟩ | ⟨old, hold, hid, rfl⟩
        · exact Or.inl ⟨observedAsBefore_of_mem hmem, fun _ _ => by simpa using hother⟩
        · cases hsuccess : reporting.report.success with
          | true =>
              refine Or.inr ⟨rfl, rfl, ?_, ?_, ?_, old, hold, (recorded_id ..).symm⟩
              · rw [recorded_id]
                exact beq_iff_eq.mp hid
              · rw [recorded, if_pos hsuccess]
              · rw [recorded, if_pos hsuccess]
          | false =>
              refine Or.inl ⟨Or.inl ⟨old, hold, (recorded_id ..).symm, ?_, ?_⟩, by simp⟩ <;>
                rw [recorded, if_neg (by simp [hsuccess])]
  | confirmTargets =>
      obtain ⟨reached, -, rfl⟩ := performWrite_confirmTargets_ok h
      refine Or.inl ⟨?_, by simp⟩
      rcases Table.mem_update.mp hrow with ⟨hmem, -⟩ | ⟨old, hold, -, rfl⟩
      · exact observedAsBefore_of_mem hmem
      · exact Or.inl ⟨old, hold, rfl, rfl, rfl⟩
  | saveOperation =>
      rw [performWrite] at h
      split_ifs at h
      cases h
      exact Or.inl ⟨observedAsBefore_of_mem hrow, by simp⟩
  | readBack =>
      cases h
      rw [requestReading] at hrow
      split_ifs at hrow <;> exact Or.inl ⟨observedAsBefore_of_mem hrow, by simp⟩
  | deleteOperations =>
      cases h
      exact Or.inl ⟨observedAsBefore_of_mem hrow, by simp⟩
  | strikeInventory =>
      cases h
      exact Or.inl ⟨observedAsBefore_of_mem hrow, by simp⟩
  | deleteResource =>
      rw [performWrite] at h
      split_ifs at h
      cases h
      exact Or.inl ⟨observedAsBefore_of_mem (Table.mem_delete.mp hrow).1, by simp⟩

/-- An event recorded, for a declaration, the success of a report in flight: the
generation its operation was asked with, and the status it said. -/
def RecordsSuccess (world after : World) (row : ManagedResource) : Prop :=
  ∃ recording, ∃ report ∈ world.reports, after.recordings = recording :: world.recordings ∧
    recording.resource = row.id ∧ report.reporting.resource.id = row.id ∧
    report.reporting.report.success = true ∧
    recording.generation = report.reporting.operation.input.generation ∧
    recording.status = report.reporting.report.status ∧
    row.observedGeneration = recording.generation ∧ row.status = recording.status

section Recorded

variable {world after : World} {event : Event}

/-- The recordings an event adds are of a success, and for its declaration. -/
theorem lastRecorded_recordingsAfter {reporting : Reporting} {write : ReportWrite} {resource : Id}
    (h : write = .saveResource → reporting.report.success = true →
      resource ≠ reporting.resource.id) :
    lastRecorded (world.recordingsAfter reporting write) resource =
      lastRecorded world.recordings resource := by
  unfold World.recordingsAfter
  split
  · next hsuccess =>
      rw [lastRecorded, List.find?_cons_of_neg]
      · rfl
      · simpa using Ne.symm (h rfl hsuccess)
  · rfl

/-- The step: an event leaves a declaration as observed before, or records a
success for it. -/
theorem Outcome.observed (hsound : world.Sound) (h : Outcome world event after) :
    ∀ row ∈ after.db.resources,
      (ObservedAsBefore world.db row ∧
        lastRecorded after.recordings row.id = lastRecorded world.recordings row.id) ∨
      (∃ old ∈ world.db.resources, old.id = row.id) ∧ RecordsSuccess world after row := by
  intro row hrow
  cases h with
  | tick elapsed => exact Or.inl ⟨observedAsBefore_of_mem hrow, rfl⟩
  | transact stored queueings htransaction =>
      exact Or.inl ⟨Transaction.observedAsBefore hsound.rows htransaction row hrow, rfl⟩
  | begin queueing => exact Or.inl ⟨observedAsBefore_of_mem hrow, rfl⟩
  | insertLate index queueing ask asks stored created queueings hcall hfound hasks hphase hcreate =>
      obtain ⟨-, -, rfl⟩ := create_eq_ok hcreate
      exact Or.inl ⟨observedAsBefore_of_mem hrow, rfl⟩
  | hand call before operation contract hcall hpick htransaction =>
      exact Or.inl ⟨Transaction.observedAsBefore hsound.rows htransaction row hrow, rfl⟩
  | accept call reporting => exact Or.inl ⟨observedAsBefore_of_mem hrow, rfl⟩
  | finish reports => exact Or.inl ⟨observedAsBefore_of_mem hrow, rfl⟩
  | write index report write remaining stored hcall hfound hnext hwrite =>
      rcases performWrite_observedAsBefore hwrite row hrow with ⟨hbefore, hother⟩ |
        ⟨rfl, hsuccess, hid, hobserved, hstatus, hold⟩
      · exact Or.inl ⟨hbefore, lastRecorded_recordingsAfter hother⟩
      · have hmem := List.mem_of_getElem? hfound
        have hinflight := hsound.reports report hmem
        refine Or.inr ⟨hold, ⟨⟨report.reporting.resource.id,
          report.reporting.report.observedGeneration.toNat, report.reporting.report.status⟩,
          report, hmem, ?_, hid.symm, hid.symm, hsuccess, ?_, rfl, hobserved, hstatus⟩⟩
        · dsimp only
          unfold World.recordingsAfter
          simp [hsuccess]
        · dsimp only
          rw [hinflight.generation, Int.toNat_natCast]

/-- What holds of the recordings between any two events. -/
structure World.ShowsRecorded (world : World) : Prop where
  old : ∀ recording ∈ world.recordings, recording.resource < world.db.serial
  shows : ∀ row ∈ world.db.resources, ShowsLastRecorded world.recordings row

theorem Outcome.recordings_old (hsound : world.Sound) (h : Outcome world event after)
    (hold : ∀ recording ∈ world.recordings, recording.resource < world.db.serial) :
    ∀ recording ∈ after.recordings, recording.resource < after.db.serial := by
  have hserial := (h.rows_sound_later hsound).2.serial
  have hkept : ∀ recording ∈ world.recordings, recording.resource < after.db.serial :=
    fun recording hmem => (hold recording hmem).trans_le hserial
  cases h with
  | write index report write remaining stored hcall hfound hnext hwrite =>
      intro recording hmem
      dsimp only at hmem
      unfold World.recordingsAfter at hmem
      split at hmem
      · rcases List.mem_cons.mp hmem with rfl | hmem
        · exact (hsound.reports report (List.mem_of_getElem? hfound)).resource_old.trans_le hserial
        · exact hkept recording hmem
      · exact hkept recording hmem
  | _ => exact hkept

theorem Outcome.showsRecorded (hsound : world.Sound) (h : Outcome world event after)
    (hshows : world.ShowsRecorded) : after.ShowsRecorded := by
  refine ⟨h.recordings_old hsound hshows.old, fun row hrow => ?_⟩
  rcases h.observed hsound row hrow with
    ⟨⟨old, hold, hid, hobserved, hstatus⟩ | ⟨hnew, hobserved, hstatus⟩, hlast⟩ |
    ⟨-, recording, report, hreport, hrecordings, hresource, -, -, -, -, hobserved, hstatus⟩
  · have hbefore := hshows.shows old hold
    unfold ShowsLastRecorded at hbefore ⊢
    rw [hid] at hbefore
    rw [hlast, hobserved, hstatus]
    exact hbefore
  · have hnone : lastRecorded world.recordings row.id = none := by
      rw [lastRecorded, List.find?_eq_none]
      intro recording hmem hsame
      exact absurd (hshows.old recording hmem)
        (not_lt.mpr ((beq_iff_eq.mp hsame).symm ▸ hnew))
    rw [ShowsLastRecorded, hlast, hnone]
    exact ⟨hobserved, hstatus⟩
  · rw [ShowsLastRecorded, lastRecorded, hrecordings,
      List.find?_cons_of_pos (by simpa using hresource)]
    exact ⟨hobserved, hstatus⟩

end Recorded

/-- In every state of every run a declaration is observed at a generation it has
reached, and shows what the last success recorded for it said. An event leaves
what it shows, or records a success for it: only a success for an older
generation than the last takes the observed generation back. -/
theorem run_shows_last_recorded (now : Moment) (events : List Event) :
    let world := run World.step (World.start now) events
    (∀ row ∈ world.db.resources, row.observedGeneration ≤ row.generation ∧
      ShowsLastRecorded world.recordings row) ∧
    ∀ event, ∀ row ∈ world.db.resources, ∀ later ∈ (world.step event).db.resources,
      later.id = row.id →
        (later.observedGeneration = row.observedGeneration ∧ later.status = row.status) ∨
        RecordsSuccess world (world.step event) later := by
  intro world
  have hmeets : Meets World.step (fun _ _ => True) (World.start now) events :=
    meets_of_forall (fun _ _ => trivial) _ _
  have hinv : world.Sound ∧ world.ShowsRecorded :=
    run_invariant (fun state : World => state.Sound ∧ state.ShowsRecorded)
      (fun state event hstate _ => ⟨(step_outcome hstate.1 event).sound hstate.1,
        (step_outcome hstate.1 event).showsRecorded hstate.1 hstate.2⟩)
      ⟨World.start_sound now, ⟨by simp [World.start], by simp [World.start, Database.empty]⟩⟩
      hmeets
  refine ⟨fun row hrow => ⟨hinv.1.rows.observed_reached row hrow, hinv.2.shows row hrow⟩, ?_⟩
  intro event row hrow later hlater hid
  rcases (step_outcome hinv.1 event).observed hinv.1 later hlater with
    ⟨⟨old, hold, hsame, hobserved, hstatus⟩ | ⟨hnew, -, -⟩, -⟩ | ⟨-, hrecords⟩
  · rw [Table.eq_of_column_eq hinv.1.rows.resource_ids hrow hold (hid.symm.trans hsame.symm)]
    exact Or.inl ⟨hobserved, hstatus⟩
  · exact absurd (hinv.1.rows.resource_old row hrow) (not_lt.mpr (hid ▸ hnew))
  · exact Or.inr hrecords

/-- A save of a certificate, or of a change to it. -/
def saveCertificate (currentKey : Option String) (name : String) : Event where
  env := sampleEnvironment
  call := .save {
    command := {
      key := "wildcard"
      kind := certificateKind
      spec := .obj [("certificate_name", .str name)]
      enabled := true }
    principal := samplePrincipal
    currentKey := currentKey
    expectedUpdatedAt := none
    copiedFromLive := false
    sent := none }

/-- A report begun by a controller. -/
def reportBy (controllerId : String) (operation : Id) (report : ControllerReport) : Event :=
  ⟨sampleEnvironment, .beginReport ⟨operation, report, controllerId⟩⟩

/-- The next statement of the first report in flight. -/
def nextWrite : Event := ⟨sampleEnvironment, .advanceReport 0 false⟩

/-- A reconcile is claimed at the first generation and a renewal at the second.
The renewal is reported first, and the reconcile has saved its operation. -/
def reportedOutOfOrder : List Event :=
  [saveCertificate none "first", claimBy "controller-1" 300,
    saveCertificate (some "wildcard") "second",
    ⟨sampleEnvironment, .requestCertificateRenewal ⟨"renew-1", ""⟩ samplePrincipal "wildcard"⟩,
    claimBy "controller-2" 300,
    reportBy "controller-2" 2 (appliedReport 2 "second"), nextWrite, nextWrite, nextWrite,
    nextWrite,
    reportBy "controller-1" 1 (appliedReport 1 "first"), nextWrite]

/-- The late report of the first generation takes back what the second showed. -/
theorem reportedOutOfOrder_goes_back :
    ¬∀ (now : Moment) (events : List Event) (event : Event),
      ∀ row ∈ (run World.step (World.start now) events).db.resources,
        ∀ later ∈ ((run World.step (World.start now) events).step event).db.resources,
          later.id = row.id → row.observedGeneration ≤ later.observedGeneration := by
  intro h
  have hstep := h 0 reportedOutOfOrder nextWrite
  revert hstep
  decide

end SeverinoHQ.ControlPlane
