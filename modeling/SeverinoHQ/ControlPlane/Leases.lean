/-
# Operations through their leases

The constraints of the table hold in every run: one active operation for each
declaration and action, no claim on a queued one, a completion time exactly on
a finished one. That an operation is settled once, by the holder of its lease
and while the lease stands, needs more. A report checks the operation it reads
and saves it in a later statement; between the two a lease may run out, be
released and be claimed again. It holds in every run whose reports save the
operation as they read it.
-/

import SeverinoHQ.ControlPlane.Generations

namespace SeverinoHQ.ControlPlane

open SeverinoHQ.Math

/-- The constraints of the queue, as its table states them. -/
structure Database.QueueConstraints (db : Database) : Prop where
  one_active : ∀ first ∈ db.operations, ∀ second ∈ db.operations,
    first.state.isActive = true → second.state.isActive = true →
      first.resource = second.resource → first.action = second.action → first = second
  queued_unclaimed : ∀ operation ∈ db.operations, operation.state = .queued →
    operation.claimedBy = "" ∧ operation.claimedAt = none ∧ operation.leaseExpiresAt = none
  finished_says_when : ∀ operation ∈ db.operations,
    operation.completedAt.isSome = true ↔ operation.state.isActive = false

theorem Database.Sound.queueConstraints {db : Database} (h : db.Sound) : db.QueueConstraints where
  one_active := h.one_active
  queued_unclaimed := h.queued_unclaimed
  finished_says_when operation hoperation := by
    rw [h.finished_says_when operation hoperation]
    cases operation.state.isActive <;> simp

/-- Each operation was settled at most once, by the controller its lease named,
before that lease ran out. -/
structure World.SettlesUnderLease (world : World) : Prop where
  once : (world.settlements.map Settlement.operation).Nodup
  held : ∀ settlement ∈ world.settlements, settlement.found.id = settlement.operation ∧
    settlement.found.state = .claimed ∧ settlement.found.claimedBy = settlement.controllerId ∧
      ∃ expires, settlement.found.leaseExpiresAt = some expires ∧ settlement.settledAt < expires

/-- A report saves the operation as it read it, and while its lease stands. -/
def settlesWhatItRead (world : World) (event : Event) : Bool :=
  match event.call with
  | .advanceReport index false =>
      match world.reports[index]? with
      | some ⟨reporting, .saveOperation :: _⟩ =>
          (world.db.operation? reporting.operation.id).all fun row =>
            decide (row = reporting.operation) && !row.isLapsed world.now
      | _ => true
  | _ => true

/-! ## Finished operations -/

/-- The operations of a later moment: each is new, or an earlier one whose state
stands where it was finished. -/
def KeepsFinished (db stored : Database) : Prop :=
  ∀ row ∈ stored.operations, db.serial ≤ row.id ∨ ∃ old ∈ db.operations, old.id = row.id ∧
    (old.state.isActive = false → row.state = old.state)

section Finished

variable {now : Moment} {db stored : Database}

theorem keepsFinished_of_subset (h : stored.operations ⊆ db.operations) :
    KeepsFinished db stored :=
  fun row hrow => Or.inr ⟨row, h hrow, rfl, fun _ => rfl⟩

theorem KeepsFinished.trans {third : Database} (h : KeepsFinished db stored)
    (hserial : db.serial ≤ stored.serial) (h' : KeepsFinished stored third) :
    KeepsFinished db third := by
  intro row hrow
  rcases h' row hrow with hnew | ⟨old, hold, hid, hkept⟩
  · exact Or.inl (hserial.trans hnew)
  · rcases h old hold with hnew | ⟨first, hfirst, hid', hkept'⟩
    · exact Or.inl (hid ▸ hnew)
    · refine Or.inr ⟨first, hfirst, hid'.trans hid, fun hfinished => ?_⟩
      have hstate := hkept' hfinished
      exact (hkept (hstate ▸ hfinished)).trans hstate

/-- An update of active operations leaves the finished ones alone. -/
theorem keepsFinished_updateOperations {selects : OperationRequest → Bool}
    {write : OperationRequest → OperationRequest} (hid : ∀ row, (write row).id = row.id)
    (hactive : ∀ row ∈ db.operations, selects row = true → row.state.isActive = true) :
    KeepsFinished db (db.updateOperations selects write) := by
  intro row hrow
  rcases Table.mem_update.mp hrow with ⟨hold, -⟩ | ⟨old, hold, hselects, rfl⟩
  · exact Or.inr ⟨row, hold, rfl, fun _ => rfl⟩
  · refine Or.inr ⟨old, hold, (hid old).symm, fun hfinished => ?_⟩
    rw [hactive old hold hselects] at hfinished
    cases hfinished

theorem keepsFinished_inserted (ask : Ask) : KeepsFinished db (db.inserted now ask) := by
  intro operation hoperation
  have hmem : operation ∈ db.operations ∨ operation = ask.operation db.serial now := by
    simpa [Database.inserted] using hoperation
  rcases hmem with hold | rfl
  · exact Or.inr ⟨operation, hold, rfl, fun _ => rfl⟩
  · exact Or.inl (le_refl _)

theorem released_id (operation : OperationRequest) : (released db now operation).id = operation.id := by
  rw [released]
  split <;> rfl

theorem Change.keepsFinished (hsound : db.Sound) (h : Change now db stored) :
    KeepsFinished db stored := by
  cases h with
  | declare row => exact keepsFinished_of_subset (List.Subset.refl _)
  | rewrite old row => exact keepsFinished_of_subset (List.Subset.refl _)
  | switchOff old row =>
      have hoff : KeepsFinished (db.saveResource row)
          (callOffWaiting now row.id (db.saveResource row)) := by
        refine keepsFinished_updateOperations (fun _ => rfl) fun operation _ hwaits => ?_
        simp only [OperationRequest.waitsFor, Bool.and_eq_true, beq_iff_eq] at hwaits
        rw [hwaits.1.2]
        rfl
      exact hoff
  | insert ask row => exact keepsFinished_inserted ask
  | release =>
      refine keepsFinished_updateOperations released_id ?_
      intro operation _ hlapsed
      rw [OperationRequest.isLapsed, Bool.and_eq_true, beq_iff_eq] at hlapsed
      rw [hlapsed.1]
      rfl
  | fail operation hoperation hqueued raised =>
      refine keepsFinished_updateOperations (fun _ => rfl) fun row hrow hid => ?_
      rw [eq_of_id_beq hsound hoperation hrow hid, hqueued]
      rfl
  | lease operation hoperation hqueued controllerId hnamed leaseSeconds =>
      refine keepsFinished_updateOperations (fun _ => rfl) fun row hrow hid => ?_
      rw [eq_of_id_beq hsound hoperation hrow hid, hqueued]
      rfl
  | read kind =>
      apply keepsFinished_of_subset
      rw [requestReading]
      split <;> exact List.Subset.refl _
  | forget gone => exact keepsFinished_of_subset (List.Subset.refl _)

theorem Transaction.keepsFinished (hsound : db.Sound) (h : Transaction now db stored) :
    KeepsFinished db stored := by
  induction h with
  | refl => exact keepsFinished_of_subset (List.Subset.refl _)
  | tail hinitial hchange ih =>
      obtain ⟨hmiddle, hlater⟩ := Transaction.sound_later hinitial hsound
      exact ih.trans hlater.serial (hchange.keepsFinished hmiddle)

/-- A report's write leaves finished operations alone, where its save finds its
own operation claimed. -/
theorem performWrite_keepsFinished {env : Environment} {reporting : Reporting}
    {write : ReportWrite} (hclaimed : write = .saveOperation → ∀ row ∈ db.operations,
      row.id = reporting.operation.id → row.state = .claimed)
    (h : performWrite env now reporting db write = .ok stored) : KeepsFinished db stored := by
  cases write with
  | saveOperation =>
      rw [performWrite] at h
      split_ifs at h
      cases h
      refine keepsFinished_updateOperations (settled_id now reporting.report)
        fun row hrow hid => ?_
      rw [hclaimed rfl row hrow (beq_iff_eq.mp hid)]
      rfl
  | saveResource =>
      rw [performWrite] at h
      split at h
      · cases h
      · split_ifs at h
        cases h
        exact keepsFinished_of_subset (List.Subset.refl _)
  | confirmTargets =>
      obtain ⟨reached, -, rfl⟩ := performWrite_confirmTargets_ok h
      exact keepsFinished_of_subset (List.Subset.refl _)
  | readBack =>
      cases h
      apply keepsFinished_of_subset
      rw [requestReading]
      split <;> exact List.Subset.refl _
  | deleteOperations =>
      cases h
      exact keepsFinished_of_subset fun row hrow => (Table.mem_delete.mp hrow).1
  | strikeInventory =>
      cases h
      exact keepsFinished_of_subset (List.Subset.refl _)
  | deleteResource =>
      rw [performWrite] at h
      split_ifs at h
      cases h
      exact keepsFinished_of_subset (List.Subset.refl _)

end Finished

section Settles

variable {world after : World} {event : Event}

/-- What the condition says at a report's save: the row found is the row read,
claimed under a lease that stands. -/
theorem found_of_settlesWhatItRead (hsound : world.Sound)
    (hcondition : settlesWhatItRead world event = true) {index : Nat} {report : ReportRun}
    {remaining : List ReportWrite} (hcall : event.call = .advanceReport index false)
    (hfound : world.reports[index]? = some report)
    (hnext : report.remaining = .saveOperation :: remaining) {row : OperationRequest}
    (hrow : row ∈ world.db.operations) (hid : row.id = report.reporting.operation.id) :
    row = report.reporting.operation ∧ row.isLapsed world.now = false := by
  obtain ⟨reporting, writes⟩ := report
  dsimp only at hnext hid ⊢
  subst hnext
  have hstored : world.db.operation? reporting.operation.id = some row := by
    cases hlookup : world.db.operation? reporting.operation.id with
    | none =>
        rw [Database.operation?, List.find?_eq_none] at hlookup
        exact absurd (by simpa using hid) (hlookup row hrow)
    | some other =>
        obtain ⟨hother, hsame⟩ := Database.mem_of_operation? hlookup
        rw [Table.eq_of_column_eq hsound.rows.operation_ids hother hrow (hsame.trans hid.symm)]
  simpa [settlesWhatItRead, hcall, hfound, hstored] using hcondition

/-- The step: an event whose save finds what it read keeps finished operations. -/
theorem Outcome.keepsFinished (hsound : world.Sound) (h : Outcome world event after)
    (hcondition : settlesWhatItRead world event = true) : KeepsFinished world.db after.db := by
  cases h with
  | tick elapsed => exact keepsFinished_of_subset (List.Subset.refl _)
  | transact stored queueings htransaction =>
      exact Transaction.keepsFinished hsound.rows htransaction
  | begin queueing => exact keepsFinished_of_subset (List.Subset.refl _)
  | insertLate index queueing ask asks stored created queueings hcall hfound hasks hphase hcreate =>
      obtain ⟨-, -, rfl⟩ := create_eq_ok hcreate
      exact keepsFinished_inserted ask
  | hand call before operation contract hcall hpick htransaction hdescribes hnamed =>
      exact Transaction.keepsFinished hsound.rows (htransaction.tail (.lease operation
        hdescribes.queued.1 hdescribes.queued.2 _ hnamed call.leaseSeconds))
  | accept call reporting => exact keepsFinished_of_subset (List.Subset.refl _)
  | finish reports => exact keepsFinished_of_subset (List.Subset.refl _)
  | write index report write remaining stored hcall hfound hnext hwrite =>
      refine performWrite_keepsFinished ?_ hwrite
      rintro rfl row hrow hid
      obtain ⟨rfl, -⟩ := found_of_settlesWhatItRead hsound hcondition hcall hfound hnext hrow hid
      exact (hsound.reports report (List.mem_of_getElem? hfound)).claimed

/-- What the history of settlements keeps: every operation in it is finished, or gone. -/
structure World.SettlesOnce (world : World) : Prop extends world.SettlesUnderLease where
  old : ∀ settlement ∈ world.settlements, settlement.operation < world.db.serial
  finished : ∀ settlement ∈ world.settlements, ∀ row ∈ world.db.operations,
    row.id = settlement.operation → row.state.isActive = false

/-- Events that settle nothing keep what was settled settled. -/
theorem World.SettlesOnce.keep (h : world.SettlesOnce) (hsettlements : after.settlements = world.settlements)
    (hserial : world.db.serial ≤ after.db.serial) (hkept : KeepsFinished world.db after.db) :
    after.SettlesOnce := by
  refine ⟨⟨?_, ?_⟩, ?_, ?_⟩ <;> rw [hsettlements]
  · exact h.once
  · exact h.held
  · exact fun settlement hmem => (h.old settlement hmem).trans_le hserial
  · intro settlement hmem row hrow hid
    rcases hkept row hrow with hnew | ⟨old, hold, hsame, hstate⟩
    · exact absurd (hid ▸ hnew) (not_le.mpr (h.old settlement hmem))
    · have hfinished := h.finished settlement hmem old hold (hsame.trans hid)
      rw [hstate hfinished]
      exact hfinished

/-- A save that finds what it read adds a settlement by the lease's holder. -/
theorem settlementsAfter_saveOperation {reporting : Reporting} {found : OperationRequest}
    (hfound : world.db.operation? reporting.operation.id = some found) :
    world.settlementsAfter reporting .saveOperation =
      ⟨found.id, reporting.operation.claimedBy, world.now, found⟩ :: world.settlements := by
  simp only [World.settlementsAfter, hfound]

theorem settlementsAfter_of_ne {reporting : Reporting} {write : ReportWrite}
    (h : write ≠ .saveOperation) :
    world.settlementsAfter reporting write = world.settlements := by
  cases write <;> first | exact absurd rfl h | rfl

theorem exists_lease_of_not_lapsed (hsound : world.Sound) {row : OperationRequest}
    (hrow : row ∈ world.db.operations) (hclaimed : row.state = .claimed)
    (hlease : row.isLapsed world.now = false) :
    ∃ expires, row.leaseExpiresAt = some expires ∧ world.now < expires := by
  obtain ⟨-, hsome⟩ := hsound.rows.claimed_leased row hrow hclaimed
  obtain ⟨expires, hexpires⟩ := Option.isSome_iff_exists.mp hsome
  refine ⟨expires, hexpires, ?_⟩
  simpa [OperationRequest.isLapsed, hclaimed, hexpires] using hlease

/-- A save of the operation a report read, over the history of settlements. -/
theorem World.SettlesOnce.settle (hsound : world.Sound) (hsettles : world.SettlesOnce)
    {stored : Database} {reporting : Reporting} {row : OperationRequest} {env : Environment}
    {reports : List ReportRun} {recordings : List Recording}
    (hlookup : world.db.operation? reporting.operation.id = some row)
    (heq : row = reporting.operation) (hclaimed : row.state = .claimed)
    (hlease : row.isLapsed world.now = false)
    (hwrite : performWrite env world.now reporting world.db .saveOperation = .ok stored)
    (hkept : World.SettlesOnce { world with db := stored }) :
    World.SettlesOnce { world with
      db := stored
      reports := reports
      settlements := world.settlementsAfter reporting .saveOperation
      recordings := recordings } := by
  obtain ⟨hrow, -⟩ := Database.mem_of_operation? hlookup
  subst heq
  rw [performWrite_saveOperation hlookup] at hwrite
  cases hwrite
  rw [settlementsAfter_saveOperation hlookup]
  refine ⟨⟨?_, ?_⟩, ?_, ?_⟩
  · -- What was settled before is finished, and this one was still claimed.
    refine List.nodup_cons.mpr ⟨fun hmem => ?_, hsettles.once⟩
    obtain ⟨settlement, hsettlement, hsame⟩ := List.mem_map.mp hmem
    have hfinished := hsettles.finished settlement hsettlement _ hrow hsame.symm
    rw [hclaimed] at hfinished
    cases hfinished
  · intro settlement hmem
    rcases List.mem_cons.mp hmem with rfl | hold
    · exact ⟨rfl, hclaimed, rfl, exists_lease_of_not_lapsed hsound hrow hclaimed hlease⟩
    · exact hsettles.held settlement hold
  · intro settlement hmem
    rcases List.mem_cons.mp hmem with rfl | hold
    · exact hsound.rows.operation_old _ hrow
    · exact hkept.old settlement hold
  · intro settlement hmem other hother hid
    rcases List.mem_cons.mp hmem with rfl | hold
    · rcases Table.mem_update.mp hother with ⟨-, hunselected⟩ | ⟨old, -, -, rfl⟩
      · simp [hid] at hunselected
      · exact settled_isActive _ _ old
    · exact hkept.finished settlement hold other hother hid

/-- The step, over the history of settlements. -/
theorem Outcome.settlesOnce (hsound : world.Sound) (h : Outcome world event after)
    (hcondition : settlesWhatItRead world event = true) (hsettles : world.SettlesOnce) :
    after.SettlesOnce := by
  have hkept := h.keepsFinished hsound hcondition
  have hserial := (h.rows_sound_later hsound).2.serial
  cases h with
  | write index report write remaining stored hcall hfound hnext hwrite =>
      by_cases hsave : write = .saveOperation
      · subst hsave
        have hstored : ∃ row, world.db.operation? report.reporting.operation.id = some row := by
          rw [performWrite] at hwrite
          split_ifs at hwrite with hnone
          exact Option.ne_none_iff_exists'.mp (by simpa using hnone)
        obtain ⟨row, hlookup⟩ := hstored
        obtain ⟨hrow, hid⟩ := Database.mem_of_operation? hlookup
        obtain ⟨heq, hlease⟩ :=
          found_of_settlesWhatItRead hsound hcondition hcall hfound hnext hrow hid
        have hclaimed : row.state = .claimed := by
          rw [heq]
          exact (hsound.reports report (List.mem_of_getElem? hfound)).claimed
        exact hsettles.settle hsound hlookup heq hclaimed hlease hwrite
          (hsettles.keep rfl hserial hkept)
      · exact hsettles.keep (settlementsAfter_of_ne hsave) hserial hkept
  | tick elapsed => exact hsettles.keep rfl hserial hkept
  | transact stored queueings => exact hsettles.keep rfl hserial hkept
  | begin queueing => exact hsettles.keep rfl hserial hkept
  | insertLate index queueing ask asks stored => exact hsettles.keep rfl hserial hkept
  | hand call before operation contract => exact hsettles.keep rfl hserial hkept
  | accept call reporting => exact hsettles.keep rfl hserial hkept
  | finish reports => exact hsettles.keep rfl hserial hkept

/-- A finished operation as it stands from then on. -/
structure World.Ended (world : World) (operation : OperationRequest) : Prop where
  old : operation.id < world.db.serial
  stands : ∀ row ∈ world.db.operations, row.id = operation.id → row.state = operation.state

theorem Outcome.ended (hsound : world.Sound) (h : Outcome world event after)
    (hcondition : settlesWhatItRead world event = true) {operation : OperationRequest}
    (hfinished : operation.state.isActive = false) (hended : world.Ended operation) :
    after.Ended operation := by
  have hkept := h.keepsFinished hsound hcondition
  refine ⟨hended.old.trans_le (h.rows_sound_later hsound).2.serial, fun row hrow hid => ?_⟩
  rcases hkept row hrow with hnew | ⟨old, hold, hsame, hstate⟩
  · exact absurd (hid ▸ hnew) (not_le.mpr hended.old)
  · have hstands := hended.stands old hold (hsame.trans hid)
    exact (hstate (hstands ▸ hfinished)).trans hstands

end Settles

/-- In every run whose reports save what they read, the queue keeps its
constraints, each operation is settled at most once and under its own lease, and
what was finished at any moment stands in every later one. -/
theorem run_settles_under_lease (now : Moment) (first second : List Event)
    (hmeets : Meets World.step (fun world event => settlesWhatItRead world event = true)
      (World.start now) (first ++ second)) :
    let earlier := run World.step (World.start now) first
    let world := run World.step (World.start now) (first ++ second)
    world.db.QueueConstraints ∧ world.SettlesUnderLease ∧
      ∀ operation ∈ earlier.db.operations, operation.state.isActive = false →
        ∀ row ∈ world.db.operations, row.id = operation.id → row.state = operation.state := by
  intro earlier world
  obtain ⟨hfirst, hsecond⟩ := hmeets.append
  have hinv : ∀ {start : World} {events : List Event}, start.Sound ∧ start.SettlesOnce →
      Meets World.step (fun world event => settlesWhatItRead world event = true) start events →
      (run World.step start events).Sound ∧ (run World.step start events).SettlesOnce :=
    run_invariant (fun state : World => state.Sound ∧ state.SettlesOnce)
      fun state event hstate hcondition => ⟨(step_outcome hstate.1 event).sound hstate.1,
        (step_outcome hstate.1 event).settlesOnce hstate.1 hcondition hstate.2⟩
  have hstart : (World.start now).Sound ∧ (World.start now).SettlesOnce :=
    ⟨World.start_sound now, ⟨⟨by simp [World.start], by simp [World.start]⟩,
      by simp [World.start], by simp [World.start]⟩⟩
  have hearlier := hinv hstart hfirst
  have hworld := hinv hstart hmeets
  refine ⟨hworld.1.rows.queueConstraints, hworld.2.toSettlesUnderLease, ?_⟩
  intro operation hoperation hfinished row hrow hid
  have hended : earlier.Ended operation := by
    refine ⟨hearlier.1.rows.operation_old operation hoperation, fun other hother hsame => ?_⟩
    rw [Table.eq_of_column_eq hearlier.1.rows.operation_ids hother hoperation hsame]
  have hlater := run_invariant (fun state : World => state.Sound ∧ state.Ended operation)
    (fun state event hstate hcondition => ⟨(step_outcome hstate.1 event).sound hstate.1,
      (step_outcome hstate.1 event).ended hstate.1 hcondition hfinished hstate.2⟩)
    ⟨hearlier.1, hended⟩ hsecond
  rw [← run_append] at hlater
  exact hlater.2.stands row hrow hid

/-- A rewrite is saved, claimed, and reported within its lease. -/
def reportedInTime : List Event :=
  [saveRewrite none "10.0.0.4" true false, claimBy "controller-1" 30,
    reportBy "controller-1" 1 (appliedReport 1 "first"), nextWrite, nextWrite]

theorem reportedInTime_settled :
    Meets World.step (fun world event => settlesWhatItRead world event = true) (World.start 0)
        (reportedInTime ++ []) ∧
      (run World.step (World.start 0) (reportedInTime ++ [])).SettlesUnderLease ∧
      (run World.step (World.start 0) (reportedInTime ++ [])).settlements.map
        Settlement.controllerId = ["controller-1"] :=
  ⟨by decide, (run_settles_under_lease 0 reportedInTime [] (by decide)).2.1, by decide⟩

/-- Time passes. -/
def wait (elapsed : Nat) : Event := ⟨sampleEnvironment, .tick elapsed⟩

/-- A report is accepted a second before its lease runs out, the operation is
claimed again by another controller, and then both reports are saved. -/
def claimedAgainMeanwhile : List Event :=
  [saveRewrite none "10.0.0.4" true false, claimBy "controller-1" 30, wait 29000000,
    reportBy "controller-1" 1 (appliedReport 1 "first"), wait 2000000, claimBy "controller-2" 30,
    reportBy "controller-2" 1 (appliedReport 1 "second"), nextWrite,
    ⟨sampleEnvironment, .advanceReport 1 false⟩]

/-- The first report settles what another controller holds, and the second
settles it again. -/
theorem claimedAgainMeanwhile_settled_twice :
    ¬∀ (now : Moment) (events : List Event),
      (run World.step (World.start now) events).SettlesUnderLease := by
  intro h
  have honce := (h 0 claimedAgainMeanwhile).once
  revert honce
  decide

end SeverinoHQ.ControlPlane
