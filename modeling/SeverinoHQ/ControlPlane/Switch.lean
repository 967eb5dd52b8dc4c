/-
# The switch and the queue

Switching a declaration off ends what waits for it, a lapsed lease of one that
is off ends instead of queueing again, and every path that queues looks at the
switch. Inside a transaction that is enough. The automatic pass, and a renewal
asked without a retry key, look at the switch first and insert later: what they
queue is right in every run whose late inserts still find the declaration on.
-/

import SeverinoHQ.ControlPlane.Generations

namespace SeverinoHQ.ControlPlane

open SeverinoHQ.Math

/-- No operation but a removal waits for a declaration that is switched off. -/
def Database.Quiet (db : Database) : Prop :=
  ∀ operation ∈ db.operations, operation.state = .queued → operation.action ≠ .delete →
    ∀ resource ∈ db.resources, resource.id = operation.resource → resource.enabled = true

/-- The queue respects the switch, and so did every contract handed out. -/
structure World.RespectsSwitch (world : World) : Prop where
  quiet : world.db.Quiet
  handed : ∀ handed ∈ world.handed, handed.action ≠ .delete → handed.enabled = true

/-- A late insert that goes through finds its declaration on, or asks its removal. -/
def insertsInTime (world : World) (event : Event) : Bool :=
  match event.call with
  | .advanceQueueing index =>
      match world.queueings[index]? with
      | some ⟨ask :: _, .create, _, _⟩ =>
          match world.db.create world.now ask with
          | .ok _ => ask.action == .delete || world.db.resources.all fun resource =>
              resource.id != ask.resource.id || resource.enabled
          | .error _ => true
      | _ => true
  | _ => true

section Quiet

variable {now : Moment} {db stored : Database}

/-- Rows that only leave the queue, or leave the table, keep it quiet. -/
theorem Database.Quiet.of_rows (h : db.Quiet)
    (hoperations : ∀ row ∈ stored.operations, row.state = .queued → row ∈ db.operations)
    (hresources : ∀ row ∈ stored.resources, ∃ old ∈ db.resources, old.id = row.id ∧
      old.enabled = row.enabled) : stored.Quiet := by
  intro operation hoperation hqueued haction resource hresource hid
  obtain ⟨old, hold, hsame, henabled⟩ := hresources resource hresource
  rw [← henabled]
  exact h operation (hoperations operation hoperation hqueued) hqueued haction old hold
    (hsame.trans hid)

theorem self_rows (db : Database) :
    ∀ row ∈ db.resources, ∃ old ∈ db.resources, old.id = row.id ∧ old.enabled = row.enabled :=
  fun row hrow => ⟨row, hrow, rfl, rfl⟩

/-- An update that writes only finished or claimed operations adds nothing to the queue. -/
theorem mem_of_queued_update {selects : OperationRequest → Bool}
    {write : OperationRequest → OperationRequest}
    (hwrite : ∀ row, (write row).state ≠ .queued) :
    ∀ row ∈ (db.updateOperations selects write).operations, row.state = .queued →
      row ∈ db.operations := by
  intro row hrow hqueued
  rcases Table.mem_update.mp hrow with ⟨hold, -⟩ | ⟨old, -, -, rfl⟩
  · exact hold
  · exact absurd hqueued (hwrite old)

theorem Database.Quiet.inserted (h : db.Quiet) {ask : Ask}
    (hswitch : ask.action = .delete ∨ ∀ row ∈ db.resources, row.id = ask.resource.id →
      row.enabled = true) : (db.inserted now ask).Quiet := by
  intro operation hoperation hqueued haction resource hresource hid
  have hmem : operation ∈ db.operations ∨ operation = ask.operation db.serial now := by
    simpa [Database.inserted] using hoperation
  rcases hmem with hold | rfl
  · exact h operation hold hqueued haction resource hresource hid
  · exact hswitch.resolve_left haction resource hresource hid

/-- A lapsed lease of a declaration that is off does not queue again. -/
theorem Database.Quiet.released (h : db.Quiet) : (releaseLapsed now db).Quiet := by
  intro operation hoperation hqueued haction resource hresource hid
  rcases Table.mem_update.mp hoperation with ⟨hold, -⟩ | ⟨old, -, -, rfl⟩
  · exact h operation hold hqueued haction resource hresource hid
  · unfold ControlPlane.released at hqueued haction hid
    split_ifs at hqueued haction hid with hends
    · by_contra hoff
      apply hends
      rw [Database.endsOnRelease, Bool.and_eq_true]
      refine ⟨by simpa using haction, List.any_eq_true.mpr ⟨resource, hresource, ?_⟩⟩
      rw [Bool.and_eq_true]
      exact ⟨by simpa using hid, by simpa using hoff⟩

/-- Switching a declaration off calls off all that waited for it. -/
theorem Database.Quiet.switchedOff (h : db.Quiet) (row : ManagedResource) :
    (callOffWaiting now row.id (db.saveResource row)).Quiet := by
  intro operation hoperation hqueued haction resource hresource hid
  rcases Table.mem_update.mp hoperation with ⟨hold, hwaits⟩ | ⟨old, -, -, rfl⟩
  · rcases mem_saveResource hresource with ⟨hmem, -⟩ | rfl
    · exact h operation hold hqueued haction resource hmem hid
    · rw [OperationRequest.waitsFor, hid, hqueued] at hwaits
      simp [haction] at hwaits
  · cases hqueued

theorem Change.quiet (hsound : db.Sound) (h : Change now db stored) (hquiet : db.Quiet) :
    stored.Quiet := by
  cases h with
  | declare row hid hobserved hstatus =>
      intro operation hoperation hqueued haction resource hresource hsame
      rcases List.mem_append.mp hresource with hold | hnew
      · exact hquiet operation hoperation hqueued haction resource hold hsame
      · -- Nothing waits yet for a declaration that is only now created.
        rw [List.mem_singleton.mp hnew] at hsame
        obtain ⟨other, hother, hstored⟩ := hsound.resource_stored operation hoperation
        exact absurd (hstored.trans (hsame.symm.trans hid)) (hsound.resource_old other hother).ne
  | rewrite old row hold hid hgeneration hobserved hstatus hswitch =>
      intro operation hoperation hqueued haction resource hresource hsame
      rcases mem_saveResource hresource with ⟨hmem, -⟩ | rfl
      · exact hquiet operation hoperation hqueued haction resource hmem hsame
      · exact hswitch
  | switchOff old row => exact hquiet.switchedOff row
  | insert ask row hrow hid hinactive hgeneration hswitch =>
      refine hquiet.inserted (hswitch.symm.imp_right fun henabled other hother hsame => ?_)
      rw [Table.eq_of_column_eq hsound.resource_ids hother hrow (hsame.trans hid.symm)]
      exact henabled
  | release => exact hquiet.released
  | fail operation hoperation hqueued raised =>
      exact hquiet.of_rows (mem_of_queued_update fun _ => nofun) (self_rows db)
  | lease operation hoperation hqueued controllerId hnamed leaseSeconds =>
      exact hquiet.of_rows (mem_of_queued_update fun _ => nofun) (self_rows db)
  | read kind =>
      rw [requestReading]
      split <;> exact hquiet
  | forget gone =>
      exact hquiet.of_rows (fun _ hrow _ => hrow)
        fun row hrow => self_rows db row (Table.mem_delete.mp hrow).1

theorem Transaction.quiet (hsound : db.Sound) (h : Transaction now db stored)
    (hquiet : db.Quiet) : stored.Quiet := by
  induction h with
  | refl => exact hquiet
  | tail hinitial hchange ih =>
      exact hchange.quiet (Transaction.sound_later hinitial hsound).1 ih

/-- No write of a report queues anything or throws a switch. -/
theorem performWrite_quiet {env : Environment} {reporting : Reporting} {write : ReportWrite}
    (h : performWrite env now reporting db write = .ok stored) (hquiet : db.Quiet) :
    stored.Quiet := by
  cases write with
  | saveOperation =>
      rw [performWrite] at h
      split_ifs at h
      cases h
      refine hquiet.of_rows (mem_of_queued_update fun row hqueued => ?_) (self_rows db)
      have hfinished := settled_isActive now reporting.report row
      rw [hqueued] at hfinished
      cases hfinished
  | saveResource =>
      rw [performWrite] at h
      split at h
      · cases h
      · split_ifs at h
        cases h
        refine hquiet.of_rows (fun _ hrow _ => hrow) fun row hrow => ?_
        rcases Table.mem_update.mp hrow with ⟨hold, -⟩ | ⟨old, hold, -, rfl⟩
        · exact self_rows db row hold
        · refine ⟨old, hold, (recorded_id ..).symm, ?_⟩
          rw [recorded]
          split <;> rfl
  | confirmTargets =>
      obtain ⟨reached, -, rfl⟩ := performWrite_confirmTargets_ok h
      refine hquiet.of_rows (fun _ hrow _ => hrow) fun row hrow => ?_
      rcases Table.mem_update.mp hrow with ⟨hold, -⟩ | ⟨old, hold, -, rfl⟩
      · exact self_rows db row hold
      · exact ⟨old, hold, rfl, rfl⟩
  | readBack =>
      cases h
      rw [requestReading]
      split <;> exact hquiet
  | deleteOperations =>
      cases h
      exact hquiet.of_rows (fun row hrow _ => (Table.mem_delete.mp hrow).1) (self_rows db)
  | strikeInventory =>
      cases h
      exact hquiet
  | deleteResource =>
      rw [performWrite] at h
      split_ifs at h
      cases h
      exact hquiet.of_rows (fun _ hrow _ => hrow)
        fun row hrow => self_rows db row (Table.mem_delete.mp hrow).1

end Quiet

section Respects

variable {world after : World} {event : Event}

/-- The step: an event whose late insert is in time keeps the queue and the
contracts on the right side of the switch. -/
theorem Outcome.respectsSwitch (hsound : world.Sound) (h : Outcome world event after)
    (hcondition : insertsInTime world event = true) (hrespects : world.RespectsSwitch) :
    after.RespectsSwitch := by
  cases h with
  | tick elapsed => exact ⟨hrespects.quiet, hrespects.handed⟩
  | transact stored queueings htransaction =>
      exact ⟨Transaction.quiet hsound.rows htransaction hrespects.quiet, hrespects.handed⟩
  | begin queueing => exact ⟨hrespects.quiet, hrespects.handed⟩
  | insertLate index queueing ask asks stored created queueings hcall hfound hasks hphase hcreate =>
      obtain ⟨-, -, rfl⟩ := create_eq_ok hcreate
      obtain ⟨all, phase, began, repairs⟩ := queueing
      dsimp only at hasks hphase
      subst hasks hphase
      simp only [insertsInTime, hcall, hfound, hcreate, Bool.or_eq_true, beq_iff_eq,
        List.all_eq_true, bne_iff_ne, ne_eq] at hcondition
      refine ⟨hrespects.quiet.inserted (hcondition.imp_right fun hall row hrow hid => ?_),
        hrespects.handed⟩
      exact (hall row hrow).resolve_left (not_not.mpr hid)
  | hand call before operation contract hcall hpick htransaction hdescribes hnamed =>
      have hbefore := Transaction.quiet hsound.rows htransaction hrespects.quiet
      have hsoundBefore := (Transaction.sound_later htransaction hsound.rows).1
      refine ⟨(Change.lease operation hdescribes.queued.1 hdescribes.queued.2 _ hnamed
        call.leaseSeconds).quiet hsoundBefore hbefore, fun handed hmem haction => ?_⟩
      rcases List.mem_cons.mp hmem with rfl | hold
      · obtain ⟨resource, hresource, hid, -, henabled⟩ := hdescribes.resource
        dsimp only at haction ⊢
        rw [henabled]
        exact hbefore operation hdescribes.queued.1 hdescribes.queued.2 haction resource hresource
          hid
      · exact hrespects.handed handed hold haction
  | accept call reporting => exact ⟨hrespects.quiet, hrespects.handed⟩
  | finish reports => exact ⟨hrespects.quiet, hrespects.handed⟩
  | write index report write remaining stored hcall hfound hnext hwrite =>
      exact ⟨performWrite_quiet hwrite hrespects.quiet, hrespects.handed⟩

end Respects

/-- In every run whose late inserts are in time, nothing but a removal waits for
a declaration that is off, and no contract for one was handed out. -/
theorem run_respects_switch (now : Moment) (events : List Event)
    (hmeets : Meets World.step (fun world event => insertsInTime world event = true)
      (World.start now) events) :
    (run World.step (World.start now) events).RespectsSwitch := by
  have hinv := run_invariant (fun world : World => world.Sound ∧ world.RespectsSwitch)
    (fun world event hworld hcondition =>
      ⟨(step_outcome hworld.1 event).sound hworld.1,
        (step_outcome hworld.1 event).respectsSwitch hworld.1 hcondition hworld.2⟩)
    ⟨World.start_sound now, ⟨by simp [World.start, Database.empty, Database.Quiet],
      by simp [World.start]⟩⟩ hmeets
  exact hinv.2

/-- The next statement of the first queueing in flight. -/
def nextStatement : Event := ⟨sampleEnvironment, .advanceQueueing 0⟩

/-- A controller's automatic pass begins. -/
def scheduleBy (controllerId : String) : Event :=
  ⟨sampleEnvironment, .beginSchedule controllerId⟩

/-- An automatic pass queues a reconcile, and the declaration is then switched off. -/
def switchedOffAfterwards : List Event :=
  [saveRewrite none "10.0.0.4" true true, scheduleBy "controller-1", nextStatement, nextStatement,
    nextStatement, saveRewrite (some "nas-rewrite") "10.0.0.4" false false,
    claimBy "controller-1" 300]

theorem switchedOffAfterwards_respected :
    Meets World.step (fun world event => insertsInTime world event = true) (World.start 0)
        switchedOffAfterwards ∧
      (run World.step (World.start 0) switchedOffAfterwards).RespectsSwitch ∧
      (run World.step (World.start 0) switchedOffAfterwards).db.operations.map
        OperationRequest.state = [.cancelled] :=
  ⟨by decide, run_respects_switch 0 switchedOffAfterwards (by decide), by decide⟩

/-- The declaration is switched off between what the pass read and its insert. -/
def switchedOffMeanwhile : List Event :=
  [saveRewrite none "10.0.0.4" true true, scheduleBy "controller-1", nextStatement, nextStatement,
    saveRewrite (some "nas-rewrite") "10.0.0.4" false false, nextStatement]

/-- The pass queues a reconcile for a declaration that is off, and the next claim
hands it out. -/
theorem switchedOffMeanwhile_queued :
    ¬(run World.step (World.start 0) switchedOffMeanwhile).RespectsSwitch ∧
      ¬(run World.step (World.start 0)
        (switchedOffMeanwhile ++ [claimBy "controller-1" 300])).RespectsSwitch := by
  constructor
  · intro h
    have hquiet := h.quiet
    unfold Database.Quiet at hquiet
    revert hquiet
    decide
  · intro h
    have hhanded := h.handed
    revert hhanded
    decide

end SeverinoHQ.ControlPlane
