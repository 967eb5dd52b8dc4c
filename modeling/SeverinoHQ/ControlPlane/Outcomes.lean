/-
# What an event can do

Every event of the control plane is one of eight things. `Outcome` lists them
with everything a later argument may need, `step_outcome` shows once that there
is nothing else, and the soundness of the stored rows and of the calls in flight
follows for every run, whatever its interleaving.
-/

import SeverinoHQ.ControlPlane.Transactions

namespace SeverinoHQ.ControlPlane

open SeverinoHQ.Math

/-! ## Calls in flight -/

/-- What stays true of an ask between its caller's read and its insert. -/
structure Ask.InFlight (ask : Ask) (db : Database) : Prop where
  resource_old : ask.resource.id < db.serial
  generation : ∀ row ∈ db.resources, row.id = ask.resource.id →
    ask.input.generation ≤ row.generation

/-- What stays true of a report between its checks and its last write. -/
structure Reporting.InFlight (reporting : Reporting) (db : Database) : Prop where
  operation_old : reporting.operation.id < db.serial
  resource_old : reporting.resource.id < db.serial
  resource : reporting.operation.resource = reporting.resource.id
  claimed : reporting.operation.state = .claimed
  generation : reporting.report.observedGeneration = reporting.operation.input.generation
  reached : ∀ row ∈ db.resources, row.id = reporting.resource.id →
    reporting.operation.input.generation ≤ row.generation
  input : ∀ row ∈ db.operations, row.id = reporting.operation.id →
    row.resource = reporting.operation.resource ∧ row.input = reporting.operation.input

/-- What holds between any two events. -/
structure World.Sound (world : World) : Prop where
  rows : world.db.Sound
  asks : ∀ queueing ∈ world.queueings, ∀ ask ∈ queueing.asks, ask.InFlight world.db
  reports : ∀ report ∈ world.reports, report.reporting.InFlight world.db

theorem World.start_sound (now : Moment) : (World.start now).Sound :=
  ⟨Database.empty_sound, by simp [World.start], by simp [World.start]⟩

section Later

variable {db stored : Database}

theorem Ask.InFlight.later {ask : Ask} (h : ask.InFlight db) (hlater : Later db stored) :
    ask.InFlight stored := by
  refine ⟨h.resource_old.trans_le hlater.serial, fun row hrow hid => ?_⟩
  rcases hlater.resources row hrow with hnew | ⟨old, hold, hsame, hgeneration⟩
  · exact absurd (hid ▸ hnew) (not_le.mpr h.resource_old)
  · exact (h.generation old hold (hsame.trans hid)).trans hgeneration

theorem Reporting.InFlight.later {reporting : Reporting} (h : reporting.InFlight db)
    (hlater : Later db stored) : reporting.InFlight stored := by
  refine ⟨h.operation_old.trans_le hlater.serial, h.resource_old.trans_le hlater.serial,
    h.resource, h.claimed, h.generation, fun row hrow hid => ?_, fun row hrow hid => ?_⟩
  · rcases hlater.resources row hrow with hnew | ⟨old, hold, hsame, hgeneration⟩
    · exact absurd (hid ▸ hnew) (not_le.mpr h.resource_old)
    · exact (h.reached old hold (hsame.trans hid)).trans hgeneration
  · rcases hlater.operations row hrow with hnew | ⟨old, hold, hsame, hresource, -, hinput⟩
    · exact absurd (hid ▸ hnew) (not_le.mpr h.operation_old)
    · obtain ⟨hres, hin⟩ := h.input old hold (hsame.trans hid)
      exact ⟨hresource ▸ hres, hinput ▸ hin⟩

end Later

/-- An ask made of a declaration a transaction holds is in flight from then on. -/
theorem Ask.Prompt.inFlight {ask : Ask} {db : Database} (h : ask.Prompt db) : ask.InFlight db :=
  ⟨h.old, h.generation⟩

/-- A report is in flight once it is accepted. -/
theorem inFlight_of_acceptReport {now : Moment} {call : ReportCall} {db : Database}
    {reporting : Reporting} (hsound : db.Sound)
    (h : acceptReport now call.operationId call.report call.controllerId db = .ok reporting) :
    reporting.InFlight db := by
  obtain ⟨hacceptable, hreport⟩ := acceptable_of_acceptReport h
  obtain ⟨hoperation, -⟩ := Database.mem_of_operation? hacceptable.operation_found
  obtain ⟨hresource, hid⟩ := Database.mem_of_resource? hacceptable.resource_found
  refine ⟨hsound.operation_old _ hoperation, hsound.resource_old _ hresource, hid.symm,
    hacceptable.claimed, hreport ▸ hacceptable.generation_matches, fun row hrow hsame => ?_,
    fun row hrow hsame => ?_⟩
  · exact hsound.input_reached _ hoperation row hrow (hsame.trans hid)
  · rw [Table.eq_of_column_eq hsound.operation_ids hrow hoperation hsame]
    exact ⟨rfl, rfl⟩

/-! ## A report's own writes -/

theorem Database.Sound.deleteOperations {db : Database} (h : db.Sound)
    (gone : OperationRequest → Bool) :
    Database.Sound { db with operations := Table.delete db.operations gone } := by
  have hmem : ∀ row ∈ Table.delete db.operations gone, row ∈ db.operations :=
    fun row hrow => (Table.mem_delete.mp hrow).1
  exact ⟨Table.nodup_map_delete h.operation_ids gone,
    fun row hrow => h.operation_old row (hmem row hrow), h.resource_ids, h.resource_old,
    fun row hrow => h.resource_stored row (hmem row hrow),
    fun first hfirst second hsecond =>
      h.one_active first (hmem first hfirst) second (hmem second hsecond),
    fun row hrow => h.queued_unclaimed row (hmem row hrow),
    fun row hrow => h.claimed_leased row (hmem row hrow),
    fun row hrow => h.finished_says_when row (hmem row hrow), h.observed_reached,
    fun row hrow => h.input_reached row (hmem row hrow)⟩

/-- Every write of a report keeps the rows sound and moves them on, whatever
came between it and the report's checks. -/
theorem performWrite_sound_later {env : Environment} {now : Moment} {reporting : Reporting}
    {db stored : Database} {write : ReportWrite} (hsound : db.Sound)
    (h : performWrite env now reporting db write = .ok stored) :
    stored.Sound ∧ Later db stored := by
  cases write with
  | saveOperation =>
      rw [performWrite] at h
      split_ifs at h
      cases h
      have hbecomes : ∀ row ∈ db.operations, (row.id == reporting.operation.id) = true →
          row.Becomes (settled now reporting.report row) := fun row _ _ => becomes_settled row _
      exact ⟨hsound.updateOperations hbecomes, Later.updateOperations hbecomes⟩
  | saveResource =>
      rw [performWrite] at h
      split at h
      · cases h
      · next found hfound =>
          split_ifs at h with hconstraint
          cases h
          have hbecomes : ∀ row ∈ db.resources, (row.id == reporting.resource.id) = true →
              row.Becomes (recorded now reporting row) := by
            intro row hrow hid
            obtain ⟨hstored, hfoundId⟩ := Database.mem_of_resource? hfound
            have heq : row = found := Table.eq_of_column_eq hsound.resource_ids hrow hstored
              ((beq_iff_eq.mp hid).trans hfoundId.symm)
            have hreached := hsound.observed_reached row hrow
            subst heq
            rw [recorded]
            split
            · next hsuccess =>
                refine ⟨rfl, le_refl _, ?_⟩
                simpa [hsuccess] using hconstraint
            · exact ⟨rfl, le_refl _, hreached⟩
          exact ⟨hsound.updateResources hbecomes, Later.updateResources hbecomes⟩
  | confirmTargets =>
      obtain ⟨reached, -, rfl⟩ := performWrite_confirmTargets_ok h
      have hbecomes : ∀ row ∈ db.resources, (row.kind == deliveryTargetKind
          && (row.spec.get? "connection_ref").any reached.contains) = true →
          row.Becomes (observedAt now row) :=
        fun row hrow _ => ⟨rfl, le_refl _, hsound.observed_reached row hrow⟩
      exact ⟨hsound.updateResources hbecomes, Later.updateResources hbecomes⟩
  | readBack =>
      cases h
      exact ⟨hsound.read _, Later.read db _⟩
  | deleteOperations =>
      cases h
      refine ⟨hsound.deleteOperations _, le_refl _, fun row hrow => ?_, (Later.refl db).resources⟩
      exact (Later.refl db).operations row (Table.mem_delete.mp hrow).1
  | strikeInventory =>
      cases h
      exact ⟨⟨hsound.operation_ids, hsound.operation_old, hsound.resource_ids, hsound.resource_old,
          hsound.resource_stored, hsound.one_active, hsound.queued_unclaimed,
          hsound.claimed_leased, hsound.finished_says_when, hsound.observed_reached,
          hsound.input_reached⟩,
        le_refl _, (Later.refl db).operations, (Later.refl db).resources⟩
  | deleteResource =>
      rw [performWrite] at h
      split_ifs at h with hrefers
      cases h
      refine ⟨hsound.deleteResources ?_, Later.deleteResources db _⟩
      intro row _ hgone operation hoperation hsame
      refine hrefers (List.any_eq_true.mpr ⟨operation, hoperation, ?_⟩)
      rw [beq_iff_eq] at hgone ⊢
      exact hsame.trans hgone

/-! ## Events -/

/-- The queueings after an event that adds none: each is an earlier one, or part of one. -/
def Requeued (before after : List Queueing) : Prop :=
  ∀ queueing ∈ after, ∃ old ∈ before, queueing.asks ⊆ old.asks

/-- What an event does to a world. -/
inductive Outcome (world : World) (event : Event) : World → Prop
  | tick (elapsed : Nat) (hcall : event.call = .tick elapsed) :
      Outcome world event { world with now := world.now + elapsed }
  /-- A transaction commits, or nothing does. -/
  | transact (stored : Database) (queueings : List Queueing)
      (htransaction : Transaction world.now world.db stored)
      (hqueueings : Requeued world.queueings queueings) :
      Outcome world event { world with db := stored, queueings := queueings }
  /-- A call without a transaction has read what it will enqueue. -/
  | begin (queueing : Queueing)
      (hprompt : ∀ ask ∈ queueing.asks, ask.Prompt world.db) :
      Outcome world event (world.queue queueing)
  /-- Such a call inserts one of its asks. -/
  | insertLate (index : Nat) (queueing : Queueing) (ask : Ask) (asks : List Ask)
      (stored : Database) (created : OperationRequest) (queueings : List Queueing)
      (hcall : event.call = .advanceQueueing index)
      (hfound : world.queueings[index]? = some queueing) (hasks : queueing.asks = ask :: asks)
      (hphase : queueing.phase = .create)
      (hcreate : world.db.create world.now ask = .ok (stored, created))
      (hqueueings : Requeued world.queueings queueings) :
      Outcome world event { world with db := stored, queueings := queueings }
  /-- A claim hands out a contract. -/
  | hand (call : ClaimCall) (before : Database) (operation : OperationRequest)
      (contract : Contract) (hcall : event.call = .claim call)
      (hpick : pickClaim event.env world.now call world.db = (before, some (operation, contract)))
      (htransaction : Transaction world.now world.db before)
      (hdescribes : Describes before operation contract) (hnamed : call.controllerId ≠ "") :
      Outcome world event { world with
        db := before.updateOperations (fun row => row.id == operation.id)
          (lease world.now call.controllerId call.leaseSeconds)
        handed := ⟨operation.id, call.controllerId, contract.generation, contract.enabled,
          operation.action⟩ :: world.handed }
  /-- A report is accepted. -/
  | accept (call : ReportCall) (reporting : Reporting)
      (haccept : acceptReport world.now call.operationId call.report call.controllerId world.db =
        .ok reporting) :
      Outcome world event
        { world with reports := world.reports ++ [⟨reporting, reporting.writes event.env⟩] }
  /-- A report raised, or made its last write. -/
  | finish (reports : List ReportRun) (hreports : reports ⊆ world.reports) :
      Outcome world event { world with reports := reports }
  /-- A report makes its next write. -/
  | write (index : Nat) (report : ReportRun) (write : ReportWrite) (remaining : List ReportWrite)
      (stored : Database) (hcall : event.call = .advanceReport index false)
      (hfound : world.reports[index]? = some report) (hnext : report.remaining = write :: remaining)
      (hwrite : performWrite event.env world.now report.reporting world.db write = .ok stored) :
      Outcome world event { world with
        db := stored
        reports := world.reports.set index { report with remaining := remaining }
        settlements := world.settlementsAfter report.reporting write
        recordings := world.recordingsAfter report.reporting write }

section Outcomes

variable {world : World} {event : Event}

theorem requeued_refl (queueings : List Queueing) : Requeued queueings queueings :=
  fun queueing hqueueing => ⟨queueing, hqueueing, List.Subset.refl _⟩

theorem requeued_eraseIdx (queueings : List Queueing) (index : Nat) :
    Requeued queueings (queueings.eraseIdx index) :=
  fun queueing hqueueing => ⟨queueing, List.mem_of_mem_eraseIdx hqueueing, List.Subset.refl _⟩

theorem requeued_set {queueings : List Queueing} {index : Nat} {queueing next : Queueing}
    (hfound : queueings[index]? = some queueing) (hnext : next.asks ⊆ queueing.asks) :
    Requeued queueings (queueings.set index next) := by
  intro other hother
  rcases List.mem_or_eq_of_mem_set hother with hold | rfl
  · exact ⟨other, hold, List.Subset.refl _⟩
  · exact ⟨queueing, List.mem_of_getElem? hfound, hnext⟩

theorem outcome_idle : Outcome world event world :=
  .transact world.db world.queueings .refl (requeued_refl _)

theorem outcome_commit {outcome : Except Raised Database}
    (h : ∀ stored, outcome = .ok stored → Transaction world.now world.db stored) :
    Outcome world event (world.commit outcome) := by
  cases outcome with
  | error raised => exact outcome_idle
  | ok stored => exact .transact stored world.queueings (h stored rfl) (requeued_refl _)

theorem outcome_commit_map {α : Type} {outcome : Except Raised α} {rows : α → Database}
    (h : ∀ answer, outcome = .ok answer → Transaction world.now world.db (rows answer)) :
    Outcome world event (world.commit (outcome.map rows)) := by
  apply outcome_commit
  intro stored hstored
  obtain ⟨answer, hanswer, rfl⟩ := exists_of_map_eq_ok hstored
  exact h answer hanswer

theorem outcome_advanceQueueing (hsound : world.Sound) {index : Nat} {queueing : Queueing}
    (hcall : event.call = .advanceQueueing index)
    (hfound : world.queueings[index]? = some queueing) :
    Outcome world event (world.advanceQueueing event.env index queueing) := by
  have hnext : Requeued world.queueings (world.queueings.set index (World.nextAsk queueing)) :=
    requeued_set hfound (List.tail_sublist _).subset
  have hover := requeued_eraseIdx world.queueings index
  have hphase : ∀ phase, Requeued world.queueings
      (world.queueings.set index { queueing with phase := phase }) :=
    fun phase => requeued_set hfound (List.Subset.refl _)
  unfold World.advanceQueueing
  dsimp only
  split
  · split
    · exact .transact world.db _ .refl hover
    · next controllerId _ =>
        cases hrepairs : findingRepairs event.env queueing.began world.now controllerId
          world.db with
        | error raised => exact .transact world.db _ .refl hover
        | ok stored =>
            exact .transact stored _ (findingRepairs_transaction hsound.rows hrepairs) hover
  · next ask asks hasks =>
      split
      · split
        · exact .transact world.db _ .refl hnext
        · exact .transact world.db _ .refl (hphase .get)
      · split
        · exact .transact world.db _ .refl hnext
        · exact .transact world.db _ .refl (hphase .create)
      · next hcreate =>
          split
          · next stored operation queued hstored =>
              rcases createOrGet_eq_ok hstored with rfl | hcreated
              · exact .transact world.db _ .refl hnext
              · exact .insertLate index queueing ask asks _ _ _ hcall hfound hasks
                  hcreate hcreated hnext
          · exact .transact world.db _ .refl hover

theorem outcome_advanceReport {index : Nat} {report : ReportRun} {fails : Bool}
    (hcall : event.call = .advanceReport index fails)
    (hfound : world.reports[index]? = some report) :
    Outcome world event (world.advanceReport event.env index report fails) := by
  have hover : Outcome world event { world with reports := world.reports.eraseIdx index } :=
    .finish _ (List.eraseIdx_sublist _ _).subset
  unfold World.advanceReport
  dsimp only
  split
  · exact hover
  · next write remaining hnext =>
      split_ifs with hfails
      · exact hover
      · split
        · exact hover
        · next stored hwrite =>
            rw [Bool.not_eq_true] at hfails
            exact .write index report write remaining stored (hfails ▸ hcall) hfound hnext hwrite

theorem outcome_claim (hsound : world.Sound) {call : ClaimCall}
    (hcall : event.call = .claim call) :
    Outcome world event (world.claim event.env call) := by
  unfold World.claim
  split
  · exact outcome_idle
  · next stored hclaim =>
      obtain ⟨htransaction, -⟩ := claimNextOperation_transaction hsound.rows hclaim
      exact .transact stored world.queueings htransaction (requeued_refl _)
  · next stored claimed hclaim =>
      obtain ⟨-, hanswer⟩ := claimNextOperation_transaction hsound.rows hclaim
      obtain ⟨before, operation, htransaction, hpick, hdescribes, hleased, rfl⟩ :=
        hanswer claimed rfl
      have hnamed : call.controllerId ≠ "" := by
        unfold claimNextOperation at hclaim
        split_ifs at hclaim with hseconds hcontroller
        exact hcontroller
      rw [hleased]
      exact .hand call before operation claimed.contract hcall hpick htransaction hdescribes hnamed

/-- The transactional half of the calls that queue through `enqueue` directly. -/
theorem transaction_of_enqueue {ask : Ask} (hprompt : ask.Prompt world.db) :
    ∀ stored, (enqueue world.now ask world.db).map Prod.fst = .ok stored →
      Transaction world.now world.db stored := by
  intro stored hstored
  obtain ⟨⟨rows, operation, queued⟩, henqueue, rfl⟩ := exists_of_map_eq_ok hstored
  exact enqueue_transaction hprompt henqueue

/-- Every event is one of the outcomes. -/
theorem step_outcome (hsound : world.Sound) (event : Event) :
    Outcome world event (world.step event) := by
  obtain ⟨env, call⟩ := event
  cases call with
  | tick elapsed => exact .tick elapsed rfl
  | save call =>
      exact outcome_commit_map fun answer hanswer =>
        saveManagedResource_transaction hsound.rows hanswer
  | advanceDependents =>
      exact outcome_commit fun stored hstored =>
        (advanceDependents_transaction hsound.rows hstored).1
  | requestReconcile command principal key =>
      exact outcome_commit_map fun answer hanswer =>
        requestReconcile_transaction hsound.rows hanswer
  | requestLifecycle command principal key action =>
      exact outcome_commit_map fun answer hanswer =>
        requestLifecycle_transaction hsound.rows hanswer
  | requestRouteApproval command principal key =>
      exact outcome_commit_map fun answer hanswer =>
        requestRouteApproval_transaction hsound.rows hanswer
  | requestRemoval command principal key =>
      refine outcome_commit fun stored hstored => ?_
      cases hask : askRemoval env command principal key world.db with
      | error raised =>
          rw [hask] at hstored
          cases hstored
      | ok removal =>
          rw [hask] at hstored
          cases removal with
          | forget resource => exact forgetDeclaration_transaction hsound.rows hstored
          | ask ask =>
              exact transaction_of_enqueue (prompt_of_askRemoval hsound.rows hask) stored hstored
  | requestCertificateRenewal command principal key =>
      refine outcome_commit fun stored hstored => ?_
      dsimp only at hstored
      cases hask : askCertificateRenewal env world.now command principal key world.db with
      | error raised =>
          rw [hask] at hstored
          cases hstored
      | ok ask =>
          rw [hask] at hstored
          exact transaction_of_enqueue (prompt_of_askCertificateRenewal hsound.rows hask) stored
            hstored
  | beginRemoval command principal key =>
      simp only [World.step]
      split
      · next ask hask =>
          refine .begin _ fun other hother => ?_
          rw [List.mem_singleton.mp hother]
          exact prompt_of_askRemoval hsound.rows hask
      · exact outcome_idle
  | beginCertificateRenewal command principal key =>
      simp only [World.step]
      split
      · next ask hask =>
          refine .begin _ fun other hother => ?_
          rw [List.mem_singleton.mp hother]
          exact prompt_of_askCertificateRenewal hsound.rows hask
      · exact outcome_idle
  | beginSchedule controllerId =>
      exact .begin _ fun ask hask => prompt_of_mem_automaticAsks hsound.rows hask
  | advanceQueueing index =>
      simp only [World.step]
      split
      · exact outcome_idle
      · next queueing hfound => exact outcome_advanceQueueing hsound rfl hfound
  | forget resource =>
      exact outcome_commit fun stored hstored => forgetDeclaration_transaction hsound.rows hstored
  | claim call => exact outcome_claim hsound rfl
  | beginReport call =>
      simp only [World.step]
      split
      · exact outcome_idle
      · next reporting haccept => exact .accept call reporting haccept
  | advanceReport index fails =>
      simp only [World.step]
      split
      · exact outcome_idle
      · next report hfound => exact outcome_advanceReport rfl hfound

/-- What an event leaves stored is sound, and later than what it found. -/
theorem Outcome.rows_sound_later {after : World} (hsound : world.Sound)
    (h : Outcome world event after) : after.db.Sound ∧ Later world.db after.db := by
  cases h with
  | tick elapsed => exact ⟨hsound.rows, Later.refl _⟩
  | transact stored queueings htransaction => exact htransaction.sound_later hsound.rows
  | begin queueing => exact ⟨hsound.rows, Later.refl _⟩
  | insertLate index queueing ask asks stored created queueings hcall hfound hasks hphase hcreate =>
      obtain ⟨hinactive, ⟨row, hrow, hid⟩, rfl⟩ := create_eq_ok hcreate
      have hask := hsound.asks queueing (List.mem_of_getElem? hfound) ask (by rw [hasks]; simp)
      exact ⟨hsound.rows.inserted hrow hid hinactive (hask.generation row hrow hid),
        Later.inserted _ ask⟩
  | hand call before operation contract hcall hpick htransaction hdescribes hnamed =>
      exact Transaction.sound_later (htransaction.tail (.lease operation hdescribes.queued.1
        hdescribes.queued.2 _ hnamed call.leaseSeconds)) hsound.rows
  | accept call reporting => exact ⟨hsound.rows, Later.refl _⟩
  | finish reports => exact ⟨hsound.rows, Later.refl _⟩
  | write index report write remaining stored hcall hfound hnext hwrite =>
      exact performWrite_sound_later hsound.rows hwrite

/-- Every event keeps the world sound. -/
theorem Outcome.sound {after : World} (hsound : world.Sound) (h : Outcome world event after) :
    after.Sound := by
  obtain ⟨hrows, hlater⟩ := h.rows_sound_later hsound
  have hasks : ∀ queueing ∈ world.queueings, ∀ ask ∈ queueing.asks, ask.InFlight after.db :=
    fun queueing hqueueing ask hask => (hsound.asks queueing hqueueing ask hask).later hlater
  have hreports : ∀ report ∈ world.reports, report.reporting.InFlight after.db :=
    fun report hreport => (hsound.reports report hreport).later hlater
  have hrequeued : ∀ queueings, Requeued world.queueings queueings →
      ∀ queueing ∈ queueings, ∀ ask ∈ queueing.asks, ask.InFlight after.db := by
    intro queueings hqueueings queueing hqueueing ask hask
    obtain ⟨old, hold, hsubset⟩ := hqueueings queueing hqueueing
    exact hasks old hold ask (hsubset hask)
  cases h with
  | tick elapsed => exact ⟨hrows, hasks, hreports⟩
  | transact stored queueings htransaction hqueueings =>
      exact ⟨hrows, hrequeued queueings hqueueings, hreports⟩
  | begin queueing hprompt =>
      refine ⟨hrows, fun other hother ask hask => ?_, hreports⟩
      rcases List.mem_append.mp hother with hold | hnew
      · exact hasks other hold ask hask
      · rw [List.mem_singleton.mp hnew] at hask
        exact (hprompt ask hask).inFlight
  | insertLate index queueing ask asks stored created queueings hcall hfound hask hphase hcreate
      hqueueings => exact ⟨hrows, hrequeued queueings hqueueings, hreports⟩
  | hand call before operation contract => exact ⟨hrows, hasks, hreports⟩
  | accept call reporting haccept =>
      refine ⟨hrows, hasks, fun report hreport => ?_⟩
      rcases List.mem_append.mp hreport with hold | hnew
      · exact hreports report hold
      · rw [List.mem_singleton.mp hnew]
        exact inFlight_of_acceptReport hsound.rows haccept
  | finish reports hsubset =>
      exact ⟨hrows, hasks, fun report hreport => hreports report (hsubset hreport)⟩
  | write index report write remaining stored hcall hfound hnext hwrite =>
      refine ⟨hrows, hasks, fun other hother => ?_⟩
      rcases List.mem_or_eq_of_mem_set hother with hold | rfl
      · exact hreports other hold
      · exact hreports report (List.mem_of_getElem? hfound)

/-- In every run the stored rows are sound, and those of any later moment are later rows. -/
theorem run_rows_sound_later (now : Moment) (before after : List Event) :
    (run World.step (World.start now) before).db.Sound ∧
      Later (run World.step (World.start now) before).db
        (run World.step (World.start now) (before ++ after)).db := by
  have hsound := run_always World.Sound (fun _ event h => (step_outcome h event).sound h)
    (World.start_sound now) before
  rw [run_append]
  generalize run World.step (World.start now) before = world at hsound ⊢
  have hlater := run_always (fun next : World => next.Sound ∧ Later world.db next.db)
    (fun _ event h => have houtcome := step_outcome h.1 event
      ⟨houtcome.sound h.1, h.2.trans (houtcome.rows_sound_later h.1).2⟩)
    ⟨hsound, Later.refl _⟩ after
  exact ⟨hsound.rows, hlater.2⟩

end Outcomes

end SeverinoHQ.ControlPlane
