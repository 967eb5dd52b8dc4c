/-
# Every removal completes

Three paths take a declaration away: a sweep that finds a container gone, an operator who
stops managing a declaration, and a report that one was deleted. Operations protect the
declaration they refer to, and only the report takes them away first; a sweep that meets
one is undone whole, and so is every later one. In every run in which no operation refers
to what a step is to take away, every sweep commits and every removal completes.
-/

import SeverinoHQ.Inventory.Commits
import SeverinoHQ.Inventory.KeptOut

namespace SeverinoHQ.Inventory

open SeverinoHQ.Math SeverinoHQ.ControlPlane

/-! ## What a step takes away -/

/-- The declaration an event asks to forget. -/
def forgets? (world : World) (event : Event) : Option ManagedResource :=
  match event.call with
  | .forget resource => some resource
  | .requestRemoval command principal key =>
      match askRemoval event.env command principal key world.db with
      | .ok (.forget resource) => some resource
      | _ => none
  | _ => none

/-- Whether a row goes with a forgotten declaration. -/
def isForgotten (env : Environment) (resource row : ManagedResource) : Bool :=
  row.id == resource.id || env.contains resource row

/-- The statement a report that ends a removal makes next. -/
def removing? (world : World) : Call → Option (Reporting × ReportWrite)
  | .advanceReport index _ =>
      match world.reports[index]? with
      | some ⟨reporting, write :: _⟩ => if reporting.removes then some (reporting, write) else none
      | _ => none
  | _ => none

/-- Whether the database refuses the statement an event makes. -/
def isRefused : Call → Bool
  | .advanceReport _ fails => fails
  | _ => false

/-- What a statement of a report finds when nothing stops it: the rows it saves stand, and a
certificate's status lists its consumers. -/
def isUnstopped (reporting : Reporting) (db : Database) : ReportWrite → Bool
  | .saveOperation => (db.operation? reporting.operation.id).isSome
  | .saveResource => (db.resource? reporting.resource.id).isSome
  | .confirmTargets =>
      (reporting.resource.kind != certificateKind && reporting.resource.kind != uploadedCertificateKind)
        || (statusConsumers reporting.report.status).isOk
  | _ => true

instance {α : Type} (read : Except Raised α) : Decidable (∃ value, read = .ok value) :=
  match read with
  | .ok value => .isTrue ⟨value, rfl⟩
  | .error _ => .isFalse nofun

instance (registry : Registry) (env : Environment) (tables : Tables) :
    Decidable (Keyed registry env tables) :=
  inferInstanceAs (Decidable (_ ∧ _))

namespace Estate

variable (registry : Registry)

/-- An event, in the connections as they are stored. -/
def seen (estate : Estate) (event : Event) : Event :=
  { event with env := estate.found registry event.env }

/-- The rows a step is to take away. -/
def removes (estate : Estate) : Happening → ManagedResource → Bool
  | .sweep _ payload => departs registry payload
  | .control event => fun row =>
      (forgets? estate.world (estate.seen registry event)).any (fun resource =>
          isForgotten event.env resource row)
        || (removing? estate.world event.call).any fun removal =>
          removal.2 == .deleteResource && row.id == removal.1.resource.id
  | _ => fun _ => false

/-- A sweep finds a key for every repository, and nothing stops a report of a removal. -/
def isUnhindered (estate : Estate) : Happening → Bool
  | .sweep env payload =>
      !(payload.report? repositoryKind).isSome ||
        decide (Keyed registry env (recordedTables registry payload estate.tables))
  | .control event =>
      match removing? estate.world event.call with
      | some (reporting, write) =>
          !isRefused event.call && isUnstopped reporting estate.world.db write
      | none => true
  | _ => true

/-- No operation refers to what a step is to take away, and nothing else stops it. -/
def Clear (estate : Estate) (happening : Happening) : Prop :=
  Unreferred (estate.removes registry happening) estate.world.db ∧
    estate.isUnhindered registry happening = true

instance (estate : Estate) (happening : Happening) : Decidable (estate.Clear registry happening) :=
  inferInstanceAs (Decidable (_ ∧ _))

/-- A sweep commits, what a step is to take away is gone after it, a report of a removal goes
on to its next statement, and no operation is left without its declaration. -/
structure Completes (estate : Estate) (happening : Happening) : Prop where
  commits : ∀ env payload, happening = .sweep env payload → ∃ recorded,
    recordSweep registry (estate.found registry env) estate.world.now payload estate.tables =
      .ok recorded
  goes : ∀ row ∈ estate.world.db.resources, estate.removes registry happening row = true →
    ∀ left ∈ (estate.step registry happening).world.db.resources, left.id ≠ row.id
  goesOn : ∀ event reporting write, happening = .control event →
    removing? estate.world event.call = some (reporting, write) →
      performWrite (estate.found registry event.env) estate.world.now reporting estate.world.db write =
        .ok (estate.step registry happening).world.db
  referred : ∀ operation ∈ (estate.step registry happening).world.db.operations,
    ∃ row ∈ (estate.step registry happening).world.db.resources, row.id = operation.resource

end Estate

/-- What a happening is given: fields checked by what was authored, specs with an identity of
texts once they are validated, and records with one where they can be read. -/
def Admitted (registry : Registry) (check : Declaration → Option String) : Happening → Prop
  | .control event => event.env.Checks check ∧ Validates registry event.env ∧
      ∀ resource, event.call = .forget resource → registry.Named resource.kind resource.spec
  | .connect _ => True
  | .sweep env payload => env.Checks check ∧ Validates registry env ∧ payload.Readable registry
  | .adopt env _ _ | .adoptZone env _ _ _ => env.Checks check ∧ Validates registry env

section Steps

variable {registry : Registry} {check : Declaration → Option String} {estate : Estate}

/-! ## What every step keeps -/

/-- An event of the control plane keeps the tables readable. -/
theorem readable_step {world : World} (hsound : world.Sound) (hreadable : Readable registry world.db)
    {event : Event} (hvalidates : Validates registry event.env) :
    Readable registry (world.step event).db := by
  constructor
  · intro declaration hmem
    rcases step_declared hsound hmem with hold | ⟨spec, hvalidated⟩
    · exact hreadable.declared declaration hold
    · exact hvalidates.named _ _ _ hvalidated
  · intro snapshot hmem record hrecord spec hspec
    obtain ⟨old, hold, hkind, hsubset⟩ := step_inventories hsound hmem
    rw [← hkind] at hspec ⊢
    exact hreadable.records old hold record (hsubset hrecord) spec hspec

/-- A control event leaves the world as its step does, or as it was. -/
theorem control_world (event : Event) :
    (estate.control registry event).world = estate.world.step event ∨
      (estate.control registry event).world = estate.world := by
  unfold Estate.control
  split
  · exact Or.inl rfl
  · split
    · exact Or.inl rfl
    · exact Or.inr rfl

theorem adoptZone_keeps {env : Environment} {principal : Principal} {zone token : String}
    {adopted : List Adopted} {after : Tables} (hchecks : env.Checks check)
    (hvalidates : Validates registry env) (htables : estate.tables.Sound registry check)
    (h : estate.adoptZone registry env principal zone token = .ok (adopted, after)) :
    after.Sound registry check := by
  have hkeeps : Keeps registry env estate.world.now (Tables.Sound registry check) :=
    keeps_sound hchecks hvalidates
  obtain ⟨⟨declared, tables⟩, hdeclared, h⟩ := exists_of_bind_eq_ok h
  have hstored := hkeeps.adopt _ _ _ _ _ htables hdeclared
  dsimp only at h
  split at h
  · next records final hrecords =>
      cases h
      exact (adoptZoneRecords_adopts hkeeps hstored hrecords).1
  · cases h
    exact hstored
  · cases h
    exact hstored
  · cases h
    exact hstored
  · cases h

/-- The connections are no part of a field's check. -/
theorem found_checks {env : Environment} (h : env.Checks check) :
    (estate.found registry env).Checks check := h

theorem found_validates {env : Environment} (h : Validates registry env) :
    Validates registry (estate.found registry env) := ⟨h.named, h.refuses⟩

/-- Tables are sound by their rows alone. -/
theorem Tables.Sound.of_db {before after : Tables} (h : before.Sound registry check)
    (hsame : after.db = before.db) : after.Sound registry check :=
  ⟨hsame ▸ h.rows, hsame ▸ h.tidy, hsame ▸ h.readable⟩

/-- Every admitted step keeps the tables sound, checked and readable. -/
theorem step_keeps (hsound : estate.world.Sound) (htables : estate.tables.Sound registry check)
    {happening : Happening} (hadmitted : Admitted registry check happening) :
    (estate.step registry happening).tables.Sound registry check := by
  cases happening with
  | control event =>
      obtain ⟨hchecks, hvalidates, -⟩ := hadmitted
      have hmoved : Tables.Sound registry check
          { estate.tables with db := (estate.world.step (estate.seen registry event)).db } :=
        ⟨((step_outcome hsound _).sound hsound).rows,
          step_tidy hsound htables.tidy (found_checks hchecks),
          readable_step hsound htables.readable (found_validates hvalidates)⟩
      rcases @control_world registry estate (estate.seen registry event) with hworld | hworld
      · exact hmoved.of_db (congrArg World.db hworld)
      · exact htables.of_db (congrArg World.db hworld)
  | connect connections => exact htables.of_db rfl
  | sweep env payload =>
      obtain ⟨hchecks, hvalidates, hpayload⟩ := hadmitted
      simp only [Estate.step]
      split
      · next recorded hrecorded =>
          exact (recordSweep_keeps (found_checks hchecks) (found_validates hvalidates) hpayload
            htables hrecorded).1
      · exact htables
  | adopt env principal command =>
      obtain ⟨hchecks, hvalidates⟩ := hadmitted
      have hkeeps : Keeps registry (estate.found registry env) estate.world.now
          (Tables.Sound registry check) :=
        keeps_sound (found_checks hchecks) (found_validates hvalidates)
      simp only [Estate.step]
      split
      · next adopted tables hadopted => exact hkeeps.adopt _ _ _ _ _ htables hadopted
      · exact htables
  | adoptZone env principal zone token =>
      obtain ⟨hchecks, hvalidates⟩ := hadmitted
      simp only [Estate.step]
      split
      · next adopted tables hadopted =>
          exact adoptZone_keeps (found_checks hchecks) (found_validates hvalidates) htables hadopted
      · exact htables

/-! ## Forgetting -/

/-- What is forgotten is gone from the rows. -/
theorem forgetDeclaration_gone {env : Environment} {now : Moment} {resource : ManagedResource}
    {db stored : Database} (hsound : db.Sound)
    (h : forgetDeclaration env now resource db = .ok stored) :
    ∀ row ∈ db.resources, isForgotten env resource row = true →
      ∀ left ∈ stored.resources, left.id ≠ row.id := by
  unfold forgetDeclaration at h
  dsimp only at h
  split_ifs at h with hrefers hinput
  all_goals
    intro row hrow hgone left hleft hid
    have hkept : ∃ old ∈ Table.delete db.resources (isForgotten env resource), old.id = left.id := by
      first
        | cases h
          exact ⟨left, hleft, rfl⟩
        | have hids : ((Table.delete db.resources (isForgotten env resource)).map
              ManagedResource.id).Nodup := Table.nodup_map_delete hsound.resource_ids _
          have hsame := advanceDependents_declarations hids h
          have hdeclared : left.declaration ∈ stored.declarations := List.mem_map_of_mem hleft
          rw [hsame] at hdeclared
          obtain ⟨old, hold, hsameRow⟩ := List.mem_map.mp hdeclared
          exact ⟨old, hold, (Declaration.mk.inj hsameRow).1⟩
    obtain ⟨old, hold, holdId⟩ := hkept
    obtain ⟨hmem, hstays⟩ := Table.mem_delete.mp hold
    obtain rfl := Table.eq_of_column_eq hsound.resource_ids hmem hrow (holdId.trans hid)
    rw [hgone] at hstays
    cases hstays

/-- What a validated declaration is kept out under can be joined. -/
theorem keepOutDeclaration_ok {kind : String} {spec : Json} {rows : List NotManaged}
    (h : registry.Named kind spec) : ∃ kept, keepOutDeclaration registry kind spec rows = .ok kept := by
  unfold keepOutDeclaration
  split_ifs
  · exact ⟨rows, rfl⟩
  · obtain ⟨token, htoken⟩ := Registry.Named.token_eq_ok (h := h)
    exact ⟨keepOut kind token rows, by rw [htoken]; rfl⟩

/-- A forgotten declaration was read from the rows, or given with an identity of texts. -/
theorem named_of_forgets {world : World} {event : Event} {resource : ManagedResource}
    (hreadable : Readable registry world.db)
    (hgiven : ∀ resource, event.call = .forget resource → registry.Named resource.kind resource.spec)
    (h : forgets? world event = some resource) : registry.Named resource.kind resource.spec := by
  unfold forgets? at h
  split at h
  · next given hcall =>
      cases h
      exact hgiven resource hcall
  · next command principal key hcall =>
      split at h
      · next asked hasked =>
          cases h
          obtain ⟨found, hfound, hasked⟩ := exists_of_bind_eq_ok hasked
          dsimp only at hasked
          have hmem : found ∈ world.db.resources := by
            unfold resourceForOperation at hfound
            split at hfound
            · next named hnamed =>
                cases hfound
                exact List.mem_of_find?_eq_some hnamed
            · cases hfound
          split_ifs at hasked
          · cases hasked
            exact hreadable.declared _ (List.mem_map_of_mem hmem)
          · cases hasked
          · obtain ⟨ask, -, hasked⟩ := exists_of_bind_eq_ok hasked
            cases hasked
      · cases h
  · cases h

/-- A declaration nothing refers to is forgotten, with those it holds. -/
theorem control_forgets {event : Event} {resource : ManagedResource} (hsound : estate.world.Sound)
    (htables : estate.tables.Sound registry check) (hchecks : event.env.Checks check)
    (hnamed : registry.Named resource.kind resource.spec)
    (hforgets : forgets? estate.world event = some resource)
    (hfree : Unreferred (isForgotten event.env resource) estate.world.db) :
    forgetDeclaration event.env estate.world.now resource estate.world.db =
      .ok (estate.control registry event).world.db := by
  have hforgotten : ∃ stored,
      forgetDeclaration event.env estate.world.now resource estate.world.db = .ok stored := by
    apply forgetDeclaration_ok hchecks hsound.rows htables.tidy
    intro row hrow hgone
    exact hfree row hrow (by simpa [isForgotten] using hgone)
  obtain ⟨stored, hstored⟩ := hforgotten
  have hkept : ∃ kept, keepOutDeclaration registry resource.kind resource.spec estate.notManaged =
      .ok kept := keepOutDeclaration_ok hnamed
  obtain ⟨kept, hkept⟩ := hkept
  have hcommits : Estate.forgotten? estate.world event = some resource ∧
      (estate.world.step event).db = stored := by
    unfold forgets? at hforgets
    unfold Estate.forgotten? World.step
    split at hforgets
    · next given hcall =>
        cases hforgets
        simp [hcall, hstored, World.commit]
    · next command principal key hcall =>
        split at hforgets
        · next asked hasked =>
            cases hforgets
            simp [hcall, hasked, hstored, World.commit, World.remove]
        · cases hforgets
    · cases hforgets
  unfold Estate.control
  rw [hcommits.1]
  simp only [hkept, hcommits.2, hstored]

/-! ## A report of a removal -/

/-- A statement of a report goes through, where nothing stops it. -/
theorem performWrite_ok {env : Environment} {now : Moment} {reporting : Reporting} {db : Database}
    {write : ReportWrite} (hflight : reporting.InFlight db)
    (hunstopped : isUnstopped reporting db write = true)
    (hfree : write = .deleteResource → ∀ operation ∈ db.operations,
      operation.resource ≠ reporting.resource.id) :
    ∃ stored, performWrite env now reporting db write = .ok stored := by
  cases write with
  | saveOperation =>
      obtain ⟨found, hfound⟩ := Option.isSome_iff_exists.mp hunstopped
      exact ⟨_, by rw [performWrite, hfound, if_neg (by simp)]⟩
  | saveResource =>
      obtain ⟨found, hfound⟩ := Option.isSome_iff_exists.mp hunstopped
      obtain ⟨hmem, hid⟩ := Database.mem_of_resource? hfound
      -- The row has reached the generation the report was accepted for.
      have hreached := hflight.reached found hmem hid
      have hgeneration := hflight.generation
      rw [performWrite, hfound]
      refine ⟨_, if_neg ?_⟩
      rintro ⟨-, hlt⟩
      omega
  | confirmTargets =>
      simp only [isUnstopped, Bool.or_eq_true, Bool.and_eq_true, bne_iff_ne, ne_eq] at hunstopped
      rw [performWrite, reachedConnections]
      split_ifs with hkind
      · exact ⟨_, rfl⟩
      · rcases hunstopped with hother | hlisted
        · exact absurd hother hkind
        · cases hconsumers : statusConsumers reporting.report.status with
          | ok items => exact ⟨_, rfl⟩
          | error raised =>
              rw [hconsumers] at hlisted
              cases hlisted
  | deleteResource =>
      refine ⟨_, if_neg ?_⟩
      simpa using hfree rfl
  | readBack => exact ⟨_, rfl⟩
  | deleteOperations => exact ⟨_, rfl⟩
  | strikeInventory => exact ⟨_, rfl⟩

/-- A report of a removal is in flight, and its event makes its next statement. -/
theorem removing?_eq_some {world : World} {call : Call} {reporting : Reporting} {write : ReportWrite}
    (h : removing? world call = some (reporting, write)) :
    ∃ index fails remaining, call = .advanceReport index fails ∧
      world.reports[index]? = some ⟨reporting, write :: remaining⟩ := by
  unfold removing? at h
  split at h
  · next index fails =>
      split at h
      · next read next rest hfound =>
          split_ifs at h
          cases h
          exact ⟨index, fails, rest, rfl, hfound⟩
      · cases h
  · cases h

/-- A statement of a report that goes through is what its event leaves. -/
theorem control_removing {event : Event} {reporting : Reporting} {write : ReportWrite}
    {stored : Database} (h : removing? estate.world event.call = some (reporting, write))
    (hrefused : isRefused event.call = false)
    (hwritten : performWrite event.env estate.world.now reporting estate.world.db write = .ok stored) :
    (estate.control registry event).world.db = stored := by
  obtain ⟨env, call⟩ := event
  obtain ⟨index, fails, remaining, hcall, hfound⟩ := removing?_eq_some h
  dsimp only at hcall hrefused hwritten
  subst hcall
  have hnone : fails = false := hrefused
  unfold Estate.control
  simp [Estate.forgotten?, World.step, hfound, World.advanceReport, hnone, hwritten]

/-! ## One step -/

/-- Every operation of a sound database has its declaration. -/
theorem referred_of_sound {db : Database} (h : db.Sound) :
    ∀ operation ∈ db.operations, ∃ row ∈ db.resources, row.id = operation.resource :=
  fun operation hoperation => h.resource_stored operation hoperation

/-- A clear event of the control plane completes what it removes. -/
theorem control_completes (hsound : estate.world.Sound) (htables : estate.tables.Sound registry check)
    {event : Event} (hadmitted : Admitted registry check (.control event))
    (hclear : estate.Clear registry (.control event)) :
    estate.Completes registry (.control event) := by
  obtain ⟨hchecks, -, hgiven⟩ := hadmitted
  obtain ⟨hfree, hunhindered⟩ := hclear
  have hafter : (estate.step registry (.control event)).world.Sound :=
    step_sound hsound (.control event)
  -- A report of a removal: its statement goes through, the delete among them.
  have hwrites : ∀ reporting write, removing? estate.world event.call = some (reporting, write) →
      performWrite (estate.found registry event.env) estate.world.now reporting estate.world.db write =
        .ok (estate.step registry (.control event)).world.db := by
    intro reporting write hremoving
    simp only [Estate.isUnhindered, hremoving, Bool.and_eq_true, Bool.not_eq_true'] at hunhindered
    obtain ⟨hrefused, hunstopped⟩ := hunhindered
    obtain ⟨index, fails, remaining, -, hfound⟩ := removing?_eq_some hremoving
    have hflight : reporting.InFlight estate.world.db :=
      hsound.reports _ (List.mem_of_getElem? hfound)
    have hwritten : ∃ stored, performWrite (estate.found registry event.env) estate.world.now reporting
        estate.world.db write = .ok stored := by
      refine performWrite_ok hflight hunstopped fun hdelete operation hoperation hid => ?_
      obtain ⟨row, hrow, hrowId⟩ := referred_of_sound hsound.rows operation hoperation
      refine hfree row hrow ?_ operation hoperation hrowId.symm
      simp [Estate.removes, hremoving, hdelete, hrowId, hid]
    obtain ⟨stored, hstored⟩ := hwritten
    have hleft : (estate.control registry (estate.seen registry event)).world.db = stored :=
      control_removing hremoving hrefused hstored
    rw [hstored]
    exact congrArg Except.ok hleft.symm
  refine ⟨by rintro _ _ ⟨⟩, ?_, ?_, referred_of_sound hafter.rows⟩
  · intro row hrow hremoves
    simp only [Estate.removes, Bool.or_eq_true, Option.any_eq_true] at hremoves
    rcases hremoves with ⟨resource, hforgets, hgone⟩ | ⟨⟨reporting, write⟩, hremoving, hgone⟩
    · have hforgotten : forgetDeclaration (estate.seen registry event).env estate.world.now resource
          estate.world.db =
            .ok (estate.control registry (estate.seen registry event)).world.db := by
        have hseen : (estate.seen registry event).env.Checks check := found_checks hchecks
        apply control_forgets hsound htables hseen
        · have hgivenSeen : ∀ resource, (estate.seen registry event).call = .forget resource →
              registry.Named resource.kind resource.spec := hgiven
          exact named_of_forgets htables.readable hgivenSeen hforgets
        · exact hforgets
        · intro other hother hother' operation hoperation
          apply hfree other hother
          · simp only [Estate.removes, Bool.or_eq_true, Option.any_eq_true]
            exact Or.inl ⟨resource, hforgets, hother'⟩
          · exact hoperation
      exact forgetDeclaration_gone hsound.rows hforgotten row hrow hgone
    · simp only [Bool.and_eq_true, beq_iff_eq] at hgone
      obtain ⟨rfl, hid⟩ := hgone
      have hwritten := hwrites reporting _ hremoving
      rw [performWrite] at hwritten
      split_ifs at hwritten
      have hrows := congrArg Database.resources (Except.ok.inj hwritten)
      intro left hleft
      rw [← hrows] at hleft
      rw [hid]
      simpa using (Table.mem_delete.mp hleft).2
  · rintro given reporting write ⟨⟩
    exact hwrites reporting write

/-- A step that is to take nothing away completes. -/
theorem completes_of_idle (hsound : estate.world.Sound) {happening : Happening}
    (hsweep : ∀ env payload, happening ≠ .sweep env payload)
    (hcontrol : ∀ event, happening ≠ .control event) : estate.Completes registry happening := by
  have hidle : estate.removes registry happening = fun _ => false := by
    cases happening with
    | control event => exact absurd rfl (hcontrol event)
    | sweep env payload => exact absurd rfl (hsweep env payload)
    | _ => rfl
  refine ⟨fun env payload hsame => absurd hsame (hsweep env payload), fun row _ hgoes => ?_,
    fun event _ _ hsame => absurd hsame (hcontrol event),
    referred_of_sound (step_sound hsound happening).rows⟩
  simp [hidle] at hgoes

/-- A clear step completes what it removes. -/
theorem completes_of_clear (htakes : registry.TakesOn) (hsound : estate.world.Sound)
    (htables : estate.tables.Sound registry check) {happening : Happening}
    (hadmitted : Admitted registry check happening)
    (hclear : estate.Clear registry happening) : estate.Completes registry happening := by
  cases happening with
  | control event => exact control_completes hsound htables hadmitted hclear
  | sweep env payload =>
      obtain ⟨hchecks, hvalidates, hpayload⟩ := hadmitted
      obtain ⟨hfree, hunhindered⟩ := hclear
      have hkeyed : (payload.report? repositoryKind).isSome →
          Keyed registry env (recordedTables registry payload estate.tables) := by
        intro hread
        simpa [Estate.isUnhindered, hread] using hunhindered
      have hrecorded : ∃ recorded, recordSweep registry (estate.found registry env) estate.world.now
          payload estate.tables = .ok recorded :=
        recordSweep_ok (found_checks hchecks) (found_validates hvalidates) htakes hpayload htables
          hkeyed hfree
      refine ⟨?_, ?_, by rintro _ _ _ ⟨⟩,
        referred_of_sound (step_sound hsound (.sweep env payload)).rows⟩
      · rintro _ _ ⟨⟩
        exact hrecorded
      · obtain ⟨recorded, hrecorded⟩ := hrecorded
        simp only [Estate.step, hrecorded]
        exact (recordSweep_keeps (found_checks hchecks) (found_validates hvalidates) hpayload htables
          hrecorded).2
  | connect connections => exact completes_of_idle hsound (by simp) (by simp)
  | adopt env principal command => exact completes_of_idle hsound (by simp) (by simp)
  | adoptZone env principal zone token => exact completes_of_idle hsound (by simp) (by simp)

end Steps

/-! ## Every run -/

theorem start_tables_sound (registry : Registry) (check : Declaration → Option String)
    (now : Moment) : (Estate.start now).tables.Sound registry check := by
  refine ⟨Database.empty_sound, Database.empty_tidy, ?_, ?_⟩
  · intro declaration hmem
    cases hmem
  · intro snapshot hmem
    cases hmem

/-- In every run whose steps are admitted and clear, every sweep commits and every removal
completes, and no operation is left without its declaration. -/
theorem removals_complete (registry : Registry) (check : Declaration → Option String)
    (htakes : registry.TakesOn) (now : Moment) (happenings : List Happening)
    (hadmitted : ∀ happening ∈ happenings, Admitted registry check happening)
    (hclear : Meets (Estate.step registry) (Estate.Clear registry) (Estate.start now) happenings)
    {before after : List Happening} {happening : Happening}
    (hsplit : happenings = before ++ happening :: after) :
    (run (Estate.step registry) (Estate.start now) before).Completes registry happening := by
  subst hsplit
  obtain ⟨-, hclear⟩ := hclear.append
  have hkept : (run (Estate.step registry) (Estate.start now) before).world.Sound ∧
      (run (Estate.step registry) (Estate.start now) before).tables.Sound registry check := by
    have hmeets : Meets (Estate.step registry) (fun _ happening => Admitted registry check happening)
        (Estate.start now) before :=
      meets_of_forall_mem fun other hother _ => hadmitted other (List.mem_append_left _ hother)
    refine run_invariant (fun estate => estate.world.Sound ∧ estate.tables.Sound registry check) ?_
      ⟨World.start_sound now, start_tables_sound registry check now⟩ hmeets
    rintro estate other ⟨hsound, htables⟩ hother
    exact ⟨step_sound hsound other, step_keeps hsound htables hother⟩
  have hlast : Admitted registry check happening :=
    hadmitted happening (List.mem_append_right _ List.mem_cons_self)
  exact completes_of_clear htakes hkept.1 hkept.2 hlast hclear.1

/-! ## A container that was restarted -/

/-- The sample environment, with what identifies a spec checked to be text. -/
def namingEnvironment : Environment :=
  { sampleEnvironment with
    validateSpec := fun kind spec =>
      if (sampleRegistry.recordIdentity kind spec).all fun value => (asText value).isSome then
        .ok spec
      else
        .error (.validationError "A name is a text.") }

theorem naming_validates : Validates sampleRegistry namingEnvironment := by
  constructor
  · intro kind spec validated h
    simp only [namingEnvironment] at h
    split_ifs at h with hnamed
    cases h
    exact List.all_eq_true.mp hnamed
  · intro kind spec raised h
    simp only [namingEnvironment] at h
    split_ifs at h
    cases h
    rfl

/-- A container of one machine, as it is read. -/
def containerRecord (name : String) : Json :=
  .obj [("connection_ref", .str "edge"), ("host", .str "nas"), ("name", .str name),
    ("stack", .str "media")]

/-- A sweep that lists the containers of the machine. -/
def lists (names : List String) : Happening :=
  .sweep namingEnvironment [(containerKind, ⟨true, names.map containerRecord, [], false⟩)]

/-- The connection the containers are read through. -/
def reads : Happening := .connect [⟨"portainer", "edge", true⟩]

/-- An operator restarts the container that was adopted. -/
def restarts : Happening :=
  .control ⟨namingEnvironment, .requestLifecycle ⟨"restart", "stuck"⟩ samplePrincipal "adopted" .restart⟩

theorem lists_admitted (names : List String) :
    Admitted sampleRegistry (fun _ => none) (lists names) := by
  refine ⟨fun _ => rfl, naming_validates, fun entry hentry record hrecord spec hspec => ?_⟩
  obtain rfl := List.mem_singleton.mp hentry
  obtain ⟨name, -, rfl⟩ := List.mem_map.mp hrecord
  rw [Registry.recordSpec_container] at hspec
  cases hspec
  intro value hvalue
  rw [Registry.recordIdentity_container] at hvalue
  rcases List.mem_cons.mp hvalue with rfl | hvalue
  · rfl
  · obtain rfl := List.mem_singleton.mp hvalue
    rfl

theorem restarts_admitted : Admitted sampleRegistry (fun _ => none) restarts :=
  ⟨fun _ => rfl, naming_validates, by rintro _ ⟨⟩⟩

theorem sample_takesOn : sampleRegistry.TakesOn := by
  intro projects name named raised h
  cases h

/-- A container that goes before anyone asked anything of it is retired. -/
theorem untouched_container_retired :
    (run (Estate.step sampleRegistry) (Estate.start 0) [reads, lists ["web"]]).Completes sampleRegistry
      (lists ["proxy"]) := by
  have hadmitted : ∀ happening ∈ [reads, lists ["web"], lists ["proxy"]],
      Admitted sampleRegistry (fun _ => none) happening := by
    simp only [List.forall_mem_cons]
    exact ⟨trivial, lists_admitted _, lists_admitted _, by simp⟩
  exact removals_complete sampleRegistry (fun _ => none) sample_takesOn 0
    ([reads, lists ["web"]] ++ [lists ["proxy"]]) hadmitted (by decide) rfl

/-- A container that was restarted and then goes is not retired: the sweep raises. -/
theorem restarted_container_departs :
    ¬ ∀ (registry : Registry) (check : Declaration → Option String), registry.TakesOn →
      ∀ (now : Moment) (before : List Happening) (happening : Happening),
        (∀ one ∈ before ++ [happening], Admitted registry check one) →
          (run (Estate.step registry) (Estate.start now) before).Completes registry happening := by
  intro h
  have hadmitted : ∀ one ∈ [reads, lists ["web"], restarts] ++ [lists ["proxy"]],
      Admitted sampleRegistry (fun _ => none) one := by
    simp only [List.cons_append, List.nil_append, List.forall_mem_cons]
    exact ⟨trivial, lists_admitted _, restarts_admitted, lists_admitted _, by simp⟩
  have hcompletes := h sampleRegistry (fun _ => none) sample_takesOn 0
    [reads, lists ["web"], restarts] (lists ["proxy"]) hadmitted
  obtain ⟨recorded, hrecorded⟩ := hcompletes.commits _ _ rfl
  have hraises : (recordSweep sampleRegistry
      ((run (Estate.step sampleRegistry) (Estate.start 0) [reads, lists ["web"], restarts]).found
        sampleRegistry namingEnvironment) 0
      [(containerKind, ⟨true, ["proxy"].map containerRecord, [], false⟩)]
      (run (Estate.step sampleRegistry) (Estate.start 0)
        [reads, lists ["web"], restarts]).tables).isOk = false := by
    decide
  have hcommits := congrArg Except.isOk hrecorded
  exact absurd (hraises.symm.trans hcommits) (by simp [Except.isOk, Except.toBool])

end SeverinoHQ.Inventory
