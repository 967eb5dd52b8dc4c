/-
# The parts of a sweep, one after another

Storing writes readings, syncing writes projects, confirming writes what was observed, and
retiring takes departed containers away. None of them writes an operation or anything
authored, so over readable tables only two things can stop a sweep: a repository whose
name no key can be read from, and a departed container that operations still refer to.
-/

import SeverinoHQ.Inventory.Keeping

namespace SeverinoHQ.Inventory

open SeverinoHQ.Math SeverinoHQ.ControlPlane

/-! ## What a sweep brings -/

/-- Every record of a payload has an identity of texts, where its provider reads it. -/
def Payload.Readable (registry : Registry) (payload : Payload) : Prop :=
  ∀ entry ∈ payload, ∀ record ∈ entry.2.records, ∀ spec,
    registry.recordSpec entry.1 record = some spec → registry.Named entry.1 spec

section Phases

variable {registry : Registry} {env : Environment} {now : Moment}
  {check : Declaration → Option String} {payload : Payload} {db stored : Database}

/-! ## Storing -/

theorem storeRecords_frame (kind : String) (records : Option (List Json)) (db : Database) :
    (storeRecords kind records db).resources = db.resources ∧
      (storeRecords kind records db).operations = db.operations ∧
      (storeRecords kind records db).serial = db.serial := by
  unfold storeRecords
  split_ifs <;> exact ⟨rfl, rfl, rfl⟩

theorem recordReport_frame (registry : Registry) (kind : String) (report : KindReport) (db : Database) :
    (recordReport registry kind report db).resources = db.resources ∧
      (recordReport registry kind report db).operations = db.operations ∧
      (recordReport registry kind report db).serial = db.serial := by
  unfold recordReport
  split_ifs
  · exact ⟨rfl, rfl, rfl⟩
  · exact ⟨rfl, rfl, rfl⟩
  · exact storeRecords_frame kind _ db
  · exact storeRecords_frame kind _ db

/-- Storing a sweep writes readings and nothing else. -/
theorem recordInventory_frame (registry : Registry) (payload : Payload) (db : Database) :
    (recordInventory registry payload db).resources = db.resources ∧
      (recordInventory registry payload db).operations = db.operations ∧
      (recordInventory registry payload db).serial = db.serial := by
  induction payload generalizing db with
  | nil => exact ⟨rfl, rfl, rfl⟩
  | cons entry payload ih =>
      obtain ⟨hresources, hoperations, hserial⟩ := ih (recordReport registry entry.1 entry.2 db)
      obtain ⟨hfirst, hsecond, hthird⟩ := recordReport_frame registry entry.1 entry.2 db
      exact ⟨hresources.trans hfirst, hoperations.trans hsecond, hserial.trans hthird⟩

/-- Tables that agree on their rows are sound together. -/
theorem sound_of_frame (h : db.Sound) (hresources : stored.resources = db.resources)
    (hoperations : stored.operations = db.operations) (hserial : stored.serial = db.serial) :
    stored.Sound := by
  obtain ⟨serial, resources, operations, inventories, readRequests⟩ := stored
  dsimp only at hresources hoperations hserial
  subst hresources hoperations hserial
  exact ⟨h.operation_ids, h.operation_old, h.resource_ids, h.resource_old, h.resource_stored,
    h.one_active, h.queued_unclaimed, h.claimed_leased, h.finished_says_when, h.observed_reached,
    h.input_reached⟩

theorem later_of_frame (hresources : stored.resources = db.resources)
    (hoperations : stored.operations = db.operations) (hserial : stored.serial = db.serial) :
    Later db stored := by
  refine ⟨hserial.ge, fun row hrow => ?_, fun row hrow => ?_⟩
  · exact (Later.refl db).operations row (hoperations ▸ hrow)
  · exact (Later.refl db).resources row (hresources ▸ hrow)

theorem keptRecords_of_provider {kind : String} (h : (registry.providers kind).isSome)
    (report : KindReport) (db : Database) : keptRecords registry kind report db = report.records := by
  rw [keptRecords, registry.unobserved kind h]

/-- The records a kind is stored with: those before it, or those of the report. -/
theorem mem_recordReport {kind : String} {report : KindReport} {snapshot : ProviderInventory}
    (h : snapshot ∈ (recordReport registry kind report db).inventories) {record : Json}
    (hrecord : record ∈ snapshot.records) (hknown : (registry.providers snapshot.kind).isSome) :
    (∃ old ∈ db.inventories, old.kind = snapshot.kind ∧ record ∈ old.records) ∨
      snapshot.kind = kind ∧ record ∈ report.records := by
  unfold recordReport at h
  split_ifs at h with hignored hcarried hreached
  · exact Or.inl ⟨snapshot, h, rfl, hrecord⟩
  · exact Or.inl ⟨snapshot, h, rfl, hrecord⟩
  all_goals
    unfold storeRecords at h
    split_ifs at h
    · rcases Table.mem_update.mp h with ⟨hold, -⟩ | ⟨old, hold, hkind, rfl⟩
      · exact Or.inl ⟨snapshot, hold, rfl, hrecord⟩
      · have hsame : old.kind = kind := by simpa using hkind
        first
          | exact Or.inl ⟨old, hold, rfl, hrecord⟩
          | exact Or.inr ⟨hsame, by
              simpa [keptRecords_of_provider (hsame ▸ hknown)] using hrecord⟩
    · rcases List.mem_append.mp h with hold | hnew
      · exact Or.inl ⟨snapshot, hold, rfl, hrecord⟩
      · obtain rfl := List.mem_singleton.mp hnew
        first
          | exact absurd hrecord (List.not_mem_nil)
          | exact Or.inr ⟨rfl, by simpa [keptRecords_of_provider hknown] using hrecord⟩

theorem readable_recordReport {kind : String} {report : KindReport} (h : Readable registry db)
    (hreport : ∀ record ∈ report.records, ∀ spec, registry.recordSpec kind record = some spec →
      registry.Named kind spec) : Readable registry (recordReport registry kind report db) := by
  refine ⟨fun declaration hmem => ?_, fun snapshot hsnapshot record hrecord spec hspec => ?_⟩
  · rw [Database.declarations, (recordReport_frame registry kind report db).1] at hmem
    exact h.declared declaration hmem
  · have hknown : (registry.providers snapshot.kind).isSome := by
      unfold Registry.recordSpec at hspec
      obtain ⟨provider, hprovider, -⟩ := Option.bind_eq_some_iff.mp hspec
      rw [hprovider]
      rfl
    rcases mem_recordReport hsnapshot hrecord hknown with ⟨old, hold, hkind, hmem⟩ | ⟨hkind, hmem⟩
    · rw [← hkind] at hspec ⊢
      exact h.records old hold record hmem spec hspec
    · rw [hkind] at hspec ⊢
      exact hreport record hmem spec hspec

theorem readable_recordInventory (h : Readable registry db) (hpayload : payload.Readable registry) :
    Readable registry (recordInventory registry payload db) := by
  induction payload generalizing db with
  | nil => exact h
  | cons entry payload ih =>
      obtain ⟨hentry, hrest⟩ := List.forall_mem_cons.mp hpayload
      exact ih (readable_recordReport h hentry) hrest

/-- A sweep stored is where adopting starts from. -/
theorem Tables.Sound.recorded {tables : Tables} (h : tables.Sound registry check)
    (hpayload : payload.Readable registry) :
    Tables.Sound registry check { tables with db := recordInventory registry payload tables.db } := by
  obtain ⟨hresources, hoperations, hserial⟩ := recordInventory_frame registry payload tables.db
  have hauthored : AsAuthored tables.db (recordInventory registry payload tables.db) :=
    asAuthored_of_resources hresources
  exact ⟨sound_of_frame h.rows hresources hoperations hserial,
    h.tidy.later h.rows hauthored (later_of_frame hresources hoperations hserial),
    readable_recordInventory h.readable hpayload⟩

/-! ## Syncing -/

/-- A repository that cannot be a project is refused in a way the sync goes past. -/
def Registry.TakesOn (registry : Registry) : Prop :=
  ∀ projects name named raised, registry.takeOn projects name named = .error raised →
    isUntaken raised = true

/-- A key can be read from every repository a sweep names, and from every project's. -/
def Keyed (registry : Registry) (env : Environment) (tables : Tables) : Prop :=
  (∀ name ∈ repositories env tables.db, ∃ key, registry.repositoryKey name = .ok key) ∧
    ∀ project ∈ tables.projects, ∃ key, registry.repositoryKey project.repositoryUrl = .ok key

theorem syncNames_ok (htakes : registry.TakesOn) {names known : List String}
    {unattached projects : List Project}
    (hkeyed : ∀ name ∈ names, ∃ key, registry.repositoryKey name = .ok key) :
    ∃ synced, syncNames registry names known unattached projects = .ok synced := by
  induction names generalizing known unattached projects with
  | nil => exact ⟨projects, rfl⟩
  | cons name names ih =>
      have hrest : ∀ other ∈ names, ∃ key, registry.repositoryKey other = .ok key :=
        fun other hother => hkeyed other (List.mem_cons_of_mem name hother)
      obtain ⟨key, hkey⟩ := hkeyed name List.mem_cons_self
      rw [syncNames, hkey]
      simp only [bind, Except.bind]
      split_ifs
      · exact ih hrest
      · split
        · exact ih hrest
        · next raised htaken =>
            simp only [htakes _ _ _ _ htaken, if_true]
            exact ih hrest

/-- Syncing writes projects and nothing else. -/
theorem syncAfter_frame {tables synced : Tables}
    (h : syncAfter registry env payload tables = .ok synced) :
    synced.db = tables.db ∧ synced.connections = tables.connections ∧
      synced.notManaged = tables.notManaged := by
  unfold syncAfter at h
  split_ifs at h
  · obtain ⟨known, -, h⟩ := exists_of_bind_eq_ok h
    obtain ⟨projects, -, h⟩ := exists_of_bind_eq_ok h
    cases h
    exact ⟨rfl, rfl, rfl⟩
  · cases h
    exact ⟨rfl, rfl, rfl⟩

theorem syncAfter_ok (htakes : registry.TakesOn) {tables : Tables}
    (hkeyed : (payload.report? repositoryKind).isSome → Keyed registry env tables) :
    ∃ synced, syncAfter registry env payload tables = .ok synced := by
  unfold syncAfter
  split_ifs with hread
  · obtain ⟨hnames, hprojects⟩ := hkeyed hread
    obtain ⟨known, hknown⟩ := exists_mapM_eq_ok fun (project : Project)
        (hproject : project ∈ tables.projects.filter fun project => project.repositoryUrl != "") =>
      hprojects project (List.mem_filter.mp hproject).1
    have hnamed : ∃ projects, syncNames registry (repositories env tables.db) known
        (tables.projects.filter fun project => project.repositoryUrl == "") tables.projects =
          .ok projects := syncNames_ok htakes hnames
    obtain ⟨projects, hsynced⟩ := hnamed
    refine ⟨{ tables with projects }, ?_⟩
    unfold syncRepositories
    simp only [hknown, bind, Except.bind, hsynced, pure, Except.pure]
  · exact ⟨tables, rfl⟩

/-! ## Confirming -/

theorem confirmed_declaration (live : List (List Json × Json)) (row : ManagedResource) :
    (confirmed registry env now live row).declaration = row.declaration := by
  unfold confirmed
  split
  · rfl
  · dsimp only
    split_ifs <;> rfl

theorem becomes_confirmed (live : List (List Json × Json)) {row : ManagedResource}
    (h : row.observedGeneration ≤ row.generation) :
    row.Becomes (confirmed registry env now live row) := by
  unfold confirmed
  split
  · exact ⟨rfl, le_refl _, h⟩
  · dsimp only
    split_ifs
    · exact ⟨rfl, le_refl _, le_refl _⟩
    · exact ⟨rfl, le_refl _, h⟩

/-- What confirming a kind leaves: each row of it confirmed, every other as it was. -/
theorem confirmKind_eq_ok {kind : String} {report : KindReport}
    (h : confirmKind registry env now kind report db = .ok stored) :
    stored = db ∨ ((registry.providers kind).isSome ∧ report.ok = true ∧
      stored = db.updateResources (fun row => row.kind == kind && row.enabled)
        (confirmed registry env now (liveSpecs registry kind report.records))) := by
  unfold confirmKind at h
  dsimp only at h
  split_ifs at h with hread
  · exact Or.inl (Except.ok.inj h).symm
  · exact Or.inl (Except.ok.inj h).symm
  · simp only [Bool.or_eq_true, not_or, Option.isNone_iff_eq_none, Bool.not_eq_true',
      Bool.not_eq_false] at hread
    exact Or.inr ⟨Option.isSome_iff_ne_none.mpr hread.1, hread.2, (Except.ok.inj h).symm⟩

/-- What confirming moves: the rows on, and nothing authored, queued or read. -/
structure Confirms (db stored : Database) : Prop where
  sound : stored.Sound
  later : Later db stored
  declarations : stored.declarations = db.declarations
  operations : stored.operations = db.operations
  inventories : stored.inventories = db.inventories

theorem confirmKind_confirms {kind : String} {report : KindReport} (hsound : db.Sound)
    (h : confirmKind registry env now kind report db = .ok stored) : Confirms db stored := by
  rcases confirmKind_eq_ok h with rfl | ⟨-, -, rfl⟩
  · exact ⟨hsound, Later.refl _, rfl, rfl, rfl⟩
  · have hbecomes : ∀ row ∈ db.resources, (row.kind == kind && row.enabled) = true →
        row.Becomes (confirmed registry env now (liveSpecs registry kind report.records) row) :=
      fun row hrow _ => becomes_confirmed _ (hsound.observed_reached row hrow)
    exact ⟨hsound.updateResources hbecomes, Later.updateResources hbecomes,
      Table.map_update ManagedResource.declaration fun row _ _ => confirmed_declaration _ row, rfl, rfl⟩

theorem confirmObserved_confirms (hsound : db.Sound)
    (h : confirmObserved registry env now payload db = .ok stored) : Confirms db stored := by
  induction payload generalizing db with
  | nil =>
      cases h
      exact ⟨hsound, Later.refl _, rfl, rfl, rfl⟩
  | cons entry payload ih =>
      obtain ⟨first, hfirst, h⟩ := exists_of_bind_eq_ok h
      have hone := confirmKind_confirms hsound hfirst
      have hrest := ih hone.sound h
      exact ⟨hrest.sound, hone.later.trans hrest.later, hrest.declarations.trans hone.declarations,
        hrest.operations.trans hone.operations, hrest.inventories.trans hone.inventories⟩

theorem confirmKind_ok {kind : String} {report : KindReport} (hreadable : Readable registry db)
    (hreport : ∀ record ∈ report.records, ∀ spec, registry.recordSpec kind record = some spec →
      registry.Named kind spec) :
    ∃ stored, confirmKind registry env now kind report db = .ok stored := by
  have hlive : ((liveSpecs registry kind report.records).any fun entry =>
      !entry.1.all isHashable) = false := by
    rw [List.any_eq_false]
    intro entry hentry
    obtain ⟨spec, hspec, rfl⟩ := List.mem_map.mp (List.mem_reverse.mp hentry)
    obtain ⟨record, hrecord, hread⟩ := List.mem_filterMap.mp hspec
    simp [(hreport record hrecord spec hread).hashable]
  have hdeclared : (db.resources.any fun row => (row.kind == kind && row.enabled) &&
      !(registry.recordIdentity kind row.spec).all isHashable) = false := by
    rw [List.any_eq_false]
    intro row hrow hboth
    simp only [Bool.and_eq_true, beq_iff_eq, Bool.not_eq_true'] at hboth
    obtain ⟨⟨rfl, -⟩, hunhashable⟩ := hboth
    have hnamed := (hreadable.declared row.declaration (List.mem_map_of_mem hrow)).hashable
    exact absurd hnamed (by simpa [ManagedResource.declaration] using hunhashable)
  unfold confirmKind
  simp only [hlive, hdeclared, Bool.false_eq_true, if_false]
  split_ifs
  all_goals exact ⟨_, rfl⟩

theorem confirmObserved_ok (hsound : db.Sound) (hreadable : Readable registry db)
    (hpayload : payload.Readable registry) :
    ∃ stored, confirmObserved registry env now payload db = .ok stored := by
  induction payload generalizing db with
  | nil => exact ⟨db, rfl⟩
  | cons entry payload ih =>
      obtain ⟨hentry, hrest⟩ := List.forall_mem_cons.mp hpayload
      have hone : ∃ first, confirmKind registry env now entry.1 entry.2 db = .ok first :=
        confirmKind_ok hreadable hentry
      obtain ⟨first, hfirst⟩ := hone
      have hconfirms := confirmKind_confirms hsound hfirst
      have hkept : Readable registry first :=
        hreadable.of_declarations hconfirms.inventories fun declaration hmem =>
          Or.inl (hconfirms.declarations ▸ hmem)
      obtain ⟨stored, hstored⟩ := ih hconfirms.sound hkept hrest
      exact ⟨stored, by rw [confirmObserved, List.foldlM_cons, hfirst]; exact hstored⟩

end Phases

end SeverinoHQ.Inventory
