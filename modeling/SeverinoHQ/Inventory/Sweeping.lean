/-
# A sweep, taken apart

What a whole sweep leaves is put together from its parts: the rows move on and stay
sound, and the operator's choices go only where something is adopted. Every step of an
estate keeps its rows sound, a sweep among them, whatever the sweep reads.
-/

import SeverinoHQ.Inventory.Phases

namespace SeverinoHQ.Inventory

open SeverinoHQ.Math SeverinoHQ.ControlPlane

section Sweeping

variable {registry : Registry} {env : Environment} {now : Moment} {payload : Payload}

/-! ## Retiring -/

theorem deleteResource_sound_later {row : ManagedResource} {db stored : Database}
    (hsound : db.Sound) (h : deleteResource row db = .ok stored) :
    stored.Sound ∧ Later db stored := by
  unfold deleteResource at h
  split_ifs at h with hrefers
  cases h
  have hchange : Change 0 db
      { db with resources := Table.delete db.resources fun other => other.id == row.id } := by
    apply Change.forget
    intro other hother hsame operation hoperation hid
    have hgone : other.id = row.id := by simpa using hsame
    exact hrefers (List.any_eq_true.mpr ⟨operation, hoperation, by simp [hid, hgone]⟩)
  exact hchange.sound_later hsound

theorem retireEach_sound_later {listed : List (Json × Json)} {rows : List ManagedResource}
    {db stored : Database} {retired : List String} (hsound : db.Sound)
    (h : retireEach listed rows db = .ok (retired, stored)) : stored.Sound ∧ Later db stored := by
  induction rows generalizing db retired with
  | nil =>
      cases h
      exact ⟨hsound, Later.refl _⟩
  | cons row rows ih =>
      rw [retireEach] at h
      split_ifs at h
      · exact ih hsound h
      · obtain ⟨left, hdeleted, h⟩ := exists_of_bind_eq_ok h
        obtain ⟨⟨others, final⟩, hrest, h⟩ := exists_of_bind_eq_ok h
        cases h
        obtain ⟨hleft, hlater⟩ := deleteResource_sound_later hsound hdeleted
        obtain ⟨hfinal, hrest⟩ := ih hleft hrest
        exact ⟨hfinal, hlater.trans hrest⟩

theorem retireDeparted_sound_later {db stored : Database} {retired : List String}
    (hsound : db.Sound) (h : retireDeparted registry payload db = .ok (retired, stored)) :
    stored.Sound ∧ Later db stored := by
  unfold retireDeparted at h
  split at h
  · cases h
    exact ⟨hsound, Later.refl _⟩
  · dsimp only at h
    split_ifs at h
    exact retireEach_sound_later hsound h

/-! ## The whole -/

/-- The parts of a sweep that commits. -/
structure Swept (registry : Registry) (env : Environment) (now : Moment) (payload : Payload)
    (before : Tables) (recorded : Recorded) : Prop where
  parts : ∃ adopted taken records complete synced db final,
    storedAndAdopted registry env now payload before = .ok (adopted, taken) ∧
      adoptDiscoveredRecords registry env now taken = .ok (records, complete) ∧
      syncAfter registry env payload complete = .ok synced ∧
      confirmObserved registry env now payload synced.db = .ok db ∧
      retireDeparted registry payload db = .ok (recorded.retired, final) ∧
      recorded.adopted = adopted ++ records ∧
      recorded.tables = { synced with db := settleReadRequests registry now final }

theorem swept_of_recordSweep {before : Tables} {recorded : Recorded}
    (h : recordSweep registry env now payload before = .ok recorded) :
    Swept registry env now payload before recorded := by
  obtain ⟨⟨adopted, taken⟩, htaken, h⟩ := exists_of_bind_eq_ok h
  obtain ⟨⟨records, complete⟩, hcomplete, h⟩ := exists_of_bind_eq_ok h
  obtain ⟨synced, hsynced, h⟩ := exists_of_bind_eq_ok h
  obtain ⟨db, hconfirmed, h⟩ := exists_of_bind_eq_ok h
  obtain ⟨⟨retired, final⟩, hretired, h⟩ := exists_of_bind_eq_ok h
  cases h
  exact ⟨adopted, taken, records, complete, synced, db, final, htaken, hcomplete, hsynced,
    hconfirmed, hretired, rfl, rfl⟩

/-- A sweep stored and adopted by kind, past what was left out. -/
theorem storedAndAdopted_adopts {before taken : Tables} {adopted : List Adopted}
    (hsound : before.db.Sound)
    (h : storedAndAdopted registry env now payload before = .ok (adopted, taken)) :
    taken.db.Sound ∧
      Adopts { before with db := recordInventory registry payload before.db } adopted taken ∧
      ∀ one ∈ adopted, (⟨one.kind, one.token⟩ : NotManaged) ∉ before.notManaged := by
  obtain ⟨kinds, -, h⟩ := exists_of_bind_eq_ok h
  obtain ⟨hresources, hoperations, hserial⟩ := recordInventory_frame registry payload before.db
  have hstored : (recordInventory registry payload before.db).Sound :=
    sound_of_frame hsound hresources hoperations hserial
  exact adoptKinds_adopts keeps_rows hstored h

/-- What a sweep takes on by domain was to be taken on in a domain HQ manages. -/
theorem adoptDiscoveredRecords_adopts {before after : Tables} {adopted : List Adopted}
    (hsound : before.db.Sound)
    (h : adoptDiscoveredRecords registry env now before = .ok (adopted, after)) :
    after.db.Sound ∧ Adopts before adopted after ∧
      ∀ one ∈ adopted, one.kind = recordKind ∧
        ∃ zone ∈ managedZones registry env before.db,
          ∃ item ∈ zoneAdoptable registry env zone (foundRecords registry env before),
            item.token registry = .ok one.token := by
  obtain ⟨items, -, h⟩ := exists_of_bind_eq_ok h
  exact adoptZones_adopts keeps_rows hsound h

/-- A sweep moves the rows on, and what it adopts is all it lets in. -/
theorem recordSweep_sound_later {before : Tables} {recorded : Recorded} (hsound : before.db.Sound)
    (h : recordSweep registry env now payload before = .ok recorded) :
    recorded.tables.db.Sound ∧ Later before.db recorded.tables.db ∧
      ∀ row, row ∈ recorded.tables.notManaged ↔ row ∈ before.notManaged ∧
        ∀ one ∈ recorded.adopted, (⟨one.kind, one.token⟩ : NotManaged) ≠ row := by
  obtain ⟨adopted, taken, records, complete, synced, db, final, htaken, hcomplete, hsynced,
    hconfirmed, hretired, hadopted, htables⟩ := (swept_of_recordSweep h).parts
  obtain ⟨hresources, hoperations, hserial⟩ := recordInventory_frame registry payload before.db
  obtain ⟨htakenSound, hkinds, -⟩ := storedAndAdopted_adopts hsound htaken
  obtain ⟨hcompleteSound, hzones, -⟩ := adoptDiscoveredRecords_adopts htakenSound hcomplete
  obtain ⟨hsyncedDb, -, hsyncedRows⟩ := syncAfter_frame hsynced
  have hconfirms := confirmObserved_confirms (hsyncedDb ▸ hcompleteSound) hconfirmed
  obtain ⟨hfinal, hretiredLater⟩ := retireDeparted_sound_later hconfirms.sound hretired
  have hsettled : (settleReadRequests registry now final).Sound :=
    sound_of_frame hfinal rfl rfl rfl
  have hsettledLater : Later final (settleReadRequests registry now final) :=
    later_of_frame rfl rfl rfl
  have hconfirmsLater : Later complete.db db := hsyncedDb ▸ hconfirms.later
  have hlater : Later before.db final :=
    ((((later_of_frame hresources hoperations hserial).trans hkinds.later).trans
      hzones.later).trans hconfirmsLater).trans hretiredLater
  have hboth := hkinds.trans hzones
  rw [htables]
  refine ⟨hsettled, hlater.trans hsettledLater, fun row => ?_⟩
  rw [hadopted, ← hboth.letIn row, ← hsyncedRows]

end Sweeping

/-! ## Every step -/

section Steps

variable {registry : Registry} {estate : Estate}

/-- Rows that moved on keep what is in flight over them sound. -/
theorem sound_store {world : World} (hsound : world.Sound) {stored : Database}
    (hstored : stored.Sound) (hlater : Later world.db stored) :
    World.Sound { world with db := stored } :=
  ⟨hstored, fun queueing hqueueing ask hask => (hsound.asks queueing hqueueing ask hask).later hlater,
    fun report hreport => (hsound.reports report hreport).later hlater⟩

/-- An operator's adoption of a domain, with the records that could be taken on. -/
theorem adoptZone_adopts {env : Environment} {principal : Principal} {zone token : String}
    {adopted : List Adopted} {after : Tables} (hsound : estate.world.db.Sound)
    (h : estate.adoptZone registry env principal zone token = .ok (adopted, after)) :
    after.db.Sound ∧ Adopts estate.tables adopted after := by
  obtain ⟨⟨declared, tables⟩, hdeclared, h⟩ := exists_of_bind_eq_ok h
  obtain ⟨hstored, hadopts, -⟩ := adopt_adopts hsound hdeclared
  dsimp only at h
  split at h
  · next records final hrecords =>
      cases h
      obtain ⟨hfinal, hrecorded, -⟩ := adoptZoneRecords_adopts keeps_rows hstored hrecords
      exact ⟨hfinal, hadopts.trans hrecorded⟩
  · cases h
    exact ⟨hstored, hadopts⟩
  · cases h
    exact ⟨hstored, hadopts⟩
  · cases h
    exact ⟨hstored, hadopts⟩
  · cases h

/-- Every step of an estate keeps its control plane sound. -/
theorem step_sound (hsound : estate.world.Sound) (happening : Happening) :
    (estate.step registry happening).world.Sound := by
  cases happening with
  | control event =>
      have hmoved := fun moved : Event => (step_outcome hsound moved).sound hsound
      simp only [Estate.step, Estate.control]
      split
      · exact hmoved _
      · split
        · exact hmoved _
        · exact hsound
  | connect connections => exact hsound
  | sweep env payload =>
      simp only [Estate.step]
      split
      · next recorded hrecorded =>
          obtain ⟨hstored, hlater, -⟩ := recordSweep_sound_later hsound.rows hrecorded
          exact sound_store hsound hstored hlater
      · exact hsound
  | adopt env principal command =>
      simp only [Estate.step]
      split
      · next adopted tables hadopted =>
          obtain ⟨hstored, hadopts, -⟩ := adopt_adopts hsound.rows hadopted
          exact sound_store hsound hstored hadopts.later
      · exact hsound
  | adoptZone env principal zone token =>
      simp only [Estate.step]
      split
      · next adopted tables hadopted =>
          obtain ⟨hstored, hadopts⟩ := adoptZone_adopts hsound.rows hadopted
          exact sound_store hsound hstored hadopts.later
      · exact hsound

/-- Every state of every run is sound. -/
theorem run_step_sound (now : Moment) (happenings : List Happening) :
    (run (Estate.step registry) (Estate.start now) happenings).world.Sound :=
  run_always (fun estate : Estate => estate.world.Sound) (fun _ happening h => step_sound h happening)
    (World.start_sound now) happenings

end Steps

end SeverinoHQ.Inventory
