/-
# When a sweep commits

A sweep of readable records over rows that pass their checks gets through storing,
adopting, syncing and confirming. What is left to stop it is a container that is gone
while an operation still refers to it: the reference is protected, the delete raises, and
the sweep is undone whole. Where no operation refers to one, the sweep commits.
-/

import SeverinoHQ.Inventory.Sweeping

namespace SeverinoHQ.Inventory

open SeverinoHQ.Math SeverinoHQ.ControlPlane

section Kept

variable {registry : Registry} {env : Environment} {now : Moment} {payload : Payload}
  {check : Declaration → Option String}

/-- Adopting leaves the projects as they are. -/
theorem Keeps.projects {inv : Tables → Prop} (h : Keeps registry env now inv)
    (projects : List Project) :
    Keeps registry env now fun tables => inv tables ∧ tables.projects = projects where
  rows := fun tables htables => h.rows tables htables.1
  adopt := fun principal command before adopted after hbefore hadopted => by
    refine ⟨h.adopt principal command before adopted after hbefore.1 hadopted, ?_⟩
    obtain ⟨found, -, -, -, -, hdeclared⟩ := adopt_eq_ok hadopted
    obtain ⟨⟨prepared, stored⟩, -, hdeclared⟩ := exists_of_bind_eq_ok hdeclared
    obtain ⟨token, -, hdeclared⟩ := exists_of_bind_eq_ok hdeclared
    cases hdeclared
    exact hbefore.2

/-! ## What refers to what goes -/

/-- No operation refers to a row that is to go. -/
def Unreferred (goes : ManagedResource → Bool) (db : Database) : Prop :=
  ∀ row ∈ db.resources, goes row = true → ∀ operation ∈ db.operations, operation.resource ≠ row.id

instance (goes : ManagedResource → Bool) (db : Database) : Decidable (Unreferred goes db) :=
  inferInstanceAs (Decidable (∀ row ∈ db.resources, goes row = true →
    ∀ operation ∈ db.operations, operation.resource ≠ row.id))

/-- Whether a sweep says a container is gone. -/
def departs (registry : Registry) (payload : Payload) (row : ManagedResource) : Bool :=
  (completeListing registry payload).any fun listed => isDeparted listed row

/-- Whether a container is gone is read from what was authored of it. -/
theorem departs_of_declaration {row other : ManagedResource}
    (hsame : row.declaration = other.declaration) :
    departs registry payload row = departs registry payload other := by
  obtain ⟨-, -, hkind, hspec, -⟩ := Declaration.mk.inj hsame
  unfold departs isDeparted
  rw [hkind, hspec]

/-- What departed before a sweep adopted, and nothing it adopted, is unreferred behind it. -/
theorem Unreferred.of_adopts {before stored : Tables} {adopted : List Adopted} {db : Database}
    (hsound : before.db.Sound) (hadopts : Adopts before adopted stored)
    (hdeclarations : db.declarations = stored.db.declarations)
    (hoperations : db.operations = stored.db.operations)
    (h : Unreferred (departs registry payload) before.db) :
    Unreferred (departs registry payload) db := by
  intro row hrow hdeparts operation hoperation hid
  rw [hoperations, hadopts.operations] at hoperation
  have hdeclared : row.declaration ∈ stored.db.declarations :=
    hdeclarations ▸ List.mem_map_of_mem hrow
  rcases hadopts.fresh row.declaration hdeclared with hold | hnew
  · obtain ⟨old, hold, hsame⟩ := List.mem_map.mp hold
    have hsameId : old.id = row.id := (Declaration.mk.inj hsame).1
    exact h old hold ((departs_of_declaration hsame).trans hdeparts) operation hoperation
      (hid.trans hsameId.symm)
  · -- What was adopted has an id no operation refers to.
    obtain ⟨referred, hreferred, hreferredId⟩ := hsound.resource_stored operation hoperation
    have hlt : row.id < before.db.serial :=
      (hreferredId.trans hid) ▸ hsound.resource_old referred hreferred
    exact absurd hlt (not_lt.mpr hnew)

/-! ## Retiring -/

theorem retireEach_ok {listed : List (Json × Json)} {rows : List ManagedResource} {db : Database}
    (hfree : ∀ row ∈ rows, isDeparted listed row = true →
      ∀ operation ∈ db.operations, operation.resource ≠ row.id) :
    ∃ result, retireEach listed rows db = .ok result := by
  induction rows generalizing db with
  | nil => exact ⟨_, rfl⟩
  | cons row rows ih =>
      obtain ⟨hrow, hrows⟩ := List.forall_mem_cons.mp hfree
      rw [retireEach]
      split_ifs with hstays
      · exact ih hrows
      · have hdeparted : isDeparted listed row = true := by simpa using hstays
        have hdeleted : deleteResource row db = .ok
            { db with resources := Table.delete db.resources fun other => other.id == row.id } := by
          unfold deleteResource
          rw [if_neg (by simpa using hrow hdeparted)]
        have hrest : ∃ result, retireEach listed rows
            { db with resources := Table.delete db.resources fun other => other.id == row.id } =
              .ok result := ih hrows
        obtain ⟨result, hresult⟩ := hrest
        exact ⟨_, by rw [hdeleted]; simp only [bind, Except.bind, hresult]; rfl⟩

/-- The loop deletes rows, every departed one among them. -/
theorem retireEach_gone {listed : List (Json × Json)} {rows : List ManagedResource}
    {db stored : Database} {retired : List String}
    (h : retireEach listed rows db = .ok (retired, stored)) :
    stored.inventories = db.inventories ∧ stored.resources ⊆ db.resources ∧
      ∀ row ∈ rows, isDeparted listed row = true → ∀ left ∈ stored.resources, left.id ≠ row.id := by
  induction rows generalizing db retired with
  | nil =>
      cases h
      exact ⟨rfl, List.Subset.refl _, by simp⟩
  | cons row rows ih =>
      rw [retireEach] at h
      split_ifs at h with hstays
      · obtain ⟨hinventories, hsubset, hgone⟩ := ih h
        refine ⟨hinventories, hsubset, fun other hother hdeparted => ?_⟩
        rcases List.mem_cons.mp hother with rfl | hrest
        · simp [hdeparted] at hstays
        · exact hgone other hrest hdeparted
      · obtain ⟨deleted, hdeleted, h⟩ := exists_of_bind_eq_ok h
        obtain ⟨⟨others, final⟩, hothers, h⟩ := exists_of_bind_eq_ok h
        cases h
        obtain ⟨hinventories, hsubset, hgone⟩ := ih hothers
        unfold deleteResource at hdeleted
        split_ifs at hdeleted
        cases hdeleted
        refine ⟨hinventories, fun left hleft => (Table.mem_delete.mp (hsubset hleft)).1,
          fun other hother hdeparted => ?_⟩
        rcases List.mem_cons.mp hother with rfl | hrest
        · intro left hleft
          simpa using (Table.mem_delete.mp (hsubset hleft)).2
        · exact hgone other hrest hdeparted

/-- A container's identity of texts can stand in a set. -/
theorem bothHashable_of_named {spec : Json} (h : registry.Named containerKind spec) :
    bothHashable (containerIdentity spec) = true := by
  have hhashable := h.hashable
  simpa [bothHashable] using hhashable

theorem completeListing_hashable {listed : List (Json × Json)}
    (hpayload : payload.Readable registry) (h : completeListing registry payload = some listed) :
    ∀ pair ∈ listed, bothHashable pair = true := by
  obtain ⟨report, hreport, h⟩ := Option.bind_eq_some_iff.mp h
  split_ifs at h
  obtain ⟨specs, hspecs, h⟩ := Option.bind_eq_some_iff.mp h
  cases h
  obtain ⟨entry, hentry, hsame⟩ := Option.map_eq_some_iff.mp hreport
  have hkind : entry.1 = containerKind := by simpa using List.find?_some hentry
  intro pair hpair
  obtain ⟨spec, hspec, rfl⟩ := List.mem_map.mp hpair
  obtain ⟨record, hrecord, hread⟩ := (mem_of_mapM_eq_some hspecs).mp hspec
  apply bothHashable_of_named
  rw [← hkind] at hread ⊢
  exact hpayload entry (List.mem_of_find?_eq_some hentry) record (hsame ▸ hrecord) spec hread

/-- Over readable tables a sweep retires what departed, where no operation refers to it. -/
theorem retireDeparted_ok {db : Database} (hreadable : Readable registry db)
    (hpayload : payload.Readable registry) (hfree : Unreferred (departs registry payload) db) :
    ∃ result, retireDeparted registry payload db = .ok result := by
  unfold retireDeparted
  cases hlisting : completeListing registry payload with
  | none => exact ⟨_, rfl⟩
  | some listed =>
      have hlisted : (listed.any fun pair => !bothHashable pair) = false := by
        rw [List.any_eq_false]
        intro pair hpair
        simp [completeListing_hashable hpayload hlisting pair hpair]
      have hdeclared : ((db.resources.filter fun row => row.kind == containerKind).any fun row =>
          !bothHashable (containerIdentity row.spec)) = false := by
        rw [List.any_eq_false]
        intro row hrow
        obtain ⟨hmem, hkind⟩ := List.mem_filter.mp hrow
        have hnamed := hreadable.declared row.declaration (List.mem_map_of_mem hmem)
        have hsame : row.kind = containerKind := by simpa using hkind
        simp only [ManagedResource.declaration, hsame] at hnamed
        simp [bothHashable_of_named hnamed]
      simp only [hlisted, hdeclared, Bool.or_self, Bool.false_eq_true, if_false]
      refine retireEach_ok fun row hrow hdeparted =>
        hfree row (List.mem_filter.mp hrow).1 ?_
      rw [departs, hlisting]
      exact hdeparted

/-- Retiring leaves readings as they are, rows as they were, and none that departed. -/
theorem retireDeparted_gone {db stored : Database} {retired : List String}
    (h : retireDeparted registry payload db = .ok (retired, stored)) :
    stored.inventories = db.inventories ∧ stored.resources ⊆ db.resources ∧
      ∀ row ∈ db.resources, departs registry payload row = true →
        ∀ left ∈ stored.resources, left.id ≠ row.id := by
  unfold retireDeparted at h
  cases hlisting : completeListing registry payload with
  | none =>
      rw [hlisting] at h
      cases h
      exact ⟨rfl, List.Subset.refl _, by simp [departs, hlisting]⟩
  | some listed =>
      rw [hlisting] at h
      dsimp only at h
      split_ifs at h
      obtain ⟨hinventories, hsubset, hgone⟩ := retireEach_gone h
      refine ⟨hinventories, hsubset, fun row hrow hdeparts => ?_⟩
      have hdeparted : isDeparted listed row = true := by simpa [departs, hlisting] using hdeparts
      have hkind : (row.kind == containerKind) = true := by
        simp only [isDeparted, Bool.and_eq_true] at hdeparted
        exact hdeparted.1.1.1
      exact hgone row (List.mem_filter.mpr ⟨hrow, hkind⟩) hdeparted

/-! ## A sweep that commits -/

/-- The tables a sweep starts to adopt into. -/
def recordedTables (registry : Registry) (payload : Payload) (tables : Tables) : Tables :=
  { tables with db := recordInventory registry payload tables.db }

section Commits

variable {before : Tables} (hchecks : env.Checks check) (hvalidates : Validates registry env)

include hchecks hvalidates in
/-- What a sweep has stored and adopted by kind. -/
theorem storedAndAdopted_ok (hpayload : payload.Readable registry)
    (hsound : before.Sound registry check) :
    ∃ result, storedAndAdopted registry env now payload before = .ok result := by
  have hstored := hsound.recorded hpayload
  have hkinds : ∃ kinds, adoptableKinds registry env
      { before with db := recordInventory registry payload before.db } = .ok kinds := by
    unfold adoptableKinds
    rw [unmanaged_ok hstored.readable]
    exact ⟨_, rfl⟩
  obtain ⟨kinds, hkinds⟩ := hkinds
  have hadopted : ∃ result, adoptKinds registry env now kinds
      { before with db := recordInventory registry payload before.db } = .ok result :=
    adoptKinds_ok hchecks hvalidates hstored
  obtain ⟨result, hresult⟩ := hadopted
  refine ⟨result, ?_⟩
  unfold storedAndAdopted
  simp only [hkinds, bind, Except.bind]
  exact hresult

include hchecks hvalidates in
theorem storedAndAdopted_keeps {taken : Tables} {adopted : List Adopted}
    (hpayload : payload.Readable registry) (hsound : before.Sound registry check)
    (h : storedAndAdopted registry env now payload before = .ok (adopted, taken)) :
    taken.Sound registry check ∧ taken.projects = before.projects ∧
      Adopts (recordedTables registry payload before) adopted taken := by
  obtain ⟨kinds, -, h⟩ := exists_of_bind_eq_ok h
  have hkeeps : Keeps registry env now fun tables =>
      tables.Sound registry check ∧ tables.projects = before.projects :=
    (keeps_sound hchecks hvalidates).projects before.projects
  obtain ⟨htaken, hadopts, -⟩ := adoptKinds_adopts hkeeps ⟨hsound.recorded hpayload, rfl⟩ h
  exact ⟨htaken.1, htaken.2, hadopts⟩

include hchecks hvalidates in
theorem adoptDiscoveredRecords_ok (hsound : before.Sound registry check) :
    ∃ result, adoptDiscoveredRecords registry env now before = .ok result := by
  unfold adoptDiscoveredRecords
  rw [unmanaged_ok hsound.readable]
  exact adoptZones_ok hchecks hvalidates hsound

include hchecks hvalidates in
theorem adoptDiscoveredRecords_keeps {after : Tables} {adopted : List Adopted}
    (hsound : before.Sound registry check)
    (h : adoptDiscoveredRecords registry env now before = .ok (adopted, after)) :
    after.Sound registry check ∧ after.projects = before.projects ∧ Adopts before adopted after := by
  obtain ⟨items, -, h⟩ := exists_of_bind_eq_ok h
  have hkeeps : Keeps registry env now fun tables =>
      tables.Sound registry check ∧ tables.projects = before.projects :=
    (keeps_sound hchecks hvalidates).projects before.projects
  obtain ⟨hafter, hadopts, -⟩ := adoptZones_adopts hkeeps ⟨hsound, rfl⟩ h
  exact ⟨hafter.1, hafter.2, hadopts⟩

/-- Every repository has a key once others are adopted, where it had one before. -/
theorem Keyed.of_adopts {after : Tables} {adopted : List Adopted} (h : Keyed registry env before)
    (hadopts : Adopts before adopted after) (hprojects : after.projects = before.projects) :
    Keyed registry env after := by
  refine ⟨fun name hname => h.1 name ?_, fun project hproject => h.2 project (hprojects ▸ hproject)⟩
  unfold repositories at hname ⊢
  rw [← hadopts.inventories]
  exact hname

/-- Rows that were confirmed can still be read. -/
theorem Confirms.keeps {db stored : Database} (hconfirms : Confirms db stored)
    (htidy : Tidy check db) (hsound : db.Sound) (hreadable : Readable registry db) :
    Tidy check stored ∧ Readable registry stored := by
  have hauthored : AsAuthored db stored := by
    rw [AsAuthored, hconfirms.declarations]
    exact List.Subset.refl _
  exact ⟨htidy.later hsound hauthored hconfirms.later,
    hreadable.of_declarations hconfirms.inventories fun declaration hmem =>
      Or.inl (hconfirms.declarations ▸ hmem)⟩

include hchecks hvalidates in
/-- A sweep of readable records over sound tables commits, where every repository has a key
and no operation refers to a container that is gone. -/
theorem recordSweep_ok (htakes : registry.TakesOn) (hpayload : payload.Readable registry)
    (hsound : before.Sound registry check)
    (hkeyed : (payload.report? repositoryKind).isSome →
      Keyed registry env (recordedTables registry payload before))
    (hfree : Unreferred (departs registry payload) before.db) :
    ∃ recorded, recordSweep registry env now payload before = .ok recorded := by
  have htaken : ∃ result, storedAndAdopted registry env now payload before = .ok result :=
    storedAndAdopted_ok hchecks hvalidates hpayload hsound
  obtain ⟨⟨adopted, taken⟩, htaken⟩ := htaken
  obtain ⟨htakenSound, htakenProjects, hkinds⟩ := storedAndAdopted_keeps hchecks hvalidates hpayload
    hsound htaken
  have hcomplete : ∃ result, adoptDiscoveredRecords registry env now taken = .ok result :=
    adoptDiscoveredRecords_ok hchecks hvalidates htakenSound
  obtain ⟨⟨records, complete⟩, hcomplete⟩ := hcomplete
  obtain ⟨hcompleteSound, hcompleteProjects, hzones⟩ := adoptDiscoveredRecords_keeps hchecks
    hvalidates htakenSound hcomplete
  have hadopts := hkinds.trans hzones
  obtain ⟨synced, hsynced⟩ := syncAfter_ok htakes fun hread =>
    (hkeyed hread).of_adopts hadopts (hcompleteProjects.trans htakenProjects)
  obtain ⟨hsyncedDb, -, -⟩ := syncAfter_frame hsynced
  have hsyncedReadable : Readable registry synced.db := hsyncedDb ▸ hcompleteSound.readable
  have hsyncedRows : synced.db.Sound := hsyncedDb ▸ hcompleteSound.rows
  have hconfirmed : ∃ db, confirmObserved registry env now payload synced.db = .ok db :=
    confirmObserved_ok hsyncedRows hsyncedReadable hpayload
  obtain ⟨db, hconfirmed⟩ := hconfirmed
  have hconfirms := confirmObserved_confirms hsyncedRows hconfirmed
  obtain ⟨-, hreadable⟩ := hconfirms.keeps (hsyncedDb ▸ hcompleteSound.tidy) hsyncedRows
    hsyncedReadable
  obtain ⟨hresources, hoperations, -⟩ := recordInventory_frame registry payload before.db
  have hstoredFree : Unreferred (departs registry payload)
      (recordedTables registry payload before).db := by
    unfold Unreferred recordedTables
    rw [hresources, hoperations]
    exact hfree
  have hrecorded := (hsound.recorded hpayload).rows
  obtain ⟨⟨retired, final⟩, hretired⟩ := retireDeparted_ok hreadable hpayload
    (hstoredFree.of_adopts hrecorded hadopts (hsyncedDb ▸ hconfirms.declarations)
      (hsyncedDb ▸ hconfirms.operations))
  refine ⟨⟨adopted ++ records, retired,
    { synced with db := settleReadRequests registry now final }⟩, ?_⟩
  unfold recordSweep
  simp only [htaken, bind, Except.bind, hcomplete, hsynced, hconfirmed, hretired, pure, Except.pure]

include hchecks hvalidates in
/-- What a sweep commits passes the checks and can be read, and no container that is gone is
left in it. -/
theorem recordSweep_keeps {recorded : Recorded} (hpayload : payload.Readable registry)
    (hsound : before.Sound registry check)
    (h : recordSweep registry env now payload before = .ok recorded) :
    recorded.tables.Sound registry check ∧
      ∀ row ∈ before.db.resources, departs registry payload row = true →
        ∀ left ∈ recorded.tables.db.resources, left.id ≠ row.id := by
  obtain ⟨adopted, taken, records, complete, synced, db, final, htaken, hcomplete, hsynced,
    hconfirmed, hretired, -, htables⟩ := (swept_of_recordSweep h).parts
  obtain ⟨htakenSound, -, hkinds⟩ := storedAndAdopted_keeps hchecks hvalidates hpayload hsound
    htaken
  obtain ⟨hcompleteSound, -, hzones⟩ := adoptDiscoveredRecords_keeps hchecks hvalidates
    htakenSound hcomplete
  obtain ⟨hsyncedDb, -, -⟩ := syncAfter_frame hsynced
  rw [hsyncedDb] at hconfirmed
  have hconfirms := confirmObserved_confirms hcompleteSound.rows hconfirmed
  obtain ⟨htidy, hreadable⟩ := hconfirms.keeps hcompleteSound.tidy hcompleteSound.rows
    hcompleteSound.readable
  obtain ⟨hfinal, hlater⟩ := retireDeparted_sound_later hconfirms.sound hretired
  obtain ⟨hinventories, hsubset, hgone⟩ := retireDeparted_gone hretired
  have hauthored : AsAuthored db final := List.map_subset _ hsubset
  have hfinalReadable : Readable registry final :=
    hreadable.of_declarations hinventories fun declaration hmem => Or.inl (hauthored hmem)
  rw [htables]
  refine ⟨⟨sound_of_frame hfinal rfl rfl rfl,
    (htidy.later hconfirms.sound hauthored hlater).later hfinal (List.Subset.refl _)
      (later_of_frame rfl rfl rfl),
    hfinalReadable.of_declarations rfl fun _ hmem => Or.inl hmem⟩, ?_⟩
  intro row hrow hdeparts left hleft
  -- The row is still declared as it was when retiring begins.
  have hdeclared : row.declaration ∈ db.declarations := by
    rw [hconfirms.declarations]
    apply (hkinds.trans hzones).declared
    rw [Database.declarations, recordedTables, (recordInventory_frame registry payload _).1]
    exact List.mem_map_of_mem hrow
  obtain ⟨other, hother, hsame⟩ := List.mem_map.mp hdeclared
  have hid : other.id = row.id := (Declaration.mk.inj hsame).1
  rw [← hid]
  exact hgone other hother ((departs_of_declaration hsame).trans hdeparts) left hleft

end Commits

end Kept

end SeverinoHQ.Inventory
