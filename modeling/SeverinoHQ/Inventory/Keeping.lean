/-
# What a sweep leaves as it was

Every part of a sweep moves the stored rows on without touching what was authored of them:
adopting appends declarations, confirming writes what was observed, retiring takes rows
away. Operations are written by none of them. Each function is taken apart once here, and
the three results about sweeps are read off these lemmas.
-/

import SeverinoHQ.ControlPlane.Tidy
import SeverinoHQ.Inventory.Sweep

namespace SeverinoHQ.Inventory

open SeverinoHQ.Math SeverinoHQ.ControlPlane

/-! ## What a sweep can read -/

section Reading

variable (registry : Registry)

/-- Every identity a sweep looks up or joins is texts. -/
structure Readable (db : Database) : Prop where
  declared : ∀ declaration ∈ db.declarations, registry.Named declaration.kind declaration.spec
  records : ∀ snapshot ∈ db.inventories, ∀ record ∈ snapshot.records, ∀ spec,
    registry.recordSpec snapshot.kind record = some spec → registry.Named snapshot.kind spec

/-- What `validate_spec` passes has an identity of texts, and what it raises is a refusal. -/
structure Validates (env : Environment) : Prop where
  named : ∀ kind spec validated, env.validateSpec kind spec = .ok validated →
    registry.Named kind validated
  refuses : ∀ kind spec raised, env.validateSpec kind spec = .error raised → isRefusal raised = true

/-- What holds of the tables between any two parts of a sweep. -/
structure Tables.Sound (check : Declaration → Option String) (tables : Tables) : Prop where
  rows : tables.db.Sound
  tidy : Tidy check tables.db
  readable : Readable registry tables.db

end Reading

section Lemmas

variable {registry : Registry} {env : Environment} {now : Moment} {principal : Principal}
  {check : Declaration → Option String}

theorem foundRecord_eq_some {tables : Tables} {kind : String} {provider : ProviderSpec}
    {record : Json} {item : Unmanaged}
    (h : foundRecord registry env tables kind provider record = some item) :
    registry.recordSpec kind record = some item.spec ∧ item.kind = kind ∧
      item.identity = registry.recordIdentity kind item.spec ∧
      (kind, item.identity) ∉ declaredIdentities registry tables.db ∧
      item.adoptable = (provider.adoptionGap == "" && provider.adopts record) ∧
      item.observedOnly = (provider.adoptionGap != "" ||
        !managesThrough registry tables.connections kind (connectionRef env record)) := by
  unfold foundRecord at h
  obtain ⟨spec, hspec, h⟩ := Option.bind_eq_some_iff.mp h
  dsimp only at h
  split_ifs at h with hknown
  cases h
  simp only [Bool.or_eq_true, not_or, List.contains_iff_mem] at hknown
  exact ⟨hspec, rfl, rfl, hknown.2, rfl, rfl⟩

theorem mem_foundRecords {tables : Tables} {item : Unmanaged} :
    item ∈ foundRecords registry env tables ↔
      ∃ snapshot ∈ tables.db.inventories, ∃ provider, registry.providers snapshot.kind = some provider ∧
        ∃ record ∈ snapshot.records,
          foundRecord registry env tables snapshot.kind provider record = some item := by
  unfold foundRecords
  simp only [List.mem_flatMap]
  refine exists_congr fun snapshot => and_congr_right fun _ => ?_
  cases registry.providers snapshot.kind with
  | none => simp
  | some provider => simp [List.mem_filterMap]

theorem foundRecords_named {tables : Tables} (h : Readable registry tables.db) {item : Unmanaged}
    (hitem : item ∈ foundRecords registry env tables) : registry.Named item.kind item.spec := by
  obtain ⟨snapshot, hsnapshot, provider, -, record, hrecord, hfound⟩ := mem_foundRecords.mp hitem
  obtain ⟨hspec, hkind, -⟩ := foundRecord_eq_some hfound
  rw [hkind]
  exact h.records snapshot hsnapshot record hrecord item.spec hspec

theorem foundRecords_identity {tables : Tables} {item : Unmanaged}
    (hitem : item ∈ foundRecords registry env tables) :
    item.identity = registry.recordIdentity item.kind item.spec := by
  obtain ⟨snapshot, -, provider, -, record, -, hfound⟩ := mem_foundRecords.mp hitem
  obtain ⟨-, hkind, hidentity, -⟩ := foundRecord_eq_some hfound
  rw [hkind]
  exact hidentity

theorem lookedUp_hashable {db : Database} (h : Readable registry db) :
    ∀ identity ∈ lookedUp registry db, identity.all isHashable = true := by
  intro identity hidentity
  rcases List.mem_append.mp hidentity with hdeclared | hrecord
  · obtain ⟨entry, hentry, rfl⟩ := List.mem_map.mp hdeclared
    obtain ⟨row, hrow, rfl⟩ := List.mem_map.mp hentry
    exact (h.declared row.declaration (List.mem_map_of_mem (List.mem_filter.mp hrow).1)).hashable
  · obtain ⟨snapshot, hsnapshot, hidentity⟩ := List.mem_flatMap.mp hrecord
    obtain ⟨spec, hspec, rfl⟩ := List.mem_map.mp hidentity
    obtain ⟨record, hmem, hread⟩ := List.mem_filterMap.mp hspec
    exact (h.records snapshot hsnapshot record hmem spec hread).hashable

/-- Over readable tables the list of what nothing accounts for is read. -/
theorem unmanaged_ok {tables : Tables} (h : Readable registry tables.db) :
    unmanaged registry env tables = .ok ((foundRecords registry env tables).insertionSort
      fun first second => first.before second) := by
  have hhash : ((lookedUp registry tables.db).any fun identity => !identity.all isHashable) = false := by
    rw [List.any_eq_false]
    intro identity hidentity
    simp [lookedUp_hashable h identity hidentity]
  have hordered : ((foundRecords registry env tables).any fun first =>
      (foundRecords registry env tables).any fun second =>
        (precedes first.identity second.identity).isNone) = false := by
    rw [List.any_eq_false]
    intro first hfirst
    rw [Bool.not_eq_true, List.any_eq_false]
    intro second hsecond
    have horder := precedes_of_texts
      (fun value hvalue => foundRecords_named h hfirst value (foundRecords_identity hfirst ▸ hvalue))
      (fun value hvalue => foundRecords_named h hsecond value (foundRecords_identity hsecond ▸ hvalue))
    simp [Option.isNone_iff_eq_none, Option.ne_none_iff_isSome.mpr horder]
  unfold unmanaged
  dsimp only
  rw [if_neg (by simp [hhash]), if_neg (by simp [hordered])]

theorem mem_unmanaged {tables : Tables} {items : List Unmanaged}
    (h : unmanaged registry env tables = .ok items) {item : Unmanaged} :
    item ∈ items ↔ item ∈ foundRecords registry env tables := by
  unfold unmanaged at h
  dsimp only at h
  split_ifs at h
  cases h
  exact List.mem_insertionSort _

theorem token_ok {tables : Tables} (h : Readable registry tables.db) {item : Unmanaged}
    (hitem : item ∈ foundRecords registry env tables) : ∃ token, item.token registry = .ok token := by
  unfold Unmanaged.token
  rw [foundRecords_identity hitem]
  exact Registry.Named.token_eq_ok (h := foundRecords_named h hitem)

/-- Every item of the list has its token. -/
theorem unmanaged_tokens {tables : Tables} (hreadable : Readable registry tables.db)
    {items : List Unmanaged} (h : unmanaged registry env tables = .ok items) :
    ∀ item ∈ items, ∃ token, item.token registry = .ok token :=
  fun _ hitem => token_ok hreadable ((mem_unmanaged h).mp hitem)

theorem firstTokened_spec {token : String} {items : List Unmanaged} {found : Option Unmanaged}
    (h : firstTokened registry token items = .ok found) {item : Unmanaged} (hitem : found = some item) :
    item ∈ items ∧ item.token registry = .ok token := by
  induction items with
  | nil =>
      cases h
      cases hitem
  | cons first items ih =>
      obtain ⟨read, hread, h⟩ := exists_of_bind_eq_ok h
      split_ifs at h with hsame
      · cases h
        cases hitem
        exact ⟨List.mem_cons_self, hsame ▸ hread⟩
      · obtain ⟨hmem, htoken⟩ := ih h
        exact ⟨List.mem_cons_of_mem first hmem, htoken⟩

theorem firstTokened_ok {token : String} {items : List Unmanaged}
    (h : ∀ item ∈ items, ∃ read, item.token registry = .ok read) :
    ∃ found, firstTokened registry token items = .ok found := by
  induction items with
  | nil => exact ⟨none, rfl⟩
  | cons first items ih =>
      obtain ⟨read, hread⟩ := h first List.mem_cons_self
      obtain ⟨found, hfound⟩ := ih fun item hitem => h item (List.mem_cons_of_mem first hitem)
      rw [firstTokened, hread]
      by_cases hsame : read = token
      · exact ⟨some first, by simp [hsame, bind, Except.bind, pure, Except.pure]⟩
      · exact ⟨found, by simp [hsame, bind, Except.bind, hfound]⟩

/-- What is looked for is found among the records, under its token where one was given. -/
theorem findUnmanaged_spec {tables : Tables} {kind hostname token : String} {item : Unmanaged}
    (h : findUnmanaged registry env tables kind hostname token = .ok (some item)) :
    item ∈ foundRecords registry env tables ∧ item.kind = kind ∧
      (token ≠ "" → item.token registry = .ok token) := by
  obtain ⟨items, hitems, h⟩ := exists_of_bind_eq_ok h
  dsimp only at h
  have hmem : ∀ candidate ∈ items.filter (fun item => item.kind == kind),
      candidate ∈ foundRecords registry env tables ∧ candidate.kind = kind := by
    intro candidate hcandidate
    obtain ⟨hlisted, hkind⟩ := List.mem_filter.mp hcandidate
    exact ⟨(mem_unmanaged hitems).mp hlisted, by simpa using hkind⟩
  split_ifs at h with hnamed
  · obtain ⟨hcandidate, htoken⟩ := firstTokened_spec h rfl
    exact ⟨(hmem item hcandidate).1, (hmem item hcandidate).2, fun _ => htoken⟩
  · have hfound := List.mem_of_find?_eq_some (Except.ok.inj h)
    exact ⟨(hmem item hfound).1, (hmem item hfound).2, fun hgiven => absurd hgiven hnamed⟩

theorem findUnmanaged_ok (env : Environment) {tables : Tables} (h : Readable registry tables.db)
    (kind hostname token : String) :
    ∃ found, findUnmanaged registry env tables kind hostname token = .ok found := by
  have hitems : unmanaged registry env tables = .ok _ := unmanaged_ok h
  unfold findUnmanaged
  rw [hitems]
  by_cases hnamed : token ≠ ""
  · obtain ⟨found, hfound⟩ := firstTokened_ok fun item hitem =>
      unmanaged_tokens h hitems item (List.mem_filter.mp hitem).1
    exact ⟨found, by simpa [bind, Except.bind, hnamed] using hfound⟩
  · exact ⟨_, by simp [bind, Except.bind, hnamed]; rfl⟩

/-! ## One adoption -/

/-- What adopting does to the tables: declarations are added, nothing else of them moves,
and what was adopted is no longer left out. -/
structure Adopts (before : Tables) (adopted : List Adopted) (after : Tables) : Prop where
  later : Later before.db after.db
  operations : after.db.operations = before.db.operations
  inventories : after.db.inventories = before.db.inventories
  connections : after.connections = before.connections
  declared : before.db.declarations ⊆ after.db.declarations
  fresh : ∀ declaration ∈ after.db.declarations,
    declaration ∈ before.db.declarations ∨ before.db.serial ≤ declaration.id
  letIn : ∀ row, row ∈ after.notManaged ↔
    row ∈ before.notManaged ∧ ∀ taken ∈ adopted, (⟨taken.kind, taken.token⟩ : NotManaged) ≠ row

theorem Adopts.refl (tables : Tables) : Adopts tables [] tables :=
  ⟨Later.refl _, rfl, rfl, rfl, List.Subset.refl _, fun _ hmem => Or.inl hmem, by simp⟩

theorem Adopts.trans {first second third : Tables} {some others : List Adopted}
    (h : Adopts first some second) (hnext : Adopts second others third) :
    Adopts first (some ++ others) third := by
  refine ⟨h.later.trans hnext.later, hnext.operations.trans h.operations,
    hnext.inventories.trans h.inventories, hnext.connections.trans h.connections,
    List.Subset.trans h.declared hnext.declared, fun declaration hmem => ?_, fun row => ?_⟩
  · rcases hnext.fresh declaration hmem with hold | hnew
    · exact h.fresh declaration hold
    · exact Or.inr (h.later.serial.trans hnew)
  · rw [hnext.letIn, h.letIn]
    simp only [List.mem_append]
    constructor
    · rintro ⟨⟨hmem, hsome⟩, hothers⟩
      exact ⟨hmem, fun taken htaken => htaken.elim (hsome taken) (hothers taken)⟩
    · rintro ⟨hmem, hall⟩
      exact ⟨⟨hmem, fun taken htaken => hall taken (Or.inl htaken)⟩,
        fun taken htaken => hall taken (Or.inr htaken)⟩

theorem mem_letIn {kind token : String} {rows : List NotManaged} {row : NotManaged} :
    row ∈ letIn kind token rows ↔ row ∈ rows ∧ (⟨kind, token⟩ : NotManaged) ≠ row := by
  obtain ⟨rowKind, rowToken⟩ := row
  simp only [letIn, Table.mem_delete, Bool.and_eq_false_iff, beq_eq_false_iff_ne, ne_eq,
    NotManaged.mk.injEq, not_and, and_congr_right_iff]
  intro _
  constructor
  · rintro (hkind | htoken) hsame hother
    · exact hkind hsame.symm
    · exact htoken hother.symm
  · intro hne
    by_cases hkind : rowKind = kind
    · exact Or.inr fun htoken => hne hkind.symm htoken.symm
    · exact Or.inl hkind

/-- The declaration an adoption saves: new, of the record's kind, and nothing queued for it. -/
theorem adoptedSave {command : ManagedResourceCommand} {db stored : Database}
    {prepared : PreparedSave} (hsound : db.Sound)
    (h : saveManagedResource env now ⟨command, principal, none, none, true, none⟩ db =
      .ok (prepared, stored)) :
    stored.operations = db.operations ∧ stored.inventories = db.inventories ∧
      stored.declarations = db.declarations ++ [prepared.resource.declaration] ∧
      prepared.resource.id = db.serial ∧ prepared.resource.kind = command.kind ∧
      env.validateSpec command.kind command.spec = .ok prepared.resource.spec := by
  have hdeclarations := save_declarations hsound h
  obtain ⟨inner, hprepare, h⟩ := exists_of_bind_eq_ok h
  obtain ⟨resource, validated, hstart, hvalidated, rfl⟩ := exists_declared_of_prepareSave hprepare
  cases hstart
  obtain ⟨moved, hmoved, h⟩ := exists_of_bind_eq_ok h
  obtain ⟨applied, happlied, h⟩ := exists_of_bind_eq_ok h
  cases h
  have hsame : moved = stored := by
    simpa [applyAfter] using happlied
  subst hsame
  have hframe : moved.operations = db.operations ∧ moved.inventories = db.inventories := by
    unfold advanceAfter at hmoved
    split_ifs at hmoved
    · obtain ⟨hoperations, hinventories, -⟩ := advanceRows_frame hmoved
      exact ⟨hoperations, hinventories⟩
    · cases hmoved
      exact ⟨rfl, rfl⟩
  refine ⟨hframe.1, hframe.2, ?_, rfl, rfl, hvalidated⟩
  rw [hdeclarations]
  unfold Database.declarations
  rw [writeSaved_resources]
  simp [declared]

/-- What preparing the save of an adoption raises is a refusal. -/
theorem adoptedPrepare_refuses {command : ManagedResourceCommand} {db : Database} {raised : Raised}
    (hvalidates : Validates registry env)
    (h : prepareSave env now ⟨command, principal, none, none, true, none⟩ db = .error raised) :
    isRefusal raised = true := by
  rcases error_of_bind_eq_error h with h | ⟨resource, hstart, h⟩
  · cases h
  cases hstart
  simp only [Bool.not_true, Bool.false_eq_true, if_false] at h
  split_ifs at h with hwithheld
  · cases h
    rfl
  · rcases error_of_bind_eq_error h with h | ⟨validated, -, h⟩
    · exact hvalidates.refuses _ _ _ h
    · rcases error_of_bind_eq_error h with h | ⟨passed, -, h⟩
      · obtain ⟨text, rfl⟩ := fullClean_error h
        rfl
      · cases h

/-- What the save of an adoption raises is a refusal. -/
theorem adoptedSave_refuses {command : ManagedResourceCommand} {db : Database} {raised : Raised}
    (hvalidates : Validates registry env)
    (h : saveManagedResource env now ⟨command, principal, none, none, true, none⟩ db = .error raised) :
    isRefusal raised = true := by
  rcases error_of_bind_eq_error h with h | ⟨prepared, -, h⟩
  · exact adoptedPrepare_refuses hvalidates h
  rcases error_of_bind_eq_error h with h | ⟨moved, -, h⟩
  · unfold advanceAfter at h
    split_ifs at h
    obtain ⟨text, rfl⟩ := advanceRows_error h
    rfl
  · rcases error_of_bind_eq_error h with h | ⟨applied, -, h⟩
    · unfold applyAfter at h
      split_ifs at h with happlies
      simp at happlies
    · cases h

theorem recordAsObserved_declarations (now : Moment) (key : String) (spec : Json) (db : Database) :
    (recordAsObserved now key spec db).declarations = db.declarations :=
  Table.map_update ManagedResource.declaration fun _ _ _ => rfl

theorem recordAsObserved_sound_later (now : Moment) {db : Database} (hsound : db.Sound) (key : String) (spec : Json) :
    (recordAsObserved now key spec db).Sound ∧ Later db (recordAsObserved now key spec db) := by
  have hbecomes : ∀ row ∈ db.resources, (row.key == key) = true →
      row.Becomes { row with
        observedGeneration := row.generation
        lastObservedAt := some now
        status := spec
        conditions := stamped row.conditions
          [⟨"Ready", true, "Adopted", "Added to HQ from what was live.", none⟩] now } :=
    fun row _ _ => ⟨rfl, le_refl _, le_refl _⟩
  exact ⟨hsound.updateResources hbecomes, Later.updateResources hbecomes⟩

theorem Readable.of_declarations {db stored : Database} (h : Readable registry db)
    (hinventories : stored.inventories = db.inventories)
    (hdeclared : ∀ declaration ∈ stored.declarations, declaration ∈ db.declarations ∨
      registry.Named declaration.kind declaration.spec) : Readable registry stored := by
  refine ⟨fun declaration hmem => ?_, fun snapshot hsnapshot => ?_⟩
  · rcases hdeclared declaration hmem with hold | hnamed
    · exact h.declared declaration hold
    · exact hnamed
  · rw [hinventories] at hsnapshot
    exact h.records snapshot hsnapshot

/-- What was adopted: a record found, read through a connection that manages. -/
def Adopted.FoundIn (adopted : Adopted) (registry : Registry) (env : Environment) (tables : Tables) : Prop :=
  ∃ item ∈ foundRecords registry env tables, item.kind = adopted.kind ∧
    item.token registry = .ok adopted.token ∧ item.observedOnly = false

/-- Declaring what was found, taken apart. -/
theorem declareFound_adopts {key : String} {found : Unmanaged} {before after : Tables}
    {adopted : Adopted} (hsound : before.db.Sound)
    (h : declareFound registry env now principal key found before = .ok (adopted, after)) :
    after.db.Sound ∧ Adopts before [adopted] after ∧ adopted.kind = found.kind ∧
      found.token registry = .ok adopted.token := by
  obtain ⟨⟨prepared, stored⟩, hsaved, h⟩ := exists_of_bind_eq_ok h
  obtain ⟨token, htoken, h⟩ := exists_of_bind_eq_ok h
  cases h
  obtain ⟨hoperations, hinventories, hdeclarations, hid, -, -⟩ := adoptedSave hsound hsaved
  obtain ⟨hstored, hlater⟩ := (saveManagedResource_transaction hsound hsaved).sound_later hsound
  obtain ⟨hobserved, hobservedLater⟩ := recordAsObserved_sound_later now hstored
    prepared.resource.key found.spec
  have hsame := recordAsObserved_declarations now prepared.resource.key found.spec stored
  refine ⟨hobserved, ⟨hlater.trans hobservedLater, hoperations, hinventories, rfl, ?_, ?_, ?_⟩, rfl,
    htoken⟩
  · rw [hsame, hdeclarations]
    exact List.subset_append_left _ _
  · intro declaration hdeclared
    rw [hsame, hdeclarations] at hdeclared
    rcases List.mem_append.mp hdeclared with hold | hnew
    · exact Or.inl hold
    · obtain rfl := List.mem_singleton.mp hnew
      exact Or.inr hid.ge
  · intro row
    rw [mem_letIn]
    simp

/-- What is declared passes its check and can be read. -/
theorem declareFound_sound (hchecks : env.Checks check) (hvalidates : Validates registry env)
    {key : String} {found : Unmanaged} {before after : Tables} {adopted : Adopted}
    (hsound : before.Sound registry check)
    (h : declareFound registry env now principal key found before = .ok (adopted, after)) :
    after.Sound registry check := by
  obtain ⟨⟨prepared, stored⟩, hsaved, h⟩ := exists_of_bind_eq_ok h
  obtain ⟨token, -, h⟩ := exists_of_bind_eq_ok h
  cases h
  obtain ⟨-, hinventories, hdeclarations, -, hkind, hvalidated⟩ := adoptedSave hsound.rows hsaved
  obtain ⟨hstored, -⟩ := (saveManagedResource_transaction hsound.rows hsaved).sound_later
    hsound.rows
  obtain ⟨hobserved, hobservedLater⟩ := recordAsObserved_sound_later now hstored
    prepared.resource.key found.spec
  have htidy := save_tidy hchecks hsound.rows hsound.tidy hsaved
  have hsame := recordAsObserved_declarations now prepared.resource.key found.spec stored
  have hauthored : AsAuthored stored (recordAsObserved now prepared.resource.key found.spec stored) := by
    rw [AsAuthored, hsame]
    exact List.Subset.refl _
  refine ⟨hobserved, htidy.later hstored hauthored hobservedLater, ?_⟩
  refine hsound.readable.of_declarations hinventories fun declaration hdeclared => ?_
  rw [hsame, hdeclarations] at hdeclared
  rcases List.mem_append.mp hdeclared with hold | hnew
  · exact Or.inl hold
  · obtain rfl := List.mem_singleton.mp hnew
    have hnamed := hvalidates.named _ _ _ hvalidated
    have hresource : prepared.resource.kind = found.kind := hkind
    exact Or.inr (by simpa [ManagedResource.declaration, hresource] using hnamed)

/-- An adoption declares a record it found, of the kind and under the token it was asked. -/
theorem adopt_eq_ok {command : AdoptCommand} {before after : Tables} {adopted : Adopted}
    (h : adopt registry env now principal command before = .ok (adopted, after)) :
    ∃ found ∈ foundRecords registry env before, found.kind = command.kind ∧
      found.observedOnly = false ∧
      (command.token ≠ "" → found.token registry = .ok command.token) ∧
      declareFound registry env now principal (command.keyFor registry before.db found) found
        before = .ok (adopted, after) := by
  obtain ⟨looked, hlooked, h⟩ := exists_of_bind_eq_ok h
  cases looked with
  | none => cases h
  | some found =>
      by_cases hgap : gapOf registry found.kind ≠ ""
      · simp only [if_pos hgap] at h
        cases h
      by_cases hobserved : found.observedOnly = true
      · simp only [if_neg hgap, if_pos hobserved] at h
        cases h
      · simp only [if_neg hgap, if_neg hobserved] at h
        obtain ⟨hfound, hkind, hgiven⟩ := findUnmanaged_spec hlooked
        exact ⟨found, hfound, hkind, by simpa using hobserved, hgiven, h⟩

/-- An adoption, taken apart. -/
theorem adopt_adopts {command : AdoptCommand} {before after : Tables} {adopted : Adopted}
    (hsound : before.db.Sound)
    (h : adopt registry env now principal command before = .ok (adopted, after)) :
    after.db.Sound ∧ Adopts before [adopted] after ∧ adopted.FoundIn registry env before ∧
      adopted.kind = command.kind ∧ (command.token ≠ "" → adopted.token = command.token) := by
  obtain ⟨found, hfound, hkind, hobserved, hgiven, h⟩ := adopt_eq_ok h
  obtain ⟨hafter, hadopts, hadopted, htoken⟩ := declareFound_adopts hsound h
  refine ⟨hafter, hadopts, ⟨found, hfound, hadopted.symm, htoken, hobserved⟩,
    hadopted.trans hkind, fun hnamed => ?_⟩
  have hasked := hgiven hnamed
  rw [htoken] at hasked
  exact Except.ok.inj hasked

/-- What every adoption keeps of the tables, their rows' soundness with it. -/
structure Keeps (registry : Registry) (env : Environment) (now : Moment) (inv : Tables → Prop) :
    Prop where
  rows : ∀ tables, inv tables → tables.db.Sound
  adopt : ∀ principal command before adopted after, inv before →
    adopt registry env now principal command before = .ok (adopted, after) → inv after

theorem keeps_rows : Keeps registry env now fun tables => tables.db.Sound :=
  ⟨fun _ h => h, fun _ _ _ _ _ hsound h => (adopt_adopts hsound h).1⟩

theorem keeps_sound (hchecks : env.Checks check) (hvalidates : Validates registry env) :
    Keeps registry env now (Tables.Sound registry check) where
  rows := fun _ h => h.rows
  adopt := fun _ _ _ _ _ hsound h => by
    obtain ⟨_, -, -, -, -, h⟩ := adopt_eq_ok h
    exact declareFound_sound hchecks hvalidates hsound h

/-- What an adoption over readable tables raises is a refusal. -/
theorem adopt_refuses (hvalidates : Validates registry env) {command : AdoptCommand}
    {before : Tables} {raised : Raised} (hreadable : Readable registry before.db)
    (h : adopt registry env now principal command before = .error raised) :
    isRefusal raised = true := by
  obtain ⟨found, hfound⟩ := findUnmanaged_ok env hreadable command.kind command.hostname command.token
  rcases error_of_bind_eq_error h with h | ⟨looked, hlooked, h⟩
  · rw [hfound] at h
    cases h
  · cases looked with
    | none =>
        cases h
        rfl
    | some item =>
        by_cases hgap : gapOf registry item.kind ≠ ""
        · simp only [if_pos hgap] at h
          cases h
          rfl
        by_cases hobserved : item.observedOnly = true
        · simp only [if_neg hgap, if_pos hobserved] at h
          cases h
          rfl
        · simp only [if_neg hgap, if_neg hobserved] at h
          rcases error_of_bind_eq_error h with h | ⟨⟨prepared, stored⟩, -, h⟩
          · exact adoptedSave_refuses hvalidates h
          · obtain ⟨token, htoken⟩ := token_ok hreadable (findUnmanaged_spec hlooked).1
            dsimp only at h
            rw [htoken] at h
            cases h

/-! ## The loops -/

/-- A declared identity stays declared while others are added. -/
theorem Adopts.declared_identities {before after : Tables} {adopted : List Adopted}
    (h : Adopts before adopted after) :
    declaredIdentities registry before.db ⊆ declaredIdentities registry after.db := by
  intro entry hentry
  obtain ⟨row, hrow, rfl⟩ := List.mem_map.mp hentry
  obtain ⟨hmem, hknown⟩ := List.mem_filter.mp hrow
  obtain ⟨other, hother, hsame⟩ := List.mem_map.mp (h.declared (List.mem_map_of_mem hmem))
  obtain ⟨-, -, hkind, hspec, -⟩ := Declaration.mk.inj hsame
  rw [← hkind, ← hspec]
  exact List.mem_map_of_mem (List.mem_filter.mpr ⟨hother, by simpa [hkind] using hknown⟩)

/-- What is found later was found before: adopting only takes from it. -/
theorem Adopts.found_records {before after : Tables} {adopted : List Adopted}
    (h : Adopts before adopted after) :
    foundRecords registry env after ⊆ foundRecords registry env before := by
  intro item hitem
  obtain ⟨snapshot, hsnapshot, provider, hprovider, record, hrecord, hfound⟩ :=
    mem_foundRecords.mp hitem
  refine mem_foundRecords.mpr ⟨snapshot, h.inventories ▸ hsnapshot, provider, hprovider, record,
    hrecord, ?_⟩
  unfold foundRecord at hfound ⊢
  obtain ⟨spec, hspec, hfound⟩ := Option.bind_eq_some_iff.mp hfound
  refine Option.bind_eq_some_iff.mpr ⟨spec, hspec, ?_⟩
  rw [h.connections] at hfound
  dsimp only at hfound ⊢
  split_ifs at hfound with hknown
  have hfree : ¬((registry.recordIdentity snapshot.kind spec).isEmpty ||
      (declaredIdentities registry before.db).contains
        (snapshot.kind, registry.recordIdentity snapshot.kind spec)) = true := by
    simp only [Bool.or_eq_true, not_or, List.contains_iff_mem] at hknown ⊢
    exact ⟨hknown.1, fun hdeclared => hknown.2 (h.declared_identities hdeclared)⟩
  rw [if_neg hfree]
  exact hfound

section Loops

variable {inv : Tables → Prop} (hkeeps : Keeps registry env now inv)

include hkeeps in
/-- Adopting a kind goes past what was left out when it began. -/
theorem adoptEach_adopts {kind : String} {excluded : List NotManaged} {items : List Unmanaged}
    {before after : Tables} {adopted : List Adopted} (hsound : inv before)
    (h : adoptEach registry env now kind excluded items before = .ok (adopted, after)) :
    inv after ∧ Adopts before adopted after ∧
      ∀ taken ∈ adopted, (⟨taken.kind, taken.token⟩ : NotManaged) ∉ excluded := by
  induction items generalizing before after adopted with
  | nil =>
      cases h
      exact ⟨hsound, .refl _, by simp⟩
  | cons item items ih =>
      rw [adoptEach] at h
      split_ifs at h
      · exact ih hsound h
      · obtain ⟨token, htoken, h⟩ := exists_of_bind_eq_ok h
        dsimp only at h
        split_ifs at h with hexcluded
        · exact ih hsound h
        · split at h
          · next taken stored htaken =>
              obtain ⟨⟨others, final⟩, hothers, h⟩ := exists_of_bind_eq_ok h
              cases h
              obtain ⟨-, hadopts, -, hkind, hgiven⟩ :=
                adopt_adopts (hkeeps.rows _ hsound) htaken
              have hstored := hkeeps.adopt _ _ _ _ _ hsound htaken
              obtain ⟨hfinal, hlater, hpast⟩ := ih hstored hothers
              refine ⟨hfinal, hadopts.trans hlater, fun one hone => ?_⟩
              rcases List.mem_cons.mp hone with rfl | hmem
              · rw [hkind, hgiven (registry.token_ne htoken)]
                simpa [List.contains_iff_mem] using hexcluded
              · exact hpast one hmem
          · split_ifs at h
            exact ih hsound h

variable (hchecks : env.Checks check) (hvalidates : Validates registry env)

include hchecks hvalidates in
theorem adoptEach_ok {kind : String} {excluded : List NotManaged} {items : List Unmanaged}
    {before : Tables} (hsound : before.Sound registry check)
    (htokens : ∀ item ∈ items, ∃ token, item.token registry = .ok token) :
    ∃ result, adoptEach registry env now kind excluded items before = .ok result := by
  induction items generalizing before with
  | nil => exact ⟨_, rfl⟩
  | cons item items ih =>
      have hrest : ∀ other ∈ items, ∃ token, other.token registry = .ok token :=
        fun other hother => htokens other (List.mem_cons_of_mem item hother)
      obtain ⟨token, htoken⟩ := htokens item List.mem_cons_self
      rw [adoptEach, htoken]
      split_ifs
      · exact ih hsound hrest
      · simp only [bind, Except.bind]
        split_ifs
        · exact ih hsound hrest
        · cases htaken : adopt registry env now controllerPrincipal ⟨item.kind, "", "", token⟩ before with
          | error raised =>
              simp only [adopt_refuses hvalidates hsound.readable htaken, if_true]
              exact ih hsound hrest
          | ok taken =>
              obtain ⟨adopted, stored⟩ := taken
              have hstored := (keeps_sound hchecks hvalidates).adopt _ _ _ _ _ hsound htaken
              obtain ⟨result, hresult⟩ := ih hstored hrest
              exact ⟨_, by simp only [hresult]; rfl⟩

include hkeeps in
theorem adoptKinds_adopts {kinds : List String} {before after : Tables} {adopted : List Adopted}
    (hsound : inv before)
    (h : adoptKinds registry env now kinds before = .ok (adopted, after)) :
    inv after ∧ Adopts before adopted after ∧
      ∀ taken ∈ adopted, (⟨taken.kind, taken.token⟩ : NotManaged) ∉ before.notManaged := by
  induction kinds generalizing before after adopted with
  | nil =>
      cases h
      exact ⟨hsound, .refl _, by simp⟩
  | cons kind kinds ih =>
      obtain ⟨⟨first, stored⟩, hfirst, h⟩ := exists_of_bind_eq_ok h
      obtain ⟨⟨others, final⟩, hothers, h⟩ := exists_of_bind_eq_ok h
      cases h
      obtain ⟨items, -, hfirst⟩ := exists_of_bind_eq_ok hfirst
      obtain ⟨hstored, hadopts, hpast⟩ := adoptEach_adopts hkeeps hsound hfirst
      obtain ⟨hfinal, hlater, hrest⟩ := ih hstored hothers
      refine ⟨hfinal, hadopts.trans hlater, fun taken htaken hout => ?_⟩
      rcases List.mem_append.mp htaken with hone | hother
      · exact hpast taken hone hout
      · -- A row the first kind let in is none that a later kind may not adopt.
        by_cases hlet : ∀ other ∈ first, (⟨other.kind, other.token⟩ : NotManaged) ≠
            ⟨taken.kind, taken.token⟩
        · exact hrest taken hother ((hadopts.letIn _).mpr ⟨hout, hlet⟩)
        · push Not at hlet
          obtain ⟨other, hmem, hsame⟩ := hlet
          exact hpast other hmem (hsame ▸ hout)

include hchecks hvalidates in
theorem adoptKinds_ok {kinds : List String} {before : Tables} (hsound : before.Sound registry check) :
    ∃ result, adoptKinds registry env now kinds before = .ok result := by
  induction kinds generalizing before with
  | nil => exact ⟨_, rfl⟩
  | cons kind kinds ih =>
      have hitems : unmanaged registry env before = .ok _ := unmanaged_ok hsound.readable
      have hdiscovered : ∃ taken, adoptDiscovered registry env now kind before = .ok taken := by
        rw [adoptDiscovered, hitems]
        exact adoptEach_ok hchecks hvalidates hsound (unmanaged_tokens hsound.readable hitems)
      obtain ⟨⟨first, stored⟩, hfirst⟩ := hdiscovered
      obtain ⟨items, -, htaken⟩ := exists_of_bind_eq_ok hfirst
      obtain ⟨result, hresult⟩ := ih
        (adoptEach_adopts (keeps_sound hchecks hvalidates) hsound htaken).1
      refine ⟨(first ++ result.1, result.2), ?_⟩
      rw [adoptKinds, hfirst]
      simp only [bind, Except.bind, hresult, pure, Except.pure]

include hkeeps in
/-- The records of one domain are adopted by their tokens. -/
theorem adoptTokened_adopts {items : List Unmanaged} {before after : Tables} {adopted : List Adopted}
    (hsound : inv before)
    (h : adoptTokened registry env now principal items before = .ok (adopted, after)) :
    inv after ∧ Adopts before adopted after ∧
      ∀ taken ∈ adopted, taken.kind = recordKind ∧
        ∃ item ∈ items, item.token registry = .ok taken.token := by
  induction items generalizing before after adopted with
  | nil =>
      cases h
      exact ⟨hsound, .refl _, by simp⟩
  | cons item items ih =>
      obtain ⟨token, htoken, h⟩ := exists_of_bind_eq_ok h
      obtain ⟨⟨taken, stored⟩, htaken, h⟩ := exists_of_bind_eq_ok h
      obtain ⟨⟨others, final⟩, hothers, h⟩ := exists_of_bind_eq_ok h
      cases h
      obtain ⟨-, hadopts, -, hkind, hgiven⟩ := adopt_adopts (hkeeps.rows _ hsound) htaken
      obtain ⟨hfinal, hlater, hrest⟩ := ih (hkeeps.adopt _ _ _ _ _ hsound htaken) hothers
      refine ⟨hfinal, hadopts.trans hlater, fun one hone => ?_⟩
      rcases List.mem_cons.mp hone with rfl | hmem
      · refine ⟨hkind, item, List.mem_cons_self, ?_⟩
        rw [hgiven (registry.token_ne htoken)]
        exact htoken
      · obtain ⟨hrecord, other, hother, hread⟩ := hrest one hmem
        exact ⟨hrecord, other, List.mem_cons_of_mem item hother, hread⟩

include hchecks hvalidates in
theorem adoptTokened_refuses {items : List Unmanaged} {before : Tables} {raised : Raised}
    (hsound : before.Sound registry check)
    (htokens : ∀ item ∈ items, ∃ token, item.token registry = .ok token)
    (h : adoptTokened registry env now principal items before = .error raised) :
    isRefusal raised = true := by
  induction items generalizing before with
  | nil => cases h
  | cons item items ih =>
      obtain ⟨token, htoken⟩ := htokens item List.mem_cons_self
      rcases error_of_bind_eq_error h with h | ⟨read, -, h⟩
      · rw [htoken] at h
        cases h
      rcases error_of_bind_eq_error h with h | ⟨⟨taken, stored⟩, htaken, h⟩
      · exact adopt_refuses hvalidates hsound.readable h
      · rcases error_of_bind_eq_error h with h | ⟨others, -, h⟩
        · exact ih ((keeps_sound hchecks hvalidates).adopt _ _ _ _ _ hsound htaken)
            (fun other hother => htokens other (List.mem_cons_of_mem item hother)) h
        · cases h

include hkeeps in
/-- The records of a domain are adopted, each of them adoptable when the call began. -/
theorem adoptZoneRecords_adopts {zone : String} {before after : Tables} {adopted : List Adopted}
    (hsound : inv before)
    (h : adoptZoneRecords registry env now principal zone before = .ok (adopted, after)) :
    inv after ∧ Adopts before adopted after ∧
      ∀ taken ∈ adopted, taken.kind = recordKind ∧
        ∃ item ∈ zoneAdoptable registry env zone (foundRecords registry env before),
          item.token registry = .ok taken.token := by
  obtain ⟨items, hitems, h⟩ := exists_of_bind_eq_ok h
  split_ifs at h
  obtain ⟨hafter, hadopts, htaken⟩ := adoptTokened_adopts hkeeps hsound h
  refine ⟨hafter, hadopts, fun taken hmem => ?_⟩
  obtain ⟨hkind, item, hitem, htoken⟩ := htaken taken hmem
  obtain ⟨hlisted, hadoptable⟩ := List.mem_filter.mp hitem
  exact ⟨hkind, item, List.mem_filter.mpr ⟨(mem_unmanaged hitems).mp hlisted, hadoptable⟩, htoken⟩

include hchecks hvalidates in
theorem adoptZoneRecords_refuses {zone : String} {before : Tables} {raised : Raised}
    (hsound : before.Sound registry check)
    (h : adoptZoneRecords registry env now principal zone before = .error raised) :
    isRefusal raised = true := by
  have hitems : unmanaged registry env before = .ok _ := unmanaged_ok hsound.readable
  rcases error_of_bind_eq_error h with h | ⟨items, hread, h⟩
  · rw [hitems] at h
    cases h
  · split_ifs at h
    · cases h
      rfl
    · exact adoptTokened_refuses hchecks hvalidates hsound (fun item hitem =>
        unmanaged_tokens hsound.readable hread item (List.mem_filter.mp hitem).1) h

include hkeeps in
/-- What adopting by domain takes was adoptable in one of the domains when it began. -/
theorem adoptZones_adopts {items : List Unmanaged} {zones : List String} {before after : Tables}
    {adopted : List Adopted} (hsound : inv before)
    (h : adoptZones registry env now items zones before = .ok (adopted, after)) :
    inv after ∧ Adopts before adopted after ∧
      ∀ taken ∈ adopted, taken.kind = recordKind ∧
        ∃ zone ∈ zones, ∃ item ∈ zoneAdoptable registry env zone (foundRecords registry env before),
          item.token registry = .ok taken.token := by
  induction zones generalizing before after adopted with
  | nil =>
      cases h
      exact ⟨hsound, .refl _, by simp⟩
  | cons zone zones ih =>
      have hskip : ∀ {final : Tables} {others : List Adopted},
          adoptZones registry env now items zones before = .ok (others, final) →
          inv final ∧ Adopts before others final ∧
            ∀ taken ∈ others, taken.kind = recordKind ∧
              ∃ one ∈ zone :: zones, ∃ item ∈ zoneAdoptable registry env one
                (foundRecords registry env before), item.token registry = .ok taken.token := by
        intro final others hothers
        obtain ⟨hfinal, hadopts, htaken⟩ := ih hsound hothers
        refine ⟨hfinal, hadopts, fun taken hmem => ?_⟩
        obtain ⟨hkind, other, hother, hitem⟩ := htaken taken hmem
        exact ⟨hkind, other, List.mem_cons_of_mem zone hother, hitem⟩
      rw [adoptZones] at h
      split_ifs at h
      · exact hskip h
      · split at h
        · next first stored hfirst =>
            obtain ⟨⟨others, final⟩, hothers, h⟩ := exists_of_bind_eq_ok h
            cases h
            obtain ⟨hstored, hadopts, htaken⟩ := adoptZoneRecords_adopts hkeeps hsound hfirst
            obtain ⟨hfinal, hlater, hrest⟩ := ih hstored hothers
            refine ⟨hfinal, hadopts.trans hlater, fun taken hmem => ?_⟩
            rcases List.mem_append.mp hmem with hone | hother
            · obtain ⟨hkind, hitem⟩ := htaken taken hone
              exact ⟨hkind, zone, List.mem_cons_self, hitem⟩
            · obtain ⟨hkind, one, hzone, item, hitem, htoken⟩ := hrest taken hother
              obtain ⟨hlisted, hadoptable⟩ := List.mem_filter.mp hitem
              exact ⟨hkind, one, List.mem_cons_of_mem zone hzone, item,
                List.mem_filter.mpr ⟨hadopts.found_records hlisted, hadoptable⟩, htoken⟩
        · split_ifs at h
          exact hskip h

include hchecks hvalidates in
theorem adoptZones_ok {items : List Unmanaged} {zones : List String} {before : Tables}
    (hsound : before.Sound registry check) :
    ∃ result, adoptZones registry env now items zones before = .ok result := by
  induction zones generalizing before with
  | nil => exact ⟨_, rfl⟩
  | cons zone zones ih =>
      rw [adoptZones]
      split_ifs
      · exact ih hsound
      · cases hfirst : adoptZoneRecords registry env now controllerPrincipal zone before with
        | error raised =>
            simp only [adoptZoneRecords_refuses hchecks hvalidates hsound hfirst, if_true]
            exact ih hsound
        | ok taken =>
            obtain ⟨adopted, stored⟩ := taken
            obtain ⟨result, hresult⟩ := ih
              (adoptZoneRecords_adopts (keeps_sound hchecks hvalidates) hsound hfirst).1
            exact ⟨_, by simp only [hresult]; rfl⟩

end Loops

end Lemmas

end SeverinoHQ.Inventory
