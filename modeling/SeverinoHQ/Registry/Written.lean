/-
# What an import writes

An import whose document has no problem writes every planned record, one after the other, each
under its own slug, so what one leaves is left by those after it. Any other is refused before it
writes.
-/

import SeverinoHQ.Math.Fallible
import SeverinoHQ.Registry.Planned

namespace SeverinoHQ.Registry

open SeverinoHQ.Math

/-! ## The plan of a document -/

section Document

variable {Field Link : Type} [DecidableEq Field] {kind : Kind Field Link} {host : Host}
  {existing : Rows Field Link} {known seen : List String} {records : List (Imported Field Link)}
  {record : Imported Field Link}

/-- The slugs that records name. -/
def slugsOf (records : List (Imported Field Link)) : List String :=
  records.map fun record => strippedSlug record.slug

/-- The row a record is laid over. -/
def rowOf (existing : Rows Field Link) (record : Imported Field Link) : Option (Row Field Link) :=
  existing.get? (strippedSlug record.slug)

/-- What is planned for a record that is taken. -/
def planOf (kind : Kind Field Link) (host : Host) (existing : Rows Field Link)
    (record : Imported Field Link) (index : Nat) : Planned Field Link where
  index := index
  slug := strippedSlug record.slug
  command := commandOf kind record (strippedSlug record.slug) (rowOf existing record)
  outcome := outcomeOf kind (commandOf kind record (strippedSlug record.slug) (rowOf existing record))
    ((rowOf existing record).map (stored (strippedSlug record.slug)))
  kept := keepDerived kind host record
    ((rowOf existing record).map (stored (strippedSlug record.slug)))

/-- What is planned for records that are taken, in their order. -/
def plansOf (kind : Kind Field Link) (host : Host) (existing : Rows Field Link)
    (records : List (Imported Field Link)) (index : Nat) : List (Planned Field Link) :=
  (records.zipIdx index).map fun entry => planOf kind host existing entry.1 entry.2

/-- Every record has a slug of its own, and is taken. -/
structure AllTaken (kind : Kind Field Link) (host : Host) (existing : Rows Field Link)
    (known seen : List String) (records : List (Imported Field Link)) : Prop where
  slugs : (slugsOf records).Nodup
  own : ∀ slug ∈ slugsOf records, slug ≠ "" ∧ slug ∉ seen
  taken : ∀ record ∈ records,
    Taken kind host known record (strippedSlug record.slug) (rowOf existing record)

theorem slugErrors_eq_nil_iff (slug : String) (seen : List String) :
    slugErrors slug seen = [] ↔ slug ≠ "" ∧ slug ∉ seen := by
  rw [slugErrors]
  split
  · next hempty => simp [hempty]
  · next hne => split <;> simp_all

theorem allTaken_cons_iff :
    AllTaken kind host existing known seen (record :: records) ↔
      (strippedSlug record.slug ≠ "" ∧ strippedSlug record.slug ∉ seen) ∧
        Taken kind host known record (strippedSlug record.slug) (rowOf existing record) ∧
        AllTaken kind host existing known (strippedSlug record.slug :: seen) records := by
  constructor
  · intro h
    have hslugs := h.slugs
    rw [slugsOf, List.map_cons, List.nodup_cons] at hslugs
    obtain ⟨hfirst, hown⟩ := List.forall_mem_cons.mp h.own
    obtain ⟨htaken, hrest⟩ := List.forall_mem_cons.mp h.taken
    refine ⟨hfirst, htaken, hslugs.2, fun slug hslug => ⟨(hown slug hslug).1, ?_⟩, hrest⟩
    rw [List.mem_cons, not_or]
    exact ⟨fun hsame => hslugs.1 (hsame ▸ hslug), (hown slug hslug).2⟩
  · rintro ⟨hfirst, htaken, h⟩
    constructor
    · rw [slugsOf, List.map_cons, List.nodup_cons]
      refine ⟨fun hmem => ?_, h.slugs⟩
      exact (h.own _ hmem).2 List.mem_cons_self
    · rw [slugsOf, List.map_cons, List.forall_mem_cons]
      refine ⟨hfirst, fun slug hslug => ⟨(h.own slug hslug).1, fun hseen => ?_⟩⟩
      exact (h.own slug hslug).2 (List.mem_cons_of_mem _ hseen)
    · exact List.forall_mem_cons.mpr ⟨htaken, h.taken⟩

/-- A document has no problem exactly when every record is taken. -/
theorem planFrom_problems_iff (index : Nat) :
    (planFrom kind host existing known index seen records).2 = [] ↔
      AllTaken kind host existing known seen records := by
  induction records generalizing index seen with
  | nil =>
      simp only [planFrom, true_iff]
      exact ⟨List.nodup_nil, nofun, nofun⟩
  | cons record records ih =>
      rw [allTaken_cons_iff, ← slugErrors_eq_nil_iff, ← ih (index + 1), planFrom]
      dsimp only
      split
      · next hslug =>
          split
          · next plan hplan =>
              obtain ⟨htaken, -⟩ := (planRecord_eq_ok_iff index).mp hplan
              exact ⟨fun h => ⟨hslug, htaken, h⟩, fun h => h.2.2⟩
          · next errors herrors =>
              refine ⟨nofun, fun h => ?_⟩
              have hok := (planRecord_eq_ok_iff index).mpr ⟨h.2.1, rfl⟩
              rw [rowOf] at hok
              rw [hok] at herrors
              exact nomatch herrors
      · next hne => exact ⟨nofun, fun h => (hne h.1).elim⟩

/-- What is planned for a document without a problem. -/
theorem planFrom_planned (index : Nat) (h : AllTaken kind host existing known seen records) :
    (planFrom kind host existing known index seen records).1 =
      plansOf kind host existing records index := by
  induction records generalizing index seen with
  | nil => rfl
  | cons record records ih =>
      obtain ⟨hslug, htaken, hrest⟩ := allTaken_cons_iff.mp h
      have hok := (planRecord_eq_ok_iff index).mpr ⟨htaken, rfl⟩
      rw [rowOf] at hok
      rw [plansOf, List.zipIdx_cons, List.map_cons, ← plansOf, ← ih (index + 1) hrest, planFrom]
      dsimp only
      rw [(slugErrors_eq_nil_iff _ _).mpr hslug, hok]
      rfl

theorem map_slug_plansOf (index : Nat) :
    (plansOf kind host existing records index).map Planned.slug = slugsOf records := by
  rw [plansOf, List.map_map]
  show (records.zipIdx index).map ((fun record => strippedSlug record.slug) ∘ Prod.fst) = _
  rw [← List.map_map, List.zipIdx_map_fst, slugsOf]

theorem mem_plansOf {index : Nat} {plan : Planned Field Link}
    (h : plan ∈ plansOf kind host existing records index) :
    ∃ record ∈ records, ∃ place, plan = planOf kind host existing record place := by
  obtain ⟨⟨record, place⟩, hentry, rfl⟩ := List.mem_map.mp h
  exact ⟨record, List.fst_mem_of_mem_zipIdx hentry, place, rfl⟩

variable (kind host existing) in
theorem exists_mem_plansOf (h : record ∈ records) (index : Nat) :
    ∃ place, planOf kind host existing record place ∈ plansOf kind host existing records index := by
  rw [← List.zipIdx_map_fst index records] at h
  obtain ⟨entry, hentry, rfl⟩ := List.mem_map.mp h
  exact ⟨entry.2, List.mem_map.mpr ⟨entry, hentry, rfl⟩⟩

theorem ready_of_taken
    (h : Taken kind host known record (strippedSlug record.slug) (rowOf existing record))
    (index : Nat) : Ready kind host known (planOf kind host existing record index) where
  slug := h.strippedSlug_eq.symm
  known := h.known
  clean := h.clean

/-- A plan that leaves its record is of one that is stored. -/
theorem isSome_leftBy (record : Imported Field Link) (index : Nat) :
    (leftBy (planOf kind host existing record index) (rowOf existing record)).isSome := by
  rw [leftBy]
  split
  · next hsame =>
      cases hrow : rowOf existing record with
      | some row => rfl
      | none =>
          rw [planOf, hrow] at hsame
          cases hsame
  · rfl

end Document

/-! ## Plans written one after the other -/

/-- Between two registries, the rows of plans became what the plans leave, and no others did. -/
structure Applied {Field Link : Type} (plans : List (Planned Field Link))
    (before after : Rows Field Link) : Prop where
  own : ∀ plan ∈ plans, after.get? plan.slug = leftBy plan (before.get? plan.slug)
  others : ∀ slug, slug ∉ plans.map Planned.slug → after.get? slug = before.get? slug

theorem Applied.cons {Field Link : Type} {plan : Planned Field Link}
    {plans : List (Planned Field Link)} {before middle after : Rows Field Link}
    (hfirst : ∀ slug, middle.get? slug =
      if slug = plan.slug then leftBy plan (before.get? slug) else before.get? slug)
    (hslug : plan.slug ∉ plans.map Planned.slug) (h : Applied plans middle after) :
    Applied (plan :: plans) before after where
  own other hother := by
    rcases List.mem_cons.mp hother with rfl | hlater
    · rw [h.others _ hslug, hfirst, if_pos rfl]
    · have hne : other.slug ≠ plan.slug := fun hsame =>
        hslug (hsame ▸ List.mem_map_of_mem hlater)
      rw [h.own other hlater, hfirst, if_neg hne]
  others slug hnot := by
    rw [List.map_cons, List.mem_cons, not_or] at hnot
    rw [h.others slug hnot.2, hfirst, if_neg hnot.1]

section Applied

variable {host : Host}

/-- Projects that can be written are, and nothing else is. -/
theorem applyProjects_spec (state : Registries) {plans : List (Planned ProjectField Empty)}
    (hready : ∀ plan ∈ plans, Ready projectKind host [] plan)
    (hslugs : (plans.map Planned.slug).Nodup) :
    ∃ after, plans.foldlM (applyProject host) state = .ok after ∧
      Applied plans state.projects after.projects ∧ after.assets = state.assets := by
  induction plans generalizing state with
  | nil => exact ⟨state, rfl, ⟨nofun, fun _ _ => rfl⟩, rfl⟩
  | cons plan plans ih =>
      obtain ⟨hplan, hready⟩ := List.forall_mem_cons.mp hready
      rw [List.map_cons, List.nodup_cons] at hslugs
      -- A project names no other record, so it is ready whichever are known.
      have hplan : Ready projectKind host state.projects.keys plan := ⟨hplan.slug, nofun, hplan.clean⟩
      obtain ⟨rows, hrows, hget⟩ := applyPlanned_of_ready hplan state.projects
      let middle : Registries := { state with
        projects := rows
        events := state.events ++ [.record "project" plan.slug plan.outcome plan.kept] }
      have hstep : applyProject host state plan = .ok middle := by
        rw [applyProject, hrows]
        rfl
      obtain ⟨after, hrun, happlied, hassets⟩ := ih middle hready hslugs.2
      refine ⟨after, ?_, happlied.cons hget hslugs.1, hassets⟩
      rw [List.foldlM_cons, hstep]
      exact hrun

/-- Assets that can be written are, and nothing else is. -/
theorem applyAssets_spec (state : Registries) {plans : List (Planned AssetField AssetLink)}
    (hready : ∀ plan ∈ plans, Ready assetKind host state.projects.keys plan)
    (hslugs : (plans.map Planned.slug).Nodup) :
    ∃ after, plans.foldlM (applyAsset host) state = .ok after ∧
      Applied plans state.assets after.assets ∧ after.projects = state.projects := by
  induction plans generalizing state with
  | nil => exact ⟨state, rfl, ⟨nofun, fun _ _ => rfl⟩, rfl⟩
  | cons plan plans ih =>
      obtain ⟨hplan, hrest⟩ := List.forall_mem_cons.mp hready
      rw [List.map_cons, List.nodup_cons] at hslugs
      obtain ⟨rows, hrows, hget⟩ := applyPlanned_of_ready hplan state.assets
      let middle : Registries := { state with
        assets := rows
        events := state.events ++ [.record "asset" plan.slug plan.outcome plan.kept] }
      have hstep : applyAsset host state plan = .ok middle := by
        rw [applyAsset, hrows]
        rfl
      obtain ⟨after, hrun, happlied, hprojects⟩ := ih middle hrest hslugs.2
      refine ⟨after, ?_, happlied.cons hget hslugs.1, hprojects⟩
      rw [List.foldlM_cons, hstep]
      exact hrun

end Applied

/-! ## The import of a document -/

/-- The document is within the limit, and no record of it has a problem. -/
structure Accepted (host : Host) (document : ImportDocument) (state : Registries) : Prop where
  limit : ¬ 1000 < document.projects.length + document.assets.length
  projects : AllTaken projectKind host state.projects [] [] document.projects
  assets : AllTaken assetKind host state.assets
    (slugsOf document.projects ++ state.projects.keys) [] document.assets

section Import

variable {host : Host} {document : ImportDocument} {state : Registries}

theorem accepted_iff : Accepted host document state ↔
    ¬ 1000 < document.projects.length + document.assets.length ∧
      (planProjects host document state).2 ++ (planAssets host document state).2 = [] := by
  have hknown : AllTaken projectKind host state.projects [] [] document.projects →
      knownProjects host document state = slugsOf document.projects ++ state.projects.keys := by
    intro h
    rw [knownProjects, planProjects, planFrom_planned 0 h, map_slug_plansOf]
  rw [List.append_eq_nil_iff, planProjects, planFrom_problems_iff, planAssets,
    planFrom_problems_iff]
  constructor
  · intro h
    exact ⟨h.limit, h.projects, by rw [hknown h.projects]; exact h.assets⟩
  · rintro ⟨hlimit, hprojects, hassets⟩
    rw [hknown hprojects] at hassets
    exact ⟨hlimit, hprojects, hassets⟩

/-- What is planned for the projects of a document without a problem. -/
def projectPlans (host : Host) (document : ImportDocument) (state : Registries) :
    List (Planned ProjectField Empty) :=
  plansOf projectKind host state.projects document.projects 0

def assetPlans (host : Host) (document : ImportDocument) (state : Registries) :
    List (Planned AssetField AssetLink) :=
  plansOf assetKind host state.assets document.assets 0

/-- What an import of a document without a problem answers. -/
def answerOf (host : Host) (document : ImportDocument) (state : Registries) (checkOnly : Bool) :
    Answer :=
  .imported checkOnly ((projectPlans host document state).map report)
    ((assetPlans host document state).map report)
    (summaryOf ((projectPlans host document state).map report ++
      (assetPlans host document state).map report))

/-- An import of a document with a problem is refused, and writes nothing. -/
theorem import_of_not_accepted (h : ¬ Accepted host document state) :
    ∃ message problems, ∀ checkOnly,
      importRegistry host document checkOnly state = (.refused message problems, state) := by
  rw [accepted_iff, not_and] at h
  simp only [importRegistry]
  split
  · exact ⟨_, _, fun _ => rfl⟩
  · next hlimit =>
      have hproblems := h hlimit
      cases hlist : (planProjects host document state).2 ++ (planAssets host document state).2 with
      | nil => exact absurd hlist hproblems
      | cons problem problems => exact ⟨_, _, fun _ => rfl⟩

/-- A key that is under a row once plans are applied was one before, or is a plan's. -/
theorem mem_keys_of_applied {Field Link : Type} [DecidableEq Field] {kind : Kind Field Link}
    {records : List (Imported Field Link)} {index : Nat} {before after : Rows Field Link}
    (h : Applied (plansOf kind host before records index) before after) (slug : String) :
    slug ∈ after.keys ↔ slug ∈ slugsOf records ∨ slug ∈ before.keys := by
  by_cases hmem : slug ∈ slugsOf records
  · simp only [hmem, true_or, iff_true]
    obtain ⟨record, hrecord, rfl⟩ := List.mem_map.mp hmem
    obtain ⟨place, hplan⟩ := exists_mem_plansOf kind host before hrecord index
    rw [Dict.mem_keys_iff]
    have hown := h.own _ hplan
    rw [planOf] at hown
    dsimp only at hown
    rw [hown]
    exact isSome_leftBy record place
  · have hothers := h.others slug (by rwa [map_slug_plansOf])
    rw [Dict.mem_keys_iff, Dict.mem_keys_iff, hothers]
    simp [hmem]

/-- An import of a document without a problem writes every planned record, and no others. -/
theorem import_of_accepted (h : Accepted host document state) :
    ∃ after, (∀ checkOnly, importRegistry host document checkOnly state =
        (answerOf host document state checkOnly, if checkOnly then state else after)) ∧
      Applied (projectPlans host document state) state.projects after.projects ∧
      Applied (assetPlans host document state) state.assets after.assets := by
  have hprojectSlugs : ((projectPlans host document state).map Planned.slug).Nodup := by
    rw [projectPlans, map_slug_plansOf]
    exact h.projects.slugs
  have hassetSlugs : ((assetPlans host document state).map Planned.slug).Nodup := by
    rw [assetPlans, map_slug_plansOf]
    exact h.assets.slugs
  have hprojectsReady : ∀ plan ∈ projectPlans host document state,
      Ready projectKind host [] plan := by
    intro plan hplan
    obtain ⟨record, hrecord, place, rfl⟩ := mem_plansOf hplan
    exact ready_of_taken (h.projects.taken record hrecord) place
  obtain ⟨middle, hfirst, happlied, hsame⟩ := applyProjects_spec state hprojectsReady hprojectSlugs
  have hassetsReady : ∀ plan ∈ assetPlans host document state,
      Ready assetKind host middle.projects.keys plan := by
    intro plan hplan
    obtain ⟨record, hrecord, place, rfl⟩ := mem_plansOf hplan
    apply ready_of_taken ((h.assets.taken record hrecord).of_known _) place
    intro named hnamed
    rw [mem_keys_of_applied happlied]
    exact List.mem_append.mp hnamed
  obtain ⟨last, hsecond, happlied', hprojects⟩ := applyAssets_spec middle hassetsReady hassetSlugs
  rw [hsame] at happlied'
  let summary := summaryOf ((projectPlans host document state).map report ++
    (assetPlans host document state).map report)
  let after : Registries := { last with events := last.events ++ [.registry summary] }
  have hall : applyAll host (projectPlans host document state) (assetPlans host document state)
      summary state = .ok after := by
    rw [applyAll, hfirst]
    show (List.foldlM (applyAsset host) middle _ >>= _) = _
    rw [hsecond]
    rfl
  refine ⟨after, fun checkOnly => ?_, hprojects ▸ happlied, happlied'⟩
  obtain ⟨hlimit, hproblems⟩ := accepted_iff.mp h
  have hprojectPlans : (planProjects host document state).1 = projectPlans host document state :=
    planFrom_planned 0 h.projects
  have hassetPlans : (planAssets host document state).1 = assetPlans host document state := by
    rw [planAssets, knownProjects, hprojectPlans, projectPlans, map_slug_plansOf]
    exact planFrom_planned 0 h.assets
  simp only [importRegistry, if_neg hlimit, hproblems, hprojectPlans, hassetPlans, answerOf]
  rw [hall]

end Import

/-! ## What a record says of its row -/

theorem Value.equal_self (value : Value) : value.equal value = true := by
  cases value with
  | decimal coefficient exponent => simp [Value.equal]
  | _ => simp [Value.equal]

/-- A row is as its record says: what it gives, but for derived values that were kept, and what it
leaves out as it was, or as a new record has it. -/
structure WrittenAs {Field Link : Type} (kind : Kind Field Link) (record : Imported Field Link)
    (before : Option (Row Field Link)) (row : Row Field Link) : Prop where
  given : ∀ field, ∀ value ∈ record.field field, value.equal (row.field field) = true ∨
    ∃ old ∈ before, field ∈ kind.derived ∧ (old.field field).truthy = true ∧
      row.field field = old.field field
  omitted : ∀ field, record.field field = none →
    (before.map fun old => old.field field).or (kind.default field) = some (row.field field)
  related : ∀ link, row.related link = match record.related link with
    | some slugs => slugs.toFinset
    | none => (before.map fun old => old.related link).getD ∅

section Record

variable {Field Link : Type} [DecidableEq Field] {kind : Kind Field Link} {host : Host}
  {existing : Rows Field Link} {known : List String} {record : Imported Field Link}
  {slug : String} {row : Option (Row Field Link)}

variable (kind slug row) in
/-- A field that is left out is as the row has it. -/
theorem laidOver_omitted {field : Field} (h : record.field field = none) :
    laidOver kind record (row.map (stored slug)) field = row.map fun old => old.field field := by
  unfold laidOver heldValue
  rw [h]
  cases row with
  | none => rfl
  | some old => rfl

variable (kind slug row) in
/-- A field that is given is as given, but for a derived value that is held. -/
theorem laidOver_given {field : Field} {value : Value} (h : record.field field = some value) :
    laidOver kind record (row.map (stored slug)) field = some value ∨
      ∃ old ∈ row, field ∈ kind.derived ∧ (old.field field).truthy = true ∧
        value.equal (old.field field) = false ∧
        laidOver kind record (row.map (stored slug)) field = some (old.field field) := by
  unfold laidOver heldValue
  rw [h]
  cases row with
  | none => exact .inl rfl
  | some old =>
      dsimp only [Option.map_some, stored]
      by_cases hheld : field ∈ kind.derived ∧ (old.field field).truthy = true ∧
          value.equal (old.field field) = false
      · rw [if_pos hheld]
        exact .inr ⟨old, rfl, hheld.1, hheld.2.1, hheld.2.2, rfl⟩
      · rw [if_neg hheld]
        exact .inl rfl

/-- A derived value that is stored is held against another that is offered. -/
theorem laidOver_held {old : Row Field Link} {field : Field} {value : Value}
    (h : record.field field = some value) (hderived : field ∈ kind.derived)
    (htrue : (old.field field).truthy = true) (hnot : value.equal (old.field field) = false) :
    laidOver kind record ((some old).map (stored slug)) field = some (old.field field) := by
  unfold laidOver heldValue
  rw [h]
  dsimp only [Option.map_some, stored]
  rw [if_pos ⟨hderived, htrue, hnot⟩]

theorem commandOf_field_of_laidOver {field : Field} {value : Value}
    (h : laidOver kind record (row.map (stored slug)) field = some value) :
    (commandOf kind record slug row).field field = value := by
  rw [commandOf_field, h]

variable (kind slug row) in
/-- The value a command has for a field that its record gives. -/
theorem commandOf_given {field : Field} {value : Value} (h : record.field field = some value) :
    (commandOf kind record slug row).field field = value ∨
      ∃ old ∈ row, field ∈ kind.derived ∧ (old.field field).truthy = true ∧
        value.equal (old.field field) = false ∧
        (commandOf kind record slug row).field field = old.field field := by
  rcases laidOver_given kind slug row h with hgiven | ⟨old, hold, hderived, htrue, hnot, hheld⟩
  · exact .inl (commandOf_field_of_laidOver hgiven)
  · exact .inr ⟨old, hold, hderived, htrue, hnot, commandOf_field_of_laidOver hheld⟩

/-- The value a command has for a field that its record leaves out. -/
theorem commandOf_omitted {field : Field} (h : record.field field = none)
    (htyped : typeError kind host (laidOver kind record (row.map (stored slug))) field = none) :
    (row.map fun old => old.field field).or (kind.default field) =
      some ((commandOf kind record slug row).field field) := by
  have homitted := laidOver_omitted kind slug row h
  cases row with
  | none =>
      rw [typeError, homitted] at htyped
      rw [commandOf_field, homitted]
      cases hdefault : kind.default field with
      | none => simp [hdefault] at htyped
      | some value => rfl
  | some old =>
      rw [commandOf_field_of_laidOver homitted]
      rfl

omit [DecidableEq Field] in
/-- The rows a command relates its record to. -/
theorem toFinset_relatedOver (link : Link) :
    (relatedOver record (row.map (stored slug)) link).toFinset =
      match record.related link with
      | some slugs => slugs.toFinset
      | none => (row.map fun old => old.related link).getD ∅ := by
  rw [relatedOver]
  cases record.related link with
  | some slugs => rfl
  | none => cases row <;> simp [stored]

omit [DecidableEq Field] in
theorem outcomeOf_eq_unchanged_iff {made : Values Field Link} {row : Option (Row Field Link)} :
    outcomeOf kind made (row.map (stored slug)) = .unchanged ↔ ∃ old ∈ row, made.slug = slug ∧
      (∀ field, (made.field field).equal (old.field field) = true) ∧
      ∀ link, (made.related link).insertionSort (· ≤ ·) = (old.related link).sort (· ≤ ·) := by
  cases row with
  | none => simp [outcomeOf]
  | some old =>
      have hall : outcomeOf kind made (some (stored slug old)) = .unchanged ↔ made.slug = slug ∧
          (∀ field ∈ kind.fields, (made.field field).equal (old.field field) = true) ∧
          ∀ link ∈ kind.links,
            (made.related link).insertionSort (· ≤ ·) = (old.related link).sort (· ≤ ·) := by
        rw [outcomeOf]
        split
        · next h => exact iff_of_true rfl h
        · next h => exact iff_of_false nofun h
      rw [Option.map_some, hall]
      constructor
      · rintro ⟨hslug, hfields, hlinks⟩
        exact ⟨old, rfl, hslug, fun field => hfields field (kind.mem_fields field),
          fun link => hlinks link (kind.everyLink link)⟩
      · rintro ⟨_, ⟨⟩, hslug, hfields, hlinks⟩
        exact ⟨hslug, fun field _ => hfields field, fun link _ => hlinks link⟩

/-- What a plan leaves is as its record says. -/
theorem writtenAs_of_taken
    (h : Taken kind host known record (strippedSlug record.slug) (rowOf existing record))
    (index : Nat) :
    ∃ left, leftBy (planOf kind host existing record index) (rowOf existing record) = some left ∧
      WrittenAs kind record (rowOf existing record) left := by
  have hgiven := fun field value (hvalue : record.field field = some value) =>
    commandOf_given kind (strippedSlug record.slug) (rowOf existing record) hvalue
  rw [leftBy]
  split
  · next hsame =>
      obtain ⟨old, hold, -, hfields, hlinks⟩ := outcomeOf_eq_unchanged_iff.mp hsame
      refine ⟨old, hold, fun field value hvalue => ?_, fun field _ => ?_, fun link => ?_⟩
      · rcases hgiven field value hvalue with hfield | ⟨held, hheld, hderived, htrue, -, -⟩
        · exact .inl (hfield ▸ hfields field)
        · obtain rfl := Option.some.inj (hold.symm.trans hheld)
          exact .inr ⟨old, hold, hderived, htrue, rfl⟩
      · rw [hold]
        rfl
      · have hset := congrArg List.toFinset (hlinks link)
        rw [Finset.sort_toFinset,
          List.toFinset_eq_of_perm _ _ (List.perm_insertionSort (· ≤ ·) _)] at hset
        rw [← hset]
        exact toFinset_relatedOver link
  · refine ⟨_, rfl, fun field value hvalue => ?_, fun field homitted => ?_, fun link => ?_⟩
    · rcases hgiven field value hvalue with hfield | ⟨held, hheld, hderived, htrue, -, hfield⟩
      · exact .inl (by
          show value.equal ((commandOf kind record _ _).field field) = true
          rw [hfield]
          exact value.equal_self)
      · exact .inr ⟨held, hheld, hderived, htrue, hfield⟩
    · exact commandOf_omitted homitted (h.typed field)
    · exact toFinset_relatedOver link

end Record

end SeverinoHQ.Registry
