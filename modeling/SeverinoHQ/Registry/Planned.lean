/-
# What a plan promises

A record is taken on what its own command holds: nothing the plan asks of it depends on the row it
is laid over but through the values it keeps. What the plan takes the upsert takes too, since the
upsert asks no more of a stored row than is asked of a new one.
-/

import SeverinoHQ.Registry.Import

namespace SeverinoHQ.Registry

open SeverinoHQ.Math

/-! ## A slug that a column takes -/

theorem isSpace_of_slug {c : Char} (h : (c.isAlphanum || c == '-' || c == '_') = true) :
    Letters.isSpace c = false := by
  by_contra hspace
  rw [Bool.not_eq_false] at hspace
  have halpha := Letters.isAlpha_of_isSpace hspace
  rw [Char.isAlphanum, halpha, Bool.false_or, Bool.or_eq_true, Bool.or_eq_true, beq_iff_eq,
    beq_iff_eq] at h
  rcases h with (hdigit | rfl) | rfl
  · rw [Char.isDigit, Bool.and_eq_true, decide_eq_true_eq, decide_eq_true_eq] at hdigit
    have hlow : 48 ≤ c.toNat := hdigit.1
    have hhigh : c.toNat ≤ 57 := hdigit.2
    simp [Letters.isSpace] at hspace
    omega
  · exact absurd hspace (by decide)
  · exact absurd hspace (by decide)

/-- A slug that its column takes is one that nothing is stripped of. -/
theorem strippedSlug_of_clean {slug : String} (h : columnSlugErrors slug = []) :
    strippedSlug slug = slug := by
  rw [strippedSlug, Letters.strip_of_bare, String.ofList_toList]
  rw [columnSlugErrors] at h
  split at h
  · next hempty =>
      subst hempty
      decide
  · have hall : slug.toList.all (fun c => c.isAlphanum || c == '-' || c == '_') = true := by
      by_contra hnot
      rw [if_neg hnot] at h
      exact nomatch h
    rw [List.all_eq_true] at hall
    constructor
    · intro c hc
      exact isSpace_of_slug (hall c (List.mem_of_head? hc))
    · intro c hc
      exact isSpace_of_slug (hall c (List.mem_of_getLast? hc))

/-! ## Slugs in order -/

/-- Slugs in order are those of a set exactly when none of them is repeated. -/
theorem insertionSort_eq_sort_iff (slugs : List String) :
    slugs.insertionSort (· ≤ ·) = slugs.toFinset.sort (· ≤ ·) ↔ slugs.Nodup := by
  constructor
  · intro h
    have hsorted := slugs.toFinset.sort_nodup (· ≤ ·)
    rw [← h] at hsorted
    exact (List.perm_insertionSort (· ≤ ·) slugs).nodup_iff.mp hsorted
  · intro h
    have hperm : (slugs.toFinset.sort (· ≤ ·)).Perm slugs := by
      rw [← Multiset.coe_eq_coe, Finset.sort_eq, List.toFinset_val, h.dedup]
    exact ((List.perm_insertionSort (· ≤ ·) slugs).trans hperm.symm).eq_of_pairwise'
      (List.pairwise_insertionSort (· ≤ ·) slugs) (slugs.toFinset.pairwise_sort (· ≤ ·))

section Clean

variable {Field Link : Type} {kind : Kind Field Link} {host : Host} {row : Option (Row Field Link)}
  {slug : String} {known : List String} {plan : Planned Field Link}

theorem Kind.mem_fields (kind : Kind Field Link) (field : Field) : field ∈ kind.fields :=
  kind.every field

/-! ## What is asked of a command -/

variable (kind host) in
theorem command_eq_ok_iff (values : Field → Option Value) (related : Link → List String)
    {made : Values Field Link} :
    command kind host slug values related = .ok made ↔
      (∀ field, typeError kind host values field = none) ∧
        made = ⟨slug, orDefault kind values, related⟩ := by
  have hnil : kind.fields.filterMap (typeError kind host values) = [] ↔
      ∀ field, typeError kind host values field = none := by
    rw [List.filterMap_eq_nil_iff]
    exact ⟨fun h field => h field (kind.mem_fields field), fun h field _ => h field⟩
  rw [← hnil, command]
  split
  · next heq =>
      rw [heq, Except.ok.injEq, eq_comm]
      exact (and_iff_right rfl).symm
  · next hne => exact ⟨nofun, fun h => (hne h.1).elim⟩

variable (kind) in
theorem missingProjects_eq_nil_iff (made : Values Field Link) :
    missingProjects kind made known = [] ↔ ∀ link, ∀ named ∈ made.related link, named ∈ known := by
  rw [missingProjects, ← List.length_eq_zero_iff, List.length_insertionSort,
    List.length_eq_zero_iff, List.filter_eq_nil_iff]
  constructor
  · intro h link named hnamed
    have hmem := h named (List.mem_dedup.mpr
      (List.mem_flatMap.mpr ⟨link, kind.everyLink link, hnamed⟩))
    simpa using hmem
  · intro h named hnamed
    obtain ⟨link, -, hlink⟩ := List.mem_flatMap.mp (List.mem_dedup.mp hnamed)
    simpa using h link named hlink

theorem modelErrors_eq_nil_iff (made : Values Field Link) :
    modelErrors kind host made known = [] ↔
      (∀ link, ∀ named ∈ made.related link, named ∈ known) ∧ fullClean kind host none made = [] := by
  rw [modelErrors, List.append_eq_nil_iff, List.map_eq_nil_iff,
    ← missingProjects_eq_nil_iff kind]
  apply and_congr_left
  intro _
  split
  · next heq => exact ⟨fun _ => heq, fun _ => rfl⟩
  · next hne => exact ⟨nofun, fun h => (hne h).elim⟩

/-! ## The write of a plan -/

theorem fieldErrors_of_new {field : Field} {value : Value}
    (h : fieldErrors kind host (none : Option (Row Field Link)) field value = []) :
    fieldErrors kind host row field value = [] := by
  rw [fieldErrors] at h ⊢
  split at h
  · by_cases hrow : row.any (fun row => (row.field field).equal value) = true
    · simp [hrow]
    · simpa [hrow] using h
  · exact h

/-- What is asked of a stored row is asked of a new one. -/
theorem fullClean_of_new {made : Values Field Link} (h : fullClean kind host none made = []) :
    fullClean kind host row made = [] := by
  simp only [fullClean, List.append_eq_nil_iff, List.map_eq_nil_iff, List.flatMap_eq_nil_iff] at h ⊢
  obtain ⟨⟨htitle, hslug⟩, hrest⟩ := h
  exact ⟨⟨fieldErrors_of_new htitle, hslug⟩, fun field hfield =>
    fieldErrors_of_new (hrest field hfield)⟩

/-- A plan that can be written: of its own slug, clean, and naming only known projects. -/
structure Ready (kind : Kind Field Link) (host : Host) (known : List String)
    (plan : Planned Field Link) : Prop where
  slug : plan.command.slug = plan.slug
  known : ∀ link, ∀ named ∈ plan.command.related link, named ∈ known
  clean : fullClean kind host none plan.command = []

/-- The row a command leaves. -/
def written (made : Values Field Link) : Row Field Link :=
  ⟨made.field, fun link => (made.related link).toFinset⟩

/-- The row a plan leaves under its slug. -/
def leftBy (plan : Planned Field Link) (row : Option (Row Field Link)) : Option (Row Field Link) :=
  if plan.outcome = .unchanged then row else some (written plan.command)

/-- A plan that can be written is, under its slug. -/
theorem applyPlanned_of_ready (h : Ready kind host known plan) (rows : Rows Field Link) :
    ∃ after, applyPlanned kind host known plan rows = .ok after ∧
      ∀ slug, after.get? slug = if slug = plan.slug then leftBy plan (rows.get? slug)
        else rows.get? slug := by
  rw [applyPlanned]
  split
  · next hsame =>
      refine ⟨rows, rfl, fun slug => ?_⟩
      rw [leftBy, if_pos hsame, ite_self]
  · next hother =>
      have hfound : (fun link => (known.filter (· ∈ plan.command.related link)).toFinset) =
          fun link => (plan.command.related link).toFinset := by
        funext link
        ext named
        simp only [List.mem_toFinset, List.mem_filter, decide_eq_true_eq, and_iff_right_iff_imp]
        exact h.known link named
      rw [upsert, if_pos fun link _ => h.known link, fullClean_of_new h.clean]
      refine ⟨_, rfl, fun slug => ?_⟩
      rw [hfound, Dict.get?_set, h.slug, leftBy, if_neg hother, written]

end Clean

section Plan

variable {Field Link : Type} [DecidableEq Field] {kind : Kind Field Link} {host : Host}
  {record : Imported Field Link} {slug : String} {row : Option (Row Field Link)}
  {known : List String} {index : Nat} {plan : Planned Field Link}

/-! ## The command of a record -/

/-- The command a record makes, laid over the row of its slug. -/
def commandOf (kind : Kind Field Link) (record : Imported Field Link) (slug : String)
    (row : Option (Row Field Link)) : Values Field Link where
  slug := record.slug
  field := orDefault kind (laidOver kind record (row.map (stored slug)))
  related := relatedOver record (row.map (stored slug))

theorem commandOf_field (field : Field) : (commandOf kind record slug row).field field =
    match laidOver kind record (row.map (stored slug)) field with
    | some value => value
    | none => (kind.default field).getD (.text "") := rfl

/-- A record is taken: its command's fields are of their types, it names known projects, and its
model finds nothing against it. -/
structure Taken (kind : Kind Field Link) (host : Host) (known : List String)
    (record : Imported Field Link) (slug : String) (row : Option (Row Field Link)) : Prop where
  typed : ∀ field, typeError kind host (laidOver kind record (row.map (stored slug))) field = none
  known : ∀ link, ∀ named ∈ (commandOf kind record slug row).related link, named ∈ known
  clean : fullClean kind host none (commandOf kind record slug row) = []

variable (index) in
/-- A plan is made exactly for a record that is taken, and is of its command. -/
theorem planRecord_eq_ok_iff :
    planRecord kind host index record slug row known = .ok plan ↔
      Taken kind host known record slug row ∧
        plan = ⟨index, slug, commandOf kind record slug row,
          outcomeOf kind (commandOf kind record slug row) (row.map (stored slug)),
          keepDerived kind host record (row.map (stored slug))⟩ := by
  have htaken : Taken kind host known record slug row ↔
      (∀ field, typeError kind host (laidOver kind record (row.map (stored slug))) field = none) ∧
        modelErrors kind host (commandOf kind record slug row) known = [] := by
    rw [modelErrors_eq_nil_iff]
    exact ⟨fun h => ⟨h.typed, h.known, h.clean⟩, fun h => ⟨h.1, h.2.1, h.2.2⟩⟩
  rw [htaken, planRecord]
  split
  · next errors herrors =>
      simp only [reduceCtorEq, false_iff]
      rintro ⟨⟨htyped, -⟩, -⟩
      have hok : command kind host record.slug _ _ = .ok (commandOf kind record slug row) :=
        (command_eq_ok_iff kind host _ _).mpr ⟨htyped, rfl⟩
      rw [hok] at herrors
      exact nomatch herrors
  · next made hmade =>
      obtain ⟨htyped, rfl⟩ := (command_eq_ok_iff kind host _ _).mp hmade
      rw [commandOf]
      split
      · next hnil => simp [hnil, htyped, eq_comm]
      · next hne => exact ⟨nofun, fun h => (hne h.1.2).elim⟩

/-- A plan names its record's slug, which the record gives as it is. -/
theorem Taken.strippedSlug_eq (h : Taken kind host known record slug row) :
    strippedSlug record.slug = record.slug := by
  have hclean := h.clean
  simp only [fullClean, List.append_eq_nil_iff, List.map_eq_nil_iff] at hclean
  exact strippedSlug_of_clean hclean.1.2

/-- Nothing is taken on what is known but the names. -/
theorem Taken.of_known {others : List String} (h : Taken kind host known record slug row)
    (hsub : ∀ named ∈ known, named ∈ others) : Taken kind host others record slug row :=
  { h with known := fun link named hnamed => hsub named (h.known link named hnamed) }

end Plan

end SeverinoHQ.Registry
