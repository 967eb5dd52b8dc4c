/-
# The same document, imported again

A row that an import left makes, with the record that left it, the command it was left by, so the
record is found unchanged, unless it names a project twice: the stored slugs are each there once,
and the record's are compared with them in order.
-/

import SeverinoHQ.Registry.Written

namespace SeverinoHQ.Registry

open SeverinoHQ.Math

/-! ## A record that is planned again -/

section Record

variable {Field Link : Type} {kind : Kind Field Link} {host : Host}
  {existing after : Rows Field Link} {known others : List String} {record : Imported Field Link}
  {slug : String} {row : Option (Row Field Link)}

/-- A record names no other record twice. -/
def NoRepeats (record : Imported Field Link) : Prop :=
  ∀ link, ∀ slugs ∈ record.related link, slugs.Nodup

variable [DecidableEq Field]

/-- A command's values are of their fields' types, the defaults too. -/
theorem takes_commandOf {field : Field}
    (h : typeError kind host (laidOver kind record (row.map (stored slug))) field = none) :
    (kind.type field).takes ((commandOf kind record slug row).field field) = true := by
  rw [typeError] at h
  rw [commandOf_field]
  cases hvalue : laidOver kind record (row.map (stored slug)) field with
  | some value =>
      rw [hvalue] at h
      dsimp only at h ⊢
      by_contra hnot
      rw [if_neg hnot] at h
      cases h
  | none =>
      rw [hvalue] at h
      cases hdefault : kind.default field with
      | none => simp [hdefault] at h
      | some value => exact kind.takesDefault field value hdefault

/-- A derived value is held against another that is offered. -/
theorem equal_commandOf_of_derived {old : Row Field Link} {field : Field}
    (hderived : field ∈ kind.derived) (htrue : (old.field field).truthy = true) :
    ((commandOf kind record slug (some old)).field field).equal (old.field field) = true := by
  cases hfield : record.field field with
  | none =>
      rw [commandOf_field_of_laidOver (laidOver_omitted kind slug (some old) hfield)]
      exact (old.field field).equal_self
  | some value =>
      by_cases hequal : value.equal (old.field field) = true
      · rcases commandOf_given kind slug (some old) hfield with hgiven | ⟨_, ⟨⟩, -, -, hnot, -⟩
        · rwa [hgiven]
        · exact absurd (hnot.symm.trans hequal) nofun
      · have hnot : value.equal (old.field field) = false := by simpa using hequal
        rw [commandOf_field_of_laidOver (laidOver_held hfield hderived htrue hnot)]
        exact (old.field field).equal_self

/-- Over the row its command left, a record lays the values it laid. -/
theorem laidOver_written (field : Field) :
    laidOver kind record ((some (written (commandOf kind record slug row))).map (stored slug)) field =
      some ((commandOf kind record slug row).field field) := by
  cases hfield : record.field field with
  | none => exact laidOver_omitted kind slug (some (written (commandOf kind record slug row))) hfield
  | some value =>
      rcases commandOf_given kind slug row hfield with hgiven | ⟨old, -, hderived, htrue, hnot, hheld⟩
      · rcases laidOver_given kind slug (some (written (commandOf kind record slug row)))
          hfield with hsame | ⟨_, ⟨⟩, -, -, -, hsame⟩
        · rw [hsame, hgiven]
        · exact hsame
      · apply laidOver_held hfield hderived
        · show ((commandOf kind record slug row).field field).truthy = true
          rwa [hheld]
        · show value.equal ((commandOf kind record slug row).field field) = false
          rwa [hheld]

/-- A record is taken over the row its command left, and makes the command again. -/
theorem taken_written (h : Taken kind host known record slug row) :
    Taken kind host known record slug (some (written (commandOf kind record slug row))) ∧
      (commandOf kind record slug (some (written (commandOf kind record slug row)))).field =
        (commandOf kind record slug row).field := by
  have hfield : (commandOf kind record slug
      (some (written (commandOf kind record slug row)))).field =
        (commandOf kind record slug row).field := by
    funext field
    show orDefault kind (laidOver kind record _) field = _
    rw [orDefault, laidOver_written]
  refine ⟨⟨fun field => ?_, fun link named hnamed => ?_, ?_⟩, hfield⟩
  · rw [typeError, laidOver_written]
    exact if_pos (takes_commandOf (h.typed field))
  · apply h.known link named
    rw [← List.mem_toFinset] at hnamed ⊢
    rw [commandOf] at hnamed
    dsimp only at hnamed
    rw [toFinset_relatedOver] at hnamed
    show named ∈ (relatedOver record (row.map (stored slug)) link).toFinset
    cases hlink : record.related link with
    | some slugs =>
        rw [hlink] at hnamed
        rw [toFinset_relatedOver, hlink]
        exact hnamed
    | none =>
        rw [hlink] at hnamed
        exact hnamed
  · have hclean := h.clean
    simp only [fullClean] at hclean ⊢
    rw [hfield]
    exact hclean

/-- Over the row its command left, a record is found unchanged exactly when it names none twice. -/
theorem unchanged_written_iff (hslug : record.slug = slug) :
    outcomeOf kind (commandOf kind record slug (some (written (commandOf kind record slug row))))
        ((some (written (commandOf kind record slug row))).map (stored slug)) = .unchanged ↔
      NoRepeats record := by
  rw [outcomeOf_eq_unchanged_iff]
  have hfields : ∀ field, ((commandOf kind record slug
      (some (written (commandOf kind record slug row)))).field field).equal
        ((written (commandOf kind record slug row)).field field) = true := by
    intro field
    rw [commandOf_field_of_laidOver (laidOver_written field)]
    exact Value.equal_self _
  have hlinks : ∀ link, (((commandOf kind record slug
      (some (written (commandOf kind record slug row)))).related link).insertionSort (· ≤ ·) =
        ((written (commandOf kind record slug row)).related link).sort (· ≤ ·) ↔
      ∀ slugs ∈ record.related link, slugs.Nodup) := by
    intro link
    show (relatedOver record _ link).insertionSort (· ≤ ·) =
      (relatedOver record (row.map (stored slug)) link).toFinset.sort (· ≤ ·) ↔ _
    cases hlink : record.related link with
    | some slugs =>
        rw [relatedOver, relatedOver, hlink]
        simpa using insertionSort_eq_sort_iff slugs
    | none =>
        -- What is left out is as the row has it, in order and without repeats.
        have hsorted := (insertionSort_eq_sort_iff
          ((relatedOver record (row.map (stored slug)) link).toFinset.sort (· ≤ ·))).mpr
          (Finset.sort_nodup _ _)
        rw [Finset.sort_toFinset] at hsorted
        have hstored : relatedOver record ((some (written (commandOf kind record slug row))).map
            (stored slug)) link =
              (relatedOver record (row.map (stored slug)) link).toFinset.sort (· ≤ ·) := by
          rw [relatedOver, hlink]
          rfl
        rw [hstored]
        exact iff_of_true hsorted (by simp)
  constructor
  · rintro ⟨_, ⟨⟩, -, -, hall⟩ link
    exact (hlinks link).mp (hall link)
  · intro h
    exact ⟨_, rfl, hslug, hfields, fun link => (hlinks link).mpr (h link)⟩

/-- A record that is found unchanged names no other twice. -/
theorem noRepeats_of_unchanged
    (h : outcomeOf kind (commandOf kind record slug row) (row.map (stored slug)) = .unchanged) :
    NoRepeats record := by
  obtain ⟨old, hold, -, -, hlinks⟩ := outcomeOf_eq_unchanged_iff.mp h
  intro link slugs hslugs
  have hsorted : slugs.insertionSort (· ≤ ·) = (old.related link).sort (· ≤ ·) := by
    rw [← hlinks link, commandOf]
    dsimp only
    rw [relatedOver, Option.mem_def.mp hslugs]
  apply (List.perm_insertionSort (· ≤ ·) slugs).nodup_iff.mp
  rw [hsorted]
  exact Finset.sort_nodup _ _

/-- A record is taken again over the row its plan left, and is found unchanged exactly when it
names no other twice. -/
theorem taken_again
    (h : Taken kind host known record (strippedSlug record.slug) (rowOf existing record))
    (hknown : ∀ named ∈ known, named ∈ others) {index : Nat}
    (hleft : rowOf after record =
      leftBy (planOf kind host existing record index) (rowOf existing record)) :
    Taken kind host others record (strippedSlug record.slug) (rowOf after record) ∧
      ∀ place, (planOf kind host after record place).outcome = .unchanged ↔ NoRepeats record := by
  have houtcome : ∀ place, (planOf kind host after record place).outcome =
      outcomeOf kind (commandOf kind record (strippedSlug record.slug) (rowOf after record))
        ((rowOf after record).map (stored (strippedSlug record.slug))) := fun _ => rfl
  rw [leftBy] at hleft
  split at hleft
  · next hsame =>
      refine ⟨hleft ▸ h.of_known hknown, fun place => ?_⟩
      rw [houtcome, hleft]
      exact iff_of_true hsame (noRepeats_of_unchanged hsame)
  · have hrow : rowOf after record = some (written
        (commandOf kind record (strippedSlug record.slug) (rowOf existing record))) := hleft
    refine ⟨hrow ▸ (taken_written h).1.of_known hknown, fun place => ?_⟩
    rw [houtcome, hrow]
    exact unchanged_written_iff h.strippedSlug_eq.symm

end Record

/-! ## The four promises -/

/-- A registry is as the records of a document say. -/
def AllWritten {Field Link : Type} (kind : Kind Field Link) (records : List (Imported Field Link))
    (before after : Rows Field Link) : Prop :=
  ∀ record ∈ records, ∃ row, rowOf after record = some row ∧
    WrittenAs kind record (rowOf before record) row

/-- No derived value that was stored became another. -/
def KeepsDerived {Field Link : Type} (kind : Kind Field Link) (before after : Rows Field Link) :
    Prop :=
  ∀ slug, ∀ old ∈ before.get? slug, ∃ row ∈ after.get? slug, ∀ field ∈ kind.derived,
    (old.field field).truthy = true → (row.field field).equal (old.field field) = true

/-- An answer, as of an import that is only checked. -/
def Answer.checked : Answer → Answer
  | .imported _ projects assets summary => .imported true projects assets summary
  | .refused message details => .refused message details

/-- What an import promises: it writes every record or none, a check says what it would and changes
nothing, a document that was imported is found unchanged, and no derived value is replaced. -/
structure Promises (host : Host) (document : ImportDocument) (state : Registries) : Prop where
  whole :
    (∃ projects assets summary, (importRegistry host document false state).1 =
        .imported false projects assets summary ∧
      AllWritten projectKind document.projects state.projects
        (importRegistry host document false state).2.projects ∧
      AllWritten assetKind document.assets state.assets
        (importRegistry host document false state).2.assets) ∨
    ∃ message problems, importRegistry host document false state =
      (.refused message problems, state)
  checked : importRegistry host document true state =
    ((importRegistry host document false state).1.checked, state)
  again : ∀ projects assets summary, (importRegistry host document false state).1 =
      .imported false projects assets summary →
    ∃ projects' assets' summary',
      (importRegistry host document false (importRegistry host document false state).2).1 =
        .imported false projects' assets' summary' ∧
      projects'.map Report.slug = slugsOf document.projects ∧
      assets'.map Report.slug = slugsOf document.assets ∧
      ∀ report ∈ projects' ++ assets', report.outcome = .unchanged
  derived : ∀ checkOnly,
    KeepsDerived projectKind state.projects
      (importRegistry host document checkOnly state).2.projects ∧
    KeepsDerived assetKind state.assets (importRegistry host document checkOnly state).2.assets

section Document

variable {Field Link : Type} [DecidableEq Field] {kind : Kind Field Link} {host : Host}
  {before after : Rows Field Link} {known others : List String}
  {records : List (Imported Field Link)} {record : Imported Field Link} {index : Nat}

theorem rowOf_applied (h : Applied (plansOf kind host before records index) before after)
    (hrecord : record ∈ records) :
    ∃ place, rowOf after record =
      leftBy (planOf kind host before record place) (rowOf before record) := by
  obtain ⟨place, hplan⟩ := exists_mem_plansOf kind host before hrecord index
  exact ⟨place, h.own _ hplan⟩

theorem allTaken_again (h : AllTaken kind host before known [] records)
    (hknown : ∀ named ∈ known, named ∈ others)
    (happlied : Applied (plansOf kind host before records index) before after) :
    AllTaken kind host after others [] records where
  slugs := h.slugs
  own := h.own
  taken record hrecord := by
    obtain ⟨place, hleft⟩ := rowOf_applied happlied hrecord
    exact (taken_again (h.taken record hrecord) hknown hleft).1

theorem allWritten_of_applied (h : AllTaken kind host before known [] records)
    (happlied : Applied (plansOf kind host before records index) before after) :
    AllWritten kind records before after := by
  intro record hrecord
  obtain ⟨place, hleft⟩ := rowOf_applied happlied hrecord
  rw [hleft]
  exact writtenAs_of_taken (h.taken record hrecord) place

omit [DecidableEq Field] in
theorem KeepsDerived.refl (rows : Rows Field Link) : KeepsDerived kind rows rows :=
  fun _ old hold => ⟨old, hold, fun field _ _ => (old.field field).equal_self⟩

theorem keepsDerived_of_applied
    (happlied : Applied (plansOf kind host before records index) before after) :
    KeepsDerived kind before after := by
  intro slug old hold
  by_cases hmem : slug ∈ slugsOf records
  · obtain ⟨record, hrecord, rfl⟩ := List.mem_map.mp hmem
    obtain ⟨place, hleft⟩ := rowOf_applied happlied hrecord
    have hrow : rowOf before record = some old := hold
    rw [leftBy, hrow] at hleft
    split at hleft
    · exact ⟨old, hleft, fun field _ _ => (old.field field).equal_self⟩
    · refine ⟨_, hleft, fun field hderived htrue => ?_⟩
      show ((commandOf kind record _ (rowOf before record)).field field).equal _ = true
      rw [hrow]
      exact equal_commandOf_of_derived hderived htrue
  · have hothers := happlied.others slug (by rwa [map_slug_plansOf])
    exact ⟨old, hothers.trans hold, fun field _ _ => (old.field field).equal_self⟩

end Document

section Import

variable {host : Host} {document : ImportDocument} {state after : Registries}

/-- A document that was imported has no problem. -/
theorem accepted_again (h : Accepted host document state)
    (hprojects : Applied (projectPlans host document state) state.projects after.projects)
    (hassets : Applied (assetPlans host document state) state.assets after.assets) :
    Accepted host document after where
  limit := h.limit
  projects := allTaken_again h.projects nofun hprojects
  assets := by
    apply allTaken_again h.assets _ hassets
    intro named hnamed
    rw [List.mem_append, mem_keys_of_applied hprojects]
    rcases List.mem_append.mp hnamed with hdocument | hstored
    · exact .inl hdocument
    · exact .inr (.inr hstored)

/-- Every report of the second import is of a record that is left, unless one is named twice. -/
theorem unchanged_again (h : Accepted host document state)
    (hprojects : Applied (projectPlans host document state) state.projects after.projects)
    (hassets : Applied (assetPlans host document state) state.assets after.assets) :
    (∀ told ∈ (projectPlans host document after).map report ++
        (assetPlans host document after).map report, told.outcome = .unchanged) ↔
      ∀ record ∈ document.assets, NoRepeats record := by
  have hagain := accepted_again h hprojects hassets
  constructor
  · intro hall record hrecord
    obtain ⟨place, hplan⟩ := exists_mem_plansOf assetKind host after.assets hrecord 0
    obtain ⟨_, hleft⟩ := rowOf_applied hassets hrecord
    apply ((taken_again (h.assets.taken record hrecord) (fun _ => id) hleft).2 place).mp
    exact hall _ (List.mem_append_right _ (List.mem_map_of_mem hplan))
  · intro hnone told htold
    rcases List.mem_append.mp htold with hproject | hasset
    · obtain ⟨plan, hplan, rfl⟩ := List.mem_map.mp hproject
      obtain ⟨record, hrecord, place, rfl⟩ := mem_plansOf hplan
      obtain ⟨_, hleft⟩ := rowOf_applied hprojects hrecord
      exact ((taken_again (h.projects.taken record hrecord) (fun _ => id) hleft).2 place).mpr nofun
    · obtain ⟨plan, hplan, rfl⟩ := List.mem_map.mp hasset
      obtain ⟨record, hrecord, place, rfl⟩ := mem_plansOf hplan
      obtain ⟨_, hleft⟩ := rowOf_applied hassets hrecord
      exact ((taken_again (h.assets.taken record hrecord) (fun _ => id) hleft).2 place).mpr
        (hnone record hrecord)

/-- A document that is found unchanged has no asset that names a project twice. -/
theorem noRepeats_of_promises (haccepted : Accepted host document state)
    (h : Promises host document state) : ∀ record ∈ document.assets, NoRepeats record := by
  obtain ⟨after, himport, hprojects, hassets⟩ := import_of_accepted haccepted
  have hfirst : importRegistry host document false state =
      (answerOf host document state false, after) := himport false
  obtain ⟨last, himport', -, -⟩ := import_of_accepted (accepted_again haccepted hprojects hassets)
  have hsecond : importRegistry host document false after =
      (answerOf host document after false, last) := himport' false
  obtain ⟨projects', assets', summary', hanswer, -, -, hall⟩ :=
    h.again _ _ _ (by rw [hfirst]; rfl)
  rw [hfirst, hsecond] at hanswer
  cases hanswer
  exact (unchanged_again haccepted hprojects hassets).mp hall

theorem promises_of_noRepeats (haccepted : Accepted host document state)
    (h : ∀ record ∈ document.assets, NoRepeats record) : Promises host document state := by
  obtain ⟨after, himport, hprojects, hassets⟩ := import_of_accepted haccepted
  have hfirst : importRegistry host document false state =
      (answerOf host document state false, after) := himport false
  have hcheck : importRegistry host document true state =
      (answerOf host document state true, state) := himport true
  obtain ⟨last, himport', -, -⟩ := import_of_accepted (accepted_again haccepted hprojects hassets)
  have hsecond : importRegistry host document false after =
      (answerOf host document after false, last) := himport' false
  constructor
  · left
    rw [hfirst]
    exact ⟨_, _, _, rfl, allWritten_of_applied haccepted.projects hprojects,
      allWritten_of_applied haccepted.assets hassets⟩
  · rw [hcheck, hfirst]
    rfl
  · intro _ _ _ _
    rw [hfirst, hsecond]
    refine ⟨_, _, _, rfl, ?_, ?_, (unchanged_again haccepted hprojects hassets).mpr h⟩
    · rw [List.map_map]
      exact map_slug_plansOf 0
    · rw [List.map_map]
      exact map_slug_plansOf 0
  · intro checkOnly
    cases checkOnly with
    | true =>
        rw [hcheck]
        exact ⟨.refl _, .refl _⟩
    | false =>
        rw [hfirst]
        exact ⟨keepsDerived_of_applied hprojects, keepsDerived_of_applied hassets⟩

/-- A document that is refused breaks no promise. -/
theorem promises_of_not_accepted (h : ¬ Accepted host document state) :
    Promises host document state := by
  obtain ⟨message, problems, himport⟩ := import_of_not_accepted h
  constructor
  · exact .inr ⟨message, problems, himport false⟩
  · rw [himport, himport]
    rfl
  · intro _ _ _ hanswer
    rw [himport] at hanswer
    exact nomatch hanswer
  · intro checkOnly
    rw [himport]
    exact ⟨.refl _, .refl _⟩

end Import

/-- An import keeps its promises exactly where the document is refused, or no asset of it names a
project twice. -/
theorem promises_iff (host : Host) (document : ImportDocument) (state : Registries) :
    Promises host document state ↔
      (Accepted host document state → ∀ record ∈ document.assets, NoRepeats record) := by
  constructor
  · intro h haccepted
    exact noRepeats_of_promises haccepted h
  · intro h
    by_cases haccepted : Accepted host document state
    · exact promises_of_noRepeats haccepted (h haccepted)
    · exact promises_of_not_accepted haccepted

/-! ## A project that is named twice -/

/-- A host that finds nothing against a column's value, and whose estate is empty. -/
def quietHost : Host where
  typeMessage _ _ := ""
  errors _ _ := []
  names _ _ := false
  repr _ := ""
  str _ := ""

def emptyRegistries : Registries := ⟨⟨[], by decide⟩, ⟨[], by decide⟩, []⟩

/-- A project, and an asset that names it twice. -/
def repeatedDocument : ImportDocument where
  projects := [{
    slug := "site"
    field := fun field => if field = .name then some (.text "Site") else none
    related := nofun }]
  assets := [{
    slug := "server"
    field := fun field => if field = .itemName then some (.text "Server") else none
    related := fun _ => some ["site", "site"] }]

/-- The document is imported, and its asset is reported updated when it is imported again. -/
theorem not_promises_repeated : ¬ Promises quietHost repeatedDocument emptyRegistries := by
  intro h
  have haccepted : Accepted quietHost repeatedDocument emptyRegistries :=
    accepted_iff.mpr ⟨by decide, rfl⟩
  have hnone := noRepeats_of_promises haccepted h _ (List.mem_singleton_self _)
  exact absurd (hnone .relatedProjects ["site", "site"] rfl) (by decide)

end SeverinoHQ.Registry
