/-
# What the preflight promises

A manifest the preflight finds no problem in is imported exactly when its values are of the types
the write path takes, and is left by a second import exactly when what it stores is text and each
content entry has a slug.
-/

import SeverinoHQ.Docs.Mirrored

namespace SeverinoHQ.Docs

open SeverinoHQ.Math

variable {ν : Type} {python : Runtime ν}

/-! ## What it is to be importable -/

/-- The slugs the content entries name. -/
def contentSlugs (python : Runtime ν) (items : List (Entry ν)) : List String :=
  items.filterMap fun entry =>
    if isContentEntry python entry then
      match articleSlug entry with
      | .ok slug => some slug
      | .error _ => none
    else none

/-- No doc_id and no content slug is named twice. -/
structure Distinct (python : Runtime ν) (items : List (Entry ν)) : Prop where
  docIds : (manifestDocIds python items).Nodup
  slugs : (contentSlugs python items).Nodup

/-- The manifest is imported, each entry in its turn, and a second import writes nothing. -/
structure Importable (python : Runtime ν) (items : List (Entry ν)) (store : Store) : Prop where
  raises : ∃ state, importManifest python items true false store = .ok state
  imported : ∀ before entry after, items = before ++ entry :: after →
    ∃ state docId defaults doc, importEntries python true (before ++ [entry]) store = .ok state ∧
      Built python entry docId defaults ∧ ImportedAs python entry state.store docId defaults doc
  again : Distinct python items →
    ∀ state, importManifest python items true false store = .ok state →
      ∃ second, importManifest python items true false state.store = .ok second ∧
        second.writes = [] ∧ second.stats.created = 0 ∧ second.stats.updated = 0

theorem importManifest_eq_importEntries (items : List (Entry ν)) (store : Store) :
    importManifest python items true false store = importEntries python true items store := by
  rw [importManifest]
  cases importEntries python true items store with
  | error raised => rfl
  | ok state => rfl

/-! ## The preflight -/

/-- The contract takes an entry. -/
def Taken (python : Runtime ν) (entry : Entry ν) : Prop :=
  ∃ docId defaults, Built python entry docId defaults

theorem problemsOf_iff (entry : Entry ν) : problemsOf python entry = .ok [] ↔ Taken python entry := by
  constructor
  · intro h
    obtain ⟨docId, hread, h⟩ := exists_of_bind_eq_ok h
    split at h
    · exact nomatch h
    · next hne =>
        split at h
        · next defaults hbuilt => exact ⟨docId, defaults, hread, hne, hbuilt⟩
        · exact nomatch h
        · exact nomatch h
  · rintro ⟨docId, defaults, h⟩
    simp only [problemsOf, h.read, if_neg h.named, h.built, bind, Except.bind]

/-- No problem is found exactly when every entry is taken. -/
theorem validateManifest_iff (items : List (Entry ν)) :
    validateManifest python items = .ok [] ↔ ∀ entry ∈ items, Taken python entry := by
  induction items with
  | nil => simp [validateManifest]
  | cons entry items ih =>
      rw [List.forall_mem_cons, ← ih, ← problemsOf_iff]
      constructor
      · intro h
        obtain ⟨problems, hproblems, h⟩ := exists_of_bind_eq_ok h
        obtain ⟨rest, hrest, h⟩ := exists_of_bind_eq_ok h
        rw [Except.ok.injEq, List.append_eq_nil_iff] at h
        obtain ⟨rfl, rfl⟩ := h
        exact ⟨hproblems, hrest⟩
      · rintro ⟨hproblems, hrest⟩
        rw [validateManifest, hproblems, hrest]
        rfl

/-! ## The turns of an import -/

section Run

variable {items : List (Entry ν)} {entry : Entry ν} {docId other : String}
  {defaults : Fields (Document ν)} {doc : Doc} {state after : State ν}

/-- An import raises nothing exactly when every entry is writable. -/
theorem exists_foldlM_iff (htaken : ∀ entry ∈ items, Taken python entry) (state : State ν) :
    (∃ after, items.foldlM (importTurn python true) state = .ok after) ↔
      ∀ entry ∈ items, Writable python entry := by
  induction items generalizing state with
  | nil => simp [pure, Except.pure]
  | cons entry items ih =>
      obtain ⟨⟨docId, defaults, hbuilt⟩, hrest⟩ := List.forall_mem_cons.mp htaken
      rw [List.forall_mem_cons, List.foldlM_cons, ← exists_importTurn_iff hbuilt state]
      constructor
      · rintro ⟨after, h⟩
        obtain ⟨middle, hmiddle, h⟩ := exists_of_bind_eq_ok h
        exact ⟨⟨middle, hmiddle⟩, (ih hrest middle).mp ⟨after, h⟩⟩
      · rintro ⟨⟨middle, hmiddle⟩, hwritable⟩
        obtain ⟨after, hafter⟩ := (ih hrest middle).mpr hwritable
        exact ⟨after, by rw [hmiddle]; exact hafter⟩

/-- A write stays written. -/
theorem writes_of_foldlM (htaken : ∀ entry ∈ items, Taken python entry)
    (h : items.foldlM (importTurn python true) state = .ok after) :
    state.writes <+: after.writes := by
  induction items generalizing state with
  | nil =>
      obtain rfl := Except.ok.inj h
      exact List.prefix_rfl
  | cons entry items ih =>
      obtain ⟨⟨docId, defaults, hbuilt⟩, hrest⟩ := List.forall_mem_cons.mp htaken
      rw [List.foldlM_cons] at h
      obtain ⟨middle, hmiddle, h⟩ := exists_of_bind_eq_ok h
      exact (importTurn_spec hbuilt hmiddle).1.writes.trans (ih hrest h)

/-- An entry stays as it says over a turn that does not touch its record or its item. -/
theorem ImportedAs.kept {mayChange : Slug → Prop}
    (h : ImportedAs python entry state.store docId defaults doc)
    (hframe : Frame other mayChange state after) (hother : docId ≠ other)
    (hslug : ∀ slug item, isContentEntry python entry = true →
      MirroredTo python entry docId defaults doc slug item → ¬ mayChange slug) :
    ImportedAs python entry after.store docId defaults doc where
  record := (hframe.docs docId hother).trans h.record
  fields := h.fields
  related kind htrue := by
    obtain ⟨asked, hasked, hsame⟩ := h.related kind htrue
    exact ⟨asked, hasked, by rw [hframe.registry]; exact hsame⟩
  techs htrue htags asked hasked slug hslug := by
    rw [hframe.registry] at hslug
    have hbefore := h.techs htrue htags asked hasked slug hslug
    rw [hframe.techs slug hbefore]
    exact hbefore
  content hcontent := by
    obtain ⟨slug, item, hitem, hmirrored⟩ := h.content hcontent
    exact ⟨slug, item, (hframe.items slug (hslug slug item hcontent hmirrored)).trans hitem,
      hmirrored⟩

/-- An entry stays as it says over turns of entries that name other records and slugs. -/
theorem kept_of_foldlM (htaken : ∀ entry ∈ items, Taken python entry)
    (hwritable : ∀ entry ∈ items, Writable python entry)
    (hstable : ∀ entry ∈ items, Stable python entry)
    (himported : ImportedAs python entry state.store docId defaults doc)
    (hdocId : docId ∉ manifestDocIds python items)
    (hslug : isContentEntry python entry = true → ∃ slug, articleSlug entry = .ok slug ∧
      slug ≠ "" ∧ slug ∉ contentSlugs python items)
    (h : items.foldlM (importTurn python true) state = .ok after) :
    ImportedAs python entry after.store docId defaults doc := by
  induction items generalizing state with
  | nil =>
      obtain rfl := Except.ok.inj h
      exact himported
  | cons first items ih =>
      obtain ⟨⟨firstId, _, hbuilt⟩, htaken⟩ := List.forall_mem_cons.mp htaken
      obtain ⟨hfirst, hwritable⟩ := List.forall_mem_cons.mp hwritable
      obtain ⟨hsteady, hstable⟩ := List.forall_mem_cons.mp hstable
      rw [List.foldlM_cons] at h
      obtain ⟨middle, hmiddle, h⟩ := exists_of_bind_eq_ok h
      rw [manifestDocIds_cons, manifestDocIds_of_read hbuilt.read, if_neg hbuilt.named,
        List.singleton_append, List.mem_cons, not_or] at hdocId
      apply ih htaken hwritable hstable _ hdocId.2 _ h
      · apply himported.kept (importTurn_spec hbuilt hmiddle).1 hdocId.1
        rintro slug item hcontent hmirrored ⟨hfirstContent, htouches⟩
        obtain ⟨named, hnamed, hne, hnot⟩ := hslug hcontent
        obtain ⟨firstSlug, hfirstSlug⟩ :=
          exists_articleSlug_iff.mpr (hfirst.content hfirstContent).slug
        have hfirstNe : firstSlug ≠ "" := fun hempty =>
          (hsteady.content hfirstContent).2 (hempty ▸ hfirstSlug)
        have hsame : named = firstSlug :=
          (hmirrored.slug named hnamed hne).symm.trans (htouches firstSlug hfirstSlug hfirstNe)
        apply hnot
        rw [contentSlugs, List.filterMap_cons, if_pos hfirstContent, hfirstSlug, hsame]
        exact List.mem_cons_self
      · intro hcontent
        obtain ⟨named, hnamed, hne, hnot⟩ := hslug hcontent
        refine ⟨named, hnamed, hne, fun hmem => hnot ?_⟩
        rw [contentSlugs, List.mem_filterMap] at hmem ⊢
        obtain ⟨later, hlater, hslug⟩ := hmem
        exact ⟨later, List.mem_cons_of_mem first hlater, hslug⟩

theorem Distinct.tail (h : Distinct python (entry :: items)) : Distinct python items where
  docIds := by
    have hnodup := h.docIds
    rw [manifestDocIds_cons] at hnodup
    exact (List.nodup_append.mp hnodup).2.1
  slugs := by
    have hnodup := h.slugs
    rw [contentSlugs, List.filterMap_cons] at hnodup
    split at hnodup
    · exact hnodup
    · exact (List.nodup_cons.mp hnodup).2

/-- Once an import is over every entry is as it says, where no two name one record or slug. -/
theorem imported_of_foldlM (htaken : ∀ entry ∈ items, Taken python entry)
    (hwritable : ∀ entry ∈ items, Writable python entry)
    (hstable : ∀ entry ∈ items, Stable python entry) (hdistinct : Distinct python items)
    (h : items.foldlM (importTurn python true) state = .ok after) :
    ∀ entry ∈ items, ∃ docId defaults doc, Built python entry docId defaults ∧
      ImportedAs python entry after.store docId defaults doc := by
  induction items generalizing state with
  | nil => exact fun _ hmem => nomatch hmem
  | cons entry items ih =>
      obtain ⟨⟨docId, defaults, hbuilt⟩, htaken⟩ := List.forall_mem_cons.mp htaken
      obtain ⟨hfirst, hwritable⟩ := List.forall_mem_cons.mp hwritable
      obtain ⟨hsteady, hstable⟩ := List.forall_mem_cons.mp hstable
      rw [List.foldlM_cons] at h
      obtain ⟨middle, hmiddle, h⟩ := exists_of_bind_eq_ok h
      obtain ⟨-, ⟨doc, himported⟩, -⟩ := importTurn_spec hbuilt hmiddle
      rw [List.forall_mem_cons]
      refine ⟨⟨docId, defaults, doc, hbuilt, ?_⟩,
        ih htaken hwritable hstable hdistinct.tail h⟩
      apply kept_of_foldlM htaken hwritable hstable himported _ _ h
      · have hnodup := hdistinct.docIds
        rw [manifestDocIds_cons, manifestDocIds_of_read hbuilt.read, if_neg hbuilt.named,
          List.singleton_append, List.nodup_cons] at hnodup
        exact hnodup.1
      · intro hcontent
        obtain ⟨slug, hslug⟩ := exists_articleSlug_iff.mpr (hfirst.content hcontent).slug
        refine ⟨slug, hslug, fun hempty => (hsteady.content hcontent).2 (hempty ▸ hslug), ?_⟩
        have hnodup := hdistinct.slugs
        rw [contentSlugs, List.filterMap_cons, if_pos hcontent, hslug, List.nodup_cons] at hnodup
        exact hnodup.1

variable (state) in
/-- An import of entries that are as they say writes nothing. -/
theorem foldlM_again (hwritable : ∀ entry ∈ items, Writable python entry)
    (hstable : ∀ entry ∈ items, Stable python entry)
    (himported : ∀ entry ∈ items, ∃ docId defaults doc, Built python entry docId defaults ∧
      ImportedAs python entry state.store docId defaults doc) :
    ∃ stats, items.foldlM (importTurn python true) state = .ok { state with stats := stats } ∧
      stats.created = state.stats.created ∧ stats.updated = state.stats.updated := by
  induction items generalizing state with
  | nil => exact ⟨state.stats, rfl, rfl, rfl⟩
  | cons entry items ih =>
      obtain ⟨hfirst, hwritable⟩ := List.forall_mem_cons.mp hwritable
      obtain ⟨hsteady, hstable⟩ := List.forall_mem_cons.mp hstable
      obtain ⟨⟨docId, defaults, doc, hbuilt, hthere⟩, hrest⟩ := List.forall_mem_cons.mp himported
      obtain ⟨stats, hturn, hcreated, hupdated⟩ := importTurn_again hbuilt hthere hfirst hsteady
      obtain ⟨last, hrun, hlast⟩ := ih { state with stats := stats } hwritable hstable hrest
      rw [List.foldlM_cons, hturn]
      exact ⟨last, hrun, hlast.1.trans hcreated, hlast.2.trans hupdated⟩

/-- An import with an entry that is not kept as it says writes something. -/
theorem writes_ne_nil_of_foldlM (htaken : ∀ entry ∈ items, Taken python entry)
    (hmem : entry ∈ items) (hstable : ¬ Stable python entry)
    (h : items.foldlM (importTurn python true) state = .ok after) : after.writes ≠ [] := by
  obtain ⟨before, later, rfl⟩ := List.append_of_mem hmem
  rw [List.foldlM_append] at h
  obtain ⟨first, -, h⟩ := exists_of_bind_eq_ok h
  rw [List.foldlM_cons] at h
  obtain ⟨second, hturn, h⟩ := exists_of_bind_eq_ok h
  obtain ⟨docId, defaults, hbuilt⟩ := htaken entry hmem
  have hwrites := importTurn_writes hbuilt hstable hturn
  obtain ⟨rest, hrest⟩ := writes_of_foldlM (fun other hother => htaken other
    (List.mem_append_right before (List.mem_cons_of_mem entry hother))) h
  rw [← hrest]
  exact List.append_ne_nil_of_left_ne_nil hwrites rest

end Run

/-- The preflight keeps its promise for exactly the manifests whose values are of the types that
are written, and, where no doc_id and no slug is named twice, are stored as they are. -/
theorem importable_iff (python : Runtime ν) (items : List (Entry ν)) (store : Store) :
    (validateManifest python items = .ok [] → Importable python items store) ↔
      (validateManifest python items = .ok [] → (∀ entry ∈ items, Writable python entry) ∧
        (Distinct python items → ∀ entry ∈ items, Stable python entry)) := by
  apply forall_congr'
  intro hvalid
  have htaken := (validateManifest_iff items).mp hvalid
  constructor
  · intro h
    obtain ⟨state, hstate⟩ := h.raises
    have hrun := hstate
    rw [importManifest_eq_importEntries] at hrun
    refine ⟨(exists_foldlM_iff htaken _).mp ⟨state, hrun⟩, ?_⟩
    intro hdistinct entry hmem
    by_contra hstable
    obtain ⟨second, hsecond, hwrites, -⟩ := h.again hdistinct state hstate
    rw [importManifest_eq_importEntries] at hsecond
    exact writes_ne_nil_of_foldlM htaken hmem hstable hsecond hwrites
  · rintro ⟨hwritable, hstable⟩
    constructor
    · rw [importManifest_eq_importEntries]
      exact (exists_foldlM_iff htaken _).mpr hwritable
    · rintro before entry after rfl
      have hturns : before ++ entry :: after = (before ++ [entry]) ++ after := by simp
      rw [hturns] at htaken hwritable
      obtain ⟨state, hstate⟩ := (exists_foldlM_iff
        (fun other hother => htaken other (List.mem_append_left after hother)) _).mpr
        fun other hother => hwritable other (List.mem_append_left after hother)
      obtain ⟨docId, defaults, hbuilt⟩ := htaken entry (by simp)
      have hlast := hstate
      rw [List.foldlM_append] at hlast
      obtain ⟨middle, -, hlast⟩ := exists_of_bind_eq_ok hlast
      rw [List.foldlM_cons] at hlast
      obtain ⟨last, hturn, hlast⟩ := exists_of_bind_eq_ok hlast
      obtain rfl := Except.ok.inj hlast
      obtain ⟨-, ⟨doc, himported⟩, -⟩ := importTurn_spec hbuilt hturn
      exact ⟨_, docId, defaults, doc, hstate, hbuilt, himported⟩
    · intro hdistinct state hstate
      rw [importManifest_eq_importEntries] at hstate
      have himported := imported_of_foldlM htaken hwritable (hstable hdistinct) hdistinct hstate
      obtain ⟨stats, hrun, hcreated, hupdated⟩ :=
        foldlM_again (.start state.store) hwritable (hstable hdistinct) himported
      have hsecond := (importManifest_eq_importEntries items state.store).trans hrun
      exact ⟨_, hsecond, rfl, hcreated, hupdated⟩

/-! ## A slug that is a number -/

/-- A content entry whose slug is a number. -/
def numberedEntry : Entry Nat :=
  [("doc_id", .str "writeup-five"), ("title", .str "Five"),
    ("doc_type", .str "public_article_draft"), ("system", .str "nas"),
    ("environment", .str "homelab"), ("status", .str "active"), ("sensitivity", .str "public"),
    ("content_type", .str "guide"), ("slug", .num 5), ("published", .bool true)]

def emptyStore : Store := ⟨⟨[], by decide⟩, ⟨[], by decide⟩, ⟨[], by decide⟩, []⟩

/-- The preflight finds no problem, and the import raises. -/
theorem not_importable_number :
    ¬ (validateManifest naturals [numberedEntry] = .ok [] →
      Importable naturals [numberedEntry] emptyStore) := by
  intro h
  obtain ⟨state, hstate⟩ := (h rfl).raises
  have hraises : importManifest naturals [numberedEntry] true false emptyStore =
      .error .attributeError := rfl
  rw [hraises] at hstate
  exact nomatch hstate

end SeverinoHQ.Docs
