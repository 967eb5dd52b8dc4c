/-
# What importing an entry does

A turn of the import touches its entry's record, the technologies of projects that have none, and
the item its slug names. It raises nothing exactly when the values the write path reads are of the
types it takes, and it leaves the record, its relations and its item as the entry says.
-/

import SeverinoHQ.Docs.Importer
import SeverinoHQ.Math.Fallible

namespace SeverinoHQ.Docs

open SeverinoHQ.Math

variable {ν : Type} {python : Runtime ν}

/-! ## The values of an entry -/

def IsText (value : Document ν) : Prop := ∃ text, value = .str text

/-- The first true value under these keys, if there is one, is a text. -/
def TakesText (python : Runtime ν) (entry : Entry ν) (keys : List String) : Prop :=
  ∀ value ∈ (keys.map (get entry)).find? python.truthy, IsText value

/-- A value that slugs can be read from: a text, an object, a list without lists and objects, or
one that is not true. -/
def Relatable (python : Runtime ν) : Document ν → Prop
  | .arr items => ∀ item ∈ items, hashable item = true
  | .num value => python.isZero value = true
  | .bool value => value = false
  | _ => True

/-- The values a content entry is mirrored from are of the types that takes. -/
structure Mirrorable (python : Runtime ν) (entry : Entry ν) : Prop where
  slug : IsText (get entry "slug")
  contentType : IsText (get entry "content_type")
  tags : ∀ tags, python.firstOf [get entry "tags", get entry "technologies"] (.arr []) = .arr tags →
    ∀ tag ∈ tags, python.truthy tag = true → IsText tag

/-- The values an entry is written from are of the types the write path takes. -/
structure Writable (python : Runtime ν) (entry : Entry ν) : Prop where
  related : ∀ kind : Kind, Relatable python (get entry kind.field)
  content : isContentEntry python entry = true → Mirrorable python entry

/-- What is stored of an entry is what the entry says. -/
structure Stable (python : Runtime ν) (entry : Entry ν) : Prop where
  texts : ∀ keys ∈ [["title"], ["system", "system_service"], ["path", "obsidian_path"],
    ["github_path"], ["external_url"], ["notes"]], TakesText python entry keys
  content : isContentEntry python entry = true →
    TakesText python entry ["topic", "description", "excerpt", "system"] ∧
      articleSlug entry ≠ .ok ""

/-- An entry the contract takes: its doc_id and its values. -/
structure Built (python : Runtime ν) (entry : Entry ν) (docId : String)
    (defaults : Fields (Document ν)) : Prop where
  read : python.stripped (get entry "doc_id") = .ok docId
  named : docId ≠ ""
  built : buildRecordDefaults python entry = .ok defaults

section Values

variable {entry : Entry ν} {value : Document ν}

variable (python entry) in
theorem isText_firstOf_iff (keys : List String) (last : String) :
    IsText (python.firstOf (keys.map (get entry)) (.str last)) ↔ TakesText python entry keys := by
  rw [Runtime.firstOf, TakesText]
  cases (keys.map (get entry)).find? python.truthy with
  | none => simp [IsText]
  | some value => simp

variable (python) in
theorem isText_iff (stored : String) (value : Document ν) :
    isText stored value = true ↔ IsText value ∧ stored = python.str value := by
  cases value with
  | str text =>
      rw [isText, python.str_text, beq_iff_eq]
      constructor
      · rintro rfl
        exact ⟨⟨_, rfl⟩, rfl⟩
      · rintro ⟨-, rfl⟩
        rfl
  | _ => simp [isText, IsText]

/-- What the slugs of a true value are read from. -/
theorem relatable_iff (htrue : python.truthy value = true) :
    Relatable python value ↔ ∃ asked, elements value = .ok asked ∧ asked.all hashable = true := by
  cases value with
  | null => exact nomatch htrue
  | bool value =>
      rw [Runtime.truthy] at htrue
      simp [Relatable, elements, htrue]
  | num value =>
      rw [Runtime.truthy, Bool.not_eq_true'] at htrue
      simp [Relatable, elements, htrue]
  | str text => simp [Relatable, elements, hashable]
  | arr items => simp [Relatable, elements]
  | obj members =>
      simp only [Relatable, elements, Except.ok.injEq, exists_eq_left', true_iff, List.all_map]
      exact List.all_eq_true.mpr fun _ _ => rfl

theorem relatable_of_not_truthy (hfalse : ¬ python.truthy value = true) :
    Relatable python value := by
  cases value with
  | arr items =>
      rw [Runtime.truthy, Bool.not_eq_true', Bool.not_eq_false, List.isEmpty_iff] at hfalse
      simp [Relatable, hfalse]
  | bool value => simpa [Runtime.truthy, Relatable] using hfalse
  | num value => simpa [Runtime.truthy, Relatable] using hfalse
  | _ => exact trivial

end Values

/-! ## Rows that hold what they are given -/

section Holds

variable (stored : Fields String) (fields : Fields (Document ν))

variable (python) in
/-- A record holds values exactly when all of them are texts and it stores them. -/
theorem Fields.holds_iff : stored.holds fields = true ↔
    (∀ value ∈ [fields.title, fields.systemService, fields.obsidianPath, fields.githubPath,
      fields.externalUrl, fields.notes], IsText value) ∧ stored = fields.stored python := by
  obtain ⟨title, docType, system, environment, status, sensitivity, path, github, url, reviewed,
    published, notes⟩ := stored
  simp only [Fields.holds, Bool.and_eq_true, isText_iff python, beq_iff_eq,
    Fields.stored, Fields.mk.injEq, List.forall_mem_cons, List.not_mem_nil, false_implies,
    implies_true, and_true]
  tauto

variable (python) in
theorem ItemFields.holds_iff (stored : ItemFields String) (fields : ItemFields (Document ν)) :
    stored.holds fields = true ↔
      (∀ value ∈ [fields.title, fields.topic, fields.publishedUrl], IsText value) ∧
        stored = fields.stored python := by
  obtain ⟨title, contentType, status, topic, tags, url, published⟩ := stored
  simp only [ItemFields.holds, Bool.and_eq_true, isText_iff python, beq_iff_eq,
    ItemFields.stored, ItemFields.mk.injEq, List.forall_mem_cons, List.not_mem_nil, false_implies,
    implies_true, and_true]
  tauto

end Holds

/-! ## What is left alone -/

/-- Between two states, no record changed but one, no item but some, no registry, and no project
that had its technologies. -/
structure Frame (docId : String) (mayChange : Slug → Prop) (before after : State ν) : Prop where
  docs : ∀ other, other ≠ docId → after.store.docs.get? other = before.store.docs.get? other
  items : ∀ slug, ¬ mayChange slug → after.store.items.get? slug = before.store.items.get? slug
  registry : ∀ kind, after.store.registry kind = before.store.registry kind
  techs : ∀ slug, before.store.projects.get? slug ≠ some "" →
    after.store.projects.get? slug = before.store.projects.get? slug
  writes : before.writes <+: after.writes

section Frame

variable {docId : String} {mayChange : Slug → Prop} {before middle after : State ν}

theorem Frame.refl (before : State ν) : Frame docId mayChange before before where
  docs _ _ := rfl
  items _ _ := rfl
  registry _ := rfl
  techs _ _ := rfl
  writes := List.prefix_rfl

theorem Frame.trans (h : Frame docId mayChange before middle)
    (h' : Frame docId mayChange middle after) : Frame docId mayChange before after where
  docs other hother := (h'.docs other hother).trans (h.docs other hother)
  items slug hslug := (h'.items slug hslug).trans (h.items slug hslug)
  registry kind := (h'.registry kind).trans (h.registry kind)
  techs slug hslug := (h'.techs slug (h.techs slug hslug ▸ hslug)).trans (h.techs slug hslug)
  writes := h.writes.trans h'.writes

theorem Frame.mono {other : Slug → Prop} (h : Frame docId mayChange before after)
    (himp : ∀ slug, mayChange slug → other slug) : Frame docId other before after :=
  { h with items := fun slug hslug => h.items slug fun hmay => hslug (himp slug hmay) }

/-- Counting changes nothing. -/
theorem Frame.counted (h : Frame docId mayChange before after) (stats : Stats ν) :
    Frame docId mayChange before { after with stats := stats } :=
  { h with }

theorem Frame.saveDoc (state : State ν) (docId : String) (doc : Doc) (write : Write) :
    Frame docId mayChange state (state.saveDoc docId doc write) where
  docs other hother := by
    rw [State.saveDoc, Dict.get?_set, if_neg hother]
  items _ _ := rfl
  registry kind := by cases kind <;> rfl
  techs _ _ := rfl
  writes := List.prefix_append _ _

theorem Frame.saveItem (state : State ν) {slug : Slug} (hslug : mayChange slug) (item : Item)
    (write : Write) : Frame docId mayChange state (state.saveItem slug item write) where
  docs _ _ := rfl
  items other hother := by
    have hne : other ≠ slug := fun heq => hother (heq ▸ hslug)
    rw [State.saveItem, Dict.get?_set, if_neg hne]
  registry kind := by cases kind <;> rfl
  techs _ _ := rfl
  writes := List.prefix_append _ _

theorem Frame.saveOwn (state : State ν) (slug : Slug) (item : Item) (write : Write) :
    Frame docId (· = slug) state (state.saveItem slug item write) := by
  apply Frame.saveItem
  rfl

theorem keys_set {κ α : Type} [DecidableEq κ] {dict : Dict κ α} {key : κ} {value : α}
    (h : dict.get? key = some value) (other : α) : (dict.set key other).keys = dict.keys := by
  have hmem : key ∈ dict.keys := Dict.mem_keys_iff.mpr (by rw [h]; rfl)
  exact (Dict.map_fst_assign key other dict.items).trans (if_pos hmem)

theorem Frame.backfill (techs slug : String) (state : State ν) :
    Frame docId mayChange state (backfill techs state slug) := by
  rw [Docs.backfill]
  split
  · next hempty =>
      constructor
      · exact fun _ _ => rfl
      · exact fun _ _ => rfl
      · intro kind
        cases kind with
        | project => exact keys_set hempty techs
        | asset => rfl
      · intro other hother
        have hne : other ≠ slug := fun heq => hother (heq ▸ hempty)
        dsimp only
        rw [Dict.get?_set, if_neg hne]
      · exact List.prefix_append _ _
  · exact Frame.refl state

theorem Frame.foldl_backfill (techs : String) (projects : List String) (state : State ν) :
    Frame docId mayChange state (projects.foldl (Docs.backfill techs) state) := by
  induction projects generalizing state with
  | nil => exact Frame.refl state
  | cons slug projects ih => exact (Frame.backfill techs slug state).trans (ih _)

end Frame

/-! ## The relations of an entry -/

/-- A record's relation of a kind is to the rows the entry names, where it names any. -/
def Related (python : Runtime ν) (kind : Kind) (entry : Entry ν) (store : Store) (doc : Doc) :
    Prop :=
  python.truthy (get entry kind.field) = true → ∃ asked, elements (get entry kind.field) = .ok asked ∧
    (matching python (store.registry kind) asked).toFinset = doc.related kind

/-- The projects an entry with tags names have technologies. -/
def Backfilled (python : Runtime ν) (entry : Entry ν) (store : Store) : Prop :=
  python.truthy (get entry Kind.project.field) = true → tagList python entry ≠ [] →
    ∀ asked, elements (get entry Kind.project.field) = .ok asked →
      ∀ slug ∈ matching python (store.registry .project) asked, store.projects.get? slug ≠ some ""

section Relations

variable {docId : String} {entry : Entry ν} {kind : Kind} {state after : State ν} {doc : Doc}
  {slugs : Document ν} {changed : Bool} {found : List String}

theorem backfill_filled {techs : String} (htechs : techs ≠ "") (slug : String) (state : State ν) :
    (backfill techs state slug).store.projects.get? slug ≠ some "" := by
  rw [backfill]
  split
  · dsimp only
    rw [Dict.get?_set, if_pos rfl, ne_eq, Option.some.injEq]
    exact htechs
  · assumption

theorem foldl_backfill_filled {techs : String} (htechs : techs ≠ "") (projects : List String)
    (state : State ν) : ∀ slug ∈ projects,
      (projects.foldl (backfill techs) state).store.projects.get? slug ≠ some "" := by
  induction projects generalizing state with
  | nil => simp
  | cons first projects ih =>
      intro slug hslug
      rcases List.mem_cons.mp hslug with rfl | hmem
      · have hfirst := backfill_filled htechs slug state
        have hframe : Frame "" (fun _ => False) (backfill techs state slug) _ :=
          Frame.foldl_backfill techs projects _
        rw [List.foldl_cons, hframe.techs slug hfirst]
        exact hfirst
      · exact ih _ slug hmem

theorem foldl_backfill_docs (techs : String) (projects : List String) (state : State ν) :
    (projects.foldl (backfill techs) state).store.docs = state.store.docs := by
  induction projects generalizing state with
  | nil => rfl
  | cons slug projects ih =>
      rw [List.foldl_cons, ih, backfill]
      split <;> rfl

theorem foldl_backfill_of_filled {techs : String} {projects : List String} {state : State ν}
    (h : ∀ slug ∈ projects, state.store.projects.get? slug ≠ some "") :
    projects.foldl (backfill techs) state = state := by
  induction projects with
  | nil => rfl
  | cons first projects ih =>
      obtain ⟨hfirst, hrest⟩ := List.forall_mem_cons.mp h
      rw [List.foldl_cons, backfill, if_neg hfirst]
      exact ih hrest

theorem intercalate_ne_empty {first : String} (hfirst : first ≠ "") (rest : List String) :
    String.intercalate ", " (first :: rest) ≠ "" := by
  intro h
  have hlist := congrArg String.toList h
  rw [String.toList_intercalate] at hlist
  cases rest with
  | nil => exact hfirst (by simpa using hlist)
  | cons second rest => simp at hlist

variable (python entry) in
theorem tagList_ne_empty : ∀ tag ∈ tagList python entry, tag ≠ "" := by
  intro tag htag
  rw [tagList] at htag
  split at htag
  · simpa using (List.mem_filter.mp htag).2
  · simpa using (List.mem_filter.mp htag).2
  · exact nomatch htag

theorem syncRelation_spec (hdoc : state.store.docs.get? docId = some doc)
    (h : syncRelation python kind slugs docId state = .ok (after, changed, found)) :
    Frame docId (fun _ => False) state after ∧ after.store.projects = state.store.projects ∧
      (∃ asked, elements slugs = .ok asked ∧
        found = matching python (state.store.registry kind) asked) ∧
      ∃ doc', after.store.docs.get? docId = some doc' ∧ doc'.fields = doc.fields ∧
        found.toFinset = doc'.related kind ∧
        ∀ other, other ≠ kind → doc'.related other = doc.related other := by
  obtain ⟨asked, hasked, h⟩ := exists_of_bind_eq_ok h
  split at h
  · rw [hdoc] at h
    dsimp only at h
    split at h
    · next hsame =>
        cases h
        exact ⟨(Frame.refl state).counted _, rfl, ⟨asked, hasked, rfl⟩, doc, hdoc, rfl, hsame,
          fun _ _ => rfl⟩
    · cases h
      refine ⟨((Frame.refl state).counted _).trans (Frame.saveDoc _ docId _ _), rfl,
        ⟨asked, hasked, rfl⟩, ?_⟩
      rw [State.saveDoc, Dict.get?_set, if_pos rfl]
      exact ⟨_, rfl, rfl, (if_pos rfl).symm, fun other hother => if_neg hother⟩
  · cases h

variable (kind docId) in
theorem exists_syncRelation_iff (state : State ν) :
    (∃ out, syncRelation python kind slugs docId state = .ok out) ↔
      ∃ asked, elements slugs = .ok asked ∧ asked.all hashable = true := by
  constructor
  · rintro ⟨out, h⟩
    obtain ⟨asked, hasked, h⟩ := exists_of_bind_eq_ok h
    split at h
    · next hhash => exact ⟨asked, hasked, hhash⟩
    · cases h
  · rintro ⟨asked, hasked, hhash⟩
    have hbind : ∀ rest : List (Document ν) → Except (Failure ν) (State ν × Bool × List String),
        ((Except.ok asked : Except (Failure ν) _) >>= rest) = rest asked := fun _ => rfl
    rw [syncRelation, hasked, hbind, if_pos hhash]
    cases state.store.docs.get? docId with
    | none => exact ⟨_, rfl⟩
    | some doc =>
        dsimp only
        split
        · exact ⟨_, rfl⟩
        · exact ⟨_, rfl⟩

theorem backfillProjectTechnologies_spec (docId : String) (projects : List String)
    (entry : Entry ν) (state : State ν) :
    let after := backfillProjectTechnologies python projects entry state
    Frame docId (fun _ => False) state after ∧ after.store.docs = state.store.docs ∧
      (tagList python entry ≠ [] → ∀ slug ∈ projects, after.store.projects.get? slug ≠ some "") := by
  dsimp only
  rw [backfillProjectTechnologies]
  split
  · next hnil => exact ⟨Frame.refl state, rfl, fun hne => absurd hnil hne⟩
  · next tags hne =>
      refine ⟨Frame.foldl_backfill _ _ state, foldl_backfill_docs _ _ state, fun _ => ?_⟩
      obtain ⟨first, rest, htags⟩ := List.exists_cons_of_ne_nil hne
      have hfirst := tagList_ne_empty python entry first
        (by rw [htags]; exact List.mem_cons_self)
      rw [htags]
      exact foldl_backfill_filled (intercalate_ne_empty hfirst rest) projects state

/-- What naming relations of a kind leaves. -/
theorem relate_spec (hdoc : state.store.docs.get? docId = some doc)
    (h : relate python kind entry docId state = .ok (after, changed)) :
    Frame docId (fun _ => False) state after ∧
      (∃ doc', after.store.docs.get? docId = some doc' ∧ doc'.fields = doc.fields ∧
        Related python kind entry after.store doc' ∧
        ∀ other, other ≠ kind → doc'.related other = doc.related other) ∧
      (kind = .project → Backfilled python entry after.store) := by
  rw [relate] at h
  split at h
  · obtain ⟨⟨synced, changed', found⟩, hsync, h⟩ := exists_of_bind_eq_ok h
    obtain ⟨hframe, hprojects, ⟨asked, hasked, rfl⟩, doc', hdoc', hfields, hrelated, hothers⟩ :=
      syncRelation_spec hdoc hsync
    cases kind with
    | asset =>
        cases h
        refine ⟨hframe, ⟨doc', hdoc', hfields, ?_, hothers⟩, nofun⟩
        intro _
        exact ⟨asked, hasked, by rw [hframe.registry]; exact hrelated⟩
    | project =>
        cases h
        obtain ⟨hback, hdocs, hfilled⟩ :=
          backfillProjectTechnologies_spec docId (matching python (state.store.registry .project)
            asked) entry synced
        have hregistry := (hframe.trans hback).registry .project
        refine ⟨hframe.trans hback, ⟨doc', by rw [hdocs, hdoc'], hfields, ?_, hothers⟩, ?_⟩
        · intro _
          exact ⟨asked, hasked, by rw [hregistry]; exact hrelated⟩
        · intro _ _ htags asked' hasked' slug hslug
          rw [hasked, Except.ok.injEq] at hasked'
          subst hasked'
          rw [hregistry] at hslug
          exact hfilled htags slug hslug
  · next hfalse =>
      cases h
      refine ⟨Frame.refl state, ⟨doc, hdoc, rfl, fun htrue => absurd htrue hfalse, fun _ _ => rfl⟩,
        ?_⟩
      rintro rfl htrue
      exact absurd htrue hfalse

variable (docId) in
/-- The relations raise nothing exactly when slugs can be read from the entry's value. -/
theorem exists_relate_iff (state : State ν) :
    (∃ out, relate python kind entry docId state = .ok out) ↔
      Relatable python (get entry kind.field) := by
  by_cases htrue : python.truthy (get entry kind.field) = true
  · rw [relatable_iff htrue, ← exists_syncRelation_iff docId kind state, relate,
      if_pos htrue]
    constructor
    · rintro ⟨out, h⟩
      obtain ⟨middle, hmiddle, -⟩ := exists_of_bind_eq_ok h
      exact ⟨middle, hmiddle⟩
    · rintro ⟨⟨synced, changed, found⟩, hsync⟩
      rw [hsync]
      cases kind with
      | project => exact ⟨_, rfl⟩
      | asset => exact ⟨_, rfl⟩
  · rw [relate, if_neg htrue]
    simp [relatable_of_not_truthy htrue]

variable (state) in
/-- Relations that are as the entry says are left, and nothing is written. -/
theorem relate_again (hdoc : state.store.docs.get? docId = some doc)
    (hrelated : Related python kind entry state.store doc)
    (hfilled : kind = .project → Backfilled python entry state.store)
    (h : Relatable python (get entry kind.field)) :
    ∃ stats, relate python kind entry docId state = .ok ({ state with stats := stats }, false) ∧
      stats.created = state.stats.created ∧ stats.updated = state.stats.updated := by
  rw [relate]
  by_cases htrue : python.truthy (get entry kind.field) = true
  · obtain ⟨asked, hasked, hhash⟩ := (relatable_iff htrue).mp h
    obtain ⟨asked', hasked', hsame⟩ := hrelated htrue
    rw [hasked, Except.ok.injEq] at hasked'
    subst hasked'
    have hsync : ∃ stats : Stats ν, syncRelation python kind (get entry kind.field) docId state =
        .ok ({ state with stats := stats }, false,
          matching python (state.store.registry kind) asked) ∧
        stats.created = state.stats.created ∧ stats.updated = state.stats.updated := by
      refine ⟨{ state.stats with missingRelations := state.stats.missingRelations ++
        (missing (matching python (state.store.registry kind) asked) asked).map fun slug =>
          (docId, kind, slug) }, ?_, rfl, rfl⟩
      rw [syncRelation, hasked]
      show (if asked.all hashable = true then _ else _) = _
      rw [if_pos hhash, hdoc]
      exact if_pos hsame
    obtain ⟨stats, hsync, hcreated, hupdated⟩ := hsync
    rw [if_pos htrue, hsync]
    refine ⟨stats, ?_, hcreated, hupdated⟩
    cases kind with
    | asset => rfl
    | project =>
        show Except.ok (backfillProjectTechnologies python _ entry _, false) = _
        rw [backfillProjectTechnologies]
        split
        · rfl
        · next tags htags =>
            rw [foldl_backfill_of_filled]
            exact hfilled rfl htrue (by simpa using htags) asked hasked
  · rw [if_neg htrue]
    exact ⟨state.stats, rfl, rfl, rfl⟩

end Relations

/-! ## The item a content entry names -/

/-- An item is the one an entry is mirrored to, and says what the entry does. -/
structure MirroredTo (python : Runtime ν) (entry : Entry ν) (docId : String)
    (defaults : Fields (Document ν)) (doc : Doc) (slug : Slug) (item : Item) : Prop where
  slug : ∀ named, articleSlug entry = .ok named → named ≠ "" → slug.val = named
  fields : ∃ content, contentDefaults python entry defaults = .ok content ∧
    item.fields = content.stored python
  docs : docId ∈ item.docs
  related : item.related = doc.related

/-- The records an item is related to. -/
def Store.docsOf (store : Store) (slug : Slug) : Finset String :=
  ((store.items.get? slug).map Item.docs).getD ∅

/-- A record was added to the item of a slug: the one that is named, or a new one. -/
structure AddedTo (docId named : String) (slug : Slug) (before after : Store) : Prop where
  own : named ≠ "" → slug.val = named
  fresh : named = "" → before.items.get? slug = none
  item : ∃ item, after.items.get? slug = some item ∧ item.docs = insert docId (before.docsOf slug)
  others : ∀ other, other ≠ slug → after.items.get? other = before.items.get? other

theorem AddedTo.of_eq {docId named : String} {slug : Slug} {before middle after : Store}
    (h : AddedTo docId named slug middle after)
    (hsame : ∀ other, middle.items.get? other = before.items.get? other) :
    AddedTo docId named slug before after where
  own := h.own
  fresh hempty := (hsame slug).symm.trans (h.fresh hempty)
  item := by
    obtain ⟨item, hitem, hdocs⟩ := h.item
    rw [Store.docsOf, hsame] at hdocs
    exact ⟨item, hitem, hdocs⟩
  others other hother := (h.others other hother).trans (hsame other)

section Content

variable {docId : String} {entry : Entry ν} {defaults : Fields (Document ν)} {doc : Doc}
  {state after : State ν} {slug : Slug} {item : Item}

theorem item?_eq_some_iff {store : Store} {named : String} :
    store.item? named = some (slug, item) ↔ slug.val = named ∧ store.items.get? slug = some item := by
  rw [Store.item?]
  split
  · next hempty =>
      simp only [reduceCtorEq, false_iff, not_and]
      exact fun heq => absurd (heq.trans hempty) slug.property
  · next hne =>
      rw [Option.map_eq_some_iff]
      constructor
      · rintro ⟨found, hfound, heq⟩
        cases heq
        exact ⟨rfl, hfound⟩
      · rintro ⟨rfl, hitem⟩
        exact ⟨item, hitem, rfl⟩

variable (python) in
/-- A slug that is filled is no item's. -/
theorem get?_storedSlug (store : Store) {named : String} (h : store.item? named = none)
    (title : String) : store.items.get? (storedSlug python store named title) = none := by
  rw [storedSlug]
  split
  · have hfree := freeSlug_not_mem python store title
    cases hitem : store.items.get? ⟨_, freeSlug_ne_empty python store title⟩ with
    | none => rfl
    | some item =>
        apply absurd _ hfree
        exact List.mem_map.mpr ⟨_, Dict.mem_keys_iff.mpr (by rw [hitem]; rfl), rfl⟩
  · next hne => rwa [Store.item?, dif_neg hne, Option.map_eq_none_iff] at h

theorem get?_saveItem (state : State ν) (slug : Slug) (item : Item) (write : Write) :
    (state.saveItem slug item write).store.items.get? slug = some item := by
  rw [State.saveItem, Dict.get?_set, if_pos rfl]

variable (python) in
/-- The item that is there once the item of a slug is refreshed. -/
theorem refreshItem_spec (docId named : String) (content : ItemFields (Document ν))
    (state : State ν) : ∃ after slug item, refreshItem python named content state = (after, slug, item) ∧
      Frame docId (· = slug) state after ∧ after.store.docs = state.store.docs ∧
      after.store.items.get? slug = some item ∧ item.fields = content.stored python ∧
      item.docs = state.store.docsOf slug ∧ (named ≠ "" → slug.val = named) ∧
      (named = "" → state.store.items.get? slug = none) := by
  rw [refreshItem]
  split
  · next hnone =>
      have hfresh := get?_storedSlug python state.store hnone (python.str content.title)
      refine ⟨_, _, _, rfl, Frame.saveOwn _ _ _ _, rfl, get?_saveItem _ _ _ _, rfl, ?_, ?_,
        fun _ => hfresh⟩
      · rw [Store.docsOf, hfresh]
        rfl
      · intro hne
        rw [storedSlug, dif_neg hne]
  · next slug item hitem =>
      obtain ⟨hslug, hget⟩ := item?_eq_some_iff.mp hitem
      have hdocs : item.docs = state.store.docsOf slug := by
        rw [Store.docsOf, hget]
        rfl
      have hnamed : named = "" → state.store.items.get? slug = none := fun hempty =>
        absurd (hslug.trans hempty) slug.property
      split
      · next hholds =>
          exact ⟨_, _, _, rfl, Frame.refl state, rfl, hget,
            ((ItemFields.holds_iff python _ _).mp hholds).2, hdocs, fun _ => hslug, hnamed⟩
      · exact ⟨_, _, _, rfl, Frame.saveOwn _ _ _ _, rfl, get?_saveItem _ _ _ _, rfl, hdocs,
          fun _ => hslug, hnamed⟩

theorem addDoc_spec (docId : String) (hitem : state.store.items.get? slug = some item) :
    ∃ after added, addDoc docId slug item state = (after, added) ∧
      Frame docId (· = slug) state after ∧ after.store.docs = state.store.docs ∧
      after.store.items.get? slug = some added ∧ added.fields = item.fields ∧
      added.docs = insert docId item.docs ∧ added.related = item.related := by
  rw [addDoc]
  split
  · next hmem =>
      exact ⟨_, _, rfl, Frame.refl state, rfl, hitem, rfl, (Finset.insert_eq_of_mem hmem).symm,
        rfl⟩
  · exact ⟨_, _, rfl, Frame.saveOwn _ _ _ _, rfl, get?_saveItem _ _ _ _, rfl, rfl, rfl⟩

theorem mirror_spec (docId : String) (doc : Doc) (kind : Kind)
    (hitem : state.store.items.get? slug = some item) :
    ∃ after mirrored, mirror doc slug kind item state = (after, mirrored) ∧
      Frame docId (· = slug) state after ∧ after.store.docs = state.store.docs ∧
      after.store.items.get? slug = some mirrored ∧ mirrored.fields = item.fields ∧
      mirrored.docs = item.docs ∧ mirrored.related kind = doc.related kind ∧
      ∀ other, other ≠ kind → mirrored.related other = item.related other := by
  rw [mirror]
  split
  · next hsame => exact ⟨_, _, rfl, Frame.refl state, rfl, hitem, rfl, rfl, hsame, fun _ _ => rfl⟩
  · exact ⟨_, _, rfl, Frame.saveOwn _ _ _ _, rfl, get?_saveItem _ _ _ _, rfl, rfl,
      if_pos rfl, fun other hother => if_neg hother⟩

/-- What mirroring an entry leaves. -/
theorem upsertContentItem_spec
    (h : upsertContentItem python docId doc entry defaults state = .ok after) :
    (∃ slug item, Frame docId (· = slug) state after ∧ after.store.docs = state.store.docs ∧
      after.store.items.get? slug = some item ∧
      MirroredTo python entry docId defaults doc slug item) ∧
    ∃ named content, articleSlug entry = .ok named ∧
      contentDefaults python entry defaults = .ok content ∧
      (refreshItem python named content state).1.writes <+: after.writes ∧
      ∃ slug, AddedTo docId named slug state.store after.store := by
  obtain ⟨named, hnamed, h⟩ := exists_of_bind_eq_ok h
  obtain ⟨content, hcontent, h⟩ := exists_of_bind_eq_ok h
  obtain ⟨refreshed, slug, first, hrefresh, hframe₁, hdocs₁, hitem₁, hfields₁, hdocsOf,
    hslug, hfresh⟩ :=
    refreshItem_spec python docId named content state
  obtain ⟨added, second, hadd, hframe₂, hdocs₂, hitem₂, hfields₂, hadded, hrelated₂⟩ :=
    addDoc_spec docId hitem₁
  obtain ⟨third, item₃, hmirror₃, hframe₃, hdocs₃, hitem₃, hfields₃, hsame₃, hproject, -⟩ :=
    mirror_spec docId doc .project hitem₂
  obtain ⟨fourth, item₄, hmirror₄, hframe₄, hdocs₄, hitem₄, hfields₄, hsame₄, hasset, hkept⟩ :=
    mirror_spec docId doc .asset hitem₃
  simp only [hrefresh, hadd, hmirror₃, hmirror₄] at h
  cases h
  have hrest := (hframe₂.trans hframe₃).trans hframe₄
  have hitemDocs : item₄.docs = insert docId (state.store.docsOf slug) := by
    rw [hsame₄, hsame₃, hadded, hdocsOf]
  refine ⟨⟨slug, item₄, (hframe₁.trans hrest).counted _,
    by rw [hdocs₄, hdocs₃, hdocs₂, hdocs₁], hitem₄, ?_⟩, named, content, hnamed, hcontent,
    by rw [hrefresh]; exact hrest.writes, slug, hslug, hfresh, ⟨item₄, hitem₄, hitemDocs⟩,
    (hframe₁.trans hrest).items⟩
  constructor
  · intro other hother
    rw [hnamed, Except.ok.injEq] at hother
    exact hother ▸ hslug
  · exact ⟨content, hcontent, by rw [hfields₄, hfields₃, hfields₂, hfields₁]⟩
  · rw [hitemDocs]
    exact Finset.mem_insert_self _ _
  · funext kind
    cases kind with
    | project => rw [hkept .project nofun, hproject]
    | asset => exact hasset

/-- The texts of an item, where its record's are texts. -/
theorem isText_content_iff {content : ItemFields (Document ν)}
    (h : contentDefaults python entry defaults = .ok content) (htitle : IsText defaults.title)
    (hurl : IsText defaults.externalUrl) :
    (∀ value ∈ [content.title, content.topic, content.publishedUrl], IsText value) ↔
      TakesText python entry ["topic", "description", "excerpt", "system"] := by
  obtain ⟨_, _, h⟩ := exists_of_bind_eq_ok h
  obtain ⟨_, _, h⟩ := exists_of_bind_eq_ok h
  obtain ⟨_, _, h⟩ := exists_of_bind_eq_ok h
  cases h
  have hlink : IsText (python.firstOf [defaults.externalUrl] (.str "")) := by
    rw [Runtime.firstOf, List.find?_cons]
    split
    · exact hurl
    · exact ⟨"", rfl⟩
  have htopic := isText_firstOf_iff python entry
    ["topic", "description", "excerpt", "system"] ""
  simp only [List.forall_mem_cons, List.not_mem_nil, false_implies, implies_true, and_true, htitle,
    hlink, true_and]
  exact htopic

/-- An item is written where its entry's slug is empty, or its values are not all texts. -/
theorem refreshItem_writes {named : String} {content : ItemFields (Document ν)}
    (h : named = "" ∨
      ¬ ∀ value ∈ [content.title, content.topic, content.publishedUrl], IsText value) :
    (refreshItem python named content state).1.writes ≠ [] := by
  rw [refreshItem]
  split
  · simp [State.saveItem]
  · next slug item hitem =>
      obtain ⟨hslug, -⟩ := item?_eq_some_iff.mp hitem
      have htexts := h.resolve_left fun hempty => slug.property (hslug.trans hempty)
      have hholds : ¬ item.fields.holds content = true := fun hholds =>
        htexts ((ItemFields.holds_iff python _ _).mp hholds).1
      rw [if_neg hholds]
      simp [State.saveItem]

variable (state) in
/-- An item that says what its entry does is left, and nothing is written. -/
theorem upsertContentItem_again (hitem : state.store.items.get? slug = some item)
    (hmirrored : MirroredTo python entry docId defaults doc slug item) {named : String}
    (hnamed : articleSlug entry = .ok named) (hne : named ≠ "")
    (htexts : ∀ content, contentDefaults python entry defaults = .ok content →
      ∀ value ∈ [content.title, content.topic, content.publishedUrl], IsText value) :
    ∃ stats, upsertContentItem python docId doc entry defaults state =
      .ok { state with stats := stats } ∧
      stats.created = state.stats.created ∧ stats.updated = state.stats.updated := by
  obtain ⟨content, hcontent, hfields⟩ := hmirrored.fields
  have hfound := item?_eq_some_iff.mpr ⟨hmirrored.slug named hnamed hne, hitem⟩
  have hholds : item.fields.holds content = true :=
    (ItemFields.holds_iff python _ _).mpr ⟨htexts content hcontent, hfields⟩
  have hrefresh : refreshItem python named content state = (state, slug, item) := by
    rw [refreshItem, hfound]
    exact if_pos hholds
  have hadd : addDoc docId slug item state = (state, item) := if_pos hmirrored.docs
  have hmirror : ∀ kind, mirror doc slug kind item state = (state, item) := by
    intro kind
    exact if_pos (congrFun hmirrored.related kind)
  refine ⟨{ state.stats with contentItemsSynced := state.stats.contentItemsSynced + 1 }, ?_,
    rfl, rfl⟩
  simp only [upsertContentItem, hnamed, hcontent, bind, Except.bind, hrefresh, hadd, hmirror]

theorem exists_articleSlug_iff :
    (∃ named, articleSlug entry = .ok named) ↔ IsText (get entry "slug") := by
  rw [articleSlug, Docs.item, get]
  cases entry.lookup "slug" with
  | none => simp [bind, Except.bind, IsText]
  | some value => cases value <;> simp [bind, Except.bind, IsText]

theorem exists_stripped_iff {value : Document ν} (htrue : python.truthy value = true) :
    (∃ text, python.stripped value = .ok text) ↔ IsText value := by
  cases value <;> simp [Runtime.stripped, htrue, IsText]

theorem exists_tagsText_iff :
    (∃ text, tagsText python entry = .ok text) ↔
      ∀ tags, python.firstOf [get entry "tags", get entry "technologies"] (.arr []) = .arr tags →
        ∀ tag ∈ tags, python.truthy tag = true → IsText tag := by
  have htext : ∀ tag : Document ν, (∃ text, tagText tag = .ok text) ↔ IsText tag := by
    intro tag
    cases tag <;> simp [tagText, IsText]
  rw [tagsText]
  split
  · next tags htags =>
      rw [htags]
      constructor
      · rintro ⟨text, h⟩ _ ⟨⟩ tag htag htrue
        obtain ⟨texts, htexts, -⟩ := exists_of_bind_eq_ok h
        obtain ⟨text, htext'⟩ := exists_of_mapM_eq_ok htexts
          (List.mem_filter.mpr ⟨htag, htrue⟩)
        exact (htext tag).mp ⟨text, htext'⟩
      · intro h
        have hread : ∃ texts, (tags.filter python.truthy).mapM tagText = .ok texts := by
          apply exists_mapM_eq_ok
          intro tag htag
          obtain ⟨hmem, htrue⟩ := List.mem_filter.mp htag
          exact (htext tag).mpr (h tags rfl tag hmem htrue)
        obtain ⟨texts, htexts⟩ := hread
        exact ⟨_, by rw [htexts]; rfl⟩
  · next hnot =>
      refine ⟨fun _ tags htags => absurd htags (hnot tags), fun _ => ⟨_, rfl⟩⟩

/-- Mirroring an entry raises nothing exactly when its values are of the types that takes. -/
theorem exists_upsertContentItem_iff (hcontent : isContentEntry python entry = true)
    (hpublished : (entry.lookup "published").isSome) (docId : String) (doc : Doc)
    (defaults : Fields (Document ν)) (state : State ν) :
    (∃ out, upsertContentItem python docId doc entry defaults state = .ok out) ↔
      Mirrorable python entry := by
  have htrue : python.truthy (get entry "content_type") = true := by
    rw [isContentEntry, Bool.and_eq_true] at hcontent
    exact hcontent.2
  obtain ⟨published, hpublished⟩ := Option.isSome_iff_exists.mp hpublished
  have hitem : Docs.item entry "published" = .ok published := by
    rw [Docs.item, hpublished]
  constructor
  · rintro ⟨out, h⟩
    obtain ⟨named, hnamed, h⟩ := exists_of_bind_eq_ok h
    obtain ⟨content, hdefaults, -⟩ := exists_of_bind_eq_ok h
    obtain ⟨kind, hkind, hdefaults⟩ := exists_of_bind_eq_ok hdefaults
    obtain ⟨_, _, hdefaults⟩ := exists_of_bind_eq_ok hdefaults
    obtain ⟨tags, htags, -⟩ := exists_of_bind_eq_ok hdefaults
    exact ⟨exists_articleSlug_iff.mp ⟨named, hnamed⟩, (exists_stripped_iff htrue).mp ⟨kind, hkind⟩,
      exists_tagsText_iff.mp ⟨tags, htags⟩⟩
  · intro h
    obtain ⟨named, hnamed⟩ := exists_articleSlug_iff.mpr h.slug
    obtain ⟨kind, hkind⟩ := (exists_stripped_iff htrue).mpr h.contentType
    obtain ⟨tags, htags⟩ := exists_tagsText_iff.mpr h.tags
    simp only [upsertContentItem, contentDefaults, hnamed, hkind, hitem, htags, bind, Except.bind]
    exact ⟨_, rfl⟩

end Content

/-! ## An entry the contract takes -/

section Entry

variable {docId : String} {entry : Entry ν} {defaults : Fields (Document ν)} {state after : State ν}

/-- A content entry that is taken says whether it is published. -/
theorem Built.published (h : Built python entry docId defaults)
    (hcontent : isContentEntry python entry = true) : (entry.lookup "published").isSome := by
  obtain ⟨_, _, hbuilt⟩ := exists_of_bind_eq_ok h.built
  obtain ⟨_, hcontract, _⟩ := exists_of_bind_eq_ok hbuilt
  unfold enforceContract at hcontract
  dsimp only at hcontract
  split at hcontract
  · rw [if_pos hcontent, enforceContentContract] at hcontract
    split at hcontract
    · next hnil =>
        have hpublished := (List.append_eq_nil_iff.mp hnil).2
        cases hlookup : entry.lookup "published" with
        | none => simp [hlookup] at hpublished
        | some value => rfl
    · exact nomatch hcontract
  · exact nomatch hcontract

/-- The values an entry that is taken has for the texts of a record. -/
theorem Built.values (h : Built python entry docId defaults) :
    [defaults.title, defaults.systemService, defaults.obsidianPath, defaults.githubPath,
      defaults.externalUrl, defaults.notes] =
      [python.firstOf [get entry "title"] (.str docId),
        python.firstOf [get entry "system", get entry "system_service"] (.str ""),
        python.firstOf [get entry "path", get entry "obsidian_path"] (.str ""),
        python.firstOf [get entry "github_path"] (.str ""),
        python.firstOf [get entry "external_url"] (.str ""),
        python.firstOf [get entry "notes"] (.str "")] := by
  obtain ⟨read, hread, hbuilt⟩ := exists_of_bind_eq_ok h.built
  iterate 9 obtain ⟨_, _, hbuilt⟩ := exists_of_bind_eq_ok hbuilt
  rw [h.read, Except.ok.injEq] at hread
  cases hbuilt
  rw [hread]

/-- The values that are stored as texts. -/
theorem Built.texts_iff (h : Built python entry docId defaults) :
    (∀ value ∈ [defaults.title, defaults.systemService, defaults.obsidianPath, defaults.githubPath,
      defaults.externalUrl, defaults.notes], IsText value) ↔
      ∀ keys ∈ [["title"], ["system", "system_service"], ["path", "obsidian_path"],
        ["github_path"], ["external_url"], ["notes"]], TakesText python entry keys := by
  rw [h.values]
  simp only [List.forall_mem_cons, List.not_mem_nil, false_implies, implies_true, and_true]
  exact and_congr (isText_firstOf_iff python entry ["title"] docId)
    (and_congr (isText_firstOf_iff python entry ["system", "system_service"] "")
    (and_congr (isText_firstOf_iff python entry ["path", "obsidian_path"] "")
    (and_congr (isText_firstOf_iff python entry ["github_path"] "")
    (and_congr (isText_firstOf_iff python entry ["external_url"] "") (isText_firstOf_iff python entry ["notes"] "")))))

/-- A turn over an entry that is taken, where records that are there are updated. -/
theorem importTurn_eq (h : Built python entry docId defaults) (state : State ν) :
    importTurn python true state entry =
      (relate python .project entry docId (refreshDoc python docId defaults state).1 >>=
        fun projects => relate python .asset entry docId projects.1 >>= fun assets =>
          let refreshed := (refreshDoc python docId defaults state).2
          let stats := assets.1.stats.count refreshed.1 (refreshed.2 || projects.2 || assets.2)
          match isContentEntry python entry, assets.1.store.docs.get? docId with
          | true, some doc =>
              upsertContentItem python docId doc entry defaults { assets.1 with stats := stats }
          | _, _ => .ok { assets.1 with stats := stats }) := by
  have hskip : ((state.store.docs.get? docId).isSome && !true) = false := Bool.and_false _
  simp only [importTurn, h.read, importEntry, h.built, hskip, if_neg h.named, bind, Except.bind]
  rfl

variable (python) in
/-- The record once it is refreshed. -/
theorem refreshDoc_spec (docId : String) (defaults : Fields (Document ν)) (state : State ν) :
    Frame docId (fun _ => False) state (refreshDoc python docId defaults state).1 ∧
      ∃ doc, (refreshDoc python docId defaults state).1.store.docs.get? docId = some doc ∧
        doc.fields = defaults.stored python := by
  rw [refreshDoc]
  split
  · exact ⟨Frame.saveDoc _ _ _ _, _, by rw [State.saveDoc, Dict.get?_set, if_pos rfl], rfl⟩
  · next doc hdoc =>
      split
      · next hholds =>
          exact ⟨Frame.refl _, doc, hdoc, ((Fields.holds_iff python _ _).mp hholds).2⟩
      · exact ⟨Frame.saveDoc _ _ _ _, _, by rw [State.saveDoc, Dict.get?_set, if_pos rfl], rfl⟩

/-- A store in which an entry is as it says. -/
structure ImportedAs (python : Runtime ν) (entry : Entry ν) (store : Store) (docId : String)
    (defaults : Fields (Document ν)) (doc : Doc) : Prop where
  record : store.docs.get? docId = some doc
  fields : doc.fields = defaults.stored python
  related : ∀ kind, Related python kind entry store doc
  techs : Backfilled python entry store
  content : isContentEntry python entry = true → ∃ slug item,
    store.items.get? slug = some item ∧ MirroredTo python entry docId defaults doc slug item

/-- The items an entry may touch. -/
def Touches (python : Runtime ν) (entry : Entry ν) (slug : Slug) : Prop :=
  isContentEntry python entry = true ∧
    ∀ named, articleSlug entry = .ok named → named ≠ "" → slug.val = named

/-- What a turn leaves. -/
theorem importTurn_spec (h : Built python entry docId defaults)
    (hturn : importTurn python true state entry = .ok after) :
    Frame docId (Touches python entry) state after ∧
      (∃ doc, ImportedAs python entry after.store docId defaults doc) ∧
      (isContentEntry python entry = true → ∃ named slug, articleSlug entry = .ok named ∧
        AddedTo docId named slug state.store after.store) := by
  obtain ⟨hframe, doc, hdoc, hfields⟩ := refreshDoc_spec python docId defaults state
  rw [importTurn_eq h] at hturn
  obtain ⟨⟨projects, projectsChanged⟩, hprojects, hturn⟩ := exists_of_bind_eq_ok hturn
  obtain ⟨⟨assets, assetsChanged⟩, hassets, hturn⟩ := exists_of_bind_eq_ok hturn
  obtain ⟨hframe₁, ⟨doc₁, hdoc₁, hfields₁, hrelated₁, -⟩, hfilled₁⟩ := relate_spec hdoc hprojects
  obtain ⟨hframe₂, ⟨doc₂, hdoc₂, hfields₂, hrelated₂, hothers₂⟩, -⟩ := relate_spec hdoc₁ hassets
  have hall := (hframe.trans hframe₁).trans hframe₂
  have hrelated : ∀ kind, Related python kind entry assets.store doc₂ := by
    intro kind
    cases kind with
    | asset => exact hrelated₂
    | project =>
        intro htrue
        obtain ⟨asked, hasked, hsame⟩ := hrelated₁ htrue
        exact ⟨asked, hasked, by rw [hframe₂.registry, hsame, hothers₂ .project nofun]⟩
  have hfilled : Backfilled python entry assets.store := by
    intro htrue htags asked hasked slug hslug
    rw [hframe₂.registry] at hslug
    have hbefore := hfilled₁ rfl htrue htags asked hasked slug hslug
    rw [hframe₂.techs slug hbefore]
    exact hbefore
  dsimp only at hturn
  rw [hdoc₂] at hturn
  cases hcontent : isContentEntry python entry with
  | false =>
      rw [hcontent] at hturn
      cases hturn
      exact ⟨(hall.mono fun _ hfalse => hfalse.elim).counted _, ⟨doc₂, hdoc₂,
        by rw [hfields₂, hfields₁, hfields], hrelated, hfilled,
        fun htrue => absurd (hcontent.symm.trans htrue) nofun⟩, nofun⟩
  | true =>
      rw [hcontent] at hturn
      obtain ⟨⟨slug, item, hitems, hdocs, hitem, hmirrored⟩, named, _, hnamed, -, -, hadded⟩ :=
        upsertContentItem_spec hturn
      have htouches : ∀ other, other = slug → Touches python entry other := by
        rintro _ rfl
        exact ⟨hcontent, hmirrored.slug⟩
      have hlast := hitems.mono htouches
      have hsame : ∀ other, assets.store.items.get? other = state.store.items.get? other :=
        fun other => hall.items other id
      refine ⟨((hall.mono fun _ hfalse => hfalse.elim).counted _).trans hlast, ⟨doc₂,
        by rw [hdocs]; exact hdoc₂, by rw [hfields₂, hfields₁, hfields], ?_, ?_,
        fun _ => ⟨slug, item, hitem, hmirrored⟩⟩,
        fun _ => ⟨named, hadded.choose, hnamed, hadded.choose_spec.of_eq hsame⟩⟩
      · intro kind htrue
        obtain ⟨asked, hasked, hsame⟩ := hrelated kind htrue
        refine ⟨asked, hasked, ?_⟩
        rw [hlast.registry]
        exact hsame
      · intro htrue htags asked hasked other hother
        rw [hlast.registry] at hother
        have hbefore := hfilled htrue htags asked hasked other hother
        rw [hlast.techs other hbefore]
        exact hbefore

/-- A turn raises nothing exactly when the entry's values are of the types that are written. -/
theorem exists_importTurn_iff (h : Built python entry docId defaults) (state : State ν) :
    (∃ after, importTurn python true state entry = .ok after) ↔ Writable python entry := by
  obtain ⟨hframe, doc, hdoc, hfields⟩ := refreshDoc_spec python docId defaults state
  rw [importTurn_eq h]
  constructor
  · rintro ⟨after, hturn⟩
    obtain ⟨⟨projects, projectsChanged⟩, hprojects, hturn⟩ := exists_of_bind_eq_ok hturn
    obtain ⟨⟨assets, assetsChanged⟩, hassets, hturn⟩ := exists_of_bind_eq_ok hturn
    obtain ⟨-, ⟨doc₁, hdoc₁, -⟩, -⟩ := relate_spec hdoc hprojects
    obtain ⟨-, ⟨doc₂, hdoc₂, -⟩, -⟩ := relate_spec hdoc₁ hassets
    constructor
    · intro kind
      cases kind with
      | project => exact (exists_relate_iff docId _).mp ⟨_, hprojects⟩
      | asset => exact (exists_relate_iff docId _).mp ⟨_, hassets⟩
    · intro hcontent
      dsimp only at hturn
      rw [hcontent, hdoc₂] at hturn
      exact (exists_upsertContentItem_iff hcontent (h.published hcontent) _ _ _ _).mp ⟨_, hturn⟩
  · intro hwritable
    obtain ⟨⟨projects, projectsChanged⟩, hprojects⟩ :=
      (exists_relate_iff docId (refreshDoc python docId defaults state).1).mpr
        (hwritable.related .project)
    obtain ⟨-, ⟨doc₁, hdoc₁, -⟩, -⟩ := relate_spec hdoc hprojects
    obtain ⟨⟨assets, assetsChanged⟩, hassets⟩ :=
      (exists_relate_iff docId projects).mpr (hwritable.related .asset)
    obtain ⟨-, ⟨doc₂, hdoc₂, -⟩, -⟩ := relate_spec hdoc₁ hassets
    rw [hprojects]
    show ∃ after, (relate python .asset entry docId projects >>= _) = _
    rw [hassets]
    cases hcontent : isContentEntry python entry with
    | false => exact ⟨_, rfl⟩
    | true =>
        obtain ⟨after, hafter⟩ := (exists_upsertContentItem_iff hcontent (h.published hcontent)
          docId doc₂ defaults _).mpr (hwritable.content hcontent)
        refine ⟨after, ?_⟩
        show (match true, assets.store.docs.get? docId with
          | true, some doc => _
          | _, _ => _) = _
        rw [hdoc₂]
        exact hafter

/-- A turn over an entry that is as it says, in texts, writes nothing. -/
theorem importTurn_again (h : Built python entry docId defaults) {doc : Doc}
    (himported : ImportedAs python entry state.store docId defaults doc)
    (hwritable : Writable python entry) (hstable : Stable python entry) :
    ∃ stats, importTurn python true state entry = .ok { state with stats := stats } ∧
      stats.created = state.stats.created ∧ stats.updated = state.stats.updated := by
  have htexts := h.texts_iff.mpr hstable.texts
  have hrefresh : refreshDoc python docId defaults state = (state, false, false) := by
    rw [refreshDoc, himported.record]
    exact if_pos ((Fields.holds_iff python _ _).mpr ⟨htexts, himported.fields⟩)
  obtain ⟨first, hprojects, hcreated₁, hupdated₁⟩ := relate_again state himported.record
    (himported.related .project) (fun _ => himported.techs) (hwritable.related .project)
  obtain ⟨second, hassets, hcreated₂, hupdated₂⟩ :=
    relate_again { state with stats := first } himported.record
      (himported.related .asset) nofun (hwritable.related .asset)
  have hcount : (second.count false false).created = state.stats.created ∧
      (second.count false false).updated = state.stats.updated :=
    ⟨hcreated₂.trans hcreated₁, hupdated₂.trans hupdated₁⟩
  rw [importTurn_eq h, hrefresh, hprojects]
  show ∃ stats, (relate python .asset entry docId { state with stats := first } >>= _) = _ ∧ _
  rw [hassets]
  cases hcontent : isContentEntry python entry with
  | false => exact ⟨_, rfl, hcount⟩
  | true =>
      obtain ⟨slug, item, hitem, hmirrored⟩ := himported.content hcontent
      obtain ⟨htopic, hnonempty⟩ := hstable.content hcontent
      obtain ⟨named, hnamed⟩ := exists_articleSlug_iff.mpr (hwritable.content hcontent).slug
      have hne : named ≠ "" := fun hempty => hnonempty (hempty ▸ hnamed)
      have hitemTexts : ∀ content, contentDefaults python entry defaults = .ok content →
          ∀ value ∈ [content.title, content.topic, content.publishedUrl], IsText value := by
        intro content hdefaults
        have htitle := htexts defaults.title (by simp)
        have hurl := htexts defaults.externalUrl (by simp)
        exact (isText_content_iff hdefaults htitle hurl).mpr htopic
      obtain ⟨stats, hupsert, hcreated, hupdated⟩ := upsertContentItem_again
        { state with stats := second.count false false } hitem hmirrored hnamed hne
        hitemTexts
      refine ⟨stats, ?_, hcreated.trans hcount.1, hupdated.trans hcount.2⟩
      show (match true, state.store.docs.get? docId with
        | true, some doc => _
        | _, _ => _) = _
      rw [himported.record]
      exact hupsert

/-- A turn over an entry that is not kept as it says writes something. -/
theorem importTurn_writes (h : Built python entry docId defaults)
    (hstable : ¬ Stable python entry) (hturn : importTurn python true state entry = .ok after) :
    after.writes ≠ [] := by
  have hprefix : ∀ {writes : List Write}, writes ≠ [] → writes <+: after.writes →
      after.writes ≠ [] := by
    rintro writes hne ⟨rest, hrest⟩ hnil
    rw [hnil] at hrest
    exact hne (List.append_eq_nil_iff.mp hrest).1
  obtain ⟨hframe, doc, hdoc, -⟩ := refreshDoc_spec python docId defaults state
  rw [importTurn_eq h] at hturn
  obtain ⟨⟨projects, projectsChanged⟩, hprojects, hturn⟩ := exists_of_bind_eq_ok hturn
  obtain ⟨⟨assets, assetsChanged⟩, hassets, hturn⟩ := exists_of_bind_eq_ok hturn
  obtain ⟨hframe₁, ⟨doc₁, hdoc₁, -⟩, -⟩ := relate_spec hdoc hprojects
  obtain ⟨hframe₂, ⟨doc₂, hdoc₂, -⟩, -⟩ := relate_spec hdoc₁ hassets
  dsimp only at hturn
  rw [hdoc₂] at hturn
  have hupsert : isContentEntry python entry = true → ∃ stats : Stats ν,
      upsertContentItem python docId doc₂ entry defaults { assets with stats := stats } =
        .ok after := by
    intro hcontent
    rw [hcontent] at hturn
    exact ⟨_, hturn⟩
  have hassetsWrites : assets.writes <+: after.writes := by
    cases hcontent : isContentEntry python entry with
    | false =>
        rw [hcontent] at hturn
        cases hturn
        exact List.prefix_rfl
    | true =>
        obtain ⟨stats, hafter⟩ := hupsert hcontent
        obtain ⟨⟨slug, item, hitems, -⟩, -⟩ := upsertContentItem_spec hafter
        exact hitems.writes
  by_cases htexts : ∀ value ∈ [defaults.title, defaults.systemService, defaults.obsidianPath,
      defaults.githubPath, defaults.externalUrl, defaults.notes], IsText value
  · have hcontent : isContentEntry python entry = true := by
      by_contra hfalse
      exact hstable ⟨h.texts_iff.mp htexts, fun htrue => absurd htrue hfalse⟩
    obtain ⟨stats, hafter⟩ := hupsert hcontent
    obtain ⟨-, named, content, hnamed, hdefaults, hwrites, -⟩ := upsertContentItem_spec hafter
    refine hprefix (refreshItem_writes ?_) hwrites
    by_cases hempty : named = ""
    · exact .inl hempty
    · right
      rw [isText_content_iff hdefaults (htexts _ (by simp)) (htexts _ (by simp))]
      intro htopic
      apply hstable
      refine ⟨h.texts_iff.mp htexts, fun _ => ⟨htopic, ?_⟩⟩
      rw [hnamed, ne_eq, Except.ok.injEq]
      exact hempty
  · have hrefresh : (refreshDoc python docId defaults state).1.writes ≠ [] := by
      rw [refreshDoc]
      split
      · simp [State.saveDoc]
      · next doc _ =>
          have hholds : ¬ doc.fields.holds defaults = true := fun hholds =>
            htexts ((Fields.holds_iff python _ _).mp hholds).1
          rw [if_neg hholds]
          simp [State.saveDoc]
    exact hprefix hrefresh ((hframe₁.trans hframe₂).writes.trans hassetsWrites)

end Entry

end SeverinoHQ.Docs
