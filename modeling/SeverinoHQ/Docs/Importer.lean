/-
# The documentation manifest importer

Upserts a record for each entry of the manifest, its relations by slug and the content item it
mirrors, and reaps the records the manifest no longer names. A record is stored under its doc_id
and an item under its slug, which nothing here changes. What is written is listed as it is written.
-/

import Mathlib.Data.Finset.Card
import SeverinoHQ.Math.Dict
import SeverinoHQ.Math.Document
import SeverinoHQ.Math.Letters
import SeverinoHQ.Math.Text
import SeverinoHQ.Records.Fields

namespace SeverinoHQ.Docs

open SeverinoHQ.Math

variable {ν : Type}

/-- What is read of Python: which numbers are zero, `str`, the day of a text in ISO format,
`str.lower`, and Django's `slugify`. -/
structure Runtime (ν : Type) where
  isZero : ν → Bool
  str : Document ν → String
  str_text : ∀ text, str (.str text) = text
  fromisoformat : String → Option Int
  lower : String → String
  slugify : String → String

/-- An entry of the manifest: a JSON object. -/
abbrev Entry (ν : Type) := List (String × Document ν)

/-! ## Reading an entry -/

/-- `entry.get(key)`. -/
def get (entry : Entry ν) (key : String) : Document ν := (entry.lookup key).getD .null

/-- Whether Python takes a value as true. -/
def Runtime.truthy (python : Runtime ν) : Document ν → Bool
  | .null => false
  | .bool value => value
  | .num value => !python.isZero value
  | .str value => value != ""
  | .arr items => !items.isEmpty
  | .obj members => !members.isEmpty

/-- `first or second or ... or last`. -/
def Runtime.firstOf (python : Runtime ν) (values : List (Document ν)) (last : Document ν) :
    Document ν :=
  (values.find? python.truthy).getD last

/-- Why an entry is refused. -/
inductive Refusal (ν : Type) where
  | docId
  | required (label : String) (missing : List String)
  | content (label : String) (missing : List String)
  | start (label : String)
  | choice (field : String) (value : Document ν)
  | date (value : Document ν)

/-- A `ManifestImportError`, or what Python raises at a value of another type. -/
inductive Failure (ν : Type) where
  | manifest (refusal : Refusal ν)
  | attributeError
  | typeError
  | keyError

/-- `(value or "").strip()`. -/
def Runtime.stripped (python : Runtime ν) (value : Document ν) : Except (Failure ν) String :=
  if python.truthy value then
    match value with
    | .str text => .ok (String.ofList (Letters.strip text.toList))
    | _ => .error .attributeError
  else .ok ""

/-- `_coerce_date`. -/
def coerceDate (python : Runtime ν) (value : Document ν) : Except (Failure ν) (Option Int) :=
  if python.truthy value then
    match python.fromisoformat (python.str value) with
    | some day => .ok (some day)
    | none => .error (.manifest (.date value))
  else .ok none

/-- What a set may be asked for. -/
def hashable : Document ν → Bool
  | .arr _ => false
  | .obj _ => false
  | _ => true

/-- `_validate_choice`. -/
def validateChoice (value : Document ν) (allowed : List String) (field : String) :
    Except (Failure ν) String :=
  if hashable value then
    match value with
    | .str text => if text ∈ allowed then .ok text else .error (.manifest (.choice field value))
    | _ => .error (.manifest (.choice field value))
  else .error .typeError

/-! ## The contract -/

/-- `DOC_TYPES`. -/
def docTypes : List String :=
  ["architecture_note", "decision_record", "deployment_guide", "public_article_draft", "queue",
    "recovery_procedure", "report", "runbook", "troubleshooting_guide"]

/-- `ENVIRONMENTS`. -/
def environments : List String :=
  ["adguard", "cloudflare", "homelab", "local_mac", "other", "tailscale", "unifi", "vps",
    "wordpress"]

/-- `STATUSES`. -/
def statuses : List String := ["active", "archived", "deprecated", "draft"]

/-- `SENSITIVITIES`. -/
def sensitivities : List String := ["internal", "public", "restricted", "sensitive"]

/-- `DOC_ID_PREFIXES`. -/
def docIdStarts : List String :=
  ["rb-", "infra-", "report-", "project-", "note-", "task-", "queue-"]

/-- `REQUIRED_FIELDS`. -/
def requiredFields : List String :=
  ["doc_id", "title", "doc_type", "system", "environment", "status", "sensitivity"]

/-- `_FIELD_ALIASES.get(field, (field,))`. -/
def fieldAliases (field : String) : List String :=
  if field = "system" then ["system", "system_service"] else [field]

/-- `_is_content_entry`. -/
def isContentEntry (python : Runtime ν) (entry : Entry ν) : Bool :=
  (match get entry "doc_type" with
    | .str text => text == "public_article_draft"
    | _ => false) && python.truthy (get entry "content_type")

/-- `_is_blank`. -/
def isBlank : Document ν → Bool
  | .null => true
  | .str text => text == ""
  | .arr items => items.isEmpty
  | _ => false

/-- `_enforce_content_contract`. -/
def enforceContentContract (entry : Entry ν) (label : String) : Except (Failure ν) Unit :=
  match (if isBlank (get entry "slug") then ["slug"] else []) ++
      if (entry.lookup "published").isNone then ["published"] else [] with
  | [] => .ok ()
  | missing => .error (.manifest (.content label missing))

/-- `_enforce_contract`. -/
def enforceContract (python : Runtime ν) (entry : Entry ν) (docId : String) :
    Except (Failure ν) Unit :=
  let label := if docId = "" then "(no doc_id)" else docId
  match requiredFields.filter fun field =>
      (fieldAliases field).all fun key => isBlank (get entry key) with
  | [] =>
      if isContentEntry python entry then enforceContentContract entry label
      else if docIdStarts.any (Text.hasPrefix docId) then .ok ()
      else .error (.manifest (.start label))
  | missing => .error (.manifest (.required label missing))

/-- The fields of a record, or the values an entry has for them. -/
structure Fields (τ : Type) where
  title : τ
  docType : String
  systemService : τ
  environment : String
  status : String
  sensitivity : String
  obsidianPath : τ
  githubPath : τ
  externalUrl : τ
  lastReviewed : Option Int
  publishedAt : Option Int
  notes : τ

/-- `entry[key]`. -/
def item (entry : Entry ν) (key : String) : Except (Failure ν) (Document ν) :=
  match entry.lookup key with
  | some value => .ok value
  | none => .error .keyError

/-- `_build_record_defaults`. -/
def buildRecordDefaults (python : Runtime ν) (entry : Entry ν) :
    Except (Failure ν) (Fields (Document ν)) := do
  let docId ← python.stripped (get entry "doc_id")
  enforceContract python entry docId
  let docType ← validateChoice (← item entry "doc_type") docTypes "doc_type"
  let environment ← validateChoice (python.firstOf [get entry "environment"] (.str "other"))
    environments "environment"
  let status ← validateChoice (← item entry "status") statuses "status"
  let sensitivity ← validateChoice (python.firstOf [get entry "sensitivity"] (.str "internal"))
    sensitivities "sensitivity"
  let lastReviewed ← coerceDate python (get entry "last_reviewed")
  let publishedAt ← coerceDate python (get entry "published_at")
  .ok
    { title := python.firstOf [get entry "title"] (.str docId)
      docType := docType
      systemService := python.firstOf [get entry "system", get entry "system_service"] (.str "")
      environment := environment
      status := status
      sensitivity := sensitivity
      obsidianPath := python.firstOf [get entry "path", get entry "obsidian_path"] (.str "")
      githubPath := python.firstOf [get entry "github_path"] (.str "")
      externalUrl := python.firstOf [get entry "external_url"] (.str "")
      lastReviewed := lastReviewed
      publishedAt := publishedAt
      notes := python.firstOf [get entry "notes"] (.str "") }

structure Problem (ν : Type) where
  docId : String
  errors : List (Refusal ν)

/-- The problems of an entry: one turn of the preflight's loop. -/
def problemsOf (python : Runtime ν) (entry : Entry ν) :
    Except (Failure ν) (List (Problem ν)) := do
  let docId ← python.stripped (get entry "doc_id")
  if docId = "" then .ok [⟨"", [.docId]⟩]
  else
    match buildRecordDefaults python entry with
    | .ok _ => .ok []
    | .error (.manifest refusal) => .ok [⟨docId, [refusal]⟩]
    | .error failure => .error failure

/-- `validate_manifest_data`. -/
def validateManifest (python : Runtime ν) :
    List (Entry ν) → Except (Failure ν) (List (Problem ν))
  | [] => .ok []
  | entry :: items => do
      let problems ← problemsOf python entry
      let rest ← validateManifest python items
      .ok (problems ++ rest)

/-! ## What is stored -/

/-- The two registries a record is related to. -/
inductive Kind where
  | project
  | asset
  deriving DecidableEq, Repr

structure Doc where
  fields : Fields String
  related : Kind → Finset String

/-- The fields of a content item the importer sets, or the values an entry has for them. -/
structure ItemFields (τ : Type) where
  title : τ
  contentType : String
  status : String
  topic : τ
  tags : String
  publishedUrl : τ
  publishedAt : Option Int

structure Item where
  fields : ItemFields String
  docs : Finset String
  related : Kind → Finset String

/-- A stored slug is never empty: an item's save fills one. -/
abbrev Slug := { text : String // text ≠ "" }

structure Store where
  docs : Dict String Doc
  items : Dict Slug Item
  /-- The technologies of each project, under its slug. -/
  projects : Dict String String
  assets : List String

/-- The item with a slug. -/
def Store.item? (store : Store) (slug : String) : Option (Slug × Item) :=
  if h : slug = "" then none
  else (store.items.get? ⟨slug, h⟩).map fun item => (⟨slug, h⟩, item)

/-- The slugs a registry holds. -/
def Store.registry (store : Store) : Kind → List String
  | .project => store.projects.keys
  | .asset => store.assets

/-- What an import writes. -/
inductive Write where
  | doc (docId : String)
  | docRelated (docId : String) (kind : Kind)
  | project (slug : String)
  | item (slug : String)
  | itemDocs (slug : String)
  | itemRelated (slug : String) (kind : Kind)
  deriving DecidableEq, Repr

structure Stats (ν : Type) where
  created : Nat
  updated : Nat
  skipped : Nat
  missingRelations : List (String × Kind × Document ν)
  contentItemsSynced : Nat
  projectsTechBackfilled : Nat

/-- What an import carries from entry to entry. -/
structure State (ν : Type) where
  store : Store
  stats : Stats ν
  writes : List Write

/-- An import that has read nothing. -/
def State.start (store : Store) : State ν := ⟨store, ⟨0, 0, 0, [], 0, 0⟩, []⟩

/-- `getattr(row, field) == value`: a stored text equals only a text. -/
def isText (stored : String) : Document ν → Bool
  | .str text => text == stored
  | _ => false

/-- The fields a row stores of these values. -/
def Fields.stored (python : Runtime ν) (fields : Fields (Document ν)) : Fields String :=
  { fields with
    title := python.str fields.title
    systemService := python.str fields.systemService
    obsidianPath := python.str fields.obsidianPath
    githubPath := python.str fields.githubPath
    externalUrl := python.str fields.externalUrl
    notes := python.str fields.notes }

/-- `all(getattr(record, k) == v for k, v in defaults.items())`. -/
def Fields.holds (stored : Fields String) (fields : Fields (Document ν)) : Bool :=
  isText stored.title fields.title && stored.docType == fields.docType &&
    isText stored.systemService fields.systemService && stored.environment == fields.environment &&
    stored.status == fields.status && stored.sensitivity == fields.sensitivity &&
    isText stored.obsidianPath fields.obsidianPath && isText stored.githubPath fields.githubPath &&
    isText stored.externalUrl fields.externalUrl && stored.lastReviewed == fields.lastReviewed &&
    stored.publishedAt == fields.publishedAt && isText stored.notes fields.notes

def ItemFields.stored (python : Runtime ν) (fields : ItemFields (Document ν)) :
    ItemFields String :=
  { fields with
    title := python.str fields.title
    topic := python.str fields.topic
    publishedUrl := python.str fields.publishedUrl }

/-- `all(getattr(item, k) == v for k, v in content_defaults.items())`. -/
def ItemFields.holds (stored : ItemFields String) (fields : ItemFields (Document ν)) : Bool :=
  isText stored.title fields.title && stored.contentType == fields.contentType &&
    stored.status == fields.status && isText stored.topic fields.topic &&
    stored.tags == fields.tags && isText stored.publishedUrl fields.publishedUrl &&
    stored.publishedAt == fields.publishedAt

/-! ## Writing an entry -/

/-- The field an entry names its relations of a kind in. -/
def Kind.field : Kind → String
  | .project => "related_projects"
  | .asset => "related_assets"

/-- What a loop over a value goes through. -/
def elements : Document ν → Except (Failure ν) (List (Document ν))
  | .str text => .ok (text.toList.map fun letter => .str (String.ofList [letter]))
  | .arr items => .ok items
  | .obj members => .ok (members.map fun member => .str member.1)
  | _ => .error .typeError

/-- The slugs of a registry that `slug__in` matches: a slug is asked for as a text, and null is
not asked for. -/
def matching (python : Runtime ν) (registry : List String) (slugs : List (Document ν)) :
    List String :=
  registry.filter fun slug => slugs.any fun value =>
    match value with
    | .null => false
    | value => python.str value == slug

/-- The slugs that match nothing: another value than a text is none of them. -/
def missing (found : List String) (slugs : List (Document ν)) : List (Document ν) :=
  slugs.filter fun value =>
    match value with
    | .str text => text ∉ found
    | _ => true

/-- The record's own row, as it is stored or about to be. -/
def State.saveDoc (state : State ν) (docId : String) (doc : Doc) (write : Write) : State ν :=
  { state with
    store := { state.store with docs := state.store.docs.set docId doc }
    writes := state.writes ++ [write] }

/-- `_sync_relation`: whether the relation changed, and the slugs found. -/
def syncRelation (python : Runtime ν) (kind : Kind) (slugs : Document ν) (docId : String)
    (state : State ν) : Except (Failure ν) (State ν × Bool × List String) := do
  let asked ← elements slugs
  let found := matching python (state.store.registry kind) asked
  if asked.all hashable then
    let counted := { state with stats := { state.stats with
      missingRelations := state.stats.missingRelations ++
        (missing found asked).map fun slug => (docId, kind, slug) } }
    match state.store.docs.get? docId with
    | none => .ok (counted, false, found)
    | some doc =>
        if found.toFinset = doc.related kind then .ok (counted, false, found)
        else
          let related := fun other => if other = kind then found.toFinset else doc.related other
          .ok (counted.saveDoc docId { doc with related := related } (.docRelated docId kind),
            true, found)
  else .error .typeError

/-- `_tag_list`. -/
def tagList (python : Runtime ν) (entry : Entry ν) : List String :=
  let stripped := fun text : String => String.ofList (Letters.strip text.toList)
  match python.firstOf [get entry "tags", get entry "technologies"] (.arr []) with
  | .arr tags => (tags.map fun tag => stripped (python.str tag)).filter (· != "")
  | .str text =>
      ((Text.split ',' text.toList).map fun tag => stripped (String.ofList tag)).filter (· != "")
  | _ => []

/-- One turn of the loop over the projects. -/
def backfill (techs : String) (state : State ν) (slug : String) : State ν :=
  if state.store.projects.get? slug = some "" then
    { store := { state.store with projects := state.store.projects.set slug techs }
      stats := { state.stats with
        projectsTechBackfilled := state.stats.projectsTechBackfilled + 1 }
      writes := state.writes ++ [.project slug] }
  else state

/-- `_backfill_project_technologies`. -/
def backfillProjectTechnologies (python : Runtime ν) (projects : List String) (entry : Entry ν)
    (state : State ν) : State ν :=
  match tagList python entry with
  | [] => state
  | tags => projects.foldl (backfill (String.intercalate ", " tags)) state

/-- The relations of one kind, where the entry names any. -/
def relate (python : Runtime ν) (kind : Kind) (entry : Entry ν) (docId : String)
    (state : State ν) : Except (Failure ν) (State ν × Bool) :=
  if python.truthy (get entry kind.field) then do
    let (after, changed, found) ← syncRelation python kind (get entry kind.field) docId state
    match kind with
    | .project => .ok (backfillProjectTechnologies python found entry after, changed)
    | .asset => .ok (after, changed)
  else .ok (state, false)

/-- `CONTENT_TYPE_MAP`. -/
def contentTypeMap : List (String × String) :=
  [("portfolio_article", "portfolio_page"), ("blog_post", "article"),
    ("lab_writeup", "lab_writeup"), ("case_study", "case_study"), ("guide", "guide"),
    ("review", "review"), ("video", "video"), ("service_page", "service_page"), ("page", "page")]

/-- A text of a list to be joined. -/
def tagText : Document ν → Except (Failure ν) String
  | .str text => .ok text
  | _ => .error .typeError

/-- The tags as one text. -/
def tagsText (python : Runtime ν) (entry : Entry ν) : Except (Failure ν) String :=
  match python.firstOf [get entry "tags", get entry "technologies"] (.arr []) with
  | .arr tags => do
      let texts ← (tags.filter python.truthy).mapM tagText
      .ok (String.intercalate ", " texts)
  | tags => .ok (python.str tags)

/-- The slug a content entry names. -/
def articleSlug (entry : Entry ν) : Except (Failure ν) String := do
  match ← item entry "slug" with
  | .str text => .ok (String.ofList (Letters.strip text.toList))
  | _ => .error .attributeError

/-- The fields of the item an entry mirrors to. -/
def contentDefaults (python : Runtime ν) (entry : Entry ν) (defaults : Fields (Document ν)) :
    Except (Failure ν) (ItemFields (Document ν)) := do
  let contentType ← python.stripped (get entry "content_type")
  let published ← item entry "published"
  let tags ← tagsText python entry
  .ok
    { title := defaults.title
      contentType := (contentTypeMap.lookup (python.lower contentType)).getD "portfolio_page"
      status := if python.truthy published then "published" else "draft"
      topic := python.firstOf [get entry "topic", get entry "description", get entry "excerpt",
        get entry "system"] (.str "")
      tags := tags
      publishedUrl := python.firstOf [defaults.externalUrl] (.str "")
      publishedAt := defaults.publishedAt }

/-- `free_slug`: the first slug no other item holds. -/
def freeSlug (python : Runtime ν) (store : Store) (title : String) : String :=
  let base := Records.orText
    (Records.clippedSlug 216 (Records.orText (python.slugify title) "content-item")) "content-item"
  let taken := (store.items.keys.map Subtype.val).filter fun slug => Text.hasPrefix slug base
  if base ∈ taken then Records.firstFree taken base taken.length 2 else base

theorem freeSlug_ne_empty (python : Runtime ν) (store : Store) (title : String) :
    freeSlug python store title ≠ "" := by
  rw [freeSlug]
  split
  · exact Records.firstFree_ne_empty _ _ _ _
  · exact Records.ne_empty_orText (by decide)

theorem freeSlug_not_mem (python : Runtime ν) (store : Store) (title : String) :
    freeSlug python store title ∉ store.items.keys.map Subtype.val := by
  rw [freeSlug]
  split
  · -- What is tried has the base in front, so a slug in its way is among those that are looked at.
    intro hmem
    exact Records.firstFree_not_mem _ _ 2
      (List.mem_filter.mpr ⟨hmem, Records.hasPrefix_firstFree _ _ _ _⟩)
  · next hfree =>
      intro hmem
      apply hfree
      rw [List.mem_filter]
      refine ⟨hmem, ?_⟩
      rw [Text.hasPrefix, List.isPrefixOf_iff_prefix]

/-- The slug an item is stored under: its own, or one its save fills. -/
def storedSlug (python : Runtime ν) (store : Store) (slug title : String) : Slug :=
  if h : slug = "" then ⟨freeSlug python store title, freeSlug_ne_empty python store title⟩
  else ⟨slug, h⟩

/-- The item's own row, as it is stored or about to be. -/
def State.saveItem (state : State ν) (slug : Slug) (item : Item) (write : Write) : State ν :=
  { state with
    store := { state.store with items := state.store.items.set slug item }
    writes := state.writes ++ [write] }

/-- `ContentItem.objects.get_or_create`, and the refresh of an item that was there. -/
def refreshItem (python : Runtime ν) (slug : String) (defaults : ItemFields (Document ν))
    (state : State ν) : State ν × Slug × Item :=
  match state.store.item? slug with
  | none =>
      let slug := storedSlug python state.store slug (python.str defaults.title)
      let item : Item := ⟨defaults.stored python, ∅, fun _ => ∅⟩
      (state.saveItem slug item (.item slug), slug, item)
  | some (slug, item) =>
      if item.fields.holds defaults then (state, slug, item)
      else
        let refreshed := { item with fields := defaults.stored python }
        (state.saveItem slug refreshed (.item slug), slug, refreshed)

/-- `item.related_documentation.add(record)`, where it is not there. -/
def addDoc (docId : String) (slug : Slug) (item : Item) (state : State ν) : State ν × Item :=
  if docId ∈ item.docs then (state, item)
  else
    let added := { item with docs := insert docId item.docs }
    (state.saveItem slug added (.itemDocs slug), added)

/-- The document's relations of a kind, mirrored onto the item. -/
def mirror (doc : Doc) (slug : Slug) (kind : Kind) (item : Item) (state : State ν) :
    State ν × Item :=
  if item.related kind = doc.related kind then (state, item)
  else
    let related := fun other => if other = kind then doc.related kind else item.related other
    let mirrored := { item with related := related }
    (state.saveItem slug mirrored (.itemRelated slug kind), mirrored)

/-- `_upsert_content_item`. -/
def upsertContentItem (python : Runtime ν) (docId : String) (doc : Doc) (entry : Entry ν)
    (defaults : Fields (Document ν)) (state : State ν) : Except (Failure ν) (State ν) := do
  let slug ← articleSlug entry
  let content ← contentDefaults python entry defaults
  let (state, slug, item) := refreshItem python slug content state
  let (state, item) := addDoc docId slug item state
  let (state, item) := mirror doc slug .project item state
  let (state, _) := mirror doc slug .asset item state
  .ok { state with stats := { state.stats with
    contentItemsSynced := state.stats.contentItemsSynced + 1 } }

/-- `DocumentationRecord.objects.get_or_create`, and the refresh of a record that was there:
whether it was created, and whether it changed. -/
def refreshDoc (python : Runtime ν) (docId : String) (defaults : Fields (Document ν))
    (state : State ν) : State ν × Bool × Bool :=
  match state.store.docs.get? docId with
  | none => (state.saveDoc docId ⟨defaults.stored python, fun _ => ∅⟩ (.doc docId), true, true)
  | some doc =>
      if doc.fields.holds defaults then (state, false, false)
      else (state.saveDoc docId { doc with fields := defaults.stored python } (.doc docId),
        false, true)

/-- The count an entry goes under. -/
def Stats.count (stats : Stats ν) (created changed : Bool) : Stats ν :=
  if created then { stats with created := stats.created + 1 }
  else if changed then { stats with updated := stats.updated + 1 }
  else { stats with skipped := stats.skipped + 1 }

/-- `_import_entry`. -/
def importEntry (python : Runtime ν) (updateExisting : Bool) (docId : String) (entry : Entry ν)
    (state : State ν) : Except (Failure ν) (State ν) := do
  let defaults ← buildRecordDefaults python entry
  if (state.store.docs.get? docId).isSome && !updateExisting then
    .ok { state with stats := state.stats.count false false }
  else
    let (state, created, changed) := refreshDoc python docId defaults state
    let (state, projectsChanged) ← relate python .project entry docId state
    let (state, assetsChanged) ← relate python .asset entry docId state
    let stats := state.stats.count created (changed || projectsChanged || assetsChanged)
    let state := { state with stats := stats }
    match isContentEntry python entry, state.store.docs.get? docId with
    | true, some doc => upsertContentItem python docId doc entry defaults state
    | _, _ => .ok state

/-- One turn of the loop over the manifest. -/
def importTurn (python : Runtime ν) (updateExisting : Bool) (state : State ν) (entry : Entry ν) :
    Except (Failure ν) (State ν) := do
  let docId ← python.stripped (get entry "doc_id")
  if docId = "" then .ok { state with stats := state.stats.count false false }
  else importEntry python updateExisting docId entry state

/-- The doc_ids a manifest names. -/
def manifestDocIds (python : Runtime ν) (items : List (Entry ν)) : List String :=
  items.filterMap fun entry =>
    match python.stripped (get entry "doc_id") with
    | .ok docId => if docId = "" then none else some docId
    | .error _ => none

/-! ## Reaping -/

/-- The joined rows of an item: the related documents that `related_documentation__in` keeps. -/
def joined (orphans : List String) (item : Item) : Finset String :=
  item.docs.filter (· ∈ orphans)

/-- The items to prune: those with a joined row, whose rows and orphan rows are as many. -/
def toPrune (orphans : List String) (item : Item) : Bool :=
  decide (joined orphans item ≠ ∅) &&
    (joined orphans item).card == ((joined orphans item).filter (· ∈ orphans)).card

/-- What deleting records leaves of an item's relations. -/
def Item.without (orphans : List String) (item : Item) : Item :=
  { item with docs := item.docs.filter (· ∉ orphans) }

/-- The records the manifest does not name. -/
def orphansOf (named : List String) (store : Store) : List String :=
  store.docs.keys.filter (· ∉ named)

/-- `_reap_orphans`, as far as it deletes: the pruned items, then the orphans. -/
def reapOrphans (named : List String) (prune : Bool) (store : Store) : Store :=
  let orphans := orphansOf named store
  if prune && !orphans.isEmpty then
    let kept := store.items.keep fun entry => !toPrune orphans entry.2
    { store with
      items := ⟨kept.items.map fun entry => (entry.1, entry.2.without orphans), by
        rw [List.map_map]
        exact kept.nodup⟩
      docs := store.docs.keep fun entry => entry.1 ∉ orphans }
  else store

/-- The entries, imported one after the other. -/
def importEntries (python : Runtime ν) (updateExisting : Bool) (items : List (Entry ν))
    (store : Store) : Except (Failure ν) (State ν) :=
  items.foldlM (importTurn python updateExisting) (.start store)

/-- `import_manifest_data`: the state it leaves, where it raises nothing. -/
def importManifest (python : Runtime ν) (items : List (Entry ν)) (updateExisting prune : Bool)
    (store : Store) : Except (Failure ν) (State ν) := do
  let state ← importEntries python updateExisting items store
  .ok { state with store := reapOrphans (manifestDocIds python items) prune state.store }

/-- A runtime whose numbers are naturals, and that reads no day. -/
def naturals : Runtime Nat where
  isZero := (· == 0)
  str := fun value => match value with
    | .str text => text
    | _ => ""
  str_text _ := rfl
  fromisoformat _ := none
  lower := id
  slugify := id

end SeverinoHQ.Docs
