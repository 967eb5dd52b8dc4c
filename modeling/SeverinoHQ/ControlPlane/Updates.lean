/-
# Overlapping updates of a declaration

A declaration is saved as every record is, over the row as locked, with one
difference: its spec is always validated under the kind it will have, and
written as that leaves it. A save that sends no spec therefore writes the locked
row's spec as the written kind's check makes it, which another kind's defaults
may add to.
-/

import SeverinoHQ.ControlPlane.Dependents
import SeverinoHQ.Records.Updates

namespace SeverinoHQ.ControlPlane

open SeverinoHQ.Math

/-! ## The service -/

/-- What a field of a declaration's command holds. -/
inductive Setting where
  | text (value : String)
  | document (value : Json)
  | switch (value : Bool)
  deriving DecidableEq, Repr

/-- A declaration's value for a field of its command. -/
def Declaration.setting (declaration : Declaration) : CommandField → Setting
  | .key => .text declaration.key
  | .kind => .text declaration.kind
  | .spec => .document declaration.spec
  | .enabled => .switch declaration.enabled

/-- The authored part of the row under a primary key. -/
def Database.declared? (db : Database) (id : Id) : Option Declaration :=
  db.declarations.find? fun declaration => declaration.id == id

/-- Whether a save sets a field. -/
def SaveCall.sends (call : SaveCall) (field : CommandField) : Bool :=
  call.sent.all (·.contains field)

/-- The authored part a save writes over a locked row, its spec still to be validated. -/
def SaveCall.laid (call : SaveCall) (locked : ManagedResource) : Declaration where
  id := locked.id
  key := if call.sends .key then call.command.key else locked.key
  kind := if call.sends .kind then call.command.kind else locked.kind
  spec := if call.sends .spec then call.command.spec else locked.spec
  enabled := if call.sends .enabled then call.command.enabled else locked.enabled

/-- The fields of a declaration to change. -/
structure Patch where
  key : Option String
  kind : Option String
  spec : Option Json
  enabled : Option Bool
  deriving DecidableEq, Repr

/-- The fields a patch sends. -/
def Patch.sent (patch : Patch) : List CommandField :=
  (if patch.key.isSome then [.key] else []) ++ (if patch.kind.isSome then [.kind] else [])
    ++ (if patch.spec.isSome then [.spec] else [])
    ++ (if patch.enabled.isSome then [.enabled] else [])

/-- What is asked of the declarations' save, in an environment of its own. -/
inductive DeclarationRequest where
  | change (env : Environment) (principal : Principal) (current : String)
      (expectedUpdatedAt : Option Moment) (copiedFromLive : Bool) (patch : Patch)
  | whole (env : Environment) (call : SaveCall)

/-- `_stored` and `validate_command`: the row as it is now, with what was sent over it. -/
def prepareDeclaration (db : Database) :
    DeclarationRequest → Except Raised (Environment × SaveCall)
  | .change env principal current expectedUpdatedAt copiedFromLive patch =>
      match db.resourceNamed? current with
      | none => .error (.recordNotFound "That record was not found.")
      | some resource => .ok (env, {
          command := {
            key := patch.key.getD resource.key
            kind := patch.kind.getD resource.kind
            spec := patch.spec.getD resource.spec
            enabled := patch.enabled.getD resource.enabled }
          principal := principal
          currentKey := some current
          expectedUpdatedAt := expectedUpdatedAt
          copiedFromLive := copiedFromLive
          sent := some patch.sent })
  | .whole env call => .ok (env, call)

/-- `save_managed_resource` over one provider registry's checks. -/
def declarationSaver (validateSpec : String → Json → Except Raised Json) :
    Serial.Service Database Moment DeclarationRequest (Environment × SaveCall)
      Raised where
  prepare := prepareDeclaration
  transact now call db :=
    (saveManagedResource { call.1 with validateSpec := validateSpec } now call.2 db).map Prod.snd

/-! ## One save -/

section OneSave

variable {env : Environment} {now : Moment} {call : SaveCall} {db stored : Database}

theorem declared?_eq (id : Id) :
    db.declared? id = (db.resource? id).map ManagedResource.declaration := by
  unfold Database.declared? Database.declarations Database.resource?
  rw [List.find?_map]
  rfl

theorem saveResource_declared? (resource : ManagedResource) (id : Id) :
    (db.saveResource resource).declared? id =
      (db.declared? id).map fun declaration =>
        if declaration.id == resource.id then resource.declaration else declaration := by
  have hrows : (db.saveResource resource).declarations =
      Table.update db.declarations (fun row => row.id == resource.declaration.id)
        fun _ => resource.declaration := by
    unfold Database.saveResource Database.updateResources Database.declarations Table.update
    rw [List.map_map, List.map_map]
    apply List.map_congr_left
    intro row _
    by_cases hown : row.id = resource.id <;> simp [hown, ManagedResource.declaration]
  unfold Database.declared?
  rw [hrows]
  exact Table.find?_replace Declaration.id db.declarations resource.declaration id

/-- The dependents' pass and the operations queued leave what was authored. -/
theorem save_declarations (hsound : db.Sound) {prepared : PreparedSave}
    (h : saveManagedResource env now call db = .ok (prepared, stored)) :
    stored.declarations = (writeSaved now prepared db).declarations := by
  obtain ⟨hprepare, moved, hmoved, hresources⟩ := saveManagedResource_eq_ok h
  have hids := ((writeSaved_transaction hprepare).1.sound_later hsound).1.resource_ids
  have hstored : stored.declarations = moved.declarations := by
    rw [Database.declarations, Database.declarations, hresources]
  rw [hstored]
  unfold advanceAfter at hmoved
  split_ifs at hmoved
  · exact advanceDependents_declarations hids hmoved
  · cases hmoved
    rfl

/-- A save, by the row it started from. -/
theorem save_eq_ok (hsound : db.Sound) {prepared : PreparedSave}
    (h : saveManagedResource env now call db = .ok (prepared, stored)) :
    (call.currentKey = none ∧ ∀ id declaration, db.declared? id = some declaration →
        stored.declared? id = some declaration) ∨
      ∃ key locked validated, call.currentKey = some key ∧
        held db key call.expectedUpdatedAt = .ok locked ∧ locked ∈ db.resources ∧
        env.validateSpec (call.laid locked).kind (call.laid locked).spec = .ok validated ∧
        ∀ id, stored.declared? id = (db.declared? id).map fun declaration =>
          if declaration.id == locked.id then { call.laid locked with spec := validated }
          else declaration := by
  have hdeclarations := save_declarations hsound h
  have hwritten : ∀ id, stored.declared? id = (writeSaved now prepared db).declared? id := by
    intro id
    unfold Database.declared?
    rw [hdeclarations]
  obtain ⟨resource, validated, hstart, hvalidated, rfl⟩ :=
    exists_declared_of_prepareSave (saveManagedResource_eq_ok h).1
  cases hkey : call.currentKey with
  | none =>
      refine Or.inl ⟨rfl, fun id declaration hfound => ?_⟩
      rw [hwritten, hkey]
      unfold Database.declared? Database.declarations at hfound ⊢
      rw [writeSaved_resources]
      simp only [declared, Option.isNone_none, if_true, List.map_append, List.find?_append, hfound,
        Option.some_or]
  | some key =>
      simp only [SaveCall.start, hkey] at hstart
      have heffective : call.effective resource = written call.command call.sent resource := by
        simp only [SaveCall.effective, hkey]
      rw [heffective] at hvalidated hwritten
      refine Or.inr ⟨key, resource, validated, rfl, hstart, mem_of_held hstart, hvalidated,
        fun id => ?_⟩
      have hrows : (writeSaved now (declared env now db call.currentKey.isNone resource
          (written call.command call.sent resource) validated) db).declarations =
          (db.saveResource (declared env now db call.currentKey.isNone resource
            (written call.command call.sent resource) validated).resource).declarations := by
        unfold Database.declarations
        rw [writeSaved_resources, hkey]
        rfl
      rw [hwritten, Database.declared?, hrows]
      exact saveResource_declared? _ id

theorem declared?_of_mem (hsound : db.Sound) {resource : ManagedResource}
    (hresource : resource ∈ db.resources) :
    db.declared? resource.id = some resource.declaration := by
  have hfound : (db.resource? resource.id).isSome = true := by
    rw [Database.resource?, List.find?_isSome]
    exact ⟨resource, hresource, by simp⟩
  obtain ⟨other, hother⟩ := Option.isSome_iff_exists.mp hfound
  obtain ⟨hmem, hid⟩ := Database.mem_of_resource? hother
  rw [declared?_eq, hother, Table.eq_of_column_eq hsound.resource_ids hmem hresource hid]
  rfl

/-- A save leaves every field it was not sent, of every row, as it found it, and
an unsent spec as one of the registry's checks makes it. -/
theorem save_setting (hsound : db.Sound) {prepared : PreparedSave}
    (h : saveManagedResource env now call db = .ok (prepared, stored)) {id : Id}
    {field : CommandField} (hunsent : call.currentKey = none ∨ call.sends field = false)
    {declaration : Declaration} (hbefore : db.declared? id = some declaration) :
    ∃ after, stored.declared? id = some after ∧
      (after.setting field = declaration.setting field ∨
        field = .spec ∧ ∃ kind, env.validateSpec kind declaration.spec = .ok after.spec) := by
  rcases save_eq_ok hsound h with ⟨-, hkept⟩ |
    ⟨key, locked, validated, hkey, -, hlocked, hvalidated, hafter⟩
  · exact ⟨declaration, hkept id declaration hbefore, Or.inl rfl⟩
  · rw [hafter, hbefore, Option.map_some]
    refine ⟨_, rfl, ?_⟩
    split_ifs with hown
    · have hid : declaration.id = id := by
        simpa using List.find?_some (p := fun row : Declaration => row.id == id) hbefore
      have hsame : declaration = locked.declaration := by
        have hfound := declared?_of_mem hsound hlocked
        rw [← (by simpa using hown : declaration.id = locked.id), hid, hbefore] at hfound
        exact Option.some.inj hfound
      have hsends : call.sends field = false := by
        rcases hunsent with hnone | hsends
        · rw [hkey] at hnone
          cases hnone
        · exact hsends
      rw [hsame]
      cases field with
      | spec =>
          have hspec : (call.laid locked).spec = locked.spec := by simp [SaveCall.laid, hsends]
          rw [hspec] at hvalidated
          exact Or.inr ⟨rfl, _, hvalidated⟩
      | _ =>
          refine Or.inl ?_
          simp [Declaration.setting, SaveCall.laid, hsends, ManagedResource.declaration]
    · exact Or.inl rfl

/-- A save that expects the row as it no longer is, is refused. -/
theorem save_stale {key : String} {record : ManagedResource} {expected : Moment}
    (hkey : call.currentKey = some key) (hexpected : call.expectedUpdatedAt = some expected)
    (hrecord : db.resourceNamed? key = some record) (hstale : record.updatedAt ≠ expected) :
    saveManagedResource env now call db =
      .error (.recordConflict "That record changed after it was read.") := by
  have hheld : held db key call.expectedUpdatedAt =
      .error (.recordConflict "That record changed after it was read.") := by
    simp [held, hrecord, hexpected, hstale.symm]
  unfold saveManagedResource prepareSave
  simp only [SaveCall.start, hkey, hheld]
  rfl

end OneSave

/-! ## Every run -/

section EveryRun

variable (validateSpec : String → Json → Except Raised Json)

/-- A write that leaves a field of a declaration alone: a save that was not sent
it, or something else that did not touch it. -/
def LeavesSetting (id : Id) (field : CommandField)
    (write : Serial.Write Database Moment (Environment × SaveCall)) : Prop :=
  match write.call with
  | some (_, call) => call.currentKey = none ∨ call.sends field = false
  | none => (write.after.declared? id).map (·.setting field) =
      (write.before.declared? id).map (·.setting field)

/-- A spec as some kind's check makes another. -/
def Revalidates (spec after : Json) : Prop := ∃ kind, validateSpec kind spec = .ok after

/-- A setting as later saves that are not sent it may leave it: as it is, and a
spec as their checks make it one after another. -/
def Carried : Setting → Setting → Prop
  | .document spec, .document after => Relation.ReflTransGen (Revalidates validateSpec) spec after
  | setting, after => after = setting

theorem carried_refl (setting : Setting) : Carried validateSpec setting setting := by
  cases setting with
  | document spec => exact .refl
  | _ => rfl

variable {validateSpec} in
theorem Carried.revalidate {setting : Setting} {declaration after : Declaration}
    (h : Carried validateSpec setting (declaration.setting .spec))
    (hstep : ∃ kind, validateSpec kind declaration.spec = .ok after.spec) :
    Carried validateSpec setting (after.setting .spec) := by
  cases setting with
  | document spec => exact h.tail hstep
  | _ => cases h

/-- What holds of the declarations' saves at any point of a run. -/
structure DeclarationsPersisting
    (state : Serial.State Database Moment (Environment × SaveCall) Raised) : Prop where
  /-- Each update wrote the fields it was sent over the row as it locked it, the
  spec as the written kind's check leaves it. -/
  locked : ∀ write ∈ state.writes, ∀ env call key, write.call = some (env, call) →
    call.currentKey = some key →
    ∃ locked validated, held write.before key call.expectedUpdatedAt = .ok locked ∧
      validateSpec (call.laid locked).kind (call.laid locked).spec = .ok validated ∧
      write.after.declared? locked.id = some { call.laid locked with spec := validated }
  /-- What a write left in a field is carried until a save is sent that field. -/
  persists : ∀ earlier write later, state.writes = earlier ++ write :: later →
    ∀ id field declaration, write.after.declared? id = some declaration →
      (∀ other ∈ later, LeavesSetting id field other) →
        ∃ last, state.store.declared? id = some last ∧
          Carried validateSpec (declaration.setting field) (last.setting field)
  /-- A save that expects a row it no longer finds so is refused, and writes nothing. -/
  stale : ∀ env call db key record expected, state.opened = some ((env, call), db) →
    call.currentKey = some key → call.expectedUpdatedAt = some expected →
    db.resourceNamed? key = some record → record.updatedAt ≠ expected →
      ((declarationSaver validateSpec).step state .finish).store = state.store ∧
        ((declarationSaver validateSpec).step state .finish).writes = state.writes ∧
        ∃ error, ((declarationSaver validateSpec).step state .finish).refusals =
          state.refusals ++ [⟨(env, call), state.now, db, error⟩]

variable {validateSpec}

theorem save_of_transact {now : Moment} {env : Environment} {call : SaveCall}
    {db stored : Database}
    (h : (declarationSaver validateSpec).transact now (env, call) db = .ok stored) :
    ∃ prepared, saveManagedResource { env with validateSpec := validateSpec } now call db =
      .ok (prepared, stored) := by
  obtain ⟨⟨prepared, after⟩, hsaved, rfl⟩ := exists_of_map_eq_ok h
  exact ⟨prepared, hsaved⟩

theorem declarationSaver_persisting {start : Database} (hstart : start.Sound) (now : Moment)
    {events : List (Serial.Event Database Moment DeclarationRequest)}
    (hevents : ∀ event ∈ events, event.Permitted Database.Sound) :
    DeclarationsPersisting validateSpec
      (run (declarationSaver validateSpec).step (Serial.State.initial start now) events) := by
  have hrun := Serial.run_sound (declarationSaver validateSpec) start now hevents
  obtain ⟨-, hsound⟩ := hrun.invariant hstart fun _ _ _ _ hbefore hsaved => by
    obtain ⟨prepared, hsaved⟩ := save_of_transact hsaved
    exact ((saveManagedResource_transaction hbefore hsaved).sound_later hbefore).1
  refine ⟨?_, ?_, ?_⟩
  · intro write hwrite env call key hcall hkey
    have hbefore := hsound write hwrite
    obtain ⟨prepared, hsaved⟩ := save_of_transact (hrun.committed write hwrite _ hcall)
    rcases save_eq_ok hbefore hsaved with ⟨hnone, -⟩ |
      ⟨other, locked, validated, hother, hheld, hlocked, hvalidated, hafter⟩
    · rw [hkey] at hnone
      cases hnone
    · obtain rfl := Option.some.inj (hkey.symm.trans hother)
      refine ⟨locked, validated, hheld, hvalidated, ?_⟩
      rw [hafter, declared?_of_mem hbefore hlocked]
      simp [ManagedResource.declaration]
  · intro earlier write later hwrites id field declaration hwrote hlater
    have hlinked := hrun.linked
    rw [hwrites] at hlinked
    have hmem : ∀ other ∈ later, other ∈ (run (declarationSaver validateSpec).step
        (Serial.State.initial start now) events).writes := by
      intro other hother
      rw [hwrites]
      simp [hother]
    refine (hlinked.after.invariant (fun db => ∃ last, db.declared? id = some last ∧
      Carried validateSpec (declaration.setting field) (last.setting field))
      ⟨declaration, hwrote, carried_refl validateSpec _⟩ fun other hother hbefore => ?_).1
    obtain ⟨last, hlast, hcarried⟩ := hbefore
    have hleaves := hlater other hother
    unfold LeavesSetting at hleaves
    split at hleaves
    · next env call hcall =>
        obtain ⟨prepared, hsaved⟩ :=
          save_of_transact (hrun.committed other (hmem other hother) _ hcall)
        obtain ⟨after, hafter, hsame | ⟨rfl, hvalidated⟩⟩ :=
          save_setting (hsound other (hmem other hother)) hsaved hleaves hlast
        · exact ⟨after, hafter, hsame ▸ hcarried⟩
        · exact ⟨after, hafter, hcarried.revalidate hvalidated⟩
    · rw [hlast, Option.map_some] at hleaves
      obtain ⟨after, hafter, hsame⟩ := Option.map_eq_some_iff.mp hleaves
      exact ⟨after, hafter, hsame ▸ hcarried⟩
  · intro env call db key record expected hopened hkey hexpected hrecord hstale
    have hrefused : ∀ moment, (declarationSaver validateSpec).transact moment (env, call) db =
        .error (.recordConflict "That record changed after it was read.") := fun moment =>
      congrArg (Except.map Prod.snd) (save_stale hkey hexpected hrecord hstale)
    obtain ⟨hstore, hwrites, hrefusals⟩ :=
      Serial.finish_refused (declarationSaver validateSpec) hopened (hrefused _)
    exact ⟨hstore, hwrites, _, hrefusals⟩

end EveryRun

/-- In every run of overlapping saves, of the records of any domain and of the
declarations: each update lays the fields it was sent over the row as it locked
it, what a save left in a field stays there until a save is sent that field, and
a save that expects a row it no longer finds so is refused and writes nothing.
Only a declaration's spec is written unsent, as the written kind's check makes
the locked row's. -/
theorem updates_persist :
    (∀ (Field α : Type) [DecidableEq Field] (domain : Records.Domain Field α), domain.Typed →
      ∀ start : Records.Store Field α, start.Sound domain → ∀ (now : Moment)
        (events : List (Serial.Event (Records.Store Field α) Moment (Records.Request Field α))),
        (∀ event ∈ events, event.Permitted (Records.Store.Sound domain)) →
          Records.Persisting domain
            (run (Records.linkedSaver domain).step (Serial.State.initial start now) events)) ∧
    ∀ (validateSpec : String → Json → Except Raised Json) (start : Database), start.Sound →
      ∀ (now : Moment) (events : List (Serial.Event Database Moment DeclarationRequest)),
        (∀ event ∈ events, event.Permitted Database.Sound) →
          DeclarationsPersisting validateSpec
            (run (declarationSaver validateSpec).step (Serial.State.initial start now) events) :=
  ⟨fun _ _ _ _ htyped _ hstart now _ hevents =>
      Records.linkedSaver_persisting htyped hstart now hevents,
    fun _ _ hstart now _ hevents => declarationSaver_persisting hstart now hevents⟩

/-! ## Two edits of one asset -/

section Asset

open Records (Domain Row Store Request)

/-- Some of an asset's fields. -/
inductive AssetField where
  | itemName
  | slug
  | notes
  | relatedProjects
  deriving DecidableEq, Repr

/-- The assets, with columns that keep what they are given. -/
def assets : Domain AssetField Nat where
  fields := [.itemName, .slug, .notes, .relatedProjects]
  lookup row := .text (row.text .slug)
  missing := "That asset was not found."
  stale := "That asset changed after it was read."
  linkMissing _ := "A related project was not found."
  require _ := none
  clean _ value := .ok value
  problem _ _ := none
  slug := some ⟨.slug, .itemName, "asset", 180, by decide⟩
  slugify := String.toLower
  isoformat := toString
  validate command := .ok command
  defaults
    | .relatedProjects => .many []
    | _ => .text ""
  blank
    | .relatedProjects => .many []
    | _ => .text ""

/-- One stored asset, and no project to link it to. -/
def assetStore : Store AssetField Nat where
  serial := 1
  rows := [{
    id := 0
    value := fun
      | .itemName => .text "Laptop"
      | .slug => .text "laptop"
      | .notes => .text ""
      | .relatedProjects => .many []
    updatedAt := 0 }]
  linked _ := []

/-- Both edits are read for before either is saved. -/
def assetEdits : List (Serial.Event (Store AssetField Nat) Moment (Request AssetField Nat)) :=
  [.ask (.change "operator" (.text "laptop") none [(.notes, .text "Under warranty")]),
    .ask (.change "agent" (.text "laptop") none [(.itemName, .text "Work laptop")]),
    .begin 1, .finish, .begin 0, .finish]

theorem assets_typed : assets.Typed := by
  constructor <;> simp [assets]

theorem assetStore_sound : assetStore.Sound assets := by
  constructor
  · simp [assetStore]
  · simp [assetStore]
  · simp only [assetStore, List.mem_singleton, forall_eq]
    constructor
    · simp [Domain.Keeps, assets]
    · rintro slug ⟨⟩
      rfl

theorem assetEdits_persist :
    Records.Persisting assets (run (Records.linkedSaver assets).step
        (Serial.State.initial assetStore 0) assetEdits) ∧
      (run (Records.linkedSaver assets).step (Serial.State.initial assetStore 0)
        assetEdits).store.field? 0 .notes = some (.text "Under warranty") ∧
      (run (Records.linkedSaver assets).step (Serial.State.initial assetStore 0)
        assetEdits).store.field? 0 .itemName = some (.text "Work laptop") := by
  refine ⟨updates_persist.1 AssetField Nat assets assets_typed assetStore assetStore_sound 0
    assetEdits fun event hevent => ?_, rfl, rfl⟩
  simp only [assetEdits, List.mem_cons, List.not_mem_nil, or_false] at hevent
  rcases hevent with rfl | rfl | rfl | rfl | rfl | rfl <;> trivial

end Asset

/-! ## The certificates' own checks -/

/-- A lowercase letter or a digit. -/
def isNameStart (char : Char) : Bool :=
  ('a' ≤ char && char ≤ 'z') || ('0' ≤ char && char ≤ '9')

/-- A certificate's name: it starts with a letter or a digit, and goes on with
those and what a kind lets stand between them. -/
def checkName (between : List Char) : Option Json → Except Raised Json
  | none => .error (.valueError "certificate_name: Field required")
  | some (.str text) =>
      match text.toList with
      | [] => .error (.valueError "certificate_name: String should match pattern")
      | first :: rest =>
          if isNameStart first && rest.all (fun char => isNameStart char || between.contains char)
              && text.length ≤ 160 then
            .ok (.str text)
          else
            .error (.valueError "certificate_name: String should match pattern")
  | some _ => .error (.valueError "certificate_name: Input should be a valid string")

/-- A list of texts, where a missing one is empty. -/
def checkTexts (name : String) : Option Json → Except Raised (List Json)
  | none => .ok []
  | some (.arr items) =>
      if items.all fun item => match item with | .str _ => true | _ => false then .ok items
      else .error (.valueError (name ++ ": Input should be a valid string"))
  | some _ => .error (.valueError (name ++ ": Input should be a valid list"))

/-- `extra="forbid"`. -/
def checkNames (known : List String) : Json → Except Raised Unit
  | .obj members =>
      if members.all fun entry => known.contains entry.1 then .ok ()
      else .error (.valueError "Extra inputs are not permitted")
  | _ => .error (.valueError "Input should be a valid dictionary")

/-- `TLSCertificateSpec`: a renewal window that is not said is thirty days. -/
def certificateSpec (payload : Json) : Except Raised Json := do
  checkNames ["certificate_name", "domains", "install_on", "renewal_window_days"] payload
  let name ← checkName ['-'] (payload.get? "certificate_name")
  let domains ← checkTexts "domains" (payload.get? "domains")
  let installOn ← checkTexts "install_on" (payload.get? "install_on")
  let window ← match payload.get? "renewal_window_days" with
    | none => pure 30
    | some (.num days) =>
        if 1 ≤ days ∧ days ≤ 60 then pure days
        else throw (.valueError "renewal_window_days: Input should be between 1 and 60")
    | some _ => throw (.valueError "renewal_window_days: Input should be a valid integer")
  if domains.isEmpty || installOn.isEmpty then
    throw (.valueError (textOf name ++ " still needs "
      ++ " and ".intercalate ((if domains.isEmpty then ["the names it covers"] else [])
        ++ (if installOn.isEmpty then ["somewhere to install it"] else [])) ++ "."))
  return Json.dict [("certificate_name", name), ("domains", .arr domains),
    ("install_on", .arr installOn), ("renewal_window_days", .num window)]

/-- `UploadedCertificateSpec`, which has no renewal window. -/
def uploadedCertificateSpec (payload : Json) : Except Raised Json := do
  checkNames ["certificate_name", "domains", "install_on"] payload
  let name ← checkName ['.', '-'] (payload.get? "certificate_name")
  let installOn ← checkTexts "install_on" (payload.get? "install_on")
  if installOn.isEmpty then
    throw (.valueError "install_on: List should have at least 1 item after validation")
  let domains ← checkTexts "domains" (payload.get? "domains")
  return Json.dict [("certificate_name", name), ("domains", .arr domains),
    ("install_on", .arr installOn)]

/-- `validate_spec` of the two kinds of certificate. -/
def certificateSpecs (kind : String) (payload : Json) : Except Raised Json :=
  if kind = certificateKind then certificateSpec payload
  else if kind = uploadedCertificateKind then uploadedCertificateSpec payload
  else .error (.valueError ("Unknown record type '" ++ kind ++ "'."))

/-! ## A kind sent alone -/

/-- The spec of an uploaded certificate. -/
def internalSpec : List (String × Json) :=
  [("certificate_name", .str "internal"), ("domains", .arr [.str "nas.home.arpa"]),
    ("install_on", .arr [.str "npm-edge"])]

/-- An uploaded certificate, as it was first saved. -/
def internal : ManagedResource where
  id := 0
  key := "internal"
  kind := uploadedCertificateKind
  spec := .obj internalSpec
  enabled := true
  desiredFingerprint := "6a5816670e2536355a818ec661026084e6f64fe1183c03aeeebbcd969a34264b"
  generation := 1
  observedGeneration := 0
  status := .obj []
  conditions := []
  lastObservedAt := none
  updatedAt := 0

/-- The tables with the certificate alone. -/
def internalDeclared : Database := ⟨1, [internal], [], [], []⟩

theorem internalDeclared_sound : internalDeclared.Sound := by
  constructor <;> simp [internalDeclared, internal]

/-- The spec once it is checked as an issued certificate's. -/
def issuedSpec : Json := .obj (internalSpec ++ [("renewal_window_days", .num 30)])

/-- The digest of the issued certificate's desired state. -/
def issuedFingerprint : String :=
  "dcc3f1b6c2ef19cc6e5df32db41535fde6795fab744934bba8b05583532c0bbd"

/-- The sample estate over the certificates' checks, with the digest of the one
document it fingerprints. -/
def internalEnvironment : Environment :=
  { sampleEnvironment.resolving ⟨certificateSpecs, fun _ spec => .ok spec, fun _ _ => [], id⟩ with
    digest := fun document =>
      if document = .obj [("enabled", .bool true), ("kind", .str certificateKind),
          ("spec", issuedSpec)] then issuedFingerprint else "" }

/-- The certificate is to be one HQ issues: its kind is sent, and no spec. -/
def issueInternal : DeclarationRequest :=
  .change internalEnvironment ⟨"operator", "browser", "", ""⟩ "internal" none false
    ⟨none, some certificateKind, none, none⟩

/-- The request is read for, takes the lock and commits. -/
def issued : List (Serial.Event Database Moment DeclarationRequest) :=
  [.ask issueInternal, .tick 60, .begin 0, .finish]

/-- The certificate as the save leaves it. -/
def issuedInternal : Declaration := ⟨0, "internal", certificateKind, issuedSpec, true⟩

/-- The call the request becomes. -/
def issueCall : SaveCall where
  command := ⟨"internal", certificateKind, .obj internalSpec, true⟩
  principal := ⟨"operator", "browser", "", ""⟩
  currentKey := some "internal"
  expectedUpdatedAt := none
  copiedFromLive := false
  sent := some [.kind]

theorem issued_permitted : ∀ event ∈ issued, event.Permitted Database.Sound := by
  intro event hevent
  simp only [issued, List.mem_cons, List.not_mem_nil, or_false] at hevent
  rcases hevent with rfl | rfl | rfl | rfl <;> trivial

theorem issued_writes :
    ∃ write, (run (declarationSaver certificateSpecs).step
        (Serial.State.initial internalDeclared 0) issued).writes = [write] ∧
      write.call = some (internalEnvironment, issueCall) ∧ write.before = internalDeclared ∧
        write.after.declared? 0 = some issuedInternal :=
  ⟨_, rfl, rfl, rfl, rfl⟩

/-- A kind sent alone writes the spec, which was not sent. -/
theorem issued_rewrites_spec :
    ¬∀ (validateSpec : String → Json → Except Raised Json) (start : Database), start.Sound →
      ∀ (now : Moment) (events : List (Serial.Event Database Moment DeclarationRequest)),
        (∀ event ∈ events, event.Permitted Database.Sound) →
        ∀ write ∈ (run (declarationSaver validateSpec).step (Serial.State.initial start now)
            events).writes,
          ∀ env call key, write.call = some (env, call) → call.currentKey = some key →
            ∃ locked after, held write.before key call.expectedUpdatedAt = .ok locked ∧
              write.after.declared? locked.id = some after ∧
              ∀ field, call.sends field = false →
                after.setting field = locked.declaration.setting field := by
  intro h
  obtain ⟨write, hwrites, hcall, hbefore, hafter⟩ := issued_writes
  obtain ⟨locked, after, hheld, hstored, hkept⟩ := h certificateSpecs internalDeclared
    internalDeclared_sound 0 issued issued_permitted write (by rw [hwrites]; simp)
    internalEnvironment issueCall "internal" hcall rfl
  rw [hbefore] at hheld
  have hlocked : internal = locked := Except.ok.inj hheld
  rw [← hlocked] at hstored hkept
  have hsame : issuedInternal = after := Option.some.inj (hafter.symm.trans hstored)
  have hspec := hkept .spec rfl
  rw [← hsame] at hspec
  revert hspec
  decide

end SeverinoHQ.ControlPlane
