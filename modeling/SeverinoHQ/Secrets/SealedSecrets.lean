/-
# Sealed secrets and the keys of what holds them

An uploaded certificate's private key is sealed once, for its resource's key as it stood,
and handed to the controller by the key as it stands. A save may change that key. In
every run in which no save renames a resource that holds a sealed value, each value
opens for the resource that holds it and for no other place.
-/

import SeverinoHQ.ControlPlane.Authored
import SeverinoHQ.ControlPlane.Updates
import SeverinoHQ.Secrets.Sealing

namespace SeverinoHQ.Secrets

open SeverinoHQ.Math SeverinoHQ.ControlPlane

/-! ## The rows -/

/-- A secret held for one resource, sealed to the controller. -/
structure SealedSecret where
  resource : Id
  slot : String
  sealed : String
  version : Nat
  setAt : Moment
  setBy : String
  deriving DecidableEq, Repr

/-- An uploaded certificate, without its key. -/
structure CertificateMaterial where
  resource : Id
  fullchain : String
  domains : List String
  deriving DecidableEq, Repr

/-- The control plane, and what it holds for its resources. -/
structure Holdings where
  world : World
  secrets : List SealedSecret
  materials : List CertificateMaterial
  deriving DecidableEq, Repr

def Holdings.start (now : Moment) : Holdings := ⟨.start now, [], []⟩

/-- `PRIVATE_KEY_SLOT`. -/
def privateKeySlot : String := "certificate:private_key"

def noSealKey : String :=
  "HQ has not been given the controller's sealing key, so it cannot hold a secret. Nothing was stored."

section Sealing

variable {Key : Type} (hpke : Hpke Key)

/-! ## Holding a secret -/

/-- `set_secret`: what the slot held is replaced. -/
def setSecret (setting : Option Bytes) (drawn : Nat) (now : Moment) (resource : ManagedResource)
    (slot plaintext actor : String) (secrets : List SealedSecret) :
    Except Unsealed (List SealedSecret) :=
  match sealForController hpke setting plaintext resource.key slot drawn with
  | .error problem => .error problem
  | .ok sealed =>
      let held : SealedSecret → Bool := fun row => row.resource == resource.id && row.slot == slot
      if secrets.any held then
        .ok (Table.update secrets held fun row =>
          { row with sealed, version := row.version + 1, setAt := now, setBy := actor })
      else .ok (secrets ++ [⟨resource.id, slot, sealed, 1, now, actor⟩])

/-- One call of `store_certificate`, with the settings' public key and what it finds around it. -/
structure Upload where
  env : Environment
  setting : Option Bytes
  /-- What the sealing draws. -/
  drawn : Nat
  /-- Whether a kind's material is uploaded. -/
  takesUpload : String → Bool
  /-- `inspect`: the names a certificate and its key cover. -/
  inspect : String → String → Except Raised (List String)
  fullchain : String
  privateKey : String
  principal : Principal
  currentKey : String

/-- The declaration an upload saves: the names it covers, at a new generation. -/
def uploaded (env : Environment) (now : Moment) (db : Database) (resource : ManagedResource)
    (domains : List String) : ManagedResource :=
  let members := match resource.spec with
    | .obj members => members
    | _ => []
  let spec := Json.obj (Json.insertMember "domains" (.arr (domains.map .str)) members)
  { resource with
    spec
    generation := resource.generation + 1
    desiredFingerprint := desiredFingerprint env db resource.key resource.kind spec resource.enabled
    updatedAt := now }

/-- `store_certificate`, one transaction. -/
def storeCertificate (upload : Upload) (holdings : Holdings) : Except Raised Holdings := do
  let domains ← upload.inspect upload.fullchain upload.privateKey
  let db := holdings.world.db
  match db.resourceNamed? upload.currentKey with
  | none => throw (.recordNotFound "That record was not found.")
  | some resource =>
      if !upload.takesUpload resource.kind then
        throw (.policyError "Only an uploaded certificate record holds a certificate and key.")
      match setSecret hpke upload.setting upload.drawn holdings.world.now resource privateKeySlot
          upload.privateKey upload.principal.actor holdings.secrets with
      | .error .unavailable => throw (.policyError noSealKey)
      | .error .unbound =>
          throw (.valueError
            "A sealed value is bound to a key and a slot, each non-empty and without '|'.")
      | .ok secrets =>
          let saved := uploaded upload.env holdings.world.now db resource domains
          return {
            world := { holdings.world with db := db.saveResource saved }
            secrets
            materials := (holdings.materials.filter (·.resource != resource.id)) ++
              [⟨resource.id, upload.fullchain, domains⟩] }

/-! ## Handing it on -/

/-- `sealed_slots`. -/
def Holdings.sealedSlots (holdings : Holdings) (key : String) : List (String × String) :=
  (holdings.secrets.filter fun row =>
    (holdings.world.db.resource? row.resource).any (·.key == key)).map fun row => (row.slot, row.sealed)

/-- What a controller about to install a certificate is handed. -/
structure Material where
  fullchain : String
  domains : List String
  slots : List (String × String)
  deriving DecidableEq, Repr

/-- `material_for`. -/
def Holdings.materialFor (holdings : Holdings) (key : String) : Except Raised Material :=
  match holdings.materials.find? fun row =>
      (holdings.world.db.resource? row.resource).any (·.key == key) with
  | none => .error (.valueError "No certificate is stored for that record.")
  | some material => .ok ⟨material.fullchain, material.domains, holdings.sealedSlots key⟩

/-! ## Runs -/

/-- A removed resource takes what it held with it. -/
def Holdings.cascade (holdings : Holdings) : Holdings :=
  let held := fun (id : Id) => (holdings.world.db.resource? id).isSome
  { holdings with
    secrets := holdings.secrets.filter fun row => held row.resource
    materials := holdings.materials.filter fun row => held row.resource }

/-- What can happen next: an event of the control plane, or an upload. -/
inductive Happening
  | control (event : Event)
  | upload (upload : Upload)

def Holdings.step (holdings : Holdings) : Happening → Holdings
  | .control event => { holdings with world := holdings.world.step event }.cascade
  | .upload upload =>
      match storeCertificate hpke upload holdings with
      | .error _ => holdings
      | .ok stored => stored

/-- The public key HQ seals to is one whose private half the controller is lent. -/
def Happening.Lent (lent : List Key) : Happening → Prop
  | .control _ => True
  | .upload call => ∀ publicKey, call.setting = some publicKey → Lends hpke lent publicKey

/-- No save that is carried out changes the key of a resource that holds a sealed value. -/
def KeepsSealedKeys (holdings : Holdings) : Happening → Prop
  | .control ⟨env, .save call⟩ => ∀ key locked saved,
      call.currentKey = some key → held holdings.world.db key call.expectedUpdatedAt = .ok locked →
      saveManagedResource env holdings.world.now call holdings.world.db = .ok saved →
      (∃ row ∈ holdings.secrets, row.resource = locked.id) →
      (written call.command call.sent locked).key = locked.key
  | _ => True

/-- Every sealed value the controller is handed for a key opens for that key and the
value's slot, and no sealed value opens for a place that is not its own. -/
structure Holdings.Bound (lent : List Key) (holdings : Holdings) : Prop where
  handed : ∀ key material, holdings.materialFor key = .ok material → ∀ entry ∈ material.slots,
    ∃ plaintext, openSealed hpke lent entry.2 key entry.1 = .ok plaintext
  elsewhere : ∀ row ∈ holdings.secrets, ∀ key slot plaintext,
    openSealed hpke lent row.sealed key slot = .ok plaintext →
      slot = row.slot ∧ ∃ resource ∈ holdings.world.db.resources, resource.id = row.resource ∧
        resource.key = key

/-! ## One value -/

/-- A row's value opens for its own slot and the key of the declaration that holds it, and
for nothing else. -/
def OpensFor (lent : List Key) (row : SealedSecret) (declaration : Declaration) : Prop :=
  declaration.id = row.resource ∧ ∃ plaintext, ∀ key slot opened,
    openSealed hpke lent row.sealed key slot = .ok opened ↔
      key = declaration.key ∧ slot = row.slot ∧ opened = plaintext

/-- What holds between any two happenings of a run that renames nothing it should not. -/
structure Holdings.Sound (lent : List Key) (holdings : Holdings) : Prop where
  world : holdings.world.Sound
  rows : ∀ row ∈ holdings.secrets, ∃ declaration ∈ holdings.world.db.declarations,
    OpensFor hpke lent row declaration

variable {hpke} {lent : List Key} {holdings : Holdings}

theorem OpensFor.keyed {row : SealedSecret} {declaration other : Declaration}
    (h : OpensFor hpke lent row declaration) (hid : other.id = declaration.id)
    (hkey : other.key = declaration.key) : OpensFor hpke lent row other := by
  obtain ⟨hrow, plaintext, hopens⟩ := h
  exact ⟨hid.trans hrow, plaintext, by rwa [hkey]⟩

/-- The declaration a stored row has, by its id. -/
theorem declaration_of_resource? {db : Database} (hsound : db.Sound) {id : Id} {resource : ManagedResource}
    (h : db.resource? id = some resource) {declaration : Declaration}
    (hdeclaration : declaration ∈ db.declarations) (hid : declaration.id = id) :
    declaration = resource.declaration := by
  obtain ⟨other, hother, rfl⟩ := List.mem_map.mp hdeclaration
  obtain ⟨hresource, hsame⟩ := Database.mem_of_resource? h
  rw [Table.eq_of_column_eq hsound.resource_ids hother hresource (hid.trans hsame.symm)]

theorem Holdings.Sound.bound (h : holdings.Sound hpke lent) : holdings.Bound hpke lent := by
  constructor
  · intro key material hmaterial entry hentry
    have hslots : entry ∈ holdings.sealedSlots key := by
      unfold Holdings.materialFor at hmaterial
      split at hmaterial
      · simp at hmaterial
      · cases hmaterial
        exact hentry
    obtain ⟨row, hrow, rfl⟩ := List.mem_map.mp hslots
    obtain ⟨hmem, hkey⟩ := List.mem_filter.mp hrow
    obtain ⟨declaration, hdeclaration, hid, plaintext, hopens⟩ := h.rows row hmem
    refine ⟨plaintext, (hopens key row.slot plaintext).mpr ⟨?_, rfl, rfl⟩⟩
    cases hresource : holdings.world.db.resource? row.resource with
    | none => simp [hresource] at hkey
    | some resource =>
        rw [declaration_of_resource? h.world.rows hresource hdeclaration hid]
        have hsame : resource.key = key := by simpa [hresource] using hkey
        exact hsame.symm
  · intro row hrow key slot plaintext hopened
    obtain ⟨declaration, hdeclaration, hid, sealed, hopens⟩ := h.rows row hrow
    obtain ⟨rfl, hslot, -⟩ := (hopens key slot plaintext).mp hopened
    obtain ⟨resource, hresource, rfl⟩ := List.mem_map.mp hdeclaration
    exact ⟨hslot, resource, hresource, hid, rfl⟩

theorem Holdings.start_sound (now : Moment) : (Holdings.start now).Sound hpke lent :=
  ⟨World.start_sound now, by simp [Holdings.start]⟩

/-! ## One step -/

/-- What is left of a removed resource's rows is nothing; the others stand, where what
they are held for stands under its key. -/
theorem Holdings.Sound.control (h : holdings.Sound hpke lent) {world : World} (hworld : world.Sound)
    (hkept : ∀ row ∈ holdings.secrets, ∀ declaration ∈ holdings.world.db.declarations,
      declaration.id = row.resource → ∀ after ∈ world.db.declarations, after.id = row.resource →
        after.key = declaration.key) :
    ({ holdings with world }.cascade).Sound hpke lent := by
  refine ⟨hworld, fun row hrow => ?_⟩
  obtain ⟨hmem, hheld⟩ := List.mem_filter.mp hrow
  obtain ⟨resource, hresource⟩ := Option.isSome_iff_exists.mp hheld
  obtain ⟨hstored, hid⟩ := Database.mem_of_resource? hresource
  obtain ⟨declaration, hdeclaration, hopens⟩ := h.rows row hmem
  have hafter : resource.declaration ∈ world.db.declarations := List.mem_map_of_mem hstored
  refine ⟨resource.declaration, hafter, hopens.keyed ?_ ?_⟩
  · exact hid.trans hopens.1.symm
  · exact hkept row hmem declaration hdeclaration hopens.1 _ hafter hid

theorem declared?_of_mem_declarations {db : Database} (hsound : db.Sound) {declaration : Declaration}
    (h : declaration ∈ db.declarations) : db.declared? declaration.id = some declaration := by
  obtain ⟨resource, hresource, rfl⟩ := List.mem_map.mp h
  exact declared?_of_mem hsound hresource

/-- A save carried out leaves every key but that of the row it names. -/
theorem saved_key {env : Environment} {now : Moment} {call : SaveCall} {db : Database}
    {saved : PreparedSave × Database} (hsound : db.Sound)
    (h : saveManagedResource env now call db = .ok saved) {declaration after : Declaration}
    (hdeclaration : declaration ∈ db.declarations) (hafter : after ∈ saved.2.declarations)
    (hid : after.id = declaration.id)
    (hkey : ∀ key locked, call.currentKey = some key →
      held db key call.expectedUpdatedAt = .ok locked → locked.id = declaration.id →
      (written call.command call.sent locked).key = locked.key) :
    after.key = declaration.key := by
  have hstored := ((saveManagedResource_transaction hsound h).sound_later hsound).1
  have hbefore := declared?_of_mem_declarations hsound hdeclaration
  have hfound := declared?_of_mem_declarations hstored hafter
  rw [hid] at hfound
  rcases save_eq_ok hsound h with ⟨-, hall⟩ | ⟨key, locked, validated, hcurrent, hlocked, -, -, hall⟩
  · rw [hall _ _ hbefore] at hfound
    rw [Option.some.inj hfound]
  · rw [hall, hbefore, Option.map_some] at hfound
    have hrow := Option.some.inj hfound
    split_ifs at hrow with hown
    · have hid : locked.id = declaration.id := (beq_iff_eq.mp hown).symm
      have hsame : declaration = locked.declaration := by
        have hlocked := declared?_of_mem hsound (mem_of_held hlocked)
        rw [hid, hbefore] at hlocked
        exact Option.some.inj hlocked
      rw [← hrow, hsame]
      exact hkey key locked hcurrent hlocked hid
    · rw [hrow]

theorem control_sound (h : holdings.Sound hpke lent) {event : Event}
    (hkept : KeepsSealedKeys holdings (.control event)) :
    (holdings.step hpke (.control event)).Sound hpke lent := by
  have hworld := (step_outcome h.world event).sound h.world
  refine h.control hworld fun row hrow declaration hdeclaration hid after hafter hsame => ?_
  by_cases hsave : ∃ call, event.call = .save call
  · obtain ⟨env, call⟩ := event
    obtain ⟨call, rfl⟩ := hsave
    cases hsaved : saveManagedResource env holdings.world.now call holdings.world.db with
    | error raised =>
        have hdb : (holdings.world.step ⟨env, .save call⟩).db = holdings.world.db := by
          simp only [World.step, hsaved]
          rfl
        rw [hdb] at hafter
        have hdeclared := declared?_of_mem_declarations h.world.rows hdeclaration
        have hother := declared?_of_mem_declarations h.world.rows hafter
        rw [hid] at hdeclared
        rw [hsame, hdeclared] at hother
        rw [Option.some.inj hother]
    | ok saved =>
        have hdb : (holdings.world.step ⟨env, .save call⟩).db = saved.2 := by
          simp only [World.step, hsaved]
          rfl
        rw [hdb] at hafter
        refine saved_key h.world.rows hsaved hdeclaration hafter (hsame.trans hid.symm) ?_
        intro key locked hcurrent hlocked hown
        exact hkept key locked saved hcurrent hlocked hsaved ⟨row, hrow, hid.symm.trans hown.symm⟩
  · have hauthored := step_asAuthored h.world (fun call hcall => hsave ⟨call, hcall⟩) hafter
    have hdeclared := declared?_of_mem_declarations h.world.rows hdeclaration
    have hother := declared?_of_mem_declarations h.world.rows hauthored
    rw [hid] at hdeclared
    rw [hsame, hdeclared] at hother
    rw [Option.some.inj hother]

/-- What setting a secret leaves: the rows of other places, and the place's own value. -/
theorem mem_setSecret {setting : Option Bytes} {drawn : Nat} {now : Moment} {resource : ManagedResource}
    {slot plaintext actor : String} {secrets stored : List SealedSecret}
    (h : setSecret hpke setting drawn now resource slot plaintext actor secrets = .ok stored)
    {row : SealedSecret} (hrow : row ∈ stored) :
    row ∈ secrets ∨ (row.resource = resource.id ∧ row.slot = slot ∧
      sealForController hpke setting plaintext resource.key slot drawn = .ok row.sealed) := by
  unfold setSecret at h
  split at h
  · simp at h
  next sealed hsealed =>
    dsimp only at h
    split_ifs at h
    · cases h
      rcases Table.mem_update.mp hrow with ⟨hold, -⟩ | ⟨old, -, hplace, rfl⟩
      · exact Or.inl hold
      · simp only [Bool.and_eq_true, beq_iff_eq] at hplace
        exact Or.inr ⟨hplace.1, hplace.2, hsealed⟩
    · cases h
      rcases List.mem_append.mp hrow with hold | hnew
      · exact Or.inl hold
      · rw [List.mem_singleton.mp hnew]
        exact Or.inr ⟨rfl, rfl, hsealed⟩

/-- An upload that is carried out, part by part. -/
theorem storeCertificate_eq_ok {upload : Upload} {stored : Holdings}
    (h : storeCertificate hpke upload holdings = .ok stored) :
    ∃ resource ∈ holdings.world.db.resources, ∃ domains secrets materials,
      setSecret hpke upload.setting upload.drawn holdings.world.now resource privateKeySlot
        upload.privateKey upload.principal.actor holdings.secrets = .ok secrets ∧
      stored = {
        world := { holdings.world with
          db := holdings.world.db.saveResource
            (uploaded upload.env holdings.world.now holdings.world.db resource domains) }
        secrets, materials } := by
  obtain ⟨domains, -, h⟩ := exists_of_bind_eq_ok h
  dsimp only at h
  split at h
  · cases h
  next resource hresource =>
    split_ifs at h
    · cases h
    · split at h
      · cases h
      · cases h
      next secrets hsecrets =>
        cases h
        exact ⟨resource, (Database.mem_of_resourceNamed? hresource).1, domains, secrets, _, hsecrets, rfl⟩

/-- An upload saves its declaration at a new generation, under its own key. -/
theorem uploaded_kept {world : World} (h : world.Sound) (env : Environment)
    {resource : ManagedResource} (hresource : resource ∈ world.db.resources) (domains : List String) :
    let saved := uploaded env world.now world.db resource domains
    World.Sound { world with db := world.db.saveResource saved } ∧
      ∀ declaration ∈ world.db.declarations, ∃ after ∈ (world.db.saveResource saved).declarations,
        after.id = declaration.id ∧ after.key = declaration.key := by
  intro saved
  have hbecomes : ∀ other ∈ world.db.resources, (other.id == saved.id) = true → other.Becomes saved :=
    becomes_saved h.rows hresource rfl (Nat.le_succ _) rfl
  have hlater := Later.updateResources hbecomes
  refine ⟨⟨h.rows.updateResources hbecomes, ?_, ?_⟩, fun declaration hdeclaration => ?_⟩
  · exact fun queueing hqueueing ask hask => (h.asks queueing hqueueing ask hask).later hlater
  · exact fun report hreport => (h.reports report hreport).later hlater
  obtain ⟨row, hrow, rfl⟩ := List.mem_map.mp hdeclaration
  by_cases hown : row.id = resource.id
  · have hsame := Table.eq_of_column_eq h.rows.resource_ids hrow hresource hown
    refine ⟨_, List.mem_map_of_mem (Table.mem_update.mpr (Or.inr ⟨row, hrow, ?_, rfl⟩)), ?_, ?_⟩
    · exact beq_iff_eq.mpr hown
    · exact hown.symm
    · rw [hsame]
      rfl
  · exact ⟨_, List.mem_map_of_mem (Table.mem_update.mpr (Or.inl ⟨hrow, beq_eq_false_iff_ne.mpr hown⟩)),
      rfl, rfl⟩

theorem upload_sound (hsound : hpke.Sound) (h : holdings.Sound hpke lent) {upload : Upload}
    (hlent : Happening.Lent hpke lent (.upload upload)) :
    (holdings.step hpke (.upload upload)).Sound hpke lent := by
  unfold Holdings.step
  dsimp only
  split
  · exact h
  next stored hstored =>
    obtain ⟨resource, hresource, domains, secrets, materials, hsecrets, rfl⟩ :=
      storeCertificate_eq_ok hstored
    obtain ⟨hworld, hkept⟩ := uploaded_kept h.world upload.env hresource domains
    refine ⟨hworld, fun row hrow => ?_⟩
    rcases mem_setSecret hsecrets hrow with hold | ⟨hid, hslot, hsealed⟩
    · obtain ⟨declaration, hdeclaration, hopens⟩ := h.rows row hold
      obtain ⟨after, hafter, hsame, hkey⟩ := hkept declaration hdeclaration
      exact ⟨after, hafter, hopens.keyed hsame hkey⟩
    · obtain ⟨after, hafter, hsame, hkey⟩ := hkept _ (List.mem_map_of_mem hresource)
      refine ⟨after, hafter, hsame.trans hid.symm, upload.privateKey, fun key slot opened => ?_⟩
      obtain ⟨publicKey, hsetting⟩ := setting_of_sealed hsealed
      rw [hsetting] at hsealed
      have hopens := openSealed_sealed hsound (hlent publicKey hsetting) hsealed key slot opened
      rw [hopens, hkey, hslot]
      rfl

/-- A save carried out that renames a resource that holds a sealed value unbinds it: the
value goes on opening for the key the resource no longer has. -/
theorem renamed_unbound (h : holdings.Sound hpke lent) {env : Environment} {call : SaveCall}
    {key : String} {locked : ManagedResource} {saved : PreparedSave × Database}
    (hcurrent : call.currentKey = some key)
    (hlocked : held holdings.world.db key call.expectedUpdatedAt = .ok locked)
    (hsaved : saveManagedResource env holdings.world.now call holdings.world.db = .ok saved)
    {row : SealedSecret} (hrow : row ∈ holdings.secrets) (hown : row.resource = locked.id)
    (hrenamed : (written call.command call.sent locked).key ≠ locked.key) :
    ¬(holdings.step hpke (.control ⟨env, .save call⟩)).Bound hpke lent := by
  intro hbound
  have hstored := ((saveManagedResource_transaction h.world.rows hsaved).sound_later h.world.rows).1
  have hmem := mem_of_held hlocked
  have hdb : (holdings.world.step ⟨env, .save call⟩).db = saved.2 := by
    simp only [World.step, hsaved]
    rfl
  have hafter : ∃ declaration, saved.2.declared? locked.id = some declaration ∧
      declaration.key = (written call.command call.sent locked).key := by
    rcases save_eq_ok h.world.rows hsaved with ⟨hnone, -⟩ |
      ⟨other, found, validated, hother, hfound, -, -, hall⟩
    · rw [hcurrent] at hnone
      simp at hnone
    · rw [hcurrent] at hother
      cases hother
      rw [hlocked] at hfound
      cases hfound
      refine ⟨_, by rw [hall, declared?_of_mem h.world.rows hmem, Option.map_some], ?_⟩
      simp [ManagedResource.declaration, SaveCall.laid, SaveCall.sends, written]
  obtain ⟨declaration, hdeclared, hkey⟩ := hafter
  have hkept : row ∈ (holdings.step hpke (.control ⟨env, .save call⟩)).secrets := by
    refine List.mem_filter.mpr ⟨hrow, ?_⟩
    dsimp only
    rw [hdb, hown]
    rw [declared?_eq] at hdeclared
    cases hfound : saved.2.resource? locked.id with
    | none => simp [hfound] at hdeclared
    | some resource => rfl
  obtain ⟨held, hheld, hid, plaintext, hopens⟩ := h.rows row hrow
  have hopened := (hopens held.key row.slot plaintext).mpr ⟨rfl, rfl, rfl⟩
  obtain ⟨-, resource, hresource, hsame, hold⟩ := hbound.elsewhere row hkept _ _ _ hopened
  have hresource : resource ∈ saved.2.resources := hdb ▸ hresource
  have hfound := declared?_of_mem hstored hresource
  rw [hsame, hown, hdeclared] at hfound
  have hbefore := declared?_of_mem_declarations h.world.rows hheld
  rw [hid, hown, declared?_of_mem h.world.rows hmem] at hbefore
  rw [Option.some.inj hfound] at hkey
  apply hrenamed
  rw [← hkey]
  show resource.key = locked.key
  rw [hold, ← Option.some.inj hbefore]
  rfl

/-- Every state of a run that renames nothing it should not is sound. -/
theorem run_holdings_sound (hsound : hpke.Sound) (now : Moment) (happenings : List Happening)
    (hlent : ∀ happening ∈ happenings, happening.Lent hpke lent)
    (hkept : Meets (Holdings.step hpke) KeepsSealedKeys (Holdings.start now) happenings) :
    (run (Holdings.step hpke) (Holdings.start now) happenings).Sound hpke lent := by
  have hboth := (meets_of_forall_mem fun happening hmem _ => hlent happening hmem :
    Meets (Holdings.step hpke) (fun _ happening => happening.Lent hpke lent) (Holdings.start now)
      happenings).and hkept
  refine run_invariant (Holdings.Sound hpke lent) ?_ (Holdings.start_sound now) hboth
  rintro holdings happening hstate ⟨hlent, hkept⟩
  cases happening with
  | control event => exact control_sound hstate hkept
  | upload upload => exact upload_sound hsound hstate hlent

/-- In every run in which no save carried out renames a resource that holds a sealed value,
every sealed value handed to the controller opens for its resource's key and its slot,
and none opens anywhere else. -/
theorem sealed_values_bound (hsound : hpke.Sound) (now : Moment) (happenings : List Happening)
    (hlent : ∀ happening ∈ happenings, happening.Lent hpke lent)
    (hkept : Meets (Holdings.step hpke) KeepsSealedKeys (Holdings.start now) happenings) :
    (run (Holdings.step hpke) (Holdings.start now) happenings).Bound hpke lent :=
  (run_holdings_sound hsound now happenings hlent hkept).bound

end Sealing

/-! ## Two runs -/

/-- A text as bytes that say where it ends. -/
def spell : List Char → Bytes
  | [] => [0]
  | char :: rest =>
      1 :: UInt8.ofNat (char.toNat / 65536) :: UInt8.ofNat (char.toNat / 256 % 256) ::
        UInt8.ofNat (char.toNat % 256) :: spell rest

/-- The text some bytes begin with, and the bytes after it. -/
def unspell : Bytes → Option (List Char × Bytes)
  | 0 :: rest => some ([], rest)
  | 1 :: high :: middle :: low :: rest =>
      (unspell rest).map fun read =>
        (Char.ofNat (high.toNat * 65536 + middle.toNat * 256 + low.toNat) :: read.1, read.2)
  | _ => none

theorem unspell_spell (text : List Char) (rest : Bytes) :
    unspell (spell text ++ rest) = some (text, rest) := by
  induction text with
  | nil => rfl
  | cons char text ih =>
      have hsize : char.toNat < 0xd800 ∨ 0xdfff < char.toNat ∧ char.toNat < 0x110000 := char.valid
      have hchar : (UInt8.ofNat (char.toNat / 65536)).toNat * 65536 +
          (UInt8.ofNat (char.toNat / 256 % 256)).toNat * 256 +
          (UInt8.ofNat (char.toNat % 256)).toNat = char.toNat := by
        simp only [UInt8.toNat_ofNat']
        omega
      simp only [spell, List.cons_append, unspell, ih, Option.map_some, hchar, Char.ofNat_toNat]

/-- Sealing that hides nothing and binds its info. -/
def sampleHpke : Hpke Unit where
  publicKey _ := List.replicate publicKeyBytes 7
  loads _ := true
  encrypt _ info plaintext _ := spell info.toList ++ spell plaintext.toList
  decrypt _ info ciphertext :=
    match unspell ciphertext with
    | none => none
    | some (read, rest) =>
        if read = info.toList then (unspell rest).map fun opened => String.ofList opened.1 else none
  sha256 _ := List.replicate 32 0

theorem sampleHpke_sound : sampleHpke.Sound where
  opens _ info plaintext _ := by
    have hrest := unspell_spell plaintext.toList []
    rw [List.append_nil] at hrest
    simp [sampleHpke, unspell_spell, hrest]
  binds _ info other plaintext _ h := by
    have hne : info.toList ≠ other.toList := fun hsame => h (String.toList_inj.mp hsame.symm)
    simp [sampleHpke, unspell_spell, hne]
  digest _ := by simp [sampleHpke]

/-- A save of a printer's certificate: its first, or what is sent of a change to it. -/
def savePrinter (currentKey : Option String) (key : String) (enabled : Bool)
    (sent : Option (List CommandField)) : SaveCall where
  command := ⟨key, uploadedCertificateKind, .obj [], enabled⟩
  principal := samplePrincipal
  currentKey
  expectedUpdatedAt := none
  copiedFromLive := false
  sent

def saving (call : SaveCall) : Happening := .control ⟨sampleEnvironment, .save call⟩

def uploadPrinter : Happening :=
  .upload {
    env := sampleEnvironment
    setting := some (sampleHpke.publicKey ())
    drawn := 0
    takesUpload := fun _ => true
    inspect := fun _ _ => .ok ["printer.home.arpa"]
    fullchain := "chain"
    privateKey := "key"
    principal := samplePrincipal
    currentKey := "printer" }

theorem uploadPrinter_lent : uploadPrinter.Lent sampleHpke [()] := by
  rintro publicKey ⟨⟩
  exact ⟨(), by simp [lentKey], rfl⟩

/-- A certificate is declared, its key uploaded, and the declaration switched on. -/
theorem uploaded_key_bound :
    (run (Holdings.step sampleHpke) (.start 0)
      [saving (savePrinter none "printer" false none), uploadPrinter,
        saving (savePrinter (some "printer") "" true (some [.enabled]))]).Bound sampleHpke [()] := by
  apply sealed_values_bound sampleHpke_sound 0
  · intro happening hmem
    simp only [List.mem_cons, List.not_mem_nil, or_false] at hmem
    rcases hmem with rfl | rfl | rfl
    · trivial
    · exact uploadPrinter_lent
    · trivial
  · refine ⟨?_, trivial, ?_, trivial⟩
    · rintro key locked saved ⟨⟩
    · rintro key locked saved - - - -
      rfl

/-- A certificate declared, and its key uploaded. -/
def printerUploaded : List Happening := [saving (savePrinter none "printer" false none), uploadPrinter]

theorem printerUploaded_lent : ∀ happening ∈ printerUploaded, happening.Lent sampleHpke [()] := by
  intro happening hmem
  rcases List.mem_pair.mp hmem with rfl | rfl
  · trivial
  · exact uploadPrinter_lent

/-- A certificate that holds an uploaded key is renamed: the key no longer opens. -/
theorem renamed_certificate_unbound :
    ¬∀ (Key : Type) (hpke : Hpke Key) (lent : List Key) (now : Moment) (happenings : List Happening),
      hpke.Sound → (∀ happening ∈ happenings, happening.Lent hpke lent) →
        (run (Holdings.step hpke) (Holdings.start now) happenings).Bound hpke lent := by
  intro h
  let rename := savePrinter (some "printer") "scanner" false none
  have hkept : Meets (Holdings.step sampleHpke) KeepsSealedKeys (Holdings.start 0) printerUploaded := by
    refine ⟨?_, trivial, trivial⟩
    rintro key locked saved ⟨⟩
  have hsound := run_holdings_sound sampleHpke_sound 0 printerUploaded printerUploaded_lent hkept
  have hbound := h Unit sampleHpke [()] 0 (printerUploaded ++ [saving rename]) sampleHpke_sound (by
    intro happening hmem
    rcases List.mem_append.mp hmem with hmem | hmem
    · exact printerUploaded_lent happening hmem
    · rw [List.mem_singleton.mp hmem]
      trivial)
  rw [run_append] at hbound
  have hlocked : (held (run (Holdings.step sampleHpke) (Holdings.start 0) printerUploaded).world.db
      "printer" none).toOption.map (fun locked => (locked.id, locked.key)) = some (0, "printer") := by
    decide +kernel
  have hnow : (run (Holdings.step sampleHpke) (Holdings.start 0) printerUploaded).world.now = 0 := by
    decide +kernel
  have hsaved : (saveManagedResource sampleEnvironment 0 rename
      (run (Holdings.step sampleHpke) (Holdings.start 0) printerUploaded).world.db).toOption.isSome =
        true := by
    decide +kernel
  have hrows : (run (Holdings.step sampleHpke) (Holdings.start 0) printerUploaded).secrets.map
      SealedSecret.resource = [0] := by
    decide +kernel
  generalize run (Holdings.step sampleHpke) (Holdings.start 0) printerUploaded = uploaded at *
  cases hfound : held uploaded.world.db "printer" none with
  | error raised => simp [hfound, Except.toOption] at hlocked
  | ok locked =>
      simp only [hfound, Except.toOption, Option.map_some, Option.some.injEq, Prod.mk.injEq] at hlocked
      rw [← hnow] at hsaved
      cases hdone : saveManagedResource sampleEnvironment uploaded.world.now rename uploaded.world.db with
      | error raised => simp [hdone, Except.toOption] at hsaved
      | ok saved =>
          obtain ⟨row, hrow, hown⟩ := List.mem_map.mp (hrows.symm ▸ List.mem_singleton_self 0)
          refine renamed_unbound hsound rfl hfound hdone hrow ?_ ?_ hbound
          · rw [hown, hlocked.1]
          · rw [hlocked.2]
            show "scanner" ≠ "printer"
            decide

end SeverinoHQ.Secrets
