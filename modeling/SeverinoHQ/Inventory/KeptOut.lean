/-
# What an operator left out stays out

A declaration an operator forgets leaves a row that says HQ does not manage its record.
Adopting by kind goes past those rows; adopting by domain does not look at them. So a
record that was left out stays out in every run whose sweeps find none to take on in a
domain HQ manages, and there only an operator's own adoption takes its row away.
-/

import SeverinoHQ.Inventory.Sweeping

namespace SeverinoHQ.Inventory

open SeverinoHQ.Math SeverinoHQ.ControlPlane

/-- The row that leaves a record out. -/
def Adopted.row (adopted : Adopted) : NotManaged := ⟨adopted.kind, adopted.token⟩

namespace Estate

variable (registry : Registry)

/-- What a sweep adopts, where it commits. -/
def sweepAdopts (estate : Estate) : Happening → List Adopted
  | .sweep env payload =>
      match recordSweep registry (estate.found registry env) estate.world.now payload
          estate.tables with
      | .ok recorded => recorded.adopted
      | .error _ => []
  | _ => []

/-- What an operator adopts. -/
def operatorAdopts (estate : Estate) : Happening → List Adopted
  | .adopt env principal command =>
      match Inventory.adopt registry (estate.found registry env) estate.world.now principal command
          estate.tables with
      | .ok (adopted, _) => [adopted]
      | .error _ => []
  | .adoptZone env principal zone token =>
      match estate.adoptZone registry (estate.found registry env) principal zone token with
      | .ok (adopted, _) => adopted
      | .error _ => []
  | _ => []

/-- A step respects what an operator left out: a sweep adopts none of it, and a row goes
only with an operator's adoption of its record. -/
structure Respects (estate : Estate) (happening : Happening) : Prop where
  sweeps : ∀ adopted ∈ estate.sweepAdopts registry happening, adopted.row ∉ estate.notManaged
  goes : ∀ row ∈ estate.notManaged, row ∉ (estate.step registry happening).notManaged →
    ∃ adopted ∈ estate.operatorAdopts registry happening, adopted.row = row

/-- Once a sweep has stored what it read and adopted by kind, none of the records to take on
in a domain HQ manages is left out. -/
def leavesOut (estate : Estate) : Happening → Bool
  | .sweep env payload =>
      let env := estate.found registry env
      match storedAndAdopted registry env estate.world.now payload estate.tables with
      | .error _ => true
      | .ok (_, taken) =>
          (managedZones registry env taken.db).all fun zone =>
            (zoneAdoptable registry env zone (foundRecords registry env taken)).all fun item =>
              match item.token registry with
              | .ok token => !estate.notManaged.contains ⟨recordKind, token⟩
              | .error _ => true
  | _ => true

end Estate

section Steps

variable {registry : Registry} {estate : Estate}

/-- Forgetting adds a row, and takes none away. -/
theorem mem_keepOutDeclaration {kind : String} {spec : Json} {rows kept : List NotManaged}
    (h : keepOutDeclaration registry kind spec rows = .ok kept) {row : NotManaged}
    (hrow : row ∈ rows) : row ∈ kept := by
  unfold keepOutDeclaration at h
  split_ifs at h
  · cases h
    exact hrow
  · obtain ⟨token, -, rfl⟩ := exists_of_map_eq_ok h
    unfold keepOut
    split_ifs
    · exact hrow
    · exact List.mem_append_left _ hrow

/-- An event of the control plane takes no row away. -/
theorem mem_control (event : Event) {row : NotManaged} (hrow : row ∈ estate.notManaged) :
    row ∈ (estate.control registry event).notManaged := by
  unfold Estate.control
  split
  · exact hrow
  · split
    · next hkept => exact mem_keepOutDeclaration hkept hrow
    · exact hrow

/-- A sweep that leaves out what it is to leave out adopts none of it. -/
theorem sweep_adopts_none {env : Environment} {payload : Payload} {recorded : Recorded}
    (hsound : estate.world.Sound)
    (hleaves : estate.leavesOut registry (.sweep env payload) = true)
    (h : recordSweep registry (estate.found registry env) estate.world.now payload estate.tables =
      .ok recorded) : ∀ adopted ∈ recorded.adopted, adopted.row ∉ estate.notManaged := by
  obtain ⟨adopted, taken, records, complete, synced, db, final, htaken, hcomplete, -, -, -,
    hadopted, -⟩ := (swept_of_recordSweep h).parts
  obtain ⟨htakenSound, -, hkinds⟩ := storedAndAdopted_adopts hsound.rows htaken
  obtain ⟨-, -, hzones⟩ := adoptDiscoveredRecords_adopts htakenSound hcomplete
  intro one hone
  rw [hadopted] at hone
  rcases List.mem_append.mp hone with hkind | hzone
  · exact hkinds one hkind
  · obtain ⟨hkind, zone, hmanaged, item, hitem, htoken⟩ := hzones one hzone
    simp only [Estate.leavesOut, htaken, List.all_eq_true] at hleaves
    have hleft := hleaves zone hmanaged item hitem
    rw [htoken] at hleft
    rw [Adopted.row, hkind]
    simpa [List.contains_iff_mem] using hleft

/-- A step respects what was left out, where a sweep finds none of it to take on by domain. -/
theorem respects_of_leavesOut (hsound : estate.world.Sound) {happening : Happening}
    (hleaves : estate.leavesOut registry happening = true) :
    estate.Respects registry happening := by
  cases happening with
  | control event => exact ⟨by simp [Estate.sweepAdopts], fun row hrow hgone =>
      absurd (mem_control _ hrow) hgone⟩
  | connect connections => exact ⟨by simp [Estate.sweepAdopts], fun row hrow hgone =>
      absurd hrow hgone⟩
  | sweep env payload =>
      have hnone := fun recorded => @sweep_adopts_none registry estate env payload recorded hsound
        hleaves
      constructor
      · intro adopted hadopted
        simp only [Estate.sweepAdopts] at hadopted
        split at hadopted
        · next recorded hrecorded => exact hnone recorded hrecorded adopted hadopted
        · simp at hadopted
      · intro row hrow hgone
        simp only [Estate.step] at hgone
        split at hgone
        · next recorded hrecorded =>
            obtain ⟨-, -, hletIn⟩ := recordSweep_sound_later hsound.rows hrecorded
            have hkept : row ∈ recorded.tables.notManaged := by
              refine (hletIn row).mpr ⟨hrow, fun one hone hsame => ?_⟩
              have hrow' : one.row ∈ estate.notManaged := by
                rw [Adopted.row, hsame]
                exact hrow
              exact hnone recorded hrecorded one hone hrow'
            exact absurd hkept hgone
        · exact absurd hrow hgone
  | adopt env principal command =>
      refine ⟨by simp [Estate.sweepAdopts], fun row hrow hgone => ?_⟩
      simp only [Estate.step] at hgone
      split at hgone
      · next adopted tables hadopted =>
          obtain ⟨-, hadopts, -⟩ := adopt_adopts hsound.rows hadopted
          have hlet := mt (hadopts.letIn row).mpr hgone
          push Not at hlet
          simpa [Estate.operatorAdopts, hadopted, Adopted.row] using hlet hrow
      · exact absurd hrow hgone
  | adoptZone env principal zone token =>
      refine ⟨by simp [Estate.sweepAdopts], fun row hrow hgone => ?_⟩
      simp only [Estate.step] at hgone
      split at hgone
      · next adopted tables hadopted =>
          obtain ⟨-, hadopts⟩ := adoptZone_adopts hsound.rows hadopted
          have hlet := mt (hadopts.letIn row).mpr hgone
          push Not at hlet
          simpa [Estate.operatorAdopts, hadopted, Adopted.row] using hlet hrow
      · exact absurd hrow hgone

end Steps

/-- In every run whose sweeps find no record that was left out to take on in a domain HQ
manages, every step respects what an operator left out. -/
theorem left_out_until_adopted (registry : Registry) (now : Moment) (happenings : List Happening)
    (hmeets : Meets (Estate.step registry)
      (fun estate happening => estate.leavesOut registry happening = true) (Estate.start now)
      happenings) {before after : List Happening} {happening : Happening}
    (hsplit : happenings = before ++ happening :: after) :
    (run (Estate.step registry) (Estate.start now) before).Respects registry happening := by
  subst hsplit
  obtain ⟨-, hmeets⟩ := hmeets.append
  exact respects_of_leavesOut (run_step_sound now before) hmeets.1

/-! ## A record taken on by its domain -/

/-- Records of domains, read through a connection to the provider. -/
def sampleRecords : ProviderSpec where
  connectionProviders := ["cloudflare"]
  declarationOnly := false
  adoptionGap := ""
  fromRecord := some some
  identity spec := (spec.get? "name").map fun name => [name]
  hostnames _ := []
  adopts _ := true
  unobservableFields := []
  reportedFields := []

/-- Domains, which HQ only declares. -/
def sampleZones : ProviderSpec where
  connectionProviders := ["cloudflare"]
  declarationOnly := true
  adoptionGap := ""
  fromRecord := some some
  identity spec := (spec.get? "zone").map fun zone => [zone]
  hostnames _ := []
  adopts _ := true
  unobservableFields := []
  reportedFields := []

/-- A registry of containers, domains and their records. -/
def sampleRegistry : Registry where
  providers kind :=
    if kind = containerKind then some container
    else if kind = recordKind then some sampleRecords
    else if kind = zoneKind then some sampleZones
    else none
  observations _ := none
  recordToken _ identity := "token-" ++ String.intercalate "-" identity
  normalizedHostname name := name
  lower text := text
  upper text := text
  dnsRecordTypes := ["A"]
  suggestKey _ _ _ := "adopted"
  canonicalDocument text := text
  differenceMessage _ _ := ""
  repositoryKey name := .ok name
  takeOn projects _ _ := .ok projects
  isForced _ _ _ := false
  container_declared := rfl
  recordToken_ne _ identity := by
    intro h
    have hlength := congrArg String.length h
    simp [String.length_append] at hlength
  unobserved _ _ := rfl

/-- A domain, and a record of it. -/
def sampleZone : Json := .obj [("zone", .str "example.org")]

def sampleRecord : Json :=
  .obj [("connection_ref", .str "cf"), ("zone", .str "example.org"), ("name", .str "www"),
    ("record_type", .str "A")]

/-- A declaration saved as an operator saves it. -/
def declares (key kind : String) (spec : Json) : Happening :=
  .control ⟨sampleEnvironment, .save ⟨⟨key, kind, spec, true⟩, samplePrincipal, none, none, true, none⟩⟩

/-- An operator stops managing the declaration under a key. -/
def stopsManaging (key : String) : Happening :=
  .control ⟨sampleEnvironment, .requestRemoval ⟨"removal", "not ours"⟩ samplePrincipal key⟩

/-- The connection the records are read through. -/
def connects (manages : Bool) : Happening := .connect [⟨"cloudflare", "cf", manages⟩]

/-- A sweep that found the record. -/
def sweeps : Happening := .sweep sampleEnvironment [(recordKind, ⟨true, [sampleRecord], [], false⟩)]

/-- A record an operator stops managing while its connection only reads, and that the
connection may manage again. -/
def leftOut : List Happening :=
  [connects true, declares "record" recordKind sampleRecord, connects false,
    stopsManaging "record", connects true]

/-- A record of a domain nobody declared stays out. -/
theorem undeclared_domain_left_out :
    (run (Estate.step sampleRegistry) (Estate.start 0) leftOut).Respects sampleRegistry sweeps :=
  left_out_until_adopted sampleRegistry 0 (leftOut ++ [sweeps]) (by decide) rfl

/-- The record of a declared domain is taken on again by the next sweep. -/
theorem declared_domain_taken_on :
    ¬ ∀ (registry : Registry) (now : Moment) (before : List Happening) (happening : Happening),
      (run (Estate.step registry) (Estate.start now) before).Respects registry happening := by
  intro h
  have hrespects := h sampleRegistry 0 (declares "domain" zoneKind sampleZone :: leftOut) sweeps
  have htaken : (⟨"adopted", recordKind, "token-www"⟩ : Adopted) ∈
      (run (Estate.step sampleRegistry) (Estate.start 0)
        (declares "domain" zoneKind sampleZone :: leftOut)).sweepAdopts sampleRegistry sweeps := by
    decide
  have hout := hrespects.sweeps _ htaken
  revert hout
  decide +kernel

end SeverinoHQ.Inventory
