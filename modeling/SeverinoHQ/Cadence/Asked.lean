/-
# What is asked for, and what is read

A request forces the kind it names, every kind the credential of the connection it names
reads, or every kind. It is answered by what is stored after it, and ends when it is answered
or expires. Until then the sweep it makes due reads the kinds it forces, where an empty list of
kinds is all of them.
-/

import SeverinoHQ.Cadence.Sweeps

namespace SeverinoHQ.Cadence

open SeverinoHQ.Math

/-- A request for every kind. -/
def ReadRequest.Everything (request : ReadRequest) : Prop :=
  request.connectionRef = "" ∧ request.kind = ""

variable (env : Environment) (store : Store)

/-! ## What a request asks -/

/-- A kind a connection's credential reads, by any provider it is reported as. -/
def Fed (ref kind : String) : Prop :=
  ∃ row ∈ store.connections,
    row.connectionRef = ref ∧ row.provider ≠ "" ∧ kind ∈ env.registry.fedKinds row.provider

/-- A kind a request forces. -/
def Forces (request : ReadRequest) (kind : String) : Prop :=
  if request.kind ≠ "" then kind = request.kind
  else if request.connectionRef ≠ "" then Fed env store request.connectionRef kind
  else True

/-- What a request forces was stored after it. For every kind, that is all that has been
stored of the kinds each sweep reads. -/
structure Answered (request : ReadRequest) : Prop where
  probed : request.connectionRef ≠ "" → ∃ row ∈ store.connections,
    row.connectionRef = request.connectionRef ∧ request.requestedAt < row.observedAt
  named : ¬ request.Everything → ∀ kind, Forces env store request kind →
    ∃ row ∈ store.inventories, row.kind = kind ∧ request.requestedAt < row.updatedAt
  whole : request.Everything →
    (∃ row ∈ store.inventories, env.registry.everySweep row.kind = true) ∧
      ∀ row ∈ store.inventories, env.registry.everySweep row.kind = true →
        request.requestedAt < row.updatedAt

/-- A request older than the lifetime. -/
def Expired (request : ReadRequest) : Prop :=
  request.requestedAt < env.now - seconds env.readRequestLifetime

/-- A stored request that has not ended. -/
structure Pending (request : ReadRequest) : Prop where
  stored : request ∈ store.requests
  current : ¬ Expired env request
  unanswered : ¬ Answered env store request

/-- The cadence alone makes a sweep due: nothing each sweep reads was tried yet, or what was
tried longest ago is as old as the interval. -/
def CadenceDue : Prop :=
  (∀ row ∈ store.inventories, env.registry.everySweep row.kind = false) ∨
    ∃ row ∈ store.inventories, env.registry.everySweep row.kind = true ∧
      sweepInterval env ≤ env.now - row.attemptedAt

instance : Decidable (CadenceDue env store) := inferInstanceAs (Decidable (_ ∨ _))

/-! ## What is claimed of the two -/

/-- The requests that ended are deleted, and nothing else changes. -/
structure Settles (after : Store) : Prop where
  requests : ∀ request, request ∈ after.requests ↔
    request ∈ store.requests ∧ ¬ (Expired env request ∨ Answered env store request)
  inventories : after.inventories = store.inventories
  connections : after.connections = store.connections

/-- A sweep told these kinds reads what the pending requests force, and every kind only when
one of them asks for everything. -/
structure Told (kinds : List String) : Prop where
  forced : ∀ kind, (kinds = [] ∨ kind ∈ kinds) ↔
    ∃ request, Pending env store request ∧ Forces env store request kind
  whole : kinds = [] → ∃ request, Pending env store request ∧ request.Everything

/-- Settling deletes what ended, and a sweep due only because it was asked for reads what was
asked. -/
structure Exact (controllerId : String) : Prop where
  settles : Settles env store (settleReadRequests env store).2.2
  told : ¬ CadenceDue env store → (sweepDue env store controllerId).due = true →
    Told env store (sweepDue env store controllerId).onlyKinds

/-! ## The kinds forced -/

variable {env} {store}

theorem mem_connectionProviders {ref provider : String} :
    provider ∈ connectionProviders store ref ↔
      ∃ row ∈ store.connections,
        row.connectionRef = ref ∧ row.provider ≠ "" ∧ row.provider = provider := by
  simp only [connectionProviders, List.mem_insertionSort, List.mem_dedup, List.mem_filter,
    List.mem_map, beq_iff_eq, decide_eq_true_eq]
  constructor
  · rintro ⟨⟨row, ⟨hrow, href⟩, rfl⟩, hne⟩
    exact ⟨row, hrow, href, hne, rfl⟩
  · rintro ⟨row, hrow, href, hne, rfl⟩
    exact ⟨⟨row, ⟨hrow, href⟩, rfl⟩, hne⟩

theorem forcedKinds_eq_none (request : ReadRequest) :
    forcedKinds env store request.connectionRef request.kind = none ↔ request.Everything := by
  by_cases hkind : request.kind = ""
  · by_cases href : request.connectionRef = ""
    · simp [forcedKinds, ReadRequest.Everything, hkind, href]
    · simp [forcedKinds, ReadRequest.Everything, hkind, href]
  · simp [forcedKinds, ReadRequest.Everything, hkind]

theorem mem_of_forcedKinds {request : ReadRequest} {kinds : List String}
    (h : forcedKinds env store request.connectionRef request.kind = some kinds) (kind : String) :
    kind ∈ kinds ↔ Forces env store request kind := by
  by_cases hkind : request.kind = ""
  · by_cases href : request.connectionRef = ""
    · simp [forcedKinds, hkind, href] at h
    · have hkinds : kinds =
          ((connectionProviders store request.connectionRef).flatMap
            env.registry.fedKinds).eraseDups := by
        simpa [forcedKinds, hkind, href] using h.symm
      simp only [hkinds, List.mem_eraseDups, List.mem_flatMap, mem_connectionProviders, Forces,
        hkind, href, ne_eq, not_true_eq_false, not_false_eq_true, if_false, if_true, Fed]
      constructor
      · rintro ⟨provider, ⟨row, hrow, href, hne, rfl⟩, hfed⟩
        exact ⟨row, hrow, href, hne, hfed⟩
      · rintro ⟨row, hrow, href, hne, hfed⟩
        exact ⟨row.provider, ⟨row, hrow, href, hne, rfl⟩, hfed⟩
  · have hkinds : kinds = [request.kind] := by simpa [forcedKinds, hkind] using h.symm
    simp [hkinds, Forces, hkind]

theorem forces_of_everything {request : ReadRequest} (h : request.Everything) (kind : String) :
    Forces env store request kind := by
  simp [Forces, h.1, h.2]

/-! ## What answers a request -/

theorem max?_any {times : List Moment} {asked : Moment} :
    times.max?.getD asked ≤ asked ↔ ∀ time ∈ times, time ≤ asked := by
  cases htimes : times.max? with
  | none =>
      rw [List.max?_eq_none_iff] at htimes
      simp [htimes]
  | some latest =>
      obtain ⟨hmem, hle⟩ := List.max?_eq_some_iff.mp htimes
      constructor
      · intro hlatest time htime
        exact (hle time htime).trans hlatest
      · intro hall
        exact hall latest hmem

theorem min?_any {times : List Moment} {asked : Moment} :
    times.min?.any (asked < ·) = true ↔ times ≠ [] ∧ ∀ time ∈ times, asked < time := by
  cases htimes : times.min? with
  | none =>
      rw [List.min?_eq_none_iff] at htimes
      simp [htimes]
  | some earliest =>
      obtain ⟨hmem, hle⟩ := List.min?_eq_some_iff.mp htimes
      rw [Option.any_some, decide_eq_true_eq]
      constructor
      · intro hearliest
        exact ⟨List.ne_nil_of_mem hmem, fun time htime => hearliest.trans_le (hle time htime)⟩
      · rintro ⟨-, hall⟩
        exact hall earliest hmem

theorem probed_le_iff {ref : String} {asked : Moment} :
    (probed store ref).getD asked ≤ asked ↔
      ¬ ∃ row ∈ store.connections, row.connectionRef = ref ∧ asked < row.observedAt := by
  rw [probed, max?_any, List.forall_mem_map]
  simp

theorem stored_get?_eq_some_iff {kind : String} {at? : Moment} :
    (stored store).get? kind = some at? ↔
      ∃ row ∈ store.inventories, row.kind = kind ∧ row.updatedAt = at? := by
  rw [Dict.get?_eq_some_iff]
  simp [stored]

theorem lt_stored_iff {kind : String} {asked : Moment} :
    asked < ((stored store).get? kind).getD asked ↔
      ∃ row ∈ store.inventories, row.kind = kind ∧ asked < row.updatedAt := by
  constructor
  · intro hlt
    cases hstored : (stored store).get? kind with
    | none => simp [hstored] at hlt
    | some found =>
        obtain ⟨row, hrow, hkind, hat⟩ := stored_get?_eq_some_iff.mp hstored
        rw [hstored, Option.getD_some, ← hat] at hlt
        exact ⟨row, hrow, hkind, hlt⟩
  · rintro ⟨row, hrow, hkind, hlt⟩
    have hstored := stored_get?_eq_some_iff.mpr ⟨row, hrow, hkind, rfl⟩
    rwa [hstored, Option.getD_some]

theorem sweptAt_any {asked : Moment} :
    ((((stored store).items.filter (env.registry.everySweep ·.1)).map Prod.snd).min?.any
        (asked < ·)) = true ↔
      (∃ row ∈ store.inventories, env.registry.everySweep row.kind = true) ∧
        ∀ row ∈ store.inventories, env.registry.everySweep row.kind = true →
          asked < row.updatedAt := by
  rw [min?_any]
  have hempty : ((stored store).items.filter (env.registry.everySweep ·.1)).map Prod.snd ≠ [] ↔
      ∃ row ∈ store.inventories, env.registry.everySweep row.kind = true := by
    simp [stored, List.filter_eq_nil_iff]
  rw [hempty, List.forall_mem_map]
  simp [stored]

theorem answered_iff (request : ReadRequest) :
    answered env store (forcedRead env store request) = true ↔ Answered env store request := by
  by_cases hprobe : request.connectionRef ≠ "" ∧
      (probed store request.connectionRef).getD request.requestedAt ≤ request.requestedAt
  · -- The connection it names was not probed since.
    have hfalse : answered env store (forcedRead env store request) = false := if_pos hprobe
    rw [hfalse]
    constructor
    · simp
    · intro h
      exact absurd (h.probed hprobe.1) (probed_le_iff.mp hprobe.2)
  · have hprobed : request.connectionRef ≠ "" → ∃ row ∈ store.connections,
        row.connectionRef = request.connectionRef ∧ request.requestedAt < row.observedAt := by
      intro href
      by_contra hnone
      exact hprobe ⟨href, probed_le_iff.mpr hnone⟩
    have hrest : answered env store (forcedRead env store request) = _ := if_neg hprobe
    rw [hrest]
    cases hkinds : forcedKinds env store request.connectionRef request.kind with
    | none =>
        have heverything := (forcedKinds_eq_none request).mp hkinds
        simp only [forcedRead, hkinds]
        rw [sweptAt_any]
        constructor
        · intro hwhole
          exact ⟨hprobed, fun hnot => absurd heverything hnot, fun _ => hwhole⟩
        · intro h
          exact h.whole heverything
    | some kinds =>
        have hnot : ¬ request.Everything := fun heverything => by
          rw [(forcedKinds_eq_none request).mpr heverything] at hkinds
          cases hkinds
        simp only [forcedRead, hkinds, List.all_eq_true, decide_eq_true_eq, lt_stored_iff,
          mem_of_forcedKinds hkinds]
        constructor
        · intro hnamed
          exact ⟨hprobed, fun _ => hnamed, fun heverything => absurd heverything hnot⟩
        · intro h
          exact h.named hnot

/-! ## What is pending -/

theorem mem_forcedReads {read : ForcedRead} :
    read ∈ forcedReads env store ↔
      ∃ request, Pending env store request ∧ forcedRead env store request = read := by
  simp only [forcedReads, List.mem_filter, List.mem_map, List.mem_insertionSort,
    Bool.not_eq_true', decide_eq_true_eq]
  constructor
  · rintro ⟨⟨request, ⟨hmem, hsince⟩, rfl⟩, hanswered⟩
    refine ⟨request, ⟨hmem, not_lt.mpr hsince, ?_⟩, rfl⟩
    rw [← answered_iff, hanswered]
    exact Bool.false_ne_true
  · rintro ⟨request, hpending, rfl⟩
    refine ⟨⟨request, ⟨hpending.stored, not_lt.mp hpending.current⟩, rfl⟩, ?_⟩
    rw [← Bool.not_eq_true, answered_iff]
    exact hpending.unanswered

theorem forcedReads_eq_nil : forcedReads env store = [] ↔ ¬ ∃ request, Pending env store request := by
  rw [List.eq_nil_iff_forall_not_mem]
  constructor
  · rintro hnone ⟨request, hpending⟩
    exact hnone _ (mem_forcedReads.mpr ⟨request, hpending, rfl⟩)
  · intro hnone read hread
    obtain ⟨request, hpending, -⟩ := mem_forcedReads.mp hread
    exact hnone ⟨request, hpending⟩

/-- One request is stored for a subject, so that its subject tells whether it is pending. -/
theorem mem_settled {request : ReadRequest} :
    request ∈ settled env store ↔ request ∈ store.requests ∧ ¬ Pending env store request := by
  simp only [settled, List.mem_filter, decide_eq_true_eq, List.mem_map, not_exists, not_and]
  constructor
  · rintro ⟨hmem, hnone⟩
    refine ⟨hmem, fun hpending => ?_⟩
    exact hnone _ (mem_forcedReads.mpr ⟨request, hpending, rfl⟩) rfl
  · rintro ⟨hmem, hnot⟩
    refine ⟨hmem, fun read hread hsubject => hnot ?_⟩
    obtain ⟨other, hpending, rfl⟩ := mem_forcedReads.mp hread
    obtain rfl : other = request :=
      List.inj_on_of_nodup_map store.subjects_nodup hpending.stored hmem hsubject
    exact hpending

theorem settles_settleReadRequests : Settles env store (settleReadRequests env store).2.2 := by
  refine ⟨fun request => ?_, rfl, rfl⟩
  have hafter : request ∈ (settleReadRequests env store).2.2.requests ↔
      request ∈ store.requests ∧ request ∉ settled env store := by
    simp [settleReadRequests]
  rw [hafter, mem_settled]
  constructor
  · rintro ⟨hmem, hkept⟩
    have hpending : Pending env store request := by
      by_contra hnot
      exact hkept ⟨hmem, hnot⟩
    exact ⟨hmem, fun hended => hended.elim hpending.current hpending.unanswered⟩
  · rintro ⟨hmem, hnot⟩
    rw [not_or] at hnot
    exact ⟨hmem, fun hgone => hgone.2 ⟨hmem, hnot.1, hnot.2⟩⟩

/-! ## What a sweep is told -/

theorem askedKinds_of_everything {request : ReadRequest} (hpending : Pending env store request)
    (heverything : request.Everything) : askedKinds (forcedReads env store) = [] := by
  have hread := mem_forcedReads.mpr ⟨request, hpending, rfl⟩
  have hany : (forcedReads env store).any (·.kinds.isNone) = true := by
    rw [List.any_eq_true]
    exact ⟨_, hread, by simp [forcedRead, (forcedKinds_eq_none request).mpr heverything]⟩
  exact if_pos hany

theorem mem_askedKinds (hnone : ¬ ∃ request, Pending env store request ∧ request.Everything)
    (kind : String) :
    kind ∈ askedKinds (forcedReads env store) ↔
      ∃ request, Pending env store request ∧ Forces env store request kind := by
  have hany : ¬ (forcedReads env store).any (·.kinds.isNone) = true := by
    rw [List.any_eq_true]
    rintro ⟨read, hread, hkinds⟩
    obtain ⟨request, hpending, rfl⟩ := mem_forcedReads.mp hread
    exact hnone ⟨request, hpending, (forcedKinds_eq_none request).mp (Option.isNone_iff_eq_none.mp hkinds)⟩
  rw [askedKinds, if_neg hany, List.mem_insertionSort, List.mem_dedup, List.mem_flatMap]
  have hforced : ∀ request, Pending env store request →
      (kind ∈ (forcedRead env store request).kinds.getD [] ↔ Forces env store request kind) := by
    intro request hpending
    cases hkinds : forcedKinds env store request.connectionRef request.kind with
    | none => exact absurd ⟨request, hpending, (forcedKinds_eq_none request).mp hkinds⟩ hnone
    | some kinds => simpa [forcedRead, hkinds] using mem_of_forcedKinds hkinds kind
  constructor
  · rintro ⟨read, hread, hkind⟩
    obtain ⟨request, hpending, rfl⟩ := mem_forcedReads.mp hread
    exact ⟨request, hpending, (hforced request hpending).mp hkind⟩
  · rintro ⟨request, hpending, hforces⟩
    exact ⟨_, mem_forcedReads.mpr ⟨request, hpending, rfl⟩, (hforced request hpending).mpr hforces⟩

theorem told_askedKinds_iff :
    Told env store (askedKinds (forcedReads env store)) ↔
      ∃ request kind, Pending env store request ∧ Forces env store request kind := by
  by_cases heverything : ∃ request, Pending env store request ∧ request.Everything
  · obtain ⟨request, hpending, hwhole⟩ := heverything
    constructor
    · intro _
      exact ⟨request, "", hpending, forces_of_everything hwhole ""⟩
    · intro _
      refine ⟨fun kind => ?_, fun _ => ⟨request, hpending, hwhole⟩⟩
      constructor
      · intro _
        exact ⟨request, hpending, forces_of_everything hwhole kind⟩
      · intro _
        exact .inl (askedKinds_of_everything hpending hwhole)
  · constructor
    · intro htold
      by_contra hnone
      have hempty : askedKinds (forcedReads env store) = [] := by
        rw [List.eq_nil_iff_forall_not_mem]
        intro kind hkind
        obtain ⟨request, hpending, hforces⟩ := (mem_askedKinds heverything kind).mp hkind
        exact hnone ⟨request, kind, hpending, hforces⟩
      exact heverything (htold.whole hempty)
    · rintro ⟨request, kind, hpending, hforces⟩
      have hmem := (mem_askedKinds heverything kind).mpr ⟨request, hpending, hforces⟩
      have hne : askedKinds (forcedReads env store) ≠ [] := List.ne_nil_of_mem hmem
      refine ⟨fun kind => ?_, fun hempty => absurd hempty hne⟩
      rw [or_iff_right hne]
      exact mem_askedKinds heverything kind

theorem oldestSweep_not_due (h : ¬ CadenceDue env store) :
    ∃ oldest, oldestSweep env store = some oldest ∧ env.now - oldest < sweepInterval env := by
  rw [CadenceDue, not_or] at h
  obtain ⟨hsome, hyoung⟩ := h
  cases holdest : oldestSweep env store with
  | none =>
      have hempty : store.inventories.filter (env.registry.everySweep ·.kind) = [] := by
        simpa [oldestSweep, List.min?_eq_none_iff] using holdest
      exact absurd (fun row hrow => by simpa using List.filter_eq_nil_iff.mp hempty row hrow) hsome
  | some oldest =>
      refine ⟨oldest, rfl, ?_⟩
      obtain ⟨hmem, -⟩ := List.min?_eq_some_iff.mp holdest
      obtain ⟨row, hrow, rfl⟩ := List.mem_map.mp hmem
      obtain ⟨hstored, hswept⟩ := List.mem_filter.mp hrow
      by_contra hdue
      exact hyoung ⟨row, hstored, hswept, not_lt.mp hdue⟩

/-- With the cadence not due, a sweep is due exactly when something is pending, and is told the
kinds asked for. -/
theorem sweepDue_of_not_due (h : ¬ CadenceDue env store) (controllerId : String) :
    ((sweepDue env store controllerId).due = true ↔ ∃ request, Pending env store request) ∧
      ((∃ request, Pending env store request) →
        (sweepDue env store controllerId).onlyKinds = askedKinds (forcedReads env store)) := by
  obtain ⟨oldest, holdest, hyoung⟩ := oldestSweep_not_due h
  have hdue : decide (sweepInterval env ≤ env.now - oldest) = false := by
    simpa using hyoung
  by_cases hpending : ∃ request, Pending env store request
  · have hforced : (forcedReads env store).isEmpty = false := by
      rw [List.isEmpty_eq_false_iff]
      exact fun hnil => forcedReads_eq_nil.mp hnil hpending
    simp [sweepDue, holdest, hdue, hforced, hpending]
  · have hforced := forcedReads_eq_nil.mpr hpending
    simp [sweepDue, holdest, hdue, hforced, hpending]

/-- Asking for a connection that feeds no kind, and nothing else, reads every kind. -/
theorem asked_exact_iff (env : Environment) (store : Store) (controllerId : String) :
    Exact env store controllerId ↔
      (¬ CadenceDue env store → (∃ request, Pending env store request) →
        ∃ request kind, Pending env store request ∧ Forces env store request kind) := by
  constructor
  · intro hexact hnot hpending
    obtain ⟨hdue, hkinds⟩ := sweepDue_of_not_due hnot controllerId
    have htold := hexact.told hnot (hdue.mpr hpending)
    rw [hkinds hpending] at htold
    exact told_askedKinds_iff.mp htold
  · intro hforces
    refine ⟨settles_settleReadRequests, fun hnot hdue => ?_⟩
    obtain ⟨hpending, hkinds⟩ := sweepDue_of_not_due hnot controllerId
    rw [hkinds (hpending.mp hdue)]
    exact told_askedKinds_iff.mpr (hforces hnot (hpending.mp hdue))

/-! ## A connection that feeds no kind -/

/-- AdGuard's rewrites are read through it, and nothing is through 1Password. -/
def registry : Registry where
  credentials := ["adguard", "onepassword"]
  observations := Dict.empty
  providers := (Dict.empty.set "adguard.rewrite" ⟨["adguard"], [], ""⟩).set "tls.delivery_target"
    ⟨["npm", "ssh", "onepassword"], [],
      "Nothing to read. Each certificate shows its own install."⟩

/-- Two minutes after a sweep. -/
def environment : Environment where
  registry := registry
  sweepIntervalActive := 900
  sweepIntervalIdle := 43200
  sshProbeInterval := 43200
  readRequestLifetime := 900
  recentlyUsed := true
  now := seconds 1000
  duration _ := "2 minutes"

/-- What was swept, and a connection asked for since. -/
def askedStore : Store where
  inventories := [⟨"adguard.rewrite", some (seconds 880), seconds 880⟩]
  connections := [⟨"example-vault", "example-controller", "onepassword", true, true, seconds 880⟩]
  requests := [⟨"example-vault", "", seconds 990⟩]
  kinds_nodup := by simp
  subjects_nodup := by simp

/-- Every kind is read for it. -/
theorem everything_read : ¬ Exact environment askedStore "example-controller" := by
  intro hexact
  have htold := hexact.told (by decide) (by decide)
  obtain ⟨request, hpending, heverything⟩ := htold.whole (by decide)
  obtain rfl : request = ⟨"example-vault", "", seconds 990⟩ := List.mem_singleton.mp hpending.stored
  exact absurd heverything.1 (by decide)

end SeverinoHQ.Cadence
