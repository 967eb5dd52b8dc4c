/-
# A held call runs once, as it was asked

The invariant over every interleaving of asks, edits, decisions and lapses, and
the theorem it gives. Fingerprints are hashes, so the one thing a run is asked
for is that none of the documents digested in it share a hash.
-/

import SeverinoHQ.Approvals.Decisions

namespace SeverinoHQ.Approvals

open SeverinoHQ.Math

variable {ε : Type}

/-- The requests and the histories agree. -/
structure World.Sound (env : Environment ε) (world : World ε) : Prop where
  ids : world.requests.map ApprovalRequest.id = List.range world.requests.length
  asked : ∀ row ∈ world.requests, ∃ ask ∈ world.asks, ask.id = row.id ∧ ask.baseline = row.baseline
  fingerprinted : ∀ row ∈ world.requests,
    row.contentFingerprint = env.sha256 (row.material row.baseline) ∧
      row.material row.baseline ∈ world.digested
  /-- A call that ran was found pending and unexpired, its fingerprint taken again
  was the one stored, and its request says that it was approved. -/
  ran : ∀ held ∈ world.runs,
    held.request.state = .pending ∧ held.ranAt < held.request.expiresAt ∧
      held.request.contentFingerprint = env.sha256 (held.request.material held.baseline) ∧
      held.request.material held.baseline ∈ world.digested ∧
      ∃ row ∈ world.requests, row.sameCall held.request ∧ row.state = .approved
  once : (world.runs.map fun held => held.request.id).Nodup

theorem ApprovalRequest.sameCall.material_eq {first second : ApprovalRequest}
    (h : first.sameCall second) (baseline : Json) :
    first.material baseline = second.material baseline := by
  simp [ApprovalRequest.material, Approvals.material, h.2.1, h.2.2.1, h.2.2.2.1]

section Ended

variable {world next : World ε} {held : ApprovalRequest}
  {write : ApprovalRequest → ApprovalRequest}

/-- Behind a row of the next table is one of the table before, with the same call. -/
theorem Ends.before (h : Ends world next held write) {row : ApprovalRequest}
    (hrow : row ∈ next.requests) : ∃ old ∈ world.requests, row.sameCall old := by
  rw [h.requests] at hrow
  rcases Table.mem_update.mp hrow with ⟨hold, -⟩ | ⟨old, hold, -, rfl⟩
  · exact ⟨row, hold, rfl, rfl, rfl, rfl, rfl, rfl, rfl⟩
  · exact ⟨old, hold, h.sameCall old⟩

/-- A request that had been decided is in the next table as it was. -/
theorem Ends.keeps (h : Ends world next held write)
    (hids : world.requests.map ApprovalRequest.id = List.range world.requests.length)
    {row : ApprovalRequest} (hrow : row ∈ world.requests) (hdecided : row.state ≠ .pending) :
    row ∈ next.requests := by
  rw [h.requests]
  refine Table.mem_update.mpr (Or.inl ⟨hrow, ?_⟩)
  rw [beq_eq_false_iff_ne]
  intro hid
  have hnodup : (world.requests.map ApprovalRequest.id).Nodup := hids ▸ List.nodup_range
  have heq := Table.eq_of_column_eq hnodup hrow h.mem hid
  exact hdecided (heq ▸ h.pending)

theorem Ends.ids (h : Ends world next held write)
    (hids : world.requests.map ApprovalRequest.id = List.range world.requests.length) :
    next.requests.map ApprovalRequest.id = List.range next.requests.length := by
  rw [h.requests, Table.map_update _ fun row _ _ => (h.sameCall row).1, hids]
  simp [Table.update]

/-- The written row of the request that ended. -/
theorem Ends.written (h : Ends world next held write) : write held ∈ next.requests := by
  rw [h.requests]
  exact Table.mem_update.mpr (Or.inr ⟨held, h.mem, by simp, rfl⟩)

end Ended

namespace World.Sound

variable {env : Environment ε} {world next : World ε} {held : ApprovalRequest}
  {write : ApprovalRequest → ApprovalRequest}

theorem start (env : Environment ε) (now : Nat) (estate : ε) :
    (World.start now estate).Sound env := by
  constructor <;> simp [World.start]

theorem hold (h : world.Sound env) {row : ApprovalRequest} (hid : row.id = world.requests.length)
    (hfingerprint : row.contentFingerprint = env.sha256 (row.material row.baseline))
    (hrequests : next.requests = world.requests ++ [row])
    (hasks : next.asks = world.asks ++ [⟨row.id, row.baseline, world.now⟩])
    (hdigested : next.digested = world.digested ++ [row.material row.baseline])
    (hruns : next.runs = world.runs) : next.Sound env where
  ids := by simp [hrequests, h.ids, hid, List.range_succ]
  asked := by
    intro other hother
    rw [hrequests] at hother
    rcases List.mem_append.mp hother with hold | hnew
    · obtain ⟨ask, hask, hsame⟩ := h.asked other hold
      exact ⟨ask, by simp [hasks, hask], hsame⟩
    · obtain rfl := List.mem_singleton.mp hnew
      exact ⟨_, by rw [hasks]; exact List.mem_append_right _ (List.mem_singleton_self _), rfl, rfl⟩
  fingerprinted := by
    intro other hother
    rw [hrequests] at hother
    rcases List.mem_append.mp hother with hold | hnew
    · obtain ⟨heq, hmem⟩ := h.fingerprinted other hold
      exact ⟨heq, by simp [hdigested, hmem]⟩
    · obtain rfl := List.mem_singleton.mp hnew
      exact ⟨hfingerprint, by simp [hdigested]⟩
  ran := by
    intro run hrun
    rw [hruns] at hrun
    obtain ⟨hpending, hlive, heq, hmem, old, hold, hsame⟩ := h.ran run hrun
    exact ⟨hpending, hlive, heq, by simp [hdigested, hmem], old, by simp [hrequests, hold], hsame⟩
  once := by rw [hruns]; exact h.once

/-- A request ends: what was true of every call still is. -/
theorem asked_ends (h : world.Sound env) (hends : Ends world next held write)
    {row : ApprovalRequest} (hrow : row ∈ next.requests) :
    ∃ ask ∈ next.asks, ask.id = row.id ∧ ask.baseline = row.baseline := by
  obtain ⟨old, hold, hsame⟩ := hends.before hrow
  obtain ⟨ask, hask, hid, hbaseline⟩ := h.asked old hold
  exact ⟨ask, hends.asks ▸ hask, hid.trans hsame.1.symm,
    hbaseline.trans hsame.2.2.2.2.1.symm⟩

theorem fingerprinted_ends (h : world.Sound env) (hends : Ends world next held write)
    (hdigested : world.digested <+: next.digested) {row : ApprovalRequest}
    (hrow : row ∈ next.requests) :
    row.contentFingerprint = env.sha256 (row.material row.baseline) ∧
      row.material row.baseline ∈ next.digested := by
  obtain ⟨old, hold, hsame⟩ := hends.before hrow
  obtain ⟨heq, hmem⟩ := h.fingerprinted old hold
  have hmaterial : row.material row.baseline = old.material old.baseline := by
    rw [hsame.material_eq, hsame.2.2.2.2.1]
  rw [hmaterial, hsame.2.2.2.2.2.1]
  exact ⟨heq, hdigested.subset hmem⟩

/-- The calls that had run are still approved: no decided request is written. -/
theorem ran_ends (h : world.Sound env) (hends : Ends world next held write)
    (hdigested : world.digested <+: next.digested) {run : HeldRun} (hrun : run ∈ world.runs) :
    run.request.state = .pending ∧ run.ranAt < run.request.expiresAt ∧
      run.request.contentFingerprint = env.sha256 (run.request.material run.baseline) ∧
      run.request.material run.baseline ∈ next.digested ∧
      ∃ row ∈ next.requests, row.sameCall run.request ∧ row.state = .approved := by
  obtain ⟨hpending, hlive, heq, hmem, old, hold, hsame, happroved⟩ := h.ran run hrun
  refine ⟨hpending, hlive, heq, hdigested.subset hmem, old, ?_, hsame, happroved⟩
  exact hends.keeps h.ids hold (by simp [happroved])

/-- A pending request has not run. -/
theorem not_ran (h : world.Sound env) (hmem : held ∈ world.requests)
    (hpending : held.state = .pending) :
    ∀ run ∈ world.runs, run.request.id ≠ held.id := by
  intro run hrun hid
  obtain ⟨-, -, -, -, row, hrow, hsame, happroved⟩ := h.ran run hrun
  have hnodup : (world.requests.map ApprovalRequest.id).Nodup := h.ids ▸ List.nodup_range
  obtain rfl := Table.eq_of_column_eq hnodup hrow hmem (hsame.1.trans hid)
  simp [hpending] at happroved

theorem step (h : world.Sound env) (event : Event ε) : (step env world event).Sound env := by
  cases step_outcome env world event with
  | quiet hrequests hasks hdigested hruns =>
      exact {
        ids := by rw [hrequests]; exact h.ids
        asked := by rw [hrequests, hasks]; exact h.asked
        fingerprinted := by rw [hrequests, hdigested]; exact h.fingerprinted
        ran := by rw [hrequests, hdigested, hruns]; exact h.ran
        once := by rw [hruns]; exact h.once }
  | held row hid hrow hfingerprint hrequests hasks hdigested hruns =>
      exact h.hold hid hfingerprint hrequests hasks hdigested hruns
  | ended row write hends hdigested hruns =>
      exact {
        ids := hends.ids h.ids
        asked := fun _ => h.asked_ends hends
        fingerprinted := fun _ => h.fingerprinted_ends hends hdigested
        ran := fun run hrun => h.ran_ends hends hdigested (hruns ▸ hrun)
        once := by rw [hruns]; exact h.once }
  | ran row write baseline hends happroved hlive hfingerprint hdigested hruns =>
      have hinitial : world.digested <+: (Approvals.step env world event).digested := by
        rw [hdigested]
        exact List.prefix_append _ _
      exact {
        ids := hends.ids h.ids
        asked := fun _ => h.asked_ends hends
        fingerprinted := fun _ => h.fingerprinted_ends hends hinitial
        ran := by
          intro run hrun
          rw [hruns] at hrun
          rcases List.mem_append.mp hrun with hold | hnew
          · exact h.ran_ends hends hinitial hold
          · obtain rfl := List.mem_singleton.mp hnew
            exact ⟨hends.pending, hlive, hfingerprint, by simp [hdigested], write row,
              hends.written, hends.sameCall row, happroved row⟩
        once := by
          rw [hruns]
          exact Table.nodup_map_append_singleton h.once
            (h.not_ran hends.mem hends.pending) }

end World.Sound

/-! ## Who runs a held call -/

/-- An event runs a held call, or leaves the estate and the runs to whoever edits. -/
inductive Runs (world next : World ε) : Event ε → Prop where
  | nothing {event : Event ε} (hestate : next.estate = world.estate)
      (hruns : next.runs = world.runs) : Runs world next event
  | edit (change : ε → ε) (hruns : next.runs = world.runs) : Runs world next (.edit change)
  | approval (row : ApprovalRequest) (principal : Principal) (baseline : Json)
      (hperson : isInteractive principal = true) (hother : principal.actor ≠ row.requestedActor)
      (hruns : next.runs = world.runs ++ [⟨row, world.now, baseline⟩]) :
      Runs world next (.approve row.id principal)

theorem requirePerson_none {principal : Principal} {held : ApprovalRequest}
    (h : requirePerson principal held = none) :
    isInteractive principal = true ∧ principal.actor ≠ held.requestedActor := by
  unfold requirePerson at h
  split at h
  · exact absurd h (by simp)
  · next hinteractive =>
      split at h
      · exact absurd h (by simp)
      · next hother => exact ⟨by simpa using hinteractive, hother⟩

theorem apply_runs {env : Environment ε} {world : World ε} {held : ApprovalRequest}
    (hfound : world.requests.find? (fun row => row.id == held.id) = some held)
    (principal : Principal) :
    Runs world (apply env world held principal).1 (.approve held.id principal) := by
  unfold apply
  split
  · exact .nothing rfl rfl
  · split
    · exact .nothing rfl rfl
    · next hperson =>
        obtain ⟨hinteractive, hother⟩ := requirePerson_none hperson
        split
        · exact .nothing rfl rfl
        · split
          · exact .nothing rfl rfl
          · split
            · exact .nothing rfl rfl
            · dsimp only
              split
              · exact .nothing rfl rfl
              · split
                · exact .nothing rfl rfl
                · next applied result happlied =>
                    obtain ⟨locked, estate, hlocked, -, -, rfl⟩ := applyHeld_ok happlied
                    obtain rfl : held = locked := Option.some.inj (hfound.symm.trans hlocked)
                    exact .approval held principal _ hinteractive hother rfl

/-- Only a person's approval runs a held call. -/
theorem step_runs (env : Environment ε) (world : World ε) (event : Event ε) :
    Runs world (step env world event) event := by
  cases event with
  | tick elapsed => exact .nothing rfl rfl
  | edit change => exact .edit change rfl
  | ask capability payload target principal =>
      simp only [step, ask, holdForApproval]
      repeat' split
      all_goals exact .nothing rfl rfl
  | approve approvalId principal =>
      simp only [step, approve]
      rcases decidable_cases env world approvalId with
        ⟨ended, hdecidable, -, hestate, hruns⟩ | ⟨held, hdecidable, hfound, -⟩
      · rw [hdecidable]
        exact .nothing hestate hruns
      · rw [hdecidable]
        have hid : held.id = approvalId := by simpa using List.find?_some hfound
        subst hid
        exact apply_runs hfound principal
  | reject approvalId note principal =>
      simp only [step, reject]
      rcases decidable_cases env world approvalId with
        ⟨ended, hdecidable, -, hestate, hruns⟩ | ⟨held, hdecidable, -⟩
      · rw [hdecidable]
        exact .nothing hestate hruns
      · rw [hdecidable]
        dsimp only
        repeat' split
        all_goals exact .nothing rfl rfl
  | lapse approvalId =>
      simp only [step, lapse]
      split
      · exact .nothing rfl rfl
      · exact .nothing rfl rfl

/-! ## Over every run -/

/-- Every request stays, and one that has left `pending` stays as it is. -/
def World.Later (world next : World ε) : Prop :=
  ∀ row ∈ world.requests, row.state ≠ .pending → row ∈ next.requests

instance : Std.Refl (World.Later : World ε → World ε → Prop) := ⟨fun _ _ hrow _ => hrow⟩

instance : IsTrans (World ε) World.Later :=
  ⟨fun _ _ _ hfirst hsecond row hrow hdecided =>
    hsecond row (hfirst row hrow hdecided) hdecided⟩

theorem step_later {env : Environment ε} {world : World ε} (h : world.Sound env)
    (event : Event ε) : world.Later (step env world event) := by
  intro row hrow hdecided
  cases step_outcome env world event with
  | quiet hrequests => rwa [hrequests]
  | held _ _ _ _ hrequests => simp [hrequests, hrow]
  | ended _ _ hends => exact hends.keeps h.ids hrow hdecided
  | ran _ _ _ hends => exact hends.keeps h.ids hrow hdecided

section Runs

variable (env : Environment ε) (now : Nat) (estate : ε)

/-- The world after `events`, from one where nothing was asked. -/
def reached (events : List (Event ε)) : World ε := run (step env) (World.start now estate) events

theorem reached_sound (events : List (Event ε)) : (reached env now estate events).Sound env :=
  run_always (World.Sound env) (fun _ event h => h.step event)
    (World.Sound.start env now estate) _

theorem reached_later (first second : List (Event ε)) :
    (reached env now estate first).Later (reached env now estate (first ++ second)) := by
  rw [reached, reached, run_append]
  exact run_related (World.Sound env) World.Later (fun _ event h _ => h.step event)
    (fun _ event h _ => step_later h event) (reached_sound env now estate first)
    (meets_of_forall (fun _ _ => trivial) _ _)

/-- In every run of asks, edits, decisions and lapses, none of whose digested
documents share a hash: a held call runs at most once, by a person's approval of
its request, found pending and unexpired, when the baseline read is the one its
request was asked with; and a request that has left `pending` never moves again. -/
theorem run_runs_held_once (events : List (Event ε))
    (hcollision : ∀ first ∈ (reached env now estate events).digested,
      ∀ second ∈ (reached env now estate events).digested,
        env.sha256 first = env.sha256 second → first = second) :
    ((reached env now estate events).runs.map fun held => held.request.id).Nodup ∧
      (∀ held ∈ (reached env now estate events).runs,
        held.request.state = .pending ∧ held.ranAt < held.request.expiresAt ∧
          ∃ ask ∈ (reached env now estate events).asks,
            ask.id = held.request.id ∧ held.baseline = ask.baseline) ∧
      (∀ first event second, events = first ++ event :: second →
        Runs (reached env now estate first) (reached env now estate (first ++ [event])) event) ∧
      ((reached env now estate events).requests.map ApprovalRequest.id).Nodup ∧
      ∀ first second, events = first ++ second → ∀ row ∈ (reached env now estate first).requests,
        row.state ≠ .pending → row ∈ (reached env now estate events).requests := by
  have hsound := reached_sound env now estate events
  refine ⟨hsound.once, ?_, ?_, hsound.ids ▸ List.nodup_range, ?_⟩
  · intro held hheld
    obtain ⟨hpending, hlive, heq, hmem, row, hrow, hsame, -⟩ := hsound.ran held hheld
    obtain ⟨ask, hask, hid, hbaseline⟩ := hsound.asked row hrow
    obtain ⟨hasked, haskedMem⟩ := hsound.fingerprinted row hrow
    refine ⟨hpending, hlive, ask, hask, hid.trans hsame.1, ?_⟩
    -- The two fingerprints are one, so the two documents are, and their baselines with them.
    have hmaterial : row.material row.baseline = held.request.material held.baseline := by
      apply hcollision _ haskedMem _ hmem
      rw [← hasked, ← heq, hsame.2.2.2.2.2.1]
    have hbaselines : row.baseline = held.baseline := by
      simp only [ApprovalRequest.material, material, Json.obj.injEq, List.cons.injEq,
        Prod.mk.injEq] at hmaterial
      exact hmaterial.1.2
    rw [hbaseline, hbaselines]
  · intro first event second _
    have hstep : reached env now estate (first ++ [event]) =
        step env (reached env now estate first) event := by
      rw [reached, reached, run_append]
      rfl
    rw [hstep]
    exact step_runs env _ event
  · intro first second hevents row hrow hdecided
    rw [hevents]
    exact reached_later env now estate first second row hrow hdecided

end Runs

/-! ### A request that is approved, and one that is overtaken -/

/-- The payload of a change of a project's name. -/
def nameChange (name : String) : Json := .obj [("name", .str name)]

/-- An estate of one project, `attic`, that has only a name. -/
def projectEnvironment : Environment String where
  registry name :=
    if name = "project.update" then some ⟨"project.update", "write", "project"⟩ else none
  authorize _ _ := none
  validateCommand _ _ payload _ := .ok payload
  managedResource _ _ := none
  recordSpec _ _ := none
  getResource estate _ target :=
    if target = "attic" then .found (nameChange estate) else .recordNotFound
  capabilityFields _ := ["name"]
  heldAsker _ _ := false
  executeApproved _ _ command _ _ _ := .ok (textAttribute command "name", .obj [("ok", .bool true)])
  sha256 document :=
    if document = material "project.update" (some "attic") (nameChange "Cellar")
        (nameChange "Attic") then
      "28bfd30d506fba1a5d0281fc7ecdee4d143ed7a1e680796c2352fac4d0792588"
    else if document = material "project.update" (some "attic") (nameChange "Loft")
        (nameChange "Cellar") then
      "b637cbd7fa231a57ffd778cbc536f47acc236092e5ff8399951dffaffb98cdf7"
    else if document = material "project.update" (some "attic") (nameChange "Loft")
        (nameChange "Shed") then
      "7e6b1ae5d5edfc07d315dfd051f5f743026ea0a38afde130c343b939d558ff7b"
    else ""

def claude : Principal := ⟨"claude", "mcp", ["write"], "", "", ""⟩

def operator : Principal := ⟨"operator", "web", ["write"], "", "", ""⟩

/-- The first rename is approved, twice; the second is overtaken by an edit. -/
def approvedThenOvertaken : List (Event String) :=
  [.ask "project.update" (nameChange "Cellar") (some "attic") claude, .tick 5,
    .approve 0 operator, .approve 0 operator,
    .ask "project.update" (nameChange "Loft") (some "attic") claude,
    .edit (fun _ => "Shed"), .approve 1 operator, .approve 1 operator]

theorem approvedThenOvertaken_runs_once :
    (∀ first ∈ (reached projectEnvironment 0 "Attic" approvedThenOvertaken).digested,
      ∀ second ∈ (reached projectEnvironment 0 "Attic" approvedThenOvertaken).digested,
        projectEnvironment.sha256 first = projectEnvironment.sha256 second → first = second) ∧
      (reached projectEnvironment 0 "Attic" approvedThenOvertaken).requests.map
        ApprovalRequest.state = [.approved, .stale] ∧
      (reached projectEnvironment 0 "Attic" approvedThenOvertaken).estate = "Shed" ∧
      ((reached projectEnvironment 0 "Attic" approvedThenOvertaken).runs.map fun held =>
        held.request.id).Nodup :=
  ⟨by decide, by decide, by decide,
    (run_runs_held_once projectEnvironment 0 "Attic" approvedThenOvertaken (by decide)).1⟩

end SeverinoHQ.Approvals
