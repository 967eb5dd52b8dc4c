/-
# What a call does to the requests

One event holds a call, ends a request, or leaves the requests alone. The
inversion of `step` says which, with all the guards it passed, and the rest
follows from it: a request that has left `pending` is never written again, and
a held call runs once, found pending and unexpired, against the baseline it was
asked with.
-/

import SeverinoHQ.Approvals.Model

namespace SeverinoHQ.Approvals

open SeverinoHQ.Math

variable {ε : Type}

/-- The document a request's fingerprint is taken of, against a baseline. -/
def ApprovalRequest.material (held : ApprovalRequest) (baseline : Json) : Json :=
  Approvals.material held.capability held.target? held.payload baseline

@[simp]
theorem targetText_target? (held : ApprovalRequest) : targetText held.target? = held.target := by
  unfold ApprovalRequest.target? targetText
  split
  · next hempty => simp [hempty]
  · simp

/-- The columns of a row that no decision writes. -/
def ApprovalRequest.sameCall (first second : ApprovalRequest) : Prop :=
  first.id = second.id ∧ first.capability = second.capability ∧ first.target = second.target ∧
    first.payload = second.payload ∧ first.baseline = second.baseline ∧
    first.contentFingerprint = second.contentFingerprint ∧ first.expiresAt = second.expiresAt

/-- The request `held` is ended by `write`. -/
structure Ends (world next : World ε) (held : ApprovalRequest)
    (write : ApprovalRequest → ApprovalRequest) : Prop where
  mem : held ∈ world.requests
  pending : held.state = .pending
  requests : next.requests = Table.update world.requests (fun row => row.id == held.id) write
  asks : next.asks = world.asks
  sameCall : ∀ row, (write row).sameCall row
  ended : ∀ row, (write row).state ≠ .pending

/-- What one event does to the requests. -/
inductive Outcome (env : Environment ε) (world next : World ε) : Prop where
  | quiet (hrequests : next.requests = world.requests) (hasks : next.asks = world.asks)
      (hdigested : next.digested = world.digested) (hruns : next.runs = world.runs)
  | held (row : ApprovalRequest) (hid : row.id = world.requests.length)
      (hrow : row.state = .pending)
      (hfingerprint : row.contentFingerprint = env.sha256 (row.material row.baseline))
      (hrequests : next.requests = world.requests ++ [row])
      (hasks : next.asks = world.asks ++ [⟨row.id, row.baseline, world.now⟩])
      (hdigested : next.digested = world.digested ++ [row.material row.baseline])
      (hruns : next.runs = world.runs)
  | ended (row : ApprovalRequest) (write : ApprovalRequest → ApprovalRequest)
      (hends : Ends world next row write) (hdigested : world.digested <+: next.digested)
      (hruns : next.runs = world.runs)
  | ran (row : ApprovalRequest) (write : ApprovalRequest → ApprovalRequest) (baseline : Json)
      (hends : Ends world next row write) (happroved : ∀ old, (write old).state = .approved)
      (hlive : world.now < row.expiresAt)
      (hfingerprint : row.contentFingerprint = env.sha256 (row.material baseline))
      (hdigested : next.digested = world.digested ++ [row.material baseline])
      (hruns : next.runs = world.runs ++ [⟨row, world.now, baseline⟩])

section Inversion

variable {env : Environment ε} {world : World ε}

/-- A settled request is one that was found pending. -/
theorem Ends.settle {next : World ε} {held : ApprovalRequest} {state : State} {note : String}
    (hmem : held ∈ world.requests) (hpending : held.state = .pending)
    (hrequests : next.requests = (world.settle held state note).requests)
    (hasks : next.asks = world.asks) (hstate : state ≠ .pending) :
    Ends world next held fun row =>
      { row with state := state, decidedAt := some world.now, decisionNote := note } where
  mem := hmem
  pending := hpending
  requests := hrequests
  asks := hasks
  sameCall _ := ⟨rfl, rfl, rfl, rfl, rfl, rfl, rfl⟩
  ended _ := hstate

theorem lapse_outcome (world : World ε) (approvalId : Nat) :
    Outcome env world (lapse world approvalId) := by
  unfold lapse
  split
  · next held hfound =>
      have hselects := List.find?_some hfound
      simp only [Bool.and_eq_true, beq_iff_eq] at hselects
      exact .ended held _ (Ends.settle (List.mem_of_find?_eq_some hfound) hselects.1.2 rfl rfl
        (by simp)) List.prefix_rfl rfl
  · exact .quiet rfl rfl rfl rfl

/-- What a decision starts from: an answer that leaves or lapses the request, or
the request itself, pending and unexpired. -/
theorem decidable_cases (env : Environment ε) (world : World ε) (approvalId : Nat) :
    (∃ ended, decidable world approvalId = .error ended ∧ Outcome env world ended.1 ∧
        ended.1.estate = world.estate ∧ ended.1.runs = world.runs) ∨
      ∃ held, decidable world approvalId = .ok held ∧
        world.requests.find? (fun row => row.id == approvalId) = some held ∧
        held.state = .pending ∧ world.now < held.expiresAt := by
  unfold decidable
  split
  · exact Or.inl ⟨_, rfl, .quiet rfl rfl rfl rfl, rfl, rfl⟩
  · next held hfound =>
      split
      · exact Or.inl ⟨_, rfl, .quiet rfl rfl rfl rfl, rfl, rfl⟩
      · next hpending =>
          have hpending := not_not.mp hpending
          split
          · have houtcome : Outcome env world (world.settle held .expired lapsedNote) :=
              .ended held _ (Ends.settle (List.mem_of_find?_eq_some hfound) hpending rfl rfl
                (by simp)) List.prefix_rfl rfl
            exact Or.inl ⟨_, rfl, houtcome, rfl, rfl⟩
          · next hlive => exact Or.inr ⟨held, rfl, hfound, hpending, Nat.lt_of_not_le hlive⟩

theorem reject_outcome (world : World ε) (approvalId : Nat) (note : String)
    (principal : Principal) : Outcome env world (reject world approvalId note principal).1 := by
  unfold reject
  rcases decidable_cases env world approvalId with
    ⟨ended, hdecidable, houtcome, -⟩ | ⟨held, hdecidable, hfound, hpending, -⟩
  · rw [hdecidable]
    exact houtcome
  · rw [hdecidable]
    dsimp only
    split
    · exact .quiet rfl rfl rfl rfl
    · split
      · exact .quiet rfl rfl rfl rfl
      · refine .ended held _ ⟨List.mem_of_find?_eq_some hfound, hpending, rfl, rfl, ?_, ?_⟩
          List.prefix_rfl rfl
        · exact fun _ => ⟨rfl, rfl, rfl, rfl, rfl, rfl, rfl⟩
        · simp

theorem holdForApproval_outcome (world : World ε) (spec : CapabilitySpec) (payload command : Json)
    (target : Option String) (principal : Principal) :
    Outcome env world (holdForApproval env world spec payload command target principal).1 := by
  unfold holdForApproval
  split
  · exact .quiet rfl rfl rfl rfl
  · split
    · exact .quiet rfl rfl rfl rfl
    · next subject _ =>
        dsimp only
        split
        · exact .quiet rfl rfl rfl rfl
        · split
          · exact .quiet rfl rfl rfl rfl
          · have hmaterial : (world.holding env spec payload command target principal
                subject).material subject.baseline =
                material spec.name target payload subject.baseline := by
              simp [ApprovalRequest.material, material, World.holding]
            refine .held (world.holding env spec payload command target principal subject)
              rfl rfl ?_ rfl rfl ?_ rfl
            · exact congrArg env.sha256 hmaterial.symm
            · exact congrArg (fun document => world.digested ++ [document]) hmaterial.symm

theorem ask_outcome (world : World ε) (capability : String) (payload : Json)
    (target : Option String) (principal : Principal) :
    Outcome env world (ask env world capability payload target principal).1 := by
  unfold ask
  split
  · exact .quiet rfl rfl rfl rfl
  · split
    · exact .quiet rfl rfl rfl rfl
    · split
      · exact .quiet rfl rfl rfl rfl
      · exact holdForApproval_outcome world _ payload _ target principal

/-- What a successful application did. -/
theorem applyHeld_ok {held : ApprovalRequest} {principal : Principal} {spec : CapabilitySpec}
    {command baseline : Json} {applied : World ε} {result : Json}
    (h : applyHeld env world held principal spec command baseline = .ok (applied, result)) :
    ∃ locked estate, world.requests.find? (fun row => row.id == held.id) = some locked ∧
      locked.state = .pending ∧
      env.executeApproved world.estate spec command locked.target? (acting principal held)
        (sentFields held.payload) = .ok (estate, result) ∧
      applied = ({ world with
          estate := estate
          runs := world.runs ++ [⟨locked, world.now, baseline⟩] } : World ε).save held.id
        fun row => { row with
          state := .approved
          decidedActor := principal.actor
          decidedInterface := principal.interface
          decidedAt := some world.now
          result := result } := by
  unfold applyHeld at h
  split at h
  · exact absurd h (by simp)
  · next locked hlocked =>
      split at h
      · exact absurd h (by simp)
      · next hpending =>
          split at h
          · exact absurd h (by simp)
          · next estate answer hexecuted =>
              split at h
              · exact absurd h (by simp)
              · obtain ⟨happlied, rfl⟩ := Prod.mk.inj (Except.ok.inj h)
                exact ⟨locked, estate, hlocked, not_not.mp hpending, hexecuted, happlied.symm⟩

/-- An approval ends its request, runs its call and says so, or leaves things alone. -/
theorem apply_outcome {held : ApprovalRequest}
    (hfound : world.requests.find? (fun row => row.id == held.id) = some held)
    (hpending : held.state = .pending) (hlive : world.now < held.expiresAt)
    (principal : Principal) : Outcome env world (apply env world held principal).1 := by
  have hmem := List.mem_of_find?_eq_some hfound
  unfold apply
  split
  · exact .quiet rfl rfl rfl rfl
  · split
    · exact .quiet rfl rfl rfl rfl
    · split
      · exact .quiet rfl rfl rfl rfl
      · split
        · exact .quiet rfl rfl rfl rfl
        · split
          · exact .quiet rfl rfl rfl rfl
          · dsimp only
            split
            · exact .ended held _ (Ends.settle hmem hpending rfl rfl (by simp))
                (List.prefix_append _ _) rfl
            · next hfingerprint =>
                split
                · exact .quiet rfl rfl rfl rfl
                · next applied result happlied =>
                    obtain ⟨locked, estate, hlocked, -, -, rfl⟩ := applyHeld_ok happlied
                    obtain rfl : held = locked := Option.some.inj (hfound.symm.trans hlocked)
                    refine .ran held _ _ ⟨hmem, hpending, rfl, rfl, ?_, ?_⟩ ?_ hlive
                      (not_not.mp hfingerprint).symm rfl rfl
                    · exact fun _ => ⟨rfl, rfl, rfl, rfl, rfl, rfl, rfl⟩
                    · simp
                    · exact fun _ => rfl

theorem approve_outcome (world : World ε) (approvalId : Nat) (principal : Principal) :
    Outcome env world (approve env world approvalId principal).1 := by
  unfold approve
  rcases decidable_cases env world approvalId with
    ⟨ended, hdecidable, houtcome, -⟩ | ⟨held, hdecidable, hfound, hpending, hlive⟩
  · rw [hdecidable]
    exact houtcome
  · rw [hdecidable]
    have hid : held.id = approvalId := by simpa using List.find?_some hfound
    subst hid
    exact apply_outcome hfound hpending hlive principal

/-- Every event has one of the outcomes. -/
theorem step_outcome (env : Environment ε) (world : World ε) (event : Event ε) :
    Outcome env world (step env world event) := by
  cases event with
  | tick elapsed => exact .quiet rfl rfl rfl rfl
  | edit change => exact .quiet rfl rfl rfl rfl
  | ask capability payload target principal =>
      exact ask_outcome world capability payload target principal
  | approve approvalId principal => exact approve_outcome world approvalId principal
  | reject approvalId note principal => exact reject_outcome world approvalId note principal
  | lapse approvalId => exact lapse_outcome world approvalId

end Inversion

end SeverinoHQ.Approvals
