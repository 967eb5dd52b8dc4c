/-
# What a failed transaction leaves, and what a successful one has shown

A transaction that fails once a consumer has the new certificate should have put the
previous one back everywhere, or say that it could not; one that succeeds should have
read every consumer and found the new certificate. It does both exactly when no call of
the attempt fails with a foreign error after a consumer was deployed to, and the reading
it succeeds by has no nameless consumer that shares its name with another.
-/

import Mathlib.Algebra.Group.Int.Defs
import SeverinoHQ.Providers.Restoring
import SeverinoHQ.Providers.Serving

namespace SeverinoHQ.Providers

open SeverinoHQ.Math Dialogue Task

variable {library : Library}

/-! ## Deployments in the course of a transaction -/

/-- A pair was deployed to a consumer, to the end, in the course of these exchanges. -/
def Deployed (library : Library) (plan : Plan) (pair : Pair) (consumer : Consumer)
    (exchanges : List (Exchange Call Reply)) : Prop :=
  ∃ before deploying after known deployment, exchanges = before ++ (deploying ++ after) ∧
    Runs Dialogue.free (deployTo library plan pair known consumer).run () deploying (.ok deployment) ()

section Deployed

variable {plan : Plan} {pair : Pair} {consumer : Consumer}
  {exchanges earlier later : List (Exchange Call Reply)}

theorem Deployed.append (earlier : List (Exchange Call Reply))
    (h : Deployed library plan pair consumer exchanges) :
    Deployed library plan pair consumer (earlier ++ exchanges) := by
  obtain ⟨before, deploying, after, known, deployment, rfl, hdeploying⟩ := h
  exact ⟨earlier ++ before, deploying, after, known, deployment, (List.append_assoc _ _ _).symm, hdeploying⟩

theorem Deployed.before (later : List (Exchange Call Reply))
    (h : Deployed library plan pair consumer exchanges) :
    Deployed library plan pair consumer (exchanges ++ later) := by
  obtain ⟨before, deploying, after, known, deployment, rfl, hdeploying⟩ := h
  exact ⟨before, deploying, after ++ later, known, deployment, by simp, hdeploying⟩

/-- A first call is made, whatever comes of the rest. -/
theorem bind_calls {α β : Type} {task : Act α} {next : α → Act β}
    (h : Always Dialogue.free task.run () fun exchanges _ _ => exchanges ≠ []) :
    Always Dialogue.free (task >>= next).run () fun exchanges _ _ => exchanges ≠ [] := by
  rw [Task.always_bind]
  refine h.mono fun first result _ hfirst => ?_
  cases result with
  | error problem => exact hfirst
  | ok value => exact fun second _ _ _ hnone => hfirst (List.append_eq_nil_iff.mp hnone).1

theorem ssh_calls (ref operation : String) (payload : Bytes) :
    Always Dialogue.free (ssh ref operation payload).run () fun exchanges _ _ => exchanges ≠ [] :=
  always_call.mpr fun _ _ _ => by simp

theorem npmSession_calls :
    Always Dialogue.free npmSession.run () fun exchanges _ _ => exchanges ≠ [] :=
  always_call.mpr fun _ _ _ => by simp

/-- No consumer is deployed to without a call. -/
theorem deployTo_calls (plan : Plan) (pair : Pair) (known : Deployment) (consumer : Consumer) :
    Always Dialogue.free (deployTo library plan pair known consumer).run () fun exchanges result _ =>
      ∀ deployment, result = .ok deployment → exchanges ≠ [] := by
  unfold deployTo
  rw [always_adapt]
  split
  · exact (bind_calls (bind_calls npmSession_calls)).mono fun _ _ _ h _ _ => h
  · exact (bind_calls (ssh_calls _ _ _)).mono fun _ _ _ h _ _ => h
  · rw [Task.always_bind, always_given]
    cases splitChain pair.fullchain with
    | error problem => simp [Except.mapError]
    | ok parts => exact (bind_calls (ssh_calls _ _ _)).mono fun _ _ _ h _ _ => h

/-- A consumer deployed to in no exchanges was not deployed to. -/
theorem not_deployed_nil : ¬Deployed library plan pair consumer [] := by
  rintro ⟨before, deploying, after, known, deployment, heq, hdeploying⟩
  have hnone : deploying = [] := by
    have := List.append_eq_nil_iff.mp heq.symm
    exact (List.append_eq_nil_iff.mp this.2).1
  exact deployTo_calls _ _ _ _ _ _ _ hdeploying _ rfl hnone

/-- A call that failed is no part of a deployment. -/
theorem Deployed.of_failed {last : Exchange Call Reply} (hlast : failure last ≠ none)
    (h : Deployed library plan pair consumer (exchanges ++ [last])) :
    Deployed library plan pair consumer exchanges := by
  obtain ⟨before, deploying, after, known, deployment, heq, hdeploying⟩ := h
  have hcalls := deployTo_calls _ _ _ _ _ _ _ hdeploying _ rfl
  have hnone := deployTo_honest _ _ _ _ _ _ _ hdeploying
  dsimp only at hnone
  rcases List.eq_nil_or_concat after with rfl | ⟨after, final, rfl⟩
  · obtain ⟨deploying, final, rfl⟩ := (List.eq_nil_or_concat deploying).resolve_left hcalls
    have hfinal : last = final := by
      have := congrArg List.getLast? heq
      simpa using this
    exact absurd (hnone final (by simp)) (hfinal ▸ hlast)
  · refine ⟨before, deploying, after, known, deployment, ?_, hdeploying⟩
    have hparts : exchanges ++ [last] = (before ++ (deploying ++ after)) ++ [final] := by
      simpa using heq
    exact (List.append_inj' hparts rfl).1

theorem deployFrom_deploys (plan : Plan) (pair : Pair) (known : Deployment) (consumers : List Consumer) :
    Always Dialogue.free (deployFrom library plan pair known consumers).run () fun exchanges result _ =>
      ∀ deployment, result = .ok deployment → ∀ consumer ∈ consumers,
        Deployed library plan pair consumer exchanges := by
  induction consumers generalizing known with
  | nil => exact always_ok.mpr fun _ _ => by simp
  | cons consumer consumers ih =>
      unfold deployFrom
      rw [Task.always_bind]
      intro first result _ hfirst
      cases result with
      | error problem => simp
      | ok deployment =>
          refine (ih deployment).mono fun second result _ hrest final hfinal other hother => ?_
          rcases List.mem_cons.mp hother with rfl | hother
          · exact Deployed.before second ⟨[], first, [], known, deployment, by simp, hfirst⟩
          · exact (hrest final hfinal other hother).append first

theorem deployCertificate_deploys (plan : Plan) (pair : Pair) :
    Always Dialogue.free (deployCertificate library plan pair).run () fun exchanges result _ =>
      ∀ deployment, result = .ok deployment → ∀ consumer ∈ plan.spec.consumers,
        Deployed library plan pair consumer exchanges := by
  unfold deployCertificate
  rw [Task.always_bind, always_given]
  cases splitChain pair.fullchain with
  | error problem => simp
  | ok parts => exact deployFrom_deploys _ _ _ _

end Deployed

/-! ## The attempt and what follows it -/

section Attempt

variable {request : Request} {rounds : Nat}

/-- The attempt was made for this fingerprint, on these exchanges. -/
def Attempted (library : Library) (request : Request) (rounds : Nat) (expected : String)
    (exchanges : List (Exchange Call Reply)) (result : Except Err (Option (Deployment × List Turn × Status))) :
    Prop :=
  validateCertificate library request.pair.fullchain request.pair.privateKey
      request.plan.spec.domains = .ok expected ∧
    Runs Dialogue.free (deployAndVerify library request expected rounds).run () exchanges result ()

/-- Two attempts of one transaction that are told the same are the same. -/
theorem Attempted.unique {expected other : String} {first second : List (Exchange Call Reply)}
    (rest more : List (Exchange Call Reply))
    {result outcome : Except Err (Option (Deployment × List Turn × Status))}
    (h : Attempted library request rounds expected first result)
    (hother : Attempted library request rounds other second outcome)
    (heq : first ++ rest = second ++ more) : expected = other ∧ first = second ∧ result = outcome := by
  obtain ⟨hvalid, hruns⟩ := h
  obtain ⟨hagain, hothers⟩ := hother
  rw [hvalid] at hagain
  cases hagain
  exact ⟨rfl, hruns.unique_of_append hothers heq⟩

/-- How a transaction ends: the certificate is refused, the attempt succeeds or is still
going on, it fails with a foreign error, or it fails with a provider's and the previous
certificate is deployed, to the end or not. -/
inductive Ended (library : Library) (request : Request) (rounds : Nat) :
    List (Exchange Call Reply) → Except Err (Option Result) → Prop
  | refused {error : Err} (hrefused : validateCertificate library request.pair.fullchain
      request.pair.privateKey request.plan.spec.domains = .error error) :
      Ended library request rounds [] (.error error)
  | served {expected : String} {attempt : List (Exchange Call Reply)}
      {served : Option (Deployment × List Turn × Status)}
      (hattempt : Attempted library request rounds expected attempt (.ok served)) :
      Ended library request rounds attempt (.ok (served.map (report request expected)))
  | foreign {expected : String} {attempt : List (Exchange Call Reply)} {failed : Err}
      (hattempt : Attempted library request rounds expected attempt (.error failed))
      (hforeign : failed.foreign) : Ended library request rounds attempt (.error failed)
  | unrestored {expected : String} {attempt : List (Exchange Call Reply)} {failed : Err}
      (hattempt : Attempted library request rounds expected attempt (.error failed))
      (hforeign : ¬failed.foreign) (restoring : List (Exchange Call Reply)) (rollback : Err) :
      Ended library request rounds (attempt ++ restoring) (.error (rollbackFailed failed rollback))
  | restored {expected : String} {attempt restoring : List (Exchange Call Reply)} {failed : Err}
      (hattempt : Attempted library request rounds expected attempt (.error failed))
      (hforeign : ¬failed.foreign) (status : Option Evidence)
      (hrestoring : ∀ consumer ∈ request.plan.spec.consumers,
        Deployed library request.plan request.previous consumer restoring) :
      Ended library request rounds (attempt ++ restoring)
        (.error (.caused "certificate deployment failed, rollback succeeded" status failed))

theorem deployTransaction_ended (library : Library) (request : Request) (rounds : Nat) :
    Always Dialogue.free (deployTransaction library request rounds).run () fun exchanges answer _ =>
      Ended library request rounds exchanges answer := by
  unfold deployTransaction
  rw [Task.always_bind, always_given]
  cases hvalid : validateCertificate library request.pair.fullchain request.pair.privateKey
      request.plan.spec.domains with
  | error error => exact .refused hvalid
  | ok expected =>
      show Always _ (_ >>= _) _ _
      rw [Dialogue.always_bind]
      intro attempt result _ hattempt
      cases result with
      | ok served =>
          rw [always_pure, List.append_nil]
          exact .served ⟨hvalid, hattempt⟩
      | error failed =>
          dsimp only
          unfold rollBack
          cases hfailed : failed.asProvider with
          | none =>
              rw [always_throw, List.append_nil]
              exact .foreign ⟨hvalid, hattempt⟩ hfailed
          | some status =>
              have hforeign : ¬failed.foreign := by
                unfold Err.foreign
                simp [hfailed]
              show Always _ (_ >>= _) _ _
              rw [Dialogue.always_bind]
              refine (deployCertificate_deploys request.plan request.previous).mono
                fun restoring redeployed _ hredeployed => ?_
              cases redeployed with
              | error rollback =>
                  rw [always_pure, List.append_nil]
                  exact .unrestored ⟨hvalid, hattempt⟩ hforeign restoring rollback
              | ok deployment =>
                  rw [always_pure, List.append_nil]
                  exact .restored ⟨hvalid, hattempt⟩ hforeign status (hredeployed deployment rfl)

end Attempt

/-! ## What it answers for -/

/-- An error after a consumer was deployed to comes with the previous certificate deployed
to every consumer, or says that the rollback failed. A success comes with a reading of
every consumer, all of it the expected certificate. -/
structure Kept (library : Library) (request : Request) (rounds : Nat)
    (exchanges : List (Exchange Call Reply)) (answer : Except Err (Option Result)) : Prop where
  restored : ∀ error, answer = .error error →
    (∃ consumer ∈ request.plan.spec.consumers,
      Deployed library request.plan request.pair consumer exchanges) →
    (∃ failed rollback, error = rollbackFailed failed rollback) ∨
      ∃ expected attempt restoring failed, exchanges = attempt ++ restoring ∧
        Attempted library request rounds expected attempt (.error failed) ∧
        ∀ consumer ∈ request.plan.spec.consumers,
          Deployed library request.plan request.previous consumer restoring
  shown : ∀ result, answer = .ok (some result) →
    (∃ before reading, exchanges = before ++ reading ∧
      Runs Dialogue.free (readTurns library request.plan.spec request.plan.spec.consumers).run ()
        reading (.ok result.turns) ()) ∧
    result.turns.map Turn.consumer = request.plan.spec.consumers ∧
    ∃ expected, validateCertificate library request.pair.fullchain request.pair.privateKey
        request.plan.spec.domains = .ok expected ∧
      ∀ turn ∈ result.turns, turn.unreachable = [] ∧ turn.observations ≠ [] ∧
        ∀ observation ∈ turn.observations, observation.fingerprint = expected

/-- No call of the attempt answers a foreign error after a consumer was deployed to, and
the reading the attempt succeeds by has no consumer without a name to be read on that
shares its own name with another. -/
structure Careful (library : Library) (request : Request) (rounds : Nat)
    (exchanges : List (Exchange Call Reply)) : Prop where
  failures : ∀ expected before last after cause failed, exchanges = before ++ last :: after →
    Attempted library request rounds expected (before ++ [last]) (.error failed) →
    failure last = some cause → cause.foreign →
    ∀ consumer ∈ request.plan.spec.consumers,
      ¬Deployed library request.plan request.pair consumer before
  names : ∀ expected served, Attempted library request rounds expected exchanges (.ok (some served)) →
    ∀ turn ∈ served.2.1, ∀ other ∈ served.2.1, other ≠ turn →
      other.consumer.name = turn.consumer.name → turn.domains ≠ []

section Kept

variable {request : Request} {rounds : Nat} {exchanges : List (Exchange Call Reply)}

/-- The call an attempt failed by, where it failed with a foreign error, and where a call of
it answered one. -/
theorem failed_call {expected : String} {failed : Err}
    (h : Attempted library request rounds expected exchanges (.error failed)) :
    (failed.foreign → ∃ before last cause, exchanges = before ++ [last] ∧
        failure last = some cause ∧ cause.foreign) ∧
      ∀ before last cause, exchanges = before ++ [last] → failure last = some cause →
        cause.foreign → failed.foreign := by
  have hhonest := deployAndVerify_honest request expected rounds _ _ _ h.2
  dsimp only at hhonest
  rcases hhonest with ⟨hnone, hown⟩ | ⟨before, last, cause, rfl, -, hlast, hforeign⟩
  · refine ⟨fun h => absurd h hown, ?_⟩
    rintro before last cause rfl hlast -
    rw [hnone last (by simp)] at hlast
    simp at hlast
  · refine ⟨fun h => ⟨before, last, cause, rfl, hlast, hforeign.mp h⟩, ?_⟩
    intro first other reason heq hother hreason
    obtain rfl : last = other := by simpa using congrArg List.getLast? heq
    rw [hlast] at hother
    cases hother
    exact hforeign.mpr hreason

/-- A run whose attempt failed with a foreign error is all attempt, and is kept only where
nothing was deployed. -/
theorem kept_foreign_iff {expected : String} {failed : Err}
    (h : Attempted library request rounds expected exchanges (.error failed)) (hforeign : failed.foreign) :
    Kept library request rounds exchanges (.error failed) ↔ Careful library request rounds exchanges := by
  obtain ⟨before, last, cause, rfl, hlast, hcause⟩ := (failed_call h).1 hforeign
  have hfailed : failure last ≠ none := by simp [hlast]
  constructor
  · intro hkept
    refine ⟨?_, fun other served hserved => ?_⟩
    · intro other first final after reason wrong heq hother _ _ consumer hconsumer hdeployed
      obtain ⟨-, hsame, -⟩ := hother.unique after [] h (by simpa using heq.symm)
      obtain ⟨rfl, -⟩ := List.append_inj' hsame rfl
      rcases hkept.restored failed rfl ⟨consumer, hconsumer, hdeployed.before [last]⟩ with
        ⟨first, rollback, rfl⟩ | ⟨again, attempt, restoring, problem, heq, hattempt, hrestored⟩
      · simp [rollbackFailed, Err.foreign, Err.asProvider] at hforeign
      · obtain ⟨-, hsame, -⟩ := h.unique [] restoring hattempt (by simpa using heq)
        obtain rfl : restoring = [] := by
          rw [← hsame] at heq
          simpa using heq
        exact not_deployed_nil (hrestored consumer hconsumer)
    · obtain ⟨-, -, hsame⟩ := h.unique [] [] hserved rfl
      simp at hsame
  · intro hcareful
    refine ⟨fun error herror hdeployed => ?_, fun result hresult => by simp at hresult⟩
    obtain ⟨consumer, hconsumer, hdeployed⟩ := hdeployed
    exact absurd (hdeployed.of_failed hfailed)
      (hcareful.failures expected before last [] cause failed rfl h hlast hcause consumer hconsumer)

/-- A run whose attempt failed with a provider's error is careful, whatever followed. -/
theorem careful_of_failed {expected : String} {attempt restoring : List (Exchange Call Reply)} {failed : Err}
    (h : Attempted library request rounds expected attempt (.error failed)) (hforeign : ¬failed.foreign) :
    Careful library request rounds (attempt ++ restoring) := by
  constructor
  · intro other first last after reason wrong heq hother hlast hreason
    obtain ⟨-, rfl, hsame⟩ := h.unique restoring after hother (by simpa using heq)
    exact absurd ((failed_call h).2 first last reason rfl hlast hreason) hforeign
  · intro other served hserved
    obtain ⟨-, -, hsame⟩ := h.unique restoring [] hserved (by simp)
    simp at hsame

/-- A successful run is kept exactly where no nameless consumer hid behind another. -/
theorem kept_served_iff {expected : String} {served : Deployment × List Turn × Status}
    (h : Attempted library request rounds expected exchanges (.ok (some served))) :
    Kept library request rounds exchanges (.ok (some (report request expected served))) ↔
      Careful library request rounds exchanges := by
  have hends := deployAndVerify_ends _ _ _ _ _ _ h.2 served rfl
  obtain ⟨hconsumers, hread, hmissed, hfingerprint, hnamed⟩ := served_of_ends hends
  constructor
  · intro hkept
    refine ⟨?_, ?_⟩
    · intro other first last after reason wrong heq hother
      obtain ⟨-, -, hsame⟩ := hother.unique after [] h (by simpa using heq.symm)
      simp at hsame
    · intro other again hagain turn hturn _ _ _ _ hdomains
      obtain ⟨-, -, hsame⟩ := h.unique [] [] hagain rfl
      cases hsame
      obtain ⟨-, -, expected, -, hshown⟩ := hkept.shown _ rfl
      exact (hshown turn hturn).2.1 ((hread turn hturn).empty hdomains)
  · intro hcareful
    refine ⟨fun error herror => by simp at herror, fun result hresult => ?_⟩
    cases hresult
    refine ⟨hends.1, hconsumers, expected, h.1, fun turn hturn => ?_⟩
    refine ⟨hmissed turn hturn, fun hnone => ?_, hfingerprint turn hturn⟩
    obtain ⟨other, hother, hobserved, hname⟩ := hnamed turn hturn
    have hne : other ≠ turn := by
      rintro rfl
      exact hobserved hnone
    exact hcareful.names expected served h turn hturn other hother hne hname
      ((hread turn hturn).told (hmissed turn hturn) hnone)

/-- A run whose attempt is still going on has nothing to answer for. -/
theorem careful_of_attempting {expected : String} (h : Attempted library request rounds expected exchanges (.ok none)) :
    Careful library request rounds exchanges := by
  constructor
  · intro other first last after reason wrong heq hother
    obtain ⟨-, -, hsame⟩ := hother.unique after [] h (by simpa using heq.symm)
    simp at hsame
  · intro other served hserved
    obtain ⟨-, -, hsame⟩ := h.unique [] [] hserved rfl
    simp at hsame

end Kept

/-- However a transaction ends, it answers for what it did exactly when no foreign error
came after a deployment and no nameless consumer hid behind another. -/
theorem deployTransaction_kept_iff {σ : Type} {world : σ → Exchange Call Reply → σ → Prop}
    {request : Request} {rounds : Nat} {state final : σ} {exchanges : List (Exchange Call Reply)}
    {answer : Except Err (Option Result)}
    (h : Runs world (deployTransaction library request rounds).run state exchanges answer final) :
    Kept library request rounds exchanges answer ↔ Careful library request rounds exchanges := by
  cases deployTransaction_ended _ _ _ _ _ _ h.free with
  | refused hrefused =>
      constructor
      · intro _
        refine ⟨fun _ before last after _ _ heq => by simp at heq, fun expected served hserved => ?_⟩
        have hvalid := hserved.1
        rw [hrefused] at hvalid
        simp at hvalid
      · intro _
        refine ⟨fun _ _ hdeployed => ?_, fun result hresult => by simp at hresult⟩
        obtain ⟨consumer, -, hdeployed⟩ := hdeployed
        exact absurd hdeployed not_deployed_nil
  | @served expected attempt served hattempt =>
      cases served with
      | none =>
          refine ⟨fun _ => careful_of_attempting hattempt, fun _ => ?_⟩
          exact ⟨fun error herror => by simp at herror, fun result hresult => by simp at hresult⟩
      | some served => exact kept_served_iff hattempt
  | foreign hattempt hforeign => exact kept_foreign_iff hattempt hforeign
  | unrestored hattempt hforeign restoring rollback =>
      refine ⟨fun _ => careful_of_failed hattempt hforeign, fun _ => ?_⟩
      refine ⟨fun error herror _ => ?_, fun result hresult => by simp at hresult⟩
      cases herror
      exact Or.inl ⟨_, rollback, rfl⟩
  | restored hattempt hforeign status hrestoring =>
      refine ⟨fun _ => careful_of_failed hattempt hforeign, fun _ => ?_⟩
      refine ⟨fun error herror _ => ?_, fun result hresult => by simp at hresult⟩
      exact Or.inr ⟨_, _, _, _, rfl, hattempt, hrestoring⟩

/-! ## Two runs -/

/-- A certificate is told by the byte after its end; 2 is the new one. -/
def sampleLibrary : Library where
  edge := ⟨fun _ => [], fun _ => .ok ⟨1, .ok []⟩, fun _ => .ok (.ok [])⟩
  leaf fullchain := (fullchain.drop (certificateEnd.length), ["example.test"])
  fingerprint der := if der = [2] then "new" else "old"
  bundle fullchain privateKey := fullchain.drop (certificateEnd.length) ++ privateKey
  cpanelPayload _ _ _ _ := []
  decodeCertificates _ := .ok []
  decodeCertificate _ := .ok ⟨none, "", ""⟩
  decodeHosts _ := .ok []
  parseCertificate _ := .ok ⟨"2027-01-01T00:00:00Z", "issuer", ["example.test"], ""⟩
  parseTime _ := none
  endpoint _ _ := .ok ""

def sampleConsumer : Consumer where
  kind := .caddy
  name := "edge"
  connectionRef := "edge"
  verifyDomains := ["example.test"]

def sampleRequest : Request where
  plan := ⟨⟨["example.test"], [sampleConsumer]⟩, [], []⟩
  pair := ⟨certificateEnd ++ [2], [0]⟩
  previous := ⟨certificateEnd ++ [1], [0]⟩
  policy := some ⟨60, 5⟩
  artifactSource := "existing_lineage"
  reason := "Reconciled"
  message := "Installed again everywhere and checked."

/-- An edge that takes what it is sent and goes on serving the old certificate; the wait
is cut short by the cause, where there is one, and an hour passes at each look at the clock. -/
def stale (canceled : Option Err) (time : Int) : (call : Call) → Reply call × Int
  | .ssh _ _ _ => (.ok [], time)
  | .npmSession => (.ok ⟨"", ""⟩, time)
  | .request _ _ _ _ => (.ok [], time)
  | .peer _ _ => (.ok [1], time)
  | .now => (time, time + if canceled = none then 3600 * 10 ^ 9 else 0)
  | .sleep _ => (match canceled with
      | some cause => .error cause
      | none => .ok (), time)

def sampleRun (canceled : Option Err) : List (Exchange Call Reply) × Except Err (Option Result) × Int :=
  (deployTransaction sampleLibrary sampleRequest 2).run.runWith (stale canceled) 0

theorem stale_runs {α : Type} (canceled : Option Err) (program : Dialogue Call Reply α) :
    Runs Dialogue.free program () (program.runWith (stale canceled) 0).1
      (program.runWith (stale canceled) 0).2.1 () :=
  free_runWith _ _ _

theorem sampleRun_runs (canceled : Option Err) :
    Runs Dialogue.free (deployTransaction sampleLibrary sampleRequest 2).run ()
      (sampleRun canceled).1 (sampleRun canceled).2.1 () := stale_runs canceled _

/-- A transaction with one consumer has one turn in each reading. -/
theorem sample_turns {expected : String} {exchanges : List (Exchange Call Reply)}
    {served : Deployment × List Turn × Status}
    (h : Attempted sampleLibrary sampleRequest 2 expected exchanges (.ok (some served))) :
    ∃ turn, served.2.1 = [turn] := by
  have hconsumers := (served_of_ends (deployAndVerify_ends _ _ _ _ _ _ h.2 served rfl)).1
  rw [← List.length_eq_one_iff, ← List.length_map Turn.consumer, hconsumers]
  rfl

/-- The edge never serves the new certificate: the wait runs out and the previous one is
deployed again. -/
theorem late_edge_restored :
    Kept sampleLibrary sampleRequest 2 (sampleRun none).1 (sampleRun none).2.1 := by
  apply (deployTransaction_kept_iff (sampleRun_runs none)).mpr
  constructor
  · intro expected before last after cause failed heq _ hlast
    have hnone : ∀ exchange ∈ (sampleRun none).1, failure exchange = none := by decide
    rw [hnone last (by simp [heq])] at hlast
    simp at hlast
  · intro expected served hserved turn hturn other hother hne
    obtain ⟨only, honly⟩ := sample_turns hserved
    rw [honly, List.mem_singleton] at hturn hother
    exact absurd (hother.trans hturn.symm) hne

/-- The wait is cancelled once the edge has the new certificate: the error is returned as
it is, and the previous certificate is not deployed again. -/
theorem canceled_wait_unrestored :
    ¬∀ (library : Library) (request : Request) (rounds : Nat) (exchanges : List (Exchange Call Reply))
        (answer : Except Err (Option Result)),
      Runs Dialogue.free (deployTransaction library request rounds).run () exchanges answer () →
        Kept library request rounds exchanges answer := by
  intro h
  let canceled : Err := .other "context canceled"
  have hruns := sampleRun_runs (some canceled)
  have hcareful := (deployTransaction_kept_iff hruns).mp (h _ _ _ _ _ hruns)
  let attempt := (deployAndVerify sampleLibrary sampleRequest "new" 2).run.runWith (stale (some canceled)) 0
  have hattempt : Attempted sampleLibrary sampleRequest 2 "new" attempt.1 attempt.2.1 :=
    ⟨by decide, stale_runs _ _⟩
  let deploying := (deployTo sampleLibrary sampleRequest.plan sampleRequest.pair {} sampleConsumer).run.runWith
    (stale (some canceled)) 0
  have hdeploying : Runs Dialogue.free (deployTo sampleLibrary sampleRequest.plan sampleRequest.pair {}
      sampleConsumer).run () deploying.1 deploying.2.1 () := stale_runs _ _
  refine hcareful.failures "new" (attempt.1.take 4) ⟨.sleep (5 * 10 ^ 9), .error canceled⟩ [] canceled canceled
    rfl hattempt rfl rfl sampleConsumer (by decide) ?_
  exact ⟨[], deploying.1, (attempt.1.take 4).drop 1, {}, {}, rfl, hdeploying⟩

end SeverinoHQ.Providers
