/-
# A failed transaction and the certificate before it

The attempt's error is a provider's unless the call that ended it answered another kind.
Only a provider's error leads to the rollback, so a wait that is cancelled, or any other
foreign error, leaves what was deployed so far where it is.
-/

import SeverinoHQ.Providers.Transaction

namespace SeverinoHQ.Providers

open SeverinoHQ.Math Dialogue Task

/-! ## Calls that fail -/

/-- The error a call answered that its caller cannot do without. A name that cannot be
read is noted and the next one is read. -/
def failure : Exchange Call Reply → Option Err
  | ⟨.ssh _ _ _, .error error⟩ => some error
  | ⟨.npmSession, .error error⟩ => some error
  | ⟨.request _ _ _ _, .error error⟩ => some error
  | ⟨.sleep _, .error error⟩ => some error
  | _ => none

/-- A task whose foreign errors are the foreign errors of its calls. -/
abbrev HonestAct {α : Type} (task : Act α) : Prop := Honest failure Err.foreign task

theorem honest_ssh (ref operation : String) (payload : Bytes) :
    HonestAct (ssh ref operation payload) :=
  honest_single (always_call.mpr fun reply _ _ => ⟨_, rfl, by cases reply <;> rfl⟩)

theorem honest_npmSession : HonestAct npmSession :=
  honest_single (always_call.mpr fun reply _ _ => ⟨_, rfl, by cases reply <;> rfl⟩)

theorem honest_request (address method : String) (session : Session) (payload : Payload) :
    HonestAct (request address method session payload) :=
  honest_single (always_call.mpr fun reply _ _ => ⟨_, rfl, by cases reply <;> rfl⟩)

theorem honest_sleep (interval : Int) : HonestAct (sleep interval) :=
  honest_single (always_call.mpr fun reply _ _ => ⟨_, rfl, by cases reply <;> rfl⟩)

theorem honest_now : HonestAct now := honest_lift (by rw [only_call]; exact fun _ => rfl)

theorem HonestAct.wrapped {α : Type} {task : Act α} (said : String) (h : HonestAct task) :
    HonestAct (ExceptT.adapt (Err.wrapped said) task) := h.adapt fun _ => Iff.rfl

/-! ## What is worked out from the answers -/

/-- A result whose error, where it is one, is a provider's. -/
def Own {α : Type} (result : Except Err α) : Prop := ∀ error, result = .error error → ¬error.foreign

theorem own_ok {α : Type} (value : α) : Own (.ok value : Except Err α) := fun _ h => by simp at h

theorem own_provider {α : Type} (message : String) (status : Option Evidence) :
    Own (.error (.provider message status) : Except Err α) := by
  rintro error ⟨rfl⟩
  simp [Err.foreign, Err.asProvider]

theorem own_caused {α : Type} (message : String) (status : Option Evidence) (cause : Err) :
    Own (.error (.caused message status cause) : Except Err α) := by
  rintro error ⟨rfl⟩
  simp [Err.foreign, Err.asProvider]

variable {library : Library}

theorem splitChain_own (fullchain : Bytes) : Own (splitChain fullchain) := by
  unfold splitChain
  split
  · exact own_ok _
  · exact own_provider _ _

theorem npmDecode_own {α : Type} (decode : Bytes → Except String (List α)) (raw : Bytes)
    (what : String) : Own (npmDecode decode raw what) := by
  unfold npmDecode
  split
  · exact own_ok _
  · split
    · exact own_ok _
    · exact own_caused _ _ _

theorem npmID_own (id : Option Int) (what : String) : Own (npmID id what) := by
  unfold npmID
  split
  · exact own_ok _
  · exact own_provider _ _

theorem npmSummary_own (certificate : CertificateObject) : Own (npmSummary certificate) := by
  unfold npmSummary
  cases hid : npmID certificate.id "certificate" with
  | ok id => exact own_ok _
  | error problem =>
      rintro error ⟨rfl⟩
      exact npmID_own _ _ _ hid

theorem mapM_own {α β : Type} {convert : α → Except Err β} (h : ∀ item, Own (convert item))
    (items : List α) : Own (items.mapM convert) := by
  induction items with
  | nil => exact own_ok _
  | cons item items ih =>
      rw [List.mapM_cons]
      cases hitem : convert item with
      | error problem =>
          rintro error ⟨rfl⟩
          exact h item _ hitem
      | ok value =>
          cases hrest : items.mapM convert with
          | error problem =>
              rintro error ⟨rfl⟩
              exact ih _ hrest
          | ok values => exact own_ok _

theorem npmMatch_own (consumer : Consumer) (certificates : List CertificateSummary)
    (known : Option Int) : Own (npmMatch consumer certificates known) := by
  unfold npmMatch
  dsimp only
  split
  · exact own_ok _
  · split
    · exact own_provider _ _
    · exact own_ok _
  · exact own_provider _ _

theorem npmMatching_own (consumer : Consumer) (domains : List String) (hosts : List ProxyHost) :
    Own (npmMatching consumer domains hosts) := by
  unfold npmMatching
  dsimp only
  split
  · exact own_ok _
  · exact own_provider _ _

theorem statusOf_own (turns : List Turn) : Own (statusOf library turns) := by
  unfold statusOf
  dsimp only
  split
  · split
    · exact own_provider _ _
    · exact own_provider _ _
  · split
    · exact own_caused _ _ _
    · exact own_ok _

theorem verificationPolicy_own (policy : Option Policy) : Own (verificationPolicy policy) := by
  unfold verificationPolicy
  split
  · exact own_provider _ _
  · split
    · exact own_provider _ _
    · exact own_ok _

/-! ## The attempt is honest -/

theorem npmProxyHostList_honest (session : Session) : HonestAct (npmProxyHostList library session) :=
  ((honest_request _ _ _ _).wrapped _).bind fun _ => honest_given (npmDecode_own _ _ _)

theorem npmCertificateList_honest (session : Session) :
    HonestAct (npmCertificateList library session) :=
  ((honest_request _ _ _ _).wrapped _).bind fun _ =>
    (honest_given (npmDecode_own _ _ _)).bind fun _ => honest_given (mapM_own npmSummary_own _)

theorem npmCertificateId_honest (session : Session) (consumer : Consumer) (found : Option Int) :
    HonestAct (npmCertificateId library session consumer found) := by
  cases found with
  | some id => exact honest_ok id
  | none =>
      refine ((honest_request _ _ _ _).wrapped _).bind fun created => ?_
      cases library.decodeCertificate created with
      | error problem => exact honest_throw (own_caused (α := Int) _ _ _ _ rfl)
      | ok answer => exact honest_given (npmID_own _ _)

theorem npmAttach_honest (session : Session) (certificateId : Int) (hosts : List ProxyHost) :
    HonestAct (npmAttach session certificateId hosts) := by
  induction hosts with
  | nil => exact honest_ok ()
  | cons host hosts ih =>
      refine (honest_given (npmID_own _ _)).bind fun id => ?_
      exact ((honest_request _ _ _ _).wrapped _).bind fun _ => ih

theorem npmManagedCertificate_honest (consumer : Consumer) (domains : List String)
    (fullchain privateKey : Bytes) (known : Option Int) :
    HonestAct (npmManagedCertificate library consumer domains fullchain privateKey known) := by
  refine honest_npmSession.bind fun session => ?_
  refine (npmCertificateList_honest session).bind fun certificates => ?_
  refine (honest_given (npmMatch_own _ _ _)).bind fun found => ?_
  refine (npmCertificateId_honest session consumer found).bind fun certificateId => ?_
  refine (honest_given (splitChain_own fullchain)).bind fun parts => ?_
  refine ((honest_request _ _ _ _).wrapped _).bind fun _ => ?_
  refine ((honest_request _ _ _ _).wrapped _).bind fun _ => ?_
  refine (npmProxyHostList_honest session).bind fun hosts => ?_
  refine (honest_given (npmMatching_own _ _ _)).bind fun matching => ?_
  exact (npmAttach_honest session certificateId matching).bind fun _ => honest_ok _

theorem deployTo_honest (plan : Plan) (pair : Pair) (deployment : Deployment) (consumer : Consumer) :
    HonestAct (deployTo library plan pair deployment consumer) := by
  unfold deployTo
  apply HonestAct.wrapped
  split
  · exact (npmManagedCertificate_honest _ _ _ _ _).bind fun _ => honest_ok _
  · exact (honest_ssh _ _ _).bind fun _ => honest_ok _
  · refine (honest_given (splitChain_own pair.fullchain)).bind fun parts => ?_
    exact (honest_ssh _ _ _).bind fun _ => honest_ok _

theorem deployFrom_honest (plan : Plan) (pair : Pair) (deployment : Deployment)
    (consumers : List Consumer) :
    HonestAct (deployFrom library plan pair deployment consumers) := by
  induction consumers generalizing deployment with
  | nil => exact honest_ok deployment
  | cons consumer consumers ih =>
      exact (deployTo_honest plan pair deployment consumer).bind fun deployment => ih deployment

theorem deployCertificate_honest (plan : Plan) (pair : Pair) :
    HonestAct (deployCertificate library plan pair) :=
  (honest_given (splitChain_own pair.fullchain)).bind fun _ => deployFrom_honest _ _ _ _

/-- A call whose failure ends nothing. -/
def Harmless (call : Call) : Prop := ∀ reply, failure ⟨call, reply⟩ = none

theorem harmless_peer (domain host : String) : Harmless (.peer domain host) := fun reply => by
  cases reply <;> rfl

theorem observe_harmless (consumer : Consumer) (domain connectHost : String) :
    (observe library consumer domain connectHost).Only Harmless := by
  unfold observe
  refine Only.bind ((only_call _).mpr (harmless_peer _ _)) fun read => ?_
  cases read with
  | error problem =>
      dsimp only
      split
      · exact only_pure _
      · exact only_pure _
  | ok der =>
      dsimp only
      split
      · exact only_pure _
      · split
        · exact only_pure _
        · exact only_pure _

theorem observeEach_harmless (consumer : Consumer) (connectHost : String) (domains : List String) :
    (observeEach library consumer connectHost domains).Only Harmless := by
  induction domains with
  | nil => exact only_pure _
  | cons domain domains ih =>
      refine (observe_harmless consumer domain connectHost).bind fun observed => ?_
      refine ih.bind fun rest => ?_
      cases observed with
      | error problem => exact only_pure _
      | ok observation => exact only_pure _

/-- Reading a consumer notes what it cannot read, and goes on. -/
theorem readConsumer_harmless (consumer : Consumer) (domains : List String) :
    (readConsumer library consumer domains).Only Harmless := by
  unfold readConsumer
  split
  · exact only_pure _
  · cases library.endpoint consumer.kind consumer.connectionRef with
    | error problem => exact only_pure _
    | ok connectHost => exact (observeEach_harmless consumer connectHost domains).bind fun _ => only_pure _

theorem consumerDomains_honest (spec : Spec) (consumer : Consumer) :
    HonestAct (consumerDomains library spec consumer) := by
  refine Honest.ite ?_ (honest_ok _)
  refine Honest.bind ?_ fun _ => honest_ok _
  refine honest_npmSession.bind fun session => ?_
  exact (npmProxyHostList_honest session).bind fun _ => honest_ok _

theorem readTurns_honest (spec : Spec) (consumers : List Consumer) :
    HonestAct (readTurns library spec consumers) := by
  induction consumers with
  | nil => exact honest_ok []
  | cons consumer consumers ih =>
      refine (consumerDomains_honest spec consumer).bind fun domains => ?_
      refine (honest_lift (readConsumer_harmless consumer domains)).bind fun turn => ?_
      exact ih.bind fun _ => honest_ok _

theorem reconcileTLS_honest (spec : Spec) : HonestAct (reconcileTLS library spec) :=
  (readTurns_honest spec spec.consumers).bind fun turns =>
    (honest_given (statusOf_own turns)).bind fun _ => honest_ok _

theorem verifyLoop_honest (spec : Spec) (policy : Policy) (expected : String) (deadline : Int)
    (rounds : Nat) : HonestAct (verifyLoop library spec policy expected deadline rounds) := by
  induction rounds with
  | zero => exact honest_ok none
  | succ rounds ih =>
      refine (reconcileTLS_honest spec).bind fun read => ?_
      refine Honest.ite (honest_ok _) ?_
      refine honest_now.bind fun time => ?_
      refine Honest.ite ?_ ?_
      · exact honest_throw (own_provider (α := Unit) _ _ _ rfl)
      · exact (honest_sleep _).bind fun _ => ih

theorem deployAndVerify_honest (request : Request) (expected : String) (rounds : Nat) :
    HonestAct (deployAndVerify library request expected rounds) := by
  refine (deployCertificate_honest _ _).bind fun deployment => ?_
  refine Honest.bind ?_ fun _ => honest_ok _
  refine (honest_given (verificationPolicy_own _)).bind fun policy => ?_
  exact honest_now.bind fun started => verifyLoop_honest _ _ _ _ _

end SeverinoHQ.Providers
