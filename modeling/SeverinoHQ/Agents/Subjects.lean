/-
# The unit HQ answers for

One client as one person, or a machine's client alone. Retry keys, policy rules
and rate limits are kept against it as one text: a client id, and behind a
separator the sign-in key of its person. The key is a hex digest and never holds
the separator, so the text is read apart at its last one. A machine's client id
may hold one too, and is then told apart by the row kept of it, not by the text.
-/

import SeverinoHQ.Approvals.Model
import SeverinoHQ.Math.Separated

namespace SeverinoHQ.Agents

open SeverinoHQ.Math
open SeverinoHQ.Approvals (Principal strip)

/-! ## Subjects -/

/-- `_SUBJECT_SEPARATOR`. -/
def subjectSeparator : Char := '@'

/-- `subject_of`. -/
def subjectOf (clientId personKey : String) : String :=
  if personKey = "" then clientId else clientId ++ String.singleton subjectSeparator ++ personKey

/-- `agent_subject`. -/
def agentSubject (principal : Principal) : String :=
  subjectOf principal.actor principal.personKey

/-- `subject_parts`: read apart at the last separator. -/
def subjectParts (subject : String) : String × String :=
  match Separated.splitLast subjectSeparator subject.toList with
  | some (clientId, key) => (String.ofList clientId, String.ofList key)
  | none => (subject, "")

/-! ## The principals HQ makes -/

/-- The identity provider a token is verified against, and how its claims are read. -/
structure Issuer where
  name : String
  /-- `hashlib.sha256(...).hexdigest()` of a text. -/
  hexdigest : String → String
  /-- Python's `str` of a claim. -/
  str : Json → String

/-- A hex digest is sixty-four of the digits `0` to `f`. -/
def Issuer.Hexadecimal (issuer : Issuer) : Prop :=
  ∀ text, (issuer.hexdigest text).toList.length = 64 ∧
    ∀ digit ∈ (issuer.hexdigest text).toList, digit ∈ "0123456789abcdef".toList

/-- `sign_in_subject`. -/
def signInSubject (issuer : Issuer) (subject : String) : String :=
  issuer.hexdigest (issuer.name ++ String.singleton (Char.ofNat 0) ++ subject)

/-- A claim that says something. -/
def claim (claims : Json) (name : String) : Option Json :=
  (claims.get? name).filter Json.truthy

/-- The client a token names: `client_id`, or `azp` or `sub` of an issuer that omits it. -/
def tokenActor (issuer : Issuer) (claims : Json) : Except String String :=
  let named := (claim claims "client_id").or ((claim claims "azp").or (claim claims "sub"))
  let actor := strip ((named.map issuer.str).getD "")
  if actor = "" then
    .error ("This token names no client. Its `client_id`, `azp` or `sub` claim is what HQ " ++
      "records as the actor for everything it does.")
  else
    .ok actor

/-- `_person_key`: nobody signed in a token whose subject is its own client. -/
def tokenPersonKey (issuer : Issuer) (claims : Json) (actor : String) : String :=
  let subject := strip (((claim claims "sub").map issuer.str).getD "")
  let client := ((claim claims "client_id").map issuer.str).getD actor
  if subject = "" ∨ subject = actor ∨ subject = "client-" ++ client then ""
  else signInSubject issuer subject

/-- The principals HQ makes: of a session, the shell or itself, with nobody
behind a token, or of a verified token. A replayed request is run as the actor
and person of the one that asked. -/
inductive Created (issuer : Issuer) : Principal → Prop where
  | session (principal : Principal) (hperson : principal.personKey = "") : Created issuer principal
  | token (claims : Json) (principal : Principal)
      (hactor : tokenActor issuer claims = .ok principal.actor)
      (hperson : principal.personKey = tokenPersonKey issuer claims principal.actor) :
      Created issuer principal

/-! ## Reading a subject apart -/

theorem subjectOf_toList {clientId personKey : String} (h : personKey ≠ "") :
    (subjectOf clientId personKey).toList =
      clientId.toList ++ subjectSeparator :: personKey.toList := by
  simp [subjectOf, h]

theorem subjectOf_empty (clientId : String) : subjectOf clientId "" = clientId := by
  simp [subjectOf]

theorem subjectParts_joined {clientId personKey : String} (hperson : personKey ≠ "")
    (hkey : subjectSeparator ∉ personKey.toList) :
    subjectParts (subjectOf clientId personKey) = (clientId, personKey) := by
  rw [subjectParts, subjectOf_toList hperson, Separated.splitLast_append hkey]
  simp

theorem subjectParts_plain {clientId : String} (h : subjectSeparator ∉ clientId.toList) :
    subjectParts clientId = (clientId, "") := by
  rw [subjectParts, Separated.splitLast_of_not_mem h]

/-- A client id that holds the separator is read as another client's and a person's. -/
theorem subjectParts_fst_ne {clientId : String} (h : subjectSeparator ∈ clientId.toList) :
    (subjectParts clientId).1 ≠ clientId := by
  obtain ⟨first, last, hlast, htext⟩ := Separated.exists_append_of_mem h
  rw [subjectParts, htext, Separated.splitLast_append hlast]
  intro hsame
  have hlength := congrArg (fun text => text.toList.length) hsame
  simp only [String.toList_ofList, htext, List.length_append, List.length_cons] at hlength
  omega

/-- The sign-in key of a principal HQ makes holds no separator. -/
theorem Created.separator_not_mem {issuer : Issuer} (hhex : issuer.Hexadecimal)
    {principal : Principal} (h : Created issuer principal) :
    subjectSeparator ∉ principal.personKey.toList := by
  cases h with
  | session _ hperson =>
      rw [hperson]
      exact List.not_mem_nil
  | token claims _ _ hperson =>
      rw [hperson, tokenPersonKey]
      split_ifs
      · exact List.not_mem_nil
      · intro hmem
        have hdigit := (hhex _).2 _ hmem
        revert hdigit
        decide

/-- A machine's client id spelled as another client's subject. -/
def Disguised (machine person : Principal) : Prop :=
  machine.personKey = "" ∧ person.personKey ≠ "" ∧
    machine.actor = subjectOf person.actor person.personKey

/-- Two principals HQ makes have one subject exactly when they are one client as
one person, or one is a machine whose client id is the other's subject. A subject
is read back to its client and person exactly when it has a person, or its client
id holds no separator. -/
theorem subjects_told_apart (issuer : Issuer) (hhex : issuer.Hexadecimal)
    (first second : Principal) (hfirst : Created issuer first) (hsecond : Created issuer second) :
    (agentSubject first = agentSubject second ↔
      first.actor = second.actor ∧ first.personKey = second.personKey ∨
        Disguised first second ∨ Disguised second first) ∧
    (subjectParts (agentSubject first) = (first.actor, first.personKey) ↔
      first.personKey ≠ "" ∨ subjectSeparator ∉ first.actor.toList) := by
  have hkey := hfirst.separator_not_mem hhex
  have hother := hsecond.separator_not_mem hhex
  constructor
  · unfold agentSubject Disguised
    by_cases hperson : first.personKey = "" <;> by_cases hanother : second.personKey = ""
    · simp [hperson, hanother, subjectOf_empty]
    · simp [hperson, hanother, subjectOf_empty, Ne.symm hanother]
    · simp [hperson, hanother, subjectOf_empty, eq_comm]
    · simp only [hperson, hanother, false_and, or_false]
      constructor
      · intro hsame
        have hlists := congrArg String.toList hsame
        rw [subjectOf_toList hperson, subjectOf_toList hanother] at hlists
        obtain ⟨hactor, hsign⟩ := Separated.append_inj hkey hother hlists
        exact ⟨String.toList_inj.mp hactor, String.toList_inj.mp hsign⟩
      · rintro ⟨hactor, hsign⟩
        rw [hactor, hsign]
  · unfold agentSubject
    by_cases hperson : first.personKey = ""
    · rw [hperson, subjectOf_empty]
      simp only [ne_eq, not_true_eq_false, false_or]
      constructor
      · intro hparts hmem
        exact subjectParts_fst_ne hmem (by rw [hparts])
      · exact subjectParts_plain
    · simp only [ne_eq, hperson, not_false_eq_true, true_or, iff_true]
      exact subjectParts_joined hperson hkey

/-! ## A machine spelled as a person's client -/

/-- The sign-in key of one person. -/
def sampleKey : String := "f0c37d0def79aefa156d8587c4ae10cda9833d0eec1bc2ee12b07cd7153fd22d"

/-- An issuer, with the digest of the one person it names. -/
def sampleIssuer : Issuer where
  name := "https://id.example.net"
  hexdigest _ := sampleKey
  str
    | .str text => text
    | _ => ""

theorem sampleIssuer_hexadecimal : sampleIssuer.Hexadecimal := by
  intro text
  have hdigits : ∀ digit ∈ sampleKey.toList, "0123456789abcdef".toList.elem digit = true :=
    List.all_eq_true.mp (by decide)
  exact ⟨show sampleKey.toList.length = 64 by decide,
    fun digit hmem => List.elem_iff.mp (hdigits digit hmem)⟩

/-- A client a person signed in. -/
def personsClient : Principal := ⟨"laptop", "mcp", [], "", sampleKey, ""⟩

/-- A machine's client, named as the other's subject is spelled. -/
def machineClient : Principal := ⟨"laptop@" ++ sampleKey, "mcp", [], "", "", ""⟩

theorem personsClient_created : Created sampleIssuer personsClient :=
  .token (.obj [("client_id", .str "laptop"), ("sub", .str "user-1")]) personsClient
    (by decide) (by decide)

theorem machineClient_created : Created sampleIssuer machineClient :=
  .token (.obj [("client_id", .str ("laptop@" ++ sampleKey))]) machineClient
    (by decide) (by decide)

theorem clients_told_apart :
    subjectParts (agentSubject personsClient) = ("laptop", sampleKey) ∧
      (agentSubject personsClient = agentSubject machineClient ↔
        personsClient.actor = machineClient.actor ∧
            personsClient.personKey = machineClient.personKey ∨
          Disguised personsClient machineClient ∨ Disguised machineClient personsClient) := by
  obtain ⟨hsame, hparts⟩ := subjects_told_apart sampleIssuer sampleIssuer_hexadecimal
    personsClient machineClient personsClient_created machineClient_created
  exact ⟨hparts.mpr (Or.inl (by decide)), hsame⟩

/-- Distinct principals share a subject, and the machine's is read as the person's. -/
theorem clients_share_subject :
    ¬∀ (issuer : Issuer) (first second : Principal), issuer.Hexadecimal →
      Created issuer first → Created issuer second →
        ((first.actor ≠ second.actor ∨ first.personKey ≠ second.personKey) →
          agentSubject first ≠ agentSubject second) ∧
        subjectParts (agentSubject first) = (first.actor, first.personKey) := by
  intro h
  have hboth := h sampleIssuer machineClient personsClient sampleIssuer_hexadecimal
    machineClient_created personsClient_created
  exact hboth.1 (Or.inr (by decide)) (by decide)

end SeverinoHQ.Agents
