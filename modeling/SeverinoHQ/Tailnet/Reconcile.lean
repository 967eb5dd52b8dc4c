/-
# Writing the tailnet policy

The reconcile reads the policy with its ETag, checks the declared document against
what it read, has Tailscale run its tests, and writes on the condition that the
ETag is still the one it read. Anyone may edit the policy between two of these
requests.
-/

import SeverinoHQ.Tailnet.Policy
import SeverinoHQ.Math.Binary64
import SeverinoHQ.Math.Pool
import SeverinoHQ.Math.Text

namespace SeverinoHQ.Tailnet

open SeverinoHQ.Math SeverinoHQ.Math.Dialogue

/-- What the reconcile uses of the libraries under it. -/
structure Codec where
  /-- `json.Unmarshal` into any; none is a syntax error. -/
  parse : String → Option Json
  /-- The encoder of `pretty`: keys sorted, two-space indent. -/
  indent : Json → String
  /-- `%q`. -/
  quote : String → String
  /-- `runtime.Clip` to the verdict limit. -/
  clip : String → String
  /-- The message and the data of Tailscale's `APIError`. -/
  apiError : Json → Option (String × List (String × List String))

variable (codec : Codec)

/-! ## Documents -/

/-- A policy document: its text, which is an object's. -/
structure Document where
  raw : String
  members : List (String × Json)
  readable : codec.parse raw = some (.obj members)

variable {codec}

def policyDocument (codec : Codec) (raw : String) : Except String (Document codec) :=
  match h : codec.parse raw with
  | none => .error "the policy is not readable JSON"
  | some (.obj members) => .ok ⟨raw, members, h⟩
  | some _ => .error "the policy is not a JSON object"

namespace Document

def view (document : Document codec) : Except String TailnetPolicyView :=
  match Tailnet.view (.obj document.members) with
  | some policy => .ok policy
  | none => .error "the policy does not have the shape HQ reads"

/-- Whether the document carries at least one test. -/
def tested (document : Document codec) : Bool :=
  match (Json.obj document.members).get? "tests" with
  | some (.arr tests) => !tests.isEmpty
  | _ => false

def pretty (document : Document codec) : String := codec.indent (.obj document.members)

end Document

/-- Two numbers that are read to one float64; past its range neither is read. -/
def sameNumber (a b : Int) : Bool :=
  let left := Binary64.nearest a.natAbs 1
  let right := Binary64.nearest b.natAbs 1
  decide (a.natAbs < 2 ^ 1024 - 2 ^ 970 ∧ b.natAbs < 2 ^ 1024 - 2 ^ 970) &&
    decide (0 ≤ a ↔ 0 ≤ b) && left.1 * right.2 == right.1 * left.2

mutual

/-- `reflect.DeepEqual` of two values read into any. -/
def sameValue : Json → Json → Bool
  | .null, .null => true
  | .bool a, .bool b => a == b
  | .num a, .num b => sameNumber a b
  | .str a, .str b => a == b
  | .arr as, .arr bs => sameValues as bs
  | .obj as, .obj bs => as.length == bs.length && sameEntries as bs
  | _, _ => false

def sameValues : List Json → List Json → Bool
  | [], [] => true
  | a :: as, b :: bs => sameValue a b && sameValues as bs
  | _, _ => false

/-- Every entry of the first map is in the second. -/
def sameEntries : List (String × Json) → List (String × Json) → Bool
  | [], _ => true
  | (name, a) :: as, bs =>
      (match bs.lookup name with
        | some b => sameValue a b
        | none => false) && sameEntries as bs

end

def samePolicy (a b : Document codec) : Bool := sameValue (.obj a.members) (.obj b.members)

/-! ## Requests -/

/-- The spec HQ declares. -/
structure TailnetPolicySpec where
  connectionRef : String
  document : String
  deriving Repr

/-- A request of the tailnet API, or the client it is made with. -/
inductive Ask
  | client (connectionRef : String)
  | policy
  | validate (document : String)
  | write (document etag : String)
  deriving DecidableEq, Repr

/-- How a request ended: answered, refused with a status, or never answered. -/
inductive Answer (α : Type)
  | answered (value : α)
  | status (code : Nat) (said : String)
  | failed (said : String)
  deriving Repr

/-- What each request is answered with: the policy is its text and its ETag, empty
when Tailscale does not say it. -/
abbrev Ask.Reply : Ask → Type
  | .client _ => Except String Unit
  | .policy => Answer (String × String)
  | .validate _ => Answer String
  | .write _ _ => Answer Unit

structure Condition where
  status : Bool
  reason : String
  message : String
  deriving DecidableEq, Repr

/-- What a reconcile reports; `applied` is the document of an applied status. -/
structure Result where
  changed : Bool := false
  applied : Option String := none
  ready : Option Condition := none
  message : String
  deriving DecidableEq, Repr

abbrev Visit (α : Type) := Dialogue Ask Ask.Reply α

def tailnetRefused (what requiredScope : String) (code : Nat) : String :=
  if code = 403 ∨ code = 404 then
    s!"tailscale refused {what} ({code}): the credential needs the {requiredScope} scope"
  else s!"tailscale refused {what} ({code})"

/-- The policy file and its ETag, from one read. -/
def tailnetPolicyVersion (codec : Codec) : Visit (Except String (Document codec × String)) := do
  match ← Dialogue.call Ask.policy with
  | .status code _ => pure (.error (tailnetRefused "the policy read" "policy_file:read" code))
  | .failed said => pure (.error ("read the tailnet policy: " ++ said))
  | .answered (raw, etag) => pure ((policyDocument codec raw).map fun document => (document, etag))

/-- What Tailscale's run of the tests says: an empty answer passes. -/
def verdict (codec : Codec) (raw : String) : Except String Unit :=
  if raw = "" then .ok ()
  else
    match (codec.parse raw).bind codec.apiError with
    | none => .error "tailscale's policy check is unreadable"
    | some (message, data) =>
        if message = "" ∧ data = [] then .ok ()
        else
          let said := (if message = "" then [] else [message]) ++
            data.map fun entry => entry.1 ++ ": " ++ ", ".intercalate entry.2
          .error ("the tailnet policy does not pass its own tests; not applied: " ++
            codec.clip ("; ".intercalate said))

/-- Asks Tailscale to run the document's tests. -/
def policyPassesItsTests (document : Document codec) : Visit (Except String Unit) := do
  match ← Dialogue.call (Ask.validate document.raw) with
  | .answered raw => pure (verdict codec raw)
  | .status _ said => pure (.error ("check the policy: " ++ said))
  | .failed said => pure (.error ("check the policy: " ++ said))

/-- Writes the policy, conditional on the version the checks ran against. -/
def writeTailnetPolicy (document : Document codec) (etag : String) : Visit (Except String Unit) :=
  if etag = "" then
    pure (.error
      "tailscale did not say which version of the policy it holds, so the policy was not written")
  else do
    match ← Dialogue.call (Ask.write document.raw etag) with
    | .answered _ => pure (.ok ())
    | .status code _ =>
        pure (.error (if code = 412 then
            "the policy changed elsewhere since HQ read it; not applied, read it again and make the change on top"
          else s!"tailscale refused the policy ({code})"))
    | .failed said => pure (.error ("write the tailnet policy: " ++ said))

def reconciled : Condition := ⟨true, "Reconciled", "The policy is as HQ set it."⟩

def currentPolicy (document : Document codec) : Result :=
  if document.tested then
    { applied := some document.pretty, ready := some reconciled,
      message := "Tailnet policy is current." }
  else
    { applied := some document.pretty
      ready := some ⟨false, "Untested",
        "The policy is as HQ set it and has no tests, so nothing checks what it allows."⟩
      message := "Tailnet policy is current and untested." }

/-- The write and the read after it. -/
def applyPolicy (document : Document codec) (etag : String) : Visit (Except String Result) := do
  match ← writeTailnetPolicy document etag with
  | .error refusal => pure (.error refusal)
  | .ok () =>
      match ← tailnetPolicyVersion codec with
      | .error refusal => pure (.error refusal)
      | .ok (applied, _) =>
          pure (.ok {
            changed := true
            applied := some applied.pretty
            ready := some reconciled
            message := "Tailnet policy applied after its own tests passed." })

/-- The checks of a declared document against the live one, and the write. -/
def checkPolicy (document live : Document codec) (declared : TailnetPolicyView) (etag : String)
    (apply : Bool) : Visit (Except String Result) :=
  if samePolicy live document then pure (.ok (currentPolicy document))
  else
    match live.view with
    | .error refusal => pure (.error ("live policy: " ++ refusal))
    | .ok held =>
        match refuseWeakerTests held declared with
        | .error refusal => pure (.error (refusal.message codec.quote))
        | .ok () => do
            match ← policyPassesItsTests document with
            | .error refusal => pure (.error refusal)
            | .ok () =>
                if apply then applyPolicy document etag
                else
                  pure (.ok {
                    changed := true
                    message := "The policy passes its own tests and would be applied." })

def tailnetPolicyReconcile (codec : Codec) (spec : TailnetPolicySpec) (apply : Bool) :
    Visit (Except String Result) :=
  let wanted := Text.trimSpace spec.document
  if wanted = "" then
    pure (.ok { message := "HQ holds no policy, so there is nothing to apply." })
  else
    match policyDocument codec wanted with
    | .error refusal => pure (.error ("the tailnet policy: " ++ refusal))
    | .ok document =>
        match document.view with
        | .error refusal => pure (.error ("the tailnet policy: " ++ refusal))
        | .ok declared => do
            match ← Dialogue.call (Ask.client spec.connectionRef) with
            | .error refusal => pure (.error refusal)
            | .ok () =>
                match ← tailnetPolicyVersion codec with
                | .error refusal => pure (.error refusal)
                | .ok (live, etag) => checkPolicy document live declared etag apply

/-! ## What was checked before a write -/

section Writes

variable {exchanges : List (Exchange Ask Ask.Reply)} {raw etag said : String}
  {document live : Document codec} {declared : TailnetPolicyView} {apply : Bool}

theorem policyDocument_raw (h : policyDocument codec raw = .ok document) : document.raw = raw := by
  unfold policyDocument at h
  split at h
  · cases h
  · obtain rfl := Except.ok.inj h
    rfl
  · cases h

/-- A program that has come to a write. -/
def Writes {α : Type} (program : Visit α) (exchanges : List (Exchange Ask Ask.Reply))
    (raw etag : String) : Prop :=
  ∃ next, Follows program exchanges (.ask (.write raw etag) next)

/-- Every request but a write. -/
def Ask.reads : Ask → Prop
  | .write _ _ => False
  | _ => True

theorem not_writes {α : Type} {program : Visit α} (h : program.Only Ask.reads) :
    ¬Writes program exchanges raw etag := by
  rintro ⟨next, hfollows⟩
  exact h.pending hfollows

theorem tailnetPolicyVersion_reads : (tailnetPolicyVersion codec).Only Ask.reads := by
  apply Only.bind
  · simp [Ask.reads]
  · intro reply
    cases reply <;> exact only_pure _

/-- The document and the ETag of one read are what it was answered with. -/
theorem version_read (h : Follows (tailnetPolicyVersion codec) exchanges
    (.done (.ok (live, said)))) : ⟨.policy, .answered (live.raw, said)⟩ ∈ exchanges := by
  rcases h.of_call with ⟨-, hcall⟩ | ⟨answer, later, rfl, hlater⟩
  · cases hcall
  · cases answer with
    | answered read =>
        have hread := Dialogue.done.inj hlater.of_done.2
        obtain ⟨document, hdocument, heq⟩ := exists_of_map_eq_ok hread.symm
        obtain ⟨rfl, rfl⟩ := Prod.mk.inj heq
        simp [policyDocument_raw hdocument]
    | _ => cases hlater.of_done.2

/-- The write is of the document, on the version given, and nothing comes before it. -/
theorem applyPolicy_writes (h : Writes (applyPolicy document said) exchanges raw etag) :
    exchanges = [] ∧ raw = document.raw ∧ etag = said ∧ said ≠ "" := by
  obtain ⟨next, hfollows⟩ := h
  rcases hfollows.of_bind with ⟨call, reply, hwrite, hrest⟩ | ⟨_, later, result, rfl, -, hafter⟩
  · obtain ⟨rfl, -⟩ := Dialogue.ask.inj hrest
    unfold writeTailnetPolicy at hwrite
    by_cases hsaid : said = ""
    · rw [if_pos hsaid] at hwrite
      cases hwrite.of_done.2
    · rw [if_neg hsaid] at hwrite
      rcases hwrite.of_call with ⟨rfl, hcall⟩ | ⟨answer, _, rfl, hdone⟩
      · obtain ⟨hcall, -⟩ := Dialogue.ask.inj hcall
        obtain ⟨rfl, rfl⟩ := Ask.write.inj hcall
        exact ⟨rfl, rfl, rfl, hsaid⟩
      · cases answer <;> cases hdone.of_done.2
  · refine absurd ⟨next, hafter⟩ (not_writes ?_)
    cases result with
    | error => exact only_pure _
    | ok =>
        refine Only.bind tailnetPolicyVersion_reads ?_
        intro version
        cases version <;> exact only_pure _

/-- The checks a document passed against the live one, before a write. -/
structure Checked (exchanges : List (Exchange Ask Ask.Reply)) (live document : Document codec) :
    Prop where
  weaker : ∃ held declared, live.view = .ok held ∧ document.view = .ok declared ∧
    refuseWeakerTests held declared = .ok ()
  validated : ∃ printed, ⟨.validate document.raw, .answered printed⟩ ∈ exchanges ∧
    verdict codec printed = .ok ()

theorem checkPolicy_writes (hdeclared : document.view = .ok declared)
    (h : Writes (checkPolicy document live declared said apply) exchanges raw etag) :
    Checked exchanges live document ∧ raw = document.raw ∧ etag = said ∧ said ≠ "" := by
  obtain ⟨next, hfollows⟩ := h
  unfold checkPolicy at hfollows
  by_cases hsame : samePolicy live document
  · rw [if_pos hsame] at hfollows
    cases hfollows.of_done.2
  · rw [if_neg hsame] at hfollows
    cases hheld : live.view with
    | error =>
        rw [hheld] at hfollows
        cases hfollows.of_done.2
    | ok held =>
        rw [hheld] at hfollows
        dsimp only at hfollows
        cases hweaker : refuseWeakerTests held declared with
        | error =>
            rw [hweaker] at hfollows
            cases hfollows.of_done.2
        | ok =>
            rw [hweaker] at hfollows
            rcases hfollows.of_bind with ⟨call, reply, hchecks, hrest⟩ |
              ⟨first, later, result, rfl, hchecks, hafter⟩
            · obtain ⟨rfl, -⟩ := Dialogue.ask.inj hrest
              refine absurd ⟨reply, hchecks⟩ (not_writes (Only.bind (by simp [Ask.reads]) ?_))
              intro answer
              cases answer <;> exact only_pure _
            · cases result with
              | error => cases hafter.of_done.2
              | ok =>
                  cases apply with
                  | false => cases hafter.of_done.2
                  | true =>
                      obtain ⟨rfl, hraw, hetag, hsaid⟩ := applyPolicy_writes ⟨next, hafter⟩
                      refine ⟨⟨⟨held, declared, hheld, hdeclared, hweaker⟩, ?_⟩, hraw, hetag, hsaid⟩
                      rcases hchecks.of_call with ⟨-, hcall⟩ | ⟨answer, rest, rfl, hdone⟩
                      · cases hcall
                      · cases answer with
                        | answered printed =>
                            obtain ⟨rfl, hverdict⟩ := hdone.of_done
                            exact ⟨printed, by simp, (Dialogue.done.inj hverdict).symm⟩
                        | _ => cases hdone.of_done.2

/-- A reconcile that comes to a write has read the policy it writes over, and its ETag,
and checked the document against it. -/
theorem tailnetPolicyReconcile_writes {spec : TailnetPolicySpec}
    (h : Writes (tailnetPolicyReconcile codec spec apply) exchanges raw etag) :
    ∃ live document : Document codec, ⟨.policy, .answered (live.raw, etag)⟩ ∈ exchanges ∧
      etag ≠ "" ∧ raw = document.raw ∧ Checked exchanges live document := by
  obtain ⟨next, hfollows⟩ := h
  unfold tailnetPolicyReconcile at hfollows
  dsimp only at hfollows
  by_cases hwanted : Text.trimSpace spec.document = ""
  · rw [if_pos hwanted] at hfollows
    cases hfollows.of_done.2
  · rw [if_neg hwanted] at hfollows
    cases hdocument : policyDocument codec (Text.trimSpace spec.document) with
    | error =>
        rw [hdocument] at hfollows
        cases hfollows.of_done.2
    | ok document =>
        rw [hdocument] at hfollows
        dsimp only at hfollows
        cases hview : document.view with
        | error =>
            rw [hview] at hfollows
            cases hfollows.of_done.2
        | ok declared =>
            rw [hview] at hfollows
            rcases hfollows.of_call with ⟨-, hcall⟩ | ⟨answer, later, rfl, hlater⟩
            · cases hcall
            · cases answer with
              | error => cases hlater.of_done.2
              | ok =>
                  rcases hlater.of_bind with ⟨call, reply, hread, hrest⟩ |
                    ⟨first, second, version, rfl, hread, hafter⟩
                  · obtain ⟨rfl, -⟩ := Dialogue.ask.inj hrest
                    exact absurd ⟨reply, hread⟩ (not_writes tailnetPolicyVersion_reads)
                  · cases version with
                    | error => cases hafter.of_done.2
                    | ok version =>
                        obtain ⟨live, said⟩ := version
                        obtain ⟨hchecked, hraw, rfl, hetag⟩ := checkPolicy_writes hview ⟨next, hafter⟩
                        refine ⟨live, document, ?_, hetag, hraw, hchecked.weaker, ?_⟩
                        · have hpolicy := version_read hread
                          simp [hpolicy]
                        · obtain ⟨printed, hprinted, hverdict⟩ := hchecked.validated
                          exact ⟨printed, by simp [hprinted], hverdict⟩

end Writes

/-! ## The policy, and everyone who writes it -/

/-- One write the controller made: what it wrote over, and on what condition. -/
structure Written where
  replaced : String
  etag : String
  document : String
  deriving DecidableEq, Repr

/-- The policy Tailscale holds, every ETag it has given one, and what the controller wrote. -/
structure PolicyFile where
  document : String
  etag : String
  issued : List String
  written : List Written
  deriving DecidableEq, Repr

namespace PolicyFile

/-- Another writer edits the policy, which gives it an ETag it never had. -/
inductive Drift : PolicyFile → PolicyFile → Prop
  | edit {file : PolicyFile} (document : String) {etag : String} (hfresh : etag ∉ file.issued) :
      Drift file { file with
        document := document
        etag := etag
        issued := etag :: file.issued }

/-- How a request ends. A read may leave the ETag unsaid; a write takes effect only on
the ETag it was sent with, and the answer to one that did may be lost. -/
inductive Answers : PolicyFile → Exchange Ask Ask.Reply → PolicyFile → Prop
  | client {file : PolicyFile} {connectionRef : String} (reply : Except String Unit) :
      Answers file ⟨.client connectionRef, reply⟩ file
  | policy {file : PolicyFile} {said : String} (hsaid : said = file.etag ∨ said = "") :
      Answers file ⟨.policy, .answered (file.document, said)⟩ file
  | refused {file : PolicyFile} (code : Nat) (said : String) :
      Answers file ⟨.policy, .status code said⟩ file
  | unread {file : PolicyFile} (said : String) : Answers file ⟨.policy, .failed said⟩ file
  | validate {file : PolicyFile} {document : String} (reply : Answer String) :
      Answers file ⟨.validate document, reply⟩ file
  | wrote {file : PolicyFile} {document fresh : String} (reply : Answer Unit)
      (hfresh : fresh ∉ file.issued) :
      Answers file ⟨.write document file.etag, reply⟩
        { document := document
          etag := fresh
          issued := fresh :: file.issued
          written := file.written ++ [⟨file.document, file.etag, document⟩] }
  | unwritten {file : PolicyFile} {document etag : String} {reply : Answer Unit}
      (hreply : reply ≠ .answered ()) : Answers file ⟨.write document etag, reply⟩ file

/-- Other writers edit the policy any number of times, and then the request is answered. -/
def World (file : PolicyFile) (exchange : Exchange Ask Ask.Reply) (after : PolicyFile) : Prop :=
  ∃ between, Relation.ReflTransGen Drift file between ∧ Answers between exchange after

end PolicyFile

/-! ## Every interleaving -/

section Interleaving

open PolicyFile (Drift Answers World)

variable {ι : Type} [DecidableEq ι] {spec : ι → TailnetPolicySpec} {apply : ι → Bool}
  {begun : PolicyFile} {pool : Pool PolicyFile ι Ask Ask.Reply (Except String Result)}
  {history : List (ι × Exchange Ask Ask.Reply)} {made : Written} {who : ι}
  {exchange : Exchange Ask Ask.Reply} {file after : PolicyFile}

/-- The reconciles, each with its spec. -/
def reconciles (codec : Codec) (spec : ι → TailnetPolicySpec) (apply : ι → Bool) (who : ι) :
    Visit (Except String Result) := tailnetPolicyReconcile codec (spec who) (apply who)

/-- A write some reconcile made over exactly what it read and checked. -/
def Accounted (codec : Codec) (history : List (ι × Exchange Ask Ask.Reply)) (write : Written) :
    Prop :=
  ∃ (who : ι) (live document : Document codec), live.raw = write.replaced ∧
    document.raw = write.document ∧
    (who, ⟨.policy, .answered (write.replaced, write.etag)⟩) ∈ history ∧
    Checked (Pool.said history who) live document

/-- What every interleaving keeps: an ETag that was read stands for the text that was read
with it, and every write is accounted for. -/
structure Kept (codec : Codec) (file : PolicyFile) (history : List (ι × Exchange Ask Ask.Reply)) :
    Prop where
  issued : file.etag ∈ file.issued
  read : ∀ who raw etag, (who, ⟨.policy, .answered (raw, etag)⟩) ∈ history → etag ≠ "" →
    etag ∈ file.issued ∧ (etag = file.etag → raw = file.document)
  accounted : ∀ write ∈ file.written, Accounted codec history write

theorem Kept.drift (h : Kept codec file history) (hdrift : Drift file after) :
    Kept codec after history := by
  cases hdrift with
  | @edit document etag hfresh =>
      refine ⟨by simp, ?_, h.accounted⟩
      intro who raw said hread hsaid
      obtain ⟨hissued, -⟩ := h.read who raw said hread hsaid
      refine ⟨by simp [hissued], ?_⟩
      rintro rfl
      exact absurd hissued hfresh

theorem Kept.drifts (h : Kept codec file history)
    (hdrifts : Relation.ReflTransGen Drift file after) : Kept codec after history := by
  induction hdrifts with
  | refl => exact h
  | tail _ hdrift ih => exact ih.drift hdrift

theorem said_subset (entry : ι × Exchange Ask Ask.Reply) :
    Pool.said history who ⊆ Pool.said (history ++ [entry]) who := by
  intro exchange hexchange
  rw [Pool.mem_said] at hexchange ⊢
  exact List.mem_append_left _ hexchange

theorem Checked.mono {exchanges more : List (Exchange Ask Ask.Reply)}
    {live document : Document codec} (h : Checked exchanges live document)
    (hmore : exchanges ⊆ more) : Checked more live document where
  weaker := h.weaker
  validated := by
    obtain ⟨printed, hprinted, hverdict⟩ := h.validated
    exact ⟨printed, hmore hprinted, hverdict⟩

theorem Accounted.mono (h : Accounted codec history made) (entry : ι × Exchange Ask Ask.Reply) :
    Accounted codec (history ++ [entry]) made := by
  obtain ⟨who, live, document, hlive, hdocument, hread, hchecked⟩ := h
  exact ⟨who, live, document, hlive, hdocument, List.mem_append_left _ hread,
    hchecked.mono (said_subset entry)⟩

/-- A request that leaves the policy as it is, and does not read it, keeps what was kept. -/
theorem Kept.snoc (h : Kept codec file history)
    (hread : ∀ raw etag, exchange = ⟨.policy, .answered (raw, etag)⟩ →
      raw = file.document ∧ (etag = file.etag ∨ etag = "")) :
    Kept codec file (history ++ [(who, exchange)]) where
  issued := h.issued
  read := by
    intro speaker raw etag hmem hetag
    rcases List.mem_append.mp hmem with hmem | hmem
    · exact h.read speaker raw etag hmem hetag
    · obtain ⟨-, heq⟩ := Prod.mk.inj (List.mem_singleton.mp hmem)
      obtain ⟨rfl, hsaid⟩ := hread raw etag heq.symm
      obtain rfl := hsaid.resolve_right hetag
      exact ⟨h.issued, fun _ => rfl⟩
  accounted write hwrite := (h.accounted write hwrite).mono _

/-- A write that takes effect is one whose checks ran on what it replaces. -/
theorem Kept.wrote {document fresh : String} {reply : Answer Unit} (h : Kept codec file history)
    (hfresh : fresh ∉ file.issued)
    (hwrites : Writes (tailnetPolicyReconcile codec (spec who) (apply who))
      (Pool.said history who) document file.etag) :
    Kept codec
      { document := document
        etag := fresh
        issued := fresh :: file.issued
        written := file.written ++ [⟨file.document, file.etag, document⟩] }
      (history ++ [(who, ⟨.write document file.etag, reply⟩)]) where
  issued := by simp
  read := by
    intro speaker raw etag hmem hetag
    rcases List.mem_append.mp hmem with hmem | hmem
    · obtain ⟨hissued, -⟩ := h.read speaker raw etag hmem hetag
      refine ⟨by simp [hissued], ?_⟩
      rintro rfl
      exact absurd hissued hfresh
    · simp at hmem
  accounted := by
    intro write hwrite
    rcases List.mem_append.mp hwrite with hwrite | hwrite
    · exact (h.accounted write hwrite).mono _
    · obtain rfl := List.mem_singleton.mp hwrite
      obtain ⟨live, declared, hread, hetag, rfl, hchecked⟩ := tailnetPolicyReconcile_writes hwrites
      have hmem := Pool.mem_said.mp hread
      have hraw := (h.read who live.raw file.etag hmem hetag).2 rfl
      refine ⟨who, live, declared, hraw, rfl, ?_, hchecked.mono (said_subset _)⟩
      exact List.mem_append_left _ (hraw ▸ hmem)

theorem Kept.world {call : Ask} {next : Ask.Reply call → Visit (Except String Result)}
    {reply : Ask.Reply call} (h : Kept codec file history)
    (hfollows : Follows (tailnetPolicyReconcile codec (spec who) (apply who))
      (Pool.said history who) (.ask call next))
    (hworld : World file ⟨call, reply⟩ after) :
    Kept codec after (history ++ [(who, ⟨call, reply⟩)]) := by
  obtain ⟨between, hdrifts, hanswers⟩ := hworld
  have hkept := h.drifts hdrifts
  cases hanswers with
  | wrote reply hfresh => exact hkept.wrote hfresh ⟨next, hfollows⟩
  | policy hsaid =>
      refine hkept.snoc ?_
      intro raw etag heq
      simp only [Sigma.mk.injEq, heq_eq_eq, true_and, Answer.answered.injEq, Prod.mk.injEq] at heq
      obtain ⟨rfl, rfl⟩ := heq
      exact ⟨rfl, hsaid⟩
  | _ => exact hkept.snoc (by simp)

/-- Whatever other writers do in between, each write of the controller replaces exactly
the document its checks ran against, which it tests at least as strictly. -/
theorem controller_write_replaces_checked (hetag : begun.etag ∈ begun.issued)
    (hwritten : begun.written = [])
    (h : Pool.Reaches World (Pool.start begun (reconciles codec spec apply)) pool) :
    ∀ write ∈ pool.world.written, ∃ (who : ι) (live document : Document codec),
      live.raw = write.replaced ∧ document.raw = write.document ∧
      (who, ⟨.policy, .answered (write.replaced, write.etag)⟩) ∈ pool.history ∧
      Checked (Pool.said pool.history who) live document ∧
      ∃ held declared, live.view = .ok held ∧ document.view = .ok declared ∧
        ∀ pair dst, Denies held pair dst → Denies declared pair dst := by
  have hkept : Kept codec pool.world pool.history := by
    refine h.invariant (Kept codec) ?_ ?_
    · refine ⟨hetag, by simp, ?_⟩
      rw [hwritten]
      simp
    · intro pool who call next reply after hreaches hrest hworld hkept
      have hfollows := hreaches.follows who
      rw [hrest] at hfollows
      exact hkept.world hfollows hworld
  intro write hwrite
  obtain ⟨who, live, document, hlive, hdocument, hread, hchecked⟩ := hkept.accounted write hwrite
  obtain ⟨held, declared, hheld, hdeclared, haccepted⟩ := hchecked.weaker
  have hstrict := (refuseWeakerTests_eq_ok.mp haccepted).2
  exact ⟨who, live, document, hlive, hdocument, hread, hchecked, held, declared, hheld, hdeclared,
    hstrict.denials⟩

end Interleaving

/-! ## A reconcile that writes -/

def livePolicy : String := "\x7b\"tests\":[\x7b\"src\":\"a-laptop\",\"deny\":[\"a-server:22\"]\x7d]\x7d"

def declaredPolicy : String :=
  "\x7b\"grants\":[],\"tests\":[\x7b\"src\":\"a-laptop\",\"deny\":[\"a-server:22\"]\x7d]\x7d"

/-- Another writer's policy, which keeps the tests. -/
def editedPolicy : String :=
  "\x7b\"acls\":[],\"tests\":[\x7b\"src\":\"a-laptop\",\"deny\":[\"a-server:22\"]\x7d]\x7d"

def keptTests : Json :=
  .arr [.obj [("src", .str "a-laptop"), ("deny", .arr [.str "a-server:22"])]]

/-- The libraries, on the texts of this section. -/
def sampleCodec : Codec where
  parse raw :=
    if raw = livePolicy then some (.obj [("tests", keptTests)])
    else if raw = editedPolicy then some (.obj [("acls", .arr []), ("tests", keptTests)])
    else if raw = declaredPolicy then some (.obj [("grants", .arr []), ("tests", keptTests)])
    else none
  indent _ := ""
  quote said := "\"" ++ said ++ "\""
  clip said := said
  apiError _ := none

def samplePolicyFile : PolicyFile where
  document := livePolicy
  etag := "v1"
  issued := ["v1"]
  written := []

/-- Tailscale, with another writer who edits the first policy while a document is validated. -/
def answer (file : PolicyFile) : (call : Ask) → Ask.Reply call × PolicyFile
  | .client _ => (.ok (), file)
  | .policy => (.answered (file.document, file.etag), file)
  | .validate _ =>
      (.answered "", if "v2" ∈ file.issued then file
        else { file with document := editedPolicy, etag := "v2", issued := "v2" :: file.issued })
  | .write document etag =>
      if etag = file.etag ∧ "v3" ∉ file.issued then
        (.answered (), ⟨document, "v3", "v3" :: file.issued,
          file.written ++ [⟨file.document, file.etag, document⟩]⟩)
      else (.status 412 "", file)

theorem world_answer (file : PolicyFile) (call : Ask) :
    PolicyFile.World file ⟨call, (answer file call).1⟩ (answer file call).2 := by
  cases call with
  | client => exact ⟨file, .refl, .client _⟩
  | policy => exact ⟨file, .refl, .policy (Or.inl rfl)⟩
  | validate =>
      refine ⟨_, ?_, .validate _⟩
      rw [answer]
      dsimp only
      split
      · exact .refl
      · next hfresh => exact .single (.edit editedPolicy hfresh)
  | write document etag =>
      refine ⟨file, .refl, ?_⟩
      by_cases hwrites : etag = file.etag ∧ "v3" ∉ file.issued
      · simp only [answer, if_pos hwrites]
        obtain ⟨rfl, hfresh⟩ := hwrites
        exact .wrote _ hfresh
      · simp only [answer, if_neg hwrites]
        exact .unwritten (by simp)

def sampleReconcile : Visit (Except String Result) :=
  tailnetPolicyReconcile sampleCodec ⟨"example-tailnet", declaredPolicy⟩ true

/-- A reconcile whose policy is edited under it writes nothing; the next replaces the edited
policy, and keeps its denial. -/
theorem sample_write_replaces_checked :
    ∃ pool : Pool PolicyFile Bool Ask Ask.Reply (Except String Result),
      Pool.Reaches PolicyFile.World (Pool.start samplePolicyFile fun _ => sampleReconcile) pool ∧
      (false, (⟨.write declaredPolicy "v1", .status 412 ""⟩ : Exchange Ask Ask.Reply)) ∈
        pool.history ∧
      pool.world.written = [⟨editedPolicy, "v2", declaredPolicy⟩] ∧
      Accounted sampleCodec pool.history ⟨editedPolicy, "v2", declaredPolicy⟩ := by
  have hfirst := Pool.Reaches.runs (Pool.start samplePolicyFile fun _ : Bool => sampleReconcile)
    false rfl (runs_runWith world_answer sampleReconcile samplePolicyFile)
  have hreaches := hfirst.trans
    (Pool.Reaches.runs _ true rfl (runs_runWith world_answer _ _))
  have hwritten : (sampleReconcile.runWith answer
      (sampleReconcile.runWith answer samplePolicyFile).2.2).2.2.written =
        [⟨editedPolicy, "v2", declaredPolicy⟩] := by decide
  have hrefused : (⟨.write declaredPolicy "v1", .status 412 ""⟩ : Exchange Ask Ask.Reply) ∈
      (sampleReconcile.runWith answer samplePolicyFile).1 := List.mem_of_getElem? (i := 3) rfl
  obtain ⟨who, live, document, hlive, hdocument, hread, hchecked, -⟩ :=
    @controller_write_replaces_checked sampleCodec Bool _
      (fun _ => ⟨"example-tailnet", declaredPolicy⟩) (fun _ => true) samplePolicyFile _
      (by decide) rfl hreaches ⟨editedPolicy, "v2", declaredPolicy⟩ (by
        show _ ∈ (sampleReconcile.runWith answer
          (sampleReconcile.runWith answer samplePolicyFile).2.2).2.2.written
        simp [hwritten])
  refine ⟨_, hreaches, ?_, hwritten, who, live, document, hlive, hdocument, hread, hchecked⟩
  exact List.mem_append_left _ (List.mem_append_right _ (List.mem_map_of_mem hrefused))

end SeverinoHQ.Tailnet
