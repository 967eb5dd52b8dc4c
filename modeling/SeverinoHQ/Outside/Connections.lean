/-
# Where the readers connect to

A check resolves a name and the client resolves it again when it connects, so what is
checked is the name's first answer. Every connection is made right after a check of its
host, and is made to a public address unless the name is answered otherwise the second time.
-/

import SeverinoHQ.Outside.Registry
import Mathlib.Tactic.ByContra

namespace SeverinoHQ.Outside

open SeverinoHQ.Math Dialogue Task

/-- The exchanges of a read. -/
abbrev Exchanges := List (Exchange Call Reply)

/-- The addresses an exchange connected to. -/
def connected : Exchange Call Reply → List Address
  | ⟨.send _, sent⟩ => sent.connected
  | ⟨.getaddrinfo _, _⟩ => []

/-- Every connection is made to a public address. -/
def ConnectsPublic (exchanges : Exchanges) : Prop :=
  ∀ exchange ∈ exchanges, ∀ address ∈ connected exchange, address.isPublic = true

instance (exchanges : Exchanges) : Decidable (ConnectsPublic exchanges) :=
  inferInstanceAs (Decidable (∀ exchange ∈ exchanges, ∀ address ∈ connected exchange,
    address.isPublic = true))

/-- A request is made right after its host was resolved to public addresses alone. -/
def Guarded (exchanges : Exchanges) : Prop :=
  ∀ before request sent after, exchanges = before ++ ⟨.send request, sent⟩ :: after →
    ∃ earlier answers, before = earlier ++ [⟨.getaddrinfo request.url.host, some answers⟩] ∧
      ∀ address ∈ answers, address.isPublic = true

/-- A name that was answered with public addresses alone when it was checked is answered, as
the client connects right after, with one that is not, which it connects to. -/
def Rebinds (exchanges : Exchanges) : Prop :=
  ∃ before answers request sent after,
    exchanges = before ++
      ⟨.getaddrinfo request.url.host, some answers⟩ :: ⟨.send request, sent⟩ :: after ∧
    (∀ address ∈ answers, address.isPublic = true) ∧
    ∃ address ∈ sent.connected, address.isPublic = false

/-! ## Exchanges whose requests are guarded -/

theorem guarded_nil : Guarded [] := by
  intro before request sent after h
  simp at h

theorem Guarded.append {first second : Exchanges} (hfirst : Guarded first)
    (hsecond : Guarded second) : Guarded (first ++ second) := by
  intro before request sent after h
  rcases List.append_eq_append_iff.mp h with ⟨between, rfl, hafter⟩ | ⟨between, rfl, hafter⟩
  · obtain ⟨earlier, answers, rfl, hpublic⟩ := hsecond between request sent after hafter
    exact ⟨first ++ earlier, answers, by simp, hpublic⟩
  · cases between with
    | nil =>
        obtain ⟨earlier, answers, hempty, -⟩ := hsecond [] request sent after (by simpa using hafter.symm)
        simp at hempty
    | cons exchange between =>
        obtain ⟨rfl, rfl⟩ := List.cons.inj hafter
        exact hfirst before request sent between rfl

theorem guarded_resolved (host : String) (answers : Option (List Address)) :
    Guarded [⟨.getaddrinfo host, answers⟩] := by
  intro before request sent after h
  cases before with
  | nil => simp at h
  | cons exchange before => simp at h

/-- A check that finds a host public, and the request made right after it. -/
theorem guarded_checked {request : Request} {sent : Sent} {answers : List Address}
    (hpublic : ∀ address ∈ answers, address.isPublic = true) :
    Guarded [⟨.getaddrinfo request.url.host, some answers⟩, ⟨.send request, sent⟩] := by
  intro before other told after h
  rcases before with _ | ⟨first, _ | ⟨second, before⟩⟩
  · simp at h
  · obtain ⟨rfl, htail⟩ := List.cons.inj h
    obtain ⟨hsame, -⟩ := List.cons.inj htail
    cases hsame
    exact ⟨[], answers, rfl, hpublic⟩
  · simp at h

/-- Where every request is guarded, a connection to an address that is not public is one to
a name answered otherwise than it was checked. -/
theorem Guarded.connectsPublic_iff {exchanges : Exchanges} (h : Guarded exchanges) :
    ConnectsPublic exchanges ↔ ¬ Rebinds exchanges := by
  constructor
  · rintro hpublic ⟨before, answers, request, sent, after, rfl, -, address, haddress, hprivate⟩
    have hsent := hpublic ⟨.send request, sent⟩ (by simp) address haddress
    rw [hprivate] at hsent
    cases hsent
  · intro hrebinds exchange hexchange address haddress
    by_contra hprivate
    obtain ⟨before, after, rfl⟩ := List.mem_iff_append.mp hexchange
    obtain ⟨call, reply⟩ := exchange
    cases call with
    | getaddrinfo host => cases haddress
    | send request =>
        obtain ⟨earlier, answers, rfl, hpublic⟩ := h before request reply after rfl
        exact hrebinds ⟨earlier, answers, request, reply, after, by simp, hpublic, address,
          haddress, by simpa using hprivate⟩

/-! ## Reads whose requests are guarded -/

section Reads

variable {α β : Type}

/-- Every request of a read is guarded, whatever is answered. -/
def Guards (read : Read α) : Prop :=
  Always free read.run () fun exchanges _ _ => Guarded exchanges

theorem guards_pure (value : α) : Guards (pure value : Read α) := by
  simpa [Guards] using guarded_nil

theorem guards_throw (problem : Problem) : Guards (throw problem : Read α) := by
  simpa [Guards] using guarded_nil

theorem Guards.bind {read : Read α} {next : α → Read β} (h : Guards read)
    (hnext : ∀ value, Guards (next value)) : Guards (read >>= next) := by
  rw [Guards, Task.always_bind]
  refine Always.mono h fun first result _ hfirst => ?_
  cases result with
  | error problem => exact hfirst
  | ok value => exact Always.mono (hnext value) fun second _ _ hsecond => hfirst.append hsecond

theorem Guards.adapt {told : Problem → Problem} {read : Read α} (h : Guards read) :
    Guards (ExceptT.adapt told read : Read α) := by
  rw [Guards, always_adapt]
  exact h

theorem Guards.ite {condition : Prop} [Decidable condition] {first second : Read α}
    (hfirst : Guards first) (hsecond : Guards second) :
    Guards (if condition then first else second) := by
  split_ifs
  · exact hfirst
  · exact hsecond

end Reads

/-- One call of a read: its reply is the read's value. -/
theorem always_readCall (call : Call) {ends : Exchanges → Except Problem (Reply call) → Unit → Prop} :
    Always free (Read.call call).run () ends ↔ ∀ reply, ends [⟨call, reply⟩] (.ok reply) () := by
  show Always free (Except.ok <$> Dialogue.call call) () ends ↔ _
  rw [← bind_pure_comp, Dialogue.always_bind, always_call]
  constructor
  · intro h reply
    simpa using h reply () trivial
  · intro h reply _ _
    simpa using h reply

/-- `public_host`: one resolution, and what it found. -/
theorem always_publicHost (host : String) :
    Always free (publicHost host).run () fun exchanges result _ =>
      ∃ answers, exchanges = [⟨.getaddrinfo host, answers⟩] ∧
        (result = .ok true → ∃ found, answers = some found ∧
          ∀ address ∈ found, address.isPublic = true) := by
  unfold publicHost
  rw [Task.always_bind, always_readCall]
  intro answers
  cases answers with
  | none => simp
  | some found =>
      simp only [always_ok, List.append_nil]
      refine ⟨some found, rfl, fun hresult => ⟨found, rfl, ?_⟩⟩
      have hall : (!found.isEmpty && found.all (·.isPublic)) = true := Except.ok.inj hresult
      simpa using (Bool.and_eq_true_iff.mp hall).2

/-- `_checked`: a request it lets pass has a host just resolved to public addresses. -/
theorem always_checked (request : Request) :
    Always free (checked request).run () fun exchanges result _ =>
      Guarded exchanges ∧ (result = .ok () → ∃ found,
        exchanges = [⟨.getaddrinfo request.url.host, some found⟩] ∧
          ∀ address ∈ found, address.isPublic = true) := by
  unfold checked
  split_ifs
  · simpa using guarded_nil
  · rw [Task.always_bind]
    refine Always.mono (always_publicHost _) fun exchanges result _ h => ?_
    obtain ⟨answers, rfl, hfound⟩ := h
    cases result with
    | error problem => exact ⟨guarded_resolved _ _, fun hresult => by cases hresult⟩
    | ok isPublic =>
        cases isPublic with
        | true =>
            simp only [if_true, always_ok, List.append_nil]
            obtain ⟨found, rfl, hpublic⟩ := hfound rfl
            exact ⟨guarded_resolved _ _, fun _ => ⟨found, rfl, hpublic⟩⟩
        | false =>
            simp only [Bool.false_eq_true, if_false, always_throw, List.append_nil]
            exact ⟨guarded_resolved _ _, fun hresult => by cases hresult⟩

/-- The connection of one request, however it comes out. -/
theorem always_connection (request : Request) {ends : Exchanges → Except Problem Response → Unit → Prop}
    (h : ∀ sent result, ends [⟨.send request, sent⟩] result ()) :
    Always free (do
      let sent ← Read.call (.send request)
      match sent.response with
      | none => throw .unreachable
      | some response => pure response : Read Response).run () ends := by
  rw [Task.always_bind, always_readCall]
  intro sent
  dsimp only
  cases sent.response with
  | none => simpa using h sent _
  | some response => simpa using h sent _

/-- A request that is checked before it is made is guarded. -/
theorem guards_sendOne (request : Request) : Guards (sendOne checked request) := by
  unfold sendOne
  rw [Guards, Task.always_bind]
  refine Always.mono (always_checked request) fun exchanges result _ h => ?_
  cases result with
  | error problem => exact h.1
  | ok _ =>
      obtain ⟨found, rfl, hpublic⟩ := h.2 rfl
      exact always_connection request fun sent result => guarded_checked hpublic

theorem guards_redirectTarget (response : Response) : Guards (redirectTarget response) := by
  unfold redirectTarget
  split
  · exact guards_pure _
  · exact guards_throw _
  · exact guards_pure _

/-- Every request of a read that checks each is guarded, through all its redirects. -/
theorem guards_follow (left : Nat) (request : Request) :
    Guards (follow checked (fun _ => pure ()) left request) := by
  induction left generalizing request with
  | zero =>
      unfold follow
      refine (guards_sendOne request).bind fun response => (guards_pure ()).bind fun _ => ?_
      refine (guards_redirectTarget response).bind fun target => ?_
      cases target with
      | none => exact guards_pure _
      | some target => exact guards_throw _
  | succ left ih =>
      unfold follow
      refine (guards_sendOne request).bind fun response => (guards_pure ()).bind fun _ => ?_
      refine (guards_redirectTarget response).bind fun target => ?_
      cases target with
      | none => exact guards_pure _
      | some target => exact ih (redirected request target)

theorem guards_registryRequest (url : Option Url) (accept method token : String) :
    Guards (registryRequest url accept method token) := by
  unfold registryRequest fetch
  apply Guards.adapt
  cases url with
  | none => exact guards_throw _
  | some url => exact guards_follow _ _

/-! ## The registry reader -/

section Registry

variable (parse : ParseUrl)

theorem guards_readJson (response : Response) (limit : Nat) : Guards (readJson response limit) := by
  unfold readJson
  split_ifs
  · exact guards_throw _
  · split
    · exact guards_throw _
    · exact guards_throw _
    · exact guards_pure _

theorem guards_anonymousToken (challenge : Challenge) (image : ImageRef) :
    Guards (anonymousToken parse challenge image) := by
  unfold anonymousToken
  apply Guards.ite (guards_throw _)
  refine (guards_registryRequest _ _ _ _).bind fun response => ?_
  apply Guards.ite (guards_throw _)
  refine (guards_readJson _ _).bind fun body => ?_
  exact Guards.ite (guards_throw _) (guards_pure _)

theorem guards_answerChallenge (url : Option Url) (image : ImageRef)
    (accept method token : String) (first : Response) :
    Guards (answerChallenge parse url image accept method token first) := by
  unfold answerChallenge
  split
  · exact guards_pure _
  · refine Guards.ite ?_ (guards_pure _)
    refine (guards_anonymousToken parse _ image).bind fun token => ?_
    exact (guards_registryRequest _ _ _ _).bind fun response => guards_pure _

theorem guards_registryGet (path : String) (image : ImageRef) (token accept method : String)
    (limit : Nat) : Guards (registryGet parse path image token accept method limit) := by
  unfold registryGet
  refine (guards_registryRequest _ _ _ _).bind fun first => ?_
  refine (guards_answerChallenge parse _ _ _ _ _ first).bind fun answered => ?_
  apply Guards.ite (guards_throw _)
  apply Guards.ite (guards_pure _)
  exact (guards_readJson _ _).bind fun body => guards_pure _

theorem guards_tags (image : ImageRef) : Guards (tags parse image) := by
  have hpages : ∀ left path token found, Guards (tagPages parse image left path token found) := by
    intro left
    induction left with
    | zero => exact fun _ _ _ => guards_pure _
    | succ left ih =>
        intro path token found
        unfold tagPages
        refine (guards_registryGet parse _ _ _ _ _ _).bind fun got => ?_
        dsimp only
        split
        · exact guards_pure _
        · exact ih _ _ _
  exact hpages _ _ _ _

theorem guards_labels (image : ImageRef) : Guards (labels parse image) := by
  unfold labels
  refine (guards_registryGet parse _ _ _ _ _ _).bind fun index => ?_
  have hchosen : Guards (chosenManifest parse image index) := by
    unfold chosenManifest
    split
    · exact guards_pure _
    · exact guards_registryGet parse _ _ _ _ _ _
  refine hchosen.bind fun manifest => ?_
  apply Guards.ite (guards_pure _)
  exact (guards_registryGet parse _ _ _ _ _ _).bind fun config => guards_pure _

theorem guards_statements (image : ImageRef) (layers : List Layer) (token : String)
    (found : List (String × String)) : Guards (statements parse image layers token found) := by
  induction layers generalizing token found with
  | nil => exact guards_pure _
  | cons layer layers ih =>
      unfold statements
      apply Guards.ite (ih _ _)
      apply Guards.ite (guards_throw _)
      exact (guards_registryGet parse _ _ _ _ _ _).bind fun got => ih _ _

theorem guards_attestations (image : ImageRef) (digest : String) :
    Guards (attestations parse image digest) := by
  unfold attestations
  refine (guards_registryGet parse _ _ _ _ _ _).bind fun index => ?_
  split
  · exact guards_pure _
  · dsimp only
    split
    · exact guards_pure _
    · refine (guards_registryGet parse _ _ _ _ _ _).bind fun manifest => ?_
      exact (guards_statements parse _ _ _ _).bind fun found => guards_pure _

theorem guards_digestOf (image : ImageRef) (tag : String) : Guards (digestOf parse image tag) := by
  unfold digestOf
  exact (guards_registryGet parse _ _ _ _ _ _).bind fun got => guards_pure _

end Registry

/-! ## The lookup gateway -/

/-- `_https_public_redirects`: a redirect it lets pass has a host just resolved to public
addresses. -/
theorem always_httpsPublicRedirects (response : Response) :
    Always free (httpsPublicRedirects response).run () fun exchanges result _ =>
      Guarded exchanges ∧ (result = .ok () → ∀ target, response.redirect = some (some target) →
        ∃ found, exchanges = [⟨.getaddrinfo target.host, some found⟩] ∧
          ∀ address ∈ found, address.isPublic = true) := by
  cases hredirect : response.redirect with
  | none =>
      have hpure : httpsPublicRedirects response = Pure.pure () := by
        simp [httpsPublicRedirects, redirectTarget, hredirect]
      rw [hpure, always_ok]
      exact ⟨guarded_nil, fun _ target htarget => by cases htarget⟩
  | some redirect =>
      cases redirect with
      | none =>
          have hthrow : httpsPublicRedirects response = throw .unreachable := by
            simp [httpsPublicRedirects, redirectTarget, hredirect]
          rw [hthrow, always_throw]
          exact ⟨guarded_nil, fun hresult => by cases hresult⟩
      | some target =>
          simp only [httpsPublicRedirects, redirectTarget, hredirect, pure_bind]
          split_ifs
          · simpa using guarded_nil
          · simpa using guarded_nil
          · rw [Task.always_bind]
            refine Always.mono (always_publicHost _) fun exchanges result _ h => ?_
            obtain ⟨answers, rfl, hfound⟩ := h
            cases result with
            | error problem => exact ⟨guarded_resolved _ _, fun hresult => by cases hresult⟩
            | ok isPublic =>
                cases isPublic with
                | true =>
                    simp only [if_true, always_ok, List.append_nil]
                    obtain ⟨found, rfl, hpublic⟩ := hfound rfl
                    refine ⟨guarded_resolved _ _, fun _ other hother => ?_⟩
                    obtain rfl := Option.some.inj (Option.some.inj hother)
                    exact ⟨found, rfl, hpublic⟩
                | false =>
                    simp only [Bool.false_eq_true, if_false, always_throw, List.append_nil]
                    exact ⟨guarded_resolved _ _, fun hresult => by cases hresult⟩

/-- A read that checks its redirects: its first exchange is its first request's, and every
request after it is guarded. -/
def Redirects (request : Request) (exchanges : Exchanges) : Prop :=
  ∃ sent rest, exchanges = ⟨.send request, sent⟩ :: rest ∧ Guarded rest

theorem Guarded.redirected {first exchanges : Exchanges} {request : Request}
    {found : List Address} (hpublic : ∀ address ∈ found, address.isPublic = true)
    (hfirst : first = [⟨.getaddrinfo request.url.host, some found⟩])
    (hrest : Redirects request exchanges) : Guarded (first ++ exchanges) := by
  obtain ⟨sent, rest, rfl, hrest⟩ := hrest
  subst hfirst
  show Guarded ([⟨.getaddrinfo request.url.host, some found⟩, ⟨.send request, sent⟩] ++ rest)
  exact (guarded_checked hpublic).append hrest

/-- What follows a response is guarded: its redirect is checked, and what that asks for is
as `next` makes it. -/
theorem guards_redirect (request : Request) {response : Response} {next : Url → Read Response}
    (hnext : ∀ target, Always free (next target).run () fun exchanges _ _ =>
      Guarded exchanges ∨ Redirects (redirected request target) exchanges) :
    Guards (do
      httpsPublicRedirects response
      match ← redirectTarget response with
      | none => pure response
      | some target => next target) := by
  rw [Guards, Task.always_bind]
  refine Always.mono (always_httpsPublicRedirects response) fun first result _ h => ?_
  obtain ⟨hfirst, hchecked⟩ := h
  cases result with
  | error problem => exact hfirst
  | ok _ =>
      cases hredirect : response.redirect with
      | none => simpa [redirectTarget, hredirect] using hfirst
      | some redirect =>
          cases redirect with
          | none => simpa [redirectTarget, hredirect] using hfirst
          | some target =>
              obtain ⟨found, hfound, hpublic⟩ := hchecked rfl target hredirect
              simp only [redirectTarget, hredirect, pure_bind]
              refine Always.mono (hnext target) fun second _ _ hsecond => ?_
              rcases hsecond with hguarded | hredirects
              · exact hfirst.append hguarded
              · exact Guarded.redirected hpublic hfound hredirects

/-- A request made unchecked, and what follows its response. -/
theorem always_sendOne_bind (request : Request) {next : Response → Read Response}
    (hnext : ∀ response, Guards (next response)) :
    Always free (sendOne (fun _ => pure ()) request >>= next).run ()
      fun exchanges _ _ => Redirects request exchanges := by
  rw [Task.always_bind, sendOne, pure_bind]
  refine always_connection request fun sent result => ?_
  cases result with
  | error problem => exact ⟨sent, [], rfl, guarded_nil⟩
  | ok response =>
      exact Always.mono (hnext response) fun second _ _ hsecond => ⟨sent, second, rfl, hsecond⟩

theorem always_lookupFollow (left : Nat) (request : Request) :
    Always free (follow (fun _ => pure ()) httpsPublicRedirects left request).run ()
      fun exchanges _ _ => Redirects request exchanges := by
  induction left generalizing request with
  | zero =>
      unfold follow
      refine always_sendOne_bind request fun response => guards_redirect request fun target => ?_
      rw [always_throw]
      exact .inl guarded_nil
  | succ left ih =>
      unfold follow
      refine always_sendOne_bind request fun response => guards_redirect request fun target => ?_
      exact Always.mono (ih (redirected request target)) fun _ _ _ h => .inr h

/-- A lookup makes no request, or its first one unchecked and guarded ones after it. -/
theorem always_lookupGet (url : Option Url) (accept : String) :
    Always free (lookupGet url accept).run () fun exchanges _ _ => Guarded exchanges.tail := by
  have hfetch : Always free (fetch (fun _ => pure ()) httpsPublicRedirects "GET" url accept "").run
      () fun exchanges _ _ => Guarded exchanges.tail := by
    cases url with
    | none => simpa [fetch] using guarded_nil
    | some url =>
        refine Always.mono (always_lookupFollow maxRedirects ⟨"GET", url, accept, ""⟩) ?_
        rintro _ _ _ ⟨sent, rest, rfl, hrest⟩
        exact hrest
  unfold lookupGet
  rw [Task.always_bind, always_adapt]
  refine Always.mono hfetch fun exchanges result _ h => ?_
  cases result with
  | error problem => exact h
  | ok response =>
      simp only [Except.mapError]
      split_ifs
      · simpa using h
      · simpa using h
      · simpa using h
      · split <;> simpa using h

section Gateway

variable (parse : ParseUrl)

theorem always_lookup (base : Option String) (path : String) (params : List (String × String))
    (accept : String) : Always free (lookup parse base path params accept).run ()
      fun exchanges _ _ => Guarded exchanges.tail := by
  unfold lookup
  cases base with
  | none => simpa using guarded_nil
  | some base => exact always_lookupGet _ _

end Gateway

/-! ## Where every connection is made -/

/-- Whatever names resolve to and registries answer: every connection the registry reader
makes, and every connection a lookup makes to follow a redirect, is made to a public address
if and only if no name that was just found public is answered, as the client connects, with
an address that is not and that it connects to. -/
theorem connections_public_iff (parse : ParseUrl) (image : ImageRef)
    (digest tag path address name : String) (params : List (String × String))
    (base : Option String) :
    (∀ read : Read Unit, read ∈ [discard (tags parse image), discard (labels parse image),
        discard (attestations parse image digest), discard (digestOf parse image tag)] →
      Always free read.run () fun exchanges _ _ =>
        (ConnectsPublic exchanges ↔ ¬ Rebinds exchanges)) ∧
    ∀ read : Read Body, read ∈ [resolve parse base path params, registry parse base address,
        domainRegistry parse base name] →
      Always free read.run () fun exchanges _ _ =>
        (ConnectsPublic exchanges.tail ↔ ¬ Rebinds exchanges.tail) := by
  have hdiscard : ∀ {α : Type} {read : Read α}, Guards read → Guards (discard read) :=
    fun h => h.bind fun _ => guards_pure _
  constructor
  · intro read hread
    have hguards : Guards read := by
      simp only [List.mem_cons, List.not_mem_nil, or_false] at hread
      rcases hread with rfl | rfl | rfl | rfl
      · exact hdiscard (guards_tags parse image)
      · exact hdiscard (guards_labels parse image)
      · exact hdiscard (guards_attestations parse image digest)
      · exact hdiscard (guards_digestOf parse image tag)
    exact Always.mono hguards fun _ _ _ h => h.connectsPublic_iff
  · intro read hread
    have hlookup : Always free read.run () fun exchanges _ _ => Guarded exchanges.tail := by
      simp only [List.mem_cons, List.not_mem_nil, or_false] at hread
      rcases hread with rfl | rfl | rfl
      · exact always_lookup parse _ _ _ _
      · exact always_lookup parse _ _ _ _
      · exact always_lookup parse _ _ _ _
    exact Always.mono hlookup fun _ _ _ h => h.connectsPublic_iff

/-- A registry's name is public when it is checked, and resolves to a machine at home when
the client connects. -/
theorem registry_rebound :
    let machine : Unit → (call : Call) → Reply call × Unit := fun _ call =>
      match call with
      | .getaddrinfo _ => (some [.v4 (ip4 93 184 216 34)], ())
      | .send _ => (⟨[.v4 (ip4 192 168 1 1)], some { status := 200 }⟩, ())
    let read := digestOf (fun _ _ => some ⟨"https", "registry.example.org", "/v2/app/manifests/1"⟩)
      ⟨"registry.example.org", "app", "1", ""⟩ "1"
    let ran := Dialogue.runWith machine read.run ()
    Runs free read.run () ran.1 ran.2.1 () ∧ ¬ ConnectsPublic ran.1 :=
  ⟨free_runWith _ _ _, by decide +kernel⟩

end SeverinoHQ.Outside
