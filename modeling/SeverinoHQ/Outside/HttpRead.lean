/-
# One bounded read over HTTP

An outside read is a request, and the requests its redirects ask for. A reader holds its rule
for them in a hook: one called with each request before it is made, one with each response
before its redirect is followed. Every answer of a name's resolution, every address the
client connects to and every response are replies, so whoever answers them is anyone.
-/

import SeverinoHQ.Math.Task
import SeverinoHQ.Outside.Reach

namespace SeverinoHQ.Outside

open SeverinoHQ.Math Dialogue Task

/-- A URL, as the client parses it. -/
structure Url where
  scheme : String
  host : String
  rest : String
  deriving DecidableEq, Repr

structure Request where
  method : String
  url : Url
  accept : String
  /-- The bearer token it carries, or none. -/
  token : String
  deriving DecidableEq, Repr

/-- One entry of a manifest index. -/
structure Manifest where
  digest : String
  os : String
  architecture : String
  referenceType : String
  referenceDigest : String
  deriving DecidableEq, Repr

structure Layer where
  digest : String
  predicateType : String
  size : Nat
  deriving DecidableEq, Repr

/-- What the readers take of a body that is an object; a member it lacks is empty. -/
structure Body where
  tags : List String := []
  manifests : List Manifest := []
  config : String := ""
  labels : List (String × String) := []
  layers : List Layer := []
  predicate : String := ""
  token : String := ""
  deriving DecidableEq, Repr

/-- A body, as JSON reads it. -/
inductive Payload
  | broken
  | other
  | object (body : Body)
  deriving DecidableEq, Repr

/-- A bearer challenge, as its fields are read. -/
structure Challenge where
  realm : String
  service : String
  deriving DecidableEq, Repr

/-- A response. Of a redirect, where to: a URL, or a text the client makes none of. -/
structure Response where
  status : Nat
  redirect : Option (Option Url) := none
  challenge : Option Challenge := none
  /-- The path of the page that follows, without the host its link names. -/
  following : Option String := none
  contentDigest : String := ""
  length : Nat := 0
  payload : Payload := .other
  deriving DecidableEq, Repr

/-- What making a request came to: the addresses the client connected to, each of those the
URL's host resolved to when it did, and the response, where one came. -/
structure Sent where
  connected : List Address
  response : Option Response
  deriving DecidableEq, Repr

inductive Call
  | getaddrinfo (host : String)
  | send (request : Request)
  deriving DecidableEq, Repr

/-- A name that does not resolve is answered with nothing. -/
abbrev Reply : Call → Type
  | .getaddrinfo _ => Option (List Address)
  | .send _ => Sent

/-- Why a read ended: nothing answered, or what the reader says. -/
inductive Problem
  | unreachable
  | read (text : String)
  | refused (text : String)
  | unavailable (text : String)
  | notFound (text : String)
  deriving DecidableEq, Repr

abbrev Read (α : Type) := Task Call Reply Problem α

/-- One call of a read. -/
def Read.call (call : Call) : Read (Reply call) := ExceptT.lift (Dialogue.call call)

/-- `public_host`. -/
def publicHost (host : String) : Read Bool := do
  match ← Read.call (.getaddrinfo host) with
  | none => pure false
  | some found => pure (!found.isEmpty && found.all (·.isPublic))

/-- `redirect_target`. -/
def redirectTarget (response : Response) : Read (Option Url) :=
  match response.redirect with
  | none => pure none
  | some none => throw .unreachable
  | some (some target) => pure (some target)

/-- The redirects the client follows before it gives up. -/
def maxRedirects : Nat := 20

/-- One request: the request hook, then the connection. -/
def sendOne (onRequest : Request → Read Unit) (request : Request) : Read Response := do
  onRequest request
  let sent ← Read.call (.send request)
  match sent.response with
  | none => throw .unreachable
  | some response => pure response

/-- A redirect's request leaves the token behind once the origin changes. -/
def redirected (request : Request) (target : Url) : Request :=
  { request with
    url := target
    token := if target.scheme = request.url.scheme ∧ target.host = request.url.host then
      request.token else "" }

/-- The client's requests for one read, from one with so many redirects left to follow. -/
def follow (onRequest : Request → Read Unit) (onResponse : Response → Read Unit) :
    Nat → Request → Read Response
  | left, request => do
      let response ← sendOne onRequest request
      onResponse response
      match ← redirectTarget response with
      | none => pure response
      | some target =>
          match left with
          | 0 => throw .unreachable
          | left + 1 => follow onRequest onResponse left (redirected request target)

/-- `fetch`, following redirects; a text the client makes no URL of is asked of nobody. -/
def fetch (onRequest : Request → Read Unit) (onResponse : Response → Read Unit)
    (method : String) (url : Option Url) (accept token : String) : Read Response :=
  match url with
  | none => throw .unreachable
  | some url => follow onRequest onResponse maxRedirects ⟨method, url, accept, token⟩

end SeverinoHQ.Outside
