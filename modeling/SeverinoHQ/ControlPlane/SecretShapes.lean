/-
# What a secret looks like

A payload that enters HQ has each match of a secret's shape struck in place, in its values
and in its members' names, and every string within a member named for what it holds. Which
letters beyond ASCII make a word, and how they are lowered, is read from Unicode's tables.
-/

import Mathlib.Data.List.Infix
import SeverinoHQ.Math.Dict
import SeverinoHQ.Math.Document
import SeverinoHQ.Math.Pattern

namespace SeverinoHQ.ControlPlane.SecretShapes

open SeverinoHQ.Math

universe u

/-- What is read from Unicode's tables. -/
structure Unicode where
  /-- A letter beyond ASCII that `\w` takes. -/
  isWord : Char → Bool
  /-- `str.lower`. -/
  lower : String → String

/-- A letter that `\w` takes. -/
def Unicode.word (unicode : Unicode) (char : Char) : Bool :=
  if char.val < 128 then char.isAlphanum || char == '_' else unicode.isWord char

/-- `\b`: a word begins or ends here. -/
def Unicode.boundary (unicode : Unicode) (before : Option Char) (text : List Char) : Bool :=
  before.any unicode.word != text.head?.any unicode.word

/-! ## The shapes -/

/-- What stands where a secret was. -/
def redacted : String := "[redacted]"

/-- A shape, by the words a strike is logged in. -/
structure Shape where
  words : String
  /-- It begins with `\b`. -/
  bounded : Bool
  body : Pattern

open Pattern

/-- `PRIVATE KEY(?: BLOCK)?-----`. -/
def keyEnd : Pattern :=
  seq (word "PRIVATE KEY".toList) (seq (opt (word " BLOCK".toList)) (word "-----".toList))

/-- `[A-Z0-9 ]*`. -/
def keyKind : Pattern := many (fun char => char.isUpper || char.isDigit || char == ' ') 0

/-- From its header to its footer, or to the end of a text cut short. -/
def privateKey : Shape where
  words := "a private key"
  bounded := false
  body :=
    seq (opt (seq (word "-----BEGIN ".toList) keyKind)) (seq keyEnd
      (alt (seq (few fun _ => true) (seq (word "-----END ".toList) (seq keyKind keyEnd)))
        (many (fun _ => true) 0)))

def gitHubToken : Shape where
  words := "a GitHub token"
  bounded := true
  body :=
    alt
      (seq (word "gh".toList) (seq (letter fun char => "pousr".toList.contains char)
        (seq (word "_".toList) (many Char.isAlphanum 30))))
      (seq (word "github_pat_".toList) (many (fun char => char.isAlphanum || char == '_') 22))

def tailscaleKey : Shape where
  words := "a Tailscale key"
  bounded := true
  body := seq (word "tskey-".toList) (many (fun char => char.isAlphanum || char == '-') 16)

def cloudflareToken : Shape where
  words := "a Cloudflare token"
  bounded := true
  body :=
    seq (word "cf".toList) (seq
      (alt (word "ut".toList) (alt (word "at".toList) (alt (word "k".toList) (word "oat".toList))))
      (seq (word "_".toList)
        (many (fun char => char.isAlphanum || char == '_' || char == '-') 32)))

def onePasswordToken : Shape where
  words := "a 1Password service account token"
  bounded := true
  body :=
    seq (word "ops_".toList)
      (many (fun char => char.isAlphanum || "+/=_-".toList.contains char) 40)

def portainerToken : Shape where
  words := "a Portainer access token"
  bounded := true
  body := seq (word "ptr_".toList) (many (fun char => char.isAlphanum || "+/=".toList.contains char) 40)

def ageIdentity : Shape where
  words := "an age identity"
  bounded := false
  body := seq (word "AGE-SECRET-KEY-1".toList) (many (fun char => char.isDigit || char.isUpper) 50)

/-- `[A-Za-z0-9_-]`. -/
def base64Url (char : Char) : Bool := char.isAlphanum || char == '_' || char == '-'

def webToken : Shape where
  words := "a JSON Web Token"
  bounded := true
  body :=
    seq (word "eyJ".toList) (seq (many base64Url 8) (seq (word ".eyJ".toList)
      (seq (many base64Url 8) (seq (word ".".toList) (many base64Url 0)))))

/-- `_SHAPES`, in the order they are tried. -/
def shapes : List Shape :=
  [privateKey, gitHubToken, tailscaleKey, cloudflareToken, onePasswordToken, portainerToken,
    ageIdentity, webToken]

/-! ## Striking -/

/-- The first shape that matches here, and what it leaves of the text. -/
def found (unicode : Unicode) (before : Option Char) (text : List Char) :
    Option (Shape × List Char) :=
  shapes.findSome? fun shape =>
    if shape.bounded && !unicode.boundary before text then none
    else (shape.body.left text).head?.map (shape, ·)

/-- `_SHAPE.sub`: the text with each match struck, and the shapes that were, from a place
within it. `skip` is how much of the text a match found before still takes. -/
@[grind =]
def strike (unicode : Unicode) : Nat → Option Char → List Char → List Char × List Shape
  | _, _, [] => ([], [])
  | skip + 1, _, char :: text => strike unicode skip (some char) text
  | 0, before, char :: text =>
      match found unicode before (char :: text) with
      | some (shape, left) =>
          let rest := strike unicode (text.length - left.length) (some char) text
          (redacted.toList ++ rest.1, shape :: rest.2)
      | none =>
          let rest := strike unicode 0 (some char) text
          (char :: rest.1, rest.2)

/-- One step of a path into a document. -/
inductive Step where
  | member (name : String)
  | index (place : Nat)
  deriving DecidableEq, Repr

/-- `str(part).replace("~", "~0").replace("/", "~1")`. -/
def Step.part : Step → String
  | .member name => (name.replace "~" "~0").replace "/" "~1"
  | .index place => toString place

/-- `_pointer`: a path as a JSON Pointer. -/
def pointer (path : List Step) : String :=
  let parts := String.join (path.map fun step => "/" ++ step.part)
  if parts = "" then "/" else parts

/-- Where a secret was struck, and what it was. -/
abbrev Strike := String × String

/-- `_text`. -/
def text (unicode : Unicode) (path : List Step) (value : String) : String × List Strike :=
  let struck := strike unicode 0 none value.toList
  (String.ofList struck.1, struck.2.map fun shape => (pointer path, shape.words))

/-- `_SECRET_NAMES`. -/
def secretNames : List String := ["private", "secret", "token", "password", "credential"]

/-- `_named_secret`. -/
def namedSecret (unicode : Unicode) (declared : List String) (name : String) : Bool :=
  if declared.contains name then false
  else secretNames.any fun secret => decide (secret.toList <:+: (unicode.lower name).toList)

/-- What a strike of a member's value is logged as. -/
def named : String := "a member named as a secret"

section Struck

variable {ν : Type u} (unicode : Unicode) (declared : List String)

mutual

/-- `_struck`: a document with every secret struck, and where each was. A string within a
member named as a secret is struck whole. -/
def struckNode (within : Bool) (path : List Step) : Document ν → Document ν × List Strike
  | .str value =>
      if within then (.str redacted, [(pointer path, named)])
      else
        let struck := text unicode path value
        (.str struck.1, struck.2)
  | .arr items =>
      let struck := struckItems within path 0 items
      (.arr struck.1, struck.2)
  | .obj members =>
      let struck := struckMembers within path members
      (.obj (Dict.collect struck.1), struck.2)
  | .null => (.null, [])
  | .bool value => (.bool value, [])
  | .num value => (.num value, [])

def struckItems (within : Bool) (path : List Step) (index : Nat) :
    List (Document ν) → List (Document ν) × List Strike
  | [] => ([], [])
  | child :: children =>
      let first := struckNode within (path ++ [.index index]) child
      let rest := struckItems within path (index + 1) children
      (first.1 :: rest.1, first.2 ++ rest.2)

/-- The members' struck names and values, in order, before one is kept for a name. -/
def struckMembers (within : Bool) (path : List Step) :
    List (String × Document ν) → List (String × Document ν) × List Strike
  | [] => ([], [])
  | (member, child) :: members =>
      let key := text unicode path member
      let value := struckNode (within || namedSecret unicode declared key.1)
        (path ++ [.member key.1]) child
      let rest := struckMembers within path members
      ((key.1, value.1) :: rest.1, key.2 ++ value.2 ++ rest.2)

end

/-- `struck`: a value with every secret in it struck, and where each was. -/
def struck (value : Document ν) : Document ν × List Strike :=
  struckNode unicode declared false [] value

end Struck

end SeverinoHQ.ControlPlane.SecretShapes
