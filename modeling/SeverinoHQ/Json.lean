/-
# JSON documents as HQ stores and receives them

A Django `JSONField` and a bridge payload hold a JSON document. An object lists
its members by name, the one form `json.dumps` writes with `sort_keys`, so two
dictionaries are equal exactly when their documents are. Numbers are integers:
no modelled function reads a fraction.
-/

import Mathlib.Data.List.Basic

namespace SeverinoHQ

/-- A JSON document. -/
inductive Json where
  | null
  | bool (value : Bool)
  | num (value : Int)
  | str (value : String)
  | arr (items : List Json)
  | obj (members : List (String × Json))
  deriving Inhabited, Repr

namespace Json

mutual

/-- Structural comparison of two documents. -/
def same : Json → Json → Bool
  | .null, .null => true
  | .bool a, .bool b => a == b
  | .num a, .num b => a == b
  | .str a, .str b => a == b
  | .arr as, .arr bs => sameItems as bs
  | .obj as, .obj bs => sameMembers as bs
  | _, _ => false

/-- Structural comparison of two arrays. -/
def sameItems : List Json → List Json → Bool
  | [], [] => true
  | a :: as, b :: bs => same a b && sameItems as bs
  | _, _ => false

/-- Structural comparison of two objects' members. -/
def sameMembers : List (String × Json) → List (String × Json) → Bool
  | [], [] => true
  | (k, a) :: as, (l, b) :: bs => k == l && same a b && sameMembers as bs
  | _, _ => false

end

mutual

theorem same_iff : ∀ a b : Json, same a b = true ↔ a = b
  | .null, b => by cases b <;> simp [same]
  | .bool a, b => by cases b <;> simp [same]
  | .num a, b => by cases b <;> simp [same]
  | .str a, b => by cases b <;> simp [same]
  | .arr as, b => by
      cases b <;> simp [same]
      exact sameItems_iff _ _
  | .obj as, b => by
      cases b <;> simp [same]
      exact sameMembers_iff _ _

theorem sameItems_iff : ∀ as bs : List Json, sameItems as bs = true ↔ as = bs
  | [], bs => by cases bs <;> simp [sameItems]
  | a :: as, [] => by simp [sameItems]
  | a :: as, b :: bs => by simp [sameItems, same_iff a b, sameItems_iff as bs]

theorem sameMembers_iff :
    ∀ as bs : List (String × Json), sameMembers as bs = true ↔ as = bs
  | [], bs => by cases bs <;> simp [sameMembers]
  | (k, a) :: as, [] => by simp [sameMembers]
  | (k, a) :: as, (l, b) :: bs => by
      simp [sameMembers, same_iff a b, sameMembers_iff as bs, and_assoc]

end

instance : DecidableEq Json := fun a b => decidable_of_iff _ (same_iff a b)

/-- `dict.get(name)`: the member under a name, and none for what is no object. -/
def get? (document : Json) (name : String) : Option Json :=
  match document with
  | .obj members => (members.find? fun member => member.1 == name).map Prod.snd
  | _ => none

/-- `members` with `value` under `name`, kept by name. -/
def insertMember (name : String) (value : Json) :
    List (String × Json) → List (String × Json)
  | [] => [(name, value)]
  | member :: members =>
      if name < member.1 then (name, value) :: member :: members
      else if name = member.1 then (name, value) :: members
      else member :: insertMember name value members

/-- The dictionary a display or comprehension builds: the last value of a name is kept. -/
def dict (members : List (String × Json)) : Json :=
  .obj (members.foldl (fun before member => insertMember member.1 member.2 before) [])

/-- Python's truth of a document: null, false, zero and what is empty are false. -/
def truthy : Json → Bool
  | .null => false
  | .bool value => value
  | .num value => value != 0
  | .str value => value != ""
  | .arr items => !items.isEmpty
  | .obj members => !members.isEmpty

end Json

end SeverinoHQ
