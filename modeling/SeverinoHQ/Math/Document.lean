/-
# JSON documents, whatever their numbers are

What walks a document and reads none of its numbers is stated for any of them. A string
of a document is a value or the name of a member. A value is told by its place: the names
and positions that lead to it.
-/

import Mathlib.Data.List.Basic

namespace SeverinoHQ.Math

universe u

/-- A JSON document, an object's members in their order. -/
inductive Document (ν : Type u) where
  | null
  | bool (value : Bool)
  | num (value : ν)
  | str (value : String)
  | arr (items : List (Document ν))
  | obj (members : List (String × Document ν))

namespace Document

variable {ν : Type u}

mutual

/-- The strings of a document: its values and its members' names. -/
def strings : Document ν → List String
  | .str value => [value]
  | .arr items => stringsOfItems items
  | .obj members => stringsOfMembers members
  | _ => []

def stringsOfItems : List (Document ν) → List String
  | [] => []
  | item :: items => item.strings ++ stringsOfItems items

def stringsOfMembers : List (String × Document ν) → List String
  | [] => []
  | (name, value) :: members => name :: value.strings ++ stringsOfMembers members

end

mutual

/-- A bound from below on how long a document is, written down. -/
def weight : Document ν → Nat
  | .str value => value.length + 1
  | .arr items => weightOfItems items + 1
  | .obj members => weightOfMembers members + 1
  | _ => 1

def weightOfItems : List (Document ν) → Nat
  | [] => 0
  | item :: items => item.weight + weightOfItems items

def weightOfMembers : List (String × Document ν) → Nat
  | [] => 0
  | (name, value) :: members => name.length + value.weight + weightOfMembers members

end

theorem weight_pos (document : Document ν) : 0 < document.weight := by
  cases document <;> simp [weight]

/-! ## Places -/

/-- One step to a value: a member's name, or a position in a list. -/
inductive Step where
  | key (name : String)
  | entry (index : Nat)
  deriving DecidableEq, Repr

/-- The value at a place. -/
def at? : Document ν → List Step → Option (Document ν)
  | document, [] => some document
  | .obj members, .key name :: place => (members.lookup name).bind fun child => child.at? place
  | .arr items, .entry index :: place => items[index]?.bind fun child => child.at? place
  | _, _ :: _ => none

/-- A value that is something by itself: a flag, a number, or text that is not empty. -/
def plain : Document ν → Option (Document ν)
  | .str value => if value = "" then none else some (.str value)
  | .bool value => some (.bool value)
  | .num value => some (.num value)
  | _ => none

/-- Two documents differ in more than an absent and an empty value: at some place, one
holds something by itself and the other does not, or something else. -/
def Differs (first second : Document ν) : Prop :=
  ∃ place, (first.at? place).bind plain ≠ (second.at? place).bind plain

end Document

end SeverinoHQ.Math
