/-
# Field masks over resource records

A read names the parts of each record it wants. The names are merged into one mask, and every
record is cut to it: the objects of all records at one depth are checked and cut together, and
put back where each came from.
-/

import SeverinoHQ.Math.Document
import SeverinoHQ.Math.PathTree
import SeverinoHQ.Math.Text

namespace SeverinoHQ.Records.FieldMasks

open SeverinoHQ.Math

universe u

variable {ν : Type u}

/-- A dictionary of JSON values, in its order. -/
abbrev Record (ν : Type u) := List (String × Document ν)

/-- `Mask`: each name keeps its whole value, or the names under it keep only those parts. -/
abbrev Mask := List (String × PathTree String)

/-! ## Refusals -/

inductive Loc where
  | name (name : String)
  | index (index : Nat)
  deriving DecidableEq, Repr

structure Problem where
  type : String
  loc : List Loc
  msg : String
  deriving DecidableEq, Repr

/-- What ends a selection without an answer: a refusal with its errors, or what Python raises
where a key, an element or a record is missing. -/
inductive Failure where
  | refusal (errors : List Problem)
  | keyError
  | stopIteration
  | valueError
  deriving DecidableEq, Repr

structure Selection where
  mask : Mask
  /-- The first field that names each path, so a refusal points at it. -/
  origin : Dict (List String) Nat

def Selection.refuse {α : Type u} (selection : Selection) (path : List String)
    (errorType msg : String) (at' : List String) : Except Failure α :=
  match selection.origin.get? path with
  | none => .error .keyError
  | some index =>
      .error (.refusal [⟨errorType, .name "fields" :: .index index :: at'.map .name, msg⟩])

/-! ## The fields as one mask -/

/-- `field.split(".")`. -/
def segments (field : String) : List String :=
  (Text.split '.' field.toList).map String.ofList

/-- `_FIELD_PATH.fullmatch`: names that are not empty, between single dots. -/
def isFieldPath (field : String) : Bool := (segments field).all (· != "")

/-- `_merge`. -/
def merge : Mask → List String → Mask
  | mask, [] => mask
  | mask, [leaf] => Dict.assign leaf .whole mask
  | mask, segment :: next :: rest =>
      match mask.lookup segment with
      -- The whole value is already kept.
      | some .whole => mask
      | some (.parts child) => Dict.assign segment (.parts (merge child (next :: rest))) mask
      | none => Dict.assign segment (.parts (merge [] (next :: rest))) mask

/-- `origin.setdefault(path, index)`. -/
def setDefault (index : Nat) (origin : Dict (List String) Nat) (path : List String) :
    Dict (List String) Nat :=
  if (origin.get? path).isSome then origin else origin.set path index

/-- One turn of the loop over the fields. -/
def addField (selection : Selection) (field : String × Nat) : Selection where
  mask := merge selection.mask (segments field.1)
  origin := ((List.range (segments field.1).length).map fun depth =>
    (segments field.1).take (depth + 1)).foldl (setDefault field.2) selection.origin

/-- `_selection`. -/
def selectionOf (fields : List String) : Except Failure Selection :=
  if fields = [] then
    .error (.refusal [⟨"too_short", [.name "fields"], "List should have at least 1 item"⟩])
  else
    match (fields.zipIdx.filter fun field => !isFieldPath field.1).map Prod.snd with
    | [] => .ok (fields.zipIdx.foldl addField ⟨[], .empty⟩)
    | malformed => .error (.refusal (malformed.map fun index =>
        ⟨"string_pattern_mismatch", [.name "fields", .index index],
          "String should match 'name.name'"⟩))

/-! ## Cutting the records -/

/-- The keys the records carry, as they are first met. -/
def known (records : List (Record ν)) : List String :=
  (records.flatMap fun record => record.map Prod.fst).eraseDups

/-- The items of a record that the mask keeps whole. -/
def wholes (mask : Mask) (record : Record ν) : Record ν :=
  record.filter fun item =>
    match mask.lookup item.1 with
    | some .whole => true
    | _ => false

/-- The members of an object. -/
def members? : Document ν → Option (Record ν)
  | .obj members => some members
  | _ => none

/-- The objects under a key, of every record. -/
def elementsUnder (selection : Selection) (key : String) (path : List String) :
    List (Record ν) → Except Failure (List (Record ν))
  | [] => .ok []
  | record :: records =>
      match record.lookup key with
      | none | some .null => elementsUnder selection key path records
      | some (.obj members) => do
          let elements ← elementsUnder selection key path records
          .ok (members :: elements)
      | some (.arr items) =>
          if items.all fun item => (members? item).isSome then do
            let elements ← elementsUnder selection key path records
            .ok (items.filterMap members? ++ elements)
          else selection.refuse path "dict_type" "Input should be a valid dictionary" path
      | some _ => selection.refuse path "dict_type" "Input should be a valid dictionary" path

/-- The cut elements, put back where each came from. -/
def deal (key : String) :
    List (Record ν) → List (Record ν) → List (Record ν) → Except Failure (List (Record ν))
  | [], [], _ => .ok []
  | record :: records, out :: cut, shaped =>
      match record.lookup key with
      | none => do
          let rest ← deal key records cut shaped
          .ok (out :: rest)
      | some (.obj _) =>
          match shaped with
          | [] => .error .stopIteration
          | next :: shaped => do
              let rest ← deal key records cut shaped
              .ok (Dict.assign key (.obj next) out :: rest)
      | some (.arr items) =>
          if shaped.length < items.length then .error .stopIteration
          else do
            let rest ← deal key records cut (shaped.drop items.length)
            .ok (Dict.assign key (.arr ((shaped.take items.length).map .obj)) out :: rest)
      | some _ => do
          let rest ← deal key records cut shaped
          .ok (Dict.assign key .null out :: rest)
  | _, _, _ => .error .valueError

/-- `_cut_within`, where `cutInner` cuts the elements to what is under the key. -/
def cutWithin (selection : Selection)
    (cutInner : List (Record ν) → Except Failure (List (Record ν))) (key : String)
    (path : List String) (records cut : List (Record ν)) : Except Failure (List (Record ν)) := do
  let elements ← elementsUnder selection key path records
  let shaped ← cutInner elements
  deal key records cut shaped

/-- What is kept of a record, in the record's order. -/
def inOrder (record out : Record ν) : Record ν :=
  record.filterMap fun item => (out.lookup item.1).map fun value => (item.1, value)

/-- The records with what is kept of each. -/
def reordered : List (Record ν) → List (Record ν) → Except Failure (List (Record ν))
  | [], [] => .ok []
  | record :: records, out :: cut => do
      let rest ← reordered records cut
      .ok (inOrder record out :: rest)
  | _, _ => .error .valueError

/-- `_cut` at one depth, where `cutParts` is its loop over the mask. -/
def cutOf (selection : Selection) (mask : Mask)
    (cutParts : List (Record ν) → Except Failure (List (Record ν))) (at' : List String)
    (records : List (Record ν)) : Except Failure (List (Record ν)) :=
  match if records = [] then none else (mask.map Prod.fst).find? (· ∉ known records) with
  | some unknown =>
      selection.refuse (at' ++ [unknown]) "literal_error"
        ("Input should be " ++
          String.intercalate ", " ((known records).map fun key => "'" ++ key ++ "'")) []
  | none => do
      let cut ← cutParts (records.map (wholes mask))
      reordered records cut

mutual

/-- What the loop does with one name of the mask. -/
def cutEntry (selection : Selection) (at' : List String) (key : String)
    (records cut : List (Record ν)) : PathTree String → Except Failure (List (Record ν))
  | .whole => .ok cut
  | .parts inner =>
      cutWithin selection
        (fun elements => cutOf selection inner
          (fun cut => cutParts selection (at' ++ [key]) elements cut inner) (at' ++ [key]) elements)
        key (at' ++ [key]) records cut

/-- The loop over the names of the mask. -/
def cutParts (selection : Selection) (at' : List String) (records cut : List (Record ν)) :
    Mask → Except Failure (List (Record ν))
  | [] => .ok cut
  | (key, kept) :: rest => do
      let cut ← cutEntry selection at' key records cut kept
      cutParts selection at' records cut rest

end

/-- `_cut`. -/
def cut (selection : Selection) (records : List (Record ν)) (mask : Mask) (at' : List String) :
    Except Failure (List (Record ν)) :=
  cutOf selection mask (fun cut => cutParts selection at' records cut mask) at' records

/-- `selected`: each record cut to the field mask, in its own order. -/
def selected (records : List (Record ν)) (fields : List String) :
    Except Failure (List (Record ν)) :=
  match selectionOf fields with
  | .error failure => .error failure
  | .ok selection => cut selection records selection.mask []

end SeverinoHQ.Records.FieldMasks
