/-
# A list read's page

`keyset_page` of `projection.py`: the order of a list as columns and directions
with the primary key last, the filter for the rows past a cursor, and the page
cut from them. A cursor goes through the text of its values, which a field reads
back when it is compared with them; how each kind of value is written is the
language's, and how a field reads it the framework's, so both are parameters.
-/

import Mathlib.Data.List.Sort
import SeverinoHQ.Json

namespace SeverinoHQ.Projection

/-- What a read raises. -/
inductive Raised where
  | typeError (message : String)
  | valueError (message : String)
  /-- A position no cut made under these terms could have written. -/
  | cursorRefusal (reason : String)
  | fieldDoesNotExist (name : String)
  | validationError (name : String)
  deriving DecidableEq, Repr

/-! ## Rows -/

/-- A table's name, its primary key, and its fields with whether each may be null. -/
structure Model where
  label : String
  pk : String
  fields : List (String × Bool)

/-- How `_cursor_value` takes a value. -/
inductive Kind where
  /-- A `date` or a `datetime`. -/
  | dated
  /-- An `int` or a `str`. -/
  | plain
  | other
  deriving DecidableEq, Repr

/-- The values of columns: how each is written, and what a field makes of what it
is compared with. -/
structure Scalars (V : Type) where
  kind : V → Kind
  isoformat : V → String
  asIs : V → Json
  str : V → String
  toPython : String → Json → Option V

/-- A row, by the names of its fields. -/
abbrev Row (V : Type) := String → V

variable {V : Type} [LinearOrder V]

/-- `row.serializable_value(name)`. -/
def Model.value (model : Model) (row : Row V) (name : String) : V :=
  row (if name = "pk" then model.pk else name)

/-! ## Orders -/

/-- `name.removeprefix("-")`, and whether it descends. -/
def direction (column : String) : String × Bool :=
  match column.toList with
  | '-' :: name => (String.ofList name, true)
  | _ => (column, false)

/-- `_meta.pk` or `_meta.get_field(name)`: whether the field may be null. -/
def Model.null (model : Model) (name : String) : Except Raised Bool :=
  let name := if name = "pk" then model.pk else name
  match model.fields.find? fun field => field.1 == name with
  | some field => .ok field.2
  | none => .error (.fieldDoesNotExist name)

/-- The columns a keyset compares and whether each descends, before they are checked. -/
def Model.keys (model : Model) (order : List String) : List (String × Bool) :=
  let keys := order.map direction
  if keys.any fun key => key.1 == "pk" || key.1 == model.pk then keys
  else keys ++ [("pk", (keys.getLast?.map Prod.snd).getD false)]

/-- A column that may be null cannot be paged by. -/
def Model.checks (model : Model) : List (String × Bool) → Except Raised Unit
  | [] => .ok ()
  | (name, _) :: keys => do
      if ← model.null name then
        .error (.typeError (model.label ++ "." ++ name ++
          " is nullable, so a list cannot page by it."))
      else model.checks keys

/-- `_keyset`. -/
def Model.keyset (model : Model) (order : List String) : Except Raised (List (String × Bool)) := do
  model.checks (model.keys order)
  return model.keys order

/-- One row comes before another. -/
def Model.precedes (model : Model) : List (String × Bool) → Row V → Row V → Bool
  | [], _, _ => false
  | (name, descending) :: keys, first, second =>
      decide (if descending then model.value second name < model.value first name
        else model.value first name < model.value second name) ||
      (decide (model.value first name = model.value second name) &&
        model.precedes keys first second)

/-- `order_by`. -/
def Model.orderBy (model : Model) (keys : List (String × Bool)) (table : List (Row V)) :
    List (Row V) :=
  table.insertionSort fun first second => model.precedes keys second first = false

/-! ## Cursors -/

/-- `_cursor_value`. -/
def cursorValue (scalars : Scalars V) (value : V) : Json :=
  match scalars.kind value with
  | .dated => .str (scalars.isoformat value)
  | .plain => scalars.asIs value
  | .other => .str (scalars.str value)

/-- How a filter compares a column with a value. -/
inductive Comparison where
  | lt
  | gt
  | exact
  deriving DecidableEq, Repr

/-- A filter. -/
inductive Q (V : Type) where
  | all
  | column (name : String) (comparison : Comparison) (value : V)
  | and (first second : Q V)
  | or (first second : Q V)

namespace Q

/-- `first & second`, where an empty one takes no part. -/
def both : Q V → Q V → Q V
  | .all, second => second
  | first, .all => first
  | first, second => .and first second

/-- `first | second`, where an empty one takes no part. -/
def either : Q V → Q V → Q V
  | .all, second => second
  | first, .all => first
  | first, second => .or first second

/-- A row passes a filter. -/
def passes (model : Model) (row : Row V) : Q V → Bool
  | .all => true
  | .column name .lt value => decide (model.value row name < value)
  | .column name .gt value => decide (value < model.value row name)
  | .column name .exact value => decide (model.value row name = value)
  | .and first second => first.passes model row && second.passes model row
  | .or first second => first.passes model row || second.passes model row

end Q

/-- The rows past a value on one key and tied on each earlier one. -/
def pastStep (earlier : List (String × V)) (key : String × Bool) (value : V) : Q V :=
  earlier.foldl (fun step prior => step.both (.column prior.1 .exact prior.2))
    (.column key.1 (if key.2 then .lt else .gt) value)

/-- The keys after `earlier`, each with its value, added to the filter so far. -/
def pastSteps : List (String × V) → List ((String × Bool) × V) → Q V → Q V
  | _, [], after => after
  | earlier, (key, value) :: rest, after =>
      pastSteps (earlier ++ [(key.1, value)]) rest (after.either (pastStep earlier key value))

/-- The values of a cursor, as the fields they are compared with read them. -/
def cursorValues (scalars : Scalars V) :
    List (String × Bool) → List Json → Except Raised (List ((String × Bool) × V))
  | key :: keys, text :: texts => do
      match scalars.toPython key.1 text with
      | none => .error (.validationError key.1)
      | some value => return (key, value) :: (← cursorValues scalars keys texts)
  | _, _ => .ok []

/-- `_past`: the rows after a position in a keyset. -/
def past (scalars : Scalars V) (keys : List (String × Bool)) (position : Json) :
    Except Raised (Q V) :=
  let refused := Raised.cursorRefusal "cursor was issued for another order of this list."
  if position.get? "order" ≠ some (.arr (keys.map fun key => .str key.1)) then .error refused
  else
    match position.get? "keys" with
    | some (.arr texts) =>
        if texts.length ≠ keys.length then .error refused
        else do return pastSteps [] (← cursorValues scalars keys texts) .all
    | _ => .error refused

/-! ## Pages -/

/-- `PageScope`: a list read's position, and where the page it is claimed by stops. -/
structure PageScope where
  position : Option Json
  claimed : Bool
  after : Option Json
  deriving DecidableEq

/-- `_claimed`: the scope for the first cut made inside it. -/
def claimed : Option PageScope → Option PageScope
  | some scope => if scope.claimed then none else some { scope with claimed := true }
  | none => none

/-- `page_size`, with the ceiling every list has. -/
def pageSize (limit : Int) : Except Raised Nat :=
  if limit < 1 then .error (.valueError "limit must be at least 1")
  else .ok (min limit 100).toNat

/-- What a page answers with. -/
structure Found (V : Type) where
  items : List (Row V)
  count : Nat
  total : Nat
  truncated : Option Bool

/-- Where a page that ends with `last` stops. -/
def positionOf (scalars : Scalars V) (model : Model) (keys : List (String × Bool)) (last : Row V) :
    Json :=
  .obj [("keys", .arr (keys.map fun key => cursorValue scalars (model.value last key.1))),
    ("order", .arr (keys.map fun key => .str key.1))]

/-- The rows past a position, or all of them. -/
def rowsPast (scalars : Scalars V) (model : Model) (keys : List (String × Bool))
    (table : List (Row V)) : Option Json → Except Raised (List (Row V))
  | some position => do
      let after ← past scalars keys position
      return table.filter fun row => after.passes model row
  | none => .ok table

/-- `keyset_page`, with the read's scope as it leaves it. -/
def keysetPage (scalars : Scalars V) (model : Model) (table : List (Row V)) (order : List String)
    (limit : Int) (scope : Option PageScope) :
    Except Raised (Found V × Option PageScope) := do
  let keys ← model.keyset order
  let mine := claimed scope
  let size ← pageSize limit
  let position := mine.bind PageScope.position
  let cut ← rowsPast scalars model keys table position
  let rows := (model.orderBy keys cut).take (size + 1)
  let page := rows.take size
  let more := decide (size < rows.length)
  let total := if more || position.isSome then table.length else page.length
  match mine with
  | some mine =>
      let after := if more then page.getLast?.map (positionOf scalars model keys) else none
      return (⟨page, page.length, total, some more⟩, some { mine with after := after })
  | none => return (⟨page, page.length, total, none⟩, scope)

/-- A list read page after page by its cursors: each visit has the table as it then
is and a limit. What was read, and whether the last page was. -/
def pages (scalars : Scalars V) (model : Model) (order : List String) :
    Option Json → List (List (Row V) × Int) → Except Raised (List (Row V) × Bool)
  | _, [] => .ok ([], false)
  | position, (table, limit) :: visits => do
      let (found, scope) ←
        keysetPage scalars model table order limit (some ⟨position, false, none⟩)
      match scope.bind PageScope.after with
      | none => return (found.items, true)
      | some next =>
          let (items, finished) ← pages scalars model order (some next) visits
          return (found.items ++ items, finished)

end SeverinoHQ.Projection
