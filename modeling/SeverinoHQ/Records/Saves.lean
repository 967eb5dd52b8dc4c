/-
# Saving a record held as its caller last read it

An asset, an expense, a writeup, a document and a project are written the same
way, and each domain says only what is its own: its columns, what names a
record, what its links are found by and what its model checks. A write lays the
fields its caller sent over the record as locked; the command's other fields
came from a read made before the lock, and are never set.
-/

import SeverinoHQ.ControlPlane.Model
import SeverinoHQ.Math.Serial
import Mathlib.Logic.Function.Basic

namespace SeverinoHQ.Records

open SeverinoHQ.Math
open SeverinoHQ.ControlPlane (Moment Id)

/-! ## Records and commands -/

/-- What a record is named by: a slug or another text key, or its number. -/
inductive Key where
  | text (value : String)
  | number (value : Nat)
  deriving DecidableEq, Repr

/-- What a column of a record holds: a text, a plain value, or the records it links to. -/
inductive Value (α : Type) where
  | text (value : String)
  | plain (value : α)
  | one (record : Option Id)
  | many (records : List Id)
  deriving DecidableEq, Repr

/-- What a command says for a field: a link is said by the keys of its records. -/
inductive Said (α : Type) where
  | text (value : String)
  | plain (value : α)
  | one (key : Option Key)
  | many (keys : List Key)
  deriving DecidableEq, Repr

/-- A stored record. -/
structure Row (Field α : Type) where
  id : Id
  value : Field → Value α
  updatedAt : Moment

/-- The stored records of one domain, and the records each link may name. -/
structure Store (Field α : Type) where
  serial : Nat
  rows : List (Row Field α)
  linked : Field → List (Key × Id)

/-- What a call raises, with the sentence it says. -/
inductive Raised where
  | authorizationError (text : String)
  | recordNotFound (text : String)
  | recordConflict (text : String)
  | validationError (text : String)
  deriving DecidableEq, Repr

/-- A slug column a model fills when it is saved empty: from another column's
text, or from a fallback. -/
structure SlugColumn (Field : Type) where
  field : Field
  source : Field
  fallback : String
  maxLength : Nat
  named : fallback ≠ ""

/-- What one domain declares of its records, and what Django does with its columns. -/
structure Domain (Field α : Type) where
  /-- The command's fields, in order. -/
  fields : List Field
  lookup : Row Field α → Key
  /-- `Held`: what a write says of a record that is gone, or has changed. -/
  missing : String
  stale : String
  /-- `Link.missing`, by field. -/
  linkMissing : Field → String
  /-- What `principal.require` says against a caller, by actor. -/
  require : String → Option String
  /-- A field's own `clean`: its value in the column's type, once validated. -/
  clean : Field → Value α → Except String (Value α)
  /-- The checks of `full_clean` over the whole record. -/
  problem : Store Field α → Row Field α → Option String
  slug : Option (SlugColumn Field)
  slugify : String → String
  isoformat : Moment → String
  /-- The command's own type: `validate_command` of every field's value. -/
  validate : (Field → Said α) → Except Raised (Field → Said α)
  /-- The command's defaults, which a create starts from. -/
  defaults : Field → Said α
  /-- A model's own defaults. -/
  blank : Field → Value α

variable {Field α : Type} [DecidableEq Field]

/-- `setattr(record, name, value)`. -/
def Row.set (row : Row Field α) (field : Field) (value : Value α) : Row Field α :=
  { row with value := Function.update row.value field value }

/-- The record under a primary key. -/
def Store.row? (store : Store Field α) (id : Id) : Option (Row Field α) :=
  store.rows.find? fun row => row.id == id

/-! ## Holding a record -/

/-- `found`: the record a key names. -/
def found (domain : Domain Field α) (store : Store Field α) (key : Key) :
    Except Raised (Row Field α) :=
  match store.rows.find? fun row => domain.lookup row == key with
  | some row => .ok row
  | none => .error (.recordNotFound domain.missing)

/-- `held`: the record a key names, as the caller last read it. An empty
expectation is none. -/
def held (domain : Domain Field α) (store : Store Field α) (key : Key)
    (expectedUpdatedAt : Option String) : Except Raised (Row Field α) :=
  match found domain store key with
  | .error raised => .error raised
  | .ok row =>
      if expectedUpdatedAt.all fun text => text == "" || domain.isoformat row.updatedAt == text then
        .ok row
      else
        .error (.recordConflict domain.stale)

/-- `as_sent`: a record's value for a field, as a caller sends it. -/
def asSent (store : Store Field α) (field : Field) : Value α → Said α
  | .text value => .text value
  | .plain value => .plain value
  | .one record => .one (record.bind fun id =>
      ((store.linked field).find? fun entry => entry.2 == id).map Prod.fst)
  | .many records => .many ((store.linked field).filterMap fun entry =>
      if records.contains entry.2 then some entry.1 else none)

/-! ## A call -/

/-- One call of a save: a create, or an update of the record a key names. -/
structure Call (Field α : Type) where
  command : Field → Said α
  actor : String
  current : Option Key
  expectedUpdatedAt : Option String
  sent : Option (List Field)

/-- `written`: the fields a call sets, every one where none are said to be sent. -/
def written (domain : Domain Field α) (sent : Option (List Field)) : List Field :=
  domain.fields.filter fun field => sent.all (·.contains field)

/-- The fields of a call: a create sets every one. -/
def Call.fields (domain : Domain Field α) (call : Call Field α) : List Field :=
  written domain (if call.current.isSome then call.sent else none)

/-- `_linked_one`. -/
def linkedOne (domain : Domain Field α) (store : Store Field α) (field : Field) :
    Option Key → Except Raised (Value α)
  | none => .ok (.one none)
  | some key =>
      if key = .text "" then .ok (.one none)
      else match (store.linked field).find? fun entry => entry.1 == key with
        | some entry => .ok (.one (some entry.2))
        | none => .error (.recordNotFound (domain.linkMissing field))

/-- `_linked_set`: every record named, or a refusal. -/
def linkedSet (domain : Domain Field α) (store : Store Field α) (field : Field)
    (keys : List Key) : Except Raised (Value α) :=
  let linked := (store.linked field).filter fun entry => keys.contains entry.1
  if keys.all fun key => linked.any fun entry => entry.1 == key then
    .ok (.many (linked.map Prod.snd))
  else
    .error (.recordNotFound (domain.linkMissing field))

/-- The value a call sets for a field, its links found by the keys it names. -/
def resolved (domain : Domain Field α) (store : Store Field α) (field : Field) :
    Said α → Except Raised (Value α)
  | .text value => .ok (.text value)
  | .plain value => .ok (.plain value)
  | .one key => linkedOne domain store field key
  | .many keys => linkedSet domain store field keys

/-- The values a call sets, in the order of its fields. -/
def resolvedAll (domain : Domain Field α) (store : Store Field α) (command : Field → Said α) :
    List Field → Except Raised (List (Field × Value α))
  | [] => .ok []
  | field :: fields => do
      let value ← resolved domain store field (command field)
      let values ← resolvedAll domain store command fields
      return (field, value) :: values

/-- Whether a value is a set of links, set once the record is saved. -/
def Value.isSet : Value α → Bool
  | .many _ => true
  | _ => false

/-- A record with several of its columns set. -/
def Row.setAll (row : Row Field α) (values : List (Field × Value α)) : Row Field α :=
  values.foldl (fun row entry => row.set entry.1 entry.2) row

/-! ## Cleaning and saving -/

/-- `clean_fields`: each column takes its own type's form of what it holds. -/
def cleanFields (domain : Domain Field α) :
    List Field → Row Field α → Except Raised (Row Field α)
  | [], row => .ok row
  | field :: fields, row =>
      match domain.clean field (row.value field) with
      | .error text => .error (.validationError text)
      | .ok value => cleanFields domain fields (row.set field value)

/-- `full_clean`. -/
def fullClean (domain : Domain Field α) (store : Store Field α) (row : Row Field α) :
    Except Raised (Row Field α) := do
  let cleaned ← cleanFields domain domain.fields row
  match domain.problem store cleaned with
  | some text => .error (.validationError text)
  | none => .ok cleaned

/-- A column's text, and nothing where it holds none. -/
def Row.text (row : Row Field α) (field : Field) : String :=
  match row.value field with
  | .text value => value
  | _ => ""

/-- `text[:length].rstrip("-")`. -/
def clippedSlug (length : Nat) (text : String) : String :=
  String.ofList (((text.toList.take length).reverse.dropWhile (· == '-')).reverse)

/-- `first or second`. -/
def orText (first second : String) : String := if first = "" then second else first

/-- The first of `base-n`, `base-n+1` and so on that is not taken. Past as many as
are taken the next one is free. -/
def firstFree (taken : List String) (base : String) : Nat → Nat → String
  | 0, n => base ++ "-" ++ toString n
  | fuel + 1, n =>
      let slug := base ++ "-" ++ toString n
      if taken.contains slug then firstFree taken base fuel (n + 1) else slug

/-- `free_slug`: the first slug no other record holds. -/
def freeSlug (domain : Domain Field α) (slug : SlugColumn Field) (rows : List (Row Field α))
    (row : Row Field α) : String :=
  let base := orText
    (clippedSlug (slug.maxLength - 4) (orText (domain.slugify (row.text slug.source)) slug.fallback))
    slug.fallback
  let taken := ((rows.filter fun other => other.id != row.id).map fun other =>
    other.text slug.field).filter fun other => base.toList.isPrefixOf other.toList
  if taken.contains base then firstFree taken base taken.length 2 else base

/-- Whether a column holds the empty text. -/
def Value.isBlank : Value α → Bool
  | .text value => value == ""
  | _ => false

/-- `Model.save`, up to the write: an empty slug is filled. -/
def filled (domain : Domain Field α) (rows : List (Row Field α)) (row : Row Field α) :
    Row Field α :=
  match domain.slug with
  | none => row
  | some slug =>
      if (row.value slug.field).isBlank then
        row.set slug.field (.text (freeSlug domain slug rows row))
      else
        row

/-- The record a save starts from: a new one, or the one held under its key. -/
def Call.start (domain : Domain Field α) (call : Call Field α) (now : Moment)
    (store : Store Field α) : Except Raised (Row Field α) :=
  match call.current with
  | none => .ok ⟨store.serial, domain.blank, now⟩
  | some key => held domain store key call.expectedUpdatedAt

/-- The store with a record saved: a new row, or the row under its key replaced. -/
def Store.put (store : Store Field α) (created : Bool) (row : Row Field α) : Store Field α :=
  if created then
    { store with serial := store.serial + 1, rows := store.rows ++ [row] }
  else
    { store with rows := Table.update store.rows (fun other => other.id == row.id) fun _ => row }

/-- The record a call saves, once every check has passed. -/
def prepared (domain : Domain Field α) (now : Moment) (call : Call Field α)
    (store : Store Field α) : Except Raised (Row Field α) :=
  match domain.require call.actor with
  | some text => .error (.authorizationError text)
  | none => do
      let record ← call.start domain now store
      let values ← resolvedAll domain store call.command (call.fields domain)
      let cleaned ← fullClean domain store (record.setAll (values.filter (!·.2.isSet)))
      let stored := { filled domain store.rows cleaned with updatedAt := now }
      return stored.setAll (values.filter (·.2.isSet))

/-- `_saved`, one transaction. -/
def saved (domain : Domain Field α) (now : Moment) (call : Call Field α)
    (store : Store Field α) : Except Raised (Store Field α) :=
  (prepared domain now call store).map (store.put call.current.isNone)

/-! ## A request -/

/-- What is asked of a domain's save: the fields to change of one record, or a
call its caller built whole. -/
inductive Request (Field α : Type) where
  | change (actor : String) (current : Key) (expectedUpdatedAt : Option String)
      (payload : List (Field × Said α))
  | whole (call : Call Field α)

/-- `Kept` and `validate_command`: the record as it is now, with the fields sent
laid over it, validated as one command. -/
def prepare (domain : Domain Field α) (store : Store Field α) :
    Request Field α → Except Raised (Call Field α)
  | .change actor current expectedUpdatedAt payload => do
      let row ← found domain store current
      let command ← domain.validate fun field =>
        ((payload.find? fun entry => entry.1 == field).map Prod.snd).getD
          (asSent store field (row.value field))
      return ⟨command, actor, some current, expectedUpdatedAt, some (payload.map Prod.fst)⟩
  | .whole call => .ok call

/-- `linked_saver`: the create-or-update service of a domain. -/
def linkedSaver (domain : Domain Field α) :
    Serial.Service (Store Field α) Moment (Request Field α) (Call Field α) Raised where
  prepare := prepare domain
  transact := saved domain

end SeverinoHQ.Records
