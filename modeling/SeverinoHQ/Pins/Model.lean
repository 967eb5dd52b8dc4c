/-
# What a person keeps at the top

The pins of one person and one kind, as the table holds them: a key each and a position, read in
the order of both. The calls here are made outside any shared read, so each reads the table.
-/

import Mathlib.Data.Char
import Mathlib.Data.List.Lex
import Mathlib.Data.Prod.Lex
import SeverinoHQ.Math.Letters

namespace SeverinoHQ.Pins

open SeverinoHQ.Math Letters

/-- Texts are told apart letter by letter. -/
local instance lawful_letters : LawfulBEq (List Char) := inferInstance

abbrev Key := List Char

/-- `Pin`, of one user and one kind. -/
structure Pin where
  key : Key
  position : Int
  deriving DecidableEq, Repr

/-- What pins are ordered by: the position, then the key. -/
def Pin.rank (pin : Pin) : Int ×ₗ Key := toLex (pin.position, pin.key)

/-- The pins in the model's own order. -/
def listed (pins : List Pin) : List Pin := pins.mergeSort fun first second => first.rank ≤ second.rank

section Calls

variable (casing : Casing)

/-- `str(key).strip().lower()`. -/
def normal (key : Key) : Key := casing.lower (strip key)

/-- `ordered`: the pinned keys in the order the person put them, lowered. -/
def ordered (pins : List Pin) : List Key := (listed pins).map fun pin => casing.lower pin.key

/-- `_next_position`. -/
def nextPosition (pins : List Pin) : Int :=
  match (pins.map Pin.position).max? with
  | none => 0
  | some highest => highest + 1

/-- `toggle`: the pins after it, and whether the key is pinned. -/
def toggle (pins : List Pin) (target : Key) : List Pin × Bool :=
  let key := normal casing target
  if key = [] then (pins, false)
  else if pins.any fun pin => pin.key == key then (pins.filter fun pin => pin.key != key, false)
  else (pins ++ [⟨key, nextPosition pins⟩], true)

/-- The row of a key, the last where several have it but for the case. -/
def rowOf (rows : List Pin) (key : Key) : Option Pin :=
  rows.reverse.find? fun pin => casing.lower pin.key == key

/-- The row of a key is put at a position. -/
def place (rows : List Pin) (pins : List Pin) (placed : Key × Nat) : List Pin :=
  match rowOf casing rows placed.1 with
  | none => pins
  | some row =>
      pins.map fun pin => if pin.key = row.key then { pin with position := placed.2 } else pin

/-- `reorder`. -/
def reorder (pins : List Pin) (keys : List Key) : List Pin :=
  let known := ordered casing pins
  let wanted := (keys.map (normal casing)).filter fun key => key ∈ known
  wanted.zipIdx.foldl (place casing (listed pins)) pins

/-- `keys[i], keys[j] = keys[j], keys[i]`. -/
def exchange (keys : List Key) (i j : Nat) : List Key :=
  match keys[i]?, keys[j]? with
  | some first, some second => (keys.set i second).set j first
  | _, _ => keys

/-- `move`. -/
def move (pins : List Pin) (target : Key) (delta : Int) : List Pin :=
  if delta = -1 ∨ delta = 1 then
    let keys := ordered casing pins
    let key := normal casing target
    if key ∈ keys then
      let index := keys.idxOf key
      let swap := index + delta
      if 0 ≤ swap ∧ swap < keys.length then reorder casing pins (exchange keys index swap.toNat)
      else pins
    else pins
  else pins

/-- `replace`: what is not wanted goes, and what is new comes after the rest, by its name. -/
def replace (pins : List Pin) (keys : List Key) : List Pin :=
  let wanted := (keys.filter fun key => strip key ≠ []).map (normal casing)
  let kept := pins.filter fun pin => pin.key ∈ wanted
  let existing := ordered casing kept
  let fresh := (wanted.eraseDups.filter fun key => key ∉ existing).mergeSort fun first second =>
    first ≤ second
  kept ++ fresh.zipIdx.map fun placed => ⟨placed.1, nextPosition kept + placed.2⟩

/-- A call of one of the three capabilities, for a kind there is. -/
inductive Command where
  | pin (key : Key)
  | move (key : Key) (up : Bool)
  | choose (keys : List Key)
  deriving DecidableEq, Repr

/-- `pin`, `move_pin` and `choose`. A blank key is refused. -/
def step (pins : List Pin) : Command → List Pin
  | .pin key => if strip key = [] then pins else (toggle casing pins key).1
  | .move key up => if strip key = [] then pins else move casing pins key (if up then -1 else 1)
  | .choose keys => replace casing pins keys

end Calls

end SeverinoHQ.Pins
