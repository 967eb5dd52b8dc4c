/-
# The pin in a compose override

The override is edited line by line, in block style only: the service's image is
replaced where it names one, and added, with the service or the services above it,
where it does not. Every other line is kept as it is.
-/

import SeverinoHQ.Math.Bytes

namespace SeverinoHQ.Host

open SeverinoHQ.Math
open SeverinoHQ.Math.Bytes (ascii cutPrefix splitSeq)

/-- `indent`. -/
def indent (line : Bytes) : Nat := (line.takeWhile (· == 32)).length

/-- `blank`: an empty line, spaces only, or a comment. -/
def blank (line : Bytes) : Bool :=
  match line.dropWhile (· == 32) with
  | [] => true
  | byte :: _ => byte == 35

/-- A text without one double quote it begins with. -/
def unquoted : Bytes → Bytes
  | 34 :: rest => rest
  | text => text

/-- `key`: what follows `name:` when a line names that key, quoted or not. -/
def key (line name : Bytes) : Option Bytes :=
  (cutPrefix (unquoted (line.dropWhile (· == 32))) name).bind fun rest =>
    cutPrefix (unquoted rest) (ascii ":")

/-- `names`. -/
def namesKey (line name : Bytes) : Bool := (key line name).isSome

/-- `bare`: a key with no value on its line, so its children follow. -/
def bare (line name : Bytes) : Bool :=
  match key line name with
  | some rest => blank rest
  | none => false

/-- How far the edit has come. -/
structure Pinner where
  service : Bytes
  image : Bytes
  done : Bool
  inServices : Bool
  inService : Bool
  serviceWidth : Nat
  childWidth : Nat
  out : Bytes
  deriving DecidableEq, Repr

namespace Pinner

/-- `print`. -/
def print (pinner : Pinner) (line : Bytes) : Pinner :=
  { pinner with out := pinner.out ++ line ++ [10] }

/-- `emitImage`. -/
def emitImage (pinner : Pinner) (width : Nat) : Pinner :=
  { pinner.print (List.replicate width 32 ++ ascii "image: " ++ pinner.image) with done := true }

/-- `emitService`. -/
def emitService (pinner : Pinner) (width : Nat) : Pinner :=
  (pinner.print (List.replicate width 32 ++ [34] ++ pinner.service ++ [34] ++ ascii ":")).emitImage
    (width * 2)

/-- `widthOr`. -/
def widthOr (width fallback : Nat) : Nat := if width ≠ 0 then width else fallback

/-- A line among the children of the service, once their indentation is known. -/
def child (pinner : Pinner) (line : Bytes) (width : Nat) : Pinner :=
  if width < pinner.childWidth then (pinner.emitImage pinner.childWidth).print line
  else if width = pinner.childWidth ∧ (ascii "image:").isPrefixOf (line.drop width) then
    pinner.emitImage pinner.childWidth
  else pinner.print line

/-- A line below `services:`, indented. -/
def below (pinner : Pinner) (line : Bytes) (width : Nat) : Option Pinner :=
  if !pinner.inService then
    if width = pinner.serviceWidth ∧ namesKey line pinner.service then
      if bare line pinner.service then some ({ pinner with inService := true }.print line) else none
    else some (pinner.print line)
  else if pinner.childWidth = 0 then
    if width ≤ pinner.serviceWidth then
      some ((pinner.emitImage (pinner.serviceWidth * 2)).print line)
    else some ({ pinner with childWidth := width }.child line width)
  else some (pinner.child line width)

/-- `line`: one line of the override; nothing refuses the whole document. -/
def line (pinner : Pinner) (line : Bytes) : Option Pinner :=
  if pinner.done || blank line then some (pinner.print line)
  else if !pinner.inServices then
    if (ascii "\x7b").isPrefixOf (line.drop (indent line)) ∨
        (ascii "[").isPrefixOf (line.drop (indent line)) then none
    else if indent line = 0 ∧ namesKey line (ascii "services") then
      if bare line (ascii "services") then some ({ pinner with inServices := true }.print line)
      else none
    else some (pinner.print line)
  else if indent line = 0 then
    if pinner.inService then
      some ((pinner.emitImage (widthOr pinner.childWidth (pinner.serviceWidth * 2))).print line)
    else some ((pinner.emitService (widthOr pinner.serviceWidth 2)).print line)
  else if pinner.serviceWidth = 0 then
    { pinner with serviceWidth := indent line }.below line (indent line)
  else pinner.below line (indent line)

/-- `end`. -/
def finished (pinner : Pinner) : Pinner :=
  if pinner.done then pinner
  else if !pinner.inServices then (pinner.print (ascii "services:")).emitService 2
  else if !pinner.inService then pinner.emitService (widthOr pinner.serviceWidth 2)
  else pinner.emitImage (widthOr pinner.childWidth (pinner.serviceWidth * 2))

end Pinner

/-- `pin`: the override with the service's image set, or nothing where it has no
line this can add to. -/
def pin (override service image : Bytes) : Option Bytes :=
  let split := splitSeq [10] override
  let lines := if [10].isSuffixOf override ∨ override = [] then split.dropLast else split
  let start : Pinner := ⟨service, image, false, false, false, 0, 0, []⟩
  (lines.foldlM Pinner.line start).map fun pinner => pinner.finished.out

end SeverinoHQ.Host
