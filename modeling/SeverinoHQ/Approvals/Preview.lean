/-
# What a person is shown before they approve

A request to change a declaration is shown as what it changes: each value whose words move,
and a line diff of text that runs over lines. What moves and reads the same is not shown.
-/

import SeverinoHQ.Approvals.PayloadWords
import Mathlib.Data.List.Dedup
import Mathlib.Data.List.Sort

namespace SeverinoHQ.Approvals

open SeverinoHQ.Math
open SeverinoHQ.Math.Document (Step Differs)

/-- `difflib.unified_diff`, of lines and the two names they stand under: no line where they
are the same. -/
structure Differ where
  unifiedDiff : List String → List String → String → String → List String
  unifiedDiff_eq_nil : ∀ before after fromfile tofile,
    unifiedDiff before after fromfile tofile = [] ↔ before = after

variable {ν τ : Type} (wording : Wording ν τ) (differ : Differ)

/-- A dictionary's members. -/
abbrev Members (ν : Type) := List (String × Document ν)

/-! ## The comparison -/

/-- Python's `str.splitlines`, where one line ends. -/
def endsLine (letter : Char) : Bool :=
  [0x0A, 0x0B, 0x0C, 0x0D, 0x1C, 0x1D, 0x1E, 0x85, 0x2028, 0x2029].contains letter.toNat

/-- Python's `str.splitlines`, behind the letters of a line so far. -/
def linesFrom (line : List Char) : List Char → List (List Char)
  | [] => if line = [] then [] else [line.reverse]
  | '\r' :: '\n' :: rest => line.reverse :: linesFrom [] rest
  | letter :: rest =>
      if endsLine letter then line.reverse :: linesFrom [] rest else linesFrom (letter :: line) rest

/-- `text.splitlines()`. -/
def splitlines (text : String) : List String := (linesFrom [] text.toList).map String.ofList

/-- The comparison a decision is taken on. -/
structure ChangePreview where
  label : String
  rows : List ChangeRow
  lines : List String
  amends : Bool
  deriving DecidableEq, Repr

/-- `ChangePreview.empty`. -/
def ChangePreview.empty (preview : ChangePreview) : Bool :=
  preview.rows.isEmpty && preview.lines.isEmpty

/-- A field's text, where it is not a document: `""` where there is no field. -/
def fieldText (members : Members ν) (field : String) : Option String :=
  match document wording ((members.lookup field).getD (.str "")) with
  | .str text => some text
  | _ => none

/-- Whether a field stayed unparsed text on both sides, differs, and runs over lines. -/
def isTextField (before after : Members ν) (field : String) : Bool :=
  match fieldText wording before field, fieldText wording after field with
  | some was, some now => was ≠ now && '\n' ∈ was.toList ++ now.toList
  | _, _ => false

/-- `_text_fields`. -/
def textFields (before after : Members ν) : List String :=
  (((before.map Prod.fst ++ after.map Prod.fst).dedup).filter
    (isTextField wording before after)).insertionSort (· ≤ ·)

/-- The members a line diff does not tell. -/
def structural (text : List String) (members : Members ν) : Members ν :=
  members.filter fun member => member.1 ∉ text

/-- The line diff of one field. -/
def fieldLines (before after : Members ν) (field : String) : List String :=
  let textOf (members : Members ν) := (fieldText wording members field).getD ""
  differ.unifiedDiff (splitlines (textOf before)) (splitlines (textOf after))
    (field ++ " (now)") (field ++ " (requested)")

/-- `compare`: the values that differ between two specs, each named and said in words, and a
line diff where a document will not parse. -/
def compare (before after : Members ν) (label : String) (amends : Bool) : ChangePreview :=
  let text := textFields wording before after
  { label
    rows := changedWords wording (.obj (structural text before)) (.obj (structural text after)) []
    lines := text.flatMap (fieldLines wording differ before after)
    amends }

/-! ## The preview of a declaration -/

/-- A request about a declaration, as `preview` reads it, with whether its capability is of
the lifecycle. -/
structure HeldDeclaration (ν : Type) where
  capability : String
  lifecycle : Bool
  payload : Members ν
  baseline : Members ν

/-- `dict(held.baseline.get(name) or {})`. -/
def HeldDeclaration.base (held : HeldDeclaration ν) (name : String) : Members ν :=
  match held.baseline.lookup name with
  | some (.obj members) => members
  | _ => []

/-- `preview`, of a request about a declaration. -/
def preview (held : HeldDeclaration ν) : ChangePreview :=
  let declared := held.base "spec"
  match held.payload.lookup "spec" with
  | some (.obj requested) => compare wording differ declared requested "Would change" true
  | _ =>
      if ".remove".toList.isSuffixOf held.capability.toList then
        compare wording differ declared [] "Would be removed" false
      else if held.lifecycle then ⟨"", [], [], false⟩
      else
        match held.base "observed" with
        | [] => compare wording differ [] declared "Would be applied" false
        | live => compare wording differ live declared "The live record would change" false

/-! ## What is not shown -/

variable {wording differ}

/-- A field is text before and after, none of it a document, it differs, and it runs over lines. -/
def RunsOver (wording : Wording ν τ) (before after : Members ν) (field was now : String) : Prop :=
  fieldText wording before field = some was ∧ fieldText wording after field = some now ∧
    was ≠ now ∧ ('\n' ∈ was.toList ∨ '\n' ∈ now.toList)

/-- Two specs read alike to the one who approves. A field that runs over lines has the same lines in
both, whatever ends them, and every other has the same words at every place inside it. -/
structure ShownAlike (wording : Wording ν τ) (before after : Members ν) : Prop where
  words : ∀ field, (∀ was now, ¬RunsOver wording before after field was now) → ∀ place,
    wordsAt wording (.obj before) (.key field :: place) =
      wordsAt wording (.obj after) (.key field :: place)
  lines : ∀ field was now, RunsOver wording before after field was now →
    splitlines was = splitlines now

section Compare

variable {before after : Members ν}

/-- A field that is in neither spec is no text that differs. -/
theorem mem_textFields {field : String} :
    field ∈ textFields wording before after ↔ ∃ was now, RunsOver wording before after field was now := by
  have hlookup : ∀ members : Members ν, field ∉ members.map Prod.fst → members.lookup field = none :=
    fun members => Dict.lookup_eq_none_iff_not_mem.mpr
  have htext : isTextField wording before after field = true ↔
      ∃ was now, RunsOver wording before after field was now := by
    unfold isTextField RunsOver
    cases fieldText wording before field with
    | none => simp
    | some was =>
        cases fieldText wording after field with
        | none => simp
        | some now => simp
  have hthere : isTextField wording before after field = true →
      field ∈ before.map Prod.fst ++ after.map Prod.fst := by
    intro hfield
    by_contra hnot
    rw [List.mem_append, not_or] at hnot
    have hempty : document wording (.str "") = .str "" := rfl
    simp [isTextField, fieldText, hlookup before hnot.1, hlookup after hnot.2, hempty] at hfield
  rw [textFields, List.mem_insertionSort, List.mem_filter, List.mem_dedup, ← htext]
  exact and_iff_right_of_imp hthere

theorem leafAt_structural (text : List String) (members : Members ν) (field : String) (place : Path) :
    leafAt wording (.obj (structural text members)) (.key field :: place) =
      if field ∈ text then none else leafAt wording (.obj members) (.key field :: place) := by
  rw [leafAt_obj, leafAt_obj, structural, ← List.filter_reverse]
  induction members.reverse with
  | nil => simp
  | cons member members ih =>
      rw [List.filter_cons]
      by_cases hmember : member.1 = field
      · by_cases hfield : field ∈ text
        · simpa [hmember, hfield] using ih
        · simp only [hfield, if_false, decide_not] at ih
          simp [hmember, hfield, List.findSome?_cons, ih]
      · by_cases hkept : member.1 ∈ text
        · simpa [hmember, hkept, List.findSome?_cons] using ih
        · simpa [hmember, hkept, List.findSome?_cons] using ih

/-- A record has words of its own nowhere but in its members. -/
theorem wordsAt_record (members : Members ν) (place : Path)
    (hplace : ∀ field rest, place ≠ .key field :: rest) : wordsAt wording (.obj members) place = "" := by
  match place, hplace with
  | [], _ =>
      cases members with
      | nil => simp [wordsAt, leafAt, document, valueWords, recordWords]
      | cons member members => simp [wordsAt, leafAt, document]
  | .entry index :: rest, _ => simp [wordsAt, leafAt, document]
  | .key field :: rest, h => exact (h field rest rfl).elim

theorem wordsAt_structural (text : List String) :
    (∀ place, wordsAt wording (.obj (structural text before)) place =
        wordsAt wording (.obj (structural text after)) place) ↔
      ∀ field ∉ text, ∀ place, wordsAt wording (.obj before) (.key field :: place) =
        wordsAt wording (.obj after) (.key field :: place) := by
  have hfield : ∀ (members : Members ν) field place, wordsAt wording (.obj (structural text members))
      (.key field :: place) =
        if field ∈ text then "" else wordsAt wording (.obj members) (.key field :: place) := by
    intro members field place
    rw [wordsAt, leafAt_structural]
    split <;> rfl
  constructor
  · intro h field hfree place
    have hsame := h (.key field :: place)
    rwa [hfield, hfield, if_neg hfree, if_neg hfree] at hsame
  · intro h place
    cases place with
    | nil => rw [wordsAt_record _ _ (by simp), wordsAt_record _ _ (by simp)]
    | cons step place =>
        cases step with
        | key field =>
            rw [hfield, hfield]
            split
            · rfl
            · next hfree => exact h field hfree place
        | entry => rw [wordsAt_record _ _ (by simp), wordsAt_record _ _ (by simp)]

/-- A comparison is empty exactly where the two specs read alike. -/
theorem compare_empty_iff {label : String} {amends : Bool} :
    (compare wording differ before after label amends).empty = true ↔
      ShownAlike wording before after := by
  have hlines : ∀ field, fieldLines wording differ before after field = [] ↔
      splitlines ((fieldText wording before field).getD "") =
        splitlines ((fieldText wording after field).getD "") :=
    fun field => differ.unifiedDiff_eq_nil _ _ _ _
  simp only [ChangePreview.empty, compare, Bool.and_eq_true, List.isEmpty_iff,
    changedWords_eq_nil, List.flatMap_eq_nil_iff, hlines, wordsAt_structural, mem_textFields]
  constructor
  · rintro ⟨hwords, hlines⟩
    refine ⟨fun field hfree => hwords field (by simpa using hfree), fun field was now hruns => ?_⟩
    have hsame := hlines field ⟨was, now, hruns⟩
    rwa [hruns.1, hruns.2.1] at hsame
  · rintro ⟨hwords, hlines⟩
    refine ⟨fun field hfree => hwords field (by simpa using hfree), ?_⟩
    rintro field ⟨was, now, hruns⟩
    rw [hruns.1, hruns.2.1]
    exact hlines field was now hruns

end Compare

/-- The words of plain text and whole numbers, none of it a document or a moment. -/
def plainWording : Wording Int Unit where
  number value := toString value
  upper := String.toUpper
  lower := String.toLower
  isUpper text := text ≠ "" && text.toList.all Char.isUpper
  isIdentifier text := text ≠ "" && text.toList.all fun letter => letter.isAlphanum || letter = '_'
  isDecimal := Char.isDigit
  loads _ := none
  weight_le_of_loads := nofun
  fromisoformat _ := none
  isFirstDay _ := false
  inUtc := id
  whenDay _ := ""
  when _ := ""

/-- A line diff that keeps no line in common. -/
def plainDiffer : Differ where
  unifiedDiff before after fromfile tofile :=
    if before = after then []
    else ["--- " ++ fromfile, "+++ " ++ tofile] ++ before.map ("-" ++ ·) ++ after.map ("+" ++ ·)
  unifiedDiff_eq_nil before after fromfile tofile := by
    by_cases h : before = after <;> simp [h]

/-- A declaration that is asked to be proxied, or not to be. -/
def heldProxied (requested : Document Int) : HeldDeclaration Int where
  capability := "infrastructure.resource.update"
  lifecycle := false
  payload := [("spec", .obj [("proxied", requested)])]
  baseline := [("spec", .obj [("proxied", .bool true)])]

/-- What a declaration of one flag, or one word, says of it. -/
theorem wordsAt_proxied {value : Document Int} (hscalar : scalar value = true)
    (hdocument : document plainWording value = value) (field : String) (place : Path) :
    wordsAt plainWording (.obj [("proxied", value)]) (.key field :: place) =
      if field = "proxied" ∧ place = [] then valueWords plainWording value none else "" := by
  have hleaf : leafAt plainWording value place = if place = [] then some value else none := by
    cases place with
    | nil =>
        rw [leafAt, hdocument, if_pos rfl]
        cases value with
        | arr items | obj members => cases hscalar
        | null | bool value | num value | str value => rfl
    | cons step place =>
        rw [if_neg (List.cons_ne_nil _ _)]
        unfold leafAt
        rw [hdocument]
        cases value with
        | arr items | obj members => cases hscalar
        | null | bool value | num value | str value => rfl
  rw [wordsAt, leafAt_obj, List.reverse_singleton]
  by_cases hfield : field = "proxied"
  · by_cases hplace : place = []
    · subst hplace
      rw [if_pos rfl] at hleaf
      simp [hleaf, hfield]
    · rw [if_neg hplace] at hleaf
      simp [hleaf, hfield, hplace]
  · simp [Ne.symm hfield, hfield]

end SeverinoHQ.Approvals
