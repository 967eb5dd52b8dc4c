/-
# What a save leaves in the audit log

An instance is held as it was read, and a save is told by what moved since: each field whose
value no longer equals the one held, as the log shows values, and of a record or a list what
moved in it, in words. A save that moved nothing that way leaves no row.
-/

import SeverinoHQ.Approvals.Preview
import SeverinoHQ.Math.Run

namespace SeverinoHQ.Audit.Changes

open SeverinoHQ.Math
open SeverinoHQ.Approvals (Wording wordsAt changedWords changedWords_eq_nil upTo)

/-! ## Values -/

/-- A field's value: plain JSON, or any other of Python's. -/
inductive FieldValue (ν σ : Type) where
  | json (value : Document ν)
  | other (value : σ)

/-- What a receiver takes from Python: `str` of a value, whether its exact type is one of
`_IMMUTABLE`, the JSON copy of a record or a list that is not plain JSON itself (a record or a list
again), and `==` of numbers, a flag among them. -/
structure Values (ν σ : Type) where
  text : σ → String
  immutable : σ → Bool
  copied : σ → Option (Document ν)
  scalar_copied : ∀ {value : σ} {document : Document ν}, copied value = some document →
    Approvals.scalar document = false
  equal : ν → ν → Bool
  flag : Bool → ν

/-- `VALUE_CHARS`. -/
def valueChars : Nat := 200

variable {ν σ τ : Type} (values : Values ν σ) (wording : Wording ν τ)

mutual

/-- Python's `==` of two JSON values. -/
def same : Document ν → Document ν → Bool
  | .null, .null => true
  | .bool first, .bool second => first == second
  | .bool first, .num second => values.equal (values.flag first) second
  | .num first, .bool second => values.equal first (values.flag second)
  | .num first, .num second => values.equal first second
  | .str first, .str second => first == second
  | .arr first, .arr second => sameItems first second
  | .obj first, .obj second => first.length == second.length && sameMembers first second
  | _, _ => false

def sameItems : List (Document ν) → List (Document ν) → Bool
  | [], [] => true
  | first :: firsts, second :: seconds => same first second && sameItems firsts seconds
  | _, _ => false

/-- Each member is one of the others, and equal. -/
def sameMembers : List (String × Document ν) → List (String × Document ν) → Bool
  | [], _ => true
  | (name, first) :: firsts, seconds =>
      (match seconds.lookup name with
        | some second => same first second
        | none => false) && sameMembers firsts seconds

end

/-- `_readable`: a value as the diff compares it. -/
def readable : FieldValue ν σ → Document ν
  | .json (.str text) => .str (upTo valueChars text)
  | .json value => value
  | .other value => (values.copied value).getD (.str (upTo valueChars (values.text value)))

/-- A value that cannot change in place. -/
def isImmutable : FieldValue ν σ → Bool
  | .json value => Approvals.scalar value
  | .other value => values.immutable value

/-- `_capture`, of one value. -/
def captured (value : FieldValue ν σ) : FieldValue ν σ :=
  if isImmutable values value then value else .json (readable values value)

/-! ## The diff -/

/-- `_cut`. -/
def cut (words : String) : String :=
  if words.length ≤ valueChars then words else upTo (valueChars - 1) words ++ "…"

/-- A field that moved: withheld, or the words of each value in it that moved, or the two
values. -/
inductive Moved (ν : Type) where
  | redacted
  | inner (rows : List (String × String × String))
  | pair (before after : Document ν)

/-- `_inner_changes`. -/
def innerChanges (before after : Document ν) : List (String × String × String) :=
  Dict.collect ((changedWords wording before after []).map fun row =>
    (row.label, cut row.before, cut row.after))

/-- `isinstance(value, (dict, list))`. -/
def isContainer (value : Document ν) : Bool := !Approvals.scalar value

/-- `_changes`, of one field. -/
def change (before : List (String × Document ν)) (secret : List String) (name : String)
    (new : Document ν) : Option (String × Moved ν) :=
  match before.lookup name with
  | none => none
  | some old =>
      if same values old new then none
      else if name ∈ secret then some (name, .redacted)
      else if isContainer old ∨ isContainer new then
        match innerChanges wording old new with
        | [] => none
        | inner => some (name, .inner inner)
      else some (name, .pair old new)

/-- `_changes`: which fields moved, and what they moved between. -/
def changes (before : Option (List (String × Document ν))) (after : List (String × Document ν))
    (secret : List String) : List (String × Moved ν) :=
  match before with
  | none => []
  | some before => after.filterMap fun field => change values wording before secret field.1 field.2

/-! ## The receivers -/

/-- A model that is registered: its fields in order, each with whether it is `auto_now`, the
names whose values never reach the log, for all its rows and for one, and those that only
record HQ looking. -/
structure Registered (ν σ : Type) where
  fields : List (String × Bool)
  redact : List String
  redactFor : List (String × FieldValue ν σ) → List String
  looked : List String

/-- `_tracked`. -/
def Registered.tracked (model : Registered ν σ) : List String :=
  (model.fields.filter fun field => !field.2).map Prod.fst

/-- What an audit row says was done. -/
inductive Action where
  | created
  | updated
  deriving DecidableEq, Repr

/-- An audit row, as far as the receivers write it. -/
structure Entry (ν : Type) where
  action : Action
  changes : List (String × Moved ν)

/-- An instance: its loaded fields, what it is held as, the values its row holds as far as it
was read or saved, and the rows it left. -/
structure Life (ν σ : Type) where
  loaded : List (String × FieldValue ν σ)
  snapshot : Option (List (String × FieldValue ν σ))
  known : List (String × FieldValue ν σ)
  trail : List (Entry ν)

/-- What happens to an instance. -/
inductive Event (ν σ : Type) where
  /-- A field is read: one that was deferred, or one that is refreshed. -/
  | read (name : String) (value : FieldValue ν σ)
  /-- A field is set, or its value changes in place. -/
  | assign (name : String) (value : FieldValue ν σ)
  /-- The instance is saved, and some of its fields are written. -/
  | save (created : Bool) (written : List String)

variable (model : Registered ν σ)

/-- The loaded ones of the tracked fields. -/
def tracking (loaded : List (String × FieldValue ν σ)) : List (String × FieldValue ν σ) :=
  model.tracked.filterMap fun name => (loaded.lookup name).map (Prod.mk name)

/-- `_snapshot` and `_shown`: fields, as the log shows them. -/
def shown (fields : List (String × FieldValue ν σ)) : List (String × Document ν) :=
  fields.map fun field => (field.1, readable values field.2)

/-- `instance._audit_snapshot = _capture(instance, names)`. -/
def arm (life : Life ν σ) : Life ν σ :=
  let held := (tracking model life.loaded).map fun field => (field.1, captured values field.2)
  { life with snapshot := some held }

/-- What moved since the instance was held. -/
def moved (life : Life ν σ) : List (String × Moved ν) :=
  changes values wording (life.snapshot.map (shown values))
    (shown values (tracking model life.loaded)) (model.redact ++ model.redactFor life.loaded)

/-- `_on_save`. -/
def onSave (created : Bool) (life : Life ν σ) : Life ν σ :=
  let changed := if created then [] else moved values wording model life
  if model.looked ≠ [] ∧ changed ≠ [] ∧ ∀ name ∈ changed.map Prod.fst, name ∈ model.looked then
    arm values model life
  else if created = false ∧ changed = [] then life
  else
    arm values model { life with
      trail := life.trail ++ [⟨if created then .created else .updated, changed⟩] }

/-- The row an instance is read from or saved to, once some fields of it are written. -/
def write (written : List String) (life : Life ν σ) : Life ν σ :=
  let stored := life.loaded.filter fun field => field.1 ∈ written
  { life with
    known := stored.foldl (fun known field => Dict.assign field.1 field.2 known) life.known }

/-- `_on_init`, of an instance that is read with some of its fields. -/
def begin (loaded : List (String × FieldValue ν σ)) : Life ν σ :=
  arm values model ⟨loaded, none, loaded, []⟩

/-- One event of an instance's life. -/
def step (life : Life ν σ) : Event ν σ → Life ν σ
  | .read name value => { life with
      loaded := Dict.assign name value life.loaded
      known := Dict.assign name value life.known }
  | .assign name value => { life with loaded := Dict.assign name value life.loaded }
  | .save created written => onSave values wording model created (write written life)

/-! ## What a save tells -/

/-- A save leaves one row more, and it names a field. -/
def Names (before after : Life ν σ) (name : String) : Prop :=
  ∃ entry, after.trail = before.trail ++ [entry] ∧ name ∈ entry.changes.map Prod.fst

/-- Every tracked field that differs from what its row is known to hold, and does not only
record HQ looking, meets a condition. -/
def EachMoved (life : Life ν σ) (holds : String → Prop) : Prop :=
  ∀ name ∈ model.tracked, name ∉ model.looked → ∀ last now,
    life.known.lookup name = some last → life.loaded.lookup name = some now → last ≠ now →
      holds name

/-- What a field holds, whole: text, which is that of any value but a flag, a number, nothing, a
record or a list, or one of these. -/
inductive Whole (ν : Type) where
  | text (letters : String)
  | document (value : Document ν)

def FieldValue.whole : FieldValue ν σ → Whole ν
  | .json (.str text) => .text text
  | .json value => .document value
  | .other value =>
      match values.copied value with
      | some document => .document document
      | none => .text (values.text value)

/-- Two values differ where the log looks: two texts among their first letters, and two documents
under `==`. -/
def DifferInSight : Whole ν → Whole ν → Prop
  | .text last, .text now => ∃ place < valueChars, last.toList[place]? ≠ now.toList[place]?
  | .document last, .document now => same values last now = false
  | _, _ => True

/-- Where one of two values is a record or a list, they have other words at some place in them, a
text as far as its first letters. -/
def ReadApart : Whole ν → Whole ν → Prop
  | .text _, .text _ => True
  | .document last, .document now =>
      isContainer last ∨ isContainer now → ∃ place, wordsAt wording last place ≠ wordsAt wording now place
  | .text last, .document now => isContainer now →
      ∃ place, wordsAt wording (.str (upTo valueChars last)) place ≠ wordsAt wording now place
  | .document last, .text now => isContainer last →
      ∃ place, wordsAt wording last place ≠ wordsAt wording (.str (upTo valueChars now)) place

/-- The diff sees a field: the instance is held with it, the two values differ where the log looks,
and read apart where the log may show them. -/
def Noticed (life : Life ν σ) (name : String) : Prop :=
  ∃ held now, (life.snapshot.getD []).lookup name = some held ∧
    life.loaded.lookup name = some now ∧
    DifferInSight values (held.whole values) (now.whole values) ∧
    (name ∈ model.redact ++ model.redactFor life.loaded ∨
      ReadApart wording (held.whole values) (now.whole values))

variable {values wording model}

theorem lookup_shown (fields : List (String × FieldValue ν σ)) (name : String) :
    (shown values fields).lookup name = (fields.lookup name).map (readable values) := by
  induction fields with
  | nil => rfl
  | cons field fields ih =>
      obtain ⟨other, value⟩ := field
      by_cases hname : name = other
      · subst hname
        simp [shown]
      · rw [Dict.lookup_cons_of_ne value fields hname, ← ih]
        exact Dict.lookup_cons_of_ne _ _ hname

theorem innerChanges_eq_nil {before after : Document ν} :
    innerChanges wording before after = [] ↔
      ∀ place, wordsAt wording before place = wordsAt wording after place := by
  rw [innerChanges, Dict.collect_eq_nil, List.map_eq_nil_iff, changedWords_eq_nil]

/-- So many first letters of two texts are the same exactly where each of them is. -/
theorem upTo_eq_iff {count : Nat} {first second : String} :
    upTo count first = upTo count second ↔
      ∀ place < count, first.toList[place]? = second.toList[place]? := by
  have htake : upTo count first = upTo count second ↔
      first.toList.take count = second.toList.take count :=
    ⟨fun h => String.ofList_injective h, congrArg String.ofList⟩
  rw [htake]
  constructor
  · intro h place hplace
    rw [← List.getElem?_take_of_lt hplace, h, List.getElem?_take_of_lt hplace]
  · intro h
    ext1 place
    rw [List.getElem?_take, List.getElem?_take]
    split
    · next hplace => exact h place hplace
    · rfl

/-- The log shows the first letters of a text, and a document as it is. -/
theorem readable_eq (value : FieldValue ν σ) :
    readable values value = match value.whole values with
      | .text letters => .str (upTo valueChars letters)
      | .document document => document := by
  cases value with
  | json document => cases document <;> rfl
  | other value =>
      rw [readable, FieldValue.whole]
      cases values.copied value <;> rfl

/-- A document that is shown is no text. -/
theorem ne_str_of_whole {value : FieldValue ν σ} {document : Document ν}
    (h : value.whole values = .document document) (letters : String) : document ≠ .str letters := by
  rintro rfl
  cases value with
  | json document => cases document <;> cases h
  | other value =>
      rw [FieldValue.whole] at h
      cases hcopied : values.copied value with
      | none => simp [hcopied] at h
      | some copied =>
          have hscalar := values.scalar_copied hcopied
          simp only [hcopied, Whole.document.injEq] at h
          subst h
          cases hscalar

/-- No text equals a document. -/
theorem same_text {document : Document ν} (hdocument : ∀ letters, document ≠ .str letters)
    (letters : String) :
    same values (.str letters) document = false ∧ same values document (.str letters) = false := by
  cases document with
  | str other => exact (hdocument other rfl).elim
  | null | bool | num | arr | obj => exact ⟨rfl, rfl⟩

theorem same_readable {last now : FieldValue ν σ} :
    same values (readable values last) (readable values now) = false ↔
      DifferInSight values (last.whole values) (now.whole values) := by
  rw [readable_eq, readable_eq]
  cases hlast : last.whole values with
  | text letters =>
      cases hnow : now.whole values with
      | text others =>
          show (upTo valueChars letters == upTo valueChars others) = false ↔ _
          rw [beq_eq_false_iff_ne, ne_eq, upTo_eq_iff, not_forall]
          simp only [not_forall, exists_prop]
          rfl
      | document now => exact iff_of_true (same_text (ne_str_of_whole hnow) _).1 trivial
  | document last =>
      cases hnow : now.whole values with
      | text others => exact iff_of_true (same_text (ne_str_of_whole hlast) _).2 trivial
      | document now => exact Iff.rfl

theorem readApart_iff {last now : FieldValue ν σ} :
    ((isContainer (readable values last) = false ∧ isContainer (readable values now) = false) ∨
      ∃ place, wordsAt wording (readable values last) place ≠
        wordsAt wording (readable values now) place) ↔
      ReadApart wording (last.whole values) (now.whole values) := by
  have htext : ∀ letters : String, isContainer (.str letters : Document ν) = false := fun _ => rfl
  rw [readable_eq, readable_eq]
  cases last.whole values with
  | text letters =>
      cases now.whole values with
      | text others => simp [ReadApart, htext]
      | document now => cases hnow : isContainer now <;> simp [ReadApart, htext, hnow]
  | document last =>
      cases now.whole values with
      | text others => cases hlast : isContainer last <;> simp [ReadApart, htext, hlast]
      | document now =>
          cases hlast : isContainer last <;> cases hnow : isContainer now <;>
            simp [ReadApart, hlast, hnow]

/-- A field is told of exactly where it was held, is not equal, and is not read alike. -/
theorem change_isSome {before : List (String × Document ν)} {secret : List String} {name : String}
    {new : Document ν} :
    (∃ told, change values wording before secret name new = some (name, told)) ↔
      ∃ old, before.lookup name = some old ∧ same values old new = false ∧
        (name ∈ secret ∨ (isContainer old = false ∧ isContainer new = false) ∨
          ∃ place, wordsAt wording old place ≠ wordsAt wording new place) := by
  unfold change
  cases before.lookup name with
  | none => simp
  | some old =>
      simp only [Option.some.injEq, exists_eq_left']
      by_cases hsame : same values old new = true
      · simp [hsame]
      · by_cases hsecret : name ∈ secret
        · simp [hsame, hsecret]
        · by_cases hcontainer : isContainer old ∨ isContainer new
          · have hnot : ¬(isContainer old = false ∧ isContainer new = false) := by
              intro hplain
              simp [hplain] at hcontainer
            rw [if_neg hsame, if_neg hsecret, if_pos hcontainer, ← not_forall, ← innerChanges_eq_nil]
            cases innerChanges wording old new with
            | nil => simp [hsecret, hnot]
            | cons row rows => simp [hsame]
          · have hplain : isContainer old = false ∧ isContainer new = false := by
              simpa [not_or] using hcontainer
            simp [hsame, hsecret, hplain]

theorem fst_of_change {before : List (String × Document ν)} {secret : List String} {name : String}
    {new : Document ν} {told : String × Moved ν}
    (h : change values wording before secret name new = some told) : told.1 = name := by
  unfold change at h
  split at h
  · cases h
  · split_ifs at h
    · cases h
      rfl
    · split at h
      · cases h
      · cases h
        rfl
    · cases h
      rfl

/-- One that is held as nothing moved nowhere. -/
theorem moved_eq (life : Life ν σ) :
    moved values wording model life = (shown values (tracking model life.loaded)).filterMap
      fun field => change values wording (shown values (life.snapshot.getD []))
        (model.redact ++ model.redactFor life.loaded) field.1 field.2 := by
  unfold moved
  cases life.snapshot with
  | none =>
      refine (List.filterMap_eq_nil_iff.mpr fun field _ => ?_).symm
      simp [change, shown]
  | some held => rfl

/-- The diff names a field exactly where it notices it. -/
theorem mem_moved {life : Life ν σ} {name : String} (hname : name ∈ model.tracked) :
    name ∈ (moved values wording model life).map Prod.fst ↔
      Noticed values wording model life name := by
  have hafter : ∀ new, (name, new) ∈ shown values (tracking model life.loaded) ↔
      ∃ now, life.loaded.lookup name = some now ∧ readable values now = new := by
    intro new
    simp [shown, tracking, hname]
  have htold : name ∈ (moved values wording model life).map Prod.fst ↔
      ∃ now, life.loaded.lookup name = some now ∧ ∃ told,
        change values wording (shown values (life.snapshot.getD []))
          (model.redact ++ model.redactFor life.loaded) name (readable values now) =
            some (name, told) := by
    rw [moved_eq, List.mem_map]
    constructor
    · rintro ⟨told, htold, rfl⟩
      obtain ⟨field, hfield, hchange⟩ := List.mem_filterMap.mp htold
      obtain ⟨other, new⟩ := field
      obtain rfl : told.1 = other := fst_of_change hchange
      obtain ⟨now, hnow, rfl⟩ := (hafter new).mp hfield
      exact ⟨now, hnow, told.2, hchange⟩
    · rintro ⟨now, hnow, told, hchange⟩
      exact ⟨(name, told), List.mem_filterMap.mpr ⟨(name, readable values now),
        (hafter _).mpr ⟨now, hnow, rfl⟩, hchange⟩, rfl⟩
  rw [htold]
  simp only [change_isSome, lookup_shown, Option.map_eq_some_iff]
  constructor
  · rintro ⟨now, hnow, old, ⟨held, hheld, rfl⟩, hsame, hread⟩
    rw [readApart_iff] at hread
    exact ⟨held, now, hheld, hnow, same_readable.mp hsame, hread⟩
  · rintro ⟨held, now, hheld, hnow, hdiffer, hread⟩
    rw [← readApart_iff] at hread
    exact ⟨now, hnow, _, ⟨held, hheld, rfl⟩, same_readable.mpr hdiffer, hread⟩

/-- A save leaves a row that names a field, unless it only records HQ looking, exactly where
the diff notices it. -/
theorem names_iff {life : Life ν σ} {written : List String} {name : String}
    (hname : name ∈ model.tracked) (hlooked : name ∉ model.looked) :
    Names life (step values wording model life (.save false written)) name ↔
      Noticed values wording model life name := by
  have hsilent : ∀ after : Life ν σ, after.trail = life.trail → ¬Names life after name := by
    rintro after htrail ⟨entry, hentry, -⟩
    rw [htrail] at hentry
    simp at hentry
  rw [← mem_moved hname]
  show Names life (onSave values wording model false (write written life)) name ↔ _
  have hmoved : moved values wording model (write written life) = moved values wording model life :=
    rfl
  unfold onSave
  simp only [hmoved, Bool.false_eq_true, if_false, true_and]
  split
  · next honly =>
      constructor
      · intro hnames
        exact absurd hnames (hsilent _ rfl)
      · intro hmem
        exact absurd (honly.2.2 name hmem) hlooked
  · split
    · next hnothing =>
        constructor
        · intro hnames
          exact absurd hnames (hsilent _ rfl)
        · intro hmem
          simp [hnothing] at hmem
    · constructor
      · rintro ⟨entry, hentry, hmem⟩
        have hlast := List.append_cancel_left hentry
        obtain rfl := List.head_eq_of_cons_eq hlast
        exact hmem
      · intro hmem
        exact ⟨_, rfl, hmem⟩

/-- Whole numbers and flags, and no other values. -/
def plainValues : Values Int Empty where
  text := nofun
  immutable := nofun
  copied := nofun
  scalar_copied {value} := nomatch value
  equal first second := first == second
  flag value := if value then 1 else 0

/-- An expense, as far as its notes go. -/
def expense : Registered Int Empty where
  fields := [("notes", false), ("updated_at", true)]
  redact := []
  redactFor _ := []
  looked := []

/-- As many letters as the log shows. -/
def whole : List Char := List.replicate valueChars 'v'

theorem length_whole : whole.length = valueChars := List.length_replicate

/-- Notes longer than the log shows. -/
def longNotes (rest : List Char) : FieldValue Int Empty := .json (.str (String.ofList (whole ++ rest)))

theorem longNotes_ne : longNotes ['a'] ≠ longNotes ['b'] := by
  intro h
  have htext := String.ofList_injective (Document.str.inj (FieldValue.json.inj h))
  have hrest := List.append_cancel_left htext
  cases hrest

end SeverinoHQ.Audit.Changes
