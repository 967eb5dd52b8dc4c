/-
# Block mappings

A YAML text in block style, line by line. The entries of a mapping stand at one indentation;
what is deeper, blank or an item of a sequence belongs to the entry above it. A value is kept
as it is written, and is read no further than a caller asks.
-/

import SeverinoHQ.Math.Bytes
import Mathlib.Tactic.ByContra
import Mathlib.Tactic.SplitIfs

namespace SeverinoHQ.Math.BlockMapping

open SeverinoHQ.Math.Bytes (ascii)

/-! ## Lines -/

/-- How many spaces a line is indented by. -/
def width (line : Bytes) : Nat := (line.takeWhile (· == 32)).length

def content (line : Bytes) : Bytes := line.dropWhile (· == 32)

/-- An empty line, spaces only, or a comment. -/
def isBlank (line : Bytes) : Bool :=
  match content line with
  | [] => true
  | byte :: _ => byte == 35

def isSpace (byte : UInt8) : Bool := byte == 32 || byte == 9

/-- No line break or other control character. -/
def isText (byte : UInt8) : Bool := 32 ≤ byte || byte == 9

/-- White space, or the end of the line. -/
def breaks : Bytes → Bool
  | [] => true
  | byte :: _ => isSpace byte || byte == 13

/-- An item of a sequence. -/
def isItem (line : Bytes) : Bool :=
  match content line with
  | 45 :: rest => breaks rest
  | _ => false

/-- A line of the value above it, in a mapping at an indentation. A sequence may stand at the
indentation of the key it is the value of. -/
def continues (indent : Nat) (line : Bytes) : Bool :=
  isBlank line || decide (indent < width line) || (width line == indent && isItem line)

/-- The indentation of the first line that is not blank. -/
def indentation (lines : List Bytes) : Nat :=
  match lines.find? fun line => !isBlank line with
  | none => 0
  | some line => width line

/-! ## Keys and plain values -/

/-- The reading of what stands between double quotes: what holds no backslash is itself. -/
structure Escapes where
  decode : Bytes → Option Bytes
  decode_plain : ∀ text, 92 ∉ text → decode text = some text

/-- A plain text begins with no indicator. -/
def startsPlain : Bytes → Bool
  | [] => false
  | byte :: rest =>
      if byte = 45 ∨ byte = 58 ∨ byte = 63 then !breaks rest
      else !(breaks [byte] || (ascii ",[]\x7b\x7d#&*!|>'\"%@`").contains byte)

/-- What stands before the first colon that white space follows, and what follows it; there is
no comment before it. -/
def plainKey : Bytes → Option (Bytes × Bytes)
  | [] => none
  | byte :: rest =>
      if byte = 58 ∧ breaks rest then some ([], rest)
      else if isSpace byte ∧ rest.head? = some 35 then none
      else (plainKey rest).map fun parts => (byte :: parts.1, parts.2)

/-- What stands before the closing quote, and what follows it. -/
def quoted : Bytes → Option (Bytes × Bytes)
  | [] => none
  | 34 :: rest => some ([], rest)
  | 92 :: byte :: rest => (quoted rest).map fun parts => (92 :: byte :: parts.1, parts.2)
  | byte :: rest =>
      if isText byte then (quoted rest).map fun parts => (byte :: parts.1, parts.2) else none

/-- The key on an entry's line, plain or double-quoted, and what follows its colon. -/
def entryOf (escapes : Escapes) (line : Bytes) : Option (Bytes × Bytes) :=
  match content line with
  | 34 :: text =>
      (quoted text).bind fun parts =>
        match parts.2.dropWhile isSpace with
        | 58 :: rest => if breaks rest then (escapes.decode parts.1).map (·, rest) else none
        | _ => none
  | text =>
      if startsPlain text then
        (plainKey text).map fun parts => (parts.1.rdropWhile isSpace, parts.2)
      else none

/-- A text up to its comment. -/
def uncommented : Bytes → Bytes
  | [] => []
  | byte :: rest => if isSpace byte ∧ rest.head? = some 35 then [] else byte :: uncommented rest

/-- The text of a plain value, on the line of its key. -/
def plain (inline : Bytes) : Option Bytes :=
  let text := inline.dropWhile isSpace
  if startsPlain text ∧ plainKey text = none ∧ text.all isText then
    some ((uncommented text).rdropWhile isSpace)
  else none

/-! ## Entries -/

/-- An entry's line and the lines of its value below it. -/
structure Entry where
  line : Bytes
  body : List Bytes
  deriving DecidableEq, Repr

/-- A value as it is written: what follows its key's colon, and the lines below. -/
structure Value where
  inline : Bytes
  lines : List Bytes
  deriving DecidableEq, Repr

namespace Value

/-- No value at all: it reads as the empty mapping. -/
def absent : Value := ⟨[], []⟩

/-- A value reads as a plain text. -/
def Reads (value : Value) (text : Bytes) : Prop :=
  (∀ line ∈ value.lines, isBlank line) ∧ plain value.inline = some text

instance (value : Value) (text : Bytes) : Decidable (value.Reads text) :=
  inferInstanceAs (Decidable (_ ∧ _))

end Value

namespace Entry

def lines (entry : Entry) : List Bytes := entry.line :: entry.body

def key (escapes : Escapes) (entry : Entry) : Option Bytes :=
  (entryOf escapes entry.line).map (·.1)

def value (escapes : Escapes) (entry : Entry) : Value :=
  ⟨((entryOf escapes entry.line).map (·.2)).getD [], entry.body⟩

end Entry

/-- The lines before the first entry, and the entries. -/
def group (indent : Nat) : List Bytes → List Bytes × List Entry
  | [] => ([], [])
  | line :: lines =>
      let rest := group indent lines
      if continues indent line then (line :: rest.1, rest.2)
      else ([], ⟨line, rest.1⟩ :: rest.2)

/-- The lines before a mapping's first entry. -/
def lead (lines : List Bytes) : List Bytes := (group (indentation lines) lines).1

def entries (lines : List Bytes) : List Entry := (group (indentation lines) lines).2

/-- The lines are a mapping: blank ones, then entries at one indentation, each with a key,
no key twice. -/
structure Written (escapes : Escapes) (lines : List Bytes) : Prop where
  leads : ∀ line ∈ lead lines, isBlank line
  aligned : ∀ entry ∈ entries lines, width entry.line = indentation lines
  keyed : ∀ entry ∈ entries lines, (entry.key escapes).isSome
  distinct : ((entries lines).map (Entry.key escapes)).Nodup

instance (escapes : Escapes) (lines : List Bytes) : Decidable (Written escapes lines) :=
  decidable_of_iff ((∀ line ∈ lead lines, isBlank line) ∧
      (∀ entry ∈ entries lines, width entry.line = indentation lines) ∧
      (∀ entry ∈ entries lines, (entry.key escapes).isSome) ∧
      ((entries lines).map (Entry.key escapes)).Nodup)
    ⟨fun ⟨hleads, haligned, hkeyed, hdistinct⟩ => ⟨hleads, haligned, hkeyed, hdistinct⟩,
      fun ⟨hleads, haligned, hkeyed, hdistinct⟩ => ⟨hleads, haligned, hkeyed, hdistinct⟩⟩

def find (escapes : Escapes) (key : Bytes) (entries : List Entry) : Option Entry :=
  entries.find? fun entry => entry.key escapes == some key

/-- `---`, which may stand above a document. -/
def isMarker (line : Bytes) : Bool :=
  match line with
  | 45 :: 45 :: 45 :: rest => breaks rest && isBlank rest
  | _ => false

/-- The lines down to the marker of a text's document, and its own. -/
def document (lines : List Bytes) : List Bytes × List Bytes :=
  match lines.dropWhile isBlank with
  | [] => ([], lines)
  | line :: rest =>
      if isMarker line then (lines.takeWhile isBlank ++ [line], rest) else ([], lines)

namespace Value

/-- A value reads as a mapping, an absent one as the empty mapping. -/
def IsMapping (escapes : Escapes) (value : Value) : Prop :=
  isBlank value.inline ∧ Written escapes value.lines

instance (escapes : Escapes) (value : Value) : Decidable (value.IsMapping escapes) :=
  inferInstanceAs (Decidable (_ ∧ _))

def entry (escapes : Escapes) (value : Value) (key : Bytes) : Option Entry :=
  find escapes key (entries value.lines)

/-- What a mapping holds under a key. -/
def get (escapes : Escapes) (value : Value) (key : Bytes) : Value :=
  ((value.entry escapes key).map (Entry.value escapes)).getD absent

/-- A value reads as mappings all the way down a path. -/
def Mapped (escapes : Escapes) : List Bytes → Value → Prop
  | [], _ => True
  | key :: path, value => value.IsMapping escapes ∧ Mapped escapes path (value.get escapes key)

instance Mapped.decidable (escapes : Escapes) :
    (path : List Bytes) → (value : Value) → Decidable (value.Mapped escapes path)
  | [], _ => .isTrue trivial
  | key :: path, value =>
      haveI := Mapped.decidable escapes path (value.get escapes key)
      inferInstanceAs (Decidable (_ ∧ _))

/-- One value reads as another with the text at a path set, and nothing else changed. -/
def SetTo (escapes : Escapes) (text : Bytes) : List Bytes → Value → Value → Prop
  | [], _, after => after.Reads text
  | key :: path, before, after =>
      after.IsMapping escapes ∧
      (∀ other, other ≠ key → after.entry escapes other = before.entry escapes other) ∧
      (after.entry escapes key).isSome ∧
      SetTo escapes text path (before.get escapes key) (after.get escapes key)

end Value

/-! ## The parts of a mapping -/

def flatten (entries : List Entry) : List Bytes := entries.flatMap Entry.lines

@[simp]
theorem flatten_nil : flatten [] = [] := rfl

@[simp]
theorem flatten_cons (entry : Entry) (entries : List Entry) :
    flatten (entry :: entries) = entry.lines ++ flatten entries := rfl

@[simp]
theorem flatten_append (first second : List Entry) :
    flatten (first ++ second) = flatten first ++ flatten second := List.flatMap_append

theorem group_lines (indent : Nat) (lines : List Bytes) :
    (group indent lines).1 ++ flatten (group indent lines).2 = lines := by
  induction lines with
  | nil => rfl
  | cons line lines ih =>
      simp only [group]
      by_cases hcontinues : continues indent line = true
      · simpa [hcontinues] using ih
      · simpa [hcontinues, Entry.lines] using ih

/-- A mapping's lines are what leads it and its entries. -/
theorem lead_entries (lines : List Bytes) : lead lines ++ flatten (entries lines) = lines :=
  group_lines _ _

/-- What a group of lines is made of. -/
structure Grouped (indent : Nat) (entries : List Entry) : Prop where
  begins : ∀ entry ∈ entries, continues indent entry.line = false
  continued : ∀ entry ∈ entries, ∀ line ∈ entry.body, continues indent line = true

theorem grouped_nil (indent : Nat) : Grouped indent [] :=
  ⟨by simp, by simp⟩

theorem grouped_group (indent : Nat) (lines : List Bytes) :
    (∀ line ∈ (group indent lines).1, continues indent line = true) ∧
      Grouped indent (group indent lines).2 := by
  induction lines with
  | nil => simp [group, grouped_nil]
  | cons line lines ih =>
      obtain ⟨hlead, hbegins, hcontinued⟩ := ih
      simp only [group]
      by_cases hcontinues : continues indent line = true
      · rw [if_pos hcontinues]
        exact ⟨by simpa using ⟨hcontinues, hlead⟩, hbegins, hcontinued⟩
      · rw [if_neg hcontinues]
        refine ⟨by simp, ?_, ?_⟩
        · simpa using ⟨Bool.eq_false_iff.mpr hcontinues, hbegins⟩
        · simpa using ⟨hlead, hcontinued⟩

/-- Lines that are put together from a group's parts are taken apart into them. -/
theorem group_append {indent : Nat} {first : List Bytes} {entries : List Entry}
    (hfirst : ∀ line ∈ first, continues indent line = true) (hentries : Grouped indent entries) :
    group indent (first ++ flatten entries) = (first, entries) := by
  have hrest : group indent (flatten entries) = ([], entries) := by
    induction entries with
    | nil => rfl
    | cons entry entries ih =>
        obtain ⟨hbegins, hcontinued⟩ := hentries
        rw [List.forall_mem_cons] at hbegins hcontinued
        obtain ⟨hline, hbegins⟩ := hbegins
        obtain ⟨hbody, hcontinued⟩ := hcontinued
        have hlater := ih ⟨hbegins, hcontinued⟩
        have hgroup : group indent (entry.body ++ flatten entries) = (entry.body, entries) := by
          generalize entry.body = body at hbody
          induction body with
          | nil => exact hlater
          | cons line body ihbody =>
              rw [List.forall_mem_cons] at hbody
              simp [group, hbody.1, ihbody hbody.2]
        simp [flatten_cons, Entry.lines, group, hline, hgroup]
  induction first with
  | nil => exact hrest
  | cons line first ih =>
      rw [List.forall_mem_cons] at hfirst
      simp [group, hfirst.1, ih hfirst.2]

theorem continues_of_isBlank {indent : Nat} {line : Bytes} (h : isBlank line = true) :
    continues indent line = true := by
  simp [continues, h]

/-- A line that begins an entry is not blank. -/
theorem not_isBlank_of_not_continues {indent : Nat} {line : Bytes}
    (h : continues indent line = false) : isBlank line = false := by
  by_contra hblank
  rw [continues_of_isBlank (by simpa using hblank)] at h
  cases h

theorem indentation_append_of_isBlank {first : List Bytes}
    (hfirst : ∀ line ∈ first, isBlank line = true) (lines : List Bytes) :
    indentation (first ++ lines) = indentation lines := by
  have hnone : first.find? (fun line => !isBlank line) = none := by
    rw [List.find?_eq_none]
    intro line hline
    simp [hfirst line hline]
  rw [indentation, indentation, List.find?_append, hnone, Option.none_or]

theorem indentation_cons_of_not_isBlank {line : Bytes} (h : isBlank line = false)
    (lines : List Bytes) : indentation (line :: lines) = width line := by
  simp [indentation, h]

/-- Blank lines and entries at one indentation are taken apart into themselves. -/
theorem parts_append {indent : Nat} {first : List Bytes} {entries : List Entry}
    (hfirst : ∀ line ∈ first, isBlank line = true) (hentries : Grouped indent entries)
    (hwidth : ∀ entry ∈ entries, width entry.line = indent) :
    lead (first ++ flatten entries) = first ∧
      BlockMapping.entries (first ++ flatten entries) = entries ∧
      ∀ entry ∈ entries, indentation (first ++ flatten entries) = width entry.line := by
  have hindent : ∀ entry ∈ entries, indentation (first ++ flatten entries) = indent := by
    intro _ _
    rw [indentation_append_of_isBlank hfirst]
    cases entries with
    | nil => contradiction
    | cons entry entries =>
        have hblank := not_isBlank_of_not_continues (hentries.begins entry List.mem_cons_self)
        rw [flatten_cons, Entry.lines, List.cons_append, indentation_cons_of_not_isBlank hblank,
          hwidth entry List.mem_cons_self]
  have hgrouped : Grouped (indentation (first ++ flatten entries)) entries := by
    cases entries with
    | nil => exact grouped_nil _
    | cons entry entries => rwa [hindent entry List.mem_cons_self]
  have hgroup := group_append (fun line hline => continues_of_isBlank (hfirst line hline)) hgrouped
  refine ⟨?_, ?_, fun entry hentry => ?_⟩
  · rw [lead, hgroup]
  · rw [BlockMapping.entries, hgroup]
  · rw [hindent entry hentry, hwidth entry hentry]

theorem grouped_entries (lines : List Bytes) : Grouped (indentation lines) (entries lines) :=
  (grouped_group _ _).2

/-- Blank lines and entries with keys, at one indentation, are a mapping. -/
theorem written_append {escapes : Escapes} {indent : Nat} {first : List Bytes}
    {entries : List Entry} (hfirst : ∀ line ∈ first, isBlank line = true)
    (hentries : Grouped indent entries) (hwidth : ∀ entry ∈ entries, width entry.line = indent)
    (hkeyed : ∀ entry ∈ entries, (entry.key escapes).isSome)
    (hdistinct : (entries.map (Entry.key escapes)).Nodup) :
    Written escapes (first ++ flatten entries) := by
  obtain ⟨hlead, hparts, hindent⟩ := parts_append hfirst hentries hwidth
  constructor
  · rwa [hlead]
  · rw [hparts]
    exact fun entry hentry => (hindent entry hentry).symm
  · rwa [hparts]
  · rwa [hparts]

/-! ## One entry put in place -/

/-- The entries with one made for a key: of the one it holds, or at the end. -/
def put (escapes : Escapes) (key : Bytes) (make : Option Entry → Entry) : List Entry → List Entry
  | [] => [make none]
  | entry :: entries =>
      if entry.key escapes = some key then make (some entry) :: entries
      else entry :: put escapes key make entries

section Put

variable {escapes : Escapes} {key : Bytes} {make : Option Entry → Entry}

theorem find_cons (entry : Entry) (entries : List Entry) :
    find escapes key (entry :: entries) =
      if entry.key escapes = some key then some entry else find escapes key entries := by
  by_cases h : entry.key escapes = some key
  · simp [find, h]
  · simp [find, h, beq_false_of_ne h]

theorem find_put {entries : List Entry}
    (hkey : (make (find escapes key entries)).key escapes = some key) :
    find escapes key (put escapes key make entries) = some (make (find escapes key entries)) := by
  induction entries with
  | nil => simpa [put, find] using hkey
  | cons entry entries ih =>
      rw [find_cons] at hkey
      by_cases h : entry.key escapes = some key
      · rw [if_pos h] at hkey
        simp [put, find_cons, h, hkey]
      · rw [if_neg h] at hkey
        simp [put, find_cons, h, ih hkey]

theorem find_put_of_ne {other : Bytes} (hne : other ≠ key) {entries : List Entry}
    (hkey : (make (find escapes key entries)).key escapes = some key) :
    find escapes other (put escapes key make entries) = find escapes other entries := by
  induction entries with
  | nil =>
      have hnone : (make none).key escapes = some key := hkey
      simp [put, find, hnone, hne.symm]
  | cons entry entries ih =>
      rw [find_cons] at hkey
      by_cases h : entry.key escapes = some key
      · rw [if_pos h] at hkey
        simp [put, find_cons, h, hkey, hne.symm]
      · rw [if_neg h] at hkey
        simp [put, find_cons, h, ih hkey]

theorem map_key_put {entries : List Entry}
    (hkey : (make (find escapes key entries)).key escapes = some key) :
    (put escapes key make entries).map (Entry.key escapes) =
      if (find escapes key entries).isSome then entries.map (Entry.key escapes)
      else entries.map (Entry.key escapes) ++ [some key] := by
  induction entries with
  | nil => simpa [put, find] using hkey
  | cons entry entries ih =>
      rw [find_cons] at hkey
      by_cases h : entry.key escapes = some key
      · rw [if_pos h] at hkey
        simp [put, find_cons, h, hkey]
      · rw [if_neg h] at hkey
        simp only [put, find_cons, if_neg h, List.map_cons, ih hkey]
        split <;> rfl

theorem nodup_put {entries : List Entry}
    (hkey : (make (find escapes key entries)).key escapes = some key)
    (h : (entries.map (Entry.key escapes)).Nodup) :
    ((put escapes key make entries).map (Entry.key escapes)).Nodup := by
  rw [map_key_put hkey]
  split_ifs with hfound
  · exact h
  · refine List.nodup_append.mpr ⟨h, by simp, ?_⟩
    rintro held hheld _ hlast rfl
    obtain rfl := List.mem_singleton.mp hlast
    obtain ⟨entry, hentry, hheld⟩ := List.mem_map.mp hheld
    apply hfound
    rw [find, List.find?_isSome]
    exact ⟨entry, hentry, by simpa using hheld⟩

/-- What holds of every entry and of the one that is made holds after it is put. -/
theorem forall_mem_put {property : Entry → Prop} {entries : List Entry}
    (hmake : property (make (find escapes key entries))) (h : ∀ entry ∈ entries, property entry) :
    ∀ entry ∈ put escapes key make entries, property entry := by
  induction entries with
  | nil => simpa [put, find] using hmake
  | cons entry entries ih =>
      rw [List.forall_mem_cons] at h
      rw [find_cons] at hmake
      by_cases hkey : entry.key escapes = some key
      · rw [if_pos hkey] at hmake
        simpa [put, hkey] using ⟨hmake, h.2⟩
      · rw [if_neg hkey] at hmake
        simpa [put, hkey] using ⟨h.1, ih hmake h.2⟩

/-- What is put stands in the place of the first entry of its key. -/
theorem put_eq (entries : List Entry) :
    put escapes key make entries =
      entries.takeWhile (fun entry => !(entry.key escapes == some key)) ++
        make (find escapes key entries) ::
          (entries.dropWhile fun entry => !(entry.key escapes == some key)).tail := by
  induction entries with
  | nil => rfl
  | cons entry entries ih =>
      by_cases h : entry.key escapes = some key
      · simp [put, find_cons, h]
      · simp [put, find_cons, h, beq_false_of_ne h, ih]

end Put

/-- The lines above a key's entry: all of them where there is none. -/
def before (escapes : Escapes) (key : Bytes) (lines : List Bytes) : List Bytes :=
  lead lines ++
    flatten ((entries lines).takeWhile fun entry => !(entry.key escapes == some key))

/-- The lines below a key's entry. -/
def after (escapes : Escapes) (key : Bytes) (lines : List Bytes) : List Bytes :=
  flatten ((entries lines).dropWhile fun entry => !(entry.key escapes == some key)).tail

/-- The lines with one entry put in place. -/
def edit (escapes : Escapes) (key : Bytes) (make : Option Entry → Entry) (lines : List Bytes) :
    List Bytes :=
  before escapes key lines ++ (make (find escapes key (entries lines))).lines ++
    after escapes key lines

section Edit

variable {escapes : Escapes} {key : Bytes} {make : Option Entry → Entry} {lines : List Bytes}

theorem lines_of_find_eq_some {entry : Entry} (h : find escapes key (entries lines) = some entry) :
    lines = before escapes key lines ++ entry.lines ++ after escapes key lines := by
  have hparts : ∀ entries : List Entry, find escapes key entries = some entry →
      flatten entries =
        flatten (entries.takeWhile fun entry => !(entry.key escapes == some key)) ++ entry.lines ++
          flatten (entries.dropWhile fun entry => !(entry.key escapes == some key)).tail := by
    intro entries hfind
    induction entries with
    | nil => cases hfind
    | cons other entries ih =>
        rw [find_cons] at hfind
        by_cases hkey : other.key escapes = some key
        · rw [if_pos hkey] at hfind
          obtain rfl := Option.some.inj hfind
          simp [hkey]
        · rw [if_neg hkey] at hfind
          simp [beq_false_of_ne hkey, ih hfind]
  conv_lhs => rw [← lead_entries lines, hparts _ h]
  simp [before, after]

theorem lines_of_find_eq_none (h : find escapes key (entries lines) = none) :
    before escapes key lines = lines ∧ after escapes key lines = [] := by
  have hne : ∀ entry ∈ entries lines, (!(entry.key escapes == some key)) = true := by
    intro entry hentry
    simpa using List.find?_eq_none.mp h entry hentry
  constructor
  · rw [before, List.takeWhile_eq_self_iff.mpr hne, lead_entries]
  · rw [after, List.dropWhile_eq_nil_iff.mpr hne]
    rfl

theorem edit_eq : edit escapes key make lines =
    lead lines ++ flatten (put escapes key make (entries lines)) := by
  simp [edit, before, after, put_eq]

/-- What an entry that is put must be: an entry of its key, at the mapping's indentation. -/
structure Fits (escapes : Escapes) (key : Bytes) (lines : List Bytes) (entry : Entry) : Prop where
  keyed : entry.key escapes = some key
  aligned : entries lines = [] ∨ width entry.line = indentation lines
  begins : continues (width entry.line) entry.line = false
  continued : ∀ line ∈ entry.body, continues (width entry.line) line = true

/-- A mapping with an entry put in place is a mapping, of the entries that were put. -/
theorem written_edit (h : Written escapes lines)
    (hfits : Fits escapes key lines (make (find escapes key (entries lines)))) :
    Written escapes (edit escapes key make lines) ∧
      lead (edit escapes key make lines) = lead lines ∧
      entries (edit escapes key make lines) = put escapes key make (entries lines) := by
  have haligned : ∀ entry ∈ put escapes key make (entries lines),
      width entry.line = width (make (find escapes key (entries lines))).line := by
    refine forall_mem_put ?_ fun entry hentry => ?_
    · rfl
    rcases hfits.aligned with hnone | hwidth
    · rw [hnone] at hentry
      cases hentry
    · rw [h.aligned entry hentry, hwidth]
  have hgrouped : Grouped (width (make (find escapes key (entries lines))).line)
      (put escapes key make (entries lines)) := by
    have hheld : Grouped (width (make (find escapes key (entries lines))).line) (entries lines) := by
      rcases hfits.aligned with hnone | hwidth
      · rw [hnone]
        exact grouped_nil _
      · rw [hwidth]
        exact grouped_entries lines
    exact ⟨forall_mem_put hfits.begins hheld.begins, forall_mem_put hfits.continued hheld.continued⟩
  have hkeyed : ∀ entry ∈ put escapes key make (entries lines), (entry.key escapes).isSome :=
    forall_mem_put (by rw [hfits.keyed]; rfl) h.keyed
  rw [edit_eq]
  obtain ⟨hlead, hentries, -⟩ := parts_append h.leads hgrouped haligned
  exact ⟨written_append h.leads hgrouped haligned hkeyed (nodup_put hfits.keyed h.distinct), hlead,
    hentries⟩

end Edit

/-! ## How deep the lines stand -/

/-- No line of a mapping that is not blank stands above its indentation. -/
theorem Written.indentation_le {escapes : Escapes} {lines : List Bytes}
    (h : Written escapes lines) {line : Bytes} (hline : line ∈ lines)
    (hblank : isBlank line = false) : indentation lines ≤ width line := by
  rw [← lead_entries lines] at hline
  rcases List.mem_append.mp hline with hlead | hentries
  · rw [h.leads line hlead] at hblank
    cases hblank
  · obtain ⟨entry, hentry, hline⟩ := List.mem_flatMap.mp hentries
    rcases List.mem_cons.mp hline with rfl | hbody
    · exact (h.aligned entry hentry).ge
    · have hcontinues := (grouped_entries lines).continued entry hentry line hbody
      simp only [continues, hblank, Bool.false_or, Bool.or_eq_true, decide_eq_true_eq,
        Bool.and_eq_true, beq_iff_eq] at hcontinues
      omega

/-- An item of a sequence is no entry. -/
theorem entryOf_of_isItem {escapes : Escapes} {line : Bytes} (h : isItem line = true) :
    entryOf escapes line = none := by
  unfold isItem at h
  unfold entryOf
  split at h
  · rename_i rest hcontent
    simp [hcontent, startsPlain, h]
  · cases h

/-- A mapping below a key stands deeper than the key. -/
theorem Written.lt_width {escapes : Escapes} {indent : Nat} {lines : List Bytes}
    (h : Written escapes lines) (hcontinued : ∀ line ∈ lines, continues indent line = true)
    {line : Bytes} (hline : line ∈ lines) (hblank : isBlank line = false) :
    indent < width line := by
  have hle := h.indentation_le hline hblank
  have hlead := lead_entries lines
  cases hentries : entries lines with
  | nil =>
      rw [hentries, flatten_nil, List.append_nil] at hlead
      rw [h.leads line (by rwa [hlead])] at hblank
      cases hblank
  | cons entry rest =>
      have hentry : entry ∈ entries lines := by simp [hentries]
      have hmem : entry.line ∈ lines := by
        rw [← hlead]
        apply List.mem_append_right
        exact List.mem_flatMap.mpr ⟨entry, hentry, List.mem_cons_self⟩
      have hbegins := not_isBlank_of_not_continues ((grouped_entries lines).begins entry hentry)
      have hitem : isItem entry.line = false := by
        by_contra hitem
        have hkeyed := h.keyed entry hentry
        rw [Entry.key, entryOf_of_isItem (by simpa using hitem)] at hkeyed
        cases hkeyed
      have hdeep := hcontinued entry.line hmem
      simp only [continues, hbegins, hitem, Bool.false_or, Bool.and_false, Bool.or_false,
        decide_eq_true_eq] at hdeep
      rw [h.aligned entry hentry] at hdeep
      exact hdeep.trans_le hle

theorem indentation_append_of_mem {first : List Bytes} {line : Bytes} (hline : line ∈ first)
    (hblank : isBlank line = false) (rest : List Bytes) :
    indentation (first ++ rest) = indentation first := by
  have hfound : (first.find? fun line => !isBlank line).isSome := by
    rw [List.find?_isSome]
    exact ⟨line, hline, by simp [hblank]⟩
  obtain ⟨found, hfound⟩ := Option.isSome_iff_exists.mp hfound
  rw [indentation, indentation, List.find?_append, hfound, Option.some_or]

/-- An indentation is none, or that of a line. -/
theorem indentation_eq (lines : List Bytes) :
    indentation lines = 0 ∨
      ∃ line ∈ lines, isBlank line = false ∧ width line = indentation lines := by
  cases hfound : lines.find? fun line => !isBlank line with
  | none => exact .inl (by rw [indentation, hfound])
  | some line =>
      refine .inr ⟨line, List.mem_of_find?_eq_some hfound, ?_, by rw [indentation, hfound]⟩
      simpa using List.find?_some hfound

theorem mem_of_find {escapes : Escapes} {key : Bytes} {entries : List Entry} {entry : Entry}
    (h : find escapes key entries = some entry) :
    entry ∈ entries ∧ entry.key escapes = some key :=
  ⟨List.mem_of_find?_eq_some h, by simpa using List.find?_some h⟩

/-- The line of a key that is found is one of the mapping's, where its keys stand. -/
theorem Written.found {escapes : Escapes} {key : Bytes} {lines : List Bytes} {entry : Entry}
    (h : Written escapes lines) (hfound : find escapes key (entries lines) = some entry) :
    entry.line ∈ lines ∧ isBlank entry.line = false ∧ width entry.line = indentation lines := by
  obtain ⟨hentry, -⟩ := mem_of_find hfound
  refine ⟨?_, not_isBlank_of_not_continues ((grouped_entries lines).begins entry hentry),
    h.aligned entry hentry⟩
  rw [lines_of_find_eq_some hfound]
  simp [Entry.lines]

theorem mem_of_mem_before {escapes : Escapes} {key : Bytes} {lines : List Bytes} {line : Bytes}
    (h : line ∈ before escapes key lines) : line ∈ lines := by
  cases hfound : find escapes key (entries lines) with
  | none => rwa [(lines_of_find_eq_none hfound).1] at h
  | some entry =>
      rw [lines_of_find_eq_some hfound]
      exact List.mem_append_left _ (List.mem_append_left _ h)

theorem indentation_before {escapes : Escapes} {key : Bytes} {lines : List Bytes} {line : Bytes}
    (hline : line ∈ before escapes key lines) (hblank : isBlank line = false) :
    indentation (before escapes key lines) = indentation lines := by
  cases hfound : find escapes key (entries lines) with
  | none => rw [(lines_of_find_eq_none hfound).1]
  | some entry =>
      conv_rhs => rw [lines_of_find_eq_some hfound, List.append_assoc]
      exact (indentation_append_of_mem hline hblank _).symm

/-- The lines below a key, none where it is not there. -/
def below (escapes : Escapes) (key : Bytes) (lines : List Bytes) : List Bytes :=
  ((find escapes key (entries lines)).map Entry.body).getD []

theorem below_eq {escapes : Escapes} {key : Bytes} {lines : List Bytes} {entry : Entry}
    (h : find escapes key (entries lines) = some entry) : below escapes key lines = entry.body := by
  rw [below, h]
  rfl

theorem Value.get_lines (escapes : Escapes) (value : Value) (key : Bytes) :
    (value.get escapes key).lines = below escapes key value.lines := by
  rw [Value.get, Value.entry, below]
  cases find escapes key (entries value.lines) <;> rfl

theorem mem_of_mem_below {escapes : Escapes} {key : Bytes} {lines : List Bytes} {line : Bytes}
    (h : line ∈ below escapes key lines) : line ∈ lines := by
  cases hfound : find escapes key (entries lines) with
  | none =>
      rw [below, hfound] at h
      cases h
  | some entry =>
      rw [below_eq hfound] at h
      rw [lines_of_find_eq_some hfound]
      simp [Entry.lines, h]

theorem continues_of_mem_below {escapes : Escapes} {key : Bytes} {lines : List Bytes}
    {line : Bytes} (h : line ∈ below escapes key lines) :
    continues (indentation lines) line = true := by
  cases hfound : find escapes key (entries lines) with
  | none =>
      rw [below, hfound] at h
      cases h
  | some entry =>
      rw [below_eq hfound] at h
      exact (grouped_entries lines).continued entry (mem_of_find hfound).1 line h

theorem drop_width (line : Bytes) : line.drop (width line) = content line := by
  induction line with
  | nil => rfl
  | cons byte line ih =>
      by_cases h : byte = 32
      · simpa [width, content, h] using ih
      · simp [width, content, h]

/-! ## A text set at a path -/

theorem Value.setTo_edit {escapes : Escapes} {key text : Bytes} {path : List Bytes}
    {make : Option Entry → Entry} {before after : Value} (hbefore : Written escapes before.lines)
    (hinline : isBlank after.inline) (hlines : after.lines = edit escapes key make before.lines)
    (hfits : Fits escapes key before.lines (make (before.entry escapes key)))
    (hset : SetTo escapes text path (before.get escapes key)
      ((make (before.entry escapes key)).value escapes)) :
    SetTo escapes text (key :: path) before after := by
  obtain ⟨hwritten, -, hentries⟩ := written_edit hbefore hfits
  have hfound : after.entry escapes key = some (make (before.entry escapes key)) := by
    rw [Value.entry, hlines, hentries]
    exact find_put hfits.keyed
  refine ⟨⟨hinline, hlines ▸ hwritten⟩, fun other hother => ?_, ?_, ?_⟩
  · rw [Value.entry, hlines, hentries]
    exact find_put_of_ne hother hfits.keyed
  · rw [hfound]
    rfl
  · rw [show after.get escapes key = (make (before.entry escapes key)).value escapes by
      rw [Value.get, hfound]; rfl]
    exact hset

/-- What has a text set at a path is mappings down the path. -/
theorem Value.mapped_of_setTo {escapes : Escapes} {text : Bytes} {path : List Bytes}
    {before after : Value} (h : SetTo escapes text path before after) :
    after.Mapped escapes path := by
  induction path generalizing before after with
  | nil => trivial
  | cons key path ih =>
      obtain ⟨hmapping, -, -, hset⟩ := h
      exact ⟨hmapping, ih hset⟩

/-! ## Lines that are written -/

theorem width_replicate (indent : Nat) {byte : UInt8} (h : byte ≠ 32) (rest : Bytes) :
    width (List.replicate indent 32 ++ byte :: rest) = indent := by
  rw [width, List.takeWhile_append_of_pos (by simp), List.takeWhile_cons_of_neg (by simpa using h)]
  simp

theorem content_replicate (indent : Nat) {byte : UInt8} (h : byte ≠ 32) (rest : Bytes) :
    content (List.replicate indent 32 ++ byte :: rest) = byte :: rest := by
  rw [content, List.dropWhile_append_of_pos (by simp), List.dropWhile_cons_of_neg (by simpa using h)]

def isLetter (byte : UInt8) : Bool := 97 ≤ byte && byte ≤ 122

/-- A letter is text of any key. -/
theorem letter_is_text {byte : UInt8} (h : isLetter byte = true) :
    byte ≠ 58 ∧ isSpace byte = false := by
  have hbounds : 97 ≤ byte ∧ byte ≤ 122 := by simpa [isLetter] using h
  constructor
  · rintro rfl
    revert hbounds
    decide
  · by_contra hspace
    rw [Bool.not_eq_false, isSpace, Bool.or_eq_true, beq_iff_eq, beq_iff_eq] at hspace
    rcases hspace with rfl | rfl <;> revert hbounds <;> decide

theorem plainKey_append {key rest : Bytes} (hkey : ∀ byte ∈ key, isLetter byte = true)
    (hrest : breaks rest = true) : plainKey (key ++ 58 :: rest) = some (key, rest) := by
  induction key with
  | nil => simp [plainKey, hrest]
  | cons byte key ih =>
      rw [List.forall_mem_cons] at hkey
      obtain ⟨hcolon, hspace⟩ := letter_is_text hkey.1
      simp [plainKey, hcolon, hspace, ih hkey.2]

/-- A key of letters, written plain. -/
theorem entryOf_plain (escapes : Escapes) (indent : Nat) {byte : UInt8} {key rest : Bytes}
    (hkey : ∀ other ∈ byte :: key, isLetter other = true) (hspace : byte ≠ 32)
    (hquote : byte ≠ 34) (hstarts : ∀ rest, startsPlain (byte :: rest) = true)
    (hrest : breaks rest = true) :
    entryOf escapes (List.replicate indent 32 ++ (byte :: key ++ 58 :: rest)) =
      some (byte :: key, rest) := by
  have htrimmed : (byte :: key).rdropWhile isSpace = byte :: key := by
    rw [List.rdropWhile_eq_self_iff]
    intro hne
    simp [(letter_is_text (hkey _ (List.getLast_mem hne))).2]
  rw [List.cons_append] at *
  rw [entryOf, content_replicate indent hspace]
  split
  · rename_i text htext
    exact absurd (List.cons.inj htext).1 hquote
  · rw [if_pos (hstarts _), ← List.cons_append, plainKey_append hkey hrest, Option.map_some,
      htrimmed]

/-- What stands between double quotes as it is. -/
def quotable (text : Bytes) : Bool := text.all fun byte => isText byte && byte != 34 && byte != 92

theorem quoted_append {text : Bytes} (h : quotable text = true) (rest : Bytes) :
    quoted (text ++ 34 :: rest) = some (text, rest) := by
  induction text with
  | nil => rfl
  | cons byte text ih =>
      rw [quotable, List.all_cons, Bool.and_eq_true] at h
      obtain ⟨hbyte, htext⟩ := h
      simp only [Bool.and_eq_true, bne_iff_ne] at hbyte
      rw [List.cons_append, quoted, if_pos hbyte.1.1, ih htext, Option.map_some]
      · exact hbyte.1.2
      · intro _ _ hescape _
        exact hbyte.2 hescape

/-- A key written between double quotes. -/
theorem entryOf_quoted (escapes : Escapes) (indent : Nat) {key : Bytes}
    (h : quotable key = true) :
    entryOf escapes (List.replicate indent 32 ++ 34 :: (key ++ [34, 58])) = some (key, []) := by
  have hplain : 92 ∉ key := by
    intro hmem
    have hbyte := List.all_eq_true.mp h 92 hmem
    simp at hbyte
  rw [entryOf, content_replicate indent (by decide)]
  simp [quoted_append h, isSpace, breaks, escapes.decode_plain key hplain]

/-! ## The document of a text -/

theorem document_append (lines : List Bytes) : (document lines).1 ++ (document lines).2 = lines := by
  unfold document
  split
  · rfl
  · rename_i line rest hdrop
    split_ifs
    · rw [List.append_assoc, List.singleton_append, ← hdrop, List.takeWhile_append_dropWhile]
    · rfl

theorem plainKey_of_isBlank {text : Bytes} (hbreaks : breaks text = true)
    (hblank : isBlank text = true) : plainKey text = none := by
  induction text with
  | nil => rfl
  | cons byte text ih =>
      by_cases hspace : byte = 32
      · subst hspace
        have hrest : isBlank text = true := by simpa [isBlank, content] using hblank
        cases text with
        | nil => rfl
        | cons next text =>
            by_cases hcomment : next = 35
            · simp [plainKey, hcomment, isSpace]
            · have hnext : breaks (next :: text) = true := by
                by_cases hnext : next = 32
                · simp [hnext, breaks, isSpace]
                · simp [isBlank, content, hnext, hcomment] at hrest
              have hlater := ih hnext hrest
              rw [plainKey]
              simp [hcomment, hlater]
      · have hcomment : byte = 35 := by simpa [isBlank, content, hspace] using hblank
        subst hcomment
        revert hbreaks
        simp [breaks, isSpace]

/-- A document's marker is no entry. -/
theorem entryOf_of_isMarker {escapes : Escapes} {line : Bytes} (h : isMarker line = true) :
    entryOf escapes line = none := by
  unfold isMarker at h
  split at h
  · rename_i rest
    rw [Bool.and_eq_true] at h
    have hcontent : content (45 :: 45 :: 45 :: rest) = 45 :: 45 :: 45 :: rest := by
      simp [content]
    simp [entryOf, hcontent, plainKey, plainKey_of_isBlank h.1 h.2, isSpace]
  · cases h

theorem not_isBlank_of_isMarker {line : Bytes} (h : isMarker line = true) :
    isBlank line = false := by
  unfold isMarker at h
  split at h
  · simp [isBlank, content]
  · cases h

/-- Above a document stand blank lines and its marker. -/
theorem of_mem_document {lines : List Bytes} {line : Bytes} (h : line ∈ (document lines).1) :
    isBlank line = true ∨ isMarker line = true := by
  unfold document at h
  split at h
  · cases h
  · rename_i marker rest hdrop
    split_ifs at h with hmarker
    · rcases List.mem_append.mp h with hblank | hmarked
      · exact .inl (List.mem_takeWhile_imp hblank)
      · obtain rfl := List.mem_singleton.mp hmarked
        exact .inr hmarker
    · cases h

/-- A mapping is a document of its own. -/
theorem document_of_written {escapes : Escapes} {root : List Bytes} (h : Written escapes root) :
    document root = ([], root) := by
  have hdrop : root.dropWhile isBlank = flatten (entries root) := by
    conv_lhs => rw [← lead_entries root, List.dropWhile_append_of_pos h.leads]
    cases hentries : entries root with
    | nil => rfl
    | cons entry rest =>
        have hentry : entry ∈ entries root := by simp [hentries]
        have hblank := not_isBlank_of_not_continues ((grouped_entries root).begins entry hentry)
        rw [flatten_cons, Entry.lines, List.cons_append,
          List.dropWhile_cons_of_neg (by simp [hblank])]
  rw [document, hdrop]
  cases hentries : entries root with
  | nil => rfl
  | cons entry rest =>
      have hkeyed := h.keyed entry (by simp [hentries])
      have hmarker : isMarker entry.line = false := by
        by_contra hmarker
        rw [Entry.key, entryOf_of_isMarker (by simpa using hmarker)] at hkeyed
        cases hkeyed
      simp [Entry.lines, hmarker]

/-- A mapping below what stands above a document is its document. -/
theorem document_append_of_written {escapes : Escapes} (lines : List Bytes) {root : List Bytes}
    (h : Written escapes root) :
    document ((document lines).1 ++ root) = ((document lines).1, root) := by
  have hparts : (document lines).1 = [] ∨ ∃ first line, (∀ blank ∈ first, isBlank blank = true) ∧
      isMarker line = true ∧ (document lines).1 = first ++ [line] := by
    unfold document
    split
    · exact .inl rfl
    · rename_i line rest hdrop
      split_ifs with hmarker
      · refine .inr ⟨lines.takeWhile isBlank, line, fun blank hmem => ?_, hmarker, rfl⟩
        exact List.mem_takeWhile_imp hmem
      · exact .inl rfl
  rcases hparts with hnone | ⟨first, line, hfirst, hmarker, hparts⟩
  · rw [hnone]
    exact document_of_written h
  · have hblank := not_isBlank_of_isMarker hmarker
    rw [hparts, document, List.append_assoc, List.dropWhile_append_of_pos hfirst,
      List.takeWhile_append_of_pos hfirst]
    simp [hblank, hmarker]

/-! ## A mapping after an entry is put in place -/

section Edited

variable {escapes : Escapes} {key : Bytes} {make : Option Entry → Entry} {lines : List Bytes}

theorem find_edit (h : Written escapes lines)
    (hfits : Fits escapes key lines (make (find escapes key (entries lines)))) :
    find escapes key (entries (edit escapes key make lines)) =
      some (make (find escapes key (entries lines))) := by
  rw [(written_edit h hfits).2.2]
  exact find_put hfits.keyed

theorem below_edit (h : Written escapes lines)
    (hfits : Fits escapes key lines (make (find escapes key (entries lines)))) :
    below escapes key (edit escapes key make lines) =
      (make (find escapes key (entries lines))).body :=
  below_eq (find_edit h hfits)

/-- An edited mapping stands where the entry that was put stands. -/
theorem indentation_edit (h : Written escapes lines)
    (hfits : Fits escapes key lines (make (find escapes key (entries lines)))) :
    indentation (edit escapes key make lines) =
      width (make (find escapes key (entries lines))).line := by
  have hentry := (mem_of_find (find_edit h hfits)).1
  exact ((written_edit h hfits).1.aligned _ hentry).symm

/-- The lines above and below the entry stay. -/
theorem around_edit (h : Written escapes lines)
    (hfits : Fits escapes key lines (make (find escapes key (entries lines)))) :
    before escapes key (edit escapes key make lines) = before escapes key lines ∧
      after escapes key (edit escapes key make lines) = after escapes key lines := by
  obtain ⟨-, hlead, hentries⟩ := written_edit h hfits
  have hall : ∀ entry ∈ (entries lines).takeWhile fun entry => !(entry.key escapes == some key),
      (!(entry.key escapes == some key)) = true := by
    intro entry hentry
    exact List.mem_takeWhile_imp (p := fun entry => !(Entry.key escapes entry == some key)) hentry
  constructor
  · rw [before, hlead, hentries, put_eq, List.takeWhile_append_of_pos hall,
      List.takeWhile_cons_of_neg (by simp [hfits.keyed]), List.append_nil, before]
  · rw [after, hentries, put_eq, List.dropWhile_append_of_pos hall,
      List.dropWhile_cons_of_neg (by simp [hfits.keyed]), List.tail_cons, after]

/-- An entry that is put again as it is changes nothing. -/
theorem edit_edit {again : Option Entry → Entry} (h : Written escapes lines)
    (hfits : Fits escapes key lines (make (find escapes key (entries lines))))
    (hagain : again (some (make (find escapes key (entries lines)))) =
      make (find escapes key (entries lines))) :
    edit escapes key again (edit escapes key make lines) = edit escapes key make lines := by
  obtain ⟨hbefore, hafter⟩ := around_edit h hfits
  rw [edit, hbefore, hafter, find_edit h hfits, hagain]
  rfl

theorem forall_mem_edit {property : Bytes → Prop}
    (hmake : ∀ line ∈ (make (find escapes key (entries lines))).lines, property line)
    (h : ∀ line ∈ lines, property line) :
    ∀ line ∈ edit escapes key make lines, property line := by
  intro line hline
  rcases List.mem_append.mp hline with hline | hline
  · rcases List.mem_append.mp hline with hline | hline
    · exact h line (mem_of_mem_before hline)
    · exact hmake line hline
  · cases hfound : find escapes key (entries lines) with
    | none =>
        rw [(lines_of_find_eq_none hfound).2] at hline
        cases hline
    | some entry =>
        apply h
        rw [lines_of_find_eq_some hfound]
        exact List.mem_append_right _ hline

end Edited

end SeverinoHQ.Math.BlockMapping
