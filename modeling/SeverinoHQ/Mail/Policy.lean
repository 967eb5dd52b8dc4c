/-
# A domain's mail policies

`mail_policy`: a DMARC record as its tags, an SPF record as its terms, and each written
back. A text is its letters. What the tags and terms are called on a page is left out.
-/

import SeverinoHQ.Math.Dict
import SeverinoHQ.Math.Letters

namespace SeverinoHQ.Mail

open SeverinoHQ.Math
open SeverinoHQ.Math.Letters

/-! ## DMARC -/

/-- `DMARC_VERSION`. -/
def dmarcVersion : List Char := "DMARC1".toList

/-- `PolicyTag`, by what a record is composed of. -/
structure PolicyTag where
  id : List Char
  default : List Char
  required : Bool
  deriving DecidableEq, Repr

/-- `DMARC_TAGS`. -/
def dmarcTags : List PolicyTag :=
  [⟨"p".toList, "none".toList, true⟩, ⟨"sp".toList, [], false⟩, ⟨"rua".toList, [], false⟩,
    ⟨"pct".toList, "100".toList, false⟩]

/-- `name in DMARC_BY_ID`. -/
def isDeclared (name : List Char) : Bool := dmarcTags.any fun tag => tag.id = name

/-- The tags of a record, by name. -/
abbrev Tags := Dict (List Char) (List Char)

/-- `unquote`: a TXT record's value without the quoting DNS carries it in. -/
def unquote (value : List Char) : List Char :=
  let text := strip value
  let inner :=
    if text.head? = some '"' ∧ text.getLast? = some '"' ∧ 2 ≤ text.length then
      (text.drop 1).dropLast
    else text
  strip (without ['"', ' ', '"'] 0 inner)

/-- One part of a record: its name and value, where it has both. -/
def readTag (casing : Casing) (part : List Char) : Option (List Char × List Char) :=
  let halves := partition '=' part
  let name := casing.lower (strip halves.1)
  let raw := strip halves.2
  if name ≠ [] ∧ raw ≠ [] then some (name, raw) else none

/-- `parse_dmarc`: a DMARC record as its tags. -/
def parseDmarc (casing : Casing) (value : List Char) : Tags :=
  ((unquote value).splitOn ';').foldl (fun tags part =>
    match readTag casing part with
    | some (name, raw) => tags.set name raw
    | none => tags) Dict.empty

/-- A declared tag as it is composed, where it is. -/
def composeTag (tags : Tags) (tag : PolicyTag) : Option (List Char × List Char) :=
  let value := strip ((tags.get? tag.id).getD [])
  if value = [] then none
  else if tag.default ≠ [] ∧ value = tag.default ∧ tag.required = false then none
  else some (tag.id, value)

/-- A tag HQ does not model, as it is composed. -/
def composeOther (item : List Char × List Char) : Option (List Char × List Char) :=
  if item.1 ≠ "v".toList ∧ isDeclared item.1 = false ∧ strip item.2 ≠ [] then
    some (item.1, strip item.2)
  else none

/-- `ordered`: what a set of tags publishes, in order. -/
def ordered (tags : Tags) : List (List Char × List Char) :=
  ("v".toList, dmarcVersion) :: dmarcTags.filterMap (composeTag tags) ++
    tags.items.filterMap composeOther

/-- `compose_dmarc`: the record a set of tags publishes as. -/
def composeDmarc (tags : Tags) : List Char :=
  "; ".toList.intercalate ((ordered tags).map fun item => item.1 ++ '=' :: item.2)

/-! ## SPF -/

/-- `f"v={SPF_VERSION}"`. -/
def spfVersion : List Char := "v=spf1".toList

/-- `SPF_LOOKUP_LIMIT`. -/
def spfLookupLimit : Nat := 10

/-- `SPF_LOOKUP_MECHANISMS`. -/
def spfLookupMechanisms : List (List Char) :=
  ["include".toList, "a".toList, "mx".toList, "ptr".toList, "exists".toList, "redirect".toList]

/-- `SpfTerm`. -/
structure SpfTerm where
  qualifier : Char
  mechanism : List Char
  argument : List Char
  deriving DecidableEq, Repr

namespace SpfTerm

/-- `costs_lookup`. -/
def costsLookup (term : SpfTerm) : Bool := term.mechanism ∈ spfLookupMechanisms

/-- The term as an SPF record writes it. -/
def rule (term : SpfTerm) : List Char :=
  (if term.qualifier = '+' then [] else [term.qualifier]) ++ term.mechanism ++
    if term.argument = [] then [] else ':' :: term.argument

end SpfTerm

/-- `SpfPolicy`. -/
structure SpfPolicy where
  terms : List SpfTerm
  valid : Bool
  deriving DecidableEq, Repr

/-- `lookups`. -/
def SpfPolicy.lookups (policy : SpfPolicy) : Nat :=
  (policy.terms.filter SpfTerm.costsLookup).length

/-- `over_limit`. -/
def SpfPolicy.overLimit (policy : SpfPolicy) : Bool := policy.lookups > spfLookupLimit

/-- A word's first letter, where it is a qualifier. -/
def isQualifier (c : Char) : Bool := c ∈ ['+', '-', '~', '?']

/-- A word of a record as a term. -/
def readTerm (casing : Casing) (word : List Char) : SpfTerm :=
  let named := word.head?.any isQualifier
  let body := if named then word.drop 1 else word
  let halves := partition ':' body
  ⟨if named then word.headD '+' else '+', casing.lower halves.1, halves.2⟩

/-- `parse_spf`. -/
def parseSpf (casing : Casing) (value : List Char) : SpfPolicy :=
  match words (unquote value) with
  | [] => ⟨[], false⟩
  | version :: terms =>
      if casing.lower version ≠ spfVersion then ⟨[], false⟩
      else ⟨terms.map (readTerm casing), true⟩

/-- `compose_spf`. -/
def composeSpf (terms : List SpfTerm) : List Char :=
  [' '].intercalate (spfVersion :: terms.map SpfTerm.rule)

/-! ## Quoting -/

/-- A text published as adjacent quoted strings. -/
def published (strings : List (List Char)) : List Char :=
  [' '].intercalate (strings.map fun text => '"' :: text ++ ['"'])

theorem without_of_not_mem {text : List Char} (h : '"' ∉ text) (rest : List Char) :
    without ['"', ' ', '"'] 0 (text ++ rest) = text ++ without ['"', ' ', '"'] 0 rest := by
  induction text with
  | nil => rfl
  | cons c text ih =>
      rw [List.mem_cons, not_or] at h
      have hnot : List.isPrefixOf ['"', ' ', '"'] (c :: (text ++ rest)) = false := by
        simp [List.isPrefixOf, h.1]
      rw [List.cons_append, without, hnot, ih h.2]
      rfl

/-- Joined by what stands between two quoted strings, they are one text without it. -/
theorem without_intercalate {strings : List (List Char)} (h : ∀ text ∈ strings, '"' ∉ text) :
    without ['"', ' ', '"'] 0 (['"', ' ', '"'].intercalate strings) = strings.flatten := by
  induction strings with
  | nil => rfl
  | cons text strings ih =>
      have htext := without_of_not_mem (h text List.mem_cons_self)
      have hrest := ih fun other hother => h other (List.mem_cons_of_mem _ hother)
      cases strings with
      | nil => simpa [without] using htext []
      | cons next strings =>
          rw [List.intercalate_cons_cons, List.append_assoc, htext, List.flatten_cons, ← hrest]
          rfl

theorem published_cons (text : List Char) (strings : List (List Char)) :
    published (text :: strings) =
      '"' :: (['"', ' ', '"'].intercalate (text :: strings) ++ ['"']) := by
  induction strings generalizing text with
  | nil => simp [published]
  | cons next strings ih =>
      have hjoined : published (text :: next :: strings) =
          ('"' :: text ++ ['"']) ++ [' '] ++ published (next :: strings) := by
        simp only [published, List.map_cons, List.intercalate_cons_cons]
      rw [hjoined, ih next, List.intercalate_cons_cons]
      simp

theorem unquote_of_not_mem {text : List Char} (h : '"' ∉ text) : unquote text = strip text := by
  have hstrip : '"' ∉ strip text := fun hmem => h (mem_of_mem_strip hmem)
  have hhead : ¬ ((strip text).head? = some '"' ∧ (strip text).getLast? = some '"' ∧
      2 ≤ (strip text).length) := fun hquoted => hstrip (List.mem_of_head? hquoted.1)
  have hwithout := without_of_not_mem hstrip []
  rw [List.append_nil, without, List.append_nil] at hwithout
  unfold unquote
  dsimp only
  rw [if_neg hhead, hwithout, strip_of_bare (bare_strip text)]

/-- Adjacent quoted strings read as the one text they are cut from. -/
theorem unquote_published {strings : List (List Char)} (h : ∀ text ∈ strings, '"' ∉ text) :
    unquote (published strings) = unquote strings.flatten := by
  have hflatten : '"' ∉ strings.flatten := by
    intro hmem
    obtain ⟨text, htext, hmem⟩ := List.mem_flatten.mp hmem
    exact h text htext hmem
  rw [unquote_of_not_mem hflatten]
  cases strings with
  | nil => rfl
  | cons text strings =>
      have hbare : Bare (published (text :: strings)) := by
        rw [published_cons]
        constructor
        · intro c hc
          obtain rfl : '"' = c := by simpa using hc
          decide
        · intro c hc
          rw [List.getLast?_cons, List.getLast?_append] at hc
          obtain rfl : '"' = c := by simpa using hc
          decide
      have hlast : (published (text :: strings)).getLast? = some '"' := by
        rw [published_cons, ← List.cons_append, List.getLast?_concat]
      have hquoted : (published (text :: strings)).head? = some '"' ∧
          (published (text :: strings)).getLast? = some '"' ∧
            2 ≤ (published (text :: strings)).length := by
        refine ⟨by rw [published_cons]; rfl, hlast, ?_⟩
        rw [published_cons]
        simp
      unfold unquote
      dsimp only
      rw [strip_of_bare hbare, if_pos hquoted, published_cons, List.drop_one, List.tail_cons,
        List.dropLast_concat, without_intercalate h]

end SeverinoHQ.Mail
