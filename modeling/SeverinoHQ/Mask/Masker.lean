/-
# The mask over what the controller writes

A value the process has resolved is learned once, in every form it is commonly written in,
and each form is struck from what is written from then on. How Go's own packages quote and
escape a value is theirs; the base64 forms are cut here.
-/

import SeverinoHQ.Math.Replacer
import SeverinoHQ.Math.Sextets
import SeverinoHQ.Math.Run
import Mathlib.Data.List.Sort
import Mathlib.Data.List.Lex

namespace SeverinoHQ.Mask

open SeverinoHQ.Math
open SeverinoHQ.Math.Bytes (ascii cutPrefix)
open SeverinoHQ.Math.Sextets (Encoding stdLetter urlLetter sextets between)

/-- Values are told apart byte by byte. -/
local instance lawful_bytes : LawfulBEq Bytes := inferInstance

/-- How Go's packages write a value. -/
structure Writings where
  /-- `strconv.Quote`. -/
  quote : Bytes → Bytes
  /-- `strconv.QuoteToASCII`. -/
  quoteToASCII : Bytes → Bytes
  /-- `url.QueryEscape`. -/
  queryEscape : Bytes → Bytes
  /-- `url.PathEscape`. -/
  pathEscape : Bytes → Bytes
  /-- `json.Marshal`. -/
  marshal : Bytes → Option Bytes
  /-- `json.Encoder.Encode`, without the escapes of HTML. -/
  encode : Bytes → Option Bytes

/-- `Redacted`: what stands where a secret was. -/
def redacted : Bytes := ascii "[redacted]"

/-- The shortest form struck. -/
def minimum : Nat := 4

/-- `base64.StdEncoding` and `base64.URLEncoding`. -/
def encodings : List Encoding := [⟨stdLetter, true⟩, ⟨urlLetter, true⟩]

/-- `encoding.WithPadding(base64.NoPadding)`. -/
def withoutPadding (encoding : Encoding) : Encoding := { encoding with padded := false }

/-- `embedded`: the characters of the value's encoding that depend on it alone, for each of
the three alignments it can start at. -/
def embedded (encoding : Encoding) (value : Bytes) : List Bytes :=
  (List.range 3).flatMap fun offset =>
    let encoded := encoding.encode (List.replicate offset 0 ++ value)
    let start := (8 * offset + 5) / 6
    let upto := 8 * (offset + value.length) / 6
    if start < upto then [(encoded.take upto).drop start] else []

/-- A quoted text without its quotes, one at each end. -/
def trimQuotes (text : Bytes) : Bytes :=
  let text := (cutPrefix text [34]).getD text
  if [34].isSuffixOf text then text.dropLast else text

/-- Every form of a value, before the short and the repeated are left out. -/
def found (writings : Writings) (value : Bytes) : List Bytes :=
  [value, trimQuotes (writings.quote value), trimQuotes (writings.quoteToASCII value),
      writings.queryEscape value, writings.pathEscape value] ++
    (writings.marshal value).toList.map (fun quoted => (quoted.drop 1).dropLast) ++
    (writings.encode value).toList.map (fun quoted => ((Bytes.trimSpace quoted).drop 1).dropLast) ++
    encodings.flatMap fun encoding =>
      encoding.encode value :: embedded (withoutPadding encoding) value

/-- `forms`: a value as it is commonly written. -/
def forms (writings : Writings) (value : Bytes) : List Bytes :=
  if value.length < minimum then []
  else
    (found writings value).foldl
      (fun kept form => if minimum ≤ form.length ∧ form ∉ kept then kept ++ [form] else kept) []

/-- The order the forms are tried in: longest first, and by their bytes where two are as
long. -/
def Before (first second : Bytes) : Prop :=
  second.length < first.length ∨
    first.length = second.length ∧ first.map UInt8.toNat ≤ second.map UInt8.toNat

instance : DecidableRel Before := fun first second =>
  inferInstanceAs (Decidable (second.length < first.length ∨
    first.length = second.length ∧ first.map UInt8.toNat ≤ second.map UInt8.toNat))

instance : Std.Total Before where
  total first second := by
    unfold Before
    rcases Nat.lt_trichotomy first.length second.length with h | h | h
    · exact Or.inr (Or.inl h)
    · rcases le_total (first.map UInt8.toNat) (second.map UInt8.toNat) with hle | hle
      · exact Or.inl (Or.inr ⟨h, hle⟩)
      · exact Or.inr (Or.inr ⟨h.symm, hle⟩)
    · exact Or.inl (Or.inl h)

instance : IsTrans Bytes Before where
  trans first second third := by
    unfold Before
    rintro (h | ⟨h, hle⟩) (h' | ⟨h', hle'⟩)
    · exact Or.inl (h'.trans h)
    · exact Or.inl (h' ▸ h)
    · exact Or.inl (h ▸ h')
    · exact Or.inr ⟨h.trans h', hle.trans hle'⟩

/-- What the process has learned: the forms, and the replacer of them, none until one is. -/
structure Masker where
  learned : List Bytes
  replacer : Option (List Bytes)
  deriving DecidableEq, Repr

namespace Masker

/-- Nothing is learned. -/
def start : Masker := ⟨[], none⟩

/-- `Learn`. -/
def learn (writings : Writings) (masker : Masker) (values : List Bytes) : Masker :=
  let learned := (values.flatMap (forms writings)).foldl
    (fun learned form => if form ∈ learned then learned else learned ++ [form]) masker.learned
  if learned = masker.learned then masker
  else ⟨learned, some (learned.insertionSort Before)⟩

/-- `Text`. -/
def text (masker : Masker) (s : Bytes) : Bytes :=
  match masker.replacer with
  | some words => Replacer.replace words redacted s
  | none => s

/-- What becomes of each byte of a text. -/
def fates (masker : Masker) (s : Bytes) : List Replacer.Fate :=
  Replacer.fates (masker.replacer.getD []) 0 s

end Masker

/-! ## What is learned -/

theorem mem_forms {writings : Writings} {value form : Bytes} :
    form ∈ forms writings value ↔
      minimum ≤ value.length ∧ form ∈ found writings value ∧ minimum ≤ form.length := by
  have hkept : ∀ all kept : List Bytes, form ∈ all.foldl
      (fun kept form => if minimum ≤ form.length ∧ form ∉ kept then kept ++ [form] else kept) kept ↔
      form ∈ kept ∨ form ∈ all ∧ minimum ≤ form.length := by
    intro all
    induction all with
    | nil => simp
    | cons other all ih =>
        intro kept
        rw [List.foldl_cons, ih]
        by_cases hother : minimum ≤ other.length ∧ other ∉ kept
        · rw [if_pos hother]
          by_cases heq : form = other
          · simp [heq, hother.1]
          · simp [heq]
        · rw [if_neg hother]
          by_cases heq : form = other
          · subst heq
            by_cases hlong : minimum ≤ form.length
            · simp [not_and_not_right.mp hother hlong]
            · simp [hlong]
          · simp [heq]
  unfold forms
  by_cases hshort : value.length < minimum
  · simp [hshort, Nat.not_le.mpr hshort]
  · rw [if_neg hshort, hkept]
    simp [Nat.le_of_not_lt hshort]

theorem minimum_le_of_mem {writings : Writings} {value form : Bytes}
    (h : form ∈ forms writings value) : minimum ≤ form.length := (mem_forms.mp h).2.2

namespace Masker

variable {writings : Writings}

theorem mem_learn {masker : Masker} {values : List Bytes} {form : Bytes} :
    form ∈ (masker.learn writings values).learned ↔
      form ∈ masker.learned ∨ ∃ value ∈ values, form ∈ forms writings value := by
  have hadded : ∀ all learned : List Bytes, form ∈ all.foldl
      (fun learned form => if form ∈ learned then learned else learned ++ [form]) learned ↔
      form ∈ learned ∨ form ∈ all := by
    intro all
    induction all with
    | nil => simp
    | cons other all ih =>
        intro learned
        rw [List.foldl_cons, ih, List.mem_cons]
        by_cases hother : other ∈ learned
        · rw [if_pos hother]
          by_cases heq : form = other
          · simp [heq, hother]
          · simp [heq]
        · rw [if_neg hother, List.mem_append, List.mem_singleton, or_assoc]
  have hmem := hadded (values.flatMap (forms writings)) masker.learned
  rw [List.mem_flatMap] at hmem
  unfold learn
  dsimp only
  split
  · next hsame => rw [← hmem, hsame]
  · exact hmem

/-- Some values were learned, one call after the other, and nothing else. -/
def learnedBy (writings : Writings) (calls : List (List Bytes)) : Masker :=
  run (learn writings) start calls

theorem mem_learnedBy {calls : List (List Bytes)} {form : Bytes} :
    form ∈ (learnedBy writings calls).learned ↔
      ∃ values ∈ calls, ∃ value ∈ values, form ∈ forms writings value := by
  induction calls using List.reverseRecOn with
  | nil => simp [learnedBy, start]
  | append_singleton calls values ih =>
      rw [learnedBy, run_append, run_cons, run_nil, mem_learn]
      rw [learnedBy] at ih
      rw [ih]
      simp only [List.mem_append, List.mem_singleton, or_and_right, exists_or, exists_eq_left]

/-- The replacer is of what is learned, in the order it is tried. -/
theorem learnedBy_replacer (calls : List (List Bytes)) :
    (learnedBy writings calls).replacer.getD [] =
      (learnedBy writings calls).learned.insertionSort Before := by
  apply run_always fun masker : Masker =>
    masker.replacer.getD [] = masker.learned.insertionSort Before
  · intro masker values h
    unfold learn
    dsimp only
    split
    · exact h
    · rfl
  · rfl

/-- The replacer lists the forms longest first. -/
theorem learnedBy_longest (calls : List (List Bytes)) :
    ((learnedBy writings calls).replacer.getD []).Pairwise fun first second =>
      second.length ≤ first.length := by
  rw [learnedBy_replacer]
  have hsorted := List.pairwise_insertionSort Before (learnedBy writings calls).learned
  exact hsorted.imp fun h => h.elim Nat.le_of_lt fun h => Nat.le_of_eq h.1.symm

theorem mem_replacer {calls : List (List Bytes)} {form : Bytes} :
    form ∈ (learnedBy writings calls).replacer.getD [] ↔ form ∈ (learnedBy writings calls).learned := by
  rw [learnedBy_replacer, List.mem_insertionSort]

theorem ne_nil_of_learned {calls : List (List Bytes)} {form : Bytes}
    (h : form ∈ (learnedBy writings calls).learned) : form ≠ [] := by
  obtain ⟨values, -, value, -, hform⟩ := mem_learnedBy.mp h
  have hlong := minimum_le_of_mem hform
  rintro rfl
  simp [minimum] at hlong

/-- The replacer lists what is learned, longest first. -/
theorem learnedBy_lists (calls : List (List Bytes)) :
    Replacer.Lists ((learnedBy writings calls).replacer.getD [])
      fun form => form ∈ (learnedBy writings calls).learned where
  mem_iff _ := mem_replacer
  longest := learnedBy_longest calls
  ne_nil _ := ne_nil_of_learned

/-- A text is written with what is learned of it replaced. -/
theorem text_eq_replace (masker : Masker) (s : Bytes) :
    masker.text s = Replacer.replace (masker.replacer.getD []) redacted s := by
  unfold text
  cases masker.replacer with
  | some words => rfl
  | none =>
      have hkept : ∀ text : Bytes,
          Replacer.written redacted text (Replacer.fates [] 0 text) = text := by
        intro text
        induction text with
        | nil => simp [Replacer.written]
        | cons byte text ih => simpa [Replacer.fates, Replacer.written] using ih
      exact (hkept s).symm

/-- What is written of a text keeps and replaces its bytes by their fates. -/
theorem text_eq (masker : Masker) (s : Bytes) :
    masker.text s = Replacer.written redacted s (masker.fates s) := text_eq_replace masker s

/-! ## A form that stands in a text -/

/-- A form that stands in a text is struck: no byte of it is kept in what is written. -/
structure Strikes (masker : Masker) (before form after : Bytes) : Prop where
  written : masker.text (before ++ (form ++ after)) =
    Replacer.written redacted (before ++ (form ++ after)) (masker.fates (before ++ (form ++ after)))
  replaced : ∀ place < form.length,
    (masker.fates (before ++ (form ++ after)))[before.length + place]? ≠ some .kept

/-- No form that is taken before it leaves bytes of a form between: where the form begins inside one
that is taken, forms fill the text from the end of that one to its own. -/
def Clear (masker : Masker) (before form after : Bytes) : Prop :=
  Replacer.Clear (fun form => form ∈ masker.learned) (before ++ (form ++ after)) before.length form

/-- A form that is learned is struck exactly where it is clear. -/
theorem learnedBy_strikes_iff {calls : List (List Bytes)} {form : Bytes}
    (hform : form ∈ (learnedBy writings calls).learned) (before after : Bytes) :
    (learnedBy writings calls).Strikes before form after ↔
      (learnedBy writings calls).Clear before form after := by
  rw [Clear, ← (learnedBy_lists calls).not_kept_iff hform]
  exact ⟨Strikes.replaced, fun h => ⟨text_eq _ _, h⟩⟩

end Masker

/-! ## A value inside a longer encoding -/

/-- What a value is embedded as stands in every encoding of a text that holds it. -/
theorem embedded_infix (encoding : Encoding) {value : Bytes} (hlong : minimum ≤ value.length)
    (before after : Bytes) :
    ∃ form ∈ embedded (withoutPadding encoding) value, minimum ≤ form.length ∧
      form <:+: encoding.encode (before ++ value ++ after) := by
  have hoffset : before.length % 3 < 3 := Nat.mod_lt _ (by omega)
  have hrun := Sextets.between_infix value before after rfl
  generalize before.length % 3 = offset at hoffset hrun
  have hstart : (8 * offset + 5) / 6 + 4 ≤ 8 * (offset + value.length) / 6 := by
    unfold minimum at hlong
    omega
  have hform : (((withoutPadding encoding).encode (List.replicate offset 0 ++ value)).take
      (8 * (offset + value.length) / 6)).drop ((8 * offset + 5) / 6) =
      (between ((8 * offset + 5) / 6) (8 * (offset + value.length) / 6)
        (sextets (List.replicate offset 0 ++ value))).map encoding.letter := by
    simp [Encoding.encode, withoutPadding, between, List.map_take, List.map_drop]
  refine ⟨(((withoutPadding encoding).encode (List.replicate offset 0 ++ value)).take
      (8 * (offset + value.length) / 6)).drop ((8 * offset + 5) / 6),
    List.mem_flatMap.mpr ⟨offset, List.mem_range.mpr hoffset, ?_⟩, ?_, ?_⟩
  · rw [if_pos (by omega)]
    exact List.mem_singleton_self _
  · rw [hform, List.length_map, between, List.length_drop, List.length_take,
      Sextets.length_sextets, List.length_append, List.length_replicate]
    unfold minimum
    omega
  · rw [hform, Encoding.encode]
    exact (hrun.map encoding.letter).trans (List.prefix_append _ _).isInfix

end SeverinoHQ.Mask
