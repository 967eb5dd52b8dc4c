/-
# Python's text methods

The methods of `str` over a text's letters. Which letters are spaces is written out; how a
letter is lowered is read from Unicode's tables, with what those say of ASCII and of spaces.
-/

import Mathlib.Data.Bool.AllAny
import Mathlib.Data.List.Basic
import Mathlib.Data.List.TakeWhile

namespace SeverinoHQ.Math.Letters

/-- `str.isspace`, of one letter. -/
def isSpace (c : Char) : Bool :=
  c.toNat ∈ [0x20, 0x85, 0xa0, 0x1680, 0x2028, 0x2029, 0x202f, 0x205f, 0x3000] ||
    0x09 ≤ c.toNat && c.toNat ≤ 0x0d || 0x1c ≤ c.toNat && c.toNat ≤ 0x1f ||
    0x2000 ≤ c.toNat && c.toNat ≤ 0x200a

/-- Universal newlines: a carriage return, and the line feed after it, are a line feed. -/
def universalNewlines : List Char → List Char
  | '\r' :: '\n' :: rest => '\n' :: universalNewlines rest
  | '\r' :: rest => '\n' :: universalNewlines rest
  | c :: rest => c :: universalNewlines rest
  | [] => []

/-! ## The ends of a text -/

/-- `text.strip()`. -/
def strip (text : List Char) : List Char :=
  ((text.dropWhile isSpace).reverse.dropWhile isSpace).reverse

/-- No space stands at either end. -/
def Bare (text : List Char) : Prop :=
  (∀ c ∈ text.head?, isSpace c = false) ∧ ∀ c ∈ text.getLast?, isSpace c = false

instance (text : List Char) : Decidable (Bare text) :=
  @instDecidableAnd _ _ (Option.decidableForallMem _) (Option.decidableForallMem _)

theorem dropWhile_of_head {text : List Char} (h : ∀ c ∈ text.head?, isSpace c = false) :
    text.dropWhile isSpace = text := by
  cases text with
  | nil => rfl
  | cons c text => simp [h c rfl]

theorem strip_of_bare {text : List Char} (h : Bare text) : strip text = text := by
  rw [strip, dropWhile_of_head h.1, dropWhile_of_head, List.reverse_reverse]
  simpa using h.2

theorem head_dropWhile (text : List Char) :
    ∀ c ∈ (text.dropWhile isSpace).head?, isSpace c = false := by
  intro c hc
  have hnot := List.head?_dropWhile_not isSpace text
  rw [Option.mem_def.mp hc] at hnot
  simpa using hnot

/-- What is stripped of its spaces has none at its ends. -/
theorem bare_strip (text : List Char) : Bare (strip text) := by
  constructor
  · intro c hc
    have hlead : (strip text) <+: text.dropWhile isSpace := by
      rw [strip, ← List.reverse_suffix, List.reverse_reverse]
      exact List.dropWhile_suffix _
    obtain ⟨rest, hrest⟩ := hlead
    apply head_dropWhile text
    rw [← hrest, List.head?_append, Option.mem_def.mp hc]
    rfl
  · intro c hc
    apply head_dropWhile (text.dropWhile isSpace).reverse
    simpa [strip] using hc

/-- What is left of a text that begins with no space begins as the text does. -/
theorem strip_leads {text : List Char} (h : ∀ c ∈ text.head?, isSpace c = false) :
    strip text <+: text := by
  rw [strip, dropWhile_of_head h, ← List.reverse_suffix, List.reverse_reverse]
  exact List.dropWhile_suffix _

theorem strip_within (text : List Char) : strip text <:+: text := by
  have hlead : strip text <+: text.dropWhile isSpace := by
    rw [strip, ← List.reverse_suffix, List.reverse_reverse]
    exact List.dropWhile_suffix _
  exact hlead.isInfix.trans (List.dropWhile_suffix isSpace).isInfix

theorem strip_sublist (text : List Char) : (strip text).Sublist text := by
  have hend := (List.dropWhile_sublist isSpace (l := (text.dropWhile isSpace).reverse)).reverse
  rw [List.reverse_reverse] at hend
  exact hend.trans (List.dropWhile_sublist isSpace)

theorem mem_of_mem_strip {c : Char} {text : List Char} (h : c ∈ strip text) : c ∈ text :=
  (strip_sublist text).mem h

/-- Spaces before a text are stripped with it. -/
theorem strip_cons_space {c : Char} (h : isSpace c = true) (text : List Char) :
    strip (c :: text) = strip text := by
  simp [strip, h]

theorem bare_append {first last : List Char} (hfirst : Bare first) (hfirstNe : first ≠ [])
    (middle : List Char) (hlast : Bare last) (hlastNe : last ≠ []) :
    Bare (first ++ middle ++ last) := by
  constructor
  · obtain ⟨c, rest, rfl⟩ := List.exists_cons_of_ne_nil hfirstNe
    exact hfirst.1
  · rw [List.getLast?_append_of_ne_nil _ hlastNe]
    exact hlast.2

theorem bare_intercalate (separator : List Char) {part : List Char} {parts : List (List Char)}
    (h : ∀ other ∈ part :: parts, Bare other ∧ other ≠ []) :
    Bare (separator.intercalate (part :: parts)) ∧ separator.intercalate (part :: parts) ≠ [] := by
  have hpart := h part List.mem_cons_self
  induction parts generalizing part with
  | nil => simpa using hpart
  | cons next parts ih =>
      have hnext := ih (fun other hother => h other (List.mem_cons_of_mem _ hother))
        (h next (List.mem_cons_of_mem _ List.mem_cons_self))
      rw [List.intercalate_cons_cons]
      refine ⟨bare_append hpart.1 hpart.2 separator hnext.1 hnext.2, ?_⟩
      simp [hpart.2]

theorem mem_of_mem_intercalate {separator : List Char} {parts : List (List Char)} {c : Char}
    (h : c ∈ separator.intercalate parts) : c ∈ separator ∨ ∃ part ∈ parts, c ∈ part := by
  induction parts with
  | nil => simp at h
  | cons part parts ih =>
      cases parts with
      | nil =>
          rw [List.intercalate_singleton] at h
          exact .inr ⟨part, List.mem_cons_self, h⟩
      | cons next parts =>
          rw [List.intercalate_cons_cons, List.mem_append, List.mem_append] at h
          rcases h with (hpart | hseparator) | hrest
          · exact .inr ⟨part, List.mem_cons_self, hpart⟩
          · exact .inl hseparator
          · refine (ih hrest).imp id ?_
            rintro ⟨other, hother, hmem⟩
            exact ⟨other, List.mem_cons_of_mem _ hother, hmem⟩

/-! ## Parts -/

/-- `text.partition(separator)`, without the separator. -/
def partition (separator : Char) (text : List Char) : List Char × List Char :=
  (text.takeWhile (· != separator), (text.dropWhile (· != separator)).drop 1)

theorem partition_append {separator : Char} {first : List Char} (h : separator ∉ first)
    (rest : List Char) : partition separator (first ++ separator :: rest) = (first, rest) := by
  have hall : ∀ c ∈ first, (c != separator) = true := by
    intro c hc
    rw [bne_iff_ne]
    rintro rfl
    exact h hc
  rw [partition, List.dropWhile_append_of_pos hall, List.takeWhile_append_of_pos hall]
  simp

theorem partition_of_not_mem {separator : Char} {text : List Char} (h : separator ∉ text) :
    partition separator text = (text, []) := by
  have hall : ∀ c ∈ text, (c != separator) = true := by
    intro c hc
    rw [bne_iff_ne]
    rintro rfl
    exact h hc
  have htake : text.takeWhile (· != separator) = text := List.takeWhile_eq_self_iff.mpr hall
  have hdrop : text.dropWhile (· != separator) = [] := List.dropWhile_eq_nil_iff.mpr hall
  rw [partition, htake, hdrop, List.drop_nil]

theorem partition_of_mem {separator : Char} {text : List Char} (h : separator ∈ text) :
    text = (partition separator text).1 ++ separator :: (partition separator text).2 := by
  obtain ⟨first, rest, rfl, hfirst⟩ := List.eq_append_cons_of_mem h
  rw [partition_append hfirst]

theorem not_mem_partition (separator : Char) (text : List Char) :
    separator ∉ (partition separator text).1 := by
  intro hmem
  have hne := List.mem_takeWhile_imp hmem
  simp at hne

theorem partition_subset (separator : Char) (text : List Char) :
    (∀ c ∈ (partition separator text).1, c ∈ text) ∧
      ∀ c ∈ (partition separator text).2, c ∈ text := by
  constructor
  · intro c hc
    exact (List.takeWhile_sublist _).mem hc
  · intro c hc
    exact (List.dropWhile_sublist _).mem (List.mem_of_mem_drop hc)

/-- What is split off a text holds its letters, and none of those it is split at. -/
theorem mem_of_mem_splitOnP {splits : Char → Bool} {text part : List Char}
    (h : part ∈ text.splitOnP splits) : ∀ c ∈ part, splits c = false ∧ c ∈ text := by
  induction text generalizing part with
  | nil =>
      obtain rfl : part = [] := by simpa [List.splitOnP_nil] using h
      simp
  | cons first text ih =>
      intro c hc
      rw [List.splitOnP_cons_eq_if_modifyHead] at h
      obtain ⟨start, others, hsplit⟩ := List.exists_cons_of_ne_nil (List.splitOnP_ne_nil splits text)
      rw [hsplit] at h ih
      have hrest : ∀ part' ∈ start :: others, c ∈ part' → splits c = false ∧ c ∈ first :: text :=
        fun part' hpart' hmem =>
          (ih hpart' c hmem).imp id (List.mem_cons_of_mem first)
      by_cases hfirst : splits first = true
      · rw [if_pos hfirst, List.mem_cons] at h
        rcases h with rfl | h
        · simp at hc
        · exact hrest part h hc
      · rw [if_neg hfirst, List.modifyHead_cons, List.mem_cons] at h
        rcases h with rfl | h
        · rcases List.mem_cons.mp hc with rfl | hc
          · exact ⟨by simpa using hfirst, List.mem_cons_self⟩
          · exact hrest start List.mem_cons_self hc
        · exact hrest part (List.mem_cons_of_mem _ h) hc

/-- `text.split()`. -/
def words (text : List Char) : List (List Char) :=
  (text.splitOnP isSpace).filter fun word => !word.isEmpty

/-- The words on both sides of a space. -/
theorem words_append_space {c : Char} (h : isSpace c = true) (first rest : List Char) :
    words (first ++ c :: rest) = words first ++ words rest := by
  rw [words, List.splitOnP_append_cons first rest h, List.filter_append]
  rfl

theorem words_spaces {text : List Char} (h : ∀ c ∈ text, isSpace c = true) : words text = [] := by
  induction text with
  | nil => simp [words, List.splitOnP_nil]
  | cons c text ih =>
      have hspace := words_append_space (h c List.mem_cons_self) [] text
      rw [List.nil_append] at hspace
      rw [hspace, ih fun d hd => h d (List.mem_cons_of_mem c hd)]
      simp [words, List.splitOnP_nil]

theorem words_word {text : List Char} (hne : text ≠ []) (h : ∀ c ∈ text, isSpace c = false) :
    words text = [text] := by
  rw [words, List.splitOnP_eq_singleton h]
  simp [hne]

theorem words_append_spaces (text : List Char) {spaces : List Char}
    (h : ∀ c ∈ spaces, isSpace c = true) : words (text ++ spaces) = words text := by
  cases spaces with
  | nil => rw [List.append_nil]
  | cons c spaces =>
      rw [words_append_space (h c List.mem_cons_self),
        words_spaces fun d hd => h d (List.mem_cons_of_mem c hd), List.append_nil]

theorem words_spaces_append {spaces : List Char} (h : ∀ c ∈ spaces, isSpace c = true)
    (text : List Char) : words (spaces ++ text) = words text := by
  induction spaces with
  | nil => rfl
  | cons c spaces ih =>
      have hspace := words_append_space (h c List.mem_cons_self) [] (spaces ++ text)
      have hnil : words [] = [] := words_spaces (by simp)
      rw [hnil, List.nil_append, List.nil_append] at hspace
      rw [List.cons_append, hspace, ih fun d hd => h d (List.mem_cons_of_mem c hd)]

theorem words_strip (text : List Char) : words (strip text) = words text := by
  have hlead := List.takeWhile_append_dropWhile (p := isSpace) (l := text)
  have htrail := List.takeWhile_append_dropWhile (p := isSpace)
    (l := (text.dropWhile isSpace).reverse)
  have hrest : text.dropWhile isSpace =
      strip text ++ ((text.dropWhile isSpace).reverse.takeWhile isSpace).reverse := by
    rw [strip, ← List.reverse_append, htrail, List.reverse_reverse]
  conv_rhs => rw [← hlead, hrest]
  rw [words_spaces_append (fun c hc => List.mem_takeWhile_imp hc), words_append_spaces]
  intro c hc
  exact List.mem_takeWhile_imp (List.mem_reverse.mp hc)

/-- `text.replace(word, "")`: the letters still to be passed are those of a word found. -/
def without (word : List Char) : Nat → List Char → List Char
  | _, [] => []
  | skip + 1, _ :: rest => without word skip rest
  | 0, c :: rest =>
      if word.isPrefixOf (c :: rest) then without word (word.length - 1) rest
      else c :: without word 0 rest

theorem without_of_absent {word text : List Char} (h : ¬ word <:+: text) :
    without word 0 text = text := by
  induction text with
  | nil => rfl
  | cons c text ih =>
      have hstart : word.isPrefixOf (c :: text) = false := by
        rw [Bool.eq_false_iff, ne_eq, List.isPrefixOf_iff_prefix]
        exact fun hstart => h hstart.isInfix
      have hrest : ¬ word <:+: text := fun hrest => h (hrest.trans (List.suffix_cons c text).isInfix)
      rw [without, hstart, ih hrest]
      rfl

/-! ## Lowering -/

/-- A text lowered letter by letter, each by what stands before and after it. -/
def lowerFrom (lowered : List Char → Char → List Char → List Char) (before : List Char) :
    List Char → List Char
  | [] => []
  | c :: after => lowered before c after ++ lowerFrom lowered (before ++ [c]) after

theorem isUpper_iff {c : Char} : c.isUpper = true ↔ 65 ≤ c.toNat ∧ c.toNat ≤ 90 := by
  change decide (c.val ≥ 65 ∧ c.val ≤ 90) = true ↔ _
  simp [UInt32.le_iff_toNat_le]

theorem isLower_iff {c : Char} : c.isLower = true ↔ 97 ≤ c.toNat ∧ c.toNat ≤ 122 := by
  change (decide (c.val ≥ 97) && decide (c.val ≤ 122)) = true ↔ _
  simp [UInt32.le_iff_toNat_le]

theorem isDigit_iff {c : Char} : c.isDigit = true ↔ 0x30 ≤ c.toNat ∧ c.toNat ≤ 0x39 := by
  simp [Char.isDigit, UInt32.le_iff_toNat_le]

theorem isAlpha_iff {c : Char} : c.isAlpha = true ↔
    65 ≤ c.toNat ∧ c.toNat ≤ 90 ∨ 97 ≤ c.toNat ∧ c.toNat ≤ 122 := by
  change (c.isUpper || c.isLower) = true ↔ _
  rw [Bool.or_eq_true, isUpper_iff, isLower_iff]

theorem isAlpha_of_isLower {c : Char} (h : c.isLower = true) : c.isAlpha = true :=
  isAlpha_iff.mpr (Or.inr (isLower_iff.mp h))

theorem toNat_toLower (c : Char) :
    c.toLower.toNat = if 65 ≤ c.toNat ∧ c.toNat ≤ 90 then c.toNat + 32 else c.toNat := by
  unfold Char.toLower
  split
  · next h =>
      have hsum : (c.val + 32).toNat = (c.val.toNat + 32) % 4294967296 := UInt32.toNat_add _ _
      simp only [UInt32.le_iff_toNat_le, ge_iff_le, Char.toNat_val] at h hsum
      have hupper : 65 ≤ c.toNat ∧ c.toNat ≤ 90 := h
      rw [if_pos hupper]
      change (c.val + 32).toNat = c.toNat + 32
      omega
  · next h =>
      simp only [UInt32.le_iff_toNat_le, ge_iff_le, Char.toNat_val] at h
      have hupper : ¬ (65 ≤ c.toNat ∧ c.toNat ≤ 90) := h
      rw [if_neg hupper]

theorem toLower_eq_self {c : Char} (h : ¬ (65 ≤ c.toNat ∧ c.toNat ≤ 90)) : c.toLower = c := by
  apply Char.toNat_inj.mp
  rw [toNat_toLower, if_neg h]

theorem toLower_toLower (c : Char) : c.toLower.toLower = c.toLower := by
  apply toLower_eq_self
  rw [toNat_toLower]
  split <;> omega

/-- A mark that is no letter is lowered to only by itself. -/
theorem toLower_eq_mark {c mark : Char} (h : mark.isAlpha = false) : c.toLower = mark ↔ c = mark := by
  rw [Bool.eq_false_iff, ne_eq, isAlpha_iff] at h
  constructor
  · rintro rfl
    rw [toNat_toLower] at h
    rw [toLower_eq_self]
    intro hupper
    rw [if_pos hupper] at h
    omega
  · rintro rfl
    exact toLower_eq_self (by omega)

theorem isAlpha_of_isSpace {c : Char} (h : isSpace c = true) : c.isAlpha = false := by
  rw [Bool.eq_false_iff]
  intro halpha
  rw [isAlpha_iff] at halpha
  simp only [isSpace, List.mem_cons, List.not_mem_nil, or_false, Bool.or_eq_true,
    Bool.and_eq_true, decide_eq_true_eq] at h
  omega

/-- What Unicode's tables say a letter is lowered to, among the letters around it. -/
structure Casing where
  lowered : List Char → Char → List Char → List Char
  ascii : ∀ before c after, c.toNat < 128 → lowered before c after = [c.toLower]
  space : ∀ before c after, isSpace c = true → lowered before c after = [c]
  /-- Beyond ASCII a letter is lowered to lowercase letters, or to others beyond ASCII. -/
  beyond : ∀ before c after, 128 ≤ c.toNat → isSpace c = false → ∀ d ∈ lowered before c after,
    d.isLower = true ∨ 128 ≤ d.toNat ∧ isSpace d = false
  lowered_ne_nil : ∀ before c after, lowered before c after ≠ []
  lowered_again : ∀ text,
    lowerFrom lowered [] (lowerFrom lowered [] text) = lowerFrom lowered [] text

namespace Casing

theorem lowerFrom_map (lowered : Char → Char) (before text : List Char) :
    lowerFrom (fun _ c _ => [lowered c]) before text = text.map lowered := by
  induction text generalizing before with
  | nil => rfl
  | cons c text ih => simp [lowerFrom, ih]

/-- The letters of ASCII lowered, and the others left. -/
def plain : Casing where
  lowered _ c _ := [c.toLower]
  ascii _ _ _ _ := rfl
  space _ c _ h := by
    have halpha := isAlpha_of_isSpace h
    rw [Bool.eq_false_iff, ne_eq, isAlpha_iff] at halpha
    rw [toLower_eq_self (by omega)]
  beyond _ c _ h hspace d hd := by
    rw [toLower_eq_self (by omega), List.mem_singleton] at hd
    subst hd
    exact .inr ⟨h, hspace⟩
  lowered_ne_nil _ _ _ := List.cons_ne_nil _ _
  lowered_again text := by
    rw [lowerFrom_map, lowerFrom_map, List.map_map]
    apply List.map_congr_left
    intro c _
    exact toLower_toLower c

variable (casing : Casing)

/-- `text.lower()`. -/
def lower (text : List Char) : List Char := lowerFrom casing.lowered [] text

theorem lower_lower (text : List Char) : casing.lower (casing.lower text) = casing.lower text :=
  casing.lowered_again text

theorem lowerFrom_eq_nil {before text : List Char} :
    lowerFrom casing.lowered before text = [] ↔ text = [] := by
  cases text with
  | nil => simp [lowerFrom]
  | cons c text => simp [lowerFrom, casing.lowered_ne_nil]

/-- A text in ASCII is lowered letter by letter. -/
theorem lowerFrom_ascii {text : List Char} (h : ∀ c ∈ text, c.toNat < 128) (before : List Char) :
    lowerFrom casing.lowered before text = text.map Char.toLower := by
  induction text generalizing before with
  | nil => rfl
  | cons c text ih =>
      rw [lowerFrom, casing.ascii _ _ _ (h c List.mem_cons_self),
        ih fun d hd => h d (List.mem_cons_of_mem _ hd)]
      rfl

/-- What a lowered letter holds that is a space, or in ASCII and no letter, is the letter itself. -/
theorem eq_of_mem_lowered {before after : List Char} {c d : Char}
    (hd : d ∈ casing.lowered before c after)
    (hmark : isSpace d = true ∨ d.toNat < 128 ∧ d.isAlpha = false) : d = c := by
  have halpha : d.isAlpha = false := hmark.elim isAlpha_of_isSpace And.right
  rw [Bool.eq_false_iff, ne_eq, isAlpha_iff] at halpha
  by_cases hspace : isSpace c = true
  · rw [casing.space _ _ _ hspace] at hd
    exact List.mem_singleton.mp hd
  · by_cases hascii : c.toNat < 128
    · rw [casing.ascii _ _ _ hascii, List.mem_singleton] at hd
      subst hd
      rw [toNat_toLower] at halpha
      apply toLower_eq_self
      intro hupper
      rw [if_pos hupper] at halpha
      omega
    · rcases casing.beyond _ _ _ (by omega) (by simpa using hspace) d hd with hlower | ⟨hbeyond, hnot⟩
      · rw [isLower_iff] at hlower
        omega
      · rcases hmark with hmark | ⟨hmark, -⟩
        · simp [hmark] at hnot
        · omega

theorem mem_of_mem_lowerFrom {before text : List Char} {d : Char}
    (hd : d ∈ lowerFrom casing.lowered before text)
    (hmark : isSpace d = true ∨ d.toNat < 128 ∧ d.isAlpha = false) : d ∈ text := by
  induction text generalizing before with
  | nil => simp [lowerFrom] at hd
  | cons c text ih =>
      rw [lowerFrom, List.mem_append] at hd
      rcases hd with hfirst | hrest
      · rw [casing.eq_of_mem_lowered hfirst hmark]
        exact List.mem_cons_self
      · exact List.mem_cons_of_mem _ (ih hrest)

/-- The last letter of a lowered text is one that its last letter is lowered to. -/
theorem last_lowerFrom {before text : List Char} {d : Char}
    (hd : d ∈ (lowerFrom casing.lowered before text).getLast?) :
    ∃ before' c, c ∈ text.getLast? ∧ d ∈ casing.lowered before' c [] := by
  induction text generalizing before with
  | nil => simp [lowerFrom] at hd
  | cons c text ih =>
      rw [lowerFrom] at hd
      cases text with
      | nil =>
          rw [lowerFrom, List.append_nil] at hd
          exact ⟨before, c, rfl, List.mem_of_getLast? hd⟩
      | cons next text =>
          have hne : lowerFrom casing.lowered (before ++ [c]) (next :: text) ≠ [] := by
            rw [ne_eq, lowerFrom_eq_nil]
            exact List.cons_ne_nil _ _
          rw [List.getLast?_append_of_ne_nil _ hne] at hd
          obtain ⟨before', last, hlast, hlowered⟩ := ih hd
          exact ⟨before', last, by simpa using hlast, hlowered⟩

/-- Lowering puts no space at the ends of a text. -/
theorem bare_lower {text : List Char} (h : Bare text) : Bare (casing.lower text) := by
  constructor
  · intro d hd
    by_contra hspace
    rw [Bool.not_eq_false] at hspace
    cases text with
    | nil => simp [lower, lowerFrom] at hd
    | cons c text =>
        have hlowered : d ∈ casing.lowered [] c text := by
          obtain ⟨first, others, hfirst⟩ :=
            List.exists_cons_of_ne_nil (casing.lowered_ne_nil [] c text)
          rw [lower, lowerFrom, hfirst] at hd
          obtain rfl : first = d := by simpa using hd
          simp [hfirst]
        have hsame := casing.eq_of_mem_lowered hlowered (.inl hspace)
        subst hsame
        simp [h.1 d rfl] at hspace
  · intro d hd
    by_contra hspace
    rw [Bool.not_eq_false] at hspace
    obtain ⟨before, c, hc, hlowered⟩ := casing.last_lowerFrom hd
    obtain rfl := casing.eq_of_mem_lowered hlowered (.inl hspace)
    simp [h.2 d hc] at hspace

end Casing

/-- A text and what it is lowered to: a mark stands for itself, and nothing else becomes one. -/
inductive Lowers (isMark : Char → Bool) : List Char → List Char → Prop
  | nil : Lowers isMark [] []
  | cons {c : Char} {image text lowered : List Char} :
      image ≠ [] → (isMark c = true → image = [c]) → (∀ d ∈ image, isMark d = true → d = c) →
        Lowers isMark text lowered → Lowers isMark (c :: text) (image ++ lowered)

namespace Lowers

variable {isMark : Char → Bool} {text lowered : List Char}

theorem append_inv {first rest : List Char} (h : Lowers isMark (first ++ rest) lowered) :
    ∃ start left, lowered = start ++ left ∧ Lowers isMark first start ∧ Lowers isMark rest left := by
  induction first generalizing lowered with
  | nil => exact ⟨[], lowered, rfl, .nil, h⟩
  | cons c first ih =>
      cases h with
      | cons hne hkept honly hrest =>
          obtain ⟨start, left, rfl, hstart, hleft⟩ := ih hrest
          exact ⟨_, left, (List.append_assoc _ _ _).symm, .cons hne hkept honly hstart, hleft⟩

theorem mark_inv {mark : Char} (hmark : isMark mark = true)
    (h : Lowers isMark (mark :: text) lowered) :
    ∃ rest, lowered = mark :: rest ∧ Lowers isMark text rest := by
  cases h with
  | cons hne hkept honly hrest => exact ⟨_, by rw [hkept hmark]; rfl, hrest⟩

theorem eq_nil_iff (h : Lowers isMark text lowered) : lowered = [] ↔ text = [] := by
  cases h with
  | nil => simp
  | cons hne => simp [hne]

/-- A class of marks holds of every letter of the one as of the other. -/
theorem forall_iff {kind : Char → Prop} (hkind : ∀ c, kind c → isMark c = true)
    (h : Lowers isMark text lowered) : (∀ c ∈ lowered, kind c) ↔ ∀ c ∈ text, kind c := by
  induction h with
  | nil => simp
  | @cons c image text lowered hne hkept honly _ ih =>
      have himage : (∀ d ∈ image, kind d) ↔ kind c := by
        constructor
        · intro hall
          obtain ⟨d, rest, rfl⟩ := List.exists_cons_of_ne_nil hne
          have hd := hall d List.mem_cons_self
          exact honly d List.mem_cons_self (hkind d hd) ▸ hd
        · intro hc
          rw [hkept (hkind c hc)]
          simpa using hc
      simp only [List.mem_append, or_imp, forall_and, List.mem_cons, forall_eq, ih, himage]

theorem count_eq {mark : Char} (hmark : isMark mark = true) (h : Lowers isMark text lowered) :
    lowered.count mark = text.count mark := by
  induction h with
  | nil => rfl
  | @cons c image text lowered hne hkept honly _ ih =>
      rw [List.count_append, ih]
      by_cases hc : c = mark
      · rw [hkept (hc ▸ hmark), List.count_cons, List.count_cons, List.count_nil]
        omega
      · have hnone : image.count mark = 0 := by
          rw [List.count_eq_zero]
          exact fun hmem => hc (honly mark hmem hmark).symm
        rw [hnone, Nat.zero_add, List.count_cons_of_ne hc]

theorem mem_iff {mark : Char} (hmark : isMark mark = true) (h : Lowers isMark text lowered) :
    mark ∈ lowered ↔ mark ∈ text := by
  rw [← List.count_pos_iff, ← List.count_pos_iff, h.count_eq hmark]

theorem head_iff {mark : Char} (hmark : isMark mark = true) (h : Lowers isMark text lowered) :
    lowered.head? = some mark ↔ text.head? = some mark := by
  cases h with
  | nil => simp
  | @cons c image text lowered hne hkept honly _ =>
      obtain ⟨d, rest, rfl⟩ := List.exists_cons_of_ne_nil hne
      simp only [List.cons_append, List.head?_cons, Option.some.injEq]
      constructor
      · rintro rfl
        exact (honly d List.mem_cons_self hmark).symm
      · rintro rfl
        have himage := hkept hmark
        simpa using congrArg List.head? himage

/-- A leading mark is dropped from both. -/
theorem dropWhile_mark {mark : Char} (hmark : isMark mark = true) (h : Lowers isMark text lowered) :
    Lowers isMark (text.dropWhile (· == mark)) (lowered.dropWhile (· == mark)) := by
  induction h with
  | nil => exact .nil
  | @cons c image text lowered hne hkept honly hrest ih =>
      by_cases hc : c = mark
      · rw [hkept (hc ▸ hmark), hc]
        simpa using ih
      · obtain ⟨d, rest, rfl⟩ := List.exists_cons_of_ne_nil hne
        have hd : ¬ d = mark := by
          rintro rfl
          exact hc (honly d List.mem_cons_self hmark).symm
        have hsame := Lowers.cons hne hkept honly hrest
        simpa [hc, hd] using hsame

end Lowers

namespace Casing

/-- Lowering keeps every mark of ASCII, and any other letters that stand for themselves. -/
theorem lowerFrom_lowers (casing : Casing) {isMark : Char → Bool}
    (hkept : ∀ before c after, isMark c = true → casing.lowered before c after = [c])
    (honly : ∀ before c after, ∀ d ∈ casing.lowered before c after, isMark d = true → d = c)
    (before text : List Char) : Lowers isMark text (lowerFrom casing.lowered before text) := by
  induction text generalizing before with
  | nil => exact .nil
  | cons c text ih =>
      exact .cons (casing.lowered_ne_nil before c text) (hkept before c text) (honly before c text)
        (ih _)

end Casing

end SeverinoHQ.Math.Letters
