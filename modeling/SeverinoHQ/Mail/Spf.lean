/-
# What an SPF record says, and the lookups it costs

A record of the SPF grammar read and written back reads the same. It says the same, and its
lookups are all counted, exactly where no modifier loses something of what it says and no
costly term hides its name behind a prefix length or an equals sign.
-/

import SeverinoHQ.Mail.Policy
import Mathlib.Data.List.Chain

namespace SeverinoHQ.Mail

open SeverinoHQ.Math
open SeverinoHQ.Math.Letters

/-- Texts are told apart letter by letter. -/
local instance lawful_letters : LawfulBEq (List Char) := inferInstance

/-! ## The grammar -/

/-- A name: a letter, then letters, digits and a few marks. -/
structure Name where
  first : Char
  rest : List Char
  starts : first.isAlpha = true
  named : ∀ c ∈ rest, c.isAlphanum = true ∨ c ∈ ['-', '_', '.']

/-- The letters of a name. -/
def Name.letters (name : Name) : List Char := name.first :: name.rest

/-- A text of visible letters. -/
structure Visible where
  letters : List Char
  visible : ∀ c ∈ letters, 0x21 ≤ c.toNat ∧ c.toNat ≤ 0x7e

/-- A qualifier. -/
inductive Qualifier where
  | pass
  | fail
  | softfail
  | neutral
  deriving DecidableEq, Repr

/-- The sign of a qualifier. -/
def Qualifier.sign : Qualifier → Char
  | .pass => '+'
  | .fail => '-'
  | .softfail => '~'
  | .neutral => '?'

/-- A directive: a mechanism, with what may follow its name. -/
structure Directive where
  qualifier : Option Qualifier
  name : Name
  domain : Option Visible
  domain_ne : ∀ text ∈ domain, text.letters ≠ []
  cidr4 : Option Nat
  cidr6 : Option Nat

/-- The prefix lengths of a directive. -/
def Directive.lengths (mechanism : Directive) : List Char :=
  (mechanism.cidr4.elim [] fun length => '/' :: Nat.toDigits 10 length) ++
    mechanism.cidr6.elim [] fun length => '/' :: '/' :: Nat.toDigits 10 length

/-- A term of a record. -/
inductive Term where
  | directive (mechanism : Directive)
  | modifier (name : Name) (value : Visible)

namespace Term

/-- The qualifier a term is written with. -/
def qualifier : Term → Option Qualifier
  | .directive mechanism => mechanism.qualifier
  | .modifier _ _ => none

/-- A term after its qualifier. -/
def body : Term → List Char
  | .directive mechanism =>
      mechanism.name.letters ++ ((mechanism.domain.elim [] fun text => ':' :: text.letters) ++
        mechanism.lengths)
  | .modifier name value => name.letters ++ '=' :: value.letters

/-- A term as a record writes it. -/
def text (term : Term) : List Char :=
  (term.qualifier.elim [] fun qualifier => [qualifier.sign]) ++ term.body

/-- A term that costs a lookup: a mechanism of the list, or a redirect. -/
def costs : Term → Bool
  | .directive mechanism => mechanism.name.letters.map Char.toLower ∈ spfLookupMechanisms
  | .modifier name _ => name.letters.map Char.toLower = "redirect".toList

end Term

/-- An SPF record: its version in any case, and its terms with the spaces before each, one
aside, and those after the last. -/
structure Record where
  version : List Char
  version_lower : version.map Char.toLower = spfVersion
  terms : List (Nat × Term)
  trailing : Nat

/-- Words with the spaces before each, one aside. -/
def spaced (pieces : List (Nat × List Char)) (trailing : Nat) : List Char :=
  pieces.flatMap (fun piece => ' ' :: (List.replicate piece.1 ' ' ++ piece.2)) ++
    List.replicate trailing ' '

/-- The text of a record. -/
def Record.text (record : Record) : List Char :=
  record.version ++ spaced (record.terms.map fun piece => (piece.1, piece.2.text)) record.trailing

/-- The lookups a record costs. -/
def Record.lookups (record : Record) : Nat :=
  (record.terms.filter fun piece => piece.2.costs).length

/-! ## What a term says -/

/-- Where a letter of a domain stands: the one after `%{` is a macro's. -/
inductive Place where
  | text
  | percent
  | letter
  deriving DecidableEq, Repr

/-- The place after a letter. -/
def Place.next : Place → Char → Place
  | .text, c => if c = '%' then .percent else .text
  | .percent, c => if c = '{' then .letter else .text
  | .letter, _ => .text

/-- A text by what it says: a macro's letter is read in its case, and no other is. -/
def folded (place : Place) : List Char → List Char
  | [] => []
  | c :: rest => (if place = .letter then c else c.toLower) :: folded (place.next c) rest

/-- The letters of a text's macros. -/
def macroLetters (place : Place) : List Char → List Char
  | [] => []
  | c :: rest =>
      if place = .letter then c :: macroLetters (place.next c) rest
      else macroLetters (place.next c) rest

/-- What a word of a record says: its qualifier, and the rest by what it says. -/
def said (word : List Char) : Char × List Char :=
  let named := word.head?.any isQualifier
  (if named then word.headD '+' else '+', folded .text (if named then word.drop 1 else word))

/-- What HQ reads of a record and writes back says what the record says, and no lookup of it
goes uncounted. -/
structure Faithful (casing : Casing) (record : Record) : Prop where
  again : (parseSpf casing (composeSpf (parseSpf casing record.text).terms)).terms =
    (parseSpf casing record.text).terms
  sense : (words (composeSpf (parseSpf casing record.text).terms)).map said =
    said spfVersion :: record.terms.map fun piece => said piece.2.text
  lookups : (parseSpf casing record.text).lookups = record.lookups
  overLimit : record.lookups > spfLookupLimit → (parseSpf casing record.text).overLimit = true

namespace Term

/-- A costly term that is not counted: a mechanism with a prefix length and no domain, or a
redirect. -/
def missed : Term → Prop
  | .directive mechanism =>
      (Term.directive mechanism).costs = true ∧ mechanism.domain = none ∧ mechanism.lengths ≠ []
  | .modifier name value => (Term.modifier name value).costs = true

/-- A modifier that is written back as another: an uppercase letter of a macro stands before its
first colon, or it ends with its first colon. -/
def changed : Term → Prop
  | .directive _ => False
  | .modifier name value =>
      (∃ c ∈ macroLetters .text (partition ':' (Term.modifier name value).body).1,
        c.toLower ≠ c) ∨
      ':' ∈ (Term.modifier name value).body ∧ (partition ':' (Term.modifier name value).body).2 = []

end Term

/-! ## Words -/

section Words

/-- A quote does not follow a space. -/
def Apart (first second : Char) : Prop := first = ' ' → second ≠ '"'

theorem chain_word {word rest : List Char} (hword : ∀ c ∈ word, c ≠ ' ')
    (hrest : rest.IsChain Apart) : (word ++ rest).IsChain Apart := by
  induction word with
  | nil => exact hrest
  | cons c word ih =>
      have hnext := ih fun d hd => hword d (List.mem_cons_of_mem c hd)
      exact hnext.cons fun d _ hspace => absurd hspace (hword c List.mem_cons_self)

theorem chain_spaces (count : Nat) {rest : List Char} (hhead : ∀ c ∈ rest.head?, c ≠ '"')
    (hrest : rest.IsChain Apart) : (List.replicate count ' ' ++ rest).IsChain Apart := by
  induction count with
  | zero => exact hrest
  | succ count ih =>
      rw [List.replicate_succ, List.cons_append]
      apply ih.cons
      intro c hc _
      cases count with
      | zero => exact hhead c (by simpa using hc)
      | succ count =>
          obtain rfl : ' ' = c := by simpa [List.replicate_succ] using hc
          decide

/-- A word that may stand in a record: letters that are no spaces, a quote not first. -/
def IsWord (word : List Char) : Prop :=
  (∃ c rest, word = c :: rest ∧ c ≠ '"') ∧ ∀ c ∈ word, isSpace c = false

theorem IsWord.ne_space {word : List Char} (h : IsWord word) : ∀ c ∈ word, c ≠ ' ' := by
  rintro c hc rfl
  have hspace := h.2 ' ' hc
  exact absurd hspace (by decide)

theorem IsWord.ne_nil {word : List Char} (h : IsWord word) : word ≠ [] := by
  obtain ⟨⟨c, rest, rfl, -⟩, -⟩ := h
  exact List.cons_ne_nil _ _

variable {pieces : List (Nat × List Char)} (hpieces : ∀ piece ∈ pieces, IsWord piece.2)
  (trailing : Nat)

theorem spaced_cons (piece : Nat × List Char) (pieces : List (Nat × List Char)) :
    spaced (piece :: pieces) trailing =
      List.replicate (piece.1 + 1) ' ' ++ (piece.2 ++ spaced pieces trailing) := by
  simp [spaced, List.replicate_succ]

include hpieces in
theorem chain_spaced : (spaced pieces trailing).IsChain Apart := by
  induction pieces with
  | nil =>
      have hend := @chain_spaces trailing [] (by simp) List.IsChain.nil
      simpa [spaced] using hend
  | cons piece pieces ih =>
      have hpiece := hpieces piece List.mem_cons_self
      have hrest := ih fun other hother => hpieces other (List.mem_cons_of_mem _ hother)
      rw [spaced_cons]
      apply chain_spaces _ _ (chain_word hpiece.ne_space hrest)
      obtain ⟨⟨first, rest, hfirst, hquote⟩, -⟩ := hpiece
      intro c hc
      rw [hfirst, List.cons_append, List.head?_cons, Option.mem_def, Option.some.injEq] at hc
      exact hc ▸ hquote

include hpieces in
theorem words_spaced (first : List Char) :
    words (first ++ spaced pieces trailing) = words first ++ pieces.map Prod.snd := by
  have hspace : ∀ count, ∀ c ∈ List.replicate count ' ', isSpace c = true := by
    intro count c hc
    rw [List.eq_of_mem_replicate hc]
    decide
  induction pieces generalizing first with
  | nil => simpa [spaced] using words_append_spaces first (hspace trailing)
  | cons piece pieces ih =>
      have hpiece := hpieces piece List.mem_cons_self
      have hrest := ih (fun other hother => hpieces other (List.mem_cons_of_mem _ hother)) piece.2
      rw [spaced_cons, List.replicate_succ, List.cons_append, words_append_space (by decide),
        words_spaces_append (hspace piece.1), hrest, words_word hpiece.ne_nil hpiece.2]
      rfl

include hpieces in
/-- Unquoting leaves the words of a record as they are. -/
theorem words_unquote_spaced {first : List Char} (hfirst : IsWord first) :
    words (unquote (first ++ spaced pieces trailing)) = first :: pieces.map Prod.snd := by
  have hchain := chain_word hfirst.ne_space (chain_spaced hpieces trailing)
  have hwithin : strip (first ++ spaced pieces trailing) <:+: first ++ spaced pieces trailing :=
    strip_within _
  have hunquoted : ¬ ['"', ' ', '"'] <:+: strip (first ++ spaced pieces trailing) := by
    intro hquoted
    have hpattern := List.IsChain.infix hchain (hquoted.trans hwithin)
    rw [List.isChain_cons_cons, List.isChain_cons_cons] at hpattern
    exact hpattern.2.1 rfl rfl
  have hhead : (strip (first ++ spaced pieces trailing)).head? ≠ some '"' := by
    obtain ⟨⟨c, rest, rfl, hquote⟩, hspace⟩ := hfirst
    have hlead := @strip_leads (c :: rest ++ spaced pieces trailing) fun d hd => by
      obtain rfl : c = d := by simpa using hd
      exact hspace c List.mem_cons_self
    obtain ⟨left, hleft⟩ := hlead
    intro hquoted
    have hstart := congrArg List.head? hleft
    rw [List.head?_append, hquoted, Option.some_or] at hstart
    exact hquote (by simpa using hstart.symm)
  have hbare : ¬ ((strip (first ++ spaced pieces trailing)).head? = some '"' ∧
      (strip (first ++ spaced pieces trailing)).getLast? = some '"' ∧
        2 ≤ (strip (first ++ spaced pieces trailing)).length) := fun hquoted => hhead hquoted.1
  unfold unquote
  dsimp only
  rw [if_neg hbare, without_of_absent hunquoted, strip_of_bare (bare_strip _), words_strip,
    words_spaced hpieces, words_word hfirst.ne_nil hfirst.2]
  rfl

end Words

/-! ## Terms -/

theorem Visible.not_space {c : Char} (h : 0x21 ≤ c.toNat ∧ c.toNat ≤ 0x7e) : isSpace c = false := by
  rw [Bool.eq_false_iff]
  intro hspace
  simp only [isSpace, List.mem_cons, List.not_mem_nil, or_false, Bool.or_eq_true,
    Bool.and_eq_true, decide_eq_true_eq] at hspace
  omega

/-- The letters of a name and of its prefix lengths: none of them is a mark of the grammar. -/
def IsPlain (c : Char) : Prop :=
  (0x21 ≤ c.toNat ∧ c.toNat ≤ 0x7e) ∧ c ≠ ':' ∧ c ≠ '=' ∧ c ≠ '%'

theorem isPlain_of_code {c : Char} (h : 0x30 ≤ c.toNat ∧ c.toNat ≤ 0x39 ∨
    0x41 ≤ c.toNat ∧ c.toNat ≤ 0x5a ∨ 0x61 ≤ c.toNat ∧ c.toNat ≤ 0x7a) : IsPlain c := by
  refine ⟨by omega, ?_, ?_, ?_⟩ <;> rintro rfl <;> simp at h

theorem Name.isPlain (name : Name) : ∀ c ∈ name.letters, IsPlain c ∧ c ≠ '/' := by
  have hcode : ∀ c : Char, c.isAlphanum = true → IsPlain c ∧ c ≠ '/' := by
    intro c hc
    rw [Char.isAlphanum, Bool.or_eq_true, isAlpha_iff, isDigit_iff] at hc
    refine ⟨isPlain_of_code (by omega), ?_⟩
    rintro rfl
    simp at hc
  intro c hc
  rcases List.mem_cons.mp hc with rfl | hc
  · exact hcode _ (by rw [Char.isAlphanum, name.starts, Bool.true_or])
  · rcases name.named c hc with halnum | hmark
    · exact hcode c halnum
    · simp only [List.mem_cons, List.not_mem_nil, or_false] at hmark
      rcases hmark with rfl | rfl | rfl <;> simp [IsPlain]

theorem Directive.isPlain (mechanism : Directive) : ∀ c ∈ mechanism.lengths, IsPlain c := by
  have hdigits : ∀ count, ∀ c ∈ Nat.toDigits 10 count, IsPlain c := by
    intro count c hc
    have hdigit := isDigit_iff.mp (Nat.isDigit_of_mem_toDigits (by decide) (by decide) hc)
    exact isPlain_of_code (.inl hdigit)
  have hslash : IsPlain '/' := by simp [IsPlain]
  intro c hc
  rcases List.mem_append.mp hc with hc | hc
  · cases h4 : mechanism.cidr4 with
    | none => simp [h4] at hc
    | some count =>
        simp only [h4, Option.elim_some, List.mem_cons] at hc
        rcases hc with rfl | hc
        · exact hslash
        · exact hdigits count c hc
  · cases h6 : mechanism.cidr6 with
    | none => simp [h6] at hc
    | some count =>
        simp only [h6, Option.elim_some, List.mem_cons] at hc
        rcases hc with rfl | rfl | hc
        · exact hslash
        · exact hslash
        · exact hdigits count c hc

namespace Term

/-- A term after its qualifier begins with a letter, and all of it shows. -/
theorem body_cons (term : Term) :
    ∃ first rest, term.body = first :: rest ∧ first.isAlpha = true := by
  cases term with
  | directive mechanism => exact ⟨_, _, rfl, mechanism.name.starts⟩
  | modifier name value => exact ⟨_, _, rfl, name.starts⟩

theorem visible_body (term : Term) : ∀ c ∈ term.body, 0x21 ≤ c.toNat ∧ c.toNat ≤ 0x7e := by
  intro c hc
  cases term with
  | directive mechanism =>
      rcases List.mem_append.mp hc with hname | hrest
      · exact (mechanism.name.isPlain c hname).1.1
      · rcases List.mem_append.mp hrest with hdomain | hlengths
        · cases hd : mechanism.domain with
          | none => simp [hd] at hdomain
          | some domain =>
              simp only [hd, Option.elim_some, List.mem_cons] at hdomain
              rcases hdomain with rfl | hdomain
              · simp
              · exact domain.visible c hdomain
        · exact (mechanism.isPlain c hlengths).1
  | modifier name value =>
      rcases List.mem_append.mp hc with hname | hvalue
      · exact (name.isPlain c hname).1.1
      · rcases List.mem_cons.mp hvalue with rfl | hvalue
        · simp
        · exact value.visible c hvalue

/-- The sign HQ reads for a term. -/
def sign (term : Term) : Char := (term.qualifier.map Qualifier.sign).getD '+'

/-- The term HQ reads for one of a record. -/
def parsed (term : Term) : SpfTerm :=
  ⟨term.sign, (partition ':' term.body).1.map Char.toLower, (partition ':' term.body).2⟩

theorem not_isQualifier_of_isAlpha {c : Char} (h : c.isAlpha = true) : isQualifier c = false := by
  rw [Bool.eq_false_iff]
  intro hqualifier
  simp only [isQualifier, List.mem_cons, List.not_mem_nil, or_false, decide_eq_true_eq] at hqualifier
  rcases hqualifier with rfl | rfl | rfl | rfl <;> simp at h

/-- A word is its qualifier and what follows, where what follows begins with a letter. -/
theorem named_word (qualifier : Option Qualifier) {first : Char} (hfirst : first.isAlpha = true)
    (rest : List Char) :
    let word := (qualifier.elim [] fun qualifier => [qualifier.sign]) ++ first :: rest
    (if word.head?.any isQualifier then word.headD '+' else '+') =
        (qualifier.map Qualifier.sign).getD '+' ∧
      (if word.head?.any isQualifier then word.drop 1 else word) = first :: rest := by
  cases qualifier with
  | none => simp [not_isQualifier_of_isAlpha hfirst]
  | some qualifier => cases qualifier <;> simp [Qualifier.sign, isQualifier]

/-- A qualifier before a letter, and letters that show, make a word. -/
theorem isWord_qualified (qualifier : Option Qualifier) {body : List Char}
    (hcons : ∃ first rest, body = first :: rest ∧ first.isAlpha = true)
    (hvisible : ∀ c ∈ body, 0x21 ≤ c.toNat ∧ c.toNat ≤ 0x7e) :
    IsWord ((qualifier.elim [] fun qualifier => [qualifier.sign]) ++ body) := by
  have hbody : ∀ c ∈ body, isSpace c = false := fun c hc => Visible.not_space (hvisible c hc)
  cases qualifier with
  | none =>
      obtain ⟨first, rest, rfl, hfirst⟩ := hcons
      refine ⟨⟨first, rest, rfl, ?_⟩, hbody⟩
      rintro rfl
      simp at hfirst
  | some qualifier =>
      refine ⟨⟨qualifier.sign, body, rfl, by cases qualifier <;> decide⟩, ?_⟩
      intro c hc
      rcases List.mem_cons.mp hc with rfl | hc
      · cases qualifier <;> decide
      · exact hbody c hc

theorem isWord_text (term : Term) : IsWord term.text :=
  isWord_qualified term.qualifier term.body_cons term.visible_body

theorem lower_of_visible (casing : Casing) {text : List Char}
    (h : ∀ c ∈ text, 0x21 ≤ c.toNat ∧ c.toNat ≤ 0x7e) : casing.lower text = text.map Char.toLower :=
  casing.lowerFrom_ascii (fun c hc => by have := h c hc; omega) []

theorem visible_half (term : Term) :
    ∀ c ∈ (partition ':' term.body).1, 0x21 ≤ c.toNat ∧ c.toNat ≤ 0x7e :=
  fun c hc => term.visible_body c ((partition_subset ':' term.body).1 c hc)

theorem readTerm_text (casing : Casing) (term : Term) : readTerm casing term.text = term.parsed := by
  obtain ⟨first, rest, hbody, hfirst⟩ := term.body_cons
  have hword := named_word term.qualifier hfirst rest
  dsimp only at hword
  unfold readTerm text
  dsimp only
  rw [hbody, hword.1, hword.2, ← hbody, lower_of_visible casing term.visible_half]
  rfl

/-- What HQ writes for a term, after its qualifier. -/
def rewritten (term : Term) : List Char :=
  term.parsed.mechanism ++ if term.parsed.argument = [] then [] else ':' :: term.parsed.argument

theorem mechanism_cons (term : Term) :
    ∃ first rest, term.parsed.mechanism = first :: rest ∧ first.isAlpha = true := by
  obtain ⟨first, rest, hbody, hfirst⟩ := term.body_cons
  have hcolon : (first != ':') = true := by
    rw [bne_iff_ne]
    rintro rfl
    simp at hfirst
  refine ⟨first.toLower, (rest.takeWhile (· != ':')).map Char.toLower, ?_, ?_⟩
  · simp [parsed, partition, hbody, hcolon]
  · rw [isAlpha_iff, toNat_toLower] at *
    split <;> omega

theorem rule_parsed (term : Term) : ∃ qualifier : Option Qualifier,
    term.parsed.rule = (qualifier.elim [] fun qualifier => [qualifier.sign]) ++ term.rewritten ∧
      (qualifier.map Qualifier.sign).getD '+' = term.sign := by
  have hsign : (parsed term).qualifier = term.sign := rfl
  unfold SpfTerm.rule rewritten
  rw [hsign, List.append_assoc]
  by_cases hplus : term.sign = '+'
  · exact ⟨none, by rw [if_pos hplus]; rfl, hplus.symm⟩
  · cases hqualifier : term.qualifier with
    | none => exact absurd (by simp [sign, hqualifier]) hplus
    | some qualifier =>
        have hterm : term.sign = qualifier.sign := by simp [sign, hqualifier]
        exact ⟨some qualifier, by rw [if_neg hplus, hterm]; rfl, hterm.symm⟩

theorem visible_mechanism (term : Term) :
    ∀ c ∈ term.parsed.mechanism, 0x21 ≤ c.toNat ∧ c.toNat ≤ 0x7e := by
  intro c hc
  obtain ⟨d, hd, rfl⟩ := List.mem_map.mp hc
  have hvisible := term.visible_half d hd
  rw [toNat_toLower]
  split <;> omega

theorem rewritten_cons (term : Term) :
    ∃ first rest, term.rewritten = first :: rest ∧ first.isAlpha = true := by
  obtain ⟨first, rest, hmechanism, hfirst⟩ := term.mechanism_cons
  exact ⟨first, _, by rw [rewritten, hmechanism, List.cons_append], hfirst⟩

theorem isWord_rule (term : Term) : IsWord term.parsed.rule := by
  obtain ⟨qualifier, hrule, -⟩ := term.rule_parsed
  rw [hrule]
  apply isWord_qualified qualifier term.rewritten_cons
  intro c hc
  rcases List.mem_append.mp hc with hmechanism | hargument
  · exact term.visible_mechanism c hmechanism
  · split at hargument
    · simp at hargument
    · rcases List.mem_cons.mp hargument with rfl | hargument
      · simp
      · exact term.visible_body c ((partition_subset ':' term.body).2 c hargument)

theorem not_mem_mechanism {mark : Char} (hmark : mark.isAlpha = false) {text : List Char}
    (h : mark ∉ text) : mark ∉ text.map Char.toLower := by
  intro hmem
  obtain ⟨c, hc, hlower⟩ := List.mem_map.mp hmem
  exact h ((toLower_eq_mark hmark).mp hlower ▸ hc)

/-- What HQ writes for a term is cut where the term is. -/
theorem partition_rewritten (term : Term) :
    partition ':' term.rewritten = (term.parsed.mechanism, term.parsed.argument) := by
  have hcolon : ':' ∉ term.parsed.mechanism :=
    not_mem_mechanism (by decide) (not_mem_partition ':' term.body)
  unfold rewritten
  by_cases hargument : term.parsed.argument = []
  · rw [if_pos hargument, List.append_nil, partition_of_not_mem hcolon, hargument]
  · rw [if_neg hargument, partition_append hcolon]

theorem lower_mechanism (casing : Casing) (term : Term) :
    casing.lower term.parsed.mechanism = term.parsed.mechanism := by
  rw [lower_of_visible casing term.visible_mechanism, parsed, List.map_map]
  apply List.map_congr_left
  intro c _
  exact toLower_toLower c

theorem readTerm_rule (casing : Casing) (term : Term) :
    readTerm casing term.parsed.rule = term.parsed := by
  obtain ⟨qualifier, hrule, hsign⟩ := term.rule_parsed
  obtain ⟨first, rest, hrewritten, hfirst⟩ := term.rewritten_cons
  have hword := named_word qualifier hfirst rest
  dsimp only at hword
  unfold readTerm
  dsimp only
  rw [hrule, hrewritten, hword.1, hword.2, ← hrewritten, term.partition_rewritten, hsign,
    lower_mechanism]
  rfl

/-! ## What is counted -/

/-- A mechanism of the list has neither mark in its name. -/
theorem marks_of_lookup {name : List Char} (h : name ∈ spfLookupMechanisms) :
    '/' ∉ name ∧ '=' ∉ name := by
  have hall : ∀ name ∈ spfLookupMechanisms, '/' ∉ name ∧ '=' ∉ name := by decide
  exact hall name h

theorem colon_not_mem_name (name : Name) : ':' ∉ name.letters :=
  fun hmem => (name.isPlain _ hmem).1.2.1 rfl

theorem colon_not_mem_lengths (mechanism : Directive) : ':' ∉ mechanism.lengths :=
  fun hmem => (mechanism.isPlain _ hmem).2.1 rfl

/-- Where a directive is cut: after its name, or nowhere. -/
theorem partition_directive (mechanism : Directive) :
    partition ':' (Term.directive mechanism).body =
      mechanism.domain.elim (mechanism.name.letters ++ mechanism.lengths, []) fun domain =>
        (mechanism.name.letters, domain.letters ++ mechanism.lengths) := by
  have hbody : (Term.directive mechanism).body = mechanism.name.letters ++
      ((mechanism.domain.elim [] fun text => ':' :: text.letters) ++ mechanism.lengths) := rfl
  rw [hbody]
  cases mechanism.domain with
  | none =>
      apply partition_of_not_mem
      rw [Option.elim_none, List.nil_append, List.mem_append, not_or]
      exact ⟨colon_not_mem_name mechanism.name, colon_not_mem_lengths mechanism⟩
  | some domain => exact partition_append (colon_not_mem_name mechanism.name) _

/-- An equals sign stands before a modifier's first colon. -/
theorem equals_mem_modifier (name : Name) (value : Visible) :
    '=' ∈ (partition ':' (Term.modifier name value).body).1 := by
  have hname : ∀ c ∈ name.letters, (c != ':') = true := by
    intro c hc
    rw [bne_iff_ne]
    exact (name.isPlain c hc).1.2.1
  rw [partition, body, List.takeWhile_append_of_pos hname]
  simp

theorem slash_mem_lengths {mechanism : Directive} (h : mechanism.lengths ≠ []) :
    '/' ∈ mechanism.lengths := by
  cases h4 : mechanism.cidr4 with
  | some count => simp [Directive.lengths, h4]
  | none =>
      cases h6 : mechanism.cidr6 with
      | some count => simp [Directive.lengths, h6]
      | none => exact absurd (by simp [Directive.lengths, h4, h6]) h

/-- HQ counts a costly term unless its name is hidden. -/
theorem costsLookup_parsed (term : Term) :
    term.parsed.costsLookup = true ↔ term.costs = true ∧ ¬ term.missed := by
  cases term with
  | directive mechanism =>
      have hcut := partition_directive mechanism
      cases hdomain : mechanism.domain with
      | some domain =>
          rw [hdomain, Option.elim_some] at hcut
          simp [SpfTerm.costsLookup, parsed, hcut, costs, missed, hdomain]
      | none =>
          rw [hdomain, Option.elim_none] at hcut
          by_cases hlengths : mechanism.lengths = []
          · simp [SpfTerm.costsLookup, parsed, hcut, costs, missed, hlengths]
          · have hslash : '/' ∈ (Term.directive mechanism).parsed.mechanism := by
              rw [parsed, hcut]
              exact List.mem_map.mpr
                ⟨'/', List.mem_append_right _ (slash_mem_lengths hlengths), by decide⟩
            constructor
            · intro hcounted
              exact absurd hslash (marks_of_lookup (of_decide_eq_true hcounted)).1
            · rintro ⟨hcosts, hfound⟩
              exact absurd ⟨hcosts, hdomain, hlengths⟩ hfound
  | modifier name value =>
      have hequals : '=' ∈ (Term.modifier name value).parsed.mechanism :=
        List.mem_map.mpr ⟨'=', equals_mem_modifier name value, by decide⟩
      constructor
      · intro hcounted
        exact absurd hequals (marks_of_lookup (of_decide_eq_true hcounted)).2
      · rintro ⟨hcosts, hfound⟩
        exact absurd hcosts hfound

/-! ## What is said -/

theorem said_qualified (qualifier : Option Qualifier) {body : List Char}
    (hcons : ∃ first rest, body = first :: rest ∧ first.isAlpha = true) :
    said ((qualifier.elim [] fun qualifier => [qualifier.sign]) ++ body) =
      ((qualifier.map Qualifier.sign).getD '+', folded .text body) := by
  obtain ⟨first, rest, rfl, hfirst⟩ := hcons
  have hword := named_word qualifier hfirst rest
  dsimp only at hword
  unfold said
  dsimp only
  rw [hword.1, hword.2]

theorem said_text (term : Term) : said term.text = (term.sign, folded .text term.body) :=
  said_qualified term.qualifier term.body_cons

theorem said_rule (term : Term) :
    said term.parsed.rule = (term.sign, folded .text term.rewritten) := by
  obtain ⟨qualifier, hrule, hsign⟩ := term.rule_parsed
  rw [hrule, said_qualified qualifier term.rewritten_cons, hsign]

theorem length_folded (place : Place) (text : List Char) :
    (folded place text).length = text.length := by
  induction text generalizing place with
  | nil => rfl
  | cons c text ih => simp [folded, ih]

/-- A colon ends whatever macro stands before it. -/
theorem folded_colon (place : Place) (first rest : List Char) :
    folded place (first ++ ':' :: rest) = folded place first ++ ':' :: folded .text rest := by
  induction first generalizing place with
  | nil => cases place <;> simp [folded, Place.next]
  | cons c first ih => simp [folded, ih]

theorem next_toLower (place : Place) (c : Char) : place.next c.toLower = place.next c := by
  have hpercent : c.toLower = '%' ↔ c = '%' := toLower_eq_mark (by decide)
  have hbrace : c.toLower = '\x7b' ↔ c = '\x7b' := toLower_eq_mark (by decide)
  cases place <;> simp [Place.next, hpercent, hbrace]

/-- Lowering a text changes what it says exactly where it lowers a macro's letter. -/
theorem folded_map_toLower (place : Place) (text : List Char) :
    folded place (text.map Char.toLower) = folded place text ↔
      ∀ c ∈ macroLetters place text, c.toLower = c := by
  induction text generalizing place with
  | nil => simp [folded, macroLetters]
  | cons c text ih =>
      rw [List.map_cons, folded, folded, macroLetters, next_toLower, List.cons.injEq, ih]
      by_cases hletter : place = .letter
      · simp [hletter]
      · rw [if_neg hletter, if_neg hletter, toLower_toLower]
        simp [hletter]

theorem macroLetters_of_not_mem {text : List Char} (h : '%' ∉ text) :
    macroLetters .text text = [] := by
  induction text with
  | nil => rfl
  | cons c text ih =>
      rw [List.mem_cons, not_or] at h
      have hnext : Place.text.next c = .text := by simp [Place.next, Ne.symm h.1]
      simp [macroLetters, hnext, ih h.2]

/-- Only a modifier is written back as another. -/
theorem changed_iff (term : Term) : term.changed ↔
    (∃ c ∈ macroLetters .text (partition ':' term.body).1, c.toLower ≠ c) ∨
      ':' ∈ term.body ∧ (partition ':' term.body).2 = [] := by
  cases term with
  | modifier name value => exact Iff.rfl
  | directive mechanism =>
      have hcut := partition_directive mechanism
      have hname : '%' ∉ mechanism.name.letters :=
        fun hmem => (mechanism.name.isPlain _ hmem).1.2.2.2 rfl
      have hlengths : '%' ∉ mechanism.lengths := fun hmem => (mechanism.isPlain _ hmem).2.2.2 rfl
      rw [changed, false_iff, not_or]
      cases hdomain : mechanism.domain with
      | some domain =>
          rw [hdomain, Option.elim_some] at hcut
          rw [hcut, macroLetters_of_not_mem hname]
          have hne := mechanism.domain_ne domain hdomain
          simp [hne]
      | none =>
          rw [hdomain, Option.elim_none] at hcut
          rw [hcut, macroLetters_of_not_mem (by simp [hname, hlengths])]
          refine ⟨by simp, fun hcolon => ?_⟩
          have hmem : ':' ∈ mechanism.name.letters ∨ ':' ∈ mechanism.lengths := by
            simpa [body, hdomain] using hcolon.1
          exact hmem.elim (colon_not_mem_name mechanism.name) (colon_not_mem_lengths mechanism)

theorem folded_rewritten (term : Term) :
    folded .text term.rewritten = folded .text term.body ↔ ¬ term.changed := by
  have hmacros := folded_map_toLower .text (partition ':' term.body).1
  have hmechanism : term.parsed.mechanism = (partition ':' term.body).1.map Char.toLower := rfl
  have hargument : term.parsed.argument = (partition ':' term.body).2 := rfl
  rw [term.changed_iff, not_or, rewritten, hmechanism, hargument]
  by_cases hcolon : ':' ∈ term.body
  · have hparts := partition_of_mem hcolon
    generalize partition ':' term.body = halves at *
    by_cases hlast : halves.2 = []
    · rw [if_pos hlast, List.append_nil]
      constructor
      · intro hsame
        have hlength := congrArg List.length hsame
        rw [length_folded, length_folded, hparts, hlast] at hlength
        simp at hlength
      · intro hunchanged
        exact absurd ⟨hcolon, hlast⟩ hunchanged.2
    · rw [if_neg hlast, hparts, folded_colon, folded_colon, List.append_left_inj, hmacros]
      simp [hlast]
  · have hwhole := partition_of_not_mem hcolon
    rw [hwhole] at hmacros ⊢
    simp [hmacros, hcolon]

end Term

/-! ## Records -/

section Records

variable (casing : Casing) (record : Record)

theorem isWord_version : IsWord record.version := by
  have hlower := record.version_lower
  have hshown : ∀ c ∈ record.version, 0x21 ≤ c.toNat ∧ c.toNat ≤ 0x7e ∧ c ≠ '"' := by
    intro c hc
    have hmem : c.toLower ∈ spfVersion := hlower ▸ List.mem_map_of_mem hc
    have hversion : ∀ d ∈ spfVersion, 0x21 ≤ d.toNat ∧ d.toNat ≤ 0x7e ∧ d ≠ '"' :=
      List.all_iff_forall_prop.mp (by decide)
    have hcode := hversion _ hmem
    refine ⟨?_, ?_, ?_⟩
    · rw [toNat_toLower] at hcode
      split at hcode <;> omega
    · rw [toNat_toLower] at hcode
      split at hcode <;> omega
    · rintro rfl
      exact hcode.2.2 rfl
  constructor
  · cases hversion : record.version with
    | nil =>
        rw [hversion] at hlower
        exact absurd hlower (by decide)
    | cons c rest => exact ⟨c, rest, rfl, (hshown c (by simp [hversion])).2.2⟩
  · intro c hc
    have hcode := hshown c hc
    exact Visible.not_space ⟨hcode.1, hcode.2.1⟩

theorem lower_version : casing.lower record.version = spfVersion := by
  rw [Casing.lower, casing.lowerFrom_ascii, record.version_lower]
  intro c hc
  have hmem : c.toLower ∈ spfVersion := record.version_lower ▸ List.mem_map_of_mem hc
  have hversion : ∀ d ∈ spfVersion, d.toNat < 128 := List.all_iff_forall_prop.mp (by decide)
  have hcode := hversion _ hmem
  rw [toNat_toLower] at hcode
  split at hcode <;> omega

omit record in
/-- A version and words are read as they stand. -/
theorem parseSpf_spaced {version : List Char} (hversion : IsWord version)
    (hlower : casing.lower version = spfVersion) {pieces : List (Nat × List Char)}
    (hpieces : ∀ piece ∈ pieces, IsWord piece.2) (trailing : Nat) :
    parseSpf casing (version ++ spaced pieces trailing) =
      ⟨pieces.map fun piece => readTerm casing piece.2, true⟩ := by
  unfold parseSpf
  rw [words_unquote_spaced hpieces trailing hversion]
  dsimp only
  rw [if_neg (not_not_intro hlower), List.map_map]
  rfl

theorem parseSpf_record : parseSpf casing record.text =
    ⟨record.terms.map fun piece => piece.2.parsed, true⟩ := by
  have hwords : ∀ piece ∈ record.terms.map fun piece => (piece.1, piece.2.text),
      IsWord piece.2 := by
    intro piece hpiece
    obtain ⟨term, -, rfl⟩ := List.mem_map.mp hpiece
    exact term.2.isWord_text
  rw [Record.text, parseSpf_spaced casing (isWord_version record) (lower_version casing record)
    hwords, List.map_map]
  congr 1
  apply List.map_congr_left
  intro piece _
  exact piece.2.readTerm_text casing

omit record in
theorem intercalate_spaces (first : List Char) (rules : List (List Char)) :
    [' '].intercalate (first :: rules) = first ++ spaced (rules.map fun rule => (0, rule)) 0 := by
  induction rules generalizing first with
  | nil => simp [spaced]
  | cons rule rules ih =>
      rw [List.intercalate_cons_cons, ih rule, List.map_cons, spaced_cons]
      simp

/-- What HQ writes for the terms of a record. -/
theorem composed_record :
    composeSpf (record.terms.map fun piece => piece.2.parsed) =
      spfVersion ++ spaced (record.terms.map fun piece => (0, piece.2.parsed.rule)) 0 := by
  rw [composeSpf, intercalate_spaces, List.map_map, List.map_map]
  rfl

theorem isWord_rules : ∀ piece ∈ record.terms.map fun piece => (0, piece.2.parsed.rule),
    IsWord piece.2 := by
  intro piece hpiece
  obtain ⟨term, -, rfl⟩ := List.mem_map.mp hpiece
  exact term.2.isWord_rule

omit record in
/-- The version as HQ writes it. -/
theorem version_written : IsWord spfVersion ∧ casing.lower spfVersion = spfVersion := by
  let versioned : Record := ⟨spfVersion, by decide, [], 0⟩
  exact ⟨isWord_version versioned, lower_version casing versioned⟩

/-- What HQ writes is read as it was. -/
theorem parse_again :
    (parseSpf casing (composeSpf (parseSpf casing record.text).terms)).terms =
      (parseSpf casing record.text).terms := by
  have hversion := version_written casing
  rw [parseSpf_record, composed_record,
    parseSpf_spaced casing hversion.1 hversion.2 (isWord_rules record), List.map_map]
  apply List.map_congr_left
  intro piece _
  exact piece.2.readTerm_rule casing

theorem sense_iff :
    (words (composeSpf (parseSpf casing record.text).terms)).map said =
      said spfVersion :: record.terms.map (fun piece => said piece.2.text) ↔
    ∀ piece ∈ record.terms, ¬ piece.2.changed := by
  have hversion := (version_written casing).1
  rw [parseSpf_record, composed_record, words_spaced (isWord_rules record),
    words_word hversion.ne_nil hversion.2, List.map_map, List.map_append, List.map_map,
    List.map_singleton, List.singleton_append, List.cons.injEq, and_iff_right rfl, List.map_inj_left]
  apply forall₂_congr
  intro piece _
  rw [← piece.2.folded_rewritten, piece.2.said_text]
  simp [Function.comp, Term.said_rule]

omit record in
/-- A filter that keeps less keeps as many exactly where it keeps the same. -/
theorem length_filter_eq_iff {α : Type} {counted costs : α → Bool} {items : List α}
    (h : ∀ item, counted item = true → costs item = true) :
    (items.filter counted).length = (items.filter costs).length ↔
      ∀ item ∈ items, costs item = true → counted item = true := by
  constructor
  · intro hlength item hitem hcosts
    have hsame := (List.monotone_filter_right items h).eq_of_length hlength
    have hmem : item ∈ items.filter costs := List.mem_filter.mpr ⟨hitem, hcosts⟩
    rw [← hsame] at hmem
    exact (List.mem_filter.mp hmem).2
  · intro hsame
    rw [List.filter_congr fun item hitem => Bool.eq_iff_iff.mpr ⟨h item, hsame item hitem⟩]

theorem lookups_iff : (parseSpf casing record.text).lookups = record.lookups ↔
    ∀ piece ∈ record.terms, ¬ piece.2.missed := by
  have hcounted : ∀ piece : Nat × Term,
      piece.2.parsed.costsLookup = true → piece.2.costs = true := by
    intro piece hcounted
    exact (piece.2.costsLookup_parsed.mp hcounted).1
  rw [parseSpf_record, SpfPolicy.lookups, Record.lookups, List.filter_map, List.length_map]
  rw [show (SpfTerm.costsLookup ∘ fun piece : Nat × Term => piece.2.parsed) =
    fun piece => piece.2.parsed.costsLookup from rfl, length_filter_eq_iff hcounted]
  apply forall₂_congr
  intro piece _
  rw [piece.2.costsLookup_parsed]
  have hcosts : piece.2.missed → piece.2.costs = true := by
    intro hmissed
    cases hterm : piece.2 with
    | directive mechanism => exact (hterm ▸ hmissed : (Term.directive mechanism).missed).1
    | modifier name value => exact (hterm ▸ hmissed : (Term.modifier name value).missed)
  tauto

end Records

/-- HQ keeps what an SPF record says and counts its lookups exactly where no costly term hides
its name behind a prefix length or an equals sign, and no modifier is written back as another. -/
theorem faithful_iff (casing : Casing) (record : Record) :
    Faithful casing record ↔
      ∀ piece ∈ record.terms, ¬ piece.2.missed ∧ ¬ piece.2.changed := by
  constructor
  · intro hfaithful piece hpiece
    exact ⟨(lookups_iff casing record).mp hfaithful.lookups piece hpiece,
      (sense_iff casing record).mp hfaithful.sense piece hpiece⟩
  · intro hplain
    have hlookups := (lookups_iff casing record).mpr fun piece hpiece => (hplain piece hpiece).1
    constructor
    · exact parse_again casing record
    · exact (sense_iff casing record).mpr fun piece hpiece => (hplain piece hpiece).2
    · exact hlookups
    · intro hmany
      simpa [SpfPolicy.overLimit, hlookups] using hmany

/-- `v=spf1 a/24 redirect=e.org`. -/
def hiddenRecord : Record where
  version := "v=spf1".toList
  version_lower := by decide
  terms :=
    [(0, .directive ⟨none, ⟨'a', [], rfl, by simp⟩, none, by simp, some 24, none⟩),
      (0, .modifier ⟨'r', "edirect".toList, rfl, by simp⟩ ⟨"e.org".toList, by simp⟩)]
  trailing := 0

example : hiddenRecord.text = "v=spf1 a/24 redirect=e.org".toList := by decide

/-- Neither of its two lookups is counted. -/
theorem hidden_lookups_missed : ¬ Faithful .plain hiddenRecord := by
  intro hfaithful
  exact absurd hfaithful.lookups (by decide)

end SeverinoHQ.Mail
