/-
# Replacing words in one pass

A text is read from the left. Where a word begins, the first listed that does is replaced
by a mark and its letters are passed over; any other letter is kept. Each letter has one
fate. What the fates are, and what is written, is told by the places where words begin in the
text: where the words are listed longest first, each place that is free when the reading comes
to it takes the longest word that begins there.
-/

import Mathlib.Data.List.Basic
import Mathlib.Data.List.Infix

namespace SeverinoHQ.Math.Replacer

universe u

/-- What becomes of a letter: it is kept, or it begins a word that is replaced, or it is
passed over with one. -/
inductive Fate where
  | kept
  | struck
  | passed
  deriving DecidableEq, Repr

variable {α : Type u} [DecidableEq α] (words : List (List α))

/-- The letters' fates, from a place where `skip` more are passed over. -/
@[grind =]
def fates : Nat → List α → List Fate
  | _, [] => []
  | skip + 1, _ :: text => .passed :: fates skip text
  | 0, letter :: text =>
      match words.find? fun word => word.isPrefixOf (letter :: text) with
      | some word => .struck :: fates (word.length - 1) text
      | none => .kept :: fates 0 text

/-- What is written of a text: each letter that is kept, and a mark for each that is struck. -/
@[grind =]
def written (mark : List α) : List α → List Fate → List α
  | letter :: text, .kept :: fates => letter :: written mark text fates
  | _ :: text, .struck :: fates => mark ++ written mark text fates
  | _ :: text, .passed :: fates => written mark text fates
  | _, _ => []

/-- The text with every word replaced by a mark. -/
def replace (mark text : List α) : List α := written mark text (fates words 0 text)

/-! ## Where words begin -/

section Places

variable (Word : List α → Prop) (text : List α)

/-- The longest of the words that begin at a place. -/
structure Longest (place : Nat) (word : List α) : Prop where
  isWord : Word word
  begins : word <+: text.drop place
  longest : ∀ other, Word other → other <+: text.drop place → other.length ≤ word.length

/-- No word begins at a place. -/
def Plain (place : Nat) : Prop := ∀ word, Word word → ¬word <+: text.drop place

/-- The places where a word that begins is taken: the first, the one after a free place where none
begins, and the one behind a word that is taken. -/
inductive Free : Nat → Prop
  | start : Free 0
  | plain {place : Nat} : Free place → place < text.length → Plain Word text place → Free (place + 1)
  | taken {place : Nat} {word : List α} :
      Free place → Longest Word text place word → Free (place + word.length)

/-- Words, each the longest where it begins, follow one another over a stretch of the text. -/
inductive Filled : Nat → Nat → Prop
  | done {place upto : Nat} : upto ≤ place → Filled place upto
  | taken {place upto : Nat} {word : List α} :
      Longest Word text place word → Filled (place + word.length) upto → Filled place upto

/-- Where a word begins inside one that is taken, other words fill the text from the end of that one
to its own. -/
def Clear (place : Nat) (word : List α) : Prop :=
  ∀ start taken, Free Word text start → Longest Word text start taken → start < place →
    place < start + taken.length → Filled Word text (start + taken.length) (place + word.length)

/-- The letters that stand right before a place, in none of which a word begins or goes on. -/
inductive Before : Nat → List α → Prop
  | none {place : Nat} : Before place []
  | plain {place : Nat} {letter : α} {letters : List α} : Before place letters →
      Free Word text place → text[place]? = some letter → Plain Word text place →
      Before (place + 1) (letters ++ [letter])

/-- Letters that a place is followed by once each word is read as the mark. -/
inductive Behind (mark : List α) : Nat → List α → Prop
  | none {place : Nat} : Behind mark place []
  | plain {place : Nat} {letter : α} {letters : List α} : text[place]? = some letter →
      Plain Word text place → Behind mark (place + 1) letters → Behind mark place (letter :: letters)
  | taken {place : Nat} {word letters : List α} : Longest Word text place word →
      Behind mark (place + word.length) letters → Behind mark place (mark ++ letters)

/-- With a word that is taken read as the mark, no word runs over a letter of the mark. -/
def Unspelled (mark : List α) : Prop :=
  ∀ place taken, Free Word text place → Longest Word text place taken →
    ∀ before behind, Before Word text place before → Behind Word text mark (place + taken.length) behind →
      ∀ word, Word word → ∀ left right, before ++ (mark ++ behind) = left ++ (word ++ right) →
        left.length + word.length ≤ before.length ∨ before.length + mark.length ≤ left.length

end Places

/-- The words, listed longest first, and none of them empty. -/
structure Lists (words : List (List α)) (Word : List α → Prop) : Prop where
  mem_iff : ∀ word, word ∈ words ↔ Word word
  longest : words.Pairwise fun first second => second.length ≤ first.length
  ne_nil : ∀ word, Word word → word ≠ []

variable {words} {Word : List α → Prop} {text mark word : List α} {place skip : Nat}

/-! ## One place -/

section Place

variable (h : Lists words Word)

include h

/-- The word that is found at a place is the longest that begins there. -/
theorem Lists.longest_of_find
    (hfound : (words.find? fun word => word.isPrefixOf (text.drop place)) = some word) :
    Longest Word text place word := by
  obtain ⟨hbegins, earlier, later, rfl, hearlier⟩ := List.find?_eq_some_iff_append.mp hfound
  refine ⟨(h.mem_iff word).mp (by simp), List.isPrefixOf_iff_prefix.mp hbegins, ?_⟩
  intro other hother hprefix
  rcases List.mem_append.mp ((h.mem_iff other).mpr hother) with hmem | hmem
  · have hnot := hearlier other hmem
    simp [List.isPrefixOf_iff_prefix.mpr hprefix] at hnot
  · rcases List.mem_cons.mp hmem with rfl | hmem
    · exact Nat.le_refl _
    · exact List.rel_of_pairwise_cons (List.pairwise_append.mp h.longest).2.1 hmem

theorem Lists.find_eq_none :
    (words.find? fun word => word.isPrefixOf (text.drop place)) = none ↔ Plain Word text place := by
  simp only [List.find?_eq_none, List.isPrefixOf_iff_prefix, h.mem_iff]
  rfl

theorem Lists.find_of_longest (hlongest : Longest Word text place word) :
    (words.find? fun word => word.isPrefixOf (text.drop place)) = some word := by
  cases hfound : words.find? fun word => word.isPrefixOf (text.drop place) with
  | none => exact absurd hlongest.begins (h.find_eq_none.mp hfound word hlongest.isWord)
  | some found =>
      have hother := h.longest_of_find hfound
      have hlength := Nat.le_antisymm (hlongest.longest found hother.isWord hother.begins)
        (hother.longest word hlongest.isWord hlongest.begins)
      rw [(List.prefix_of_prefix_length_le hother.begins hlongest.begins (Nat.le_of_eq hlength)).eq_of_length
        hlength]

/-- A word that begins at a place gives it a longest. -/
theorem Lists.exists_longest (hword : Word word) (hbegins : word <+: text.drop place) :
    ∃ taken, Longest Word text place taken := by
  cases hfound : words.find? fun word => word.isPrefixOf (text.drop place) with
  | none => exact absurd hbegins (h.find_eq_none.mp hfound word hword)
  | some found => exact ⟨found, h.longest_of_find hfound⟩

end Place

omit [DecidableEq α] in
theorem Longest.le_length (h : Longest Word text place word) (hplace : place ≤ text.length) :
    place + word.length ≤ text.length := by
  have hlength := h.begins.length_le
  rw [List.length_drop] at hlength
  omega

@[simp]
theorem length_fates (skip : Nat) (text : List α) : (fates words skip text).length = text.length := by
  induction text generalizing skip with
  | nil => simp [fates]
  | cons letter text ih =>
      cases skip with
      | succ skip => simp [fates, ih]
      | zero =>
          rw [fates]
          split <;> simp [ih]

/-- The letters a replaced word still has to give are passed over. -/
theorem fates_passed {offset : Nat} (hskip : offset < skip) (hoffset : offset < text.length) :
    (fates words skip text)[offset]? = some .passed := by
  induction text generalizing skip offset with
  | nil => simp at hoffset
  | cons letter text ih =>
      obtain ⟨skip, rfl⟩ := Nat.exists_eq_succ_of_ne_zero (Nat.ne_zero_of_lt hskip)
      cases offset with
      | zero => rfl
      | succ offset =>
          rw [fates, List.getElem?_cons_succ]
          exact ih (Nat.lt_of_succ_lt_succ hskip) (by simpa using hoffset)

/-- Behind the letters that are passed over the reading begins anew. -/
theorem drop_fates (hskip : skip ≤ text.length) :
    (fates words skip text).drop skip = fates words 0 (text.drop skip) := by
  induction text generalizing skip with
  | nil => simp [fates]
  | cons letter text ih =>
      cases skip with
      | zero => rfl
      | succ skip =>
          rw [fates, List.drop_succ_cons, List.drop_succ_cons]
          exact ih (by simpa using hskip)

theorem written_fates (hskip : skip ≤ text.length) :
    written mark text (fates words skip text) = replace words mark (text.drop skip) := by
  induction text generalizing skip with
  | nil => simp [fates, replace]
  | cons letter text ih =>
      cases skip with
      | zero => rfl
      | succ skip =>
          rw [fates, written, List.drop_succ_cons]
          exact ih (by simpa using hskip)

section Reading

variable (h : Lists words Word)

include h

/-- Where no word begins a letter is kept. -/
theorem Lists.fates_plain (hplace : place < text.length) (hplain : Plain Word text place) :
    fates words 0 (text.drop place) = .kept :: fates words 0 (text.drop (place + 1)) := by
  have hnone := h.find_eq_none.mpr hplain
  rw [List.drop_eq_getElem_cons hplace] at hnone ⊢
  rw [fates, hnone]

theorem Lists.replace_plain {letter : α} (hletter : text[place]? = some letter)
    (hplain : Plain Word text place) (mark : List α) :
    replace words mark (text.drop place) = letter :: replace words mark (text.drop (place + 1)) := by
  obtain ⟨hplace, rfl⟩ := List.getElem?_eq_some_iff.mp hletter
  have hfates := h.fates_plain hplace hplain
  rw [List.drop_eq_getElem_cons hplace] at hfates ⊢
  rw [replace, hfates, written]
  rfl

omit [DecidableEq α] in
/-- A longest word is a letter of the text and those it has behind it. -/
theorem Lists.length_longest (hlongest : Longest Word text place word)
    (hplace : place ≤ text.length) :
    place < text.length ∧ ∃ length, word.length = length + 1 ∧
      length ≤ (text.drop (place + 1)).length := by
  have hle := hlongest.le_length hplace
  obtain ⟨length, hlength⟩ := Nat.exists_eq_succ_of_ne_zero
    (Nat.ne_of_gt (List.length_pos_of_ne_nil (h.ne_nil word hlongest.isWord)))
  refine ⟨by omega, length, hlength, ?_⟩
  rw [List.length_drop]
  omega

/-- A longest word is struck, and the reading goes on behind it. -/
theorem Lists.fates_longest (hlongest : Longest Word text place word) (hplace : place ≤ text.length) :
    fates words 0 (text.drop place) =
      .struck :: fates words (word.length - 1) (text.drop (place + 1)) := by
  have hlt := (h.length_longest hlongest hplace).1
  have hfound := h.find_of_longest hlongest
  rw [List.drop_eq_getElem_cons hlt] at hfound ⊢
  rw [fates, hfound]

theorem Lists.drop_fates_longest (hlongest : Longest Word text place word)
    (hplace : place ≤ text.length) :
    (fates words 0 (text.drop place)).drop word.length =
      fates words 0 (text.drop (place + word.length)) := by
  obtain ⟨-, length, hlength, hskip⟩ := h.length_longest hlongest hplace
  rw [h.fates_longest hlongest hplace, hlength, Nat.succ_sub_one, List.drop_succ_cons,
    drop_fates hskip, List.drop_drop, Nat.add_assoc, Nat.add_comm 1]

theorem Lists.replace_longest (hlongest : Longest Word text place word)
    (hplace : place ≤ text.length) (mark : List α) :
    replace words mark (text.drop place) =
      mark ++ replace words mark (text.drop (place + word.length)) := by
  obtain ⟨hlt, length, hlength, hskip⟩ := h.length_longest hlongest hplace
  rw [replace, h.fates_longest hlongest hplace, List.drop_eq_getElem_cons hlt, written, hlength,
    Nat.succ_sub_one, written_fates hskip, List.drop_drop, Nat.add_assoc, Nat.add_comm 1]

/-- At a free place the reading begins anew. -/
theorem Lists.drop_fates_free (hfree : Free Word text place) :
    place ≤ text.length ∧ (fates words 0 text).drop place = fates words 0 (text.drop place) := by
  induction hfree with
  | start => exact ⟨Nat.zero_le _, rfl⟩
  | @plain place _ hlt hplain ih =>
      refine ⟨hlt, ?_⟩
      rw [← List.drop_drop, ih.2, h.fates_plain hlt hplain, List.drop_one, List.tail_cons]
  | @taken place word _ hlongest ih =>
      refine ⟨hlongest.le_length ih.1, ?_⟩
      rw [← List.drop_drop, ih.2]
      exact h.drop_fates_longest hlongest ih.1

theorem Lists.fate_free (hfree : Free Word text place) (offset : Nat) :
    (fates words 0 text)[place + offset]? = (fates words 0 (text.drop place))[offset]? := by
  rw [← (h.drop_fates_free hfree).2, List.getElem?_drop]

/-- No letter is kept of a word that is taken. -/
theorem Lists.not_kept_of_taken (hfree : Free Word text place)
    (hlongest : Longest Word text place word) {offset : Nat} (hoffset : offset < word.length) :
    (fates words 0 text)[place + offset]? ≠ some .kept := by
  have hplace := (h.drop_fates_free hfree).1
  have hle := hlongest.le_length hplace
  rw [h.fate_free hfree, h.fates_longest hlongest hplace]
  cases offset with
  | zero => simp
  | succ offset =>
      rw [List.getElem?_cons_succ, fates_passed (by omega) (by rw [List.length_drop]; omega)]
      simp

theorem Lists.kept_of_plain (hfree : Free Word text place) (hplace : place < text.length)
    (hplain : Plain Word text place) : (fates words 0 text)[place]? = some .kept := by
  have hfate := h.fate_free hfree 0
  rw [h.fates_plain hplace hplain] at hfate
  exact hfate

/-- A place is free or inside a word that is taken. -/
theorem Lists.free_or_inside (hplace : place ≤ text.length) : Free Word text place ∨
    ∃ start taken, Free Word text start ∧ Longest Word text start taken ∧ start < place ∧
      place < start + taken.length := by
  induction place with
  | zero => exact .inl .start
  | succ place ih =>
      have hbehind : ∀ start taken, Free Word text start → Longest Word text start taken →
          start < place + 1 → place < start + taken.length → Free Word text (place + 1) ∨
            ∃ start taken, Free Word text start ∧ Longest Word text start taken ∧
              start < place + 1 ∧ place + 1 < start + taken.length := by
        intro start taken hfree hlongest hstart hend
        rcases Nat.eq_or_lt_of_le (Nat.succ_le_of_lt hend) with hend | hend
        · left
          rw [← Nat.succ_eq_add_one, hend]
          exact hfree.taken hlongest
        · exact .inr ⟨start, taken, hfree, hlongest, hstart, hend⟩
      rcases ih (Nat.le_of_succ_le hplace) with hfree | ⟨start, taken, hfree, hlongest, hstart, hend⟩
      · cases hfound : words.find? fun word => word.isPrefixOf (text.drop place) with
        | none => exact .inl (hfree.plain hplace (h.find_eq_none.mp hfound))
        | some taken =>
            have hlongest := h.longest_of_find hfound
            have hpos := List.length_pos_of_ne_nil (h.ne_nil taken hlongest.isWord)
            exact hbehind place taken hfree hlongest (Nat.lt_succ_self _) (by omega)
      · exact hbehind start taken hfree hlongest (Nat.lt_succ_of_lt hstart) hend

/-- Over a stretch that is filled from a free place nothing is kept. -/
theorem Lists.not_kept_of_filled {upto offset : Nat} (hfilled : Filled Word text place upto)
    (hfree : Free Word text place) (hoffset : place + offset < upto) :
    (fates words 0 text)[place + offset]? ≠ some .kept := by
  induction hfilled generalizing offset with
  | done hle => omega
  | @taken place upto word hlongest _ ih =>
      rcases Nat.lt_or_ge offset word.length with hlt | hge
      · exact h.not_kept_of_taken hfree hlongest hlt
      · have hbehind : place + offset = place + word.length + (offset - word.length) := by omega
        rw [hbehind] at hoffset ⊢
        exact ih (hfree.taken hlongest) hoffset

/-- A stretch from a free place of which nothing is kept is filled. -/
theorem Lists.filled_of_not_kept {upto : Nat} (hfree : Free Word text place)
    (hupto : upto ≤ text.length)
    (hkept : ∀ other, place ≤ other → other < upto → (fates words 0 text)[other]? ≠ some .kept) :
    Filled Word text place upto := by
  induction hleft : upto - place using Nat.strongRecOn generalizing place with
  | _ left ih =>
      rcases Nat.lt_or_ge place upto with hlt | hge
      · cases hfound : words.find? fun word => word.isPrefixOf (text.drop place) with
        | none =>
            exact absurd (h.kept_of_plain hfree (by omega) (h.find_eq_none.mp hfound))
              (hkept place (Nat.le_refl _) hlt)
        | some taken =>
            have hlongest := h.longest_of_find hfound
            have hpos := List.length_pos_of_ne_nil (h.ne_nil taken hlongest.isWord)
            refine .taken hlongest (ih (upto - (place + taken.length)) (by omega)
              (hfree.taken hlongest) (fun other hother => hkept other (by omega)) rfl)
      · exact .done hge

/-- No letter is kept of a word that stands in the text exactly where it is clear. -/
theorem Lists.not_kept_iff {before after : List α} (hword : Word word) :
    (∀ offset < word.length,
        (fates words 0 (before ++ (word ++ after)))[before.length + offset]? ≠ some .kept) ↔
      Clear Word (before ++ (word ++ after)) before.length word := by
  have hlength : before.length + word.length ≤ (before ++ (word ++ after)).length := by simp
  have hbegins : word <+: (before ++ (word ++ after)).drop before.length := by simp
  generalize before ++ (word ++ after) = text at hlength hbegins ⊢
  constructor
  · intro hkept start taken hfree hlongest hstart hend
    refine h.filled_of_not_kept (hfree.taken hlongest) hlength fun other hfrom hupto => ?_
    have hother : other = before.length + (other - before.length) := by omega
    rw [hother]
    exact hkept _ (by omega)
  · intro hclear offset hoffset
    rcases h.free_or_inside (show before.length ≤ text.length by omega) with
      hfree | ⟨start, taken, hfree, hlongest, hstart, hend⟩
    · obtain ⟨taken, hlongest⟩ := h.exists_longest hword hbegins
      have hlong := hlongest.longest word hword hbegins
      exact h.not_kept_of_taken hfree hlongest (Nat.lt_of_lt_of_le hoffset hlong)
    · rcases Nat.lt_or_ge (before.length + offset) (start + taken.length) with hlt | hge
      · have hother : before.length + offset = start + (before.length + offset - start) := by omega
        rw [hother]
        exact h.not_kept_of_taken hfree hlongest (by omega)
      · have hother : before.length + offset =
            start + taken.length + (before.length + offset - (start + taken.length)) := by omega
        rw [hother]
        exact h.not_kept_of_filled (hclear start taken hfree hlongest hstart hend)
          (hfree.taken hlongest) (by omega)

/-! ## What is written -/

/-- What is written of a text goes on from the letters that stand right before a free place. -/
theorem Lists.replace_before {before : List α} (hbefore : Before Word text place before)
    (hfree : Free Word text place) (mark : List α) :
    ∃ start, replace words mark text = start ++ (before ++ replace words mark (text.drop place)) := by
  induction hbefore with
  | @none place =>
      induction hfree with
      | start => exact ⟨[], rfl⟩
      | @plain place _ hlt hplain ih =>
          obtain ⟨start, hstart⟩ := ih
          have hkept := h.replace_plain (List.getElem?_eq_getElem hlt) hplain mark
          exact ⟨start ++ [text[place]], by simpa [hkept] using hstart⟩
      | @taken place taken hfree hlongest ih =>
          obtain ⟨start, hstart⟩ := ih
          have hmark := h.replace_longest hlongest (h.drop_fates_free hfree).1 mark
          exact ⟨start ++ mark, by simpa [hmark] using hstart⟩
  | plain _ hplace hletter hplain ih =>
      obtain ⟨start, hstart⟩ := ih hplace
      rw [h.replace_plain hletter hplain] at hstart
      exact ⟨start, by simpa using hstart⟩

/-- What is written from a place on follows it. -/
theorem Lists.behind (hplace : place ≤ text.length) :
    Behind Word text mark place (replace words mark (text.drop place)) := by
  induction hleft : text.length - place using Nat.strongRecOn generalizing place with
  | _ left ih =>
      rcases Nat.eq_or_lt_of_le hplace with rfl | hlt
      · rw [List.drop_length]
        exact .none
      · cases hfound : words.find? fun word => word.isPrefixOf (text.drop place) with
        | none =>
            have hplain := h.find_eq_none.mp hfound
            rw [h.replace_plain (List.getElem?_eq_getElem hlt) hplain]
            exact .plain (List.getElem?_eq_getElem hlt) hplain (ih _ (by omega) hlt rfl)
        | some taken =>
            have hlongest := h.longest_of_find hfound
            have hpos := List.length_pos_of_ne_nil (h.ne_nil taken hlongest.isWord)
            rw [h.replace_longest hlongest hplace]
            exact .taken hlongest (ih _ (by omega) (hlongest.le_length hplace) rfl)

theorem Lists.prefix_of_behind {letters : List α} (hbehind : Behind Word text mark place letters)
    (hplace : place ≤ text.length) : letters <+: replace words mark (text.drop place) := by
  induction hbehind with
  | none => exact List.nil_prefix
  | plain hletter hplain _ ih =>
      rw [h.replace_plain hletter hplain]
      exact List.cons_prefix_cons.mpr ⟨rfl, ih (List.getElem?_eq_some_iff.mp hletter).1⟩
  | taken hlongest _ ih =>
      rw [h.replace_longest hlongest hplace]
      exact (List.prefix_append_right_inj _).mpr (ih (hlongest.le_length hplace))

omit h [DecidableEq α] in
/-- The letters right before a place are the text's, and no word begins in them. -/
theorem Before.plain_in {letters : List α} (hletters : Before Word text place letters) :
    letters.length ≤ place ∧ letters <+: text.drop (place - letters.length) ∧
      ∀ offset < letters.length, Plain Word text (place - letters.length + offset) := by
  induction hletters with
  | none => exact ⟨Nat.zero_le _, List.nil_prefix, nofun⟩
  | @plain place letter letters _ _ hletter hplain ih =>
      obtain ⟨hle, ⟨rest, hrest⟩, hplains⟩ := ih
      have hplace : place + 1 - (letters ++ [letter]).length = place - letters.length := by simp
      rw [hplace, List.length_append, List.length_singleton]
      have hrestAt : rest = text.drop place := by
        have hdrop := congrArg (List.drop letters.length) hrest
        rw [List.drop_left, List.drop_drop, Nat.sub_add_cancel hle] at hdrop
        exact hdrop
      obtain ⟨hlt, rfl⟩ := List.getElem?_eq_some_iff.mp hletter
      refine ⟨by omega, ⟨text.drop (place + 1), ?_⟩, fun offset hoffset => ?_⟩
      · rw [← hrest, hrestAt, List.append_assoc, List.singleton_append,
          List.getElem_cons_drop]
      · rcases Nat.eq_or_lt_of_le (Nat.le_of_lt_succ hoffset) with rfl | hlt
        · rw [Nat.sub_add_cancel hle]
          exact hplain
        · exact hplains offset hlt

omit [DecidableEq α] in
/-- No word stands in letters that are kept one after the other. -/
theorem Lists.not_word_of_before {letters left right : List α}
    (hletters : Before Word text place letters) (hparts : letters = left ++ (word ++ right)) :
    ¬Word word := by
  intro hword
  obtain ⟨-, ⟨rest, hrest⟩, hplains⟩ := hletters.plain_in
  have hpos := List.length_pos_of_ne_nil (h.ne_nil word hword)
  have hoffset : left.length < letters.length := by
    rw [hparts, List.length_append, List.length_append]
    omega
  refine hplains left.length hoffset word hword ?_
  rw [← List.drop_drop, ← hrest, hparts]
  simp

/-- No word stands in what is written exactly where none is spelled with a letter of a mark. -/
theorem Lists.clean_iff : (∀ word, Word word → ¬word <:+: replace words mark text) ↔
    Unspelled Word text mark := by
  constructor
  · intro hclean place taken hfree hlongest before behind hbefore hbehind word hword left right hparts
    obtain ⟨start, hstart⟩ := h.replace_before hbefore hfree mark
    have hplace := (h.drop_fates_free hfree).1
    obtain ⟨rest, hrest⟩ := h.prefix_of_behind hbehind (hlongest.le_length hplace)
    rw [h.replace_longest hlongest hplace, ← hrest] at hstart
    refine absurd ⟨start ++ left, right ++ rest, ?_⟩ (hclean word hword)
    have hline := congrArg (· ++ rest) hparts
    simp only [List.append_assoc] at hline ⊢
    rw [hstart, hline]
  · rintro hunspelled word hword ⟨left, right, hparts⟩
    -- The reading is followed to the first mark a letter of which the word has.
    have hnowhere : ∀ place before left right, Free Word text place → Before Word text place before →
        before ++ replace words mark (text.drop place) ≠ left ++ (word ++ right) := by
      intro place before left right hfree hbefore hline
      induction hleft : text.length - place using Nat.strongRecOn
        generalizing place before left right with
      | _ remaining ih =>
          have hplace := (h.drop_fates_free hfree).1
          rcases Nat.eq_or_lt_of_le hplace with rfl | hlt
          · rw [List.drop_length] at hline
            exact h.not_word_of_before hbefore (by simpa [replace, fates, written] using hline) hword
          · cases hfound : words.find? fun word => word.isPrefixOf (text.drop place) with
            | none =>
                have hplain := h.find_eq_none.mp hfound
                have hletter := List.getElem?_eq_getElem hlt
                rw [h.replace_plain hletter hplain] at hline
                exact ih _ (by omega) (place + 1) (before ++ [text[place]]) left right
                  (hfree.plain hlt hplain) (hbefore.plain hfree hletter hplain)
                  (by simpa using hline) rfl
            | some taken =>
                have hlongest := h.longest_of_find hfound
                have hpos := List.length_pos_of_ne_nil (h.ne_nil taken hlongest.isWord)
                have hbehind := hlongest.le_length hplace
                rw [h.replace_longest hlongest hplace] at hline
                rcases hunspelled place taken hfree hlongest before _ hbefore (h.behind hbehind) word
                  hword left right hline with hin | hout
                · have hstands : left ++ word <+: before := by
                    refine List.prefix_of_prefix_length_le (List.prefix_append _ right) ?_ (by simpa using hin)
                    rw [List.append_assoc, ← hline]
                    exact List.prefix_append before _
                  obtain ⟨rest, hrest⟩ := hstands
                  exact h.not_word_of_before hbefore (by rw [← hrest, List.append_assoc]) hword
                · have hstands : before ++ mark <+: left := by
                    refine List.prefix_of_prefix_length_le ?_ (List.prefix_append left (word ++ right))
                      (by simpa using hout)
                    rw [← hline, ← List.append_assoc]
                    exact List.prefix_append _ _
                  obtain ⟨rest, rfl⟩ := hstands
                  simp only [List.append_assoc, List.append_cancel_left_eq] at hline
                  exact ih _ (by omega) (place + taken.length) [] rest right (hfree.taken hlongest) .none
                    hline rfl
    exact hnowhere 0 [] left right .start .none (by simpa using hparts.symm)

end Reading

end SeverinoHQ.Math.Replacer
