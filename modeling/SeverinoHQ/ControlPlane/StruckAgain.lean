/-
# What a second strike finds

A strike puts a mark where a secret was, and what follows stands at the start of a word
there. No shape but an age identity can end before a letter another shape begins with, so
where no age identity is directly followed by another secret, nothing of any shape is left,
and a second strike finds nothing but what stands within a member named as a secret.
-/

import SeverinoHQ.ControlPlane.Struck
import SeverinoHQ.Math.Letters

namespace SeverinoHQ.ControlPlane.SecretShapes

open SeverinoHQ.Math
open SeverinoHQ.Math.Pattern

universe u

variable {unicode : Unicode}

/-! ## Where a shape is found -/

/-- No shape matches anywhere in a text that stands after `before`. -/
def Free (unicode : Unicode) : Option Char → List Char → Prop
  | _, [] => True
  | before, char :: text =>
      found unicode before (char :: text) = none ∧ Free unicode (some char) text

theorem found_eq_none {before : Option Char} {text : List Char} :
    found unicode before text = none ↔
      ∀ shape ∈ shapes, shape.body.Starts text →
        shape.bounded = true ∧ unicode.boundary before text = false := by
  rw [found, List.findSome?_eq_none_iff]
  apply forall₂_congr
  intro shape _
  rw [← left_ne_nil]
  by_cases hunbound : (shape.bounded && !unicode.boundary before text) = true
  · rw [if_pos hunbound]
    simp only [Bool.and_eq_true, Bool.not_eq_true'] at hunbound
    simp [hunbound]
  · rw [if_neg hunbound, Option.map_eq_none_iff, List.head?_eq_none_iff]
    simp only [Bool.and_eq_true, Bool.not_eq_true'] at hunbound
    simp [hunbound]

theorem found_eq_some {before : Option Char} {text left : List Char} {shape : Shape}
    (h : found unicode before text = some (shape, left)) :
    shape ∈ shapes ∧ (shape.body.left text).head? = some left := by
  obtain ⟨other, hmem, hother⟩ := List.exists_of_findSome?_eq_some h
  split at hother
  · cases hother
  · obtain ⟨found, hfound, heq⟩ := Option.map_eq_some_iff.mp hother
    obtain ⟨rfl, rfl⟩ := Prod.mk.inj heq
    exact ⟨hmem, hfound⟩

/-- A text none of the shapes leaves anything of. -/
theorem found_eq_none_of_left {text : List Char} (before : Option Char)
    (h : (shapes.all fun shape => (shape.body.left text).isEmpty) = true) :
    found unicode before text = none := by
  rw [found_eq_none]
  intro shape hshape hstarts
  have hempty := List.all_eq_true.mp h shape hshape
  exact absurd (List.isEmpty_iff.mp hempty) (left_ne_nil.mpr hstarts)

/-- The mark itself is no secret, whatever stands after it. -/
theorem free_redacted {text : List Char} (before : Option Char)
    (h : Free unicode (some ']') text) : Free unicode before (redacted.toList ++ text) :=
  ⟨found_eq_none_of_left _ rfl, found_eq_none_of_left _ rfl, found_eq_none_of_left _ rfl,
    found_eq_none_of_left _ rfl, found_eq_none_of_left _ rfl, found_eq_none_of_left _ rfl,
    found_eq_none_of_left _ rfl, found_eq_none_of_left _ rfl, found_eq_none_of_left _ rfl,
    found_eq_none_of_left _ rfl, h⟩

/-! ## What the shapes take -/

theorem isLower_word {char : Char} (h : char.isLower = true) : unicode.word char = true := by
  have hascii : char.val < 128 := by
    have hcode : char.val.toNat ≤ 122 := (Letters.isLower_iff.mp h).2
    rw [UInt32.lt_iff_toNat_lt]
    exact Nat.lt_of_le_of_lt hcode (by decide)
  have halpha := Letters.isAlpha_of_isLower h
  simp [Unicode.word, hascii, Char.isAlphanum, halpha]

/-- A shape that asks for a word begins with a small letter. -/
theorem bounded_starts {shape : Shape} (hshape : shape ∈ shapes) (hbounded : shape.bounded = true)
    {text : List Char} (h : shape.body.Starts text) :
    ∃ char rest, text = char :: rest ∧ char.isLower = true := by
  simp only [shapes, List.mem_cons, List.not_mem_nil, or_false] at hshape
  rcases hshape with rfl | rfl | rfl | rfl | rfl | rfl | rfl | rfl
  · cases hbounded
  · rcases starts_alt.mp h with h | h
    · obtain ⟨left, rfl⟩ := @Starts.exists_cons 'g' ['h'] _ _ h
      exact ⟨'g', left, rfl, rfl⟩
    · obtain ⟨left, rfl⟩ := @Starts.exists_cons 'g' "ithub_pat_".toList _ _ h
      exact ⟨'g', left, rfl, rfl⟩
  · obtain ⟨left, rfl⟩ := @Starts.exists_cons 't' "skey-".toList _ _ h
    exact ⟨'t', left, rfl, rfl⟩
  · obtain ⟨left, rfl⟩ := @Starts.exists_cons 'c' ['f'] _ _ h
    exact ⟨'c', left, rfl, rfl⟩
  · obtain ⟨left, rfl⟩ := @Starts.exists_cons 'o' "ps_".toList _ _ h
    exact ⟨'o', left, rfl, rfl⟩
  · obtain ⟨left, rfl⟩ := @Starts.exists_cons 'p' "tr_".toList _ _ h
    exact ⟨'p', left, rfl, rfl⟩
  · cases hbounded
  · obtain ⟨left, rfl⟩ := @Starts.exists_cons 'e' "yJ".toList _ _ h
    exact ⟨'e', left, rfl, rfl⟩

/-- A shape that asks for a word takes every small letter there is. -/
theorem bounded_greedy {shape : Shape} (hshape : shape ∈ shapes) (hbounded : shape.bounded = true) :
    shape.body.Greedy Char.isLower := by
  have halphanum : ∀ char : Char, char.isLower = true → char.isAlphanum = true := by
    intro char hlower
    simp [Char.isAlphanum, Letters.isAlpha_of_isLower hlower]
  simp only [shapes, List.mem_cons, List.not_mem_nil, or_false] at hshape
  rcases hshape with rfl | rfl | rfl | rfl | rfl | rfl | rfl | rfl
  · cases hbounded
  · refine Greedy.alt (Greedy.seq (Greedy.seq (Greedy.seq (greedy_many halphanum))))
      (Greedy.seq (greedy_many fun char hlower => ?_))
    simp [halphanum char hlower]
  · refine Greedy.seq (greedy_many fun char hlower => ?_)
    simp [halphanum char hlower]
  · refine Greedy.seq (Greedy.seq (Greedy.seq (greedy_many fun char hlower => ?_)))
    simp [halphanum char hlower]
  · refine Greedy.seq (greedy_many fun char hlower => ?_)
    simp [halphanum char hlower]
  · refine Greedy.seq (greedy_many fun char hlower => ?_)
    simp [halphanum char hlower]
  · cases hbounded
  · refine Greedy.seq (Greedy.seq (Greedy.seq (Greedy.seq (Greedy.seq
      (greedy_many fun char hlower => ?_)))))
    simp [base64Url, halphanum char hlower]

theorem keyEnd_ends {text : List Char} (h : keyEnd.Accepts text) : text.getLast? = some '-' := by
  obtain ⟨_, _, rfl, -, _, dashes, rfl, -, hdashes⟩ := h
  rw [accepts_word] at hdashes
  subst hdashes
  simp

/-- A key's footer ends with a dash; without one, the key is all there is. -/
theorem privateKey_ends {text left : List Char} (h : (privateKey.body.left text).head? = some left) :
    left = [] ∨ ∃ taken, text = taken ++ left ∧ taken.getLast? = some '-' := by
  obtain ⟨afterOpening, hopening, hkey⟩ := exists_of_head?_seq h
  obtain ⟨afterHeader, hheader, hrest⟩ := exists_of_head?_seq hkey
  obtain ⟨opening, rfl, -⟩ := mem_left.mp hopening
  obtain ⟨header, rfl, -⟩ := mem_left.mp hheader
  rcases of_head?_alt hrest with hfooter | hcut
  · obtain ⟨taken, rfl, inside, _, rfl, -, footer, _, rfl, -, kind, last, rfl, -, hlast⟩ :=
      mem_left.mp (List.mem_of_mem_head? hfooter)
    refine Or.inr ⟨opening ++ (header ++ (inside ++ (footer ++ (kind ++ last)))), by simp, ?_⟩
    simp [keyEnd_ends hlast]
  · cases left with
    | nil => exact Or.inl rfl
    | cons char rest =>
        exact absurd (@greedy_many _ (fun _ => true) 0 (fun _ _ => rfl) _ _ _ hcut) (by simp)

/-- No shape is matched by nothing. -/
theorem not_accepts_nil {shape : Shape} (hshape : shape ∈ shapes) : ¬shape.body.Accepts [] := by
  intro h
  have hempty := List.all_eq_true.mp
    (show (shapes.all fun shape => (shape.body.left []).isEmpty) = true from rfl) shape hshape
  exact left_ne_nil.mpr ⟨[], List.prefix_rfl, h⟩ (List.isEmpty_iff.mp hempty)

/-- What a shape takes ends where no other could begin, but for an age identity. -/
theorem found_ends {before : Option Char} {text left : List Char} {shape : Shape}
    (h : found unicode before text = some (shape, left)) :
    ∃ taken, text = taken ++ left ∧ taken ≠ [] ∧
      (ageIdentity.body.Accepts taken ∨ taken.getLast? = some '-' ∨
        ∀ char rest, left = char :: rest → char.isLower = false) := by
  obtain ⟨hshape, hhead⟩ := found_eq_some h
  obtain ⟨taken, htext, haccepts⟩ := mem_left.mp (List.mem_of_mem_head? hhead)
  have hne : taken ≠ [] := by
    rintro rfl
    exact not_accepts_nil hshape haccepts
  refine ⟨taken, htext, hne, ?_⟩
  by_cases hbounded : shape.bounded = true
  · refine Or.inr (Or.inr fun char rest hleft => ?_)
    exact bounded_greedy hshape hbounded text char rest (hleft ▸ hhead)
  · simp only [shapes, List.mem_cons, List.not_mem_nil, or_false] at hshape
    rcases hshape with rfl | rfl | rfl | rfl | rfl | rfl | rfl | rfl
    · rcases privateKey_ends hhead with rfl | ⟨other, hother, hdash⟩
      · exact Or.inr (Or.inr fun char rest hleft => by cases hleft)
      · obtain rfl := List.append_cancel_right (htext.symm.trans hother)
        exact Or.inr (Or.inl hdash)
    · exact absurd rfl hbounded
    · exact absurd rfl hbounded
    · exact absurd rfl hbounded
    · exact absurd rfl hbounded
    · exact absurd rfl hbounded
    · exact Or.inl haccepts
    · exact absurd rfl hbounded

/-- A shape that starts what a text is struck to starts the text. -/
theorem starts_of_agrees {shape : Shape} (hshape : shape ∈ shapes) {text struck : List Char}
    (hagrees : ∀ start, start <+: struck → '[' ∉ start → start <+: text)
    (h : shape.body.Starts struck) : shape.body.Starts text := by
  obtain ⟨taken, htaken, haccepts⟩ := h
  by_cases havoids : shape.body.avoids '[' = true
  · exact ⟨taken, hagrees taken htaken (not_mem_of_avoids havoids haccepts), haccepts⟩
  · -- a private key's header starts the text as well, and takes what follows it
    simp only [shapes, List.mem_cons, List.not_mem_nil, or_false] at hshape
    rcases hshape with rfl | rfl | rfl | rfl | rfl | rfl | rfl | rfl
    · obtain ⟨opening, _, rfl, hopening, header, rest, rfl, hheader, -⟩ := haccepts
      have hstart : opening ++ header <+: struck := by
        refine List.IsPrefix.trans ?_ htaken
        rw [← List.append_assoc]
        exact List.prefix_append _ _
      have hmark : '[' ∉ opening ++ header := by
        rw [List.mem_append, not_or]
        exact ⟨not_mem_of_avoids (by rfl) hopening, not_mem_of_avoids (by rfl) hheader⟩
      obtain ⟨left, rfl⟩ := hagrees _ hstart hmark
      refine ⟨opening ++ header ++ left, List.prefix_rfl, opening, header ++ left, by simp, hopening,
        header, left, rfl, hheader, Or.inr ⟨by simp, by simp⟩⟩
    · exact absurd rfl havoids
    · exact absurd rfl havoids
    · exact absurd rfl havoids
    · exact absurd rfl havoids
    · exact absurd rfl havoids
    · exact absurd rfl havoids
    · exact absurd rfl havoids

/-! ## A text, struck -/

/-- An age identity, directly followed by a secret of another shape. -/
def Joined (text : List Char) : Prop :=
  ∃ before identity after, text = before ++ (identity ++ after) ∧
    ageIdentity.body.Accepts identity ∧ ∃ shape ∈ shapes, shape.bounded = true ∧
      shape.body.Starts after

theorem strike_skip (before : Option Char) (taken rest : List Char) :
    strike unicode taken.length before (taken ++ rest) =
      strike unicode 0 (taken.getLast?.or before) rest := by
  induction taken generalizing before with
  | nil => simp
  | cons char taken ih =>
      rw [List.length_cons, List.cons_append, strike, ih]
      cases taken with
      | nil => simp
      | cons other taken => simp [List.getLast?_cons]

/-- What is found is struck, and the text goes on after it. -/
theorem strike_of_found {before : Option Char} {char : Char} {text taken left : List Char}
    {shape : Shape} (h : found unicode before (char :: text) = some (shape, left))
    (htext : char :: text = taken ++ left) (hne : taken ≠ []) :
    strike unicode 0 before (char :: text) =
      (redacted.toList ++ (strike unicode 0 taken.getLast? left).1,
        shape :: (strike unicode 0 taken.getLast? left).2) := by
  obtain ⟨first, taken, rfl⟩ := List.exists_cons_of_ne_nil hne
  obtain rfl : char = first := (List.cons.inj htext).1
  obtain rfl : text = taken ++ left := (List.cons.inj htext).2
  have hskip : (taken ++ left).length - left.length = taken.length := by simp
  have hlast : taken.getLast?.or (some char) = (char :: taken).getLast? := by
    cases taken with
    | nil => rfl
    | cons other taken => simp [List.getLast?_cons]
  simp only [strike, h, hskip, strike_skip, hlast]

theorem strike_of_not_found {before : Option Char} {char : Char} {text : List Char}
    (h : found unicode before (char :: text) = none) :
    strike unicode 0 before (char :: text) =
      (char :: (strike unicode 0 (some char) text).1, (strike unicode 0 (some char) text).2) := by
  simp only [strike, h]

/-- Up to the first mark, a text is struck to itself. -/
theorem strike_agrees (before : Option Char) (text start : List Char)
    (hstart : start <+: (strike unicode 0 before text).1) (hmark : '[' ∉ start) : start <+: text := by
  induction text generalizing before start with
  | nil => simpa [strike] using hstart
  | cons char text ih =>
      cases start with
      | nil => exact List.nil_prefix
      | cons first start =>
          cases hfound : found unicode before (char :: text) with
          | none =>
              rw [strike_of_not_found hfound, List.cons_prefix_cons] at hstart
              obtain ⟨rfl, hrest⟩ := hstart
              rw [List.mem_cons, not_or] at hmark
              exact List.cons_prefix_cons.mpr ⟨rfl, ih (some first) start hrest hmark.2⟩
          | some match_ =>
              obtain ⟨taken, htext, hne, -⟩ := found_ends hfound
              have hredacted : redacted.toList = '[' :: "redacted]".toList := rfl
              rw [strike_of_found hfound htext hne, hredacted, List.cons_append,
                List.cons_prefix_cons] at hstart
              exact absurd (hstart.1 ▸ List.mem_cons_self) hmark

theorem Joined.append {before text : List Char} (h : Joined text) : Joined (before ++ text) := by
  obtain ⟨first, identity, after, rfl, hrest⟩ := h
  exact ⟨before ++ first, identity, after, by simp, hrest⟩

/-- A text stands as free after the mark as after what was struck. -/
theorem free_after_mark {last : Option Char} {text : List Char}
    (hfree : Free unicode last (strike unicode 0 last text).1)
    (hlast : ∀ shape ∈ shapes, shape.bounded = true → shape.body.Starts text →
      last.any unicode.word = false) :
    Free unicode (some ']') (strike unicode 0 last text).1 := by
  have hagrees := @strike_agrees unicode last text
  generalize (strike unicode 0 last text).1 = struck at hfree hagrees ⊢
  cases struck with
  | nil => trivial
  | cons char struck =>
      refine ⟨found_eq_none.mpr fun shape hshape hstarts => ?_, hfree.2⟩
      obtain ⟨hbounded, hboundary⟩ := found_eq_none.mp hfree.1 shape hshape hstarts
      -- it asks for a word, and there is one after the mark: there was one after what was struck
      have hword := hlast shape hshape hbounded (starts_of_agrees hshape hagrees hstarts)
      obtain ⟨first, rest, htext, hlower⟩ := bounded_starts hshape hbounded hstarts
      obtain rfl := (List.cons.inj htext).1
      simp [Unicode.boundary, hword, isLower_word hlower] at hboundary

/-- Where no age identity is directly followed by a secret, nothing of a shape is left. -/
theorem free_strike (before : Option Char) (text : List Char) (h : ¬Joined text) :
    Free unicode before (strike unicode 0 before text).1 := by
  induction hlength : text.length using Nat.strongRecOn generalizing before text with
  | ind length ih =>
      cases text with
      | nil => trivial
      | cons char text =>
          cases hfound : found unicode before (char :: text) with
          | none =>
              have hrest := ih text.length (by simp [← hlength]) (some char) text
                (fun hjoined => h (@Joined.append [char] text hjoined)) rfl
              have hagrees := @strike_agrees unicode before (char :: text)
              rw [strike_of_not_found hfound] at hagrees ⊢
              refine ⟨found_eq_none.mpr fun shape hshape hstarts => ?_, hrest⟩
              exact found_eq_none.mp hfound shape hshape (starts_of_agrees hshape hagrees hstarts)
          | some match_ =>
              obtain ⟨shape, left⟩ := match_
              obtain ⟨taken, htext, hne, hends⟩ := found_ends hfound
              rw [strike_of_found hfound htext hne]
              have hshort : left.length < length := by
                have hsum := congrArg List.length htext
                have hpos := List.length_pos_iff.mpr hne
                rw [List.length_append] at hsum
                omega
              refine free_redacted before (free_after_mark
                (ih left.length hshort _ left (fun hjoined => h (htext ▸ hjoined.append)) rfl) ?_)
              intro other hother hbounded hstarts
              rcases hends with hidentity | hdash | hnext
              · exact absurd ⟨[], taken, left, htext, hidentity, other, hother, hbounded, hstarts⟩ h
              · rw [hdash]
                rfl
              · obtain ⟨first, rest, hleft, hlower⟩ := bounded_starts hother hbounded hstarts
                simp [hnext first rest hleft] at hlower

/-- Nothing is struck of a text that is free. -/
theorem strike_of_free {before : Option Char} {text : List Char} (h : Free unicode before text) :
    strike unicode 0 before text = (text, []) := by
  induction text generalizing before with
  | nil => rfl
  | cons char text ih => rw [strike_of_not_found h.1, ih h.2]

theorem text_of_free {path : List Step} {value : String} (h : Free unicode none value.toList) :
    text unicode path value = (value, []) := by
  simp [text, strike_of_free h]

theorem free_text (path : List Step) (value : String) (h : ¬Joined value.toList) :
    Free unicode none (text unicode path value).1.toList := by
  simpa [text] using free_strike none value.toList h

theorem free_mark : Free unicode none redacted.toList := by
  simpa using @free_redacted unicode [] none trivial

/-! ## A document, struck -/

section Documents

variable {ν : Type u} {declared : List String}

mutual

/-- A document a strike leaves as it is: within a member named as a secret every string is
the mark, and no string holds a shape. -/
def Settled (unicode : Unicode) (declared : List String) : Bool → Document ν → Prop
  | within, .str value => (within = true → value = redacted) ∧ Free unicode none value.toList
  | within, .arr items => SettledItems unicode declared within items
  | within, .obj members =>
      (members.map Prod.fst).Nodup ∧ SettledMembers unicode declared within members
  | _, _ => True

def SettledItems (unicode : Unicode) (declared : List String) : Bool → List (Document ν) → Prop
  | _, [] => True
  | within, item :: items =>
      Settled unicode declared within item ∧ SettledItems unicode declared within items

def SettledMembers (unicode : Unicode) (declared : List String) :
    Bool → List (String × Document ν) → Prop
  | _, [] => True
  | within, (name, value) :: members =>
      Free unicode none name.toList ∧
        Settled unicode declared (within || namedSecret unicode declared name) value ∧
        SettledMembers unicode declared within members

end

theorem settledMembers_iff {within : Bool} {members : List (String × Document ν)} :
    SettledMembers unicode declared within members ↔
      ∀ member ∈ members, Free unicode none member.1.toList ∧
        Settled unicode declared (within || namedSecret unicode declared member.1) member.2 := by
  induction members with
  | nil => simp [SettledMembers]
  | cons member members ih =>
      rw [SettledMembers, List.forall_mem_cons, ih, and_assoc]

mutual

theorem struckNode_settled (within : Bool) (path : List Step) :
    ∀ value : Document ν, (∀ string ∈ value.strings, ¬Joined string.toList) →
      Settled unicode declared within (struckNode unicode declared within path value).1
  | .null, _ => trivial
  | .bool _, _ => trivial
  | .num _, _ => trivial
  | .str value, h => by
      cases within with
      | true => exact ⟨fun _ => rfl, free_mark⟩
      | false =>
          exact ⟨fun hwithin => absurd hwithin (by simp),
            free_text path value (h value (by simp [Document.strings]))⟩
  | .arr items, h => by
      rw [struckNode]
      exact struckItems_settled within path 0 items h
  | .obj members, h => by
      rw [struckNode]
      obtain ⟨hmem, hnodup⟩ := Dict.collect_spec (struckMembers unicode declared within path members).1
      have hmembers := settledMembers_iff.mp (struckMembers_settled within path members h)
      exact ⟨hnodup, settledMembers_iff.mpr fun member hmember => hmembers member (hmem member hmember)⟩

theorem struckItems_settled (within : Bool) (path : List Step) (index : Nat) :
    ∀ items : List (Document ν),
      (∀ string ∈ Document.stringsOfItems items, ¬Joined string.toList) →
      SettledItems unicode declared within (struckItems unicode declared within path index items).1
  | [], _ => trivial
  | item :: items, h => by
      rw [Document.stringsOfItems, List.forall_mem_append] at h
      exact ⟨struckNode_settled within _ item h.1, struckItems_settled within path _ items h.2⟩

theorem struckMembers_settled (within : Bool) (path : List Step) :
    ∀ members : List (String × Document ν),
      (∀ string ∈ Document.stringsOfMembers members, ¬Joined string.toList) →
      SettledMembers unicode declared within
        (struckMembers unicode declared within path members).1
  | [], _ => trivial
  | (name, value) :: members, h => by
      rw [Document.stringsOfMembers, List.cons_append, List.forall_mem_cons,
        List.forall_mem_append] at h
      exact ⟨free_text path name h.1, struckNode_settled _ _ value h.2.1,
        struckMembers_settled within path members h.2.2⟩

end

mutual

/-- Where a strike of a document that is settled is logged: at each string within a member
named as a secret. -/
def namedStrings (unicode : Unicode) (declared : List String) (within : Bool) (path : List Step) :
    Document ν → List Strike
  | .str _ => if within then [(pointer path, named)] else []
  | .arr items => namedItems unicode declared within path 0 items
  | .obj members => namedMembers unicode declared within path members
  | _ => []

def namedItems (unicode : Unicode) (declared : List String) (within : Bool) (path : List Step)
    (index : Nat) : List (Document ν) → List Strike
  | [] => []
  | item :: items =>
      namedStrings unicode declared within (path ++ [.index index]) item ++
        namedItems unicode declared within path (index + 1) items

def namedMembers (unicode : Unicode) (declared : List String) (within : Bool) (path : List Step) :
    List (String × Document ν) → List Strike
  | [] => []
  | (name, value) :: members =>
      namedStrings unicode declared (within || namedSecret unicode declared name)
          (path ++ [.member name]) value ++
        namedMembers unicode declared within path members

end

mutual

theorem struckNode_of_settled (within : Bool) (path : List Step) :
    ∀ value : Document ν, Settled unicode declared within value →
      struckNode unicode declared within path value =
        (value, namedStrings unicode declared within path value)
  | .null, _ => rfl
  | .bool _, _ => rfl
  | .num _, _ => rfl
  | .str value, h => by
      cases within with
      | true => simp [struckNode, namedStrings, h.1 rfl]
      | false => simp [struckNode, namedStrings, text_of_free h.2]
  | .arr items, h => by
      rw [struckNode, struckItems_of_settled within path 0 items h]
      rfl
  | .obj members, h => by
      rw [struckNode, struckMembers_of_settled within path members h.2, Dict.collect_of_nodup h.1]
      rfl

theorem struckItems_of_settled (within : Bool) (path : List Step) (index : Nat) :
    ∀ items : List (Document ν), SettledItems unicode declared within items →
      struckItems unicode declared within path index items =
        (items, namedItems unicode declared within path index items)
  | [], _ => rfl
  | item :: items, h => by
      rw [struckItems, struckNode_of_settled within _ item h.1,
        struckItems_of_settled within path _ items h.2]
      rfl

theorem struckMembers_of_settled (within : Bool) (path : List Step) :
    ∀ members : List (String × Document ν), SettledMembers unicode declared within members →
      struckMembers unicode declared within path members =
        (members, namedMembers unicode declared within path members)
  | [], _ => rfl
  | (name, value) :: members, h => by
      rw [struckMembers, text_of_free h.1, struckNode_of_settled _ _ value h.2.1,
        struckMembers_of_settled within path members h.2.2]
      rfl

end

mutual

theorem Settled.free : ∀ {within : Bool} {value : Document ν},
    Settled unicode declared within value → ∀ string ∈ value.strings, Free unicode none string.toList
  | _, .null, _ => by simp [Document.strings]
  | _, .bool _, _ => by simp [Document.strings]
  | _, .num _, _ => by simp [Document.strings]
  | _, .str value, h => by simpa [Document.strings] using h.2
  | _, .arr items, h => SettledItems.free h
  | _, .obj members, h => SettledMembers.free h.2

theorem SettledItems.free : ∀ {within : Bool} {items : List (Document ν)},
    SettledItems unicode declared within items →
      ∀ string ∈ Document.stringsOfItems items, Free unicode none string.toList
  | _, [], _ => by simp [Document.stringsOfItems]
  | _, item :: items, h => by
      rw [Document.stringsOfItems, List.forall_mem_append]
      exact ⟨h.1.free, SettledItems.free h.2⟩

theorem SettledMembers.free : ∀ {within : Bool} {members : List (String × Document ν)},
    SettledMembers unicode declared within members →
      ∀ string ∈ Document.stringsOfMembers members, Free unicode none string.toList
  | _, [], _ => by simp [Document.stringsOfMembers]
  | _, (name, value) :: members, h => by
      rw [Document.stringsOfMembers, List.cons_append, List.forall_mem_cons, List.forall_mem_append]
      exact ⟨h.1, h.2.1.free, SettledMembers.free h.2.2⟩

end

/-- Where no string holds an age identity directly followed by another secret, a strike
leaves nothing of a shape, and a second one leaves the document as it is and finds the
strings within members named as secrets alone. -/
theorem struck_twice (unicode : Unicode) (declared : List String) (value : Document ν)
    (h : ∀ string ∈ value.strings, ¬Joined string.toList) :
    (∀ string ∈ (struck unicode declared value).1.strings, Free unicode none string.toList) ∧
      struck unicode declared (struck unicode declared value).1 =
        ((struck unicode declared value).1,
          namedStrings unicode declared false [] (struck unicode declared value).1) := by
  have hsettled := @struckNode_settled unicode _ declared false [] value h
  exact ⟨hsettled.free, struckNode_of_settled false [] _ hsettled⟩

theorem Joined.mem {text : List Char} (h : Joined text) : 'A' ∈ text := by
  obtain ⟨before, identity, after, rfl, ⟨start, rest, rfl, hstart, -⟩, -⟩ := h
  obtain rfl := accepts_word.mp hstart
  simp

/-- A contact's message that holds a token, and a password beside it. -/
def sampleReport : Document Nat :=
  .obj [("message", .str ("see " ++ sampleToken 'a')), ("password", .str "x")]

/-- The token is struck, and a second strike leaves the report as the first left it. -/
theorem sampleReport_struck :
    (struck sampleUnicode [] (struck sampleUnicode [] sampleReport).1).1 =
      (struck sampleUnicode [] sampleReport).1 := by
  have hsmall : ∀ string ∈ sampleReport.strings, 'A' ∉ string.toList := by
    decide
  have htwice := (struck_twice sampleUnicode [] sampleReport fun string hstring hjoined =>
    hsmall string hstring hjoined.mem).2
  rw [htwice]

/-- The password that was struck is struck again. -/
theorem password_struck_again :
    ¬∀ (unicode : Unicode) (declared : List String) (value : Document Nat),
      (∀ string ∈ (struck unicode declared value).1.strings, Free unicode none string.toList) ∧
        (struck unicode declared (struck unicode declared value).1).2 = [] ∧
        (struck unicode declared (struck unicode declared value).1).1 =
          (struck unicode declared value).1 := by
  intro h
  have hnothing := (h sampleUnicode [] sampleReport).2.1
  revert hnothing
  decide +kernel

end Documents

end SeverinoHQ.ControlPlane.SecretShapes
