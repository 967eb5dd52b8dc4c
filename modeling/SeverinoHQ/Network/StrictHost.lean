/-
# The host a Host header names

`split_host_port` reads an endpoint a proxy or a daemon wrote, and `strict_host` the host of
a header, for boundaries that fail closed. A host is a name, or an address of more than one
colon; an address stands alone or in brackets, and either may have a port.
-/

import SeverinoHQ.Math.Letters

namespace SeverinoHQ.Network

open SeverinoHQ.Math.Letters

/-- Unicode's tables, as far as a host is read by them: the digits of `str.isdigit`, and that
how a letter is lowered is up to the letters near it. -/
structure Tables extends Casing where
  isDigit : Char → Bool
  isDigit_ascii : ∀ c, c.toNat < 128 → isDigit c = c.isDigit
  lowered_digit : ∀ before c after, isDigit c = true → lowered before c after = [c]
  digit_of_lowered : ∀ before c after, ∀ d ∈ lowered before c after, isDigit d = true → d = c
  lowered_opened : ∀ before c after, lowered ('[' :: before) c after = lowered before c after
  lowered_closed : ∀ before c after rest, (∀ d ∈ rest, d.toNat < 128 ∧ d.isAlpha = false) →
    lowered before c (after ++ rest) = lowered before c after

/-- The letters of ASCII lowered, and the digits of Latin-1. -/
def Tables.plain : Tables where
  toCasing := Casing.plain
  isDigit c := c.isDigit || c.toNat ∈ [0xb2, 0xb3, 0xb9]
  isDigit_ascii c h := by
    have hnot : ¬ c.toNat ∈ [0xb2, 0xb3, 0xb9] := by simp; omega
    simp [hnot]
  lowered_digit _ c _ h := by
    rw [Bool.or_eq_true, isDigit_iff, decide_eq_true_eq] at h
    simp only [List.mem_cons, List.not_mem_nil, or_false] at h
    exact congrArg (fun c => [c]) (toLower_eq_self (by omega))
  digit_of_lowered _ c _ d hd h := by
    obtain rfl : d = c.toLower := List.mem_singleton.mp hd
    rw [Bool.or_eq_true, isDigit_iff, decide_eq_true_eq, toNat_toLower] at h
    simp only [List.mem_cons, List.not_mem_nil, or_false] at h
    apply toLower_eq_self
    intro hupper
    rw [if_pos hupper] at h
    omega
  lowered_opened _ _ _ := rfl
  lowered_closed _ _ _ _ _ := rfl

/-- `text.isdigit()`. -/
def Tables.allDigits (tables : Tables) (text : List Char) : Prop :=
  text ≠ [] ∧ ∀ c ∈ text, tables.isDigit c = true

instance (tables : Tables) (text : List Char) : Decidable (tables.allDigits text) :=
  @instDecidableAnd _ _ _ (List.decidableBAll _ _)

/-- `text.rstrip(".")`. -/
def dotless (text : List Char) : List Char := (text.reverse.dropWhile (· == '.')).reverse

/-- `split_host_port`: with one colon, where it is cut from the right is where it is from
the left. -/
def splitHostPort (value : List Char) : List Char × List Char :=
  let candidate := strip value
  if candidate = [] then ([], [])
  else if candidate.head? = some '[' then
    let halves := partition ']' candidate
    (halves.1.dropWhile (· == '['), halves.2.dropWhile (· == ':'))
  else if candidate.count ':' = 1 then partition ':' candidate
  else (candidate, [])

/-- `strict_host`. -/
def strictHost (tables : Tables) (value : List Char) : List Char :=
  let candidate := tables.lower (strip value)
  let suffix := (partition ']' candidate).2
  if candidate.head? = some '[' ∧
      (']' ∉ candidate ∨
        suffix ≠ [] ∧ ¬ (suffix.head? = some ':' ∧ tables.allDigits (suffix.drop 1))) then []
  else
    let halves := splitHostPort candidate
    if halves.2 ≠ [] ∧ ¬ tables.allDigits halves.2 then []
    else if candidate.count ':' = 1 ∧ halves.2 = [] then []
    else dotless halves.1

/-! ## The grammar -/

/-- More than dots. -/
def Labelled (text : List Char) : Prop := ∃ c ∈ text, c ≠ '.'

/-- A name: no colon and no bracket in it, and more than dots. -/
structure IsName (text : List Char) : Prop where
  labelled : Labelled text
  plain : ∀ c ∈ text, c ≠ ':' ∧ c ≠ '[' ∧ c ≠ ']'

/-- An address: more than one colon, and no bracket. -/
structure IsAddress (text : List Char) : Prop where
  colons : 2 ≤ text.count ':'
  plain : ∀ c ∈ text, c ≠ '[' ∧ c ≠ ']'

/-- A port: digits of ASCII. -/
def IsPort (text : List Char) : Prop := text ≠ [] ∧ ∀ c ∈ text, c.isDigit = true

/-- The forms of the grammar, each with its host and its port. -/
inductive Named : List Char → List Char → List Char → Prop
  | name {name : List Char} : IsName name → Named name name []
  | address {address : List Char} : IsAddress address → Named address address []
  | port {name digits : List Char} : IsName name → IsPort digits →
      Named (name ++ ':' :: digits) name digits
  | bracketed {address : List Char} : IsAddress address →
      Named ('[' :: (address ++ [']'])) address []
  | bracketedPort {address digits : List Char} : IsAddress address → IsPort digits →
      Named ('[' :: (address ++ ']' :: ':' :: digits)) address digits

/-- What a value names is what its grammar says, and the other values name nothing. -/
structure Exact (tables : Tables) (value : List Char) : Prop where
  named : ∀ host port, Named (strip value) host port →
    splitHostPort value = (host, port) ∧ strictHost tables value = dotless (tables.lower host) ∧
      strictHost tables value ≠ []
  other : (¬ ∃ host port, Named (strip value) host port) → strictHost tables value = []

/-- The malformed values that name a host: brackets that hold a bracket or no address, or stand
elsewhere than around an address, and a port whose digits are not all of ASCII. -/
inductive Misread (tables : Tables) : List Char → Prop
  | bracketed {inner : List Char} : ']' ∉ inner → inner.count ':' ≠ 1 →
      Labelled (inner.dropWhile (· == '[')) → ('[' ∈ inner ∨ inner.count ':' < 2) →
        Misread tables ('[' :: (inner ++ [']']))
  | bracketedPort {inner digits : List Char} : ']' ∉ inner → tables.allDigits digits →
      Labelled (inner.dropWhile (· == '[')) →
        ('[' ∈ inner ∨ inner.count ':' < 2 ∨ ¬ IsPort digits) →
          Misread tables ('[' :: (inner ++ ']' :: ':' :: digits))
  | port {name digits : List Char} : name.head? ≠ some '[' → ':' ∉ name →
      tables.allDigits digits → Labelled name → ('[' ∈ name ∨ ']' ∈ name ∨ ¬ IsPort digits) →
        Misread tables (name ++ ':' :: digits)
  | host {text : List Char} : text.head? ≠ some '[' → text.count ':' ≠ 1 → Labelled text →
      ('[' ∈ text ∨ ']' ∈ text) → Misread tables text

/-! ## Marks -/

namespace Tables

variable (tables : Tables)

/-- A letter that stands for itself when it is lowered, and that no other is lowered to. -/
def isMark (c : Char) : Bool := (decide (c.toNat < 128) && !c.isAlpha) || tables.isDigit c

theorem isMark_ascii {c : Char} (hascii : c.toNat < 128) (halpha : c.isAlpha = false) :
    tables.isMark c = true := by
  simp [isMark, hascii, halpha]

theorem isMark_digit {c : Char} (h : tables.isDigit c = true) : tables.isMark c = true := by
  simp [isMark, h]

theorem lower_lowers (text : List Char) : Lowers tables.isMark text (tables.lower text) := by
  apply tables.lowerFrom_lowers
  · intro before c after hmark
    rcases Bool.or_eq_true _ _ ▸ hmark with hascii | hdigit
    · rw [Bool.and_eq_true, decide_eq_true_eq, Bool.not_eq_true'] at hascii
      have halpha := hascii.2
      rw [Bool.eq_false_iff, ne_eq, isAlpha_iff] at halpha
      rw [tables.ascii before c after hascii.1, toLower_eq_self (by omega)]
    · exact tables.lowered_digit before c after hdigit
  · intro before c after d hd hmark
    rcases Bool.or_eq_true _ _ ▸ hmark with hascii | hdigit
    · rw [Bool.and_eq_true, decide_eq_true_eq, Bool.not_eq_true'] at hascii
      exact tables.eq_of_mem_lowered hd (.inr hascii)
    · exact tables.digit_of_lowered before c after d hd hdigit

theorem not_isDigit_colon : tables.isDigit ':' = false := by
  rw [tables.isDigit_ascii ':' (by decide)]
  decide

/-- What follows a text in ASCII without letters leaves how the text is lowered. -/
theorem lowerFrom_closed {rest : List Char} (h : ∀ d ∈ rest, d.toNat < 128 ∧ d.isAlpha = false)
    (before text : List Char) : lowerFrom tables.lowered before (text ++ rest) =
      lowerFrom tables.lowered before text ++ lowerFrom tables.lowered (before ++ text) rest := by
  induction text generalizing before with
  | nil => simp [lowerFrom]
  | cons c text ih =>
      rw [List.cons_append, lowerFrom, tables.lowered_closed before c text rest h, ih, lowerFrom]
      simp

theorem lowerFrom_opened (before text : List Char) :
    lowerFrom tables.lowered ('[' :: before) text = lowerFrom tables.lowered before text := by
  induction text generalizing before with
  | nil => rfl
  | cons c text ih =>
      have hnext := ih (before ++ [c])
      rw [lowerFrom, tables.lowered_opened, lowerFrom, ← hnext, List.cons_append]

theorem lower_closed {rest : List Char} (h : ∀ d ∈ rest, d.toNat < 128 ∧ d.isAlpha = false)
    (text : List Char) : tables.lower (text ++ rest) = tables.lower text ++ rest := by
  have hrest : ∀ before, lowerFrom tables.lowered before rest = rest := by
    intro before
    rw [tables.lowerFrom_ascii fun d hd => (h d hd).1]
    conv_rhs => rw [← List.map_id rest]
    apply List.map_congr_left
    intro d hd
    have halpha := (h d hd).2
    rw [Bool.eq_false_iff, ne_eq, isAlpha_iff] at halpha
    exact toLower_eq_self (by omega)
  rw [Casing.lower, tables.lowerFrom_closed h, hrest]
  rfl

theorem lower_opened (text : List Char) : tables.lower ('[' :: text) = '[' :: tables.lower text := by
  have hopened := tables.lowerFrom_opened [] text
  rw [Casing.lower, lowerFrom, tables.ascii _ _ _ (by decide), List.nil_append, hopened]
  rfl

end Tables

theorem dotless_eq_nil {text : List Char} : dotless text = [] ↔ ¬ Labelled text := by
  simp [dotless, Labelled]

/-! ## What is cut -/

section Cut

variable {value : List Char}

theorem splitHostPort_bracketed {inner suffix : List Char} (hinner : ']' ∉ inner)
    (hstrip : strip value = '[' :: (inner ++ ']' :: suffix)) :
    splitHostPort value = (inner.dropWhile (· == '['), suffix.dropWhile (· == ':')) := by
  have hlead : ']' ∉ '[' :: inner := by simpa using hinner
  have hcut : partition ']' ('[' :: (inner ++ ']' :: suffix)) = ('[' :: inner, suffix) :=
    partition_append hlead suffix
  have hhead : ('[' :: (inner ++ ']' :: suffix)).head? = some '[' := rfl
  unfold splitHostPort
  dsimp only
  rw [hstrip, if_neg (List.cons_ne_nil _ _), if_pos hhead, hcut]
  simp

theorem splitHostPort_port {name port : List Char} (hname : name.head? ≠ some '[')
    (hcolon : ':' ∉ name) (hport : ':' ∉ port) (hstrip : strip value = name ++ ':' :: port) :
    splitHostPort value = (name, port) := by
  have hhead : (name ++ ':' :: port).head? ≠ some '[' := by
    cases name with
    | nil => simp
    | cons c name => simpa using hname
  have hcount : (name ++ ':' :: port).count ':' = 1 := by
    rw [List.count_append, List.count_cons_self, List.count_eq_zero.mpr hcolon,
      List.count_eq_zero.mpr hport]
  unfold splitHostPort
  dsimp only
  rw [hstrip, if_neg (by simp), if_neg hhead, if_pos hcount, partition_append hcolon]

theorem splitHostPort_whole (hhead : (strip value).head? ≠ some '[')
    (hcount : (strip value).count ':' ≠ 1) : splitHostPort value = (strip value, []) := by
  unfold splitHostPort
  dsimp only
  by_cases hempty : strip value = []
  · rw [if_pos hempty, hempty]
  · rw [if_neg hempty, if_neg hhead, if_neg hcount]

end Cut

/-! ## What is judged -/

section Judged

variable {tables : Tables} {value : List Char}

theorem strip_lower : strip (tables.lower (strip value)) = tables.lower (strip value) :=
  strip_of_bare (tables.bare_lower (bare_strip value))

theorem colon_not_mem_digits {digits : List Char} (h : tables.allDigits digits) : ':' ∉ digits := by
  intro hmem
  have hcolon := h.2 ':' hmem
  simp [tables.not_isDigit_colon] at hcolon

/-- A port of digits is left whole. -/
theorem dropWhile_digits {digits : List Char} (h : tables.allDigits digits) :
    digits.dropWhile (· == ':') = digits := by
  have hcolon := colon_not_mem_digits h
  cases digits with
  | nil => rfl
  | cons c digits =>
      have hne : ¬ c = ':' := fun hc => hcolon (hc ▸ List.mem_cons_self)
      simp [hne]

theorem strictHost_unclosed (hhead : (tables.lower (strip value)).head? = some '[')
    (hclosed : ']' ∉ tables.lower (strip value)) : strictHost tables value = [] := by
  unfold strictHost
  dsimp only
  rw [if_pos ⟨hhead, .inl hclosed⟩]

section Bracketed

variable {inner suffix : List Char} (hinner : ']' ∉ inner)
  (hlower : tables.lower (strip value) = '[' :: (inner ++ ']' :: suffix))
include hinner hlower

/-- What `strict_host` decides once the bracket is closed. -/
theorem strictHost_closed : strictHost tables value =
    if suffix ≠ [] ∧ ¬ (suffix.head? = some ':' ∧ tables.allDigits (suffix.drop 1)) then []
    else if suffix.dropWhile (· == ':') ≠ [] ∧ ¬ tables.allDigits (suffix.dropWhile (· == ':'))
      then []
    else if ('[' :: (inner ++ ']' :: suffix)).count ':' = 1 ∧ suffix.dropWhile (· == ':') = []
      then []
    else dotless (inner.dropWhile (· == '[')) := by
  have hlead : ']' ∉ '[' :: inner := by simpa using hinner
  have hcut : partition ']' ('[' :: (inner ++ ']' :: suffix)) = ('[' :: inner, suffix) :=
    partition_append hlead suffix
  have hstrip := @strip_lower tables value
  have hsplit := splitHostPort_bracketed hinner (hstrip.trans hlower)
  have hclosed : ¬ ']' ∉ '[' :: (inner ++ ']' :: suffix) := by simp
  have hhead : ('[' :: (inner ++ ']' :: suffix)).head? = some '[' := rfl
  unfold strictHost
  dsimp only
  rw [hsplit, hlower, hcut]
  simp only [hhead, true_and, or_iff_right hclosed]

theorem strictHost_after (hsuffix : suffix ≠ [])
    (hport : ¬ (suffix.head? = some ':' ∧ tables.allDigits (suffix.drop 1))) :
    strictHost tables value = [] := by
  rw [strictHost_closed hinner hlower, if_pos ⟨hsuffix, hport⟩]

theorem strictHost_bracket (hsuffix : suffix = []) : strictHost tables value =
    if inner.count ':' = 1 then [] else dotless (inner.dropWhile (· == '[')) := by
  subst hsuffix
  rw [strictHost_closed hinner hlower]
  simp

theorem strictHost_bracket_port {digits : List Char} (hdigits : tables.allDigits digits)
    (hsuffix : suffix = ':' :: digits) :
    strictHost tables value = dotless (inner.dropWhile (· == '[')) := by
  subst hsuffix
  have hwhole := dropWhile_digits hdigits
  have hport : (':' :: digits).dropWhile (· == ':') = digits := by simpa using hwhole
  rw [strictHost_closed hinner hlower, if_neg (by simp [hdigits]), hport, if_neg (by simp [hdigits]),
    if_neg (by simp [hdigits.1])]

end Bracketed

theorem strictHost_port {name port : List Char}
    (hname : name.head? ≠ some '[') (hcolon : ':' ∉ name) (hport : ':' ∉ port)
    (hlower : tables.lower (strip value) = name ++ ':' :: port) :
    strictHost tables value = if tables.allDigits port then dotless name else [] := by
  have hsplit := splitHostPort_port hname hcolon hport ((@strip_lower tables value).trans hlower)
  have hhead : (name ++ ':' :: port).head? ≠ some '[' := by
    cases name with
    | nil => simp
    | cons c name => simpa using hname
  have hcount : (name ++ ':' :: port).count ':' = 1 := by
    rw [List.count_append, List.count_cons_self, List.count_eq_zero.mpr hcolon,
      List.count_eq_zero.mpr hport]
  unfold strictHost
  dsimp only
  rw [hsplit, hlower, if_neg (fun h => hhead h.1)]
  by_cases hempty : port = []
  · have hdigits : ¬ tables.allDigits port := fun h => h.1 hempty
    rw [if_neg (fun h => h.1 hempty), if_pos ⟨hcount, hempty⟩, if_neg hdigits]
  · by_cases hdigits : tables.allDigits port
    · simp [hempty, hdigits]
    · simp [hempty, hdigits]

theorem strictHost_whole (hhead : (tables.lower (strip value)).head? ≠ some '[')
    (hcount : (tables.lower (strip value)).count ':' ≠ 1) :
    strictHost tables value = dotless (tables.lower (strip value)) := by
  have hstrip := @strip_lower tables value
  have hsplit := @splitHostPort_whole (tables.lower (strip value))
    (hstrip.symm ▸ hhead) (hstrip.symm ▸ hcount)
  rw [hstrip] at hsplit
  unfold strictHost
  dsimp only
  rw [hsplit, if_neg (fun h => hhead h.1)]
  simp [hcount]

end Judged

/-! ## Lowering and what is cut -/

section Lowered

variable {tables : Tables} {text lowered : List Char}

theorem labelled_iff (h : Lowers tables.isMark text lowered) : Labelled lowered ↔ Labelled text := by
  have hdots := @Lowers.forall_iff _ _ _ (· = '.') (fun c hc =>
    tables.isMark_ascii (by rw [hc]; decide) (by rw [hc]; decide)) h
  have hnot := not_congr hdots
  simpa only [Labelled, not_forall, exists_prop] using hnot

theorem allDigits_iff (h : Lowers tables.isMark text lowered) :
    tables.allDigits lowered ↔ tables.allDigits text := by
  have hdigits := @Lowers.forall_iff _ _ _ (fun c => tables.isDigit c = true)
    (fun _ => tables.isMark_digit) h
  simp only [Tables.allDigits, hdigits, ne_eq, h.eq_nil_iff]

end Lowered

section Values

variable {tables : Tables} {value : List Char}

theorem lowers_value (tables : Tables) (value : List Char) :
    Lowers tables.isMark (strip value) (tables.lower (strip value)) := tables.lower_lowers _

section Bracketed

variable {inner suffix : List Char} (hinner : ']' ∉ inner)
  (hvalue : strip value = '[' :: (inner ++ ']' :: suffix))
include hinner hvalue

/-- The parts of a bracketed value, lowered. -/
theorem lowered_bracketed : ∃ inner' suffix', ']' ∉ inner' ∧
    tables.lower (strip value) = '[' :: (inner' ++ ']' :: suffix') ∧
      Lowers tables.isMark inner inner' ∧ Lowers tables.isMark suffix suffix' := by
  have hlowers := lowers_value tables value
  rw [hvalue] at hlowers ⊢
  obtain ⟨rest, hrest, hlowers⟩ := hlowers.mark_inv (tables.isMark_ascii (by decide) (by decide))
  obtain ⟨inner', closing, rfl, hinner', hclosing⟩ := hlowers.append_inv
  obtain ⟨suffix', rfl, hsuffix⟩ := hclosing.mark_inv (tables.isMark_ascii (by decide) (by decide))
  refine ⟨inner', suffix', ?_, hrest, hinner', hsuffix⟩
  rwa [hinner'.mem_iff (tables.isMark_ascii (by decide) (by decide))]

theorem bracket_taken_iff (hsuffix : suffix = []) : strictHost tables value ≠ [] ↔
    inner.count ':' ≠ 1 ∧ Labelled (inner.dropWhile (· == '[')) := by
  obtain ⟨inner', suffix', hinner', hlower, hlowers, hrest⟩ :=
    @lowered_bracketed tables _ _ _ hinner hvalue
  have hmark : tables.isMark '[' = true := tables.isMark_ascii (by decide) (by decide)
  rw [strictHost_bracket hinner' hlower (hrest.eq_nil_iff.mpr hsuffix),
    hlowers.count_eq (tables.isMark_ascii (by decide) (by decide)),
    ← labelled_iff (hlowers.dropWhile_mark hmark)]
  split
  · next hone => simp [hone]
  · next hone =>
      rw [ne_eq, dotless_eq_nil, not_not]
      exact (and_iff_right hone).symm

theorem bracket_port_taken_iff {digits : List Char} (hdigits : tables.allDigits digits)
    (hsuffix : suffix = ':' :: digits) : strictHost tables value ≠ [] ↔
      Labelled (inner.dropWhile (· == '[')) := by
  subst hsuffix
  obtain ⟨inner', suffix', hinner', hlower, hlowers, hrest⟩ :=
    @lowered_bracketed tables _ _ _ hinner hvalue
  obtain ⟨digits', rfl, hport⟩ := hrest.mark_inv (tables.isMark_ascii (by decide) (by decide))
  have hmark : tables.isMark '[' = true := tables.isMark_ascii (by decide) (by decide)
  rw [strictHost_bracket_port hinner' hlower ((allDigits_iff hport).mpr hdigits) rfl, ne_eq,
    dotless_eq_nil, not_not, labelled_iff (hlowers.dropWhile_mark hmark)]

theorem bracket_refused (hsuffix : suffix ≠ [])
    (hport : ∀ digits, suffix = ':' :: digits → ¬ tables.allDigits digits) :
    strictHost tables value = [] := by
  obtain ⟨inner', suffix', hinner', hlower, -, hrest⟩ :=
    @lowered_bracketed tables _ _ _ hinner hvalue
  apply strictHost_after hinner' hlower (fun hnil => hsuffix (hrest.eq_nil_iff.mp hnil))
  rintro ⟨hhead, hdigits⟩
  rw [hrest.head_iff (tables.isMark_ascii (by decide) (by decide))] at hhead
  cases suffix with
  | nil => exact hsuffix rfl
  | cons c digits =>
      obtain rfl : c = ':' := by simpa using hhead
      obtain ⟨digits', rfl, hport'⟩ := hrest.mark_inv (tables.isMark_ascii (by decide) (by decide))
      exact hport digits rfl ((allDigits_iff hport').mp hdigits)

end Bracketed

theorem port_taken_iff {name port : List Char} (hname : name.head? ≠ some '[')
    (hcolon : ':' ∉ name) (hport : ':' ∉ port) (hvalue : strip value = name ++ ':' :: port) :
    strictHost tables value ≠ [] ↔ tables.allDigits port ∧ Labelled name := by
  have hlowers := lowers_value tables value
  rw [hvalue] at hlowers
  obtain ⟨name', rest, hlower, hname', hrest⟩ := hlowers.append_inv
  have hmark : tables.isMark ':' = true := tables.isMark_ascii (by decide) (by decide)
  obtain ⟨port', rfl, hport'⟩ := hrest.mark_inv hmark
  rw [← hvalue] at hlower
  rw [strictHost_port (by rwa [ne_eq, hname'.head_iff (tables.isMark_ascii (by decide) (by decide))])
    (by rwa [hname'.mem_iff hmark]) (by rwa [hport'.mem_iff hmark]) hlower, ← allDigits_iff hport',
    ← labelled_iff hname']
  split
  · next hdigits =>
      rw [ne_eq, dotless_eq_nil, not_not]
      exact (and_iff_right hdigits).symm
  · next hdigits => simp [hdigits]

theorem whole_taken_iff (hhead : (strip value).head? ≠ some '[')
    (hcount : (strip value).count ':' ≠ 1) :
    strictHost tables value ≠ [] ↔ Labelled (strip value) := by
  have hlowers := lowers_value tables value
  rw [strictHost_whole (by rwa [ne_eq, hlowers.head_iff (tables.isMark_ascii (by decide) (by decide))])
    (by rwa [hlowers.count_eq (tables.isMark_ascii (by decide) (by decide))]), ne_eq,
    dotless_eq_nil, not_not, labelled_iff hlowers]

theorem unclosed_refused (hhead : (strip value).head? = some '[') (hclosed : ']' ∉ strip value) :
    strictHost tables value = [] := by
  have hlowers := lowers_value tables value
  apply strictHost_unclosed
  · rwa [hlowers.head_iff (tables.isMark_ascii (by decide) (by decide))]
  · rwa [hlowers.mem_iff (tables.isMark_ascii (by decide) (by decide))]

/-! ## What the grammar says -/

theorem IsPort.allDigits {digits : List Char} (h : IsPort digits) : tables.allDigits digits := by
  refine ⟨h.1, fun c hc => ?_⟩
  have hcode := isDigit_iff.mp (h.2 c hc)
  rw [tables.isDigit_ascii c (by omega), h.2 c hc]

theorem IsPort.plain {digits : List Char} (h : IsPort digits) :
    ∀ c ∈ digits, c.toNat < 128 ∧ c.isAlpha = false := by
  intro c hc
  have hcode := isDigit_iff.mp (h.2 c hc)
  rw [Bool.eq_false_iff, ne_eq, isAlpha_iff]
  omega

theorem IsAddress.labelled {address : List Char} (h : IsAddress address) : Labelled address := by
  have hmem : ':' ∈ address := List.count_pos_iff.mp (by have := h.colons; omega)
  exact ⟨':', hmem, by decide⟩

theorem head_ne_bracket {text : List Char} (h : ∀ c ∈ text, c ≠ '[' ∧ c ≠ ']') :
    text.head? ≠ some '[' := fun hhead => (h '[' (List.mem_of_head? hhead)).1 rfl

/-- No bracket leads an address, lowered or not. -/
theorem dropWhile_address {address : List Char} (h : IsAddress address) :
    address.dropWhile (· == '[') = address ∧
      (tables.lower address).dropWhile (· == '[') = tables.lower address := by
  have hmark : tables.isMark '[' = true := tables.isMark_ascii (by decide) (by decide)
  have hnone : ∀ text : List Char, text.head? ≠ some '[' → text.dropWhile (· == '[') = text := by
    intro text htext
    cases text with
    | nil => rfl
    | cons c text =>
        have hne : ¬ c = '[' := by simpa using htext
        simp [hne]
  refine ⟨hnone address (head_ne_bracket h.plain), hnone _ ?_⟩
  rw [ne_eq, (tables.lower_lowers address).head_iff hmark]
  exact head_ne_bracket h.plain

/-- What is bracketed after an address is left as it is. -/
theorem lower_bracketed {address suffix : List Char}
    (hsuffix : ∀ c ∈ suffix, c.toNat < 128 ∧ c.isAlpha = false) :
    tables.lower ('[' :: (address ++ ']' :: suffix)) =
      '[' :: (tables.lower address ++ ']' :: suffix) := by
  have hclosing : ∀ c ∈ ']' :: suffix, c.toNat < 128 ∧ c.isAlpha = false := by
    intro c hc
    rcases List.mem_cons.mp hc with rfl | hc
    · decide
    · exact hsuffix c hc
  rw [tables.lower_opened, tables.lower_closed hclosing]

theorem read_whole (hhead : (strip value).head? ≠ some '[')
    (hcount : (strip value).count ':' ≠ 1) (hlabelled : Labelled (strip value)) :
    splitHostPort value = (strip value, []) ∧
      strictHost tables value = dotless (tables.lower (strip value)) ∧
        strictHost tables value ≠ [] := by
  have hlowers := lowers_value tables value
  refine ⟨splitHostPort_whole hhead hcount, ?_, (whole_taken_iff hhead hcount).mpr hlabelled⟩
  apply strictHost_whole
  · rwa [ne_eq, hlowers.head_iff (tables.isMark_ascii (by decide) (by decide))]
  · rwa [hlowers.count_eq (tables.isMark_ascii (by decide) (by decide))]

theorem read_port {name digits : List Char} (hname : IsName name) (hport : IsPort digits)
    (hvalue : strip value = name ++ ':' :: digits) :
    splitHostPort value = (name, digits) ∧ strictHost tables value = dotless (tables.lower name) ∧
      strictHost tables value ≠ [] := by
  have hdigits : tables.allDigits digits := hport.allDigits
  have hhead := head_ne_bracket fun c hc => (hname.plain c hc).2
  have hcolon : ':' ∉ name := fun hmem => (hname.plain ':' hmem).1 rfl
  have hnone := colon_not_mem_digits hdigits
  have hlowers := tables.lower_lowers name
  have hmark : tables.isMark ':' = true := tables.isMark_ascii (by decide) (by decide)
  have hlower : tables.lower (strip value) = tables.lower name ++ ':' :: digits := by
    rw [hvalue, tables.lower_closed]
    intro c hc
    rcases List.mem_cons.mp hc with rfl | hc
    · decide
    · exact hport.plain c hc
  refine ⟨splitHostPort_port hhead hcolon hnone hvalue, ?_,
    (port_taken_iff hhead hcolon hnone hvalue).mpr ⟨hdigits, hname.labelled⟩⟩
  rw [strictHost_port (by rwa [ne_eq, hlowers.head_iff (tables.isMark_ascii (by decide) (by decide))])
    (by rwa [hlowers.mem_iff hmark]) hnone hlower, if_pos hdigits]

/-- An address in brackets is read without them. -/
theorem read_bracketed {address suffix : List Char} (haddress : IsAddress address)
    (hsuffix : suffix = [] ∨ ∃ digits, suffix = ':' :: digits ∧ IsPort digits)
    (hvalue : strip value = '[' :: (address ++ ']' :: suffix)) :
    splitHostPort value = (address, suffix.drop 1) ∧
      strictHost tables value = dotless (tables.lower address) ∧
        strictHost tables value ≠ [] := by
  have hclosing : ']' ∉ address := fun hmem => (haddress.plain ']' hmem).2 rfl
  have hlowers := tables.lower_lowers address
  have hmark : tables.isMark ']' = true := tables.isMark_ascii (by decide) (by decide)
  have hclosing' : ']' ∉ tables.lower address := by rwa [hlowers.mem_iff hmark]
  obtain ⟨hwhole, hwhole'⟩ := @dropWhile_address tables _ haddress
  have hsplit := splitHostPort_bracketed hclosing hvalue
  have hcolons := haddress.colons
  rcases hsuffix with rfl | ⟨digits, rfl, hport⟩
  · have hlower : tables.lower (strip value) = '[' :: (tables.lower address ++ [']']) := by
      rw [hvalue, lower_bracketed (by simp)]
    have hcount : (tables.lower address).count ':' ≠ 1 := by
      rw [hlowers.count_eq (tables.isMark_ascii (by decide) (by decide))]
      omega
    refine ⟨by simpa [hwhole] using hsplit, ?_, ?_⟩
    · rw [strictHost_bracket hclosing' hlower rfl, if_neg hcount, hwhole']
    · rw [bracket_taken_iff hclosing hvalue rfl, hwhole]
      exact ⟨by omega, haddress.labelled⟩
  · have hdigits : tables.allDigits digits := hport.allDigits
    have hlower : tables.lower (strip value) =
        '[' :: (tables.lower address ++ ']' :: ':' :: digits) := by
      rw [hvalue, lower_bracketed]
      intro c hc
      rcases List.mem_cons.mp hc with rfl | hc
      · decide
      · exact hport.plain c hc
    refine ⟨?_, ?_, ?_⟩
    · simpa [hwhole, dropWhile_digits hdigits] using hsplit
    · rw [strictHost_bracket_port hclosing' hlower hdigits rfl, hwhole']
    · rw [bracket_port_taken_iff hclosing hvalue hdigits rfl, hwhole]
      exact haddress.labelled

/-- Both functions read what the grammar names. -/
theorem named_read {host port : List Char} (h : Named (strip value) host port) :
    splitHostPort value = (host, port) ∧ strictHost tables value = dotless (tables.lower host) ∧
      strictHost tables value ≠ [] := by
  generalize hvalue : strip value = text at h
  cases h with
  | name hname =>
      have hread := @read_whole tables value
      rw [hvalue, List.count_eq_zero.mpr fun hmem => (hname.plain ':' hmem).1 rfl] at hread
      exact hread (head_ne_bracket fun c hc => (hname.plain c hc).2) (by decide) hname.labelled
  | address haddress =>
      have hread := @read_whole tables value
      have hcolons := haddress.colons
      rw [hvalue] at hread
      exact hread (head_ne_bracket haddress.plain) (by omega) haddress.labelled
  | port hname hport => exact read_port hname hport hvalue
  | bracketed haddress => exact read_bracketed haddress (.inl rfl) hvalue
  | bracketedPort haddress hport => exact read_bracketed haddress (.inr ⟨_, rfl, hport⟩) hvalue

/-! ## What is misread -/

theorem misread_taken (h : Misread tables (strip value)) : strictHost tables value ≠ [] := by
  generalize hvalue : strip value = text at h
  cases h with
  | bracketed hinner hcount hlabelled _ =>
      exact (bracket_taken_iff hinner hvalue rfl).mpr ⟨hcount, hlabelled⟩
  | bracketedPort hinner hdigits hlabelled _ =>
      exact (bracket_port_taken_iff hinner hvalue hdigits rfl).mpr hlabelled
  | port hname hcolon hdigits hlabelled _ =>
      exact (port_taken_iff hname hcolon (colon_not_mem_digits hdigits) hvalue).mpr
        ⟨hdigits, hlabelled⟩
  | host hhead hcount hlabelled _ =>
      subst hvalue
      exact (whole_taken_iff hhead hcount).mpr hlabelled

/-- A value in brackets that is taken is misread or of the grammar. -/
theorem misread_or_named_of_bracket (h : strictHost tables value ≠ [])
    (hhead : (strip value).head? = some '[') :
    Misread tables (strip value) ∨ ∃ host port, Named (strip value) host port := by
  obtain ⟨rest, hrest⟩ : ∃ rest, strip value = '[' :: rest := by
    cases hvalue : strip value with
    | nil => simp [hvalue] at hhead
    | cons c rest => exact ⟨rest, by simpa [hvalue] using hhead⟩
  by_cases hclosed : ']' ∈ strip value
  · have hmem : ']' ∈ rest := by simpa [hrest] using hclosed
    obtain ⟨inner, suffix, rfl, hinner⟩ := List.eq_append_cons_of_mem hmem
    have hplain : '[' ∉ inner → ∀ c ∈ inner, c ≠ '[' ∧ c ≠ ']' := fun hnone c hc =>
      ⟨fun hc' => hnone (hc' ▸ hc), fun hc' => hinner (hc' ▸ hc)⟩
    by_cases hempty : suffix = []
    · subst hempty
      obtain ⟨hcount, hlabelled⟩ := (bracket_taken_iff hinner hrest rfl).mp h
      rw [hrest]
      by_cases hbad : '[' ∈ inner ∨ inner.count ':' < 2
      · exact .inl (.bracketed hinner hcount hlabelled hbad)
      · rw [not_or, not_lt] at hbad
        exact .inr ⟨inner, [], .bracketed ⟨hbad.2, hplain hbad.1⟩⟩
    · by_cases hport : ∃ digits, suffix = ':' :: digits ∧ tables.allDigits digits
      · obtain ⟨digits, rfl, hdigits⟩ := hport
        have hlabelled := (bracket_port_taken_iff hinner hrest hdigits rfl).mp h
        rw [hrest]
        by_cases hbad : '[' ∈ inner ∨ inner.count ':' < 2 ∨ ¬ IsPort digits
        · exact .inl (.bracketedPort hinner hdigits hlabelled hbad)
        · rw [not_or, not_or, not_lt, not_not] at hbad
          exact .inr ⟨inner, digits, .bracketedPort ⟨hbad.2.1, hplain hbad.1⟩ hbad.2.2⟩
      · have hrefused := @bracket_refused tables _ _ _ hinner hrest hempty
          fun digits hsuffix hdigits => hport ⟨digits, hsuffix, hdigits⟩
        exact absurd hrefused h
  · exact absurd (unclosed_refused hhead hclosed) h

theorem misread_or_named_of_plain (h : strictHost tables value ≠ [])
    (hhead : (strip value).head? ≠ some '[') :
    Misread tables (strip value) ∨ ∃ host port, Named (strip value) host port := by
  by_cases hone : (strip value).count ':' = 1
  · have hmem : ':' ∈ strip value := List.count_pos_iff.mp (by omega)
    obtain ⟨name, port, hvalue, hcolon⟩ := List.eq_append_cons_of_mem hmem
    have hport : ':' ∉ port := by
      rw [hvalue, List.count_append, List.count_cons_self, List.count_eq_zero.mpr hcolon] at hone
      exact List.count_eq_zero.mp (by omega)
    have hname : name.head? ≠ some '[' := by
      rintro hbracket
      rw [hvalue, List.head?_append, hbracket] at hhead
      exact hhead rfl
    obtain ⟨hdigits, hlabelled⟩ := (port_taken_iff hname hcolon hport hvalue).mp h
    rw [hvalue]
    by_cases hbad : '[' ∈ name ∨ ']' ∈ name ∨ ¬ IsPort port
    · exact .inl (.port hname hcolon hdigits hlabelled hbad)
    · rw [not_or, not_or, not_not] at hbad
      refine .inr ⟨name, port, .port ⟨hlabelled, fun c hc => ⟨?_, ?_, ?_⟩⟩ hbad.2.2⟩
      · exact fun hc' => hcolon (hc' ▸ hc)
      · exact fun hc' => hbad.1 (hc' ▸ hc)
      · exact fun hc' => hbad.2.1 (hc' ▸ hc)
  · have hlabelled := (whole_taken_iff hhead hone).mp h
    by_cases hbad : '[' ∈ strip value ∨ ']' ∈ strip value
    · exact .inl (.host hhead hone hlabelled hbad)
    · rw [not_or] at hbad
      have hplain : ∀ c ∈ strip value, c ≠ '[' ∧ c ≠ ']' := fun c hc =>
        ⟨fun hc' => hbad.1 (hc' ▸ hc), fun hc' => hbad.2 (hc' ▸ hc)⟩
      refine .inr ⟨strip value, [], ?_⟩
      by_cases hcolon : ':' ∈ strip value
      · have hpos := List.count_pos_iff.mpr hcolon
        exact .address ⟨by omega, hplain⟩
      · exact .name ⟨hlabelled, fun c hc => ⟨fun hc' => hcolon (hc' ▸ hc), hplain c hc⟩⟩

/-- What is taken is misread, or of a form of the grammar. -/
theorem misread_or_named (h : strictHost tables value ≠ []) :
    Misread tables (strip value) ∨ ∃ host port, Named (strip value) host port := by
  by_cases hhead : (strip value).head? = some '['
  · exact misread_or_named_of_bracket h hhead
  · exact misread_or_named_of_plain h hhead

/-- A text of the grammar has its brackets around an address, or has none. -/
theorem named_shape {text host port : List Char} (h : Named text host port) :
    (∃ address suffix, text = '[' :: (address ++ ']' :: suffix) ∧ IsAddress address ∧
      ∀ digits, suffix = ':' :: digits → IsPort digits) ∨
    (∀ c ∈ text, c ≠ '[' ∧ c ≠ ']') ∧ ∀ name digits, text = name ++ ':' :: digits →
      ':' ∉ name → ':' ∉ digits → IsPort digits := by
  cases h with
  | name hname =>
      refine .inr ⟨fun c hc => (hname.plain c hc).2, fun name digits htext => ?_⟩
      have hmem : ':' ∈ text := htext ▸ by simp
      exact absurd rfl (hname.plain ':' hmem).1
  | address haddress =>
      refine .inr ⟨haddress.plain, fun name digits htext hname hdigits => ?_⟩
      have hcolons := haddress.colons
      rw [htext, List.count_append, List.count_cons_self, List.count_eq_zero.mpr hname,
        List.count_eq_zero.mpr hdigits] at hcolons
      omega
  | port hname hport =>
      have hcolon : ':' ∉ host := fun hmem => (hname.plain ':' hmem).1 rfl
      refine .inr ⟨fun c hc => ?_, fun name digits htext hname' _ => ?_⟩
      · rcases List.mem_append.mp hc with hc | hc
        · exact (hname.plain c hc).2
        · rcases List.mem_cons.mp hc with rfl | hc
          · decide
          · have hdigit := hport.2 c hc
            constructor <;> rintro rfl <;> simp at hdigit
      · have hcut := congrArg (partition ':') htext
        rw [partition_append hcolon, partition_append hname'] at hcut
        exact (Prod.mk.inj hcut).2 ▸ hport
  | bracketed haddress => exact .inl ⟨_, [], rfl, haddress, fun digits h => by simp at h⟩
  | bracketedPort haddress hport =>
      refine .inl ⟨_, _, rfl, haddress, fun digits hdigits => ?_⟩
      rw [List.cons.injEq] at hdigits
      exact hdigits.2 ▸ hport

/-- What is bracketed in a text of the grammar is an address, and what follows is a port. -/
theorem named_bracketed {inner suffix host port : List Char} (hinner : ']' ∉ inner)
    (h : Named ('[' :: (inner ++ ']' :: suffix)) host port) :
    IsAddress inner ∧ ∀ digits, suffix = ':' :: digits → IsPort digits := by
  rcases named_shape h with ⟨address, rest, htext, haddress, hport⟩ | ⟨hplain, -⟩
  · have hclosing : ']' ∉ address := fun hmem => (haddress.plain ']' hmem).2 rfl
    have hcut := congrArg (partition ']') (List.cons.inj htext).2
    rw [partition_append hinner, partition_append hclosing, Prod.mk.injEq] at hcut
    exact ⟨hcut.1 ▸ haddress, hcut.2 ▸ hport⟩
  · exact absurd rfl (hplain '[' List.mem_cons_self).1

theorem misread_not_named {text : List Char} (h : Misread tables text) :
    ¬ ∃ host port, Named text host port := by
  rintro ⟨host, port, hnamed⟩
  cases h with
  | bracketed hinner _ _ hbad =>
      obtain ⟨haddress, -⟩ := named_bracketed hinner hnamed
      have hcolons := haddress.colons
      rcases hbad with hbracket | hfew
      · exact (haddress.plain '[' hbracket).1 rfl
      · omega
  | bracketedPort hinner _ _ hbad =>
      obtain ⟨haddress, hport⟩ := named_bracketed hinner hnamed
      have hcolons := haddress.colons
      rcases hbad with hbracket | hfew | hdigits
      · exact (haddress.plain '[' hbracket).1 rfl
      · omega
      · exact hdigits (hport _ rfl)
  | @port name digits hname hcolon hdigits _ hbad =>
      rcases named_shape hnamed with ⟨address, suffix, htext, -⟩ | ⟨hplain, hport⟩
      · have hhead := congrArg List.head? htext
        cases name with
        | nil => simp at hhead
        | cons c name => exact hname (by simpa using hhead)
      · rcases hbad with hbracket | hbracket | hnot
        · exact (hplain '[' (List.mem_append_left _ hbracket)).1 rfl
        · exact (hplain ']' (List.mem_append_left _ hbracket)).2 rfl
        · exact hnot (hport name digits rfl hcolon (colon_not_mem_digits hdigits))
  | host hhead _ _ hbad =>
      rcases named_shape hnamed with ⟨address, suffix, rfl, -⟩ | ⟨hplain, -⟩
      · exact hhead rfl
      · rcases hbad with hbracket | hbracket
        · exact (hplain '[' hbracket).1 rfl
        · exact (hplain ']' hbracket).2 rfl

end Values

/-- `strict_host` takes the forms of its grammar and no other value, and reads them as
`split_host_port` does, exactly where the value is not misread. -/
theorem exact_iff (tables : Tables) (value : List Char) :
    Exact tables value ↔ ¬ Misread tables (strip value) := by
  constructor
  · intro hexact hmisread
    exact misread_taken hmisread (hexact.other (misread_not_named hmisread))
  · intro hread
    refine ⟨fun host port hnamed => named_read hnamed, fun hother => ?_⟩
    by_contra htaken
    exact (misread_or_named htaken).elim hread hother

/-- A bracket within the brackets is dropped, not refused. -/
theorem doubled_bracket_misread : ¬ Exact .plain "[[::1]".toList := by
  intro hexact
  have hmisread : Misread .plain (strip "[[::1]".toList) :=
    @Misread.bracketed _ "[::1".toList (by decide) (by decide) ⟨'1', by decide, by decide⟩
      (.inl (by decide))
  exact absurd (hexact.other (misread_not_named hmisread)) (by decide)

example : strictHost .plain "HQ.example.com.:8443".toList = "hq.example.com".toList := by decide

example : strictHost .plain "hq.example.com:²".toList = "hq.example.com".toList := by decide

end SeverinoHQ.Network
