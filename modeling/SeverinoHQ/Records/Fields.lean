/-
# What a save does to each field

A save passes every column through its type's own form, and its model fills an
empty slug, so a field that was not sent is still written. It is written as the
locked record held it: what a column holds is already in its type's form, and a
stored slug is never empty. Both are invariants of the stored records, kept by
every save.
-/

import Mathlib.Data.List.Perm.Subperm
import SeverinoHQ.Records.Saves
import SeverinoHQ.Math.Fallible
import SeverinoHQ.Math.Text

namespace SeverinoHQ.Records

open SeverinoHQ.Math
open SeverinoHQ.ControlPlane (Moment Id)

variable {Field α : Type} [DecidableEq Field]

/-! ## What is stored -/

/-- What a column's type makes of a value: its own form, which is kept as it is,
and a text or a set of links is in that form already. -/
structure Domain.Typed (domain : Domain Field α) : Prop where
  settled : ∀ field value first second, domain.clean field value = .ok first →
    domain.clean field first = .ok second → second = first
  text : ∀ field text value, domain.clean field (.text text) = .ok value → value = .text text
  many : ∀ field records value, domain.clean field (.many records) = .ok value →
    value = .many records

/-- A value that its column's type keeps as it is. -/
def Domain.Keeps (domain : Domain Field α) (field : Field) (value : Value α) : Prop :=
  ∀ cleaned, domain.clean field value = .ok cleaned → cleaned = value

/-- What holds of every stored record. -/
structure Row.Stored (domain : Domain Field α) (row : Row Field α) : Prop where
  kept : ∀ field ∈ domain.fields, domain.Keeps field (row.value field)
  slugged : ∀ slug, domain.slug = some slug → (row.value slug.field).isBlank = false

/-- What holds of a domain's stored records. -/
structure Store.Sound (domain : Domain Field α) (store : Store Field α) : Prop where
  ids : (store.rows.map Row.id).Nodup
  old : ∀ row ∈ store.rows, row.id < store.serial
  stored : ∀ row ∈ store.rows, row.Stored domain

/-- What a save may store for a value it was sent: the value, its column's form
of it, or the slug its model fills for an empty one. -/
def Taken (domain : Domain Field α) (field : Field) (value stored : Value α) : Prop :=
  stored = value ∨ domain.clean field value = .ok stored ∨
    ∃ slug, domain.slug = some slug ∧ slug.field = field ∧
      (value.isBlank = true ∨ ∃ cleaned, domain.clean field value = .ok cleaned ∧
        cleaned.isBlank = true)

/-! ## Setting columns -/

section Columns

variable {domain : Domain Field α} {store : Store Field α} {row : Row Field α} {field : Field}

@[simp]
theorem Row.set_value_self (value : Value α) : (row.set field value).value field = value := by
  simp [Row.set]

theorem Row.set_value_of_ne {other : Field} (h : other ≠ field) (value : Value α) :
    (row.set field value).value other = row.value other := by
  simp [Row.set, h]

@[simp]
theorem Row.setAll_id (values : List (Field × Value α)) : (row.setAll values).id = row.id := by
  induction values generalizing row with
  | nil => rfl
  | cons entry values ih => exact ih

theorem Row.setAll_of_not_mem {values : List (Field × Value α)}
    (h : ∀ entry ∈ values, entry.1 ≠ field) : (row.setAll values).value field = row.value field := by
  induction values generalizing row with
  | nil => rfl
  | cons entry values ih =>
      obtain ⟨hentry, hrest⟩ := List.forall_mem_cons.mp h
      have hset : (row.set entry.1 entry.2).value field = row.value field :=
        Row.set_value_of_ne (fun hsame => hentry hsame.symm) entry.2
      rw [← hset]
      exact ih hrest

/-- A column set to one value, however often, holds that value. -/
theorem Row.setAll_of_mem {values : List (Field × Value α)} {value : Value α}
    (hmem : ∃ entry ∈ values, entry.1 = field)
    (hvalue : ∀ entry ∈ values, entry.1 = field → entry.2 = value) :
    (row.setAll values).value field = value := by
  induction values generalizing row with
  | nil =>
      obtain ⟨entry, hentry, -⟩ := hmem
      exact absurd hentry List.not_mem_nil
  | cons entry values ih =>
      obtain ⟨hentry, hrest⟩ := List.forall_mem_cons.mp hvalue
      by_cases hlater : ∃ other ∈ values, other.1 = field
      · exact ih hlater hrest
      · obtain ⟨first, hfirst, hfield⟩ := hmem
        rcases List.mem_cons.mp hfirst with rfl | hmem
        · have hkept : ((row.set first.1 first.2).setAll values).value field =
              (row.set first.1 first.2).value field :=
            Row.setAll_of_not_mem fun other hother hsame => hlater ⟨other, hother, hsame⟩
          exact hkept.trans (by rw [← hfield, Row.set_value_self, hentry hfield])
        · exact absurd ⟨first, hmem, hfield⟩ hlater

omit [DecidableEq Field] in
/-- The values a call sets are its fields' own. -/
theorem mem_resolvedAll {command : Field → Said α} {fields : List Field}
    {values : List (Field × Value α)} (h : resolvedAll domain store command fields = .ok values) :
    values.map Prod.fst = fields ∧
      ∀ entry ∈ values, resolved domain store entry.1 (command entry.1) = .ok entry.2 := by
  induction fields generalizing values with
  | nil =>
      cases h
      exact ⟨rfl, by simp⟩
  | cons field fields ih =>
      obtain ⟨value, hvalue, h⟩ := exists_of_bind_eq_ok h
      obtain ⟨rest, hrest, h⟩ := exists_of_bind_eq_ok h
      cases h
      obtain ⟨hfields, hresolved⟩ := ih hrest
      exact ⟨by rw [List.map_cons, hfields], List.forall_mem_cons.mpr ⟨hvalue, hresolved⟩⟩

omit [DecidableEq Field] in
theorem resolved_of_mem {command : Field → Said α} {fields : List Field}
    {values : List (Field × Value α)} (h : resolvedAll domain store command fields = .ok values)
    (hfield : field ∈ fields) : ∃ value, resolved domain store field (command field) = .ok value := by
  obtain ⟨hfields, hresolved⟩ := mem_resolvedAll h
  rw [← hfields] at hfield
  obtain ⟨entry, hentry, rfl⟩ := List.mem_map.mp hfield
  exact ⟨entry.2, hresolved entry hentry⟩

/-! ## Cleaning -/

/-- Cleaning leaves a column in its type's form, and as it was where it is not cleaned. -/
theorem cleanFields_value (htyped : domain.Typed) {fields : List Field} {cleaned : Row Field α}
    (h : cleanFields domain fields row = .ok cleaned) (field : Field) :
    (cleaned.value field = row.value field ∨
        domain.clean field (row.value field) = .ok (cleaned.value field)) ∧
      (field ∈ fields → ∃ value, domain.clean field value = .ok (cleaned.value field)) ∧
      (field ∉ fields → cleaned.value field = row.value field) := by
  induction fields generalizing row with
  | nil =>
      cases h
      exact ⟨Or.inl rfl, by simp, fun _ => rfl⟩
  | cons first fields ih =>
      rw [cleanFields] at h
      split at h
      · cases h
      · next value hvalue =>
          obtain ⟨hform, hmem, hother⟩ := ih h
          by_cases hfirst : field = first
          · subst hfirst
            rw [Row.set_value_self] at hform
            have hsame : cleaned.value field = value := by
              rcases hform with hsame | hagain
              · exact hsame
              · exact htyped.settled field _ value _ hvalue hagain
            rw [hsame]
            exact ⟨Or.inr hvalue, fun _ => ⟨_, hvalue⟩, fun hout => absurd List.mem_cons_self hout⟩
          · rw [Row.set_value_of_ne hfirst] at hform hother
            refine ⟨hform, fun hlisted => ?_, fun hout => ?_⟩
            · rcases List.mem_cons.mp hlisted with hsame | hrest
              · exact absurd hsame hfirst
              · exact hmem hrest
            · exact hother fun hrest => hout (List.mem_cons_of_mem first hrest)

theorem cleanFields_id {fields : List Field} {cleaned : Row Field α}
    (h : cleanFields domain fields row = .ok cleaned) : cleaned.id = row.id := by
  induction fields generalizing row with
  | nil =>
      cases h
      rfl
  | cons first fields ih =>
      rw [cleanFields] at h
      split at h
      · cases h
      · have hid := ih h
        exact hid

theorem fullClean_eq_ok {cleaned : Row Field α} (h : fullClean domain store row = .ok cleaned) :
    cleanFields domain domain.fields row = .ok cleaned := by
  obtain ⟨middle, hmiddle, h⟩ := exists_of_bind_eq_ok h
  split at h
  · cases h
  · cases h
    exact hmiddle

/-! ## The slug -/

theorem ne_empty_orText {first second : String} (h : second ≠ "") : orText first second ≠ "" := by
  unfold orText
  split_ifs with hfirst
  · exact h
  · exact hfirst

theorem firstFree_ne_empty (taken : List String) (base : String) (fuel n : Nat) :
    firstFree taken base fuel n ≠ "" := by
  have hdash : ∀ n : Nat, base ++ "-" ++ toString n ≠ "" := by
    intro n hempty
    have hlist := congrArg String.toList hempty
    simp at hlist
  induction fuel generalizing n with
  | zero => exact hdash n
  | succ fuel ih =>
      simp only [firstFree]
      split_ifs
      · exact ih (n + 1)
      · exact hdash n

theorem numbered_injective (base : String) {m n : Nat}
    (h : base ++ "-" ++ toString m = base ++ "-" ++ toString n) : m = n := by
  have hlist := congrArg String.toList h
  simp only [String.toList_append, List.append_cancel_left_eq] at hlist
  have hdigits : Nat.toDigits 10 m = Nat.toDigits 10 n := by
    rw [← Nat.toList_repr, ← Nat.toList_repr]
    exact hlist
  rw [← Nat.ofDigitChars_ten_toDigits (n := m), hdigits, Nat.ofDigitChars_ten_toDigits]

/-- A slug that is found and taken is found past others that are. -/
theorem mem_of_firstFree_mem {taken : List String} {base : String} {fuel n : Nat}
    (h : firstFree taken base fuel n ∈ taken) :
    ∀ tried, n ≤ tried → tried ≤ n + fuel → base ++ "-" ++ toString tried ∈ taken := by
  induction fuel generalizing n with
  | zero =>
      intro tried hlow hhigh
      obtain rfl : tried = n := by omega
      exact h
  | succ fuel ih =>
      simp only [firstFree] at h
      split_ifs at h with hfirst
      · intro tried hlow hhigh
        rcases Nat.eq_or_lt_of_le hlow with rfl | hlt
        · exact List.contains_iff_mem.mp hfirst
        · exact ih h tried hlt (by omega)
      · exact absurd (List.contains_iff_mem.mpr h) hfirst

/-- One more slug is tried than are taken. -/
theorem firstFree_not_mem (taken : List String) (base : String) (n : Nat) :
    firstFree taken base taken.length n ∉ taken := by
  intro hmem
  let tried := (List.range (taken.length + 1)).map fun step => base ++ "-" ++ toString (n + step)
  have hnodup : tried.Nodup := by
    apply List.Nodup.map _ List.nodup_range
    intro first second heq
    have hsame := numbered_injective base heq
    omega
  have hsub : tried ⊆ taken := by
    intro slug hslug
    obtain ⟨step, hstep, rfl⟩ := List.mem_map.mp hslug
    have hlt := List.mem_range.mp hstep
    exact mem_of_firstFree_mem hmem (n + step) (by omega) (by omega)
  have hlength := (List.subperm_of_subset hnodup hsub).length_le
  rw [List.length_map, List.length_range] at hlength
  omega

theorem hasPrefix_firstFree (taken : List String) (base : String) (fuel n : Nat) :
    Text.hasPrefix (firstFree taken base fuel n) base = true := by
  have hdash : ∀ n : Nat, Text.hasPrefix (base ++ "-" ++ toString n) base = true := by
    intro n
    rw [Text.hasPrefix, String.toList_append, String.toList_append, List.append_assoc,
      List.isPrefixOf_iff_prefix]
    exact List.prefix_append _ _
  induction fuel generalizing n with
  | zero => exact hdash n
  | succ fuel ih =>
      simp only [firstFree]
      split_ifs
      · exact ih (n + 1)
      · exact hdash n

omit [DecidableEq Field] in
theorem freeSlug_ne_empty (slug : SlugColumn Field) (rows : List (Row Field α)) :
    freeSlug domain slug rows row ≠ "" := by
  unfold freeSlug
  dsimp only
  split_ifs
  · exact firstFree_ne_empty _ _ _ _
  · exact ne_empty_orText slug.named

/-- A model's save fills its slug where that is empty, and sets nothing else. -/
theorem filled_value (rows : List (Row Field α)) (field : Field) :
    (filled domain rows row).value field = row.value field ∨
      ∃ slug, domain.slug = some slug ∧ slug.field = field ∧
        (row.value field).isBlank = true ∧
          ∃ text, (filled domain rows row).value field = .text text ∧ text ≠ "" := by
  unfold filled
  split
  · exact Or.inl rfl
  · next slug hslug =>
      split_ifs with hblank
      · by_cases hfield : field = slug.field
        · subst hfield
          exact Or.inr ⟨slug, hslug, rfl, hblank, _, Row.set_value_self _,
            freeSlug_ne_empty slug rows⟩
        · exact Or.inl (Row.set_value_of_ne hfield _)
      · exact Or.inl rfl

theorem filled_slugged (rows : List (Row Field α)) {slug : SlugColumn Field}
    (hslug : domain.slug = some slug) :
    ((filled domain rows row).value slug.field).isBlank = false := by
  unfold filled
  rw [hslug]
  dsimp only
  split_ifs with hblank
  · rw [Row.set_value_self]
    simpa [Value.isBlank] using freeSlug_ne_empty slug rows
  · simpa using hblank

@[simp]
theorem filled_id (rows : List (Row Field α)) : (filled domain rows row).id = row.id := by
  unfold filled
  split
  · rfl
  · split_ifs <;> rfl

end Columns

/-! ## One save -/

section Save

variable {domain : Domain Field α} {now : Moment} {call : Call Field α}
  {store stored : Store Field α}

/-- A save, part by part. -/
theorem prepared_eq_ok {after : Row Field α} (h : prepared domain now call store = .ok after) :
    ∃ record values cleaned, call.start domain now store = .ok record ∧
      resolvedAll domain store call.command (call.fields domain) = .ok values ∧
      cleanFields domain domain.fields (record.setAll (values.filter (!·.2.isSet))) =
        .ok cleaned ∧
      after = Row.setAll { filled domain store.rows cleaned with updatedAt := now }
        (values.filter (·.2.isSet)) := by
  unfold prepared at h
  split at h
  · cases h
  · obtain ⟨record, hrecord, h⟩ := exists_of_bind_eq_ok h
    obtain ⟨values, hvalues, h⟩ := exists_of_bind_eq_ok h
    obtain ⟨cleaned, hcleaned, h⟩ := exists_of_bind_eq_ok h
    cases h
    exact ⟨record, values, cleaned, hrecord, hvalues, fullClean_eq_ok hcleaned, rfl⟩

/-- The record a save writes: under the key it was held by, each field sent taken
from the call, and each other field as the record started from held it. -/
structure Saved (domain : Domain Field α) (store : Store Field α) (call : Call Field α)
    (record after : Row Field α) : Prop where
  id : after.id = record.id
  sent : ∀ field ∈ call.fields domain, ∃ value,
    resolved domain store field (call.command field) = .ok value ∧
      Taken domain field value (after.value field)
  unsent : record.Stored domain → ∀ field ∉ call.fields domain,
    after.value field = record.value field
  kept : ∀ field ∈ domain.fields, domain.Keeps field (after.value field)
  slugged : ∀ slug, domain.slug = some slug → (after.value slug.field).isBlank = false

omit [DecidableEq Field] in
theorem isBlank_of_isSet {value : Value α} (h : value.isSet = true) : value.isBlank = false := by
  cases value <;> simp_all [Value.isSet, Value.isBlank]

omit [DecidableEq Field] in
theorem Domain.Typed.keeps_of_isSet (htyped : domain.Typed) {field : Field} {value : Value α}
    (h : value.isSet = true) : domain.Keeps field value := by
  cases value with
  | many records => exact fun cleaned hcleaned => htyped.many field records cleaned hcleaned
  | _ => cases h

/-- A pass over the values a predicate picks sets a field to its own value, where
that is one it picks, and leaves it otherwise. -/
theorem setAll_filter_value {fields : List Field} {values : List (Field × Value α)}
    (hvalues : resolvedAll domain store call.command fields = .ok values)
    (picks : Value α → Bool) (row : Row Field α) (field : Field) :
    (∃ value, field ∈ fields ∧ resolved domain store field (call.command field) = .ok value ∧
        picks value = true ∧ (row.setAll (values.filter (picks ·.2))).value field = value) ∨
      (∀ value, field ∈ fields → resolved domain store field (call.command field) = .ok value →
        picks value = false) ∧
        (row.setAll (values.filter (picks ·.2))).value field = row.value field := by
  obtain ⟨hfields, hresolved⟩ := mem_resolvedAll hvalues
  by_cases hpicked : ∃ entry ∈ values.filter (picks ·.2), entry.1 = field
  · obtain ⟨entry, hentry, rfl⟩ := hpicked
    obtain ⟨hmem, hpick⟩ := List.mem_filter.mp hentry
    refine Or.inl ⟨entry.2, hfields ▸ List.mem_map_of_mem hmem, hresolved entry hmem, hpick, ?_⟩
    apply Row.setAll_of_mem ⟨entry, hentry, rfl⟩
    intro other hother hsame
    have hvalue := hresolved other (List.mem_filter.mp hother).1
    rw [hsame, hresolved entry hmem] at hvalue
    exact (Except.ok.inj hvalue).symm
  · refine Or.inr ⟨fun value hfield hvalue => ?_, ?_⟩
    · rw [← hfields] at hfield
      obtain ⟨entry, hmem, rfl⟩ := List.mem_map.mp hfield
      have hsame := (hresolved entry hmem).symm.trans hvalue
      rw [← Except.ok.inj hsame]
      by_contra hpick
      exact hpicked ⟨entry, List.mem_filter.mpr ⟨hmem, by simpa using hpick⟩, rfl⟩
    · apply Row.setAll_of_not_mem
      intro entry hentry hsame
      exact hpicked ⟨entry, hentry, hsame⟩

theorem prepared_saved (htyped : domain.Typed) {after : Row Field α}
    (h : prepared domain now call store = .ok after) :
    ∃ record, call.start domain now store = .ok record ∧
      Saved domain store call record after := by
  obtain ⟨record, values, cleaned, hrecord, hvalues, hcleaned, rfl⟩ := prepared_eq_ok h
  have hfirst := setAll_filter_value hvalues (fun value => !value.isSet) record
  have hlast := setAll_filter_value hvalues Value.isSet
    { filled domain store.rows cleaned with updatedAt := now }
  have hclean := cleanFields_value htyped hcleaned
  refine ⟨record, hrecord, ?_, ?_, ?_, ?_, ?_⟩
  · rw [Row.setAll_id, filled_id, cleanFields_id hcleaned, Row.setAll_id]
  · intro field hfield
    rcases hlast field with ⟨value, -, hvalue, -, hset⟩ | ⟨hunset, hafter⟩
    · exact ⟨value, hvalue, Or.inl hset⟩
    · -- A field that is no set of links was set before the record was cleaned.
      rcases hfirst field with ⟨value, -, hvalue, -, hbefore⟩ | ⟨hnone, -⟩
      · refine ⟨value, hvalue, ?_⟩
        rw [hafter]
        have hform := (hclean field).1
        rw [hbefore] at hform
        rcases filled_value store.rows field with hsame | ⟨slug, hslug, hown, hblank, -⟩
        · rw [hsame]
          exact hform.elim Or.inl fun hcleaned => Or.inr (Or.inl hcleaned)
        · refine Or.inr (Or.inr ⟨slug, hslug, hown, ?_⟩)
          rcases hform with hsame | hcleaned
          · exact Or.inl (hsame ▸ hblank)
          · exact Or.inr ⟨_, hcleaned, hblank⟩
      · obtain ⟨value, hvalue⟩ := resolved_of_mem hvalues hfield
        have hset := hunset value hfield hvalue
        have hplain := hnone value hfield hvalue
        simp [hset] at hplain
  · intro hstored field hfield
    rcases hlast field with ⟨-, hsent, -⟩ | ⟨-, hafter⟩
    · exact absurd hsent hfield
    rcases hfirst field with ⟨-, hsent, -⟩ | ⟨-, hbefore⟩
    · exact absurd hsent hfield
    have hkept : cleaned.value field = record.value field := by
      obtain ⟨hform, -, hother⟩ := hclean field
      rw [hbefore] at hform hother
      by_cases hlisted : field ∈ domain.fields
      · exact hform.elim id (hstored.kept field hlisted _)
      · exact hother hlisted
    rw [hafter, ← hkept]
    rcases filled_value store.rows field with hsame | ⟨slug, hslug, rfl, hblank, -⟩
    · exact hsame
    · rw [hkept, hstored.slugged slug hslug] at hblank
      cases hblank
  · intro field hlisted
    rcases hlast field with ⟨value, -, -, hset, hafter⟩ | ⟨-, hafter⟩
    · rw [hafter]
      exact htyped.keeps_of_isSet hset
    · rw [hafter]
      rcases filled_value store.rows field with hsame | ⟨-, -, -, -, text, htext, -⟩
      · obtain ⟨value, hvalue⟩ := (hclean field).2.1 hlisted
        intro again hagain
        rw [hsame] at hagain ⊢
        exact htyped.settled field value _ again hvalue hagain
      · intro again hagain
        rw [htext] at hagain ⊢
        exact htyped.text field text again hagain
  · intro slug hslug
    rcases hlast slug.field with ⟨value, -, -, hset, hafter⟩ | ⟨-, hafter⟩
    · rw [hafter]
      exact isBlank_of_isSet hset
    · rw [hafter]
      exact filled_slugged store.rows hslug

/-- A save that is not refused, and the store it leaves. -/
theorem saved_eq_ok (htyped : domain.Typed) (h : saved domain now call store = .ok stored) :
    ∃ record after, call.start domain now store = .ok record ∧
      Saved domain store call record after ∧ stored = store.put call.current.isNone after := by
  obtain ⟨after, hafter, rfl⟩ := exists_of_map_eq_ok h
  obtain ⟨record, hrecord, hsaved⟩ := prepared_saved htyped hafter
  exact ⟨record, after, hrecord, hsaved, rfl⟩

end Save

end SeverinoHQ.Records
