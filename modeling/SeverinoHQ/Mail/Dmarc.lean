/-
# No tag of a mail policy is lost

A DMARC record read and written back has every tag it had, with its value: the version
leads, a tag at its default is left out, and the tags HQ does not model keep their order.
-/

import SeverinoHQ.Mail.Policy

namespace SeverinoHQ.Mail

open SeverinoHQ.Math
open SeverinoHQ.Math.Letters

/-- A declared tag that is not written at its default. -/
def PolicyTag.silent (tag : PolicyTag) (value : List Char) : Bool :=
  decide (tag.default ≠ [] ∧ value = tag.default ∧ tag.required = false)

/-- An optional tag of this name is at its default. -/
def leftOut (name value : List Char) : Bool :=
  dmarcTags.any fun tag => decide (tag.id = name) && tag.silent value

/-- A tag HQ neither models nor writes itself. -/
def isOther (name : List Char) : Bool := decide (name ≠ "v".toList) && !isDeclared name

/-- What a record says once more, of what it said. -/
structure Kept (tags again : Tags) : Prop where
  version : again.get? "v".toList = some dmarcVersion
  values : ∀ name, name ≠ "v".toList →
    again.get? name = (tags.get? name).filter fun value => !leftOut name value
  others : (again.items.filter fun item => isOther item.1) =
    tags.items.filter fun item => isOther item.1
  composed : composeDmarc again = composeDmarc tags

/-! ## What a tag is read as -/

/-- A name and a value that are read as they are written. -/
structure Written (casing : Casing) (item : List Char × List Char) : Prop where
  name_ne : item.1 ≠ []
  name_bare : Bare item.1
  name_lower : casing.lower item.1 = item.1
  name_letters : ∀ c ∈ item.1, c ≠ ';' ∧ c ≠ '=' ∧ c ≠ '"'
  value_ne : item.2 ≠ []
  value_bare : Bare item.2
  value_letters : ∀ c ∈ item.2, c ≠ ';' ∧ c ≠ '"'

variable {casing : Casing}

theorem written_of_readTag {part : List Char} {item : List Char × List Char}
    (hpart : ∀ c ∈ part, c ≠ ';' ∧ c ≠ '"') (h : readTag casing part = some item) :
    Written casing item := by
  unfold readTag at h
  dsimp only at h
  split at h
  · next hne =>
      obtain rfl := Option.some.inj h
      have hname : ∀ c ∈ strip (partition '=' part).1, c ≠ ';' ∧ c ≠ '=' ∧ c ≠ '"' := by
        intro c hc
        have hmem := mem_of_mem_strip hc
        obtain ⟨hsemicolon, hquote⟩ := hpart c ((partition_subset '=' part).1 c hmem)
        refine ⟨hsemicolon, ?_, hquote⟩
        rintro rfl
        exact not_mem_partition '=' part hmem
      constructor
      · exact hne.1
      · exact casing.bare_lower (bare_strip _)
      · exact casing.lower_lower _
      · intro c hc
        by_contra hmark
        have hascii : c.toNat < 128 ∧ c.isAlpha = false := by
          have hwhich : c = ';' ∨ c = '=' ∨ c = '"' := by
            by_contra hnone
            exact hmark (by simpa [not_or] using hnone)
          rcases hwhich with rfl | rfl | rfl <;> decide
        exact hmark (hname c (casing.mem_of_mem_lowerFrom hc (.inr hascii)))
      · exact hne.2
      · exact bare_strip _
      · intro c hc
        exact hpart c ((partition_subset '=' part).2 c (mem_of_mem_strip hc))
  · exact absurd h (by simp)

/-- A written tag is read as it is, with spaces before its name too. -/
theorem readTag_of_written {item : List Char × List Char} (h : Written casing item)
    {padded : List Char} (hequal : '=' ∉ padded) (hname : strip padded = item.1) :
    readTag casing (padded ++ '=' :: item.2) = some item := by
  have hne : item.1 ≠ [] ∧ item.2 ≠ [] := ⟨h.name_ne, h.value_ne⟩
  simp only [readTag, partition_append hequal, hname, h.name_lower, strip_of_bare h.value_bare,
    if_pos hne]

/-! ## Reading what is composed -/

/-- The tags of a record are the written ones, the last of each name. -/
theorem items_parseDmarc (value : List Char) :
    (parseDmarc casing value).items =
      Dict.collect (((unquote value).splitOn ';').filterMap (readTag casing)) := by
  have hfold : ∀ step : Tags → List Char → Tags,
      (∀ tags part, (step tags part).items = (readTag casing part).elim tags.items fun item =>
        Dict.assign item.1 item.2 tags.items) →
      ∀ (parts : List (List Char)) (tags : Tags), (parts.foldl step tags).items =
        (parts.filterMap (readTag casing)).foldl
          (fun items item => Dict.assign item.1 item.2 items) tags.items := by
    intro step hstep parts
    induction parts with
    | nil => exact fun tags => rfl
    | cons part parts ih =>
        intro tags
        rw [List.foldl_cons, ih, hstep]
        cases hread : readTag casing part with
        | none =>
            rw [List.filterMap_cons_none hread]
            rfl
        | some item =>
            rw [List.filterMap_cons_some hread, List.foldl_cons]
            rfl
  apply hfold
  intro tags part
  cases readTag casing part with
  | none => rfl
  | some item => rfl

theorem written_parseDmarc {value : List Char} (h : '"' ∉ value) :
    ∀ item ∈ (parseDmarc casing value).items, Written casing item := by
  intro item hitem
  rw [items_parseDmarc] at hitem
  obtain ⟨part, hpart, hread⟩ := List.mem_filterMap.mp ((Dict.collect_spec _).1 item hitem)
  refine written_of_readTag (fun c hc => ?_) hread
  rw [List.splitOn_eq_splitOnP] at hpart
  obtain ⟨hsemicolon, hmem⟩ := mem_of_mem_splitOnP hpart c hc
  rw [unquote_of_not_mem h] at hmem
  refine ⟨by simpa using hsemicolon, ?_⟩
  rintro rfl
  exact h (mem_of_mem_strip hmem)

/-- A tag as it is composed. -/
def written (item : List Char × List Char) : List Char := item.1 ++ '=' :: item.2

theorem intercalate_spaced (part : List Char) (parts : List (List Char)) :
    "; ".toList.intercalate (part :: parts) =
      [';'].intercalate (part :: parts.map (' ' :: ·)) := by
  induction parts generalizing part with
  | nil => simp
  | cons next parts ih =>
      rw [List.intercalate_cons_cons, ih next, List.map_cons, List.intercalate_cons_cons,
        List.intercalate_cons_cons_left]
      simp

/-- A tag as it is written is a part between two semicolons. -/
theorem Written.part {item : List Char × List Char} (h : Written casing item) :
    ';' ∉ written item ∧ '"' ∉ written item ∧ Bare (written item) ∧ written item ≠ [] := by
  have hletters : ∀ c ∈ written item, c ≠ ';' ∧ c ≠ '"' := by
    intro c hc
    rcases List.mem_append.mp hc with hname | hvalue
    · obtain ⟨hsemicolon, -, hquote⟩ := h.name_letters c hname
      exact ⟨hsemicolon, hquote⟩
    · rcases List.mem_cons.mp hvalue with rfl | hvalue
      · decide
      · exact h.value_letters c hvalue
  refine ⟨fun hmem => (hletters _ hmem).1 rfl, fun hmem => (hletters _ hmem).2 rfl, ?_, ?_⟩
  · have hends := bare_append h.name_bare h.name_ne ['='] h.value_bare h.value_ne
    simpa [written] using hends
  · simp [written, h.name_ne]

/-- Parts of tags are read as those tags, the space before each but the first aside. -/
theorem filterMap_readTag {item : List Char × List Char} {items : List (List Char × List Char)}
    (hwritten : ∀ other ∈ item :: items, Written casing other) :
    (written item :: (items.map written).map (' ' :: ·)).filterMap (readTag casing) =
      item :: items := by
  have hequal : ∀ other ∈ item :: items, '=' ∉ other.1 := fun other hother hmem =>
    ((hwritten other hother).name_letters _ hmem).2.1 rfl
  have hfirst := hwritten item List.mem_cons_self
  have hspaced : ∀ other ∈ items, readTag casing (' ' :: written other) = some other := by
    intro other hother
    have hmem := List.mem_cons_of_mem item hother
    refine @readTag_of_written _ _ (hwritten other hmem) (' ' :: other.1)
      (by simpa using hequal other hmem) ?_
    rw [strip_cons_space (by decide), strip_of_bare (hwritten other hmem).name_bare]
  have hlead : readTag casing (written item) = some item :=
    readTag_of_written hfirst (hequal item List.mem_cons_self) (strip_of_bare hfirst.name_bare)
  have hothers : items.filterMap (fun other => readTag casing (' ' :: written other)) = items := by
    rw [List.filterMap_congr hspaced, List.filterMap_some]
  rw [List.filterMap_cons_some hlead, List.map_map, List.filterMap_map]
  exact congrArg (item :: ·) hothers

/-- Tags joined as they are composed are read as they are, where no two have one name. -/
theorem items_parse_joined {item : List Char × List Char} {items : List (List Char × List Char)}
    (hwritten : ∀ other ∈ item :: items, Written casing other)
    (hnodup : ((item :: items).map Prod.fst).Nodup) :
    (parseDmarc casing ("; ".toList.intercalate ((item :: items).map written))).items =
      item :: items := by
  have hparts : ∀ part ∈ written item :: items.map written, ';' ∉ part ∧ '"' ∉ part ∧
      Bare part ∧ part ≠ [] := by
    intro part hpart
    obtain ⟨other, hother, rfl⟩ := List.mem_map.mp (List.map_cons (f := written) ▸ hpart)
    exact (hwritten other hother).part
  have hquote : '"' ∉ "; ".toList.intercalate (written item :: items.map written) := by
    intro hmem
    rcases mem_of_mem_intercalate hmem with hseparator | ⟨part, hpart, hmem⟩
    · simp at hseparator
    · exact (hparts part hpart).2.1 hmem
  have hbare := (bare_intercalate "; ".toList fun part hpart => (hparts part hpart).2.2).1
  have hsplit : ("; ".toList.intercalate (written item :: items.map written)).splitOn ';' =
      written item :: (items.map written).map (' ' :: ·) := by
    rw [intercalate_spaced]
    apply List.splitOn_intercalate _ _ (List.cons_ne_nil _ _)
    intro part hpart
    rcases List.mem_cons.mp hpart with rfl | hpart
    · exact (hparts _ List.mem_cons_self).1
    · obtain ⟨inner, hinner, rfl⟩ := List.mem_map.mp hpart
      simpa using (hparts inner (List.mem_cons_of_mem _ hinner)).1
  rw [List.map_cons, items_parseDmarc, unquote_of_not_mem hquote, strip_of_bare hbare, hsplit,
    filterMap_readTag hwritten, Dict.collect_of_nodup hnodup]

/-! ## What is composed -/

/-- A name in lowercase letters is read as it is written. -/
theorem written_of_lower {name value : List Char} (hname : name ≠ [])
    (hlower : ∀ c ∈ name, c.isLower = true) (hvalue : value ≠ []) (hbare : Bare value)
    (hletters : ∀ c ∈ value, c ≠ ';' ∧ c ≠ '"') : Written casing (name, value) := by
  have hcode : ∀ c ∈ name, 97 ≤ c.toNat ∧ c.toNat ≤ 122 := fun c hc => isLower_iff.mp (hlower c hc)
  have hspace : ∀ c ∈ name, isSpace c = false := by
    intro c hc
    rw [Bool.eq_false_iff]
    intro hspace
    have halpha := isAlpha_of_isSpace hspace
    rw [isAlpha_of_isLower (hlower c hc)] at halpha
    contradiction
  constructor
  · exact hname
  · exact ⟨fun c hc => hspace c (List.mem_of_head? hc), fun c hc => hspace c (List.mem_of_getLast? hc)⟩
  · rw [Casing.lower, casing.lowerFrom_ascii fun c hc => by have := hcode c hc; omega]
    conv_rhs => rw [← List.map_id name]
    apply List.map_congr_left
    intro c hc
    have := hcode c hc
    exact toLower_eq_self (by omega)
  · intro c hc
    have := hcode c hc
    refine ⟨?_, ?_, ?_⟩ <;> rintro rfl <;> simp at this
  · exact hvalue
  · exact hbare
  · exact hletters

theorem isDeclared_iff {name : List Char} :
    isDeclared name = true ↔ ∃ tag ∈ dmarcTags, tag.id = name := by
  simp [isDeclared]

theorem nodup_ids : (dmarcTags.map PolicyTag.id).Nodup := by decide

theorem leftOut_id {tag : PolicyTag} (htag : tag ∈ dmarcTags) (value : List Char) :
    leftOut tag.id value = tag.silent value := by
  rw [leftOut, Bool.eq_iff_iff, List.any_eq_true]
  constructor
  · rintro ⟨other, hother, hsilent⟩
    rw [Bool.and_eq_true, decide_eq_true_eq] at hsilent
    have hsame : other = tag := List.inj_on_of_nodup_map nodup_ids hother htag hsilent.1
    exact hsame ▸ hsilent.2
  · intro hsilent
    exact ⟨tag, htag, by simp [hsilent]⟩

theorem leftOut_of_not_declared {name : List Char} (h : isDeclared name = false)
    (value : List Char) : leftOut name value = false := by
  rw [Bool.eq_false_iff]
  intro hout
  obtain ⟨tag, htag, hsilent⟩ := List.any_eq_true.mp hout
  rw [Bool.and_eq_true, decide_eq_true_eq] at hsilent
  have hdeclared := isDeclared_iff.mpr ⟨tag, htag, hsilent.1⟩
  simp [h] at hdeclared

section Composing

variable {tags : Tags}

theorem composeTag_eq (hwritten : ∀ item ∈ tags.items, Written casing item) (tag : PolicyTag) :
    composeTag tags tag =
      ((tags.get? tag.id).filter fun value => !tag.silent value).map (tag.id, ·) := by
  unfold composeTag PolicyTag.silent
  cases hvalue : tags.get? tag.id with
  | none => simp [strip]
  | some value =>
      have hitem := hwritten (tag.id, value) (Dict.get?_eq_some_iff.mp hvalue)
      have hne := hitem.value_ne
      dsimp only [Option.getD_some]
      rw [strip_of_bare hitem.value_bare, if_neg hne]
      by_cases hsilent : tag.default ≠ [] ∧ value = tag.default ∧ tag.required = false
      · rw [if_pos hsilent, Option.filter_some_neg (by simp [hsilent])]
        rfl
      · rw [if_neg hsilent, Option.filter_some_pos (by simp [hsilent])]
        rfl

theorem isOther_iff {name : List Char} :
    isOther name = true ↔ name ≠ "v".toList ∧ isDeclared name = false := by
  rw [isOther, Bool.and_eq_true, decide_eq_true_eq, Bool.not_eq_true']

theorem composeOther_eq {item : List Char × List Char} (h : Written casing item) :
    composeOther item = Option.guard (fun item => isOther item.1) item := by
  unfold composeOther Option.guard
  rw [strip_of_bare h.value_bare]
  by_cases hother : isOther item.1 = true
  · have hwhich := isOther_iff.mp hother
    rw [if_pos ⟨hwhich.1, hwhich.2, h.value_ne⟩, if_pos hother]
  · rw [if_neg (fun hall => hother (isOther_iff.mpr ⟨hall.1, hall.2.1⟩)), if_neg hother]

theorem filterMap_composeOther (hwritten : ∀ item ∈ tags.items, Written casing item) :
    tags.items.filterMap composeOther = tags.items.filter fun item => isOther item.1 := by
  rw [List.filterMap_congr fun item hitem => composeOther_eq (hwritten item hitem),
    List.filterMap_eq_filter]

theorem mem_declared (hwritten : ∀ item ∈ tags.items, Written casing item)
    {item : List Char × List Char} :
    item ∈ dmarcTags.filterMap (composeTag tags) ↔ ∃ tag ∈ dmarcTags, tag.id = item.1 ∧
      tags.get? tag.id = some item.2 ∧ tag.silent item.2 = false := by
  rw [List.mem_filterMap]
  apply exists_congr
  intro tag
  apply and_congr_right
  intro htag
  rw [composeTag_eq hwritten]
  obtain ⟨name, value⟩ := item
  simp only [Option.map_eq_some_iff, Option.filter_eq_some_iff, Bool.not_eq_true',
    Prod.mk.injEq, exists_eq_right_right]
  tauto

/-- What is composed of a tag but the version is what was read of it, where it is not left out. -/
theorem mem_ordered (hwritten : ∀ item ∈ tags.items, Written casing item) {name value : List Char}
    (hname : name ≠ "v".toList) :
    (name, value) ∈ ordered tags ↔ tags.get? name = some value ∧ leftOut name value = false := by
  have hversion : (name, value) ≠ ("v".toList, dmarcVersion) := fun h => hname (congrArg Prod.fst h)
  rw [ordered, List.cons_append, List.mem_cons, or_iff_right hversion, List.mem_append,
    mem_declared hwritten, filterMap_composeOther hwritten, List.mem_filter,
    ← Dict.get?_eq_some_iff]
  constructor
  · rintro (⟨tag, htag, rfl, hget, hsilent⟩ | ⟨hget, hother⟩)
    · exact ⟨hget, leftOut_id htag value ▸ hsilent⟩
    · exact ⟨hget, leftOut_of_not_declared (isOther_iff.mp hother).2 value⟩
  · rintro ⟨hget, hout⟩
    by_cases hdeclared : isDeclared name = true
    · obtain ⟨tag, htag, rfl⟩ := isDeclared_iff.mp hdeclared
      exact .inl ⟨tag, htag, rfl, hget, leftOut_id htag value ▸ hout⟩
    · exact .inr ⟨hget, isOther_iff.mpr ⟨hname, by simpa using hdeclared⟩⟩

theorem written_ordered (hwritten : ∀ item ∈ tags.items, Written casing item) :
    ∀ item ∈ ordered tags, Written casing item := by
  intro item hitem
  rcases List.mem_append.mp hitem with hlead | hother
  · rcases List.mem_cons.mp hlead with rfl | hdeclared
    · apply written_of_lower
      · decide
      · exact List.all_iff_forall_prop.mp (by decide)
      · decide
      · decide
      · exact List.all_iff_forall_prop.mp (by decide)
    · obtain ⟨tag, -, hid, hget, -⟩ := (mem_declared hwritten).mp hdeclared
      rw [hid] at hget
      exact hwritten (item.1, item.2) (Dict.get?_eq_some_iff.mp hget)
  · rw [filterMap_composeOther hwritten] at hother
    exact hwritten item (List.mem_of_mem_filter hother)

theorem keys_declared (hwritten : ∀ item ∈ tags.items, Written casing item)
    (declared : List PolicyTag) :
    ((declared.filterMap (composeTag tags)).map Prod.fst).Sublist (declared.map PolicyTag.id) := by
  induction declared with
  | nil => exact List.Sublist.refl []
  | cons tag declared ih =>
      cases hcompose : composeTag tags tag with
      | none =>
          rw [List.filterMap_cons_none hcompose]
          exact ih.cons _
      | some item =>
          have hid : item.1 = tag.id := by
            rw [composeTag_eq hwritten, Option.map_eq_some_iff] at hcompose
            obtain ⟨value, -, rfl⟩ := hcompose
            rfl
          rw [List.filterMap_cons_some hcompose, List.map_cons, List.map_cons, hid]
          exact ih.cons_cons _

theorem nodup_ordered (hwritten : ∀ item ∈ tags.items, Written casing item) :
    ((ordered tags).map Prod.fst).Nodup := by
  have hdeclared := keys_declared hwritten dmarcTags
  have hothers : ∀ name ∈ (tags.items.filter fun item => isOther item.1).map Prod.fst,
      isOther name = true := by
    intro name hname
    obtain ⟨item, hitem, rfl⟩ := List.mem_map.mp hname
    exact (List.mem_filter.mp hitem).2
  rw [ordered, filterMap_composeOther hwritten, List.map_append, List.map_cons, List.nodup_append]
  refine ⟨List.nodup_cons.mpr ⟨fun hmem => ?_, nodup_ids.sublist hdeclared⟩,
    tags.nodup.sublist (List.filter_sublist.map _), ?_⟩
  · have hversion : "v".toList ∉ dmarcTags.map PolicyTag.id := by decide
    exact hversion (hdeclared.mem hmem)
  · rintro name hlead _ hother rfl
    have hwhich := isOther_iff.mp (hothers name hother)
    rcases List.mem_cons.mp hlead with rfl | hlead
    · exact hwhich.1 rfl
    · obtain ⟨tag, htag, rfl⟩ := List.mem_map.mp (hdeclared.mem hlead)
      simp [isDeclared_iff.mpr ⟨tag, htag, rfl⟩] at hwhich

/-- What is composed is read again as it is composed. -/
theorem items_parse_compose (hwritten : ∀ item ∈ tags.items, Written casing item) :
    (parseDmarc casing (composeDmarc tags)).items = ordered tags := by
  exact items_parse_joined (written_ordered hwritten) (nodup_ordered hwritten)

theorem others_ordered (hwritten : ∀ item ∈ tags.items, Written casing item) :
    ((ordered tags).filter fun item => isOther item.1) =
      tags.items.filter fun item => isOther item.1 := by
  have hlead : ∀ item ∈ ("v".toList, dmarcVersion) :: dmarcTags.filterMap (composeTag tags),
      ¬ isOther item.1 = true := by
    intro item hitem hother
    have hwhich := isOther_iff.mp hother
    rcases List.mem_cons.mp hitem with rfl | hitem
    · exact hwhich.1 rfl
    · obtain ⟨tag, htag, hid, -⟩ := (mem_declared hwritten).mp hitem
      simp [isDeclared_iff.mpr ⟨tag, htag, hid⟩] at hwhich
  rw [ordered, List.filter_append, List.filter_eq_nil_iff.mpr hlead, List.nil_append,
    filterMap_composeOther hwritten, List.filter_filter]
  simp

theorem id_ne_version {tag : PolicyTag} (htag : tag ∈ dmarcTags) : tag.id ≠ "v".toList := by
  have hnames : "v".toList ∉ dmarcTags.map PolicyTag.id := by decide
  rintro hid
  exact hnames (hid ▸ List.mem_map_of_mem htag)

/-- Reading back what is composed keeps every tag. -/
theorem kept_of_items {again : Tags} (hwritten : ∀ item ∈ tags.items, Written casing item)
    (hitems : again.items = ordered tags) : Kept tags again := by
  have hagain : ∀ item ∈ again.items, Written casing item := by
    rw [hitems]
    exact written_ordered hwritten
  have hvalues : ∀ name, name ≠ "v".toList →
      again.get? name = (tags.get? name).filter fun value => !leftOut name value := by
    intro name hname
    ext value
    rw [Dict.get?_eq_some_iff, hitems, mem_ordered hwritten hname, Option.filter_eq_some_iff,
      Bool.not_eq_true']
  have hothers : (again.items.filter fun item => isOther item.1) =
      tags.items.filter fun item => isOther item.1 := by
    rw [hitems, others_ordered hwritten]
  have hdeclared : ∀ tag ∈ dmarcTags, composeTag again tag = composeTag tags tag := by
    intro tag htag
    rw [composeTag_eq hagain, composeTag_eq hwritten, hvalues tag.id (id_ne_version htag),
      Option.filter_filter]
    simp only [leftOut_id htag, Bool.and_self]
  refine ⟨?_, hvalues, hothers, ?_⟩
  · rw [Dict.get?_eq_some_iff, hitems]
    exact List.mem_cons_self
  · have hordered : ordered again = ordered tags := by
      rw [ordered, ordered, filterMap_composeOther hagain, filterMap_composeOther hwritten, hothers,
        List.filterMap_congr hdeclared]
    rw [composeDmarc, composeDmarc, hordered]

end Composing

/-- Adjacent quoted strings read as their concatenation, and a record written back keeps every
tag it had, those HQ does not model in their order. -/
theorem tags_kept (casing : Casing) :
    (∀ strings : List (List Char), (∀ text ∈ strings, '"' ∉ text) →
      parseDmarc casing (published strings) = parseDmarc casing strings.flatten ∧
        parseSpf casing (published strings) = parseSpf casing strings.flatten) ∧
    ∀ value : List Char, '"' ∉ value →
      Kept (parseDmarc casing value)
        (parseDmarc casing (composeDmarc (parseDmarc casing value))) := by
  constructor
  · intro strings hstrings
    have hunquote := unquote_published hstrings
    constructor
    · rw [parseDmarc, hunquote, parseDmarc]
    · rw [parseSpf, hunquote, parseSpf]
  · intro value hvalue
    have hwritten := @written_parseDmarc casing _ hvalue
    exact kept_of_items hwritten (items_parse_compose hwritten)

theorem tags_kept_of_split_record :
    parseDmarc .plain (published ["v=DMARC1; p=rej".toList, "ect; fo=1".toList]) =
        parseDmarc .plain ["v=DMARC1; p=rej".toList, "ect; fo=1".toList].flatten ∧
      Kept (parseDmarc .plain "V=DMARC1;pct=100;fo=1;P=reject".toList)
        (parseDmarc .plain
          (composeDmarc (parseDmarc .plain "V=DMARC1;pct=100;fo=1;P=reject".toList))) :=
  ⟨((tags_kept .plain).1 _ (by decide)).1, (tags_kept .plain).2 _ (by decide)⟩

end SeverinoHQ.Mail
