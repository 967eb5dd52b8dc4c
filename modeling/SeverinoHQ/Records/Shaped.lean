/-
# Cutting records together

The objects of every record at one depth are checked and cut together and dealt back by their
order. That gives each record what the mask keeps of it alone, unless some name is carried by none
of the objects at its depth or some value cannot be passed, and then it is refused.
-/

import SeverinoHQ.Records.FieldMasks

namespace SeverinoHQ.Records.FieldMasks

open SeverinoHQ.Math

universe u

variable {ν : Type u}

/-! ## One record alone -/

/-- A record's names, each with what is found for it. -/
def pick (found : String → Option (Document ν)) (record : Record ν) : Record ν :=
  record.filterMap fun item => (found item.1).map fun value => (item.1, value)

/-- What a mask keeps of a record, given what it keeps under each name. -/
def keepBy (kept : String → Document ν → Option (Document ν)) (record : Record ν) : Record ν :=
  pick (fun name => (record.lookup name).bind (kept name)) record

mutual

/-- What is kept of a value. -/
def shape : PathTree String → Document ν → Document ν
  | .whole, value => value
  | .parts mask, .obj members => .obj (keepBy (shapeUnder mask) members)
  | .parts mask, .arr items => .arr (items.map fun item =>
      match item with
      | .obj members => .obj (keepBy (shapeUnder mask) members)
      | item => item)
  | .parts _, value => value

def shapeUnder : Mask → String → Document ν → Option (Document ν)
  | [], _, _ => none
  | (key, kept) :: rest, name, value =>
      if name = key then some (shape kept value) else shapeUnder rest name value

end

/-- What a mask keeps of a record. -/
def shapeRecord (mask : Mask) (record : Record ν) : Record ν := keepBy (shapeUnder mask) record

section Pick

variable {found : String → Option (Document ν)}

theorem lookup_pick (record : Record ν) (name : String) :
    (pick found record).lookup name = if name ∈ record.map Prod.fst then found name else none := by
  induction record with
  | nil => rfl
  | cons item record ih =>
      obtain ⟨first, value⟩ := item
      rw [pick] at ih
      rw [pick, List.filterMap_cons, List.map_cons]
      by_cases hname : name = first
      · subst hname
        rw [if_pos List.mem_cons_self]
        cases hfound : found name with
        | none =>
            rw [Option.map_none, ih, hfound]
            split <;> rfl
        | some left => rw [Option.map_some, List.lookup_cons_self]
      · have hmem : name ∈ first :: record.map Prod.fst ↔ name ∈ record.map Prod.fst := by
          simp [hname]
        simp only [hmem]
        cases found first with
        | none => exact ih
        | some left => rw [Option.map_some, Dict.lookup_cons_of_ne left _ hname, ih]

theorem lookup_keepBy (kept : String → Document ν → Option (Document ν)) (record : Record ν)
    (name : String) :
    (keepBy kept record).lookup name = (record.lookup name).bind (kept name) := by
  rw [keepBy, lookup_pick]
  split
  · rfl
  · next hmem => rw [Dict.lookup_eq_none_iff_not_mem.mpr hmem, Option.bind_none]

theorem mem_map_fst_pick (record : Record ν) (name : String) :
    name ∈ (pick found record).map Prod.fst ↔
      name ∈ record.map Prod.fst ∧ (found name).isSome := by
  simp only [pick, List.mem_map, List.mem_filterMap, Option.map_eq_some_iff]
  constructor
  · rintro ⟨left, ⟨item, hitem, value, hvalue, rfl⟩, rfl⟩
    exact ⟨⟨item, hitem, rfl⟩, by simp [hvalue]⟩
  · rintro ⟨⟨item, hitem, rfl⟩, hfound⟩
    obtain ⟨value, hvalue⟩ := Option.isSome_iff_exists.mp hfound
    exact ⟨(item.1, value), ⟨item, hitem, value, hvalue, rfl⟩, rfl⟩

theorem map_fst_pick_sublist (record : Record ν) :
    ((pick found record).map Prod.fst).Sublist (record.map Prod.fst) := by
  induction record with
  | nil => exact List.Sublist.refl []
  | cons item record ih =>
      rw [pick, List.filterMap_cons, List.map_cons]
      cases found item.1 with
      | none => exact ih.cons item.1
      | some value => exact ih.cons_cons item.1

theorem pick_congr {other : String → Option (Document ν)} {record : Record ν}
    (h : ∀ name ∈ record.map Prod.fst, found name = other name) :
    pick found record = pick other record := by
  apply List.filterMap_congr
  intro item hitem
  rw [h item.1 (List.mem_map_of_mem hitem)]

/-- What is found for every name as the record has it is the record. -/
theorem pick_self {record : Record ν}
    (h : ∀ item ∈ record, found item.1 = some item.2) : pick found record = record := by
  rw [pick]
  conv_rhs => rw [← List.filterMap_some (l := record)]
  apply List.filterMap_congr
  intro item hitem
  rw [h item hitem, Option.map_some]

end Pick

theorem inOrder_eq_pick (record out : Record ν) :
    inOrder record out = pick (fun name => out.lookup name) record := rfl

theorem shapeUnder_eq (mask : Mask) (name : String) (value : Document ν) :
    shapeUnder mask name value = (mask.lookup name).map fun kept => shape kept value := by
  induction mask with
  | nil => rfl
  | cons entry mask ih =>
      obtain ⟨key, kept⟩ := entry
      rw [shapeUnder]
      by_cases hname : name = key
      · subst hname
        rw [if_pos rfl, List.lookup_cons_self, Option.map_some]
      · rw [if_neg hname, ih, Dict.lookup_cons_of_ne kept mask hname]

theorem lookup_shapeRecord (mask : Mask) (record : Record ν) (name : String) :
    (shapeRecord mask record).lookup name =
      (record.lookup name).bind fun value => (mask.lookup name).map fun kept => shape kept value := by
  rw [shapeRecord, lookup_keepBy]
  congr
  funext value
  exact shapeUnder_eq mask name value

theorem shape_obj (mask : Mask) (members : Record ν) :
    shape (.parts mask) (.obj members) = .obj (shapeRecord mask members) := by
  rw [shape, shapeRecord]

/-- The elements of a list of objects are cut each. -/
theorem shape_arr {items : List (Document ν)} (h : ∀ item ∈ items, (members? item).isSome)
    (mask : Mask) : shape (.parts mask) (.arr items) = .arr (items.map (shape (.parts mask))) := by
  rw [shape]
  congr 1
  apply List.map_congr_left
  intro item hitem
  have hobj := h item hitem
  cases item with
  | obj members => rw [shape_obj, shapeRecord]
  | _ => exact nomatch hobj

/-! ## What is at a depth -/

/-- The objects under a name, of every object. -/
def under (name : String) (records : List (Record ν)) : List (Record ν) :=
  records.flatMap fun record =>
    match record.lookup name with
    | some (.obj members) => [members]
    | some (.arr items) => items.filterMap members?
    | _ => []

/-- The objects at a depth. -/
def pool : List (Record ν) → List String → List (Record ν)
  | records, [] => records
  | records, name :: place => pool (under name records) place

/-- An object, a list of objects or null. -/
def passable : Document ν → Bool
  | .null => true
  | .obj _ => true
  | .arr items => items.all fun item => (members? item).isSome
  | _ => false

/-- A tree of paths strays from the records: a name that none of the objects at its depth carries,
there being some, or a value under a name to be looked into that cannot be passed. -/
def Strays (tree : PathTree String) (records : List (Record ν)) : Prop :=
  ∃ place name,
    (tree.Passed place ∧ tree.reach (place ++ [name]) ≠ none ∧ pool records place ≠ [] ∧
      ∀ record ∈ pool records place, record.lookup name = none) ∨
    (tree.Passed (place ++ [name]) ∧ ∃ record ∈ pool records place, ∃ value,
      record.lookup name = some value ∧ passable value = false)

/-- What the loop of the cut may stray at under one name. -/
def EntryStrays (entry : String × PathTree String) (records : List (Record ν)) : Prop :=
  entry.2 ≠ .whole ∧ ((∃ record ∈ records, ∃ value, record.lookup entry.1 = some value ∧
    passable value = false) ∨ Strays entry.2 (under entry.1 records))

theorem strays_parts_iff (mask : Mask) (records : List (Record ν)) :
    Strays (.parts mask) records ↔
      (∃ key child, mask.lookup key = some child ∧ records ≠ [] ∧
        ∀ record ∈ records, record.lookup key = none) ∨
      ∃ key child, mask.lookup key = some child ∧ EntryStrays (key, child) records := by
  constructor
  · rintro ⟨place, name, ⟨hpassed, hreach, hpool, hall⟩ | ⟨hpassed, hbad⟩⟩
    · cases place with
      | nil =>
          obtain ⟨child, hchild⟩ := Option.ne_none_iff_exists'.mp hreach
          obtain ⟨entry, hentry, -⟩ := Option.bind_eq_some_iff.mp hchild
          exact .inl ⟨name, entry, hentry, hpool, hall⟩
      | cons key place =>
          obtain ⟨child, hchild, hinner⟩ := (PathTree.passed_cons mask key place).mp hpassed
          right
          refine ⟨key, child, hchild, ?_, .inr ⟨place, name, .inl ⟨hinner, ?_, hpool, hall⟩⟩⟩
          · rintro rfl
            exact PathTree.not_passed_whole place hinner
          · rw [List.cons_append, PathTree.reach, hchild, Option.bind_some] at hreach
            exact hreach
    · cases place with
      | nil =>
          obtain ⟨child, hchild, hinner⟩ := (PathTree.passed_cons mask name []).mp hpassed
          refine .inr ⟨name, child, hchild, ?_, .inl hbad⟩
          rintro rfl
          exact PathTree.not_passed_whole [] hinner
      | cons key place =>
          obtain ⟨child, hchild, hinner⟩ := (PathTree.passed_cons mask key _).mp hpassed
          refine .inr ⟨key, child, hchild, ?_, .inr ⟨place, name, .inr ⟨hinner, hbad⟩⟩⟩
          rintro rfl
          exact PathTree.not_passed_whole _ hinner
  · rintro (⟨key, child, hchild, hrecords, hall⟩ | ⟨key, child, hchild, hwhole, hbad | hstrays⟩)
    · refine ⟨[], key, .inl ⟨⟨mask, rfl⟩, ?_, hrecords, hall⟩⟩
      rw [List.nil_append, PathTree.reach, hchild]
      exact Option.some_ne_none child
    · cases child with
      | whole => exact absurd rfl hwhole
      | parts inner =>
          exact ⟨[], key, .inr ⟨(PathTree.passed_cons mask key []).mpr
            ⟨.parts inner, hchild, inner, rfl⟩, hbad⟩⟩
    · obtain ⟨place, name, ⟨hpassed, hreach, hpool, hall⟩ | ⟨hpassed, hbad⟩⟩ := hstrays
      · refine ⟨key :: place, name, .inl ⟨(PathTree.passed_cons mask key place).mpr
          ⟨child, hchild, hpassed⟩, ?_, hpool, hall⟩⟩
        rw [List.cons_append, PathTree.reach, hchild, Option.bind_some]
        exact hreach
      · exact ⟨key :: place, name, .inr ⟨(PathTree.passed_cons mask key _).mpr
          ⟨child, hchild, hpassed⟩, hbad⟩⟩

/-! ## The steps of the cut -/

section Steps

variable {selection : Selection} {key : String} {path : List String}

theorem refuse_spec {α : Type u} (hpath : (selection.origin.get? path).isSome)
    (errorType msg : String) (at' : List String) :
    ∃ errors, selection.refuse (α := α) path errorType msg at' = .error (.refusal errors) := by
  obtain ⟨index, hindex⟩ := Option.isSome_iff_exists.mp hpath
  exact ⟨_, by rw [Selection.refuse, hindex]⟩

theorem elementsUnder_ok (records : List (Record ν))
    (h : ∀ record ∈ records, ∀ value, record.lookup key = some value → passable value = true) :
    elementsUnder selection key path records = .ok (under key records) := by
  induction records with
  | nil => rfl
  | cons record records ih =>
      obtain ⟨hrecord, hrecords⟩ := List.forall_mem_cons.mp h
      have hrest := ih hrecords
      rw [elementsUnder, under, List.flatMap_cons, ← under, hrest]
      cases hvalue : record.lookup key with
      | none => rfl
      | some value =>
          have hpass := hrecord value hvalue
          cases value with
          | null => rfl
          | obj members => rfl
          | arr items => simp only [if_pos (show items.all _ = true from hpass)]; rfl
          | _ => exact nomatch hpass

theorem elementsUnder_error (hpath : (selection.origin.get? path).isSome)
    (records : List (Record ν))
    (h : ∃ record ∈ records, ∃ value, record.lookup key = some value ∧ passable value = false) :
    ∃ errors, elementsUnder selection key path records = .error (.refusal errors) := by
  induction records with
  | nil => exact absurd h (by simp)
  | cons record records ih =>
      have hrefuse := refuse_spec (α := List (Record ν)) hpath "dict_type"
        "Input should be a valid dictionary" path
      rw [List.exists_mem_cons_iff] at h
      rw [elementsUnder]
      cases hvalue : record.lookup key with
      | none =>
          rw [hvalue] at h
          exact ih (h.resolve_left (by simp))
      | some value =>
          rw [hvalue] at h
          have hrest : passable value = true →
              ∃ errors, elementsUnder selection key path records = .error (.refusal errors) := by
            intro hpass
            apply ih
            apply h.resolve_left
            rintro ⟨other, hother, hfalse⟩
            cases hother
            rw [hpass] at hfalse
            exact nomatch hfalse
          cases value with
          | null => exact hrest rfl
          | obj members =>
              obtain ⟨errors, herrors⟩ := hrest rfl
              exact ⟨errors, by rw [herrors]; rfl⟩
          | arr items =>
              by_cases hpass : passable (.arr items) = true
              · obtain ⟨errors, herrors⟩ := hrest hpass
                simp only [if_pos (show items.all _ = true from hpass), herrors]
                exact ⟨errors, rfl⟩
              · simp only [if_neg (show ¬ items.all _ = true from hpass)]
                exact hrefuse
          | _ => exact hrefuse

end Steps

/-- What a record holds under a name, cut and put into what is kept of it. -/
def put (entry : String × PathTree String) (record out : Record ν) : Record ν :=
  match entry.2 with
  | .whole => out
  | .parts _ =>
      match record.lookup entry.1 with
      | some value => Dict.assign entry.1 (shape entry.2 value) out
      | none => out

theorem map_members {items : List (Document ν)} (h : ∀ item ∈ items, (members? item).isSome)
    (mask : Mask) :
    ((items.filterMap members?).map (shapeRecord mask)).map .obj =
      items.map (shape (.parts mask)) := by
  induction items with
  | nil => rfl
  | cons item items ih =>
      obtain ⟨hitem, hitems⟩ := List.forall_mem_cons.mp h
      cases item with
      | obj members =>
          have hmembers : members? (.obj members) = some members := rfl
          rw [List.filterMap_cons_some hmembers, List.map_cons, List.map_cons, List.map_cons,
            ih hitems, shape_obj]
      | _ => exact nomatch hitem

/-- Every element goes back to the record it came from. -/
theorem deal_ok (key : String) (mask : Mask) (records : List (Record ν))
    (h : ∀ record ∈ records, ∀ value, record.lookup key = some value → passable value = true)
    (out : Record ν → Record ν) :
    deal key records (records.map out) ((under key records).map (shapeRecord mask)) =
      .ok (records.map fun record => put (key, .parts mask) record (out record)) := by
  induction records with
  | nil => rfl
  | cons record records ih =>
      obtain ⟨hrecord, hrecords⟩ := List.forall_mem_cons.mp h
      have hrest := ih hrecords
      rw [under, List.flatMap_cons, ← under, List.map_cons, List.map_cons, put]
      cases hvalue : record.lookup key with
      | none =>
          simp only [deal, hvalue, List.nil_append, hrest]
          rfl
      | some value =>
          have hpass := hrecord value hvalue
          cases value with
          | null =>
              simp only [deal, hvalue, List.nil_append, hrest]
              rfl
          | obj members =>
              simp only [deal, hvalue, List.singleton_append, List.map_cons, hrest, shape_obj]
              rfl
          | arr items =>
              have hitems : ∀ item ∈ items, (members? item).isSome := List.all_eq_true.mp hpass
              have hlength : ((items.filterMap members?).map (shapeRecord mask)).length =
                  items.length := by
                have hmap := congrArg List.length (map_members hitems mask)
                rwa [List.length_map, List.length_map (shape (.parts mask))] at hmap
              have henough : ¬ ((items.filterMap members?).map (shapeRecord mask) ++
                  (under key records).map (shapeRecord mask)).length < items.length := by
                rw [List.length_append, hlength]
                omega
              simp only [deal, hvalue, List.map_append, if_neg henough, List.take_left' hlength,
                List.drop_left' hlength, hrest, map_members hitems, shape_arr hitems]
              rfl
          | _ => exact nomatch hpass

theorem reordered_ok (records : List (Record ν)) (out : Record ν → Record ν) :
    reordered records (records.map out) =
      .ok (records.map fun record => inOrder record (out record)) := by
  induction records with
  | nil => rfl
  | cons record records ih =>
      rw [List.map_cons, reordered, ih]
      rfl

theorem mem_known (records : List (Record ν)) (name : String) :
    name ∈ known records ↔ ∃ record ∈ records, name ∈ record.map Prod.fst := by
  rw [known, List.mem_eraseDups, List.mem_flatMap]

/-! ## The whole cut -/

/-- Every path of a tree is one the fields name. -/
def Traced (selection : Selection) (tree : PathTree String) (at' : List String) : Prop :=
  ∀ place name, tree.Passed place → tree.reach (place ++ [name]) ≠ none →
    (selection.origin.get? (at' ++ (place ++ [name]))).isSome

/-- A cut by a tree gives each record what the tree keeps of it alone, or is refused where the
tree strays. -/
def CutsAlone (ν : Type u) (selection : Selection) (tree : PathTree String) : Prop :=
  ∀ mask, tree = .parts mask → ∀ (records : List (Record ν)) (at' : List String),
    Traced selection tree at' →
    (¬ Strays tree records →
      cut selection records mask at' = .ok (records.map (shapeRecord mask))) ∧
    (Strays tree records → ∃ errors, cut selection records mask at' = .error (.refusal errors))

section Cut

variable {selection : Selection} {at' : List String}

theorem Traced.child {mask : Mask} (h : Traced selection (.parts mask) at') {key : String}
    {child : PathTree String} (hchild : mask.lookup key = some child) :
    Traced selection child (at' ++ [key]) ∧ (selection.origin.get? (at' ++ [key])).isSome := by
  constructor
  · intro place name hpassed hreach
    have hpath := h (key :: place) name
      ((PathTree.passed_cons mask key place).mpr ⟨child, hchild, hpassed⟩)
      (by rw [List.cons_append, PathTree.reach, hchild]; exact hreach)
    rwa [List.append_assoc]
  · exact h [] key ⟨mask, rfl⟩
      (by rw [List.nil_append, PathTree.reach, hchild]; exact Option.some_ne_none child)

/-- What the loop does with one name. -/
theorem cutEntry_spec {entry : String × PathTree String}
    (hcuts : CutsAlone ν selection entry.2) (htraced : Traced selection entry.2 (at' ++ [entry.1]))
    (hpath : (selection.origin.get? (at' ++ [entry.1])).isSome) (records : List (Record ν))
    (out : Record ν → Record ν) :
    (¬ EntryStrays entry records →
      cutEntry selection at' entry.1 records (records.map out) entry.2 =
        .ok (records.map fun record => put entry record (out record))) ∧
    (EntryStrays entry records → ∃ errors,
      cutEntry selection at' entry.1 records (records.map out) entry.2 =
        .error (.refusal errors)) := by
  obtain ⟨key, kept⟩ := entry
  cases kept with
  | whole => exact ⟨fun _ => rfl, fun hstrays => absurd rfl hstrays.1⟩
  | parts inner =>
      have hcut := hcuts inner rfl (under key records) (at' ++ [key]) htraced
      have hentry : cutEntry selection at' key records (records.map out) (.parts inner) =
          cutWithin selection (fun elements => cut selection elements inner (at' ++ [key])) key
            (at' ++ [key]) records (records.map out) := by
        rw [cutEntry]
        rfl
      dsimp only
      rw [hentry, cutWithin]
      by_cases hbad : ∃ record ∈ records, ∃ value, record.lookup key = some value ∧
          passable value = false
      · obtain ⟨errors, herrors⟩ := elementsUnder_error hpath records hbad
        rw [herrors]
        exact ⟨fun hstrays => absurd ⟨nofun, .inl hbad⟩ hstrays, fun _ => ⟨errors, rfl⟩⟩
      · have hpass : ∀ record ∈ records, ∀ value, record.lookup key = some value →
            passable value = true := by
          intro record hrecord value hvalue
          by_contra hfalse
          exact hbad ⟨record, hrecord, value, hvalue, Bool.eq_false_iff.mpr hfalse⟩
        rw [elementsUnder_ok records hpass]
        constructor
        · intro hstrays
          have hok := hcut.1 fun hinner => hstrays ⟨nofun, .inr hinner⟩
          show (cut selection (under key records) inner (at' ++ [key])).bind _ = _
          rw [hok]
          exact deal_ok key inner records hpass out
        · rintro ⟨-, hfalse | hinner⟩
          · exact absurd hfalse hbad
          · obtain ⟨errors, herrors⟩ := hcut.2 hinner
            refine ⟨errors, ?_⟩
            show (cut selection (under key records) inner (at' ++ [key])).bind _ = _
            rw [herrors]
            rfl

/-- What the loop does with the names of a mask. -/
theorem cutParts_spec {mask : Mask}
    (h : ∀ entry ∈ mask, CutsAlone ν selection entry.2 ∧
      Traced selection entry.2 (at' ++ [entry.1]) ∧
      (selection.origin.get? (at' ++ [entry.1])).isSome) (records : List (Record ν))
    (out : Record ν → Record ν) :
    ((∀ entry ∈ mask, ¬ EntryStrays entry records) →
      cutParts selection at' records (records.map out) mask =
        .ok (records.map fun record =>
          mask.foldl (fun out entry => put entry record out) (out record))) ∧
    ((∃ entry ∈ mask, EntryStrays entry records) → ∃ errors,
      cutParts selection at' records (records.map out) mask = .error (.refusal errors)) := by
  induction mask generalizing out with
  | nil => exact ⟨fun _ => rfl, fun hstrays => absurd hstrays (by simp)⟩
  | cons entry mask ih =>
      obtain ⟨hentry, hmask⟩ := List.forall_mem_cons.mp h
      obtain ⟨hok, herror⟩ := cutEntry_spec hentry.1 hentry.2.1 hentry.2.2 records out
      obtain ⟨hrest, hfails⟩ := ih hmask fun record => put entry record (out record)
      rw [cutParts]
      constructor
      · intro hstrays
        obtain ⟨hfirst, hothers⟩ := List.forall_mem_cons.mp hstrays
        rw [hok hfirst]
        exact hrest hothers
      · intro hstrays
        by_cases hfirst : EntryStrays entry records
        · obtain ⟨errors, herrors⟩ := herror hfirst
          rw [herrors]
          exact ⟨errors, rfl⟩
        · rw [hok hfirst]
          exact hfails (((List.exists_mem_cons_iff _ _ _).mp hstrays).resolve_left hfirst)

/-- The first name of the mask that no record carries. -/
theorem unknown_spec (mask : Mask) (records : List (Record ν)) :
    match if records = [] then none else (mask.map Prod.fst).find? (· ∉ known records) with
    | some name => ∃ child, mask.lookup name = some child ∧ records ≠ [] ∧
        ∀ record ∈ records, record.lookup name = none
    | none => ¬ ∃ key child, mask.lookup key = some child ∧ records ≠ [] ∧
        ∀ record ∈ records, record.lookup key = none := by
  have hknown : ∀ name, name ∉ known records ↔ ∀ record ∈ records, record.lookup name = none := by
    intro name
    simp only [mem_known, not_exists, not_and, Dict.lookup_eq_none_iff_not_mem]
  by_cases hrecords : records = []
  · rw [if_pos hrecords]
    rintro ⟨key, child, -, hne, -⟩
    exact hne hrecords
  · rw [if_neg hrecords]
    cases hfind : (mask.map Prod.fst).find? (· ∉ known records) with
    | some name =>
        have hname := List.mem_of_find?_eq_some hfind
        have hunknown := List.find?_some hfind
        rw [decide_eq_true_eq, hknown] at hunknown
        obtain ⟨child, hchild⟩ := Option.ne_none_iff_exists'.mp fun hnone =>
          Dict.lookup_eq_none_iff_not_mem.mp hnone hname
        exact ⟨child, hchild, hrecords, hunknown⟩
    | none =>
        rintro ⟨key, child, hchild, -, hall⟩
        have hkey : key ∈ mask.map Prod.fst := by
          by_contra hmem
          rw [Dict.lookup_eq_none_iff_not_mem.mpr hmem] at hchild
          exact nomatch hchild
        have hfound := List.find?_eq_none.mp hfind key hkey
        rw [decide_eq_true_eq, hknown] at hfound
        exact hfound hall

theorem lookup_wholes (mask : Mask) (record : Record ν) (name : String) :
    (wholes mask record).lookup name =
      match mask.lookup name with
      | some .whole => record.lookup name
      | _ => none := by
  apply (Dict.lookup_filter_key (fun key =>
    match mask.lookup key with
    | some .whole => true
    | _ => false) name record).trans
  cases mask.lookup name with
  | none => rfl
  | some kept => cases kept <;> rfl

theorem lookup_put (key : String) (kept : PathTree String) (record out : Record ν)
    (name : String) :
    (put (key, kept) record out).lookup name =
      match kept with
      | .parts inner =>
          if name = key then ((record.lookup name).map (shape (.parts inner))).or (out.lookup name)
          else out.lookup name
      | .whole => out.lookup name := by
  cases kept with
  | whole => rfl
  | parts inner =>
      rw [put]
      by_cases hname : name = key
      · subst hname
        cases record.lookup name with
        | none => simp
        | some value => simp [Dict.lookup_assign]
      · cases record.lookup key with
        | none => simp [hname]
        | some value => simp [Dict.lookup_assign, hname]

theorem lookup_foldl_put {mask : Mask} (hnodup : (mask.map Prod.fst).Nodup)
    (record out : Record ν) (name : String) :
    (mask.foldl (fun out entry => put entry record out) out).lookup name =
      match mask.lookup name with
      | some (.parts inner) => ((record.lookup name).map (shape (.parts inner))).or (out.lookup name)
      | _ => out.lookup name := by
  induction mask generalizing out with
  | nil => rfl
  | cons entry mask ih =>
      obtain ⟨key, kept⟩ := entry
      rw [List.map_cons, List.nodup_cons] at hnodup
      rw [List.foldl_cons, ih hnodup.2, lookup_put]
      by_cases hname : name = key
      · subst hname
        rw [Dict.lookup_eq_none_iff_not_mem.mpr hnodup.1, List.lookup_cons_self]
        cases kept with
        | whole => rfl
        | parts inner => exact if_pos rfl
      · rw [Dict.lookup_cons_of_ne kept mask hname]
        cases kept with
        | whole => rfl
        | parts inner => simp only [if_neg hname]

/-- What is kept of a record is what the mask keeps of it alone. -/
theorem inOrder_eq {mask : Mask} (hnodup : (mask.map Prod.fst).Nodup) (record : Record ν) :
    inOrder record (mask.foldl (fun out entry => put entry record out) (wholes mask record)) =
      shapeRecord mask record := by
  rw [inOrder_eq_pick, shapeRecord, keepBy]
  apply pick_congr
  intro name _
  have hunder : shapeUnder mask name = fun value : Document ν =>
      (mask.lookup name).map fun kept => shape kept value := by
    funext value
    exact shapeUnder_eq mask name value
  rw [lookup_foldl_put hnodup, lookup_wholes, hunder]
  cases mask.lookup name with
  | none => simp
  | some kept =>
      cases kept with
      | whole =>
          cases record.lookup name with
          | none => rfl
          | some value => simp [shape]
      | parts inner =>
          cases record.lookup name with
          | none => rfl
          | some value => simp

theorem cutsAlone {tree : PathTree String} (h : tree.Formed) : CutsAlone ν selection tree := by
  induction h with
  | whole => exact fun mask hmask => nomatch hmask
  | parts mask hnodup hformed ih =>
      rintro _ ⟨⟩ records at' htraced
      have hlookup : ∀ entry ∈ mask, mask.lookup entry.1 = some entry.2 := by
        intro entry hentry
        have hget : (Dict.mk mask hnodup).get? entry.1 = some entry.2 :=
          Dict.get?_eq_some_iff.mpr hentry
        exact hget
      have hparts := cutParts_spec
        (fun entry hentry => ⟨ih entry hentry, htraced.child (hlookup entry hentry)⟩) records
        (wholes mask)
      have hunknown := unknown_spec mask records
      rw [strays_parts_iff, cut, cutOf]
      split
      · next name hname =>
          rw [hname] at hunknown
          obtain ⟨child, hchild, hall⟩ := hunknown
          constructor
          · intro hstrays
            exact absurd (.inl ⟨name, child, hchild, hall⟩) hstrays
          · intro _
            exact refuse_spec (htraced.child hchild).2 _ _ _
      · next hnone =>
          rw [hnone] at hunknown
          constructor
          · intro hstrays
            have hok := hparts.1 fun entry hentry hstray =>
              hstrays (.inr ⟨entry.1, entry.2, hlookup entry hentry, hstray⟩)
            rw [hok]
            show reordered records (records.map _) = _
            rw [reordered_ok]
            simp only [inOrder_eq hnodup]
          · intro hstrays
            obtain ⟨key, child, hchild, hstray⟩ := hstrays.resolve_left hunknown
            obtain ⟨errors, herrors⟩ := hparts.2
              ⟨(key, child), PathTree.mem_of_lookup hnodup hchild, hstray⟩
            rw [herrors]
            exact ⟨errors, rfl⟩

end Cut

end SeverinoHQ.Records.FieldMasks
