/-
# What a field mask keeps

Cutting every record at one depth together and putting the pieces back gives each record what
the mask keeps of it alone. What is kept at a place is told by the paths that name it, lead
through it or stand above it, and so is what is refused.
-/

import SeverinoHQ.Records.Shaped

namespace SeverinoHQ.Records.FieldMasks

open SeverinoHQ.Math

universe u

variable {ν : Type u}

/-! ## What the paths say -/

/-- A path names the place or something above it. -/
def Named (paths : List (List String)) (place : List String) : Prop :=
  ∃ path ∈ paths, path <+: place

/-- A path names something beneath the place. -/
def LeadsOn (paths : List (List String)) (place : List String) : Prop :=
  ∃ path ∈ paths, place <+: path

/-- The names on the way to a place, lists being passed through. -/
def namesOf (place : List Document.Step) : List String :=
  place.filterMap fun step =>
    match step with
    | .key name => some name
    | .entry _ => none

/-- A value on the way that a path leads through: an object keeps the keys that lead on, in its
order, a list of objects its elements, and null stays null. -/
def OnTheWay (paths : List (List String)) (place : List String) :
    Document ν → Document ν → Prop
  | .obj members, kept => ∃ left : Record ν, kept = .obj left ∧
      (∀ name, name ∈ left.map Prod.fst ↔
        name ∈ members.map Prod.fst ∧ LeadsOn paths (place ++ [name])) ∧
      (left.map Prod.fst).Sublist (members.map Prod.fst)
  | .arr items, kept => ∃ left : List (Document ν), kept = .arr left ∧ left.length = items.length ∧
      ∀ item ∈ items, (members? item).isSome
  | .null, kept => kept = .null
  | _, _ => False

/-- What is kept of a record: whole values where a path names them or something above them, the
objects on the way to those, and nothing else. -/
structure Keeps (paths : List (List String)) (record kept : Record ν) : Prop where
  whole : ∀ place, Named paths (namesOf place) →
    (Document.obj kept).at? place = (Document.obj record).at? place
  way : ∀ place value, (Document.obj record).at? place = some value →
    ¬ Named paths (namesOf place) → LeadsOn paths (namesOf place) →
    ∃ left, (Document.obj kept).at? place = some left ∧
      OnTheWay paths (namesOf place) value left
  rest : ∀ place, ¬ Named paths (namesOf place) → ¬ LeadsOn paths (namesOf place) →
    (Document.obj kept).at? place = none
  none_new : ∀ place, (Document.obj record).at? place = none →
    (Document.obj kept).at? place = none

/-- A path leads to a name that no object at its depth carries. -/
def Unnamed (paths : List (List String)) (records : List (Record ν)) (place : List String)
    (name : String) : Prop :=
  LeadsOn paths (place ++ [name]) ∧ ∀ record ∈ pool records place, record.lookup name = none

/-- A path leads beyond a value that is neither an object, a list of objects nor null. -/
def Blocked (paths : List (List String)) (records : List (Record ν)) (place : List String)
    (name : String) : Prop :=
  (∃ next, LeadsOn paths (place ++ [name] ++ [next])) ∧
    ∃ record ∈ pool records place, ∃ value, record.lookup name = some value ∧
      passable value = false

/-- What is refused: a name that none of the objects at its depth carries, there being some, or
a value that cannot be passed. What a path names whole is not looked into. -/
def Astray (paths : List (List String)) (records : List (Record ν)) : Prop :=
  ∃ place name,
    (Unnamed paths records place name ∧ ¬ Named paths place ∧ pool records place ≠ []) ∨
      (Blocked paths records place name ∧ ¬ Named paths (place ++ [name]))

/-- The records are refused. -/
def Refuses (records : List (Record ν)) (fields : List String) : Prop :=
  ∃ errors, selected records fields = .error (.refusal errors)

/-- What a selection by some fields is to be. -/
structure Masks (records : List (Record ν)) (fields : List String) : Prop where
  ends : (∃ answer, selected records fields = .ok answer) ∨ Refuses records fields
  same : ∀ others : List String, (∀ field, field ∈ others ↔ field ∈ fields) →
    (∀ answer, selected records others = .ok answer ↔ selected records fields = .ok answer) ∧
      (Refuses records others ↔ Refuses records fields)
  answers : ∀ answer, selected records fields = .ok answer →
    List.Forall₂ (Keeps (fields.map segments)) records answer ∧
      selected answer fields = .ok answer
  refuses : Refuses records fields ↔ Astray (fields.map segments) records

/-! ## The fields as one tree -/

theorem merge_eq {path : List String} (hpath : path ≠ []) (mask : Mask) :
    PathTree.parts (merge mask path) = (PathTree.parts mask).insert path := by
  induction path generalizing mask with
  | nil => exact absurd rfl hpath
  | cons segment path ih =>
      cases path with
      | nil => simp [merge, PathTree.insert]
      | cons next rest =>
          have hnext := ih (List.cons_ne_nil next rest)
          rw [merge, PathTree.insert]
          cases hchild : mask.lookup segment with
          | none => rw [Option.getD_none, ← hnext]
          | some child =>
              rw [Option.getD_some]
              cases child with
              | whole => rw [PathTree.insert, Dict.assign_of_lookup hchild]
              | parts inner => rw [← hnext]

/-- Every part of a path with a field is found under a field. -/
theorem get?_foldl_setDefault (index : Nat) (places : List (List String))
    (origin : Dict (List String) Nat) (place : List String) :
    ((places.foldl (setDefault index) origin).get? place).isSome =
      ((origin.get? place).isSome || decide (place ∈ places)) := by
  induction places generalizing origin with
  | nil => simp
  | cons first places ih =>
      have hset : ((setDefault index origin first).get? place).isSome =
          ((origin.get? place).isSome || decide (place = first)) := by
        rw [setDefault]
        by_cases hplace : place = first
        · subst hplace
          split
          · next hsome => simp [hsome]
          · simp
        · split <;> simp [hplace]
      rw [List.foldl_cons, ih, hset]
      simp [Bool.or_assoc, List.mem_cons]

section Fields

variable {field : String} {fields : List String}

theorem segments_ne_nil (field : String) : segments field ≠ [] := by
  have hsplit : ∀ letters, Text.split '.' letters ≠ [] := by
    intro letters
    cases letters with
    | nil => exact List.cons_ne_nil _ _
    | cons char letters =>
        rw [Text.split]
        split
        · exact List.cons_ne_nil _ _
        · split <;> exact List.cons_ne_nil _ _
  exact fun h => hsplit _ (List.map_eq_nil_iff.mp h)

/-- The loop over the fields makes the tree of their paths, and finds each part of each. -/
theorem foldl_addField (numbered : List (String × Nat)) (selection : Selection) :
    let after := numbered.foldl addField selection
    PathTree.parts after.mask =
        (numbered.map fun item => segments item.1).foldl PathTree.insert (.parts selection.mask) ∧
      ∀ place, (selection.origin.get? place).isSome ∨
        (∃ item ∈ numbered, place <+: segments item.1 ∧ place ≠ []) →
        (after.origin.get? place).isSome := by
  induction numbered generalizing selection with
  | nil => simp
  | cons item numbered ih =>
      obtain ⟨hmask, horigin⟩ := ih (addField selection item)
      constructor
      · rw [List.foldl_cons, List.map_cons, List.foldl_cons, hmask, addField,
          merge_eq (segments_ne_nil item.1)]
      · intro place hplace
        apply horigin
        rw [addField, get?_foldl_setDefault]
        rcases hplace with hbefore | ⟨other, hother, hprefix, hne⟩
        · exact .inl (by rw [hbefore, Bool.true_or])
        · rcases List.mem_cons.mp hother with rfl | hother
          · left
            have hmem : place ∈ (List.range (segments other.1).length).map fun depth =>
                (segments other.1).take (depth + 1) := by
              have hlength := List.length_pos_iff.mpr hne
              refine List.mem_map.mpr ⟨place.length - 1, List.mem_range.mpr ?_, ?_⟩
              · have hle := hprefix.length_le
                omega
              · rw [Nat.sub_add_cancel hlength]
                exact (List.prefix_iff_eq_take.mp hprefix).symm
            rw [decide_eq_true hmem, Bool.or_true]
          · exact .inr ⟨other, hother, hprefix, hne⟩

/-- The fields as one tree, every path of which is found under a field. -/
theorem selectionOf_ok (hfields : fields ≠ []) (hformed : ∀ field ∈ fields, isFieldPath field) :
    ∃ selection, selectionOf fields = .ok selection ∧
      PathTree.parts selection.mask = PathTree.ofPaths (fields.map segments) ∧
      ∀ place, place ≠ [] → LeadsOn (fields.map segments) place →
        (selection.origin.get? place).isSome := by
  have hnone : fields.zipIdx.filter (fun field => !isFieldPath field.1) = [] := by
    rw [List.filter_eq_nil_iff]
    intro item hitem
    simp [hformed item.1 (List.fst_mem_of_mem_zipIdx hitem)]
  have hmap : (fields.zipIdx.map fun item => segments item.1) = fields.map segments := by
    have hfst := congrArg (List.map segments) (List.zipIdx_map_fst 0 fields)
    rwa [List.map_map] at hfst
  obtain ⟨hmask, horigin⟩ := foldl_addField fields.zipIdx ⟨[], .empty⟩
  refine ⟨_, ?_, by rw [hmask, hmap, PathTree.ofPaths], ?_⟩
  · rw [selectionOf, if_neg hfields, hnone]
    rfl
  · rintro place hne ⟨path, hpath, hprefix⟩
    rw [← hmap] at hpath
    obtain ⟨item, hitem, rfl⟩ := List.mem_map.mp hpath
    exact horigin place (.inr ⟨item, hitem, hprefix, hne⟩)

end Fields

/-! ## The paths and their tree -/

section Paths

variable {paths : List (List String)} {place : List String} {name : String}

theorem passed_iff (paths : List (List String)) (place : List String) :
    (PathTree.ofPaths paths).Passed place ↔
      ¬ Named paths place ∧ (place = [] ∨ LeadsOn paths place) :=
  PathTree.passed_ofPaths paths place

theorem LeadsOn.of_append {more : List String} (h : LeadsOn paths (place ++ more)) :
    LeadsOn paths place := by
  obtain ⟨path, hpath, hprefix⟩ := h
  exact ⟨path, hpath, (List.prefix_append place more).trans hprefix⟩

/-- Beneath a place on the way, what is reached is what a path leads to. -/
theorem reach_ne_none_iff (h : ¬ Named paths place) :
    (PathTree.ofPaths paths).reach (place ++ [name]) ≠ none ↔ LeadsOn paths (place ++ [name]) := by
  rw [PathTree.reach_ne_none_iff, PathTree.kept_ofPaths, passed_iff]
  constructor
  · rintro (⟨path, hpath, hprefix⟩ | ⟨-, hnil | hleads⟩)
    · rcases List.prefix_concat_iff.mp hprefix with rfl | hprefix
      · exact ⟨_, hpath, List.prefix_rfl⟩
      · exact absurd ⟨path, hpath, hprefix⟩ h
    · exact absurd hnil (by simp)
    · exact hleads
  · intro hleads
    by_cases hnamed : Named paths (place ++ [name])
    · exact .inl hnamed
    · exact .inr ⟨hnamed, .inr hleads⟩

/-- A path that leads to a place and does not name it leads beyond. -/
theorem LeadsOn.beyond (h : LeadsOn paths place) (hnamed : ¬ Named paths place) :
    ∃ next, LeadsOn paths (place ++ [next]) := by
  obtain ⟨path, hpath, rest, rfl⟩ := h
  cases rest with
  | nil => exact absurd ⟨_, hpath, by simp⟩ hnamed
  | cons next rest => exact ⟨next, _, hpath, rest, by simp⟩

theorem strays_iff (paths : List (List String)) (records : List (Record ν)) :
    Strays (PathTree.ofPaths paths) records ↔ Astray paths records := by
  apply exists_congr
  intro place
  apply exists_congr
  intro name
  apply or_congr
  · constructor
    · rintro ⟨hpassed, hreach, hpool, hall⟩
      have hnamed := ((passed_iff paths place).mp hpassed).1
      exact ⟨⟨(reach_ne_none_iff hnamed).mp hreach, hall⟩, hnamed, hpool⟩
    · rintro ⟨⟨hleads, hall⟩, hnamed, hpool⟩
      exact ⟨(passed_iff paths place).mpr ⟨hnamed, .inr hleads.of_append⟩,
        (reach_ne_none_iff hnamed).mpr hleads, hpool, hall⟩
  · rw [passed_iff]
    constructor
    · rintro ⟨⟨hnamed, hnil | hleads⟩, hbad⟩
      · exact absurd hnil (by simp)
      · exact ⟨⟨hleads.beyond hnamed, hbad⟩, hnamed⟩
    · rintro ⟨⟨⟨next, hleads⟩, hbad⟩, hnamed⟩
      exact ⟨⟨hnamed, .inr hleads.of_append⟩, hbad⟩

end Paths

/-- The fields answer with what their tree keeps of each record alone, or refuse where they go
astray. -/
theorem selected_spec {fields : List String} (hfields : fields ≠ [])
    (hformed : ∀ field ∈ fields, isFieldPath field) (records : List (Record ν)) :
    ∃ mask, PathTree.parts mask = PathTree.ofPaths (fields.map segments) ∧
      (¬ Astray (fields.map segments) records →
        selected records fields = .ok (records.map (shapeRecord mask))) ∧
      (Astray (fields.map segments) records → Refuses records fields) := by
  obtain ⟨selection, hselection, hmask, horigin⟩ := selectionOf_ok hfields hformed
  have htraced : Traced selection (.parts selection.mask) [] := by
    rw [hmask]
    intro place name hpassed hreach
    have hnamed := ((passed_iff _ place).mp hpassed).1
    exact horigin (place ++ [name]) (by simp) ((reach_ne_none_iff hnamed).mp hreach)
  have hcuts : CutsAlone ν selection (PathTree.ofPaths (fields.map segments)) :=
    cutsAlone (PathTree.formed_ofPaths _)
  rw [← hmask] at hcuts
  obtain ⟨hok, herror⟩ := hcuts selection.mask rfl records [] htraced
  rw [hmask, strays_iff] at hok herror
  refine ⟨selection.mask, hmask, ?_, ?_⟩
  · rw [selected, hselection]
    exact hok
  · rw [Refuses, selected, hselection]
    exact herror

/-! ## Trees that keep the same -/

theorem shape_congr {tree : PathTree String} (h : tree.Formed) (other : PathTree String)
    (hkept : ∀ place, tree.Kept place ↔ other.Kept place)
    (hpassed : ∀ place, tree.Passed place ↔ other.Passed place) (value : Document ν) :
    shape tree value = shape other value := by
  induction h generalizing other value with
  | whole =>
      have hwhole := (hkept []).mp rfl
      cases other with
      | whole => rfl
      | parts mask => exact nomatch hwhole
  | parts mask hnodup hformed ih =>
      obtain ⟨mask', hother⟩ := (hpassed []).mp ⟨mask, rfl⟩
      cases hother
      have hunder : shapeUnder (ν := ν) mask = shapeUnder mask' := by
        funext name value
        rw [shapeUnder_eq, shapeUnder_eq]
        have hreach : mask.lookup name ≠ none ↔ mask'.lookup name ≠ none := by
          have hname := PathTree.reach_ne_none_iff (.parts mask) [name]
          rw [hkept, hpassed, ← PathTree.reach_ne_none_iff] at hname
          simpa [PathTree.reach] using hname
        cases hchild : mask.lookup name with
        | none =>
            have hnone : mask'.lookup name = none := by
              by_contra hsome
              exact hreach.mpr hsome hchild
            rw [hnone]
        | some child =>
            obtain ⟨child', hchild'⟩ := Option.ne_none_iff_exists'.mp
              (hreach.mp (by rw [hchild]; exact Option.some_ne_none child))
            rw [hchild', Option.map_some, Option.map_some, Option.some.injEq]
            apply ih (name, child) (PathTree.mem_of_lookup hnodup hchild) child'
            · intro place
              have hcons := hkept (name :: place)
              rwa [PathTree.kept_cons, PathTree.kept_cons, hchild, hchild'] at hcons
            · intro place
              have hcons := hpassed (name :: place)
              simpa [PathTree.passed_cons, hchild, hchild'] using hcons
      cases value <;> simp only [shape, hunder]

/-- A mask that keeps of a record what it kept once. -/
theorem shape_shape {tree : PathTree String} (h : tree.Formed) (value : Document ν) :
    shape tree (shape tree value) = shape tree value := by
  induction h generalizing value with
  | whole => rfl
  | parts mask hnodup hformed ih =>
      have hrecord : ∀ record : Record ν,
          shapeRecord mask (shapeRecord mask record) = shapeRecord mask record := by
        intro record
        show pick (fun name => ((shapeRecord mask record).lookup name).bind (shapeUnder mask name))
          (shapeRecord mask record) = shapeRecord mask record
        apply pick_self
        rintro ⟨name, left⟩ hitem
        obtain ⟨item, -, heq⟩ := List.mem_filterMap.mp hitem
        obtain ⟨found, hfound, hleft⟩ := Option.map_eq_some_iff.mp heq
        cases hleft
        have hlookup := lookup_shapeRecord mask record item.1
        simp only [← shapeUnder_eq, hfound] at hlookup
        obtain ⟨value, -, hvalue⟩ := Option.bind_eq_some_iff.mp hfound
        rw [shapeUnder_eq, Option.map_eq_some_iff] at hvalue
        obtain ⟨kept, hkept, rfl⟩ := hvalue
        dsimp only
        rw [hlookup, Option.bind_some, shapeUnder_eq, hkept, Option.map_some,
          ih (item.1, kept) (PathTree.mem_of_lookup hnodup hkept)]
      cases value with
      | obj members => rw [shape_obj, shape_obj, hrecord]
      | arr items =>
          rw [shape, shape, List.map_map]
          congr 1
          apply List.map_congr_left
          intro item _
          cases item with
          | obj members => exact congrArg Document.obj (hrecord members)
          | _ => rfl
      | _ => rfl

theorem passable_shape (tree : PathTree String) {value : Document ν} (h : passable value = true) :
    passable (shape tree value) = true := by
  cases tree with
  | whole => exact h
  | parts mask =>
      cases value with
      | obj members =>
          rw [shape_obj]
          rfl
      | arr items =>
          have hitems : ∀ item ∈ items, (members? item).isSome := List.all_eq_true.mp h
          rw [shape_arr hitems]
          apply List.all_eq_true.mpr
          intro left hleft
          obtain ⟨item, hitem, rfl⟩ := List.mem_map.mp hleft
          have hobj := hitems item hitem
          cases item with
          | obj members =>
              rw [shape_obj]
              rfl
          | _ => exact nomatch hobj
      | null => exact h
      | _ => exact nomatch h

theorem under_map {mask inner : Mask} {key : String}
    (hchild : mask.lookup key = some (.parts inner)) (records : List (Record ν))
    (h : ∀ record ∈ records, ∀ value, record.lookup key = some value → passable value = true) :
    under key (records.map (shapeRecord mask)) = (under key records).map (shapeRecord inner) := by
  induction records with
  | nil => rfl
  | cons record records ih =>
      obtain ⟨hrecord, hrecords⟩ := List.forall_mem_cons.mp h
      have hrest := ih hrecords
      rw [under, under] at hrest
      rw [List.map_cons, under, under, List.flatMap_cons, List.flatMap_cons, List.map_append, hrest,
        lookup_shapeRecord, hchild]
      congr 1
      cases hvalue : record.lookup key with
      | none => rfl
      | some value =>
          have hpass := hrecord value hvalue
          rw [Option.bind_some, Option.map_some]
          cases value with
          | null => rfl
          | obj members => simp only [shape_obj, List.map_singleton]
          | arr items =>
              have hitems : ∀ item ∈ items, (members? item).isSome := List.all_eq_true.mp hpass
              simp only [shape_arr hitems, ← map_members hitems, List.filterMap_map]
              exact congrFun (List.filterMap_eq_map (f := shapeRecord inner)) _
          | _ => cases hpass

theorem not_strays_map {tree : PathTree String} (h : tree.Formed) {mask : Mask}
    (hmask : tree = .parts mask) {records : List (Record ν)} (hrecords : ¬ Strays tree records) :
    ¬ Strays tree (records.map (shapeRecord mask)) := by
  induction h generalizing mask records with
  | whole => exact nomatch hmask
  | parts mask hnodup hformed ih =>
      cases hmask
      rw [strays_parts_iff, not_or] at hrecords
      rw [strays_parts_iff]
      rintro (⟨key, child, hchild, hne, hall⟩ | ⟨key, child, hchild, hwhole, hbad⟩)
      · apply hrecords.1
        refine ⟨key, child, hchild, fun hnil => hne (by rw [hnil]; rfl), ?_⟩
        intro record hrecord
        have hnone := hall _ (List.mem_map_of_mem hrecord)
        rw [lookup_shapeRecord, hchild] at hnone
        cases hvalue : record.lookup key with
        | none => rfl
        | some value =>
            rw [hvalue] at hnone
            exact nomatch hnone
      · cases child with
        | whole => exact hwhole rfl
        | parts inner =>
            have hentry : ¬ EntryStrays (key, .parts inner) records := fun hstray =>
              hrecords.2 ⟨key, _, hchild, hstray⟩
            have hpass : ∀ record ∈ records, ∀ value, record.lookup key = some value →
                passable value = true := by
              intro record hrecord value hvalue
              by_contra hfalse
              exact hentry ⟨nofun, .inl ⟨record, hrecord, value, hvalue,
                Bool.eq_false_iff.mpr hfalse⟩⟩
            rcases hbad with ⟨left, hleft, value, hvalue, hfalse⟩ | hstrays
            · obtain ⟨record, hrecord, rfl⟩ := List.mem_map.mp hleft
              rw [lookup_shapeRecord, hchild] at hvalue
              obtain ⟨held, hheld, heq⟩ := Option.bind_eq_some_iff.mp hvalue
              rw [Option.map_some, Option.some.injEq] at heq
              rw [← heq, passable_shape _ (hpass record hrecord held hheld)] at hfalse
              exact nomatch hfalse
            · dsimp only at hstrays
              rw [under_map hchild records hpass] at hstrays
              exact ih (key, .parts inner) (PathTree.mem_of_lookup hnodup hchild) rfl
                (fun hinner => hentry ⟨nofun, .inr hinner⟩) hstrays

/-! ## Places -/

/-- The objects a value stands for: itself, or the elements of a list. -/
def objectsOf : Document ν → List (Record ν)
  | .obj members => [members]
  | .arr items => items.filterMap members?
  | _ => []

/-- A value the tree is not refused at: kept whole, or one whose objects are among some the tree
does not stray from. -/
def Fits (tree : PathTree String) (value : Document ν) : Prop :=
  tree = .whole ∨ (passable value = true ∧
    ∃ records, ¬ Strays tree records ∧ ∀ members ∈ objectsOf value, members ∈ records)

section Places

variable {tree : PathTree String} {mask : Mask}

theorem mem_under {key : String} {records : List (Record ν)} {record : Record ν}
    (hrecord : record ∈ records) {value : Document ν} (hvalue : record.lookup key = some value)
    {members : Record ν} (hmembers : members ∈ objectsOf value) : members ∈ under key records := by
  apply List.mem_flatMap.mpr
  refine ⟨record, hrecord, ?_⟩
  rw [hvalue]
  cases value with
  | obj inner => exact hmembers
  | arr items => exact hmembers
  | _ => exact nomatch hmembers

/-- What is under a name of an object fits what the tree keeps under it. -/
theorem Fits.member {members : Record ν} (h : Fits (.parts mask) (.obj members)) {name : String}
    {value : Document ν} (hvalue : members.lookup name = some value) {child : PathTree String}
    (hchild : mask.lookup name = some child) : Fits child value := by
  rcases h with hwhole | ⟨-, records, hstrays, hmem⟩
  · exact nomatch hwhole
  · have hrecord := hmem members (List.mem_singleton.mpr rfl)
    rw [strays_parts_iff, not_or] at hstrays
    by_cases hwhole : child = .whole
    · exact .inl hwhole
    · have hentry : ¬ EntryStrays (name, child) records := fun hstray =>
        hstrays.2 ⟨name, child, hchild, hstray⟩
      refine .inr ⟨?_, under name records, fun hinner => hentry ⟨hwhole, .inr hinner⟩, ?_⟩
      · by_contra hfalse
        exact hentry ⟨hwhole, .inl ⟨members, hrecord, value, hvalue, Bool.eq_false_iff.mpr hfalse⟩⟩
      · intro inner hinner
        exact mem_under hrecord hvalue hinner

theorem Fits.item {items : List (Document ν)} (h : Fits (.parts mask) (.arr items))
    {item : Document ν} (hitem : item ∈ items) : Fits (.parts mask) item := by
  rcases h with hwhole | ⟨hpass, records, hstrays, hmem⟩
  · exact nomatch hwhole
  · have hobj := List.all_eq_true.mp hpass item hitem
    cases item with
    | obj members =>
        refine .inr ⟨rfl, records, hstrays, ?_⟩
        intro inner hinner
        rw [List.mem_singleton.mp hinner]
        exact hmem members (List.mem_filterMap.mpr ⟨.obj members, hitem, rfl⟩)
    | _ => exact nomatch hobj

theorem Fits.items {items : List (Document ν)} (h : Fits (.parts mask) (.arr items)) :
    ∀ item ∈ items, (members? item).isSome := by
  rcases h with hwhole | ⟨hpass, -⟩
  · exact nomatch hwhole
  · exact List.all_eq_true.mp hpass

/-- What is kept at a place is what the tree that is reached there keeps of its value. -/
theorem at?_shape (place : List Document.Step) {tree : PathTree String} {value : Document ν}
    (h : Fits tree value) :
    (shape tree value).at? place =
      (tree.reach (namesOf place)).bind fun kept => (value.at? place).map (shape kept) := by
  induction place generalizing tree value with
  | nil => rfl
  | cons step place ih =>
      cases tree with
      | whole =>
          rw [PathTree.reach_whole, Option.bind_some]
          show value.at? (step :: place) = _
          cases value.at? (step :: place) with
          | none => rfl
          | some left => rfl
      | parts mask =>
          cases value with
          | obj members =>
              rw [shape_obj]
              cases step with
              | key name =>
                  rw [Document.at?, Document.at?, lookup_shapeRecord]
                  show _ = Option.bind ((mask.lookup name).bind _) _
                  cases hvalue : members.lookup name with
                  | none => simp
                  | some value =>
                      cases hchild : mask.lookup name with
                      | none => simp
                      | some child => exact ih (h.member hvalue hchild)
              | entry index => simp [Document.at?]
          | arr items =>
              rw [shape_arr h.items]
              cases step with
              | key name => simp [Document.at?]
              | entry index =>
                  rw [Document.at?, Document.at?, List.getElem?_map]
                  cases hitem : items[index]? with
                  | none => simp
                  | some item => exact ih (h.item (List.mem_of_getElem? hitem))
          | _ => simp [shape, Document.at?]

/-- The value at a place the tree reaches fits what it keeps there. -/
theorem Fits.at? (place : List Document.Step) {tree : PathTree String} {value : Document ν}
    (h : Fits tree value) {left : Document ν} (hleft : value.at? place = some left)
    {kept : PathTree String} (hkept : tree.reach (namesOf place) = some kept) : Fits kept left := by
  induction place generalizing tree value with
  | nil =>
      cases hleft
      cases hkept
      exact h
  | cons step place ih =>
      cases tree with
      | whole =>
          rw [PathTree.reach_whole] at hkept
          cases hkept
          exact .inl rfl
      | parts mask =>
          cases value with
          | obj members =>
              cases step with
              | key name =>
                  obtain ⟨value, hvalue, hrest⟩ := Option.bind_eq_some_iff.mp hleft
                  obtain ⟨child, hchild, hreach⟩ := Option.bind_eq_some_iff.mp hkept
                  exact ih (h.member hvalue hchild) hrest hreach
              | entry index => exact nomatch hleft
          | arr items =>
              cases step with
              | key name => exact nomatch hleft
              | entry index =>
                  obtain ⟨item, hitem, hrest⟩ := Option.bind_eq_some_iff.mp hleft
                  exact ih (h.item (List.mem_of_getElem? hitem)) hrest hkept
          | _ => simp [Document.at?] at hleft

end Places

/-- What the tree of the paths keeps of a record it does not stray from. -/
theorem keeps_shapeRecord {paths : List (List String)} (hpaths : paths ≠ []) {mask : Mask}
    (hmask : PathTree.parts mask = PathTree.ofPaths paths) {records : List (Record ν)}
    (hastray : ¬ Astray paths records) {record : Record ν} (hrecord : record ∈ records) :
    Keeps paths record (shapeRecord mask record) := by
  have hfits : Fits (PathTree.ofPaths paths) (.obj record) := by
    refine .inr ⟨rfl, records, fun hstrays => hastray ((strays_iff _ _).mp hstrays), ?_⟩
    intro members hmembers
    rw [List.mem_singleton.mp hmembers]
    exact hrecord
  have hat : ∀ place, (Document.obj (shapeRecord mask record)).at? place =
      ((PathTree.ofPaths paths).reach (namesOf place)).bind fun kept =>
        ((Document.obj record).at? place).map (shape kept) := by
    intro place
    rw [← at?_shape place hfits, ← hmask, shape_obj]
  constructor
  · intro place hnamed
    rw [hat, (PathTree.kept_ofPaths paths (namesOf place)).mpr hnamed, Option.bind_some]
    cases (Document.obj record).at? place with
    | none => rfl
    | some value => rfl
  · intro place value hvalue hnamed hleads
    obtain ⟨inner, hinner⟩ := (passed_iff paths (namesOf place)).mpr ⟨hnamed, .inr hleads⟩
    have hfit := hfits.at? place hvalue hinner
    refine ⟨shape (.parts inner) value, by rw [hat, hinner, hvalue]; rfl, ?_⟩
    cases value with
    | obj members =>
        refine ⟨shapeRecord inner members, shape_obj inner members, ?_,
          by rw [shapeRecord, keepBy]; exact map_fst_pick_sublist members⟩
        intro name
        have hlookup : name ∈ members.map Prod.fst → ((members.lookup name).isSome = true) := by
          intro hname
          by_contra hnone
          rw [Option.not_isSome_iff_eq_none] at hnone
          exact Dict.lookup_eq_none_iff_not_mem.mp hnone hname
        rw [shapeRecord, keepBy, mem_map_fst_pick, ← reach_ne_none_iff hnamed, PathTree.reach_append,
          hinner]
        apply and_congr_right
        intro hname
        obtain ⟨value, hvalue⟩ := Option.isSome_iff_exists.mp (hlookup hname)
        rw [hvalue, Option.bind_some, shapeUnder_eq, Option.isSome_map, Option.bind_some,
          PathTree.reach]
        cases inner.lookup name with
        | none => simp
        | some child => simp [PathTree.reach]
    | arr items =>
        exact ⟨_, shape_arr hfit.items inner, List.length_map _, hfit.items⟩
    | null => rfl
    | _ =>
        rcases hfit with hwhole | ⟨hpass, -⟩
        · cases hwhole
        · cases hpass
  · intro place hnamed hleads
    have hreach : (PathTree.ofPaths paths).reach (namesOf place) = none := by
      by_contra hsome
      rcases (PathTree.reach_ne_none_iff _ _).mp hsome with hkept | hpassed
      · exact hnamed ((PathTree.kept_ofPaths paths _).mp hkept)
      · rcases ((passed_iff paths _).mp hpassed).2 with hnil | hleads'
        · obtain ⟨path, hpath⟩ := List.exists_mem_of_ne_nil paths hpaths
          exact hleads ⟨path, hpath, hnil ▸ List.nil_prefix⟩
        · exact hleads hleads'
    rw [hat, hreach]
    rfl
  · intro place hnone
    rw [hat, hnone]
    cases (PathTree.ofPaths paths).reach (namesOf place) <;> rfl

/-! ## Selecting -/

/-- Fields that are the same keep the same. -/
theorem shapeRecord_congr {paths others : List (List String)}
    (h : ∀ path, path ∈ others ↔ path ∈ paths) {mask other : Mask}
    (hmask : PathTree.parts mask = PathTree.ofPaths paths)
    (hother : PathTree.parts other = PathTree.ofPaths others) (record : Record ν) :
    shapeRecord other record = shapeRecord mask record := by
  have hshape := shape_congr (PathTree.formed_ofPaths others) (PathTree.ofPaths paths)
    (by simp only [PathTree.kept_ofPaths, h, implies_true])
    (by simp only [PathTree.passed_ofPaths, h, implies_true]) (Document.obj record)
  rw [← hmask, ← hother, shape_obj, shape_obj] at hshape
  exact Document.obj.inj hshape

theorem astray_congr {paths others : List (List String)}
    (h : ∀ path, path ∈ others ↔ path ∈ paths) (records : List (Record ν)) :
    Astray others records ↔ Astray paths records := by
  simp only [Astray, Unnamed, Blocked, Named, LeadsOn, h]

/-- For every list of records and fields: what is answered and what is refused depends on the set
of the fields alone, an answer keeps of each record what the paths name, selecting the same again
changes nothing, and a refusal is for a path that goes astray. -/
theorem selected_masks (records : List (Record ν)) {fields : List String} (hfields : fields ≠ [])
    (hformed : ∀ field ∈ fields, isFieldPath field) : Masks records fields := by
  obtain ⟨mask, hmask, hok, herror⟩ := selected_spec hfields hformed records
  have hrefuses : Refuses records fields ↔ Astray (fields.map segments) records := by
    constructor
    · rintro ⟨errors, herrors⟩
      by_contra hastray
      rw [hok hastray] at herrors
      exact nomatch herrors
    · exact herror
  have hanswers : ∀ answer, selected records fields = .ok answer ↔
      ¬ Astray (fields.map segments) records ∧ answer = records.map (shapeRecord mask) := by
    intro answer
    constructor
    · intro hanswer
      by_cases hastray : Astray (fields.map segments) records
      · obtain ⟨errors, herrors⟩ := herror hastray
        rw [hanswer] at herrors
        exact nomatch herrors
      · rw [hok hastray, Except.ok.injEq] at hanswer
        exact ⟨hastray, hanswer.symm⟩
    · rintro ⟨hastray, rfl⟩
      exact hok hastray
  constructor
  · by_cases hastray : Astray (fields.map segments) records
    · exact .inr (herror hastray)
    · exact .inl ⟨_, hok hastray⟩
  · intro others hothers
    have hne : others ≠ [] := by
      obtain ⟨field, hfield⟩ := List.exists_mem_of_ne_nil fields hfields
      exact List.ne_nil_of_mem ((hothers field).mpr hfield)
    have hpaths : ∀ path, path ∈ others.map segments ↔ path ∈ fields.map segments := by
      intro path
      simp only [List.mem_map, hothers]
    obtain ⟨other, hother, hok', herror'⟩ := selected_spec hne
      (fun field hfield => hformed field ((hothers field).mp hfield)) records
    have hrecords : records.map (shapeRecord other) = records.map (shapeRecord mask) := by
      apply List.map_congr_left
      intro record _
      exact shapeRecord_congr hpaths hmask hother record
    rw [astray_congr hpaths] at hok' herror'
    by_cases hastray : Astray (fields.map segments) records
    · obtain ⟨errors, herrors⟩ := herror' hastray
      constructor
      · intro answer
        rw [hanswers, herrors]
        exact ⟨nofun, fun h => absurd hastray h.1⟩
      · exact ⟨fun _ => herror hastray, fun _ => herror' hastray⟩
    · have hsame : selected records others = selected records fields := by
        rw [hok' hastray, hok hastray, hrecords]
      rw [Refuses, Refuses, hsame]
      exact ⟨fun answer => Iff.rfl, Iff.rfl⟩
  · intro answer hanswer
    obtain ⟨hastray, rfl⟩ := (hanswers answer).mp hanswer
    constructor
    · apply List.forall₂_map_right_iff.mpr
      apply List.forall₂_same.mpr
      intro record hrecord
      exact keeps_shapeRecord (by simpa using hfields) hmask hastray hrecord
    · -- The answer goes nowhere astray, and keeps what it kept.
      have hformed' := PathTree.formed_ofPaths (fields.map segments)
      have hastray' : ¬ Astray (fields.map segments) (records.map (shapeRecord mask)) := by
        rw [← strays_iff] at hastray ⊢
        exact not_strays_map hformed' hmask.symm hastray
      obtain ⟨mask', hmask', hok', -⟩ :=
        selected_spec hfields hformed (records.map (shapeRecord mask))
      obtain rfl : mask' = mask := PathTree.parts.inj (hmask'.trans hmask.symm)
      rw [hok' hastray', List.map_map]
      congr 1
      apply List.map_congr_left
      intro record _
      have htwice := shape_shape (hmask ▸ hformed') (Document.obj record)
      rw [shape_obj, shape_obj] at htwice
      exact Document.obj.inj htwice
  · exact hrefuses

/-- Two records with an object and a list of objects between them, and a name only one carries. -/
theorem selected_masks_shared :
    Masks (ν := Nat) [[("id", .num 1), ("spec", .obj [("host", .str "a"), ("port", .num 80)])],
      [("id", .num 2), ("spec", .null), ("routes", .arr [.obj [("path", .str "/"), ("to", .num 1)],
        .obj [("to", .num 2)]])]] ["id", "spec.port", "routes.path"] :=
  selected_masks _ (by decide) (by decide)

/-- The parts of a value that is kept whole are not looked into: `a` and `a.b` answer though no
object carries `b`, and `a` is none. -/
theorem not_refuses_whole :
    ¬ ∀ (records : List (Record Nat)) (fields : List String), fields ≠ [] →
      (∀ field ∈ fields, isFieldPath field) →
      (Refuses records fields ↔ ∃ place name,
        Unnamed (fields.map segments) records place name ∨
          Blocked (fields.map segments) records place name) := by
  intro h
  have hrefuses := (h [[("a", .num 1)]] ["a", "a.b"] (by decide) (by decide)).mpr
    ⟨[], "a", .inr ⟨⟨"b", ["a", "b"], by decide, by decide⟩, [("a", .num 1)],
      List.mem_singleton.mpr rfl, .num 1, rfl, rfl⟩⟩
  obtain ⟨errors, herrors⟩ := hrefuses
  have hok : selected (ν := Nat) [[("a", .num 1)]] ["a", "a.b"] = .ok [[("a", .num 1)]] := by
    rfl
  rw [hok] at herrors
  exact nomatch herrors

end SeverinoHQ.Records.FieldMasks
