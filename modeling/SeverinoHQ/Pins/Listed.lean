/-
# The pins as a list

What the positions stand for is a list of keys with no repeat. Pinning, unpinning and moving do
to the table what their words say of the list, from whatever positions it holds; a choice does
where it is given in the order the table leaves it in.
-/

import Mathlib.Data.List.Sort
import SeverinoHQ.Math.Run
import SeverinoHQ.Pins.Model

namespace SeverinoHQ.Pins

open SeverinoHQ.Math Letters

attribute [local instance] lawful_letters

/-! ## The list -/

section Purpose

variable (casing : Casing)

/-- What a call is to do to the list of keys: a new pin lands at the end, one taken away leaves the
rest, a move is past the neighbor, and a choice is what is pinned, in order. -/
def listStep (keys : List Key) : Command → List Key
  | .pin key =>
      if strip key = [] then keys
      else if normal casing key ∈ keys then keys.erase (normal casing key)
      else keys ++ [normal casing key]
  | .move key up =>
      let index := keys.idxOf (normal casing key)
      if strip key = [] ∨ normal casing key ∉ keys then keys
      else if up then if index = 0 then keys else exchange keys index (index - 1)
      else if index + 1 = keys.length then keys else exchange keys index (index + 1)
  | .choose keys => ((keys.filter fun key => strip key ≠ []).map (normal casing)).eraseDups

/-- Through a run of calls and all that leads to it, the pins are a list with no repeat and each
call does to it what it is to do. -/
structure Behaves (pins : List Pin) (commands : List Command) : Prop where
  distinct : ∀ count, (ordered casing (run (step casing) pins (commands.take count))).Nodup
  follows : ∀ count, ordered casing (run (step casing) pins (commands.take count)) =
    run (listStep casing) (ordered casing pins) (commands.take count)

/-- A choice is given in order: first of what is pinned, as it stands, then the new by name. -/
def InOrder (standing chosen : List Key) : Prop :=
  ∃ old new, chosen = old ++ new ∧ old.Sublist standing ∧ (∀ key ∈ new, key ∉ standing) ∧
    new.Pairwise (· < ·)

/-- The condition on a call. -/
def Arranged (pins : List Pin) : Command → Prop
  | .choose keys => InOrder (ordered casing pins)
      ((keys.filter fun key => strip key ≠ []).map (normal casing)).eraseDups
  | _ => True

/-- The keys of the table are one each, in the form the calls keep them in. -/
structure Kept (pins : List Pin) : Prop where
  distinct : (pins.map Pin.key).Nodup
  normal : ∀ pin ∈ pins, normal casing pin.key = pin.key

end Purpose

section Table

variable {casing : Casing} {pins : List Pin}

/-! ## The order of the table -/

theorem rank_injective : Function.Injective Pin.rank := by
  intro first second h
  have hpair := toLex.injective h
  rw [Prod.mk.injEq] at hpair
  cases first
  cases second
  simp_all

theorem listed_perm (pins : List Pin) : (listed pins).Perm pins := List.mergeSort_perm _ _

theorem listed_pairwise (pins : List Pin) :
    (listed pins).Pairwise fun first second => first.rank ≤ second.rank := by
  have hsorted : (listed pins).Pairwise fun first second =>
      decide (first.rank ≤ second.rank) = true := List.pairwise_mergeSort
    (fun first second third h h' => by simpa using le_trans (by simpa using h) (by simpa using h'))
    (fun first second => by simpa using le_total first.rank second.rank) pins
  simpa using hsorted

/-- The table's order is the only one. -/
theorem listed_eq {pins other : List Pin} (hperm : other.Perm pins)
    (hsorted : other.Pairwise fun first second => first.rank ≤ second.rank) :
    listed pins = other := by
  refine ((listed_perm pins).trans hperm.symm).eq_of_pairwise ?_ (listed_pairwise pins) hsorted
  intro first second _ _ hle hge
  exact rank_injective (le_antisymm hle hge)

theorem listed_filter (keeps : Pin → Bool) (pins : List Pin) :
    listed (pins.filter keeps) = (listed pins).filter keeps :=
  listed_eq ((listed_perm pins).filter keeps) ((listed_pairwise pins).filter keeps)

theorem rank_le_of_lt {first second : Pin} (h : first.position < second.position) :
    first.rank ≤ second.rank := (Prod.Lex.toLex_lt_toLex.mpr (.inl h)).le

theorem lt_nextPosition {pin : Pin} (h : pin ∈ pins) : pin.position < nextPosition pins := by
  rw [nextPosition]
  cases hmax : (pins.map Pin.position).max? with
  | none =>
      rw [List.max?_eq_none_iff, List.map_eq_nil_iff] at hmax
      simp [hmax] at h
  | some highest =>
      have hle := (List.max?_eq_some_iff.mp hmax).2 _ (List.mem_map_of_mem h)
      exact Int.lt_add_one_of_le hle

/-- Pins at later and later positions come after the rest, as they are. -/
theorem listed_append {new : List Pin}
    (hafter : ∀ pin ∈ new, nextPosition pins ≤ pin.position)
    (hnew : new.Pairwise fun first second => first.position < second.position) :
    listed (pins ++ new) = listed pins ++ new := by
  apply listed_eq ((listed_perm pins).append_right new)
  rw [List.pairwise_append]
  refine ⟨listed_pairwise pins, hnew.imp rank_le_of_lt, fun first hfirst second hsecond => ?_⟩
  apply rank_le_of_lt
  exact lt_of_lt_of_le (lt_nextPosition ((listed_perm pins).mem_iff.mp hfirst)) (hafter second hsecond)

/-! ## The keys -/

theorem normal_normal (key : Key) : normal casing (normal casing key) = normal casing key := by
  rw [normal, normal, strip_of_bare (casing.bare_lower (bare_strip key)), casing.lower_lower]

theorem lower_of_normal {key : Key} (h : normal casing key = key) : casing.lower key = key := by
  rw [← h, normal, casing.lower_lower]

theorem normal_ne_nil {key : Key} (h : strip key ≠ []) : normal casing key ≠ [] := by
  rw [normal, Casing.lower, Ne, casing.lowerFrom_eq_nil]
  exact h

theorem ordered_eq (h : Kept casing pins) : ordered casing pins = (listed pins).map Pin.key := by
  apply List.map_congr_left
  intro pin hpin
  exact lower_of_normal (h.normal pin ((listed_perm pins).mem_iff.mp hpin))

theorem ordered_perm (h : Kept casing pins) : (ordered casing pins).Perm (pins.map Pin.key) := by
  rw [ordered_eq h]
  exact (listed_perm pins).map Pin.key

theorem ordered_nodup (h : Kept casing pins) : (ordered casing pins).Nodup :=
  (ordered_perm h).nodup_iff.mpr h.distinct

theorem mem_ordered (h : Kept casing pins) {key : Key} :
    key ∈ ordered casing pins ↔ ∃ pin ∈ pins, pin.key = key := by
  rw [(ordered_perm h).mem_iff, List.mem_map]

theorem Kept.filter (h : Kept casing pins) (keeps : Pin → Bool) :
    Kept casing (pins.filter keeps) where
  distinct := h.distinct.sublist (List.filter_sublist.map _)
  normal pin hpin := h.normal pin (List.mem_of_mem_filter hpin)

theorem ordered_filter (h : Kept casing pins) (keeps : Key → Bool) :
    ordered casing (pins.filter fun pin => keeps pin.key) =
      (ordered casing pins).filter keeps := by
  rw [ordered_eq (h.filter _), listed_filter, ordered_eq h, List.filter_map]
  rfl

/-! ## Pinning -/

theorem any_key_iff (h : Kept casing pins) (key : Key) :
    (pins.any fun pin => pin.key == key) = true ↔ key ∈ ordered casing pins := by
  rw [List.any_eq_true, mem_ordered h]
  simp only [beq_iff_eq]

theorem toggle_step (h : Kept casing pins) {target : Key} (hblank : strip target ≠ []) :
    Kept casing (toggle casing pins target).1 ∧ ordered casing (toggle casing pins target).1 =
      if normal casing target ∈ ordered casing pins then
        (ordered casing pins).erase (normal casing target)
      else ordered casing pins ++ [normal casing target] := by
  rw [toggle, if_neg (normal_ne_nil hblank)]
  by_cases hpinned : normal casing target ∈ ordered casing pins
  · rw [if_pos ((any_key_iff h _).mpr hpinned), if_pos hpinned]
    refine ⟨h.filter _, ?_⟩
    rw [ordered_filter h fun key => key != normal casing target, (ordered_nodup h).erase_eq_filter]
  · rw [if_neg (mt (any_key_iff h _).mp hpinned), if_neg hpinned]
    have hkept : Kept casing (pins ++ [⟨normal casing target, nextPosition pins⟩]) := by
      constructor
      · rw [List.map_append, List.nodup_append]
        refine ⟨h.distinct, by simp, ?_⟩
        rintro key hkey other hother rfl
        obtain rfl := List.mem_singleton.mp hother
        exact hpinned ((ordered_perm h).mem_iff.mpr hkey)
      · intro pin hpin
        rcases List.mem_append.mp hpin with hmem | hnew
        · exact h.normal pin hmem
        · rw [List.mem_singleton.mp hnew, normal_normal]
    refine ⟨hkept, ?_⟩
    rw [ordered_eq hkept, listed_append (by simp) (by simp), List.map_append, ordered_eq h]
    rfl

/-! ## Moving -/

theorem rowOf_eq (h : Kept casing pins) {key : Key} (hkey : key ∈ ordered casing pins) :
    ∃ row, rowOf casing (listed pins) key = some row ∧ row.key = key := by
  obtain ⟨pin, hpin, rfl⟩ := (mem_ordered h).mp hkey
  have hsome : ((listed pins).reverse.find? fun row =>
      casing.lower row.key == pin.key).isSome = true := by
    rw [List.find?_isSome]
    refine ⟨pin, List.mem_reverse.mpr ((listed_perm pins).mem_iff.mpr hpin), ?_⟩
    rw [lower_of_normal (h.normal pin hpin), beq_self_eq_true]
  obtain ⟨row, hrow⟩ := Option.isSome_iff_exists.mp hsome
  refine ⟨row, hrow, ?_⟩
  have hmem : row ∈ pins :=
    (listed_perm pins).mem_iff.mp (List.mem_reverse.mp (List.mem_of_find?_eq_some hrow))
  have hlower := List.find?_some hrow
  rw [lower_of_normal (h.normal row hmem)] at hlower
  exact beq_iff_eq.mp hlower

/-- One pin, put where the last of its places says. -/
def placed (places : List (Key × Nat)) (pin : Pin) : Pin :=
  places.foldl (fun pin place => if pin.key = place.1 then { pin with position := place.2 } else pin)
    pin

theorem foldl_place (h : Kept casing pins) {places : List (Key × Nat)}
    (hplaces : ∀ place ∈ places, place.1 ∈ ordered casing pins) (others : List Pin) :
    places.foldl (place casing (listed pins)) others = others.map (placed places) := by
  induction places generalizing others with
  | nil => exact (List.map_id others).symm
  | cons first places ih =>
      obtain ⟨row, hrow, hkey⟩ := rowOf_eq h (hplaces first List.mem_cons_self)
      rw [List.foldl_cons, ih fun other hother => hplaces other (List.mem_cons_of_mem _ hother),
        place, hrow]
      dsimp only
      rw [List.map_map, hkey]
      rfl

theorem placed_of_not_mem {places : List (Key × Nat)} {pin : Pin}
    (h : pin.key ∉ places.map Prod.fst) : placed places pin = pin := by
  induction places with
  | nil => rfl
  | cons first places ih =>
      rw [List.map_cons, List.mem_cons, not_or] at h
      rw [placed, List.foldl_cons, if_neg h.1]
      exact ih h.2

theorem placed_eq {places : List (Key × Nat)} (hdistinct : (places.map Prod.fst).Nodup) {pin : Pin}
    {position : Nat} (h : (pin.key, position) ∈ places) :
    placed places pin = ⟨pin.key, position⟩ := by
  induction places generalizing pin with
  | nil => simp at h
  | cons first places ih =>
      obtain ⟨hfirst, hrest⟩ := List.nodup_cons.mp hdistinct
      rw [placed, List.foldl_cons]
      rcases List.mem_cons.mp h with rfl | hmem
      · rw [if_pos rfl]
        exact placed_of_not_mem hfirst
      · have hne : pin.key ≠ first.1 := by
          rintro heq
          exact hfirst (heq ▸ List.mem_map_of_mem (f := Prod.fst) hmem)
        rw [if_neg hne]
        exact ih hrest hmem

/-- Pins put in an order of their keys are listed in it. -/
theorem reorder_step (h : Kept casing pins) {keys : List Key}
    (hkeys : keys.Perm (ordered casing pins)) :
    Kept casing (reorder casing pins keys) ∧ ordered casing (reorder casing pins keys) = keys := by
  have hdistinct : keys.Nodup := hkeys.nodup_iff.mpr (ordered_nodup h)
  have hwanted : (keys.map (normal casing)).filter (fun key => key ∈ ordered casing pins) = keys := by
    have hnormal : keys.map (normal casing) = keys := by
      conv_rhs => rw [← List.map_id keys]
      apply List.map_congr_left
      intro key hkey
      obtain ⟨pin, hpin, rfl⟩ := (mem_ordered h).mp (hkeys.mem_iff.mp hkey)
      exact h.normal pin hpin
    rw [hnormal, List.filter_eq_self]
    intro key hkey
    exact decide_eq_true (hkeys.mem_iff.mp hkey)
  have hreorder : reorder casing pins keys =
      (pins.map Pin.key).map fun key => ⟨key, keys.idxOf key⟩ := by
    rw [reorder, hwanted, foldl_place h, List.map_map]
    · apply List.map_congr_left
      intro pin hpin
      have hmem : pin.key ∈ keys := hkeys.mem_iff.mpr ((mem_ordered h).mpr ⟨pin, hpin, rfl⟩)
      apply placed_eq
      · rw [List.zipIdx_map_fst]
        exact hdistinct
      · exact List.mem_zipIdx_iff_getElem?.mpr (List.getElem?_idxOf hmem)
    · intro place hplace
      exact hkeys.mem_iff.mp (List.mem_of_getElem? (List.mem_zipIdx_iff_getElem?.mp hplace))
  have hkept : Kept casing (reorder casing pins keys) := by
    rw [hreorder]
    constructor
    · rw [List.map_map]
      simpa [Function.comp_def] using h.distinct
    · intro pin hpin
      obtain ⟨key, hkey, rfl⟩ := List.mem_map.mp hpin
      obtain ⟨old, hold, rfl⟩ := List.mem_map.mp hkey
      exact h.normal old hold
  refine ⟨hkept, ?_⟩
  have hlisted : listed (reorder casing pins keys) = keys.map fun key => ⟨key, keys.idxOf key⟩ := by
    apply listed_eq
    · rw [hreorder]
      exact (hkeys.trans (ordered_perm h)).map _
    · rw [List.pairwise_map, List.pairwise_iff_getElem]
      intro first second hfirst hsecond hlt
      apply rank_le_of_lt
      dsimp only
      rw [hdistinct.idxOf_getElem _ hfirst, hdistinct.idxOf_getElem _ hsecond]
      exact Int.ofNat_lt.mpr hlt
  rw [ordered_eq hkept, hlisted, List.map_map]
  exact List.map_id keys

theorem exchange_perm (keys : List Key) (i j : Nat) : (exchange keys i j).Perm keys := by
  rw [exchange]
  split
  · next first second hfirst hsecond =>
      obtain ⟨hi, rfl⟩ := List.getElem?_eq_some_iff.mp hfirst
      obtain ⟨hj, rfl⟩ := List.getElem?_eq_some_iff.mp hsecond
      exact List.set_set_perm hi hj
  · exact List.Perm.refl keys

theorem move_step (h : Kept casing pins) (target : Key) (up : Bool) :
    Kept casing (move casing pins target (if up then -1 else 1)) ∧
      ordered casing (move casing pins target (if up then -1 else 1)) =
        if normal casing target ∉ ordered casing pins then ordered casing pins
        else if up then
          if (ordered casing pins).idxOf (normal casing target) = 0 then ordered casing pins
          else exchange (ordered casing pins) ((ordered casing pins).idxOf (normal casing target))
            ((ordered casing pins).idxOf (normal casing target) - 1)
        else if (ordered casing pins).idxOf (normal casing target) + 1 =
            (ordered casing pins).length then ordered casing pins
        else exchange (ordered casing pins) ((ordered casing pins).idxOf (normal casing target))
          ((ordered casing pins).idxOf (normal casing target) + 1) := by
  rw [move, if_pos (by cases up <;> simp)]
  dsimp only
  by_cases hpinned : normal casing target ∈ ordered casing pins
  · rw [if_pos hpinned, if_neg (not_not.mpr hpinned)]
    have hindex := List.idxOf_lt_length_of_mem hpinned
    revert hindex
    generalize (ordered casing pins).idxOf (normal casing target) = index
    intro hindex
    have hmoved := fun other => reorder_step h (exchange_perm (ordered casing pins) index other)
    cases up with
    | true =>
        by_cases hfirst : index = 0
        · rw [if_neg (by simp [hfirst]), if_pos rfl, if_pos hfirst]
          exact ⟨h, rfl⟩
        · have hswap : ((index : Int) + -1).toNat = index - 1 := by omega
          rw [if_pos rfl, if_pos rfl, if_neg hfirst, if_pos (by omega), hswap]
          exact hmoved (index - 1)
    | false =>
        by_cases hlast : index + 1 = (ordered casing pins).length
        · rw [if_neg (by simp; omega), if_neg Bool.false_ne_true, if_pos hlast]
          exact ⟨h, rfl⟩
        · have hswap : ((index : Int) + 1).toNat = index + 1 := by omega
          rw [if_neg Bool.false_ne_true, if_neg Bool.false_ne_true, if_neg hlast, if_pos (by omega),
            hswap]
          exact hmoved (index + 1)
  · rw [if_neg hpinned, if_pos hpinned]
    exact ⟨h, rfl⟩

/-! ## Choosing -/

theorem nodup_eraseDups (keys : List Key) : keys.eraseDups.Nodup := by
  induction hlength : keys.length using Nat.strong_induction_on generalizing keys with
  | _ length ih =>
      cases keys with
      | nil => simp
      | cons key keys =>
          rw [List.eraseDups_cons, List.nodup_cons]
          constructor
          · simp [List.mem_eraseDups]
          · refine ih _ ?_ _ rfl
            rw [← hlength, List.length_cons]
            exact Nat.lt_succ_of_le (List.length_filter_le _ _)

theorem byName_pairwise (keys : List Key) :
    (keys.mergeSort fun first second => first ≤ second).Pairwise (· ≤ ·) :=
  List.pairwise_mergeSort' (· ≤ ·) keys

/-- The new by name, one each, are in strict order. -/
theorem byName_lt {keys : List Key} (h : keys.Nodup) :
    (keys.mergeSort fun first second => first ≤ second).Pairwise (· < ·) := by
  have hdistinct : (keys.mergeSort fun first second => first ≤ second).Nodup :=
    (List.mergeSort_perm keys _).nodup_iff.mpr h
  exact (byName_pairwise keys).imp₂ (fun _ _ hle hne => lt_of_le_of_ne hle hne) hdistinct

/-- What a choice leaves: what stood and is chosen, then the new by name. -/
theorem replace_step (h : Kept casing pins) {keys chosen : List Key}
    (hchosen : chosen = ((keys.filter fun key => strip key ≠ []).map (normal casing)).eraseDups) :
    Kept casing (replace casing pins keys) ∧ ordered casing (replace casing pins keys) =
      (ordered casing pins).filter (fun key => key ∈ chosen) ++
        (chosen.filter fun key => key ∉ ordered casing pins).mergeSort fun first second =>
          first ≤ second := by
  obtain ⟨wanted, hwanted⟩ : ∃ wanted, wanted =
    (keys.filter fun key => strip key ≠ []).map (normal casing) := ⟨_, rfl⟩
  obtain ⟨kept, hkept⟩ : ∃ kept, kept = pins.filter fun pin => pin.key ∈ wanted := ⟨_, rfl⟩
  rw [← hwanted] at hchosen
  have hmem : ∀ key, key ∈ wanted ↔ key ∈ chosen := fun key => by
    rw [hchosen, List.mem_eraseDups]
  have hstays : Kept casing kept := hkept ▸ h.filter _
  have hstanding : ordered casing kept = (ordered casing pins).filter fun key => key ∈ chosen := by
    rw [hkept, ordered_filter h fun key => key ∈ wanted]
    exact List.filter_congr fun key _ => by simp only [hmem]
  have hfresh : wanted.eraseDups.filter (fun key => key ∉ ordered casing kept) =
      chosen.filter fun key => key ∉ ordered casing pins := by
    rw [← hchosen, hstanding]
    apply List.filter_congr
    intro key hkey
    simp [hkey]
  obtain ⟨fresh, hbyName⟩ : ∃ fresh, fresh = (chosen.filter fun key =>
    key ∉ ordered casing pins).mergeSort fun first second => first ≤ second := ⟨_, rfl⟩
  obtain ⟨new, hnew⟩ : ∃ new : List Pin, new = fresh.zipIdx.map fun placed =>
    ⟨placed.1, nextPosition kept + placed.2⟩ := ⟨_, rfl⟩
  have hreplace : replace casing pins keys = kept ++ new := by
    rw [replace, ← hwanted, ← hkept, hfresh, ← hbyName, ← hnew]
  have hnewKeys : new.map Pin.key = fresh := by
    rw [hnew, List.map_map]
    exact List.zipIdx_map_fst 0 fresh
  have hfreshMem : ∀ key ∈ fresh, key ∈ wanted ∧ key ∉ ordered casing pins := by
    intro key hkey
    rw [hbyName, List.mem_mergeSort, List.mem_filter] at hkey
    exact ⟨(hmem key).mpr hkey.1, by simpa using hkey.2⟩
  have hkeptNew : Kept casing (kept ++ new) := by
    constructor
    · rw [List.map_append, hnewKeys, List.nodup_append]
      refine ⟨hstays.distinct, ?_, ?_⟩
      · rw [hbyName, (List.mergeSort_perm _ _).nodup_iff, hchosen]
        exact (nodup_eraseDups wanted).filter _
      · rintro key hkey other hother rfl
        apply (hfreshMem key hother).2
        rw [(ordered_perm h).mem_iff]
        rw [hkept] at hkey
        exact (List.filter_sublist.map Pin.key).subset hkey
    · intro pin hpin
      rcases List.mem_append.mp hpin with hmem' | hmem'
      · exact hstays.normal pin hmem'
      · have hkey : pin.key ∈ fresh := hnewKeys ▸ List.mem_map_of_mem hmem'
        obtain ⟨source, -, hsource⟩ := List.mem_map.mp (hwanted ▸ (hfreshMem _ hkey).1)
        rw [← hsource, normal_normal]
  have hafter : ∀ pin ∈ new, nextPosition kept ≤ pin.position := by
    intro pin hpin
    rw [hnew] at hpin
    obtain ⟨place, -, rfl⟩ := List.mem_map.mp hpin
    dsimp only
    omega
  have hascending : new.Pairwise fun first second => first.position < second.position := by
    rw [hnew, List.pairwise_map, List.pairwise_iff_getElem]
    intro first second hfirst hsecond hlt
    simp only [List.getElem_zipIdx]
    omega
  rw [hreplace]
  refine ⟨hkeptNew, ?_⟩
  rw [ordered_eq hkeptNew, listed_append hafter hascending, List.map_append, ← ordered_eq hstays,
    hstanding, hnewKeys, hbyName]

/-- A choice is what is left exactly where it is given in order. -/
theorem left_eq_iff {standing chosen : List Key} (hstanding : standing.Nodup)
    (hchosen : chosen.Nodup) :
    standing.filter (fun key => key ∈ chosen) ++
        (chosen.filter fun key => key ∉ standing).mergeSort (fun first second => first ≤ second) =
      chosen ↔ InOrder standing chosen := by
  constructor
  · intro heq
    refine ⟨_, _, heq.symm, List.filter_sublist, fun key hkey => ?_, byName_lt (hchosen.filter _)⟩
    rw [List.mem_mergeSort] at hkey
    simpa using (List.mem_filter.mp hkey).2
  · rintro ⟨old, new, rfl, hold, hnew, hsorted⟩
    have hstands : ∀ key ∈ old, key ∈ standing := fun key hkey => hold.subset hkey
    have hleft : standing.filter (fun key => key ∈ old ++ new) = old := by
      have hperm : (standing.filter fun key => key ∈ old ++ new).Perm old := by
        rw [List.perm_ext_iff_of_nodup (hstanding.filter _) (hstanding.sublist hold)]
        intro key
        rw [List.mem_filter, decide_eq_true_eq, List.mem_append]
        exact ⟨fun ⟨hkey, hmem⟩ => hmem.resolve_right fun hlate => hnew key hlate hkey,
          fun hkey => ⟨hstands key hkey, .inl hkey⟩⟩
      have hsub : old.Sublist (standing.filter fun key => key ∈ old ++ new) := by
        have hfilter := hold.filter fun key => key ∈ old ++ new
        rwa [List.filter_eq_self.mpr (by simp +contextual)] at hfilter
      exact (hsub.eq_of_length hperm.length_eq.symm).symm
    have hright : (old ++ new).filter (fun key => key ∉ standing) = new := by
      rw [List.filter_append, List.filter_eq_nil_iff.mpr (by simpa using hstands),
        List.filter_eq_self.mpr (by simpa using hnew), List.nil_append]
    rw [hleft, hright, List.mergeSort_of_pairwise]
    exact hsorted.imp fun hlt => decide_eq_true hlt.le

/-! ## Every run -/

theorem step_law (pins : List Pin) (command : Command) (h : Kept casing pins) :
    Kept casing (step casing pins command) ∧
      (ordered casing (step casing pins command) = listStep casing (ordered casing pins) command ↔
        Arranged casing pins command) := by
  cases command with
  | pin key =>
      rw [step, listStep]
      by_cases hblank : strip key = []
      · rw [if_pos hblank, if_pos hblank]
        exact ⟨h, iff_of_true rfl trivial⟩
      · obtain ⟨hkept, hordered⟩ := toggle_step h hblank
        rw [if_neg hblank, if_neg hblank]
        exact ⟨hkept, iff_of_true hordered trivial⟩
  | move key up =>
      rw [step, listStep]
      by_cases hblank : strip key = []
      · rw [if_pos hblank, if_pos (.inl hblank)]
        exact ⟨h, iff_of_true rfl trivial⟩
      · obtain ⟨hkept, hordered⟩ := move_step h key up
        rw [if_neg hblank]
        simp only [hblank, false_or]
        exact ⟨hkept, iff_of_true hordered trivial⟩
  | choose keys =>
      obtain ⟨hkept, hordered⟩ := replace_step h rfl
      refine ⟨hkept, ?_⟩
      rw [step, hordered, listStep, Arranged]
      exact left_eq_iff (ordered_nodup h) (nodup_eraseDups _)

/-- Every run of calls behaves as the list exactly where each choice in it is given in order. -/
theorem run_behaves_iff (h : Kept casing pins) (commands : List Command) :
    Behaves casing pins commands ↔ Meets (step casing) (Arranged casing) pins commands := by
  rw [← run_follows_iff (Kept casing) (ordered casing) (listStep casing) step_law h]
  constructor
  · exact Behaves.follows
  · intro hfollows
    refine ⟨fun count => ordered_nodup ?_, hfollows⟩
    exact run_always (Kept casing) (fun pins command hkept => (step_law pins command hkept).1) h _

end Table

/-- With nothing pinned, a choice of `b` and then `a` leaves `a` first. -/
theorem not_behaves_backwards :
    ¬ Behaves .plain [] [.choose ["b".toList, "a".toList]] := by
  intro hbehaves
  have hkept : Kept .plain [] := ⟨by simp, by simp⟩
  have hfirst : ordered .plain (step .plain [] (.choose ["b".toList, "a".toList])) =
      listStep .plain (ordered .plain []) (.choose ["b".toList, "a".toList]) := hbehaves.follows 1
  obtain ⟨old, new, hchosen, hold, -, hsorted⟩ := (step_law [] _ hkept).2.mp hfirst
  obtain rfl : old = [] := List.sublist_nil.mp (by simpa [ordered, listed] using hold)
  have hboth : new = ["b".toList, "a".toList] := by
    rw [List.nil_append] at hchosen
    exact hchosen.symm.trans (by decide)
  rw [hboth] at hsorted
  exact absurd hsorted (by decide)

/-- One pinned and moved up, and all chosen as they stand with one more. -/
theorem run_behaves_iff_kept :
    Behaves .plain [⟨"b".toList, 0⟩] [.pin "A ".toList, .move "a".toList true,
        .choose ["a".toList, "b".toList, "c".toList]] ↔
      Meets (step .plain) (Arranged .plain) [⟨"b".toList, 0⟩] [.pin "A ".toList,
        .move "a".toList true, .choose ["a".toList, "b".toList, "c".toList]] :=
  run_behaves_iff ⟨by decide, by decide⟩ _

end SeverinoHQ.Pins
