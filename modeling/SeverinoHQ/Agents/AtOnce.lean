/-
# Calls and streams at once

Agents take slots and give them back in any order, some of them more than once. Whatever
they do, the counts say how many slots are out: the dictionaries tally the actors of the
slots held, the overall count is their number, and when every slot is back nothing is left.
-/

import SeverinoHQ.Agents.Limits
import SeverinoHQ.Math.Run
import SeverinoHQ.Math.Tally

namespace SeverinoHQ.Agents

open SeverinoHQ.Math

/-- The limits, every slot they gave, in the order they were taken, and the places in that list
whose slots agents have given back, however often and whatever became of it. -/
structure Calling where
  limits : Limits
  slots : List Slot
  returned : List Nat

/-- What an agent does next. -/
inductive Move where
  | occupy (actor : String)
  | listen (actor : String)
  /-- The slot at a place in the list is given back, for the first time or again. -/
  | release (index : Nat)
  deriving DecidableEq, Repr

namespace Calling

/-- Nobody calls. -/
def start : Calling := ⟨.start, [], []⟩

/-- What is out after an answer: a slot is one more, and a refusal none. -/
def taking (calling : Calling) : Limits × Except Limited Slot → Calling
  | (limits, .ok slot) => { calling with limits, slots := calling.slots ++ [slot] }
  | (limits, .error _) => { calling with limits }

/-- One move, which holds the lock from its first statement to its last. -/
def step (settings : Settings) (calling : Calling) : Move → Calling
  | .occupy actor => calling.taking (calling.limits.occupy settings actor)
  | .listen actor => calling.taking (calling.limits.listen settings actor)
  | .release index =>
      match calling.slots[index]? with
      | none => calling
      | some slot =>
          match calling.limits.release slot with
          | .ok (limits, given) | .error (limits, given) =>
              ⟨limits, calling.slots.set index given, index :: calling.returned⟩

/-- The actors of the slots that are held, calls or streams. -/
def holders (slots : List Slot) (stream : Bool) : Multiset String :=
  ((slots.filter fun slot => slot.held && slot.stream == stream).map Slot.actor : List String)

/-- How many slots were taken and not yet given back. -/
def out (calling : Calling) (stream : Bool) : Nat :=
  (calling.slots.zipIdx.filter fun (slot, index) =>
    index ∉ calling.returned && slot.stream == stream).length

/-- The counts are those of the slots that are out, and within the limits. -/
structure Balanced (settings : Settings) (calling : Calling) : Prop where
  overall_sum : calling.limits.overall = calling.limits.running.total
  overall_out : calling.limits.overall = calling.out false
  listening_out : calling.limits.listening.total = calling.out true
  overall_within : calling.limits.overall ≤ settings.callsAtOnceOverall
  running_within : ∀ item ∈ calling.limits.running.items, item.2 ≤ settings.callsAtOnce
  listening_within : ∀ item ∈ calling.limits.listening.items, item.2 ≤ settings.streamsAtOnce
  running_pos : ∀ item ∈ calling.limits.running.items, 0 < item.2
  listening_pos : ∀ item ∈ calling.limits.listening.items, 0 < item.2
  /-- Giving a slot back never raises. -/
  releases : ∀ slot ∈ calling.slots, ∃ given, calling.limits.release slot = .ok given
  empty : (∀ index < calling.slots.length, index ∈ calling.returned) → calling.limits.overall = 0 ∧
    calling.limits.running.items = [] ∧ calling.limits.listening.items = []

/-! ## What every move keeps -/

/-- The dictionaries tally who holds the slots, and a slot is held until it is given back. -/
structure Kept (settings : Settings) (calling : Calling) : Prop where
  held : ∀ index slot, calling.slots[index]? = some slot → (slot.held = true ↔ index ∉ calling.returned)
  taken : ∀ index ∈ calling.returned, index < calling.slots.length
  running : Tallies calling.limits.running (holders calling.slots false)
  listening : Tallies calling.limits.listening (holders calling.slots true)
  overall : calling.limits.overall = (holders calling.slots false).card
  overall_within : (holders calling.slots false).card ≤ settings.callsAtOnceOverall
  running_within : ∀ actor, (holders calling.slots false).count actor ≤ settings.callsAtOnce
  listening_within : ∀ actor, (holders calling.slots true).count actor ≤ settings.streamsAtOnce

section Holders

variable {slots : List Slot} {slot : Slot} {stream : Bool}

theorem holders_append_held (hheld : slot.held = true) :
    holders (slots ++ [slot]) stream =
      if slot.stream = stream then slot.actor ::ₘ holders slots stream else holders slots stream := by
  unfold holders
  by_cases hstream : slot.stream = stream
  · have hbag : (slot.actor ::ₘ ((slots.filter fun slot => slot.held && slot.stream == stream).map
        Slot.actor : List String) : Multiset String) = _ := Multiset.cons_coe _ _
    rw [if_pos hstream, hbag, Multiset.coe_eq_coe, List.filter_append, List.map_append]
    simp [hheld, hstream]
  · simp [hheld, hstream]

/-- A slot given back is one fewer of its actor's, and none fewer the second time. -/
theorem holders_set {index : Nat} (hslot : slots[index]? = some slot) :
    holders (slots.set index { slot with held := false }) stream =
      if slot.held = true ∧ slot.stream = stream then (holders slots stream).erase slot.actor
      else holders slots stream := by
  obtain ⟨hlt, hat⟩ := List.getElem?_eq_some_iff.mp hslot
  have hparts : slots = slots.take index ++ slot :: slots.drop (index + 1) := by
    rw [← hat, List.getElem_cons_drop, List.take_append_drop]
  have hset : slots.set index { slot with held := false } =
      slots.take index ++ { slot with held := false } :: slots.drop (index + 1) := by
    rw [List.set_eq_take_append_cons_drop, if_pos hlt]
  unfold holders
  rw [hset]
  generalize hfirst : slots.take index = first at *
  generalize hlast : slots.drop (index + 1) = last at *
  rw [hparts]
  by_cases hcounted : slot.held = true ∧ slot.stream = stream
  · rw [if_pos hcounted]
    have hbefore : (first ++ slot :: last).filter (fun slot => slot.held && slot.stream == stream) =
        first.filter (fun slot => slot.held && slot.stream == stream) ++
          slot :: last.filter (fun slot => slot.held && slot.stream == stream) := by
      simp [hcounted.1, hcounted.2]
    have hafter : (first ++ { slot with held := false } :: last).filter
        (fun slot => slot.held && slot.stream == stream) =
        first.filter (fun slot => slot.held && slot.stream == stream) ++
          last.filter (fun slot => slot.held && slot.stream == stream) := by
      simp
    rw [hbefore, hafter, List.map_append, List.map_append, List.map_cons,
      Multiset.coe_eq_coe.mpr List.perm_middle, ← Multiset.cons_coe, Multiset.erase_cons_head]
  · rw [if_neg hcounted]
    have hnot : (slot.held && slot.stream == stream) = false := by
      simpa using hcounted
    simp [hnot, List.filter_append]

theorem holders_append_other (hstream : slot.stream ≠ stream) :
    holders (slots ++ [slot]) stream = holders slots stream := by
  simp [holders, hstream]

theorem mem_holders (hmem : slot ∈ slots) (hheld : slot.held = true) :
    slot.actor ∈ holders slots slot.stream := by
  unfold holders
  rw [Multiset.mem_coe]
  exact List.mem_map_of_mem (List.mem_filter.mpr ⟨hmem, by simp [hheld]⟩)

end Holders

section Steps

variable {settings : Settings} {calling : Calling}

/-- A count lowered tallies one fewer. -/
theorem less_tallies {counts : Dict String Int} {bag : Multiset String} {actor : String}
    (h : Tallies counts bag) (hmem : actor ∈ bag) :
    ∃ fewer, Limits.less counts actor = some fewer ∧ Tallies fewer (bag.erase actor) := by
  have hcount : 0 < bag.count actor := Multiset.count_pos.mpr hmem
  have hget : counts.get? actor = some (bag.count actor : Int) := by
    rw [h actor, if_neg (by omega)]
  by_cases hlast : bag.count actor = 1
  · refine ⟨counts.keep fun entry => entry.1 ≠ actor, ?_, h.drop hlast⟩
    simp [Limits.less, hget, hlast]
  · refine ⟨_, ?_, h.fewer (by omega)⟩
    have hleft : ¬ (bag.count actor : Int) - 1 = 0 := by omega
    simp [Limits.less, hget, hleft]

theorem start_kept : start.Kept settings :=
  ⟨nofun, nofun, Tallies.empty, Tallies.empty, rfl, by simp [start, holders], by simp [start, holders],
    by simp [start, holders]⟩

/-- A slot just taken is held, and the others as they were. -/
theorem held_append (h : calling.Kept settings) {slot : Slot} (hheld : slot.held = true) :
    ∀ index other, (calling.slots ++ [slot])[index]? = some other →
      (other.held = true ↔ index ∉ calling.returned) := by
  intro index other hother
  rcases lt_or_ge index calling.slots.length with hlt | hge
  · exact h.held index other (by rwa [List.getElem?_append_left hlt] at hother)
  · rw [List.getElem?_append_right hge] at hother
    obtain rfl := List.mem_singleton.mp (List.mem_of_getElem? hother)
    exact iff_of_true hheld fun hmem => absurd (h.taken index hmem) (not_lt.mpr hge)

theorem taken_append (h : calling.Kept settings) (slot : Slot) :
    ∀ index ∈ calling.returned, index < (calling.slots ++ [slot]).length := by
  intro index hmem
  have hlt := h.taken index hmem
  rw [List.length_append]
  omega

/-- A slot given back is held no more, and the others as they were. -/
theorem held_set (h : calling.Kept settings) {place : Nat} {given : Slot} (hgiven : given.held = false) :
    ∀ index other, (calling.slots.set place given)[index]? = some other →
      (other.held = true ↔ index ∉ place :: calling.returned) := by
  intro index other hother
  rw [List.getElem?_set] at hother
  by_cases hplace : place = index
  · rw [if_pos hplace] at hother
    split_ifs at hother
    obtain rfl := Option.some.inj hother
    simp [hgiven, hplace]
  · rw [if_neg hplace] at hother
    rw [h.held index other hother, List.mem_cons, not_or]
    exact (and_iff_right (Ne.symm hplace)).symm

theorem taken_set (h : calling.Kept settings) {place : Nat} {slot given : Slot}
    (hslot : calling.slots[place]? = some slot) :
    ∀ index ∈ place :: calling.returned, index < (calling.slots.set place given).length := by
  intro index hmem
  rw [List.length_set]
  rcases List.mem_cons.mp hmem with rfl | hmem
  · exact (List.getElem?_eq_some_iff.mp hslot).1
  · exact h.taken index hmem

theorem occupy_kept (h : calling.Kept settings) (actor : String) :
    (calling.taking (calling.limits.occupy settings actor)).Kept settings := by
  unfold Limits.occupy
  dsimp only
  split_ifs with hoverall hrunning
  · exact h
  · exact h
  · rw [h.running.getD_eq] at hrunning
    rw [h.overall] at hoverall
    have hcalls : holders (calling.slots ++ [⟨actor, false, true⟩]) false =
        actor ::ₘ holders calling.slots false := by
      rw [holders_append_held rfl, if_pos rfl]
    have hstreams : holders (calling.slots ++ [⟨actor, false, true⟩]) true =
        holders calling.slots true := holders_append_other (by simp)
    have hmore := h.running.more actor
    constructor
    · exact held_append h rfl
    · exact taken_append h _
    · exact hcalls ▸ hmore
    · exact hstreams ▸ h.listening
    · simp [taking, hcalls, h.overall]
    · simp only [taking, hcalls, Multiset.card_cons]
      omega
    · intro other
      simp only [taking, hcalls, Multiset.count_cons]
      have hwithin := h.running_within other
      split_ifs with hother
      · subst hother
        omega
      · exact hwithin
    · simpa only [taking, hstreams] using h.listening_within

theorem listen_kept (h : calling.Kept settings) (actor : String) :
    (calling.taking (calling.limits.listen settings actor)).Kept settings := by
  unfold Limits.listen
  dsimp only
  split_ifs with hlistening
  · exact h
  · rw [h.listening.getD_eq] at hlistening
    have hcalls : holders (calling.slots ++ [⟨actor, true, true⟩]) false =
        holders calling.slots false := holders_append_other (by simp)
    have hstreams : holders (calling.slots ++ [⟨actor, true, true⟩]) true =
        actor ::ₘ holders calling.slots true := by
      rw [holders_append_held rfl, if_pos rfl]
    have hmore := h.listening.more actor
    constructor
    · exact held_append h rfl
    · exact taken_append h _
    · exact hcalls ▸ h.running
    · exact hstreams ▸ hmore
    · simpa only [taking, hcalls] using h.overall
    · simpa only [taking, hcalls] using h.overall_within
    · simpa only [taking, hcalls] using h.running_within
    · intro other
      simp only [taking, hstreams, Multiset.count_cons]
      have hwithin := h.listening_within other
      split_ifs with hother
      · subst hother
        omega
      · exact hwithin

/-- What is kept lets every slot be given back, the first time and again. -/
theorem release_kept (h : calling.Kept settings) {index : Nat} {slot : Slot}
    (hslot : calling.slots[index]? = some slot) :
    ∃ limits given, calling.limits.release slot = .ok (limits, given) ∧
      Kept settings ⟨limits, calling.slots.set index given, index :: calling.returned⟩ := by
  have hmem := List.mem_of_getElem? hslot
  have hgiven := @held_set settings calling h index { slot with held := false } rfl
  have htaken := @taken_set settings calling h index slot { slot with held := false } hslot
  have hset := fun stream => @holders_set calling.slots slot stream index hslot
  by_cases hheld : slot.held = true
  · have hholds := mem_holders hmem hheld
    have hcounts := fun actor => Multiset.count_le_of_le actor
      (Multiset.erase_le slot.actor (holders calling.slots slot.stream))
    by_cases hstream : slot.stream = true
    · rw [hstream] at hholds hcounts
      obtain ⟨fewer, hfewer, htallies⟩ := less_tallies h.listening hholds
      refine ⟨{ calling.limits with listening := fewer }, { slot with held := false },
        by simp [Limits.release, hheld, hstream, hfewer], ?_⟩
      have hcalls := hset false
      have hstreams := hset true
      rw [if_neg (by simp [hstream])] at hcalls
      rw [if_pos ⟨hheld, hstream⟩] at hstreams
      exact ⟨hgiven, htaken, hcalls ▸ h.running, hstreams ▸ htallies, hcalls ▸ h.overall, hcalls ▸ h.overall_within,
        hcalls ▸ h.running_within,
        fun actor => hstreams ▸ (hcounts actor).trans (h.listening_within actor)⟩
    · have hcall : slot.stream = false := by simpa using hstream
      rw [hcall] at hholds hcounts
      obtain ⟨fewer, hfewer, htallies⟩ := less_tallies h.running hholds
      refine ⟨{ calling.limits with running := fewer, overall := calling.limits.overall - 1 },
        { slot with held := false }, by simp [Limits.release, hheld, hcall, hfewer], ?_⟩
      have hcalls := hset false
      have hstreams := hset true
      rw [if_pos ⟨hheld, hcall⟩] at hcalls
      rw [if_neg (by simp [hcall])] at hstreams
      have hcard := Multiset.card_erase_add_one hholds
      have hoverall := h.overall
      have hwithin := h.overall_within
      refine ⟨hgiven, htaken, hcalls ▸ htallies, hstreams ▸ h.listening, ?_, ?_,
        fun actor => hcalls ▸ (hcounts actor).trans (h.running_within actor),
        hstreams ▸ h.listening_within⟩
      · simp only [hcalls]
        omega
      · simp only [hcalls]
        omega
  · refine ⟨calling.limits, { slot with held := false }, by simp [Limits.release, hheld], ?_⟩
    have hcalls := hset false
    have hstreams := hset true
    rw [if_neg (by simp [hheld])] at hcalls hstreams
    exact ⟨hgiven, htaken, hcalls ▸ h.running, hstreams ▸ h.listening, hcalls ▸ h.overall, hcalls ▸ h.overall_within,
      hcalls ▸ h.running_within, hstreams ▸ h.listening_within⟩

theorem step_kept (h : calling.Kept settings) (move : Move) :
    (calling.step settings move).Kept settings := by
  cases move with
  | occupy actor => exact occupy_kept h actor
  | listen actor => exact listen_kept h actor
  | release index =>
      unfold step
      dsimp only
      split
      · exact h
      · next slot hslot =>
          obtain ⟨limits, given, hreleased, hkept⟩ := release_kept h hslot
          rw [hreleased]
          exact hkept

/-- The slots that are held are those that are out. -/
theorem holders_card (h : calling.Kept settings) (stream : Bool) :
    (holders calling.slots stream).card = calling.out stream := by
  have hout : (calling.slots.zipIdx.filter fun (slot, index) =>
      index ∉ calling.returned && slot.stream == stream) =
      calling.slots.zipIdx.filter ((fun slot : Slot => slot.held && slot.stream == stream) ∘ Prod.fst) := by
    apply List.filter_congr
    rintro ⟨slot, index⟩ hmem
    have hheld := h.held index slot (List.mem_zipIdx_iff_getElem?.mp hmem)
    have hout : decide (index ∉ calling.returned) = slot.held :=
      Bool.eq_iff_iff.mpr (decide_eq_true_iff.trans hheld.symm)
    simp only [Function.comp, hout]
  rw [out, hout, ← List.length_map Prod.fst, ← List.filter_map, List.zipIdx_map_fst]
  simp [holders]

theorem balanced_of_kept (h : calling.Kept settings) : calling.Balanced settings := by
  have houtCalls := holders_card h false
  have houtStreams := holders_card h true
  constructor
  · rw [h.overall, h.running.total_eq]
  · rw [h.overall, houtCalls]
  · rw [h.listening.total_eq, houtStreams]
  · rw [h.overall]
    exact Int.ofNat_le.mpr h.overall_within
  · rintro ⟨actor, count⟩ hitem
    obtain ⟨-, rfl⟩ := h.running.mem_items_iff.mp hitem
    exact Int.ofNat_le.mpr (h.running_within actor)
  · rintro ⟨actor, count⟩ hitem
    obtain ⟨-, rfl⟩ := h.listening.mem_items_iff.mp hitem
    exact Int.ofNat_le.mpr (h.listening_within actor)
  · exact h.running.pos
  · exact h.listening.pos
  · intro slot hslot
    obtain ⟨index, hindex⟩ := List.mem_iff_getElem?.mp hslot
    obtain ⟨limits, given, hreleased, -⟩ := release_kept h hindex
    exact ⟨(limits, given), hreleased⟩
  · intro hback
    have hnone : ∀ stream, holders calling.slots stream = 0 := by
      intro stream
      have hfilter : (calling.slots.filter fun slot => slot.held && slot.stream == stream) = [] := by
        rw [List.filter_eq_nil_iff]
        intro slot hslot
        obtain ⟨index, hindex⟩ := List.mem_iff_getElem?.mp hslot
        have hreturned := hback index (List.getElem?_eq_some_iff.mp hindex).1
        have hheld : ¬slot.held = true := fun hheld => (h.held index slot hindex).mp hheld hreturned
        simp [hheld]
      simp [holders, hfilter]
    have hrunning := h.running
    have hlistening := h.listening
    have hoverall := h.overall
    rw [hnone] at hrunning hlistening hoverall
    exact ⟨by simpa using hoverall, hrunning.items_eq_nil, hlistening.items_eq_nil⟩

end Steps

end Calling

/-- In every interleaving of calls, streams and slots given back any number of times, the
counts are those of the slots that are out, and nothing is left of those given back. -/
theorem slots_balanced (settings : Settings) (moves : List Move) :
    (run (Calling.step settings) Calling.start moves).Balanced settings := by
  have hkept : (run (Calling.step settings) Calling.start moves).Kept settings :=
    run_always (fun calling : Calling => calling.Kept settings) (fun _ move h => Calling.step_kept h move)
      Calling.start_kept moves
  exact Calling.balanced_of_kept hkept

end SeverinoHQ.Agents
