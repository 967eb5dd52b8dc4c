/-
# What pruning deletes

The orphans go, and with them the content items that hang off orphans alone. The query that finds
those joins an item to its orphan documents before it counts, so it finds every item with one.
-/

import SeverinoHQ.Docs.Mirrored

namespace SeverinoHQ.Docs

open SeverinoHQ.Math

variable {ν : Type}

/-! ## What it is to delete -/

/-- An item all of whose documents, of which there are some, are orphans. -/
def HangsOffOrphans (orphans : List String) (item : Item) : Prop :=
  item.docs.Nonempty ∧ ∀ docId ∈ item.docs, docId ∈ orphans

/-- Between two stores, the records that are not named went, and the items that hang off such
records alone. -/
structure Deletes (named : List String) (before after : Store) : Prop where
  docs : ∀ docId, (after.docs.get? docId).isSome ↔
    (before.docs.get? docId).isSome ∧ docId ∈ named
  items : ∀ slug, (after.items.get? slug).isSome ↔
    ∃ item, before.items.get? slug = some item ∧ ¬ HangsOffOrphans (orphansOf named before) item

/-- An import that prunes, where its entries raise nothing, deletes what it is to of the store they
leave. -/
def Prunes (python : Runtime ν) (items : List (Entry ν)) (updateExisting : Bool) (store : Store) :
    Prop :=
  ∀ state, importEntries python updateExisting items store = .ok state →
    ∃ final, importManifest python items updateExisting true store = .ok final ∧
      Deletes (manifestDocIds python items) state.store final.store

/-- No item is related both to an orphan and to a record that is named. -/
def Apart (named : List String) (store : Store) : Prop :=
  ∀ slug item, store.items.get? slug = some item →
    (∃ docId ∈ item.docs, docId ∈ orphansOf named store) →
      ∀ docId ∈ item.docs, docId ∈ orphansOf named store

/-- No item that is related to an orphan is related to a record that is named, or is one that an
entry is mirrored onto. -/
def Unshared (python : Runtime ν) (items : List (Entry ν)) (updateExisting : Bool) (store : Store) :
    Prop :=
  ∀ slug item, store.items.get? slug = some item →
    (∃ docId ∈ item.docs, docId ∈ orphansOf (manifestDocIds python items) store) →
      (∀ docId ∈ item.docs, docId ∈ orphansOf (manifestDocIds python items) store) ∧
        mirroredOnto python updateExisting slug store.docs.keys items = []

/-! ## What the query finds -/

section Reap

variable {named orphans : List String} {store : Store}

/-- The two counts are of the same rows. -/
theorem toPrune_iff (orphans : List String) (item : Item) :
    toPrune orphans item = true ↔ ∃ docId ∈ item.docs, docId ∈ orphans := by
  have hcount : (joined orphans item).filter (· ∈ orphans) = joined orphans item := by
    rw [joined, Finset.filter_filter]
    simp
  rw [toPrune, hcount, beq_self_eq_true, Bool.and_true, decide_eq_true_eq,
    ← Finset.nonempty_iff_ne_empty, joined, Finset.filter_nonempty_iff]

theorem mem_orphansOf (named : List String) (store : Store) (docId : String) :
    docId ∈ orphansOf named store ↔ (store.docs.get? docId).isSome ∧ docId ∉ named := by
  rw [orphansOf, List.mem_filter, decide_eq_true_eq, Dict.mem_keys_iff]

theorem lookup_map_snd {κ α β : Type} [DecidableEq κ] (f : α → β) (items : List (κ × α)) (key : κ) :
    (items.map fun entry => (entry.1, f entry.2)).lookup key = (items.lookup key).map f := by
  induction items with
  | nil => rfl
  | cons entry items ih =>
      obtain ⟨first, value⟩ := entry
      by_cases hkey : key = first
      · subst hkey
        rw [List.map_cons, List.lookup_cons_self, List.lookup_cons_self, Option.map_some]
      · rw [List.map_cons, Dict.lookup_cons_of_ne _ _ hkey, Dict.lookup_cons_of_ne _ _ hkey, ih]

theorem reapOrphans_docs (named : List String) (store : Store) (docId : String) :
    ((reapOrphans named true store).docs.get? docId).isSome ↔
      (store.docs.get? docId).isSome ∧ docId ∈ named := by
  rw [reapOrphans, Bool.true_and]
  split
  · rw [Dict.get?_keep]
    cases hdoc : store.docs.get? docId with
    | none => simp
    | some doc => simp [Option.filter, mem_orphansOf, hdoc]
  · next hempty =>
      have hnil : orphansOf named store = [] := by simpa using hempty
      constructor
      · intro hdoc
        refine ⟨hdoc, ?_⟩
        by_contra hnamed
        have horphan := (mem_orphansOf named store docId).mpr ⟨hdoc, hnamed⟩
        rw [hnil] at horphan
        cases horphan
      · exact And.left

theorem reapOrphans_items (named : List String) (store : Store) (slug : Slug) :
    ((reapOrphans named true store).items.get? slug).isSome ↔
      ∃ item, store.items.get? slug = some item ∧
        ¬ ∃ docId ∈ item.docs, docId ∈ orphansOf named store := by
  rw [reapOrphans, Bool.true_and]
  split
  · have hkeep := Dict.get?_keep store.items
      (fun entry => !toPrune (orphansOf named store) entry.2) slug
    have hmap := lookup_map_snd (Item.without (orphansOf named store))
      (store.items.keep fun entry => !toPrune (orphansOf named store) entry.2).items slug
    rw [Dict.get?] at hkeep ⊢
    dsimp only
    rw [hmap, Option.isSome_map, hkeep]
    cases store.items.get? slug with
    | none => simp
    | some item =>
        simp [Option.filter, ← toPrune_iff]
  · next hempty =>
      have hnil : orphansOf named store = [] := by simpa using hempty
      rw [hnil, Option.isSome_iff_exists]
      simp

/-- What the reaping deletes is what it is to, exactly when no item is shared. -/
theorem deletes_reapOrphans_iff (named : List String) (store : Store) :
    Deletes named store (reapOrphans named true store) ↔ Apart named store := by
  constructor
  · rintro hdeletes slug item hitem hsome
    have hgone := (hdeletes.items slug).mpr.mt
    rw [reapOrphans_items] at hgone
    by_contra hall
    apply hgone
    · rintro ⟨other, hother, hnone⟩
      rw [hitem, Option.some.injEq] at hother
      exact hnone (hother ▸ hsome)
    · exact ⟨item, hitem, fun hangs => hall hangs.2⟩
  · intro hapart
    constructor
    · exact reapOrphans_docs _ store
    · intro slug
      rw [reapOrphans_items]
      apply exists_congr
      intro item
      apply and_congr_right
      intro hitem
      apply not_congr
      constructor
      · intro hsome
        obtain ⟨docId, hdoc, -⟩ := id hsome
        exact ⟨⟨docId, hdoc⟩, hapart slug item hitem hsome⟩
      · rintro ⟨⟨docId, hdoc⟩, hall⟩
        exact ⟨docId, hdoc, hall docId hdoc⟩

end Reap

/-- An import that prunes is one of its entries, and a reaping. -/
theorem importManifest_eq {python : Runtime ν} {items : List (Entry ν)} {updateExisting : Bool}
    {store : Store} {state : State ν}
    (h : importEntries python updateExisting items store = .ok state) (prune : Bool) :
    importManifest python items updateExisting prune store = .ok { state with
      store := reapOrphans (manifestDocIds python items) prune state.store } := by
  rw [importManifest, h]
  rfl

/-- The items that the entries leave are apart exactly when those that were there are. -/
theorem apart_iff {python : Runtime ν} {items : List (Entry ν)} {updateExisting : Bool}
    {store : Store} {state : State ν}
    (h : importEntries python updateExisting items store = .ok state) :
    Apart (manifestDocIds python items) state.store ↔
      Unshared python items updateExisting store := by
  have hadded := added_of_foldlM (fun docId => Dict.mem_keys_iff) h
  have horphan : ∀ docId, docId ∈ orphansOf (manifestDocIds python items) state.store ↔
      docId ∈ orphansOf (manifestDocIds python items) store := by
    intro docId
    rw [mem_orphansOf, mem_orphansOf, hadded.docs]
    simp only [State.start]
    tauto
  have hnamed : ∀ docId ∈ orphansOf (manifestDocIds python items) store,
      docId ∉ manifestDocIds python items := fun docId hmem =>
    ((mem_orphansOf _ store docId).mp hmem).2
  constructor
  · rintro hapart slug item hitem ⟨docId, hdoc, hin⟩
    obtain ⟨item', hitem', hdocs⟩ := hadded.old slug item hitem
    have hall := hapart slug item' hitem'
      ⟨docId, (hdocs docId).mpr (.inl hdoc), (horphan docId).mpr hin⟩
    constructor
    · intro other hother
      exact (horphan other).mp (hall other ((hdocs other).mpr (.inl hother)))
    · apply List.eq_nil_iff_forall_not_mem.mpr
      intro other hother
      have horphaned := hall other ((hdocs other).mpr (.inr hother))
      exact hnamed other ((horphan other).mp horphaned) (mem_mirroredOnto hother)
  · rintro hunshared slug item' hitem' ⟨docId, hdoc, hin⟩ other hother
    have hunnamed := hnamed docId ((horphan docId).mp hin)
    cases hitem : store.items.get? slug with
    | none => exact absurd (hadded.new slug item' hitem' hitem docId hdoc) hunnamed
    | some item =>
        obtain ⟨found, hfound, hdocs⟩ := hadded.old slug item hitem
        obtain rfl := Option.some.inj (hitem'.symm.trans hfound)
        have hold := ((hdocs docId).mp hdoc).resolve_right fun hmirrored =>
          hunnamed (mem_mirroredOnto hmirrored)
        obtain ⟨hall, hnil⟩ := hunshared slug item hitem ⟨docId, hold, (horphan docId).mp hin⟩
        rcases (hdocs other).mp hother with hkept | hmirrored
        · exact (horphan other).mpr (hall other hkept)
        · dsimp only [State.start] at hmirrored
          rw [hnil] at hmirrored
          cases hmirrored

/-- Pruning deletes what it is to exactly when no item that is related to an orphan is related to a
record that is named, or is one that an entry is mirrored onto. -/
theorem prunes_iff (python : Runtime ν) (items : List (Entry ν)) (updateExisting : Bool)
    (store : Store) :
    Prunes python items updateExisting store ↔
      ((∃ state, importEntries python updateExisting items store = .ok state) →
        Unshared python items updateExisting store) := by
  rw [forall_exists_index]
  apply forall_congr'
  intro state
  apply forall_congr'
  intro hstate
  rw [importManifest_eq hstate, ← apart_iff hstate, ← deletes_reapOrphans_iff]
  constructor
  · rintro ⟨final, hfinal, hdeletes⟩
    cases hfinal
    exact hdeletes
  · intro hdeletes
    exact ⟨_, rfl, hdeletes⟩

/-! ## A shared item -/

/-- A runbook's entry. -/
def keptEntry : Entry Nat :=
  [("doc_id", .str "rb-kept"), ("title", .str "Kept"), ("doc_type", .str "runbook"),
    ("system", .str "nas"), ("environment", .str "homelab"), ("status", .str "active"),
    ("sensitivity", .str "internal")]

def keptDoc : Doc where
  fields := ⟨"Kept", "runbook", "nas", "homelab", "active", "internal", "", "", "", none, none, ""⟩
  related _ := ∅

def sharedItem : Item where
  fields := ⟨"Shared", "guide", "published", "", "", "", none⟩
  docs := {"rb-kept", "rb-old"}
  related _ := ∅

/-- Two runbooks, and an item that hangs off both. -/
def sharedStore : Store where
  docs := ⟨[("rb-kept", keptDoc), ("rb-old", keptDoc)], by decide⟩
  items := ⟨[(⟨"shared", by decide⟩, sharedItem)], by decide⟩
  projects := ⟨[], List.nodup_nil⟩
  assets := []

/-- The item is deleted with the one record, though the other is named. -/
theorem not_prunes_shared : ¬ Prunes naturals [keptEntry] true sharedStore := by
  intro hprunes
  have hentries : importEntries naturals true [keptEntry] sharedStore =
      .ok ⟨sharedStore, ⟨0, 0, 1, [], 0, 0⟩, []⟩ := rfl
  obtain ⟨final, hfinal, hdeletes⟩ := hprunes _ hentries
  rw [importManifest_eq hentries] at hfinal
  cases hfinal
  have hapart := (deletes_reapOrphans_iff _ _).mp hdeletes
  have hnamed : manifestDocIds naturals [keptEntry] = ["rb-kept"] := rfl
  have horphan : "rb-old" ∈ orphansOf ["rb-kept"] sharedStore := by decide
  have hkept : "rb-kept" ∉ orphansOf ["rb-kept"] sharedStore := by decide
  rw [hnamed] at hapart
  exact hkept (hapart ⟨"shared", by decide⟩ sharedItem rfl ⟨"rb-old", by decide, horphan⟩
    "rb-kept" (by decide))

end SeverinoHQ.Docs
