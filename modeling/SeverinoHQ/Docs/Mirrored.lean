/-
# The items a manifest's records hang off

A turn adds its entry's record to the item its slug names, where the entry is a content entry that
is written. An item with a filled slug is a new one, so an item that was there gains the records
that are mirrored onto it and no others.
-/

import SeverinoHQ.Docs.Turns

namespace SeverinoHQ.Docs

open SeverinoHQ.Math

variable {ν : Type} {python : Runtime ν}

/-- The record a turn adds to the item of a slug, where these records are known. -/
def mirroredOf (python : Runtime ν) (updateExisting : Bool) (slug : Slug) (known : List String)
    (entry : Entry ν) : List String :=
  (manifestDocIds python [entry]).filter fun docId =>
    (updateExisting || docId ∉ known) && isContentEntry python entry &&
      match articleSlug entry with
      | .ok named => named == slug.val
      | .error _ => false

/-- The records the entries add to the item of a slug. -/
def mirroredOnto (python : Runtime ν) (updateExisting : Bool) (slug : Slug) :
    List String → List (Entry ν) → List String
  | _, [] => []
  | known, entry :: items => mirroredOf python updateExisting slug known entry ++
      mirroredOnto python updateExisting slug (manifestDocIds python [entry] ++ known) items

/-- Between two stores, records were added, and some of them to the items. -/
structure Added (named : List String) (mirrored : Slug → List String) (before after : Store) :
    Prop where
  docs : ∀ docId, (after.docs.get? docId).isSome ↔
    docId ∈ named ∨ (before.docs.get? docId).isSome
  old : ∀ slug item, before.items.get? slug = some item → ∃ item', after.items.get? slug = some item' ∧
    ∀ docId, docId ∈ item'.docs ↔ docId ∈ item.docs ∨ docId ∈ mirrored slug
  new : ∀ slug item, after.items.get? slug = some item → before.items.get? slug = none →
    ∀ docId ∈ item.docs, docId ∈ named

section Added

variable {first second : List String} {mirrored mirrored' : Slug → List String}
  {before middle after : Store}

/-- Nothing is added that was there. -/
theorem Added.refl (store : Store) (hnamed : ∀ docId ∈ first, (store.docs.get? docId).isSome)
    (hmirrored : ∀ slug, mirrored slug = []) : Added first mirrored store store where
  docs docId := ⟨Or.inr, fun h => h.elim (hnamed docId) id⟩
  old slug item hitem := ⟨item, hitem, fun docId => by simp [hmirrored]⟩
  new slug item hitem hnone := absurd (hitem.symm.trans hnone) nofun

theorem Added.trans (h : Added first mirrored before middle)
    (h' : Added second mirrored' middle after)
    (hmem : ∀ slug, ∀ docId ∈ mirrored' slug, docId ∈ second) :
    Added (first ++ second) (fun slug => mirrored slug ++ mirrored' slug) before after where
  docs docId := by
    rw [h'.docs, h.docs, List.mem_append]
    tauto
  old slug item hitem := by
    obtain ⟨item₁, hitem₁, hdocs₁⟩ := h.old slug item hitem
    obtain ⟨item₂, hitem₂, hdocs₂⟩ := h'.old slug item₁ hitem₁
    refine ⟨item₂, hitem₂, fun docId => ?_⟩
    rw [hdocs₂, hdocs₁, List.mem_append, or_assoc]
  new slug item hitem hnone docId hdoc := by
    rw [List.mem_append]
    cases hmiddle : middle.items.get? slug with
    | none => exact .inr (h'.new slug item hitem hmiddle docId hdoc)
    | some item₁ =>
        obtain ⟨item₂, hitem₂, hdocs₂⟩ := h'.old slug item₁ hmiddle
        obtain rfl := Option.some.inj (hitem.symm.trans hitem₂)
        rcases (hdocs₂ docId).mp hdoc with hold | hnew
        · exact .inl (h.new slug item₁ hmiddle hnone docId hold)
        · exact .inr (hmem slug docId hnew)

end Added

section Entries

variable {entry : Entry ν} {docId : String} {state after : State ν} {updateExisting : Bool}
  {known : List String}

theorem manifestDocIds_cons (entry : Entry ν) (items : List (Entry ν)) :
    manifestDocIds python (entry :: items) =
      manifestDocIds python [entry] ++ manifestDocIds python items := by
  show List.filterMap _ ([entry] ++ items) = _
  exact List.filterMap_append

theorem manifestDocIds_of_read (hread : python.stripped (get entry "doc_id") = .ok docId) :
    manifestDocIds python [entry] = if docId = "" then [] else [docId] := by
  rw [manifestDocIds, List.filterMap_cons, hread]
  dsimp only
  split
  · next hnone =>
      split at hnone
      · next hempty => rw [if_pos hempty, List.filterMap_nil]
      · exact nomatch hnone
  · next named hsome =>
      split at hsome
      · exact nomatch hsome
      · next hne =>
          cases hsome
          rw [if_neg hne, List.filterMap_nil]

theorem mem_mirroredOf {slug : Slug} (h : docId ∈ mirroredOf python updateExisting slug known entry) :
    docId ∈ manifestDocIds python [entry] :=
  List.mem_of_mem_filter h

theorem mem_mirroredOnto {slug : Slug} {items : List (Entry ν)}
    (h : docId ∈ mirroredOnto python updateExisting slug known items) :
    docId ∈ manifestDocIds python items := by
  induction items generalizing known with
  | nil => exact nomatch h
  | cons entry items ih =>
      rw [mirroredOnto, List.mem_append] at h
      rw [manifestDocIds_cons, List.mem_append]
      exact h.imp mem_mirroredOf ih

/-- What a turn that writes its entry adds. -/
theorem added_of_written {defaults : Fields (Document ν)} (h : Built python entry docId defaults)
    (hwritten : updateExisting = true ∨ docId ∉ known)
    (hturn : importTurn python true state entry = .ok after) :
    Added (manifestDocIds python [entry])
      (fun slug => mirroredOf python updateExisting slug known entry) state.store after.store := by
  obtain ⟨hframe, ⟨doc, himported⟩, hadded⟩ := importTurn_spec h hturn
  have hnamed : manifestDocIds python [entry] = [docId] := by
    rw [manifestDocIds_of_read h.read, if_neg h.named]
  have hdocs : ∀ other, (after.store.docs.get? other).isSome ↔
      other ∈ manifestDocIds python [entry] ∨ (state.store.docs.get? other).isSome := by
    intro other
    rw [hnamed, List.mem_singleton]
    by_cases hsame : other = docId
    · simp [hsame, himported.record]
    · rw [hframe.docs other hsame]
      simp [hsame]
  cases hcontent : isContentEntry python entry with
  | false =>
      have hitems : ∀ slug, after.store.items.get? slug = state.store.items.get? slug :=
        fun slug => hframe.items slug fun htouches => Bool.noConfusion (hcontent.symm.trans htouches.1)
      refine ⟨hdocs, ?_, ?_⟩
      · intro slug item hitem
        exact ⟨item, (hitems slug).trans hitem, fun other => by simp [mirroredOf, hcontent]⟩
      · intro slug item hitem hnone
        rw [hitems, hnone] at hitem
        cases hitem
  | true =>
      obtain ⟨named, slug, harticle, hslug⟩ := hadded hcontent
      obtain ⟨item, hitem, hitemDocs⟩ := hslug.item
      have hmirrored : ∀ other : Slug, mirroredOf python updateExisting other known entry =
          if named = other.val then [docId] else [] := by
        intro other
        by_cases hother : named = other.val
        · simpa [mirroredOf, hnamed, hcontent, harticle, hother] using hwritten
        · simp [mirroredOf, hnamed, hcontent, harticle, hother]
      have hnew : ∀ d, d ∈ item.docs ↔ d = docId ∨ d ∈ state.store.docsOf slug := by
        intro d
        rw [hitemDocs, Finset.mem_insert]
      refine ⟨hdocs, ?_, ?_⟩
      · intro other found hfound
        by_cases hother : other = slug
        · subst hother
          have hown : named = other.val := by
            by_cases hempty : named = ""
            · cases (hslug.fresh hempty).symm.trans hfound
            · exact (hslug.own hempty).symm
          refine ⟨item, hitem, fun d => ?_⟩
          rw [hnew, hmirrored, if_pos hown, List.mem_singleton, Store.docsOf, hfound]
          exact or_comm
        · have hown : named ≠ other.val := by
            intro heq
            have hne : named ≠ "" := fun hempty => other.property (heq.symm.trans hempty)
            exact hother (Subtype.ext (heq.symm.trans (hslug.own hne).symm))
          refine ⟨found, (hslug.others other hother).trans hfound, fun d => ?_⟩
          simp [hmirrored, hown]
      · intro other found hfound hnone d hd
        by_cases hother : other = slug
        · subst hother
          obtain rfl := Option.some.inj (hitem.symm.trans hfound)
          rw [hnew, Store.docsOf, hnone] at hd
          rw [hnamed, List.mem_singleton]
          simpa using hd
        · rw [hslug.others other hother, hnone] at hfound
          cases hfound

/-- What a turn adds. -/
theorem added_of_importTurn (hknown : ∀ docId, docId ∈ known ↔ (state.store.docs.get? docId).isSome)
    (hturn : importTurn python updateExisting state entry = .ok after) :
    Added (manifestDocIds python [entry])
      (fun slug => mirroredOf python updateExisting slug known entry) state.store after.store := by
  obtain ⟨docId, hread, hrest⟩ := exists_of_bind_eq_ok hturn
  have hnamed := manifestDocIds_of_read hread
  split at hrest
  · next hempty =>
      cases hrest
      rw [if_pos hempty] at hnamed
      apply Added.refl
      · simp [hnamed]
      · simp [mirroredOf, hnamed]
  · next hne =>
      rw [if_neg hne] at hnamed
      obtain ⟨defaults, hbuilt, hentry⟩ := exists_of_bind_eq_ok hrest
      split at hentry
      · next hskip =>
          cases hentry
          rw [Bool.and_eq_true, Bool.not_eq_true'] at hskip
          have hmem : docId ∈ known := (hknown docId).mpr hskip.1
          apply Added.refl
          · simpa [hnamed] using hskip.1
          · simp [mirroredOf, hnamed, hskip.2, hmem]
      · next hwrite =>
          apply added_of_written ⟨hread, hne, hbuilt⟩
          · by_contra hneither
            rw [not_or, not_not, hknown, Bool.not_eq_true] at hneither
            exact hwrite (by rw [hneither.1, hneither.2]; rfl)
          · have hskip : ((state.store.docs.get? docId).isSome && !true) = false :=
              Bool.and_false _
            simp only [importTurn, hread, importEntry, hbuilt, hskip, if_neg hne, bind, Except.bind]
            exact hentry

/-- What entries add, one after the other. -/
theorem added_of_foldlM {items : List (Entry ν)}
    (hknown : ∀ docId, docId ∈ known ↔ (state.store.docs.get? docId).isSome)
    (hrun : items.foldlM (importTurn python updateExisting) state = .ok after) :
    Added (manifestDocIds python items)
      (fun slug => mirroredOnto python updateExisting slug known items) state.store after.store := by
  induction items generalizing state known with
  | nil =>
      obtain rfl := Except.ok.inj hrun
      exact Added.refl _ (by simp [manifestDocIds]) fun _ => rfl
  | cons entry items ih =>
      rw [List.foldlM_cons] at hrun
      obtain ⟨middle, hmiddle, hrest⟩ := exists_of_bind_eq_ok hrun
      have hfirst := added_of_importTurn hknown hmiddle
      rw [manifestDocIds_cons]
      apply hfirst.trans (ih _ hrest)
      · exact fun slug docId => mem_mirroredOnto
      · intro docId
        rw [List.mem_append, hknown, hfirst.docs]

end Entries

end SeverinoHQ.Docs
