/-
# What a derivation in progress is told

A derivation's answer goes with an expiry and with the tables its process keys it
on. `Covers` says that these two take in what the answer rests on. The invariant
of this module carries that from every answer to whoever asks: a derivation in
progress covers what it has used, and what was loaded while it ran.

One thing escapes it. A read that a projection remembers is not read again, so a
derivation that uses one loaded before it began is told nothing of it. `Tells`
excludes that, and two more: an expiry that Python orders by the wall clock
otherwise than in time, and a cached answer that read a table the process does
not key it on.
-/

import SeverinoHQ.Derivations.Evidence

namespace SeverinoHQ.Derivations

open SeverinoHQ.Math

variable {V : Type}

/-! ## Covering -/

/-- There is an expiry, and it is no later than the moment. -/
def NoLater (zone : Zone) (expires : Option Aware) (moment : Aware) : Prop :=
  ∃ current ∈ expires, current.instant zone ≤ moment.instant zone

instance (zone : Zone) (expires : Option Aware) (moment : Aware) :
    Decidable (NoLater zone expires moment) :=
  inferInstanceAs (Decidable (∃ current ∈ expires, _))

theorem NoLater.refl (zone : Zone) (moment : Aware) : NoLater zone (some moment) moment :=
  ⟨moment, rfl, le_refl _⟩

theorem NoLater.trans {zone : Zone} {expires other : Option Aware} {moment : Aware}
    (h : ∀ current ∈ other, NoLater zone expires current) (hother : NoLater zone other moment) :
    NoLater zone expires moment := by
  obtain ⟨current, hcurrent, hle⟩ := hother
  obtain ⟨earlier, hearlier, hle'⟩ := h current hcurrent
  exact ⟨earlier, hearlier, hle'.trans hle⟩

/-- An expiry and tables take an item in. -/
def Item.coveredBy (env : Environment V) (expires : Option Aware) (tables : List String) :
    Item V → Prop
  | .read table _ _ => table ∈ tables
  | .asked question clock =>
      ∀ moment ∈ question.boundary env.zone clock, NoLater env.zone expires moment
  | .expiry moment => NoLater env.zone expires moment

instance (env : Environment V) (expires : Option Aware) (tables : List String) :
    (item : Item V) → Decidable (item.coveredBy env expires tables)
  | .read table _ _ => inferInstanceAs (Decidable (table ∈ tables))
  | .asked question clock =>
      inferInstanceAs (Decidable (∀ moment ∈ question.boundary env.zone clock, _))
  | .expiry moment => inferInstanceAs (Decidable (NoLater env.zone expires moment))

/-- Rows that were read. -/
def Item.isRead : Item V → Bool
  | .read _ _ _ => true
  | _ => false

/-- Every item that matters is taken in. -/
def Covers (env : Environment V) (matters : Item V → Bool) (expires : Option Aware)
    (tables : List String) (items : List (Item V)) : Prop :=
  ∀ item ∈ items, matters item = true → item.coveredBy env expires tables

instance (env : Environment V) (matters : Item V → Bool) (expires : Option Aware)
    (tables : List String) (items : List (Item V)) :
    Decidable (Covers env matters expires tables items) :=
  inferInstanceAs (Decidable (∀ item ∈ items, _))

section Covers

variable {env : Environment V} {matters : Item V → Bool} {expires later : Option Aware}
  {tables fewer : List String} {items other : List (Item V)}

theorem covers_nil : Covers env matters expires tables [] :=
  fun _ hitem => by cases hitem

theorem covers_append : Covers env matters expires tables (items ++ other) ↔
    Covers env matters expires tables items ∧ Covers env matters expires tables other := by
  simp only [Covers, List.mem_append, or_imp, forall_and]

theorem covers_expiryItems : Covers env matters expires tables (expiryItems expires) := by
  intro item hitem _
  cases expires with
  | none => cases hitem
  | some moment =>
      obtain rfl := List.mem_singleton.mp hitem
      exact NoLater.refl _ _

/-- An earlier expiry and more tables cover as much. -/
theorem Covers.mono (h : Covers env matters later fewer items)
    (hexpires : ∀ moment ∈ later, NoLater env.zone expires moment) (htables : fewer ⊆ tables) :
    Covers env matters expires tables items := by
  intro item hitem hmatters
  have hcovered := h item hitem hmatters
  cases item with
  | read table _ _ => exact htables hcovered
  | asked question clock =>
      exact fun moment hmoment => NoLater.trans hexpires (hcovered moment hmoment)
  | expiry moment => exact NoLater.trans hexpires hcovered

theorem Covers.mono_tables (h : Covers env matters expires fewer items) (htables : fewer ⊆ tables) :
    Covers env matters expires tables items :=
  h.mono (fun moment hmoment => ⟨moment, hmoment, le_refl _⟩) htables

/-- Reads apart, covering is the expiry's. -/
theorem Covers.expiring (h : Covers env matters expires tables items) :
    Covers env (fun item => matters item && !item.isRead) expires [] items := by
  intro item hitem hmatters
  rw [Bool.and_eq_true] at hmatters
  have hcovered := h item hitem hmatters.1
  cases item with
  | read _ _ _ => simp [Item.isRead] at hmatters
  | asked _ _ => exact hcovered
  | expiry _ => exact hcovered

/-- And with the reads it is whole again. -/
theorem Covers.withReads
    (h : Covers env (fun item => matters item && !item.isRead) expires [] items)
    (hreads : Covers env (fun item => matters item && item.isRead) later tables items) :
    Covers env matters expires tables items := by
  intro item hitem hmatters
  cases item with
  | read _ _ _ => exact hreads _ hitem (by simp [hmatters, Item.isRead])
  | asked _ _ => exact h _ hitem (by simp [hmatters, Item.isRead])
  | expiry _ => exact h _ hitem (by simp [hmatters, Item.isRead])

end Covers

/-! ## Frames -/

/-- What a frame will be answered with covers the items. -/
def Frame.covers (env : Environment V) (matters : Item V → Bool) (frame : Frame V)
    (items : List (Item V)) : Prop :=
  Covers env matters frame.expires (frame.tables ++ frame.undeclared) items

instance (env : Environment V) (matters : Item V → Bool) (frame : Frame V)
    (items : List (Item V)) : Decidable (frame.covers env matters items) :=
  inferInstanceAs (Decidable (Covers _ _ _ _ _))

/-- The frame's expiry and the moment it is told are in the order of time, as
Python compares them. -/
def Frame.Takes (zone : Zone) (frame : Frame V) (moment : Aware) : Prop :=
  ∀ current ∈ frame.expires,
    moment.before zone current = decide (moment.instant zone < current.instant zone)

instance (zone : Zone) (frame : Frame V) (moment : Aware) : Decidable (frame.Takes zone moment) :=
  inferInstanceAs (Decidable (∀ current ∈ frame.expires, _))

section Frame

variable {env : Environment V} {matters : Item V → Bool} {frame : Frame V}
  {items : List (Item V)}

theorem Frame.holdUntil_noLater {zone : Zone} {moment : Aware} (htakes : frame.Takes zone moment) :
    NoLater zone (frame.holdUntil zone moment).expires moment ∧
      ∀ current ∈ frame.expires, NoLater zone (frame.holdUntil zone moment).expires current := by
  unfold Frame.holdUntil
  split
  · next hnone =>
    refine ⟨NoLater.refl _ _, fun current hcurrent => ?_⟩
    rw [hnone] at hcurrent
    cases hcurrent
  · next current hcurrent =>
    have horder := htakes current hcurrent
    rw [hcurrent]
    split
    · next hbefore =>
      rw [hbefore] at horder
      refine ⟨NoLater.refl _ _, ?_⟩
      rintro _ ⟨⟩
      exact ⟨moment, rfl, (of_decide_eq_true horder.symm).le⟩
    · next hbefore =>
      rw [Bool.not_eq_true] at hbefore
      rw [hbefore] at horder
      refine ⟨⟨current, hcurrent, le_of_not_gt (of_decide_eq_false horder.symm)⟩, ?_⟩
      rintro _ ⟨⟩
      exact ⟨current, hcurrent, le_refl _⟩

theorem Frame.holdUntil?_undeclared (zone : Zone) (moment : Option Aware) (frame : Frame V) :
    (frame.holdUntil? zone moment).undeclared = frame.undeclared := by
  unfold Frame.holdUntil? Frame.holdUntil
  split
  · split
    · rfl
    · split <;> rfl
  · rfl

theorem Frame.holdUntil?_noLater {zone : Zone} {moment : Option Aware}
    (htakes : ∀ told ∈ moment, frame.Takes zone told) :
    (∀ told ∈ moment, NoLater zone (frame.holdUntil? zone moment).expires told) ∧
      ∀ current ∈ frame.expires,
        NoLater zone (frame.holdUntil? zone moment).expires current := by
  cases moment with
  | none => exact ⟨fun _ htold => (by cases htold), fun current hcurrent =>
      ⟨current, hcurrent, le_refl _⟩⟩
  | some told =>
      obtain ⟨htold, hkept⟩ := Frame.holdUntil_noLater (htakes told rfl)
      exact ⟨fun _ hmem => Option.some.inj hmem ▸ htold, hkept⟩

/-- What a frame covered it covers when it is held until a moment. -/
theorem Frame.covers.holdUntil? {moment : Option Aware} (h : frame.covers env matters items)
    (htakes : ∀ told ∈ moment, frame.Takes env.zone told) :
    (frame.holdUntil? env.zone moment).covers env matters items := by
  apply h.mono (Frame.holdUntil?_noLater htakes).2
  rw [(frame.holdUntil?_sameCall _ _).tables, Frame.holdUntil?_undeclared]
  exact List.Subset.refl _

theorem Frame.told_expires (zone : Zone) (tables : List String) (moment : Option Aware)
    (frame : Frame V) :
    (frame.told zone tables moment).expires = (frame.holdUntil? zone moment).expires := by
  cases moment with
  | none => rfl
  | some moment =>
      simp only [Frame.told, Frame.holdUntil?, Frame.holdUntil]
      split
      · rfl
      · split <;> rfl

theorem Frame.told_undeclared (zone : Zone) (tables : List String) (moment : Option Aware)
    (frame : Frame V) : (frame.told zone tables moment).undeclared =
      frame.undeclared ++ tables.filter (· ∉ frame.tables) := by
  rw [Frame.told, Frame.holdUntil?_undeclared]

/-- Reading more than it declared takes nothing from what a frame covers. -/
theorem subset_undeclared (declared before more : List String) :
    declared ++ before ⊆ declared ++ (before ++ more) := by
  rw [← List.append_assoc]
  exact List.subset_append_left _ _

/-- What a frame covered it covers when it is told more. -/
theorem Frame.covers.told {tables : List String} {moment : Option Aware}
    (h : frame.covers env matters items) (htakes : ∀ told ∈ moment, frame.Takes env.zone told) :
    (frame.told env.zone tables moment).covers env matters items := by
  unfold Frame.covers
  rw [Frame.told_expires, Frame.told_undeclared, (Frame.told_sameCall _ _ _ _).tables]
  exact h.mono (Frame.holdUntil?_noLater htakes).2 (subset_undeclared _ _ _)

/-- A frame that is told of an answer covers what the answer covers. -/
theorem Frame.covers_of_told {tables : List String} {moment : Option Aware}
    (htakes : ∀ told ∈ moment, frame.Takes env.zone told)
    (h : Covers env matters moment tables items) :
    (frame.told env.zone tables moment).covers env matters items := by
  unfold Frame.covers
  rw [Frame.told_expires, Frame.told_undeclared, (Frame.told_sameCall _ _ _ _).tables]
  apply h.mono (Frame.holdUntil?_noLater htakes).1
  intro table htable
  by_cases hdeclared : table ∈ frame.tables
  · exact List.mem_append_left _ hdeclared
  · apply List.mem_append_right
    apply List.mem_append_right
    simp [htable, hdeclared]

theorem Frame.covers.note (h : frame.covers env matters items) (table : String) :
    (frame.note table).covers env matters items := by
  unfold Frame.note
  split
  · exact h
  · exact Covers.mono_tables h (subset_undeclared _ _ _)

theorem Frame.covers_of_note (table : String) (revision : Nat) (rows : V) :
    (frame.note table).covers env matters [.read table revision rows] := by
  intro item hitem _
  obtain rfl := List.mem_singleton.mp hitem
  show table ∈ (frame.note table).tables ++ (frame.note table).undeclared
  unfold Frame.note
  split
  · next hdeclared => exact List.mem_append_left _ hdeclared
  · exact List.mem_append_right _ (List.mem_append_right _ List.mem_cons_self)

end Frame

/-! ## Stacks -/

@[simp]
theorem frame?_amend (change : Frame V → Frame V) (stack : List (Activation V)) :
    frame? (amend change stack) = (frame? stack).map change := by
  induction stack with
  | nil => rfl
  | cons activation rest ih =>
      cases activation with
      | loading _ _ _ => exact ih
      | block _ _ => exact ih
      | computing _ => rfl

@[simp]
theorem frame?_note (table : String) (stack : List (Activation V)) :
    frame? (note table stack) = (frame? stack).map (Frame.note table) := by
  induction stack with
  | nil => rfl
  | cons activation rest ih =>
      cases activation with
      | loading _ _ _ => exact ih
      | block _ _ => exact ih
      | computing _ => rfl

section Stack

variable (env : Environment V) (matters : Item V → Bool) (known : String → List String)

/-- Every derivation in progress covers what it has used, what is being loaded for
it, and what was remembered since it began and before the one it asked did. -/
def Covered (memos : List (MemoName × Memo V)) : Nat → List (Activation V) → Prop
  | _, [] => True
  | before, .loading _ _ evidence :: rest =>
      (∀ frame ∈ frame? rest, frame.covers env matters evidence) ∧ Covered memos before rest
  | before, .block _ _ :: rest => Covered memos before rest
  | before, .computing frame :: rest =>
      frame.started < before ∧ frame.tables ⊆ known frame.derivation ∧
        frame.covers env matters frame.evidence ∧
        (∀ name memo, (.read name, memo) ∈ memos → frame.started ≤ memo.loaded →
          memo.loaded < before → frame.covers env matters memo.evidence) ∧
        Covered memos frame.started rest

variable {env matters known} {memos more : List (MemoName × Memo V)} {before later : Nat}
  {stack : List (Activation V)}

theorem Covered.collect {items : List (Item V)} (h : Covered env matters known memos before stack)
    (hitems : ∀ frame ∈ frame? stack, frame.covers env matters items) :
    Covered env matters known memos before (collect items stack) := by
  induction stack with
  | nil => trivial
  | cons activation rest ih =>
      cases activation with
      | loading name resume evidence =>
          exact ⟨fun frame hframe =>
            covers_append.mpr ⟨h.1 frame hframe, hitems frame hframe⟩, h.2⟩
      | block saved resume => exact ih h hitems
      | computing frame =>
          obtain ⟨hstarted, htables, hevidence, hmemos, hrest⟩ := h
          exact ⟨hstarted, htables, covers_append.mpr ⟨hevidence, hitems frame rfl⟩, hmemos, hrest⟩

/-- A frame told of more still covers what it did. -/
theorem Covered.computing_told {frame told : Frame V} {rest : List (Activation V)}
    (h : Covered env matters known memos before (.computing frame :: rest))
    (hsame : told.SameCall frame)
    (hcovers : ∀ items, frame.covers env matters items → told.covers env matters items) :
    Covered env matters known memos before (.computing told :: rest) := by
  obtain ⟨hstarted, htables, hevidence, hmemos, hrest⟩ := h
  refine ⟨?_, ?_, ?_, ?_, ?_⟩
  · rwa [hsame.started]
  · rwa [hsame.tables, hsame.derivation]
  · rw [hsame.evidence]
    exact hcovers _ hevidence
  · intro name memo hmemo hloaded hbefore
    rw [hsame.started] at hloaded
    exact hcovers _ (hmemos name memo hmemo hloaded hbefore)
  · rwa [hsame.started]

theorem Covered.amend {change : Frame V → Frame V}
    (h : Covered env matters known memos before stack)
    (hchange : ∀ frame ∈ frame? stack, (change frame).SameCall frame ∧
      ∀ items, frame.covers env matters items → (change frame).covers env matters items) :
    Covered env matters known memos before (amend change stack) := by
  induction stack with
  | nil => trivial
  | cons activation rest ih =>
      cases activation with
      | loading name resume evidence =>
          refine ⟨fun frame hframe => ?_, ih h.2 hchange⟩
          rw [frame?_amend, Option.mem_def, Option.map_eq_some_iff] at hframe
          obtain ⟨frame, hframe, rfl⟩ := hframe
          exact (hchange frame hframe).2 _ (h.1 frame hframe)
      | block saved resume => exact ih h hchange
      | computing frame => exact h.computing_told (hchange frame rfl).1 (hchange frame rfl).2

theorem Covered.note (table : String) (h : Covered env matters known memos before stack) :
    Covered env matters known memos before (note table stack) := by
  induction stack generalizing before with
  | nil => trivial
  | cons activation rest ih =>
      cases activation with
      | loading name resume evidence =>
          refine ⟨fun frame hframe => ?_, ih h.2⟩
          rw [frame?_note, Option.mem_def, Option.map_eq_some_iff] at hframe
          obtain ⟨frame, hframe, rfl⟩ := hframe
          exact (h.1 frame hframe).note table
      | block saved resume => exact ih h
      | computing frame =>
          obtain ⟨hstarted, htables, hevidence, hmemos, hrest⟩ := h
          exact Covered.computing_told ⟨hstarted, htables, hevidence, hmemos, ih hrest⟩
            (frame.note_sameCall table) fun items hitems => hitems.note table

/-- What is remembered later is nothing to a derivation that has asked another. -/
theorem Covered.congr (h : Covered env matters known memos before stack)
    (hmore : ∀ name memo, (.read name, memo) ∈ more → memo.loaded < before →
      (.read name, memo) ∈ memos) :
    Covered env matters known more before stack := by
  induction stack generalizing before with
  | nil => trivial
  | cons activation rest ih =>
      cases activation with
      | loading name resume evidence => exact ⟨h.1, ih h.2 hmore⟩
      | block saved resume => exact ih h hmore
      | computing frame =>
          obtain ⟨hstarted, htables, hevidence, hmemos, hrest⟩ := h
          refine ⟨hstarted, htables, hevidence, ?_, ih hrest ?_⟩
          · intro name memo hmemo hloaded hbefore
            exact hmemos name memo (hmore name memo hmemo hbefore) hloaded hbefore
          · intro name memo hmemo hbefore
            exact hmore name memo hmemo (hbefore.trans hstarted)

/-- What was remembered meanwhile is covered by the derivation in progress. -/
theorem Covered.raise (h : Covered env matters known memos before stack) (hle : before ≤ later)
    (hmore : ∀ name memo, (.read name, memo) ∈ more →
      (.read name, memo) ∈ memos ∧ memo.loaded < before ∨
        before ≤ memo.loaded ∧ ∀ frame ∈ frame? stack, frame.covers env matters memo.evidence) :
    Covered env matters known more later stack := by
  induction stack with
  | nil => trivial
  | cons activation rest ih =>
      cases activation with
      | loading name resume evidence => exact ⟨h.1, ih h.2 hmore⟩
      | block saved resume => exact ih h hmore
      | computing frame =>
          obtain ⟨hstarted, htables, hevidence, hmemos, hrest⟩ := h
          refine ⟨hstarted.trans_le hle, htables, hevidence, ?_, hrest.congr ?_⟩
          · intro name memo hmemo hloaded _
            rcases hmore name memo hmemo with ⟨hmem, hbefore⟩ | ⟨-, hcovers⟩
            · exact hmemos name memo hmem hloaded hbefore
            · exact hcovers frame rfl
          · intro name memo hmemo hbefore
            rcases hmore name memo hmemo with ⟨hmem, -⟩ | ⟨hlate, -⟩
            · exact hmem
            · omega

/-- The derivation in progress covers what was remembered since it began. -/
theorem Covered.covers_loaded (h : Covered env matters known memos before stack) {frame : Frame V}
    (hframe : frame ∈ frame? stack) {name : String} {memo : Memo V}
    (hmemo : (.read name, memo) ∈ memos) (hloaded : frame.started ≤ memo.loaded)
    (hbefore : memo.loaded < before) : frame.covers env matters memo.evidence := by
  induction stack with
  | nil => cases hframe
  | cons activation rest ih =>
      cases activation with
      | loading _ _ _ => exact ih h.2 hframe
      | block _ _ => exact ih h hframe
      | computing inner =>
          obtain rfl := Option.some.inj hframe
          obtain ⟨-, -, -, hmemos, -⟩ := h
          exact hmemos name memo hmemo hloaded hbefore

theorem Covered.learned {further : String → List String}
    (h : Covered env matters known memos before stack)
    (hfurther : ∀ derivation, known derivation ⊆ further derivation) :
    Covered env matters further memos before stack := by
  induction stack generalizing before with
  | nil => trivial
  | cons activation rest ih =>
      cases activation with
      | loading name resume evidence => exact ⟨h.1, ih h.2⟩
      | block saved resume => exact ih h
      | computing frame =>
          obtain ⟨hstarted, htables, hevidence, hmemos, hrest⟩ := h
          exact ⟨hstarted, List.Subset.trans htables (hfurther _), hevidence, hmemos, ih hrest⟩

end Stack

end SeverinoHQ.Derivations
