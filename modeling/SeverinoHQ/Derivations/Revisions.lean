/-
# Keys and the rows behind them

A key is made of revisions read in one statement, before the computation it is
for, so what the computation reads itself is no older than its key. The
invariant of this module carries that to what is stored. Three things can come
between: a remembered value that was read before the revisions were, a second key
made outside a projection after a table it read was written, and a key that
another set of tables gives the same counts. `Current` excludes them.
-/

import SeverinoHQ.Derivations.Answers

namespace SeverinoHQ.Derivations

open SeverinoHQ.Math

variable {V : Type}

/-! ## Rows no older than a key -/

/-- Rows that were read are no older than the revisions. -/
def Item.notBefore (floor : String → Nat) : Item V → Prop
  | .read table revision _ => floor table ≤ revision
  | _ => True

instance (floor : String → Nat) : (item : Item V) → Decidable (item.notBefore floor)
  | .read table revision _ => inferInstanceAs (Decidable (floor table ≤ revision))
  | .asked _ _ | .expiry _ => inferInstanceAs (Decidable True)

/-- Nothing read is older than the revisions. -/
def Fresh (floor : String → Nat) (items : List (Item V)) : Prop :=
  ∀ item ∈ items, item.notBefore floor

instance (floor : String → Nat) (items : List (Item V)) : Decidable (Fresh floor items) :=
  inferInstanceAs (Decidable (∀ item ∈ items, _))

/-- A read of one of the tables. -/
def Item.isOf (tables : List String) : Item V → Bool
  | .read table _ _ => decide (table ∈ tables)
  | _ => false

/-- Nothing read of the tables of a key is older than the key. -/
def FreshUnder (keyed : Keyed) (items : List (Item V)) : Prop :=
  Fresh keyed.revisions (items.filter (Item.isOf keyed.tables))

instance (keyed : Keyed) (items : List (Item V)) : Decidable (FreshUnder keyed items) :=
  inferInstanceAs (Decidable (Fresh _ _))

section Fresh

variable {floor lower : String → Nat} {items other : List (Item V)}

theorem fresh_nil : Fresh floor ([] : List (Item V)) := fun _ hitem => by cases hitem

theorem fresh_append : Fresh floor (items ++ other) ↔ Fresh floor items ∧ Fresh floor other := by
  simp only [Fresh, List.mem_append, or_imp, forall_and]

theorem fresh_expiryItems (expires : Option Aware) :
    Fresh floor (expiryItems expires : List (Item V)) := by
  intro item hitem
  cases expires with
  | none => cases hitem
  | some moment =>
      obtain rfl := List.mem_singleton.mp hitem
      trivial

theorem Fresh.mono (h : Fresh floor items) (hle : lower ≤ floor) : Fresh lower items := by
  intro item hitem
  have hfloor := h item hitem
  cases item with
  | read table _ _ => exact (hle table).trans hfloor
  | asked _ _ => trivial
  | expiry _ => trivial

theorem Fresh.under {keyed : Keyed} (h : Fresh keyed.revisions items) : FreshUnder keyed items :=
  fun item hitem => h item (List.mem_filter.mp hitem).1

/-- Keys of the same tables and counts are of the same age. -/
theorem FreshUnder.of_counts {keyed asked : Keyed} (h : FreshUnder keyed items)
    (htables : keyed.tables = asked.tables) (hcounts : keyed.counts = asked.counts) :
    FreshUnder asked items := by
  unfold Keyed.counts at hcounts
  rw [htables, List.map_inj_left] at hcounts
  intro item hitem
  have hkeyed := h item (by rwa [htables])
  cases item with
  | asked _ _ => trivial
  | expiry _ => trivial
  | read table revision _ =>
      have htable : table ∈ asked.tables := by simpa [Item.isOf] using (List.mem_filter.mp hitem).2
      have hkeyed : keyed.revisions table ≤ revision := hkeyed
      show asked.revisions table ≤ revision
      rwa [← hcounts table htable]

/-- What is fresh under a key and fresh apart from its tables is fresh. -/
theorem FreshUnder.fresh {keyed : Keyed} (h : FreshUnder keyed items) (hle : floor ≤ keyed.revisions)
    (hrest : Fresh floor (items.filter fun item => !item.isOf keyed.tables)) :
    Fresh floor items := by
  intro item hitem
  by_cases hof : item.isOf keyed.tables = true
  · exact Fresh.mono h hle item (List.mem_filter.mpr ⟨hitem, hof⟩)
  · exact hrest item (List.mem_filter.mpr ⟨hitem, by simpa using hof⟩)

end Fresh

/-! ## The condition -/

/-- The revisions of the keys in progress. -/
def floors : List (Activation V) → List (String → Nat)
  | [] => []
  | .computing frame :: rest => (frame.keyed.map Keyed.revisions).toList ++ floors rest
  | _ :: rest => floors rest

/-- The remembered value a thread is about to use. -/
def Thread.remembered? (thread : Thread V) : Option (Memo V) :=
  match thread.code with
  | .run (.once name _) => thread.scope.bind fun scope => scope.find? (.read name)
  | .run (.ask derivation variant _) =>
      thread.scope.bind fun scope => scope.find? (.answer derivation variant)
  | _ => none

/-- The key a thread is about to look for. -/
def Thread.keyed? (thread : Thread V) : Option Keyed :=
  match thread.code with
  | .lookup _ _ _ keyed _ => keyed
  | _ => none

/-- The answer a thread is about to key again. -/
def Thread.rekeys? (thread : Thread V) : Option (Result V) :=
  match thread.code with
  | .rekey result => some result
  | _ => none

/-- A step after which nothing is under a key it is older than. -/
structure World.Current (env : Environment V) (world : World V) (thread : Thread V)
    (choice : Choice) : Prop where
  /-- A remembered value is no older than the keys of the derivations in progress. -/
  recalls : ∀ memo ∈ thread.remembered?, ∀ floor ∈ floors thread.stack, Fresh floor memo.evidence
  /-- A cached answer was keyed on the tables it is asked for by, and what it read
  beside them is no older than the keys of the derivations in progress. -/
  serves : ∀ entry ∈ world.served? env thread choice, ∀ keyed ∈ thread.keyed?,
    entry.keyed.tables = keyed.tables ∧ ∀ floor ∈ floors thread.stack,
      Fresh floor (entry.evidence.filter fun item => !item.isOf keyed.tables)
  /-- What is keyed again outside a projection was not written since it was read. -/
  rekeys : ∀ result ∈ thread.rekeys?, thread.scope.isNone = true →
    FreshUnder ⟨world.tables env thread.process result.derivation, world.revision⟩ result.evidence

instance (env : Environment V) (world : World V) (thread : Thread V) (choice : Choice) :
    Decidable (world.Current env thread choice) :=
  decidable_of_iff
    ((∀ memo ∈ thread.remembered?, ∀ floor ∈ floors thread.stack, Fresh floor memo.evidence) ∧
      (∀ entry ∈ world.served? env thread choice, ∀ keyed ∈ thread.keyed?,
        entry.keyed.tables = keyed.tables ∧ ∀ floor ∈ floors thread.stack,
          Fresh floor (entry.evidence.filter fun item => !item.isOf keyed.tables)) ∧
      ∀ result ∈ thread.rekeys?, thread.scope.isNone = true →
        FreshUnder ⟨world.tables env thread.process result.derivation, world.revision⟩
          result.evidence)
    ⟨fun h => ⟨h.1, h.2.1, h.2.2⟩, fun h => ⟨h.recalls, h.serves, h.rekeys⟩⟩

/-- The condition, of an event. -/
def Current (env : Environment V) (world : World V) : Event V → Prop
  | .advance id choice => ∀ thread ∈ world.threads id, world.Current env thread choice
  | _ => True

instance (env : Environment V) (world : World V) :
    (event : Event V) → Decidable (Current env world event)
  | .advance id _ => inferInstanceAs (Decidable (∀ thread ∈ world.threads id, _))
  | .tick _ | .commit _ | .request _ _ _ | .raise _ | .evict _ => inferInstanceAs (Decidable True)

/-! ## The invariant -/

/-- The revisions a projection has read are no older than the keys in progress. -/
def ScopeFresh (now : String → Nat) (scope : Option (Scope V)) (stack : List (Activation V)) :
    Prop :=
  ∀ current ∈ scope, ∀ found, current.revisions = some (some found) →
    found ≤ now ∧ ∀ floor ∈ floors stack, floor ≤ found

/-- A key is made of the revisions the projection has read. -/
def Keyed.In (keyed : Keyed) (scope : Option (Scope V)) : Prop :=
  ∀ current ∈ scope, current.revisions = some (some keyed.revisions)

/-- Keys in progress are no older than the ones around them, and nothing collected
is older than a key in progress at or below it. -/
def StackFresh (now : String → Nat) : Option (Scope V) → List (Activation V) → Prop
  | _, [] => True
  | scope, .loading _ _ evidence :: rest =>
      (∀ floor ∈ floors rest, Fresh floor evidence) ∧ StackFresh now scope rest
  | scope, .block saved _ :: rest =>
      ScopeFresh now (saved.getD scope) rest ∧ StackFresh now (saved.getD scope) rest
  | scope, .computing frame :: rest =>
      (∀ keyed ∈ frame.keyed, Fresh keyed.revisions frame.evidence ∧ keyed.In scope ∧
        ∀ floor ∈ floors rest, floor ≤ keyed.revisions) ∧
      (∀ floor ∈ floors rest, Fresh floor frame.evidence) ∧ StackFresh now scope rest

/-- What holds of a statement of `_answer`. -/
def Code.Fresh (now : String → Nat) (scope : Option (Scope V)) (stack : List (Activation V)) :
    Code V → Prop
  | .run _ | .key _ _ _ _ => True
  | .lookup _ _ _ keyed _ => ∀ under ∈ keyed, under.revisions ≤ now ∧ under.In scope ∧
      ∀ floor ∈ floors stack, floor ≤ under.revisions
  | .rekey result => (∃ under ∈ result.keyed, Derivations.Fresh under.revisions result.evidence ∧
      under.In scope) ∧ ∀ floor ∈ floors stack, Derivations.Fresh floor result.evidence
  | .keep result => (∀ under ∈ result.keyed, FreshUnder under result.evidence) ∧
      ∀ floor ∈ floors stack, Derivations.Fresh floor result.evidence

/-- A thread has nothing under a key it is older than. -/
structure Thread.Fresh (now : String → Nat) (thread : Thread V) : Prop where
  stack : StackFresh now thread.scope thread.stack
  scope : ScopeFresh now thread.scope thread.stack
  floors : ∀ floor ∈ floors thread.stack, floor ≤ now
  code : thread.code.Fresh now thread.scope thread.stack

/-- Nothing in hand, stored or served is under a key it is older than. -/
structure World.Fresh (world : World V) : Prop where
  threads : ∀ id thread, world.threads id = some thread → thread.Fresh world.revision
  cache : ∀ entry ∈ world.cache, FreshUnder entry.keyed entry.evidence
  hits : ∀ hit ∈ world.hits, FreshUnder hit.keyed hit.evidence

/-! ## Stacks -/

@[simp]
theorem floors_collect (items : List (Item V)) (stack : List (Activation V)) :
    floors (collect items stack) = floors stack := by
  induction stack with
  | nil => rfl
  | cons activation rest ih =>
      cases activation with
      | loading _ _ _ => rfl
      | block _ _ => exact ih
      | computing _ => rfl

theorem floors_amend {change : Frame V → Frame V} (hchange : ∀ frame, (change frame).SameCall frame)
    (stack : List (Activation V)) : floors (amend change stack) = floors stack := by
  induction stack with
  | nil => rfl
  | cons activation rest ih =>
      cases activation with
      | loading _ _ _ => exact ih
      | block _ _ => exact ih
      | computing frame => simp only [amend, floors, (hchange frame).keyed]

@[simp]
theorem floors_note (table : String) (stack : List (Activation V)) :
    floors (note table stack) = floors stack := by
  induction stack with
  | nil => rfl
  | cons activation rest ih =>
      cases activation with
      | loading _ _ _ => exact ih
      | block _ _ => exact ih
      | computing frame => simp only [note, floors, (frame.note_sameCall table).keyed, ih]

section Stack

variable {now later : String → Nat} {scope other : Option (Scope V)} {stack rest : List (Activation V)}

theorem ScopeFresh.mono (h : ScopeFresh now scope stack) (hle : now ≤ later) :
    ScopeFresh later scope stack :=
  fun current hcurrent found hfound =>
    ⟨(h current hcurrent found hfound).1.trans hle, (h current hcurrent found hfound).2⟩

theorem ScopeFresh.of_floors (h : ScopeFresh now scope stack) (hfloors : floors rest ⊆ floors stack) :
    ScopeFresh now scope rest :=
  fun current hcurrent found hfound => ⟨(h current hcurrent found hfound).1,
    fun floor hfloor => (h current hcurrent found hfound).2 floor (hfloors hfloor)⟩

theorem StackFresh.mono (h : StackFresh now scope stack) (hle : now ≤ later) :
    StackFresh later scope stack := by
  induction stack generalizing scope with
  | nil => trivial
  | cons activation rest ih =>
      cases activation with
      | loading _ _ _ => exact ⟨h.1, ih h.2⟩
      | block _ _ => exact ⟨h.1.mono hle, ih h.2⟩
      | computing _ => exact ⟨h.1, h.2.1, ih h.2.2⟩

theorem StackFresh.collect {items : List (Item V)} (h : StackFresh now scope stack)
    (hitems : ∀ floor ∈ floors stack, Fresh floor items) :
    StackFresh now scope (collect items stack) := by
  induction stack generalizing scope with
  | nil => trivial
  | cons activation rest ih =>
      cases activation with
      | loading name resume evidence =>
          exact ⟨fun floor hfloor =>
            fresh_append.mpr ⟨h.1 floor hfloor, hitems floor hfloor⟩, h.2⟩
      | block saved resume =>
          exact ⟨h.1.of_floors (by simp), ih h.2 hitems⟩
      | computing frame =>
          obtain ⟨hkeyed, hevidence, hrest⟩ := h
          refine ⟨fun keyed hmem => ?_, fun floor hfloor => ?_, hrest⟩
          · obtain ⟨hfresh, hin, hfloors⟩ := hkeyed keyed hmem
            have hfloor := hitems keyed.revisions
              (List.mem_append_left _ (by simpa using ⟨keyed, hmem, rfl⟩))
            exact ⟨fresh_append.mpr ⟨hfresh, hfloor⟩, hin, hfloors⟩
          · exact fresh_append.mpr
              ⟨hevidence floor hfloor, hitems floor (List.mem_append_right _ hfloor)⟩

theorem StackFresh.computing_congr {frame told : Frame V} (hsame : told.SameCall frame)
    (h : StackFresh now scope (.computing frame :: rest)) :
    StackFresh now scope (.computing told :: rest) := by
  simpa only [StackFresh, hsame.keyed, hsame.evidence] using h

theorem StackFresh.amend {change : Frame V → Frame V}
    (hchange : ∀ frame, (change frame).SameCall frame) (h : StackFresh now scope stack) :
    StackFresh now scope (amend change stack) := by
  induction stack generalizing scope with
  | nil => trivial
  | cons activation rest ih =>
      cases activation with
      | loading _ _ _ => exact ⟨by simpa only [floors_amend hchange] using h.1, ih h.2⟩
      | block _ _ => exact ⟨h.1.of_floors (by rw [floors_amend hchange]; exact .refl _), ih h.2⟩
      | computing frame => exact h.computing_congr (hchange frame)

theorem StackFresh.note (table : String) (h : StackFresh now scope stack) :
    StackFresh now scope (note table stack) := by
  induction stack generalizing scope with
  | nil => trivial
  | cons activation rest ih =>
      cases activation with
      | loading _ _ _ => exact ⟨by simpa using h.1, ih h.2⟩
      | block _ _ => exact ⟨h.1.of_floors (by simp), ih h.2⟩
      | computing frame =>
          apply StackFresh.computing_congr (frame.note_sameCall table)
          exact ⟨by simpa using h.1, by simpa using h.2.1, ih h.2.2⟩

/-- The projection may read its revisions, if it had not, and remember more. -/
theorem StackFresh.of_scope (h : StackFresh now scope stack) (hfresh : ScopeFresh now other stack)
    (hscope : ∀ next ∈ other, ∃ current ∈ scope,
      current.revisions ≠ none → next.revisions = current.revisions) :
    StackFresh now other stack := by
  induction stack with
  | nil => trivial
  | cons activation rest ih =>
      cases activation with
      | loading _ _ _ => exact ⟨h.1, ih h.2 hfresh⟩
      | block saved _ =>
          cases saved with
          | none => exact ⟨hfresh, ih h.2 hfresh⟩
          | some saved => exact h
      | computing frame =>
          obtain ⟨hkeyed, hevidence, hrest⟩ := h
          refine ⟨fun keyed hmem => ?_, hevidence, ih hrest (hfresh.of_floors ?_)⟩
          · obtain ⟨hevidence, hin, hfloors⟩ := hkeyed keyed hmem
            refine ⟨hevidence, fun next hnext => ?_, hfloors⟩
            obtain ⟨current, hcurrent, hsame⟩ := hscope next hnext
            have hfound := hin current hcurrent
            rw [hsame (by simp [hfound]), hfound]
          · exact List.subset_append_right _ _

theorem ScopeFresh.store (h : ScopeFresh now scope stack) (name : MemoName) (memo : Memo V) :
    ScopeFresh now (scope.map (Scope.store name memo)) stack := by
  intro next hnext found hfound
  rw [Option.mem_def, Option.map_eq_some_iff] at hnext
  obtain ⟨current, hcurrent, rfl⟩ := hnext
  exact h current hcurrent found hfound

theorem StackFresh.store (h : StackFresh now scope stack) (hscope : ScopeFresh now scope stack)
    (name : MemoName) (memo : Memo V) :
    StackFresh now (scope.map (Scope.store name memo)) stack := by
  apply h.of_scope (hscope.store name memo)
  intro next hnext
  rw [Option.mem_def, Option.map_eq_some_iff] at hnext
  obtain ⟨current, hcurrent, rfl⟩ := hnext
  exact ⟨current, hcurrent, fun _ => rfl⟩

end Stack

/-! ## Reading the revisions -/

section Revisions

variable {world : World V} {scope : Option (Scope V)} {choice : Choice}

/-- A projection that had read its revisions keeps them. -/
theorem readRevisions_keeps :
    ∀ next ∈ (world.readRevisions scope choice).1, ∃ current ∈ scope,
      current.revisions ≠ none → next.revisions = current.revisions := by
  intro next hnext
  unfold World.readRevisions at hnext
  cases scope with
  | none => cases hnext
  | some current =>
      refine ⟨current, rfl, fun hread => ?_⟩
      cases hrevisions : current.revisions with
      | none => exact absurd hrevisions hread
      | some found =>
          simp only [hrevisions, Option.mem_def, Option.some.injEq] at hnext
          rw [← hnext, hrevisions]

/-- What a projection has read after is what it had, or the revisions now. -/
theorem readRevisions_found {next : Scope V}
    (hnext : next ∈ (world.readRevisions scope choice).1) {found : String → Nat}
    (hfound : next.revisions = some (some found)) :
    found = world.revision ∨ ∃ current ∈ scope, current.revisions = some (some found) := by
  unfold World.readRevisions at hnext
  cases scope with
  | none => cases hnext
  | some current =>
      cases hrevisions : current.revisions with
      | none =>
          simp only [hrevisions, Option.mem_def, Option.some.injEq] at hnext
          rw [← hnext] at hfound
          simp only [Option.some.injEq] at hfound
          split at hfound
          · cases hfound
          · exact .inl (Option.some.inj hfound).symm
      | some before =>
          simp only [hrevisions, Option.mem_def, Option.some.injEq] at hnext
          exact .inr ⟨current, rfl, hnext ▸ hfound⟩

/-- The revisions that are found are the projection's, or the ones now. -/
theorem readRevisions_answer {found : String → Nat}
    (hfound : (world.readRevisions scope choice).2 = some found) :
    (scope = none ∧ found = world.revision) ∨
      ∃ next ∈ (world.readRevisions scope choice).1, next.revisions = some (some found) := by
  unfold World.readRevisions at hfound ⊢
  cases scope with
  | none =>
      dsimp only at hfound
      split at hfound
      · cases hfound
      · exact .inl ⟨rfl, (Option.some.inj hfound).symm⟩
  | some current =>
      cases hrevisions : current.revisions with
      | none =>
          simp only [hrevisions] at hfound ⊢
          exact .inr ⟨_, rfl, congrArg some hfound⟩
      | some before =>
          simp only [hrevisions] at hfound ⊢
          exact .inr ⟨current, rfl, hrevisions.trans (congrArg some hfound)⟩

theorem ScopeFresh.readRevisions {stack : List (Activation V)}
    (h : ScopeFresh world.revision scope stack)
    (hfloors : ∀ floor ∈ floors stack, floor ≤ world.revision) (choice : Choice) :
    ScopeFresh world.revision (world.readRevisions scope choice).1 stack := by
  intro next hnext found hfound
  rcases readRevisions_found hnext hfound with rfl | ⟨current, hcurrent, hcurrentFound⟩
  · exact ⟨le_refl _, hfloors⟩
  · exact h current hcurrent found hcurrentFound

/-- A key that is made is no older than the keys around it. -/
theorem keyOf_fresh {env : Environment V} {process : Nat} {derivation : String}
    {stack : List (Activation V)} (h : ScopeFresh world.revision scope stack)
    (hfloors : ∀ floor ∈ floors stack, floor ≤ world.revision) {keyed : Keyed}
    (hkeyed : keyed ∈ world.keyOf env process derivation choice
      (world.readRevisions scope choice).2) :
    keyed.revisions ≤ world.revision ∧ keyed.In (world.readRevisions scope choice).1 ∧
      ∀ floor ∈ floors stack, floor ≤ keyed.revisions := by
  unfold World.keyOf at hkeyed
  split at hkeyed
  · cases hkeyed
  · rw [Option.mem_def, Option.map_eq_some_iff] at hkeyed
    obtain ⟨found, hfound, rfl⟩ := hkeyed
    rcases readRevisions_answer hfound with ⟨hscope, rfl⟩ | ⟨next, hnext, hread⟩
    · refine ⟨le_refl _, fun next hnext => ?_, hfloors⟩
      obtain ⟨current, hcurrent, -⟩ := readRevisions_keeps next hnext
      simp [hscope] at hcurrent
    · obtain ⟨hle, habove⟩ := h.readRevisions hfloors choice next hnext found hread
      refine ⟨hle, fun other hother => ?_, habove⟩
      rw [Option.mem_def] at hnext hother
      rw [← Option.some.inj (hnext.symm.trans hother)]
      exact hread

end Revisions

end SeverinoHQ.Derivations
