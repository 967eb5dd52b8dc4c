/-
# Reviews and deletions, from HQ to the table

Changes are accepted in HQ, claimed by controllers as the declaration stands and applied one
statement at a time, while readings of the table are taken at one time and stored at another.
A change is applied once the table has been as it asks since it was accepted.
-/

import SeverinoHQ.Contacts.Inbox
import SeverinoHQ.Math.Run
import SeverinoHQ.Math.Table

namespace SeverinoHQ.Contacts

open SeverinoHQ.Math

/-- A table at the provider. -/
structure ContactTable where
  database : Database
  name : String
  rows : List Row
  deriving DecidableEq, Repr

/-- A change HQ accepted, and whether the table has been as it asks since. -/
structure Accepted where
  database : Database
  change : Change
  applied : Bool
  deriving DecidableEq, Repr

/-- A declaration a controller claimed: the statements it has yet to run. -/
structure Claim where
  database : Database
  statements : List Change
  deriving DecidableEq, Repr

structure State where
  /-- `CLOUDFLARE_D1_DATABASE_NAME`. -/
  named : String
  tables : List ContactTable
  stored : Option (List Record)
  spec : Option Spec
  claims : List Claim
  readings : List (List Record)
  /-- What HQ accepted, the newest first. -/
  accepted : List Accepted
  deriving DecidableEq, Repr

/-- HQ before the first change, with whatever tables there are. -/
def State.opened (named : String) (tables : List ContactTable) : State :=
  ⟨named, tables, none, none, [], [], []⟩

/-- How many messages a reading takes of each table. -/
def contactReadLimit : Nat := 500

/-- A reading of the tables of some databases: the newest rows of each. -/
def readTables (tables : List ContactTable) (databases : List Database) : List Record :=
  (tables.filter fun table => databases.contains table.database).flatMap fun table =>
    ((table.rows.insertionSort fun row other => other.id ≤ row.id).take contactReadLimit).map
      fun row => ⟨table.database, table.name, row⟩

/-- One statement of `contactInboxReconcile`. -/
def Change.run (rows : List Row) : Change → List Row
  | .review asked =>
      Table.update rows
        (fun row => row.id == asked.id && decide (row.reviewed ≠ asked.reviewed)) fun row =>
          { row with reviewed := asked.reviewed }
  | .delete id => Table.delete rows fun row => row.id == id

/-- The rows are as a change asks. -/
def Change.Holds (rows : List Row) : Change → Prop
  | .review asked => ∀ row ∈ rows, row.id = asked.id → row.reviewed = asked.reviewed
  | .delete id => ∀ row ∈ rows, row.id ≠ id

instance (rows : List Row) (change : Change) : Decidable (change.Holds rows) := by
  cases change <;> unfold Change.Holds <;> infer_instance

/-- Every table of a database is as a change asks. -/
def Asked (tables : List ContactTable) (database : Database) (change : Change) : Prop :=
  ∀ table ∈ tables, table.database = database → change.Holds table.rows

instance (tables : List ContactTable) (database : Database) (change : Change) :
    Decidable (Asked tables database change) := by
  unfold Asked
  infer_instance

namespace State

variable (state : State)

def inbox : Inbox := current state.named state.stored state.spec

/-- The tables change; the accepted changes they are now as asked by are applied. -/
def withTables (tables : List ContactTable) : State :=
  { state with
    tables := tables
    accepted := state.accepted.map fun accepted =>
      { accepted with
        applied := accepted.applied || decide (Asked tables accepted.database accepted.change) } }

/-- A change is accepted, unless too many wait: the declaration is written. -/
def accept (change : Change) : State :=
  match changed state.spec state.inbox change with
  | .error _ => state
  | .ok next =>
      { state with
        spec := some next
        accepted := ⟨next.database, change, decide (Asked state.tables next.database change)⟩ ::
          state.accepted }

end State

inductive Event
  /-- A message arrives at a table under an id that is free. -/
  | submitted (database : Database) (row : Row)
  | tableAdded (table : ContactTable)
  /-- `execute_contact_review`; the connection may be refused to act through. -/
  | review (id : Nat) (command : ReviewCommand) (refused : Bool)
  /-- `execute_contact_delete`, confirmed. -/
  | delete (id : Nat) (refused : Bool)
  | claim
  | apply (slot : Nat)
  | applyFails (slot : Nat)
  | take (databases : List Database)
  | store (reading : List Record)
  deriving DecidableEq, Repr

/-- The change a call asks for: none where its message is not shown, or it is refused. -/
def asks (state : State) : Event → Option Change
  | .review id command refused =>
      if refused then none
      else
        match state.inbox.find id with
        | none => none
        | some before => (reviewOf before command).toOption.map .review
  | .delete id refused =>
      if refused || (state.inbox.find id).isNone then none else some (.delete id)
  | _ => none

/-- The statements of a declaration; one that names no database is refused. -/
def claimOf (spec : Spec) : Claim :=
  let database := spec.database
  if database.connectionRef = "" ∨ database.accountId = "" ∨ database.databaseId = "" then
    ⟨database, []⟩
  else ⟨database, spec.reviews.map .review ++ spec.deletions.map .delete⟩

def step (state : State) (event : Event) : State :=
  match event with
  | .submitted database row =>
      state.withTables (Table.update state.tables
        (fun table => table.database == database && table.rows.all fun other => other.id != row.id)
        fun table => { table with rows := table.rows ++ [row] })
  | .tableAdded table => state.withTables (state.tables ++ [table])
  | .review _ _ _ | .delete _ _ =>
      match asks state event with
      | none => state
      | some change => state.accept change
  | .claim =>
      match state.spec with
      | none => state
      | some spec => { state with claims := claimOf spec :: state.claims }
  | .apply slot =>
      match state.claims[slot]? with
      | some ⟨database, change :: statements⟩ =>
          { state with claims := state.claims.set slot ⟨database, statements⟩ }.withTables
            (Table.update state.tables (fun table => table.database == database) fun table =>
              { table with rows := change.run table.rows })
      | _ => state
  | .applyFails slot => { state with claims := state.claims.eraseIdx slot }
  | .take databases =>
      { state with readings := readTables state.tables databases :: state.readings }
  | .store reading =>
      if reading ∈ state.readings then { state with stored := some reading } else state

/-! ## The last change of each message -/

/-- The declaration asks for a change of a database. -/
def Declared (spec : Option Spec) (database : Database) : Change → Prop
  | .review review => ∃ declared, spec = some declared ∧ declared.database = database ∧
      review ∈ declared.reviews
  | .delete id => ∃ declared, spec = some declared ∧ declared.database = database ∧
      id ∈ declared.deletions

instance (spec : Option Spec) (database : Database) (change : Change) :
    Decidable (Declared spec database change) := by
  cases change <;> unfold Declared <;> infer_instance

/-- The last change accepted for a message. -/
def State.lastOf (state : State) (database : Database) (id : Nat) : Option Accepted :=
  state.accepted.find? fun accepted => accepted.database == database && accepted.change.id == id

/-- The last change accepted for each message is applied, or is still declared. -/
def Kept (state : State) : Prop :=
  ∀ database id accepted, state.lastOf database id = some accepted →
    accepted.applied = true ∨ Declared state.spec database accepted.change

/-- The table is as each declared change asks that the reading counts as confirmed while a
change is written beside it, and as every one asks where the reading is of another
database. -/
def Confirmed (state : State) (change : Change) (next spec : Spec) : Prop :=
  (∀ review ∈ spec.reviews, review.id ∉ spec.deletions →
    (spec.database = next.database →
      review.id ≠ change.id ∧ review.id ∉ state.inbox.waiting) →
    Asked state.tables spec.database (.review review)) ∧
  ∀ id ∈ spec.deletions,
    (spec.database = next.database → id ≠ change.id ∧ id ∉ state.inbox.held) →
    Asked state.tables spec.database (.delete id)

/-- As a change is accepted, the reading is right about the changes declared before it. -/
def Confirms (state : State) (event : Event) : Prop :=
  ∀ change ∈ asks state event, ∀ next, changed state.spec state.inbox change = .ok next →
    ∀ spec ∈ state.spec, Confirmed state change next spec

instance (state : State) (change : Change) (next spec : Spec) :
    Decidable (Confirmed state change next spec) := by
  unfold Confirmed
  infer_instance

instance (state : State) (event : Event) : Decidable (Confirms state event) :=
  match hasks : asks state event with
  | none => .isTrue (by simp [Confirms, hasks])
  | some change =>
      match hchanged : changed state.spec state.inbox change with
      | .error _ => .isTrue (by simp [Confirms, hasks, hchanged])
      | .ok next =>
          match hspec : state.spec with
          | none => .isTrue (by simp [Confirms, hspec])
          | some spec =>
              decidable_of_iff (Confirmed state change next spec) (by
                rw [hspec] at hchanged
                simp only [Confirms, hasks, Option.mem_def, Option.some.injEq, forall_eq', hspec,
                  hchanged, Except.ok.injEq])

/-! ## Every accepted change is kept while the reading is right -/

/-- What a run keeps: the table has not been as a change asks without its being counted as
applied, and a message whose last change is a review is not declared deleted. -/
structure Sound (state : State) : Prop where
  fresh : ∀ accepted ∈ state.accepted, Asked state.tables accepted.database accepted.change →
    accepted.applied = true
  reviewed : ∀ database id accepted review, state.lastOf database id = some accepted →
    accepted.change = .review review → ∀ spec ∈ state.spec, spec.database = database →
    review.id ∉ spec.deletions
  kept : Kept state

theorem sound_opened (named : String) (tables : List ContactTable) :
    Sound (.opened named tables) where
  fresh := fun accepted haccepted => by cases haccepted
  reviewed := fun database id accepted review hlast => by cases hlast
  kept := fun database id accepted hlast => by cases hlast

/-- The invariant reads the tables, the accepted changes and the declaration. -/
theorem Sound.of_eq {state after : State} (hsound : Sound state)
    (htables : after.tables = state.tables) (haccepted : after.accepted = state.accepted)
    (hspec : after.spec = state.spec) : Sound after := by
  obtain ⟨hfresh, hreviewed, hkept⟩ := hsound
  constructor
  · rwa [haccepted, htables]
  · simpa only [State.lastOf, haccepted, hspec] using hreviewed
  · simpa only [Kept, State.lastOf, haccepted, hspec] using hkept

theorem mem_of_lastOf {state : State} {database : Database} {id : Nat} {accepted : Accepted}
    (h : state.lastOf database id = some accepted) :
    accepted ∈ state.accepted ∧ accepted.database = database ∧ accepted.change.id = id := by
  refine ⟨List.mem_of_find?_eq_some h, ?_⟩
  simpa using List.find?_some h

theorem lastOf_withTables (state : State) (tables : List ContactTable) (database : Database)
    (id : Nat) :
    (state.withTables tables).lastOf database id =
      (state.lastOf database id).map fun accepted =>
        { accepted with
          applied := accepted.applied || decide (Asked tables accepted.database accepted.change) } := by
  simp only [State.lastOf, State.withTables, List.find?_map]
  rfl

theorem Sound.withTables {state : State} (hsound : Sound state) (tables : List ContactTable) :
    Sound (state.withTables tables) where
  fresh := fun accepted haccepted hasked => by
    obtain ⟨old, -, rfl⟩ := List.mem_map.mp haccepted
    have hnow : Asked tables old.database old.change := hasked
    simp [hnow]
  reviewed := fun database id accepted review hlast hreview spec hspec => by
    rw [lastOf_withTables] at hlast
    obtain ⟨old, hold, rfl⟩ := Option.map_eq_some_iff.mp hlast
    exact hsound.reviewed database id old review hold hreview spec hspec
  kept := fun database id accepted hlast => by
    rw [lastOf_withTables] at hlast
    obtain ⟨old, hold, rfl⟩ := Option.map_eq_some_iff.mp hlast
    rcases hsound.kept database id old hold with happlied | hdeclared
    · exact .inl (by simp [happlied])
    · exact .inr hdeclared

/-- A change that is carried is declared in what is written next, unless the change that is
written is of the same message. -/
theorem mem_nextSpec_reviews {database : Database} {carried : List Row × List Nat}
    {change : Change} {review : Row} (h : review ∈ carried.1) (hne : review.id ≠ change.id) :
    review ∈ (nextSpec database carried change).reviews := by
  cases change with
  | review asked => exact List.mem_append_left _ (List.mem_filter.mpr ⟨h, by simpa [Change.id] using hne⟩)
  | delete id => exact h

theorem mem_nextSpec_deletions {database : Database} {carried : List Row × List Nat}
    {change : Change} {id : Nat} (h : id ∈ carried.2) (hne : id ≠ change.id) :
    id ∈ (nextSpec database carried change).deletions := by
  cases change with
  | review asked => exact h
  | delete other => exact List.mem_append_left _ (List.mem_filter.mpr ⟨h, by simpa [Change.id] using hne⟩)

/-- A message is declared deleted by the change that is written, or was before it. -/
theorem mem_deletions_of_nextSpec {database : Database} {spec : Option Spec} {inbox : Inbox}
    {change : Change} {id : Nat}
    (h : id ∈ (nextSpec database (carried spec inbox database) change).deletions) :
    change = .delete id ∨ ∃ old ∈ spec, old.database = database ∧ id ∈ old.deletions := by
  have hcarried : id ∈ (carried spec inbox database).2 →
      ∃ old ∈ spec, old.database = database ∧ id ∈ old.deletions := by
    intro hid
    unfold carried at hid
    split at hid
    · cases hid
    · rename_i old
      split_ifs at hid with hdatabase
      · exact ⟨old, rfl, hdatabase, (List.mem_filter.mp hid).1⟩
      · cases hid
  cases change with
  | review asked => exact .inr (hcarried h)
  | delete other =>
      rcases List.mem_append.mp h with hkept | hnew
      · exact .inr (hcarried (List.mem_filter.mp hkept).1)
      · obtain rfl := List.mem_singleton.mp hnew
        exact .inl rfl

/-- What the change that is written leaves declared of a change it does not supersede. -/
theorem declared_of_confirmed {state : State} {change old : Change} {database : Database}
    {next : Spec} (hnext : next = nextSpec next.database
      (carried state.spec state.inbox next.database) change)
    (hconfirmed : ∀ spec ∈ state.spec, Confirmed state change next spec)
    (hother : next.database = database → old.id ≠ change.id)
    (hundeleted : ∀ review, old = .review review → ∀ spec ∈ state.spec,
      spec.database = database → review.id ∉ spec.deletions)
    (hdeclared : Declared state.spec database old) :
    Asked state.tables database old ∨ Declared (some next) database old := by
  cases old with
  | review review =>
      obtain ⟨spec, hspec, rfl, hreview⟩ := hdeclared
      by_cases hkept : spec.database = next.database ∧ review.id ∈ state.inbox.waiting
      · right
        refine ⟨next, rfl, hkept.1.symm, ?_⟩
        rw [hnext]
        apply mem_nextSpec_reviews _ (hother hkept.1.symm)
        rw [hspec, carried_some hkept.1]
        exact List.mem_filter.mpr ⟨hreview, by simpa using hkept.2⟩
      · left
        refine (hconfirmed spec hspec).1 review hreview (hundeleted review rfl spec hspec rfl) ?_
        exact fun hsame => ⟨hother hsame.symm, fun hwaits => hkept ⟨hsame, hwaits⟩⟩
  | delete id =>
      obtain ⟨spec, hspec, rfl, hid⟩ := hdeclared
      by_cases hkept : spec.database = next.database ∧ id ∈ state.inbox.held
      · right
        refine ⟨next, rfl, hkept.1.symm, ?_⟩
        rw [hnext]
        apply mem_nextSpec_deletions _ (hother hkept.1.symm)
        rw [hspec, carried_some hkept.1]
        exact List.mem_filter.mpr ⟨hid, by simpa [Change.id] using hkept.2⟩
      · left
        refine (hconfirmed spec hspec).2 id hid ?_
        exact fun hsame => ⟨hother hsame.symm, fun hheld => hkept ⟨hsame, hheld⟩⟩

/-- A change that is asked for of a message is declared by what is written for it. -/
theorem declared_nextSpec (database : Database) (carried : List Row × List Nat)
    (change : Change) :
    Declared (some (nextSpec database carried change)) database change := by
  cases change with
  | review review => exact ⟨_, rfl, rfl, List.mem_append_right _ (List.mem_singleton.mpr rfl)⟩
  | delete id => exact ⟨_, rfl, rfl, List.mem_append_right _ (List.mem_singleton.mpr rfl)⟩

/-- The last change of a message after one more is accepted. -/
theorem lastOf_cons {state : State} {new : Accepted} {database : Database} {id : Nat}
    {accepted : Accepted}
    (h : (new :: state.accepted).find? (fun accepted =>
      accepted.database == database && accepted.change.id == id) = some accepted) :
    (accepted = new ∧ new.database = database) ∨
      (state.lastOf database id = some accepted ∧ (new.database = database → id ≠ new.change.id)) := by
  by_cases hnew : new.database = database ∧ new.change.id = id
  · left
    rw [List.find?_cons_of_pos (by simp [hnew])] at h
    exact ⟨(Option.some.inj h).symm, hnew.1⟩
  · right
    rw [List.find?_cons_of_neg (by simpa using hnew)] at h
    exact ⟨h, fun hdatabase hid => hnew ⟨hdatabase, hid.symm⟩⟩

theorem Sound.accept {state : State} {change : Change} (hsound : Sound state)
    (hshown : ∀ review, change = .review review → ∀ spec ∈ state.spec,
      state.inbox.database = some spec.database → review.id ∉ spec.deletions)
    (hconfirmed : ∀ next, changed state.spec state.inbox change = .ok next →
      ∀ spec ∈ state.spec, Confirmed state change next spec) :
    Sound (state.accept change) := by
  unfold State.accept
  split
  · exact hsound
  rename_i next hchanged
  obtain ⟨hdatabase, hnext⟩ := changed_eq_ok hchanged
  have hlast : ∀ {database id accepted}, State.lastOf
      { state with
        spec := some next
        accepted := ⟨next.database, change, decide (Asked state.tables next.database change)⟩ ::
          state.accepted } database id = some accepted → _ := fun h => lastOf_cons h
  constructor
  · intro accepted haccepted hasked
    rcases List.mem_cons.mp haccepted with rfl | hold
    · exact decide_eq_true hasked
    · exact hsound.fresh accepted hold hasked
  · -- a review is of a message that is shown, so no carried deletion is of it
    rintro database id accepted review hfound hreview spec ⟨⟩ hsame hdeleted
    rw [hnext] at hdeleted
    rcases hlast hfound with ⟨rfl, -⟩ | ⟨hold, hother⟩
    · obtain rfl : change = .review review := hreview
      rcases mem_deletions_of_nextSpec hdeleted with hdelete | ⟨old, hspec, hsame, hdeleted⟩
      · cases hdelete
      · exact hshown review rfl old hspec (hsame ▸ hdatabase) hdeleted
    · have hid := (mem_of_lastOf hold).2.2
      rw [hreview] at hid
      rcases mem_deletions_of_nextSpec hdeleted with hdelete | ⟨old, hspec, hold', hdeleted⟩
      · apply hother hsame
        rw [← hid]
        exact (congrArg Change.id hdelete).symm
      · exact hsound.reviewed database id accepted review hold hreview old hspec
          (hold'.trans hsame) hdeleted
  · intro database id accepted hfound
    rcases hlast hfound with ⟨rfl, hsame⟩ | ⟨hold, hother⟩
    · right
      obtain rfl : next.database = database := hsame
      have hdeclared := declared_nextSpec next.database
        (carried state.spec state.inbox next.database) change
      rwa [← hnext] at hdeclared
    · obtain ⟨hmem, rfl, hid⟩ := mem_of_lastOf hold
      rcases hsound.kept _ id accepted hold with happlied | hdeclared
      · exact .inl happlied
      · rcases declared_of_confirmed hnext (hconfirmed next hchanged)
          (fun hsame => hid ▸ hother hsame)
          (fun review hreview => hsound.reviewed _ id accepted review hold hreview)
          hdeclared with hasked | hkept
        · exact .inl (hsound.fresh accepted hmem hasked)
        · exact .inr hkept

/-- A review is asked for only of a message that is shown. -/
theorem not_deleted_of_asks {state : State} {event : Event} {review : Row}
    (h : asks state event = some (.review review)) :
    ∀ spec ∈ state.spec, state.inbox.database = some spec.database →
      review.id ∉ spec.deletions := by
  intro spec hspec hdatabase
  have hdeclared : state.spec = some spec := hspec
  unfold State.inbox at hdatabase
  rw [hdeclared] at hdatabase
  unfold asks at h
  split at h
  · rename_i id command refused
    split_ifs at h
    split at h
    · cases h
    · rename_i before hfound
      obtain ⟨asked, hasked, hsame⟩ := Option.map_eq_some_iff.mp h
      obtain rfl := Change.review.inj hsame
      have hreview : reviewOf before command = .ok asked := by
        cases hreviewed : reviewOf before command with
        | error problem => simp [hreviewed, Except.toOption] at hasked
        | ok review => simpa [hreviewed, Except.toOption] using hasked
      rw [id_of_reviewOf hreview]
      rw [State.inbox, hdeclared] at hfound
      rw [(find_of_mem hfound).1]
      exact not_deleted_of_find hdatabase hfound
  · split_ifs at h
    cases Option.some.inj h
  · cases h

theorem Sound.asked {state : State} {event : Event} (hsound : Sound state)
    (hconfirms : Confirms state event) :
    Sound (match asks state event with
      | none => state
      | some change => state.accept change) := by
  split
  · exact hsound
  · rename_i change hasks
    refine hsound.accept (fun review hreview => ?_) (hconfirms change hasks)
    subst hreview
    exact not_deleted_of_asks hasks

/-- Whatever comes next, what is accepted is kept while the reading is right. -/
theorem Sound.step {state : State} {event : Event} (hsound : Sound state)
    (hconfirms : Confirms state event) : Sound (Contacts.step state event) := by
  cases event with
  | submitted database row => exact hsound.withTables _
  | tableAdded table => exact hsound.withTables _
  | review id command refused => exact hsound.asked hconfirms
  | delete id refused => exact hsound.asked hconfirms
  | claim =>
      simp only [Contacts.step]
      split
      · exact hsound
      · exact hsound.of_eq rfl rfl rfl
  | apply slot =>
      simp only [Contacts.step]
      split
      · rename_i database change statements hclaim
        have hclaimed : Sound
            { state with claims := state.claims.set slot ⟨database, statements⟩ } :=
          hsound.of_eq rfl rfl rfl
        exact hclaimed.withTables _
      · exact hsound
  | applyFails slot => exact hsound.of_eq rfl rfl rfl
  | take databases => exact hsound.of_eq rfl rfl rfl
  | store reading =>
      simp only [Contacts.step]
      split_ifs
      · exact hsound.of_eq rfl rfl rfl
      · exact hsound

/-- In every run in which, whenever a change is accepted, the table is as those declared
changes ask that the reading counts as confirmed, the last change accepted for each message is
applied or is still declared. -/
theorem last_changes_kept (named : String) (tables : List ContactTable) (events : List Event)
    (h : Meets step Confirms (.opened named tables) events) :
    Kept (run step (.opened named tables) events) := by
  have hsound := run_invariant Sound (fun _ _ hsound hconfirms => hsound.step hconfirms)
    (sound_opened named tables) h
  exact hsound.kept

/-! ## Set back before it is read -/

namespace Sample

def site : Database := ⟨"cloudflare", "account", "messages"⟩

def unread (id : Nat) : Row := ⟨id, "unread", "", ""⟩

def tables : List ContactTable := [⟨site, "site", [unread 1, unread 2]⟩]

def reading (rows : List Row) : List Record := rows.map fun row => ⟨site, "site", row⟩

def marks (id : Nat) (status : String) : Event := .review id ⟨some status, none, none⟩ false

/-- A reading of the table is taken and stored at once. -/
def reads (rows : List Row) : List Event := [.take [site], .store (reading rows)]

/-- The first message is read: the review is applied, and the table is read again. -/
def firstRead : List Event :=
  reads [unread 2, unread 1] ++ [marks 1 "read", .claim, .apply 0] ++
    reads [unread 2, ⟨1, "read", "", ""⟩]

end Sample

open Sample

/-- The reading shows the review, and the other message is deleted. -/
theorem read_then_deleted_kept :
    Kept (run step (.opened "" tables) (firstRead ++ [.delete 2 false])) :=
  last_changes_kept _ _ _ (by decide)

/-- The first message is archived and marked as read again. The reading is of before it was
archived, so the last review counts as confirmed and the next change drops it. -/
theorem set_back_dropped :
    let state := run step (.opened "" tables)
      (firstRead ++ [marks 1 "archived", .claim, .apply 0, marks 1 "read", marks 2 "read"])
    ¬ Kept state ∧ state.tables = [⟨site, "site", [⟨1, "archived", "", ""⟩, unread 2]⟩] ∧
      state.spec = some ⟨site, [⟨2, "read", "", ""⟩], []⟩ := by
  intro state
  have hlast : state.lastOf site 1 = some ⟨site, .review ⟨1, "read", "", ""⟩, false⟩ := by
    decide
  have htables : state.tables = [⟨site, "site", [⟨1, "archived", "", ""⟩, unread 2]⟩] := by
    decide
  have hspec : state.spec = some ⟨site, [⟨2, "read", "", ""⟩], []⟩ := by
    decide
  refine ⟨fun hkept => ?_, htables, hspec⟩
  rcases hkept site 1 _ hlast with happlied | hdeclared
  · cases happlied
  · rw [hspec] at hdeclared
    revert hdeclared
    decide

end SeverinoHQ.Contacts
