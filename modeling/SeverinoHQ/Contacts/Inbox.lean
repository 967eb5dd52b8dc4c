/-
# The contact inbox, as the controller last read it

A site keeps its contact messages in a table HQ holds no credential for. HQ stores what a
controller last read of it, and lays over that the reviews and deletions it has declared and
the reading does not show yet. A new change is written beside those still unconfirmed.
-/

import SeverinoHQ.Approvals.Model
import SeverinoHQ.Math.Letters
import Mathlib.Data.List.Sort

namespace SeverinoHQ.Contacts

open SeverinoHQ.Approvals (strip)

/-- What names the database a table is in. -/
structure Database where
  connectionRef : String
  accountId : String
  databaseId : String
  deriving DecidableEq, Repr

/-- The fields a review changes. -/
structure Reviewed where
  status : String
  assignedTo : String
  adminNotes : String
  deriving DecidableEq, Repr

/-- A message's row, or the review of one: its id and the reviewed fields. -/
structure Row where
  id : Nat
  reviewed : Reviewed
  deriving DecidableEq, Repr

/-- One row of a reading. -/
structure Record where
  database : Database
  name : String
  row : Row
  deriving DecidableEq, Repr

/-- The declaration: the changes the controller has yet to apply. -/
structure Spec where
  database : Database
  reviews : List Row
  deletions : List Nat
  deriving DecidableEq, Repr

inductive Change
  | review (review : Row)
  | delete (id : Nat)
  deriving DecidableEq, Repr

def Change.id : Change → Nat
  | .review row => row.id
  | .delete id => id

/-- The databases of a reading's records, each once, under the name it was first read with. -/
def databasesOf (records : List Record) : List (Database × String) :=
  records.foldl (fun found record =>
    if found.any fun other => other.1 == record.database then found
    else found ++ [(record.database, record.name)]) []

/-- `choose_database`: the only database, or the one a setting names; none where there is no
record, and a problem where there is a choice to make. -/
def chooseDatabase (named : String) (records : List Record) : Except String (Option Database) :=
  let all := databasesOf records
  let found := if named ≠ "" then all.filter fun other => other.2 == named else all
  if !all.isEmpty && found.isEmpty then
    .error s!"No database named '{named}' holds contact messages."
  else
    match found with
    | [] => .ok none
    | [database] => .ok (some database.1)
    | _ =>
        let names := ", ".intercalate ((found.map Prod.snd).insertionSort (· ≤ ·))
        .error s!"Several databases hold contact messages ({names}). Set CLOUDFLARE_D1_DATABASE_NAME."

/-- A row as it is shown, and whether a review of it waits to be applied. -/
structure Shown where
  row : Row
  pending : Bool
  deriving DecidableEq, Repr

/-- `_pending`, of a row the reading holds. -/
def reviewWaits (row : Row) (review : Option Row) : Bool :=
  review.any fun review => decide (row.reviewed ≠ review.reviewed)

/-- `_laid_over`. Of two reviews of one message the later stands. -/
def laidOver (rows reviews : List Row) (deletions : List Nat) : List Shown :=
  rows.filterMap fun row =>
    if deletions.contains row.id then none
    else
      let review := reviews.reverse.find? fun review => review.id == row.id
      some (if reviewWaits row review then ⟨{ row with reviewed := (review.getD row).reviewed }, true⟩
        else ⟨row, false⟩)

/-- The inbox as stored. -/
structure Inbox where
  rows : List Shown
  database : Option Database
  /-- The ids the reading holds, before HQ's changes are laid over. -/
  held : List Nat
  deriving DecidableEq, Repr

namespace Inbox

def empty : Inbox := ⟨[], none, []⟩

/-- The messages whose review waits. -/
def waiting (inbox : Inbox) : List Nat :=
  (inbox.rows.filter (·.pending)).map fun shown => shown.row.id

/-- `find_submission`. -/
def find (inbox : Inbox) (id : Nat) : Option Row :=
  (inbox.rows.find? fun shown => shown.row.id == id).map (·.row)

end Inbox

/-- `current`: no inbox where there is no reading, or one of databases HQ cannot choose
between. -/
def current (named : String) (stored : Option (List Record)) (spec : Option Spec) : Inbox :=
  match stored with
  | none => .empty
  | some stored =>
      let records := stored.filter fun record => record.row.id ≠ 0
      match chooseDatabase named records with
      | .error _ => .empty
      | .ok database =>
          let own := (records.filter fun record => some record.database == database).map (·.row)
          let declared := spec.filter fun spec => some spec.database == database
          { rows := laidOver own ((declared.map (·.reviews)).getD [])
              ((declared.map (·.deletions)).getD [])
            database := database
            held := own.map (·.id) }

/-- How many changes of a kind may wait for the controller at once. -/
def contactChangesLimit : Nat := 200

/-- `_unconfirmed`: the declaration without the changes the reading already shows. -/
def unconfirmed (spec : Spec) (inbox : Inbox) : List Row × List Nat :=
  (spec.reviews.filter fun review => inbox.waiting.contains review.id,
    spec.deletions.filter inbox.held.contains)

/-- What stays declared as a change is written: what is unconfirmed, of the same database. -/
def carried (spec : Option Spec) (inbox : Inbox) (database : Database) : List Row × List Nat :=
  match spec with
  | none => ([], [])
  | some spec => if spec.database = database then unconfirmed spec inbox else ([], [])

/-- What is carried, with a change in the place of any other of its kind for its message. -/
def nextSpec (database : Database) (carried : List Row × List Nat) : Change → Spec
  | .review review =>
      ⟨database, carried.1.filter (fun other => other.id ≠ review.id) ++ [review], carried.2⟩
  | .delete id => ⟨database, carried.1, carried.2.filter (fun other => other ≠ id) ++ [id]⟩

/-- `_change`: the declaration's next spec. -/
def changed (spec : Option Spec) (inbox : Inbox) (change : Change) : Except String Spec :=
  match inbox.database with
  | none => .error "No contact messages have been read yet."
  | some database =>
      let next := nextSpec database (carried spec inbox database) change
      if contactChangesLimit < next.reviews.length ∨ contactChangesLimit < next.deletions.length then
        .error "Too many changes are waiting to be applied. Try again once HQ has applied them."
      else .ok next

/-- The fields a review sends; one left out keeps what the message holds. -/
structure ReviewCommand where
  status : Option String
  assignedTo : Option String
  adminNotes : Option String
  deriving DecidableEq, Repr

/-- `_status`: the statuses there are. -/
def contactStatuses : List String := ["unread", "read", "replied", "archived", "spam"]

/-- `_settle_line_endings`, of a text as it is declared. -/
def settleLineEndings (value : String) : String :=
  String.ofList (Math.Letters.universalNewlines value.toList)

/-- The review `execute_contact_review` writes of a message. -/
def reviewOf (before : Row) (command : ReviewCommand) : Except String Row :=
  let status := strip (command.status.getD before.reviewed.status)
  if contactStatuses.contains status then
    .ok ⟨before.id, ⟨status,
      settleLineEndings (strip (command.assignedTo.getD before.reviewed.assignedTo)),
      settleLineEndings (command.adminNotes.getD before.reviewed.adminNotes)⟩⟩
  else .error "Unknown contact status."

/-! ## What a change leaves declared -/

theorem find_of_mem {inbox : Inbox} {id : Nat} {row : Row} (h : inbox.find id = some row) :
    row.id = id ∧ ∃ shown ∈ inbox.rows, shown.row = row := by
  obtain ⟨shown, hshown, rfl⟩ := Option.map_eq_some_iff.mp h
  exact ⟨by simpa using List.find?_some hshown, shown, List.mem_of_find?_eq_some hshown, rfl⟩

/-- A message that is shown is not one declared deleted. -/
theorem not_deleted_of_find {named : String} {stored : Option (List Record)} {spec : Spec}
    {id : Nat} {row : Row} (hdatabase : (current named stored (some spec)).database = some spec.database)
    (h : (current named stored (some spec)).find id = some row) : id ∉ spec.deletions := by
  obtain ⟨hid, shown, hshown, rfl⟩ := find_of_mem h
  unfold current at hdatabase hshown
  cases stored with
  | none => cases hdatabase
  | some stored =>
      dsimp only at hdatabase hshown
      split at hshown
      · cases hshown
      · rename_i database hchosen
        rw [hchosen] at hdatabase
        dsimp only at hdatabase
        subst hdatabase
        simp only [Option.filter_some, beq_self_eq_true, if_true, Option.map_some,
          Option.getD_some] at hshown
        obtain ⟨own, -, hown⟩ := List.mem_filterMap.mp hshown
        split_ifs at hown with hdeleted
        have hsame : own.id = id := by
          obtain rfl := Option.some.inj hown
          rw [← hid]
          split_ifs <;> rfl
        rw [← hsame]
        simpa using hdeleted

theorem id_of_reviewOf {before review : Row} {command : ReviewCommand}
    (h : reviewOf before command = .ok review) : review.id = before.id := by
  simp only [reviewOf] at h
  split_ifs at h
  obtain rfl := Except.ok.inj h
  rfl

theorem carried_some {spec : Spec} {inbox : Inbox} {database : Database}
    (h : spec.database = database) : carried (some spec) inbox database = unconfirmed spec inbox :=
  if_pos h

/-- A change that is written is declared beside what is carried, for the inbox's database. -/
theorem changed_eq_ok {spec : Option Spec} {inbox : Inbox} {change : Change} {next : Spec}
    (h : changed spec inbox change = .ok next) :
    inbox.database = some next.database ∧
      next = nextSpec next.database (carried spec inbox next.database) change := by
  unfold changed at h
  split at h
  · cases h
  · rename_i database hdatabase
    dsimp only at h
    split_ifs at h
    obtain rfl := Except.ok.inj h
    have hsame : (nextSpec database (carried spec inbox database) change).database = database := by
      cases change <;> rfl
    rw [hsame]
    exact ⟨hdatabase, rfl⟩

end SeverinoHQ.Contacts
