/-
# The operations worth a row of history

`changes` reads a window of operations, newest first, and leaves out an automatic run that
ended exactly as the run before it on the same record. Two runs ended the same when their
signatures are equal as Python compares them, where a truth is a number.
-/

import SeverinoHQ.ControlPlane.Queue
import SeverinoHQ.Math.Dict

namespace SeverinoHQ

mutual

/-- A document with each truth as the number it is equal to. -/
def Json.compared : Json → Json
  | .bool value => .num (if value then 1 else 0)
  | .arr items => .arr (comparedItems items)
  | .obj members => .obj (comparedMembers members)
  | document => document

/-- The items of an array, compared. -/
def Json.comparedItems : List Json → List Json
  | [] => []
  | item :: items => item.compared :: comparedItems items

/-- The members of an object, compared. -/
def Json.comparedMembers : List (String × Json) → List (String × Json)
  | [] => []
  | (name, value) :: members => (name, value.compared) :: comparedMembers members

end

namespace ControlPlane

open SeverinoHQ.Math

/-! ## How an operation ended -/

/-- `document.get(name)`, which only a dictionary has. -/
def member? (document : Json) (name : String) : Except Raised (Option Json) :=
  match document with
  | .obj _ => .ok (document.get? name)
  | _ => .error .attributeError

/-- `_active`: the conditions of a result that hold. -/
def active (result : Json) : Except Raised (List Json) := do
  let conditions := (← member? result "conditions").getD .null
  if !conditions.truthy then return []
  match conditions with
  | .arr items => items.filterM fun item => do return (← member? item "status") == some (.bool true)
  | .str _ | .obj _ => .error .attributeError
  | _ => .error .typeError

/-- What is compared of how an operation ended. An absent name reads as null. -/
structure Signature where
  state : OperationState
  message : Json
  conditions : List (Json × Json × Json)
  deriving DecidableEq, Repr

namespace Signature

/-- The signature with each truth as the number it is equal to. -/
def compared (said : Signature) : Signature where
  state := said.state
  message := said.message.compared
  conditions := said.conditions.map fun condition =>
    (condition.1.compared, condition.2.1.compared, condition.2.2.compared)

/-- `first == second`. -/
def same (first second : Signature) : Bool := first.compared == second.compared

theorem same_trans {first second third : Signature} (h : first.same second = true)
    (h' : second.same third = true) : first.same third = true := by
  simp only [same, beq_iff_eq] at *
  rw [h, h']

theorem same_refl (said : Signature) : said.same said = true := by simp [same]

theorem same_comm (first second : Signature) : first.same second = second.same first := by
  simp only [same, Bool.beq_comm]

end Signature

namespace OperationRequest

/-- `signature`, of `operation.result or {}`. -/
def signature (operation : OperationRequest) : Except Raised Signature := do
  let result := if operation.result.truthy then operation.result else .obj []
  let message := (← member? result "message").getD (.str "")
  let conditions := (← active result).map fun item =>
    ((item.get? "type").getD .null, (item.get? "reason").getD .null,
      (item.get? "message").getD .null)
  return ⟨operation.state, message, conditions⟩

/-- The record and the action a run repeats. -/
def subject (operation : OperationRequest) : Id × Action := (operation.resource, operation.action)

end OperationRequest

/-! ## The listing -/

/-- `changes`, part of the way: the last signature of each subject, and what is kept,
oldest first. -/
structure Reading where
  last : Dict (Id × Action) Signature
  kept : List OperationRequest

/-- One operation of the window. -/
def Reading.read (reading : Reading) (operation : OperationRequest) : Except Raised Reading := do
  let said ← operation.signature
  let repeats := operation.requestedInterface == controllerInterface &&
    operation.state == .succeeded &&
    ((reading.last.get? operation.subject).map fun last => last.same said).getD false
  return {
    last := reading.last.set operation.subject said
    kept := if repeats then reading.kept else reading.kept ++ [operation] }

/-- `items[:limit]`, where a negative limit counts from the end. -/
def upTo {α : Type} (items : List α) (limit : Int) : List α :=
  items.take (if limit < 0 then items.length - limit.natAbs else limit.toNat)

/-- `changes`: the operations worth a row, newest first as they are given. -/
def changes (operations : List OperationRequest) (limit : Int) :
    Except Raised (List OperationRequest) := do
  let reading ← operations.reverse.foldlM Reading.read ⟨.empty, []⟩
  return upTo reading.kept.reverse limit

/-! ## What is listed -/

/-- Two operations that ended the same. -/
def SameEnding (first second : OperationRequest) : Prop :=
  ∃ said again, first.signature = .ok said ∧ second.signature = .ok again ∧ said.same again = true

/-- The newest of the operations listed that is about a subject. -/
def previous? (listed : List OperationRequest) (subject : Id × Action) : Option OperationRequest :=
  listed.find? fun operation => operation.subject = subject

/-- An automatic success that ended as the one listed before it for the same subject. -/
def Repeats (listed : List OperationRequest) (operation : OperationRequest) : Prop :=
  operation.requestedInterface = controllerInterface ∧ operation.state = .succeeded ∧
    ∃ previous, previous? listed operation.subject = some previous ∧ SameEnding previous operation

/-- The listing of a window, newest first: only repeats of what is listed are left out. -/
inductive Lists : List OperationRequest → List OperationRequest → Prop
  | nil : Lists [] []
  | repeats {operation : OperationRequest} {older listed : List OperationRequest} :
      Lists older listed → Repeats listed operation → Lists (operation :: older) listed
  | lists {operation : OperationRequest} {older listed : List OperationRequest} :
      Lists older listed → ¬ Repeats listed operation →
        Lists (operation :: older) (operation :: listed)

theorem Lists.sublist {operations listed : List OperationRequest} (h : Lists operations listed) :
    listed.Sublist operations := by
  induction h with
  | nil => exact List.Sublist.refl []
  | repeats _ _ ih => exact ih.cons _
  | lists _ _ ih => exact ih.cons_cons _

/-- What the loop holds of the operations it has read. -/
structure Reading.Holds (reading : Reading) (operations : List OperationRequest) : Prop where
  lists : Lists operations reading.kept.reverse
  /-- The last signature of a subject is that of the operation listed for it. -/
  last : ∀ subject, (reading.last.get? subject = none ∧
      previous? reading.kept.reverse subject = none) ∨
    ∃ said previous again, reading.last.get? subject = some said ∧
      previous? reading.kept.reverse subject = some previous ∧
      previous.signature = .ok again ∧ again.same said = true

section Steps

variable {reading next : Reading} {operation : OperationRequest}
  {operations : List OperationRequest} {said : Signature}

/-- The loop's test for a repeat is the one against what is listed. -/
theorem repeats_iff (h : reading.Holds operations) (hsaid : operation.signature = .ok said) :
    (operation.requestedInterface == controllerInterface && operation.state == .succeeded &&
      ((reading.last.get? operation.subject).map fun last => last.same said).getD false) = true ↔
    Repeats reading.kept.reverse operation := by
  have hlast : ((reading.last.get? operation.subject).map fun last => last.same said).getD false =
      true ↔ ∃ previous, previous? reading.kept.reverse operation.subject = some previous ∧
        SameEnding previous operation := by
    obtain ⟨hnone, hunlisted⟩ | ⟨last, previous, again, hlast, hlisted, hagain, hsame⟩ :=
      h.last operation.subject
    · simp [hnone, hunlisted]
    · simp only [hlast, hlisted, Option.map_some, Option.getD_some, Option.some.injEq,
        exists_eq_left', SameEnding, hagain, hsaid, Except.ok.injEq]
      constructor
      · intro hrepeats
        exact ⟨again, said, rfl, rfl, Signature.same_trans hsame hrepeats⟩
      · rintro ⟨_, _, rfl, rfl, hrepeats⟩
        rw [Signature.same_comm] at hsame
        exact Signature.same_trans hsame hrepeats
  simp only [Bool.and_eq_true, beq_iff_eq, hlast, Repeats, and_assoc]

theorem previous?_cons_self (listed : List OperationRequest) (operation : OperationRequest) :
    previous? (operation :: listed) operation.subject = some operation := by
  simp [previous?]

theorem previous?_cons_of_ne {listed : List OperationRequest} {operation : OperationRequest}
    {subject : Id × Action} (h : operation.subject ≠ subject) :
    previous? (operation :: listed) subject = previous? listed subject := by
  simp [previous?, h]

/-- One operation read keeps what the loop holds. -/
theorem read_holds (h : reading.Holds operations) (hread : reading.read operation = .ok next) :
    next.Holds (operation :: operations) := by
  cases hsaid : operation.signature with
  | error raised => simp [Reading.read, hsaid, bind, Except.bind] at hread
  | ok said =>
      have hiff := repeats_iff h hsaid
      simp only [Reading.read, hsaid, bind, Except.bind, pure, Except.pure, Except.ok.injEq] at hread
      subst hread
      by_cases hrepeats : Repeats reading.kept.reverse operation
      · rw [if_pos (hiff.mpr hrepeats)]
        obtain ⟨previous, hprevious, again, said', hagain, hsaid', hsame⟩ := hrepeats.2.2
        obtain rfl : said = said' := by
          rw [hsaid] at hsaid'
          exact Except.ok.inj hsaid'
        refine ⟨.repeats h.lists hrepeats, fun subject => ?_⟩
        by_cases hsubject : subject = operation.subject
        · right
          exact ⟨said, previous, again, by simp [hsubject], hsubject ▸ hprevious, hagain, hsame⟩
        · simpa [hsubject] using h.last subject
      · rw [if_neg (fun hloop => hrepeats (hiff.mp hloop))]
        refine ⟨by simpa using Lists.lists h.lists hrepeats, fun subject => ?_⟩
        simp only [List.reverse_append, List.reverse_singleton, List.singleton_append, Dict.get?_set]
        by_cases hsubject : subject = operation.subject
        · right
          subst hsubject
          exact ⟨said, operation, said, by simp, previous?_cons_self _ _, hsaid, said.same_refl⟩
        · rw [if_neg hsubject, previous?_cons_of_ne (Ne.symm hsubject)]
          exact h.last subject

/-- The window read from its oldest operation on: what is held at its end, or what raises. -/
theorem foldlM_holds (operations : List OperationRequest) :
    match operations.reverse.foldlM Reading.read ⟨.empty, []⟩ with
    | .error _ => ∃ operation ∈ operations, ∀ said, operation.signature ≠ .ok said
    | .ok reading => reading.Holds operations := by
  induction operations with
  | nil => exact ⟨.nil, fun subject => .inl ⟨rfl, rfl⟩⟩
  | cons operation older ih =>
      rw [List.reverse_cons, List.foldlM_append]
      cases hread : older.reverse.foldlM Reading.read ⟨.empty, []⟩ with
      | error raised =>
          rw [hread] at ih
          obtain ⟨unread, hmem, hraises⟩ := ih
          exact ⟨unread, List.mem_cons_of_mem _ hmem, hraises⟩
      | ok reading =>
          rw [hread] at ih
          simp only [List.foldlM_cons, List.foldlM_nil, bind, Except.bind]
          cases hnext : reading.read operation with
          | error raised =>
              refine ⟨operation, List.mem_cons_self, fun said hsaid => ?_⟩
              simp [Reading.read, hsaid, bind, Except.bind, pure, Except.pure] at hnext
          | ok next => exact read_holds ih hnext

end Steps

/-- History lists the operations of a window in their order, and up to the limit: all but
the automatic successes that repeat what is listed before them for the same record and action.
It raises only where a result in the window is not one a run leaves. -/
theorem changes_lists (operations : List OperationRequest) (limit : Int) :
    match changes operations limit with
    | .error _ => ∃ operation ∈ operations, ∀ said, operation.signature ≠ .ok said
    | .ok shown => ∃ listed, Lists operations listed ∧ listed.Sublist operations ∧
        shown = upTo listed limit := by
  have hholds := foldlM_holds operations
  cases hread : operations.reverse.foldlM Reading.read ⟨.empty, []⟩ with
  | error raised =>
      rw [hread] at hholds
      simpa [changes, hread, bind, Except.bind] using hholds
  | ok reading =>
      rw [hread] at hholds
      simp only [changes, hread, bind, Except.bind, pure, Except.pure]
      exact ⟨_, hholds.lists, hholds.lists.sublist, rfl⟩

end ControlPlane

end SeverinoHQ
