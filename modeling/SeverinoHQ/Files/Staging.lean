/-
# Files staged, and put in place or not

A caller makes a file beside its destination, works on it a call at a time, and has it put
there, over what is there or only where nothing is, or not at all. Every call may fail, and
the writer may be looked at, or cut off, between any two. A writer beneath a root makes the
same calls of the root, by the names beneath it.
-/

import SeverinoHQ.Files.Placing
import SeverinoHQ.Math.Partway

namespace SeverinoHQ.Atomicfile

open SeverinoHQ.Math Dialogue

/-- `Link`: the file at its destination, where nothing is there yet. Whether its temporary
name could be removed is not read. -/
def link (file : File) : Program (Option String) :=
  commit file do
    let linked : Option String ← ask (.link file.temp file.target)
    match linked with
    | some problem => return some problem
    | none =>
        let _ ← ask (.remove file.temp)
        return none

/-- What a caller does to a file before it is put in place. -/
inductive Edit
  | write (data : Bytes)
  | chmod (mode : Nat)
  | chown (uid gid : Int)
  deriving DecidableEq, Repr

/-- How a caller is done with a file. -/
inductive Ending
  | replace
  | link
  | discard (problem : String)
  deriving DecidableEq, Repr

namespace Edit

def run (file : File) : Edit → Program (Option String)
  | .write data => ask (.write file.temp data)
  | .chmod mode => ask (.chmod file.temp mode)
  | .chown uid gid => ask (.chown file.temp uid gid)

/-- What the file is once it is done. -/
def on (node : Node) : Edit → Node
  | .write data => { node with data := node.data ++ data }
  | .chmod mode => { node with mode }
  | .chown uid gid => { node with uid := owned node.uid uid, gid := owned node.gid gid }

/-- The bytes it writes. -/
def written : Edit → Bytes
  | .write data => data
  | _ => []

end Edit

def Ending.run (file : File) : Ending → Program (Option String)
  | .replace => Atomicfile.replace file
  | .link => Atomicfile.link file
  | .discard problem => do
      Atomicfile.discard file
      return some problem

/-- The edits in turn, and the file discarded at the first that fails. -/
def stage (file : File) (ending : Ending) : List Edit → Program (Option String)
  | [] => ending.run file
  | edit :: edits => do
      let edited ← edit.run file
      match edited with
      | some problem =>
          discard file
          return some problem
      | none => stage file ending edits

/-- A file made for a destination, edited, and put in place or discarded. -/
def session (target : Place) (mode : Nat) (edits : List Edit) (ending : Ending) :
    Program (Option String) := do
  let created ← create target mode
  match created with
  | .error problem => return some problem
  | .ok file => stage file ending edits

/-- `WriteFile` is one write, put over what is there. -/
theorem writeFile_eq (target : Place) (data : Bytes) (mode : Nat) :
    writeFile target data mode = session target mode [.write data] .replace := rfl

/-! ## What is said of a write -/

/-- A temporary name that could not be removed. -/
def unremoved : Exchange Call Reply → Bool
  | ⟨.remove _, some _⟩ => true
  | _ => false

/-- A regular file of these bytes, whole. -/
def Holds (files : Files) (target : Place) (data : Bytes) : Prop :=
  ∃ node, files target = some node ∧ node.kind = .regular ∧ node.data = data

/-- At every point of every run the destination has what it had, or the new bytes whole; it has
the new ones where success is reported; and a failure of a run that is `tidy` leaves nothing
at any other name. -/
structure Atomic (uid gid : Nat) (target : Place) (data : Bytes) (before : Files)
    (tidy : List (Exchange Call Reply) → Prop) (program : Program (Option String)) : Prop where
  throughout : Throughout (Step uid gid) program before fun files =>
    files target = before target ∨ Holds files target data
  reported : Always (Step uid gid) program before fun _ problem after =>
    problem = none → Holds after target data
  cleared : Always (Step uid gid) program before fun exchanges problem after =>
    problem ≠ none → tidy exchanges → ∀ place, place ≠ target → after place = before place

variable {uid gid : Nat} {before files : Files} {target : Place} {file : File} {node new : Node}
  {failed : Bool}

/-! ## A file beside its destination -/

/-- A new file stands at its temporary name, and nothing else is changed. -/
structure Staged (before : Files) (file : File) (node : Node) (files : Files) : Prop where
  aside : file.temp ≠ file.target
  free : before file.temp = none
  files_eq : files = Function.update before file.temp (some node)

namespace Staged

theorem node_eq (h : Staged before file node files) : files file.temp = some node := by
  rw [h.files_eq, Function.update_self]

theorem target_eq (h : Staged before file node files) : files file.target = before file.target := by
  rw [h.files_eq, Function.update_of_ne h.aside.symm]

theorem change (h : Staged before file node files) (made : Node → Node) :
    Staged before file (made node) (files.change file.temp made) where
  aside := h.aside
  free := h.free
  files_eq := by
    rw [Files.change, h.node_eq, h.files_eq, Function.update_idem]
    rfl

theorem remove (h : Staged before file node files) :
    Function.update files file.temp none = before := by
  rw [h.files_eq, Function.update_idem, ← h.free, Function.update_eq_self]

/-- Put over its destination, its temporary name is gone. -/
theorem rename (h : Staged before file node files) :
    Function.update (Function.update files file.temp none) file.target (files file.temp) =
      Function.update before file.target (some node) := by
  rw [h.remove, h.node_eq]

/-- Linked at its destination, its temporary name is removed after. -/
theorem unlink (h : Staged before file node files) :
    Function.update (Function.update files file.target (files file.temp)) file.temp none =
      Function.update before file.target (some node) := by
  rw [Function.update_comm h.aside.symm, h.remove, h.node_eq]

end Staged

/-! ## From any point on -/

/-- How a write ends that has failed to remove a temporary name, or has not. -/
structure Ended (target : Place) (new : Node) (before : Files) (failed : Bool)
    (exchanges : List (Exchange Call Reply)) (problem : Option String) (after : Files) : Prop where
  reported : problem = none → after target = some new
  cleared : problem ≠ none → failed = false → exchanges.any unremoved = false →
    ∀ place, place ≠ target → after place = before place

/-- A write from where it stands, whatever is replied from here on. -/
structure Goes (uid gid : Nat) (target : Place) (new : Node) (before : Files) (failed : Bool)
    (program : Program (Option String)) (files : Files) : Prop where
  throughout : Throughout (Step uid gid) program files fun now =>
    now target = before target ∨ now target = some new
  ends : Always (Step uid gid) program files (Ended target new before failed)

theorem goes_pure {problem : Option String}
    (hkept : files target = before target ∨ files target = some new)
    (hended : Ended target new before failed [] problem files) :
    Goes uid gid target new before failed (pure problem) files where
  throughout := throughout_pure.mpr hkept
  ends := always_pure.mpr hended

/-- One call, and the rest from wherever it leads. -/
theorem goes_call {call : Call} {next : Reply call → Program (Option String)}
    (hkept : files target = before target ∨ files target = some new)
    (hnext : ∀ reply after, Step uid gid files ⟨call, reply⟩ after →
      Goes uid gid target new before (failed || unremoved ⟨call, reply⟩) (next reply) after) :
    Goes uid gid target new before failed (ask call >>= next) files where
  throughout := throughout_ask.mpr ⟨hkept, fun reply after hstep => (hnext reply after hstep).throughout⟩
  ends := by
    rw [always_bind, always_call]
    intro reply after hstep
    refine (hnext reply after hstep).ends.mono fun exchanges problem final hended => ?_
    refine ⟨hended.reported, fun hproblem hfailed hany => ?_⟩
    rw [List.singleton_append, List.any_cons, Bool.or_eq_false_iff] at hany
    exact hended.cleared hproblem (by rw [hfailed, hany.1]; rfl) hany.2

/-- A file whose handle is closed already is removed alone. -/
theorem goes_remove {problem : String} (h : Staged before file node files) :
    Goes uid gid file.target new before failed
      (ask (.remove file.temp) >>= fun _ => pure (some problem)) files := by
  apply goes_call (Or.inl h.target_eq)
  intro removed after hstep
  cases removed with
  | none =>
      obtain rfl : before = after := (hstep.trans h.remove).symm
      exact goes_pure (Or.inl rfl) ⟨by simp, fun _ _ _ _ _ => rfl⟩
  | some trouble =>
      obtain rfl : _ = after := hstep.symm
      exact goes_pure (Or.inl h.target_eq) ⟨by simp, by simp [unremoved]⟩

/-- A file given up is closed and removed. -/
theorem goes_discard {problem : String} (h : Staged before file node files) :
    Goes uid gid file.target new before failed (discard file >>= fun _ => pure (some problem))
      files := by
  simp only [discard, bind_assoc]
  apply goes_call (Or.inl h.target_eq)
  rintro closed _ rfl
  exact goes_remove h

/-- The directory is synced once the file is in place. -/
theorem goes_syncDir {dir : String} (htarget : files target = some new)
    (hclear : failed = false → ∀ place, place ≠ target → files place = before place) :
    Goes uid gid target new before failed (syncDir dir) files := by
  have hdone : ∀ (failed' : Bool) (problem : Option String), (failed' = false → failed = false) →
      Goes uid gid target new before failed' (pure problem) files := fun failed' problem hfailed =>
    goes_pure (Or.inr htarget) ⟨fun _ => htarget, fun _ h _ => hclear (hfailed h)⟩
  unfold syncDir
  apply goes_call (Or.inr htarget)
  rintro opened _ rfl
  cases opened with
  | some problem => exact hdone _ _ (by simp [unremoved])
  | none =>
      rw [← bind_pure (ask (.syncDir dir))]
      apply goes_call (Or.inr htarget)
      rintro synced _ rfl
      exact hdone _ _ (by simp [unremoved])

/-- The file is synced and closed before it is put in place, and given up where either fails. -/
theorem goes_commit {place : Program (Option String)} (h : Staged before file node files)
    (hplace : Goes uid gid file.target new before failed
      (place >>= fun placed => match placed with
        | some problem => ask (.remove file.temp) >>= fun _ => pure (some problem)
        | none => syncDir file.target.dir) files) :
    Goes uid gid file.target new before failed (commit file place) files := by
  unfold commit
  apply goes_call (Or.inl h.target_eq)
  rintro synced _ rfl
  cases synced with
  | some problem => exact goes_discard h
  | none =>
      apply goes_call (Or.inl h.target_eq)
      rintro closed _ rfl
      cases closed with
      | some problem => exact goes_remove h
      | none =>
          simp only [unremoved, Bool.or_false]
          exact hplace

theorem goes_replace (h : Staged before file node files) :
    Goes uid gid file.target node before failed (replace file) files := by
  apply goes_commit h
  apply goes_call (Or.inl h.target_eq)
  intro renamed after hstep
  cases renamed with
  | some problem =>
      obtain rfl : _ = after := hstep.symm
      exact goes_remove h
  | none =>
      obtain rfl := hstep.trans h.rename
      apply goes_syncDir (Function.update_self _ _ _)
      intro _ place hplace
      exact Function.update_of_ne hplace _ _

theorem goes_link (h : Staged before file node files) :
    Goes uid gid file.target node before failed (link file) files := by
  apply goes_commit h
  rw [bind_assoc]
  apply goes_call (Or.inl h.target_eq)
  intro linked after hstep
  cases linked with
  | some problem =>
      obtain rfl : _ = after := hstep.symm
      exact goes_remove h
  | none =>
      obtain ⟨-, rfl⟩ := hstep
      have htarget : Function.update files file.target (files file.temp) file.target = some node := by
        rw [Function.update_self, h.node_eq]
      simp only [bind_assoc, pure_bind]
      apply goes_call (Or.inr htarget)
      intro removed after hremoved
      cases removed with
      | none =>
          obtain rfl := hremoved.trans h.unlink
          apply goes_syncDir (Function.update_self _ _ _)
          intro _ place hplace
          exact Function.update_of_ne hplace _ _
      | some problem =>
          obtain rfl := hremoved
          -- The name it was written under is left, which `unremoved` says.
          exact goes_syncDir htarget (by simp [unremoved])

/-! ## Whole sessions -/

theorem goes_ending {ending : Ending} (h : Staged before file node files) :
    Goes uid gid file.target node before failed (ending.run file) files := by
  cases ending with
  | replace => exact goes_replace h
  | link => exact goes_link h
  | discard problem => exact goes_discard h

/-- An edit that fails may have done some of what it was to do. -/
theorem goes_edit (edit : Edit) {next : Option String → Program (Option String)}
    (h : Staged before file node files)
    (hfailed : ∀ other after problem, Staged before file other after →
      Goes uid gid file.target new before failed (next (some problem)) after)
    (hdone : ∀ after, Staged before file (edit.on node) after →
      Goes uid gid file.target new before failed (next none) after) :
    Goes uid gid file.target new before failed (edit.run file >>= next) files := by
  cases edit with
  | write data =>
      apply goes_call (Or.inl h.target_eq)
      intro written after hstep
      rw [show unremoved ⟨.write file.temp data, written⟩ = false from rfl, Bool.or_false]
      cases written with
      | some problem =>
          obtain ⟨part, -, rfl⟩ := hstep
          exact hfailed _ _ problem (h.change _)
      | none =>
          obtain rfl := hstep
          exact hdone _ (h.change fun node => (Edit.write data).on node)
  | chmod mode =>
      apply goes_call (Or.inl h.target_eq)
      intro changed after hstep
      rw [show unremoved ⟨.chmod file.temp mode, changed⟩ = false from rfl, Bool.or_false]
      cases changed with
      | some problem =>
          rcases hstep with rfl | rfl
          · exact hfailed _ _ problem h
          · exact hfailed _ _ problem (h.change _)
      | none =>
          obtain rfl := hstep
          exact hdone _ (h.change fun node => (Edit.chmod mode).on node)
  | chown owner group =>
      apply goes_call (Or.inl h.target_eq)
      intro changed after hstep
      rw [show unremoved ⟨.chown file.temp owner group, changed⟩ = false from rfl, Bool.or_false]
      cases changed with
      | some problem =>
          rcases hstep with rfl | rfl
          · exact hfailed _ _ problem h
          · exact hfailed _ _ problem (h.change _)
      | none =>
          obtain rfl := hstep
          exact hdone _ (h.change fun node => (Edit.chown owner group).on node)

/-- What is put in place is the file as the edits left it. -/
theorem goes_stage (ending : Ending) (edits : List Edit) (h : Staged before file node files) :
    Goes uid gid file.target (edits.foldl Edit.on node) before failed (stage file ending edits)
      files := by
  induction edits generalizing node files with
  | nil => exact goes_ending h
  | cons edit edits ih =>
      rw [stage]
      apply goes_edit edit h
      · exact fun other after problem hother => goes_discard hother
      · exact fun after hafter => ih hafter

theorem goes_session (target : Place) (mode : Nat) (edits : List Edit) (ending : Ending)
    (before : Files) :
    Goes uid gid target (edits.foldl Edit.on ⟨.regular, 1, uid, gid, mode, []⟩) before false
      (session target mode edits ending) before := by
  unfold session create
  simp only [bind_assoc]
  apply goes_call (Or.inl rfl)
  intro text now hnow
  obtain rfl : before = now := hnow.symm
  apply goes_call (Or.inl rfl)
  intro created after hcreated
  have haside : temporary target text ≠ target := (apart_self target text).symm
  cases created with
  | some problem =>
      obtain rfl : before = after := hcreated.symm
      exact goes_pure (Or.inl rfl) ⟨by simp, fun _ _ _ _ _ => rfl⟩
  | none =>
      obtain ⟨hfree, rfl⟩ := hcreated
      have hstaged : Staged before ⟨temporary target text, target⟩ ⟨.regular, 1, uid, gid, 0o600, []⟩
          (Function.update before (temporary target text)
            (some ⟨.regular, 1, uid, gid, 0o600, []⟩)) := ⟨haside, hfree, rfl⟩
      refine goes_edit (.chmod mode) hstaged ?_ ?_
      · intro other after problem hother
        exact goes_discard hother
      · intro after hafter
        exact goes_stage ending edits hafter

/-- The edits together leave a file of the bytes they write. -/
theorem foldl_on (edits : List Edit) (node : Node) :
    (edits.foldl Edit.on node).kind = node.kind ∧
      (edits.foldl Edit.on node).data = node.data ++ edits.flatMap Edit.written := by
  induction edits generalizing node with
  | nil => simp
  | cons edit edits ih =>
      obtain ⟨hkind, hdata⟩ := ih (edit.on node)
      rw [List.foldl_cons, List.flatMap_cons, hkind, hdata]
      cases edit <;> simp [Edit.on, Edit.written]

/-- Whatever edits and ending, and whichever calls fail: the destination has what it had or all
of what was written, and a failure leaves nothing else behind, unless a temporary name could
not be removed. -/
theorem session_atomic (uid gid : Nat) (target : Place) (mode : Nat) (edits : List Edit)
    (ending : Ending) (before : Files) :
    Atomic uid gid target (edits.flatMap Edit.written) before
      (fun exchanges => exchanges.any unremoved = false) (session target mode edits ending) := by
  have hgoes : Goes uid gid target (edits.foldl Edit.on ⟨.regular, 1, uid, gid, mode, []⟩) before
      false (session target mode edits ending) before := goes_session target mode edits ending before
  have hholds : ∀ files : Files,
      files target = some (edits.foldl Edit.on ⟨.regular, 1, uid, gid, mode, []⟩) →
        Holds files target (edits.flatMap Edit.written) := by
    intro files hfiles
    obtain ⟨hkind, hdata⟩ := foldl_on edits ⟨.regular, 1, uid, gid, mode, []⟩
    exact ⟨_, hfiles, hkind, hdata⟩
  refine ⟨?_, ?_, ?_⟩
  · exact hgoes.throughout.mono fun files => Or.imp_right (hholds files)
  · exact hgoes.ends.mono fun _ _ after hended hproblem => hholds after (hended.reported hproblem)
  · exact hgoes.ends.mono fun _ _ _ hended hproblem htidy => hended.cleared hproblem rfl htidy

/-- With the write refused and the removal too, what was begun is left. -/
theorem temporary_left : ¬ ∀ (uid gid : Nat) (target : Place) (mode : Nat) (edits : List Edit)
    (ending : Ending) (before : Files),
    Atomic uid gid target (edits.flatMap Edit.written) before (fun _ => True)
      (session target mode edits ending) := by
  intro h
  let fails : Call → Bool
    | .write _ _ | .remove _ => true
    | _ => false
  have hcleared := (h 0 0 ⟨"/state", "seed"⟩ 0o600 [.write [115]] .replace fun _ => none).cleared
    _ _ _ (runs_runWith (step_machine 0 0 fails) _ _)
  have hleft := hcleared (by decide) trivial ⟨"/state", ".seed.0"⟩ (by decide)
  exact absurd hleft (by decide)

end SeverinoHQ.Atomicfile
