/-
# Saving a certificate's lineage

A lineage is a directory of two files. A new one is written beside it, and the two
directories trade names in one step; a file system that cannot exchange two names gets
two renames instead. What an interrupted save left, and what the save itself put
beside the lineage, is removed on every way out.
-/

import SeverinoHQ.Math.Bytes
import SeverinoHQ.Math.Dialogue
import Mathlib.Logic.Function.Basic
import Mathlib.Tactic.Common

namespace SeverinoHQ.Providers.Lineage

open SeverinoHQ.Math Dialogue

/-! ## The directory the lineages are in -/

/-- What stands at a name: a directory with its files, or something else. -/
inductive Entry
  | dir (files : String → Option Bytes)
  | other

/-- What stands at every name beside the lineage. -/
abbrev Folder := String → Option Entry

/-- One file of a directory, changed. -/
def Folder.change (folder : Folder) (dir name : String) (made : Bytes → Bytes) : Folder :=
  Function.update folder dir ((folder dir).map fun
    | .dir files => .dir (Function.update files name ((files name).map made))
    | .other => .other)

/-- What an `Lstat` finds. -/
inductive Stat
  | found
  | missing
  | failed
  deriving DecidableEq, Repr

/-- What an exchange of two names answers. -/
inductive Exchanged
  | done
  | unsupported (problem : String)
  | failed (problem : String)
  deriving DecidableEq, Repr

inductive Call
  | mkdirAll
  | glob (start : String)
  | removeAll (name : String)
  | mkdirTemp (start : String)
  | create (dir name : String) (mode : Nat)
  | write (dir name : String) (data : Bytes)
  | sync (dir name : String)
  | close (dir name : String)
  | openDir (dir : Option String)
  | syncDir (dir : Option String)
  | lstat (name : String)
  | rename (name target : String)
  | exchangeDirs (name target : String)
  deriving DecidableEq, Repr

/-- A call's error, where it has one, or what it answers. -/
@[reducible]
def Reply : Call → Type
  | .glob _ => Option (List String)
  | .mkdirTemp _ => Except String String
  | .lstat _ => Stat
  | .exchangeDirs _ _ => Exchanged
  | _ => Option String

/-- What a call did, by its reply. A call that fails did nothing, but for a removal, which
may have removed any part, and a write, which may have written one. -/
def Step (before : Folder) : Exchange Call Reply → Folder → Prop
  | ⟨.glob start, names⟩, after =>
      after = before ∧ ∀ name ∈ names.getD [], start.toList <+: name.toList
  | ⟨.removeAll name, none⟩, after => after = Function.update before name none
  | ⟨.removeAll name, some _⟩, after => ∃ left, after = Function.update before name left
  | ⟨.mkdirTemp start, .ok name⟩, after =>
      start.toList <+: name.toList ∧ before name = none ∧
        after = Function.update before name (some (.dir fun _ => none))
  | ⟨.create dir name _, none⟩, after =>
      ∃ files, before dir = some (.dir files) ∧ files name = none ∧
        after = Function.update before dir (some (.dir (Function.update files name (some []))))
  | ⟨.write dir name data, none⟩, after => after = before.change dir name (· ++ data)
  | ⟨.write dir name data, some _⟩, after =>
      ∃ part, part <+: data ∧ after = before.change dir name (· ++ part)
  | ⟨.lstat name, stat⟩, after =>
      after = before ∧ (stat = .found → before name ≠ none) ∧ (stat = .missing → before name = none)
  | ⟨.rename name target, none⟩, after =>
      before name ≠ none ∧
        after = Function.update (Function.update before name none) target (before name)
  | ⟨.exchangeDirs name target, .done⟩, after =>
      before name ≠ none ∧ before target ≠ none ∧
        after = Function.update (Function.update before name (before target)) target (before name)
  | ⟨.mkdirAll, _⟩, after => after = before
  | ⟨.mkdirTemp _, .error _⟩, after => after = before
  | ⟨.create _ _ _, some _⟩, after => after = before
  | ⟨.sync _ _, _⟩, after => after = before
  | ⟨.close _ _, _⟩, after => after = before
  | ⟨.openDir _, _⟩, after => after = before
  | ⟨.syncDir _, _⟩, after => after = before
  | ⟨.rename _ _, some _⟩, after => after = before
  | ⟨.exchangeDirs _ _, .unsupported _⟩, after => after = before
  | ⟨.exchangeDirs _ _, .failed _⟩, after => after = before

abbrev Program := Dialogue Call Reply

abbrev ask (call : Call) : Program (Reply call) := Dialogue.call call

/-! ## The save -/

/-- A step, and the next where it has no error. -/
def andThen (first next : Program (Option String)) : Program (Option String) := do
  let problem ← first
  match problem with
  | some problem => return some problem
  | none => next

/-- A new file, flushed; one that is not written whole is closed all the same. -/
def writeNew (dir name : String) (data : Bytes) (mode : Nat) : Program (Option String) :=
  andThen (ask (.create dir name mode)) do
    let written : Option String ← ask (.write dir name data)
    match written with
    | some problem =>
        let _ ← ask (.close dir name)
        return some problem
    | none =>
        let synced : Option String ← ask (.sync dir name)
        match synced with
        | some problem =>
            let _ ← ask (.close dir name)
            return some problem
        | none => ask (.close dir name)

/-- `SyncDir`, of the lineages' directory where none is named. -/
def syncDir (dir : Option String) : Program (Option String) :=
  andThen (ask (.openDir dir)) (ask (.syncDir dir))

/-- Where the fallback keeps the lineage it moves away. -/
def previous (staged : String) : String := staged ++ ".previous"

/-- The fallback of `replaceDir`, where two names cannot be exchanged. -/
def moveAside (staged base : String) : Program (Option String) := do
  let moved : Option String ← ask (.rename base (previous staged))
  match moved with
  | some problem => return some problem
  | none =>
      let problem : Option String ← ask (.rename staged base)
      let _ ← ask (.removeAll (previous staged))
      return problem

/-- `replaceDir` over a lineage that is there. -/
def trade (staged base : String) : Program (Option String) := do
  let exchanged : Exchanged ← ask (.exchangeDirs staged base)
  match exchanged with
  | .done => return none
  | .failed problem => return some problem
  | .unsupported _ => moveAside staged base

/-- `staged`, put at the lineage's name. -/
def replaceDir (staged base : String) : Program (Option String) := do
  let stat : Stat ← ask (.lstat base)
  match stat with
  | .missing => ask (.rename staged base)
  | _ => trade staged base

/-- The names an interrupted save may have left, removed; a removal's error is not read. -/
def removeEach : List String → Program Unit
  | [] => return ()
  | name :: names => do
      let _ ← ask (.removeAll name)
      removeEach names

/-- What an interrupted save left beside the lineage, removed. -/
def clear (base : String) : Program Unit := do
  let leftovers : Option (List String) ← ask (.glob ("." ++ base ++ "."))
  removeEach (leftovers.getD [])

/-- The two files of a lineage, written to a directory and synced with it. -/
def stage (staged : String) (fullchain privateKey : Bytes) : Program (Option String) :=
  andThen (writeNew staged "fullchain.pem" fullchain 0o644)
    (andThen (writeNew staged "privkey.pem" privateKey 0o600) (syncDir (some staged)))

/-- A certificate, put where `readLineage` finds it. -/
def saveLineage (base : String) (fullchain privateKey : Bytes) : Program (Option String) :=
  andThen (ask .mkdirAll) do
    clear base
    let made : Except String String ← ask (.mkdirTemp ("." ++ base ++ "."))
    match made with
    | .error problem => return some problem
    | .ok staged =>
        let problem ← andThen (stage staged fullchain privateKey)
          (andThen (replaceDir staged base) (syncDir none))
        let _ ← ask (.removeAll staged)
        return problem

/-! ## What stays beside the lineage -/

section Beside

variable {base name : String} {before : Folder} {ends : List (Exchange Call Reply) →
  Option String → Folder → Prop}

/-- A name begun as the save begins its own is not the lineage's. -/
theorem ne_of_initial (h : ("." ++ base ++ ".").toList <+: name.toList) : name ≠ base := by
  rintro rfl
  have hlength := h.length_le
  have hdot : ".".toList.length = 1 := rfl
  simp only [String.toList_append, List.length_append, hdot] at hlength
  omega

theorem previous_ne (staged : String) : previous staged ≠ staged := by
  intro hsame
  simpa [previous] using congrArg String.toList hsame

theorem previous_initial {staged : String} (h : ("." ++ base ++ ".").toList <+: staged.toList) :
    ("." ++ base ++ ".").toList <+: (previous staged).toList := by
  have happend : (previous staged).toList = staged.toList ++ ".previous".toList :=
    String.toList_append
  rw [happend]
  exact h.trans (List.prefix_append _ _)

/-- A call that moves nothing and touches another name. -/
def Aside (base : String) : Call → Prop
  | .removeAll name => name ≠ base
  | .create dir _ _ => dir ≠ base
  | .write dir _ _ => dir ≠ base
  | .mkdirTemp start => start = "." ++ base ++ "."
  | .rename _ _ => False
  | .exchangeDirs _ _ => False
  | _ => True

theorem Aside.same {exchange : Exchange Call Reply} {after : Folder} (h : Aside base exchange.1)
    (hstep : Step before exchange after) : after base = before base := by
  obtain ⟨call, reply⟩ := exchange
  cases call with
  | removeAll name =>
      cases reply with
      | none => exact hstep ▸ Function.update_of_ne (Ne.symm h) _ _
      | some problem =>
          obtain ⟨left, rfl⟩ := hstep
          exact Function.update_of_ne (Ne.symm h) _ _
  | create dir name mode =>
      cases reply with
      | none =>
          obtain ⟨files, -, -, rfl⟩ := hstep
          exact Function.update_of_ne (Ne.symm h) _ _
      | some problem => exact hstep ▸ rfl
  | write dir name data =>
      cases reply with
      | none => exact hstep ▸ Function.update_of_ne (Ne.symm h) _ _
      | some problem =>
          obtain ⟨part, -, rfl⟩ := hstep
          exact Function.update_of_ne (Ne.symm h) _ _
  | mkdirTemp start =>
      cases reply with
      | ok name =>
          obtain ⟨hinitial, -, rfl⟩ := hstep
          obtain rfl : start = "." ++ base ++ "." := h
          exact Function.update_of_ne (ne_of_initial hinitial).symm _ _
      | error problem => exact hstep ▸ rfl
  | glob start => exact hstep.1 ▸ rfl
  | lstat name => exact hstep.1 ▸ rfl
  | rename name target => exact h.elim
  | exchangeDirs name target => exact h.elim
  | _ => exact hstep ▸ rfl

/-- The lineage, moved away with nothing put in its place. -/
def Unplaced (base : String) (exchanges : List (Exchange Call Reply)) : Prop :=
  ∃ staged problem, (⟨.rename base (previous staged), none⟩ : Exchange Call Reply) ∈ exchanges ∧
    (⟨.rename staged base, some problem⟩ : Exchange Call Reply) ∈ exchanges

/-- Nothing is moved. -/
def Still (exchanges : List (Exchange Call Reply)) : Prop :=
  ∀ exchange ∈ exchanges, ∀ name target, exchange.1 ≠ .rename name target

theorem unplaced_append_of_still {first second : List (Exchange Call Reply)} (h : Still first) :
    Unplaced base (first ++ second) ↔ Unplaced base second := by
  simp only [Unplaced, List.mem_append]
  constructor
  · rintro ⟨staged, problem, haway | haway, hback | hback⟩
    · exact absurd rfl (h _ haway _ _)
    · exact absurd rfl (h _ haway _ _)
    · exact absurd rfl (h _ hback _ _)
    · exact ⟨staged, problem, haway, hback⟩
  · rintro ⟨staged, problem, haway, hback⟩
    exact ⟨staged, problem, Or.inr haway, Or.inr hback⟩

theorem unplaced_append_still {first second : List (Exchange Call Reply)} (h : Still second) :
    Unplaced base (first ++ second) ↔ Unplaced base first := by
  simp only [Unplaced, List.mem_append]
  constructor
  · rintro ⟨staged, problem, haway | haway, hback | hback⟩
    · exact ⟨staged, problem, haway, hback⟩
    · exact absurd rfl (h _ hback _ _)
    · exact absurd rfl (h _ haway _ _)
    · exact absurd rfl (h _ haway _ _)
  · rintro ⟨staged, problem, haway, hback⟩
    exact ⟨staged, problem, Or.inl haway, Or.inl hback⟩

/-- A program of such calls moves nothing and leaves the lineage as it was. -/
theorem aside_always {α : Type} {program : Program α} (h : program.Only (Aside base)) :
    Always Step program before fun exchanges _ final =>
      Still exchanges ∧ final base = before base := by
  have hkeeps : Always Step program before fun _ _ final => final base = before base :=
    @Only.keeps _ _ _ _ Step before (Aside base) program h
      (fun first second => second base = first base) (fun _ => rfl)
      (fun _ _ _ hfirst hsecond => Eq.trans hsecond hfirst) fun _ _ _ hcall hstep => hcall.same hstep
  refine (h.exchanges.and hkeeps).mono ?_
  rintro exchanges result final ⟨hcalls, hsame⟩
  refine ⟨fun exchange hmem name target heq => ?_, hsame⟩
  have hcall := hcalls exchange hmem
  rw [heq] at hcall
  exact hcall

theorem only_andThen {allowed : Call → Prop} {first next : Program (Option String)}
    (hfirst : first.Only allowed) (hnext : next.Only allowed) : (andThen first next).Only allowed := by
  refine hfirst.bind fun problem => ?_
  cases problem with
  | none => exact hnext
  | some problem => exact only_pure _

theorem always_andThen {first next : Program (Option String)} :
    Always Step (andThen first next) before ends ↔
      Always Step first before fun exchanges problem between =>
        (problem ≠ none → ends exchanges problem between) ∧
          (problem = none → Always Step next between fun more => ends (exchanges ++ more)) := by
  unfold andThen
  rw [always_bind]
  refine forall₄_congr fun exchanges problem between _ => ?_
  cases problem with
  | none => simp
  | some problem =>
      show Always Step (pure (some problem)) between _ ↔ _
      rw [always_pure, List.append_nil]
      simp

theorem writeNew_only {dir : String} {data : Bytes} {mode : Nat} (hdir : dir ≠ base) :
    (writeNew dir name data mode).Only (Aside base) := by
  refine only_andThen ((only_call _).mpr hdir) (Only.bind ((only_call _).mpr hdir) fun written => ?_)
  cases written with
  | some problem => exact Only.bind ((only_call _).mpr trivial) fun _ => only_pure _
  | none =>
      refine Only.bind ((only_call _).mpr trivial) fun synced => ?_
      cases synced with
      | some problem => exact Only.bind ((only_call _).mpr trivial) fun _ => only_pure _
      | none => exact (only_call _).mpr trivial

theorem syncDir_only (dir : Option String) : (syncDir dir).Only (Aside base) :=
  only_andThen ((only_call _).mpr trivial) ((only_call _).mpr trivial)

theorem stage_only {staged : String} {fullchain privateKey : Bytes} (hstaged : staged ≠ base) :
    (stage staged fullchain privateKey).Only (Aside base) :=
  only_andThen (writeNew_only hstaged)
    (only_andThen (writeNew_only hstaged) (syncDir_only _))

theorem removeEach_only {names : List String} (h : ∀ name ∈ names, name ≠ base) :
    (removeEach names).Only (Aside base) := by
  induction names with
  | nil => exact only_pure _
  | cons name names ih =>
      exact Only.bind ((only_call _).mpr (h name (by simp)))
        fun _ => ih fun other hother => h other (by simp [hother])

end Beside

/-! ## What a save leaves -/

section Saving

variable {base staged : String} {before : Folder} {files : String → Option Bytes}
  {fullchain privateKey : Bytes}

/-- A whole lineage. -/
def pair (fullchain privateKey : Bytes) : Entry :=
  .dir (Function.update (Function.update (fun _ => none) "fullchain.pem" (some fullchain))
    "privkey.pem" (some privateKey))

/-- The lineage is as it was or the new one, whole, and the new one where the save says so. -/
def Saved (base : String) (before : Folder) (new : Entry) (problem : Option String)
    (after : Folder) : Prop :=
  (after base = before base ∨ after base = some new) ∧ (problem = none → after base = some new)

/-- A file written whole is in its directory beside what was there. -/
theorem writeNew_done {name : String} {data : Bytes} {mode : Nat}
    (hdir : before staged = some (.dir files)) :
    Always Step (writeNew staged name data mode) before fun _ problem after =>
      problem = none → after staged = some (.dir (Function.update files name (some data))) := by
  unfold writeNew
  rw [always_andThen, always_call]
  intro problem between hcreated
  refine ⟨fun hsome hnone => absurd hnone hsome, ?_⟩
  rintro rfl
  obtain ⟨held, hheld, -, rfl⟩ := hcreated
  obtain rfl : files = held := by simpa [hdir] using hheld
  rw [always_bind, always_call]
  intro written after hwritten
  cases written with
  | some problem =>
      rw [always_bind, always_call]
      intro _ _ _
      simp
  | none =>
      have hafter : after staged = some (.dir (Function.update files name (some data))) := by
        rw [show after = _ from hwritten]
        simp [Folder.change]
      rw [always_bind, always_call]
      intro synced flushed hsynced
      obtain rfl : flushed = after := hsynced
      cases synced with
      | some problem =>
          rw [always_bind, always_call]
          intro _ _ _
          simp
      | none =>
          rw [always_call]
          rintro problem closed hclosed -
          exact hclosed ▸ hafter

theorem syncDir_same (dir : Option String) :
    Always Step (syncDir dir) before fun _ _ after => after = before := by
  unfold syncDir
  rw [always_andThen, always_call]
  rintro problem opened hopened
  obtain rfl : opened = before := hopened
  refine ⟨fun _ => rfl, fun _ => ?_⟩
  rw [always_call]
  exact fun _ _ hsynced => hsynced

/-- What is staged without an error is a whole lineage. -/
theorem stage_done (hdir : before staged = some (.dir fun _ => none)) :
    Always Step (stage staged fullchain privateKey) before fun _ problem after =>
      problem = none → after staged = some (pair fullchain privateKey) := by
  unfold stage
  rw [always_andThen]
  refine (writeNew_done hdir).mono fun _ problem chained hchained => ?_
  refine ⟨fun hsome hnone => absurd hnone hsome, fun hdone => ?_⟩
  rw [always_andThen]
  refine (writeNew_done (hchained hdone)).mono fun _ problem keyed hkeyed => ?_
  refine ⟨fun hsome hnone => absurd hnone hsome, fun hdone => ?_⟩
  refine (syncDir_same _).mono ?_
  rintro _ problem synced rfl -
  exact hkeyed hdone

/-- A replacement leaves one lineage or the other, and the new one where it succeeded, unless it
moved the old one away and did not get the new one in its place. -/
structure Replaces (base : String) (before : Folder) (new : Entry)
    (exchanges : List (Exchange Call Reply)) (problem : Option String) (after : Folder) : Prop where
  placed : problem = none → after base = some new ∧ ¬Unplaced base exchanges
  saved : Saved base before new problem after ↔ ¬Unplaced base exchanges

theorem Replaces.behind {new : Entry} {exchange : Exchange Call Reply}
    {exchanges : List (Exchange Call Reply)} {problem : Option String} {after : Folder}
    (h : Replaces base before new exchanges problem after)
    (hstill : ∀ name target, exchange.1 ≠ .rename name target) :
    Replaces base before new (exchange :: exchanges) problem after := by
  have hsame : Unplaced base ([exchange] ++ exchanges) ↔ Unplaced base exchanges :=
    unplaced_append_of_still (by simpa [Still] using hstill)
  rw [List.singleton_append] at hsame
  constructor
  · rw [hsame]
    exact h.placed
  · rw [hsame]
    exact h.saved

section Replacement

variable {new : Entry} (hstaged : ("." ++ base ++ ".").toList <+: staged.toList)
  (hnew : before staged = some new)

include hstaged hnew

/-- The fallback: the old lineage is gone exactly where it was moved and the new one was not. -/
theorem moveAside_replaces : Always Step (moveAside staged base) before (Replaces base before new) := by
  have hne := ne_of_initial hstaged
  have hprevious := ne_of_initial (previous_initial hstaged)
  unfold moveAside
  rw [always_bind, always_call]
  intro moved away haway
  cases moved with
  | some problem =>
      obtain rfl : away = before := haway
      exact always_pure.mpr ⟨by simp, by simp [Unplaced, Saved]⟩
  | none =>
      obtain ⟨hheld, rfl⟩ := haway
      rw [always_bind, always_call]
      intro placed back hback
      rw [always_bind, always_call]
      intro removed after hremoved
      have hafter : after base = back base := by
        have haside : Aside base (.removeAll (previous staged)) := hprevious
        exact @Aside.same _ _ ⟨.removeAll (previous staged), removed⟩ _ haside hremoved
      rw [always_pure]
      cases placed with
      | none =>
          obtain ⟨-, rfl⟩ := hback
          have hplaced : after base = some new := by
            rw [hafter]
            simp [Function.update_of_ne (previous_ne staged).symm, Function.update_of_ne hne, hnew]
          exact ⟨by simp [Unplaced, hplaced], by simp [Unplaced, Saved, hplaced]⟩
      | some problem =>
          obtain rfl := hback
          have hgone : after base = none := by
            rw [hafter]
            simp [Function.update_of_ne hprevious.symm]
          -- the lineage was there, and nothing is
          have hlost : ¬Saved base before new (some problem) after := by
            rintro ⟨hsame | hplaced, -⟩
            · exact hheld (hsame.symm.trans hgone)
            · cases hgone.symm.trans hplaced
          refine ⟨by simp, iff_of_false hlost (not_not.mpr ⟨staged, problem, ?_, ?_⟩)⟩
          · simp
          · simp

theorem trade_replaces : Always Step (trade staged base) before (Replaces base before new) := by
  unfold trade
  rw [always_bind, always_call]
  intro exchanged traded htraded
  cases exchanged with
  | done =>
      obtain ⟨-, -, rfl⟩ := htraded
      exact always_pure.mpr ⟨by simp [Unplaced, hnew], by simp [Unplaced, Saved, hnew]⟩
  | failed problem =>
      obtain rfl : traded = before := htraded
      exact always_pure.mpr ⟨by simp, by simp [Unplaced, Saved]⟩
  | unsupported problem =>
      obtain rfl : traded = before := htraded
      exact (moveAside_replaces hstaged hnew).mono fun _ _ _ h => h.behind (by simp)

theorem replaceDir_saved : Always Step (replaceDir staged base) before (Replaces base before new) := by
  unfold replaceDir
  rw [always_bind, always_call]
  intro stat looked hlooked
  obtain rfl : looked = before := hlooked.1
  cases stat with
  | missing =>
      rw [always_call]
      intro placed after hplaced
      cases placed with
      | none =>
          obtain ⟨-, rfl⟩ := hplaced
          exact ⟨by simp [Unplaced, hnew], by simp [Unplaced, Saved, hnew]⟩
      | some problem =>
          obtain rfl : after = looked := hplaced
          exact ⟨by simp, by simp [Unplaced, Saved]⟩
  | found | failed => exact (trade_replaces hstaged hnew).mono fun _ _ _ h => h.behind (by simp)

end Replacement

/-- Nothing moved and an error: the lineage is as it was. -/
theorem saved_of_still {new : Entry} {exchanges : List (Exchange Call Reply)} {after : Folder}
    {problem : Option String} (hstill : Still exchanges) (hsame : after base = before base)
    (hproblem : problem ≠ none) : Saved base before new problem after ↔ ¬Unplaced base exchanges := by
  refine iff_of_true ⟨Or.inl hsame, fun hnone => absurd hnone hproblem⟩ ?_
  rintro ⟨staged, problem, haway, -⟩
  exact hstill _ haway _ _ rfl

/-- What a save does with the directory it was given. -/
theorem staged_saved (hstaged : ("." ++ base ++ ".").toList <+: staged.toList)
    (hdir : before staged = some (.dir fun _ => none)) :
    Always Step (andThen (stage staged fullchain privateKey)
        (andThen (replaceDir staged base) (syncDir none))) before fun exchanges problem after =>
      Saved base before (pair fullchain privateKey) problem after ↔ ¬Unplaced base exchanges := by
  have hne := ne_of_initial hstaged
  rw [always_andThen]
  refine ((aside_always (stage_only hne)).and (stage_done hdir)).mono ?_
  rintro first problem between ⟨⟨hstill, hsame⟩, hdone⟩
  refine ⟨saved_of_still hstill hsame, ?_⟩
  rintro rfl
  rw [always_andThen]
  refine (replaceDir_saved hstaged (hdone rfl)).mono ?_
  rintro second problem placed ⟨hnew, hsaved⟩
  have hsaved : Saved base before (pair fullchain privateKey) problem placed ↔
      ¬Unplaced base (first ++ second) := by
    rw [unplaced_append_of_still hstill, ← hsaved, Saved, Saved, hsame]
  refine ⟨fun _ => hsaved, ?_⟩
  rintro rfl
  obtain ⟨hplaced, hkept⟩ := hnew rfl
  refine ((aside_always (@syncDir_only base none)).and (syncDir_same none)).mono ?_
  rintro third problem after ⟨⟨hquiet, -⟩, rfl⟩
  rw [← List.append_assoc, unplaced_append_still hquiet, unplaced_append_of_still hstill]
  exact iff_of_true ⟨Or.inr hplaced, fun _ => hplaced⟩ hkept

theorem clear_aside : Always Step (clear base) before fun exchanges _ after =>
    Still exchanges ∧ after base = before base := by
  unfold clear
  rw [always_bind, always_call]
  rintro leftovers listed ⟨rfl, hnames⟩
  have hothers : ∀ name ∈ leftovers.getD [], name ≠ base := fun name hmem =>
    ne_of_initial (hnames name hmem)
  refine (aside_always (removeEach_only hothers)).mono ?_
  rintro first _ cleared ⟨hstill, hsame⟩
  refine ⟨fun exchange hmem name target => ?_, hsame⟩
  rcases List.mem_append.mp hmem with hmem | hmem
  · obtain rfl := List.mem_singleton.mp hmem
    simp
  · exact hstill exchange hmem name target

/-- When a save returns, the lineage is the one before or the new one, whole, and the new
one where it succeeded, exactly unless the fallback moved the old one away and did not get
the new one in its place. -/
theorem saveLineage_saved_iff {exchanges : List (Exchange Call Reply)} {problem : Option String}
    {after : Folder}
    (hruns : Runs Step (saveLineage base fullchain privateKey) before exchanges problem after) :
    Saved base before (pair fullchain privateKey) problem after ↔ ¬Unplaced base exchanges := by
  refine (?_ : Always Step (saveLineage base fullchain privateKey) before fun exchanges problem after =>
    Saved base before (pair fullchain privateKey) problem after ↔ ¬Unplaced base exchanges) _ _ _ hruns
  unfold saveLineage
  rw [always_andThen, always_call]
  intro made between hmade
  obtain rfl : before = between := Eq.symm hmade
  refine ⟨saved_of_still (by simp [Still]) rfl, ?_⟩
  rintro rfl
  rw [always_bind]
  refine clear_aside.mono ?_
  rintro first _ cleared ⟨hstill, hsame⟩
  rw [always_bind, always_call]
  intro staged begun hbegun
  have hmaking : Still ((⟨.mkdirAll, none⟩ : Exchange Call Reply) ::
      (first ++ [⟨.mkdirTemp ("." ++ base ++ "."), staged⟩])) := by
    intro exchange hmem name target
    rcases List.mem_cons.mp hmem with rfl | hmem
    · simp
    · rcases List.mem_append.mp hmem with hmem | hmem
      · exact hstill exchange hmem name target
      · obtain rfl := List.mem_singleton.mp hmem
        simp
  have hbase : begun base = before base := by
    have haside : Aside base (.mkdirTemp ("." ++ base ++ ".")) := rfl
    exact (haside.same hbegun).trans hsame
  cases staged with
  | error problem =>
      rw [always_pure]
      simpa using saved_of_still hmaking hbase (by simp)
  | ok staged =>
      obtain ⟨hinitial, hfree, rfl⟩ := hbegun
      rw [always_bind]
      refine (staged_saved hinitial (by simp)).mono ?_
      intro second problem placed hsaved
      rw [always_bind, always_call]
      intro removed after hremoved
      have hafter : after base = placed base := by
        have haside : Aside base (.removeAll staged) := ne_of_initial hinitial
        exact haside.same hremoved
      have hquiet : Still [(⟨.removeAll staged, removed⟩ : Exchange Call Reply)] := by
        simp [Still]
      rw [always_pure]
      have hshape : ∀ last : List (Exchange Call Reply),
          [⟨.mkdirAll, none⟩] ++ (first ++ ([⟨.mkdirTemp ("." ++ base ++ "."), .ok staged⟩] ++
            (second ++ (last ++ [])))) =
          ((⟨.mkdirAll, none⟩ :: (first ++ [⟨.mkdirTemp ("." ++ base ++ "."), .ok staged⟩])) ++
            second) ++ last := by
        simp
      rw [hshape, unplaced_append_still hquiet, unplaced_append_of_still hmaking, ← hsaved,
        Saved, Saved, hafter, hbase]

end Saving

/-! ## A file system without exchange -/

/-- A call done, or refused. -/
def attempt (refused : Bool) (folder after : Folder) : Option String × Folder :=
  if refused then (some "failed", folder) else (none, after)

/-- A file system that cannot exchange two names: every other call does what it is asked,
but for those that fail. -/
def machine (fails : Call → Bool) (folder : Folder) : (call : Call) → Reply call × Folder
  | .mkdirAll => (none, folder)
  | .glob _ => (some [], folder)
  | .removeAll name => (none, Function.update folder name none)
  | .mkdirTemp start =>
      if (folder (start ++ "0")).isSome then (.error "exists", folder)
      else (.ok (start ++ "0"), Function.update folder (start ++ "0") (some (.dir fun _ => none)))
  | .create dir name _ =>
      match folder dir with
      | some (.dir files) =>
          attempt (files name).isSome folder
            (Function.update folder dir (some (.dir (Function.update files name (some [])))))
      | _ => (some "no directory", folder)
  | .write dir name data => (none, folder.change dir name (· ++ data))
  | .sync _ _ => (none, folder)
  | .close _ _ => (none, folder)
  | .openDir _ => (none, folder)
  | .syncDir _ => (none, folder)
  | .lstat name => (if (folder name).isSome then .found else .missing, folder)
  | .rename name target =>
      attempt (fails (.rename name target) || (folder name).isNone) folder
        (Function.update (Function.update folder name none) target (folder name))
  | .exchangeDirs _ _ => (.unsupported "not supported", folder)

theorem step_machine (fails : Call → Bool) (folder : Folder) (call : Call) :
    Step folder ⟨call, (machine fails folder call).1⟩ (machine fails folder call).2 := by
  cases call with
  | glob start => exact ⟨rfl, by simp [machine]⟩
  | mkdirTemp start =>
      by_cases htaken : (folder (start ++ "0")).isSome
      · simp [machine, htaken, Step]
      · have hfree : folder (start ++ "0") = none := by simpa using htaken
        simp [machine, hfree, Step]
  | create dir name mode =>
      cases hdir : folder dir with
      | none => simp [machine, hdir, Step]
      | some entry =>
          cases entry with
          | other => simp [machine, hdir, Step]
          | dir files =>
              cases hname : files name <;> simp [machine, hdir, hname, attempt, Step]
  | lstat name =>
      cases hname : folder name <;> simp [machine, hname, Step]
  | rename name target =>
      cases hname : folder name with
      | none => simp [machine, hname, attempt, Step]
      | some entry =>
          cases hfails : fails (.rename name target) <;>
            simp [machine, hname, hfails, attempt, Step]
  | _ => rfl

/-- A lineage named `a`, whole. -/
def heldFolder : Folder := Function.update (fun _ => none) "a" (some (pair [1] [2]))

/-- A rename that failed. -/
def unmoved : Exchange Call Reply → Bool
  | ⟨.rename _ _, some _⟩ => true
  | _ => false

theorem not_unplaced {base : String} {exchanges : List (Exchange Call Reply)}
    (h : exchanges.any unmoved = false) : ¬Unplaced base exchanges := by
  rintro ⟨staged, problem, -, hback⟩
  simpa [unmoved] using List.any_eq_false.mp h _ hback

/-- The fallback's two renames put the new lineage in place. -/
theorem fallback_saved :
    ∃ exchanges problem after,
      Runs Step (saveLineage "a" [3] [4]) heldFolder exchanges problem after ∧
        Saved "a" heldFolder (pair [3] [4]) problem after := by
  have hruns := runs_runWith (step_machine fun _ => false) (saveLineage "a" [3] [4]) heldFolder
  exact ⟨_, _, _, hruns, (saveLineage_saved_iff hruns).mpr (not_unplaced (by decide))⟩

/-- The fallback's second rename fails, and the lineage moved away is removed: none is left. -/
theorem fallback_unsaved :
    ∃ exchanges problem after,
      Runs Step (saveLineage "a" [3] [4]) heldFolder exchanges problem after ∧
        heldFolder "a" = some (pair [1] [2]) ∧ after "a" = none ∧
        ¬Saved "a" heldFolder (pair [3] [4]) problem after := by
  have hruns := runs_runWith (step_machine fun call => call = .rename ".a.0" "a")
    (saveLineage "a" [3] [4]) heldFolder
  refine ⟨_, _, _, hruns, rfl, rfl, ?_⟩
  rintro ⟨hsame | hnew, -⟩
  · exact absurd hsame (by rintro ⟨⟩)
  · exact absurd hnew (by rintro ⟨⟩)

end SeverinoHQ.Providers.Lineage
