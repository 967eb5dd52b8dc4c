/-
# A stored answer stands until it expires

Over tables that did not change, running a derivation again before its answer
expires gives the answer again, as long as it asks the clock plain questions.
This needs every moment the clock was asked about to have been told to the
derivation, which a read remembered from before it began is not.
-/

import SeverinoHQ.Derivations.Answers

namespace SeverinoHQ.Derivations

open SeverinoHQ.Math

variable {V : Type}

/-- An answer of the clock. -/
def Item.isAsked : Item V → Bool
  | .asked _ _ => true
  | _ => false

/-- From its last question to the clock on and before it expires, an answer over
the tables it read is what running again gives, if its questions were plain. -/
def Entry.Stands (env : Environment V) (entry : Entry V) : Prop :=
  ∀ (rows : String → V) (later : Int),
    (∀ question clock, .asked question clock ∈ entry.evidence →
      question.Plain env.zone clock ∧ clock ≤ later) →
    (∀ moment ∈ entry.expires, later < moment.instant env.zone) →
    (∀ table revision found, .read table revision found ∈ entry.evidence → rows table = found) →
    ∀ value, Evaluates env rows later ((env.derivation entry.derivation).compute entry.variant)
      value ↔ value = entry.value

/-- An answer that covers what it asked of the clock stands. -/
theorem Entry.stands_of_covers {env : Environment V} {entry : Entry V}
    (hexplained : Explains env entry.evidence
      ((env.derivation entry.derivation).compute entry.variant) entry.value)
    (hcovers : Covers env (fun item => item.isAsked && !item.isRead) entry.expires []
      entry.evidence) : entry.Stands env := by
  intro rows later hplain hexpires hrows value
  have hagrees : Agrees env entry.evidence rows later := by
    intro item hitem
    cases item with
    | read table revision found => exact hrows table revision found hitem
    | expiry moment => trivial
    | asked question clock =>
        obtain ⟨hplain, hle⟩ := hplain question clock hitem
        apply hplain.stands later hle
        intro moment hmoment
        have hcovered : ∀ moment ∈ question.boundary env.zone clock,
            NoLater env.zone entry.expires moment := hcovers _ hitem rfl
        obtain ⟨current, hcurrent, hearlier⟩ := hcovered moment hmoment
        exact (hexpires current hcurrent).trans_le hearlier
  have hvalue := hexplained rows later hagrees
  constructor
  · exact fun h => h.unique hvalue
  · rintro rfl
    exact hvalue

/-- In a run that tells every derivation of what it asked of the clock, every
stored answer stands until it expires. -/
theorem run_entries_stand {env : Environment V} {now : Int} {rows : String → V}
    {revision : String → Nat} {events : List (Event V)}
    (hmeets : Meets (step env) (Tells env Item.isAsked) (World.start now rows revision) events) :
    ∀ entry ∈ (run (step env) (World.start now rows revision) events).cache,
      entry.Stands env := by
  intro entry hentry
  apply Entry.stands_of_covers
  · exact (run_explained env now rows revision events).cache entry hentry
  · exact (run_told hmeets).cache entry hentry

/-! ## The dashboard -/

/-- Universal time. -/
def universal : Zone := ⟨0, [], Zone.sorted_nil⟩

/-- The year to date is read once, by the day; the sections and the snapshot of
the dashboard both show it, and the snapshot shows the sections. -/
def dashboard : Environment Nat where
  zone := universal
  loader name :=
    if name = "sections.expenses" then
      .clock .today fun
        | .day today => .read "expenses" fun total => .ret (total + today.toNat)
        | _ => .ret 0
    else .ret 0
  derivation name :=
    if name = "dashboard.sections" then
      ⟨["expenses"], fun _ => .once "sections.expenses" .ret, false⟩
    else
      ⟨["expenses"], fun _ => .once "sections.expenses" fun _ =>
        .ask "dashboard.sections" "" .ret, false⟩

/-- One request that asks `derivation` in a projection, run to its end. -/
def asking (derivation : String) : List (Event Nat) :=
  .request 0 0 (.scope false (.ask derivation "" .ret) .ret) :: List.replicate 20 (.advance 0 .fine)

/-- The dashboard's tables before a request, with 40 spent. -/
def spent : World Nat := .start 0 (fun _ => 40) fun _ => 0

theorem sections_stand :
    Meets (step dashboard) (Tells dashboard Item.isAsked) spent (asking "dashboard.sections") ∧
      (run (step dashboard) spent (asking "dashboard.sections")).cache.map Entry.value = [40] ∧
      ∀ entry ∈ (run (step dashboard) spent (asking "dashboard.sections")).cache,
        entry.Stands dashboard :=
  have hmeets : Meets (step dashboard) (Tells dashboard Item.isAsked) spent
      (asking "dashboard.sections") := by decide
  ⟨hmeets, by decide, run_entries_stand hmeets⟩

/-- The sections, asked inside the snapshot, which has read the year to date by
then: they are stored with no expiry, and the next day they are out of date. -/
theorem sections_outdated :
    ¬ ∀ entry ∈ (run (step dashboard) spent (asking "dashboard.snapshot")).cache,
      entry.Stands dashboard := by
  intro h
  have hmem : (⟨"dashboard.sections", "", ⟨["expenses"], fun _ => 0⟩, 40, none,
      [.asked .today 0, .read "expenses" 0 40]⟩ : Entry Nat) ∈
        (run (step dashboard) spent (asking "dashboard.snapshot")).cache :=
    List.mem_of_getElem? (show _[1]? = some _ from rfl)
  have hstands := h _ hmem (fun _ => 40) dayLength
  have hloaded : Evaluates dashboard (fun _ => 40) dayLength
      (dashboard.loader "sections.expenses") 41 := .clock rfl (.read (.ret 41))
  have htomorrow : Evaluates dashboard (fun _ => 40) dayLength
      ((dashboard.derivation "dashboard.sections").compute "") 41 := .once hloaded (.ret 41)
  have hsame := (hstands ?_ ?_ ?_ 41).mp htomorrow
  · cases hsame
  · intro question clock hasked
    simp only [List.mem_cons, List.not_mem_nil, or_false, reduceCtorEq, Item.asked.injEq] at hasked
    obtain ⟨rfl, rfl⟩ := hasked
    exact ⟨trivial, by decide⟩
  · intro moment hmoment
    cases hmoment
  · intro table revision found hread
    simp only [List.mem_cons, List.not_mem_nil, or_false, reduceCtorEq, false_or,
      Item.read.injEq] at hread
    obtain ⟨rfl, rfl, rfl⟩ := hread
    rfl

end SeverinoHQ.Derivations
