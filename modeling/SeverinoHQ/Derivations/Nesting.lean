/-
# What a derivation owes the ones it asks

However an answer is come by, what it used of other answers bounds it: it is
stored to expire no later than any of them, and once it is given its process
keys it on every table it or they read.
-/

import SeverinoHQ.Derivations.Answers

namespace SeverinoHQ.Derivations

open SeverinoHQ.Math

variable {V : Type}

/-- Rows that were read, or the expiry of an answer that was used. -/
def Item.isUsed : Item V → Bool
  | .asked _ _ => false
  | _ => true

/-- A stored answer expires no later than any answer used in it, and an answer
that was given is keyed on every table read for it. -/
structure World.Nested (env : Environment V) (world : World V) : Prop where
  expires : ∀ entry ∈ world.cache, ∀ moment, .expiry moment ∈ entry.evidence →
    NoLater env.zone entry.expires moment
  tables : ∀ answer ∈ world.answered, ∀ table revision rows,
    .read table revision rows ∈ answer.evidence →
      table ∈ world.tables env answer.process answer.derivation

/-- In a run that tells every derivation of what it used, every answer is bound
by the answers below it. -/
theorem run_nested {env : Environment V} {now : Int} {rows : String → V} {revision : String → Nat}
    {events : List (Event V)}
    (hmeets : Meets (step env) (Tells env Item.isUsed) (World.start now rows revision) events) :
    (run (step env) (World.start now rows revision) events).Nested env where
  expires entry hentry _ hused := (run_told hmeets).cache entry hentry _ hused rfl
  tables answer hanswer _ _ _ hread := (run_told hmeets).answered answer hanswer _ hread rfl

/-! ## The catalog of services -/

/-- A catalog that holds until a certificate's warning, an index of it read once,
and a page derived from one or the other. -/
def services : Environment Nat where
  zone := ⟨0, [], Zone.sorted_nil⟩
  loader _ := .ask "estate.services" "" .ret
  derivation name :=
    if name = "estate.services" then
      ⟨["resources"], fun _ => .clock (.reached (.utc 90) none) fun _ =>
        .read "resources" .ret, false⟩
    else if name = "page" then
      ⟨["resources"], fun _ => .ask "estate.services" "" .ret, false⟩
    else ⟨[], fun _ => .once "services.by_resource" .ret, false⟩

/-- One request that asks the catalog and a page in a projection. -/
def paging : List (Event Nat) :=
  .request 0 0 (.scope false (.ask "estate.services" "" fun _ => .ask "page" "" .ret) .ret) ::
    List.replicate 20 (.advance 0 .fine)

theorem paging_nested :
    Meets (step services) (Tells services Item.isUsed) (.start 0 (fun _ => 3) fun _ => 0) paging ∧
      ((run (step services) (.start 0 (fun _ => 3) fun _ => 0) paging).cache.map Entry.expires =
        [some (.utc 90), some (.utc 90)]) ∧
      (run (step services) (.start 0 (fun _ => 3) fun _ => 0) paging).Nested services :=
  have hmeets : Meets (step services) (Tells services Item.isUsed)
      (.start 0 (fun _ => 3) fun _ => 0) paging := by decide
  ⟨hmeets, by decide, run_nested hmeets⟩

/-- One request that reads the index in a projection, then asks a derivation that
reads it too. -/
def indexed : List (Event Nat) :=
  .request 0 0 (.scope false (.once "services.by_resource" fun _ => .ask "links" "" .ret) .ret) ::
    List.replicate 20 (.advance 0 .fine)

/-- The derivation that found the index read is stored with no expiry, and keyed on
no table. -/
theorem indexed_not_nested :
    ¬ (run (step services) (.start 0 (fun _ => 3) fun _ => 0) indexed).Nested services := by
  intro h
  have hentry : (⟨"links", "", ⟨[], fun _ => 0⟩, 3, none,
      [.asked (.reached (.utc 90) none) 0, .read "resources" 0 3, .expiry (.utc 90)]⟩ :
        Entry Nat) ∈ (run (step services) (.start 0 (fun _ => 3) fun _ => 0) indexed).cache :=
    List.mem_of_getElem? (show _[0]? = some _ from rfl)
  obtain ⟨_, hexpires, -⟩ := h.expires _ hentry (.utc 90) (by simp)
  cases hexpires

end SeverinoHQ.Derivations
