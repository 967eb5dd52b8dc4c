/-
# The tailnet policy, as the controller reads it

The policy file is an operator's JSON object, compared, validated and written back
verbatim; `view` is the typed reading of the parts HQ looks at. The names of its
members are matched as they are written.
-/

import SeverinoHQ.Json
import SeverinoHQ.Math.Fallible
import Mathlib.Data.List.Sort

namespace SeverinoHQ.Tailnet

/-! ## Decoding -/

/-- A string; `null` leaves the empty one. -/
def text : Json → Option String
  | .null => some ""
  | .str value => some value
  | _ => none

/-- A slice; `null` leaves the nil one. -/
def list {α : Type} (read : Json → Option α) : Json → Option (List α)
  | .null => some []
  | .arr items => items.mapM read
  | _ => none

/-- A map from names. -/
def table {α : Type} (read : Json → Option α) : Json → Option (List (String × α))
  | .null => some []
  | .obj members => members.mapM fun member => (read member.2).map (Prod.mk member.1)
  | _ => none

/-- A member of a struct: one that is missing is left as `null` leaves it. -/
def field {α : Type} (document : Json) (name : String) (read : Json → Option α) : Option α :=
  read ((document.get? name).getD .null)

/-- A struct, read from an object or left as it is by `null`. -/
def struct {α : Type} (fields : Json → Option α) : Json → Option α
  | .null => fields .null
  | .obj members => fields (.obj members)
  | _ => none

structure TailnetPolicyTest where
  src : String
  proto : String
  accept : List String
  deny : List String
  deriving DecidableEq, Repr

structure TailnetPolicyGrant where
  src : List String
  dst : List String
  ip : List String
  deriving DecidableEq, Repr

structure TailnetPolicySSH where
  action : String
  src : List String
  dst : List String
  users : List String
  deriving DecidableEq, Repr

structure AppConnector where
  name : String
  connectors : List String
  domains : List String
  deriving DecidableEq, Repr

structure NodeAttr where
  target : List String
  attr : List String
  app : List AppConnector
  deriving DecidableEq, Repr

structure TailnetPolicyView where
  tests : List TailnetPolicyTest
  groups : List (String × List String)
  tagOwners : List (String × List String)
  hosts : List (String × String)
  grants : List TailnetPolicyGrant
  ssh : List TailnetPolicySSH
  nodeAttrs : List NodeAttr
  deriving DecidableEq, Repr

def policyTest : Json → Option TailnetPolicyTest :=
  struct fun test => do
    let src ← field test "src" text
    let proto ← field test "proto" text
    let accept ← field test "accept" (list text)
    let deny ← field test "deny" (list text)
    some { src, proto, accept, deny }

def policyGrant : Json → Option TailnetPolicyGrant :=
  struct fun grant => do
    let src ← field grant "src" (list text)
    let dst ← field grant "dst" (list text)
    let ip ← field grant "ip" (list text)
    some { src, dst, ip }

def policySSH : Json → Option TailnetPolicySSH :=
  struct fun rule => do
    let action ← field rule "action" text
    let src ← field rule "src" (list text)
    let dst ← field rule "dst" (list text)
    let users ← field rule "users" (list text)
    some { action, src, dst, users }

def appConnector : Json → Option AppConnector :=
  struct fun connector => do
    let name ← field connector "name" text
    let connectors ← field connector "connectors" (list text)
    let domains ← field connector "domains" (list text)
    some { name, connectors, domains }

def nodeAttr : Json → Option NodeAttr :=
  struct fun node => do
    let target ← field node "target" (list text)
    let attr ← field node "attr" (list text)
    let app ← field node "app" (struct fun app =>
      field app "tailscale.com/app-connectors" (list appConnector))
    some { target, attr, app }

/-- The parts HQ looks at; a part of the wrong shape is none. -/
def view : Json → Option TailnetPolicyView :=
  struct fun document => do
    let tests ← field document "tests" (list policyTest)
    let groups ← field document "groups" (table (list text))
    let tagOwners ← field document "tagOwners" (table (list text))
    let hosts ← field document "hosts" (table text)
    let grants ← field document "grants" (list policyGrant)
    let ssh ← field document "ssh" (list policySSH)
    let nodeAttrs ← field document "nodeAttrs" (list nodeAttr)
    some { tests, groups, tagOwners, hosts, grants, ssh, nodeAttrs }

/-! ## The tests a policy carries -/

structure TestKey where
  src : String
  proto : String
  deriving DecidableEq, Repr

structure TestEntry where
  accept : List String
  deny : List String
  deriving DecidableEq, Repr

def TailnetPolicyTest.key (test : TailnetPolicyTest) : TestKey := ⟨test.src, test.proto⟩

/-- An entry, with what one more test of its key accepts and denies. -/
def TestEntry.add (entry : TestEntry) (test : TailnetPolicyTest) : TestEntry where
  accept := entry.accept ∪ test.accept
  deny := entry.deny ∪ test.deny

/-- One test, merged into the entry of its source and protocol. -/
def mergeTest (test : TailnetPolicyTest) :
    List (TestKey × TestEntry) → List (TestKey × TestEntry)
  | [] => [(test.key, TestEntry.add ⟨[], []⟩ test)]
  | (key, entry) :: found =>
      if key = test.key then (key, entry.add test) :: found
      else (key, entry) :: mergeTest test found

def policyTests (policy : TailnetPolicyView) : List (TestKey × TestEntry) :=
  policy.tests.foldl (fun found test => mergeTest test found) []

/-- The order of the keys: by source, then by protocol. -/
def TestKey.le (first second : TestKey) : Prop :=
  first.src < second.src ∨ first.src = second.src ∧ first.proto ≤ second.proto

instance : DecidableRel TestKey.le := fun first second =>
  inferInstanceAs (Decidable (first.src < second.src ∨
    first.src = second.src ∧ first.proto ≤ second.proto))

def sortedTestKeys (tests : List (TestKey × TestEntry)) : List TestKey :=
  (tests.map Prod.fst).insertionSort TestKey.le

/-- Why a declared policy is refused for its tests. -/
inductive WeakerTests
  | untested
  | drops (pair : TestKey)
  | undenied (pair : TestKey) (dst : String)
  deriving DecidableEq, Repr

/-- The refusal's text; `quote` is how `%q` writes a string. -/
def WeakerTests.message (quote : String → String) : WeakerTests → String
  | .untested =>
      "the tailnet policy carries no tests, so tailscale's check would pass it whatever it grants; not applied"
  | .drops pair =>
      let overProto := if pair.proto != "" then " over " ++ pair.proto else ""
      "the tailnet policy drops the tests for " ++ quote pair.src ++ overProto ++
        ", which removes the check they made; not applied"
  | .undenied pair dst =>
      "the tailnet policy no longer tests that " ++ quote pair.src ++ " is denied " ++ quote dst ++
        "; a live deny is kept, so not applied"

/-- The destinations a key's entry denies. -/
def denied (tests : List (TestKey × TestEntry)) (pair : TestKey) : List String :=
  ((tests.lookup pair).map TestEntry.deny).getD []

/-- The first destination a key's live tests deny and the wanted ones do not. -/
def firstDropped (held wanted : List (TestKey × TestEntry)) (pair : TestKey) : Option String :=
  (((denied held pair).filter fun dst => dst ∉ denied wanted pair).insertionSort (· ≤ ·)).head?

/-- A declared policy that tests less than the live one is refused. -/
def refuseWeakerTests (live document : TailnetPolicyView) : Except WeakerTests Unit :=
  let wanted := policyTests document
  let held := policyTests live
  if wanted.isEmpty then .error .untested
  else
    match (sortedTestKeys held).find? fun pair => (wanted.lookup pair).isNone with
    | some pair => .error (.drops pair)
    | none =>
        match (sortedTestKeys held).findSome? fun pair =>
            (firstDropped held wanted pair).map (WeakerTests.undenied pair) with
        | some refusal => .error refusal
        | none => .ok ()

/-! ## What the tests of a policy say -/

/-- Some test of the policy is of this source and protocol. -/
def Tests (policy : TailnetPolicyView) (pair : TestKey) : Prop :=
  ∃ test ∈ policy.tests, test.key = pair

/-- Some test of the policy denies this source the destination. -/
def Denies (policy : TailnetPolicyView) (pair : TestKey) (dst : String) : Prop :=
  ∃ test ∈ policy.tests, test.key = pair ∧ dst ∈ test.deny

/-- A policy that still makes every check another made, and every denial. -/
structure AtLeastAsStrict (live document : TailnetPolicyView) : Prop where
  tests : ∀ pair, Tests live pair → Tests document pair
  denials : ∀ pair dst, Denies live pair dst → Denies document pair dst

theorem lookup_cons_of_ne {pair key : TestKey} (entry : TestEntry)
    (found : List (TestKey × TestEntry)) (hpair : pair ≠ key) :
    ((key, entry) :: found).lookup pair = found.lookup pair := by
  have hbeq : (pair == key) = false := by simpa using hpair
  simp [List.lookup_cons, hbeq]

theorem lookup_mergeTest (test : TailnetPolicyTest) (found : List (TestKey × TestEntry))
    (pair : TestKey) :
    (mergeTest test found).lookup pair =
      if pair = test.key then some (((found.lookup pair).getD ⟨[], []⟩).add test)
      else found.lookup pair := by
  induction found with
  | nil =>
      by_cases hpair : pair = test.key
      · simp [mergeTest, hpair]
      · simp [mergeTest, hpair, lookup_cons_of_ne _ _ hpair]
  | cons first found ih =>
      obtain ⟨key, entry⟩ := first
      by_cases hkey : key = test.key
      · by_cases hpair : pair = test.key
        · simp [mergeTest, hkey, hpair]
        · simp [mergeTest, hkey, hpair, lookup_cons_of_ne _ _ hpair]
      · by_cases hpair : pair = key
        · simp [mergeTest, hkey, hpair]
        · simpa [mergeTest, hkey, lookup_cons_of_ne _ _ hpair] using ih

theorem isSome_lookup_foldl (tests : List TailnetPolicyTest) (found : List (TestKey × TestEntry))
    (pair : TestKey) :
    ((tests.foldl (fun found test => mergeTest test found) found).lookup pair).isSome ↔
      (found.lookup pair).isSome ∨ ∃ test ∈ tests, test.key = pair := by
  induction tests generalizing found with
  | nil => simp
  | cons test tests ih =>
      rw [List.foldl_cons, ih, lookup_mergeTest]
      by_cases hpair : pair = test.key
      · simp [hpair]
      · simp [hpair, Ne.symm hpair]

theorem mem_denied_foldl (tests : List TailnetPolicyTest) (found : List (TestKey × TestEntry))
    (pair : TestKey) (dst : String) :
    dst ∈ denied (tests.foldl (fun found test => mergeTest test found) found) pair ↔
      dst ∈ denied found pair ∨ ∃ test ∈ tests, test.key = pair ∧ dst ∈ test.deny := by
  induction tests generalizing found with
  | nil => simp
  | cons test tests ih =>
      have hstep : dst ∈ denied (mergeTest test found) pair ↔
          dst ∈ denied found pair ∨ test.key = pair ∧ dst ∈ test.deny := by
        unfold denied
        rw [lookup_mergeTest]
        by_cases hpair : pair = test.key
        · cases hfound : found.lookup test.key <;> simp [hpair, hfound, TestEntry.add]
        · simp [hpair, Ne.symm hpair]
      rw [List.foldl_cons, ih, hstep]
      simp [or_assoc]

/-- The keys of the merged tests are the sources and protocols tested. -/
theorem isSome_lookup_policyTests (policy : TailnetPolicyView) (pair : TestKey) :
    ((policyTests policy).lookup pair).isSome ↔ Tests policy pair := by
  unfold policyTests
  rw [isSome_lookup_foldl]
  simp [Tests]

/-- What a key's merged entry denies is what any of its tests denies. -/
theorem mem_denied_policyTests (policy : TailnetPolicyView) (pair : TestKey) (dst : String) :
    dst ∈ denied (policyTests policy) pair ↔ Denies policy pair dst := by
  unfold policyTests
  rw [mem_denied_foldl]
  simp [Denies, denied]

theorem mem_sortedTestKeys {policy : TailnetPolicyView} {pair : TestKey} :
    pair ∈ sortedTestKeys (policyTests policy) ↔ Tests policy pair := by
  unfold sortedTestKeys
  rw [List.mem_insertionSort, ← isSome_lookup_policyTests, List.lookup_isSome_iff]
  simp

theorem firstDropped_eq_none {held wanted : TailnetPolicyView} {pair : TestKey} :
    firstDropped (policyTests held) (policyTests wanted) pair = none ↔
      ∀ dst, Denies held pair dst → Denies wanted pair dst := by
  unfold firstDropped
  rw [List.head?_eq_none_iff, ← List.length_eq_zero_iff, List.length_insertionSort,
    List.length_eq_zero_iff, List.filter_eq_nil_iff]
  simp [mem_denied_policyTests]

theorem isEmpty_policyTests {policy : TailnetPolicyView} :
    (policyTests policy).isEmpty ↔ policy.tests = [] := by
  rw [List.isEmpty_iff]
  constructor
  · intro hnil
    by_contra htests
    obtain ⟨test, htest⟩ := List.exists_mem_of_ne_nil _ htests
    have hsome := (isSome_lookup_policyTests policy test.key).mpr ⟨test, htest, rfl⟩
    simp [hnil] at hsome
  · intro htests
    simp [policyTests, htests]

/-- A declared policy is let through exactly when it carries a test and is at least as
strict as the live one. -/
theorem refuseWeakerTests_eq_ok {live document : TailnetPolicyView} :
    refuseWeakerTests live document = .ok () ↔
      document.tests ≠ [] ∧ AtLeastAsStrict live document := by
  unfold refuseWeakerTests
  dsimp only
  by_cases htests : document.tests = []
  · rw [if_pos (isEmpty_policyTests.mpr htests)]
    simp [htests]
  · rw [if_neg (isEmpty_policyTests.not.mpr htests)]
    cases hdrops : (sortedTestKeys (policyTests live)).find? fun pair =>
        ((policyTests document).lookup pair).isNone with
    | some pair =>
        have hkept : ¬Tests document pair := by
          have hnone := List.find?_some hdrops
          rw [← isSome_lookup_policyTests, Option.isSome_iff_ne_none, not_not]
          exact Option.isNone_iff_eq_none.mp hnone
        have hlive := mem_sortedTestKeys.mp (List.mem_of_find?_eq_some hdrops)
        simp only [reduceCtorEq, false_iff]
        rintro ⟨-, hstrict⟩
        exact hkept (hstrict.tests pair hlive)
    | none =>
        have hkept : ∀ pair, Tests live pair → Tests document pair := by
          intro pair hlive
          have hsome := List.find?_eq_none.mp hdrops pair (mem_sortedTestKeys.mpr hlive)
          rw [← isSome_lookup_policyTests, Option.isSome_iff_ne_none]
          exact fun hnone => hsome (Option.isNone_iff_eq_none.mpr hnone)
        cases hfirst : (sortedTestKeys (policyTests live)).findSome? fun pair =>
            (firstDropped (policyTests live) (policyTests document) pair).map
              (WeakerTests.undenied pair) with
        | some refusal =>
            obtain ⟨pair, hpair, hrefusal⟩ := List.exists_of_findSome?_eq_some hfirst
            simp only [reduceCtorEq, false_iff]
            rintro ⟨-, hstrict⟩
            have hnone := firstDropped_eq_none.mpr (hstrict.denials pair)
            simp [hnone] at hrefusal
        | none =>
            simp only [true_iff]
            refine ⟨htests, hkept, ?_⟩
            intro pair dst hdenies
            have hpair : Tests live pair := by
              obtain ⟨test, htest, hkey, -⟩ := hdenies
              exact ⟨test, htest, hkey⟩
            have hnone := List.findSome?_eq_none_iff.mp hfirst pair (mem_sortedTestKeys.mpr hpair)
            exact firstDropped_eq_none.mp (Option.map_eq_none_iff.mp hnone) dst hdenies

end SeverinoHQ.Tailnet
