/-
# The policy that opens one path

`policyAllowing` is the change a person is asked to approve: one path granted, and
the policy's own tests that denied it moved with the grant. Whether the controller
then lets the document through depends on what those tests still say.
-/

import Mathlib.Data.List.Infix
import SeverinoHQ.Tailnet.Policy

namespace SeverinoHQ.Tailnet

open SeverinoHQ.Math

/-! ## Python's dictionaries and lists -/

/-- `members[name] = value`: in its place, or after the others. -/
def assign (name : String) (value : Json) : List (String × Json) → List (String × Json)
  | [] => [(name, value)]
  | member :: members =>
      if member.1 == name then (name, value) :: members
      else member :: assign name value members

/-- `members.pop(name, None)`. -/
def pop (name : String) (members : List (String × Json)) : List (String × Json) :=
  members.filter fun member => !(member.1 == name)

/-- `list(value or ())`; none raises. -/
def items : Json → Option (List Json)
  | .null => some []
  | .bool value => if value then none else some []
  | .num value => if value = 0 then some [] else none
  | .str value => some (value.toList.map fun letter => .str (String.singleton letter))
  | .arr items => some items
  | .obj members => some (members.map fun member => .str member.1)

/-- `needle in (value or ())`; none raises. -/
def contains (needle : String) : Json → Option Bool
  | .str value => some (decide (needle.toList <:+: value.toList))
  | value => (items value).map fun items => decide (.str needle ∈ items)

/-- `members.get(name)`, None where it is missing. -/
def member (members : List (String × Json)) (name : String) : Json :=
  ((Json.obj members).get? name).getD .null

/-- `dict(test)`. Pairs, which no reading of a policy takes for a test, are left out. -/
def dict : Json → Option (List (String × Json))
  | .obj members => some members
  | .str value => if value = "" then some [] else none
  | .arr items => if items = [] then some [] else none
  | _ => none

/-! ## The change -/

/-- `source in (grant.get("src") or ()) and target in (grant.get("dst") or ())`. -/
def joins (source target : String) (grant : List (String × Json)) : Option Bool := do
  let fromSource ← contains source (member grant "src")
  if fromSource then contains target (member grant "dst") else some false

/-- The grant between the two, with what stands before and after it. -/
def existing (source target : String) :
    List Json → Option (Option (List Json × List (String × Json) × List Json))
  | [] => some none
  | .obj grant :: grants => do
      let between ← joins source target grant
      if between then some (some ([], grant, grants))
      else
        let found ← existing source target grants
        some (found.map fun found => (.obj grant :: found.1, found.2))
  | _ => none

/-- Open `wanted` from `source` to `target` in the policy's grants, and say what
changed: nothing, when the grant between the two already carries it. -/
def grant (parsed : List (String × Json)) (source target wanted : String) :
    Option (List (String × Json) × String) := do
  let grants ← items (member parsed "grants")
  match ← existing source target grants with
  | none =>
      let opened := Json.obj
        [("src", .arr [.str source]), ("dst", .arr [.str target]), ("ip", .arr [.str wanted])]
      some (assign "grants" (.arr (grants ++ [opened])) parsed,
        s!"a grant from {source} to {target} on {wanted}")
  | some (before, between, after) =>
      let ports ← items (member between "ip")
      if .str wanted ∈ ports then some (parsed, "")
      else
        let opened := Json.obj (assign "ip" (.arr (ports ++ [.str wanted])) between)
        some (assign "grants" (.arr (before ++ opened :: after)) parsed,
          s!"{wanted} added to the grant from {source} to {target}")

/-- Whether a policy test asserts that `source` may not reach `asserted` over TCP. -/
def denies (test : List (String × Json)) (source asserted : String) : Option Bool :=
  if member test "src" = .str source ∧
      ((Json.obj test).get? "proto").getD (.str "tcp") = .str "tcp" then
    contains asserted (member test "deny")
  else some false

/-- `asserted`, moved from the test's denials to its acceptances. -/
def accept (test : List (String × Json)) (asserted : String) : Option (List (String × Json)) := do
  let denied ← items (member test "deny")
  if .str asserted ∈ denied then
    let kept := denied.erase (.str asserted)
    let test := if kept = [] then pop "deny" test else assign "deny" (.arr kept) test
    let accepted ← items (member test "accept")
    some (if .str asserted ∈ accepted then test
      else assign "accept" (.arr (accepted ++ [.str asserted])) test)
  else none

/-- One test, after the move, and the sentence that says so. -/
def moved (source asserted : String) (test : List (String × Json)) :
    Option (Json × List String) := do
  let denying ← denies test source asserted
  if denying then
    let test ← accept test asserted
    some (.obj test, [s!"{asserted} moved from denied to accepted for {source}"])
  else some (.obj test, [])

/-- The same policy with one path opened, and a sentence saying what moved; nothing,
when the policy already admits the path. None raises. -/
def policyAllowing (document : Json) (source target : String) (port : Int) :
    Option (Option (Json × String)) :=
  match document with
  | .obj parsed => do
      let (parsed, granted) ← grant parsed source target s!"tcp:{port}"
      if granted = "" then some none
      else
        let tests ← (← items (member parsed "tests")).mapM dict
        let changed ← tests.mapM (moved source s!"{target}:{port}")
        some (some (.obj (assign "tests" (.arr (changed.map Prod.fst)) parsed),
          "; ".intercalate (granted :: changed.flatMap Prod.snd)))
  | _ => none

/-! ## What a changed dictionary holds -/

section Members

variable {name other : String} {value : Json} {members : List (String × Json)}

@[simp]
theorem member_assign_self : member (assign name value members) name = value := by
  induction members with
  | nil => simp [member, Json.get?, assign]
  | cons first members ih =>
      by_cases hname : first.1 = name
      · simp [member, Json.get?, assign, hname]
      · simpa [member, Json.get?, assign, hname] using ih

@[simp]
theorem member_assign_of_ne (hother : other ≠ name) :
    member (assign name value members) other = member members other := by
  induction members with
  | nil => simp [member, Json.get?, assign, hother.symm]
  | cons first members ih =>
      by_cases hname : first.1 = name
      · simp [member, Json.get?, assign, hname, hother.symm]
      · by_cases hfirst : first.1 = other
        · subst hfirst
          simp [member, Json.get?, assign, hname]
        · simpa [member, Json.get?, assign, hname, hfirst] using ih

@[simp]
theorem member_pop_self : member (pop name members) name = .null := by
  induction members with
  | nil => rfl
  | cons first members ih =>
      by_cases hname : first.1 = name
      · simpa [member, Json.get?, pop, hname] using ih
      · simpa [member, Json.get?, pop, hname] using ih

@[simp]
theorem member_pop_of_ne (hother : other ≠ name) :
    member (pop name members) other = member members other := by
  induction members with
  | nil => rfl
  | cons first members ih =>
      by_cases hname : first.1 = name
      · simpa [member, Json.get?, pop, hname, hother.symm] using ih
      · by_cases hfirst : first.1 = other
        · subst hfirst
          simp [member, Json.get?, pop, hname]
        · simpa [member, Json.get?, pop, hname, hfirst] using ih

end Members

/-! ## The controller's reading of a dictionary -/

section Readings

variable {members : List (String × Json)}

theorem policyTest_obj {test : TailnetPolicyTest} :
    policyTest (.obj members) = some test ↔
      text (member members "src") = some test.src ∧
        text (member members "proto") = some test.proto ∧
        list text (member members "accept") = some test.accept ∧
        list text (member members "deny") = some test.deny := by
  simp only [policyTest, struct, field, Option.bind_eq_bind, Option.bind_eq_some_iff,
    Option.some.injEq]
  constructor
  · rintro ⟨src, hsrc, proto, hproto, accept, haccept, deny, hdeny, rfl⟩
    exact ⟨hsrc, hproto, haccept, hdeny⟩
  · rintro ⟨hsrc, hproto, haccept, hdeny⟩
    exact ⟨_, hsrc, _, hproto, _, haccept, _, hdeny, rfl⟩

theorem policyGrant_obj {grant : TailnetPolicyGrant} :
    policyGrant (.obj members) = some grant ↔
      list text (member members "src") = some grant.src ∧
        list text (member members "dst") = some grant.dst ∧
        list text (member members "ip") = some grant.ip := by
  simp only [policyGrant, struct, field, Option.bind_eq_bind, Option.bind_eq_some_iff,
    Option.some.injEq]
  constructor
  · rintro ⟨src, hsrc, dst, hdst, ip, hip, rfl⟩
    exact ⟨hsrc, hdst, hip⟩
  · rintro ⟨hsrc, hdst, hip⟩
    exact ⟨_, hsrc, _, hdst, _, hip, rfl⟩

/-- A policy's tests and grants are read apart from the rest of it. -/
theorem view_obj {policy : TailnetPolicyView} :
    view (.obj members) = some policy ↔
      list policyTest (member members "tests") = some policy.tests ∧
        table (list text) (member members "groups") = some policy.groups ∧
        table (list text) (member members "tagOwners") = some policy.tagOwners ∧
        table text (member members "hosts") = some policy.hosts ∧
        list policyGrant (member members "grants") = some policy.grants ∧
        list policySSH (member members "ssh") = some policy.ssh ∧
        list nodeAttr (member members "nodeAttrs") = some policy.nodeAttrs := by
  simp only [view, struct, field, Option.bind_eq_bind, Option.bind_eq_some_iff,
    Option.some.injEq]
  constructor
  · rintro ⟨tests, htests, groups, hgroups, tagOwners, htagOwners, hosts, hhosts, grants, hgrants,
      ssh, hssh, nodeAttrs, hnodeAttrs, rfl⟩
    exact ⟨htests, hgroups, htagOwners, hhosts, hgrants, hssh, hnodeAttrs⟩
  · rintro ⟨htests, hgroups, htagOwners, hhosts, hgrants, hssh, hnodeAttrs⟩
    exact ⟨_, htests, _, hgroups, _, htagOwners, _, hhosts, _, hgrants, _, hssh, _, hnodeAttrs, rfl⟩

/-- What the controller reads as a list, Python lists as well. -/
theorem exists_items {α : Type} {read : Json → Option α} {value : Json} {values : List α}
    (h : list read value = some values) :
    ∃ listed, items value = some listed ∧ listed.mapM read = some values := by
  cases value with
  | null =>
      obtain rfl : [] = values := Option.some.inj h
      exact ⟨[], rfl, rfl⟩
  | arr listed => exact ⟨listed, rfl, h⟩
  | _ => cases h

/-- A name is among the strings of a list for both, or for neither. -/
theorem mem_texts {needle : String} {listed : List Json} {values : List String}
    (h : listed.mapM text = some values) (hneedle : needle ≠ "") :
    .str needle ∈ listed ↔ needle ∈ values := by
  rw [mem_of_mapM_eq_some h]
  constructor
  · intro hmem
    exact ⟨_, hmem, rfl⟩
  · rintro ⟨value, hmem, htext⟩
    cases value with
    | null => exact absurd (Option.some.inj htext).symm hneedle
    | str value =>
        obtain rfl : value = needle := Option.some.inj htext
        exact hmem
    | _ => cases htext

theorem contains_of_list {needle : String} {value : Json} {values : List String}
    (h : list text value = some values) (hneedle : needle ≠ "") :
    contains needle value = some (decide (needle ∈ values)) := by
  obtain ⟨listed, hlisted, hread⟩ := exists_items h
  have hmem := mem_texts hread hneedle
  cases value with
  | str => cases h
  | _ => simp [contains, hlisted, hmem]

/-- Removing a name from the list removes it from what the controller reads. -/
theorem mapM_erase {needle : String} {listed : List Json} {values : List String}
    (h : listed.mapM text = some values) (hneedle : needle ≠ "") :
    (listed.erase (.str needle)).mapM text = some (values.erase needle) := by
  induction listed generalizing values with
  | nil =>
      obtain rfl : [] = values := Option.some.inj h
      rfl
  | cons first listed ih =>
      obtain ⟨value, rest, hvalue, hrest, rfl⟩ := mapM_cons_eq_some.mp h
      by_cases hfirst : first = .str needle
      · subst hfirst
        obtain rfl : needle = value := Option.some.inj hvalue
        simpa using hrest
      · have hne : value ≠ needle := by
          rintro rfl
          cases first with
          | null => exact hneedle (Option.some.inj hvalue).symm
          | str => exact hfirst (congrArg Json.str (Option.some.inj hvalue))
          | _ => cases hvalue
        rw [List.erase_cons_tail (by simpa using hfirst), List.erase_cons_tail (by simpa using hne)]
        exact mapM_cons_eq_some.mpr ⟨value, _, hvalue, ih hrest, rfl⟩

/-- A list with one more string at its end. -/
theorem list_append {read : Json → Option String} {listed : List Json} {values : List String}
    {last : String} {value : Json} (h : listed.mapM read = some values)
    (hvalue : read value = some last) :
    list read (.arr (listed ++ [value])) = some (values ++ [last]) := by
  show (listed ++ [value]).mapM read = _
  rw [List.mapM_append, h]
  simp [hvalue]

end Readings

/-! ## What the moved tests still say -/

section Moving

variable {source asserted : String} {members : List (String × Json)} {test : TailnetPolicyTest}

/-- A test whose denial moves with the grant. -/
def Moves (source asserted : String) (test : Json) : Prop :=
  ∃ members, test = .obj members ∧ denies members source asserted = some true

theorem exists_denies (h : policyTest (.obj members) = some test) (hasserted : asserted ≠ "") :
    ∃ denying, denies members source asserted = some denying := by
  obtain ⟨-, -, -, hdeny⟩ := policyTest_obj.mp h
  unfold denies
  split
  · exact ⟨_, contains_of_list hdeny hasserted⟩
  · exact ⟨false, rfl⟩

theorem mem_deny_of_denies (h : policyTest (.obj members) = some test) (hasserted : asserted ≠ "")
    (hdenies : denies members source asserted = some true) : asserted ∈ test.deny := by
  obtain ⟨-, -, -, hdeny⟩ := policyTest_obj.mp h
  unfold denies at hdenies
  split at hdenies
  · rw [contains_of_list hdeny hasserted] at hdenies
    exact of_decide_eq_true (Option.some.inj hdenies)
  · cases hdenies

/-- A moved denial leaves the test's source, protocol and other denials as they were. -/
theorem accept_read (h : policyTest (.obj members) = some test) (hasserted : asserted ≠ "")
    (hdenied : asserted ∈ test.deny) :
    ∃ changed after, accept members asserted = some changed ∧
      policyTest (.obj changed) = some after ∧ after.key = test.key ∧
      after.deny = test.deny.erase asserted := by
  obtain ⟨hsrc, hproto, haccept, hdeny⟩ := policyTest_obj.mp h
  obtain ⟨denied, hitems, hread⟩ := exists_items hdeny
  obtain ⟨accepted, hitems', hread'⟩ := exists_items haccept
  have hmem : .str asserted ∈ denied := (mem_texts hread hasserted).mpr hdenied
  have herase := mapM_erase hread hasserted
  set kept := denied.erase (.str asserted) with hkept
  set lighter := if kept = [] then pop "deny" members else assign "deny" (.arr kept) members
    with hlighter
  have hother : ∀ name, name ≠ "deny" → member lighter name = member members name := by
    intro name hname
    rw [hlighter]
    split
    · exact member_pop_of_ne hname
    · exact member_assign_of_ne hname
  have hlighterDeny : list text (member lighter "deny") = some (test.deny.erase asserted) := by
    rw [hlighter]
    split
    · next hnone =>
        rw [hnone] at herase
        rw [member_pop_self]
        exact herase
    · rw [member_assign_self]
      exact herase
  have hchanged : accept members asserted = some (if .str asserted ∈ accepted then lighter
      else assign "accept" (.arr (accepted ++ [.str asserted])) lighter) := by
    simp only [accept, hitems, Option.bind_eq_bind, Option.bind_some, hmem, if_true, ← hkept,
      ← hlighter, hother "accept" (by decide), hitems']
  by_cases haccepted : .str asserted ∈ accepted
  · rw [if_pos haccepted] at hchanged
    refine ⟨lighter, ⟨test.src, test.proto, test.accept, test.deny.erase asserted⟩, hchanged,
      policyTest_obj.mpr ?_, rfl, rfl⟩
    rw [hother _ (by decide), hother _ (by decide), hother _ (by decide)]
    exact ⟨hsrc, hproto, haccept, hlighterDeny⟩
  · rw [if_neg haccepted] at hchanged
    refine ⟨_, ⟨test.src, test.proto, test.accept ++ [asserted], test.deny.erase asserted⟩, hchanged,
      policyTest_obj.mpr ?_, rfl, rfl⟩
    rw [member_assign_of_ne (by decide), member_assign_of_ne (by decide), member_assign_self,
      member_assign_of_ne (by decide), hother _ (by decide), hother _ (by decide)]
    exact ⟨hsrc, hproto, list_append hread' rfl, hlighterDeny⟩

/-- What the controller reads of one test after the move. -/
theorem moved_read (h : policyTest (.obj members) = some test) (hasserted : asserted ≠ "") :
    ∃ changed after, moved source asserted members = some changed ∧
      policyTest changed.1 = some after ∧ after.key = test.key ∧
      (Moves source asserted (.obj members) → after.deny = test.deny.erase asserted) ∧
      (¬Moves source asserted (.obj members) → after.deny = test.deny) := by
  obtain ⟨denying, hdenies⟩ := @exists_denies source _ _ _ h hasserted
  cases denying with
  | false =>
      have hstays : ¬Moves source asserted (.obj members) := by
        rintro ⟨other, heq, htrue⟩
        cases heq
        simp [hdenies] at htrue
      have hmoved : moved source asserted members = some (.obj members, []) := by
        simp [moved, hdenies]
      exact ⟨_, test, hmoved, h, rfl, fun hmoves => absurd hmoves hstays, fun _ => rfl⟩
  | true =>
      have hmoves : Moves source asserted (.obj members) := ⟨members, rfl, hdenies⟩
      obtain ⟨changed, after, hchanged, hafter, hkey, hdeny⟩ :=
        accept_read h hasserted (mem_deny_of_denies h hasserted hdenies)
      have hmoved : moved source asserted members = some (.obj changed,
          [s!"{asserted} moved from denied to accepted for {source}"]) := by
        simp [moved, hdenies, hchanged]
      exact ⟨_, after, hmoved, hafter, hkey, fun _ => hdeny, fun hstays => absurd hmoves hstays⟩

end Moving

/-! ## The composed document -/

section Composed

variable {source target wanted : String} {port : Int} {parsed : List (String × Json)}
  {live amended : Json} {held : TailnetPolicyView} {summary : String}

theorem existing_eq_some {grants before after : List Json} {between : List (String × Json)}
    (h : existing source target grants = some (some (before, between, after))) :
    grants = before ++ .obj between :: after := by
  induction grants generalizing before with
  | nil => simp [existing] at h
  | cons first grants ih =>
      cases first with
      | obj members =>
          simp only [existing, Option.bind_eq_bind, Option.bind_eq_some_iff] at h
          obtain ⟨joined, -, h⟩ := h
          cases joined with
          | true =>
              simp only [if_true, Option.some.injEq, Prod.mk.injEq] at h
              obtain ⟨rfl, rfl, rfl⟩ := h
              rfl
          | false =>
              simp only [Bool.false_eq_true, if_false, Option.bind_eq_some_iff,
                Option.some.injEq, Option.map_eq_some_iff] at h
              obtain ⟨found, hfound, ⟨earlier, rest⟩, rfl, heq⟩ := h
              simp only [Prod.mk.injEq] at heq
              obtain ⟨rfl, rfl⟩ := heq
              simp [ih hfound]
      | _ => simp [existing] at h

/-- Opening a path changes the grants and nothing else, and they are read as before. -/
theorem grant_read {grants : List TailnetPolicyGrant} {opened : List (String × Json)} {said : String}
    (hgrants : list policyGrant (member parsed "grants") = some grants)
    (h : grant parsed source target wanted = some (opened, said)) :
    (∃ after, list policyGrant (member opened "grants") = some after) ∧
      ∀ name, name ≠ "grants" → member opened name = member parsed name := by
  obtain ⟨listed, hlisted, hread⟩ := exists_items hgrants
  simp only [grant, hlisted, Option.bind_eq_bind, Option.bind_some, Option.bind_eq_some_iff] at h
  obtain ⟨found, hfound, h⟩ := h
  have hnew : ∀ (before after : List Json) (grant : List (String × Json)),
      (∀ other ∈ before ++ after, other ∈ listed) → (∃ read, policyGrant (.obj grant) = some read) →
      ∃ values, list policyGrant (.arr (before ++ .obj grant :: after)) = some values := by
    intro before after grant hothers hgrant
    apply exists_mapM_eq_some
    intro other hother
    by_cases heq : other = .obj grant
    · exact heq ▸ hgrant
    · obtain ⟨value, -, hvalue⟩ := exists_of_mapM_eq_some hread (hothers other (by
        simpa [heq] using hother))
      exact ⟨value, hvalue⟩
  cases found with
  | none =>
      simp only [Option.some.injEq, Prod.mk.injEq] at h
      obtain ⟨rfl, -⟩ := h
      refine ⟨?_, fun name hname => member_assign_of_ne hname⟩
      rw [member_assign_self]
      exact hnew listed [] _ (by simp) ⟨⟨[source], [target], [wanted]⟩, rfl⟩
  | some found =>
      obtain ⟨before, between, after⟩ := found
      have hsplit := existing_eq_some hfound
      obtain ⟨old, -, hold⟩ := exists_of_mapM_eq_some hread
        (show .obj between ∈ listed by simp [hsplit])
      obtain ⟨hsrc, hdst, hip⟩ := policyGrant_obj.mp hold
      obtain ⟨ports, hports, hreadPorts⟩ := exists_items hip
      simp only [hports, Option.bind_some] at h
      by_cases hheld : .str wanted ∈ ports
      · rw [if_pos hheld] at h
        obtain ⟨rfl, -⟩ := Prod.mk.inj (Option.some.inj h)
        exact ⟨⟨grants, hgrants⟩, fun _ _ => rfl⟩
      · rw [if_neg hheld] at h
        obtain ⟨rfl, -⟩ := Prod.mk.inj (Option.some.inj h)
        refine ⟨?_, fun name hname => member_assign_of_ne hname⟩
        rw [member_assign_self]
        refine hnew before after _ (by simp [hsplit]; tauto)
          ⟨⟨old.src, old.dst, old.ip ++ [wanted]⟩, policyGrant_obj.mpr ?_⟩
        rw [member_assign_of_ne (by decide), member_assign_of_ne (by decide), member_assign_self]
        exact ⟨hsrc, hdst, list_append hreadPorts rfl⟩

/-- The tests a document lists. -/
def testsOf (document : Json) : List Json :=
  match document.get? "tests" with
  | some (.arr tests) => tests
  | _ => []

/-- A test as the controller reads it before and after the move. -/
structure Shifted (source asserted : String) (test : Json) (before after : TailnetPolicyTest) :
    Prop where
  key : after.key = before.key
  moves : Moves source asserted test → after.deny = before.deny.erase asserted
  stays : ¬Moves source asserted test → after.deny = before.deny

theorem Shifted.mem_deny_self {asserted : String} {test : Json} {before after : TailnetPolicyTest}
    (h : Shifted source asserted test before after) :
    asserted ∈ after.deny ↔
      asserted ∈ before.deny ∧ (Moves source asserted test → 1 < before.deny.count asserted) := by
  by_cases hmoves : Moves source asserted test
  · rw [h.moves hmoves, ← List.count_pos_iff, ← List.count_pos_iff, List.count_erase_self]
    simp only [hmoves, true_implies]
    omega
  · simp [h.stays hmoves, hmoves]

theorem Shifted.mem_deny_of_ne {asserted dst : String} {test : Json}
    {before after : TailnetPolicyTest} (h : Shifted source asserted test before after)
    (hdst : dst ≠ asserted) : dst ∈ after.deny ↔ dst ∈ before.deny := by
  by_cases hmoves : Moves source asserted test
  · rw [h.moves hmoves, List.mem_erase_of_ne hdst]
  · rw [h.stays hmoves]

theorem list_tests {tests : List TailnetPolicyTest}
    (h : list policyTest (member parsed "tests") = some tests) :
    items (member parsed "tests") = some (testsOf (.obj parsed)) ∧
      (testsOf (.obj parsed)).mapM policyTest = some tests := by
  unfold member at h ⊢
  unfold testsOf
  cases hget : (Json.obj parsed).get? "tests" with
  | none =>
      rw [hget] at h
      obtain rfl : [] = tests := Option.some.inj h
      exact ⟨rfl, rfl⟩
  | some value =>
      rw [hget] at h
      cases value with
      | null =>
          obtain rfl : [] = tests := Option.some.inj h
          exact ⟨rfl, rfl⟩
      | arr => exact ⟨rfl, h⟩
      | _ => cases h

theorem view_tests (hview : view live = some held) (hobj : live = .obj parsed) :
    (testsOf live).mapM policyTest = some held.tests := by
  subst hobj
  exact (list_tests (view_obj.mp hview).1).2

theorem asserted_ne_empty (target : String) (port : Int) : s!"{target}:{port}" ≠ "" := by
  intro hempty
  have hlength := congrArg String.length hempty
  simp only [String.length_append, String.length_empty, Nat.add_eq_zero_iff] at hlength
  exact absurd hlength.1.2 (by decide)

/-- Every test, moved, is read with its source and protocol as before. -/
theorem tests_read {asserted : String} (hasserted : asserted ≠ "") {tests : List Json}
    {before : List TailnetPolicyTest} {dicts : List (List (String × Json))}
    {changed : List (Json × List String)} (hread : tests.mapM policyTest = some before)
    (hdicts : tests.mapM dict = some dicts)
    (hchanged : dicts.mapM (moved source asserted) = some changed) :
    ∃ after, (changed.map Prod.fst).mapM policyTest = some after ∧
      (∀ test ∈ tests, ∀ told, policyTest test = some told →
        ∃ kept ∈ after, Shifted source asserted test told kept) ∧
      ∀ kept ∈ after, ∃ test ∈ tests, ∃ told, policyTest test = some told ∧
        Shifted source asserted test told kept := by
  induction tests generalizing before dicts changed with
  | nil =>
      obtain rfl : [] = dicts := Option.some.inj hdicts
      obtain rfl : [] = changed := Option.some.inj hchanged
      exact ⟨[], rfl, by simp, by simp⟩
  | cons test tests ih =>
      obtain ⟨told, rest, htold, hrest, rfl⟩ := mapM_cons_eq_some.mp hread
      obtain ⟨members, dicts, hmembers, hrestDicts, rfl⟩ := mapM_cons_eq_some.mp hdicts
      obtain ⟨first, later, hfirst, hlater, rfl⟩ := mapM_cons_eq_some.mp hchanged
      obtain ⟨after, hafter, hforward, hbackward⟩ := ih hrest hrestDicts hlater
      obtain rfl : test = .obj members := by
        cases test with
        | obj => exact congrArg Json.obj (Option.some.inj hmembers)
        | null => cases hmembers
        | _ => cases htold
      obtain ⟨_, kept, hmoved, hkept, hkey, hmoves, hstays⟩ :=
        @moved_read source asserted members told htold hasserted
      obtain rfl := Option.some.inj (hmoved.symm.trans hfirst)
      have hshifted : Shifted source asserted (.obj members) told kept := ⟨hkey, hmoves, hstays⟩
      refine ⟨kept :: after, mapM_cons_eq_some.mpr ⟨kept, after, hkept, hafter, rfl⟩, ?_, ?_⟩
      · intro other hother before hbefore
        rcases List.mem_cons.mp hother with rfl | hmem
        · obtain rfl := Option.some.inj (htold.symm.trans hbefore)
          exact ⟨kept, by simp, hshifted⟩
        · obtain ⟨found, hfound, hshift⟩ := hforward other hmem before hbefore
          exact ⟨found, by simp [hfound], hshift⟩
      · intro other hother
        rcases List.mem_cons.mp hother with rfl | hmem
        · exact ⟨_, by simp, told, htold, hshifted⟩
        · obtain ⟨found, hfound, before, hbefore, hshift⟩ := hbackward other hmem
          exact ⟨found, by simp [hfound], before, hbefore, hshift⟩

/-- The composed document is read, with each test as the move leaves it. -/
theorem policyAllowing_read (hview : view live = some held)
    (h : policyAllowing live source target port = some (some (amended, summary))) :
    ∃ declared, view amended = some declared ∧
      (∀ test ∈ testsOf live, ∀ before, policyTest test = some before →
        ∃ after ∈ declared.tests, Shifted source s!"{target}:{port}" test before after) ∧
      ∀ after ∈ declared.tests, ∃ test ∈ testsOf live, ∃ before, policyTest test = some before ∧
        Shifted source s!"{target}:{port}" test before after := by
  cases live with
  | obj parsed =>
      simp only [policyAllowing, Option.bind_eq_bind, Option.bind_eq_some_iff] at h
      obtain ⟨⟨opened, granted⟩, hgrant, h⟩ := h
      obtain ⟨htests, hgroups, htagOwners, hhosts, hgrants, hssh, hnodeAttrs⟩ := view_obj.mp hview
      obtain ⟨⟨grants, hread⟩, hother⟩ := grant_read hgrants hgrant
      by_cases hgranted : granted = ""
      · simp [hgranted] at h
      · rw [if_neg hgranted] at h
        simp only [Option.bind_eq_some_iff, Option.some.injEq, Prod.mk.injEq] at h
        obtain ⟨listed, hlisted, dicts, hdicts, changed, hchanged, rfl, -⟩ := h
        obtain ⟨hitems, hlive⟩ := list_tests htests
        rw [hother _ (by decide), hitems] at hlisted
        obtain rfl := Option.some.inj hlisted
        obtain ⟨after, hafter, hforward, hbackward⟩ :=
          tests_read (asserted_ne_empty target port) hlive hdicts hchanged
        refine ⟨⟨after, held.groups, held.tagOwners, held.hosts, grants, held.ssh, held.nodeAttrs⟩,
          view_obj.mpr ?_, hforward, hbackward⟩
        rw [member_assign_self, member_assign_of_ne (by decide), member_assign_of_ne (by decide),
          member_assign_of_ne (by decide), member_assign_of_ne (by decide),
          member_assign_of_ne (by decide), member_assign_of_ne (by decide), hother "groups" (by decide),
          hother "tagOwners" (by decide), hother "hosts" (by decide), hother "ssh" (by decide),
          hother "nodeAttrs" (by decide)]
        exact ⟨hafter, hgroups, htagOwners, hhosts, hread, hssh, hnodeAttrs⟩
  | _ => cases h

/-- Every denial that moves is stated once more by a test of the same source and
protocol, where it stays: the test is not one that moves, or it lists it again. -/
def Restated (live : Json) (source asserted : String) : Prop :=
  ∀ test ∈ testsOf live, ∀ told, policyTest test = some told → Moves source asserted test →
    ∃ other ∈ testsOf live, ∃ kept, policyTest other = some kept ∧ kept.key = told.key ∧
      asserted ∈ kept.deny ∧ (Moves source asserted other → 1 < kept.deny.count asserted)

/-- The controller lets a path through that a person approved exactly when no denial
moved for good: what moves with the grant, the controller keeps. -/
theorem policyAllowing_accepted_iff (hview : view live = some held) (htested : held.tests ≠ [])
    (hallowing : policyAllowing live source target port = some (some (amended, summary))) :
    (∃ declared, view amended = some declared ∧ refuseWeakerTests held declared = .ok ()) ↔
      Restated live source s!"{target}:{port}" := by
  obtain ⟨declared, hdeclared, hforward, hbackward⟩ := policyAllowing_read hview hallowing
  have hheld : ∀ told, told ∈ held.tests ↔ ∃ test ∈ testsOf live, policyTest test = some told := by
    intro told
    cases live with
    | obj parsed => exact mem_of_mapM_eq_some (view_tests hview rfl)
    | _ => cases hallowing
  have hasserted := asserted_ne_empty target port
  generalize s!"{target}:{port}" = asserted at hforward hbackward hasserted ⊢
  constructor
  · rintro ⟨read, hread, haccepted⟩ test htest told htold hmoves
    obtain rfl := Option.some.inj (hdeclared.symm.trans hread)
    obtain ⟨-, hstrict⟩ := refuseWeakerTests_eq_ok.mp haccepted
    have hdenied : asserted ∈ told.deny := by
      obtain ⟨members, rfl, hdenies⟩ := hmoves
      exact mem_deny_of_denies htold hasserted hdenies
    obtain ⟨after, hafter, hkey, hdeny⟩ := hstrict.denials told.key asserted
      ⟨told, (hheld told).mpr ⟨test, htest, htold⟩, rfl, hdenied⟩
    obtain ⟨other, hother, before, hbefore, hshift⟩ := hbackward after hafter
    exact ⟨other, hother, before, hbefore, hshift.key.symm.trans hkey,
      hshift.mem_deny_self.mp hdeny⟩
  · intro hrestated
    refine ⟨declared, hdeclared, refuseWeakerTests_eq_ok.mpr ⟨?_, ?_, ?_⟩⟩
    · obtain ⟨told, htold⟩ := List.exists_mem_of_ne_nil _ htested
      obtain ⟨test, htest, hread⟩ := (hheld told).mp htold
      obtain ⟨after, hafter, -⟩ := hforward test htest told hread
      exact List.ne_nil_of_mem hafter
    · rintro pair ⟨told, htold, rfl⟩
      obtain ⟨test, htest, hread⟩ := (hheld told).mp htold
      obtain ⟨after, hafter, hshift⟩ := hforward test htest told hread
      exact ⟨after, hafter, hshift.key⟩
    · rintro pair dst ⟨told, htold, rfl, hdst⟩
      obtain ⟨test, htest, hread⟩ := (hheld told).mp htold
      obtain ⟨after, hafter, hshift⟩ := hforward test htest told hread
      by_cases hmoved : dst = asserted ∧ Moves source asserted test
      · obtain ⟨rfl, hmoves⟩ := hmoved
        -- the move took this one; another test says it still
        obtain ⟨other, hother, kept, hkept, hkey, hdenied⟩ := hrestated test htest told hread hmoves
        obtain ⟨after, hafter, hshift⟩ := hforward other hother kept hkept
        exact ⟨after, hafter, hshift.key.trans hkey, hshift.mem_deny_self.mpr hdenied⟩
      · refine ⟨after, hafter, hshift.key, ?_⟩
        by_cases hne : dst = asserted
        · subst hne
          exact hshift.mem_deny_self.mpr ⟨hdst, fun hmoves => absurd ⟨rfl, hmoves⟩ hmoved⟩
        · exact (hshift.mem_deny_of_ne hne).mpr hdst

/-- A policy that denies the path twice, once of a protocol it leaves empty. -/
def twiceDenied : Json := .obj
  [("tests", .arr
    [.obj [("src", .str "tag:watcher"), ("proto", .str ""), ("deny", .arr [.str "tag:web:443"])],
      .obj [("src", .str "tag:watcher"), ("deny", .arr [.str "tag:web:443"])]])]

/-- The denial that stays lets the other one move. -/
theorem restated_path_accepted :
    ∃ held amended summary declared, view twiceDenied = some held ∧
      policyAllowing twiceDenied "tag:watcher" "tag:web" 443 = some (some (amended, summary)) ∧
      view amended = some declared ∧ refuseWeakerTests held declared = .ok () := by
  have hrestated : ∀ (target : String) (port : Int), target = "tag:web" → port = 443 →
      Restated twiceDenied "tag:watcher" s!"{target}:{port}" := by
    rintro target port rfl rfl test htest told htold _
    refine ⟨_, List.mem_cons_self, ⟨"tag:watcher", "", [], ["tag:web:443"]⟩, rfl, ?_, by decide, ?_⟩
    · rcases List.mem_cons.mp htest with rfl | hmem
      · obtain rfl := Option.some.inj htold
        rfl
      · obtain rfl := List.mem_singleton.mp hmem
        obtain rfl := Option.some.inj htold
        rfl
    · rintro ⟨members, hmembers, hdenies⟩
      obtain rfl := Json.obj.inj hmembers
      exact absurd hdenies (by decide)
  obtain ⟨declared, hdeclared, haccepted⟩ :=
    (@policyAllowing_accepted_iff _ _ 443 twiceDenied _ _ _ rfl (by decide) rfl).mpr (hrestated _ _ rfl rfl)
  exact ⟨_, _, _, declared, rfl, rfl, hdeclared, haccepted⟩

/-- A policy whose one test denies the path. -/
def onceDenied : Json := .obj
  [("tests", .arr [.obj
    [("src", .str "tag:watcher"), ("deny", .arr [.str "tag:web:443", .str "tag:db:5432"])]])]

/-- Opening a path the policy's tests deny composes a document the controller refuses. -/
theorem denied_path_refused :
    ∃ held amended summary declared, view onceDenied = some held ∧ held.tests ≠ [] ∧
      policyAllowing onceDenied "tag:watcher" "tag:web" 443 = some (some (amended, summary)) ∧
      view amended = some declared ∧
      refuseWeakerTests held declared =
        .error (.undenied ⟨"tag:watcher", ""⟩ "tag:web:443") :=
  ⟨_, _, _, _, rfl, by decide, rfl, rfl, by decide⟩

end Composed

end SeverinoHQ.Tailnet
