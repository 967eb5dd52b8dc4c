/-
# What a policy's tests say after a path is opened

The denial of a path moves with the grant: what is left denies it no more, says all else as
it did, and admits the path, so that asking again changes nothing. A denial listed twice
moves once.
-/

import SeverinoHQ.Tailnet.Admitting

namespace SeverinoHQ.Tailnet

open SeverinoHQ.Math

/-- The tests a policy lists, as Python reads the list. -/
def listedTests (policy : Json) : List Json :=
  (items ((policy.get? "tests").getD .null)).getD []

/-- The assertions of one side of a test, but for one. -/
def others (asserted : String) (side : Json) : Option (List Json) :=
  (items side).map fun listed => listed.filter fun other => other ≠ .str asserted

/-- A test as it was but for the one assertion, on the sides of a test that denied it. -/
def Keeps (source asserted : String) (test after : Json) : Prop :=
  after = test ∨ ∃ members changed, dict test = some members ∧ after = .obj changed ∧
    (¬Moves source asserted (.obj members) → changed = members) ∧
    (∀ name, name ≠ "accept" → name ≠ "deny" →
      (Json.obj changed).get? name = (Json.obj members).get? name) ∧
    ∀ side, side = "accept" ∨ side = "deny" →
      others asserted (member changed side) = others asserted (member members side)

/-- The first grant between the two carries the path. -/
def Carries (source target wanted : String) (grants : Json) : Prop :=
  ∃ listed before between after ports, items grants = some listed ∧
    existing source target listed = some (some (before, between, after)) ∧
    items (member between "ip") = some ports ∧ .str wanted ∈ ports

/-- What opening a path leaves: no test of the source denies it, every other assertion is as
it was, and asked again there is nothing to do. -/
structure PathMoved (live : Json) (outcome : Option (Json × String)) (source target : String)
    (port : Int) : Prop where
  undenied : ∀ test ∈ listedTests (leaves live outcome), ¬Moves source s!"{target}:{port}" test
  others : List.Forall₂ (Keeps source s!"{target}:{port}") (listedTests live)
    (listedTests (leaves live outcome))
  settled : policyAllowing (leaves live outcome) source target port = some none

/-- A test that denies the path lists it once, and stands in a policy that does not carry
the path yet. -/
def DeniedOnce (live : Json) (source target : String) (port : Int) : Prop :=
  ∀ members, .obj members ∈ listedTests live →
    denies members source s!"{target}:{port}" = some true →
      ¬Carries source target s!"tcp:{port}" ((live.get? "grants").getD .null) ∧
        ∀ denied, items (member members "deny") = some denied →
          denied.count (.str s!"{target}:{port}") = 1

/-! ## The grant -/

section Granting

variable {source target wanted : String} {parsed members opened : List (String × Json)}
  {grants : List Json}

theorem joins_congr (hsrc : member opened "src" = member members "src")
    (hdst : member opened "dst" = member members "dst") :
    joins source target opened = joins source target members := by
  unfold joins
  rw [hsrc, hdst]

/-- A grant that joins the two is found behind grants that do not. -/
theorem existing_of_joins {before after : List Json}
    (hbefore : existing source target before = some none)
    (hjoins : joins source target members = some true) :
    existing source target (before ++ .obj members :: after) =
      some (some (before, members, after)) := by
  induction before with
  | nil => simp [existing, hjoins]
  | cons first before ih =>
      cases first with
      | obj other =>
          simp only [existing, Option.bind_eq_bind, Option.bind_eq_some_iff] at hbefore
          obtain ⟨joined, hjoined, hrest⟩ := hbefore
          cases joined with
          | true => simp at hrest
          | false =>
              have hnone : existing source target before = some none := by
                simpa [Option.bind_eq_some_iff] using hrest
              simp [existing, hjoined, ih hnone]
      | _ => simp [existing] at hbefore

/-- The grant between the two joins them, and none before it does. -/
theorem joins_of_existing {before after : List Json} {between : List (String × Json)}
    (h : existing source target grants = some (some (before, between, after))) :
    existing source target before = some none ∧ joins source target between = some true := by
  induction grants generalizing before with
  | nil => simp [existing] at h
  | cons first grants ih =>
      cases first with
      | obj other =>
          simp only [existing, Option.bind_eq_bind, Option.bind_eq_some_iff] at h
          obtain ⟨joined, hjoined, h⟩ := h
          cases joined with
          | true =>
              simp only [if_true, Option.some.injEq, Prod.mk.injEq] at h
              obtain ⟨rfl, rfl, rfl⟩ := h
              exact ⟨rfl, hjoined⟩
          | false =>
              simp only [Bool.false_eq_true, if_false, Option.bind_eq_some_iff,
                Option.some.injEq, Option.map_eq_some_iff] at h
              obtain ⟨found, hfound, ⟨earlier, rest⟩, rfl, heq⟩ := h
              simp only [Prod.mk.injEq] at heq
              obtain ⟨rfl, rfl⟩ := heq
              obtain ⟨hearlier, hbetween⟩ := ih hfound
              exact ⟨by simp [existing, hjoined, hearlier], hbetween⟩
      | _ => simp [existing] at h

/-- Where the path is carried, the grant step changes nothing and says nothing. -/
theorem grant_of_carries (h : Carries source target wanted (member parsed "grants")) :
    grant parsed source target wanted = some (parsed, "") := by
  obtain ⟨listed, before, between, after, ports, hlisted, hfound, hports, hwanted⟩ := h
  simp [grant, hlisted, hfound, hports, hwanted]

/-- A grant step that says something opened the path, which was not carried. -/
theorem grant_opens {said : String} (h : grant parsed source target wanted = some (opened, said))
    (hsaid : said ≠ "") :
    Carries source target wanted (member opened "grants") ∧
      ∀ name, name ≠ "grants" → (Json.obj opened).get? name = (Json.obj parsed).get? name := by
  simp only [grant, Option.bind_eq_bind, Option.bind_eq_some_iff] at h
  obtain ⟨listed, hlisted, found, hfound, h⟩ := h
  cases found with
  | none =>
      obtain ⟨rfl, -⟩ := Prod.mk.inj (Option.some.inj h)
      refine ⟨?_, fun name hname => get?_assign_of_ne hname⟩
      rw [member_assign_self]
      refine ⟨_, listed, _, [], [.str wanted], rfl, existing_of_joins hfound ?_, rfl, by simp⟩
      simp [joins, contains, items, member, Json.get?]
  | some found =>
      obtain ⟨before, between, after⟩ := found
      simp only [Option.bind_eq_some_iff] at h
      obtain ⟨ports, hports, h⟩ := h
      split at h
      · obtain ⟨-, rfl⟩ := Prod.mk.inj (Option.some.inj h)
        exact absurd rfl hsaid
      · obtain ⟨rfl, -⟩ := Prod.mk.inj (Option.some.inj h)
        refine ⟨?_, fun name hname => get?_assign_of_ne hname⟩
        rw [member_assign_self]
        obtain ⟨hbefore, hjoins⟩ := joins_of_existing hfound
        refine ⟨_, before, _, after, ports ++ [.str wanted], rfl,
          existing_of_joins hbefore ?_, ?_, by simp⟩
        · rw [← hjoins]
          exact joins_congr (member_assign_of_ne (by decide)) (member_assign_of_ne (by decide))
        · rw [member_assign_self]
          rfl

/-- A grant step that says nothing found the path carried. -/
theorem carries_of_grant (h : grant parsed source target wanted = some (opened, "")) :
    Carries source target wanted (member parsed "grants") := by
  simp only [grant, Option.bind_eq_bind, Option.bind_eq_some_iff] at h
  obtain ⟨listed, hlisted, found, hfound, h⟩ := h
  cases found with
  | none =>
      obtain ⟨-, hsaid⟩ := Prod.mk.inj (Option.some.inj h)
      exact absurd (congrArg String.toList hsaid) (by simp [toString])
  | some found =>
      obtain ⟨before, between, after⟩ := found
      simp only [Option.bind_eq_some_iff] at h
      obtain ⟨ports, hports, h⟩ := h
      split at h
      · next hwanted => exact ⟨listed, before, between, after, ports, hlisted, hfound, hports, hwanted⟩
      · obtain ⟨-, hsaid⟩ := Prod.mk.inj (Option.some.inj h)
        exact absurd (congrArg String.toList hsaid) (by simp [toString])

end Granting

/-! ## The tests -/

section Testing

variable {source asserted : String} {members changed : List (String × Json)}

theorem get?_pop_of_ne {name other : String} (hother : other ≠ name) :
    (Json.obj (pop name members)).get? other = (Json.obj members).get? other := by
  induction members with
  | nil => rfl
  | cons first members ih =>
      simp only [Json.get?, pop] at ih ⊢
      by_cases hname : first.1 = name
      · simpa [hname, Ne.symm hother] using ih
      · by_cases hfirst : first.1 = other
        · simp [hfirst, hother]
        · simpa [hname, hfirst] using ih

theorem mem_erase_self_iff {value : Json} {listed : List Json} :
    value ∈ listed.erase value ↔ 1 < listed.count value := by
  rw [← List.count_pos_iff, List.count_erase_self]
  omega

theorem filter_erase (value : Json) (listed : List Json) :
    (listed.erase value).filter (fun other => other ≠ value) =
      listed.filter fun other => other ≠ value := by
  induction listed with
  | nil => rfl
  | cons first listed ih =>
      by_cases hfirst : first = value
      · simp [hfirst]
      · rw [List.erase_cons_tail (by simpa using hfirst)]
        simpa [hfirst] using ih

/-- What the move changes of a test. -/
structure Accepted (asserted : String) (members changed : List (String × Json)) : Prop where
  denied : ∃ denied, items (member members "deny") = some denied ∧ .str asserted ∈ denied ∧
    contains asserted (member changed "deny") =
      some (decide (1 < denied.count (.str asserted)))
  names : ∀ name, name ≠ "accept" → name ≠ "deny" →
    (Json.obj changed).get? name = (Json.obj members).get? name
  sides : ∀ side, side = "accept" ∨ side = "deny" →
    others asserted (member changed side) = others asserted (member members side)

theorem accept_spec (h : accept members asserted = some changed) :
    Accepted asserted members changed := by
  simp only [accept, Option.bind_eq_bind, Option.bind_eq_some_iff] at h
  obtain ⟨denied, hdenied, h⟩ := h
  split at h
  · next hmem =>
      simp only [Option.bind_eq_some_iff, Option.some.injEq] at h
      obtain ⟨accepted, haccepted, rfl⟩ := h
      set kept := denied.erase (.str asserted) with hkept
      set lighter := if kept = [] then pop "deny" members else assign "deny" (.arr kept) members
        with hlighter
      have hother : ∀ name, name ≠ "deny" →
          (Json.obj lighter).get? name = (Json.obj members).get? name := by
        intro name hname
        rw [hlighter]
        split
        · exact get?_pop_of_ne hname
        · exact get?_assign_of_ne hname
      have hdeny : ∃ side, member lighter "deny" = side ∧ items side = some kept ∧
          contains asserted side = some (decide (.str asserted ∈ kept)) := by
        rw [hlighter]
        split
        · next hnone => exact ⟨.null, member_pop_self, by rw [hnone]; rfl, by rw [hnone]; rfl⟩
        · exact ⟨.arr kept, member_assign_self, rfl, rfl⟩
      obtain ⟨side, hside, hitems, hcontains⟩ := hdeny
      have haccept : member lighter "accept" = member members "accept" := by
        unfold member
        rw [hother "accept" (by decide)]
      rw [haccept] at haccepted
      -- the acceptances, with the assertion among them
      set written := if .str asserted ∈ accepted then lighter
        else assign "accept" (.arr (accepted ++ [.str asserted])) lighter with hwritten
      have hdenySide : member written "deny" = side := by
        rw [hwritten, ← hside]
        split
        · rfl
        · exact member_assign_of_ne (by decide)
      refine ⟨⟨denied, hdenied, hmem, ?_⟩, ?_, ?_⟩
      · simp only [hdenySide, hcontains, hkept, mem_erase_self_iff]
      · intro name haccept hdeny
        rw [← hother name hdeny, hwritten]
        split
        · rfl
        · exact get?_assign_of_ne haccept
      · rintro name (rfl | rfl)
        · rw [hwritten]
          split
          · rw [haccept]
          · simp only [others, haccepted, Option.map_some, member_assign_self]
            simp [items]
        · simp only [others, hdenySide, hitems, hdenied, Option.map_some]
          rw [hkept, filter_erase]
  · cases h

/-- A moved test denies the path again exactly where it listed it once more. -/
theorem Accepted.moves_iff (h : Accepted asserted members changed)
    (hmoves : Moves source asserted (.obj members)) :
    ¬Moves source asserted (.obj changed) ↔
      ∀ denied, items (member members "deny") = some denied → denied.count (.str asserted) = 1 := by
  obtain ⟨_, hobj, hdenies⟩ := hmoves
  obtain rfl := Json.obj.inj hobj
  obtain ⟨denied, hdenied, hmem, hcontains⟩ := h.denied
  have htcp : member members "src" = .str source ∧
      ((Json.obj members).get? "proto").getD (.str "tcp") = .str "tcp" := by
    by_contra hnot
    simp [denies, hnot] at hdenies
  have hafter : denies changed source asserted =
      some (decide (1 < denied.count (.str asserted))) := by
    have hsrc : member changed "src" = member members "src" := by
      unfold member
      rw [h.names "src" (by decide) (by decide)]
    simp only [denies, hsrc, h.names "proto" (by decide) (by decide), htcp, and_self, if_true,
      hcontains]
  have hpositive := List.count_pos_iff.mpr hmem
  constructor
  · intro hnot other hother
    obtain rfl := Option.some.inj (hdenied.symm.trans hother)
    by_contra hmore
    have hagain : 1 < denied.count (.str asserted) := by omega
    exact hnot ⟨changed, rfl, by simp [hafter, hagain]⟩
  · rintro honce ⟨_, hobj, hagain⟩
    obtain rfl := Json.obj.inj hobj
    simp [hafter, honce denied hdenied] at hagain

/-- One test after the move: it is kept, and denies the path no more where it listed it once. -/
theorem moved_spec {test : Json} {after : Json × List String} (hdict : dict test = some members)
    (h : moved source asserted members = some after) :
    Keeps source asserted test after.1 ∧
      (¬Moves source asserted after.1 ↔ (denies members source asserted = some true →
        ∀ denied, items (member members "deny") = some denied →
          denied.count (.str asserted) = 1)) := by
  simp only [moved, Option.bind_eq_bind, Option.bind_eq_some_iff] at h
  obtain ⟨denying, hdenying, h⟩ := h
  cases denying with
  | true =>
      simp only [if_true, Option.bind_eq_some_iff, Option.some.injEq] at h
      obtain ⟨changed, hchanged, rfl⟩ := h
      have hmoves : Moves source asserted (.obj members) := ⟨members, rfl, hdenying⟩
      have hspec := accept_spec hchanged
      refine ⟨Or.inr ⟨members, changed, hdict, rfl, fun hnot => absurd hmoves hnot, hspec.names,
        hspec.sides⟩, ?_⟩
      simp only [hspec.moves_iff hmoves, hdenying, true_implies]
  | false =>
      simp only [Bool.false_eq_true, if_false, Option.some.injEq] at h
      subst h
      refine ⟨Or.inr ⟨members, members, hdict, rfl, fun _ => rfl, fun _ _ _ => rfl,
        fun _ _ => rfl⟩, ?_⟩
      have hnot : ¬Moves source asserted (.obj members) := by
        rintro ⟨_, hobj, hdenies⟩
        obtain rfl := Json.obj.inj hobj
        simp [hdenying] at hdenies
      simp [hnot, hdenying]

end Testing

/-! ## The policy -/

section Policy

variable {source target : String} {port : Int} {live : Json} {outcome : Option (Json × String)}

/-- A test that denies a path is one with members. -/
theorem obj_of_denies {asserted : String} {test : Json} {members : List (String × Json)}
    (hdict : dict test = some members) (hdenies : denies members source asserted = some true) :
    test = .obj members := by
  have hnil : denies [] source asserted = some false := by
    simp [denies, member, Json.get?]
  cases test with
  | obj other => exact congrArg Json.obj (Option.some.inj hdict)
  | str value =>
      simp only [dict, Option.ite_none_right_eq_some, Option.some.injEq] at hdict
      simp [← hdict.2, hnil] at hdenies
  | arr listed =>
      simp only [dict, Option.ite_none_right_eq_some, Option.some.injEq] at hdict
      simp [← hdict.2, hnil] at hdenies
  | _ => cases hdict

/-- The tests of a policy, each moved or left. -/
theorem moved_tests {asserted : String} {tests : List Json} {dicts : List (List (String × Json))}
    {changed : List (Json × List String)} (hdicts : tests.mapM dict = some dicts)
    (hchanged : dicts.mapM (moved source asserted) = some changed) :
    List.Forall₂ (Keeps source asserted) tests (changed.map Prod.fst) ∧
      ((∀ test ∈ changed.map Prod.fst, ¬Moves source asserted test) ↔
        ∀ members, .obj members ∈ tests → denies members source asserted = some true →
          ∀ denied, items (member members "deny") = some denied →
            denied.count (.str asserted) = 1) := by
  induction tests generalizing dicts changed with
  | nil =>
      obtain rfl : [] = dicts := Option.some.inj hdicts
      obtain rfl : [] = changed := Option.some.inj hchanged
      simp
  | cons test tests ih =>
      obtain ⟨members, rest, hmembers, hrest, rfl⟩ := mapM_cons_eq_some.mp hdicts
      obtain ⟨after, later, hafter, hlater, rfl⟩ := mapM_cons_eq_some.mp hchanged
      obtain ⟨hkept, hundenied⟩ := ih hrest hlater
      obtain ⟨hkeeps, hmoves⟩ := moved_spec hmembers hafter
      refine ⟨List.Forall₂.cons hkeeps hkept, ?_⟩
      simp only [List.map_cons, List.mem_cons, forall_eq_or_imp, hundenied, hmoves]
      constructor
      · rintro ⟨hfirst, hothers⟩ other (hother | hother) hdenies
        · obtain rfl := Option.some.inj (hmembers.symm.trans (hother ▸ rfl : dict test = some other))
          exact hfirst hdenies
        · exact hothers other hother hdenies
      · intro hall
        refine ⟨?_, fun other hother => hall other (Or.inr hother)⟩
        intro hdenies
        exact hall members (Or.inl (obj_of_denies hmembers hdenies).symm) hdenies

/-- A policy that is composed lists its tests, moved, and carries the path. -/
theorem composed_spec {amended : Json} {summary : String}
    (h : policyAllowing live source target port = some (some (amended, summary))) :
    ¬Carries source target s!"tcp:{port}" ((live.get? "grants").getD .null) ∧
      policyAllowing amended source target port = some none ∧
      List.Forall₂ (Keeps source s!"{target}:{port}") (listedTests live) (listedTests amended) ∧
      ((∀ test ∈ listedTests amended, ¬Moves source s!"{target}:{port}" test) ↔
        ∀ members, .obj members ∈ listedTests live →
          denies members source s!"{target}:{port}" = some true →
          ∀ denied, items (member members "deny") = some denied →
            denied.count (.str s!"{target}:{port}") = 1) := by
  cases live with
  | obj parsed =>
      simp only [policyAllowing, Option.bind_eq_bind, Option.bind_eq_some_iff] at h
      obtain ⟨⟨opened, said⟩, hgrant, h⟩ := h
      by_cases hsaid : said = ""
      · simp [hsaid] at h
      · rw [if_neg hsaid] at h
        simp only [Option.bind_eq_some_iff, Option.some.injEq, Prod.mk.injEq] at h
        obtain ⟨tests, htests, dicts, hdicts, changed, hchanged, rfl, -⟩ := h
        obtain ⟨hcarries, hothers⟩ := grant_opens hgrant hsaid
        have hlive : listedTests (.obj parsed) = tests := by
          unfold member at htests
          rw [hothers "tests" (by decide)] at htests
          simp [listedTests, htests]
        have hamended : listedTests (.obj (assign "tests" (.arr (changed.map Prod.fst)) opened)) =
            changed.map Prod.fst := by
          show (items (member _ "tests")).getD [] = _
          rw [member_assign_self]
          rfl
        rw [hlive, hamended]
        refine ⟨?_, ?_, moved_tests hdicts hchanged⟩
        · intro hheld
          have hnothing := hgrant.symm.trans (grant_of_carries hheld)
          exact hsaid (Prod.mk.inj (Option.some.inj hnothing)).2
        · have hagain : Carries source target s!"tcp:{port}"
              (member (assign "tests" (.arr (changed.map Prod.fst)) opened) "grants") := by
            rw [member_assign_of_ne (by decide)]
            exact hcarries
          simp only [policyAllowing, grant_of_carries hagain, Option.bind_eq_bind, Option.bind_some,
            if_true]
  | _ => cases h

/-- Nothing is composed only where the path is carried. -/
theorem carries_of_nothing (h : policyAllowing live source target port = some none) :
    Carries source target s!"tcp:{port}" ((live.get? "grants").getD .null) := by
  cases live with
  | obj parsed =>
      simp only [policyAllowing, Option.bind_eq_bind, Option.bind_eq_some_iff] at h
      obtain ⟨⟨opened, said⟩, hgrant, h⟩ := h
      by_cases hsaid : said = ""
      · subst hsaid
        exact carries_of_grant hgrant
      · simp [hsaid, Option.bind_eq_some_iff] at h
  | _ => cases h

/-- A path that is opened is denied no more, with every other assertion as it was and nothing
left to do, exactly where each test that denies it lists it once and none stands beside a
grant that carries it. -/
theorem policyAllowing_moves_iff
    (h : policyAllowing live source target port = some outcome) :
    PathMoved live outcome source target port ↔ DeniedOnce live source target port := by
  cases outcome with
  | none =>
      have hcarries := carries_of_nothing h
      constructor
      · rintro ⟨hundenied, -, -⟩ members hmem hdenies
        exact absurd ⟨members, rfl, hdenies⟩ (hundenied _ hmem)
      · intro honce
        refine ⟨?_, ?_, h⟩
        · rintro _ hmem ⟨members, rfl, hdenies⟩
          exact (honce members hmem hdenies).1 hcarries
        · exact List.forall₂_same.mpr fun test _ => Or.inl rfl
  | some composed =>
      obtain ⟨amended, summary⟩ := composed
      obtain ⟨hnew, hsettled, hkept, hundenied⟩ := composed_spec h
      constructor
      · rintro ⟨hnone, -, -⟩ members hmem hdenies
        exact ⟨hnew, hundenied.mp hnone members hmem hdenies⟩
      · intro honce
        exact ⟨hundenied.mpr fun members hmem hdenies => (honce members hmem hdenies).2, hkept,
          hsettled⟩

end Policy

/-- A path denied once is opened, and its denial moves. -/
theorem onceDenied_moved :
    ∃ amended summary,
      policyAllowing onceDenied "tag:watcher" "tag:web" 443 = some (some (amended, summary)) ∧
        PathMoved onceDenied (some (amended, summary)) "tag:watcher" "tag:web" 443 := by
  refine ⟨_, _, rfl, (policyAllowing_moves_iff rfl).mpr ?_⟩
  intro members hmem _
  have hmem : Json.obj members ∈ [.obj
    [("src", .str "tag:watcher"), ("deny", .arr [.str "tag:web:443", .str "tag:db:5432"])]] := hmem
  obtain rfl := Json.obj.inj (List.mem_singleton.mp hmem)
  constructor
  · rintro ⟨listed, before, between, after, ports, hlisted, hfound, -, -⟩
    obtain rfl : [] = listed := Option.some.inj hlisted
    cases hfound
  · intro denied hdenied
    obtain rfl : [.str "tag:web:443", .str "tag:db:5432"] = denied := Option.some.inj hdenied
    decide

/-- A policy whose test lists the denial twice. -/
def listedTwice : Json := .obj
  [("tests", .arr [.obj [("src", .str "tag:watcher"),
    ("deny", .arr [.str "tag:web:443", .str "tag:web:443"])]])]

/-- One of the two denials is left beside the acceptance. -/
theorem listed_twice_denied :
    ¬∀ (live : Json) (outcome : Option (Json × String)) (source target : String) (port : Int),
      policyAllowing live source target port = some outcome →
        PathMoved live outcome source target port := by
  intro h
  have hmoved := h listedTwice _ "tag:watcher" "tag:web" 443 rfl
  refine hmoved.undenied (.obj [("src", .str "tag:watcher"), ("deny", .arr [.str "tag:web:443"]),
    ("accept", .arr [.str "tag:web:443"])]) ?_ ⟨_, rfl, ?_⟩
  · exact List.mem_singleton_self _
  · decide

end SeverinoHQ.Tailnet
