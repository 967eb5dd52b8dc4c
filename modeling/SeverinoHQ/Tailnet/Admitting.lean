/-
# What an opened path admits

A grant admits every path from one of its sources to one of its destinations on one of
its ports, so a port added to a grant reaches as far as the grant does. The policy
`policyAllowing` composes admits one path more exactly when the grant that takes the
port reaches no further than what is admitted already.
-/

import SeverinoHQ.Tailnet.Allowing

namespace SeverinoHQ.Tailnet

open SeverinoHQ.Math

/-! ## Paths and what admits them -/

/-- A source, a destination and a `protocol:port`. -/
structure Path where
  source : String
  target : String
  port : String
  deriving DecidableEq, Repr

/-- What the names in a grant stand for: each at least for itself, a wildcard, a group
or a range for more. -/
structure Selectors where
  source : String → String → Prop
  target : String → String → Prop
  port : String → String → Prop
  source_self : ∀ name, source name name
  target_self : ∀ name, target name name
  port_self : ∀ name, port name name

/-- Every name stands for itself alone. -/
def Selectors.literal : Selectors where
  source := Eq
  target := Eq
  port := Eq
  source_self _ := rfl
  target_self _ := rfl
  port_self _ := rfl

namespace TailnetPolicyGrant

/-- A grant lists a path by name. -/
def Lists (grant : TailnetPolicyGrant) (path : Path) : Prop :=
  path.source ∈ grant.src ∧ path.target ∈ grant.dst ∧ path.port ∈ grant.ip

/-- A grant admits whatever its three lists stand for together. -/
def Admits (selectors : Selectors) (grant : TailnetPolicyGrant) (path : Path) : Prop :=
  (∃ name ∈ grant.src, selectors.source name path.source) ∧
    (∃ name ∈ grant.dst, selectors.target name path.target) ∧
    ∃ name ∈ grant.ip, selectors.port name path.port

theorem Lists.admits {selectors : Selectors} {grant : TailnetPolicyGrant} {path : Path}
    (h : grant.Lists path) : grant.Admits selectors path :=
  ⟨⟨_, h.1, selectors.source_self _⟩, ⟨_, h.2.1, selectors.target_self _⟩,
    ⟨_, h.2.2, selectors.port_self _⟩⟩

/-- A port more on a grant admits what the grant reaches on that port. -/
theorem admits_append {selectors : Selectors} {grant : TailnetPolicyGrant} {wanted : String}
    {path : Path} :
    ({ grant with ip := grant.ip ++ [wanted] } : TailnetPolicyGrant).Admits selectors path ↔
      grant.Admits selectors path ∨
        ({ grant with ip := [wanted] } : TailnetPolicyGrant).Admits selectors path := by
  simp only [Admits, List.mem_append, or_and_right, exists_or, and_or_left]

end TailnetPolicyGrant

/-- Some grant admits the path. -/
def Admits (selectors : Selectors) (grants : List TailnetPolicyGrant) (path : Path) : Prop :=
  ∃ grant ∈ grants, grant.Admits selectors path

/-! ## The grants a policy carries -/

/-- A name in a grant. -/
def name : Json → Option String
  | .str value => some value
  | _ => none

/-- A grant as a policy carries it: an object whose lists, where it has them, hold names. -/
def writtenGrant : Json → Option TailnetPolicyGrant
  | .obj grant => do
      let src ← list name (member grant "src")
      let dst ← list name (member grant "dst")
      let ip ← list name (member grant "ip")
      some { src, dst, ip }
  | _ => none

/-- The grants of a policy; none where they are not written as grants are. -/
def grantsOf : Json → Option (List TailnetPolicyGrant)
  | .obj parsed => list writtenGrant (member parsed "grants")
  | _ => none

/-- What the port goes on: the first grant between the two, when it does not carry it,
and a grant of its own where there is none between them. -/
def widened (grants : List TailnetPolicyGrant) (asked : Path) : Option TailnetPolicyGrant :=
  match grants.find? fun grant => asked.source ∈ grant.src ∧ asked.target ∈ grant.dst with
  | none => some ⟨[asked.source], [asked.target], [asked.port]⟩
  | some between =>
      if asked.port ∈ between.ip then none else some { between with ip := [asked.port] }

/-- The path asked for, as the grants write it. -/
def Path.asked (source target : String) (port : Int) : Path := ⟨source, target, s!"tcp:{port}"⟩

/-- The policy a request leaves: the composed one, or the live one where nothing is. -/
def leaves (live : Json) (outcome : Option (Json × String)) : Json :=
  match outcome with
  | none => live
  | some (amended, _) => amended

/-! ## Reading the grants back -/

section Readings

variable {selectors : Selectors} {members parsed : List (String × Json)} {asked : Path}
  {needle : String}

theorem get?_assign_of_ne {value : Json} {other : String} (hother : other ≠ needle) :
    (Json.obj (assign needle value members)).get? other = (Json.obj members).get? other := by
  induction members with
  | nil => simp [assign, Json.get?, Ne.symm hother]
  | cons first members ih =>
      simp only [Json.get?] at ih ⊢
      by_cases hfirst : first.1 = needle
      · simp [assign, hfirst, Ne.symm hother]
      · by_cases hheld : first.1 = other
        · simp [assign, hheld, hother]
        · simpa [assign, hfirst, hheld] using ih

theorem mem_names {listed : List Json} {values : List String}
    (h : listed.mapM name = some values) : .str needle ∈ listed ↔ needle ∈ values := by
  rw [mem_of_mapM_eq_some h]
  constructor
  · intro hmem
    exact ⟨_, hmem, rfl⟩
  · rintro ⟨value, hmem, hname⟩
    cases value with
    | str value =>
        obtain rfl : value = needle := Option.some.inj hname
        exact hmem
    | _ => cases hname

theorem contains_names {value : Json} {values : List String} (h : list name value = some values) :
    contains needle value = some (decide (needle ∈ values)) := by
  obtain ⟨listed, hlisted, hread⟩ := exists_items h
  have hmem : .str needle ∈ listed ↔ needle ∈ values := mem_names hread
  cases value with
  | str => cases h
  | _ => simp [contains, hlisted, hmem]

theorem writtenGrant_obj {grant : TailnetPolicyGrant} :
    writtenGrant (.obj members) = some grant ↔
      list name (member members "src") = some grant.src ∧
        list name (member members "dst") = some grant.dst ∧
        list name (member members "ip") = some grant.ip := by
  simp only [writtenGrant, Option.bind_eq_bind, Option.bind_eq_some_iff, Option.some.injEq]
  constructor
  · rintro ⟨src, hsrc, dst, hdst, ip, hip, rfl⟩
    exact ⟨hsrc, hdst, hip⟩
  · rintro ⟨hsrc, hdst, hip⟩
    exact ⟨_, hsrc, _, hdst, _, hip, rfl⟩

theorem joins_written {grant : TailnetPolicyGrant} {source target : String}
    (h : writtenGrant (.obj members) = some grant) :
    joins source target members = some (decide (source ∈ grant.src ∧ target ∈ grant.dst)) := by
  obtain ⟨hsrc, hdst, -⟩ := writtenGrant_obj.mp h
  by_cases hsource : source ∈ grant.src
  · simp [joins, contains_names hsrc, contains_names hdst, hsource]
  · simp [joins, contains_names hsrc, hsource]

/-- The grant between the two is the first that lists both, for the reader as well. -/
theorem existing_written {listed : List Json} {grants : List TailnetPolicyGrant}
    {source target : String} (h : listed.mapM writtenGrant = some grants) :
    (existing source target listed = some none ∧
        grants.find? (fun grant => source ∈ grant.src ∧ target ∈ grant.dst) = none) ∨
      ∃ before between after earlier grant later,
        existing source target listed = some (some (before, between, after)) ∧
        before.mapM writtenGrant = some earlier ∧ writtenGrant (.obj between) = some grant ∧
        after.mapM writtenGrant = some later ∧ grants = earlier ++ grant :: later ∧
        grants.find? (fun grant => source ∈ grant.src ∧ target ∈ grant.dst) = some grant := by
  induction listed generalizing grants with
  | nil =>
      obtain rfl : [] = grants := Option.some.inj h
      exact Or.inl ⟨rfl, rfl⟩
  | cons first listed ih =>
      obtain ⟨grant, rest, hgrant, hrest, rfl⟩ := mapM_cons_eq_some.mp h
      cases first with
      | obj members =>
          have hjoins : joins source target members =
              some (decide (source ∈ grant.src ∧ target ∈ grant.dst)) := joins_written hgrant
          by_cases hbetween : source ∈ grant.src ∧ target ∈ grant.dst
          · refine Or.inr ⟨[], members, listed, [], grant, rest, ?_, rfl, hgrant, hrest, rfl, ?_⟩
            · simp [existing, hjoins, hbetween]
            · simp [hbetween]
          · have hskip : (grant :: rest).find?
                (fun grant => source ∈ grant.src ∧ target ∈ grant.dst) =
                rest.find? fun grant => source ∈ grant.src ∧ target ∈ grant.dst :=
              List.find?_cons_of_neg (by simpa using hbetween)
            rcases ih hrest with ⟨hnone, hfind⟩ |
                ⟨before, between, after, earlier, found, later, hfound, hbefore, hread, hafter,
                  rfl, hfind⟩
            · exact Or.inl ⟨by simp [existing, hjoins, hbetween, hnone], hskip.trans hfind⟩
            · exact Or.inr ⟨.obj members :: before, between, after, grant :: earlier, found, later,
                by simp [existing, hjoins, hbetween, hfound],
                mapM_cons_eq_some.mpr ⟨_, _, hgrant, hbefore, rfl⟩, hread, hafter, rfl,
                hskip.trans hfind⟩
      | _ => cases hgrant

theorem names_append {listed : List Json} {values : List String}
    (h : listed.mapM name = some values) :
    list name (.arr (listed ++ [.str needle])) = some (values ++ [needle]) :=
  list_append h rfl

theorem mapM_append_cons {α β : Type} {read : α → Option β} {before after : List α} {item : α}
    {earlier later : List β} {value : β} (hbefore : before.mapM read = some earlier)
    (hitem : read item = some value) (hafter : after.mapM read = some later) :
    (before ++ item :: after).mapM read = some (earlier ++ value :: later) := by
  rw [List.mapM_append, hbefore]
  simp [hitem, hafter]

end Readings

/-! ## What the grant step opens -/

section Opening

variable {selectors : Selectors} {parsed : List (String × Json)} {asked : Path}
  {grants : List TailnetPolicyGrant}

theorem admits_append_cons {before after : List TailnetPolicyGrant} {grant : TailnetPolicyGrant}
    {path : Path} :
    Admits selectors (before ++ grant :: after) path ↔
      grant.Admits selectors path ∨ Admits selectors (before ++ after) path := by
  simp only [Admits, List.mem_append, List.mem_cons]
  constructor
  · rintro ⟨other, hother | rfl | hother, hadmits⟩
    · exact Or.inr ⟨other, Or.inl hother, hadmits⟩
    · exact Or.inl hadmits
    · exact Or.inr ⟨other, Or.inr hother, hadmits⟩
  · rintro (hadmits | ⟨other, hother | hother, hadmits⟩)
    · exact ⟨grant, Or.inr (Or.inl rfl), hadmits⟩
    · exact ⟨other, Or.inl hother, hadmits⟩
    · exact ⟨other, Or.inr (Or.inr hother), hadmits⟩

/-- The grants of `opened` admit what `grants` did and what `more` does. -/
structure Opens (selectors : Selectors) (grants : List TailnetPolicyGrant)
    (more : TailnetPolicyGrant) (parsed opened : List (String × Json)) : Prop where
  admits : ∃ after, list writtenGrant (member opened "grants") = some after ∧
    ∀ path, Admits selectors after path ↔
      Admits selectors grants path ∨ more.Admits selectors path
  others : ∀ name, name ≠ "grants" → (Json.obj opened).get? name = (Json.obj parsed).get? name

/-- The grant step opens what the port goes on, and says so, or changes nothing. -/
theorem grant_spec (selectors : Selectors)
    (hgrants : list writtenGrant (member parsed "grants") = some grants) :
    match widened grants asked with
    | none => grant parsed asked.source asked.target asked.port = some (parsed, "")
    | some more => ∃ opened said,
        grant parsed asked.source asked.target asked.port = some (opened, said) ∧ said ≠ "" ∧
          Opens selectors grants more parsed opened := by
  obtain ⟨listed, hlisted, hread⟩ := exists_items hgrants
  rcases @existing_written _ _ asked.source asked.target hread with
    ⟨hnone, hfind⟩ | ⟨before, between, after, earlier, held, later, hfound, hbefore, hheld, hafter,
      rfl, hfind⟩
  · have hgrant : grant parsed asked.source asked.target asked.port =
        some (assign "grants" (.arr (listed ++ [.obj [("src", .arr [.str asked.source]),
          ("dst", .arr [.str asked.target]), ("ip", .arr [.str asked.port])]])) parsed,
          s!"a grant from {asked.source} to {asked.target} on {asked.port}") := by
      simp [grant, hlisted, hnone]
    simp only [widened, hfind]
    refine ⟨_, _, hgrant, ?_, ?_, fun name hname => get?_assign_of_ne hname⟩
    · intro hsaid
      exact absurd (congrArg String.toList hsaid) (by simp [toString])
    · refine ⟨grants ++ [⟨[asked.source], [asked.target], [asked.port]⟩], ?_, fun path => ?_⟩
      · rw [member_assign_self]
        exact mapM_append_cons hread (by rfl) (by rfl)
      · rw [admits_append_cons, List.append_nil, or_comm]
  · obtain ⟨-, -, hip⟩ := writtenGrant_obj.mp hheld
    obtain ⟨ports, hports, hnames⟩ := exists_items hip
    simp only [widened, hfind]
    by_cases hcarries : asked.port ∈ held.ip
    · rw [if_pos hcarries]
      simp [grant, hlisted, hfound, hports, (mem_names hnames).mpr hcarries]
    · rw [if_neg hcarries]
      have hnew : .str asked.port ∉ ports := fun hmem => hcarries ((mem_names hnames).mp hmem)
      have hgrant : grant parsed asked.source asked.target asked.port =
          some (assign "grants" (.arr (before ++
            .obj (assign "ip" (.arr (ports ++ [.str asked.port])) between) :: after)) parsed,
            s!"{asked.port} added to the grant from {asked.source} to {asked.target}") := by
        simp [grant, hlisted, hfound, hports, hnew]
      refine ⟨_, _, hgrant, ?_, ?_, fun name hname => get?_assign_of_ne hname⟩
      · intro hsaid
        exact absurd (congrArg String.toList hsaid) (by simp [toString])
      · refine ⟨earlier ++ { held with ip := held.ip ++ [asked.port] } :: later, ?_, fun path => ?_⟩
        · rw [member_assign_self]
          refine mapM_append_cons hbefore (writtenGrant_obj.mpr ?_) hafter
          obtain ⟨hsrc, hdst, -⟩ := writtenGrant_obj.mp hheld
          rw [member_assign_of_ne (by decide), member_assign_of_ne (by decide), member_assign_self]
          exact ⟨hsrc, hdst, names_append hnames⟩
        · rw [admits_append_cons, admits_append_cons, TailnetPolicyGrant.admits_append]
          tauto

/-- The policy left admits one path more, the one asked for, differs from the live one
in its grants and its tests alone, and is the live one as it stands exactly where a grant
lists the path already. -/
structure OpensOnePath (selectors : Selectors) (live : Json) (outcome : Option (Json × String))
    (grants : List TailnetPolicyGrant) (asked : Path) : Prop where
  admits : ∃ after, grantsOf (leaves live outcome) = some after ∧
    ∀ path, Admits selectors after path ↔ Admits selectors grants path ∨ path = asked
  others : ∀ name, name ≠ "grants" → name ≠ "tests" →
    (leaves live outcome).get? name = live.get? name
  unchanged : outcome = none ↔ ∃ grant ∈ grants, grant.Lists asked

/-- Where the port goes on a grant, no grant lists the path, and all else the port opens
there is admitted as it is. -/
def ReachesNoFurther (selectors : Selectors) (grants : List TailnetPolicyGrant) (asked : Path) :
    Prop :=
  ∀ more, widened grants asked = some more →
    (∀ grant ∈ grants, ¬grant.Lists asked) ∧
      ∀ path, more.Admits selectors path → path = asked ∨ Admits selectors grants path

/-- Whatever the port goes on admits the path asked for. -/
theorem admits_widened {more : TailnetPolicyGrant} (h : widened grants asked = some more) :
    more.Admits selectors asked := by
  apply TailnetPolicyGrant.Lists.admits
  cases hfind : grants.find? (fun grant => asked.source ∈ grant.src ∧ asked.target ∈ grant.dst) with
  | none =>
      simp only [widened, hfind, Option.some.injEq] at h
      subst h
      simp [TailnetPolicyGrant.Lists]
  | some between =>
      have hbetween : asked.source ∈ between.src ∧ asked.target ∈ between.dst := by
        simpa using List.find?_some hfind
      simp only [widened, hfind] at h
      split_ifs at h
      obtain rfl := Option.some.inj h
      simp [TailnetPolicyGrant.Lists, hbetween]

/-- The port goes nowhere only where the first grant between the two carries it. -/
theorem lists_of_widened (h : widened grants asked = none) : ∃ grant ∈ grants, grant.Lists asked := by
  cases hfind : grants.find? (fun grant => asked.source ∈ grant.src ∧ asked.target ∈ grant.dst) with
  | none => simp only [widened, hfind, reduceCtorEq] at h
  | some between =>
      have hbetween : asked.source ∈ between.src ∧ asked.target ∈ between.dst := by
        simpa using List.find?_some hfind
      simp only [widened, hfind] at h
      split_ifs at h with hcarries
      exact ⟨between, List.mem_of_find?_eq_some hfind, hbetween.1, hbetween.2, hcarries⟩

/-- What a request that composes a policy leaves is what its grant step opened. -/
theorem opens_of_policyAllowing {live : Json} {source target : String} {port : Int}
    {outcome : Option (Json × String)} (hgrants : grantsOf live = some grants)
    (h : policyAllowing live source target port = some outcome) :
    match widened grants (.asked source target port) with
    | none => outcome = none
    | some more => outcome ≠ none ∧
        (∃ after, grantsOf (leaves live outcome) = some after ∧ ∀ path,
          Admits selectors after path ↔ Admits selectors grants path ∨ more.Admits selectors path) ∧
        ∀ name, name ≠ "grants" → name ≠ "tests" →
          (leaves live outcome).get? name = live.get? name := by
  cases live with
  | obj parsed =>
      have hstep := @grant_spec parsed (.asked source target port) grants selectors hgrants
      simp only [policyAllowing, Option.bind_eq_bind, Option.bind_eq_some_iff] at h
      obtain ⟨⟨opened, said⟩, hgrant, h⟩ := h
      cases hwidened : widened grants (.asked source target port) with
      | none =>
          simp only [hwidened] at hstep
          obtain ⟨rfl, rfl⟩ := Prod.mk.inj (Option.some.inj (hgrant.symm.trans hstep))
          simpa using h.symm
      | some more =>
          simp only [hwidened] at hstep
          obtain ⟨found, words, hfound, hsaid, hopens⟩ := hstep
          obtain ⟨rfl, rfl⟩ := Prod.mk.inj (Option.some.inj (hgrant.symm.trans hfound))
          rw [if_neg hsaid] at h
          simp only [Option.bind_eq_some_iff, Option.some.injEq] at h
          obtain ⟨listed, -, dicts, -, changed, -, rfl⟩ := h
          obtain ⟨after, hafter, hadmits⟩ := hopens.admits
          refine ⟨by simp, ⟨after, ?_, hadmits⟩, fun name hname htests => ?_⟩
          · simpa [leaves, grantsOf, member_assign_of_ne] using hafter
          · show (Json.obj (assign "tests" _ opened)).get? name = _
            rw [get?_assign_of_ne htests, hopens.others name hname]
  | _ => cases h

/-- A request opens the one path asked for exactly when what the port goes on reaches no
further. -/
theorem policyAllowing_opens_iff {live : Json} {source target : String} {port : Int}
    {outcome : Option (Json × String)} (selectors : Selectors) (hgrants : grantsOf live = some grants)
    (h : policyAllowing live source target port = some outcome) :
    OpensOnePath selectors live outcome grants (.asked source target port) ↔
      ReachesNoFurther selectors grants (.asked source target port) := by
  have hspec := @opens_of_policyAllowing selectors _ _ _ _ _ _ hgrants h
  generalize Path.asked source target port = asked at hspec ⊢
  cases hwidened : widened grants asked with
  | none =>
      obtain ⟨between, hmem, hlists⟩ := lists_of_widened hwidened
      have hnothing : outcome = none := by simpa only [hwidened] using hspec
      subst hnothing
      constructor
      · intro _ more hmore
        cases hwidened.symm.trans hmore
      · intro _
        refine ⟨⟨grants, hgrants, fun path => ⟨Or.inl, ?_⟩⟩, fun _ _ _ => rfl, ?_⟩
        · rintro (hadmits | rfl)
          · exact hadmits
          · exact ⟨between, hmem, hlists.admits⟩
        · exact ⟨fun _ => ⟨between, hmem, hlists⟩, fun _ => rfl⟩
  | some more =>
      obtain ⟨hsome, ⟨after, hafter, hadmits⟩, hothers⟩ := by simpa only [hwidened] using hspec
      constructor
      · rintro ⟨⟨read, hread, hone⟩, -, hunchanged⟩ other hother
        obtain rfl : more = other := Option.some.inj (hwidened.symm.trans hother)
        obtain rfl : after = read := Option.some.inj (hafter.symm.trans hread)
        refine ⟨fun grant hgrant hlists => hsome (hunchanged.mpr ⟨grant, hgrant, hlists⟩), ?_⟩
        intro path hpath
        exact ((hone path).mp ((hadmits path).mpr (Or.inr hpath))).symm
      · intro hreaches
        obtain ⟨hlists, hfurther⟩ := hreaches more hwidened
        refine ⟨⟨after, hafter, fun path => ?_⟩, hothers, ?_⟩
        · rw [hadmits path]
          constructor
          · rintro (hheld | hmore)
            · exact Or.inl hheld
            · exact (hfurther path hmore).symm
          · rintro (hheld | rfl)
            · exact Or.inl hheld
            · exact Or.inr (admits_widened hwidened)
        · exact ⟨fun hnone => absurd hnone hsome,
            fun ⟨grant, hgrant, hlisted⟩ => absurd hlisted (hlists grant hgrant)⟩

end Opening

/-- A policy whose one grant is between the two and no others. -/
def closePolicy : Json := .obj
  [("acls", .arr []), ("grants", .arr
    [.obj [("src", .arr [.str "tag:watcher"]), ("dst", .arr [.str "tag:web"]),
      ("ip", .arr [.str "tcp:22"])]])]

/-- The port goes on a grant that reaches no further than the two. -/
theorem close_policy_opens_one :
    ∃ grants outcome, grantsOf closePolicy = some grants ∧
      policyAllowing closePolicy "tag:watcher" "tag:web" 443 = some outcome ∧
      OpensOnePath .literal closePolicy outcome grants (.asked "tag:watcher" "tag:web" 443) := by
  have hreaches : ReachesNoFurther .literal [⟨["tag:watcher"], ["tag:web"], ["tcp:22"]⟩]
      (.asked "tag:watcher" "tag:web" 443) := by
    intro more hmore
    obtain rfl := Option.some.inj
      (show some ⟨["tag:watcher"], ["tag:web"], ["tcp:443"]⟩ = some more from hmore)
    have hasked : Path.asked "tag:watcher" "tag:web" 443 = ⟨"tag:watcher", "tag:web", "tcp:443"⟩ := rfl
    rw [hasked]
    refine ⟨by simp [TailnetPolicyGrant.Lists], fun path hpath => Or.inl ?_⟩
    simp only [TailnetPolicyGrant.Admits, Selectors.literal, List.mem_singleton,
      exists_eq_left] at hpath
    obtain ⟨hsource, htarget, hport⟩ := hpath
    simp [hsource, htarget, hport]
  exact ⟨_, _, rfl, rfl,
    (@policyAllowing_opens_iff _ closePolicy _ _ 443 _ .literal rfl rfl).mpr hreaches⟩

/-- A policy whose grant between the two lists another source. -/
def widePolicy : Json := .obj
  [("grants", .arr
    [.obj [("src", .arr [.str "tag:watcher", .str "tag:guest"]), ("dst", .arr [.str "tag:web"]),
      ("ip", .arr [.str "tcp:22"])]])]

/-- Opening the path from one source opens it from the other one as well. -/
theorem wide_policy_opens_more :
    ∃ grants outcome, grantsOf widePolicy = some grants ∧
      policyAllowing widePolicy "tag:watcher" "tag:web" 443 = some outcome ∧
      ¬OpensOnePath .literal widePolicy outcome grants (.asked "tag:watcher" "tag:web" 443) := by
  refine ⟨_, _, rfl, rfl, fun hopens => ?_⟩
  obtain ⟨after, hafter, hadmits⟩ := hopens.admits
  obtain rfl := Option.some.inj (show some
    [⟨["tag:watcher", "tag:guest"], ["tag:web"], ["tcp:22", "tcp:443"]⟩] = some after from hafter)
  have hguest := (hadmits ⟨"tag:guest", "tag:web", "tcp:443"⟩).mp
    ⟨_, List.mem_singleton_self _, TailnetPolicyGrant.Lists.admits (by
      simp [TailnetPolicyGrant.Lists])⟩
  rcases hguest with ⟨grant, hgrant, hheld⟩ | hasked
  · obtain rfl := List.mem_singleton.mp hgrant
    simp [TailnetPolicyGrant.Admits, Selectors.literal] at hheld
  · simp [Path.asked] at hasked

end SeverinoHQ.Tailnet
