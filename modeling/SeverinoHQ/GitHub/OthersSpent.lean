/-
# What others spent of an hour

A record's figure is a difference of GitHub's count at two askings, less what the earlier
sweep spent, added to the figure before it. What a sweep had spent when it asked is taken
back out, so the figure is what others had made between the two askings, and over the
sweeps of an hour the differences add up.
-/

import SeverinoHQ.GitHub.Allowance
import SeverinoHQ.Math.Table
import Mathlib.Tactic.Common

namespace SeverinoHQ.GitHub

open SeverinoHQ.Math

/-! ## The ledger's installations -/

section Installations

variable {budgets : List (Nat × Budget)} {installation other : Nat} {change : Budget → Budget}

/-- The installations, each once and in order. -/
def Ordered (budgets : List (Nat × Budget)) : Prop := (budgets.map Prod.fst).Pairwise (· < ·)

theorem mem_adjustIn :
    other ∈ (Ledger.adjustIn installation change budgets).map Prod.fst ↔
      other = installation ∨ other ∈ budgets.map Prod.fst := by
  induction budgets with
  | nil => simp [Ledger.adjustIn]
  | cons held budgets ih =>
      by_cases hbefore : installation < held.1
      · simp [Ledger.adjustIn, hbefore]
      · by_cases hsame : installation = held.1
        · simp [Ledger.adjustIn, hsame]
        · simp only [Ledger.adjustIn, hbefore, hsame, if_false, List.map_cons, List.mem_cons, ih]
          tauto

theorem ordered_adjustIn (h : Ordered budgets) :
    Ordered (Ledger.adjustIn installation change budgets) := by
  induction budgets with
  | nil => simp [Ledger.adjustIn, Ordered]
  | cons held budgets ih =>
      obtain ⟨hfirst, hrest⟩ := List.pairwise_cons.mp h
      by_cases hbefore : installation < held.1
      · have hlater : ∀ key ∈ (held :: budgets).map Prod.fst, installation < key := by
          intro key hkey
          rcases List.mem_cons.mp hkey with rfl | hmem
          · exact hbefore
          · exact hbefore.trans (hfirst key hmem)
        simp only [Ledger.adjustIn, hbefore, if_true]
        exact List.pairwise_cons.mpr ⟨hlater, h⟩
      · by_cases hsame : installation = held.1
        · subst hsame
          simpa [Ledger.adjustIn, Ordered] using h
        · simp only [Ledger.adjustIn, hbefore, hsame, if_false]
          refine List.pairwise_cons.mpr ⟨fun key hkey => ?_, ih hrest⟩
          rcases mem_adjustIn.mp hkey with rfl | hmem
          · show held.1 < key
            omega
          · exact hfirst key hmem

theorem lookup_held (held : Nat × Budget) (budgets : List (Nat × Budget)) :
    (held :: budgets).lookup other = if other = held.1 then some held.2 else budgets.lookup other := by
  obtain ⟨key, budget⟩ := held
  rw [List.lookup_cons]
  by_cases hsame : other = key
  · simp [hsame]
  · simp [hsame, beq_eq_false_iff_ne.mpr hsame]

theorem lookup_adjustIn (h : Ordered budgets) :
    (Ledger.adjustIn installation change budgets).lookup other =
      if other = installation then some (change ((budgets.lookup installation).getD .fresh))
      else budgets.lookup other := by
  induction budgets with
  | nil => simp [Ledger.adjustIn, lookup_held]
  | cons held budgets ih =>
      obtain ⟨hfirst, hrest⟩ := List.pairwise_cons.mp h
      by_cases hbefore : installation < held.1
      · have habsent : (held :: budgets).lookup installation = none := by
          rw [List.lookup_eq_none_iff]
          intro pair hpair
          rw [bne_iff_ne]
          rcases List.mem_cons.mp hpair with rfl | hmem
          · exact hbefore.ne
          · exact (hbefore.trans (hfirst _ (List.mem_map_of_mem hmem))).ne
        simp [habsent, Ledger.adjustIn, hbefore, lookup_held]
      · by_cases hsame : installation = held.1
        · subst hsame
          simp only [Ledger.adjustIn, hbefore, if_false, if_true, lookup_held, Option.getD_some]
          by_cases hother : other = held.1 <;> simp [hother]
        · rw [Ledger.adjustIn, if_neg hbefore, if_neg hsame, lookup_held, lookup_held, lookup_held,
            ih hrest, if_neg hsame]
          by_cases hother : other = held.1
          · simp [hother, Ne.symm hsame]
          · simp [hother]

end Installations

/-! ## One sweep -/

section Sweeping

variable {hour : Hour} {reading : Reading} {installation made : Nat}

/-- What a sweep's reading says of an installation: `made` requests of earlier sweeps apart,
GitHub's count of ours is what the fuse counted, and where the sweep asked, its hour is
what others had made by then with those. -/
structure Fair (hour : Hour) (installation made : Nat) (reading : Reading) : Prop where
  ordered : Ordered reading.ledger.budgets
  own : reading.own installation = made + (reading.ledger.budget installation).spent
  unasked : reading.asked installation = none → (reading.ledger.budget installation).start = none
  asked : ∀ before, reading.asked installation = some before →
    before ≤ reading.others installation ∧
      ∃ start, (reading.ledger.budget installation).start = some start ∧
        start.used = before + made ∧ start.resets = hour.resets installation

theorem budget_adjust {ledger : Ledger} {other : Nat} {change : Budget → Budget}
    (h : Ordered ledger.budgets) :
    (ledger.adjust other change).budget installation =
      if installation = other then change (ledger.budget installation)
      else ledger.budget installation := by
  simp only [Ledger.budget, Ledger.adjust, lookup_adjustIn h]
  by_cases hsame : installation = other <;> simp [hsame]

/-- What others make between two moments only adds up. -/
theorem others_mono (event : Nat × Event) :
    reading.others installation ≤ (reading.step hour event).others installation := by
  obtain ⟨other, event⟩ := event
  cases event with
  | others =>
      by_cases hsame : installation = other
      · subst hsame
        simp [Reading.step]
      · simp [Reading.step, hsame]
  | answered => exact le_refl _
  | asked => exact le_refl _

theorem Fair.step (h : Fair hour installation made reading) (event : Nat × Event) :
    Fair hour installation made (reading.step hour event) := by
  obtain ⟨other, event⟩ := event
  cases event with
  | others =>
      refine ⟨h.ordered, h.own, h.unasked, fun before hbefore => ?_⟩
      obtain ⟨hle, hstart⟩ := h.asked before hbefore
      exact ⟨hle.trans (others_mono (other, .others)), hstart⟩
  | answered header notModified now =>
      have hbudget := @budget_adjust installation reading.ledger other
        (fun budget => budget.note header notModified now) h.ordered
      by_cases hsame : installation = other
      · subst hsame
        rw [if_pos rfl] at hbudget
        refine ⟨ordered_adjustIn h.ordered, ?_, ?_, ?_⟩
        · simp only [Reading.step, Function.update_self, hbudget, Budget.note_spent, h.own]
          omega
        · simpa only [Reading.step, hbudget, Budget.note_start] using h.unasked
        · simpa only [Reading.step, hbudget, Budget.note_start] using h.asked
      · rw [if_neg hsame] at hbudget
        refine ⟨ordered_adjustIn h.ordered, ?_, ?_, ?_⟩
        · simpa only [Reading.step, Function.update_of_ne hsame, hbudget] using h.own
        · simpa only [Reading.step, hbudget] using h.unasked
        · simpa only [Reading.step, hbudget] using h.asked
  | asked now =>
      have hbudget := @budget_adjust installation reading.ledger other
        (fun budget => budget.left (reading.core hour other) now) h.ordered
      by_cases hsame : installation = other
      · subst hsame
        rw [if_pos rfl] at hbudget
        refine ⟨ordered_adjustIn h.ordered, ?_, ?_, ?_⟩
        · simpa only [Reading.step, hbudget, Budget.left_spent] using h.own
        · simp [Reading.step]
        · intro before hbefore
          simp only [Reading.step, Function.update_self, Option.some.injEq] at hbefore
          simp only [Reading.step, hbudget, Budget.left_start]
          cases hasked : reading.asked installation with
          | some first =>
              obtain ⟨hle, start, hstart, hused, hresets⟩ := h.asked first hasked
              obtain rfl : first = before := by simpa [hasked] using hbefore
              exact ⟨hle, start, by simp [hstart], hused, hresets⟩
          | none =>
              obtain rfl : reading.others installation = before := by simpa [hasked] using hbefore
              refine ⟨le_rfl, _, rfl, ?_, ?_⟩
              · -- what the sweep had spent is in GitHub's count, so the clamp is idle
                have hown := h.own
                simp only [h.unasked hasked, Option.getD_none, Reading.core]
                omega
              · simp [h.unasked hasked, Reading.core]
      · rw [if_neg hsame] at hbudget
        refine ⟨ordered_adjustIn h.ordered, ?_, ?_, ?_⟩
        · simpa only [Reading.step, hbudget] using h.own
        · simpa only [Reading.step, hbudget, Function.update_of_ne hsame] using h.unasked
        · simpa only [Reading.step, hbudget, Function.update_of_ne hsame] using h.asked

/-- A sweep begins with nothing spent and nothing asked. -/
theorem fair_reading (hq : Hq) (sweep : Sweep) :
    Fair hour installation (hq.own installation) (hq.reading hour sweep) := by
  refine run_always (Fair hour installation (hq.own installation))
    (fun _ event h => h.step event) ?_ _
  exact ⟨by simp [Ordered], by simp [Ledger.budget, Budget.fresh],
    fun _ => by simp [Ledger.budget, Budget.fresh], fun before hbefore => by cases hbefore⟩

/-- A sweep's first asking comes after all that others had made when it began. -/
theorem le_asked {sweep : Sweep} {before : Nat} (hq : Hq)
    (hasked : (hq.reading hour sweep).asked installation = some before) :
    hq.others installation ≤ before := by
  have hinvariant : hq.others installation ≤ (hq.reading hour sweep).others installation ∧
      ∀ before, (hq.reading hour sweep).asked installation = some before →
        hq.others installation ≤ before := by
    refine run_always (fun reading : Reading =>
      hq.others installation ≤ reading.others installation ∧
        ∀ before, reading.asked installation = some before → hq.others installation ≤ before)
      ?_ ⟨le_refl _, by simp⟩ _
    rintro reading ⟨other, event⟩ ⟨hothers, hsince⟩
    refine ⟨hothers.trans (others_mono _), ?_⟩
    cases event with
    | asked now =>
        by_cases hsame : installation = other
        · subst hsame
          cases hheld : reading.asked installation with
          | none => simpa [Reading.step, hheld] using hothers
          | some first => simpa [Reading.step, hheld] using hsince first hheld
        · simpa [Reading.step, hsame] using hsince
    | _ => exact hsince
  exact hinvariant.2 before hasked

theorem began_reading (hq : Hq) (sweep : Sweep) :
    (hq.reading hour sweep).ledger.began = sweep.began := by
  refine run_always
    (fun reading : Reading => reading.ledger.began = sweep.began) (fun reading event h => ?_) rfl _
  obtain ⟨other, event⟩ := event
  cases event <;> exact h

/-- A sweep that asks after an installation has asked. -/
theorem asked_reading {sweep : Sweep} (hq : Hq)
    (hasks : ∃ now, (installation, Event.asked now) ∈ sweep.events) :
    ∃ before, (hq.reading hour sweep).asked installation = some before := by
  obtain ⟨now, hmem⟩ := hasks
  obtain ⟨earlier, later, hsplit⟩ := List.append_of_mem hmem
  have hstays : ∀ (reading : Reading) (event : Nat × Event), (reading.asked installation).isSome →
      ((reading.step hour event).asked installation).isSome := by
    rintro reading ⟨other, event⟩ hsome
    cases event with
    | asked now =>
        by_cases hsame : installation = other
        · subst hsame
          simp [Reading.step]
        · simpa [Reading.step, hsame] using hsome
    | _ => exact hsome
  rw [Hq.reading, hsplit, run_append, run_cons]
  refine Option.isSome_iff_exists.mp (run_always
    (fun reading : Reading => (reading.asked installation).isSome)
    (fun reading event h => hstays reading event h) ?_ _)
  simp [Reading.step]

end Sweeping

/-! ## The report, and what HQ stores of it -/

section Reporting

variable {hour : Hour} {installation : Nat} {record : AllowanceRecord}
  {records last : List AllowanceRecord}

/-- A reading that holds an installation once is found to hold it. -/
theorem earlier_eq_some (hnodup : (records.map AllowanceRecord.identity).Nodup)
    (hmem : record ∈ records) : earlier records record.identity = some record := by
  cases hfind : earlier records record.identity with
  | none =>
      have habsent := List.find?_eq_none.mp hfind record (List.mem_reverse.mpr hmem)
      exact absurd habsent (by simp)
  | some found =>
      have hidentity : found.identity = record.identity := by simpa using List.find?_some hfind
      have hfound : found ∈ records := List.mem_reverse.mp (List.mem_of_find?_eq_some hfind)
      rw [Table.eq_of_column_eq hnodup hfound hmem hidentity]

/-- What HQ adds to a record leaves which record it is. -/
theorem earlier_withOthersSpent (identity : String × Nat) :
    earlier (withOthersSpent last records) identity =
      (earlier records identity).map fun record =>
        { record with
          othersSpent := (others (earlier last record.identity) record).1
          othersSince := (others (earlier last record.identity) record).2 } := by
  simp only [earlier, withOthersSpent, ← List.map_reverse, List.find?_map]
  rfl

theorem allowance_identity {ref : String} {began : Int} {held : Nat × Budget}
    (h : allowance ref began held = some record) : record.identity = (ref, held.1) := by
  unfold allowance at h
  split_ifs at h
  obtain ⟨start, -, rfl⟩ := Option.map_eq_some_iff.mp h
  rfl

/-- No installation is reported twice. -/
theorem nodup_githubAllowances {ledger : Ledger} (ref : String) (hordered : Ordered ledger.budgets) :
    ((githubAllowances ref ledger).map AllowanceRecord.identity).Nodup := by
  rw [List.Nodup, List.pairwise_map, githubAllowances, List.pairwise_filterMap]
  refine (List.pairwise_map.mp hordered).imp fun hlt record hrecord other hother => ?_
  rw [allowance_identity hrecord, allowance_identity hother]
  exact fun hsame => absurd (Prod.mk.inj hsame).2 hlt.ne

/-- An installation the sweep asked after is reported as the fuse counted it. -/
theorem earlier_githubAllowances {ledger : Ledger} {start : Start} (ref : String)
    (hordered : Ordered ledger.budgets) (hinstallation : installation ≠ 0)
    (hstart : (ledger.budget installation).start = some start) :
    ∃ record, earlier (githubAllowances ref ledger) (ref, installation) = some record ∧
      record.identity = (ref, installation) ∧ record.used = start.used ∧
      record.resetsAt = some start.resets ∧ record.startedAt = some (seconds ledger.began) ∧
      record.spent = (ledger.budget installation).spent := by
  have hheld : (installation, ledger.budget installation) ∈ ledger.budgets := by
    cases hlookup : ledger.budgets.lookup installation with
    | none => simp [Ledger.budget, hlookup, Budget.fresh] at hstart
    | some budget =>
        obtain ⟨before, after, hsplit, -⟩ := List.lookup_eq_some_iff.mp hlookup
        have hbudget : ledger.budget installation = budget := by simp [Ledger.budget, hlookup]
        simp [hbudget, hsplit]
  have hallowance : allowance ref ledger.began (installation, ledger.budget installation) = some
      ⟨ref, installation, start.limit, start.used, start.remaining, some start.resets,
        some (seconds ledger.began), (ledger.budget installation).spent, none, none⟩ := by
    simp [allowance, hinstallation, hstart]
  have hmem := List.mem_filterMap.mpr ⟨_, hheld, hallowance⟩
  exact ⟨_, earlier_eq_some (nodup_githubAllowances ref hordered) hmem, rfl, rfl, rfl, rfl, rfl⟩

/-- What HQ stores of an installation a sweep asked after. -/
theorem earlier_sweep {hq : Hq} {sweep : Sweep} {before : Nat} (hinstallation : installation ≠ 0)
    (hasked : (hq.reading hour sweep).asked installation = some before) :
    ∃ record, earlier (hq.sweep hour sweep).stored (hour.ref, installation) = some record ∧
      record.used = before + hq.own installation ∧
      record.used + record.spent = before + (hq.sweep hour sweep).own installation ∧
      record.resetsAt = some (hour.resets installation) ∧
      record.startedAt = some (seconds sweep.began) ∧
      (record.othersSpent, record.othersSince) =
        others (earlier hq.stored (hour.ref, installation)) record := by
  have hfair := @fair_reading hour installation hq sweep
  obtain ⟨-, start, hstart, hused, hresets⟩ := hfair.asked before hasked
  obtain ⟨record, hrecord, hidentity, hfound, hreset, hbegan, hspent⟩ :=
    earlier_githubAllowances hour.ref hfair.ordered hinstallation hstart
  refine ⟨_, by rw [Hq.sweep, earlier_withOthersSpent, hrecord]; rfl, ?_, ?_, ?_, ?_, ?_⟩
  · rw [← hused, ← hfound]
  · have hown := hfair.own
    show record.used + record.spent = before + ((hq.reading hour sweep).own installation : Int)
    rw [hfound, hused, hspent, hown]
    push_cast
    omega
  · rw [← hresets]
    exact hreset
  · rw [← began_reading hq sweep]
    exact hbegan
  · rw [← hidentity]
    rfl

end Reporting

/-! ## The sweeps of an hour -/

section Hours

variable {hour : Hour} {installation : Nat}

/-- What HQ holds of an installation after a sweep that began at `began`: the figure stored
is what others had made between the first asking and the last. -/
structure Told (hour : Hour) (installation : Nat) (began : Int) (record : AllowanceRecord)
    (first last : Nat) (hq : Hq) : Prop where
  stored : earlier hq.stored (hour.ref, installation) = some record
  first_asked : hq.first installation = some first
  last_asked : hq.last installation = some last
  ordered : first ≤ last ∧ last ≤ hq.others installation
  used : record.used + record.spent = last + hq.own installation
  resets : record.resetsAt = some (hour.resets installation)
  started : record.startedAt = some (seconds began)
  figure : record.othersSpent.getD 0 = (last : Int) - first

/-- The first sweep of an hour tells of what it asked, and of no others. -/
theorem told_first {hq : Hq} {sweep : Sweep} (hinstallation : installation ≠ 0)
    (hfirst : hq.first installation = none)
    (hbefore : ∀ record, earlier hq.stored (hour.ref, installation) = some record →
      record.resetsAt ≠ some (hour.resets installation))
    (hasks : ∃ now, (installation, Event.asked now) ∈ sweep.events) :
    ∃ record before,
      Told hour installation sweep.began record before before (hq.sweep hour sweep) := by
  obtain ⟨before, hasked⟩ := @asked_reading hour _ _ hq hasks
  obtain ⟨hle, -⟩ := (@fair_reading hour installation hq sweep).asked before hasked
  obtain ⟨record, hrecord, -, hown, hresets, hstarted, hjudged⟩ := earlier_sweep hinstallation hasked
  refine ⟨record, before, hrecord, ?_, hasked, ⟨le_refl _, hle⟩, hown, hresets, hstarted, ?_⟩
  · simp [Hq.sweep, hfirst, hasked]
  · have hnone : others (earlier hq.stored (hour.ref, installation)) record = (none, none) := by
      cases hearlier : earlier hq.stored (hour.ref, installation) with
      | none => rfl
      | some held =>
          have hne : held.resetsAt ≠ record.resetsAt := by
            rw [hresets]
            exact hbefore held hearlier
          simp [others, hne]
    rw [hnone] at hjudged
    rw [(Prod.mk.inj hjudged).1]
    simp

/-- A later sweep adds what others made since the asking before, and its figure is said. -/
theorem Told.sweep {hq : Hq} {sweep : Sweep} {began : Int} {held : AllowanceRecord}
    {first last : Nat} (h : Told hour installation began held first last hq)
    (hinstallation : installation ≠ 0) (hlater : seconds began < seconds sweep.began)
    (hasks : ∃ now, (installation, Event.asked now) ∈ sweep.events) :
    ∃ record before,
      Told hour installation sweep.began record first before (hq.sweep hour sweep) ∧
        record.othersSpent = some ((before : Int) - first) := by
  obtain ⟨before, hasked⟩ := @asked_reading hour _ _ hq hasks
  obtain ⟨hle, -⟩ := (@fair_reading hour installation hq sweep).asked before hasked
  obtain ⟨record, hrecord, hused, hown, hresets, hstarted, hjudged⟩ :=
    earlier_sweep hinstallation hasked
  have hsince : last ≤ before := h.ordered.2.trans (le_asked hq hasked)
  have hfigure : record.othersSpent = some ((before : Int) - first) := by
    have hheld := h.used
    have hsaid := h.figure
    have hbetween : max (record.used - held.used - held.spent) 0 + held.othersSpent.getD 0 =
        (before : Int) - first := by
      omega
    have hjudge : others (some held) record =
        (some ((before : Int) - first), some (held.othersSince.getD (seconds began))) := by
      simp only [others, hresets, h.resets, hstarted, h.started, hbetween]
      simp [hlater]
    rw [h.stored, hjudge] at hjudged
    exact (Prod.mk.inj hjudged).1
  refine ⟨record, before, ⟨hrecord, ?_, hasked, ⟨h.ordered.1.trans hsince, hle⟩, hown, hresets,
    hstarted, ?_⟩, hfigure⟩
  · simp [Hq.sweep, h.first_asked]
  · rw [hfigure]
    rfl

/-- Sweeps that each begin in a later second than the one before, the first after `began`. -/
def Later (began : Int) (sweeps : List Sweep) : Prop :=
  List.IsChain (· < ·) (seconds began :: sweeps.map fun sweep => seconds sweep.began)

theorem Told.run {sweeps : List Sweep} {hq : Hq} {began : Int} {held : AllowanceRecord}
    {first last : Nat} (h : Told hour installation began held first last hq)
    (hinstallation : installation ≠ 0) (hlater : Later began sweeps)
    (hasks : ∀ sweep ∈ sweeps, ∃ now, (installation, Event.asked now) ∈ sweep.events) :
    ∃ began record before, Told hour installation began record first before
        (run (Hq.sweep hour) hq sweeps) ∧
      (sweeps ≠ [] → record.othersSpent = some ((before : Int) - first)) := by
  induction sweeps generalizing hq began held last with
  | nil => exact ⟨began, held, last, h, fun hnil => absurd rfl hnil⟩
  | cons sweep sweeps ih =>
      obtain ⟨hnext, hrest⟩ := List.isChain_cons_cons.mp hlater
      obtain ⟨record, before, htold, hfigure⟩ :=
        h.sweep hinstallation hnext (hasks sweep List.mem_cons_self)
      obtain ⟨later, last, ends, hends, hsaid⟩ :=
        ih htold hrest fun other hother => hasks other (List.mem_cons_of_mem sweep hother)
      refine ⟨later, last, ends, hends, fun _ => ?_⟩
      by_cases hnil : sweeps = []
      · subst hnil
        obtain rfl : record = last := by
          have hsame := htold.stored.symm.trans hends.stored
          exact Option.some.inj hsame
        obtain rfl : before = ends := by
          have hsame := htold.last_asked.symm.trans hends.last_asked
          exact Option.some.inj hsame
        exact hfigure
      · exact hsaid hnil

/-- After two sweeps of an hour or more, each begun in a later second, the figure stored
with the last record is the number of requests others made between the first asking and
the last. -/
theorem others_spent_exact {hq : Hq} {sweep : Sweep} {sweeps : List Sweep}
    (hinstallation : installation ≠ 0) (hfirst : hq.first installation = none)
    (hbefore : ∀ record, earlier hq.stored (hour.ref, installation) = some record →
      record.resetsAt ≠ some (hour.resets installation))
    (hasks : ∀ other ∈ sweep :: sweeps, ∃ now, (installation, Event.asked now) ∈ other.events)
    (hlater : Later sweep.began sweeps) (hmore : sweeps ≠ []) :
    ∃ record first last,
      earlier (run (Hq.sweep hour) hq (sweep :: sweeps)).stored (hour.ref, installation) = some record ∧
        (run (Hq.sweep hour) hq (sweep :: sweeps)).first installation = some first ∧
        (run (Hq.sweep hour) hq (sweep :: sweeps)).last installation = some last ∧
        record.othersSpent = some ((last : Int) - first) ∧ 0 ≤ (last : Int) - first := by
  obtain ⟨held, before, htold⟩ :=
    told_first hinstallation hfirst hbefore (hasks sweep List.mem_cons_self)
  obtain ⟨began, record, last, hends, hfigure⟩ := htold.run hinstallation hlater
    fun other hother => hasks other (List.mem_cons_of_mem sweep hother)
  refine ⟨record, before, last, hends.stored, hends.first_asked, hends.last_asked, hfigure hmore, ?_⟩
  have hordered := hends.ordered.1
  omega

end Hours

/-- An App read through one connection, its hour of 5000 requests. -/
def sampleHour : Hour := ⟨"app", fun _ => 5000, fun _ => 3600⟩

/-- Nothing read yet. -/
def unread : Hq := ⟨fun _ => 0, fun _ => 0, [], fun _ => none, fun _ => none⟩

/-- A REST answer. -/
def restAnswer : Event := .answered (some ⟨some "core", none, none, none⟩) false 0

/-- A sweep that spends one request before it asks and one after, beside others' one. -/
def sampleSweep (began : Int) : Sweep :=
  ⟨began, [(7, .others), (7, restAnswer), (7, .asked 0), (7, restAnswer)]⟩

/-- Two sweeps a minute apart: what others made between the askings is one request. -/
theorem minute_apart_exact :
    ∃ record first last,
      earlier (run (Hq.sweep sampleHour) unread [sampleSweep 0, sampleSweep 60000000000]).stored
          ("app", 7) = some record ∧
        (run (Hq.sweep sampleHour) unread [sampleSweep 0, sampleSweep 60000000000]).first 7 =
          some first ∧
        (run (Hq.sweep sampleHour) unread [sampleSweep 0, sampleSweep 60000000000]).last 7 =
          some last ∧
        record.othersSpent = some ((last : Int) - first) ∧ 0 ≤ (last : Int) - first := by
  refine @others_spent_exact sampleHour 7 unread (sampleSweep 0) [sampleSweep 60000000000] (by decide)
    rfl (fun record h => by cases h) (fun other hother => ⟨0, ?_⟩)
    (by simp [Later, sampleSweep, seconds]) (by simp)
  rcases List.mem_cons.mp hother with rfl | hmem
  · decide
  · obtain rfl := List.mem_singleton.mp hmem
    decide

/-- Two sweeps begun in one second: others made one request between the askings, and no
figure is stored. -/
theorem same_second_untold :
    ∃ record, earlier (run (Hq.sweep sampleHour) unread [sampleSweep 0, sampleSweep 900000000]).stored
          ("app", 7) = some record ∧
        (run (Hq.sweep sampleHour) unread [sampleSweep 0, sampleSweep 900000000]).first 7 = some 1 ∧
        (run (Hq.sweep sampleHour) unread [sampleSweep 0, sampleSweep 900000000]).last 7 = some 2 ∧
        record.othersSpent ≠ some (2 - 1) :=
  ⟨⟨"app", 7, 5000, 4, 4996, some 3600, some 0, 2, none, none⟩, by decide +kernel, by decide,
    by decide, by decide⟩

end SeverinoHQ.GitHub
