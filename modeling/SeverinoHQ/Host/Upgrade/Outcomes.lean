/-
# What an outcome says of the machine

Over every order of failures and signals: a run that ends refused or unchanged has
left the override alone and the service started; one that was kept has compose
resolve the pin, and saw the new container prove itself; one that rolled back has put
the override back byte for byte. Its data is back where the service, once recreated,
stopped when it was asked to: the roll back does not look at whether it did.
-/

import SeverinoHQ.Host.Upgrade.Recording

namespace SeverinoHQ.Host.Upgrade

open SeverinoHQ.Math SeverinoHQ.Math.Dialogue
open SeverinoHQ.Math.Bytes (ascii cut)

/-- The service was recreated, compose gave the container it now runs, and that
container proved itself. -/
def Goal.Upgraded (goal : Goal) (exchanges : Exchanges) : Prop :=
  ∃ earlier files later printed, exchanges = earlier ++ ⟨.up files, true⟩ :: later ∧
    ⟨.ps files, some printed⟩ ∈ later ∧
    goal.Proven (printed.rdropWhile (· == 10)) later

variable {κ : Type}

/-- A run's outcome, held against the machine it leaves. `restored` is what a roll
back is to leave of the data. -/
structure Answers (resolve : Option File → Bytes) (initial : Option File) (goal : Goal)
    (restored : Exchanges → Machine κ → Prop) (exchanges : Exchanges) (report : Report)
    (final : Machine κ) : Prop where
  untouched : report.outcome = .refused ∨ report.outcome = .unchanged →
    final.override = initial ∧ (Stops exchanges → final.running = true)
  rolledBack : report.outcome = .rolledBack → final.override = initial ∧ restored exchanges final
  kept : report.outcome = .kept →
    resolve final.override = goal.image ∧ goal.Upgraded exchanges

/-- The same, of a run that had the service stopped. -/
structure Settled (resolve : Option File → Bytes) (initial : Option File) (goal : Goal)
    (restored : Exchanges → Machine κ → Prop) (exchanges : Exchanges) (report : Report)
    (final : Machine κ) : Prop
    extends Answers resolve initial goal restored exchanges report final where
  running : report.outcome = .refused ∨ report.outcome = .unchanged → final.running = true

/-- These mounts are restored, if the service halts. -/
def Rolled (mountpoint : Bytes → Bytes) (recreated : Prop) (mounts : List Mount)
    (exchanges : Exchanges) (final : Machine κ) : Prop :=
  Halts recreated exchanges → Restored mountpoint mounts final

variable {resolve : Option File → Bytes} {mountpoint : Bytes → Bytes} {blank : κ}
  {host : Machine κ} {initial : Option File} {run : Run} {goal : Goal} {recreated : Prop}
  {mounts : List Mount} {report : Report} {final : Machine κ}

/-! ## Calls made before -/

theorem not_stops_of_quiet {exchanges : Exchanges} (h : Quiet exchanges) : ¬Stops exchanges := by
  rintro ⟨files, stopped, hmem⟩
  exact absurd (h _ hmem) (by simp [Call.isCalm, Call.inspects])

theorem Halts.of_append {first second : Exchanges} (h : Halts recreated (first ++ second)) :
    Halts recreated second := by
  rintro earlier files stopped later rfl hraised
  refine h (first ++ earlier) files stopped later (List.append_assoc ..).symm (hraised.imp_right ?_)
  exact fun ⟨files, up, hup⟩ => ⟨files, up, List.mem_append_right _ hup⟩

/-- A service that was recreated by one call was recreated before the next. -/
theorem Halts.raised {files : Files} {up : Bool} {exchanges : Exchanges}
    (h : Halts False (⟨.up files, up⟩ :: exchanges)) : Halts True exchanges := by
  rintro earlier stopping stopped later rfl -
  exact h (⟨.up files, up⟩ :: earlier) stopping stopped later rfl
    (Or.inr ⟨files, up, List.mem_cons_self ..⟩)

theorem Rolled.after {first second : Exchanges} (h : Rolled mountpoint recreated mounts second final) :
    Rolled mountpoint recreated mounts (first ++ second) final := fun hhalts => h hhalts.of_append

theorem Goal.Upgraded.after {first second : Exchanges} (h : goal.Upgraded second) :
    goal.Upgraded (first ++ second) := by
  obtain ⟨earlier, files, later, printed, rfl, hps, hproven⟩ := h
  exact ⟨first ++ earlier, files, later, printed, (List.append_assoc ..).symm, hps, hproven⟩

section After

variable {restored wider : Exchanges → Machine κ → Prop} {first second : Exchanges}

theorem Answers.after (h : Answers resolve initial goal restored second report final)
    (hfirst : report.outcome = .refused ∨ report.outcome = .unchanged → Stops first →
      final.running = true)
    (hrestored : restored second final → wider (first ++ second) final) :
    Answers resolve initial goal wider (first ++ second) report final where
  untouched houtcome := by
    refine ⟨(h.untouched houtcome).1, ?_⟩
    rintro ⟨files, stopped, hmem⟩
    rcases List.mem_append.mp hmem with hmem | hmem
    · exact hfirst houtcome ⟨files, stopped, hmem⟩
    · exact (h.untouched houtcome).2 ⟨files, stopped, hmem⟩
  rolledBack houtcome := (h.rolledBack houtcome).imp_right hrestored
  kept houtcome := ⟨(h.kept houtcome).1, (h.kept houtcome).2.after⟩

theorem Answers.after_quiet (hquiet : Quiet first)
    (h : Answers resolve initial goal restored second report final)
    (hrestored : restored second final → wider (first ++ second) final) :
    Answers resolve initial goal wider (first ++ second) report final :=
  h.after (fun _ hstops => absurd hstops (not_stops_of_quiet hquiet)) hrestored

theorem Settled.after
    (h : Settled resolve initial goal (Rolled mountpoint recreated mounts) second report final) :
    Settled resolve initial goal (Rolled mountpoint recreated mounts) (first ++ second) report
      final :=
  ⟨h.toAnswers.after (fun houtcome _ => h.running houtcome) Rolled.after, h.running⟩

/-- What is left of a run once it has recreated the service. -/
theorem Settled.raised {files : Files} {up : Bool}
    (h : Settled resolve initial goal (Rolled mountpoint True mounts) second report final) :
    Settled resolve initial goal (Rolled mountpoint False mounts) (⟨.up files, up⟩ :: second)
      report final := by
  have hraised : Rolled mountpoint True mounts second final →
      Rolled mountpoint False mounts ([⟨.up files, up⟩] ++ second) final :=
    fun hrolled hhalts => hrolled hhalts.raised
  exact ⟨h.toAnswers.after (fun houtcome _ => h.running houtcome) hraised, h.running⟩

end After

theorem settles_bind {α : Type} {program : Session α} {next : α → Session Report}
    (h : Always (World resolve mountpoint blank) program host fun _ result between =>
      Always (World resolve mountpoint blank) (next result) between
        (Settled resolve initial goal (Rolled mountpoint recreated mounts))) :
    Always (World resolve mountpoint blank) (program >>= next) host
      (Settled resolve initial goal (Rolled mountpoint recreated mounts)) :=
  h.bind_of_append fun _ _ _ _ hsettled => hsettled.after

/-- Calm calls first, in a run that has not stopped the service. -/
theorem Calm.answers_bind {α : Type} {program : Session α} {next : α → Session Report}
    {restored : Exchanges → Machine κ → Prop} (hcalm : Calm program)
    (hafter : ∀ {first second final}, (∀ exchange ∈ first, exchange.1.isCalm = true) →
      restored second final → restored (first ++ second) final)
    (h : Always (World resolve mountpoint blank) program host fun _ result between =>
      Always (World resolve mountpoint blank) (next result) between
        (Answers resolve initial goal restored)) :
    Always (World resolve mountpoint blank) (program >>= next) host
      (Answers resolve initial goal restored) := by
  rw [always_bind]
  refine (hcalm.exchanges.and h).mono fun first result between hfirst => ?_
  have hquiet : Quiet first := fun exchange hmem => by rw [hfirst.1 exchange hmem, Bool.true_or]
  exact hfirst.2.mono fun _ _ _ hanswers => hanswers.after_quiet hquiet (hafter hfirst.1)

/-! ## Putting back -/

namespace Run

/-- What a signal and an error have in common: the run put back by how far it got. -/
def putBack (run : Run) : Session Report :=
  match run.phase with
  | .checking => run.finish .refused
  | .stopped => run.unchanged
  | .pinned => run.rollBack

theorem stopped_eq_putBack (run : Run) :
    ∃ detail, run.stopped = (run.step "stopped" false detail).putBack := by
  cases hphase : run.phase with
  | checking =>
      refine ⟨ascii "stopped before anything changed", ?_⟩
      simp only [stopped, putBack, step, hphase]
  | stopped =>
      refine ⟨ascii "stopped part way, before the pin", ?_⟩
      simp only [stopped, putBack, step, hphase]
  | pinned =>
      refine ⟨ascii "stopped part way, after the pin", ?_⟩
      simp only [stopped, putBack, step, hphase]

theorem fault_eq_putBack (run : Run) (error : FileError) :
    run.fault error = (run.step "error" false error.text).putBack := by
  unfold fault putBack
  rfl

end Run

/-- What a roll back rests on: the copy made of the override, the snapshots taken, and
that nothing but a recreated service can be running. -/
structure Copied (mountpoint : Bytes → Bytes) (recreated : Prop) (initial : Option File)
    (run : Run) (host : Machine κ) : Prop where
  before : host.before = initial
  taken : ∃ taken, Snapshotted mountpoint taken run.data host
  stopped : ¬recreated → host.running = false

theorem Copied.keeps {next : Machine κ} (h : Copied mountpoint recreated initial run host)
    (hkeeps : Keeps host next) : Copied mountpoint recreated initial run next := by
  obtain ⟨taken, htaken⟩ := h.taken
  refine ⟨hkeeps.before.trans h.before, ⟨taken, fun mount hmount => ?_⟩, fun hraised => ?_⟩
  · rw [hkeeps.snapshots]
    exact htaken mount hmount
  · exact hkeeps.running.trans (h.stopped hraised)

/-- What putting a run back rests on: the override alone before the pin, and after it
the copies. -/
structure Undoable (mountpoint : Bytes → Bytes) (recreated : Prop) (initial : Option File)
    (run : Run) (host : Machine κ) : Prop where
  override : run.phase ≠ .pinned → host.override = initial
  copied : run.phase = .pinned → Copied mountpoint recreated initial run host

theorem Undoable.step {name : String} {ok : Bool} {detail : Bytes}
    (h : Undoable mountpoint recreated initial run host) :
    Undoable mountpoint recreated initial (run.step name ok detail) host :=
  ⟨h.override, fun hphase => { h.copied hphase with }⟩

namespace Run

theorem unchanged_settles (h : host.override = initial) :
    Always (World resolve mountpoint blank) run.unchanged host
      (Settled resolve initial goal (Rolled mountpoint recreated mounts)) := by
  refine run.unchanged_spec.mono fun exchanges report final hended => ?_
  obtain ⟨hoverride, ⟨houtcome, hrunning⟩ | houtcome⟩ := hended
  · refine ⟨⟨fun _ => ⟨hoverride.trans h, fun _ => hrunning⟩, ?_, ?_⟩, fun _ => hrunning⟩ <;>
      simp [houtcome]
  · refine ⟨⟨?_, ?_, ?_⟩, ?_⟩ <;> simp [houtcome]

theorem rollBack_settles (h : Copied mountpoint recreated initial run host) :
    Always (World resolve mountpoint blank) run.rollBack host
      (Settled resolve initial goal (Rolled mountpoint recreated run.data)) := by
  obtain ⟨taken, htaken⟩ := h.taken
  refine (run.rollBack_spec h.before htaken h.stopped).mono fun exchanges report final hended => ?_
  obtain ⟨houtcome, hrolled⟩ | houtcome := hended
  · refine ⟨⟨?_, fun _ => hrolled, ?_⟩, ?_⟩ <;> simp [houtcome]
  · refine ⟨⟨?_, ?_, ?_⟩, ?_⟩ <;> simp [houtcome]

theorem putBack_settles (hphase : run.phase ≠ .checking)
    (h : Undoable mountpoint recreated initial run host) :
    Always (World resolve mountpoint blank) run.putBack host
      (Settled resolve initial goal (Rolled mountpoint recreated run.data)) := by
  unfold putBack
  split
  · next hchecking => exact absurd hchecking hphase
  · next hstopped => exact unchanged_settles (h.override (by simp [hstopped]))
  · next hpinned => exact rollBack_settles (h.copied hpinned)

/-- A run refused before anything was stopped. -/
theorem finish_refused_answers {restored : Exchanges → Machine κ → Prop}
    (h : host.override = initial) :
    Always (World resolve mountpoint blank) (run.finish .refused) host
      (Answers resolve initial goal restored) := by
  refine (run.finish_spec .refused).mono fun exchanges report final hended => ?_
  obtain ⟨hrests, hstops, rfl⟩ := hended
  refine ⟨fun _ => ⟨?_, fun hstopped => absurd hstopped hstops⟩, nofun, nofun⟩
  rw [hrests]
  exact h

theorem putBack_answers (h : Undoable mountpoint recreated initial run host) :
    Always (World resolve mountpoint blank) run.putBack host
      (Answers resolve initial goal (Rolled mountpoint recreated run.data)) := by
  by_cases hphase : run.phase = .checking
  · unfold putBack
    rw [hphase]
    exact finish_refused_answers (h.override (by simp [hphase]))
  · exact (putBack_settles hphase h).mono fun _ _ _ hsettled => hsettled.toAnswers

theorem stopped_settles (hphase : run.phase ≠ .checking)
    (h : Undoable mountpoint recreated initial run host) :
    Always (World resolve mountpoint blank) run.stopped host
      (Settled resolve initial goal (Rolled mountpoint recreated run.data)) := by
  obtain ⟨detail, heq⟩ := run.stopped_eq_putBack
  rw [heq]
  exact putBack_settles hphase h.step

theorem stopped_answers (h : Undoable mountpoint recreated initial run host) :
    Always (World resolve mountpoint blank) run.stopped host
      (Answers resolve initial goal (Rolled mountpoint recreated run.data)) := by
  obtain ⟨detail, heq⟩ := run.stopped_eq_putBack
  rw [heq]
  exact putBack_answers h.step

theorem fault_settles (error : FileError) (hphase : run.phase ≠ .checking)
    (h : Undoable mountpoint recreated initial run host) :
    Always (World resolve mountpoint blank) (run.fault error) host
      (Settled resolve initial goal (Rolled mountpoint recreated run.data)) := by
  rw [fault_eq_putBack]
  exact putBack_settles hphase h.step

theorem fault_answers (error : FileError) (h : Undoable mountpoint recreated initial run host) :
    Always (World resolve mountpoint blank) (run.fault error) host
      (Answers resolve initial goal (Rolled mountpoint recreated run.data)) := by
  rw [fault_eq_putBack]
  exact putBack_answers h.step

/-! ## The steps, last to first -/

theorem onlyContainer_spec {σ : Type} {world : σ → Exchange Call Reply → σ → Prop} {state : σ} :
    Always world run.onlyContainer state fun exchanges found _ => ∀ container, found = some container →
      ∃ printed, ⟨.ps run.files, some printed⟩ ∈ exchanges ∧
        container = printed.rdropWhile (· == 10) := by
  unfold onlyContainer
  rw [always_bind, always_call]
  rintro printed after -
  rw [always_pure]
  intro container hfound
  obtain ⟨hmap, -⟩ := Option.filter_eq_some_iff.mp hfound
  obtain ⟨text, rfl, rfl⟩ := Option.map_eq_some_iff.mp hmap
  exact ⟨text, by simp, rfl⟩

/-- The container an `up` made, and its proof. -/
theorem provesOnly_spec {σ : Type} {world : σ → Exchange Call Reply → σ → Prop} {state : σ}
    (fuel : Nat) (up : Bool) :
    Always world (run.recreated up) state fun first found between =>
      Always world (run.provesOnly fuel found) between fun second proven _ =>
        proven = true → up = true ∧ ∃ printed, ⟨.ps run.files, some printed⟩ ∈ first ++ second ∧
          run.goal.Proven (printed.rdropWhile (· == 10)) (first ++ second) := by
  unfold recreated
  split
  · next hup =>
      refine onlyContainer_spec.mono fun first found after hfound => ?_
      cases found with
      | none => exact always_pure.mpr nofun
      | some container =>
          refine (proves_proven fuel).mono fun second proven _ hproven hok => ⟨hup, ?_⟩
          obtain ⟨printed, hps, rfl⟩ := hfound container rfl
          exact ⟨printed, List.mem_append_left _ hps,
            (hproven hok).of_within (List.suffix_append _ _).isInfix⟩
  · rw [always_pure]
    exact always_pure.mpr nofun

/-- A pinned run, with what it is put back from. -/
structure Pinned (mountpoint : Bytes → Bytes) (recreated : Prop) (initial : Option File)
    (run : Run) (host : Machine κ) : Prop
    extends Copied mountpoint recreated initial run host where
  phase : run.phase = .pinned

namespace Pinned

variable (h : Pinned mountpoint recreated initial run host)
include h

theorem undoable : Undoable mountpoint recreated initial run host :=
  ⟨fun hphase => absurd h.phase hphase, fun _ => h.toCopied⟩

theorem keeps {next : Machine κ} (hkeeps : Keeps host next) :
    Pinned mountpoint recreated initial run next := ⟨h.toCopied.keeps hkeeps, h.phase⟩

theorem step {name : String} {ok : Bool} {detail : Bytes} :
    Pinned mountpoint recreated initial (run.step name ok detail) host :=
  ⟨{ h.toCopied with }, h.phase⟩

theorem rollBack_settles :
    Always (World resolve mountpoint blank) run.rollBack host
      (Settled resolve initial goal (Rolled mountpoint recreated run.data)) :=
  Run.rollBack_settles h.toCopied

theorem stopped_settles :
    Always (World resolve mountpoint blank) run.stopped host
      (Settled resolve initial goal (Rolled mountpoint recreated run.data)) :=
  Run.stopped_settles (by simp [h.phase]) h.undoable

end Pinned

theorem verifyStep_settles (fuel : Nat) (h : Pinned mountpoint False initial run host)
    (himage : resolve host.override = run.request.toImage) :
    Always (World resolve mountpoint blank) (run.verifyStep fuel) host
      (Settled resolve initial run.goal (Rolled mountpoint False run.data)) := by
  unfold verifyStep
  rw [always_bind, always_call]
  intro up raised hup
  obtain ⟨hoverride, hbefore, hsnapshots⟩ := World.override_eq (Or.inr ⟨_, rfl⟩) hup
  have hpinned : Pinned mountpoint True initial run raised := by
    obtain ⟨taken, htaken⟩ := h.taken
    refine ⟨⟨hbefore.trans h.before, ⟨taken, fun mount hmount => ?_⟩, fun hraised => ?_⟩, h.phase⟩
    · rw [hsnapshots]
      exact htaken mount hmount
    · exact absurd trivial hraised
  rw [always_bind]
  refine interrupted_calm.keeps.mono fun first signalled asked hasked => ?_
  split
  · exact (hpinned.keeps hasked.1).stopped_settles.mono fun _ _ _ hsettled => hsettled.after.raised
  · rw [always_bind]
    refine ((run.recreated_calm up).keeps.and (provesOnly_spec fuel up)).mono ?_
    rintro second found between ⟨⟨hfound, -⟩, hspec⟩
    rw [always_bind]
    refine ((run.provesOnly_calm fuel found).keeps.and hspec).mono ?_
    rintro third proven read ⟨⟨hread, -⟩, hproven⟩
    have hkeeps : Keeps raised read := (hasked.1.trans hfound).trans hread
    split
    · next hok =>
        refine (finish_spec _ _).mono fun fourth report final hfinish => ?_
        obtain ⟨hrests, -, rfl⟩ := hfinish
        obtain ⟨rfl, printed, hps, hproof⟩ := hproven hok
        refine ⟨⟨by simp, nofun, fun _ => ⟨?_, ?_⟩⟩, by simp⟩
        · rw [hrests]
          exact (congrArg resolve (hkeeps.override.trans hoverride)).trans himage
        · refine ⟨[], run.files, first ++ (second ++ (third ++ fourth)), printed, rfl, ?_, ?_⟩
          · rw [← List.append_assoc second]
            exact List.mem_append_right _ (List.mem_append_left _ hps)
          · exact hproof.of_within ⟨first, fourth, by simp⟩
    · rw [always_bind]
      refine interrupted_calm.keeps.mono fun fourth signalled again hagain => ?_
      have hagain : Pinned mountpoint True initial run again := (hpinned.keeps hkeeps).keeps hagain.1
      split
      · exact hagain.stopped_settles.mono fun _ _ _ hsettled =>
          hsettled.after.after.after.after.raised
      · exact hagain.step.rollBack_settles.mono fun _ _ _ hsettled =>
          hsettled.after.after.after.after.raised

theorem serviceImage_spec (override : Option OverrideFile) :
    Always (World resolve mountpoint blank) (run.serviceImage override) host fun exchanges image final =>
      Keeps host final ∧ Quiet exchanges ∧ (image ≠ [] → image = resolve (final.given override)) := by
  refine ((run.serviceImage_calm override).keeps.and ?_).mono fun _ _ _ h => ⟨h.1.1, h.1.2, h.2⟩
  unfold serviceImage
  rw [always_bind, always_call]
  rintro printed after ⟨drifted, -, rfl, hresolved⟩
  rw [always_pure]
  intro hprinted
  cases printed with
  | none => exact absurd rfl hprinted
  | some image => exact hresolved image rfl

theorem pinnedStep_settles (fuel : Nat) (pinFile : Bytes)
    (h : Pinned mountpoint False initial run host) (hoverride : run.override = true)
    (htarget : run.request.toImage ≠ []) :
    Always (World resolve mountpoint blank) (run.pinnedStep fuel pinFile) host
      (Settled resolve initial run.goal (Rolled mountpoint False run.data)) := by
  unfold pinnedStep
  rw [hoverride]
  apply settles_bind
  refine (run.serviceImage_spec _).mono fun _ image read hread => ?_
  obtain ⟨hkeeps, -, himage⟩ := hread
  have hread := h.keeps hkeeps
  split
  · exact hread.step.rollBack_settles
  · next hmatches =>
      have hmatches : image = run.request.toImage := not_not.mp hmatches
      apply settles_bind
      refine interrupted_calm.keeps.mono fun _ signalled asked hasked => ?_
      have hpinned := hread.keeps hasked.1
      split
      · exact hpinned.step.stopped_settles
      · apply verifyStep_settles fuel hpinned.step
        show resolve asked.override = run.request.toImage
        rw [hasked.1.override, ← hmatches, himage (hmatches ▸ htarget)]
        rfl

/-- A run with nothing pinned yet: what runs is checked, or the service is stopped. -/
structure Unpinned (phase : Phase) (initial : Option File) (run : Run) (host : Machine κ) :
    Prop where
  phase_eq : run.phase = phase
  phase_ne : phase ≠ .pinned
  override : host.override = initial
  before : host.before = none
  present : run.override = initial.isSome
  nodup : (run.data.map Mount.index).Nodup
  target : run.request.toImage ≠ []

abbrev Checking (initial : Option File) (run : Run) (host : Machine κ) : Prop :=
  Unpinned .checking initial run host

abbrev Halted (initial : Option File) (run : Run) (host : Machine κ) : Prop :=
  Unpinned .stopped initial run host

namespace Unpinned

section Phases

variable {phase : Phase} (h : Unpinned phase initial run host)
include h

theorem undoable : Undoable mountpoint recreated initial run host where
  override _ := h.override
  copied hphase := absurd (h.phase_eq.symm.trans hphase) h.phase_ne

theorem step {name : String} {ok : Bool} {detail : Bytes} :
    Unpinned phase initial (run.step name ok detail) host :=
  { h with }

theorem keeps {next : Machine κ} (hkeeps : Keeps host next) : Unpinned phase initial run next :=
  { h with
    override := hkeeps.override.trans h.override
    before := hkeeps.before.trans h.before }

theorem refused_answers {restored : Exchanges → Machine κ → Prop} :
    Always (World resolve mountpoint blank) (run.finish .refused) host
      (Answers resolve initial goal restored) :=
  finish_refused_answers h.override

theorem stopped_answers :
    Always (World resolve mountpoint blank) run.stopped host
      (Answers resolve initial goal (Rolled mountpoint recreated run.data)) :=
  Run.stopped_answers h.undoable

theorem unchanged_settles :
    Always (World resolve mountpoint blank) run.unchanged host
      (Settled resolve initial goal (Rolled mountpoint recreated mounts)) :=
  Run.unchanged_settles h.override

end Phases

theorem stopped_settles (h : Halted initial run host) :
    Always (World resolve mountpoint blank) run.stopped host
      (Settled resolve initial goal (Rolled mountpoint recreated run.data)) :=
  Run.stopped_settles (by simp [h.phase_eq]) h.undoable

end Unpinned

/-- A run that has snapshotted its data, with the service stopped since. -/
structure Held (mountpoint : Bytes → Bytes) (initial : Option File) (run : Run)
    (host : Machine κ) : Prop extends Unpinned .stopped initial run host where
  running : host.running = false
  taken : ∃ taken, Snapshotted mountpoint taken run.data host

namespace Held

variable (h : Held mountpoint initial run host)
include h

theorem keeps {next : Machine κ} (hkeeps : Keeps host next) : Held mountpoint initial run next := by
  obtain ⟨taken, htaken⟩ := h.taken
  refine ⟨h.toUnpinned.keeps hkeeps, hkeeps.running.trans h.running, taken, fun mount hmount => ?_⟩
  rw [hkeeps.snapshots]
  exact htaken mount hmount

theorem step {name : String} {ok : Bool} {detail : Bytes} :
    Held mountpoint initial (run.step name ok detail) host := { h with }

end Held

theorem fault_settles_of_phase (error : FileError) (hphase : run.phase = .stopped)
    (hoverride : host.override = initial) :
    Always (World resolve mountpoint blank) (run.fault error) host
      (Settled resolve initial goal (Rolled mountpoint recreated run.data)) :=
  fault_settles error (by simp [hphase]) ⟨fun _ => hoverride, by simp [hphase]⟩

/-- The copy kept of the override is the override, where there is one. -/
theorem keepBefore_spec (h : Held mountpoint initial run host) :
    Always (World resolve mountpoint blank) run.keepBefore host fun _ error final =>
      final.override = initial ∧ (error = none → Copied mountpoint False initial run final) := by
  obtain ⟨taken, htaken⟩ := h.taken
  unfold keepBefore
  split
  · rw [always_call]
    rintro error final ⟨drifted, hdrift, before, rfl, hcopied⟩
    have hdrifted := h.keeps hdrift.keeps
    exact ⟨hdrifted.override, fun herror => ⟨(hcopied herror).1.trans hdrifted.override,
      hdrifted.taken, fun _ => hdrifted.running⟩⟩
  · next habsent =>
      rw [always_pure]
      refine ⟨h.override, fun _ => ⟨?_, h.taken, fun _ => h.running⟩⟩
      rw [h.before]
      rw [h.present] at habsent
      cases initial with
      | none => rfl
      | some file => exact absurd rfl habsent

theorem pinStep_settles (fuel : Nat) (pinFile : Bytes) (h : Held mountpoint initial run host) :
    Always (World resolve mountpoint blank) (run.pinStep fuel pinFile) host
      (Settled resolve initial run.goal (Rolled mountpoint False run.data)) := by
  unfold pinStep
  apply settles_bind
  refine (keepBefore_spec h).mono fun _ kept copied hcopied => ?_
  split
  · next error => exact fault_settles_of_phase error h.phase_eq hcopied.1
  · have hbefore : Copied mountpoint False initial run copied := hcopied.2 rfl
    apply settles_bind
    refine (calm_ask rfl).keeps.mono fun _ owner read hread => ?_
    split
    · next error =>
        exact fault_settles_of_phase error h.phase_eq (hread.1.override.trans hcopied.1)
    · apply settles_bind
      refine (calm_ask rfl).keeps.mono fun _ staged staging hstaging => ?_
      have hkeeps : Keeps copied staging := hread.1.trans hstaging.1
      split
      · next error =>
          apply settles_bind
          refine (calm_ask rfl).keeps.mono fun _ _ cleared hcleared => ?_
          have hoverride : cleared.override = initial :=
            (hcleared.1.override.trans hkeeps.override).trans hcopied.1
          exact fault_settles_of_phase error h.phase_eq hoverride
      · apply settles_bind
        rw [always_call]
        rintro renamed placed ⟨drifted, hdrift, hfailed, hplaced⟩
        -- From here on the run is put back from the copies, whether or not the rename was done.
        have hpinned : Pinned mountpoint False initial { run with phase := .pinned } placed := by
          have hdrifted := hbefore.keeps (hkeeps.trans hdrift.keeps)
          by_cases hrenamed : renamed = none
          · obtain ⟨-, rfl⟩ := hplaced hrenamed
            exact ⟨{ hdrifted with }, rfl⟩
          · rw [hfailed hrenamed]
            exact ⟨{ hdrifted with }, rfl⟩
        split
        · next error => exact fault_settles error (by simp) hpinned.undoable
        · apply settles_bind
          refine (calm_ask rfl).keeps.mono fun _ synced flushed hflushed => ?_
          have hflushed := hpinned.keeps hflushed.1
          split
          · next error => exact fault_settles error (by simp) hflushed.undoable
          · have hloaded : Pinned mountpoint False initial
                { run with phase := .pinned, override := true } flushed :=
              ⟨{ hflushed.toCopied with }, rfl⟩
            exact pinnedStep_settles fuel pinFile hloaded rfl h.target

/-- A trial ends the run with the service put back, or leaves the run as it was. -/
def TrialEnds (resolve : Option File → Bytes) (mountpoint : Bytes → Bytes)
    (initial : Option File) (goal : Goal) (mounts : List Mount) (exchanges : Exchanges)
    (ended : Report ⊕ Run) (final : Machine κ) : Prop :=
  match ended with
  | .inl report =>
      Settled resolve initial goal (Rolled mountpoint False mounts) exchanges report final
  | .inr next => next.goal = goal ∧ next.data = mounts ∧ Held mountpoint initial next final

theorem TrialEnds.after {first second : Exchanges} {ended : Report ⊕ Run}
    (h : TrialEnds resolve mountpoint initial goal mounts second ended final) :
    TrialEnds resolve mountpoint initial goal mounts (first ++ second) ended final := by
  cases ended with
  | inl report => exact Settled.after h
  | inr next => exact h

theorem trialEnds_bind {α : Type} {program : Session α} {next : α → Session (Report ⊕ Run)}
    (h : Always (World resolve mountpoint blank) program host fun _ result between =>
      Always (World resolve mountpoint blank) (next result) between
        (TrialEnds resolve mountpoint initial goal mounts)) :
    Always (World resolve mountpoint blank) (program >>= next) host
      (TrialEnds resolve mountpoint initial goal mounts) :=
  h.bind_of_append fun _ _ _ _ hends => hends.after

theorem trialEnds_of_settles {program : Session Report}
    (h : Always (World resolve mountpoint blank) program host
      (Settled resolve initial goal (Rolled mountpoint False mounts))) :
    Always (World resolve mountpoint blank)
      (program >>= fun report => pure (Sum.inl report)) host
      (TrialEnds resolve mountpoint initial goal mounts) := by
  rw [always_bind]
  refine h.mono fun exchanges report final hsettled => ?_
  rw [always_pure, List.append_nil]
  exact hsettled

theorem runTrial_ends (fuel : Nat) (h : Held mountpoint initial run host) :
    Always (World resolve mountpoint blank) (run.runTrial fuel) host
      (TrialEnds resolve mountpoint initial run.goal run.data) := by
  unfold runTrial
  apply trialEnds_bind
  refine (calm_ask rfl).keeps.mono fun _ written after hafter => ?_
  have hafter := h.keeps hafter.1
  split
  · next error =>
      exact trialEnds_of_settles (fault_settles_of_phase error hafter.phase_eq hafter.override)
  · have htrial : Held mountpoint initial { run with trialFile := true } after := { hafter with }
    apply trialEnds_bind
    refine (copyMounts_calm _ _).keeps.mono fun _ uncopied between hbetween => ?_
    have hbetween := htrial.keeps hbetween.1
    split
    · exact trialEnds_of_settles hbetween.step.unchanged_settles
    · apply trialEnds_bind
      refine (tryTarget_calm _ fuel).keeps.mono fun _ proven tried htried => ?_
      have htried := hbetween.keeps htried.1
      split
      · rw [always_bind]
        refine ((cleanupTrial_calm _).keeps.and (cleanupTrial_result _)).mono ?_
        rintro _ ended cleaned ⟨⟨hcleaned, -⟩, rfl⟩
        rw [always_pure]
        exact ⟨rfl, rfl, { htried.keeps hcleaned with }⟩
      · apply trialEnds_bind
        refine interrupted_calm.keeps.mono fun _ signalled asked hasked => ?_
        have hasked := htried.keeps hasked.1
        split
        · exact trialEnds_of_settles hasked.stopped_settles
        · exact trialEnds_of_settles hasked.step.unchanged_settles

theorem trialStep_settles (fuel : Nat) (pinFile : Bytes) (h : Held mountpoint initial run host) :
    Always (World resolve mountpoint blank) (run.trialStep fuel pinFile) host
      (Settled resolve initial run.goal (Rolled mountpoint False run.data)) := by
  unfold trialStep
  rw [always_bind]
  refine (runTrial_ends fuel h).mono fun first ended after hended => ?_
  cases ended with
  | inl report =>
      rw [always_pure, List.append_nil]
      exact hended
  | inr next =>
      obtain ⟨hgoal, hdata, hnext⟩ := hended
      rw [← hgoal, ← hdata]
      refine Always.mono (settles_bind ?_) fun _ _ _ hsettled => hsettled.after
      refine interrupted_calm.keeps.mono fun _ signalled asked hasked => ?_
      have hasked := hnext.keeps hasked.1
      split
      · exact hasked.stopped_settles
      · exact pinStep_settles fuel pinFile hasked

theorem stopStep_settles (fuel : Nat) (pinFile : Bytes) (h : Checking initial run host) :
    Always (World resolve mountpoint blank) (run.stopStep fuel pinFile) host
      (Settled resolve initial run.goal (Rolled mountpoint False run.data)) := by
  unfold stopStep
  apply settles_bind
  rw [always_call]
  intro stopped after hafter
  obtain ⟨hsame, hcopy, -⟩ := World.override_eq (Or.inl ⟨_, rfl⟩) hafter
  have hhalted : Halted initial { run with phase := .stopped } after :=
    { h with
      phase_eq := rfl
      phase_ne := by simp
      override := hsame.trans h.override
      before := hcopy.trans h.before }
  split
  · exact hhalted.step.unchanged_settles
  · next hok =>
      have hstopped : after.running = false := hafter.stopped (Or.inr (by simpa using hok))
      apply settles_bind
      refine (snapshotMounts_takes hstopped h.nodup).mono fun _ untaken between hbetween => ?_
      obtain ⟨hsnapping, htaken⟩ := hbetween
      have hbetween : Halted initial { run with phase := .stopped } between :=
        { hhalted with
          override := by rw [hsnapping.rest]; exact hhalted.override
          before := by rw [hsnapping.rest]; exact hhalted.before }
      split
      · exact hbetween.step.unchanged_settles
      · have hheld : Held mountpoint initial { run with phase := .stopped } between :=
          { hbetween with
            running := hsnapping.running.trans hstopped
            taken := ⟨_, htaken rfl⟩ }
        apply settles_bind
        refine interrupted_calm.keeps.mono fun _ signalled asked hasked => ?_
        have hasked := hheld.keeps hasked.1
        split
        · exact hasked.step.stopped_settles
        · exact trialStep_settles fuel pinFile hasked.step

/-! ## Before the service is stopped -/

theorem pullStep_answers (fuel : Nat) (pinFile : Bytes) (h : Checking initial run host) :
    Always (World resolve mountpoint blank) (run.pullStep fuel pinFile) host
      (Answers resolve initial run.goal (Rolled mountpoint False run.data)) := by
  unfold pullStep
  apply Calm.answers_bind (calm_ask rfl) fun _ => Rolled.after
  refine (calm_ask rfl).keeps.mono fun _ pulled after hafter => ?_
  have hafter := h.keeps hafter.1
  split
  · exact hafter.step.refused_answers
  · apply interrupted_calm.answers_bind fun _ => Rolled.after
    refine interrupted_calm.keeps.mono fun _ signalled asked hasked => ?_
    have hasked := hafter.keeps hasked.1
    split
    · exact hasked.step.stopped_answers
    · exact (stopStep_settles fuel pinFile hasked.step).mono fun _ _ _ hsettled => hsettled.toAnswers

theorem pinCheck_answers (fuel : Nat) (pinFile : Bytes) (h : Checking initial run host) :
    Always (World resolve mountpoint blank) (run.pinCheck fuel pinFile) host
      (Answers resolve initial run.goal (Rolled mountpoint False run.data)) := by
  unfold pinCheck
  apply run.writePinned_calm.answers_bind fun _ => Rolled.after
  refine run.writePinned_calm.keeps.mono fun _ written after hafter => ?_
  have hafter := h.keeps hafter.1
  split
  · next error => exact fault_answers error hafter.undoable
  · exact hafter.step.refused_answers
  · apply (run.serviceImage_calm _).answers_bind fun _ => Rolled.after
    refine (run.serviceImage_calm _).keeps.mono fun _ image read hread => ?_
    have hread := hafter.keeps hread.1
    split
    · exact hread.step.refused_answers
    · apply interrupted_calm.answers_bind fun _ => Rolled.after
      refine interrupted_calm.keeps.mono fun _ signalled asked hasked => ?_
      have hasked := hread.keeps hasked.1
      split
      · exact hasked.step.stopped_answers
      · exact pullStep_answers fuel pinFile hasked.step

end Run

end SeverinoHQ.Host.Upgrade
