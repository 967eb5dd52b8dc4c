/-
# What stands before root acts on a unit

Whatever the request, docker and systemd say, the helper runs systemctl to change
a unit last of all, as a verb and a name of the closed grammar, and only once the
unit has shown itself loaded under that name and every container that docker
lists for it under a name of its own is one its start commands name.
-/

import SeverinoHQ.Host.Unit

namespace SeverinoHQ.Host

open SeverinoHQ.Math
open SeverinoHQ.Math.Bytes (ascii cut splitSeq)

/-! ## The texts -/

/-- The names of the properties that are read are told apart. -/
theorem properties_ne : ascii "Id" ≠ ascii "LoadState" ∧ ascii "Id" ≠ ascii "ExecStartPre" ∧
    ascii "Id" ≠ ascii "ExecStart" ∧ ascii "LoadState" ≠ ascii "ExecStartPre" ∧
    ascii "LoadState" ≠ ascii "ExecStart" := by
  decide

theorem readShown_eq (text : Bytes) :
    readShown text =
      ⟨lastProperty (ascii "Id") text, lastProperty (ascii "LoadState") text, startArgvs text⟩ := by
  unfold readShown lastProperty startArgvs
  generalize splitSeq [10] text = lines
  obtain ⟨hload, hpre, hstart, hloadPre, hloadStart⟩ := properties_ne
  induction lines using List.reverseRecOn with
  | nil => rfl
  | append_singleton lines line ih =>
      rw [List.foldl_append, List.foldl_cons, List.foldl_nil, ih]
      simp only [Shown.line, List.filter_append, List.flatMap_append, List.flatMap_cons,
        List.flatMap_nil, List.append_nil]
      by_cases hid : (cut 61 line).1 = ascii "Id"
      · simp [hid, hload, hpre, hstart]
      by_cases hloaded : (cut 61 line).1 = ascii "LoadState"
      · simp [hloaded, hload.symm, hloadPre, hloadStart]
      · simp only [hid, hloaded, if_false, List.filter_cons, List.filter_nil, decide_false]
        split <;> simp_all

/-- A list that reads is read line by line. -/
theorem readListing_eq_some {decoder : Decoder} {lines containers : List Bytes}
    (h : readListing decoder lines = some containers) :
    (∀ line ∈ lines, (decoder.text line).isSome) ∧
      containers = lines.filterMap fun line => (decoder.text line).bind ownName := by
  induction lines generalizing containers with
  | nil =>
      obtain rfl := Option.some.inj h
      simp
  | cons line lines ih =>
      rw [readListing] at h
      split at h
      · exact absurd h (by simp)
      · next names hnames =>
          obtain ⟨rest, hrest, rfl⟩ := Option.map_eq_some_iff.mp h
          obtain ⟨hread, rfl⟩ := ih hrest
          constructor
          · simpa [hnames] using hread
          · cases hown : ownName names <;> simp [hnames, hown]

/-! ## What a name is cleared by -/

/-- The exchanges of a run. -/
abbrev Exchanges := List (Dialogue.Exchange Command fun _ => Output)

/-- The commands that change a unit: any systemctl but the one that shows one. -/
def Command.acts (command : Command) : Prop :=
  command.program = ascii "systemctl" ∧ command.args.head? ≠ some (ascii "show")

/-- What docker and systemd said that lets root act on a unit. -/
structure Cleared (decoder : Decoder) (before : Exchanges) (name : Bytes) (listed shown : Output) :
    Prop where
  listing : ⟨listCommand name, listed⟩ ∈ before
  listing_ok : listed.exit = .ok
  showing : ⟨showCommand name, shown⟩ ∈ before
  showing_ok : shown.exit = .ok
  id : lastProperty (ascii "Id") shown.text = name
  loaded : lastProperty (ascii "LoadState") shown.text = ascii "loaded"
  reads : ∀ line ∈ listedLines listed.text, (decoder.text line).isSome
  labeled : ∃ line ∈ listedLines listed.text, ∃ container,
    (decoder.text line).bind ownName = some container
  started : ∀ line ∈ listedLines listed.text, ∀ container,
    (decoder.text line).bind ownName = some container →
      ∃ argv ∈ startArgvs shown.text, Names decoder before argv container

/-- Root acts last, as a verb and a name of the grammar, on a name that is cleared. -/
def Guarded (decoder : Decoder) (exchanges : Exchanges) : Prop :=
  ∀ (before after : Exchanges) (command : Command) (output : Output),
    exchanges = before ++ ⟨command, output⟩ :: after → command.acts →
      after = [] ∧ ∃ verb ∈ verbs, ∃ name, isUnitName name = true ∧
        command = actCommand verb name ∧ ∃ listed shown, Cleared decoder before name listed shown

theorem listCommand_not_acts (name : Bytes) : ¬(listCommand name).acts := by
  have hprogram : ascii "docker" ≠ ascii "systemctl" := by decide
  exact fun h => hprogram h.1

theorem Command.readsProject.not_acts {command : Command} (h : command.readsProject) :
    ¬command.acts := by
  have hprogram : ascii "docker" ≠ ascii "systemctl" := by decide
  obtain ⟨global, rfl⟩ := h
  exact fun hacts => hprogram hacts.1

theorem showCommand_not_acts (name : Bytes) : ¬(showCommand name).acts := fun h => h.2 rfl

/-- Exchanges that change no unit are guarded. -/
theorem guarded_of_quiet {decoder : Decoder} {exchanges : Exchanges}
    (h : ∀ exchange ∈ exchanges, ¬exchange.1.acts) : Guarded decoder exchanges := by
  rintro before after command output rfl hacts
  exact absurd hacts (h ⟨command, output⟩ (by simp))

/-- So are quiet ones that cleared a name, with the act on it after them. -/
theorem guarded_act {decoder : Decoder} {checks : Exchanges} {verb name : Bytes}
    {listed shown output : Output} (hverb : verb ∈ verbs) (hname : isUnitName name = true)
    (h : ∀ exchange ∈ checks, ¬exchange.1.acts) (hcleared : Cleared decoder checks name listed shown) :
    Guarded decoder (checks ++ [⟨actCommand verb name, output⟩]) := by
  intro before after command reply hsplit hacts
  rcases List.append_eq_append_iff.mp hsplit with ⟨more, rfl, hmore⟩ | ⟨more, hchecks, hmore⟩
  · cases more with
    | nil =>
        obtain ⟨hexchange, rfl⟩ := List.cons.inj hmore
        obtain ⟨rfl, hsame⟩ := Sigma.mk.inj hexchange
        refine ⟨rfl, verb, hverb, name, hname, rfl, listed, shown, ?_⟩
        rwa [List.append_nil]
    | cons exchange more => simp at hmore
  · cases more with
    | nil =>
        obtain ⟨hexchange, rfl⟩ := List.cons.inj hmore
        obtain ⟨rfl, hsame⟩ := Sigma.mk.inj hexchange
        rw [List.append_nil] at hchecks
        exact ⟨rfl, verb, hverb, name, hname, rfl, listed, shown, hchecks ▸ hcleared⟩
    | cons exchange more =>
        obtain ⟨rfl, -⟩ := List.cons.inj hmore
        exact absurd hacts (h ⟨command, reply⟩ (by simp [hchecks]))

/-! ## One step of the checks after another -/

section Steps

variable {σ : Type} {world : σ → Dialogue.Exchange Command (fun _ => Output) → σ → Prop} {state : σ}
variable {decoder : Decoder}

theorem labeled_reads (name : Bytes) :
    Dialogue.Always world (labeled decoder name) state fun exchanges found _ =>
      (∀ exchange ∈ exchanges, ¬exchange.1.acts) ∧
        ∀ containers, found = .ok containers → ∃ listed, ⟨listCommand name, listed⟩ ∈ exchanges ∧
          listed.exit = .ok ∧ readListing decoder (listedLines listed.text) = some containers := by
  unfold labeled
  rw [Dialogue.always_bind, Dialogue.always_call]
  intro listed after _
  have hquiet : ∀ exchange ∈ ([⟨listCommand name, listed⟩] : Exchanges) ++ [],
      ¬exchange.1.acts := by
    simpa using listCommand_not_acts name
  split
  · rw [Dialogue.always_pure]
    exact ⟨hquiet, nofun⟩
  · next hexit =>
      split
      · rw [Dialogue.always_pure]
        exact ⟨hquiet, nofun⟩
      · next containers hread =>
          rw [Dialogue.always_pure]
          refine ⟨hquiet, fun found hfound => ?_⟩
          obtain rfl := Except.ok.inj hfound
          exact ⟨listed, by simp, not_not.mp hexit, hread⟩

theorem startCommands_shows (name : Bytes) :
    Dialogue.Always world (startCommands name) state fun exchanges found _ =>
      (∀ exchange ∈ exchanges, ¬exchange.1.acts) ∧
        ∀ commands, found = .ok commands → ∃ shown, ⟨showCommand name, shown⟩ ∈ exchanges ∧
          shown.exit = .ok ∧ lastProperty (ascii "Id") shown.text = name ∧
          lastProperty (ascii "LoadState") shown.text = ascii "loaded" ∧
          commands = startArgvs shown.text := by
  unfold startCommands
  rw [Dialogue.always_bind, Dialogue.always_call]
  intro shown after _
  have hquiet : ∀ exchange ∈ ([⟨showCommand name, shown⟩] : Exchanges) ++ [],
      ¬exchange.1.acts := by
    simpa using showCommand_not_acts name
  split
  · rw [Dialogue.always_pure]
    exact ⟨hquiet, nofun⟩
  · next hexit =>
      split
      · rw [Dialogue.always_pure]
        exact ⟨hquiet, nofun⟩
      · next hshown =>
          rw [Dialogue.always_pure]
          refine ⟨hquiet, fun found hfound => ?_⟩
          obtain rfl := Except.ok.inj hfound
          rw [readShown_eq] at hshown ⊢
          push Not at hshown
          exact ⟨shown, by simp, not_not.mp hexit, hshown.1, hshown.2, rfl⟩

/-- Every container a starter accepts, its command names. -/
theorem starters_name (commands : List (List Bytes)) :
    Dialogue.Always world (starters decoder commands) state fun exchanges starting _ =>
      (∀ exchange ∈ exchanges, ¬exchange.1.acts) ∧
        ∀ container, (starting.any fun starts => starts container) = true →
          ∃ argv ∈ commands, Names decoder exchanges argv container := by
  induction commands generalizing state with
  | nil => simp [starters]
  | cons argv commands ih =>
      unfold starters
      rw [Dialogue.always_bind]
      refine (starter_names argv).mono fun first starts between hfirst => ?_
      rw [Dialogue.always_bind]
      refine ih.mono fun second starting final hrest => ?_
      rw [Dialogue.always_pure]
      constructor
      · intro exchange hexchange
        rw [List.append_nil, List.mem_append] at hexchange
        rcases hexchange with hmem | hmem
        · exact (hfirst.1 exchange hmem).not_acts
        · exact hrest.1 exchange hmem
      · intro container hstarts
        rw [List.any_cons, Bool.or_eq_true] at hstarts
        rcases hstarts with hstarts | hstarts
        · exact ⟨argv, List.mem_cons_self, (hfirst.2 container hstarts).mono (by simp)⟩
        · obtain ⟨other, hother, hnames⟩ := hrest.2 container hstarts
          exact ⟨other, List.mem_cons_of_mem argv hother, hnames.mono (by simp)⟩

/-- What passes the checks is cleared by them. -/
theorem verify_clears (name : Bytes) :
    Dialogue.Always world (verify decoder name) state fun exchanges verified _ =>
      (∀ exchange ∈ exchanges, ¬exchange.1.acts) ∧
        (verified = .ok () → ∃ listed shown, Cleared decoder exchanges name listed shown) := by
  unfold verify
  rw [Dialogue.always_bind]
  refine (labeled_reads name).mono fun first found between hlisted => ?_
  split
  · simpa using hlisted.1
  · simpa using hlisted.1
  · next containers hsome =>
      rw [Dialogue.always_bind]
      refine (startCommands_shows name).mono fun second commands later hshown => ?_
      have hchecks : ∀ exchange ∈ first ++ second, ¬exchange.1.acts := by
        intro exchange hexchange
        rcases List.mem_append.mp hexchange with hmem | hmem
        · exact hlisted.1 exchange hmem
        · exact hshown.1 exchange hmem
      split
      · rw [Dialogue.always_pure, List.append_nil]
        exact ⟨hchecks, nofun⟩
      · next argvs =>
          rw [Dialogue.always_bind]
          refine (starters_name argvs).mono fun third starting final hstarting => ?_
          have hquiet : ∀ exchange ∈ first ++ (second ++ (third ++ [])), ¬exchange.1.acts := by
            intro exchange hexchange
            rw [List.append_nil, ← List.append_assoc, List.mem_append] at hexchange
            rcases hexchange with hmem | hmem
            · exact hchecks exchange hmem
            · exact hstarting.1 exchange hmem
          split
          · rw [Dialogue.always_pure]
            exact ⟨hquiet, nofun⟩
          · next hall =>
              rw [Dialogue.always_pure]
              refine ⟨hquiet, fun _ => ?_⟩
              obtain ⟨listed, hlist, hlistOk, hread⟩ := hlisted.2 containers rfl
              obtain ⟨shown, hshow, hshowOk, hid, hload, rfl⟩ := hshown.2 argvs rfl
              obtain ⟨hreads, hcontainers⟩ := readListing_eq_some hread
              refine ⟨listed, shown, by simp [hlist], hlistOk, by simp [hshow], hshowOk, hid, hload,
                hreads, ?_, ?_⟩
              · obtain ⟨container, hcontainer⟩ := List.exists_mem_of_ne_nil containers hsome
                rw [hcontainers, List.mem_filterMap] at hcontainer
                obtain ⟨line, hline, hown⟩ := hcontainer
                exact ⟨line, hline, container, hown⟩
              · intro line hline container hown
                have hmem : container ∈ containers := by
                  rw [hcontainers, List.mem_filterMap]
                  exact ⟨line, hline, hown⟩
                have hstarts := List.find?_eq_none.mp hall container hmem
                rw [Bool.not_eq_true', Bool.not_eq_false] at hstarts
                obtain ⟨argv, hargv, hnames⟩ := hstarting.2 container hstarts
                exact ⟨argv, hargv, hnames.mono (by simp)⟩

theorem parseRequest_ok {request verb name : Bytes} (h : parseRequest request = .ok (verb, name)) :
    verb ∈ verbs ∧ isUnitName name = true := by
  unfold parseRequest at h
  split at h
  split_ifs at h with hspace hverb hname
  obtain ⟨rfl, rfl⟩ := Prod.mk.inj (Except.ok.inj h)
  simp only [Bool.not_eq_true', Bool.not_eq_false, List.contains_iff_mem] at hverb hname
  exact ⟨hverb, hname⟩

theorem run_guarded (runner : Runner) (request : Bytes) :
    Dialogue.Always world (runner.run request) state fun exchanges _ _ =>
      Guarded runner.decoder exchanges := by
  have hnone : Guarded runner.decoder [] := guarded_of_quiet (by simp)
  unfold Runner.run
  split
  · exact Dialogue.always_pure.mpr hnone
  · next verb name hparsed =>
      obtain ⟨hverb, hname⟩ := parseRequest_ok hparsed
      split
      · exact Dialogue.always_pure.mpr hnone
      · rw [Dialogue.always_bind]
        refine (verify_clears name).mono fun checks verified between hverified => ?_
        split
        · rw [Dialogue.always_pure, List.append_nil]
          exact guarded_of_quiet hverified.1
        · obtain ⟨listed, shown, hcleared⟩ := hverified.2 rfl
          rw [Dialogue.always_bind, Dialogue.always_call]
          intro acted after _
          have hguarded : Guarded runner.decoder
              (checks ++ ([⟨actCommand verb name, acted⟩] ++ [])) :=
            guarded_act hverb hname hverified.1 hcleared
          split
          · exact Dialogue.always_pure.mpr hguarded
          · exact Dialogue.always_pure.mpr hguarded

end Steps

/-! ## Every request -/

/-- Whatever a request holds and docker and systemctl print, root acts on a unit
only once it is cleared. -/
theorem main_guarded (runner : Runner) (args : List Bytes) (carrier : Carrier) (stream : Stream)
    (exchanges : Exchanges) (answered : Answer × Nat) (final : Unit)
    (hruns : Dialogue.Runs (fun _ _ _ => True) (runner.main args carrier stream) () exchanges
      answered final) : Guarded runner.decoder exchanges := by
  have hnone : Guarded runner.decoder [] := guarded_of_quiet (by simp)
  have halways : Dialogue.Always (fun _ _ _ => True) (runner.main args carrier stream) ()
      fun exchanges _ _ => Guarded runner.decoder exchanges := by
    unfold Runner.main
    split
    · exact Dialogue.always_pure.mpr hnone
    · split
      · exact Dialogue.always_pure.mpr hnone
      · rw [Dialogue.always_bind]
        unfold Runner.serve
        split
        · rw [Dialogue.always_pure, Dialogue.always_pure]
          exact hnone
        · refine (run_guarded runner _).mono fun exchanges answer final hguarded => ?_
          rw [Dialogue.always_pure, List.append_nil]
          exact hguarded
  exact halways exchanges answered final hruns

/-- A string without escapes, read as JSON. -/
def plainText (line : Bytes) : Option Bytes :=
  match line with
  | 34 :: rest => if rest.getLast? = some 34 then some rest.dropLast else none
  | _ => none

/-- Root, on a machine without compose projects. -/
def sampleRunner : Runner where
  euid := 0
  decoder := ⟨plainText, fun _ => none⟩
  lastLine _ := []

/-- A unit that starts one container by its name. -/
def sampleShown : Output :=
  ⟨ascii ("Id=hermes.service\nLoadState=loaded\nExecStart=\x7b path=/usr/bin/docker ; " ++
    "argv[]=/usr/bin/docker start hermes ; pid=0 \x7d\n"), .ok⟩

/-- A machine that lists these containers for every unit. -/
def sampleMachine (listed : Bytes) (_ : Unit) (command : Command) : Output × Unit :=
  if command.args.head? = some (ascii "container") then (⟨listed, .ok⟩, ())
  else if command.args.head? = some (ascii "show") then (sampleShown, ())
  else (⟨[], .ok⟩, ())

/-- A request to stop the unit, on that machine. -/
def stopped (listed : Bytes) : Exchanges × (Answer × Nat) × Unit :=
  (sampleRunner.main [ascii "--serve"] (.socket (some webUid))
    ⟨ascii "stop hermes.service\n", false⟩).runWith (sampleMachine listed) ()

/-- A list with a container that has no name without a slash. -/
def linkedListing : Bytes := ascii "\"hermes\"\n\"mail/hermes\"\n"

/-- What is exchanged before the unit is stopped. -/
def linkedChecks : Exchanges :=
  [⟨listCommand (ascii "hermes.service"), ⟨linkedListing, .ok⟩⟩,
    ⟨showCommand (ascii "hermes.service"), sampleShown⟩]

/-- What the unit's start command is, and what stopping it comes to with either list. -/
theorem sample_runs :
    startArgvs sampleShown.text = [["/usr/bin/docker", "start", "hermes"].map ascii] ∧
      (stopped (ascii "\"hermes\"\n")).2.1 = (.done (ascii "stop") (ascii "hermes.service"), 0) ∧
        (stopped linkedListing).1 = linkedChecks ++
          [⟨actCommand (ascii "stop") (ascii "hermes.service"), ⟨[], .ok⟩⟩] := by
  decide +kernel

theorem hermes_stopped :
    (stopped (ascii "\"hermes\"\n")).2.1 = (.done (ascii "stop") (ascii "hermes.service"), 0) ∧
      Guarded sampleRunner.decoder (stopped (ascii "\"hermes\"\n")).1 :=
  ⟨sample_runs.2.1, main_guarded sampleRunner [ascii "--serve"] (.socket (some webUid))
    ⟨ascii "stop hermes.service\n", false⟩ _ _ _
    (Dialogue.runs_runWith (fun _ _ => trivial) _ ())⟩

/-- No start command of the unit names the container it is not listed by. -/
theorem not_names_linked (before : Exchanges) {argv : List Bytes}
    (hargv : argv ∈ startArgvs sampleShown.text) :
    ¬Names sampleRunner.decoder before argv (ascii "mail/hermes") := by
  rw [sample_runs.1, List.mem_singleton] at hargv
  subst hargv
  have hdocker : dockerCommand (["/usr/bin/docker", "start", "hermes"].map ascii) =
      some (["start", "hermes"].map ascii) := by
    decide +kernel
  rintro (⟨command, named, hcommand, hnamed, hmem⟩ | ⟨args, rest, verb, service, output, project,
    hcommand, -⟩)
  · rw [hdocker] at hcommand
    obtain rfl := Option.some.inj hcommand
    revert hmem
    rw [show named = [ascii "hermes"] from Option.some.inj (hnamed.symm.trans (by decide))]
    decide
  · rw [hdocker] at hcommand
    exact absurd (List.cons.inj (Option.some.inj hcommand)).1 (by decide)

/-- A container that docker lists only under a name with a slash is not looked
for, and the unit is stopped without a start command that names it. -/
theorem linked_container_not_started :
    ¬∀ (runner : Runner) (args : List Bytes) (carrier : Carrier) (stream : Stream)
      (exchanges : Exchanges) (answered : Answer × Nat) (final : Unit),
      Dialogue.Runs (fun _ _ _ => True) (runner.main args carrier stream) () exchanges answered
        final →
      ∀ (before after : Exchanges) (verb name : Bytes) (output : Output),
        exchanges = before ++ ⟨actCommand verb name, output⟩ :: after →
        ∃ listed shown, Cleared runner.decoder before name listed shown ∧
          ∀ line ∈ listedLines listed.text, ∃ names, runner.decoder.text line = some names ∧
            ∃ container ∈ splitSeq (ascii ",") names, ∃ argv ∈ startArgvs shown.text,
              Names runner.decoder before argv container := by
  intro h
  obtain ⟨listed, shown, hcleared, hall⟩ := h sampleRunner [ascii "--serve"]
    (.socket (some webUid)) ⟨ascii "stop hermes.service\n", false⟩ _ _ _
    (Dialogue.runs_runWith (fun _ _ => trivial) _ ()) linkedChecks [] _ _ _ sample_runs.2.2
  have hcommands : listCommand (ascii "hermes.service") ≠ showCommand (ascii "hermes.service") := by
    decide
  have hlisted : listed = ⟨linkedListing, .ok⟩ := by
    rcases List.mem_cons.mp hcleared.listing with hsame | hmem
    · exact eq_of_heq (Sigma.mk.inj hsame).2
    · exact absurd (congrArg Sigma.fst (List.mem_singleton.mp hmem)) hcommands
  have hshown : shown = sampleShown := by
    rcases List.mem_cons.mp hcleared.showing with hsame | hmem
    · exact absurd (congrArg Sigma.fst hsame).symm hcommands
    · exact eq_of_heq (Sigma.mk.inj (List.mem_singleton.mp hmem)).2
  subst hlisted hshown
  obtain ⟨names, hnames, container, hcontainer, argv, hargv, hstarts⟩ :=
    hall (ascii "\"mail/hermes\"") (by decide +kernel)
  have hread : sampleRunner.decoder.text (ascii "\"mail/hermes\"") = some (ascii "mail/hermes") := by
    decide
  obtain rfl := Option.some.inj (hnames.symm.trans hread)
  have hsplit : splitSeq (ascii ",") (ascii "mail/hermes") = [ascii "mail/hermes"] := by
    decide
  rw [hsplit, List.mem_singleton] at hcontainer
  subst hcontainer
  exact not_names_linked linkedChecks hargv hstarts

end SeverinoHQ.Host
