/-
# Nothing is stored under a key it is older than

The invariant of `Revisions`, over whole runs, and the runs that break it.
-/

import SeverinoHQ.Derivations.Revisions

namespace SeverinoHQ.Derivations

open SeverinoHQ.Math

variable {V : Type}

section Statements

variable {env : Environment V} {world : World V} {id : Nat} {thread next : Thread V}

/-- Revisions only grow, and what others do leaves a thread as it is. -/
theorem Thread.Fresh.mono {now later : String → Nat} (h : thread.Fresh now) (hle : now ≤ later) :
    thread.Fresh later where
  stack := h.stack.mono hle
  scope := h.scope.mono hle
  floors floor hfloor := (h.floors floor hfloor).trans hle
  code := by
    have hfresh := h.code
    cases hcode : thread.code with
    | lookup _ _ _ keyed _ =>
        rw [hcode] at hfresh
        exact fun under hunder => ⟨(hfresh under hunder).1.trans hle, (hfresh under hunder).2⟩
    | run _ | key _ _ _ _ | rekey _ | keep _ =>
        rw [hcode] at hfresh
        exact hfresh

theorem World.Fresh.runs (h : world.Fresh) (hnext : next.Fresh world.revision) :
    (world.runs id next).Fresh := by
  refine ⟨fun other thread hthread => ?_, h.cache, h.hits⟩
  simp only [World.runs, Function.update_apply] at hthread
  by_cases hid : other = id
  · rw [if_pos hid, Option.some.injEq] at hthread
    exact hthread ▸ hnext
  · rw [if_neg hid] at hthread
    exact h.threads other thread hthread

theorem World.Fresh.ends (h : world.Fresh) : (world.ends id).Fresh := by
  refine ⟨fun other thread hthread => ?_, h.cache, h.hits⟩
  simp only [World.ends, Function.update_apply] at hthread
  by_cases hid : other = id
  · rw [if_pos hid] at hthread
    cases hthread
  · rw [if_neg hid] at hthread
    exact h.threads other thread hthread

theorem World.Fresh.gives (h : world.Fresh) {process : Nat} {derivation : String}
    {expires : Option Aware} {evidence : List (Item V)} :
    (world.gives process derivation expires evidence).Fresh :=
  ⟨h.threads, h.cache, h.hits⟩

theorem World.Fresh.learns (h : world.Fresh) {process : Nat} {derivation : String}
    {new : List String} : (world.learns process derivation new).Fresh :=
  ⟨h.threads, h.cache, h.hits⟩

theorem World.Fresh.serves (h : world.Fresh) {keyed : Keyed} {evidence : List (Item V)}
    (hfresh : FreshUnder keyed evidence) : (world.serves keyed evidence).Fresh := by
  refine ⟨h.threads, h.cache, fun hit hhit => ?_⟩
  rcases List.mem_append.mp hhit with hhit | hhit
  · exact h.hits hit hhit
  · obtain rfl := List.mem_singleton.mp hhit
    exact hfresh

/-- A thread that goes on in its projection, having collected something. -/
theorem Thread.Fresh.collects {now : String → Nat} (h : thread.Fresh now)
    {stack : List (Activation V)} (hstack : StackFresh now thread.scope stack)
    (hfloors : Derivations.floors stack = Derivations.floors thread.stack) {items : List (Item V)}
    (hitems : ∀ floor ∈ Derivations.floors thread.stack, Derivations.Fresh floor items)
    (prog : Prog V) :
    Thread.Fresh now { thread with code := .run prog, stack := collect items stack } where
  stack := hstack.collect (by rwa [hfloors])
  scope := h.scope.of_floors (by simp [hfloors])
  floors := by simpa [hfloors] using h.floors
  code := trivial

theorem World.Fresh.reads (h : world.Fresh) (hthread : thread.Fresh world.revision)
    {table : String} {resume : V → Prog V} : (world.reads id thread table resume).Fresh := by
  apply h.runs
  apply hthread.collects (hthread.stack.note table) (floors_note table _)
  intro floor hfloor item hitem
  obtain rfl := List.mem_singleton.mp hitem
  exact hthread.floors floor hfloor table

theorem World.Fresh.asksClock (h : world.Fresh) (hthread : thread.Fresh world.revision)
    {question : Question} {resume : Reading → Prog V} :
    (world.asksClock env id thread question resume).Fresh := by
  have hsame := fun frame : Frame V =>
    frame.holdUntil?_sameCall env.zone (question.boundary env.zone world.now)
  unfold World.asksClock
  split
  · exact h.ends
  · apply h.runs
    apply hthread.collects (hthread.stack.amend hsame) (floors_amend hsame _)
    intro floor hfloor item hitem
    obtain rfl := List.mem_singleton.mp hitem
    trivial

theorem World.Fresh.readsOnce (h : world.Fresh) (hthread : thread.Fresh world.revision)
    {name : String} {resume : V → Prog V} {choice : Choice}
    (hcode : thread.code = .run (.once name resume)) (hcurrent : world.Current env thread choice) :
    (world.readsOnce env id thread name resume).Fresh := by
  unfold World.readsOnce
  split
  · apply h.runs
    exact ⟨⟨hthread.scope, hthread.stack⟩, hthread.scope, hthread.floors, trivial⟩
  · next scope hscope =>
    split
    · next memo hmemo =>
      apply h.runs
      apply hthread.collects hthread.stack rfl
      apply hcurrent.recalls
      simp [Thread.remembered?, hcode, hscope, hmemo]
    · apply h.runs
      exact ⟨⟨fun _ _ => fresh_nil, hthread.stack⟩, hthread.scope, hthread.floors, trivial⟩

theorem World.Fresh.opens (h : world.Fresh) (hthread : thread.Fresh world.revision) {apart : Bool}
    {body : Prog V} {resume : V → Prog V} : (world.opens id thread apart body resume).Fresh := by
  unfold World.opens
  split
  · apply h.runs
    exact ⟨⟨hthread.scope, hthread.stack⟩, hthread.scope, hthread.floors, trivial⟩
  · apply h.runs
    refine ⟨⟨hthread.scope, hthread.stack⟩, ?_, hthread.floors, trivial⟩
    intro current hmem found hfound
    obtain rfl := Option.some.inj hmem
    cases hfound

theorem World.Fresh.asks (h : world.Fresh) (hthread : thread.Fresh world.revision)
    {derivation variant : String} {resume : V → Prog V} {choice : Choice}
    (hcode : thread.code = .run (.ask derivation variant resume))
    (hcurrent : world.Current env thread choice) :
    (world.asks env id thread derivation variant resume).Fresh := by
  unfold World.asks
  split
  · split
    · next memo hmemo =>
      have hsame := fun frame : Frame V => frame.told_sameCall env.zone
        (world.tables env thread.process derivation) memo.expires
      apply h.gives.runs
      apply hthread.collects (hthread.stack.amend hsame) (floors_amend hsame _)
      intro floor hfloor
      apply fresh_append.mpr ⟨_, fresh_expiryItems _⟩
      apply hcurrent.recalls memo _ floor hfloor
      simp [Thread.remembered?, hcode, hmemo]
    · apply h.runs
      exact ⟨hthread.stack, hthread.scope, hthread.floors, trivial⟩
  · exact h.ends

theorem World.Fresh.delivers (h : world.Fresh) (hthread : thread.Fresh world.revision)
    {result : Result V}
    (hresult : ∀ floor ∈ floors thread.stack, Derivations.Fresh floor result.evidence) :
    (world.delivers env id thread result).Fresh := by
  have hsame := fun frame : Frame V => frame.told_sameCall env.zone
    (world.tables env thread.process result.derivation) result.expires
  have hitems : ∀ floor ∈ floors thread.stack,
      Derivations.Fresh floor (result.evidence ++ expiryItems result.expires) :=
    fun floor hfloor => fresh_append.mpr ⟨hresult floor hfloor, fresh_expiryItems _⟩
  obtain ⟨hstack, hscope, hfloors, -⟩ :=
    hthread.collects (hthread.stack.amend hsame) (floors_amend hsame _) hitems
      (result.resume result.value)
  apply h.gives.runs
  exact ⟨hstack.store hscope _ _, hscope.store _ _, hfloors, trivial⟩

theorem World.Fresh.computed (h : world.Fresh) (hthread : thread.Fresh world.revision)
    {frame : Frame V} {rest : List (Activation V)} {value : V}
    (hrest : thread.stack = .computing frame :: rest) :
    (world.computed env id thread frame rest value).Fresh := by
  obtain ⟨hstack, hscope, hfloors, -⟩ := hthread
  rw [hrest] at hstack hscope hfloors
  obtain ⟨hkeyed, hevidence, hbelow⟩ := hstack
  have hsubset : floors rest ⊆ floors (.computing frame :: rest) := List.subset_append_right _ _
  apply h.learns.runs
  refine ⟨hbelow, hscope.of_floors hsubset, fun floor hfloor => hfloors floor (hsubset hfloor), ?_⟩
  dsimp only
  split
  · next hlearned =>
    obtain ⟨keyed, hmem⟩ := Option.isSome_iff_exists.mp hlearned.2
    obtain ⟨hfresh, hin, -⟩ := hkeyed keyed hmem
    exact ⟨⟨keyed, hmem, hfresh, hin⟩, hevidence⟩
  · exact ⟨fun keyed hmem => (hkeyed keyed hmem).1.under, hevidence⟩

theorem World.Fresh.returns (h : world.Fresh) (hthread : thread.Fresh world.revision) {value : V} :
    (world.returns env id thread value).Fresh := by
  unfold World.returns
  split
  · exact h.ends
  · next name resume evidence rest hrest =>
    obtain ⟨hstack, hscope, hfloors, -⟩ := hthread
    rw [hrest] at hstack hscope hfloors
    have hcollected : ScopeFresh world.revision thread.scope (collect evidence rest) :=
      hscope.of_floors (by simp [floors])
    apply h.runs
    refine ⟨?_, hcollected.store _ _, ?_, trivial⟩
    · exact (hstack.2.collect hstack.1).store hcollected _ _
    · simpa [floors] using hfloors
  · next saved resume rest hrest =>
    obtain ⟨hstack, -, hfloors, -⟩ := hthread
    rw [hrest] at hstack hfloors
    apply h.runs
    exact ⟨hstack.2, hstack.1, hfloors, trivial⟩
  · next frame rest hrest => exact h.computed hthread hrest

theorem World.Fresh.computes (h : world.Fresh) (hthread : thread.Fresh world.revision)
    {derivation variant : String} {resume : V → Prog V} {keyed : Option Keyed} {started : Nat}
    (hcode : thread.code = .lookup derivation variant resume keyed started) :
    (world.computes env id thread derivation variant resume keyed started).Fresh := by
  obtain ⟨hstack, hscope, hfloors, hkeyed⟩ := hthread
  rw [hcode] at hkeyed
  have hkeyed : ∀ under ∈ keyed, under.revisions ≤ world.revision ∧ under.In thread.scope ∧
      ∀ floor ∈ floors thread.stack, floor ≤ under.revisions := hkeyed
  -- Whatever frame begins under this key, the projection around it is of the key's age.
  have hbegins : ∀ frame : Frame V, frame.keyed = keyed → frame.evidence = [] →
      StackFresh world.revision thread.scope (.computing frame :: thread.stack) ∧
        ScopeFresh world.revision thread.scope (.computing frame :: thread.stack) ∧
        ∀ floor ∈ floors (.computing frame :: thread.stack), floor ≤ world.revision := by
    intro frame hframe hevidence
    simp only [StackFresh, ScopeFresh, floors, hframe, hevidence, List.mem_append,
      Option.mem_toList, Option.map_eq_some_iff]
    refine ⟨⟨?_, fun _ _ => fresh_nil, hstack⟩, ?_, ?_⟩
    · exact fun under hunder => ⟨fresh_nil, (hkeyed under hunder).2⟩
    · intro current hcurrent found hfound
      obtain ⟨hle, habove⟩ := hscope current hcurrent found hfound
      refine ⟨hle, fun floor hfloor => ?_⟩
      rcases hfloor with ⟨under, hunder, rfl⟩ | hfloor
      · have hin := (hkeyed under hunder).2.1 current hcurrent
        rw [hfound, Option.some.injEq, Option.some.injEq] at hin
        exact hin.ge
      · exact habove floor hfloor
    · rintro floor (⟨under, hunder, rfl⟩ | hfloor)
      · exact (hkeyed under hunder).1
      · exact hfloors floor hfloor
  unfold World.computes
  dsimp only
  split
  · apply h.runs
    obtain ⟨hbegun, hscoped, hbounded⟩ := hbegins ⟨derivation, variant, resume, keyed,
      world.tables env thread.process derivation, (env.derivation derivation).unseen, none, [], [],
      started⟩ rfl rfl
    refine ⟨⟨hscoped, hbegun⟩, ?_, hbounded, trivial⟩
    intro current hmem found hfound
    obtain rfl := Option.some.inj hmem
    cases hfound
  · apply h.runs
    obtain ⟨hbegun, hscoped, hbounded⟩ := hbegins ⟨derivation, variant, resume, keyed,
      world.tables env thread.process derivation, (env.derivation derivation).unseen, none, [], [],
      started⟩ rfl rfl
    exact ⟨hbegun, hscoped, hbounded, trivial⟩

theorem World.Fresh.keeps (h : world.Fresh) {result : Result V} {choice : Choice}
    (hresult : ∀ under ∈ result.keyed, FreshUnder under result.evidence) :
    (world.keeps env result choice).Fresh := by
  unfold World.keeps
  split
  · exact h
  · next keyed hkeyed =>
    split
    · exact h
    · refine ⟨h.threads, fun entry hentry => ?_, h.hits⟩
      rcases List.mem_cons.mp hentry with rfl | hentry
      · exact hresult keyed hkeyed
      · exact h.cache entry (List.mem_filter.mp hentry).1

theorem keeps_revision (result : Result V) (choice : Choice) :
    (world.keeps env result choice).revision = world.revision := by
  unfold World.keeps
  split
  · rfl
  · split <;> rfl

theorem World.Fresh.keys (h : world.Fresh) (hthread : thread.Fresh world.revision)
    {derivation variant : String} {resume : V → Prog V} {started : Nat} {choice : Choice} :
    (world.keys env id thread derivation variant resume started choice).Fresh := by
  have hscope := hthread.scope.readRevisions hthread.floors choice
  apply h.runs
  refine ⟨?_, hscope, hthread.floors, ?_⟩
  · exact hthread.stack.of_scope hscope readRevisions_keeps
  · exact fun under hunder => keyOf_fresh hthread.scope hthread.floors hunder

theorem World.Fresh.looksUp (h : world.Fresh) (hthread : thread.Fresh world.revision)
    {derivation variant : String} {resume : V → Prog V} {keyed : Option Keyed} {started : Nat}
    {choice : Choice} (hcode : thread.code = .lookup derivation variant resume keyed started)
    (hcurrent : world.Current env thread choice) :
    (world.looksUp env id thread derivation variant resume keyed started choice).Fresh := by
  unfold World.looksUp
  split
  · next under entry hentry =>
    obtain ⟨hmem, hunder⟩ := World.mem_of_stored? hentry
    simp only [Entry.isUnder, Bool.and_eq_true, beq_iff_eq] at hunder
    obtain ⟨htables, hrest⟩ := hcurrent.serves entry (by simp [World.served?, hcode, hentry]) under
      (by simp [Thread.keyed?, hcode])
    have hkeyed := hthread.code
    rw [hcode] at hkeyed
    have hfresh := (h.cache entry hmem).of_counts htables hunder.2
    apply (h.serves hfresh).delivers hthread
    exact fun floor hfloor =>
      hfresh.fresh ((hkeyed under rfl).2.2 floor hfloor) (hrest floor hfloor)
  · exact h.computes hthread hcode

theorem World.Fresh.rekeys (h : world.Fresh) (hthread : thread.Fresh world.revision)
    {result : Result V} {choice : Choice} (hcode : thread.code = .rekey result)
    (hcurrent : world.Current env thread choice) :
    (world.rekeys env id thread result choice).Fresh := by
  have hscope := hthread.scope.readRevisions hthread.floors choice
  have hkeyed := hthread.code
  rw [hcode] at hkeyed
  obtain ⟨⟨under, -, hfresh, hin⟩, hfloors⟩ := hkeyed
  apply h.runs
  refine ⟨hthread.stack.of_scope hscope readRevisions_keeps, hscope, hthread.floors, ?_, hfloors⟩
  intro keyed hmem
  simp only [World.keyOf] at hmem
  split at hmem
  · cases hmem
  · rw [Option.mem_def, Option.map_eq_some_iff] at hmem
    obtain ⟨found, hfound, rfl⟩ := hmem
    rcases readRevisions_answer hfound with ⟨hnone, rfl⟩ | ⟨next, hnext, hread⟩
    · -- Outside a projection the revisions are the ones now.
      exact hcurrent.rekeys result (by simp [Thread.rekeys?, hcode]) (by simp [hnone])
    · -- In one they are the ones the first key was made of.
      obtain ⟨current, hmem, hsame⟩ := readRevisions_keeps next hnext
      have hfirst := hin current hmem
      rw [hsame (by simp [hfirst]), hfirst, Option.some.injEq, Option.some.injEq] at hread
      apply Fresh.under
      exact hread ▸ hfresh

theorem World.Fresh.advance (h : world.Fresh) (hthread : thread.Fresh world.revision)
    {choice : Choice} (hcurrent : world.Current env thread choice) :
    (world.advance env id thread choice).Fresh := by
  unfold World.advance
  split
  · exact h.returns hthread
  · exact h.reads hthread
  · exact h.asksClock hthread
  · next name resume hcode => exact h.readsOnce hthread hcode hcurrent
  · exact h.opens hthread
  · next derivation variant resume hcode => exact h.asks hthread hcode hcurrent
  · exact h.keys hthread
  · next derivation variant resume keyed started hcode => exact h.looksUp hthread hcode hcurrent
  · next result hcode => exact h.rekeys hthread hcode hcurrent
  · next result hcode =>
    have hkept := hthread.code
    rw [hcode] at hkept
    apply (h.keeps hkept.1).delivers _ hkept.2
    rwa [keeps_revision]

theorem commits_revision_le (changes : List (String × V)) :
    world.revision ≤ (world.commits changes).revision := by
  induction changes generalizing world with
  | nil => exact le_refl _
  | cons change changes ih =>
      refine le_trans (fun table => ?_) ih
      simp only [Function.update_apply]
      split
      · next hsame => exact hsame ▸ Nat.le_succ _
      · exact le_refl _

/-- Whatever happens, nothing comes under a key it is older than. -/
theorem World.Fresh.step (h : world.Fresh) {event : Event V}
    (hcurrent : Derivations.Current env world event) : (step env world event).Fresh := by
  cases event with
  | tick elapsed => exact ⟨h.threads, h.cache, h.hits⟩
  | commit changes =>
      refine ⟨fun id thread hthread => ?_, fun entry hentry => ?_, fun hit hhit => ?_⟩
      · rw [Derivations.step, World.commits_eq] at hthread
        exact (h.threads id thread hthread).mono (commits_revision_le changes)
      · rw [Derivations.step, World.commits_eq] at hentry
        exact h.cache entry hentry
      · rw [Derivations.step, World.commits_eq] at hhit
        exact h.hits hit hhit
  | request id process prog =>
      simp only [Derivations.step]
      split
      · apply h.runs
        exact ⟨trivial, fun _ hscope => (by cases hscope), fun _ hfloor => (by cases hfloor),
          trivial⟩
      · exact h
  | advance id choice =>
      simp only [Derivations.step]
      split
      · next thread hthread =>
        exact h.advance (h.threads id thread hthread) (hcurrent thread hthread)
      · exact h
  | raise id => exact h.ends
  | evict index =>
      exact ⟨h.threads, fun entry hentry => h.cache entry (List.mem_of_mem_eraseIdx hentry),
        h.hits⟩

end Statements

/-- What a stored value was computed from is no older than its key, and what a hit
serves no older than the key it was asked by. -/
structure World.KeysHold (env : Environment V) (world : World V) : Prop where
  stored : ∀ entry ∈ world.cache,
    Explains env entry.evidence ((env.derivation entry.derivation).compute entry.variant)
      entry.value ∧ FreshUnder entry.keyed entry.evidence
  served : ∀ hit ∈ world.hits, FreshUnder hit.keyed hit.evidence

/-- In a run whose remembered values are no older than the keys they are used
under, nothing is stored or served under a key it is older than. -/
theorem run_keysHold {env : Environment V} {now : Int} {rows : String → V}
    {revision : String → Nat} {events : List (Event V)}
    (hmeets : Meets (step env) (Current env) (World.start now rows revision) events) :
    (run (step env) (World.start now rows revision) events).KeysHold env := by
  have hstart : (World.start now rows revision).Fresh :=
    ⟨fun _ _ hthread => by simp [World.start] at hthread,
      fun _ hentry => by simp [World.start] at hentry,
      fun _ hhit => by simp [World.start] at hhit⟩
  have hfresh := run_invariant World.Fresh (fun _ _ h hcurrent => h.step hcurrent) hstart hmeets
  refine ⟨fun entry hentry => ⟨?_, hfresh.cache entry hentry⟩, hfresh.hits⟩
  exact (run_explained env now rows revision events).cache entry hentry

/-! ## A list read before the revisions -/

/-- A list of projects read once, and an overview derived from it. -/
def overview : Environment Nat where
  zone := ⟨0, [], Zone.sorted_nil⟩
  loader _ := .read "projects" .ret
  derivation _ := ⟨["projects"], fun _ => .once "projects.all" .ret, false⟩

/-- A request that reads the list and then asks for the overview, in a projection,
with what writers do in between. -/
def listing (writes : List (Event Nat)) : List (Event Nat) :=
  .request 0 0 (.scope false (.once "projects.all" fun _ => .ask "overview" "" .ret) .ret) ::
    List.replicate 4 (.advance 0 .fine) ++ writes ++ List.replicate 9 (.advance 0 .fine) ++
    [.request 1 0 (.ask "overview" "" .ret)] ++ List.replicate 4 (.advance 1 .fine)

theorem listing_keysHold :
    Meets (step overview) (Current overview) (.start 0 (fun _ => 3) fun _ => 0) (listing []) ∧
      ((run (step overview) (.start 0 (fun _ => 3) fun _ => 0) (listing [])).hits.length = 1) ∧
      (run (step overview) (.start 0 (fun _ => 3) fun _ => 0) (listing [])).KeysHold overview :=
  have hmeets : Meets (step overview) (Current overview) (.start 0 (fun _ => 3) fun _ => 0)
      (listing []) := by decide
  ⟨hmeets, by decide, run_keysHold hmeets⟩

/-- A project is written after the list was read and before the revisions are: the
overview of the old list is stored under the new revision, and served. -/
theorem listing_overtaken :
    ¬ (run (step overview) (.start 0 (fun _ => 3) fun _ => 0)
      (listing [.commit [("projects", 7)]])).KeysHold overview := by
  intro h
  have hhits : ∀ hit ∈ (run (step overview) (.start 0 (fun _ => 3) fun _ => 0)
      (listing [.commit [("projects", 7)]])).hits, FreshUnder hit.keyed hit.evidence := h.served
  revert hhits
  decide

end SeverinoHQ.Derivations
