/-
# Answers cover what they rest on

The invariant of `Told`, over whole runs: in any run whose steps `Tells` holds
of, every answer that is remembered, stored or given covers its evidence.
-/

import SeverinoHQ.Derivations.Told

namespace SeverinoHQ.Derivations

open SeverinoHQ.Math

variable {V : Type}

/-! ## The condition -/

/-- The remembered read a thread is about to use. -/
def Thread.recalls? (thread : Thread V) : Option (Memo V) :=
  match thread.code with
  | .run (.once name _) => thread.scope.bind fun scope => scope.find? (.read name)
  | _ => none

/-- The cached answer a thread is about to be served. -/
def World.served? (env : Environment V) (world : World V) (thread : Thread V) (choice : Choice) :
    Option (Entry V) :=
  match thread.code with
  | .lookup derivation variant _ keyed _ => world.stored? env derivation variant choice keyed
  | _ => none

/-- The moment the derivation in progress is about to be held until. -/
def World.tells? (env : Environment V) (world : World V) (thread : Thread V) (choice : Choice) :
    Option Aware :=
  match thread.code with
  | .run (.ret _) =>
      match thread.stack with
      | .computing frame :: _ =>
          if (env.derivation frame.derivation).unseen then some (unseenBound env.zone world.now)
          else none
      | _ => none
  | .run (.clock question _) => question.boundary env.zone world.now
  | .run (.ask derivation variant _) =>
      (thread.scope.bind fun scope => scope.find? (.answer derivation variant)).bind Memo.expires
  | .lookup derivation variant _ keyed _ =>
      (world.stored? env derivation variant choice keyed).bind Entry.expires
  | .keep result => result.expires
  | _ => none

/-- A step after which the derivation in progress covers what it has used. -/
structure World.Tells (env : Environment V) (matters : Item V → Bool) (world : World V)
    (thread : Thread V) (choice : Choice) : Prop where
  /-- A remembered read was loaded since the derivation in progress began, or
  rests on nothing the derivation does not cover already. -/
  recalls : ∀ memo ∈ thread.recalls?, ∀ frame ∈ frame? thread.stack,
    frame.started ≤ memo.loaded ∨ frame.covers env matters memo.evidence
  /-- A cached answer read only tables the process keys the derivation on. -/
  serves : ∀ entry ∈ world.served? env thread choice,
    Covers env (fun item => matters item && item.isRead) none
      (world.tables env thread.process entry.derivation) entry.evidence
  /-- The moments compared are in the order of time. -/
  tells : ∀ moment ∈ world.tells? env thread choice, ∀ frame ∈ frame? thread.stack,
    frame.Takes env.zone moment

instance (env : Environment V) (matters : Item V → Bool) (world : World V) (thread : Thread V)
    (choice : Choice) : Decidable (world.Tells env matters thread choice) :=
  decidable_of_iff
    ((∀ memo ∈ thread.recalls?, ∀ frame ∈ frame? thread.stack,
        frame.started ≤ memo.loaded ∨ frame.covers env matters memo.evidence) ∧
      (∀ entry ∈ world.served? env thread choice,
        Covers env (fun item => matters item && item.isRead) none
          (world.tables env thread.process entry.derivation) entry.evidence) ∧
      ∀ moment ∈ world.tells? env thread choice, ∀ frame ∈ frame? thread.stack,
        frame.Takes env.zone moment)
    ⟨fun h => ⟨h.1, h.2.1, h.2.2⟩, fun h => ⟨h.recalls, h.serves, h.tells⟩⟩

/-- The condition, of an event. -/
def Tells (env : Environment V) (matters : Item V → Bool) (world : World V) : Event V → Prop
  | .advance id choice => ∀ thread ∈ world.threads id, world.Tells env matters thread choice
  | _ => True

instance (env : Environment V) (matters : Item V → Bool) (world : World V) :
    (event : Event V) → Decidable (Tells env matters world event)
  | .advance id _ => inferInstanceAs (Decidable (∀ thread ∈ world.threads id, _))
  | .tick _ | .commit _ | .request _ _ _ | .raise _ | .evict _ => inferInstanceAs (Decidable True)

/-! ## The invariant -/

/-- From when on what a thread remembers is not yet its derivation's to cover. -/
def Code.since (serial : Nat) : Code V → Nat
  | .run _ => serial
  | .key _ _ _ started | .lookup _ _ _ _ started => started
  | .rekey result | .keep result => result.started

/-- What a thread has in hand is covered, `known` being the tables its process
keys each derivation on. -/
structure Thread.Told (env : Environment V) (matters : Item V → Bool) (serial : Nat)
    (known : String → List String) (thread : Thread V) : Prop where
  stack : Covered env matters known thread.memos (thread.code.since serial) thread.stack
  since : thread.code.since serial ≤ serial
  loaded : ∀ entry ∈ thread.memos, entry.2.loaded < serial
  /-- What was remembered since is covered by the answer being given. -/
  late : ∀ name memo, (.read name, memo) ∈ thread.memos → thread.code.since serial ≤ memo.loaded →
    ∃ result ∈ thread.code.result?,
      Covers env matters result.expires (known result.derivation) memo.evidence
  answers : ∀ derivation variant memo, (.answer derivation variant, memo) ∈ thread.memos →
    Covers env matters memo.expires (known derivation) memo.evidence
  result : ∀ result ∈ thread.code.result?,
    Covers env matters result.expires (known result.derivation) result.evidence

/-- Every thread, every stored answer and every answer given is covered. -/
structure World.Told (env : Environment V) (matters : Item V → Bool) (world : World V) : Prop where
  threads : ∀ id thread, world.threads id = some thread →
    thread.Told env matters world.serial (world.tables env thread.process)
  cache : ∀ entry ∈ world.cache,
    Covers env (fun item => matters item && !item.isRead) entry.expires [] entry.evidence
  answered : ∀ answer ∈ world.answered, Covers env matters answer.expires
    (world.tables env answer.process answer.derivation) answer.evidence

section Threads

variable {env : Environment V} {matters : Item V → Bool} {serial : Nat}
  {known : String → List String} {thread next : Thread V}

/-- With no answer in hand, whatever is remembered was there before. -/
theorem Thread.Told.loaded_lt (h : thread.Told env matters serial known)
    (hresult : thread.code.result? = none) {name : String} {memo : Memo V}
    (hmemo : (.read name, memo) ∈ thread.memos) : memo.loaded < thread.code.since serial := by
  by_contra hlate
  obtain ⟨result, hmem, -⟩ := h.late name memo hmemo (not_lt.mp hlate)
  simp [hresult] at hmem

/-- What others do leaves a thread as it is. -/
theorem Thread.Told.mono {later : Nat} {further : String → List String}
    (h : thread.Told env matters serial known) (hle : serial ≤ later)
    (hfurther : ∀ derivation, known derivation ⊆ further derivation) :
    thread.Told env matters later further where
  stack := by
    apply Covered.learned _ hfurther
    cases hcode : thread.code with
    | run prog =>
        have hstack := h.stack
        have hearly : ∀ name memo, (.read name, memo) ∈ thread.memos →
            memo.loaded < thread.code.since serial := fun name memo hmemo =>
          h.loaded_lt (by rw [hcode]; rfl) hmemo
        rw [hcode] at hstack hearly
        exact hstack.raise hle fun name memo hmemo => .inl ⟨hmemo, hearly name memo hmemo⟩
    | key _ _ _ _ | lookup _ _ _ _ _ | rekey _ | keep _ => simpa [hcode, Code.since] using h.stack
  since := by
    have hsince := h.since
    cases hcode : thread.code with
    | run prog => exact le_refl _
    | key _ _ _ _ | lookup _ _ _ _ _ | rekey _ | keep _ =>
        rw [hcode] at hsince
        exact Nat.le_trans hsince hle
  loaded entry hentry := (h.loaded entry hentry).trans_le hle
  late name memo hmemo hlate := by
    have hsince : thread.code.since serial ≤ thread.code.since later := by
      cases thread.code <;> first | exact hle | exact le_refl _
    obtain ⟨result, hresult, hcovers⟩ := h.late name memo hmemo (hsince.trans hlate)
    exact ⟨result, hresult, hcovers.mono_tables (hfurther _)⟩
  answers derivation variant memo hmemo :=
    (h.answers derivation variant memo hmemo).mono_tables (hfurther _)
  result result hresult := (h.result result hresult).mono_tables (hfurther _)

/-- A thread that goes on with nothing new to remember and no answer to give. -/
theorem Thread.Told.goesOn (h : thread.Told env matters serial known)
    (hresult : thread.code.result? = none)
    (hstack : Covered env matters known thread.memos (next.code.since (serial + 1)) next.stack)
    (hmemos : next.memos ⊆ thread.memos) (hnext : next.code.result? = none)
    (hsince : thread.code.since serial ≤ next.code.since (serial + 1))
    (hle : next.code.since (serial + 1) ≤ serial + 1) :
    next.Told env matters (serial + 1) known where
  stack := hstack.congr fun name memo hmemo _ => hmemos hmemo
  since := hle
  loaded entry hentry := (h.loaded entry (hmemos hentry)).trans (Nat.lt_succ_self _)
  late name memo hmemo hlate := by
    have := h.loaded_lt hresult (hmemos hmemo)
    omega
  answers derivation variant memo hmemo := h.answers derivation variant memo (hmemos hmemo)
  result result hmem := by simp [hnext] at hmem

/-- A thread that goes on to run code. -/
theorem Thread.Told.runsOn (h : thread.Told env matters serial known)
    (hresult : thread.code.result? = none)
    (hstack : Covered env matters known thread.memos (thread.code.since serial) next.stack)
    (hmemos : next.memos ⊆ thread.memos) {prog : Prog V} (hnext : next.code = .run prog) :
    next.Told env matters (serial + 1) known := by
  have hle : thread.code.since serial ≤ serial + 1 := h.since.trans (Nat.le_succ _)
  apply h.goesOn hresult _ hmemos
  · rw [hnext]
    rfl
  · rw [hnext]
    exact hle
  · rw [hnext]
    exact le_refl _
  · rw [hnext]
    exact hstack.raise hle fun name memo hmemo => .inl ⟨hmemo, h.loaded_lt hresult hmemo⟩

/-- A derivation that begins: nothing was remembered since it was asked for, so it
has nothing to cover yet. -/
theorem Thread.Told.begins (h : thread.Told env matters serial known)
    (hresult : thread.code.result? = none) {frame : Frame V}
    (hstarted : frame.started = thread.code.since serial)
    (htables : frame.tables ⊆ known frame.derivation) (hevidence : frame.evidence = []) :
    Covered env matters known thread.memos (serial + 1) (.computing frame :: thread.stack) := by
  refine ⟨?_, htables, ?_, ?_, ?_⟩
  · rw [hstarted]
    exact Nat.lt_succ_of_le h.since
  · rw [hevidence]
    exact covers_nil
  · intro name memo hmemo hloaded _
    rw [hstarted] at hloaded
    exact absurd (h.loaded_lt hresult hmemo) (not_lt.mpr hloaded)
  · rw [hstarted]
    exact h.stack

end Threads

/-! ## Statements -/

section Statements

variable {env : Environment V} {matters : Item V → Bool} {world : World V} {id : Nat}
  {thread next : Thread V}

theorem mem_tables {process : Nat} {derivation table : String} :
    table ∈ world.tables env process derivation ↔
      table ∈ (env.derivation derivation).declared ∨ table ∈ world.learned process derivation := by
  simp [World.tables, List.mem_insertionSort]

theorem mem_tables_learns {process other : Nat} {derivation asked table : String}
    {new : List String} :
    table ∈ (world.learns process derivation new).tables env other asked ↔
      table ∈ world.tables env other asked ∨
        (other = process ∧ asked = derivation ∧ table ∈ new) := by
  rw [mem_tables, mem_tables]
  simp only [World.learns, Function.update_apply]
  by_cases hother : other = process
  · by_cases hasked : asked = derivation
    · subst hother hasked
      simp [or_assoc]
    · simp [hother, hasked]
  · simp [hother]

theorem World.Told.runs (h : world.Told env matters)
    (hnext : next.Told env matters (world.serial + 1) (world.tables env next.process)) :
    (world.runs id next).Told env matters := by
  refine ⟨fun other thread hthread => ?_, h.cache, h.answered⟩
  simp only [World.runs, Function.update_apply] at hthread
  by_cases hid : other = id
  · rw [if_pos hid, Option.some.injEq] at hthread
    exact hthread ▸ hnext
  · rw [if_neg hid] at hthread
    exact (h.threads other thread hthread).mono (Nat.le_succ _) fun _ => List.Subset.refl _

theorem World.Told.ends (h : world.Told env matters) : (world.ends id).Told env matters := by
  refine ⟨fun other thread hthread => ?_, h.cache, h.answered⟩
  simp only [World.ends, Function.update_apply] at hthread
  by_cases hid : other = id
  · rw [if_pos hid] at hthread
    cases hthread
  · rw [if_neg hid] at hthread
    exact (h.threads other thread hthread).mono (Nat.le_succ _) fun _ => List.Subset.refl _

theorem World.Told.learns (h : world.Told env matters) (process : Nat) (derivation : String)
    (new : List String) : (world.learns process derivation new).Told env matters := by
  refine ⟨fun other thread hthread => ?_, h.cache, fun answer hanswer => ?_⟩
  · apply (h.threads other thread hthread).mono (le_refl _)
    exact fun asked table htable => mem_tables_learns.mpr (.inl htable)
  · apply (h.answered answer hanswer).mono_tables
    exact fun table htable => mem_tables_learns.mpr (.inl htable)

theorem World.Told.gives (h : world.Told env matters) {process : Nat} {derivation : String}
    {expires : Option Aware} {evidence : List (Item V)}
    (hcovers : Covers env matters expires (world.tables env process derivation) evidence) :
    (world.gives process derivation expires evidence).Told env matters := by
  refine ⟨h.threads, h.cache, fun answer hanswer => ?_⟩
  rcases List.mem_append.mp hanswer with hanswer | hanswer
  · exact h.answered answer hanswer
  · obtain rfl := List.mem_singleton.mp hanswer
    exact hcovers

theorem World.Told.serves (h : world.Told env matters) {keyed : Keyed} {evidence : List (Item V)} :
    (world.serves keyed evidence).Told env matters :=
  ⟨h.threads, h.cache, h.answered⟩

/-- The thread a step is about, as the invariant has it. -/
abbrev World.ToldThread (env : Environment V) (matters : Item V → Bool) (world : World V)
    (thread : Thread V) : Prop :=
  thread.Told env matters world.serial (world.tables env thread.process)

theorem World.Told.reads (h : world.Told env matters) (hthread : world.ToldThread env matters thread)
    {table : String} {resume : V → Prog V} (hcode : thread.code = .run (.read table resume)) :
    (world.reads id thread table resume).Told env matters := by
  have hstack := hthread.stack
  apply h.runs
  apply hthread.runsOn (by rw [hcode]; rfl) _ _ rfl
  · apply (hstack.note table).collect
    intro frame hframe
    rw [frame?_note, Option.mem_def, Option.map_eq_some_iff] at hframe
    obtain ⟨frame, -, rfl⟩ := hframe
    exact Frame.covers_of_note table _ _
  · exact memos_subset_of_scope rfl (by simp)

theorem World.Told.asksClock (h : world.Told env matters)
    (hthread : world.ToldThread env matters thread) {question : Question}
    {resume : Reading → Prog V} {choice : Choice}
    (hcode : thread.code = .run (.clock question resume))
    (htells : world.Tells env matters thread choice) :
    (world.asksClock env id thread question resume).Told env matters := by
  have hstack := hthread.stack
  have htakes : ∀ frame ∈ frame? thread.stack,
      ∀ moment ∈ question.boundary env.zone world.now, frame.Takes env.zone moment := by
    intro frame hframe moment hmoment
    exact htells.tells moment (by simpa [World.tells?, hcode] using hmoment) frame hframe
  unfold World.asksClock
  split
  · exact h.ends
  · apply h.runs
    apply hthread.runsOn (by rw [hcode]; rfl) _ _ rfl
    · have hamended := hstack.amend fun frame hframe =>
        ⟨frame.holdUntil?_sameCall env.zone (question.boundary env.zone world.now),
          fun items hitems => hitems.holdUntil? (htakes frame hframe)⟩
      apply hamended.collect
      intro frame hframe item hitem _
      rw [frame?_amend, Option.mem_def, Option.map_eq_some_iff] at hframe
      obtain ⟨frame, hframe, rfl⟩ := hframe
      obtain rfl := List.mem_singleton.mp hitem
      exact (Frame.holdUntil?_noLater (htakes frame hframe)).1
    · exact memos_subset_of_scope rfl (by simp)

theorem World.Told.readsOnce (h : world.Told env matters)
    (hthread : world.ToldThread env matters thread) {name : String} {resume : V → Prog V}
    {choice : Choice} (hcode : thread.code = .run (.once name resume))
    (htells : world.Tells env matters thread choice) :
    (world.readsOnce env id thread name resume).Told env matters := by
  have hstack := hthread.stack
  have hrun : thread.code.result? = none := by rw [hcode]; rfl
  unfold World.readsOnce
  split
  · apply h.runs
    apply hthread.runsOn hrun _ _ rfl
    · exact hstack
    · exact memos_subset_of_scope rfl (List.Subset.refl _)
  · next scope hscope =>
    split
    · next memo hmemo =>
      apply h.runs
      apply hthread.runsOn hrun _ _ rfl
      · apply hstack.collect
        intro frame hframe
        have hrecalls : memo ∈ thread.recalls? := by
          simp [Thread.recalls?, hcode, hscope, hmemo]
        rcases htells.recalls memo hrecalls frame hframe with hloaded | hcovers
        · -- Loaded since the derivation began, so the derivation covers it already.
          have hmem := mem_memos.mpr (.inl ⟨scope, hscope, Scope.mem_of_find? hmemo⟩)
          exact hstack.covers_loaded hframe hmem hloaded (hthread.loaded_lt hrun hmem)
        · exact hcovers
      · exact memos_subset_of_scope rfl (by simp)
    · apply h.runs
      apply hthread.runsOn hrun _ _ rfl
      · exact ⟨fun frame _ => covers_nil, hstack⟩
      · exact memos_subset_of_scope rfl (List.Subset.refl _)

theorem World.Told.opens (h : world.Told env matters) (hthread : world.ToldThread env matters thread)
    {apart : Bool} {body : Prog V} {resume : V → Prog V}
    (hcode : thread.code = .run (.scope apart body resume)) :
    (world.opens id thread apart body resume).Told env matters := by
  have hrun : thread.code.result? = none := by rw [hcode]; rfl
  unfold World.opens
  split
  · apply h.runs
    apply hthread.runsOn hrun _ _ rfl
    · exact hthread.stack
    · exact memos_subset_of_scope rfl (List.Subset.refl _)
  · apply h.runs
    apply hthread.runsOn hrun _ _ rfl
    · exact hthread.stack
    · exact memos_subset_of_open resume rfl rfl

/-- A derivation told of an answer covers the answer's evidence and its expiry. -/
theorem Covered.answered {known : String → List String} {memos : List (MemoName × Memo V)}
    {before : Nat} {stack : List (Activation V)} {tables : List String} {expires : Option Aware}
    {evidence : List (Item V)}
    (h : Covered env matters known memos before
      (Derivations.amend (Frame.told env.zone tables expires) stack))
    (htakes : ∀ frame ∈ frame? stack, ∀ moment ∈ expires, frame.Takes env.zone moment)
    (hcovers : Covers env matters expires tables evidence) :
    Covered env matters known memos before (Derivations.collect (evidence ++ expiryItems expires)
      (Derivations.amend (Frame.told env.zone tables expires) stack)) := by
  apply h.collect
  intro frame hframe
  rw [frame?_amend, Option.mem_def, Option.map_eq_some_iff] at hframe
  obtain ⟨frame, hframe, rfl⟩ := hframe
  exact Frame.covers_of_told (htakes frame hframe)
    (covers_append.mpr ⟨hcovers, covers_expiryItems⟩)

/-- Telling takes nothing from what the derivations in progress cover. -/
theorem Covered.told {known : String → List String} {memos : List (MemoName × Memo V)}
    {before : Nat} {stack : List (Activation V)} {tables : List String} {expires : Option Aware}
    (h : Covered env matters known memos before stack)
    (htakes : ∀ frame ∈ frame? stack, ∀ moment ∈ expires, frame.Takes env.zone moment) :
    Covered env matters known memos before
      (Derivations.amend (Frame.told env.zone tables expires) stack) :=
  h.amend fun frame hframe => ⟨frame.told_sameCall _ _ _,
    fun _ hitems => hitems.told (htakes frame hframe)⟩

theorem World.Told.asks (h : world.Told env matters) (hthread : world.ToldThread env matters thread)
    {derivation variant : String} {resume : V → Prog V} {choice : Choice}
    (hcode : thread.code = .run (.ask derivation variant resume))
    (htells : world.Tells env matters thread choice) :
    (world.asks env id thread derivation variant resume).Told env matters := by
  have hstack := hthread.stack
  have hrun : thread.code.result? = none := by rw [hcode]; rfl
  unfold World.asks
  split
  · split
    · next memo hmemo =>
      obtain ⟨scope, hscope, hfind⟩ := Option.bind_eq_some_iff.mp hmemo
      have hmem := mem_memos.mpr (.inl ⟨scope, hscope, Scope.mem_of_find? hfind⟩)
      have hcovers := hthread.answers derivation variant memo hmem
      have htakes : ∀ frame ∈ frame? thread.stack, ∀ moment ∈ memo.expires,
          frame.Takes env.zone moment := by
        intro frame hframe moment hmoment
        apply htells.tells moment _ frame hframe
        simpa [World.tells?, hcode, hmemo] using hmoment
      apply (h.gives hcovers).runs
      apply hthread.runsOn hrun _ _ rfl
      · exact (hstack.told htakes).answered htakes hcovers
      · exact memos_subset_of_scope rfl (by simp)
    · apply h.runs
      rw [hcode] at hstack
      apply hthread.goesOn hrun _ _ rfl _ (Nat.le_succ _)
      · exact hstack
      · exact memos_subset_of_scope rfl (List.Subset.refl _)
      · exact hthread.since
  · exact h.ends

theorem World.Told.delivers (h : world.Told env matters)
    (hthread : world.ToldThread env matters thread) {result : Result V}
    (hsince : thread.code.since world.serial = result.started)
    (hcovers : Covers env matters result.expires
      (world.tables env thread.process result.derivation) result.evidence)
    (hlate : ∀ name memo, (.read name, memo) ∈ thread.memos → result.started ≤ memo.loaded →
      Covers env matters result.expires (world.tables env thread.process result.derivation)
        memo.evidence)
    (htakes : ∀ frame ∈ frame? thread.stack, ∀ moment ∈ result.expires,
      frame.Takes env.zone moment) :
    (world.delivers env id thread result).Told env matters := by
  have hbefore : result.started ≤ world.serial := hsince ▸ hthread.since
  have hstack := hthread.stack
  rw [hsince] at hstack
  apply (h.gives hcovers).runs
  refine ⟨?_, le_refl _, ?_, ?_, ?_, fun other hother => by simp [Code.result?] at hother⟩
  · apply Covered.answered _ htakes hcovers
    apply (hstack.told htakes).raise (hbefore.trans (Nat.le_succ _))
    intro name memo hmemo
    rcases mem_memos_store rfl (by simp) hmemo with hmemo | hmemo
    · by_cases hloaded : memo.loaded < result.started
      · exact .inl ⟨hmemo, hloaded⟩
      · refine .inr ⟨not_lt.mp hloaded, fun frame hframe => ?_⟩
        rw [frame?_amend, Option.mem_def, Option.map_eq_some_iff] at hframe
        obtain ⟨frame, hframe, rfl⟩ := hframe
        exact Frame.covers_of_told (htakes frame hframe)
          (hlate name memo hmemo (not_lt.mp hloaded))
    · cases hmemo
  · intro entry hentry
    rcases mem_memos_store rfl (by simp) hentry with hentry | rfl
    · exact (hthread.loaded entry hentry).trans (Nat.lt_succ_self _)
    · exact Nat.lt_succ_self _
  · intro name memo hmemo hloaded
    rcases mem_memos_store rfl (by simp) hmemo with hmemo | hmemo
    · have hbound : memo.loaded < world.serial := hthread.loaded _ hmemo
      have hloaded : world.serial + 1 ≤ memo.loaded := hloaded
      omega
    · cases hmemo
  · intro derivation variant memo hmemo
    rcases mem_memos_store rfl (by simp) hmemo with hmemo | hmemo
    · exact hthread.answers derivation variant memo hmemo
    · cases hmemo
      exact hcovers

theorem World.Told.computed (h : world.Told env matters)
    (hthread : world.ToldThread env matters thread) {frame : Frame V} {rest : List (Activation V)}
    {value : V} {choice : Choice} (hcode : thread.code = .run (.ret value))
    (hrest : thread.stack = .computing frame :: rest)
    (htells : world.Tells env matters thread choice) :
    (world.computed env id thread frame rest value).Told env matters := by
  have hstack := hthread.stack
  rw [hcode, hrest] at hstack
  obtain ⟨hstarted, htables, hevidence, hmemos, hbelow⟩ := hstack
  unfold World.computed
  extract_lets held new result
  have hfurther : ∀ derivation, world.tables env thread.process derivation ⊆
      (world.learns thread.process frame.derivation new).tables env thread.process derivation :=
    fun derivation table htable => mem_tables_learns.mpr (.inl htable)
  -- What the frame was seen to read is declared, known or learned now.
  have hread : frame.tables ++ frame.undeclared ⊆
      (world.learns thread.process frame.derivation new).tables env thread.process
        frame.derivation := by
    intro table htable
    rw [mem_tables_learns]
    by_cases hknown : table ∈ world.tables env thread.process frame.derivation
    · exact .inl hknown
    · rcases List.mem_append.mp htable with hdeclared | hundeclared
      · exact absurd (htables hdeclared) hknown
      · exact .inr ⟨rfl, rfl, by simp [new, hundeclared, hknown]⟩
  have hheld : ∀ moment ∈ frame.expires, NoLater env.zone held.expires moment := by
    intro moment hmoment
    by_cases hunseen : (env.derivation frame.derivation).unseen = true
    · simp only [held, hunseen, if_true]
      apply (Frame.holdUntil_noLater _).2 moment hmoment
      apply htells.tells _ _ frame (by rw [hrest]; rfl)
      simp [World.tells?, hcode, hrest, hunseen]
    · simp only [held, hunseen]
      exact ⟨moment, hmoment, le_refl _⟩
  have hcovers : ∀ items, frame.covers env matters items → Covers env matters result.expires
      ((world.learns thread.process frame.derivation new).tables env thread.process
        result.derivation) items := fun items hitems => hitems.mono hheld hread
  have hafter : ∀ code : Code V, code.result? = some result →
      code.since (world.serial + 1) = result.started →
      Thread.Told env matters (world.serial + 1)
        ((world.learns thread.process frame.derivation new).tables env thread.process)
        { thread with code := code, stack := rest } := by
    intro code hresult hsince
    have hsubset : Thread.memos { thread with code := code, stack := rest } ⊆ thread.memos :=
      memos_subset_of_scope rfl (by simp [hrest, savedScopes])
    refine ⟨?_, ?_, ?_, ?_, ?_, ?_⟩
    · show Covered _ _ _ _ (code.since _) rest
      rw [hsince]
      exact (hbelow.learned hfurther).congr fun name memo hmemo _ => hsubset hmemo
    · show code.since _ ≤ _
      rw [hsince]
      exact hstarted.le.trans (Nat.le_succ _)
    · exact fun entry hentry =>
        (hthread.loaded entry (hsubset hentry)).trans (Nat.lt_succ_self _)
    · intro name memo hmemo hloaded
      refine ⟨result, hresult, hcovers _ ?_⟩
      have hloaded : code.since (world.serial + 1) ≤ memo.loaded := hloaded
      rw [hsince] at hloaded
      exact hmemos name memo (hsubset hmemo) hloaded (hthread.loaded _ (hsubset hmemo))
    · exact fun derivation variant memo hmemo =>
        (hthread.answers derivation variant memo (hsubset hmemo)).mono_tables (hfurther _)
    · intro other hother
      have hother : code.result? = some other := hother
      obtain rfl := Option.some.inj (hresult.symm.trans hother)
      exact hcovers _ hevidence
  apply (h.learns thread.process frame.derivation new).runs
  apply hafter
  · split <;> rfl
  · split <;> rfl

theorem World.Told.returns (h : world.Told env matters)
    (hthread : world.ToldThread env matters thread) {value : V} {choice : Choice}
    (hcode : thread.code = .run (.ret value)) (htells : world.Tells env matters thread choice) :
    (world.returns env id thread value).Told env matters := by
  have hstack := hthread.stack
  have hrun : thread.code.result? = none := by rw [hcode]; rfl
  unfold World.returns
  split
  · exact h.ends
  · next name resume evidence rest hrest =>
    rw [hcode, hrest] at hstack
    have hearly : ∀ other memo, (.read other, memo) ∈ thread.memos →
        memo.loaded < thread.code.since world.serial :=
      fun _ _ hmemo => hthread.loaded_lt hrun hmemo
    rw [hcode] at hearly
    apply h.runs
    refine ⟨?_, le_refl _, ?_, ?_, ?_, fun other hother => by simp [Code.result?] at hother⟩
    · apply Covered.collect _ hstack.1
      apply hstack.2.raise (Nat.le_succ _)
      intro other memo hmemo
      rcases mem_memos_store rfl (by simp [hrest, savedScopes]) hmemo with hmemo | hmemo
      · exact .inl ⟨hmemo, hearly other memo hmemo⟩
      · cases hmemo
        exact .inr ⟨le_refl _, hstack.1⟩
    · intro entry hentry
      rcases mem_memos_store rfl (by simp [hrest, savedScopes]) hentry with hentry | rfl
      · exact (hthread.loaded entry hentry).trans (Nat.lt_succ_self _)
      · exact Nat.lt_succ_self _
    · intro other memo hmemo hloaded
      have hloaded : world.serial + 1 ≤ memo.loaded := hloaded
      rcases mem_memos_store rfl (by simp [hrest, savedScopes]) hmemo with hmemo | hmemo
      · have hbound : memo.loaded < world.serial := hthread.loaded _ hmemo
        omega
      · cases hmemo
        exact absurd hloaded (Nat.not_succ_le_self _)
    · intro derivation variant memo hmemo
      rcases mem_memos_store rfl (by simp [hrest, savedScopes]) hmemo with hmemo | hmemo
      · exact hthread.answers derivation variant memo hmemo
      · cases hmemo
  · next saved resume rest hrest =>
    rw [hrest] at hstack
    apply h.runs
    apply hthread.runsOn hrun _ _ rfl
    · exact hstack
    · exact memos_subset_of_close hrest rfl rfl
  · next frame rest hrest => exact h.computed hthread hcode hrest htells

theorem World.Told.computes (h : world.Told env matters)
    (hthread : world.ToldThread env matters thread) {derivation variant : String}
    {resume : V → Prog V} {keyed : Option Keyed} {started : Nat}
    (hcode : thread.code = .lookup derivation variant resume keyed started) :
    (world.computes env id thread derivation variant resume keyed started).Told env matters := by
  have hrun : thread.code.result? = none := by rw [hcode]; rfl
  have hle : thread.code.since world.serial ≤ world.serial + 1 :=
    hthread.since.trans (Nat.le_succ _)
  have hbegins := fun learns => hthread.begins hrun
    (show Frame.started ⟨derivation, variant, resume, keyed,
      world.tables env thread.process derivation, learns, none, [], [], started⟩ = _ by
        rw [hcode]; rfl)
    (List.Subset.refl _) rfl
  unfold World.computes
  dsimp only
  split
  · apply h.runs
    apply hthread.goesOn hrun _ _ rfl
    · exact hle
    · exact le_refl _
    · exact hbegins _
    · apply memos_subset_of_open .ret rfl
      cases thread.scope <;> rfl
  · apply h.runs
    apply hthread.goesOn hrun _ _ rfl
    · exact hle
    · exact le_refl _
    · exact hbegins _
    · exact memos_subset_of_scope rfl (List.Subset.refl _)

theorem World.Told.keeps (h : world.Told env matters) {result : Result V} {choice : Choice}
    {tables : List String} (hcovers : Covers env matters result.expires tables result.evidence) :
    (world.keeps env result choice).Told env matters := by
  unfold World.keeps
  split
  · exact h
  · split
    · exact h
    · refine ⟨h.threads, fun entry hentry => ?_, h.answered⟩
      rcases List.mem_cons.mp hentry with rfl | hentry
      · exact hcovers.expiring
      · exact h.cache entry (List.mem_filter.mp hentry).1

theorem keeps_serial (result : Result V) (choice : Choice) :
    (world.keeps env result choice).serial = world.serial := by
  unfold World.keeps
  split
  · rfl
  · split <;> rfl

theorem keeps_tables (result : Result V) (choice : Choice) :
    World.tables env (world.keeps env result choice) = World.tables env world := by
  unfold World.keeps
  split
  · rfl
  · split <;> rfl

theorem World.Told.keys (h : world.Told env matters) (hthread : world.ToldThread env matters thread)
    {derivation variant : String} {resume : V → Prog V} {started : Nat} {choice : Choice}
    (hcode : thread.code = .key derivation variant resume started) :
    (world.keys env id thread derivation variant resume started choice).Told env matters := by
  have hstack := hthread.stack
  have hsince := hthread.since
  rw [hcode] at hstack hsince
  apply h.runs
  apply hthread.goesOn (by rw [hcode]; rfl) _ _ rfl
  · rw [hcode]
    exact le_refl started
  · exact Nat.le_trans hsince (Nat.le_succ _)
  · exact hstack
  · exact memos_subset_of_scope (memo_readRevisions _ _ _) (List.Subset.refl _)

theorem World.Told.looksUp (h : world.Told env matters)
    (hthread : world.ToldThread env matters thread) {derivation variant : String}
    {resume : V → Prog V} {keyed : Option Keyed} {started : Nat} {choice : Choice}
    (hcode : thread.code = .lookup derivation variant resume keyed started)
    (htells : world.Tells env matters thread choice) :
    (world.looksUp env id thread derivation variant resume keyed started choice).Told env
      matters := by
  unfold World.looksUp
  split
  · next under entry hentry =>
    obtain ⟨hmem, hunder⟩ := World.mem_of_stored? hentry
    simp only [Entry.isUnder, Bool.and_eq_true, beq_iff_eq] at hunder
    have hserved : entry ∈ world.served? env thread choice := by
      simp [World.served?, hcode, hentry]
    have hcovers := (h.cache entry hmem).withReads (htells.serves entry hserved)
    rw [hunder.1.1] at hcovers
    apply h.serves.delivers hthread
    · rw [hcode]
      rfl
    · exact hcovers
    · intro name memo hmemo hloaded
      have hearly := hthread.loaded_lt (by rw [hcode]; rfl) hmemo
      rw [hcode] at hearly
      exact absurd hearly (not_lt.mpr hloaded)
    · intro frame hframe moment hmoment
      apply htells.tells moment _ frame hframe
      simpa [World.tells?, hcode, hentry] using hmoment
  · exact h.computes hthread hcode

theorem World.Told.rekeys (h : world.Told env matters)
    (hthread : world.ToldThread env matters thread) {result : Result V} {choice : Choice}
    (hcode : thread.code = .rekey result) :
    (world.rekeys env id thread result choice).Told env matters := by
  have hsubset : ∀ code : Code V, Thread.memos { thread with
      scope := (world.readRevisions thread.scope choice).1, code := code } ⊆ thread.memos :=
    fun code => memos_subset_of_scope (memo_readRevisions _ _ _) (List.Subset.refl _)
  obtain ⟨hstack, hsince, hloaded, hlate, hanswers, hresult⟩ := hthread
  rw [hcode] at hstack hsince hlate hresult
  apply h.runs
  refine ⟨?_, ?_, ?_, ?_, ?_, ?_⟩
  · exact hstack.congr fun name memo hmemo _ => hsubset _ hmemo
  · exact Nat.le_trans hsince (Nat.le_succ _)
  · exact fun entry hentry => (hloaded entry (hsubset _ hentry)).trans (Nat.lt_succ_self _)
  · intro name memo hmemo hle
    obtain ⟨other, hother, hcovers⟩ := hlate name memo (hsubset _ hmemo) hle
    obtain rfl := Option.some.inj hother
    exact ⟨_, rfl, hcovers⟩
  · exact fun derivation variant memo hmemo => hanswers derivation variant memo (hsubset _ hmemo)
  · rintro other hother
    obtain rfl := Option.some.inj hother
    exact hresult result rfl

theorem World.Told.advance (h : world.Told env matters)
    (hthread : world.ToldThread env matters thread) {choice : Choice}
    (htells : world.Tells env matters thread choice) :
    (world.advance env id thread choice).Told env matters := by
  unfold World.advance
  split
  · next value hcode => exact h.returns hthread hcode htells
  · next table resume hcode => exact h.reads hthread hcode
  · next question resume hcode => exact h.asksClock hthread hcode htells
  · next name resume hcode => exact h.readsOnce hthread hcode htells
  · next apart body resume hcode => exact h.opens hthread hcode
  · next derivation variant resume hcode => exact h.asks hthread hcode htells
  · next derivation variant resume started hcode => exact h.keys hthread hcode
  · next derivation variant resume keyed started hcode => exact h.looksUp hthread hcode htells
  · next result hcode => exact h.rekeys hthread hcode
  · next result hcode =>
    have hcovers := hthread.result result (by simp [hcode, Code.result?])
    apply (h.keeps hcovers).delivers
    · simpa only [World.ToldThread, keeps_serial, keeps_tables] using hthread
    · rw [hcode]
      rfl
    · simpa only [keeps_tables] using hcovers
    · intro name memo hmemo hloaded
      obtain ⟨other, hother, hlate⟩ := hthread.late name memo hmemo (by rwa [hcode])
      rw [hcode] at hother
      obtain rfl := Option.some.inj hother
      simpa only [keeps_tables] using hlate
    · intro frame hframe moment hmoment
      apply htells.tells moment _ frame hframe
      simpa [World.tells?, hcode] using hmoment

theorem commits_tables (changes : List (String × V)) :
    World.tables env (world.commits changes) = World.tables env world := by
  unfold World.tables
  rw [World.commits_eq]

/-- Whatever happens, everything in hand stays covered. -/
theorem World.Told.step (h : world.Told env matters) {event : Event V}
    (htells : Derivations.Tells env matters world event) : (step env world event).Told env matters := by
  cases event with
  | tick elapsed => exact ⟨h.threads, h.cache, h.answered⟩
  | commit changes =>
      refine ⟨fun id thread hthread => ?_, fun entry hentry => ?_, fun answer hanswer => ?_⟩
      · rw [Derivations.step, World.commits_eq] at hthread
        have htold := h.threads id thread hthread
        rw [← commits_tables changes] at htold
        simp only [Derivations.step]
        rwa [World.commits_eq] at htold ⊢
      · rw [Derivations.step, World.commits_eq] at hentry
        exact h.cache entry hentry
      · rw [Derivations.step, World.commits_eq] at hanswer
        rw [Derivations.step, commits_tables]
        exact h.answered answer hanswer
  | request id process prog =>
      simp only [Derivations.step]
      split
      · apply h.runs
        have hnone : ∀ entry : MemoName × Memo V,
            entry ∉ Thread.memos ⟨process, none, .run prog, []⟩ := by
          simp [Thread.memos, savedScopes]
        refine ⟨trivial, le_refl _, ?_, ?_, ?_, ?_⟩
        · exact fun entry hentry => absurd hentry (hnone entry)
        · exact fun name memo hmemo => absurd hmemo (hnone _)
        · exact fun derivation variant memo hmemo => absurd hmemo (hnone _)
        · exact fun result hresult => by simp [Code.result?] at hresult
      · exact h
  | advance id choice =>
      simp only [Derivations.step]
      split
      · next thread hthread => exact h.advance (h.threads id thread hthread) (htells thread hthread)
      · exact h
  | raise id => exact h.ends
  | evict index =>
      exact ⟨h.threads, fun entry hentry => h.cache entry (List.mem_of_mem_eraseIdx hentry),
        h.answered⟩

theorem told_start (env : Environment V) (matters : Item V → Bool) (now : Int) (rows : String → V)
    (revision : String → Nat) : (World.start now rows revision).Told env matters :=
  ⟨fun _ _ hthread => by simp [World.start] at hthread,
    fun _ hentry => by simp [World.start] at hentry,
    fun _ hanswer => by simp [World.start] at hanswer⟩

/-- In a run that tells, every answer covers what it rests on. -/
theorem run_told {now : Int} {rows : String → V} {revision : String → Nat}
    {events : List (Event V)}
    (hmeets : Meets (Derivations.step env) (Tells env matters) (World.start now rows revision)
      events) :
    (run (Derivations.step env) (World.start now rows revision) events).Told env matters :=
  run_invariant (World.Told env matters) (fun _ _ h htells => h.step htells)
    (told_start env matters now rows revision) hmeets

end Statements

end SeverinoHQ.Derivations
