/-
# A retry key runs its request once

What a caller may rely on when it sends a change again, over every interleaving
of calls: inside a key's lifetime one run commits an answer that ran, every
later call is handed that answer or told of the conflict, and a run that raised
or was refused leaves the key to be used again.
-/

import SeverinoHQ.Capabilities.Replay

namespace SeverinoHQ.Capabilities

open SeverinoHQ.Math

variable {Thread σ : Type}

/-- The same subject uses the same key. -/
def Call.sameKey (first second : Call) : Prop :=
  first.actor = second.actor ∧ first.key = second.key

/-- The key is free: no transaction holds it, and any answer kept under it has
expired. -/
def World.free (sha256 : Sha256) (world : World Thread σ) (call : Call) : Prop :=
  (∀ kept ∈ world.records, kept.unique = sha256.unique call → kept.expiresAt ≤ world.now) ∧
    ∀ thread record, world.reserves thread record → record.unique ≠ sha256.unique call

theorem Call.sameKey.unique_eq {first second : Call} (h : first.sameKey second)
    (sha256 : Sha256) : sha256.unique first = sha256.unique second := by
  simp [Sha256.unique, h.1, h.2]

namespace World.Sound

variable {sha256 : Sha256} {domain : σ} {world : World Thread σ} {thread : Thread}
  {flight : Flight σ} {record : IdempotencyRecord}

/-- Whatever is kept under a key a call holds has expired. -/
theorem held_expired (h : world.Sound sha256 domain) (hflight : world.flights thread = some flight)
    (hreserved : flight.phase.reserved = some record) {kept : IdempotencyRecord}
    (hkept : kept ∈ world.records) (hunique : kept.unique = sha256.unique flight.call) :
    kept.expiresAt ≤ world.now := by
  have hsound := h.flights thread flight hflight
  obtain ⟨hmine, -, -, -, hheld⟩ := hsound.reserved record hreserved
  have hgone := hheld kept hkept (hunique.trans hmine.symm)
  exact (hsound.gone_expired kept hkept hgone).trans hsound.readAt_le

/-- A call that ends with the key in its hands leaves it free, as long as it
commits no record under it. -/
theorem frees [DecidableEq Thread] (h : world.Sound sha256 domain)
    (hflight : world.flights thread = some flight)
    (hreserved : flight.phase.reserved = some record) {next : World Thread σ}
    (hnow : next.now = world.now) (hflights : next.flights = (world.rollsBack thread).flights)
    (hrecords : ∀ kept ∈ next.records, kept ∈ world.records) :
    next.free sha256 flight.call := by
  refine ⟨?_, ?_⟩
  · intro kept hkept hunique
    rw [hnow]
    exact h.held_expired hflight hreserved (hrecords kept hkept) hunique
  · rintro other theirs ⟨their, htheirs, htheirRecord⟩ hunique
    rw [hflights] at htheirs
    obtain ⟨hne, hreserves⟩ := reserves_rollsBack.mp ⟨their, htheirs, htheirRecord⟩
    have hapart := h.reserved_apart thread other record theirs hne.symm
      ⟨flight, hflight, hreserved⟩ hreserves
    have hmine := ((h.flights thread flight hflight).reserved record hreserved).1
    exact hapart.1 (hmine.trans hunique.symm)

end World.Sound

section Retry

variable [DecidableEq Thread] {sha256 : Sha256} {domain : σ} {world : World Thread σ}
  {thread : Thread} {flight : Flight σ}

theorem World.locked_goesOn {pk : Nat} :
    (world.goesOn thread flight).locked thread pk ↔ world.locked thread pk := by
  refine exists_congr fun other => and_congr_right fun hne => ?_
  simp [World.Sound.deletes_goesOn, hne]

theorem World.reservedElsewhere_goesOn {unique : String × String} :
    (world.goesOn thread flight).reservedElsewhere thread unique ↔
      world.reservedElsewhere thread unique := by
  refine exists_congr fun other => and_congr_right fun hne => ?_
  simp [World.Sound.reserves_goesOn, hne]

variable [Fintype Thread]

theorem World.step_advance_goesOn :
    step sha256 (world.goesOn thread flight) (.advance thread) =
      (world.goesOn thread flight).statement sha256 thread flight := by
  simp [step, World.goesOn]

/-- A look that sees nothing goes on to the insert. -/
theorem World.statement_get (hphase : flight.phase = .get)
    (hnone : world.visible flight (sha256.unique flight.call) = none) :
    world.statement sha256 thread flight =
      world.goesOn thread { flight with phase := .create } := by
  simp [World.statement, hphase, hnone]

/-- An insert that meets nothing reserves the key. -/
theorem World.statement_create (hphase : flight.phase = .create)
    (helsewhere : ¬ world.reservedElsewhere thread (sha256.unique flight.call))
    (hnone : world.visible flight (sha256.unique flight.call) = none) :
    (world.statement sha256 thread flight).flights thread =
      some { flight with phase := .act (world.reservation sha256 flight) } := by
  simp [World.statement, hphase, helsewhere, hnone, World.goesOn]

/-- A free key is taken by the next call that uses it: once no other transaction
is deleting the expired rows, the call comes to run its operation. -/
theorem World.free.reserves {call : Call} (hfree : world.free sha256 call)
    (hidle : world.flights thread = none)
    (hunlocked : ∀ kept ∈ world.records, kept.expiresAt ≤ world.now →
      ¬ world.locked thread kept.pk) :
    ∃ flight record, (run (step sha256) world [.arrive thread call, .advance thread,
        .advance thread, .advance thread]).flights thread = some flight ∧
      flight.call = call ∧ flight.phase = .act record := by
  let begun : Flight σ := ⟨call, world.now, world.settled.length, [], .clean⟩
  let cleaned : Flight σ := { begun with gone := world.expired begun, phase := .get }
  let missed : Flight σ := { cleaned with phase := .create }
  have harrive : step sha256 world (.arrive thread call) = world.goesOn thread begun := by
    simp [step, World.arrives, hidle, begun]
  have hclean : step sha256 (world.goesOn thread begun) (.advance thread) =
      (world.goesOn thread begun).goesOn thread cleaned := by
    rw [World.step_advance_goesOn]
    refine if_neg ?_
    rintro ⟨pk, hpk, hlocked⟩
    obtain ⟨kept, hkept, rfl⟩ := List.mem_map.mp hpk
    obtain ⟨hmem, hexpired⟩ := List.mem_filter.mp hkept
    exact hunlocked kept hmem (by simpa [begun] using hexpired)
      (World.locked_goesOn.mp hlocked)
  -- Every row under the key is among the expired ones, so neither look sees one.
  have hunseen : ∀ {flight : Flight σ}, flight.gone = world.expired begun →
      (world.records.find? fun kept =>
        kept.unique == sha256.unique call && !flight.gone.contains kept.pk) = none := by
    intro flight hgone
    refine List.find?_eq_none.mpr fun kept hkept hselects => ?_
    simp only [Bool.and_eq_true, beq_iff_eq, hgone] at hselects
    have hexpired := hfree.1 kept hkept hselects.1
    have hmem : kept.pk ∈ world.expired begun :=
      List.mem_map_of_mem (List.mem_filter.mpr ⟨hkept, by simpa using hexpired⟩)
    simp [hmem] at hselects
  have hget : step sha256 ((world.goesOn thread begun).goesOn thread cleaned) (.advance thread) =
      ((world.goesOn thread begun).goesOn thread cleaned).goesOn thread missed := by
    rw [World.step_advance_goesOn]
    exact World.statement_get rfl (hunseen rfl)
  have helsewhere : ¬ (((world.goesOn thread begun).goesOn thread cleaned).goesOn thread
      missed).reservedElsewhere thread (sha256.unique call) := by
    simp only [World.reservedElsewhere_goesOn]
    rintro ⟨other, -, record, hreserves, hunique⟩
    exact hfree.2 other record hreserves hunique
  have htake := World.statement_create (show missed.phase = .create from rfl) helsewhere
    (hunseen rfl)
  rw [run_cons, run_cons, run_cons, run_cons, run_nil, harrive, hclean, hget,
    World.step_advance_goesOn]
  exact ⟨_, _, htake, rfl, rfl⟩

end Retry

/-! ## Where the calls come from -/

/-- The call an event makes. -/
def Event.call? : Event Thread σ → Option Call
  | .arrive _ call => some call
  | _ => none

/-- Every call in the world is one of `calls`. -/
structure World.CallsIn (calls : List Call) (world : World Thread σ) : Prop where
  flights : ∀ thread flight, world.flights thread = some flight → flight.call ∈ calls
  settled : ∀ run ∈ world.settled, run.call ∈ calls
  answers : ∀ told ∈ world.answers, told.call ∈ calls

namespace World.CallsIn

variable {calls : List Call} {world : World Thread σ} {flight : Flight σ}

theorem commitsRun (h : world.CallsIn calls) (hcall : flight.call ∈ calls)
    {record : IdempotencyRecord} {answer : Json} {writes : σ → σ} :
    (world.commitsRun flight record answer writes).CallsIn calls where
  flights := h.flights
  settled := by
    intro run hrun
    rcases List.mem_append.mp hrun with hold | hnew
    · exact h.settled run hold
    · obtain rfl := List.mem_singleton.mp hnew
      exact hcall
  answers := h.answers

variable [DecidableEq Thread] {thread : Thread}

theorem goesOn (h : world.CallsIn calls) (hcall : flight.call ∈ calls) :
    (world.goesOn thread flight).CallsIn calls where
  flights other theirs htheirs := by
    by_cases hother : other = thread
    · simp only [World.goesOn, hother, Function.update_self, Option.some.injEq] at htheirs
      exact htheirs ▸ hcall
    · simp only [World.goesOn, Function.update_of_ne hother] at htheirs
      exact h.flights other theirs htheirs
  settled := h.settled
  answers := h.answers

theorem rollsBack (h : world.CallsIn calls) : (world.rollsBack thread).CallsIn calls where
  flights other theirs htheirs := by
    by_cases hother : other = thread
    · simp [World.rollsBack, hother] at htheirs
    · simp only [World.rollsBack, Function.update_of_ne hother] at htheirs
      exact h.flights other theirs htheirs
  settled := h.settled
  answers := h.answers

theorem tells (h : world.CallsIn calls) (hcall : flight.call ∈ calls) {answer : Answer} :
    (world.tells thread flight answer).CallsIn calls where
  flights := h.rollsBack.flights
  settled := h.settled
  answers := by
    intro told htold
    rcases List.mem_append.mp htold with hold | hnew
    · exact h.answers told hold
    · obtain rfl := List.mem_singleton.mp hnew
      exact hcall

theorem statement [Fintype Thread] {sha256 : Sha256} (h : world.CallsIn calls)
    (hcall : flight.call ∈ calls) :
    (world.statement sha256 thread flight).CallsIn calls := by
  have hdeletes : (world.commitsDeletes flight).CallsIn calls :=
    ⟨h.flights, h.settled, h.answers⟩
  have hreserves : ({ world with nextPk := world.nextPk + 1 } : World Thread σ).CallsIn calls :=
    ⟨h.flights, h.settled, h.answers⟩
  unfold World.statement
  repeat' split
  all_goals first
    | exact h
    | exact h.goesOn hcall
    | exact h.tells hcall
    | exact hreserves.goesOn hcall
    | exact hdeletes.tells hcall
    | exact (h.commitsRun hcall).tells hcall

theorem step [Fintype Thread] {sha256 : Sha256} (h : world.CallsIn calls)
    {event : Event Thread σ} (hevent : ∀ call ∈ event.call?, call ∈ calls) :
    (step sha256 world event).CallsIn calls := by
  cases event with
  | tick elapsed => exact ⟨h.flights, h.settled, h.answers⟩
  | arrive thread call =>
      simp only [Capabilities.step, World.arrives]
      split
      · exact h
      · exact h.goesOn (hevent call rfl)
  | advance thread =>
      simp only [Capabilities.step]
      split
      · next flight hflight => exact h.statement (h.flights thread flight hflight)
      · exact h
  | operate thread outcome =>
      simp only [Capabilities.step]
      split
      · next flight hflight =>
          have hcall := h.flights thread flight hflight
          unfold World.operates
          split
          · have hran : ({ world with ran := world.ran ++
                [⟨flight.call, world.settled.length, world.now⟩] } : World Thread σ).CallsIn
                calls := ⟨h.flights, h.settled, h.answers⟩
            split
            · exact hran.tells hcall
            · exact hran.goesOn hcall
          · exact h
      · exact h
  | crash thread => exact h.rollsBack

end World.CallsIn

/-! ## Running once -/

/-- What a caller may rely on in a reached world. -/
structure World.ExecutesOnce [Fintype Thread] [DecidableEq Thread] (sha256 : Sha256) (domain : σ)
    (world : World Thread σ) : Prop where
  /-- Of two runs under one key that committed an answer that ran, the later
  committed when the earlier one's answer had expired. -/
  once : world.settled.Pairwise fun first second =>
    isOk first.answer = true → isOk second.answer = true →
      first.call.sameKey second.call → first.record.expiresAt ≤ second.settledAt
  /-- Nothing but committed runs changed the domain. -/
  effects : world.domain = world.settled.foldl (fun before run => run.writes before) domain
  /-- A call made after an answer was kept, and answered before it expired, is
  handed that very answer, or told of the conflict if its request is another. -/
  replays : ∀ told ∈ world.answers, ∀ run ∈ world.settled.take told.seen,
    isOk run.answer = true → run.call.sameKey told.call →
      told.answeredAt < run.record.expiresAt →
        told.answer =
          if told.call.request = run.call.request then .replayed run.answer
          else .conflict conflictReason
  /-- No operation runs under a key whose answer is kept. -/
  runsNothing : ∀ ran ∈ world.ran, ∀ run ∈ world.settled.take ran.seen,
    isOk run.answer = true → run.call.sameKey ran.call → run.record.expiresAt ≤ ran.ranAt
  /-- A run that raises, and one whose process dies, leaves what is committed as
  it was, and its key free. -/
  raises : ∀ thread flight record, world.flights thread = some flight →
    flight.phase = .act record → ∀ error,
      ∀ event ∈ [Event.operate thread (.raised error), Event.crash thread],
        (step sha256 world event).domain = world.domain ∧
          (step sha256 world event).records = world.records ∧
          (step sha256 world event).flights thread = none ∧
          (step sha256 world event).free sha256 flight.call
  /-- A run whose answer did not run commits its writes and leaves its key free. -/
  refuses : ∀ thread flight record answer writes, world.flights thread = some flight →
    flight.phase = .commit record answer writes → isOk answer = false →
      (step sha256 world (.advance thread)).domain = writes world.domain ∧
        (step sha256 world (.advance thread)).free sha256 flight.call
  /-- A free key is the next call's: its operation comes to run. -/
  retries : ∀ thread call, world.free sha256 call → world.flights thread = none →
    (∀ kept ∈ world.records, kept.expiresAt ≤ world.now → ¬ world.locked thread kept.pk) →
      ∃ flight record, (run (step sha256) world [.arrive thread call, .advance thread,
          .advance thread, .advance thread]).flights thread = some flight ∧
        flight.call = call ∧ flight.phase = .act record

section Once

variable [Fintype Thread] [DecidableEq Thread] {sha256 : Sha256} {domain : σ}

theorem World.Sound.executesOnce {world : World Thread σ} (h : world.Sound sha256 domain)
    {calls : List Call} (hcalls : world.CallsIn calls)
    (hcollision : ∀ first ∈ calls, ∀ second ∈ calls,
      sha256.requestFingerprint first = sha256.requestFingerprint second →
        first.request = second.request) :
    world.ExecutesOnce sha256 domain where
  once := h.ordered.imp fun {first second} hordered hfirst hsecond hsame =>
    hordered hfirst hsecond (hsame.unique_eq sha256)
  effects := h.domain
  replays := by
    intro told htold run hrun hok hsame hlive
    have hexpected := (h.answers told htold).2 run hrun ⟨hok, hsame.unique_eq sha256⟩ hlive
    have hiff : sha256.requestFingerprint told.call = sha256.requestFingerprint run.call ↔
        told.call.request = run.call.request := by
      constructor
      · exact hcollision _ (hcalls.answers told htold) _
          (hcalls.settled run (List.mem_of_mem_take hrun))
      · intro heq
        simp [Sha256.requestFingerprint, heq]
    simpa only [Settled.expected, hiff] using hexpected
  runsNothing := by
    intro ran hran run hrun hok hsame
    exact (h.ran ran hran).2 run hrun ⟨hok, hsame.unique_eq sha256⟩
  raises := by
    intro thread flight record hflight hphase error event hevent
    have hreserved : flight.phase.reserved = some record := by rw [hphase]; rfl
    rcases List.mem_pair.mp hevent with rfl | rfl
    · have hstep : Capabilities.step sha256 world (.operate thread (.raised error)) =
          World.tells { world with
            ran := world.ran ++ [⟨flight.call, world.settled.length, world.now⟩] }
            thread flight (.raised error) := by
        simp [Capabilities.step, hflight, World.operates, hphase]
      rw [hstep]
      exact ⟨rfl, rfl, by simp [World.tells, World.rollsBack],
        h.frees hflight hreserved rfl rfl fun _ => id⟩
    · exact ⟨rfl, rfl, by simp [Capabilities.step, World.rollsBack],
        h.frees hflight hreserved rfl rfl fun _ => id⟩
  refuses := by
    intro thread flight record answer writes hflight hphase hok
    have hreserved : flight.phase.reserved = some record := by rw [hphase]; rfl
    have hstep : Capabilities.step sha256 world (.advance thread) =
        (world.commitsRun flight record answer writes).tells thread flight (.ran answer) := by
      simp [Capabilities.step, hflight, World.statement, hphase]
    rw [hstep]
    refine ⟨rfl, h.frees hflight hreserved rfl rfl fun kept hkept => ?_⟩
    have hdeleted : kept ∈ (world.commitsDeletes flight).records := by
      simpa [World.tells, World.rollsBack, World.commitsRun, World.settles, hok] using hkept
    exact (Table.mem_delete.mp hdeleted).1
  retries := fun _ _ hfree hidle hunlocked => hfree.reserves hidle hunlocked

/-- Over every interleaving of calls, crashes and time, a retry key runs its
request once. The requests made must have fingerprints of their own. -/
theorem run_executesOnce (sha256 : Sha256) (now : Nat) (domain : σ)
    (events : List (Event Thread σ))
    (hcollision : ∀ first ∈ events.filterMap Event.call?, ∀ second ∈ events.filterMap Event.call?,
      sha256.requestFingerprint first = sha256.requestFingerprint second →
        first.request = second.request) :
    (run (step sha256) (World.start now domain) events).ExecutesOnce sha256 domain := by
  have hsound : (run (step sha256) (World.start now domain) events).Sound sha256 domain :=
    run_always (World.Sound sha256 domain) (fun _ event h => h.step event)
      (World.Sound.start sha256 now domain) _
  have hcalls : (run (step sha256) (World.start now domain) events).CallsIn
      (events.filterMap Event.call?) := by
    have hmeets : Meets (step sha256)
        (fun _ event => ∀ call ∈ event.call?, call ∈ events.filterMap Event.call?)
        (World.start now domain) events := by
      apply meets_of_forall_mem
      intro event hevent _ call hcall
      exact List.mem_filterMap.mpr ⟨event, hevent, hcall⟩
    have hstart : (World.start now domain : World Thread σ).CallsIn
        (events.filterMap Event.call?) :=
      ⟨by simp [World.start], by simp [World.start], by simp [World.start]⟩
    exact run_invariant _ (fun _ _ h hevent => h.step hevent) hstart hmeets
  exact hsound.executesOnce hcalls hcollision

end Once

/-! ### Two retries that meet, and another request under their key -/

/-- A change of a project's name, sent under the key `rename-1`. -/
def renames (name : String) : Call where
  actor := "claude"
  key := "rename-1"
  name := "project.update"
  envelope := .obj [("command", .obj [("name", .str name)]), ("expected_updated_at", .null),
    ("target", .str "attic")]

/-- The hashes of what the two requests send. -/
def renameSha256 : Sha256 where
  text actor :=
    if actor = "claude" then
      "c857d09db23e6822e3600bc06ad8d58f92ed62bc8efd81c753f77048662cb97d"
    else ""
  document request :=
    if request = (renames "Attic").request then
      "14705f649760d342cd711a86fc4c372075eb56bcbef499db82fcba44f75eca9d"
    else if request = (renames "Cellar").request then
      "f7dcc1bfeb6768fe85509f42a2866d3b0cdb56f840bcd32843d9fdf25d3ddb82"
    else ""

/-- The answer of the command that ran. -/
def renamed : Json := .obj [("ok", .bool true), ("project", .str "attic")]

/-- The second call waits for the first one's insert and is handed its answer;
the third, for another name, is refused. -/
def meetingRetries : List (Event (Fin 2) Nat) :=
  [.arrive 0 (renames "Attic"), .arrive 1 (renames "Attic"),
    .advance 0, .advance 1, .advance 0, .advance 1, .advance 0, .advance 1,
    .operate 0 (.answered renamed (· + 1)), .advance 0,
    .advance 1, .advance 1, .advance 1, .advance 1,
    .tick 1, .arrive 0 (renames "Cellar"), .advance 0, .advance 0, .advance 0]

theorem meetingRetries_executedOnce :
    (∀ first ∈ meetingRetries.filterMap Event.call?,
      ∀ second ∈ meetingRetries.filterMap Event.call?,
        renameSha256.requestFingerprint first = renameSha256.requestFingerprint second →
          first.request = second.request) ∧
      (run (step renameSha256) (World.start 0 0) meetingRetries).ExecutesOnce renameSha256 0 ∧
      (run (step renameSha256) (World.start 0 0) meetingRetries).domain = 1 ∧
      (run (step renameSha256) (World.start 0 0) meetingRetries).answers.map Answered.answer =
        [.ran renamed, .replayed renamed, .conflict conflictReason] :=
  ⟨by decide, run_executesOnce renameSha256 0 0 meetingRetries (by decide), by decide, by decide⟩

end SeverinoHQ.Capabilities
