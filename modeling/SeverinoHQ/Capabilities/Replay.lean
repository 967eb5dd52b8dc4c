/-
# Every answer that ran is kept, and replayed

The invariant of `execute_once` and what follows from it over every
interleaving of calls. It says where a record's row can be: committed, or
inserted by the one transaction that holds its key. A row is deleted only once
it has expired, so while an answer is kept its row is there, no other call can
hold the key, and every later call finds that row.
-/

import SeverinoHQ.Capabilities.Idempotency

namespace SeverinoHQ.Capabilities

open SeverinoHQ.Math

variable {Thread σ : Type}

/-- The run's answer was kept, under the unique columns of `call`. -/
def Settled.keeps (sha256 : Sha256) (run : Settled σ) (call : Call) : Prop :=
  isOk run.answer = true ∧ sha256.unique run.call = sha256.unique call

/-- Where a call can be that was made after `run` kept its answer: on the way to
`run`'s record, or with the answer in its hands. -/
def Phase.follows (sha256 : Sha256) (call : Call) (run : Settled σ) : Phase σ → Prop
  | .clean | .get => True
  | .lock pk => pk = run.record.pk
  | .replay answer =>
      answer = run.answer ∧ sha256.requestFingerprint call = sha256.requestFingerprint run.call
  | _ => False

/-- What a call is told while `run`'s answer is kept. -/
def Settled.expected (sha256 : Sha256) (run : Settled σ) (call : Call) : Answer :=
  if sha256.requestFingerprint call = sha256.requestFingerprint run.call then
    .replayed run.answer
  else .conflict conflictReason

/-- A call in flight, against what is committed. -/
structure Flight.Sound (sha256 : Sha256) (world : World Thread σ) (flight : Flight σ) : Prop where
  readAt_le : flight.readAt ≤ world.now
  gone_lt : ∀ pk ∈ flight.gone, pk < world.nextPk
  gone_expired : ∀ record ∈ world.records, record.pk ∈ flight.gone →
    record.expiresAt ≤ flight.readAt
  reserved : ∀ record, flight.phase.reserved = some record →
    record.unique = sha256.unique flight.call ∧
      record.requestSha256 = sha256.requestFingerprint flight.call ∧
      record.pk < world.nextPk ∧
      (∀ kept ∈ world.records, kept.pk ≠ record.pk) ∧
      ∀ kept ∈ world.records, kept.unique = record.unique → kept.pk ∈ flight.gone
  seen_le : flight.seen ≤ world.settled.length
  later : ∀ run ∈ world.settled.take flight.seen, run.keeps sha256 flight.call →
    world.now < run.record.expiresAt → flight.phase.follows sha256 flight.call run

/-- What is committed, the calls in flight and the histories agree. -/
structure World.Sound (sha256 : Sha256) (domain : σ) (world : World Thread σ) : Prop where
  pk_lt : ∀ record ∈ world.records, record.pk < world.nextPk
  pk_nodup : (world.records.map IdempotencyRecord.pk).Nodup
  unique_nodup : (world.records.map IdempotencyRecord.unique).Nodup
  answered : ∀ record ∈ world.records, record.response.isSome = true
  flights : ∀ thread flight, world.flights thread = some flight → flight.Sound sha256 world
  /-- No transaction deletes a row that has yet to be committed. -/
  reserved_not_gone : ∀ thread other record, world.reserves thread record →
    ¬ world.deletes other record.pk
  /-- The unique index keeps reservations apart. -/
  reserved_apart : ∀ thread other first second, thread ≠ other →
    world.reserves thread first → world.reserves other second →
      first.unique ≠ second.unique ∧ first.pk ≠ second.pk
  kept : ∀ run ∈ world.settled, isOk run.answer = true → world.now < run.record.expiresAt →
    run.record ∈ world.records
  stored : ∀ run ∈ world.settled, run.record.unique = sha256.unique run.call ∧
    run.record.requestSha256 = sha256.requestFingerprint run.call ∧
    run.record.response = some run.answer
  ordered : world.settled.Pairwise fun first second =>
    isOk first.answer = true → isOk second.answer = true →
      sha256.unique first.call = sha256.unique second.call →
        first.record.expiresAt ≤ second.settledAt
  domain : world.domain = world.settled.foldl (fun before run => run.writes before) domain
  ran : ∀ ran ∈ world.ran, ran.seen ≤ world.settled.length ∧
    ∀ run ∈ world.settled.take ran.seen, run.keeps sha256 ran.call →
      run.record.expiresAt ≤ ran.ranAt
  answers : ∀ told ∈ world.answers, told.seen ≤ world.settled.length ∧
    ∀ run ∈ world.settled.take told.seen, run.keeps sha256 told.call →
      told.answeredAt < run.record.expiresAt → told.answer = run.expected sha256 told.call

/-! ## The flights -/

section Flights

variable {sha256 : Sha256} {world : World Thread σ} {flight : Flight σ}

/-- A call stays sound over whatever others commit, as long as no row they commit
is one it has deleted or has the key it holds. -/
theorem Flight.Sound.transfer (h : flight.Sound sha256 world) {next : World Thread σ}
    (hnow : world.now ≤ next.now) (hpk : world.nextPk ≤ next.nextPk)
    (hrecords : ∀ record ∈ next.records, record ∈ world.records ∨
      (record.pk ∉ flight.gone ∧ ∀ mine, flight.phase.reserved = some mine →
        record.pk ≠ mine.pk ∧ record.unique ≠ mine.unique))
    (hsettled : world.settled <+: next.settled) : flight.Sound sha256 next where
  readAt_le := h.readAt_le.trans hnow
  gone_lt pk hpk' := (h.gone_lt pk hpk').trans_le hpk
  gone_expired record hrecord hgone := by
    rcases hrecords record hrecord with hold | ⟨hnew, -⟩
    · exact h.gone_expired record hold hgone
    · exact absurd hgone hnew
  reserved mine hmine := by
    obtain ⟨hunique, hrequest, hlt, hapart, hheld⟩ := h.reserved mine hmine
    refine ⟨hunique, hrequest, hlt.trans_le hpk, ?_, ?_⟩
    · intro record hrecord
      rcases hrecords record hrecord with hold | ⟨-, hnew⟩
      · exact hapart record hold
      · exact (hnew mine hmine).1
    · intro record hrecord hsame
      rcases hrecords record hrecord with hold | ⟨-, hnew⟩
      · exact hheld record hold hsame
      · exact absurd hsame (hnew mine hmine).2
  seen_le := h.seen_le.trans hsettled.length_le
  later run hrun hkeeps hlive := by
    obtain ⟨rest, hrest⟩ := hsettled
    rw [← hrest, List.take_append_of_le_length h.seen_le] at hrun
    exact h.later run hrun hkeeps (hnow.trans_lt hlive)

end Flights

namespace World.Sound

variable {sha256 : Sha256} {domain : σ} {world : World Thread σ}

theorem start (sha256 : Sha256) (now : Nat) (domain : σ) :
    (World.start now domain : World Thread σ).Sound sha256 domain := by
  constructor <;> simp [World.start, World.reserves]

theorem tick (h : world.Sound sha256 domain) (elapsed : Nat) :
    { world with now := world.now + elapsed }.Sound sha256 domain where
  __ := h
  flights thread flight hflight :=
    (h.flights thread flight hflight).transfer (Nat.le_add_right _ _) le_rfl
      (fun _ hrecord => Or.inl hrecord) List.prefix_rfl
  kept run hrun hok hlive := h.kept run hrun hok (lt_of_le_of_lt (Nat.le_add_right _ _) hlive)

/-- While an answer is kept, a call that has not deleted its row sees it, and no other. -/
theorem visible_eq (h : world.Sound sha256 domain) {run : Settled σ} (hrun : run ∈ world.settled)
    {flight : Flight σ} (hflight : flight.Sound sha256 world)
    (hkeeps : run.keeps sha256 flight.call) (hlive : world.now < run.record.expiresAt) :
    world.visible flight (sha256.unique flight.call) = some run.record := by
  have hmem := h.kept run hrun hkeeps.1 hlive
  have hunique : run.record.unique = sha256.unique flight.call :=
    (h.stored run hrun).1.trans hkeeps.2
  have hgone : run.record.pk ∉ flight.gone := by
    intro hpk
    have hexpired := hflight.gone_expired run.record hmem hpk
    have hread := hflight.readAt_le
    omega
  cases hvisible : world.visible flight (sha256.unique flight.call) with
  | none =>
      have hnot := List.find?_eq_none.mp hvisible run.record hmem
      simp [hunique, hgone] at hnot
  | some record =>
      have hrecord := List.mem_of_find?_eq_some hvisible
      have hselects := List.find?_some hvisible
      simp only [Bool.and_eq_true, beq_iff_eq] at hselects
      rw [Table.eq_of_column_eq h.unique_nodup hrecord hmem (hselects.1.trans hunique.symm)]

/-- No call holds the key of an answer that is kept. -/
theorem reserved_expired (h : world.Sound sha256 domain) {run : Settled σ}
    (hrun : run ∈ world.settled) {thread : Thread} {flight : Flight σ}
    (hflight : world.flights thread = some flight) {record : IdempotencyRecord}
    (hreserved : flight.phase.reserved = some record) (hkeeps : run.keeps sha256 flight.call) :
    run.record.expiresAt ≤ world.now := by
  by_contra hlive
  push Not at hlive
  have hsound := h.flights thread flight hflight
  have hmem := h.kept run hrun hkeeps.1 hlive
  obtain ⟨hunique, -, -, -, hheld⟩ := hsound.reserved record hreserved
  have hgone := hheld run.record hmem
    ((h.stored run hrun).1.trans (hkeeps.2.trans hunique.symm))
  have hexpired := hsound.gone_expired run.record hmem hgone
  have hread := hsound.readAt_le
  omega

/-- A transaction commits its deletes: only what has expired is gone. -/
theorem commitsDeletes (h : world.Sound sha256 domain) {flight : Flight σ}
    (hflight : flight.Sound sha256 world) :
    (world.commitsDeletes flight).Sound sha256 domain := by
  have hsub : ∀ {record}, record ∈ (world.commitsDeletes flight).records →
      record ∈ world.records := fun hrecord => (Table.mem_delete.mp hrecord).1
  exact {
    __ := h
    pk_lt := fun record hrecord => h.pk_lt record (hsub hrecord)
    pk_nodup := Table.nodup_map_delete h.pk_nodup _
    unique_nodup := Table.nodup_map_delete h.unique_nodup _
    answered := fun record hrecord => h.answered record (hsub hrecord)
    flights := fun other theirs htheirs =>
      (h.flights other theirs htheirs).transfer le_rfl le_rfl
        (fun _ hrecord => Or.inl (hsub hrecord)) List.prefix_rfl
    kept := by
      intro run hrun hok hlive
      have hmem := h.kept run hrun hok hlive
      refine Table.mem_delete.mpr ⟨hmem, ?_⟩
      by_contra hgone
      have hpk : run.record.pk ∈ flight.gone := by simpa using hgone
      have hexpired := hflight.gone_expired run.record hmem hpk
      have hread := hflight.readAt_le
      have hnow : world.now < run.record.expiresAt := hlive
      omega }

/-- A run commits: its answer is kept if it ran, its record forgotten otherwise. -/
theorem settles (h : world.Sound sha256 domain) {call : Call} (stored : IdempotencyRecord)
    {answer : Json} {writes : σ → σ}
    (hstored : stored.unique = sha256.unique call ∧
      stored.requestSha256 = sha256.requestFingerprint call ∧ stored.response = some answer)
    (hpk : stored.pk < world.nextPk)
    (hrecords : ∀ record ∈ world.records,
      record.pk ≠ stored.pk ∧ record.unique ≠ stored.unique)
    (hgone : ∀ thread, ¬ world.deletes thread stored.pk)
    (hreserved : ∀ thread record, world.reserves thread record →
      stored.pk ≠ record.pk ∧ stored.unique ≠ record.unique)
    (hexpired : ∀ run ∈ world.settled, run.keeps sha256 call →
      run.record.expiresAt ≤ world.now) :
    (world.settles call stored answer writes).Sound sha256 domain := by
  have hmem : ∀ record, record ∈ (world.settles call stored answer writes).records ↔
      record ∈ world.records ∨ isOk answer = true ∧ record = stored := by
    intro record
    simp only [World.settles]
    split
    · simp_all
    · simp_all
  have htake : ∀ {seen}, seen ≤ world.settled.length →
      (world.settles call stored answer writes).settled.take seen = world.settled.take seen :=
    fun hseen => List.take_append_of_le_length hseen
  exact {
    pk_lt := by
      intro record hrecord
      rcases (hmem record).mp hrecord with hold | ⟨-, rfl⟩
      · exact h.pk_lt record hold
      · exact hpk
    pk_nodup := by
      simp only [World.settles]
      split
      · exact Table.nodup_map_append_singleton h.pk_nodup fun old hold => (hrecords old hold).1
      · exact h.pk_nodup
    unique_nodup := by
      simp only [World.settles]
      split
      · exact Table.nodup_map_append_singleton h.unique_nodup
          fun old hold => (hrecords old hold).2
      · exact h.unique_nodup
    answered := by
      intro record hrecord
      rcases (hmem record).mp hrecord with hold | ⟨-, rfl⟩
      · exact h.answered record hold
      · simp [hstored.2.2]
    flights := by
      intro other theirs htheirs
      refine (h.flights other theirs htheirs).transfer (le_refl world.now)
        (le_refl world.nextPk) ?_ ?_
      · intro record hrecord
        rcases (hmem record).mp hrecord with hold | ⟨-, rfl⟩
        · exact Or.inl hold
        · exact Or.inr ⟨fun hdeleted => hgone other ⟨theirs, htheirs, hdeleted⟩,
            fun mine hmine => hreserved other mine ⟨theirs, htheirs, hmine⟩⟩
      · exact List.prefix_append _ _
    reserved_not_gone := h.reserved_not_gone
    reserved_apart := h.reserved_apart
    kept := by
      intro run hrun hok hlive
      rcases List.mem_append.mp hrun with hold | hnew
      · exact (hmem _).mpr (Or.inl (h.kept run hold hok hlive))
      · obtain rfl := List.mem_singleton.mp hnew
        exact (hmem _).mpr (Or.inr ⟨hok, rfl⟩)
    stored := by
      intro run hrun
      rcases List.mem_append.mp hrun with hold | hnew
      · exact h.stored run hold
      · obtain rfl := List.mem_singleton.mp hnew
        exact hstored
    ordered := by
      refine List.pairwise_append.mpr ⟨h.ordered, List.pairwise_singleton _ _, ?_⟩
      intro first hfirst second hsecond hok _ hsame
      obtain rfl := List.mem_singleton.mp hsecond
      exact hexpired first hfirst ⟨hok, hsame⟩
    domain := by simp [World.settles, h.domain]
    ran := by
      intro ran hran
      obtain ⟨hseen, hafter⟩ := h.ran ran hran
      refine ⟨hseen.trans (by simp [World.settles]), ?_⟩
      rw [htake hseen]
      exact hafter
    answers := by
      intro told htold
      obtain ⟨hseen, hafter⟩ := h.answers told htold
      refine ⟨hseen.trans (by simp [World.settles]), ?_⟩
      rw [htake hseen]
      exact hafter }

/-- A row that is there, unlocked, and kept answers the call as it should be. -/
theorem lock_follows (h : world.Sound sha256 domain) {thread : Thread}
    {flight : Flight σ} (hflight : world.flights thread = some flight)
    {pk : Nat} (hphase : flight.phase = .lock pk) {run : Settled σ}
    (hrun : run ∈ world.settled.take flight.seen) (hkeeps : run.keeps sha256 flight.call)
    (hlive : world.now < run.record.expiresAt) :
    (world.records.find? fun record => record.pk == pk) = some run.record := by
  have hfollows := (h.flights thread flight hflight).later run hrun hkeeps hlive
  rw [hphase] at hfollows
  have hpk : pk = run.record.pk := hfollows
  have hmem := h.kept run (List.mem_of_mem_take hrun) hkeeps.1 hlive
  cases hfound : world.records.find? fun record => record.pk == pk with
  | none =>
      have hnot := List.find?_eq_none.mp hfound run.record hmem
      simp [hpk] at hnot
  | some record =>
      have hrecord := List.mem_of_find?_eq_some hfound
      have hsame : record.pk = pk := by simpa using List.find?_some hfound
      rw [Table.eq_of_column_eq h.pk_nodup hrecord hmem (hsame.trans hpk)]

/-- Nothing is kept for a call that got past the first look with nothing. -/
theorem not_later (h : world.Sound sha256 domain) {thread : Thread}
    {flight : Flight σ} (hflight : world.flights thread = some flight)
    (hphase : ∀ run, ¬ flight.phase.follows sha256 flight.call run) {run : Settled σ}
    (hrun : run ∈ world.settled.take flight.seen) (hkeeps : run.keeps sha256 flight.call) :
    ¬ world.now < run.record.expiresAt := fun hlive =>
  hphase run ((h.flights thread flight hflight).later run hrun hkeeps hlive)

section Steps

variable [DecidableEq Thread] {thread : Thread} {flight : Flight σ}

theorem reserves_goesOn {other : Thread} {record : IdempotencyRecord} :
    (world.goesOn thread flight).reserves other record ↔
      if other = thread then flight.phase.reserved = some record
      else world.reserves other record := by
  by_cases hother : other = thread
  · simp [World.reserves, World.goesOn, hother]
  · simp [World.reserves, World.goesOn, hother]

theorem deletes_goesOn {other : Thread} {pk : Nat} :
    (world.goesOn thread flight).deletes other pk ↔
      if other = thread then pk ∈ flight.gone else world.deletes other pk := by
  by_cases hother : other = thread
  · simp [World.deletes, World.goesOn, hother]
  · simp [World.deletes, World.goesOn, hother]

theorem reserves_rollsBack {other : Thread} {record : IdempotencyRecord} :
    (world.rollsBack thread).reserves other record ↔
      other ≠ thread ∧ world.reserves other record := by
  by_cases hother : other = thread
  · simp [World.reserves, World.rollsBack, hother]
  · simp [World.reserves, World.rollsBack, hother]

theorem deletes_rollsBack {other : Thread} {pk : Nat} :
    (world.rollsBack thread).deletes other pk ↔ other ≠ thread ∧ world.deletes other pk := by
  by_cases hother : other = thread
  · simp [World.deletes, World.rollsBack, hother]
  · simp [World.deletes, World.rollsBack, hother]

/-- A call goes on, without a reservation or under the one it holds. -/
theorem goesOn (h : world.Sound sha256 domain) (hflight : flight.Sound sha256 world)
    (hgone : ∀ other record, world.reserves other record → record.pk ∉ flight.gone)
    (hreserved : ∀ record, flight.phase.reserved = some record → world.reserves thread record) :
    (world.goesOn thread flight).Sound sha256 domain := by
  have hholds : ∀ {other record}, (world.goesOn thread flight).reserves other record →
      world.reserves other record := by
    intro other record hother
    rw [reserves_goesOn] at hother
    split at hother
    · next heq => exact heq ▸ hreserved record hother
    · exact hother
  exact {
    __ := h
    flights := by
      intro other theirs htheirs
      by_cases hother : other = thread
      · subst hother
        simp only [World.goesOn, Function.update_self, Option.some.injEq] at htheirs
        exact htheirs ▸ hflight.transfer le_rfl le_rfl (fun _ => Or.inl) List.prefix_rfl
      · simp only [World.goesOn, Function.update_of_ne hother] at htheirs
        exact (h.flights other theirs htheirs).transfer le_rfl le_rfl (fun _ => Or.inl)
          List.prefix_rfl
    reserved_not_gone := by
      intro first second record hfirst hsecond
      rw [deletes_goesOn] at hsecond
      split at hsecond
      · exact hgone first record (hholds hfirst) hsecond
      · exact h.reserved_not_gone first second record (hholds hfirst) hsecond
    reserved_apart := by
      intro first second mine theirs hne hmine htheirs
      exact h.reserved_apart first second mine theirs hne (hholds hmine) (hholds htheirs) }

/-- A transaction that rolls back leaves what is committed as it is. -/
theorem rollsBack (h : world.Sound sha256 domain) (thread : Thread) :
    (world.rollsBack thread).Sound sha256 domain where
  __ := h
  flights other theirs htheirs := by
    by_cases hother : other = thread
    · simp [World.rollsBack, hother] at htheirs
    · simp only [World.rollsBack, Function.update_of_ne hother] at htheirs
      exact (h.flights other theirs htheirs).transfer le_rfl le_rfl (fun _ => Or.inl)
        List.prefix_rfl
  reserved_not_gone first second record hfirst hsecond := by
    rw [reserves_rollsBack] at hfirst
    rw [deletes_rollsBack] at hsecond
    exact h.reserved_not_gone first second record hfirst.2 hsecond.2
  reserved_apart first second mine theirs hne hmine htheirs := by
    rw [reserves_rollsBack] at hmine htheirs
    exact h.reserved_apart first second mine theirs hne hmine.2 htheirs.2

/-- A call ends with an answer that fits what was kept when it was made. -/
theorem tells (h : world.Sound sha256 domain) (hseen : flight.seen ≤ world.settled.length)
    {answer : Answer}
    (hanswer : ∀ run ∈ world.settled.take flight.seen, run.keeps sha256 flight.call →
      world.now < run.record.expiresAt → answer = run.expected sha256 flight.call)
    (thread : Thread) : (world.tells thread flight answer).Sound sha256 domain :=
  have hback := h.rollsBack thread
  { hback with
    flights := fun other theirs htheirs =>
      (hback.flights other theirs htheirs).transfer le_rfl le_rfl (fun _ => Or.inl)
        List.prefix_rfl
    answers := by
      intro told htold
      rcases List.mem_append.mp htold with hold | hnew
      · exact h.answers told hold
      · obtain rfl := List.mem_singleton.mp hnew
        exact ⟨hseen, hanswer⟩ }

/-- The whole commit of a run. -/
theorem commitsRun (h : world.Sound sha256 domain) (hflight : world.flights thread = some flight)
    {record : IdempotencyRecord} {answer : Json} {writes : σ → σ}
    (hphase : flight.phase = .commit record answer writes) :
    ((world.commitsRun flight record answer writes).tells thread flight (.ran answer)).Sound
      sha256 domain := by
  have hsound := h.flights thread flight hflight
  have hreserved : flight.phase.reserved = some record := by rw [hphase]; rfl
  have hheld : world.reserves thread record := ⟨flight, hflight, hreserved⟩
  obtain ⟨hunique, hrequest, hlt, hpk, hkey⟩ := hsound.reserved record hreserved
  have hexpired : ∀ run ∈ world.settled, run.keeps sha256 flight.call →
      run.record.expiresAt ≤ world.now :=
    fun run hrun hkeeps => h.reserved_expired hrun hflight hreserved hkeeps
  -- The thread leaves first, so that its own reservation is nobody's any more.
  have hback : ((world.rollsBack thread).commitsDeletes flight).Sound sha256 domain :=
    (h.rollsBack thread).commitsDeletes
      (hsound.transfer le_rfl le_rfl (fun _ => Or.inl) List.prefix_rfl)
  have hsettled : ((world.rollsBack thread).commitsRun flight record answer writes).Sound
      sha256 domain := by
    refine hback.settles { record with response := some answer }
      ⟨hunique, hrequest, rfl⟩ hlt ?_ ?_ ?_ hexpired
    · intro kept hkept
      obtain ⟨hmem, hnot⟩ := Table.mem_delete.mp hkept
      refine ⟨hpk kept hmem, fun hsame => ?_⟩
      simp [hkey kept hmem hsame] at hnot
    · intro other hdeletes
      exact h.reserved_not_gone thread other record hheld (deletes_rollsBack.mp hdeletes).2
    · intro other theirs htheirs
      obtain ⟨hne, htheirs⟩ := reserves_rollsBack.mp htheirs
      have hapart := h.reserved_apart thread other record theirs hne.symm hheld htheirs
      exact ⟨hapart.2, hapart.1⟩
  have htold : (((world.rollsBack thread).commitsRun flight record answer writes).tells thread
      flight (.ran answer)).Sound sha256 domain := by
    apply hsettled.tells
    · exact hsound.seen_le.trans (by simp [World.commitsRun, World.settles, World.commitsDeletes,
        World.rollsBack])
    · intro run hrun hkeeps hlive
      have hrun : run ∈ world.settled.take flight.seen := by
        rw [← List.take_append_of_le_length hsound.seen_le]
        exact hrun
      have hlive : world.now < run.record.expiresAt := hlive
      have := hexpired run (List.mem_of_mem_take hrun) hkeeps
      omega
  simpa [World.tells, World.rollsBack, World.commitsRun, World.settles,
    World.commitsDeletes] using htold

/-- The insert of `get_or_create` takes a key nobody holds. -/
theorem reserving (h : world.Sound sha256 domain) (hflight : world.flights thread = some flight)
    (hphase : flight.phase = .create)
    (helsewhere : ¬ world.reservedElsewhere thread (sha256.unique flight.call))
    (hvisible : world.visible flight (sha256.unique flight.call) = none) :
    (({ world with nextPk := world.nextPk + 1 } : World Thread σ).goesOn thread
      { flight with phase := .act (world.reservation sha256 flight) }).Sound sha256 domain := by
  have hsound := h.flights thread flight hflight
  have hgone : ∀ other, ¬ world.deletes other world.nextPk := by
    rintro other ⟨theirs, htheirs, hpk⟩
    exact lt_irrefl _ ((h.flights other theirs htheirs).gone_lt _ hpk)
  have hfresh : ∀ other record, world.reserves other record → record.pk ≠ world.nextPk := by
    rintro other record ⟨theirs, htheirs, hrecord⟩
    exact ((h.flights other theirs htheirs).reserved record hrecord).2.2.1.ne
  exact {
    __ := h
    pk_lt := fun record hrecord => (h.pk_lt record hrecord).trans (Nat.lt_succ_self _)
    flights := by
      intro other theirs htheirs
      by_cases hother : other = thread
      · subst hother
        simp only [World.goesOn, Function.update_self, Option.some.injEq] at htheirs
        subst htheirs
        exact {
          readAt_le := hsound.readAt_le
          gone_lt := fun pk hpk => (hsound.gone_lt pk hpk).trans (Nat.lt_succ_self _)
          gone_expired := hsound.gone_expired
          reserved := by
            rintro record ⟨rfl⟩
            refine ⟨rfl, rfl, Nat.lt_succ_self _, ?_, ?_⟩
            · intro kept hkept
              exact (h.pk_lt kept hkept).ne
            · intro kept hkept hsame
              have hnot := List.find?_eq_none.mp hvisible kept hkept
              have hsame : kept.unique = sha256.unique flight.call := hsame
              simpa [hsame] using hnot
          seen_le := hsound.seen_le
          later := by
            intro run hrun hkeeps hlive
            have hfollows := hsound.later run hrun hkeeps hlive
            rw [hphase] at hfollows
            exact hfollows }
      · simp only [World.goesOn, Function.update_of_ne hother] at htheirs
        exact (h.flights other theirs htheirs).transfer (le_refl world.now) (Nat.le_succ _)
          (fun _ => Or.inl) List.prefix_rfl
    reserved_not_gone := by
      intro first second record hfirst hsecond
      rw [reserves_goesOn] at hfirst
      rw [deletes_goesOn] at hsecond
      have hdeletes : world.deletes second record.pk := by
        split at hsecond
        · next heq => exact ⟨flight, heq ▸ hflight, hsecond⟩
        · exact hsecond
      split at hfirst
      · obtain rfl := Option.some.inj hfirst
        exact hgone second hdeletes
      · exact h.reserved_not_gone first second record hfirst hdeletes
    reserved_apart := by
      intro first second mine theirs hne hmine htheirs
      rw [reserves_goesOn] at hmine htheirs
      split at hmine <;> split at htheirs
      · next hfirst hsecond => exact absurd (hfirst.trans hsecond.symm) hne
      · next hfirst hsecond =>
          obtain rfl := Option.some.inj hmine
          exact ⟨fun hsame => helsewhere ⟨second, hsecond, theirs, htheirs, hsame.symm⟩,
            (hfresh second theirs htheirs).symm⟩
      · next hfirst hsecond =>
          obtain rfl := Option.some.inj htheirs
          exact ⟨fun hsame => helsewhere ⟨first, hfirst, mine, hmine, hsame⟩,
            hfresh first mine hmine⟩
      · exact h.reserved_apart first second mine theirs hne hmine htheirs }

/-- A phase that reserves nothing, reached without deleting more, keeps the invariant. -/
theorem goesTo (h : world.Sound sha256 domain) (hflight : world.flights thread = some flight)
    {phase : Phase σ} (hnone : phase.reserved = none)
    (hlater : ∀ run ∈ world.settled.take flight.seen, run.keeps sha256 flight.call →
      world.now < run.record.expiresAt → phase.follows sha256 flight.call run) :
    (world.goesOn thread { flight with phase := phase }).Sound sha256 domain := by
  have hsound := h.flights thread flight hflight
  refine h.goesOn ?_ ?_ ?_
  · exact {
      readAt_le := hsound.readAt_le
      gone_lt := hsound.gone_lt
      gone_expired := hsound.gone_expired
      reserved := by simp [hnone]
      seen_le := hsound.seen_le
      later := hlater }
  · intro other record hrecord hpk
    exact h.reserved_not_gone other thread record hrecord ⟨flight, hflight, hpk⟩
  · simp [hnone]

/-- A look of `get_or_create` that finds a row goes on to lock it. -/
theorem finds (h : world.Sound sha256 domain) (hflight : world.flights thread = some flight)
    {record : IdempotencyRecord}
    (hvisible : world.visible flight (sha256.unique flight.call) = some record) :
    (world.goesOn thread { flight with phase := .lock record.pk }).Sound sha256 domain := by
  apply h.goesTo hflight rfl
  intro run hrun hkeeps hlive
  have heq := h.visible_eq (List.mem_of_mem_take hrun) (h.flights thread flight hflight)
    hkeeps hlive
  rw [hvisible, Option.some.injEq] at heq
  exact congrArg IdempotencyRecord.pk heq

/-- The operation runs under a reservation, so whatever was kept has expired. -/
theorem operates (h : world.Sound sha256 domain) (hflight : world.flights thread = some flight)
    (outcome : Outcome σ) : (world.operates thread flight outcome).Sound sha256 domain := by
  cases hphase : flight.phase with
  | act record =>
      have hsound := h.flights thread flight hflight
      have hreserved : flight.phase.reserved = some record := by rw [hphase]; rfl
      have hran : World.Sound sha256 domain { world with
          ran := world.ran ++ [⟨flight.call, world.settled.length, world.now⟩] } :=
        { h with
          flights := fun other theirs htheirs =>
            (h.flights other theirs htheirs).transfer le_rfl le_rfl (fun _ => Or.inl)
              List.prefix_rfl
          ran := by
            intro ran hran
            rcases List.mem_append.mp hran with hold | hnew
            · exact h.ran ran hold
            · obtain rfl := List.mem_singleton.mp hnew
              refine ⟨le_rfl, fun run hrun hkeeps => ?_⟩
              exact h.reserved_expired (List.mem_of_mem_take hrun) hflight hreserved hkeeps }
      have hnone : ∀ run ∈ world.settled.take flight.seen, run.keeps sha256 flight.call →
          ¬ world.now < run.record.expiresAt := fun run hrun hkeeps =>
        h.not_later hflight (by simp [hphase, Phase.follows]) hrun hkeeps
      simp only [World.operates, hphase]
      cases outcome with
      | raised error =>
          apply hran.tells hsound.seen_le
          intro run hrun hkeeps hlive
          exact absurd hlive (hnone run hrun hkeeps)
      | answered answer writes =>
          refine hran.goesOn ?_ ?_ ?_
          · exact {
              readAt_le := hsound.readAt_le
              gone_lt := hsound.gone_lt
              gone_expired := hsound.gone_expired
              reserved := by
                rintro mine ⟨rfl⟩
                exact hsound.reserved record hreserved
              seen_le := hsound.seen_le
              later := fun run hrun hkeeps hlive => hnone run hrun hkeeps hlive }
          · intro other theirs htheirs hpk
            exact h.reserved_not_gone other thread theirs htheirs ⟨flight, hflight, hpk⟩
          · rintro mine ⟨rfl⟩
            exact ⟨flight, hflight, hreserved⟩
  | _ => simpa only [World.operates, hphase] using h

theorem arrives (h : world.Sound sha256 domain) (thread : Thread) (call : Call) :
    (world.arrives thread call).Sound sha256 domain := by
  unfold World.arrives
  split
  · exact h
  · refine h.goesOn ?_ (by simp) (by simp [Phase.reserved])
    exact {
      readAt_le := le_rfl
      gone_lt := by simp
      gone_expired := by simp
      reserved := by simp [Phase.reserved]
      seen_le := le_rfl
      later := fun _ _ _ _ => trivial }

end Steps

section Machine

variable [Fintype Thread] [DecidableEq Thread] {thread : Thread} {flight : Flight σ}

theorem cleans (h : world.Sound sha256 domain) (hflight : world.flights thread = some flight)
    (hphase : flight.phase = .clean) :
    (world.statement sha256 thread flight).Sound sha256 domain := by
  have hsound := h.flights thread flight hflight
  simp only [World.statement, hphase]
  split
  · exact h
  · refine h.goesOn ?_ ?_ (by simp [Phase.reserved])
    · exact {
        readAt_le := hsound.readAt_le
        gone_lt := by
          intro pk hpk
          obtain ⟨record, hrecord, rfl⟩ := List.mem_map.mp hpk
          exact h.pk_lt record (List.mem_filter.mp hrecord).1
        gone_expired := by
          intro record hrecord hpk
          obtain ⟨expired, hexpired, heq⟩ := List.mem_map.mp hpk
          obtain ⟨hmem, hle⟩ := List.mem_filter.mp hexpired
          obtain rfl := Table.eq_of_column_eq h.pk_nodup hmem hrecord heq
          simpa using hle
        reserved := by simp [Phase.reserved]
        seen_le := hsound.seen_le
        later := fun _ _ _ _ => trivial }
    · rintro other record ⟨theirs, htheirs, hreserved⟩ hpk
      obtain ⟨expired, hexpired, heq⟩ := List.mem_map.mp hpk
      exact ((h.flights other theirs htheirs).reserved record hreserved).2.2.2.1 expired
        (List.mem_filter.mp hexpired).1 heq

theorem gets (h : world.Sound sha256 domain) (hflight : world.flights thread = some flight)
    (hphase : flight.phase = .get) :
    (world.statement sha256 thread flight).Sound sha256 domain := by
  simp only [World.statement, hphase]
  split
  · next record hvisible => exact h.finds hflight hvisible
  · next hvisible =>
      apply h.goesTo hflight rfl
      intro run hrun hkeeps hlive
      rw [h.visible_eq (List.mem_of_mem_take hrun) (h.flights thread flight hflight) hkeeps
        hlive] at hvisible
      exact absurd hvisible (by simp)

theorem creates (h : world.Sound sha256 domain) (hflight : world.flights thread = some flight)
    (hphase : flight.phase = .create) :
    (world.statement sha256 thread flight).Sound sha256 domain := by
  simp only [World.statement, hphase]
  split
  · exact h
  · next helsewhere =>
      split
      · split
        · exact h
        · apply h.goesTo hflight rfl
          intro run hrun hkeeps hlive
          exact h.not_later hflight (by simp [hphase, Phase.follows]) hrun hkeeps hlive
      · next hvisible => exact h.reserving hflight hphase helsewhere hvisible

theorem getsAgain (h : world.Sound sha256 domain) (hflight : world.flights thread = some flight)
    (hphase : flight.phase = .getAgain) :
    (world.statement sha256 thread flight).Sound sha256 domain := by
  simp only [World.statement, hphase]
  split
  · next record hvisible => exact h.finds hflight hvisible
  · apply h.tells (h.flights thread flight hflight).seen_le
    intro run hrun hkeeps hlive
    exact absurd hlive (h.not_later hflight (by simp [hphase, Phase.follows]) hrun hkeeps)

theorem locks (h : world.Sound sha256 domain) (hflight : world.flights thread = some flight)
    {pk : Nat} (hphase : flight.phase = .lock pk) :
    (world.statement sha256 thread flight).Sound sha256 domain := by
  have hseen := (h.flights thread flight hflight).seen_le
  simp only [World.statement, hphase]
  split
  · exact h
  · split
    · next hfound =>
        apply h.tells hseen
        intro run hrun hkeeps hlive
        rw [h.lock_follows hflight hphase hrun hkeeps hlive] at hfound
        exact absurd hfound (by simp)
    · next record hfound =>
        have hmem := List.mem_of_find?_eq_some hfound
        have hrecord : ∀ run ∈ world.settled.take flight.seen, run.keeps sha256 flight.call →
            world.now < run.record.expiresAt → record = run.record := by
          intro run hrun hkeeps hlive
          rw [h.lock_follows hflight hphase hrun hkeeps hlive] at hfound
          exact (Option.some.inj hfound).symm
        split
        · next hrequest =>
            apply h.tells hseen
            intro run hrun hkeeps hlive
            rw [hrecord run hrun hkeeps hlive,
              (h.stored run (List.mem_of_mem_take hrun)).2.1] at hrequest
            simp [Settled.expected, Ne.symm hrequest]
        · next hrequest =>
            split
            · next hnone =>
                have hsome := h.answered record hmem
                simp [hnone] at hsome
            · next answer hanswer =>
                apply h.goesTo hflight rfl
                intro run hrun hkeeps hlive
                have hstored := h.stored run (List.mem_of_mem_take hrun)
                rw [hrecord run hrun hkeeps hlive] at hrequest hanswer
                rw [hstored.2.2, Option.some.injEq] at hanswer
                rw [hstored.2.1] at hrequest
                exact ⟨hanswer.symm, (not_not.mp hrequest).symm⟩

theorem replays (h : world.Sound sha256 domain) (hflight : world.flights thread = some flight)
    {answer : Json} (hphase : flight.phase = .replay answer) :
    (world.statement sha256 thread flight).Sound sha256 domain := by
  have hsound := h.flights thread flight hflight
  simp only [World.statement, hphase]
  apply (h.commitsDeletes hsound).tells hsound.seen_le
  intro run hrun hkeeps hlive
  have hfollows := hsound.later run hrun hkeeps hlive
  rw [hphase] at hfollows
  simp [Settled.expected, hfollows.1, hfollows.2]

/-- Every statement of `execute_once` keeps the invariant. -/
theorem statement (h : world.Sound sha256 domain) (hflight : world.flights thread = some flight) :
    (world.statement sha256 thread flight).Sound sha256 domain := by
  cases hphase : flight.phase with
  | clean => exact h.cleans hflight hphase
  | get => exact h.gets hflight hphase
  | create => exact h.creates hflight hphase
  | getAgain => exact h.getsAgain hflight hphase
  | lock pk => exact h.locks hflight hphase
  | act record => simpa only [World.statement, hphase] using h
  | commit record answer writes =>
      simpa only [World.statement, hphase] using h.commitsRun hflight hphase
  | replay answer => exact h.replays hflight hphase

/-- Every event keeps the invariant. -/
theorem step (h : world.Sound sha256 domain) (event : Event Thread σ) :
    (step sha256 world event).Sound sha256 domain := by
  cases event with
  | tick elapsed => exact h.tick elapsed
  | arrive thread call => exact h.arrives thread call
  | advance thread =>
      simp only [Capabilities.step]
      split
      · next flight hflight => exact h.statement hflight
      · exact h
  | operate thread outcome =>
      simp only [Capabilities.step]
      split
      · next flight hflight => exact h.operates hflight outcome
      · exact h
  | crash thread => exact h.rollsBack thread

end Machine

end World.Sound

end SeverinoHQ.Capabilities
