/-
# One live job of a kind, and one ending of each

The database holds a kind to one live job in every run. That an ended job stays as it ended,
with one ending audited, rests on reapers alone: it holds of the runs in which a reaper finds
a job stale only once nothing else still acts for it.
-/

import SeverinoHQ.Jobs.Runner
import SeverinoHQ.Math.Run

namespace SeverinoHQ.Jobs

open SeverinoHQ.Math

variable {state : State} {slot other : Nat} {task : Task}

/-! ## The tasks of a state -/

namespace State

theorem task_put (state : State) (slot other : Nat) (task : Task) :
    (state.put slot task).task other = state.task other ∨
      other = slot ∧ (state.put slot task).task other = task :=
  Slots.task_set _ _ _ _

theorem task_spawn (state : State) (other : Nat) (task : Task) :
    (state.spawn task).task other = state.task other ∨ (state.spawn task).task other = task :=
  Slots.task_append _ _ _

theorem task_put_of_ne (hslot : other ≠ slot) :
    (state.put slot task).task other = state.task other :=
  Slots.task_set_of_ne hslot

theorem task_put_self (hslot : slot < state.tasks.length) :
    (state.put slot task).task slot = task :=
  Slots.task_set_self hslot

theorem lt_of_holds {id : Nat} (hid : id ∈ (state.task slot).holds) :
    slot < state.tasks.length := by
  apply Slots.lt_length_of_task_ne
  intro hended
  rw [task, hended] at hid
  cases hid

/-- A slot whose task goes on as one that holds nothing holds nothing. -/
theorem ne_of_holds_put (hholds : task.holds = []) {id : Nat}
    (hid : id ∈ ((state.put slot task).task other).holds) : other ≠ slot := by
  rintro rfl
  have hslot : other < (state.put other task).tasks.length := lt_of_holds hid
  rw [task_put_self (by simpa [put] using hslot), hholds] at hid
  cases hid

/-- How many endings are audited for a job. -/
def told (state : State) (id : Nat) : Nat := state.endings.countP fun ending => ending.job == id

end State

/-! ## One live job of a kind -/

/-- Rows are told apart by their ids, and of one kind one at most is live. -/
structure Exclusive (state : State) : Prop where
  keyed : (state.jobs.map Job.id).Nodup
  fresh : ∀ row ∈ state.jobs, row.id < state.nextId
  single : ∀ row ∈ state.jobs, ∀ other ∈ state.jobs, row.isLive = true → other.isLive = true →
    row.kind = other.kind → row.id = other.id

namespace Exclusive

theorem of_jobs {next : State} (h : Exclusive state) (hjobs : next.jobs = state.jobs)
    (hnext : next.nextId = state.nextId) : Exclusive next := by
  refine ⟨?_, ?_, ?_⟩ <;> rw [hjobs]
  · exact h.keyed
  · rw [hnext]
    exact h.fresh
  · exact h.single

theorem write (h : Exclusive state) {ids : List Nat} {fields : Job → Job}
    (hid : ∀ row, (fields row).id = row.id) (hkind : ∀ row, (fields row).kind = row.kind)
    (hlive : ∀ row, (fields row).isLive = true → row.isLive = true) :
    Exclusive (state.write ids fields) := by
  have hold : ∀ row ∈ (state.write ids fields).jobs, ∃ old ∈ state.jobs,
      row.id = old.id ∧ row.kind = old.kind ∧ (row.isLive = true → old.isLive = true) := by
    intro row hrow
    rcases Table.mem_update.mp hrow with ⟨hrow, _⟩ | ⟨old, holdmem, _, rfl⟩
    · exact ⟨row, hrow, rfl, rfl, fun h => h⟩
    · exact ⟨old, holdmem, hid old, hkind old, hlive old⟩
  refine ⟨?_, ?_, ?_⟩
  · have hsame : (state.write ids fields).jobs.map Job.id = state.jobs.map Job.id :=
      Table.map_update Job.id fun row _ _ => hid row
    rw [hsame]
    exact h.keyed
  · intro row hrow
    obtain ⟨old, holdmem, hrowid, _⟩ := hold row hrow
    exact hrowid ▸ h.fresh old holdmem
  · intro row hrow other hother hrowlive hotherlive hsame
    obtain ⟨first, hfirst, hfirstid, hfirstkind, hfirstlive⟩ := hold row hrow
    obtain ⟨second, hsecond, hsecondid, hsecondkind, hsecondlive⟩ := hold other hother
    rw [hfirstid, hsecondid]
    exact h.single first hfirst second hsecond (hfirstlive hrowlive) (hsecondlive hotherlive)
      (hfirstkind ▸ hsecondkind ▸ hsame)

theorem create (h : Exclusive state) (slot : Nat) (asked : Asked) :
    Exclusive (create state slot asked) := by
  unfold Jobs.create
  by_cases hany : state.jobs.any fun row => row.isLive && row.kind == asked.kind
  · rw [if_pos hany]
    exact h.of_jobs rfl rfl
  · rw [if_neg hany]
    have hnone : ∀ row ∈ state.jobs, row.isLive = true → row.kind ≠ asked.kind := by
      intro row hrow hlive hkind
      exact hany (List.any_eq_true.mpr ⟨row, hrow, by simp [hlive, hkind]⟩)
    refine ⟨?_, ?_, ?_⟩
    · exact Table.nodup_map_append_singleton h.keyed fun old hold => Nat.ne_of_lt (h.fresh old hold)
    · intro row hrow
      rcases List.mem_append.mp hrow with hold | hnew
      · exact Nat.lt_succ_of_lt (h.fresh row hold)
      · obtain rfl := List.mem_singleton.mp hnew
        exact Nat.lt_succ_self _
    · intro row hrow other hother hrowlive hotherlive hkind
      rcases List.mem_append.mp hrow with hrow | hrow <;>
        rcases List.mem_append.mp hother with hother | hother
      · exact h.single row hrow other hother hrowlive hotherlive hkind
      · obtain rfl := List.mem_singleton.mp hother
        exact absurd hkind (hnone row hrow hrowlive)
      · obtain rfl := List.mem_singleton.mp hrow
        exact absurd hkind.symm (hnone other hother hotherlive)
      · rw [List.mem_singleton.mp hrow, List.mem_singleton.mp hother]

/-- The one-live-job rule lets a row be opened only where no other of its kind is live. -/
theorem openJob (h : Exclusive state) (slot id : Nat) : Exclusive (openJob state slot id) := by
  unfold Jobs.openJob
  cases hfound : state.jobs.find? fun row => row.id == id with
  | none => exact h.of_jobs rfl rfl
  | some opened =>
      have hopened : opened.id = id := by simpa using List.find?_some hfound
      have hmem := List.mem_of_find?_eq_some hfound
      by_cases htaken : state.taken opened.kind id
      · simp only [htaken, if_true]
        exact h.of_jobs rfl rfl
      simp only [htaken, Bool.false_eq_true, if_false]
      have hfree : ∀ row ∈ state.jobs, row.isLive = true → row.kind = opened.kind → row.id = id := by
        intro row hrow hlive hkind
        by_contra hne
        exact htaken (List.any_eq_true.mpr ⟨row, hrow, by simp [hlive, hkind, hne]⟩)
      refine ⟨?_, ?_, ?_⟩
      · have hsame : (state.write [id] fun row => { row with
            state := .running, startedAt := some state.now
            heartbeatAt := some state.now }).jobs.map Job.id = state.jobs.map Job.id :=
          Table.map_update Job.id fun _ _ _ => rfl
        exact hsame ▸ h.keyed
      · intro row hrow
        rcases Table.mem_update.mp hrow with ⟨hold, _⟩ | ⟨old, hold, _, rfl⟩
        · exact h.fresh row hold
        · exact h.fresh old hold
      · -- a row that is live now was, or is the one opened
        have hwas : ∀ row ∈ (state.write [id] fun row => { row with
            state := .running, startedAt := some state.now
            heartbeatAt := some state.now }).jobs, row.isLive = true →
            row.id = id ∧ row.kind = opened.kind ∨ row ∈ state.jobs := by
          intro row hrow _
          rcases Table.mem_update.mp hrow with ⟨hold, _⟩ | ⟨old, hold, hselects, rfl⟩
          · exact .inr hold
          · have hid : old.id = id := by simpa using hselects
            have hsame : old = opened :=
              Table.eq_of_column_eq h.keyed hold hmem (hid.trans hopened.symm)
            exact .inl ⟨hid, by rw [hsame]⟩
        intro row hrow other hother hrowlive hotherlive hkind
        rcases hwas row hrow hrowlive with ⟨hrowid, hrowkind⟩ | hrowold <;>
          rcases hwas other hother hotherlive with ⟨hotherid, hotherkind⟩ | hotherold
        · rw [hrowid, hotherid]
        · rw [hrowid, hfree other hotherold hotherlive (hkind.symm.trans hrowkind)]
        · rw [hotherid, hfree row hrowold hrowlive (hkind.trans hotherkind)]
        · exact h.single row hrowold other hotherold hrowlive hotherlive hkind

theorem write_ended (h : Exclusive state) {ids : List Nat} {fields : Job → Job}
    (hid : ∀ row, (fields row).id = row.id) (hkind : ∀ row, (fields row).kind = row.kind)
    (hended : ∀ row, (fields row).isLive = false) : Exclusive (state.write ids fields) :=
  h.write hid hkind fun row hlive => by simp [hended] at hlive

theorem put (h : Exclusive state) (slot : Nat) (task : Task) : Exclusive (state.put slot task) :=
  h.of_jobs rfl rfl

theorem audit (h : Exclusive state) (job : Nat) (action : Action) (outcome : String) :
    Exclusive (state.audit job action outcome) :=
  h.of_jobs rfl rfl

theorem turn (h : Exclusive state) (slot : Nat) : Exclusive (turn state slot) := by
  unfold Jobs.turn
  cases state.task slot with
  | ended | working => exact h
  | reaping | launching | finished => exact h.put _ _
  | judging unjudged => cases unjudged <;> exact h.put _ _
  | auditing unaudited =>
      cases unaudited with
      | nil =>
          apply Exclusive.put
          apply h.write_ended <;> intro row <;> rfl
      | cons job unaudited => exact (h.audit _ _ _).put _ _
  | creating asked => exact h.create _ _
  | opening id => exact h.openJob _ _
  | loading id =>
      dsimp only
      split <;> exact h.put _ _
  | unstarted | finishing | failing => exact (h.audit _ _ _).put _ _
  | unstartedAudited | succeeding | failed =>
      apply Exclusive.put
      apply h.write_ended <;> intro row <;> rfl

theorem step (h : Exclusive state) (event : Event) : Exclusive (step state event) := by
  cases event with
  | tick | starts | reaps => exact h.of_jobs rfl rfl
  | turn slot => exact h.turn slot
  | launchFails | returns | raises =>
      simp only [Jobs.step]
      split
      · exact h.put _ _
      · exact h
  | progress slot note percent =>
      simp only [Jobs.step]
      split
      · exact h.write (fun _ => rfl) (fun _ => rfl) fun _ hlive => hlive
      · exact h
  | vanishes slot => exact h.put _ _

end Exclusive

theorem exclusive_opened (now : Nat) : Exclusive (.opened now) where
  keyed := List.nodup_nil
  fresh _ h := by cases h
  single _ h := by cases h

/-- In every run no two jobs of one kind are live. -/
theorem one_live_job_per_kind (now : Nat) (events : List Event) :
    Exclusive (run step (.opened now) events) :=
  run_always Exclusive (fun _ event h => h.step event) (exclusive_opened now) events

/-! ## The jobs that are acted for -/

/-- A job nothing acts for: it is live, no ending is audited for it, and no task has a
statement to make for it. -/
structure State.Abandoned (state : State) (id : Nat) : Prop where
  live : ∃ row ∈ state.jobs, row.id = id ∧ row.isLive = true
  untold : state.told id = 0
  unheld : ∀ task ∈ state.tasks, id ∉ task.holds

/-- What a step does not do when reapers are right: a reaper that finds a job stale finds
one that nothing acts for. -/
def Abandons (state : State) : Event → Prop
  | .turn slot =>
      match state.task slot with
      | .judging (job :: _) _ _ => job.isStale state.now = true → state.Abandoned job.id
      | _ => True
  | _ => True

instance (id : Nat) : Decidable (state.Abandoned id) :=
  decidable_of_iff ((∃ row ∈ state.jobs, row.id = id ∧ row.isLive = true) ∧
      state.told id = 0 ∧ ∀ task ∈ state.tasks, id ∉ task.holds)
    ⟨fun ⟨hlive, huntold, hunheld⟩ => ⟨hlive, huntold, hunheld⟩,
      fun h => ⟨h.live, h.untold, h.unheld⟩⟩

instance (state : State) (event : Event) : Decidable (Abandons state event) := by
  unfold Abandons
  repeat' split
  all_goals infer_instance

/-- A task's list of endings still to audit is the rest of the jobs it found lost. -/
def Task.Listed : Task → Prop
  | .auditing unaudited lost _ _ => unaudited.map Job.id <:+ lost.map Job.id
  | _ => True

/-- A job is acted for by one task, while it is live, and its ending is audited once. -/
structure Orderly (state : State) : Prop where
  exclusive : Exclusive state
  told : ∀ ending ∈ state.endings, ending.job < state.nextId
  listed : ∀ slot, (state.task slot).Listed
  nodup : ∀ slot, (state.task slot).holds.Nodup
  alone : ∀ slot other id, id ∈ (state.task slot).holds → id ∈ (state.task other).holds →
    slot = other
  live : ∀ slot, ∀ id ∈ (state.task slot).holds, ∃ row ∈ state.jobs, row.id = id ∧
    row.isLive = true
  counts : ∀ slot, ∀ id ∈ (state.task slot).holds,
    state.told id = if id ∈ (state.task slot).audited then 1 else 0
  ended : ∀ row ∈ state.jobs, row.isLive = false → state.told row.id = 1

namespace Orderly

/-- A task goes on holding no job it did not hold, and having audited what it had. -/
theorem put (h : Orderly state) (hlisted : task.Listed) (hnodup : task.holds.Nodup)
    (hholds : ∀ id ∈ task.holds, id ∈ (state.task slot).holds)
    (haudited : ∀ id ∈ task.holds, id ∈ task.audited ↔ id ∈ (state.task slot).audited) :
    Orderly (state.put slot task) := by
  have hheld : ∀ other, ∀ id ∈ ((state.put slot task).task other).holds,
      id ∈ (state.task other).holds ∧
        (id ∈ ((state.put slot task).task other).audited ↔ id ∈ (state.task other).audited) := by
    intro other id hid
    rcases State.task_put state slot other task with hsame | ⟨rfl, htask⟩
    · rw [hsame] at hid ⊢
      exact ⟨hid, Iff.rfl⟩
    · rw [htask] at hid ⊢
      exact ⟨hholds id hid, haudited id hid⟩
  refine ⟨h.exclusive.put _ _, h.told, ?_, ?_, ?_, ?_, ?_, h.ended⟩
  · intro other
    rcases State.task_put state slot other task with hsame | ⟨-, htask⟩
    · rw [hsame]
      exact h.listed other
    · rw [htask]
      exact hlisted
  · intro other
    rcases State.task_put state slot other task with hsame | ⟨-, htask⟩
    · rw [hsame]
      exact h.nodup other
    · rw [htask]
      exact hnodup
  · intro first second id hfirst hsecond
    exact h.alone first second id (hheld first id hfirst).1 (hheld second id hsecond).1
  · intro other id hid
    exact h.live other id (hheld other id hid).1
  · intro other id hid
    obtain ⟨hold, haudits⟩ := hheld other id hid
    refine (h.counts other id hold).trans ?_
    simp only [haudits]

/-- A task goes on as one that holds no job. -/
theorem put_free (h : Orderly state) (hlisted : task.Listed) (hholds : task.holds = []) :
    Orderly (state.put slot task) := by
  apply h.put hlisted <;> simp [hholds]

/-- A task that holds no job begins. -/
theorem spawn (h : Orderly state) (hlisted : task.Listed) (hholds : task.holds = []) :
    Orderly (state.spawn task) := by
  have hheld : ∀ other, ∀ id ∈ ((state.spawn task).task other).holds,
      (state.spawn task).task other = state.task other := by
    intro other id hid
    rcases State.task_spawn state other task with hsame | hnew
    · exact hsame
    · rw [hnew, hholds] at hid
      cases hid
  refine ⟨h.exclusive.of_jobs rfl rfl, h.told, ?_, ?_, ?_, ?_, ?_, h.ended⟩
  · intro other
    rcases State.task_spawn state other task with hsame | hnew
    · rw [hsame]
      exact h.listed other
    · rw [hnew]
      exact hlisted
  · intro other
    rcases State.task_spawn state other task with hsame | hnew
    · rw [hsame]
      exact h.nodup other
    · rw [hnew, hholds]
      exact List.nodup_nil
  · intro first second id hfirst hsecond
    rw [hheld first id hfirst] at hfirst
    rw [hheld second id hsecond] at hsecond
    exact h.alone first second id hfirst hsecond
  · intro other id hid
    rw [hheld other id hid] at hid
    exact h.live other id hid
  · intro other id hid
    have hsame := hheld other id hid
    rw [hsame] at hid ⊢
    exact h.counts other id hid

theorem live_of_holds (h : Orderly state) {row : Job} (hrow : row ∈ state.jobs)
    (hid : row.id ∈ (state.task slot).holds) : row.isLive = true := by
  obtain ⟨found, hfound, hsame, hlive⟩ := h.live slot row.id hid
  rwa [← Table.eq_of_column_eq h.exclusive.keyed hfound hrow hsame]

theorem told_audit (job id : Nat) (action : Action) (outcome : String) :
    (state.audit job action outcome).told id = state.told id + if job = id then 1 else 0 := by
  unfold State.told State.audit
  rw [List.countP_append]
  by_cases hjob : job = id <;> simp [hjob]

/-- A task audits the ending of a job it holds and has not audited. -/
theorem audit_put (h : Orderly state) {job : Nat} (hheld : job ∈ (state.task slot).holds)
    (huntold : job ∉ (state.task slot).audited) (hlisted : task.Listed)
    (hholds : task.holds = (state.task slot).holds)
    (haudited : ∀ id ∈ task.holds,
      id ∈ task.audited ↔ id ∈ (state.task slot).audited ∨ id = job)
    (action : Action) (outcome : String) :
    Orderly ((state.audit job action outcome).put slot task) := by
  have hslot : slot < state.tasks.length := State.lt_of_holds hheld
  have hself : ((state.audit job action outcome).put slot task).task slot = task :=
    State.task_put_self hslot
  have hother : ∀ other, other ≠ slot →
      ((state.audit job action outcome).put slot task).task other = state.task other :=
    fun other hne => State.task_put_of_ne hne
  have hsame : ∀ other, (((state.audit job action outcome).put slot task).task other).holds =
      (state.task other).holds := by
    intro other
    by_cases hne : other = slot
    · rw [hne, hself, hholds]
    · rw [hother other hne]
  obtain ⟨row, hrow, hrowid, hlive⟩ := h.live slot job hheld
  refine ⟨(h.exclusive.audit _ _ _).put _ _, ?_, ?_, ?_, ?_, ?_, ?_, ?_⟩
  · intro ending hending
    rcases List.mem_append.mp hending with hold | hnew
    · exact h.told ending hold
    · obtain rfl := List.mem_singleton.mp hnew
      show job < state.nextId
      exact hrowid ▸ h.exclusive.fresh row hrow
  · intro other
    by_cases hne : other = slot
    · rw [hne, hself]
      exact hlisted
    · rw [hother other hne]
      exact h.listed other
  · intro other
    rw [hsame]
    exact h.nodup other
  · intro first second id hfirst hsecond
    rw [hsame] at hfirst hsecond
    exact h.alone first second id hfirst hsecond
  · intro other id hid
    rw [hsame] at hid
    exact h.live other id hid
  · intro other id hid
    have hold := hid
    rw [hsame] at hold
    show (state.audit job action outcome).told id = _
    rw [told_audit, h.counts other id hold]
    by_cases hne : other = slot
    · subst hne
      rw [hself] at hid ⊢
      by_cases hjob : job = id
      · subst hjob
        simp [huntold, (haudited job hid).mpr (.inr rfl)]
      · have hiff : id ∈ task.audited ↔ id ∈ (state.task other).audited := by
          simpa [Ne.symm hjob] using haudited id hid
        simp [hjob, hiff]
    · have hjob : job ≠ id := fun hjob => hne (h.alone other slot id hold (hjob ▸ hheld))
      rw [hother other hne]
      simp [hjob]
  · intro other hmem hended
    show (state.audit job action outcome).told other.id = 1
    have hjob : job ≠ other.id := by
      intro hjob
      rw [h.live_of_holds hmem (hjob ▸ hheld)] at hended
      cases hended
    rw [told_audit, h.ended other hmem hended, if_neg hjob]

/-- A task ends every job it holds once it has audited each. -/
theorem write_put (h : Orderly state) {ids : List Nat} {fields : Job → Job}
    (hids : (state.task slot).holds = ids)
    (haudited : ∀ id ∈ (state.task slot).holds, id ∈ (state.task slot).audited)
    (hid : ∀ row, (fields row).id = row.id) (hkind : ∀ row, (fields row).kind = row.kind)
    (hended : ∀ row, (fields row).isLive = false) (hlisted : task.Listed)
    (hholds : task.holds = []) : Orderly ((state.write ids fields).put slot task) := by
  subst hids
  have hheld : ∀ other, ∀ id ∈ (((state.write (state.task slot).holds fields).put slot
      task).task other).holds, other ≠ slot ∧ id ∈ (state.task other).holds ∧
        ((state.write (state.task slot).holds fields).put slot task).task other =
          state.task other := by
    intro other id hid
    have hne := State.ne_of_holds_put hholds hid
    have hsame : ((state.write (state.task slot).holds fields).put slot task).task other =
        state.task other := State.task_put_of_ne hne
    exact ⟨hne, hsame ▸ hid, hsame⟩
  refine ⟨(h.exclusive.write_ended hid hkind hended).put _ _, h.told, ?_, ?_, ?_, ?_, ?_, ?_⟩
  · intro other
    rcases State.task_put (state.write (state.task slot).holds fields) slot other task with
        hsame | ⟨-, hnew⟩
    · rw [hsame]
      exact h.listed other
    · rw [hnew]
      exact hlisted
  · intro other
    rcases State.task_put (state.write (state.task slot).holds fields) slot other task with
        hsame | ⟨-, hnew⟩
    · rw [hsame]
      exact h.nodup other
    · rw [hnew, hholds]
      exact List.nodup_nil
  · intro first second id hfirst hsecond
    exact h.alone first second id (hheld first id hfirst).2.1 (hheld second id hsecond).2.1
  · intro other id hid
    obtain ⟨hne, hold, -⟩ := hheld other id hid
    obtain ⟨row, hrow, rfl, hlive⟩ := h.live other id hold
    have hunselected : row.id ∉ (state.task slot).holds := fun hslot =>
      hne (h.alone other slot row.id hold hslot)
    exact ⟨row, Table.mem_update.mpr (.inl ⟨hrow, by simpa using hunselected⟩), rfl, hlive⟩
  · intro other id hid
    obtain ⟨-, hold, hsame⟩ := hheld other id hid
    rw [hsame]
    exact h.counts other id hold
  · intro row hrow hdead
    show state.told row.id = 1
    rcases Table.mem_update.mp hrow with ⟨hold, -⟩ | ⟨old, hold, hselects, rfl⟩
    · exact h.ended row hold hdead
    · have hslot : old.id ∈ (state.task slot).holds := by simpa using hselects
      rw [hid, h.counts slot old.id hslot, if_pos (haudited old.id hslot)]

/-- A write that leaves a job as live as it was. -/
theorem write_same (h : Orderly state) {id : Nat} {fields : Job → Job}
    (hexclusive : Exclusive (state.write [id] fields)) (hid : ∀ row, (fields row).id = row.id)
    (hlive : ∀ row ∈ state.jobs, row.id = id → (fields row).isLive = row.isLive) :
    Orderly (state.write [id] fields) := by
  refine ⟨hexclusive, h.told, h.listed, h.nodup, h.alone, ?_, h.counts, ?_⟩
  · intro other held hheld
    obtain ⟨row, hrow, rfl, hrowlive⟩ := h.live other held hheld
    by_cases hsame : row.id = id
    · exact ⟨fields row, Table.mem_update.mpr (.inr ⟨row, hrow, by simp [hsame], rfl⟩), hid row,
        (hlive row hrow hsame).trans hrowlive⟩
    · exact ⟨row, Table.mem_update.mpr (.inl ⟨hrow, by simp [hsame]⟩), rfl, hrowlive⟩
  · intro row hrow hdead
    show state.told row.id = 1
    rcases Table.mem_update.mp hrow with ⟨hold, -⟩ | ⟨old, hold, hselects, rfl⟩
    · exact h.ended row hold hdead
    · rw [hid]
      exact h.ended old hold ((hlive old hold (by simpa using hselects)).symm.trans hdead)

theorem openJob (h : Orderly state) {id : Nat} (htask : state.task slot = .opening id) :
    Orderly (openJob state slot id) := by
  have hload : ∀ next : State, Orderly next → next.task slot = .opening id →
      Orderly (next.put slot (.loading id)) := by
    intro next hnext hnexttask
    refine hnext.put ?_ ?_ ?_ ?_ <;> simp [hnexttask, Task.Listed, Task.holds, Task.audited]
  have hheld : id ∈ (state.task slot).holds := by simp [htask, Task.holds]
  have hexclusive := h.exclusive.openJob slot id
  unfold Jobs.openJob at hexclusive ⊢
  split
  · exact hload state h htask
  · rename_i row hfound
    by_cases htaken : state.taken row.kind id
    · rw [if_pos htaken]
      exact h.put_free trivial rfl
    · rw [hfound] at hexclusive
      simp only [htaken, Bool.false_eq_true, if_false] at hexclusive ⊢
      refine hload _ (h.write_same (hexclusive.of_jobs rfl rfl) (fun _ => rfl) ?_) htask
      rintro old hold rfl
      exact (h.live_of_holds hold hheld).symm

theorem create (h : Orderly state) {asked : Asked} (htask : state.task slot = .creating asked) :
    Orderly (create state slot asked) := by
  have hexclusive := h.exclusive.create slot asked
  unfold Jobs.create at hexclusive ⊢
  by_cases hany : state.jobs.any fun row => row.isLive && row.kind == asked.kind
  · rw [if_pos hany]
    exact h.put_free trivial rfl
  rw [if_neg hany] at hexclusive ⊢
  dsimp only at hexclusive ⊢
  generalize hnew : (if asked.background then Task.launching (created asked state.nextId state.now)
    else .opening (created asked state.nextId state.now).id) = new at hexclusive ⊢
  have hholds : new.holds = [state.nextId] := by
    subst hnew
    split_ifs <;> rfl
  have haudited : new.audited = [] := by
    subst hnew
    split_ifs <;> rfl
  have hlisted : new.Listed := by
    subst hnew
    split_ifs <;> trivial
  have hslot : slot < state.tasks.length := by
    apply Slots.lt_length_of_task_ne
    rw [← State.task, htask]
    simp [default]
  have hfresh : ∀ other, state.nextId ∉ (state.task other).holds := by
    intro other hheld
    obtain ⟨row, hrow, hrowid, -⟩ := h.live other _ hheld
    exact absurd hrowid (Nat.ne_of_lt (h.exclusive.fresh row hrow))
  have huntold : state.told state.nextId = 0 := by
    refine List.countP_eq_zero.mpr fun ending hending => ?_
    simpa using Nat.ne_of_lt (h.told ending hending)
  set next : State := { state with
    jobs := state.jobs ++ [created asked state.nextId state.now], nextId := state.nextId + 1 }
  have hself : (next.put slot new).task slot = new := State.task_put_self hslot
  have hother : ∀ other, other ≠ slot → (next.put slot new).task other = state.task other :=
    fun other hne => State.task_put_of_ne hne
  refine ⟨hexclusive, ?_, ?_, ?_, ?_, ?_, ?_, ?_⟩
  · exact fun ending hending => Nat.lt_succ_of_lt (h.told ending hending)
  · intro other
    by_cases hne : other = slot
    · rwa [hne, hself]
    · rw [hother other hne]
      exact h.listed other
  · intro other
    by_cases hne : other = slot
    · rw [hne, hself, hholds]
      exact List.nodup_singleton _
    · rw [hother other hne]
      exact h.nodup other
  · intro first second id hfirst hsecond
    by_cases hone : first = slot <;> by_cases htwo : second = slot
    · rw [hone, htwo]
    · rw [hone, hself, hholds] at hfirst
      rw [hother second htwo, List.mem_singleton.mp hfirst] at hsecond
      exact absurd hsecond (hfresh second)
    · rw [htwo, hself, hholds] at hsecond
      rw [hother first hone, List.mem_singleton.mp hsecond] at hfirst
      exact absurd hfirst (hfresh first)
    · rw [hother first hone] at hfirst
      rw [hother second htwo] at hsecond
      exact h.alone first second id hfirst hsecond
  · intro other id hid
    by_cases hne : other = slot
    · rw [hne, hself, hholds] at hid
      obtain rfl := List.mem_singleton.mp hid
      exact ⟨created asked state.nextId state.now, by simp [next, State.put], rfl, rfl⟩
    · rw [hother other hne] at hid
      obtain ⟨row, hrow, hrowid, hlive⟩ := h.live other id hid
      exact ⟨row, List.mem_append_left _ hrow, hrowid, hlive⟩
  · intro other id hid
    by_cases hne : other = slot
    · rw [hne, hself] at hid ⊢
      rw [hholds] at hid
      obtain rfl := List.mem_singleton.mp hid
      rw [haudited]
      exact huntold
    · rw [hother other hne] at hid ⊢
      exact h.counts other id hid
  · intro row hrow hdead
    rcases List.mem_append.mp hrow with hold | hadded
    · exact h.ended row hold hdead
    · obtain rfl := List.mem_singleton.mp hadded
      cases hdead

/-- A reaper finds a job stale that nothing acts for. -/
theorem found (h : Orderly state) {job : Job} {unjudged lost : List Job} {next : Option Asked}
    (htask : state.task slot = .judging (job :: unjudged) lost next)
    (habandoned : state.Abandoned job.id) :
    Orderly (state.put slot (.judging unjudged (lost ++ [job]) next)) := by
  have hunheld : ∀ other, job.id ∉ (state.task other).holds := by
    intro other hheld
    have hlt : other < state.tasks.length := State.lt_of_holds hheld
    exact habandoned.unheld _ (Slots.task_mem hlt) hheld
  have hslot : slot < state.tasks.length := by
    apply Slots.lt_length_of_task_ne
    rw [← State.task, htask]
    simp [default]
  have hlost : (state.task slot).holds = lost.map Job.id := by simp [htask, Task.holds]
  set new : Task := .judging unjudged (lost ++ [job]) next with hnew
  have hholds : new.holds = lost.map Job.id ++ [job.id] := by simp [hnew, Task.holds]
  have hself : (state.put slot new).task slot = new := State.task_put_self hslot
  have hother : ∀ other, other ≠ slot → (state.put slot new).task other = state.task other :=
    fun other hne => State.task_put_of_ne hne
  -- what a slot holds now it held before, or it is the job found
  have hheld : ∀ other, ∀ id ∈ ((state.put slot new).task other).holds,
      id ∈ (state.task other).holds ∨ other = slot ∧ id = job.id := by
    intro other id hid
    by_cases hne : other = slot
    · rw [hne, hself, hholds] at hid
      rw [hne, hlost]
      rcases List.mem_append.mp hid with hold | hjob
      · exact .inl hold
      · exact .inr ⟨rfl, List.mem_singleton.mp hjob⟩
    · rw [hother other hne] at hid
      exact .inl hid
  refine ⟨h.exclusive.put _ _, h.told, ?_, ?_, ?_, ?_, ?_, h.ended⟩
  · intro other
    by_cases hne : other = slot
    · rw [hne, hself]
      trivial
    · rw [hother other hne]
      exact h.listed other
  · intro other
    by_cases hne : other = slot
    · rw [hne, hself, hholds, List.nodup_append]
      refine ⟨hlost ▸ h.nodup slot, List.nodup_singleton _, ?_⟩
      rintro id hid _ hjob rfl
      rw [List.mem_singleton.mp hjob, ← hlost] at hid
      exact hunheld slot hid
    · rw [hother other hne]
      exact h.nodup other
  · intro first second id hfirst hsecond
    rcases hheld first id hfirst with hone | ⟨hone, hfound⟩ <;>
      rcases hheld second id hsecond with htwo | ⟨htwo, hagain⟩
    · exact h.alone first second id hone htwo
    · exact absurd (hagain ▸ hone) (hunheld first)
    · exact absurd (hfound ▸ htwo) (hunheld second)
    · rw [hone, htwo]
  · intro other id hid
    rcases hheld other id hid with hold | ⟨-, rfl⟩
    · exact h.live other id hold
    · exact habandoned.live
  · intro other id hid
    show state.told id = _
    rcases hheld other id hid with hold | ⟨rfl, rfl⟩
    · rw [h.counts other id hold]
      by_cases hne : other = slot
      · rw [hne, hself, htask]
        simp [hnew, Task.audited]
      · rw [hother other hne]
    · rw [hself, habandoned.untold]
      simp [hnew, Task.audited]

theorem turn (h : Orderly state) (slot : Nat) (habandons : Abandons state (.turn slot)) :
    Orderly (turn state slot) := by
  unfold Jobs.turn
  cases htask : state.task slot with
  | ended | working => exact h
  | reaping | launching | finished =>
      refine h.put ?_ ?_ ?_ ?_ <;> simp [htask, Task.Listed, Task.holds, Task.audited]
  | judging unjudged lost next =>
      have hlost : (lost.map Job.id).Nodup := by simpa [htask, Task.holds] using h.nodup slot
      cases unjudged with
      | nil =>
          dsimp only
          split_ifs
          · cases next <;> exact h.put_free trivial rfl
          · refine h.put ?_ ?_ ?_ ?_ <;> simp [htask, Task.Listed, Task.holds, Task.audited, hlost]
      | cons job unjudged =>
          dsimp only
          split_ifs with hstale
          · refine h.found htask ?_
            simp only [Abandons, htask] at habandons
            exact habandons hstale
          · refine h.put ?_ ?_ ?_ ?_ <;> simp [htask, Task.Listed, Task.holds, Task.audited, hlost]
  | auditing unaudited lost endedAt next =>
      have hlost : (lost.map Job.id).Nodup := by simpa [htask, Task.holds] using h.nodup slot
      have hrest : unaudited.map Job.id <:+ lost.map Job.id := by
        simpa [htask, Task.Listed] using h.listed slot
      cases unaudited with
      | nil =>
          apply h.write_put
          · simp [htask, Task.holds]
          · simp [htask, Task.holds, Task.audited]
          · intro row
            rfl
          · intro row
            rfl
          · intro row
            rfl
          · cases next <;> trivial
          · cases next <;> rfl
      | cons job unaudited =>
          have hnodup := hrest.sublist.nodup hlost
          rw [List.map_cons, List.nodup_cons] at hnodup
          apply h.audit_put
          · simpa [htask, Task.holds] using hrest.subset List.mem_cons_self
          · simp [htask, Task.audited]
          · exact (List.suffix_cons _ _).trans hrest
          · simp [htask, Task.holds]
          · intro id hid
            rw [htask]
            simp only [Task.holds] at hid
            by_cases hjob : id = job.id
            · subst hjob
              have hlast : ∀ other ∈ unaudited, other.id ≠ job.id := by
                simpa using hnodup.1
              simpa [Task.audited, hid] using hlast
            · simp [Task.audited, hid, hjob]
  | creating asked => exact h.create htask
  | opening id => exact h.openJob htask
  | loading id =>
      dsimp only
      split
      · exact h.put_free trivial rfl
      · rename_i job hfound
        have hid : job.id = id := by simpa using List.find?_some hfound
        refine h.put ?_ ?_ ?_ ?_ <;> simp [htask, Task.Listed, Task.holds, Task.audited, hid]
  | unstarted | finishing | failing =>
      apply h.audit_put <;> simp [htask, Task.Listed, Task.holds, Task.audited]
  | unstartedAudited | succeeding | failed =>
      apply h.write_put <;> simp [htask, Task.Listed, Task.holds, Task.audited, Job.isLive]

theorem step (h : Orderly state) (event : Event) (habandons : Abandons state event) :
    Orderly (step state event) := by
  cases event with
  | tick microseconds =>
      exact ⟨h.exclusive.of_jobs rfl rfl, h.told, h.listed, h.nodup, h.alone, h.live, h.counts,
        h.ended⟩
  | starts | reaps => exact h.spawn trivial rfl
  | turn slot => exact h.turn slot habandons
  | launchFails slot | returns slot | raises slot =>
      simp only [Jobs.step]
      split
      · rename_i job htask
        refine h.put ?_ ?_ ?_ ?_ <;> simp [htask, Task.Listed, Task.holds, Task.audited]
      · exact h
  | progress slot note percent =>
      simp only [Jobs.step]
      split
      · refine h.write_same ?_ (fun _ => rfl) fun _ _ _ => rfl
        exact h.exclusive.write (fun _ => rfl) (fun _ => rfl) fun _ hlive => hlive
      · exact h
  | vanishes slot => exact h.put_free trivial rfl

end Orderly

theorem orderly_opened (now : Nat) : Orderly (.opened now) where
  exclusive := exclusive_opened now
  told _ h := by cases h
  listed _ := trivial
  nodup _ := List.nodup_nil
  alone _ _ _ h := by cases h
  live _ _ h := by cases h
  counts _ _ h := by cases h
  ended _ h := by cases h

/-! ## A job that ended stays as it ended -/

/-- Every job that had ended is there, in the state it ended in. -/
def Kept (state next : State) : Prop :=
  ∀ row ∈ state.jobs, row.isLive = false →
    ∃ still ∈ next.jobs, still.id = row.id ∧ still.state = row.state

instance (state next : State) : Decidable (Kept state next) := by
  unfold Kept
  infer_instance

instance : Std.Refl Kept where
  refl _ row hrow _ := ⟨row, hrow, rfl, rfl⟩

instance : IsTrans State Kept where
  trans _ _ _ hfirst hsecond row hrow hdead := by
    obtain ⟨still, hstill, hid, hstate⟩ := hfirst row hrow hdead
    have hstilldead : still.isLive = false := by
      rw [← hdead, Job.isLive, Job.isLive, hstate]
    obtain ⟨last, hlast, hlastid, hlaststate⟩ := hsecond still hstill hstilldead
    exact ⟨last, hlast, hlastid.trans hid, hlaststate.trans hstate⟩

theorem kept_of_jobs {next : State} (hjobs : next.jobs = state.jobs) : Kept state next :=
  fun row hrow _ => ⟨row, hjobs ▸ hrow, rfl, rfl⟩

/-- A write keeps what ended if each row it selects is live, or stays in its state. -/
theorem kept_write {ids : List Nat} {fields : Job → Job} (hid : ∀ row, (fields row).id = row.id)
    (hkeep : ∀ row ∈ state.jobs, row.id ∈ ids →
      row.isLive = true ∨ (fields row).state = row.state) : Kept state (state.write ids fields) := by
  intro row hrow hdead
  by_cases hselects : row.id ∈ ids
  · rcases hkeep row hrow hselects with hlive | hsame
    · rw [hlive] at hdead
      cases hdead
    · exact ⟨fields row, Table.mem_update.mpr (.inr ⟨row, hrow, by simpa using hselects, rfl⟩),
        hid row, hsame⟩
  · exact ⟨row, Table.mem_update.mpr (.inl ⟨hrow, by simpa using hselects⟩), rfl, rfl⟩

namespace Orderly

/-- A write for jobs a task holds keeps what ended. -/
theorem kept_write (h : Orderly state) (slot : Nat) {ids : List Nat} {fields : Job → Job}
    (hids : ∀ id ∈ ids, id ∈ (state.task slot).holds) (hid : ∀ row, (fields row).id = row.id) :
    Kept state (state.write ids fields) :=
  Jobs.kept_write hid fun _ hrow hselects => .inl (h.live_of_holds hrow (hids _ hselects))

theorem kept_turn (h : Orderly state) (slot : Nat) : Kept state (Jobs.turn state slot) := by
  have hsame : ∀ {next : State}, next.jobs = state.jobs → Kept state next := kept_of_jobs
  unfold Jobs.turn
  cases htask : state.task slot with
  | ended | working => exact hsame rfl
  | reaping | launching | finished => exact hsame rfl
  | judging unjudged => cases unjudged <;> exact hsame rfl
  | unstarted | finishing | failing => exact hsame rfl
  | loading id =>
      dsimp only
      split <;> exact hsame rfl
  | creating asked =>
      dsimp only [Jobs.create]
      split_ifs
      · exact hsame rfl
      all_goals exact fun row hrow _ => ⟨row, List.mem_append_left _ hrow, rfl, rfl⟩
  | auditing unaudited lost =>
      cases unaudited with
      | nil => exact h.kept_write slot (by simp [htask, Task.holds]) fun _ => rfl
      | cons job unaudited => exact hsame rfl
  | unstartedAudited | succeeding | failed =>
      exact h.kept_write slot (by simp [htask, Task.holds]) fun _ => rfl
  | opening id =>
      dsimp only [Jobs.openJob]
      split
      · exact hsame rfl
      · split_ifs
        · exact hsame rfl
        · exact h.kept_write slot (by simp [htask, Task.holds]) fun _ => rfl

theorem kept_step (h : Orderly state) (event : Event) : Kept state (Jobs.step state event) := by
  cases event with
  | tick | starts | reaps | vanishes => exact kept_of_jobs rfl
  | turn slot => exact h.kept_turn slot
  | launchFails | returns | raises =>
      simp only [Jobs.step]
      split <;> exact kept_of_jobs rfl
  | progress slot note percent =>
      simp only [Jobs.step]
      split
      · exact Jobs.kept_write (fun _ => rfl) fun _ _ _ => .inr rfl
      · exact kept_of_jobs rfl

end Orderly

/-- In every run in which reapers find stale only jobs nothing acts for: a job that ended is
in the state it ended in ever after, one ending is audited for it, and no two jobs of a kind
are live. -/
theorem endings_final (now : Nat) (before after : List Event)
    (h : Meets step Abandons (.opened now) (before ++ after)) :
    let earlier := run step (.opened now) before
    let later := run step earlier after
    Kept earlier later ∧
      (∀ row ∈ later.jobs, row.isLive = false → later.told row.id = 1) ∧
      ∀ row ∈ later.jobs, ∀ other ∈ later.jobs, row.isLive = true → other.isLive = true →
        row.kind = other.kind → row.id = other.id := by
  intro earlier later
  obtain ⟨hbefore, hafter⟩ := h.append
  have hearlier : Orderly earlier :=
    run_invariant Orderly (fun _ event h => h.step event) (orderly_opened now) hbefore
  have hlater : Orderly later :=
    run_invariant Orderly (fun _ event h => h.step event) hearlier hafter
  refine ⟨?_, hlater.ended, hlater.exclusive.single⟩
  exact run_related Orderly Kept (fun _ event h => h.step event)
    (fun _ event h _ => h.kept_step event) hearlier hafter

/-- A job whose process stopped is found, marked lost, and makes room for the next. -/
theorem vanished_job_final :
    let asked : Asked := ⟨"import", "timer", none, true⟩
    let before : List Event := .starts asked :: List.replicate 6 (.turn 0) ++
      [.vanishes 0, .tick 300000001, .reaps] ++ List.replicate 5 (.turn 1)
    let after : List Event := .starts asked :: List.replicate 5 (.turn 2)
    let earlier := run step (.opened 0) before
    let later := run step earlier after
    Kept earlier later ∧
      (∀ row ∈ later.jobs, row.isLive = false → later.told row.id = 1) ∧
      ∀ row ∈ later.jobs, ∀ other ∈ later.jobs, row.isLive = true → other.isLive = true →
        row.kind = other.kind → row.id = other.id :=
  endings_final 0 _ _ (by decide)

/-- A job at work says nothing for five minutes, is marked lost, and then succeeds. -/
theorem silent_job_ends_twice :
    let asked : Asked := ⟨"import", "timer", none, true⟩
    let before : List Event := .starts asked :: List.replicate 6 (.turn 0) ++
      [.tick 300000001, .reaps] ++ List.replicate 5 (.turn 1)
    let after : List Event := .returns 0 ⟨"\x7b\x7d", false⟩ true :: List.replicate 3 (.turn 0)
    let earlier := run step (.opened 0) before
    let later := run step earlier after
    ¬ Kept earlier later ∧ later.told 0 = 2 ∧
      earlier.jobs.map Job.state = [.lost] ∧ later.jobs.map Job.state = [.succeeded] := by
  decide

end SeverinoHQ.Jobs
