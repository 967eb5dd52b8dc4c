/-
# What reaches a stream, and what it is owed

An event reaches a stream only if its caller was let act since the publish or settle began,
in every run. That nothing is left owed to a caller who is let act holds of the runs in which
no delivery records, as owed, what has become deliverable with nobody left to deliver it.
-/

import Mathlib
import SeverinoHQ.Agents.Listen

namespace SeverinoHQ.Agents.Listen

open SeverinoHQ.Math

variable {κ ε : Type} {state : State κ ε} {slot : Nat} {new : Task κ ε}

/-! ## An event reaches a stream whose caller was let act -/

/-- A stream a delivery took is still unread, was refused, or was read in an epoch since the
delivery's task began in which its caller was let act. -/
def Task.Heard (state : State κ ε) : Task κ ε → Prop
  | .delivering begun _ streams unread refused _ _ =>
      begun ≤ state.epoch ∧ ∀ stream ∈ streams, stream ∈ unread ∨ stream ∈ refused ∨
        ∃ epoch, begun ≤ epoch ∧ epoch ≤ state.epoch ∧ state.Lets epoch stream.principal
  | .published begun _ _ => begun ≤ state.epoch
  | _ => True

/-- What was delivered was allowed, and what is being delivered is as it was read. -/
structure Heard (state : State κ ε) : Prop where
  epochs : state.epochs ≠ []
  tasks : ∀ slot, (state.task slot).Heard state
  delivered : ∀ delivery ∈ state.delivered, ∃ epoch, delivery.begun ≤ epoch ∧
    epoch ≤ delivery.delivered ∧ state.Lets epoch delivery.stream.principal

theorem Task.heard_deliver {begun : Nat} {event : ε}
    {streams owing : List (Stream κ)} {remaining : List ε}
    (hbegun : begun ≤ state.epoch) (h : deliver begun event streams owing remaining = some new) :
    new.Heard state := by
  unfold deliver at h
  split_ifs at h
  obtain rfl := Option.some.inj h
  exact ⟨hbegun, fun stream hstream => .inl hstream⟩

namespace Heard

/-- A task goes on while the brakes stay as they are. -/
theorem put (h : Heard state) (hnew : new.Heard state) :
    Heard (state.put slot new) := by
  refine ⟨h.epochs, fun other => ?_, h.delivered⟩
  rcases Slots.task_set state.tasks slot other new with hsame | ⟨-, hput⟩
  · have hother := h.tasks other
    unfold State.task at hother ⊢
    rwa [State.put, hsame]
  · unfold State.task
    rwa [State.put, hput]

/-- The state changes, but for the brakes, the tasks and what was delivered. -/
theorem of_same {next : State κ ε} (h : Heard state) (hepochs : next.epochs = state.epochs)
    (htasks : next.tasks = state.tasks) (hdelivered : next.delivered = state.delivered) :
    Heard next := by
  obtain ⟨epochs, entries, reaching, delivered, tasks⟩ := next
  subst hepochs htasks hdelivered
  exact ⟨h.epochs, h.tasks, h.delivered⟩

theorem spawn (h : Heard state) (hnew : new.Heard state) : Heard (state.spawn new) := by
  refine ⟨h.epochs, fun other => ?_, h.delivered⟩
  rcases Slots.task_append state.tasks other new with hsame | hspawned
  · have hother := h.tasks other
    unfold State.task at hother ⊢
    rwa [State.spawn, hsame]
  · unfold State.task
    rwa [State.spawn, hspawned]

/-- The brakes change. -/
theorem brakes (h : Heard state) (refused : List κ) :
    Heard { state with epochs := state.epochs ++ [refused] } := by
  have hlater : state.epoch ≤ State.epoch { state with epochs := state.epochs ++ [refused] } := by
    simp [State.epoch]
  refine ⟨by simp, fun slot => ?_, fun delivery hdelivery => ?_⟩
  · have hslot := h.tasks slot
    show Task.Heard _ (state.task slot)
    cases htask : state.task slot with
    | delivering begun event streams unread refused owing remaining =>
        rw [htask] at hslot
        refine ⟨Nat.le_trans hslot.1 hlater, fun stream hstream => ?_⟩
        rcases hslot.2 stream hstream with hunread | hrefused | ⟨epoch, hbegun, hnow, hlets⟩
        · exact .inl hunread
        · exact .inr (.inl hrefused)
        · exact .inr (.inr ⟨epoch, hbegun, Nat.le_trans hnow hlater, hlets.append rfl⟩)
    | published begun owing remaining =>
        rw [htask] at hslot
        exact Nat.le_trans hslot hlater
    | ended | toldTools | toldStanding | publish | settle => trivial
  · obtain ⟨epoch, hbegun, hthen, hlets⟩ := h.delivered delivery hdelivery
    exact ⟨epoch, hbegun, hthen, hlets.append rfl⟩

theorem publish (h : Heard state) (slot : Nat) (event : ε) (aimed : κ → Bool) :
    Heard (publish state slot event aimed) := by
  unfold Listen.publish
  apply h.put
  cases hdeliver : deliver state.epoch event
      (state.openStreams.filter fun stream => aimed stream.principal) [] [] with
  | none => trivial
  | some task => exact Task.heard_deliver (Nat.le_refl _) hdeliver

section Decided

variable [DecidableEq κ] [DecidableEq ε]

theorem settleRest {begun : Nat} (hbegun : begun ≤ state.epoch) (owing : List (Stream κ))
    (order : List ε) : (settleRest state begun owing order).Heard state := by
  induction order with
  | nil => trivial
  | cons event remaining ih =>
      unfold Listen.settleRest
      cases hdeliver : deliver begun event (owing.filter (state.owes · event)) owing remaining with
      | none => exact ih
      | some task => exact Task.heard_deliver hbegun hdeliver

/-- What a delivery records reached only callers it read as let act. -/
theorem record (h : Heard state) {begun : Nat} {event : ε} {streams refused owing : List (Stream κ)}
    {remaining : List ε}
    (htask : state.task slot = .delivering begun event streams [] refused owing remaining) :
    Heard (record state slot begun event streams refused owing remaining) := by
  have hread := h.tasks slot
  rw [htask] at hread
  obtain ⟨hbegun, hstreams⟩ := hread
  unfold Listen.record
  refine put ⟨h.epochs, h.tasks, fun delivery hdelivery => ?_⟩ hbegun
  rcases List.mem_append.mp hdelivery with hold | hnew
  · exact h.delivered delivery hold
  · obtain ⟨stream, hstream, rfl⟩ := List.mem_map.mp hnew
    have hreached : stream ∈ streams ∧ stream ∉ refused := by
      simpa using (List.mem_filter.mp hstream).2
    rcases hstreams stream hreached.1 with hunread | hrefused | hlets
    · cases hunread
    · exact absurd hrefused hreached.2
    · exact hlets

theorem turn (h : Heard state) (slot : Nat) : Heard (turn state slot) := by
  unfold Listen.turn
  cases htask : state.task slot with
  | ended | settle => exact h
  | toldTools | toldStanding =>
      apply h.put
      split_ifs <;> trivial
  | publish event aimed => exact h.publish slot event aimed
  | published begun owing remaining =>
      have hbegun := h.tasks slot
      rw [htask] at hbegun
      exact h.put (settleRest hbegun owing remaining)
  | delivering begun event streams unread refused owing remaining =>
      cases unread with
      | nil => exact h.record htask
      | cons stream unread =>
          have hread := h.tasks slot
          rw [htask] at hread
          refine h.put ⟨hread.1, fun other hother => ?_⟩
          by_cases hrefuses : state.refuses stream.principal
          · rw [if_pos hrefuses]
            rcases hread.2 other hother with hunread | hrefused | hlets
            · rcases List.mem_cons.mp hunread with rfl | hunread
              · exact .inr (.inl List.mem_cons_self)
              · exact .inl hunread
            · exact .inr (.inl (List.mem_cons_of_mem _ hrefused))
            · exact .inr (.inr hlets)
          · rw [if_neg hrefuses]
            rcases hread.2 other hother with hunread | hrefused | hlets
            · rcases List.mem_cons.mp hunread with rfl | hunread
              · exact .inr (.inr ⟨state.epoch, hread.1, Nat.le_refl _,
                  State.lets_of_refuses h.epochs (by simpa using hrefuses)⟩)
              · exact .inl hunread
            · exact .inr (.inl hrefused)
            · exact .inr (.inr hlets)

theorem step (h : Heard state) (event : Event κ ε) : Heard (step state event) := by
  cases event with
  | opens | closes => exact h.of_same rfl rfl rfl
  | brakes refused => exact (h.brakes refused).spawn trivial
  | changed => exact h.spawn trivial
  | turn slot => exact h.turn slot
  | settles slot order =>
      simp only [Listen.step]
      split
      · unfold settleOwed
        split_ifs
        · exact h.put (settleRest (Nat.le_refl _) _ _)
        · exact h
      · exact h

end Decided

end Heard

theorem heard_opened (refused : List κ) : Heard (State.opened refused : State κ ε) where
  epochs := by simp [State.opened]
  tasks _ := trivial
  delivered _ h := by cases h

/-! ## What a stream is owed -/

/-- What is in progress will still look at what a stream is owed: it is a change of the
brakes whose settle has not begun, a settle with the stream and the event ahead of it, or a
delivery of the event to the stream that has not read its caller as refused. -/
def Task.Covers : Task κ ε → Stream κ → ε → Prop
  | .ended, _, _ => False
  | .toldStanding, _, _ | .settle, _, _ => True
  | .toldTools event aimed, stream, other | .publish event aimed, stream, other =>
      event = other ∧ aimed stream.principal = true
  | .delivering _ event streams _ refused owing remaining, stream, other =>
      (event = other ∧ stream ∈ streams ∧ stream ∉ refused) ∨ (stream ∈ owing ∧ other ∈ remaining)
  | .published _ owing remaining, stream, other => stream ∈ owing ∧ other ∈ remaining

instance [DecidableEq κ] [DecidableEq ε] (task : Task κ ε) (stream : Stream κ) (event : ε) :
    Decidable (task.Covers stream event) := by
  cases task <;> unfold Task.Covers <;> infer_instance

/-- Something in progress covers what a stream is owed. -/
def State.Covered (state : State κ ε) (stream : Stream κ) (event : ε) : Prop :=
  ∃ task ∈ state.tasks, task.Covers stream event

instance [DecidableEq κ] [DecidableEq ε] (stream : Stream κ) (event : ε) :
    Decidable (state.Covered stream event) :=
  inferInstanceAs (Decidable (∃ task ∈ state.tasks, task.Covers stream event))

theorem State.Covered.exists_slot {stream : Stream κ} {event : ε}
    (h : state.Covered stream event) : ∃ slot, (state.task slot).Covers stream event := by
  obtain ⟨task, htask, hcovers⟩ := h
  obtain ⟨slot, rfl⟩ := Slots.exists_task_eq htask
  exact ⟨slot, hcovers⟩

theorem State.covered_of_slot (slot : Nat) {stream : Stream κ} {event : ε}
    (h : (state.task slot).Covers stream event) : state.Covered stream event := by
  refine ⟨state.task slot, Slots.task_mem (Slots.lt_length_of_task_ne fun hended => ?_), h⟩
  rw [State.task, hended] at h
  exact h

/-- A task that goes on covering what it covered leaves all that was covered so. -/
theorem State.Covered.put {stream : Stream κ} {event : ε} (h : state.Covered stream event)
    (hnew : (state.task slot).Covers stream event → new.Covers stream event) :
    (state.put slot new).Covered stream event := by
  obtain ⟨other, hother⟩ := h.exists_slot
  by_cases hne : other = slot
  · subst hne
    have hlt : other < state.tasks.length := by
      apply Slots.lt_length_of_task_ne
      intro hended
      rw [State.task, hended] at hother
      exact hother
    apply State.covered_of_slot other
    rw [State.task, State.put, Slots.task_set_self hlt]
    exact hnew hother
  · apply State.covered_of_slot other
    rw [State.task, State.put, Slots.task_set_of_ne hne]
    exact hother

theorem State.Covered.spawn {stream : Stream κ} {event : ε} (h : state.Covered stream event) :
    (state.spawn new).Covered stream event := by
  obtain ⟨task, htask, hcovers⟩ := h
  exact ⟨task, List.mem_append_left _ htask, hcovers⟩

theorem mem_openStreams {entry : Entry κ ε} (hentry : entry ∈ state.entries)
    (hopen : entry.isOpen = true) : entry.stream ∈ state.openStreams :=
  List.mem_map.mpr ⟨entry, List.mem_filter.mpr ⟨hentry, hopen⟩, rfl⟩

section Decided

variable [DecidableEq κ] [DecidableEq ε]

/-- What each open stream is owed waits for its caller to be let act, or is covered. -/
def Settled (state : State κ ε) : Prop :=
  ∀ entry ∈ state.entries, entry.isOpen = true → ∀ event ∈ entry.owed,
    state.refuses entry.stream.principal = false → state.Covered entry.stream event

/-- What a step does not do where nothing is lost: record that an open stream is owed an
event its caller may have by now, with nothing in progress that covers it. -/
def Records (state : State κ ε) : Event κ ε → Prop
  | .turn slot =>
      match state.task slot with
      | .delivering _ event streams [] refused _ _ =>
          ∀ entry ∈ state.entries, entry.isOpen = true → entry.stream ∈ streams →
            entry.stream ∈ refused → state.refuses entry.stream.principal = false →
              state.Covered entry.stream event
      | _ => True
  | _ => True

instance (state : State κ ε) (event : Event κ ε) : Decidable (Records state event) := by
  unfold Records
  repeat' split
  all_goals infer_instance

theorem owes_of_mem {entry : Entry κ ε} (hentry : entry ∈ state.entries) {event : ε}
    (hevent : event ∈ entry.owed) : state.owes entry.stream event = true :=
  List.any_eq_true.mpr ⟨entry, hentry, by simpa using hevent⟩

/-- A settle covers what the streams it took are owed of the events ahead of it. -/
theorem settleRest_covers {begun : Nat} {owing : List (Stream κ)} {order : List ε}
    {stream : Stream κ} {event : ε} (hstream : stream ∈ owing) (hevent : event ∈ order)
    (howes : state.owes stream event = true) :
    (settleRest state begun owing order).Covers stream event := by
  induction order with
  | nil => cases hevent
  | cons first remaining ih =>
      unfold settleRest deliver
      by_cases hempty : (owing.filter (state.owes · first)).isEmpty = true
      · rw [if_pos hempty]
        rcases List.mem_cons.mp hevent with rfl | hlater
        · have hmem : stream ∈ owing.filter (state.owes · event) := by simp [hstream, howes]
          rw [List.isEmpty_iff.mp hempty] at hmem
          cases hmem
        · exact ih hlater
      · rw [if_neg hempty]
        rcases List.mem_cons.mp hevent with rfl | hlater
        · exact .inl ⟨rfl, by simp [hstream, howes], by simp⟩
        · exact .inr ⟨hstream, hlater⟩

namespace Settled

omit [DecidableEq ε] in
/-- A task goes on, covering what it covered of what open streams may have. -/
theorem put (h : Settled state)
    (hnew : ∀ entry ∈ state.entries, entry.isOpen = true → ∀ event ∈ entry.owed,
      state.refuses entry.stream.principal = false →
      (state.task slot).Covers entry.stream event → new.Covers entry.stream event) :
    Settled (state.put slot new) := by
  intro entry hentry hopen event hevent hlets
  exact (h entry hentry hopen event hevent hlets).put (hnew entry hentry hopen event hevent hlets)

omit [DecidableEq ε] in
theorem spawn (h : Settled state) : Settled (state.spawn new) :=
  fun entry hentry hopen event hevent hlets => (h entry hentry hopen event hevent hlets).spawn

theorem record (h : Settled state) {begun : Nat} {event : ε}
    {streams refused owing : List (Stream κ)} {remaining : List ε}
    (htask : state.task slot = .delivering begun event streams [] refused owing remaining)
    (hrecords : Records state (.turn slot)) :
    Settled (record state slot begun event streams refused owing remaining) := by
  -- of what this delivery's task covered, what it is yet to settle stays covered
  have hstays : ∀ {stream : Stream κ} {owed : ε}, state.Covered stream owed →
      (event = owed → stream ∈ streams → stream ∈ refused) →
      (Listen.record state slot begun event streams refused owing remaining).Covered stream
        owed := by
    intro stream owed hcovered hheld
    have hput : (state.put slot (.published begun owing remaining)).Covered stream owed := by
      refine hcovered.put fun hcovers => ?_
      rw [htask] at hcovers
      rcases hcovers with ⟨hevent, hstream, hunrefused⟩ | hahead
      · exact absurd (hheld hevent hstream) hunrefused
      · exact hahead
    exact hput
  intro entry hentry hopen other hother hlets
  rcases Table.mem_update.mp hentry with ⟨hold, hselects⟩ | ⟨old, hold, hselects, rfl⟩
  · refine hstays (h entry hold hopen other hother hlets) fun _ hstream => ?_
    simp [hstream] at hselects
  have hstream : old.stream ∈ streams := by simpa using hselects
  by_cases hrefused : old.stream ∈ refused
  · have hcovered : state.Covered old.stream other := by
      have howed : other = event ∨ other ∈ old.owed := by simpa [hrefused] using hother
      rcases howed with rfl | howed
      · simp only [Records, htask] at hrecords
        exact hrecords old hold hopen hstream hrefused hlets
      · exact h old hold hopen other howed hlets
    exact hstays hcovered fun _ _ => hrefused
  · have howed : other ∈ old.owed ∧ other ≠ event := by simpa [hrefused] using hother
    exact hstays (h old hold hopen other howed.1 hlets) fun hevent => absurd hevent.symm howed.2

theorem turn (h : Settled state) (slot : Nat) (hrecords : Records state (.turn slot)) :
    Settled (turn state slot) := by
  have hopens : ∀ entry ∈ state.entries, entry.isOpen = true →
      state.openStreams.isEmpty = false := by
    intro entry hentry hopen
    rw [List.isEmpty_eq_false_iff]
    exact List.ne_nil_of_mem (mem_openStreams hentry hopen)
  unfold Listen.turn
  cases htask : state.task slot with
  | ended | settle => exact h
  | toldTools event aimed =>
      refine h.put fun entry hentry hopen other _ _ hcovers => ?_
      rw [htask] at hcovers
      rw [hopens entry hentry hopen]
      exact hcovers
  | toldStanding =>
      refine h.put fun entry hentry hopen other _ _ _ => ?_
      rw [hopens entry hentry hopen]
      trivial
  | publish event aimed =>
      refine h.put fun entry hentry hopen other _ _ hcovers => ?_
      rw [htask] at hcovers
      have hmem : entry.stream ∈ state.openStreams.filter fun stream => aimed stream.principal :=
        List.mem_filter.mpr ⟨mem_openStreams hentry hopen, hcovers.2⟩
      rw [deliver, if_neg (by simpa using List.ne_nil_of_mem hmem)]
      exact .inl ⟨hcovers.1, hmem, by simp⟩
  | published begun owing remaining =>
      refine h.put fun entry hentry hopen other hother _ hcovers => ?_
      rw [htask] at hcovers
      exact settleRest_covers hcovers.1 hcovers.2 (owes_of_mem hentry hother)
  | delivering begun event streams unread refused owing remaining =>
      cases unread with
      | nil => exact h.record htask hrecords
      | cons stream unread =>
          refine h.put fun entry _ _ other _ hlets hcovers => ?_
          rw [htask] at hcovers
          rcases hcovers with ⟨hevent, hstream, hunrefused⟩ | hahead
          · refine .inl ⟨hevent, hstream, ?_⟩
            split_ifs with hrefuses
            · -- the stream just read as refused is not this one, which is let act
              intro hmem
              rcases List.mem_cons.mp hmem with hsame | hrefused
              · rw [← hsame, hlets] at hrefuses
                cases hrefuses
              · exact hunrefused hrefused
            · exact hunrefused
          · exact .inr hahead

theorem step (h : Settled state) (event : Event κ ε) (hrecords : Records state event) :
    Settled (step state event) := by
  cases event with
  | opens principal =>
      intro entry hentry hopen other hother hlets
      rcases List.mem_append.mp hentry with hold | hnew
      · exact h entry hold hopen other hother hlets
      · obtain rfl := List.mem_singleton.mp hnew
        cases hother
  | closes stream =>
      intro entry hentry hopen other hother hlets
      rcases Table.mem_update.mp hentry with ⟨hold, -⟩ | ⟨old, _, _, rfl⟩
      · exact h entry hold hopen other hother hlets
      · cases hopen
  | brakes refused =>
      intro entry _ _ other _ _
      exact ⟨.toldStanding, by simp [Listen.step, State.spawn], trivial⟩
  | changed event aimed => exact h.spawn
  | turn slot => exact h.turn slot hrecords
  | settles slot order =>
      simp only [Listen.step]
      split
      · unfold settleOwed
        split_ifs with horder
        · refine h.put fun entry hentry hopen other hother _ _ => ?_
          have howing : entry ∈ state.entries.filter fun entry =>
              entry.isOpen && !entry.owed.isEmpty := by
            refine List.mem_filter.mpr ⟨hentry, ?_⟩
            simp [hopen, List.ne_nil_of_mem hother]
          refine settleRest_covers (List.mem_map.mpr ⟨entry, howing, rfl⟩) ?_
            (owes_of_mem hentry hother)
          rw [(List.isPerm_iff.mp horder).mem_iff]
          exact List.mem_dedup.mpr (List.mem_flatMap.mpr ⟨entry, howing, hother⟩)
        · exact h
      · exact h

end Settled

/-- Nothing is in progress. -/
def State.idle (state : State κ ε) : Bool :=
  state.tasks.all fun task => match task with
    | .ended => true
    | _ => false

/-- In every run, an event reached a stream only if its caller was let act in an epoch of the
brakes between the beginning of the publish or settle and the delivery. In a run in which no
delivery records as owed what nothing in progress will look at again, no open stream is owed
an event while its caller is let act and nothing is in progress. -/
theorem streams_told (refused : List κ) (events : List (Event κ ε)) :
    let state := run step (.opened refused) events
    (∀ delivery ∈ state.delivered, ∃ epoch, delivery.begun ≤ epoch ∧
      epoch ≤ delivery.delivered ∧ state.Lets epoch delivery.stream.principal) ∧
    (Meets step Records (.opened refused) events → state.idle = true →
      ∀ entry ∈ state.entries, entry.isOpen = true →
        state.refuses entry.stream.principal = false → entry.owed = []) := by
  intro state
  have hheard : Heard state :=
    run_always Heard (fun _ event h => h.step event) (heard_opened refused) events
  refine ⟨hheard.delivered, fun h hidle entry hentry hopen hlets => ?_⟩
  have hsettled : Settled state :=
    run_invariant Settled (fun _ event h => h.step event) (fun _ h => by cases h) h
  by_contra howed
  obtain ⟨event, hevent⟩ := List.exists_mem_of_ne_nil _ howed
  obtain ⟨task, htask, hcovers⟩ := hsettled entry hentry hopen event hevent hlets
  have hended := List.all_eq_true.mp hidle task htask
  cases task <;> simp_all [Task.Covers]

end Decided

/-- A refused caller is owed what it is told of once the brake is lifted. -/
theorem lifted_brake_told :
    let events : List (Event String String) := [.opens "agent",
      .changed "tools/list_changed" fun _ => true] ++ List.replicate 5 (.turn 0) ++
      [.brakes [], .turn 1, .settles 1 ["tools/list_changed"]] ++ List.replicate 3 (.turn 1)
    let state := run step (.opened ["agent"]) events
    (∀ delivery ∈ state.delivered, ∃ epoch, delivery.begun ≤ epoch ∧
      epoch ≤ delivery.delivered ∧ state.Lets epoch delivery.stream.principal) ∧
    (state.idle = true → ∀ entry ∈ state.entries, entry.isOpen = true →
      state.refuses entry.stream.principal = false → entry.owed = []) :=
  (streams_told _ _).imp_right fun hsettled => hsettled (by decide)

/-- The brake is lifted and settled after the thread read it and before the loop records
what the stream is owed: nothing is in progress, the caller is let act, and it is owed. -/
theorem lifted_brake_untold :
    let events : List (Event String String) := [.opens "agent",
      .changed "tools/list_changed" fun _ => true] ++ List.replicate 3 (.turn 0) ++
      [.brakes [], .turn 1, .settles 1 [], .turn 0, .turn 0]
    let state := run step (.opened ["agent"]) events
    state.idle = true ∧ state.refuses "agent" = false ∧
      state.entries = [⟨⟨0, "agent"⟩, true, ["tools/list_changed"]⟩] ∧ state.delivered = [] := by
  decide

end SeverinoHQ.Agents.Listen
