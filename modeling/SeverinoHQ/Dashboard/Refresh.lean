/-
# Asks, plans, readings and reports, in any order

Browsers ask, controllers take plans, read and report, and HQ's database lets one writer at
a time change its tables: what a transaction wrote is seen by others once it commits. A plan
is made outside a transaction: what is pending is read first, and the plan is stamped after.
-/

import SeverinoHQ.Dashboard.Glance
import SeverinoHQ.Math.Run

namespace SeverinoHQ.Dashboard

open SeverinoHQ.Math
open Requests (Answers)

/-- What a controller read for a plan. -/
structure Reading where
  plan : Plan
  observations : List Observation
  deriving DecidableEq, Repr

/-- `glance` of the worker: each observation carries the moment its plan was made. -/
def Reading.payload (reading : Reading) : List Observation :=
  reading.observations.map fun observation =>
    { observation with asOf := some reading.plan.asOf }

/-- A plan being made: what was read for it, before it is stamped. -/
structure Planning where
  controllerId : String
  estate : Estate
  pending : List Panel
  deriving DecidableEq, Repr

/-- A transaction that wrote the requests and has not committed: an ask, of which panels and
when, or the report of a reading. -/
inductive Writing
  | asking (ids : List Panel) (moment : Nat) (requests : Requests)
  | reporting (reading : Reading) (requests : Requests)
  deriving DecidableEq, Repr

/-- The requests as it leaves them. -/
def Writing.requests : Writing → Requests
  | .asking _ _ requests | .reporting _ requests => requests

structure State where
  now : Nat
  estate : Estate
  requests : Requests
  writing : Option Writing
  planning : List Planning
  plans : List Plan
  readings : List Reading
  deriving DecidableEq, Repr

/-- HQ before the first call of a run, with the requests it holds. -/
def State.opened (now : Nat) (estate : Estate) (requests : Requests) : State :=
  ⟨now, estate, requests, none, [], [], []⟩

inductive Event
  | tick (microseconds : Nat)
  | estateChanged (estate : Estate)
  | requestDashboardRefresh
  /-- The dashboard opened on these panels' readings being due. -/
  | requestStalePanelRefresh (due : List Panel)
  | planRead (controllerId : String)
  | planStamped (planning : Planning)
  | read (plan : Plan) (observations : List Observation)
  | report (reading : Reading)
  | commit
  | rollback
  deriving DecidableEq, Repr

/-- An ask's transaction begins where no other writes. -/
def ask (state : State) (ids : List Panel) : State :=
  if state.writing.isSome then state
  else { state with writing := some (.asking ids state.now (state.requests.askFor ids state.now)) }

/-- A report's transaction begins where no other writes; a refusal rolls it back. -/
def report (state : State) (reading : Reading) : State :=
  if state.writing.isSome then state
  else
    match recordDashboardObservations state.estate reading.plan.controllerId state.now
        reading.payload state.requests with
    | .ok requests => { state with writing := some (.reporting reading requests) }
    | .error _ => state

def step (state : State) : Event → State
  | .tick microseconds => { state with now := state.now + microseconds }
  | .estateChanged estate => if state.writing.isSome then state else { state with estate := estate }
  | .requestDashboardRefresh => ask state state.estate.readable
  | .requestStalePanelRefresh due =>
      ask state (state.estate.readable.filter fun panel =>
        due.contains panel && !state.requests.pending.contains panel)
  | .planRead controllerId =>
      { state with
        planning := ⟨controllerId, state.estate, state.requests.pending⟩ :: state.planning }
  | .planStamped planning =>
      if planning ∈ state.planning then
        let plan := planned planning.estate planning.pending planning.controllerId state.now
        { state with plans := plan :: state.plans }
      else state
  | .read plan observations =>
      if plan ∈ state.plans ∧ plan.asks then
        { state with readings := ⟨plan, observations⟩ :: state.readings }
      else state
  | .report reading => if reading ∈ state.readings then report state reading else state
  | .commit =>
      match state.writing with
      | some writing => { state with requests := writing.requests, writing := none }
      | none => state
  | .rollback => { state with writing := none }

/-- The panels a browser's ask is of: every readable one, or those of them that are due and not
pending. -/
def Event.AsksFor (state : State) (ids : List Panel) : Event → Prop
  | .requestDashboardRefresh => ids = state.estate.readable
  | .requestStalePanelRefresh due => ids = state.estate.readable.filter fun panel =>
      due.contains panel && !state.requests.pending.contains panel
  | _ => False

namespace State

/-- The transaction about to commit is an ask for `ids` made at `moment`. -/
def Asks (state : State) (ids : List Panel) (moment : Nat) : Prop :=
  ∃ requests, state.writing = some (.asking ids moment requests)

/-- The transaction about to commit is the report of `reading`. -/
def Reports (state : State) (reading : Reading) : Prop :=
  ∃ requests, state.writing = some (.reporting reading requests)

/-- What a transaction wrote is written from the requests still stored. -/
structure Sound (state : State) : Prop where
  asking : ∀ {ids moment requests}, state.writing = some (.asking ids moment requests) →
    requests = state.requests.askFor ids moment
  reporting : ∀ {reading requests}, state.writing = some (.reporting reading requests) →
    reading.plan ∈ state.plans ∧ Answers reading.plan.asOf state.requests requests
  readings : ∀ reading ∈ state.readings, reading.plan ∈ state.plans

theorem sound_opened (now : Nat) (estate : Estate) (requests : Requests) :
    (opened now estate requests).Sound where
  asking h := by cases h
  reporting h := by cases h
  readings _ h := by cases h

variable {state : State}

/-- A state that differs in neither its transaction nor its requests, and has every plan the
first had, is as sound. -/
theorem Sound.of_same {next : State} (hsound : state.Sound)
    (hwriting : next.writing = state.writing) (hrequests : next.requests = state.requests)
    (hplans : ∀ plan ∈ state.plans, plan ∈ next.plans)
    (hreadings : ∀ reading ∈ next.readings, reading.plan ∈ next.plans) : next.Sound where
  asking h := by
    rw [hrequests]
    exact hsound.asking (hwriting ▸ h)
  reporting h := by
    rw [hrequests]
    obtain ⟨hplan, hanswers⟩ := hsound.reporting (hwriting ▸ h)
    exact ⟨hplans _ hplan, hanswers⟩
  readings := hreadings

theorem Sound.asked (hsound : state.Sound) (ids : List Panel) : (ask state ids).Sound := by
  unfold ask
  split_ifs
  · exact hsound
  · refine ⟨?_, ?_, hsound.readings⟩
    · rintro ids moment requests ⟨⟩
      rfl
    · rintro reading requests ⟨⟩

theorem Sound.reported (hsound : state.Sound) {reading : Reading}
    (hreading : reading ∈ state.readings) : (report state reading).Sound := by
  unfold report
  split_ifs
  · exact hsound
  · split
    · rename_i requests hrecorded
      refine ⟨?_, ?_, hsound.readings⟩
      · rintro ids moment requests ⟨⟩
      · rintro reading requests ⟨⟩
        refine ⟨hsound.readings _ hreading, recordDashboardObservations_answers ?_ hrecorded⟩
        intro item hitem
        obtain ⟨observation, _, rfl⟩ := List.mem_map.mp hitem
        rfl
    · exact hsound

theorem Sound.stepped (hsound : state.Sound) (event : Event) : (step state event).Sound := by
  have hsame : ∀ plan ∈ state.plans, plan ∈ state.plans := fun _ h => h
  cases event with
  | tick microseconds => exact hsound.of_same rfl rfl hsame hsound.readings
  | estateChanged estate =>
      simp only [step]
      split_ifs
      · exact hsound
      · exact hsound.of_same rfl rfl hsame hsound.readings
  | requestDashboardRefresh => exact hsound.asked _
  | requestStalePanelRefresh due => exact hsound.asked _
  | planRead controllerId => exact hsound.of_same rfl rfl hsame hsound.readings
  | planStamped planning =>
      simp only [step]
      split_ifs
      · exact hsound.of_same rfl rfl (fun _ h => List.mem_cons_of_mem _ h)
          fun reading hreading => List.mem_cons_of_mem _ (hsound.readings reading hreading)
      · exact hsound
  | read plan observations =>
      simp only [step]
      split_ifs with hplan
      · refine hsound.of_same rfl rfl hsame fun reading hreading => ?_
        rcases List.mem_cons.mp hreading with rfl | hold
        · exact hplan.1
        · exact hsound.readings reading hold
      · exact hsound
  | report reading =>
      simp only [step]
      split_ifs with hreading
      · exact hsound.reported hreading
      · exact hsound
  | commit =>
      simp only [step]
      split
      · refine ⟨?_, ?_, hsound.readings⟩
        · rintro ids moment requests ⟨⟩
        · rintro reading requests ⟨⟩
      · exact hsound
  | rollback =>
      refine ⟨?_, ?_, hsound.readings⟩
      · rintro ids moment requests ⟨⟩
      · rintro reading requests ⟨⟩

end State

/-! ## What one step does to a request -/

/-- Only a transaction that commits changes the stored requests. -/
theorem step_requests (state : State) (event : Event) :
    (step state event).requests = state.requests ∨
      event = .commit ∧ ∃ writing, state.writing = some writing ∧
        (step state event).requests = writing.requests := by
  have hask : ∀ ids, (ask state ids).requests = state.requests := by
    intro ids
    unfold ask
    split_ifs <;> rfl
  cases event with
  | commit =>
      cases hwriting : state.writing with
      | none => simp [step, hwriting]
      | some writing => exact .inr ⟨rfl, writing, rfl, by simp [step, hwriting]⟩
  | requestDashboardRefresh => exact .inl (hask _)
  | requestStalePanelRefresh due => exact .inl (hask _)
  | report reading =>
      left
      simp only [step, report]
      split_ifs <;> (try split) <;> rfl
  | tick | planRead | rollback => exact .inl rfl
  | estateChanged | planStamped | read =>
      left
      simp only [step]
      split_ifs <;> rfl

/-- What a step does to the request of a panel: nothing, a new ask for it, or the answer of
a reading whose plan was made at or after it was asked for. -/
theorem State.Sound.find_step {state : State} (hsound : state.Sound) (event : Event)
    (panel : Panel) :
    (step state event).requests.find panel = state.requests.find panel ∨
      (event = .commit ∧ ∃ ids moment, state.Asks ids moment ∧ panel ∈ ids ∧
        (step state event).requests.find panel = some ⟨panel, moment, none⟩) ∨
      event = .commit ∧ ∃ reading row observedAt, state.Reports reading ∧
        reading.plan ∈ state.plans ∧ state.requests.find panel = some row ∧
        row.completedAt = none ∧ row.requestedAt ≤ reading.plan.asOf ∧
        (step state event).requests.find panel =
          some { row with completedAt := some observedAt } := by
  rcases step_requests state event with hsame | ⟨rfl, writing, hwriting, hrequests⟩
  · exact .inl (by rw [hsame])
  rw [hrequests]
  cases writing with
  | asking ids moment requests =>
      have hfind := Requests.find_askFor state.requests ids panel moment
      rw [← hsound.asking hwriting] at hfind
      by_cases hpanel : panel ∈ ids
      · rw [if_pos hpanel] at hfind
        exact .inr (.inl ⟨rfl, ids, moment, ⟨requests, hwriting⟩, hpanel, hfind⟩)
      · rw [if_neg hpanel] at hfind
        exact .inl hfind
  | reporting reading requests =>
      obtain ⟨hplan, hanswers⟩ := hsound.reporting hwriting
      rcases hanswers panel with hkept | ⟨row, observedAt, hrow, hpending, hby, hanswered⟩
      · exact .inl hkept
      · exact .inr (.inr ⟨rfl, reading, row, observedAt, ⟨requests, hwriting⟩, hplan, hrow,
          hpending, hby, hanswered⟩)

/-- The moments requests and plans carry are the clock's, at the ask and at the plan: an ask
begins at the clock's moment for the panels it is of, and its commit leaves each of them pending
since that moment. -/
structure Timed (state : State) (event : Event) : Prop where
  plans : ∀ plan ∈ (step state event).plans, plan ∈ state.plans ∨ plan.asOf = state.now
  begins : ∀ ids, event.AsksFor state ids → state.writing = none →
    (step state event).Asks ids state.now
  pending : event = .commit → ∀ ids moment, state.Asks ids moment → ∀ panel ∈ ids,
    (step state event).requests.find panel = some ⟨panel, moment, none⟩
  asks : ∀ ids moment, (step state event).Asks ids moment →
    state.Asks ids moment ∨ moment = state.now
  requests : ∀ panel row, (step state event).requests.find panel = some row →
    (∃ old, state.requests.find panel = some old ∧ old.requestedAt = row.requestedAt) ∨
      event = .commit ∧ ∃ ids, state.Asks ids row.requestedAt ∧ panel ∈ ids

theorem ask_asks {state : State} {ids asked : List Panel} {moment : Nat}
    (h : (ask state ids).Asks asked moment) : state.Asks asked moment ∨ moment = state.now := by
  unfold ask at h
  split_ifs at h
  · exact .inl h
  · obtain ⟨requests, hwriting⟩ := h
    cases hwriting
    exact .inr rfl

theorem report_asks {state : State} {reading : Reading} {asked : List Panel} {moment : Nat}
    (h : (report state reading).Asks asked moment) : state.Asks asked moment := by
  unfold report at h
  split_ifs at h
  · exact h
  · split at h
    · obtain ⟨requests, hwriting⟩ := h
      cases hwriting
    · exact h

theorem step_asks {state : State} {event : Event} {asked : List Panel} {moment : Nat}
    (h : (step state event).Asks asked moment) : state.Asks asked moment ∨ moment = state.now := by
  cases event with
  | tick | planRead => exact .inl h
  | requestDashboardRefresh => exact ask_asks h
  | requestStalePanelRefresh due => exact ask_asks h
  | estateChanged | planStamped | read =>
      simp only [step] at h
      split_ifs at h
      all_goals exact .inl h
  | report reading =>
      simp only [step] at h
      split_ifs at h
      · exact .inl (report_asks h)
      · exact .inl h
  | commit =>
      simp only [step] at h
      split at h
      · obtain ⟨requests, hwriting⟩ := h
        cases hwriting
      · exact .inl h
  | rollback =>
      obtain ⟨requests, hwriting⟩ := h
      cases hwriting

theorem asks_ask {state : State} (ids : List Panel) (hfree : state.writing = none) :
    (ask state ids).Asks ids state.now := by
  simp [ask, hfree, State.Asks]

theorem step_begins {state : State} {event : Event} {ids : List Panel}
    (h : event.AsksFor state ids) (hfree : state.writing = none) :
    (step state event).Asks ids state.now := by
  cases event with
  | requestDashboardRefresh =>
      cases h
      exact asks_ask _ hfree
  | requestStalePanelRefresh due =>
      cases h
      exact asks_ask _ hfree
  | tick | planRead | estateChanged | planStamped | read | report | commit | rollback =>
      exact h.elim

/-- A plan is handed out by being stamped, with the moment it is stamped at. -/
theorem step_plans {state : State} {event : Event} {plan : Plan}
    (h : plan ∈ (step state event).plans) : plan ∈ state.plans ∨ plan.asOf = state.now := by
  have hask : ∀ ids, (ask state ids).plans = state.plans := by
    intro ids
    unfold ask
    split_ifs <;> rfl
  cases event with
  | tick | planRead | rollback => exact .inl h
  | requestDashboardRefresh => exact .inl (hask _ ▸ h)
  | requestStalePanelRefresh due => exact .inl (hask _ ▸ h)
  | estateChanged | read =>
      simp only [step] at h
      split_ifs at h
      all_goals exact .inl h
  | planStamped planning =>
      simp only [step] at h
      split_ifs at h
      · rcases List.mem_cons.mp h with rfl | hold
        · exact .inr rfl
        · exact .inl hold
      · exact .inl h
  | report reading =>
      simp only [step, report] at h
      split_ifs at h
      · exact .inl h
      · split at h <;> exact .inl h
      · exact .inl h
  | commit =>
      simp only [step] at h
      split at h <;> exact .inl h

theorem State.Sound.timed {state : State} (hsound : state.Sound) (event : Event) :
    Timed state event where
  plans _ := step_plans
  begins _ := step_begins
  pending := by
    rintro rfl ids moment ⟨requests, hwriting⟩ panel hpanel
    have hrequests : (step state .commit).requests = requests := by
      simp [step, hwriting, Writing.requests]
    rw [hrequests, hsound.asking hwriting, Requests.find_askFor, if_pos hpanel]
  asks _ _ := step_asks
  requests panel row hrow := by
    rcases hsound.find_step event panel with
      hsame | ⟨rfl, ids, moment, hasks, hpanel, hasked⟩ | ⟨rfl, _, old, _, _, _, hold, _, _, hnew⟩
    · exact .inl ⟨row, hsame ▸ hrow, rfl⟩
    · obtain rfl := Option.some.inj (hasked.symm.trans hrow)
      exact .inr ⟨rfl, ids, hasks, hpanel⟩
    · obtain rfl := Option.some.inj (hnew.symm.trans hrow)
      exact .inl ⟨old, hold, rfl⟩

/-- Along every run: a pending request is completed only by the report of a reading whose
plan was made at or after the ask; one made after a reading's plan is as it was once that
reading is reported; and a completed one is pending again only by an ask that names it. -/
theorem requests_answered_by_later_plans (now : Nat) (estate : Estate) (requests : Requests)
    (events : List Event) (event : Event) :
    let state := run step (.opened now estate requests) events
    let next := step state event
    Timed state event ∧ ∀ panel row, state.requests.find panel = some row →
      (row.completedAt = none →
        ∀ answered, next.requests.find panel = some answered → answered.completedAt ≠ none →
          ∃ reading, event = .commit ∧ state.Reports reading ∧ reading.plan ∈ state.plans ∧
            row.requestedAt ≤ reading.plan.asOf) ∧
      (row.completedAt = none → ∀ reading, state.Reports reading →
        reading.plan.asOf < row.requestedAt → next.requests.find panel = some row) ∧
      (row.completedAt ≠ none →
        ∀ asked, next.requests.find panel = some asked → asked.completedAt = none →
          ∃ ids, event = .commit ∧ state.Asks ids asked.requestedAt ∧ panel ∈ ids) := by
  intro state next
  have hsound : state.Sound :=
    run_always State.Sound (fun _ event hsound => hsound.stepped event)
      (State.sound_opened now estate requests) events
  refine ⟨hsound.timed event, fun panel row hrow => ?_⟩
  rcases hsound.find_step event panel with
    hsame | ⟨rfl, ids, moment, hasks, hpanel, hasked⟩ |
      ⟨rfl, reading, old, observedAt, hreports, hplan, hold, hpending, hby, hanswered⟩
  · have hkept : next.requests.find panel = some row := hsame.trans hrow
    refine ⟨?_, fun _ _ _ _ => hkept, ?_⟩
    · intro hpending answered hfound hcomplete
      obtain rfl := Option.some.inj (hkept.symm.trans hfound)
      exact absurd hpending hcomplete
    · intro hcomplete asked hfound hpending
      obtain rfl := Option.some.inj (hkept.symm.trans hfound)
      exact absurd hpending hcomplete
  · refine ⟨?_, ?_, ?_⟩
    · intro _ answered hfound hcomplete
      obtain rfl := Option.some.inj (hasked.symm.trans hfound)
      exact absurd rfl hcomplete
    · rintro _ reading ⟨_, hreports⟩
      obtain ⟨_, hasks⟩ := hasks
      cases hasks.symm.trans hreports
    · intro _ asked hfound _
      obtain rfl := Option.some.inj (hasked.symm.trans hfound)
      exact ⟨ids, rfl, hasks, hpanel⟩
  · obtain rfl := Option.some.inj (hold.symm.trans hrow)
    refine ⟨fun _ _ _ _ => ⟨reading, rfl, hreports, hplan, hby⟩, ?_, ?_⟩
    · rintro _ other ⟨_, hother⟩ hafter
      obtain ⟨_, hreports⟩ := hreports
      cases hreports.symm.trans hother
      exact absurd hby (Nat.not_le.mpr hafter)
    · intro hcomplete
      exact absurd hpending hcomplete

/-- An estate of one machine, what is read of it, and the plan stamped at a moment while it is
pending. -/
def estateOfNas : Estate := ⟨[⟨"m", "nas", ["ssh"], true⟩], [⟨"ssh", "edge", true⟩], ""⟩

def nasObserved : List Observation := [⟨"infrastructure", [⟨"nas", none⟩], "", none, none⟩]

def nasPlanned (moment : Nat) : Plan := planned estateOfNas [.machine "m"] "edge" moment

/-- The machine is asked for, planned and read, and asked for again before the reading is reported;
then it is planned and read once more, and that reading is reported. -/
def askedAgain : List Event :=
  [.requestDashboardRefresh, .commit, .planRead "edge",
    .planStamped ⟨"edge", estateOfNas, [.machine "m"]⟩, .read (nasPlanned 0) nasObserved, .tick 1,
    .requestDashboardRefresh, .commit, .tick 1, .report ⟨nasPlanned 0, nasObserved⟩, .commit,
    .planRead "edge", .planStamped ⟨"edge", estateOfNas, [.machine "m"]⟩,
    .read (nasPlanned 2) nasObserved, .report ⟨nasPlanned 2, nasObserved⟩]

/-- A machine asked for again while it is read waits for the next reading, which answers it. -/
theorem askedAgain_answered :
    let state := run step (.opened 0 estateOfNas []) askedAgain
    state.requests.find (.machine "m") = some ⟨.machine "m", 1, none⟩ ∧
      (step state .commit).requests.find (.machine "m") = some ⟨.machine "m", 1, some 2⟩ ∧
      ∃ reading, state.Reports reading ∧ reading.plan ∈ state.plans ∧ 1 ≤ reading.plan.asOf := by
  intro state
  have hpending : state.requests.find (.machine "m") = some ⟨.machine "m", 1, none⟩ := by decide
  have hanswered : (step state .commit).requests.find (.machine "m") =
      some ⟨.machine "m", 1, some 2⟩ := by decide
  obtain ⟨-, hlater⟩ := requests_answered_by_later_plans 0 estateOfNas [] askedAgain .commit
  obtain ⟨reading, -, hreports, hplan, hby⟩ :=
    (hlater (.machine "m") _ hpending).1 rfl _ hanswered (by simp)
  exact ⟨hpending, hanswered, reading, hreports, hplan, hby⟩

end SeverinoHQ.Dashboard
