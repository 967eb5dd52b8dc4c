/-
# The dashboard's panels, and the readings HQ asks controllers for

A person asks for the panels to be read again; a controller asks HQ which panels it is to
read, reads them, and reports what it read under the moment its plan was made. HQ keeps one
request for each panel and marks it complete from the reports.
-/

import SeverinoHQ.Math.Table
import SeverinoHQ.Math.Fallible

namespace SeverinoHQ.Dashboard

open SeverinoHQ.Math

/-! ## What HQ knows of its machines -/

/-- An enabled machine record, and the connections the catalogue says open it. -/
structure Machine where
  pk : String
  key : String
  openedBy : List String
  /-- Chosen for the dashboard. -/
  shown : Bool
  deriving DecidableEq, Repr

/-- A connection a controller holds. -/
structure ProviderConnection where
  ref : String
  controllerId : String
  reachable : Bool
  deriving DecidableEq, Repr

/-- The enabled machines, the connections, and the place weather is read for. -/
structure Estate where
  machines : List Machine
  connections : List ProviderConnection
  weatherPoint : String
  deriving DecidableEq, Repr

/-- What is asked for and read as one: a machine's telemetry, or the weather. -/
inductive Panel
  | machine (pk : String)
  | weather
  deriving DecidableEq, Repr

namespace Estate

/-- `_dashboard_machines`. -/
def dashboardMachines (estate : Estate) : List Machine := estate.machines.filter (·.shown)

/-- `_machine_routes`: the machines a credential opens, or that run a controller. -/
def machineRoutes (estate : Estate) : List (Machine × List String) :=
  let controllers := (estate.connections.filter (·.reachable)).map (·.controllerId)
  (estate.dashboardMachines.filter fun machine =>
    !machine.openedBy.isEmpty || controllers.contains machine.key).map fun machine =>
      (machine, machine.openedBy)

/-- The panels a reading can be asked for. -/
def readable (estate : Estate) : List Panel :=
  let ids := estate.machineRoutes.map fun route => Panel.machine route.1.pk
  if !ids.isEmpty && estate.weatherPoint ≠ "" then ids ++ [.weather] else ids

/-- The connections to dashboard machines that a controller reaches. -/
def owned (estate : Estate) (controllerId : String) : List String :=
  let refs := estate.machineRoutes.flatMap (·.2)
  (estate.connections.filter fun connection => connection.controllerId == controllerId &&
    refs.contains connection.ref && connection.reachable).map (·.ref)

/-- The dashboard machines a controller reads, each with the connections it reads through. -/
def ownedMachines (estate : Estate) (controllerId : String) : List (Machine × List String) :=
  estate.dashboardMachines.filterMap fun target =>
    let route := (estate.machineRoutes.find? fun route => route.1.pk == target.pk).map (·.2)
    let connections := (route.getD []).filter (estate.owned controllerId).contains
    if !connections.isEmpty || target.key == controllerId then some (target, connections)
    else none

end Estate

/-! ## Requests -/

/-- The one request of a panel. -/
structure DashboardRefreshRequest where
  panel : Panel
  requestedAt : Nat
  completedAt : Option Nat
  deriving DecidableEq, Repr

/-- The table of requests. -/
abbrev Requests := List DashboardRefreshRequest

namespace Requests

/-- The request of a panel. -/
def find (requests : Requests) (panel : Panel) : Option DashboardRefreshRequest :=
  List.find? (fun row => row.panel == panel) requests

/-- The panels whose request waits. -/
def pending (requests : Requests) : List Panel :=
  (List.filter (fun row => row.completedAt.isNone) requests).map (·.panel)

/-- One turn of the loop of `_ask_for`: `update_or_create`. -/
def ask (requests : Requests) (panel : Panel) (now : Nat) : Requests :=
  if requests.any fun row => row.panel == panel then
    Table.update requests (fun row => row.panel == panel) fun row =>
      { row with requestedAt := now, completedAt := none }
  else requests ++ [⟨panel, now, none⟩]

/-- `_ask_for`. -/
def askFor (requests : Requests) (ids : List Panel) (now : Nat) : Requests :=
  ids.foldl (fun requests panel => requests.ask panel now) requests

/-- `_answer`: the request of a panel is answered if it was made by `asOf`. -/
def answer (requests : Requests) (panel : Panel) (asOf observedAt : Nat) : Requests :=
  Table.update requests
    (fun row => row.panel == panel && row.completedAt.isNone && decide (row.requestedAt ≤ asOf))
    fun row => { row with completedAt := some observedAt }

end Requests

/-! ## Plans and reports -/

/-- What a controller is to read: the machines, the weather or not, and when it was said. -/
structure Plan where
  controllerId : String
  machines : List (Machine × List String)
  weather : Bool
  asOf : Nat
  deriving DecidableEq, Repr

/-- A plan the controller reads anything for. -/
def Plan.asks (plan : Plan) : Bool := !plan.machines.isEmpty || plan.weather

/-- `dashboard_refresh_plan`, up to its last line: what is pending was read before the
moment the plan is stamped with. -/
def planned (estate : Estate) (pending : List Panel) (controllerId : String) (asOf : Nat) :
    Plan :=
  let owned := estate.ownedMachines controllerId
  { controllerId, asOf
    machines := owned.filter fun target => pending.contains (.machine target.1.pk)
    weather := pending.contains .weather && !owned.isEmpty }

/-- What a controller reports of one machine; `refused` is what is wrong with its panel. -/
structure MachineReading where
  key : String
  refused : Option String
  deriving DecidableEq, Repr

/-- One observation of a report. -/
structure Observation where
  panelId : String
  machines : List MachineReading
  point : String
  refused : Option String
  asOf : Option Nat
  deriving DecidableEq, Repr

/-- What is wrong with a panel refuses the whole report. -/
def cleanPanel : Option String → Except String Unit
  | none => .ok ()
  | some problem => .error problem

/-- One turn of the loop of `_record_machine_readings`. -/
def recordMachineReading (estate : Estate) (expected : List String) (asOf observedAt : Nat)
    (done : Bool × Requests) (reading : MachineReading) : Except String (Bool × Requests) :=
  if !expected.contains reading.key then .ok done
  else
    match estate.machines.find? fun machine => machine.key == reading.key with
    | none => .ok done
    | some resource => do
        cleanPanel reading.refused
        .ok (true, done.2.answer (.machine resource.pk) asOf observedAt)

/-- `_record_machine_readings`. The machines it takes are those a plan would name now. -/
def recordMachineReadings (estate : Estate) (controllerId : String) (asOf observedAt : Nat)
    (item : Observation) (requests : Requests) : Except String Requests := do
  let expected := (planned estate requests.pending controllerId asOf).machines.map (·.1.key)
  let done ← item.machines.foldlM (recordMachineReading estate expected asOf observedAt)
    (false, requests)
  if done.1 then .ok done.2
  else .error "No machine HQ knows matched the controller's report."

/-- `_record_weather_reading`. -/
def recordWeatherReading (estate : Estate) (asOf observedAt : Nat) (item : Observation)
    (requests : Requests) : Except String Requests :=
  if item.point = "" ∨ item.point ≠ estate.weatherPoint then
    .error "Weather was reported without a configured point."
  else do
    cleanPanel item.refused
    .ok (requests.answer .weather asOf observedAt)

/-- `_refresh_is_pending`; of the machines' panel, whether any machine's is. -/
def refreshIsPending (requests : Requests) (panelId : String) : Bool :=
  requests.pending.any fun panel =>
    match panel with
    | .machine _ => panelId == "infrastructure"
    | .weather => panelId == "weather"

/-- `panel_specs`, by the panels' names: weather is one where it has a place. -/
def panelSpecs (estate : Estate) : List String :=
  "infrastructure" :: if estate.weatherPoint = "" then [] else ["weather"]

/-- One turn of the loop of `record_dashboard_observations`. -/
def recordObservation (estate : Estate) (controllerId : String) (now : Nat)
    (requests : Requests) (item : Observation) : Except String Requests :=
  if !(panelSpecs estate).contains item.panelId then .error s!"Unknown dashboard panel '{item.panelId}'."
  else if !refreshIsPending requests item.panelId then
    .error s!"No refresh is pending for '{item.panelId}'."
  else
    match item.asOf with
    | none => .error s!"The reading of '{item.panelId}' does not say when its plan was made."
    | some planned =>
        let asOf := min planned now
        if item.panelId = "infrastructure" then
          recordMachineReadings estate controllerId asOf now item requests
        else recordWeatherReading estate asOf now item requests

/-- `record_dashboard_observations`, of the requests. -/
def recordDashboardObservations (estate : Estate) (controllerId : String) (now : Nat)
    (payload : List Observation) (requests : Requests) : Except String Requests :=
  payload.foldlM (recordObservation estate controllerId now) requests

/-! ## What asking and answering do to a panel's request -/

namespace Requests

theorem find_ask (requests : Requests) (panel other : Panel) (now : Nat) :
    (requests.ask panel now).find other =
      if panel = other then some ⟨panel, now, none⟩ else requests.find other := by
  unfold ask
  by_cases hany : requests.any fun row => row.panel == panel
  · simp only [hany, if_true]
    rw [find, Table.find?_update (by simp)]
    by_cases hpanel : panel = other
    · subst hpanel
      obtain ⟨row, hrow⟩ := Option.isSome_iff_exists.mp (by simpa using hany :
        (List.find? (fun row => row.panel == panel) requests).isSome)
      have hfound : row.panel = panel := by simpa using List.find?_some hrow
      simp [hrow, hfound]
    · rw [if_neg hpanel, find]
      cases hrow : List.find? (fun row => row.panel == other) requests with
      | none => rfl
      | some row =>
          have hfound : row.panel = other := by simpa using List.find?_some hrow
          simp [hfound, Ne.symm hpanel]
  · simp only [hany]
    have hnone : requests.find panel = none := by
      simpa [find, List.find?_eq_none] using hany
    by_cases hpanel : panel = other
    · subst hpanel
      rw [find] at hnone
      simp [find, List.find?_append, hnone]
    · simp [find, List.find?_append, hpanel]

/-- An ask leaves each panel it names one pending request, made now. -/
theorem find_askFor (requests : Requests) (ids : List Panel) (panel : Panel) (now : Nat) :
    (requests.askFor ids now).find panel =
      if panel ∈ ids then some ⟨panel, now, none⟩ else requests.find panel := by
  induction ids generalizing requests with
  | nil => rfl
  | cons first ids ih =>
      show (Requests.askFor (requests.ask first now) ids now).find panel = _
      rw [ih, find_ask]
      by_cases hfirst : first = panel
      · subst hfirst
        by_cases hmem : first ∈ ids <;> simp [hmem]
      · by_cases hmem : panel ∈ ids <;> simp [hmem, hfirst, Ne.symm hfirst]

/-- Between two tables, requests that waited and were made by `asOf` may have been
answered, and nothing else happened. -/
def Answers (asOf : Nat) (before after : Requests) : Prop :=
  ∀ panel, after.find panel = before.find panel ∨
    ∃ row observedAt, before.find panel = some row ∧ row.completedAt = none ∧
      row.requestedAt ≤ asOf ∧ after.find panel = some { row with completedAt := some observedAt }

theorem Answers.refl (asOf : Nat) (requests : Requests) : Answers asOf requests requests :=
  fun _ => .inl rfl

theorem Answers.trans {asOf : Nat} {first second third : Requests}
    (hfirst : Answers asOf first second) (hsecond : Answers asOf second third) :
    Answers asOf first third := by
  intro panel
  rcases hfirst panel with hsame | ⟨row, observedAt, hfound, hpending, hby, hanswered⟩
  · rw [← hsame]
    exact hsecond panel
  · rcases hsecond panel with hsame | ⟨later, _, hlater, hwaits, _⟩
    · exact .inr ⟨row, observedAt, hfound, hpending, hby, hsame.trans hanswered⟩
    · -- what the first answered waits no more
      obtain rfl : _ = later := Option.some.inj (hanswered.symm.trans hlater)
      simp at hwaits

theorem answer_answers (requests : Requests) (panel : Panel) {asOf plannedAt : Nat}
    (observedAt : Nat) (hby : asOf ≤ plannedAt) :
    Answers plannedAt requests (requests.answer panel asOf observedAt) := by
  intro other
  have hfind : (requests.answer panel asOf observedAt).find other =
      (requests.find other).map fun row =>
        if row.panel == panel && row.completedAt.isNone && decide (row.requestedAt ≤ asOf) then
          { row with completedAt := some observedAt } else row :=
    Table.find?_update (by simp) _ _
  cases hrow : requests.find other with
  | none => simp [hfind, hrow]
  | some row =>
      by_cases hselects : (row.panel == panel && row.completedAt.isNone &&
          decide (row.requestedAt ≤ asOf)) = true
      · have hwaits := hselects
        simp only [Bool.and_eq_true, Option.isNone_iff_eq_none, decide_eq_true_eq] at hwaits
        exact .inr ⟨row, observedAt, rfl, hwaits.1.2, Nat.le_trans hwaits.2 hby,
          by simp only [hfind, hrow, Option.map_some, hselects, if_true]⟩
      · exact .inl (by simp only [hfind, hrow, Option.map_some, hselects]; rfl)

end Requests

open Requests (Answers)

/-! ## What a report answers -/

theorem recordMachineReading_answers {estate : Estate} {expected : List String}
    {asOf observedAt plannedAt : Nat} {done next : Bool × Requests} {reading : MachineReading}
    (hby : asOf ≤ plannedAt)
    (h : recordMachineReading estate expected asOf observedAt done reading = .ok next) :
    Answers plannedAt done.2 next.2 := by
  unfold recordMachineReading at h
  split_ifs at h
  · obtain rfl := Except.ok.inj h
    exact .refl _ _
  · split at h
    · obtain rfl := Except.ok.inj h
      exact .refl _ _
    · rename_i resource _
      cases hrefused : reading.refused with
      | none =>
          rw [hrefused] at h
          obtain rfl := Except.ok.inj h
          exact Requests.answer_answers _ _ _ hby
      | some problem =>
          rw [hrefused] at h
          cases h

theorem recordMachineReadings_answers {estate : Estate} {controllerId : String}
    {asOf observedAt plannedAt : Nat} {item : Observation} {before after : Requests}
    (hby : asOf ≤ plannedAt)
    (h : recordMachineReadings estate controllerId asOf observedAt item before = .ok after) :
    Answers plannedAt before after := by
  obtain ⟨done, hdone, hmatched⟩ := exists_of_bind_eq_ok h
  have hanswers := related_of_foldlM_eq_ok
    (fun before after : Bool × Requests => Answers plannedAt before.2 after.2)
    (fun _ => .refl _ _) (fun hfirst hsecond => hfirst.trans hsecond)
    (fun hturn => recordMachineReading_answers hby hturn) hdone
  split_ifs at hmatched
  obtain rfl := Except.ok.inj hmatched
  exact hanswers

theorem recordWeatherReading_answers {estate : Estate} {asOf observedAt plannedAt : Nat}
    {item : Observation} {before after : Requests} (hby : asOf ≤ plannedAt)
    (h : recordWeatherReading estate asOf observedAt item before = .ok after) :
    Answers plannedAt before after := by
  unfold recordWeatherReading at h
  split_ifs at h
  obtain ⟨_, _, hanswered⟩ := exists_of_bind_eq_ok h
  obtain rfl := Except.ok.inj hanswered
  exact Requests.answer_answers _ _ _ hby

/-- An observation that says its plan was made at a moment answers what was asked by then. -/
theorem recordObservation_answers {estate : Estate} {controllerId : String} {now plannedAt : Nat}
    {item : Observation} {before after : Requests} (hplanned : item.asOf = some plannedAt)
    (h : recordObservation estate controllerId now before item = .ok after) :
    Answers plannedAt before after := by
  unfold recordObservation at h
  rw [hplanned] at h
  have hby : min plannedAt now ≤ plannedAt := Nat.min_le_left _ _
  dsimp only at h
  split_ifs at h
  · exact recordMachineReadings_answers hby h
  · exact recordWeatherReading_answers hby h

/-- A report of a reading answers what was asked by the moment its plan was made. -/
theorem recordDashboardObservations_answers {estate : Estate} {controllerId : String}
    {now plannedAt : Nat} {payload : List Observation} {before after : Requests}
    (hplanned : ∀ item ∈ payload, item.asOf = some plannedAt)
    (h : recordDashboardObservations estate controllerId now payload before = .ok after) :
    Answers plannedAt before after := by
  induction payload generalizing before with
  | nil =>
      obtain rfl := Except.ok.inj h
      exact .refl _ _
  | cons item payload ih =>
      rw [recordDashboardObservations, List.foldlM_cons] at h
      obtain ⟨middle, hmiddle, hrest⟩ := exists_of_bind_eq_ok h
      exact (recordObservation_answers (hplanned item List.mem_cons_self) hmiddle).trans
        (ih (fun other hother => hplanned other (List.mem_cons_of_mem item hother)) hrest)

end SeverinoHQ.Dashboard
