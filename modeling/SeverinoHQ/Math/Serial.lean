/-
# One writer at a time

A store that many callers change, where a change is read for before it is made.
A request is first prepared from the store as it stands, outside any
transaction; the call it becomes later takes the only write lock, works on the
store as locked, and commits or is refused. Between the two the store may have
moved any number of times. Everything the machine wrote is kept in order, so a
property of each write becomes a property of the store by following the writes.
-/

import SeverinoHQ.Math.Run

namespace SeverinoHQ.Math.Serial

/-- What a service does with a request, in its two parts. -/
structure Service (σ τ ρ κ ε : Type) where
  /-- The call a request becomes, by a read of the store made before the lock. -/
  prepare : σ → ρ → Except ε κ
  /-- The transaction at a moment: the store it commits, or why it is refused. -/
  transact : τ → κ → σ → Except ε σ

/-- A committed write, by a call of the service or by something else. -/
structure Write (σ τ κ : Type) where
  call : Option κ
  moment : τ
  before : σ
  after : σ

/-- A call refused inside its transaction, and the store it found. -/
structure Refusal (σ τ κ ε : Type) where
  call : κ
  moment : τ
  found : σ
  error : ε

/-- The store, the calls prepared and not begun, the transaction open on the
store as it was locked, and everything written and refused, oldest first. -/
structure State (σ τ κ ε : Type) where
  store : σ
  now : τ
  ready : List κ
  opened : Option (κ × σ)
  writes : List (Write σ τ κ)
  refusals : List (Refusal σ τ κ ε)

/-- What can happen next. -/
inductive Event (σ τ ρ : Type) where
  | tick (now : τ)
  | ask (request : ρ)
  | begin (index : Nat)
  | finish
  | elsewhere (after : σ)

variable {σ τ ρ κ ε : Type}

/-- A store nobody has asked anything of. -/
def State.initial (store : σ) (now : τ) : State σ τ κ ε := ⟨store, now, [], none, [], []⟩

/-- One event. A lock that is taken holds back every other writer. -/
def Service.step (service : Service σ τ ρ κ ε) (state : State σ τ κ ε) :
    Event σ τ ρ → State σ τ κ ε
  | .tick now => { state with now := now }
  | .ask request =>
      match service.prepare state.store request with
      | .ok call => { state with ready := state.ready ++ [call] }
      | .error _ => state
  | .begin index =>
      match state.opened, state.ready[index]? with
      | none, some call =>
          { state with
            ready := state.ready.eraseIdx index
            opened := some (call, state.store) }
      | _, _ => state
  | .finish =>
      match state.opened with
      | none => state
      | some (call, found) =>
          match service.transact state.now call found with
          | .ok after =>
              { state with
                store := after
                opened := none
                writes := state.writes ++ [⟨some call, state.now, found, after⟩] }
          | .error error =>
              { state with
                opened := none
                refusals := state.refusals ++ [⟨call, state.now, found, error⟩] }
  | .elsewhere after =>
      match state.opened with
      | some _ => state
      | none =>
          { state with
            store := after
            writes := state.writes ++ [⟨none, state.now, state.store, after⟩] }

/-! ## Following the writes -/

/-- The writes lead from one store to another, each from where the last left it. -/
def Linked : σ → List (Write σ τ κ) → σ → Prop
  | start, [], last => start = last
  | start, write :: writes, last => write.before = start ∧ Linked write.after writes last

theorem Linked.snoc {start last : σ} {writes : List (Write σ τ κ)}
    (h : Linked start writes last) {write : Write σ τ κ} (hwrite : write.before = last) :
    Linked start (writes ++ [write]) write.after := by
  induction writes generalizing start with
  | nil => exact ⟨hwrite.trans h.symm, rfl⟩
  | cons first writes ih => exact ⟨h.1, ih h.2⟩

/-- What follows one of the writes leads from what it left to the end. -/
theorem Linked.after {start last : σ} {earlier later : List (Write σ τ κ)} {write : Write σ τ κ}
    (h : Linked start (earlier ++ write :: later) last) : Linked write.after later last := by
  induction earlier generalizing start with
  | nil => exact h.2
  | cons first earlier ih => exact ih h.2

/-- What holds of the store at the start and is kept by every write holds at the end. -/
theorem Linked.invariant (inv : σ → Prop) {start last : σ} {writes : List (Write σ τ κ)}
    (h : Linked start writes last) (hstart : inv start)
    (hkept : ∀ write ∈ writes, inv write.before → inv write.after) :
    inv last ∧ ∀ write ∈ writes, inv write.before := by
  induction writes generalizing start with
  | nil => exact ⟨h ▸ hstart, by simp⟩
  | cons write writes ih =>
      obtain ⟨hfirst, hrest⟩ := List.forall_mem_cons.mp hkept
      have hbefore : inv write.before := h.1 ▸ hstart
      obtain ⟨hlast, hmiddle⟩ := ih h.2 (hfirst hbefore) hrest
      exact ⟨hlast, List.forall_mem_cons.mpr ⟨hbefore, hmiddle⟩⟩

/-! ## Every run -/

variable (service : Service σ τ ρ κ ε) (permitted : σ → Prop) (start : σ)

/-- Something else than the service leaves only what is permitted. -/
def Event.Permitted : Event σ τ ρ → Prop
  | .elsewhere after => permitted after
  | _ => True

/-- What holds between any two events: the open transaction works on the store
as it still is, and everything written or refused was so by its transaction. -/
structure Sound (state : State σ τ κ ε) : Prop where
  locked : ∀ call found, state.opened = some (call, found) → found = state.store
  linked : Linked start state.writes state.store
  committed : ∀ write ∈ state.writes, ∀ call, write.call = some call →
    service.transact write.moment call write.before = .ok write.after
  elsewhere : ∀ write ∈ state.writes, write.call = none → permitted write.after
  refused : ∀ refusal ∈ state.refusals,
    service.transact refusal.moment refusal.call refusal.found = .error refusal.error

theorem initial_sound (now : τ) : Sound service permitted start (State.initial start now) :=
  ⟨by simp [State.initial], rfl, by simp [State.initial], by simp [State.initial],
    by simp [State.initial]⟩

variable {service permitted start}

theorem step_sound {state : State σ τ κ ε} (h : Sound service permitted start state)
    (event : Event σ τ ρ) (hevent : event.Permitted permitted) :
    Sound service permitted start (service.step state event) := by
  cases event with
  | tick now => exact ⟨h.locked, h.linked, h.committed, h.elsewhere, h.refused⟩
  | ask request =>
      simp only [Service.step]
      split
      · exact ⟨h.locked, h.linked, h.committed, h.elsewhere, h.refused⟩
      · exact h
  | begin index =>
      simp only [Service.step]
      split
      · refine ⟨fun call found hopened => ?_, h.linked, h.committed, h.elsewhere, h.refused⟩
        exact (Prod.mk.inj (Option.some.inj hopened)).2.symm
      · exact h
  | finish =>
      simp only [Service.step]
      split
      · exact h
      · next call found hopened =>
          have hfound := h.locked call found hopened
          split
          · next after hafter =>
              refine ⟨by simp, h.linked.snoc hfound, ?_, ?_, h.refused⟩
              all_goals
                intro write hwrite
                rcases List.mem_append.mp hwrite with hold | hnew
              · exact h.committed write hold
              · obtain rfl := List.mem_singleton.mp hnew
                rintro other ⟨⟩
                exact hafter
              · exact h.elsewhere write hold
              · obtain rfl := List.mem_singleton.mp hnew
                rintro ⟨⟩
          · next error herror =>
              refine ⟨by simp, h.linked, h.committed, h.elsewhere, ?_⟩
              intro refusal hrefusal
              rcases List.mem_append.mp hrefusal with hold | hnew
              · exact h.refused refusal hold
              · obtain rfl := List.mem_singleton.mp hnew
                exact herror
  | elsewhere after =>
      simp only [Service.step]
      split
      · exact h
      · next hopened =>
          refine ⟨by simp [hopened], h.linked.snoc rfl, ?_, ?_, h.refused⟩
          all_goals
            intro write hwrite
            rcases List.mem_append.mp hwrite with hold | hnew
          · exact h.committed write hold
          · obtain rfl := List.mem_singleton.mp hnew
            rintro other ⟨⟩
          · exact h.elsewhere write hold
          · obtain rfl := List.mem_singleton.mp hnew
            exact fun _ => hevent

variable (service start) in
theorem run_sound (now : τ) {events : List (Event σ τ ρ)}
    (hevents : ∀ event ∈ events, event.Permitted permitted) :
    Sound service permitted start (run service.step (State.initial start now) events) :=
  run_invariant (Sound service permitted start) (fun _ event h hevent => step_sound h event hevent)
    (initial_sound service permitted start now)
    (meets_of_forall_mem fun event hevent _ => hevents event hevent)

/-- What the service's own writes keep, and all other writes leave, holds of the
store every write found. -/
theorem Sound.invariant {inv : σ → Prop} {state : State σ τ κ ε}
    (h : Sound service inv start state) (hstart : inv start)
    (hkept : ∀ now call before after, inv before → service.transact now call before = .ok after →
      inv after) :
    inv state.store ∧ ∀ write ∈ state.writes, inv write.before := by
  apply h.linked.invariant inv hstart
  intro write hwrite hbefore
  cases hcall : write.call with
  | none => exact h.elsewhere write hwrite hcall
  | some call =>
      exact hkept write.moment call write.before write.after hbefore
        (h.committed write hwrite call hcall)

variable (service) in
/-- A transaction that is refused writes nothing, and is answered with why. -/
theorem finish_refused {state : State σ τ κ ε} {call : κ} {found : σ} {error : ε}
    (hopened : state.opened = some (call, found))
    (hrefused : service.transact state.now call found = .error error) :
    (service.step state .finish).store = state.store ∧
      (service.step state .finish).writes = state.writes ∧
      (service.step state .finish).refusals =
        state.refusals ++ [⟨call, state.now, found, error⟩] := by
  simp [Service.step, hopened, hrefused]

end SeverinoHQ.Math.Serial
