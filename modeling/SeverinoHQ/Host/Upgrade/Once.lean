/-
# An operation is begun once

Invocations of the helper run in any order with each other, and each may be killed
between any two calls. Making the operation's directory is what one of them does
and no other can do again; the one that made it writes the exit code and then the
result, and every other only reads them.
-/

import SeverinoHQ.Host.Upgrade.Progress
import SeverinoHQ.Host.Upgrade.Mounts

namespace SeverinoHQ.Host.Upgrade

open SeverinoHQ.Math SeverinoHQ.Math.Dialogue
open SeverinoHQ.Math.Bytes (ascii)

/-! ## What one invocation has done -/

/-- The operation's directory, made. -/
def isBegin (state : Bytes) : Exchange Ask Ask.Reply → Bool
  | ⟨.mkdir made, reply⟩ => reply && made == state
  | _ => false

theorem isBegin_iff {state : Bytes} {exchange : Exchange Ask Ask.Reply} :
    isBegin state exchange = true ↔ exchange = ⟨.mkdir state, true⟩ := by
  obtain ⟨call, reply⟩ := exchange
  cases call with
  | mkdir made =>
      cases reply with
      | false => simp [isBegin]
      | true => simp [isBegin]
  | _ => simp [isBegin]

/-- An exchange that changes nothing of the host but for the state root. -/
def Harmless (exchange : Exchange Ask Ask.Reply) : Prop :=
  match exchange with
  | ⟨.mkdir _, made⟩ => made = false
  | ⟨.run _ _ _, _⟩ => False
  | _ => True

/-- An exchange that records. -/
def isRecord (exchange : Exchange Ask Ask.Reply) : Bool :=
  match exchange.1 with
  | .run _ _ call => call.records
  | _ => false

variable {encoder : Encoder} {invocation : Invocation} {asked : Asked} {ending : Option Answer}

theorem harmless_of_checks {α : Type} {program rest : Visit α} (h : Checks program)
    (hfollows : Follows program asked rest) : ∀ exchange ∈ asked, Harmless exchange := by
  intro exchange hexchange
  have hcall := h.follows hfollows exchange hexchange
  obtain ⟨call, reply⟩ := exchange
  cases call with
  | lstat | hasACL => trivial
  | readResult | readExit | mkdirAll | mkdir | run => exact absurd hcall (by simp [Ask.checks])

/-- An invocation has done nothing to the host, or made one directory and run in it. -/
theorem Visited.shape (h : Visited encoder invocation asked ending) :
    (∀ exchange ∈ asked, Harmless exchange) ∨
      ∃ earlier state request exchanges,
        asked = earlier ++ ⟨.mkdir state, true⟩ :: exchanges.map (labelled state request) ∧
          (∀ exchange ∈ earlier, Harmless exchange) ∧ Orderly (records exchanges) := by
  cases h with
  | unread => exact Or.inl (by simp)
  | checking _ hprepare =>
      obtain ⟨call, next, hprepare⟩ := hprepare
      exact Or.inl (harmless_of_checks (Upgrader.prepare_checks _ _) hprepare)
  | refused _ hprepare =>
      exact Or.inl (harmless_of_checks (Upgrader.prepare_checks _ _) hprepare)
  | prepared _ hprepare hprogress =>
      have hchecked := harmless_of_checks (Upgrader.prepare_checks _ _) hprepare
      cases hprogress with
      | @begun exchanges fuel pinFile between hrun =>
          refine Or.inr ⟨_ ++ [_, _], _, _, exchanges, by simp; rfl, ?_,
            (Run.execute_concludes _ fuel pinFile).orderly hrun⟩
          simp only [List.forall_mem_append, List.forall_mem_cons]
          exact ⟨hchecked, trivial, trivial, by simp⟩
      | _ =>
          refine Or.inl (List.forall_mem_append.mpr ⟨hchecked, ?_⟩)
          simp [Harmless]

/-- What runs in a directory made it. -/
theorem Visited.begins (h : Visited encoder invocation asked ending) {state : Bytes}
    {request : Request} {call : Call} {reply : Reply call}
    (hrun : ⟨.run state request call, reply⟩ ∈ asked) : ⟨.mkdir state, true⟩ ∈ asked := by
  rcases h.shape with hharmless | ⟨earlier, made, run, exchanges, rfl, hearlier, -⟩
  · exact absurd (hharmless _ hrun) id
  · rcases List.mem_append.mp hrun with hmem | hmem
    · exact absurd (hearlier _ hmem) id
    · rcases List.mem_cons.mp hmem with heq | hmem
      · exact absurd (congrArg Sigma.fst heq) (by simp)
      · obtain ⟨exchange, -, heq⟩ := List.mem_map.mp hmem
        have hcall := congrArg Sigma.fst heq
        simp only [labelled, Ask.run.injEq] at hcall
        rw [hcall.1]
        simp

theorem isRecord_of_harmless {exchange : Exchange Ask Ask.Reply} (h : Harmless exchange) :
    isRecord exchange = false := by
  obtain ⟨call, reply⟩ := exchange
  cases call with
  | run => exact absurd h id
  | _ => rfl

/-- The records of an invocation are its run's, in order. -/
theorem Visited.orderly (h : Visited encoder invocation asked ending) :
    ∃ state request recorded, asked.filter isRecord = recorded.map (labelled state request) ∧
      Orderly recorded := by
  have hnone : ∀ quiet : Asked, (∀ exchange ∈ quiet, Harmless exchange) →
      quiet.filter isRecord = [] := by
    intro quiet hquiet
    apply List.filter_eq_nil_iff.mpr
    intro exchange hexchange
    simp [isRecord_of_harmless (hquiet exchange hexchange)]
  rcases h.shape with hharmless | ⟨earlier, state, request, exchanges, rfl, hearlier, horderly⟩
  · exact ⟨[], ⟨[], [], [], [], [], [], 0⟩, [], hnone asked hharmless, Or.inl rfl⟩
  · refine ⟨state, request, records exchanges, ?_, horderly⟩
    rw [List.filter_append, hnone earlier hearlier, List.nil_append]
    simp [isRecord, List.filter_map, records, Function.comp_def, labelled]

/-- An exit code is read only once a result was. -/
theorem Visited.reads_result (h : Visited encoder invocation asked ending) {state : Bytes}
    {exit : Option Bytes} (hexit : ⟨.readExit state, exit⟩ ∈ asked) :
    ∃ printed, ⟨.readResult state, some printed⟩ ∈ asked := by
  have hchecks : ∀ {α : Type} {program rest : Visit α} {early : Asked}, Checks program →
      Follows program early rest → ⟨.readExit state, exit⟩ ∉ early := by
    intro α program rest early hchecks hfollows hmem
    exact absurd (hchecks.follows hfollows _ hmem) (by simp [Ask.checks])
  cases h with
  | unread => exact absurd hexit (by simp)
  | checking _ hprepare =>
      obtain ⟨call, next, hprepare⟩ := hprepare
      exact absurd hexit (hchecks (Upgrader.prepare_checks _ _) hprepare)
  | refused _ hprepare => exact absurd hexit (hchecks (Upgrader.prepare_checks _ _) hprepare)
  | @prepared upgrader request _ _ _ _ _ hprepare hprogress =>
      have hlater := (List.mem_append.mp hexit).resolve_left
        (hchecks (Upgrader.prepare_checks _ _) hprepare)
      cases hprogress with
      | recorded printed read =>
          have hlast : (⟨.readExit state, exit⟩ : Exchange Ask Ask.Reply) =
              ⟨.readExit (upgrader.stateOf request.operation), read⟩ := by
            refine List.mem_singleton.mp ((List.mem_cons.mp hlater).resolve_left fun heq => ?_)
            exact absurd (congrArg Sigma.fst heq) (by simp)
          obtain rfl : state = upgrader.stateOf request.operation :=
            Ask.readExit.inj (congrArg Sigma.fst hlast)
          exact ⟨printed, by simp⟩
      | begun hrun => exact absurd hlater (by simp [labelled])
      | _ => exact absurd hlater (by simp)

/-! ## The state directories -/

/-- What is kept for an operation. -/
structure Record where
  made : Bool
  exit : Option Bytes
  result : Option Bytes
  deriving DecidableEq, Repr

/-- Nothing kept. -/
def Record.none : Record := ⟨false, .none, .none⟩

/-- The state root: what is kept in each directory. -/
abbrev Shelf := Bytes → Record

/-- What a call does to the state directories, by what it is answered. A directory is
made where there was none, or not made; a file that could not be written may hold
anything, but a result is put in place whole, and one that could not be read is none. -/
def Stores (encoder : Encoder) (shelf : Shelf) : Exchange Ask Ask.Reply → Shelf → Prop
  | ⟨.mkdir state, made⟩, next =>
      (made = false → next = shelf) ∧ (made = true → (shelf state).made = false ∧
        next = Function.update shelf state { shelf state with made := true })
  | ⟨.readResult state, read⟩, next =>
      next = shelf ∧ ∀ text, read = some text → (shelf state).result = some text
  | ⟨.readExit state, read⟩, next =>
      next = shelf ∧ ∀ text, read = some text → (shelf state).exit = some text
  | ⟨.run state _ (.writeExit code), error⟩, next =>
      ∃ exit, next = Function.update shelf state { shelf state with exit := exit } ∧
        (error = none → exit = some (exitText code))
  | ⟨.run state request (.writeResult outcome steps), error⟩, next =>
      ∃ result, next = Function.update shelf state { shelf state with result := result } ∧
        (result = (shelf state).result ∨ result = some (encoder.result request outcome steps)) ∧
        (error = none → result = some (encoder.result request outcome steps))
  | _, next => next = shelf

/-- What a pool of invocations has exchanged. -/
abbrev History (ι : Type) := List (ι × Exchange Ask Ask.Reply)

variable {ι : Type}

/-- The state directories, held against what was exchanged. -/
structure Kept (encoder : Encoder) (shelf : Shelf) (history : History ι) : Prop where
  once : ∀ state, (history.filter fun entry => isBegin state entry.2).length =
    if (shelf state).made then 1 else 0
  exit : ∀ {who state request code}, (who, ⟨.run state request (.writeExit code), none⟩) ∈ history →
    (shelf state).exit = some (exitText code)
  result : ∀ {state text}, (shelf state).result = some text →
    ∃ who request outcome steps error,
      (who, ⟨.run state request (.writeResult outcome steps), error⟩) ∈ history ∧
        text = encoder.result request outcome steps ∧
        (shelf state).exit = some (exitText (Outcome.code outcome))
  readResult : ∀ {who state text}, (who, ⟨.readResult state, some text⟩) ∈ history →
    (shelf state).result = some text
  readExit : ∀ {who state text}, (who, ⟨.readExit state, some text⟩) ∈ history →
    (shelf state).exit = some text ∧ (shelf state).result.isSome

/-- The exchanges that leave the state directories, and what is known of them, alone. -/
def Idles (exchange : Exchange Ask Ask.Reply) : Prop :=
  match exchange with
  | ⟨.mkdir _, made⟩ => made = false
  | ⟨.readResult _, read⟩ | ⟨.readExit _, read⟩ => read = none
  | ⟨.run _ _ call, _⟩ => call.records = false
  | _ => True

theorem Stores.eq_of_idles {shelf next : Shelf} {exchange : Exchange Ask Ask.Reply}
    (hidles : Idles exchange) (h : Stores encoder shelf exchange next) : next = shelf := by
  obtain ⟨call, reply⟩ := exchange
  cases call with
  | mkdir state => exact h.1 hidles
  | readResult state => exact h.1
  | readExit state => exact h.1
  | run state request call =>
      cases call with
      | writeExit | writeResult => exact absurd hidles (by simp [Idles, Call.records])
      | _ => exact h
  | _ => exact h

theorem Kept.of_idles {shelf : Shelf} {history : History ι} {who : ι}
    {exchange : Exchange Ask Ask.Reply} (h : Kept encoder shelf history) (hidles : Idles exchange) :
    Kept encoder shelf (history ++ [(who, exchange)]) := by
  have hearlier : ∀ {other : ι} {said : Exchange Ask Ask.Reply}, ¬Idles said →
      (other, said) ∈ history ++ [(who, exchange)] → (other, said) ∈ history := by
    intro other said hsaid hmem
    refine (List.mem_append.mp hmem).resolve_right fun hlast => hsaid ?_
    obtain ⟨-, rfl⟩ := Prod.mk.inj (List.mem_singleton.mp hlast)
    exact hidles
  have hbegin : ∀ state, isBegin state exchange = false := by
    intro state
    rw [← Bool.not_eq_true, isBegin_iff]
    rintro rfl
    exact absurd hidles (by simp [Idles])
  refine ⟨fun state => ?_, fun hmem => ?_, fun hresult => ?_, fun hmem => ?_, fun hmem => ?_⟩
  · simpa [List.filter_append, hbegin] using h.once state
  · exact h.exit (hearlier (by simp [Idles, Call.records]) hmem)
  · obtain ⟨runner, request, outcome, steps, error, hmem, htext⟩ := h.result hresult
    exact ⟨runner, request, outcome, steps, error, List.mem_append_left _ hmem, htext⟩
  · exact h.readResult (hearlier (by simp [Idles]) hmem)
  · exact h.readExit (hearlier (by simp [Idles]) hmem)

/-! ## Every interleaving -/

section Records

variable {recorded : Exchanges} {earlier : Asked} {state made : Bytes} {request run : Request}

/-- The last thing recorded, and what was before it. -/
theorem snoc_recorded {latest : Exchange Ask Ask.Reply}
    (h : recorded.map (labelled made run) = earlier ++ [latest]) :
    earlier = recorded.dropLast.map (labelled made run) ∧
      (recorded.map (labelled made run)).getLast? = some latest := by
  constructor
  · rw [List.map_dropLast, h, List.dropLast_concat]
  · rw [h, List.getLast?_concat]

/-- An exit code is the first thing recorded. -/
theorem Orderly.eq_nil_of_exit {code : Nat} {error : Option FileError} (h : Orderly recorded)
    (hlast : recorded.map (labelled made run) =
      earlier ++ [⟨.run state request (.writeExit code), error⟩]) : earlier = [] := by
  obtain ⟨hearlier, hlatest⟩ := snoc_recorded hlast
  rcases h with rfl | ⟨outcome, failed, rfl⟩ | ⟨outcome, steps, failed, rfl⟩
  · exact hearlier
  · exact hearlier
  · exact absurd (congrArg Sigma.fst (Option.some.inj hlatest)) (by simp [labelled])

/-- A result is recorded right after its exit code. -/
theorem Orderly.eq_exit_of_result {outcome : Outcome} {steps : List Step} {error : Option FileError}
    (h : Orderly recorded)
    (hlast : recorded.map (labelled made run) =
      earlier ++ [⟨.run state request (.writeResult outcome steps), error⟩]) :
    earlier = [⟨.run state request (.writeExit outcome.code), none⟩] := by
  obtain ⟨hearlier, hlatest⟩ := snoc_recorded hlast
  rcases h with rfl | ⟨other, failed, rfl⟩ | ⟨other, said, failed, rfl⟩
  · exact absurd hlatest (by simp)
  · exact absurd (congrArg Sigma.fst (Option.some.inj hlatest)) (by simp [labelled])
  · obtain ⟨rfl, rfl, hcall⟩ := Ask.run.inj (congrArg Sigma.fst (Option.some.inj hlatest))
    obtain ⟨rfl, -⟩ := Call.writeResult.inj hcall
    exact hearlier

end Records

variable {shelf next : Shelf} {history : History ι} {who : ι} {invocation : ι → Invocation}

/-- Every invocation is where its own exchanges lead. -/
def Visits [DecidableEq ι] (encoder : Encoder) (invocation : ι → Invocation) (history : History ι) : Prop :=
  ∀ who, ∃ ending, Visited encoder (invocation who) (Pool.said history who) ending

/-- No two invocations make one directory. -/
theorem Kept.begun_once (h : Kept encoder shelf history) {state : Bytes} {other : ι}
    (hwho : (who, ⟨.mkdir state, true⟩) ∈ history)
    (hother : (other, ⟨.mkdir state, true⟩) ∈ history) : who = other := by
  have hle : (history.filter fun entry => isBegin state entry.2).length ≤ 1 := by
    rw [h.once state]
    split <;> simp
  have hmem : ∀ {one : ι}, (one, (⟨.mkdir state, true⟩ : Exchange Ask Ask.Reply)) ∈ history →
      (one, ⟨.mkdir state, true⟩) ∈ history.filter fun entry => isBegin state entry.2 :=
    fun hone => List.mem_filter.mpr ⟨hone, isBegin_iff.mpr rfl⟩
  obtain ⟨only, honly⟩ := List.length_eq_one_iff.mp
    (Nat.le_antisymm hle (List.length_pos_of_mem (hmem hwho)))
  have hfirst := List.mem_singleton.mp (honly ▸ hmem hwho)
  have hsecond := List.mem_singleton.mp (honly ▸ hmem hother)
  exact congrArg Prod.fst (hfirst.trans hsecond.symm)

/-- All that runs in a directory is one invocation's. -/
theorem runs_in_one [DecidableEq ι] (h : Kept encoder shelf history) {state : Bytes}
    {request asked : Request} {call said : Call} {reply : Reply call} {answer : Reply said}
    {other : ι}
    (hvisits : Visits encoder invocation
      (history ++ [(who, ⟨.run state request call, reply⟩)]))
    (hmem : (other, ⟨.run state asked said, answer⟩) ∈ history) : other = who := by
  have hbegins : ∀ {one : ι} {asking : Request} {made : Call} {replied : Reply made},
      (one, (⟨.run state asking made, replied⟩ : Exchange Ask Ask.Reply)) ∈
        history ++ [(who, ⟨.run state request call, reply⟩)] →
      (one, ⟨.mkdir state, true⟩) ∈ history := by
    intro one asking made replied hone
    obtain ⟨ending, hvisited⟩ := hvisits one
    have hbegin := Pool.mem_said.mp (hvisited.begins (Pool.mem_said.mpr hone))
    refine (List.mem_append.mp hbegin).resolve_right fun hlast => ?_
    have hsame := (Prod.mk.inj (List.mem_singleton.mp hlast)).2
    exact absurd (congrArg Sigma.fst hsame) (by simp)
  refine h.begun_once (hbegins (List.mem_append_left _ hmem)) ?_
  exact hbegins (List.mem_append_right _ (List.mem_singleton.mpr rfl))

/-- What a new exchange is not was exchanged before. -/
theorem mem_earlier {other : ι} {exchange said : Exchange Ask Ask.Reply}
    (hmem : (other, said) ∈ history ++ [(who, exchange)]) (hne : said ≠ exchange) :
    (other, said) ∈ history :=
  (List.mem_append.mp hmem).resolve_right fun hlast =>
    hne (Prod.mk.inj (List.mem_singleton.mp hlast)).2

theorem ne_of_call_ne {first second : Exchange Ask Ask.Reply} (h : first.1 ≠ second.1) :
    first ≠ second := fun heq => h (congrArg Sigma.fst heq)

theorem Kept.mkdir (h : Kept encoder shelf history) {state : Bytes}
    (hstores : Stores encoder shelf ⟨.mkdir state, true⟩ next) :
    Kept encoder next (history ++ [(who, ⟨.mkdir state, true⟩)]) := by
  obtain ⟨hmade, rfl⟩ := hstores.2 rfl
  have hsame : ∀ other, (Function.update shelf state { shelf state with made := true } other).exit =
      (shelf other).exit ∧ (Function.update shelf state { shelf state with made := true } other).result =
      (shelf other).result := by
    intro other
    by_cases hother : other = state
    · subst hother
      simp
    · simp [hother]
  refine ⟨fun other => ?_, fun hmem => ?_, fun {other text} hresult => ?_, fun hmem => ?_,
    fun hmem => ?_⟩
  · rw [List.filter_append, List.length_append, h.once other]
    by_cases hother : other = state
    · subst hother
      simp [isBegin, hmade]
    · simp [isBegin, hother, Ne.symm hother]
  · rw [(hsame _).1]
    exact h.exit (mem_earlier hmem (ne_of_call_ne (by simp)))
  · rw [(hsame other).2] at hresult
    obtain ⟨runner, request, outcome, steps, error, hmem, htext, hexit⟩ := h.result hresult
    refine ⟨runner, request, outcome, steps, error, List.mem_append_left _ hmem, htext, ?_⟩
    rw [(hsame other).1]
    exact hexit
  · rw [(hsame _).2]
    exact h.readResult (mem_earlier hmem (ne_of_call_ne (by simp)))
  · rw [(hsame _).1, (hsame _).2]
    exact h.readExit (mem_earlier hmem (ne_of_call_ne (by simp)))

theorem Kept.read_result (h : Kept encoder shelf history) {state text : Bytes}
    (hread : (shelf state).result = some text) :
    Kept encoder shelf (history ++ [(who, ⟨.readResult state, some text⟩)]) := by
  refine ⟨fun other => ?_, fun hmem => ?_, fun hresult => ?_, fun {one other said} hmem => ?_,
    fun hmem => ?_⟩
  · simpa [List.filter_append, isBegin] using h.once other
  · exact h.exit (mem_earlier hmem (ne_of_call_ne (by simp)))
  · obtain ⟨runner, request, outcome, steps, error, hmem, htext⟩ := h.result hresult
    exact ⟨runner, request, outcome, steps, error, List.mem_append_left _ hmem, htext⟩
  · rcases List.mem_append.mp hmem with hmem | hlast
    · exact h.readResult hmem
    · have heq := (Prod.mk.inj (List.mem_singleton.mp hlast)).2
      obtain rfl := Ask.readResult.inj (congrArg Sigma.fst heq)
      rw [hread]
      exact congrArg some (Option.some.inj (eq_of_heq (Sigma.mk.inj heq).2)).symm
  · exact h.readExit (mem_earlier hmem (ne_of_call_ne (by simp)))

theorem Kept.read_exit (h : Kept encoder shelf history) {state text : Bytes}
    (hread : (shelf state).exit = some text) (hresult : (shelf state).result.isSome) :
    Kept encoder shelf (history ++ [(who, ⟨.readExit state, some text⟩)]) := by
  refine ⟨fun other => ?_, fun hmem => ?_, fun hfound => ?_, fun hmem => ?_,
    fun {one other said} hmem => ?_⟩
  · simpa [List.filter_append, isBegin] using h.once other
  · exact h.exit (mem_earlier hmem (ne_of_call_ne (by simp)))
  · obtain ⟨runner, request, outcome, steps, error, hmem, htext⟩ := h.result hfound
    exact ⟨runner, request, outcome, steps, error, List.mem_append_left _ hmem, htext⟩
  · exact h.readResult (mem_earlier hmem (ne_of_call_ne (by simp)))
  · rcases List.mem_append.mp hmem with hmem | hlast
    · exact h.readExit hmem
    · have heq := (Prod.mk.inj (List.mem_singleton.mp hlast)).2
      obtain rfl := Ask.readExit.inj (congrArg Sigma.fst heq)
      refine ⟨?_, hresult⟩
      rw [hread]
      exact congrArg some (Option.some.inj (eq_of_heq (Sigma.mk.inj heq).2)).symm

/-- Writing into a directory that was made, or was not, makes none. -/
theorem Kept.once_rewritten (h : Kept encoder shelf history) {state : Bytes}
    {request : Request} {record : Record} {call : Call} {reply : Reply call}
    (hmade : record.made = (shelf state).made) (other : Bytes) :
    ((history ++ [(who, (⟨.run state request call, reply⟩ : Exchange Ask Ask.Reply))]).filter
      fun entry => isBegin other entry.2).length =
        if (Function.update shelf state record other).made then 1 else 0 := by
  rw [List.filter_append, List.length_append, h.once other]
  by_cases hother : other = state
  · subst hother
    simp [isBegin, hmade]
  · simp [isBegin, hother]

/-- Where no result is kept, nothing was read, so what was read is kept elsewhere. -/
theorem Kept.reads_rewritten (h : Kept encoder shelf history) {state : Bytes}
    {request : Request} (hunresulted : (shelf state).result = none) {record : Record} {call : Call}
    {reply : Reply call} {one : ι} {other text : Bytes} :
    ((one, ⟨.readResult other, some text⟩) ∈
        history ++ [(who, (⟨.run state request call, reply⟩ : Exchange Ask Ask.Reply))] →
      (Function.update shelf state record other).result = some text) ∧
    ((one, ⟨.readExit other, some text⟩) ∈
        history ++ [(who, (⟨.run state request call, reply⟩ : Exchange Ask Ask.Reply))] →
      (Function.update shelf state record other).exit = some text ∧
        (Function.update shelf state record other).result.isSome) := by
  constructor
  · intro hmem
    have hread := h.readResult (mem_earlier hmem (ne_of_call_ne (by simp)))
    by_cases hother : other = state
    · subst hother
      exact absurd (hunresulted.symm.trans hread) (by simp)
    · rw [Function.update_of_ne hother]
      exact hread
  · intro hmem
    have hread := h.readExit (mem_earlier hmem (ne_of_call_ne (by simp)))
    by_cases hother : other = state
    · subst hother
      exact absurd hread.2 (by simp [hunresulted])
    · rw [Function.update_of_ne hother]
      exact hread

section Runs

variable [DecidableEq ι] {state : Bytes} {request : Request}

/-- What a run has recorded before it records again. -/
theorem recorded_before {call : Call} {reply : Reply call} (hrecords : call.records = true)
    (hvisits : Visits encoder invocation (history ++ [(who, ⟨.run state request call, reply⟩)])) :
    ∃ made run recorded, Orderly recorded ∧ recorded.map (labelled made run) =
      (Pool.said history who).filter isRecord ++ [⟨.run state request call, reply⟩] := by
  obtain ⟨ending, hvisited⟩ := hvisits who
  obtain ⟨made, run, recorded, hfilter, horderly⟩ := hvisited.orderly
  refine ⟨made, run, recorded, horderly, ?_⟩
  rw [← hfilter, Pool.said_append_self, List.filter_append]
  simp [isRecord, hrecords]

/-- A run that writes its exit code has recorded nothing, and no other runs there. -/
theorem Kept.unrecorded (h : Kept encoder shelf history) {code : Nat} {error : Option FileError}
    (hvisits : Visits encoder invocation
      (history ++ [(who, ⟨.run state request (.writeExit code), error⟩)]))
    {other : ι} {asked : Request} {call : Call} {reply : Reply call}
    (hmem : (other, ⟨.run state asked call, reply⟩) ∈ history) : call.records = false := by
  obtain rfl := runs_in_one h hvisits hmem
  obtain ⟨made, run, recorded, horderly, hlast⟩ := recorded_before rfl hvisits
  have hnone := horderly.eq_nil_of_exit hlast
  have hsaid := List.filter_eq_nil_iff.mp hnone _ (Pool.mem_said.mpr hmem)
  exact Bool.not_eq_true _ ▸ hsaid

theorem Kept.write_exit (h : Kept encoder shelf history) {code : Nat} {error : Option FileError}
    {exit : Option Bytes} (hexit : error = none → exit = some (exitText code))
    (hvisits : Visits encoder invocation
      (history ++ [(who, ⟨.run state request (.writeExit code), error⟩)])) :
    Kept encoder (Function.update shelf state { shelf state with exit := exit })
      (history ++ [(who, ⟨.run state request (.writeExit code), error⟩)]) := by
  have hunresulted : (shelf state).result = none := by
    refine Option.eq_none_iff_forall_ne_some.mpr fun text hresult => ?_
    obtain ⟨runner, asked, outcome, steps, failed, hmem, -⟩ := h.result hresult
    exact absurd (h.unrecorded hvisits hmem) (by simp [Call.records])
  refine ⟨fun other => ?_, fun {one other asked written} hmem => ?_, fun {other text} hresult => ?_,
    fun {one other text} hmem => ?_, fun {one other text} hmem => ?_⟩
  · exact h.once_rewritten (by rfl) other
  · rcases List.mem_append.mp hmem with hearlier | hlast
    · by_cases hother : other = state
      · subst hother
        exact absurd (h.unrecorded hvisits hearlier) (by simp [Call.records])
      · rw [Function.update_of_ne hother]
        exact h.exit hearlier
    · have heq := (Prod.mk.inj (List.mem_singleton.mp hlast)).2
      obtain ⟨rfl, rfl, hcall⟩ := Ask.run.inj (congrArg Sigma.fst heq)
      obtain rfl := Call.writeExit.inj hcall
      rw [Function.update_self]
      exact hexit (eq_of_heq (Sigma.mk.inj heq).2).symm
  · by_cases hother : other = state
    · subst hother
      rw [Function.update_self] at hresult
      exact absurd (hunresulted.symm.trans hresult) (by simp)
    · rw [Function.update_of_ne hother] at hresult ⊢
      obtain ⟨runner, asked, outcome, steps, failed, hmem, htext⟩ := h.result hresult
      exact ⟨runner, asked, outcome, steps, failed, List.mem_append_left _ hmem, htext⟩
  · exact (h.reads_rewritten hunresulted).1 hmem
  · exact (h.reads_rewritten hunresulted).2 hmem

theorem Kept.write_result (h : Kept encoder shelf history) {outcome : Outcome} {steps : List Step}
    {error : Option FileError} {result : Option Bytes}
    (hresult : result = (shelf state).result ∨
      result = some (encoder.result request outcome steps))
    (hvisits : Visits encoder invocation
      (history ++ [(who, ⟨.run state request (.writeResult outcome steps), error⟩)])) :
    Kept encoder (Function.update shelf state { shelf state with result := result })
      (history ++ [(who, ⟨.run state request (.writeResult outcome steps), error⟩)]) := by
  obtain ⟨made, run, recorded, horderly, hlast⟩ := recorded_before rfl hvisits
  have hrecorded := horderly.eq_exit_of_result hlast
  have hexit : (shelf state).exit = some (exitText outcome.code) := by
    have hsaid : (⟨.run state request (.writeExit outcome.code), none⟩ : Exchange Ask Ask.Reply) ∈
        (Pool.said history who).filter isRecord := by
      rw [hrecorded]
      exact List.mem_singleton.mpr rfl
    exact h.exit (Pool.mem_said.mp (List.mem_of_mem_filter hsaid))
  have hunresulted : (shelf state).result = none := by
    refine Option.eq_none_iff_forall_ne_some.mpr fun text hfound => ?_
    obtain ⟨runner, asked, before, said, failed, hmem, -⟩ := h.result hfound
    obtain rfl := runs_in_one h hvisits hmem
    have hsaid := List.mem_filter.mpr ⟨Pool.mem_said.mpr hmem, (rfl : isRecord _ = true)⟩
    rw [hrecorded, List.mem_singleton] at hsaid
    exact absurd (congrArg Sigma.fst hsaid) (by simp)
  refine ⟨fun other => ?_, fun {one other asked written} hmem => ?_, fun {other text} hfound => ?_,
    fun {one other text} hmem => ?_, fun {one other text} hmem => ?_⟩
  · exact h.once_rewritten (by rfl) other
  · have hkept := h.exit (mem_earlier hmem (ne_of_call_ne (by simp)))
    by_cases hother : other = state
    · subst hother
      rw [Function.update_self]
      exact hkept
    · rw [Function.update_of_ne hother]
      exact hkept
  · by_cases hother : other = state
    · subst hother
      rw [Function.update_self] at hfound ⊢
      refine ⟨who, request, outcome, steps, error, by simp, ?_, hexit⟩
      rcases hresult with hsame | hnew
      · exact absurd (hunresulted.symm.trans (hsame.symm.trans hfound)) (by simp)
      · exact Option.some.inj (hfound.symm.trans hnew)
    · rw [Function.update_of_ne hother] at hfound ⊢
      obtain ⟨runner, asked, before, said, failed, hmem, htext⟩ := h.result hfound
      exact ⟨runner, asked, before, said, failed, List.mem_append_left _ hmem, htext⟩
  · exact (h.reads_rewritten hunresulted).1 hmem
  · exact (h.reads_rewritten hunresulted).2 hmem

/-- What was known of the state directories is known after every call. -/
theorem Kept.step (h : Kept encoder shelf history) {exchange : Exchange Ask Ask.Reply}
    (hvisits : Visits encoder invocation (history ++ [(who, exchange)]))
    (hstores : Stores encoder shelf exchange next) :
    Kept encoder next (history ++ [(who, exchange)]) := by
  by_cases hidles : Idles exchange
  · rw [hstores.eq_of_idles hidles]
    exact h.of_idles hidles
  · obtain ⟨call, reply⟩ := exchange
    cases call with
    | mkdir state =>
        obtain rfl : reply = true := by simpa [Idles] using hidles
        exact h.mkdir hstores
    | readResult state =>
        obtain ⟨text, rfl⟩ := Option.ne_none_iff_exists'.mp hidles
        rw [hstores.1]
        exact h.read_result (hstores.2 text rfl)
    | readExit state =>
        obtain ⟨text, rfl⟩ := Option.ne_none_iff_exists'.mp hidles
        rw [hstores.1]
        obtain ⟨ending, hvisited⟩ := hvisits who
        have hsaid : (⟨.readExit state, some text⟩ : Exchange Ask Ask.Reply) ∈
            Pool.said (history ++ [(who, ⟨.readExit state, some text⟩)]) who := by
          simp [Pool.said_append_self]
        obtain ⟨printed, hprinted⟩ := hvisited.reads_result hsaid
        have hresult := h.readResult (mem_earlier (Pool.mem_said.mp hprinted) (ne_of_call_ne (by simp)))
        exact h.read_exit (hstores.2 text rfl) (by simp [hresult])
    | run state request call =>
        cases call with
        | writeExit code =>
            obtain ⟨exit, rfl, hexit⟩ := hstores
            exact h.write_exit hexit hvisits
        | writeResult outcome steps =>
            obtain ⟨result, rfl, hresult, -⟩ := hstores
            exact h.write_result hresult hvisits
        | _ => exact absurd rfl hidles
    | _ => exact absurd trivial hidles

end Runs

/-- The pools an interleaving of invocations can come to, from an empty state root. -/
def Invoked [DecidableEq ι] (encoder : Encoder) (invocation : ι → Invocation)
    (pool : Pool Shelf ι Ask Ask.Reply Answer) : Prop :=
  Pool.Reaches (Stores encoder)
    (Pool.start (fun _ => Record.none) fun who => (invocation who).program encoder) pool

section Invocations

variable [DecidableEq ι] {pool : Pool Shelf ι Ask Ask.Reply Answer}

theorem Invoked.visited (h : Invoked encoder invocation pool) (who : ι) :
    Visited encoder (invocation who) (Pool.said pool.history who) (answered (pool.rest who)) :=
  program_visited (h.follows who)

theorem Invoked.kept (h : Invoked encoder invocation pool) :
    Kept encoder pool.world pool.history := by
  have hstart : Kept encoder (fun _ => Record.none) ([] : History ι) :=
    ⟨fun _ => rfl, nofun, nofun, nofun, nofun⟩
  refine Pool.Reaches.invariant (Kept encoder) h hstart ?_
  intro pool who call next reply after hreaches hrest hstores hkept
  have hvisits : Visits encoder invocation (pool.history ++ [(who, ⟨call, reply⟩)]) := by
    intro other
    by_cases hother : who = other
    · subst hother
      rw [Pool.said_append_self]
      exact ⟨_, program_visited ((hreaches.follows who).snoc hrest reply)⟩
    · rw [Pool.said_append_of_ne hother]
      exact ⟨_, Invoked.visited hreaches other⟩
  exact hkept.step hvisits hstores

/-- What an invocation answers that did not begin its operation: the result another
recorded, that the operation is running or stopped without one, or a refusal by its
own arguments, by the checks of its stack or for a state root that could not be made. -/
inductive Answered (encoder : Encoder) (invocation : Invocation) (history : History ι) (who : ι) :
    Answer → Prop where
  | recorded {upgrader : Upgrader} {request asked : Request} {runner : ι} {outcome : Outcome}
      {steps : List Step} {error : Option FileError} {code : Int}
      (hrequests : invocation.Requests upgrader request)
      (hresult : (runner, ⟨.run (upgrader.stateOf request.operation) asked
        (.writeResult outcome steps), error⟩) ∈ history)
      (hcode : code = outcome.code ∨
        code = 1 ∧ (who, ⟨.readExit (upgrader.stateOf request.operation), none⟩) ∈ history) :
      Answered encoder invocation history who ⟨encoder.result asked outcome steps, code⟩
  | running {upgrader : Upgrader} {request : Request}
      (hrequests : invocation.Requests upgrader request)
      (htaken : (who, ⟨.mkdir (upgrader.stateOf request.operation), false⟩) ∈ history) :
      Answered encoder invocation history who
        (encoder.refuse (ascii "the operation is running, or stopped without a result"))
  | rootless {upgrader : Upgrader} {request : Request}
      (hrequests : invocation.Requests upgrader request)
      (hroot : (who, ⟨.mkdirAll upgrader.stateRoot, false⟩) ∈ history) :
      Answered encoder invocation history who
        (encoder.refuse (ascii "the state directory could not be made"))
  | refused {upgrader : Upgrader} {request : Request} {reason : Bytes}
      (hrequests : invocation.Requests upgrader request)
      (hprepare : Follows (upgrader.prepare request) (Pool.said history who)
        (.done (.error reason))) :
      Answered encoder invocation history who (encoder.refuse reason)
  | unread {reason : Bytes}
      (h : fromEnvironment invocation.getenv invocation.euid = .error reason ∨
        parse invocation.args = .error reason) :
      Answered encoder invocation history who (encoder.refuse reason)

theorem recordedCode_exitText (outcome : Outcome) :
    recordedCode (some (exitText outcome.code)) = outcome.code := by
  cases outcome with
  | kept | rolledBack | refused | unchanged | failed => decide

theorem recordedCode_none : recordedCode none = 1 := rfl

/-- What an invocation answers, from how far it has come. -/
theorem Invoked.answers (h : Invoked encoder invocation pool) (who : ι)
    (hbegun : ∀ state, (who, ⟨.mkdir state, true⟩) ∉ pool.history) {answer : Answer}
    (hanswer : pool.rest who = .done answer) :
    Answered encoder (invocation who) pool.history who answer := by
  have hvisited := h.visited who
  rw [hanswer] at hvisited
  have hsaid : ∀ exchange ∈ Pool.said pool.history who, (who, exchange) ∈ pool.history :=
    fun exchange => Pool.mem_said.mp
  generalize hasked : Pool.said pool.history who = asked at hvisited hsaid
  generalize hending : answered (.done answer) = ending at hvisited
  cases hvisited with
  | unread hunread =>
      obtain rfl := Option.some.inj hending
      exact .unread hunread
  | checking => exact absurd hending (by simp [answered])
  | refused hrequests hprepare =>
      obtain rfl := Option.some.inj hending
      exact .refused hrequests (hasked ▸ hprepare)
  | @prepared upgrader request _ _ later _ hrequests _ hprogress =>
      have hsaid : ∀ exchange ∈ later, (who, exchange) ∈ pool.history :=
        fun exchange hexchange => hsaid exchange (List.mem_append_right _ hexchange)
      cases hprogress with
      | recorded printed exit =>
          obtain rfl := Option.some.inj hending
          have hprinted := hsaid ⟨.readResult (upgrader.stateOf request.operation), some printed⟩
            (by simp)
          obtain ⟨runner, asked, outcome, steps, error, hresult, rfl, hexit⟩ :=
            h.kept.result (h.kept.readResult hprinted)
          refine .recorded hrequests hresult ?_
          have hread := hsaid ⟨.readExit (upgrader.stateOf request.operation), exit⟩ (by simp)
          cases exit with
          | none => exact Or.inr ⟨recordedCode_none, hread⟩
          | some text =>
              rw [Option.some.inj ((h.kept.readExit hread).1.symm.trans hexit)]
              exact Or.inl (recordedCode_exitText outcome)
      | rootless =>
          obtain rfl := Option.some.inj hending
          exact .rootless hrequests (hsaid _ (by simp))
      | taken =>
          obtain rfl := Option.some.inj hending
          exact .running hrequests (hsaid _ (by simp))
      | begun =>
          have hmade := hsaid ⟨.mkdir (upgrader.stateOf request.operation), true⟩ (by simp)
          exact absurd hmade (hbegun _)
      | checked | found | absent | rooted => exact absurd hending (by simp [answered])

/-- In any interleaving of invocations, killed anywhere, an operation is begun at most
once; nothing runs for it but by the invocation that began it; and every other answers
with what that one recorded, or that it is running, or is refused before either, and
changes nothing of the host. -/
theorem operation_begun_once (encoder : Encoder) (invocation : ι → Invocation)
    (pool : Pool Shelf ι Ask Ask.Reply Answer) (h : Invoked encoder invocation pool) :
    (∀ state, (pool.history.filter fun entry => isBegin state entry.2).length ≤ 1) ∧
      (∀ who state request (call : Call) (reply : Reply call),
        (who, ⟨.run state request call, reply⟩) ∈ pool.history →
          (who, ⟨.mkdir state, true⟩) ∈ pool.history) ∧
      ∀ who, (∀ state, (who, ⟨.mkdir state, true⟩) ∉ pool.history) →
        (∀ exchange, (who, exchange) ∈ pool.history → Harmless exchange) ∧
          ∀ answer, pool.rest who = .done answer →
            Answered encoder (invocation who) pool.history who answer := by
  refine ⟨fun state => ?_, fun who state request call reply hrun => ?_, fun who hbegun => ⟨?_, ?_⟩⟩
  · rw [h.kept.once state]
    split <;> simp
  · exact Pool.mem_said.mp ((h.visited who).begins (Pool.mem_said.mpr hrun))
  · intro exchange hexchange
    rcases (h.visited who).shape with hharmless | ⟨earlier, state, request, exchanges, hsaid, -⟩
    · exact hharmless exchange (Pool.mem_said.mpr hexchange)
    · refine absurd (Pool.mem_said.mp ?_) (hbegun state)
      rw [hsaid]
      simp
  · intro answer hanswer
    exact h.answers who hbegun hanswer

end Invocations

/-! ## Two invocations for one operation -/

/-- Root's own shell, with one operation asked for. -/
def sampleInvocation : Invocation where
  getenv _ := []
  euid := 0
  args := ["--operation=op-1", "--project-dir=/opt/apps/web", "--service=web", "--from=web"].map
    ascii ++ [ascii "--to=web@sha256:" ++ List.replicate 64 48]
  fuel := 0

def sampleEncoder : Encoder := ⟨id, fun _ _ _ => ascii "done"⟩

/-- Where the operation keeps its result. -/
def sampleState : Bytes := ascii "/var/lib/severino-hq/upgrades/op-1"

/-- A host with one stack, which looks at a path as `look` says. -/
def stackHost (look : Bytes → Option Info) (shelf : Shelf) : (ask : Ask) → ask.Reply × Shelf
  | .lstat path => (look path, shelf)
  | .hasACL _ => (false, shelf)
  | .readResult state => ((shelf state).result, shelf)
  | .readExit state => ((shelf state).exit, shelf)
  | .mkdirAll _ => (true, shelf)
  | .mkdir state =>
      if (shelf state).made then (false, shelf)
      else (true, Function.update shelf state { shelf state with made := true })
  | .run state _ (.writeExit code) =>
      (none, Function.update shelf state { shelf state with exit := some (exitText code) })
  | .run state request (.writeResult outcome steps) =>
      (none, Function.update shelf state
        { shelf state with result := some (sampleEncoder.result request outcome steps) })
  | .run _ _ call => ((failingHost sampleHost call).1, shelf)

theorem stackHost_stores (look : Bytes → Option Info) (shelf : Shelf) (ask : Ask) :
    Stores sampleEncoder shelf ⟨ask, (stackHost look shelf ask).1⟩ (stackHost look shelf ask).2 := by
  cases ask with
  | mkdir state =>
      by_cases hmade : (shelf state).made = true
      · simp [stackHost, Stores, hmade]
      · simp [stackHost, Stores, hmade]
  | readResult state => exact ⟨rfl, fun text hread => hread⟩
  | readExit state => exact ⟨rfl, fun text hread => hread⟩
  | run state request call =>
      cases call with
      | writeExit code => exact ⟨_, rfl, fun _ => rfl⟩
      | writeResult outcome steps => exact ⟨_, rfl, Or.inr rfl, fun _ => rfl⟩
      | _ => rfl
  | _ => rfl

/-- Root's stack, as it should be. -/
def ownStack (path : Bytes) : Option Info :=
  if path = ascii "/opt/apps" ∨ path = ascii "/opt/apps/web" then
    some ⟨.directory, ascii "0", 0o755⟩
  else if path = ascii "/opt/apps/web/compose.yaml" then some ⟨.regular, ascii "0", 0o644⟩
  else none

/-- No stack at all. -/
def noStack (_ : Bytes) : Option Info := none

/-- The first invocation, run to its end. -/
def firstVisit : Asked × Answer × Shelf :=
  (sampleInvocation.program sampleEncoder).runWith (stackHost ownStack) fun _ => Record.none

/-- The second, on a host that looks as `look` says. -/
def secondVisit (look : Bytes → Option Info) : Asked × Answer × Shelf :=
  (sampleInvocation.program sampleEncoder).runWith (stackHost look) firstVisit.2.2

def samplePool (look : Bytes → Option Info) : Pool Shelf Bool Ask Ask.Reply Answer where
  world := (secondVisit look).2.2
  rest := Function.update
    (Function.update (fun _ => sampleInvocation.program sampleEncoder) false (.done firstVisit.2.1))
    true (.done (secondVisit look).2.1)
  killed _ := false
  history := firstVisit.1.map (fun exchange => (false, exchange)) ++
    (secondVisit look).1.map fun exchange => (true, exchange)

theorem samplePool_invoked (look : Bytes → Option Info) :
    Invoked sampleEncoder (fun _ : Bool => sampleInvocation) (samplePool look) := by
  let begun : Pool Shelf Bool Ask Ask.Reply Answer :=
    Pool.start (fun _ => Record.none) fun _ => sampleInvocation.program sampleEncoder
  let between : Pool Shelf Bool Ask Ask.Reply Answer :=
    { begun with
      world := firstVisit.2.2
      rest := Function.update begun.rest false (.done firstVisit.2.1)
      history := firstVisit.1.map fun exchange => (false, exchange) }
  have hfirst : Pool.Reaches (Stores sampleEncoder) begun between :=
    Pool.Reaches.runs begun false rfl (runs_runWith (stackHost_stores ownStack) _ _)
  have hsecond := Pool.Reaches.runs between true rfl
    (runs_runWith (stackHost_stores look) (sampleInvocation.program sampleEncoder) _)
  exact hfirst.trans hsecond

theorem firstVisit_begins : firstVisit.1.any (isBegin sampleState) = true := by
  decide

theorem secondVisit_refused :
    (secondVisit noStack).2.1 = sampleEncoder.refuse (ascii "the stacks root is not a directory") := by
  decide

/-- What the invocation asks for, and of which upgrader. -/
theorem sampleInvocation_requests : ∃ upgrader request,
    sampleInvocation.Requests upgrader request ∧
      upgrader.stateOf request.operation = sampleState := by
  have hread : (match fromEnvironment sampleInvocation.getenv sampleInvocation.euid,
      parse sampleInvocation.args with
      | .ok upgrader, .ok request => upgrader.stateOf request.operation == sampleState
      | _, _ => false) = true := by
    decide
  split at hread
  · next upgrader request hupgrader hrequest =>
      exact ⟨upgrader, request, ⟨hupgrader, hrequest⟩, eq_of_beq hread⟩
  · exact absurd hread Bool.false_ne_true

theorem firstVisit_begun : (false, (⟨.mkdir sampleState, true⟩ : Exchange Ask Ask.Reply)) ∈
    firstVisit.1.map fun exchange => (false, exchange) := by
  obtain ⟨exchange, hmem, hbegin⟩ := List.any_eq_true.mp firstVisit_begins
  rw [isBegin_iff] at hbegin
  exact List.mem_map.mpr ⟨exchange, hmem, by rw [hbegin]⟩

/-- An operation asked for twice is begun once. -/
theorem asked_twice_begun_once :
    (false, ⟨.mkdir sampleState, true⟩) ∈ (samplePool ownStack).history ∧
      ((samplePool ownStack).history.filter fun entry => isBegin sampleState entry.2).length ≤ 1 :=
  ⟨List.mem_append_left _ firstVisit_begun, (operation_begun_once sampleEncoder (fun _ : Bool => sampleInvocation)
    (samplePool ownStack) (samplePool_invoked ownStack)).1 sampleState⟩

/-- An invocation for an operation that ran is refused by the checks of its stack, where
they no longer pass, before it looks for the result. -/
theorem stackless_invocation_refused :
    ¬∀ (encoder : Encoder) (invocation : Bool → Invocation)
      (pool : Pool Shelf Bool Ask Ask.Reply Answer) (earlier later : History Bool),
      Invoked encoder invocation pool → pool.history = earlier ++ later →
      ∀ who runner upgrader request, (invocation who).Requests upgrader request →
        (runner, ⟨.mkdir (upgrader.stateOf request.operation), true⟩) ∈ earlier →
        Pool.said earlier who = [] → ∀ answer, pool.rest who = .done answer →
          (∃ asked outcome steps error,
            (runner, ⟨.run (upgrader.stateOf request.operation) asked
              (.writeResult outcome steps), error⟩) ∈ pool.history ∧
              answer.printed = encoder.result asked outcome steps) ∨
            answer = encoder.refuse
              (ascii "the operation is running, or stopped without a result") := by
  intro h
  obtain ⟨upgrader, request, hrequests, hstate⟩ := sampleInvocation_requests
  have hbegun : (false, (⟨.mkdir (upgrader.stateOf request.operation), true⟩ :
      Exchange Ask Ask.Reply)) ∈ firstVisit.1.map fun exchange => (false, exchange) :=
    hstate ▸ firstVisit_begun
  have hsaid : Pool.said (firstVisit.1.map fun exchange => (false, exchange)) true = [] := by
    simp [Pool.said]
  have hanswer : (samplePool noStack).rest true =
      .done (sampleEncoder.refuse (ascii "the stacks root is not a directory")) := by
    rw [← secondVisit_refused]
    rfl
  rcases h sampleEncoder (fun _ => sampleInvocation) (samplePool noStack) _ _
    (samplePool_invoked noStack) rfl true false upgrader request hrequests hbegun hsaid _ hanswer with
    ⟨asked, outcome, steps, error, -, hprinted⟩ | hrunning
  · have hdiffer : ascii "the stacks root is not a directory" ≠ ascii "done" := by decide
    exact absurd hprinted hdiffer
  · exact absurd hrunning (by decide)

end SeverinoHQ.Host.Upgrade
