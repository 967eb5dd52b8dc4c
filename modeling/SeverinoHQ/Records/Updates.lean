/-
# Updates that overlap

Two edits of one record may both be read for before either is saved. Each save
lays only its own fields over the record as it locked it, so whatever the order,
a field holds what the last save that sent it made of it, and a save that must
not write over a change it has not seen is refused.
-/

import SeverinoHQ.Records.Fields

namespace SeverinoHQ.Records

open SeverinoHQ.Math
open SeverinoHQ.ControlPlane (Moment Id)

variable {Field α : Type} [DecidableEq Field]

/-- What a record holds in a field, and nothing where there is no such record. -/
def Store.field? (store : Store Field α) (id : Id) (field : Field) : Option (Value α) :=
  (store.row? id).map fun row => row.value field

section OneSave

variable {domain : Domain Field α} {now : Moment} {call : Call Field α}
  {store stored : Store Field α}

omit [DecidableEq Field] in
theorem Store.Sound.row?_of_mem (h : store.Sound domain) {row : Row Field α}
    (hrow : row ∈ store.rows) : store.row? row.id = some row := by
  have hfound : (store.row? row.id).isSome = true := by
    rw [Store.row?, List.find?_isSome]
    exact ⟨row, hrow, by simp⟩
  obtain ⟨other, hother⟩ := Option.isSome_iff_exists.mp hfound
  have hid : other.id = row.id := by simpa using List.find?_some hother
  rw [hother, Table.eq_of_column_eq h.ids (List.mem_of_find?_eq_some hother) hrow hid]

omit [DecidableEq Field] in
/-- An update replaces the row under its record's key. -/
theorem row?_put (after : Row Field α) (id : Id) :
    (store.put false after).row? id =
      (store.row? id).map fun row => if row.id == after.id then after else row :=
  Table.find?_replace Row.id store.rows after id

omit [DecidableEq Field] in
/-- A create leaves what every other key finds. -/
theorem row?_put_new {id : Id} {row : Row Field α} (after : Row Field α)
    (hrow : store.row? id = some row) : (store.put true after).row? id = some row := by
  unfold Store.row? at hrow
  simp [Store.row?, Store.put, List.find?_append, hrow]

omit [DecidableEq Field] in
theorem mem_of_found {key : Key} {row : Row Field α} (h : found domain store key = .ok row) :
    row ∈ store.rows := by
  unfold found at h
  split at h
  · next other hother =>
      cases h
      exact List.mem_of_find?_eq_some hother
  · cases h

omit [DecidableEq Field] in
theorem found_of_held {key : Key} {expectedUpdatedAt : Option String} {row : Row Field α}
    (h : held domain store key expectedUpdatedAt = .ok row) :
    found domain store key = .ok row ∧
      ∀ text, expectedUpdatedAt = some text → text ≠ "" → domain.isoformat row.updatedAt = text := by
  unfold held at h
  split at h
  · cases h
  · next other hother =>
      split_ifs at h with hexpected
      cases h
      refine ⟨hother, fun text htext hsaid => ?_⟩
      simpa [htext, hsaid] using hexpected

omit [DecidableEq Field] in
/-- The record a save starts from: a new one, or a stored one. -/
theorem start_eq_ok {record : Row Field α} (h : call.start domain now store = .ok record) :
    call.current = none ∧ record.id = store.serial ∨
      ∃ key, call.current = some key ∧
        held domain store key call.expectedUpdatedAt = .ok record ∧ record ∈ store.rows := by
  unfold Call.start at h
  split at h
  · next hcurrent =>
      cases h
      exact Or.inl ⟨hcurrent, rfl⟩
  · next key hcurrent =>
      exact Or.inr ⟨key, hcurrent, h, mem_of_found (found_of_held h).1⟩

/-- A save keeps what holds of the stored records. -/
theorem saved_sound (htyped : domain.Typed) (hsound : store.Sound domain)
    (h : saved domain now call store = .ok stored) : stored.Sound domain := by
  obtain ⟨record, after, hstart, hsaved, rfl⟩ := saved_eq_ok htyped h
  have hafter : after.Stored domain := ⟨hsaved.kept, hsaved.slugged⟩
  rcases start_eq_ok hstart with ⟨hcurrent, hid⟩ | ⟨key, hcurrent, -, hrecord⟩
  · have hnew : after.id = store.serial := hsaved.id.trans hid
    rw [hcurrent]
    refine ⟨?_, ?_, ?_⟩
    · apply Table.nodup_map_append_singleton hsound.ids
      intro old hold
      rw [hnew]
      exact Nat.ne_of_lt (hsound.old old hold)
    · intro row hrow
      rcases List.mem_append.mp hrow with hold | hlast
      · exact Nat.lt_succ_of_lt (hsound.old row hold)
      · rw [List.mem_singleton.mp hlast, hnew]
        exact Nat.lt_succ_self store.serial
    · intro row hrow
      rcases List.mem_append.mp hrow with hold | hlast
      · exact hsound.stored row hold
      · rw [List.mem_singleton.mp hlast]
        exact hafter
  · rw [hcurrent]
    have hrows : ∀ row ∈ (store.put false after).rows, row ∈ store.rows ∨ row = after := by
      intro row hrow
      rcases Table.mem_update.mp hrow with ⟨hold, -⟩ | ⟨-, -, -, rfl⟩
      · exact Or.inl hold
      · exact Or.inr rfl
    refine ⟨?_, ?_, ?_⟩
    · have hids : (store.put false after).rows.map Row.id = store.rows.map Row.id := by
        apply Table.map_update
        intro row _ hselected
        exact (by simpa using hselected : row.id = after.id).symm
      exact hids ▸ hsound.ids
    · intro row hrow
      rcases hrows row hrow with hold | rfl
      · exact hsound.old row hold
      · rw [hsaved.id]
        exact hsound.old record hrecord
    · intro row hrow
      rcases hrows row hrow with hold | rfl
      · exact hsound.stored row hold
      · exact hafter

/-- An update, by the record it locked: each field sent is taken from the call,
and each other field is the locked record's. -/
theorem saved_update (htyped : domain.Typed) (hsound : store.Sound domain) {key : Key}
    (hcurrent : call.current = some key) (h : saved domain now call store = .ok stored) :
    ∃ locked after, held domain store key call.expectedUpdatedAt = .ok locked ∧
      stored.row? locked.id = some after ∧
      (∀ field ∈ call.fields domain, ∃ value,
        resolved domain store field (call.command field) = .ok value ∧
          Taken domain field value (after.value field)) ∧
      ∀ field ∉ call.fields domain, after.value field = locked.value field := by
  obtain ⟨locked, after, hstart, hsaved, rfl⟩ := saved_eq_ok htyped h
  rcases start_eq_ok hstart with ⟨hnone, -⟩ | ⟨found, hfound, hheld, hlocked⟩
  · rw [hcurrent] at hnone
    cases hnone
  · obtain rfl := Option.some.inj (hcurrent.symm.trans hfound)
    refine ⟨locked, after, hheld, ?_, hsaved.sent, hsaved.unsent (hsound.stored locked hlocked)⟩
    rw [hcurrent, Option.isNone_some, row?_put, hsound.row?_of_mem hlocked]
    simp [hsaved.id]

/-- A save leaves every field it was not sent, of every record, as it found it. -/
theorem saved_field (htyped : domain.Typed) (hsound : store.Sound domain)
    (h : saved domain now call store = .ok stored) {id : Id} {field : Field} {value : Value α}
    (hunsent : call.current = none ∨ field ∉ call.fields domain)
    (hbefore : store.field? id field = some value) : stored.field? id field = some value := by
  obtain ⟨record, after, hstart, hsaved, rfl⟩ := saved_eq_ok htyped h
  obtain ⟨row, hrow, rfl⟩ := Option.map_eq_some_iff.mp hbefore
  rcases start_eq_ok hstart with ⟨hcurrent, -⟩ | ⟨key, hcurrent, -, hrecord⟩
  · rw [hcurrent, Option.isNone_none, Store.field?, row?_put_new after hrow, Option.map_some]
  · rw [hcurrent, Option.isNone_some, Store.field?, row?_put, hrow, Option.map_some,
      Option.map_some]
    split_ifs with hown
    · -- The record saved is the one read here, and the field was not sent.
      have hid : row.id = record.id := by
        rw [← hsaved.id]
        simpa using hown
      have hsame := Table.eq_of_column_eq hsound.ids (List.mem_of_find?_eq_some hrow) hrecord hid
      have hfield : field ∉ call.fields domain := by
        rcases hunsent with hnone | hfield
        · rw [hcurrent] at hnone
          cases hnone
        · exact hfield
      rw [hsaved.unsent (hsound.stored record hrecord) field hfield, hsame]
    · rfl

/-- A save that expects the record as it no longer is, is refused. -/
theorem saved_stale {key : Key} {record : Row Field α} {text : String}
    (hcurrent : call.current = some key) (hexpected : call.expectedUpdatedAt = some text)
    (hsaid : text ≠ "") (hfound : found domain store key = .ok record)
    (hstale : domain.isoformat record.updatedAt ≠ text) (now : Moment) :
    saved domain now call store = .error
      (match domain.require call.actor with
        | some refusal => .authorizationError refusal
        | none => .recordConflict domain.stale) := by
  have hheld : held domain store key call.expectedUpdatedAt =
      .error (.recordConflict domain.stale) := by
    simp [held, hfound, hexpected, hsaid, hstale]
  unfold saved prepared
  cases hrequire : domain.require call.actor with
  | some refusal => rfl
  | none =>
      simp only [Call.start, hcurrent, hheld]
      rfl

end OneSave

/-! ## Every run -/

/-- A write that leaves a field of a record alone: a save that was not sent it, or
something else that did not touch it. -/
def LeavesField (domain : Domain Field α) (id : Id) (field : Field)
    (write : Serial.Write (Store Field α) Moment (Call Field α)) : Prop :=
  match write.call with
  | some call => call.current = none ∨ field ∉ call.fields domain
  | none => write.after.field? id field = write.before.field? id field

/-- What holds of a domain's saves at any point of a run. -/
structure Persisting (domain : Domain Field α)
    (state : Serial.State (Store Field α) Moment (Call Field α) Raised) : Prop where
  /-- Each update wrote the fields it was sent over the record as it locked it. -/
  locked : ∀ write ∈ state.writes, ∀ call key, write.call = some call → call.current = some key →
    ∃ locked after, held domain write.before key call.expectedUpdatedAt = .ok locked ∧
      write.after.row? locked.id = some after ∧
      (∀ field ∈ call.fields domain, ∃ value,
        resolved domain write.before field (call.command field) = .ok value ∧
          Taken domain field value (after.value field)) ∧
      ∀ field ∉ call.fields domain, after.value field = locked.value field
  /-- What a write left in a field is there until a save is sent that field. -/
  persists : ∀ earlier write later, state.writes = earlier ++ write :: later →
    ∀ id field value, write.after.field? id field = some value →
      (∀ other ∈ later, LeavesField domain id field other) →
        state.store.field? id field = some value
  /-- A save that expects a record it no longer finds so is refused, and writes nothing. -/
  stale : ∀ call store key record text, state.opened = some (call, store) →
    call.current = some key → call.expectedUpdatedAt = some text → text ≠ "" →
    found domain store key = .ok record → domain.isoformat record.updatedAt ≠ text →
      ((linkedSaver domain).step state .finish).store = state.store ∧
        ((linkedSaver domain).step state .finish).writes = state.writes ∧
        ∃ error, ((linkedSaver domain).step state .finish).refusals =
          state.refusals ++ [⟨call, state.now, store, error⟩]

theorem linkedSaver_persisting {domain : Domain Field α} (htyped : domain.Typed)
    {start : Store Field α} (hstart : start.Sound domain) (now : Moment)
    {events : List (Serial.Event (Store Field α) Moment (Request Field α))}
    (hevents : ∀ event ∈ events, event.Permitted (Store.Sound domain)) :
    Persisting domain (run (linkedSaver domain).step (Serial.State.initial start now) events) := by
  have hrun := Serial.run_sound (linkedSaver domain) start now hevents
  obtain ⟨-, hsound⟩ := hrun.invariant hstart
    fun _ _ _ _ hbefore hsaved => saved_sound htyped hbefore hsaved
  refine ⟨?_, ?_, ?_⟩
  · intro write hwrite call key hcall hcurrent
    exact saved_update htyped (hsound write hwrite) hcurrent (hrun.committed write hwrite call hcall)
  · intro earlier write later hwrites id field value hwrote hlater
    have hlinked := hrun.linked
    rw [hwrites] at hlinked
    have hmem : ∀ other ∈ later, other ∈ (run (linkedSaver domain).step
        (Serial.State.initial start now) events).writes := by
      intro other hother
      rw [hwrites]
      simp [hother]
    refine (hlinked.after.invariant (fun store => store.field? id field = some value) hwrote
      fun other hother hbefore => ?_).1
    have hleaves := hlater other hother
    unfold LeavesField at hleaves
    split at hleaves
    · next call hcall =>
        exact saved_field htyped (hsound other (hmem other hother))
          (hrun.committed other (hmem other hother) call hcall) hleaves hbefore
    · rw [hleaves, hbefore]
  · intro call store key record text hopened hcurrent hexpected hsaid hfound hstale
    obtain ⟨hstore, hwrites, hrefusals⟩ := Serial.finish_refused (linkedSaver domain) hopened
      (saved_stale hcurrent hexpected hsaid hfound hstale _)
    exact ⟨hstore, hwrites, _, hrefusals⟩

end SeverinoHQ.Records
