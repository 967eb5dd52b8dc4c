/-
# What a reading of the consumers shows

A reading has one turn for each consumer, in the spec's order. A consumer with no name
to be read on has an empty turn: nothing was read of it and nothing failed. The wait
ends in success on a reading of which every consumer's name has an observation and every
observation is the expected certificate, so an empty turn is only vouched for by another
consumer of the same name.
-/

import SeverinoHQ.Providers.Transaction

namespace SeverinoHQ.Providers

open SeverinoHQ.Math Dialogue Task

variable {library : Library}

/-! ## One consumer -/

theorem observe_consumer (consumer : Consumer) (domain connectHost : String) :
    Always Dialogue.free (observe library consumer domain connectHost) () fun _ observed _ =>
      ∀ observation, observed = .ok observation → observation.consumer = consumer.name := by
  unfold observe
  refine Always.bind_of_append (always_call.mpr fun read _ _ => ?_) fun _ _ _ _ h => h
  cases read with
  | error problem =>
      dsimp only
      split
      · simp
      · simp
  | ok der =>
      dsimp only
      split
      · simp
      · cases library.parseCertificate der with
        | error problem => simp
        | ok parsed => exact always_pure.mpr fun observation h => by cases h; rfl

/-- Each name read gives an observation or a problem. -/
theorem observeEach_reads (consumer : Consumer) (connectHost : String) (domains : List String) :
    Always Dialogue.free (observeEach library consumer connectHost domains) () fun _ read _ =>
      read.1.length + read.2.length = domains.length ∧
        ∀ observation ∈ read.1, observation.consumer = consumer.name := by
  induction domains with
  | nil => exact always_pure.mpr ⟨rfl, by simp⟩
  | cons domain domains ih =>
      refine Always.bind_of_append ?_ fun _ _ _ _ h => h
      refine (observe_consumer consumer domain connectHost).mono fun _ observed _ hobserved => ?_
      refine Always.bind_of_append (ih.mono fun _ rest _ hrest => ?_) fun _ _ _ _ h => h
      obtain ⟨hlength, hnames⟩ := hrest
      cases observed with
      | error problem =>
          refine always_pure.mpr ⟨?_, hnames⟩
          simp only [List.length_cons]
          omega
      | ok observation =>
          refine always_pure.mpr ⟨?_, ?_⟩
          · simp only [List.length_cons]
            omega
          · intro other hmem
            rcases List.mem_cons.mp hmem with rfl | hmem
            · exact hobserved _ rfl
            · exact hnames other hmem

/-- What a turn of a reading is: nothing is read of a consumer with no names, and of one
with names each gives an observation of it or a problem. -/
structure Turn.Read (turn : Turn) : Prop where
  empty : turn.domains = [] → turn.observations = []
  told : turn.unreachable = [] → turn.observations = [] → turn.domains = []
  own : ∀ observation ∈ turn.observations, observation.consumer = turn.consumer.name

theorem readConsumer_read (consumer : Consumer) (domains : List String) :
    Always Dialogue.free (readConsumer library consumer domains) () fun _ turn _ =>
      turn.consumer = consumer ∧ turn.Read := by
  unfold readConsumer
  split
  · exact always_pure.mpr ⟨rfl, fun _ => rfl, fun _ _ => rfl, by simp⟩
  next hdomains =>
    cases library.endpoint consumer.kind consumer.connectionRef with
    | error problem =>
        exact always_pure.mpr ⟨rfl, fun _ => rfl, fun h => by simp at h, by simp⟩
    | ok connectHost =>
        refine Always.bind_of_append ?_ fun _ _ _ _ h => h
        refine (observeEach_reads consumer connectHost domains).mono fun _ read _ hread => ?_
        obtain ⟨hlength, hnames⟩ := hread
        refine always_pure.mpr ⟨rfl, fun h => absurd h hdomains, fun hmissed hnone => ?_, hnames⟩
        dsimp only at hmissed hnone ⊢
        rw [hmissed, hnone] at hlength
        exact List.length_eq_zero_iff.mp hlength.symm

/-! ## Every consumer -/

/-- Every consumer of the spec has its turn. -/
theorem readTurns_read (spec : Spec) (consumers : List Consumer) :
    Always Dialogue.free (readTurns library spec consumers).run () fun _ result _ =>
      ∀ turns, result = .ok turns → turns.map Turn.consumer = consumers ∧ ∀ turn ∈ turns, turn.Read := by
  induction consumers with
  | nil =>
      refine always_ok.mpr fun turns h => ?_
      cases h
      simp
  | cons consumer consumers ih =>
      unfold readTurns
      rw [Task.always_bind]
      intro _ domains _ _
      cases domains with
      | error problem => simp
      | ok domains =>
          dsimp only
          rw [Task.always_bind, ExceptT.run_lift, ← bind_pure_comp, Dialogue.always_bind]
          refine (readConsumer_read consumer domains).mono fun _ turn _ hturn => ?_
          rw [always_pure]
          dsimp only
          rw [Task.always_bind]
          refine ih.mono fun _ rest _ hrest => ?_
          cases rest with
          | error problem => simp
          | ok turns =>
              refine always_ok.mpr fun all h => ?_
              cases h
              obtain ⟨hconsumers, hread⟩ := hrest turns rfl
              constructor
              · rw [List.map_cons, hconsumers, hturn.1]
              · intro other hmem
                rcases List.mem_cons.mp hmem with rfl | hmem
                · exact hturn.2
                · exact hread other hmem

/-- The status of a reading has its observations and its problems, and no others. -/
theorem statusOf_consumers {turns : List Turn} {status : Status} (h : statusOf library turns = .ok status) :
    status.consumers = turns.flatMap Turn.observations ∧
      status.unreachableConsumers = turns.flatMap Turn.unreachable := by
  unfold statusOf at h
  dsimp only at h
  split at h
  · split at h
    · simp at h
    · simp at h
  next first rest hobservations =>
    split at h
    · simp at h
    · cases h
      exact ⟨hobservations.symm, rfl⟩

/-! ## The wait -/

/-- A reading that ends the wait: it was read last, and by its status every consumer
serves the expected certificate. -/
def Ends (library : Library) (spec : Spec) (expected : String) (exchanges : List (Exchange Call Reply))
    (read : List Turn × Status) : Prop :=
  (∃ before reading, exchanges = before ++ reading ∧
      Runs Dialogue.free (readTurns library spec spec.consumers).run () reading (.ok read.1) ()) ∧
    statusOf library read.1 = .ok read.2 ∧ consumersServe spec read.2 expected = true

theorem Ends.append {spec : Spec} {expected : String} {exchanges : List (Exchange Call Reply)}
    {read : List Turn × Status} (earlier : List (Exchange Call Reply))
    (h : Ends library spec expected exchanges read) :
    Ends library spec expected (earlier ++ exchanges) read := by
  obtain ⟨⟨before, reading, rfl, hreading⟩, hstatus, hserve⟩ := h
  exact ⟨⟨earlier ++ before, reading, (List.append_assoc _ _ _).symm, hreading⟩, hstatus, hserve⟩

theorem reconcileTLS_reads (spec : Spec) :
    Always Dialogue.free (reconcileTLS library spec).run () fun exchanges result _ =>
      ∀ read, result = .ok read →
        Runs Dialogue.free (readTurns library spec spec.consumers).run () exchanges (.ok read.1) () ∧
          statusOf library read.1 = .ok read.2 := by
  unfold reconcileTLS
  rw [Task.always_bind]
  intro reading turns _ hreading
  cases turns with
  | error problem => simp
  | ok turns =>
      dsimp only
      rw [Task.always_bind, always_given]
      cases hstatus : statusOf library turns with
      | error problem => simp
      | ok status =>
          refine always_ok.mpr fun read h => ?_
          cases h
          simpa using ⟨hreading, hstatus⟩

/-- The wait succeeds by a reading that ends it. -/
theorem verifyLoop_ends (spec : Spec) (policy : Policy) (expected : String) (deadline : Int)
    (rounds : Nat) :
    Always Dialogue.free (verifyLoop library spec policy expected deadline rounds).run ()
      fun exchanges result _ =>
        ∀ read, result = .ok (some read) → Ends library spec expected exchanges read := by
  induction rounds with
  | zero => exact always_ok.mpr fun read h => by simp at h
  | succ rounds ih =>
      unfold verifyLoop
      rw [Task.always_bind]
      refine (reconcileTLS_reads spec).mono fun reading result _ hread => ?_
      cases result with
      | error problem => simp
      | ok read =>
          obtain ⟨hreading, hstatus⟩ := hread read rfl
          dsimp only
          split
          next hserve =>
            refine always_ok.mpr fun served h => ?_
            cases h
            exact ⟨⟨[], reading, by simp, hreading⟩, hstatus, hserve⟩
          · rw [Task.always_bind]
            intro clock time _ _
            cases time with
            | error problem => simp
            | ok time =>
                dsimp only
                split
                · exact always_throw.mpr fun _ h => by simp at h
                · rw [Task.always_bind]
                  intro pause slept _ _
                  cases slept with
                  | error problem => simp
                  | ok slept =>
                      refine ih.mono fun later result _ hlater read h => ?_
                      rw [← List.append_assoc, ← List.append_assoc]
                      exact (hlater read h).append _

theorem deployAndVerify_ends (request : Request) (expected : String) (rounds : Nat) :
    Always Dialogue.free (deployAndVerify library request expected rounds).run ()
      fun exchanges result _ => ∀ served, result = .ok (some served) →
        Ends library request.plan.spec expected exchanges served.2 := by
  unfold deployAndVerify verifyTLSDeployment
  rw [Task.always_bind]
  intro deploying deployed _ _
  cases deployed with
  | error problem => simp
  | ok deployment =>
      dsimp only
      rw [Task.always_bind, Task.always_bind, always_given]
      cases verificationPolicy request.policy with
      | error problem => simp
      | ok policy =>
          dsimp only
          rw [Task.always_bind]
          intro clock started _ _
          cases started with
          | error problem => simp
          | ok started =>
              refine (verifyLoop_ends _ _ _ _ _).mono fun waiting result _ hends => ?_
              cases result with
              | error problem => simp
              | ok read =>
                  refine always_ok.mpr fun served h => ?_
                  cases read with
                  | none => simp at h
                  | some read =>
                      cases h
                      simp only [List.nil_append, List.append_nil]
                      exact ((hends read rfl).append _).append _

/-- Of a reading that ends the wait nothing was unreachable, every observation is the
expected certificate, and each consumer's name has one. -/
theorem served_of_ends {spec : Spec} {expected : String} {exchanges : List (Exchange Call Reply)}
    {read : List Turn × Status} (h : Ends library spec expected exchanges read) :
    read.1.map Turn.consumer = spec.consumers ∧ (∀ turn ∈ read.1, turn.Read) ∧
      (∀ turn ∈ read.1, turn.unreachable = []) ∧
      (∀ turn ∈ read.1, ∀ observation ∈ turn.observations, observation.fingerprint = expected) ∧
      ∀ turn ∈ read.1, ∃ other ∈ read.1, other.observations ≠ [] ∧
        other.consumer.name = turn.consumer.name := by
  obtain ⟨⟨before, reading, rfl, hreading⟩, hstatus, hserve⟩ := h
  obtain ⟨hconsumers, hread⟩ := readTurns_read _ _ _ _ _ hreading read.1 rfl
  obtain ⟨hobserved, hmissed⟩ := statusOf_consumers hstatus
  simp only [consumersServe, Bool.and_eq_true, List.isEmpty_iff, List.all_eq_true, List.any_eq_true,
    beq_iff_eq, List.contains_iff_mem, hobserved, hmissed] at hserve
  obtain ⟨⟨⟨hnone, hnamed⟩, hone⟩, hexpected⟩ := hserve
  have hfingerprint : ∀ turn ∈ read.1, ∀ observation ∈ turn.observations,
      observation.fingerprint = expected := by
    intro turn hturn observation hmem
    obtain ⟨only, honly⟩ := List.length_eq_one_iff.mp hone
    rw [honly, List.mem_singleton] at hexpected
    have hseen : observation.fingerprint ∈
        ((read.1.flatMap Turn.observations).map Observation.fingerprint).dedup :=
      List.mem_dedup.mpr (List.mem_map_of_mem (List.mem_flatMap.mpr ⟨turn, hturn, hmem⟩))
    rw [honly, List.mem_singleton] at hseen
    rw [hseen, hexpected]
  refine ⟨hconsumers, hread, fun turn hturn => ?_, hfingerprint, fun turn hturn => ?_⟩
  · exact List.flatMap_eq_nil_iff.mp hnone turn hturn
  · have hconsumer : turn.consumer ∈ spec.consumers := by
      rw [← hconsumers]
      exact List.mem_map_of_mem hturn
    obtain ⟨observation, hmem, hname⟩ := hnamed _ hconsumer
    obtain ⟨other, hother, hobservation⟩ := List.mem_flatMap.mp hmem
    refine ⟨other, hother, List.ne_nil_of_mem hobservation, ?_⟩
    rw [← hname, (hread other hother).own observation hobservation]

end SeverinoHQ.Providers
