/-
# The rate one agent is held to

Calls are taken at times that do not go back, by any agents in any order, and what is
held may be counted in between. However they fall, the calls of one agent that are let in
are those its bucket lets in: what is forgotten of a full bucket is never missed.
-/

import SeverinoHQ.Agents.Limits
import SeverinoHQ.Math.Run
import Mathlib.Tactic.FieldSimp
import Mathlib.Tactic.Linarith

namespace SeverinoHQ.Agents

open SeverinoHQ.Math

/-- What is asked of the limits: one of an actor's calls, or how many agents are held. -/
inductive Ask where
  | take (actor : String) (now : ℚ)
  | held (now : ℚ)
  deriving DecidableEq, Repr

/-- When it is asked. -/
def Ask.time : Ask → ℚ
  | .take _ now => now
  | .held now => now

namespace Limits

/-- What is held after one thing is asked, and the refusal, where it is one. -/
def ask (settings : Settings) (limits : Limits) : Ask → Limits × Option Limited
  | .take actor now => limits.take settings actor now
  | .held now => ((limits.held now).1, none)

/-- The same, with every bucket kept for good. -/
def askKeeping (settings : Settings) (limits : Limits) : Ask → Limits × Option Limited
  | .take actor now =>
      match limits.spend settings actor now with
      | .error limited => (limits, some limited)
      | .ok spent => (spent, none)
  | .held _ => (limits, none)

/-- What is answered to everything that is asked, in order. -/
def answers (ask : Limits → Ask → Limits × Option Limited) : Limits → List Ask → List (Option Limited)
  | _, [] => []
  | limits, asked :: asks => (ask limits asked).2 :: answers ask (ask limits asked).1 asks

/-- When an actor's calls were let in. -/
def admissions (settings : Settings) (actor : String) (limits : Limits) (asks : List Ask) : List ℚ :=
  (asks.zip (answers (ask settings) limits asks)).filterMap fun
    | (.take caller now, none) => if caller = actor then some now else none
    | _ => none

/-! ## What is owed by an actor -/

section Level

variable {settings : Settings} {limits : Limits} {actor other : String} {now later : ℚ}

/-- When an actor's bucket is full again, as it stands at a time. -/
def level (limits : Limits) (actor : String) (now : ℚ) : ℚ :=
  max ((limits.fullAgain.get? actor).getD now) now

/-- A bucket only fills while nothing is taken from it. -/
theorem level_later (h : now ≤ later) :
    limits.level actor later = max (limits.level actor now) later := by
  unfold level
  cases limits.fullAgain.get? actor with
  | none => simp [h]
  | some fullAgain => simp [max_assoc, h]

/-- A bucket that is forgotten is full from then on. -/
theorem level_forgetRecovered (h : now ≤ later) :
    (limits.forgetRecovered now).level actor later = limits.level actor later := by
  unfold level forgetRecovered
  rw [Dict.get?_keep]
  cases limits.fullAgain.get? actor with
  | none => rfl
  | some fullAgain =>
      by_cases howed : now < fullAgain
      · simp [Option.filter, howed]
      · have hfull : fullAgain ≤ later := (not_lt.mp howed).trans h
        simp [Option.filter, howed, hfull]

theorem level_held (h : now ≤ later) : (limits.held now).1.level actor later = limits.level actor later :=
  level_forgetRecovered h

/-- A call is refused for what its actor owes, and put on it where it is let in. -/
theorem spend_eq : limits.spend settings actor now =
    if 0 < settings.bucket.wait (limits.level actor now) now then
      .error ⟨"rate_limited", rateReason settings (settings.bucket.wait (limits.level actor now) now),
        ⌈settings.bucket.wait (limits.level actor now) now⌉⟩
    else .ok { limits with
      fullAgain := limits.fullAgain.set actor (settings.bucket.after (limits.level actor now) now) } := by
  have hlevel : settings.bucket.after (limits.level actor now) now =
      limits.level actor now + settings.bucket.spacing := by
    unfold Bucket.after level
    rw [max_assoc, max_self]
  rw [Bucket.wait, hlevel]
  rfl

theorem level_set (fullAgain : ℚ) :
    { limits with fullAgain := limits.fullAgain.set actor fullAgain }.level other now =
      if other = actor then max fullAgain now else limits.level other now := by
  by_cases hother : other = actor
  · simp [level, hother]
  · simp [level, hother]

/-- What is owed after a call, of whichever actor. -/
theorem level_take (h : now ≤ later) : ((limits.take settings actor now).1).level other later =
    if other = actor ∧ (limits.take settings actor now).2 = none then
      max (settings.bucket.after (limits.level actor now) now) later
    else limits.level other later := by
  rw [take, spend_eq]
  by_cases hwait : 0 < settings.bucket.wait (limits.level actor now) now
  · simp [hwait]
  · simp only [hwait, if_false, and_true]
    rw [level_forgetRecovered h, level_set]

/-- A call is answered by what its actor owes alone. -/
theorem take_answer : (limits.take settings actor now).2 =
    if 0 < settings.bucket.wait (limits.level actor now) now then
      some ⟨"rate_limited", rateReason settings (settings.bucket.wait (limits.level actor now) now),
        ⌈settings.bucket.wait (limits.level actor now) now⌉⟩
    else none := by
  rw [take, spend_eq]
  by_cases hwait : 0 < settings.bucket.wait (limits.level actor now) now
  · simp [hwait]
  · simp [hwait]

end Level

/-! ## Forgetting a full bucket -/

section Forgetting

variable {settings : Settings} {limits kept : Limits} {since : ℚ}

/-- From a time on, no actor owes more by one account than by the other. -/
def Alike (since : ℚ) (limits kept : Limits) : Prop :=
  ∀ actor now, since ≤ now → limits.level actor now = kept.level actor now

theorem Alike.step (h : Alike since limits kept) {asked : Ask} (htime : since ≤ asked.time) :
    (ask settings limits asked).2 = (askKeeping settings kept asked).2 ∧
      Alike asked.time (ask settings limits asked).1 (askKeeping settings kept asked).1 := by
  cases asked with
  | held now =>
      refine ⟨rfl, fun actor later hlater => ?_⟩
      exact (level_held hlater).trans (h actor later (htime.trans hlater))
  | take actor now =>
      have hlevel := h actor now htime
      simp only [ask, askKeeping, take, spend_eq, hlevel]
      by_cases hwait : 0 < settings.bucket.wait (kept.level actor now) now
      · simp only [if_pos hwait, true_and]
        exact fun other later hlater => h other later (htime.trans hlater)
      · simp only [if_neg hwait, true_and]
        intro other later hlater
        have hpast : now ≤ later := hlater
        rw [level_forgetRecovered hpast, level_set, level_set, h other later (htime.trans hlater)]

/-- What is forgotten of full buckets changes no later answer. -/
theorem Alike.answers_eq (h : Alike since limits kept) {asks : List Ask}
    (hordered : ((asks.map Ask.time).Pairwise (· ≤ ·))) (hsince : ∀ asked ∈ asks, since ≤ asked.time) :
    answers (ask settings) limits asks = answers (askKeeping settings) kept asks := by
  induction asks generalizing since limits kept with
  | nil => rfl
  | cons asked asks ih =>
      rw [List.map_cons, List.pairwise_cons] at hordered
      obtain ⟨hanswer, hnext⟩ := h.step (hsince asked List.mem_cons_self)
      rw [answers, answers, hanswer]
      exact congrArg _ (ih hnext hordered.2 fun other hother =>
        hordered.1 other.time (List.mem_map_of_mem hother))

end Forgetting

/-! ## The calls that are let in -/

section Admissions

variable {settings : Settings} {limits : Limits} {actor : String} {fullAgain since : ℚ}

/-- When an actor's calls are made. -/
def callTimes (actor : String) (asks : List Ask) : List ℚ :=
  asks.filterMap fun
    | .take caller now => if caller = actor then some now else none
    | .held _ => none

/-- What is asked leaves what other actors owe. -/
theorem level_ask_of_ne {asked : Ask} {later : ℚ} (hother : ∀ now, asked ≠ .take actor now)
    (hlater : asked.time ≤ later) :
    (ask settings limits asked).1.level actor later = limits.level actor later := by
  cases asked with
  | held now => exact level_held hlater
  | take caller now =>
      have hne : ¬(actor = caller ∧ (limits.take settings caller now).2 = none) := by
        rintro ⟨rfl, -⟩
        exact hother now rfl
      exact (level_take hlater).trans (if_neg hne)

/-- The calls of an actor that are let in are those its bucket lets in. -/
theorem admissions_eq (hlevel : ∀ now, since ≤ now → limits.level actor now = max fullAgain now)
    {asks : List Ask} (hordered : (asks.map Ask.time).Pairwise (· ≤ ·))
    (hsince : ∀ asked ∈ asks, since ≤ asked.time) :
    admissions settings actor limits asks =
      settings.bucket.admitted fullAgain (callTimes actor asks) := by
  induction asks generalizing since limits fullAgain with
  | nil => rfl
  | cons asked asks ih =>
      rw [List.map_cons, List.pairwise_cons] at hordered
      have htime := hsince asked List.mem_cons_self
      have hlater : ∀ other ∈ asks, asked.time ≤ other.time := fun other hother =>
        hordered.1 other.time (List.mem_map_of_mem hother)
      by_cases hown : ∃ now, asked = .take actor now
      · obtain ⟨now, rfl⟩ := hown
        have howed : limits.level actor now = max fullAgain now := hlevel now htime
        have hafter : settings.bucket.after (limits.level actor now) now =
            settings.bucket.after fullAgain now := by
          rw [howed, Bucket.after, Bucket.after, max_assoc, max_self]
        have hwait : settings.bucket.wait (limits.level actor now) now =
            settings.bucket.wait fullAgain now := by
          rw [Bucket.wait, hafter, Bucket.wait]
        by_cases hrefused : 0 < settings.bucket.wait fullAgain now
        · have hnext := @ih (ask settings limits (.take actor now)).1 fullAgain now
            (fun later hlast => (level_take hlast).trans
              ((if_neg (by simp [take_answer, hwait, hrefused])).trans
                (hlevel later (htime.trans hlast)))) hordered.2 hlater
          simpa [admissions, answers, callTimes, ask, take_answer, hwait, hrefused, Bucket.admitted]
            using hnext
        · have hnext := @ih (ask settings limits (.take actor now)).1
            (settings.bucket.after fullAgain now) now
            (fun later hlast => (level_take hlast).trans
              ((if_pos (by simp [take_answer, hwait, hrefused])).trans (by rw [hafter])))
            hordered.2 hlater
          simpa [admissions, answers, callTimes, ask, take_answer, hwait, hrefused, Bucket.admitted]
            using hnext
      · have hother : ∀ now, asked ≠ .take actor now := fun now heq => hown ⟨now, heq⟩
        have hnext := @ih (ask settings limits asked).1 fullAgain asked.time
          (fun later hlast => (level_ask_of_ne hother hlast).trans (hlevel later (htime.trans hlast)))
          hordered.2 hlater
        cases asked with
        | held now => simpa [admissions, answers, callTimes] using hnext
        | take caller now =>
            have hne : caller ≠ actor := by
              rintro rfl
              exact hother now rfl
            cases hanswer : (ask settings limits (.take caller now)).2 with
            | none => simpa [admissions, answers, callTimes, hanswer, hne] using hnext
            | some limited => simpa [admissions, answers, callTimes, hanswer, hne] using hnext

/-- What is held after everything that is asked. -/
def heldAfter (settings : Settings) (limits : Limits) (asks : List Ask) : Limits :=
  run (fun limits asked => (ask settings limits asked).1) limits asks

/-- What other actors ask leaves what an actor owes. -/
theorem level_heldAfter {asks : List Ask} {later : ℚ}
    (hothers : ∀ asked ∈ asks, ∀ now, asked ≠ .take actor now)
    (htimes : ∀ asked ∈ asks, asked.time ≤ later) :
    (heldAfter settings limits asks).level actor later = limits.level actor later := by
  induction asks generalizing limits with
  | nil => rfl
  | cons asked asks ih =>
      rw [List.forall_mem_cons] at hothers htimes
      exact (ih hothers.2 htimes.2).trans (level_ask_of_ne hothers.1 htimes.1)

/-- A call refused is let in after the wait it was told, while its actor makes no other. -/
theorem take_waited (hfits : settings.bucket.spacing ≤ settings.bucket.depth) {now later : ℚ}
    {limited : Limited} {between : List Ask}
    (hrefused : (limits.take settings actor now).2 = some limited)
    (hbetween : ∀ asked ∈ between, ∀ time, asked ≠ .take actor time)
    (hlater : ∀ asked ∈ between, asked.time ≤ later) (hpast : now ≤ later)
    (hwaited : now + limited.retryAfter ≤ later) :
    ((heldAfter settings (limits.take settings actor now).1 between).take settings actor later).2 =
      none := by
  have hlevel : (heldAfter settings (limits.take settings actor now).1 between).level actor later =
      max (limits.level actor now) later := by
    rw [level_heldAfter hbetween hlater, level_take hpast, if_neg (by simp [hrefused])]
    exact level_later hpast
  rw [take_answer] at hrefused ⊢
  split at hrefused
  · next hwait =>
      obtain rfl := Option.some.inj hrefused
      have hceil : now + settings.bucket.wait (limits.level actor now) now ≤ later :=
        (add_le_add_right (Int.le_ceil _) now).trans hwaited
      have hsame : settings.bucket.wait (max (limits.level actor now) later) later =
          settings.bucket.wait (limits.level actor now) later := by
        rw [Bucket.wait, Bucket.after, max_assoc, max_self, Bucket.wait, Bucket.after]
      rw [hlevel, hsame, if_neg (not_lt.mpr (Bucket.wait_waited hfits hceil hpast))]
  · cases hrefused

end Admissions

/-- However calls fall, no more of one agent's are let in within a window than its burst
and what its rate wins back in it; what is forgotten of full buckets changes no answer;
and a call refused is let in after the wait it was told. -/
theorem calls_limited (settings : Settings) (hrate : 0 < settings.callsPerMinute)
    (hburst : 0 < settings.callBurst) (limits : Limits) (asks : List Ask)
    (hordered : (asks.map Ask.time).Pairwise (· ≤ ·)) :
    (∀ (actor : String) (first length : ℚ), 0 ≤ length →
      ((admissions settings actor limits asks).countP fun time =>
          first ≤ time ∧ time ≤ first + length : ℚ) ≤
        settings.callBurst + length * (settings.callsPerMinute / 60)) ∧
      answers (ask settings) limits asks = answers (askKeeping settings) limits asks ∧
      ∀ (earlier between : List Ask) (actor : String) (now later : ℚ) (limited : Limited),
        asks = earlier ++ .take actor now :: (between ++ [.take actor later]) →
        ((heldAfter settings limits earlier).take settings actor now).2 = some limited →
        (∀ asked ∈ between, ∀ time, asked ≠ .take actor time) →
        now + limited.retryAfter ≤ later →
        ((heldAfter settings limits (earlier ++ .take actor now :: between)).take settings
          actor later).2 = none := by
  have hperMinute : (0 : ℚ) < settings.callsPerMinute := by exact_mod_cast hrate
  have hspacing : 0 ≤ settings.bucket.spacing := (div_pos (by norm_num) hperMinute).le
  have hfits : settings.bucket.spacing ≤ settings.bucket.depth :=
    le_mul_of_one_le_right hspacing (by exact_mod_cast hburst)
  obtain ⟨since, hsince⟩ : ∃ since, ∀ asked ∈ asks, since ≤ asked.time := by
    cases asks with
    | nil => exact ⟨0, by simp⟩
    | cons asked asks =>
        rw [List.map_cons, List.pairwise_cons] at hordered
        refine ⟨asked.time, List.forall_mem_cons.mpr ⟨le_rfl, fun other hother => ?_⟩⟩
        exact hordered.1 other.time (List.mem_map_of_mem hother)
  refine ⟨?_, ?_, ?_⟩
  · intro actor first length hlength
    have hcount := Bucket.count_le hspacing (hspacing.trans hfits)
      (show first ≤ first + length by linarith) (limits.level actor since) (callTimes actor asks)
    rw [← admissions_eq (fun now hnow => level_later hnow) hordered hsince, nsmul_eq_mul,
      add_sub_cancel_left] at hcount
    generalize (admissions settings actor limits asks).countP
      (fun time => first ≤ time ∧ time ≤ first + length) = count at hcount ⊢
    calc (count : ℚ)
        _ = count * (60 / settings.callsPerMinute) * (settings.callsPerMinute / 60) := by
            field_simp
        _ ≤ (length + 60 / settings.callsPerMinute * settings.callBurst) *
              (settings.callsPerMinute / 60) :=
            mul_le_mul_of_nonneg_right hcount (by positivity)
        _ = settings.callBurst + length * (settings.callsPerMinute / 60) := by
            field_simp
            ring
  · exact Alike.answers_eq (fun _ _ _ => rfl) hordered hsince
  · intro earlier between actor now later limited hasks hrefused hbetween hwaited
    subst hasks
    rw [List.map_append, List.pairwise_append, List.map_cons, List.pairwise_cons] at hordered
    rw [List.map_append, List.pairwise_append] at hordered
    have hlater : ∀ asked ∈ between, asked.time ≤ later := fun asked hasked =>
      hordered.2.1.2.2.2 asked.time (List.mem_map_of_mem hasked) later (by simp [Ask.time])
    have hpast : now ≤ later := hordered.2.1.1 later (by simp [Ask.time])
    rw [heldAfter, run_append]
    exact take_waited hfits hrefused hbetween hlater hpast hwaited

/-- Two calls a minute, one at once. -/
def sampleSettings : Settings := ⟨2, 1, 4, 8, 16⟩

/-- What two agents ask, the one called too soon. -/
def sampleAsks : List Ask :=
  [.take "laptop" 0, .take "laptop" 1, .take "phone" 2, .held 3, .take "laptop" 30]

/-- The call made too soon is told to wait for 29 seconds, and the next is let in after them. -/
theorem soon_call_waited :
    (((heldAfter sampleSettings start [.take "laptop" 0]).take sampleSettings "laptop" 1).2.map
        Limited.retryAfter = some 29) ∧
      ((heldAfter sampleSettings start [.take "laptop" 0, .take "laptop" 1, .take "phone" 2,
        .held 3]).take sampleSettings "laptop" 30).2 = none := by
  have hrefused : ((heldAfter sampleSettings start [.take "laptop" 0]).take sampleSettings
      "laptop" 1).2 = some ⟨"rate_limited", rateReason sampleSettings 29, 29⟩ := by
    decide +kernel
  obtain ⟨-, -, hwaited⟩ := calls_limited sampleSettings (by decide) (by decide) start sampleAsks
    (by decide)
  refine ⟨by rw [hrefused]; rfl, ?_⟩
  exact hwaited [.take "laptop" 0] [.take "phone" 2, .held 3] "laptop" 1 30 _ rfl hrefused
    (by simp) (by norm_num)

end Limits

end SeverinoHQ.Agents
