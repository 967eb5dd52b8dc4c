/-
# The settle window, and the wait

A container that is read again and again is read until it has settled, is lost, or the
wait is over. The readings decide it: which of them open a window that a later one closes,
and whether that one still came within the wait.
-/

import SeverinoHQ.Host.Upgrade.Readings

namespace SeverinoHQ.Host.Upgrade

open SeverinoHQ.Math SeverinoHQ.Math.Dialogue
open SeverinoHQ.Math.Bytes (ascii cut)

namespace Reading

/-- Not well yet, or not any more, but not lost. -/
def IsPending (reading : Reading) : Prop :=
  (reading.status = ascii "running" ∧ reading.health = ascii "starting") ∨
    reading.status = ascii "restarting" ∨ reading.status = ascii "created"

instance : DecidablePred IsWell := fun reading =>
  inferInstanceAs (Decidable (reading.status = ascii "running" ∧
    (reading.health = ascii "healthy" ∨ reading.health = ascii "none")))

instance : DecidablePred IsPending := fun reading =>
  inferInstanceAs (Decidable ((reading.status = ascii "running" ∧
    reading.health = ascii "starting") ∨ reading.status = ascii "restarting" ∨
      reading.status = ascii "created"))

end Reading

/-- What a container is read through: what docker prints of it each time, what the clock
says each time it is read, and whether each wait between two readings is waited out. The
clock is read twice before the first reading. -/
structure Stream where
  printed : Nat → Option Bytes
  clock : Nat → Int
  slept : Nat → Bool

namespace Stream

/-- The reading at a place. -/
def reading (stream : Stream) (place : Nat) : Reading :=
  ⟨stream.printed place, stream.clock (place + 2)⟩

/-- The stream as a machine, by how often its clock was read. -/
def machine (stream : Stream) : Nat → (call : Call) → Reply call × Nat
  | count, .inspectState _ => (stream.printed (count - 2), count)
  | count, .now => (stream.clock count, count + 1)
  | count, .sleep _ => (stream.slept (count - 3), count)
  | count, .config _ | count, .ps _ | count, .volumeInspect _ => (none, count)
  | count, .inspectImage _ => ([], count)
  | count, .inspectMounts _ => (none, count)
  | count, .stop _ | count, .start _ | count, .up _ | count, .runTrial _ | count, .pull _
  | count, .removeContainer _ | count, .volumeCreate _ | count, .volumeRemove _
  | count, .unmoved _ | count, .presentBefore | count, .interrupted => (false, count)
  | count, .stat _ => (.other, count)
  | count, .readOverride | count, .statOverride | count, .lstatOwner _
  | count, .removeOverride => (.error ⟨false, false, []⟩, count)
  | count, .writePinned _ _ | count, .chmodPinned _ | count, .copyToPart _ _
  | count, .tarToPart _ _ | count, .keepSnapshot _ | count, .removePart _ | count, .writeTrial
  | count, .copyForTrial _ | count, .tarForTrial _ _ | count, .copyBefore
  | count, .copyStaged _ | count, .removeStaged | count, .renameStaged | count, .syncDir
  | count, .copyRestored | count, .renameRestored | count, .copyBack _ _ | count, .empty _ _
  | count, .tarBack _ _ | count, .writeExit _ | count, .writeResult _ _ => (none, count)

/-- A clock that advances: it never goes back, and passes every time. -/
structure Advances (stream : Stream) : Prop where
  forward : ∀ {first second : Nat}, first ≤ second → stream.clock first ≤ stream.clock second
  passes : ∀ time : Int, ∃ count, time ≤ stream.clock count

/-- The readings from one place up to another all say the container is well, with one
restart count and start time. -/
def Stands (stream : Stream) (first upto : Nat) : Prop :=
  ∀ place, first ≤ place → place < upto →
    (stream.reading place).IsWell ∧ (stream.reading place).started = (stream.reading first).started

/-- A run of consecutive readings, two at least, over the settle time. -/
def Settles (stream : Stream) (settle : Int) (first last : Nat) : Prop :=
  first < last ∧ stream.Stands first (last + 1) ∧
    settle ≤ (stream.reading last).time - (stream.reading first).time

/-- A reading after which the container is read again, as far as it does not settle it. -/
def Goes (stream : Stream) (deadline : Int) (place : Nat) : Prop :=
  ((stream.reading place).IsWell ∨ (stream.reading place).IsPending) ∧
    (stream.reading place).time < deadline ∧ stream.slept place = true

/-- The first window closes too late: the container is read up to a reading after the
deadline, and with that one it has settled for the first time. -/
def Late (stream : Stream) (settle deadline : Int) : Prop :=
  ∃ last, (∀ place < last, stream.Goes deadline place) ∧ deadline < (stream.reading last).time ∧
    (∃ first, stream.Settles settle first last) ∧
    ∀ earlier < last, ∀ first, ¬stream.Settles settle first earlier

/-! ## The open window -/

/-- Where the window opened that is open when a reading is taken. -/
def opened (stream : Stream) : Nat → Option Nat
  | 0 => none
  | place + 1 =>
      if (stream.reading place).IsWell then
        match opened stream place with
        | some first =>
            if (stream.reading place).started = (stream.reading first).started then some first
            else some place
        | none => some place
      else none

variable {stream : Stream} {settle deadline : Int}

theorem opened_stands {place first : Nat} (h : stream.opened place = some first) :
    first < place ∧ stream.Stands first place := by
  induction place with
  | zero => simp [opened] at h
  | succ place ih =>
      have hself : (stream.reading place).IsWell → stream.Stands place (place + 1) := by
        intro hwell other hfrom hupto
        obtain rfl : other = place := by omega
        exact ⟨hwell, rfl⟩
      simp only [opened] at h
      split at h
      · next hwell =>
          split at h
          · next before hbefore =>
              split at h
              · next hsame =>
                  cases h
                  obtain ⟨hlt, hstands⟩ := ih hbefore
                  refine ⟨by omega, ?_⟩
                  intro other hfrom hupto
                  by_cases hlast : other = place
                  · exact hlast ▸ ⟨hwell, hsame⟩
                  · exact hstands other hfrom (by omega)
              · cases h
                exact ⟨Nat.lt_succ_self _, hself hwell⟩
          · cases h
            exact ⟨Nat.lt_succ_self _, hself hwell⟩
      · cases h

/-- The open window is the longest. -/
theorem opened_longest {place first : Nat} (hlt : first < place)
    (hstands : stream.Stands first place) : ∃ before ≤ first, stream.opened place = some before := by
  induction place with
  | zero => omega
  | succ place ih =>
      obtain ⟨hwell, hstarted⟩ := hstands place (by omega) (Nat.lt_succ_self _)
      by_cases hfirst : first = place
      · subst hfirst
        simp only [opened, if_pos hwell]
        split
        · next before hbefore =>
            split
            · exact ⟨before, (opened_stands hbefore).1.le, rfl⟩
            · exact ⟨first, le_rfl, rfl⟩
        · exact ⟨first, le_rfl, rfl⟩
      · obtain ⟨before, hle, hbefore⟩ := ih (by omega) fun other hfrom hupto =>
          hstands other hfrom (by omega)
        refine ⟨before, hle, ?_⟩
        have hsame := ((opened_stands hbefore).2 first hle (by omega)).2
        simp only [opened, if_pos hwell, hbefore, hstarted, hsame, if_true]

/-- A reading closes the open window. -/
def Closes (stream : Stream) (settle : Int) (place : Nat) : Prop :=
  (stream.reading place).IsWell ∧ ∃ first, stream.opened place = some first ∧
    (stream.reading place).started = (stream.reading first).started ∧
    settle ≤ (stream.reading place).time - (stream.reading first).time

theorem closes_iff (hclock : stream.Advances) {place : Nat} :
    stream.Closes settle place ↔ ∃ first, stream.Settles settle first place := by
  constructor
  · rintro ⟨hwell, first, hopened, hstarted, hsettled⟩
    obtain ⟨hlt, hstands⟩ := opened_stands hopened
    refine ⟨first, hlt, ?_, hsettled⟩
    intro other hfrom hupto
    by_cases hlast : other = place
    · exact hlast ▸ ⟨hwell, hstarted⟩
    · exact hstands other hfrom (by omega)
  · rintro ⟨first, hlt, hstands, hsettled⟩
    have hlast := hstands place (by omega) (Nat.lt_succ_self _)
    obtain ⟨before, hle, hopened⟩ := opened_longest hlt fun other hfrom hupto =>
      hstands other hfrom (by omega)
    have hsame := ((opened_stands hopened).2 first hle hlt).2
    have htime : (stream.reading before).time ≤ (stream.reading first).time :=
      hclock.forward (by omega)
    exact ⟨hlast.1, before, hopened, hlast.2.trans hsame, by omega⟩

/-! ## A round -/

/-- What the loop carries says which window is open. -/
def Carries (stream : Stream) (place : Nat) (since : Int) (last : Bytes) (settling : Bool) : Prop :=
  match stream.opened place with
  | some first =>
      settling = true ∧ since = (stream.reading first).time ∧ last = (stream.reading first).started
  | none => settling = false

end Stream

namespace Run

variable {run : Run} {container : Bytes} {stream : Stream} {deadline : Int}

/-- The loop, run on from a reading of the stream. -/
def readFrom (run : Run) (container : Bytes) (stream : Stream) (deadline : Int) (fuel place : Nat)
    (since : Int) (last : Bytes) (settling : Bool) : Exchanges × Bool × Nat :=
  (run.provesLoop container deadline fuel since last settling).runWith stream.machine (place + 2)

theorem runWith_readAgain (next : Session Bool) (place : Nat) :
    (run.readAgain deadline (stream.reading place).time next).runWith stream.machine (place + 3) =
      if (stream.reading place).time < deadline then
        if stream.slept place then
          (⟨.sleep run.poll, true⟩ :: (next.runWith stream.machine (place + 3)).1,
            (next.runWith stream.machine (place + 3)).2)
        else ([⟨.sleep run.poll, false⟩], false, place + 3)
      else ([], false, place + 3) := by
  unfold readAgain
  by_cases htime : (stream.reading place).time < deadline
  · rw [if_neg (not_not.mpr htime), if_pos htime, runWith_call_bind]
    cases hslept : stream.slept place <;> simp [Stream.machine, hslept]
  · rw [if_pos htime, if_neg htime, runWith_pure]

/-- One round of the loop: its reading settles it, or ends it, or another follows. -/
inductive Round (run : Run) (container : Bytes) (stream : Stream) (deadline : Int) (place : Nat)
    (since : Int) (last : Bytes) (settling : Bool) : Prop where
  | settled (closes : stream.Closes run.settle place) (exchanges : Exchanges)
      (ends : ∀ fuel, run.readFrom container stream deadline (fuel + 1) place since last settling =
        (exchanges, true, place + 3))
  | ended (closes : ¬stream.Closes run.settle place) (goes : ¬stream.Goes deadline place)
      (exchanges : Exchanges)
      (ends : ∀ fuel, run.readFrom container stream deadline (fuel + 1) place since last settling =
        (exchanges, false, place + 3))
  | next (closes : ¬stream.Closes run.settle place) (goes : stream.Goes deadline place)
      (exchanges : Exchanges) (opening : Int) (started : Bytes) (carrying : Bool)
      (carries : stream.Carries (place + 1) opening started carrying)
      (later : ∀ fuel,
        run.readFrom container stream deadline (fuel + 1) place since last settling =
          (exchanges ++
              (run.readFrom container stream deadline fuel (place + 1) opening started carrying).1,
            (run.readFrom container stream deadline fuel (place + 1) opening started carrying).2))

/-- What the loop does with a reading. -/
def decided (run : Run) (container : Bytes) (deadline : Int) (reading : Reading) (since : Int)
    (last : Bytes) (settling : Bool) (fuel : Nat) : Session Bool :=
  if reading.IsWell then
    if settling = true ∧ reading.started = last then
      if run.settle ≤ reading.time - since then return true
      else run.readAgain deadline reading.time
        (run.provesLoop container deadline fuel since last settling)
    else run.readAgain deadline reading.time
      (run.provesLoop container deadline fuel reading.time reading.started true)
  else if reading.IsPending then
    run.readAgain deadline reading.time (run.provesLoop container deadline fuel since last false)
  else return false

theorem readFrom_succ (fuel place : Nat) (since : Int) (last : Bytes) (settling : Bool) :
    run.readFrom container stream deadline (fuel + 1) place since last settling =
      ((stream.reading place).exchanges container ++
          ((run.decided container deadline (stream.reading place) since last settling fuel).runWith
            stream.machine (place + 3)).1,
        ((run.decided container deadline (stream.reading place) since last settling fuel).runWith
            stream.machine (place + 3)).2) := rfl

/-- A reading that leaves the container to be read again, while the wait lasts. -/
theorem Round.of_readAgain {place : Nat} {since opening : Int} {last started : Bytes}
    {settling carrying : Bool} (hcloses : ¬stream.Closes run.settle place)
    (hstate : (stream.reading place).IsWell ∨ (stream.reading place).IsPending)
    (hcarries : stream.Carries (place + 1) opening started carrying)
    (hdecided : ∀ fuel,
      run.decided container deadline (stream.reading place) since last settling fuel =
        run.readAgain deadline (stream.reading place).time
          (run.provesLoop container deadline fuel opening started carrying)) :
    run.Round container stream deadline place since last settling := by
  by_cases hgoes : stream.Goes deadline place
  · refine .next hcloses hgoes
      ((stream.reading place).exchanges container ++ [⟨.sleep run.poll, true⟩])
      opening started carrying hcarries ?_
    intro fuel
    rw [readFrom_succ, hdecided, runWith_readAgain, if_pos hgoes.2.1, if_pos hgoes.2.2,
      List.append_assoc]
    rfl
  · refine .ended hcloses hgoes
      ((stream.reading place).exchanges container ++
        if (stream.reading place).time < deadline then [⟨.sleep run.poll, false⟩] else []) ?_
    intro fuel
    rw [readFrom_succ, hdecided, runWith_readAgain]
    by_cases htime : (stream.reading place).time < deadline
    · have hslept : ¬stream.slept place = true := fun hslept => hgoes ⟨hstate, htime, hslept⟩
      rw [if_pos htime, if_neg hslept, if_pos htime]
    · rw [if_neg htime, if_neg htime]

/-- The loop's rounds follow the windows of the stream. -/
theorem round {place : Nat} {since : Int} {last : Bytes} {settling : Bool}
    (h : stream.Carries place since last settling) :
    run.Round container stream deadline place since last settling := by
  by_cases hwell : (stream.reading place).IsWell
  · cases hopened : stream.opened place with
    | none =>
        simp only [Stream.Carries, hopened] at h
        apply Round.of_readAgain (by simp [Stream.Closes, hopened]) (Or.inl hwell)
        · show stream.Carries (place + 1) (stream.reading place).time
            (stream.reading place).started true
          simp [Stream.Carries, Stream.opened, hwell, hopened]
        · intro fuel
          simp [decided, hwell, h]
    | some first =>
        simp only [Stream.Carries, hopened] at h
        obtain ⟨rfl, rfl, rfl⟩ := h
        by_cases hsame : (stream.reading place).started = (stream.reading first).started
        · by_cases hsettled :
              run.settle ≤ (stream.reading place).time - (stream.reading first).time
          · refine .settled ⟨hwell, first, hopened, hsame, hsettled⟩
              ((stream.reading place).exchanges container) ?_
            intro fuel
            simp [readFrom_succ, decided, hwell, hsame, hsettled]
          · apply Round.of_readAgain (by simp [Stream.Closes, hopened, hsettled]) (Or.inl hwell)
            · show stream.Carries (place + 1) (stream.reading first).time
                (stream.reading first).started true
              simp [Stream.Carries, Stream.opened, hwell, hopened, hsame]
            · intro fuel
              simp [decided, hwell, hsame, hsettled]
        · apply Round.of_readAgain (by simp [Stream.Closes, hopened, hsame]) (Or.inl hwell)
          · show stream.Carries (place + 1) (stream.reading place).time
              (stream.reading place).started true
            simp [Stream.Carries, Stream.opened, hwell, hopened, hsame]
          · intro fuel
            simp [decided, hwell, hsame]
  · have hcloses : ¬stream.Closes run.settle place := fun hcloses => hwell hcloses.1
    by_cases hpending : (stream.reading place).IsPending
    · apply Round.of_readAgain hcloses (Or.inr hpending)
      · show stream.Carries (place + 1) since last false
        simp [Stream.Carries, Stream.opened, hwell]
      · intro fuel
        simp [decided, hwell, hpending]
    · refine .ended hcloses (fun hgoes => hgoes.1.elim hwell hpending)
        ((stream.reading place).exchanges container) ?_
      intro fuel
      simp [readFrom_succ, decided, hwell, hpending]

end Run

namespace Stream

variable {stream : Stream} {settle deadline : Int}

/-- From a reading on, the container is read up to one that settles it. -/
def Reaches (stream : Stream) (settle deadline : Int) (place last : Nat) : Prop :=
  place ≤ last ∧ (∀ between, place ≤ between → between < last →
    stream.Goes deadline between ∧ ¬stream.Closes settle between) ∧ stream.Closes settle last

theorem Reaches.of_closes {place last : Nat} (hcloses : stream.Closes settle place) :
    stream.Reaches settle deadline place last ↔ last = place := by
  constructor
  · rintro ⟨hle, hbetween, -⟩
    by_contra hne
    exact (hbetween place le_rfl (by omega)).2 hcloses
  · rintro rfl
    exact ⟨le_rfl, fun between _ _ => by omega, hcloses⟩

theorem Reaches.of_goes {place last : Nat} (hcloses : ¬stream.Closes settle place)
    (hgoes : stream.Goes deadline place) :
    stream.Reaches settle deadline place last ↔ stream.Reaches settle deadline (place + 1) last := by
  constructor
  · rintro ⟨hle, hbetween, hlast⟩
    have hne : place ≠ last := fun heq => hcloses (heq ▸ hlast)
    exact ⟨by omega, fun between hfrom hupto => hbetween between (by omega) hupto, hlast⟩
  · rintro ⟨hle, hbetween, hlast⟩
    refine ⟨by omega, ?_, hlast⟩
    intro between hfrom hupto
    by_cases hfirst : between = place
    · exact hfirst ▸ ⟨hgoes, hcloses⟩
    · exact hbetween between (by omega) hupto

theorem not_reaches {place last : Nat} (hcloses : ¬stream.Closes settle place)
    (hgoes : ¬stream.Goes deadline place) : ¬stream.Reaches settle deadline place last := by
  rintro ⟨hle, hbetween, hlast⟩
  have hne : place ≠ last := fun heq => hcloses (heq ▸ hlast)
  exact hgoes (hbetween place le_rfl (by omega)).1

end Stream

namespace Run

variable {run : Run} {container : Bytes} {stream : Stream} {deadline : Int}

/-- The loop ends by the first reading past the deadline, and answers by the first that
settles the container. -/
theorem readFrom_ends {final : Nat} (hfinal : deadline ≤ (stream.reading final).time)
    (rounds : Nat) {place : Nat} (hle : place ≤ final) (hrounds : final < place + rounds)
    {since : Int} {last : Bytes} {settling : Bool} (h : stream.Carries place since last settling) :
    ∃ exchanges answer taken, (∀ fuel, rounds ≤ fuel →
      run.readFrom container stream deadline fuel place since last settling =
        (exchanges, answer, taken + 2)) ∧
      (answer = true ↔ ∃ last, stream.Reaches run.settle deadline place last) ∧
      ∀ last, stream.Reaches run.settle deadline place last → taken = last + 1 := by
  induction rounds generalizing place since last settling with
  | zero => omega
  | succ rounds ih =>
      have hfuel : ∀ fuel, rounds + 1 ≤ fuel → ∃ left, rounds ≤ left ∧ fuel = left + 1 :=
        fun fuel hle => ⟨fuel - 1, by omega, by omega⟩
      have hround : run.Round container stream deadline place since last settling := round h
      cases hround with
      | settled hcloses exchanges hends =>
          refine ⟨exchanges, true, place + 1, ?_, ?_, ?_⟩
          · intro fuel hle
            obtain ⟨left, -, rfl⟩ := hfuel fuel hle
            exact hends left
          · simp [Stream.Reaches.of_closes hcloses]
          · intro last hreaches
            rw [(Stream.Reaches.of_closes hcloses).mp hreaches]
      | ended hcloses hgoes exchanges hends =>
          refine ⟨exchanges, false, place + 1, ?_, ?_, ?_⟩
          · intro fuel hle
            obtain ⟨left, -, rfl⟩ := hfuel fuel hle
            exact hends left
          · simp [Stream.not_reaches hcloses hgoes]
          · intro last hreaches
            exact absurd hreaches (Stream.not_reaches hcloses hgoes)
      | next hcloses hgoes exchanges opening started carrying hcarries hlater =>
          have hne : place ≠ final := by
            rintro rfl
            have := hgoes.2.1
            omega
          obtain ⟨rest, answer, taken, hends, hanswer, htaken⟩ :=
            ih (by omega) (by omega) hcarries
          refine ⟨exchanges ++ rest, answer, taken, ?_, ?_, ?_⟩
          · intro fuel hle
            obtain ⟨left, hleft, rfl⟩ := hfuel fuel hle
            rw [hlater left, hends left hleft]
          · simp only [hanswer, Stream.Reaches.of_goes hcloses hgoes]
          · intro last hreaches
            exact htaken last ((Stream.Reaches.of_goes hcloses hgoes).mp hreaches)

/-- What `proves` answers, run on a stream. -/
def provesOn (run : Run) (fuel : Nat) (container : Bytes) (stream : Stream) :
    Exchanges × Bool × Nat :=
  (run.proves fuel container).runWith stream.machine 0

theorem provesOn_eq (fuel : Nat) :
    run.provesOn fuel container stream =
      (⟨.now, stream.clock 0⟩ :: ⟨.now, stream.clock 1⟩ ::
          (run.readFrom container stream (stream.clock 0 + run.request.wait) fuel 0
            (stream.clock 1) [] false).1,
        (run.readFrom container stream (stream.clock 0 + run.request.wait) fuel 0
            (stream.clock 1) [] false).2) := rfl

/-- A container proved itself within the wait: a run of the readings taken of it, two at
least and over the settle time, all said it was well and gave one restart count and start
time, and the last of them came by the deadline. -/
def SettledWithin (run : Run) (stream : Stream) (taken : Nat) : Prop :=
  ∃ first last, last < taken ∧ stream.Settles run.settle first last ∧
    (stream.reading last).time ≤ stream.clock 0 + run.request.wait

/-- On every stream whose clock advances `proves` ends, and it answers that a container has
proven itself only where it did so within the wait, unless the first window closes late. -/
theorem proves_within_iff (run : Run) (container : Bytes) (stream : Stream)
    (hclock : stream.Advances) :
    ∃ rounds exchanges answer taken,
      (∀ fuel, rounds ≤ fuel → run.provesOn fuel container stream = (exchanges, answer, taken + 2)) ∧
        ((answer = true → run.SettledWithin stream taken) ↔
          ¬stream.Late run.settle (stream.clock 0 + run.request.wait)) := by
  obtain ⟨final, hfinal⟩ := hclock.passes (stream.clock 0 + run.request.wait)
  have hpast : stream.clock 0 + run.request.wait ≤ (stream.reading final).time :=
    Int.le_trans hfinal (hclock.forward (Nat.le_add_right final 2))
  obtain ⟨exchanges, answer, taken, hends, hanswer, htaken⟩ :=
    @readFrom_ends run container stream _ _ hpast (final + 1) 0 (Nat.zero_le final) (by omega)
      (stream.clock 1) [] false rfl
  refine ⟨final + 1, ⟨.now, stream.clock 0⟩ :: ⟨.now, stream.clock 1⟩ :: exchanges, answer, taken,
    ?_, ?_⟩
  · intro fuel hle
    rw [provesOn_eq, hends fuel hle]
  · rw [hanswer]
    constructor
    · rintro hwithin ⟨last, hgoes, hlate, hsettles, hfirst⟩
      have hreaches : stream.Reaches run.settle (stream.clock 0 + run.request.wait) 0 last := by
        refine ⟨Nat.zero_le last, ?_, (Stream.closes_iff hclock).mpr hsettles⟩
        intro between _ hlt
        refine ⟨hgoes between hlt, ?_⟩
        intro hclosed
        obtain ⟨first, hsettled⟩ := (Stream.closes_iff hclock).mp hclosed
        exact hfirst between hlt first hsettled
      obtain ⟨first, other, hother, hsettled, hby⟩ := hwithin ⟨last, hreaches⟩
      rw [htaken last hreaches] at hother
      by_cases hlast : other = last
      · subst hlast
        omega
      · exact hfirst other (by omega) first hsettled
    · rintro hnot ⟨last, hreaches⟩
      have htaken := htaken last hreaches
      obtain ⟨-, hbetween, hcloses⟩ := hreaches
      obtain ⟨first, hsettled⟩ := (Stream.closes_iff hclock).mp hcloses
      refine ⟨first, last, ?_, hsettled, ?_⟩
      · omega
      · by_contra hlate
        apply hnot
        refine ⟨last, fun place hlt => (hbetween place (Nat.zero_le _) hlt).1, by omega,
          ⟨first, hsettled⟩, ?_⟩
        intro earlier hlt other hother
        exact (hbetween earlier (Nat.zero_le _) hlt).2 ((Stream.closes_iff hclock).mpr ⟨other, hother⟩)

/-- An upgrade that waits ten seconds, and has a container settle for ten. -/
def tenSeconds : Run where
  request := ⟨ascii "op-1", ascii "/opt/apps/web", ascii "web", ascii "web:1", ascii "web:2", [],
    10000000000⟩
  settle := 10000000000
  poll := 2000000000
  dir := ascii "/opt/apps/web"
  trial := ascii "trial"
  override := true
  trialFile := false
  data := []
  steps := []
  phase := .checking

/-- A container that runs well, and is read every so many seconds from the start on. -/
def every (seconds : Nat) : Stream where
  printed _ := some (ascii "running none 0 2026-01-01T00:00:00Z")
  clock count := 1000000000 * (seconds * (count - 2) : Nat)
  slept _ := true

theorem every_advances {seconds : Nat} (hseconds : 0 < seconds) : (every seconds).Advances where
  forward {first second} h := by
    have hle := Nat.mul_le_mul_left seconds (Nat.sub_le_sub_right h 2)
    simp only [every]
    omega
  passes time := by
    have hle := Nat.le_mul_of_pos_left time.toNat hseconds
    refine ⟨time.toNat + 2, ?_⟩
    simp only [every, Nat.add_sub_cancel]
    omega

/-- Read every two seconds, it has settled by the tenth, and proves itself. -/
theorem everyTwo_ends :
    ∃ rounds exchanges taken,
      (∀ fuel, rounds ≤ fuel →
        tenSeconds.provesOn fuel (ascii "web") (every 2) = (exchanges, true, taken + 2)) ∧
        tenSeconds.SettledWithin (every 2) taken := by
  obtain ⟨rounds, exchanges, answer, taken, hends, hwithin⟩ :=
    proves_within_iff tenSeconds (ascii "web") (every 2) (every_advances (by decide))
  have hsettles : (every 2).Settles tenSeconds.settle 0 5 := by
    refine ⟨by decide, fun _ _ _ => ⟨?_, rfl⟩, by decide⟩
    show ((every 2).reading 0).IsWell
    decide
  have hanswer : (tenSeconds.provesOn (rounds + 6) (ascii "web") (every 2)).2.1 = true := by
    rfl
  rw [hends (rounds + 6) (Nat.le_add_right rounds 6)] at hanswer
  obtain rfl : answer = true := hanswer
  refine ⟨rounds, exchanges, taken, hends, hwithin.mpr ?_ rfl⟩
  rintro ⟨last, -, hlate, -, hfirst⟩
  simp only [tenSeconds, every, Stream.reading] at hlate
  exact hfirst 5 (by omega) 0 hsettles

/-- A container whose twelfth second is the first it has settled by has proven itself, where
it was waited for for ten. -/
theorem settled_late :
    ¬∀ (run : Run) (container : Bytes) (stream : Stream), stream.Advances →
      ∃ rounds exchanges answer taken,
        (∀ fuel, rounds ≤ fuel →
          run.provesOn fuel container stream = (exchanges, answer, taken + 2)) ∧
          (answer = true → run.SettledWithin stream taken) := by
  intro h
  obtain ⟨rounds, exchanges, answer, taken, hends, hwithin⟩ :=
    h tenSeconds (ascii "web") (every 3) (every_advances (by decide))
  have hanswer : (tenSeconds.provesOn (rounds + 5) (ascii "web") (every 3)).2.1 = true := by
    rfl
  rw [hends (rounds + 5) (Nat.le_add_right rounds 5)] at hanswer
  obtain ⟨first, last, -, ⟨-, -, hsettled⟩, hby⟩ := hwithin hanswer
  simp only [tenSeconds, every, Stream.reading] at hsettled hby
  omega

end Run

end SeverinoHQ.Host.Upgrade
