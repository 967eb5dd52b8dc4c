/-
# Readings of a container

A container has proven itself where consecutive readings of it, at least two of
them and over the settle time, all said it was running and well and gave one
restart count and start time.
-/

import SeverinoHQ.Host.Upgrade.Model

namespace SeverinoHQ.Host.Upgrade

open SeverinoHQ.Math SeverinoHQ.Math.Dialogue
open SeverinoHQ.Math.Bytes (ascii cut)

/-- The exchanges of a run. -/
abbrev Exchanges := List (Exchange Call Reply)

/-- One reading: what docker printed of the container, and when. -/
structure Reading where
  printed : Option Bytes
  time : Int

namespace Reading

def seen (reading : Reading) : Bytes :=
  (reading.printed.map Bytes.trimSpace).getD (ascii "gone gone")

def status (reading : Reading) : Bytes := (cut 32 reading.seen).1

def health (reading : Reading) : Bytes := (cut 32 (cut 32 reading.seen).2.1).1

/-- The restart count and the start time. -/
def started (reading : Reading) : Bytes := (cut 32 (cut 32 reading.seen).2.1).2.1

/-- Running, and healthy or without a health check. -/
def IsWell (reading : Reading) : Prop :=
  reading.status = ascii "running" ∧
    (reading.health = ascii "healthy" ∨ reading.health = ascii "none")

/-- The calls one reading is. -/
def exchanges (container : Bytes) (reading : Reading) : Exchanges :=
  [⟨.inspectState container, reading.printed⟩, ⟨.now, reading.time⟩]

end Reading

/-- Consecutive readings of a container, with a wait between each two. -/
def transcript (container : Bytes) (poll : Int) : List Reading → Exchanges
  | [] => []
  | [reading] => reading.exchanges container
  | reading :: next :: readings =>
      reading.exchanges container ++ ⟨.sleep poll, true⟩ :: transcript container poll (next :: readings)

theorem transcript_cons_append (container : Bytes) (poll : Int) (reading last : Reading)
    (readings : List Reading) :
    transcript container poll (reading :: (readings ++ [last])) =
      reading.exchanges container ++
        ⟨.sleep poll, true⟩ :: transcript container poll (readings ++ [last]) := by
  cases readings with
  | nil => rfl
  | cons next readings => rfl

/-- What a run is held to: the image asked for, and how long a container has to stand. -/
structure Goal where
  image : Bytes
  settle : Int
  poll : Int

def Run.goal (run : Run) : Goal := ⟨run.request.toImage, run.settle, run.poll⟩

namespace Goal

/-- A container proved itself. -/
def Proven (goal : Goal) (container : Bytes) (exchanges : Exchanges) : Prop :=
  ∃ first between last,
    transcript container goal.poll (first :: (between ++ [last])) <:+: exchanges ∧
      (∀ reading ∈ first :: (between ++ [last]),
        reading.IsWell ∧ reading.started = first.started) ∧
      goal.settle ≤ last.time - first.time

/-- The readings from here on carry a window that is open on to its end. -/
def Carried (goal : Goal) (container : Bytes) (since : Int) (last : Bytes) (exchanges : Exchanges) :
    Prop :=
  ∃ between final, exchanges = transcript container goal.poll (between ++ [final]) ∧
    (∀ reading ∈ between ++ [final], reading.IsWell ∧ reading.started = last) ∧
    goal.settle ≤ final.time - since

variable {goal : Goal} {container : Bytes}

theorem Proven.of_within {first second : Exchanges} (h : goal.Proven container first)
    (hwithin : first <:+: second) : goal.Proven container second := by
  obtain ⟨opening, between, last, htranscript, hwell, hsettled⟩ := h
  exact ⟨opening, between, last, htranscript.trans hwithin, hwell, hsettled⟩

/-- A window carried on from its second reading. -/
theorem Carried.cons {since : Int} {last : Bytes} {exchanges : Exchanges} {reading : Reading}
    (h : goal.Carried container since last exchanges) (hwell : reading.IsWell)
    (hstarted : reading.started = last) :
    goal.Carried container since last
      (reading.exchanges container ++ ⟨.sleep goal.poll, true⟩ :: exchanges) := by
  obtain ⟨between, final, rfl, hall, hsettled⟩ := h
  refine ⟨reading :: between, final, (transcript_cons_append ..).symm, ?_, hsettled⟩
  intro other hother
  rcases List.mem_cons.mp hother with rfl | hmem
  · exact ⟨hwell, hstarted⟩
  · exact hall other hmem

/-- A window carried on from the reading that opened it. -/
theorem Carried.proven {exchanges : Exchanges} {reading : Reading}
    (h : goal.Carried container reading.time reading.started exchanges) (hwell : reading.IsWell) :
    goal.Proven container
      (reading.exchanges container ++ ⟨.sleep goal.poll, true⟩ :: exchanges) := by
  obtain ⟨between, final, rfl, hall, hsettled⟩ := h
  refine ⟨reading, between, final, ?_, ?_, hsettled⟩
  · exact transcript_cons_append container goal.poll reading final between ▸ List.infix_rfl
  · intro other hother
    rcases List.mem_cons.mp hother with rfl | hmem
    · exact ⟨hwell, rfl⟩
    · exact hall other hmem

end Goal

namespace Run

variable {run : Run} {container : Bytes}
variable {σ : Type} {world : σ → Exchange Call Reply → σ → Prop} {state : σ}

/-- A further round was waited for. -/
theorem readAgain_waits {deadline now : Int} {next : Session Bool} {ends : Exchanges → Prop}
    (h : ∀ after, Always world next after fun exchanges proven _ => proven = true →
      ends (⟨.sleep run.poll, true⟩ :: exchanges)) :
    Always world (run.readAgain deadline now next) state fun exchanges proven _ =>
      proven = true → ends exchanges := by
  unfold readAgain
  split
  · exact always_pure.mpr nofun
  · rw [always_bind, always_call]
    intro slept after _
    split
    · exact always_pure.mpr nofun
    · next hslept =>
        obtain rfl : slept = true := by simpa using hslept
        exact h after

/-- Readings that end in a proof hold a whole window, or carry the open one on. -/
theorem provesLoop_proven (deadline : Int) (fuel : Nat) (since : Int) (last : Bytes)
    (settling : Bool) :
    Always world (run.provesLoop container deadline fuel since last settling) state
      fun exchanges proven _ => proven = true →
        run.goal.Proven container exchanges ∨
          settling = true ∧ run.goal.Carried container since last exchanges := by
  induction fuel generalizing state since last settling with
  | zero => exact always_pure.mpr nofun
  | succ fuel ih =>
      unfold provesLoop
      rw [always_bind, always_call]
      intro printed _ _
      rw [always_bind, always_call]
      intro time _ _
      let reading : Reading := ⟨printed, time⟩
      have hlater : ∀ rest, run.goal.Proven container rest →
          run.goal.Proven container (reading.exchanges container ++ ⟨.sleep run.poll, true⟩ :: rest) :=
        fun rest h => h.of_within ⟨reading.exchanges container ++ [⟨.sleep run.poll, true⟩], [], by simp⟩
      dsimp only
      split
      · next hwell =>
          have hwell : reading.IsWell := hwell
          split
          · next hsame =>
              split
              · next hsettled =>
                  refine always_pure.mpr fun _ => Or.inr ⟨hsame.1, [], reading, rfl, ?_, hsettled⟩
                  intro other hother
                  obtain rfl := List.mem_singleton.mp hother
                  exact ⟨hwell, hsame.2⟩
              · refine readAgain_waits fun after => (ih since last settling).mono ?_
                intro rest proven _ hrest hproven
                rcases hrest hproven with hproven | ⟨hsettling, hcarried⟩
                · exact Or.inl (hlater rest hproven)
                · exact Or.inr ⟨hsettling, hcarried.cons hwell hsame.2⟩
          · refine readAgain_waits fun after => (ih time reading.started true).mono ?_
            intro rest proven _ hrest hproven
            rcases hrest hproven with hproven | ⟨-, hcarried⟩
            · exact Or.inl (hlater rest hproven)
            · exact Or.inl (Goal.Carried.proven hcarried hwell)
      · split
        · refine readAgain_waits fun after => (ih since last false).mono ?_
          intro rest proven _ hrest hproven
          rcases hrest hproven with hproven | ⟨hsettling, -⟩
          · exact Or.inl (hlater rest hproven)
          · exact absurd hsettling Bool.false_ne_true
        · exact always_pure.mpr nofun

/-- A container that proves itself did so in the readings taken of it. -/
theorem proves_proven (fuel : Nat) :
    Always world (run.proves fuel container) state fun exchanges proven _ =>
      proven = true → run.goal.Proven container exchanges := by
  unfold proves
  rw [always_bind, always_call]
  intro _ _ _
  rw [always_bind, always_call]
  intro since _ _
  refine (provesLoop_proven _ fuel since [] false).mono fun exchanges proven _ h hproven => ?_
  rcases h hproven with hproven | ⟨hsettling, -⟩
  · exact hproven.of_within ((List.suffix_append _ _).trans (List.suffix_append _ _)).isInfix
  · exact absurd hsettling Bool.false_ne_true

end Run

end SeverinoHQ.Host.Upgrade
