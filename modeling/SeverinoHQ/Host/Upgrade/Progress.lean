/-
# How far an invocation has come

Whatever it is replied, an invocation checks the stack, looks for a recorded result,
makes the operation's directory and runs, in that order; where one of these ends it,
it has answered. So what it has asked so far says all it has done.
-/

import SeverinoHQ.Host.Upgrade.Invocation
import SeverinoHQ.Host.Upgrade.Recording

namespace SeverinoHQ.Host.Upgrade

open SeverinoHQ.Math SeverinoHQ.Math.Dialogue
open SeverinoHQ.Math.Bytes (ascii)

/-- What an invocation has exchanged. -/
abbrev Asked := List (Exchange Ask Ask.Reply)

/-- The calls that look at the stack. -/
def Ask.checks : Ask → Bool
  | .lstat _ | .hasACL _ => true
  | _ => false

abbrev Checks {α : Type} (program : Visit α) : Prop := program.Only fun call => call.checks = true

theorem checks_ask {call : Ask} (h : call.checks = true) : Checks (askFor call) :=
  (only_call call).mpr h

/-! ## The checks of the stack -/

theorem present_checks (path : Bytes) : Checks (present path) :=
  Only.bind (checks_ask rfl) fun _ => only_pure _

theorem othersWrite_checks (path : Bytes) (info : Info) : Checks (othersWrite path info) := by
  unfold othersWrite
  split
  · exact only_pure _
  · exact checks_ask rfl

theorem andThen_checks {α β : Type} {check : Visit (Except Bytes α)}
    {next : α → Visit (Except Bytes β)} (hcheck : Checks check)
    (hnext : ∀ result, Checks (next result)) : Checks (andThen check next) := by
  refine Only.bind hcheck fun ended => ?_
  split
  · exact only_pure _
  · exact hnext _

theorem firstPresent_checks (dir : Bytes) (names : List Bytes) :
    Checks (firstPresent dir names) := by
  induction names with
  | nil => exact only_pure _
  | cons name names ih =>
      refine Only.bind (present_checks _) fun found => ?_
      split
      · exact only_pure _
      · exact ih

namespace Upgrader

variable (upgrader : Upgrader)

theorem guarded_checks (trusted path what : Bytes) (directory : Bool) :
    Checks (upgrader.guarded trusted path what directory) := by
  refine Only.bind (checks_ask rfl) fun found => ?_
  split
  · exact only_pure _
  split
  · exact only_pure _
  split
  · exact only_pure _
  split
  · exact only_pure _
  · refine Only.bind (othersWrite_checks _ _) fun writable => ?_
    split
    · exact only_pure _
    · exact only_pure _

theorem guardRoot_checks : Checks upgrader.guardRoot := by
  refine Only.bind (checks_ask rfl) fun found => ?_
  split
  · exact only_pure _
  split
  · exact only_pure _
  split
  · exact only_pure _
  · refine Only.bind (othersWrite_checks _ _) fun writable => ?_
    split
    · exact only_pure _
    · exact only_pure _

theorem guardEnv_checks (trusted dir : Bytes) (stack : Stack) :
    Checks (upgrader.guardEnv trusted dir stack) := by
  refine Only.bind (present_checks _) fun found => ?_
  split
  · exact andThen_checks (upgrader.guarded_checks _ _ _ _) fun _ => only_pure _
  · exact only_pure _

theorem guardOverride_checks (trusted dir pinFile : Bytes) :
    Checks (upgrader.guardOverride trusted dir pinFile) := by
  refine Only.bind (present_checks _) fun found => ?_
  split
  · exact andThen_checks (upgrader.guarded_checks _ _ _ _) fun _ => upgrader.guardEnv_checks _ _ _
  · exact upgrader.guardEnv_checks _ _ _

theorem guardFiles_checks (trusted dir : Bytes) : Checks (upgrader.guardFiles trusted dir) := by
  refine Only.bind (firstPresent_checks _ _) fun found => ?_
  split
  · exact only_pure _
  · refine andThen_checks (upgrader.guarded_checks _ _ _ _) fun _ =>
      Only.bind (firstPresent_checks _ _) fun other => ?_
    split
    · exact only_pure _
    · exact upgrader.guardOverride_checks _ _ _

theorem guardStack_checks (dir : Bytes) : Checks (upgrader.guardStack dir) := by
  refine andThen_checks upgrader.guardRoot_checks fun trusted =>
    Only.bind (present_checks dir) fun found => ?_
  split
  · exact only_pure _
  · exact andThen_checks (upgrader.guarded_checks _ _ _ _) fun _ => upgrader.guardFiles_checks _ _

theorem prepare_checks (request : Request) : Checks (upgrader.prepare request) := by
  unfold prepare
  split
  · exact only_pure _
  · refine andThen_checks (upgrader.guardStack_checks _) fun stack => ?_
    split
    · exact only_pure _
    · exact only_pure _

end Upgrader

/-! ## The run inside an invocation -/

/-- An exchange of the run, as one of the invocation. -/
def labelled (state : Bytes) (request : Request) (exchange : Exchange Call Reply) :
    Exchange Ask Ask.Reply :=
  ⟨.run state request exchange.1, exchange.2⟩

theorem Follows.of_within {α : Type} {state : Bytes} {request : Request} {program : Session α}
    {asked : Asked} {rest : Visit α} (h : Follows (within state request program) asked rest) :
    ∃ exchanges between, asked = exchanges.map (labelled state request) ∧
      Follows program exchanges between ∧ rest = within state request between := by
  induction program generalizing asked with
  | done result =>
      obtain ⟨rfl, rfl⟩ := Follows.of_done h
      exact ⟨[], .done result, rfl, .nil _, rfl⟩
  | ask call next ih =>
      unfold within at h
      cases h with
      | nil => exact ⟨[], .ask call next, rfl, .nil _, rfl⟩
      | @ask _ _ reply _ _ h =>
          obtain ⟨exchanges, between, rfl, hfollows, rfl⟩ := ih reply h
          exact ⟨⟨call, reply⟩ :: exchanges, between, rfl, .ask hfollows, rfl⟩

/-! ## The end of an invocation -/

/-- How far an invocation has come once its stack is checked, and its answer where it
has one. -/
inductive Progress (encoder : Encoder) (root state : Bytes) (run : Run) :
    Asked → Option Answer → Prop where
  | checked : Progress encoder root state run [] none
  | found (printed : Bytes) :
      Progress encoder root state run [⟨.readResult state, some printed⟩] none
  | recorded (printed : Bytes) (exit : Option Bytes) :
      Progress encoder root state run
        [⟨.readResult state, some printed⟩, ⟨.readExit state, exit⟩]
        (some ⟨printed, recordedCode exit⟩)
  | absent : Progress encoder root state run [⟨.readResult state, none⟩] none
  | rootless :
      Progress encoder root state run [⟨.readResult state, none⟩, ⟨.mkdirAll root, false⟩]
        (some (encoder.refuse (ascii "the state directory could not be made")))
  | rooted :
      Progress encoder root state run [⟨.readResult state, none⟩, ⟨.mkdirAll root, true⟩] none
  | taken :
      Progress encoder root state run
        [⟨.readResult state, none⟩, ⟨.mkdirAll root, true⟩, ⟨.mkdir state, false⟩]
        (some (encoder.refuse (ascii "the operation is running, or stopped without a result")))
  | begun {exchanges : Exchanges} {fuel : Nat} {pinFile : Bytes} {between : Session Report}
      (hrun : Follows (run.execute fuel pinFile) exchanges between) (answered : Option Answer) :
      Progress encoder root state run
        (⟨.readResult state, none⟩ :: ⟨.mkdirAll root, true⟩ :: ⟨.mkdir state, true⟩ ::
          exchanges.map (labelled state run.request)) answered

/-- A program's answer, where it has one. -/
def answered : Visit Answer → Option Answer
  | .done answer => some answer
  | .ask _ _ => none

theorem startRun_progress {encoder : Encoder} {root state pinFile : Bytes} {run : Run} {fuel : Nat}
    {asked : Asked} {rest : Visit Answer}
    (h : Follows (startRun encoder state run pinFile fuel) asked rest) :
    Progress encoder root state run
      (⟨.readResult state, none⟩ :: ⟨.mkdirAll root, true⟩ :: asked) (answered rest) := by
  rcases Follows.of_call h with ⟨rfl, rfl⟩ | ⟨made, later, rfl, hlater⟩
  · exact .rooted
  · cases made with
    | false =>
        obtain ⟨rfl, rfl⟩ := Follows.of_done hlater
        exact .taken
    | true =>
        rcases Follows.of_bind hlater with ⟨_, _, hrun, rfl⟩ | ⟨first, second, report, rfl, hrun, hend⟩
        · obtain ⟨exchanges, between, rfl, hfollows, -⟩ := Follows.of_within hrun
          exact .begun hfollows _
        · obtain ⟨exchanges, between, rfl, hfollows, -⟩ := Follows.of_within hrun
          obtain ⟨rfl, rfl⟩ := Follows.of_done hend
          rw [List.append_nil]
          exact .begun hfollows _

theorem answer_progress {encoder : Encoder} {upgrader : Upgrader} {request : Request}
    {stack : Stack} {fuel : Nat} {asked : Asked} {rest : Visit Answer}
    (h : Follows (answer encoder upgrader request stack fuel) asked rest) :
    Progress encoder upgrader.stateRoot (upgrader.stateOf request.operation)
      (upgrader.runOf request stack) asked (answered rest) := by
  unfold answer recorded at h
  rw [bind_assoc] at h
  rcases Follows.of_call h with ⟨rfl, rfl⟩ | ⟨result, later, rfl, hlater⟩
  · exact .checked
  · cases result with
    | some printed =>
        dsimp only at hlater
        rw [bind_assoc] at hlater
        rcases Follows.of_call hlater with ⟨rfl, rfl⟩ | ⟨exit, last, rfl, hlast⟩
        · exact .found printed
        · obtain ⟨rfl, rfl⟩ := Follows.of_done hlast
          exact .recorded printed exit
    | none =>
        rw [pure_bind] at hlater
        rcases Follows.of_call hlater with ⟨rfl, rfl⟩ | ⟨made, last, rfl, hlast⟩
        · exact .absent
        · cases made with
          | false =>
              obtain ⟨rfl, rfl⟩ := Follows.of_done hlast
              exact .rootless
          | true => exact startRun_progress hlast

/-- One invocation of the helper: what it was started with, and how many readings of
a container its run takes. -/
structure Invocation where
  getenv : Bytes → Bytes
  euid : Int
  args : List Bytes
  fuel : Nat

/-- `Main`. -/
def Invocation.program (encoder : Encoder) (invocation : Invocation) : Visit Answer :=
  main encoder invocation.getenv invocation.euid invocation.args invocation.fuel

/-- An invocation asks an upgrader for a request. -/
structure Invocation.Requests (invocation : Invocation) (upgrader : Upgrader) (request : Request) :
    Prop where
  upgrader : fromEnvironment invocation.getenv invocation.euid = .ok upgrader
  request : parse invocation.args = .ok request

/-- How far an invocation has come, and its answer where it has one. -/
inductive Visited (encoder : Encoder) (invocation : Invocation) : Asked → Option Answer → Prop where
  | unread {reason : Bytes}
      (h : fromEnvironment invocation.getenv invocation.euid = .error reason ∨
        parse invocation.args = .error reason) :
      Visited encoder invocation [] (some (encoder.refuse reason))
  | checking {upgrader : Upgrader} {request : Request} {asked : Asked}
      (hrequests : invocation.Requests upgrader request)
      (hprepare : ∃ call next, Follows (upgrader.prepare request) asked (.ask call next)) :
      Visited encoder invocation asked none
  | refused {upgrader : Upgrader} {request : Request} {asked : Asked} {reason : Bytes}
      (hrequests : invocation.Requests upgrader request)
      (hprepare : Follows (upgrader.prepare request) asked (.done (.error reason))) :
      Visited encoder invocation asked (some (encoder.refuse reason))
  | prepared {upgrader : Upgrader} {request : Request} {stack : Stack} {checked later : Asked}
      {ending : Option Answer} (hrequests : invocation.Requests upgrader request)
      (hprepare : Follows (upgrader.prepare request) checked (.done (.ok stack)))
      (hprogress : Progress encoder upgrader.stateRoot (upgrader.stateOf request.operation)
        (upgrader.runOf request stack) later ending) :
      Visited encoder invocation (checked ++ later) ending

theorem program_visited {encoder : Encoder} {invocation : Invocation} {asked : Asked}
    {rest : Visit Answer} (h : Follows (invocation.program encoder) asked rest) :
    Visited encoder invocation asked (answered rest) := by
  unfold Invocation.program main at h
  split at h
  · next reason hreason =>
      obtain ⟨rfl, rfl⟩ := Follows.of_done h
      exact .unread (Or.inl hreason)
  · next upgrader hupgrader =>
      unfold upgrade at h
      split at h
      · next reason hreason =>
          obtain ⟨rfl, rfl⟩ := Follows.of_done h
          exact .unread (Or.inr hreason)
      · next request hrequest =>
          have hrequests : invocation.Requests upgrader request := ⟨hupgrader, hrequest⟩
          rcases Follows.of_bind h with ⟨call, next, hprepare, rfl⟩ |
            ⟨checked, later, result, rfl, hprepare, hlater⟩
          · exact .checking hrequests ⟨call, next, hprepare⟩
          · cases result with
            | error reason =>
                obtain ⟨rfl, rfl⟩ := Follows.of_done hlater
                rw [List.append_nil]
                exact .refused hrequests hprepare
            | ok stack => exact .prepared hrequests hprepare (answer_progress hlater)

end SeverinoHQ.Host.Upgrade
