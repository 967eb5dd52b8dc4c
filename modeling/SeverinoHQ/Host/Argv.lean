/-
# The containers a start command names

One of a unit's start commands names a container where docker itself reads a
container's name: among the operands of `start`, `stop` and `restart`, in the
`--name` of `run` and `create`, or as compose names what it brings up. A command
with an option that cannot be stepped over names none.
-/

import SeverinoHQ.Math.Bytes
import SeverinoHQ.Math.Dialogue

namespace SeverinoHQ.Host

open SeverinoHQ.Math
open SeverinoHQ.Math.Bytes (ascii cut cutPrefix splitSeq)

/-! ## Commands -/

/-- A program and its arguments. -/
structure Command where
  program : Bytes
  args : List Bytes
  deriving DecidableEq, Repr

/-- How a program ended. -/
inductive Exit where
  | ok
  | code (status : Nat)
  | notRun
  deriving DecidableEq, Repr

/-- What a program printed, and how it ended. -/
structure Output where
  text : Bytes
  exit : Exit
  deriving DecidableEq, Repr

/-- A program of the helper, that runs commands. -/
abbrev Session := Dialogue Command fun _ => Output

/-! ## Options -/

/-- The options a docker command reads a value after, and those that stand alone. -/
structure Options where
  values : List Bytes
  flags : List Bytes
  deriving Repr

/-- How one argument of short options reads. -/
inductive Cluster where
  | alone
  | takesNext
  | unknown
  deriving DecidableEq, Repr

/-- Short options cluster; one that takes a value takes the rest of the cluster,
or the next argument when it ends the cluster. -/
def Options.cluster (options : Options) : Bytes → Cluster
  | [] => .alone
  | byte :: rest =>
      if options.values.contains (ascii "-" ++ [byte]) then
        if rest = [] then .takesNext else .alone
      else if options.flags.contains (ascii "-" ++ [byte]) then options.cluster rest
      else .unknown

/-- `operands`, as docker's flag parser reads them: not interspersed, they are
everything from the first one on. -/
def Options.operands (options : Options) (interspersed : Bool) : List Bytes → Option (List Bytes)
  | [] => some []
  | arg :: rest =>
      if arg = ascii "--" then some rest
      else if (ascii "--").isPrefixOf arg then
        if options.values.contains (cut 61 arg).1 then
          if (cut 61 arg).2.2 then options.operands interspersed rest
          else
            match rest with
            | [] => none
            | _ :: later => options.operands interspersed later
        else if options.flags.contains (cut 61 arg).1 then options.operands interspersed rest
        else none
      else if (ascii "-").isPrefixOf arg && arg.length > 1 then
        match options.cluster (arg.drop 1) with
        | .unknown => none
        | .alone => options.operands interspersed rest
        | .takesNext =>
            match rest with
            | [] => none
            | _ :: later => options.operands interspersed later
      else if !interspersed then some (arg :: rest)
      else (options.operands interspersed rest).map (arg :: ·)

/-- `dockerOptions`. -/
def dockerOptions : Options where
  values := ["-H", "--host", "-c", "--context", "--config", "-l", "--log-level", "--tlscacert",
    "--tlscert", "--tlskey"].map ascii
  flags := ["-D", "--debug", "--tls", "--tlsverify"].map ascii

/-- `startOptions`. -/
def startOptions : Options where
  values := ["--checkpoint", "--checkpoint-dir", "--detach-keys"].map ascii
  flags := ["-a", "--attach", "-i", "--interactive"].map ascii

/-- `stopOptions`. -/
def stopOptions : Options where
  values := ["-s", "--signal", "-t", "--timeout", "--time"].map ascii
  flags := []

/-- `runOptions`: the options of docker run and create that stand alone. -/
def runOptions : Options where
  values := []
  flags := ["-d", "--detach", "-i", "--interactive", "-t", "--tty", "--rm", "--init",
    "--privileged", "--read-only", "-P", "--publish-all", "-q", "--quiet"].map ascii

/-- `composeOptions`. -/
def composeOptions : Options where
  values := ["-f", "--file", "-p", "--project-name", "--project-directory", "--env-file",
    "--profile", "--ansi", "--progress", "--parallel"].map ascii
  flags := ["--dry-run", "--all-resources"].map ascii

/-- `composeStarts`: the compose commands that bring a project's containers up. -/
def composeStarts : List Bytes := ["up", "create", "start", "restart"].map ascii

/-- `runName`: the `--name` docker run or create gives its container, read only
while every option before it stands on its own. -/
def runName : List Bytes → List Bytes
  | [] => []
  | arg :: rest =>
      if (cut 61 arg).1 = ascii "--name" ∧ (cut 61 arg).2.2 = true then [(cut 61 arg).2.1]
      else if (cut 61 arg).1 = ascii "--name" ∧ rest ≠ [] then rest.take 1
      else if (ascii "--").isPrefixOf arg ∧ (cut 61 arg).2.2 = true then runName rest
      else if (ascii "-").isPrefixOf arg ∧ arg ≠ ascii "--" then
        if runOptions.operands false [arg] = none then [] else runName rest
      else []

/-! ## Compose -/

/-- What `docker compose config --format json` prints of a project: its name, and
the `container_name` of each of its services, empty where it has none. -/
structure Project where
  name : Bytes
  services : List (Bytes × Bytes)
  deriving DecidableEq, Repr

/-- The texts another program's output is read into. -/
structure Decoder where
  /-- `json.Unmarshal` into a string. -/
  text : Bytes → Option Bytes
  /-- `json.Unmarshal` into `project`. -/
  project : Bytes → Option Project

/-- A container compose makes for a service: its `container_name`, or
project-service-N without one. -/
def Project.brings (project : Project) (service container : Bytes) : Bool :=
  match project.services.lookup service with
  | none => false
  | some fixed =>
      if fixed ≠ [] then container == fixed
      else
        match cutPrefix container (project.name ++ ascii "-" ++ service ++ ascii "-") with
        | none => false
        | some index => index != [] && index.all fun byte => 48 ≤ byte ∧ byte ≤ 57

/-- The services a command brings up: those it names, where it names any. -/
def Project.started (project : Project) (args : List Bytes) : List Bytes :=
  let named := args.filter fun arg => (project.services.lookup arg).isSome
  if named = [] then project.services.map Prod.fst else named

/-- The command that prints a project as compose reads it with these options. -/
def configCommand (global : List Bytes) : Command where
  program := ascii "docker"
  args := [ascii "compose"] ++ global ++ ["config", "--format", "json"].map ascii

variable (decoder : Decoder)

/-- `composed`. -/
def composed (args : List Bytes) : Session (Bytes → Bool) :=
  match composeOptions.operands false args with
  | none | some [] => return fun _ => false
  | some (verb :: rest) =>
      let global := args.take (args.length - (rest.length + 1))
      if !composeStarts.contains verb || global.contains (ascii "--") then return fun _ => false
      else do
        let printed ← Dialogue.call (configCommand global)
        match decoder.project printed.text with
        | none => return fun _ => false
        | some project =>
            if printed.exit ≠ .ok ∨ project.name = [] then return fun _ => false
            else return fun container => (project.started rest).any (project.brings · container)

/-! ## Start commands -/

/-- `filepath.Base`. -/
def baseName (path : Bytes) : Bytes :=
  if path = [] then ascii "."
  else
    match path.rdropWhile (· == 47) with
    | [] => ascii "/"
    | stem => stem.rtakeWhile (· != 47)

/-- What a start command asks of docker, past docker's own options. -/
def dockerCommand : List Bytes → Option (List Bytes)
  | program :: arg :: args =>
      if baseName program = ascii "docker" then dockerOptions.operands false (arg :: args) else none
  | _ => none

/-- The containers an uncomposed docker command names. -/
def namedContainers (command : List Bytes) : Option (List Bytes) :=
  match if command.head? = some (ascii "container") then command.drop 1 else command with
  | [] => some []
  | verb :: args =>
      if verb = ascii "start" then startOptions.operands true args
      else if verb = ascii "stop" ∨ verb = ascii "restart" then stopOptions.operands true args
      else if verb = ascii "run" ∨ verb = ascii "create" then some (runName args)
      else some []

/-- `starter`: whether one start command runs docker on a container of the name given. -/
def starter (argv : List Bytes) : Session (Bytes → Bool) :=
  match dockerCommand argv with
  | none | some [] => return fun _ => false
  | some (verb :: args) =>
      if verb = ascii "compose" then composed decoder args
      else
        match namedContainers (verb :: args) with
        | none => return fun _ => false
        | some named => return fun container => named.contains container

/-! ## Where docker reads a name -/

/-- A start command names a container: as an operand of the command docker runs
on it, as the name it is given, or as compose names what it brings up, by what
docker printed of the project. -/
inductive Names (printed : List (Dialogue.Exchange Command fun _ => Output))
    (argv : List Bytes) (container : Bytes) : Prop where
  | direct (command named : List Bytes) (hdocker : dockerCommand argv = some command)
      (hnamed : namedContainers command = some named) (hmem : container ∈ named)
  | composed (args rest : List Bytes) (verb service : Bytes) (output : Output) (project : Project)
      (hdocker : dockerCommand argv = some (ascii "compose" :: args))
      (hoperands : composeOptions.operands false args = some (verb :: rest))
      (hverb : verb ∈ composeStarts)
      (hprinted : ⟨configCommand (args.take (args.length - (rest.length + 1))), output⟩ ∈ printed)
      (hexit : output.exit = .ok) (hproject : decoder.project output.text = some project)
      (hservice : service ∈ project.started rest) (hbrings : project.brings service container)

variable {decoder}

theorem Names.mono {printed later : List (Dialogue.Exchange Command fun _ => Output)}
    {argv : List Bytes} {container : Bytes} (h : Names decoder printed argv container)
    (hlater : printed ⊆ later) : Names decoder later argv container := by
  cases h with
  | direct command named hdocker hnamed hmem => exact .direct command named hdocker hnamed hmem
  | composed args rest verb service output project hdocker hoperands hverb hprinted hexit hproject
      hservice hbrings =>
      exact .composed args rest verb service output project hdocker hoperands hverb
        (hlater hprinted) hexit hproject hservice hbrings

/-- A command that only reads: it prints a project, and changes nothing. -/
def Command.readsProject (command : Command) : Prop := ∃ global, command = configCommand global

variable {σ : Type} {world : σ → Dialogue.Exchange Command (fun _ => Output) → σ → Prop} {state : σ}

/-- What a composed starter accepts, compose names. -/
theorem composed_names {argv args : List Bytes}
    (hdocker : dockerCommand argv = some (ascii "compose" :: args)) :
    Dialogue.Always world (composed decoder args) state fun exchanges starts _ =>
      (∀ exchange ∈ exchanges, exchange.1.readsProject) ∧
        ∀ container, starts container = true → Names decoder exchanges argv container := by
  unfold composed
  split
  · simp
  · simp
  · next verb rest hoperands =>
      dsimp only
      split
      · simp
      · next hverb =>
          simp only [Bool.or_eq_true, Bool.not_eq_true', not_or, Bool.not_eq_false,
            List.contains_iff_mem] at hverb
          rw [Dialogue.always_bind, Dialogue.always_call]
          intro output after _
          split
          · simpa using ⟨_, rfl⟩
          · next project hproject =>
              split
              · simpa using ⟨_, rfl⟩
              · next hread =>
                  rw [Dialogue.always_pure]
                  refine ⟨by simpa using ⟨_, rfl⟩, fun container hstarts => ?_⟩
                  obtain ⟨service, hservice, hbrings⟩ := List.any_eq_true.mp hstarts
                  push Not at hread
                  exact .composed args rest verb service output project hdocker hoperands hverb.1
                    (by simp) hread.1 hproject hservice hbrings

/-- What a starter accepts, its command names. -/
theorem starter_names (argv : List Bytes) :
    Dialogue.Always world (starter decoder argv) state fun exchanges starts _ =>
      (∀ exchange ∈ exchanges, exchange.1.readsProject) ∧
        ∀ container, starts container = true → Names decoder exchanges argv container := by
  unfold starter
  split
  · simp
  · simp
  · next verb args hdocker =>
      split
      · next hverb => exact composed_names (hverb ▸ hdocker)
      · split
        · simp
        · next named hnamed =>
            rw [Dialogue.always_pure]
            refine ⟨by simp, fun container hstarts => ?_⟩
            exact .direct _ named hdocker hnamed (List.contains_iff_mem.mp hstarts)

end SeverinoHQ.Host
