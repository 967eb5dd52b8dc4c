/-
# A run's outcome, over the mounts its container has

What docker lists of the container's mounts and is found to hold data is what a run
snapshots and puts back. So an outcome speaks of every mount listed.
-/

import SeverinoHQ.Host.Upgrade.Outcomes

namespace SeverinoHQ.Host.Upgrade

open SeverinoHQ.Math SeverinoHQ.Math.Dialogue
open SeverinoHQ.Math.Bytes (ascii)

variable {κ : Type} {resolve : Option File → Bytes} {mountpoint : Bytes → Bytes} {blank : κ}
  {host : Machine κ} {initial : Option File} {run : Run} {mounts : List Mount} {final : Machine κ}

/-! ## What is found of the mounts -/

/-- What was listed and looked at has come into a run's data. -/
structure Collects (exchanges : Exchanges) (listed : List InspectedMount)
    (before after : List Mount) : Prop where
  kept : before ⊆ after
  volumes : ∀ found ∈ listed, found.rw = true → found.type ≠ [] → found.type ≠ ascii "tmpfs" →
    found.type ≠ ascii "bind" → found.type = ascii "volume" ∧
      ∃ mount ∈ after, mount.kind = .volume ∧ mount.ref = found.name
  paths : ∀ source kind, kind ≠ .other → ⟨.stat source, kind⟩ ∈ exchanges →
    ∃ mount ∈ after, mount.kind ≠ .volume ∧ mount.ref = source

theorem Collects.skip {exchanges : Exchanges} {found : InspectedMount}
    {listed : List InspectedMount} {before after : List Mount}
    (h : Collects exchanges listed before after)
    (hskip : found.rw = true → found.type ≠ [] → found.type ≠ ascii "tmpfs" →
      found.type = ascii "bind") : Collects exchanges (found :: listed) before after where
  kept := h.kept
  volumes other hother hrw hempty htmpfs hbind := by
    rcases List.mem_cons.mp hother with rfl | hmem
    · exact absurd (hskip hrw hempty htmpfs) hbind
    · exact h.volumes other hmem hrw hempty htmpfs hbind
  paths := h.paths

/-- A look that found neither a file nor a directory, or none, adds nothing. -/
theorem Collects.look {exchange : Exchange Call Reply} {exchanges : Exchanges}
    {listed : List InspectedMount} {before after : List Mount}
    (h : Collects exchanges listed before after)
    (hlook : ∀ source kind, exchange = ⟨.stat source, kind⟩ → kind = .other) :
    Collects (exchange :: exchanges) listed before after where
  kept := h.kept
  volumes := h.volumes
  paths source kind hkind hmem := by
    rcases List.mem_cons.mp hmem with heq | hmem
    · exact absurd (hlook source kind heq.symm) hkind
    · exact h.paths source kind hkind hmem

/-- A volume that was added is one more mount listed. -/
theorem Collects.volume {exchanges : Exchanges} {found : InspectedMount}
    {listed : List InspectedMount} {before after : List Mount} {mount : Mount}
    (h : Collects exchanges listed (before ++ [mount]) after)
    (htype : found.type = ascii "volume") (hkind : mount.kind = .volume)
    (href : mount.ref = found.name) : Collects exchanges (found :: listed) before after where
  kept := (List.append_subset.mp h.kept).1
  volumes other hother hrw hempty htmpfs hbind := by
    rcases List.mem_cons.mp hother with rfl | hmem
    · have hadded := (List.append_subset.mp h.kept).2 (List.mem_singleton_self _)
      exact ⟨htype, mount, hadded, hkind, href⟩
    · exact h.volumes other hmem hrw hempty htmpfs hbind
  paths := h.paths

/-- A path that was looked at and added is one more look. -/
theorem Collects.path {exchange : Exchange Call Reply} {exchanges : Exchanges}
    {listed : List InspectedMount} {before after : List Mount} {mount : Mount}
    (h : Collects exchanges listed (before ++ [mount]) after)
    (hlook : ∀ source kind, exchange = ⟨.stat source, kind⟩ → mount.ref = source)
    (hkind : mount.kind ≠ .volume) : Collects (exchange :: exchanges) listed before after where
  kept := (List.append_subset.mp h.kept).1
  volumes := h.volumes
  paths source kind hother hmem := by
    rcases List.mem_cons.mp hmem with heq | hmem
    · have hadded := (List.append_subset.mp h.kept).2 (List.mem_singleton_self _)
      exact ⟨mount, hadded, hkind, hlook source kind heq.symm⟩
    · exact h.paths source kind hother hmem

namespace Run

/-- A run that has read its data: nothing else of it is new, and the mounts are
numbered in order. -/
def HasRead (run next : Run) : Prop :=
  next = { run with data := next.data, steps := next.steps } ∧
    next.data.map Mount.index = List.range next.data.length

theorem HasRead.adding {next : Run} (kind : MountKind) (ref mounted : Bytes)
    (h : HasRead run next) : HasRead run (next.adding kind ref mounted) := by
  refine ⟨?_, ?_⟩
  · rw [Run.adding, h.1]
  · simp [Run.adding, h.2, List.range_succ]

theorem HasRead.step {next : Run} {name : String} {ok : Bool} {detail : Bytes}
    (h : HasRead run next) : HasRead run (next.step name ok detail) := by
  refine ⟨?_, h.2⟩
  rw [Run.step, h.1]

theorem readMounts_spec {σ : Type} {world : σ → Exchange Call Reply → σ → Prop} {state : σ}
    {next : Run} (h : HasRead run next) (mounts : List InspectedMount) :
    Always world (next.readMounts mounts) state fun exchanges read _ =>
      HasRead run read.2 ∧ (read.1 = true → Collects exchanges mounts next.data read.2.data) := by
  induction mounts generalizing next state with
  | nil =>
      exact always_pure.mpr ⟨h, fun _ => ⟨List.Subset.refl _, by simp, by simp⟩⟩
  | cons found mounts ih =>
      have hrefused : ∀ (first : Exchanges) {reached : σ} {detail : Bytes}, Always world
          (pure (false, next.step "check" false detail) : Session (Bool × Run)) reached
          fun exchanges read _ => HasRead run read.2 ∧ (read.1 = true →
            Collects (first ++ exchanges) (found :: mounts) next.data read.2.data) :=
        fun _ _ _ => always_pure.mpr ⟨h.step, nofun⟩
      unfold readMounts
      dsimp only
      split
      · next hskip =>
          refine (ih h).mono fun exchanges read _ hread => ⟨hread.1, fun hok => ?_⟩
          refine (hread.2 hok).skip fun hrw hempty htmpfs => ?_
          simp [hrw, hempty, htmpfs] at hskip
      · split
        · exact hrefused []
        · split
          · next hvolume =>
              split
              · exact hrefused []
              · refine (ih (h.adding .volume found.name found.destination)).mono ?_
                rintro exchanges read _ ⟨hread, hcollects⟩
                exact ⟨hread, fun hok => (hcollects hok).volume hvolume rfl rfl⟩
          · split
            · next hbind =>
                split
                · exact hrefused []
                · rw [always_bind, always_call]
                  intro unmoved _ _
                  split
                  · exact hrefused [_]
                  · rw [always_bind, always_call]
                    intro kind _ _
                    split
                    · next hother =>
                        refine (ih h).mono fun exchanges read _ hread => ⟨hread.1, fun hok => ?_⟩
                        refine (((hread.2 hok).skip fun _ _ _ => hbind).look ?_).look (by simp)
                        rintro source found heq
                        cases heq
                        exact hother
                    · split
                      · exact hrefused [_, _]
                      · split
                        · exact hrefused [_, _]
                        · refine (ih (h.adding _ found.source found.destination)).mono ?_
                          rintro exchanges read _ ⟨hread, hcollects⟩
                          refine ⟨hread, fun hok =>
                            (((hcollects hok).path ?_ ?_).skip fun _ _ _ => hbind).look (by simp)⟩
                          · rintro source seen heq
                            cases heq
                            rfl
                          · dsimp only
                            split <;> simp
            · exact hrefused []

end Run

/-- Where an inspected mount's data is. -/
def InspectedMount.place (mountpoint : Bytes → Bytes) (found : InspectedMount) : Bytes :=
  if found.type = ascii "volume" then mountpoint found.name else found.source

/-- A mount that holds data the service writes: no file system in memory, and where it
is a path, one found to be a file or a directory. -/
def InspectedMount.HoldsData (found : InspectedMount) (exchanges : Exchanges) : Prop :=
  found.rw = true ∧ found.type ≠ [] ∧ found.type ≠ ascii "tmpfs" ∧
    (found.type = ascii "bind" →
      ∃ kind, kind ≠ .other ∧ ⟨.stat found.source, kind⟩ ∈ exchanges)

/-- The service was last recreated on what a snapshot of the mount holds. -/
def InspectedMount.Restored (found : InspectedMount) (mountpoint : Bytes → Bytes)
    (final : Machine κ) : Prop :=
  ∃ data index copy, final.recreated = some data ∧ final.snapshots index = some copy ∧
    copy.place = found.place mountpoint ∧ data (found.place mountpoint) = copy.contents

/-- Every mount the container was found to hold data in is restored. -/
def DataBack (mountpoint : Bytes → Bytes) (exchanges : Exchanges) (final : Machine κ) : Prop :=
  ∀ container listed, ⟨.inspectMounts container, some listed⟩ ∈ exchanges →
    ∀ found ∈ listed, found.HoldsData exchanges → found.Restored mountpoint final

/-- A container was inspected, and its data is back if the service halts. -/
def BackIfHalted (mountpoint : Bytes → Bytes) (exchanges : Exchanges) (final : Machine κ) : Prop :=
  (∃ container listed, ⟨.inspectMounts container, some listed⟩ ∈ exchanges) ∧
    (Halts False exchanges → DataBack mountpoint exchanges final)

/-- Calls that ask nothing of the mounts change nothing of what was found of them. -/
theorem mem_of_inspects {first middle last : Exchanges} {exchange : Exchange Call Reply}
    (hfirst : ∀ exchange ∈ first, exchange.1.inspects = false)
    (hlast : ∀ exchange ∈ last, exchange.1.inspects = false)
    (hinspects : exchange.1.inspects = true) (h : exchange ∈ first ++ middle ++ last) :
    exchange ∈ middle := by
  rcases List.mem_append.mp h with h | h
  · rcases List.mem_append.mp h with h | h
    · exact absurd (hfirst exchange h) (by simp [hinspects])
    · exact h
  · exact absurd (hlast exchange h) (by simp [hinspects])

theorem BackIfHalted.after {first second : Exchanges}
    (hfirst : ∀ exchange ∈ first, exchange.1.isCalm = true)
    (h : BackIfHalted mountpoint second final) :
    BackIfHalted mountpoint (first ++ second) final := by
  have hasked : ∀ exchange ∈ first, exchange.1.inspects = false := by
    rintro ⟨call, reply⟩ hmem
    have hcalm := hfirst _ hmem
    cases call with
    | inspectMounts | stat => exact absurd hcalm (by simp [Call.isCalm])
    | _ => rfl
  have hmem : ∀ {exchange : Exchange Call Reply}, exchange.1.inspects = true →
      exchange ∈ first ++ second → exchange ∈ second := fun hinspects hexchange =>
    mem_of_inspects hasked (fun _ hnone => absurd hnone List.not_mem_nil) hinspects
      (by simpa using hexchange)
  obtain ⟨⟨container, listed, hlisted⟩, hback⟩ := h
  refine ⟨⟨container, listed, List.mem_append_right _ hlisted⟩, fun hhalts => ?_⟩
  rintro container listed hlisted found hfound ⟨hrw, hempty, htmpfs, hbind⟩
  refine hback hhalts.of_append container listed (hmem rfl hlisted) found hfound
    ⟨hrw, hempty, htmpfs, fun htype => ?_⟩
  obtain ⟨kind, hkind, hstat⟩ := hbind htype
  exact ⟨kind, hkind, hmem rfl hstat⟩

/-- The mounts collected are those that hold data. -/
theorem Collects.exists_mount {container : Bytes} {listed : List InspectedMount}
    {exchanges : Exchanges} {found : InspectedMount}
    (h : Collects exchanges listed [] mounts) (hfound : found ∈ listed)
    (hholds : found.HoldsData (⟨.inspectMounts container, some listed⟩ :: exchanges)) :
    ∃ mount ∈ mounts, mount.place mountpoint = found.place mountpoint := by
  obtain ⟨hrw, hempty, htmpfs, hpath⟩ := hholds
  by_cases hbind : found.type = ascii "bind"
  · obtain ⟨kind, hkind, hstat⟩ := hpath hbind
    obtain ⟨mount, hmount, hnot, href⟩ := h.paths _ kind hkind (by simpa using hstat)
    refine ⟨mount, hmount, ?_⟩
    have hvolume : found.type ≠ ascii "volume" := by
      rw [hbind]
      decide
    rw [InspectedMount.place, if_neg hvolume, ← href]
    unfold Mount.place
    split
    · next hkind => exact absurd hkind hnot
    · rfl
    · rfl
  · obtain ⟨hvolume, mount, hmount, hkind, href⟩ :=
      h.volumes found hfound hrw hempty htmpfs hbind
    refine ⟨mount, hmount, ?_⟩
    rw [InspectedMount.place, if_pos hvolume, Mount.place, hkind, href]

/-- What a roll back leaves of the mounts it read, it leaves of those inspected. -/
theorem BackIfHalted.of_rolled {container : Bytes} {listed : List InspectedMount}
    {reading second : Exchanges} (hlooks : ∀ exchange ∈ reading, exchange.1.looks = true)
    (hcollects : Collects reading listed [] mounts)
    (hasked : ∀ exchange ∈ second, exchange.1.inspects = false)
    (h : Rolled mountpoint False mounts second final) :
    BackIfHalted mountpoint (⟨.inspectMounts container, some listed⟩ :: reading ++ second) final := by
  refine ⟨⟨container, listed, by simp⟩, fun hhalts => ?_⟩
  obtain ⟨data, hdata, hmounts⟩ := h hhalts.of_append
  rintro other others hothers found hfound ⟨hrw, hempty, htmpfs, hpath⟩
  have hmem : ∀ {exchange : Exchange Call Reply}, exchange.1.inspects = true →
      exchange ∈ ⟨.inspectMounts container, some listed⟩ :: reading ++ second →
        exchange ∈ (⟨.inspectMounts container, some listed⟩ :: reading : Exchanges) :=
    fun hinspects hexchange =>
      mem_of_inspects (fun _ hnone => absurd hnone List.not_mem_nil) hasked hinspects hexchange
  obtain rfl : others = listed := by
    rcases List.mem_cons.mp (hmem rfl hothers) with heq | hlooked
    · cases heq
      rfl
    · exact absurd (hlooks _ hlooked) (by simp [Call.looks])
  have hholds : found.HoldsData (⟨.inspectMounts container, some others⟩ :: reading) := by
    refine ⟨hrw, hempty, htmpfs, fun htype => ?_⟩
    obtain ⟨kind, hkind, hstat⟩ := hpath htype
    exact ⟨kind, hkind, hmem rfl hstat⟩
  obtain ⟨mount, hmount, hplace⟩ := hcollects.exists_mount hfound hholds
  refine ⟨data, mount.index, _, hdata, hmounts mount hmount, hplace, ?_⟩
  rw [← hplace]

namespace Run

theorem readData_spec {σ : Type} {world : σ → Exchange Call Reply → σ → Prop} {state : σ}
    (hdata : run.data = []) (container : Bytes) :
    Always world (run.readData container) state fun exchanges read _ =>
      HasRead run read.2 ∧ (read.1 = true → ∃ listed reading,
        exchanges = ⟨.inspectMounts container, some listed⟩ :: reading ∧
          (∀ exchange ∈ reading, exchange.1.looks = true) ∧
          Collects reading listed [] read.2.data) := by
  have hread : HasRead run run := ⟨rfl, by simp [hdata]⟩
  unfold readData
  rw [always_bind, always_call]
  intro inspected _ _
  split
  · exact always_pure.mpr ⟨hread.step, nofun⟩
  · next listed _ =>
      refine ((run.readMounts_looks listed).exchanges.and (readMounts_spec hread listed)).mono ?_
      rintro reading read _ ⟨hlooks, hread, hcollects⟩
      exact ⟨hread, fun hok => ⟨listed, reading, rfl, hlooks, hdata ▸ hcollects hok⟩⟩

/-- A run as it begins: nothing read or stopped, an override where there is one, an
empty state directory, and an image to move to. -/
structure Begins (run : Run) (host : Machine κ) : Prop where
  phase : run.phase = .checking
  data : run.data = []
  present : run.override = host.override.isSome
  before : host.before = none
  target : run.request.toImage ≠ []

theorem Begins.checking (h : Begins run host) : Checking host.override run host where
  phase_eq := h.phase
  phase_ne := by simp
  override := rfl
  before := h.before
  present := h.present
  nodup := by simp [h.data]
  target := h.target

theorem HasRead.checking {next : Run} (hread : HasRead run next) (h : Checking initial run host) :
    next.goal = run.goal ∧ Checking initial next host := by
  have hnodup : (next.data.map Mount.index).Nodup := hread.2 ▸ List.nodup_range
  refine ⟨?_, ?_, h.phase_ne, h.override, h.before, ?_, hnodup, ?_⟩
  · rw [hread.1]
    rfl
  · rw [hread.1]
    exact h.phase_eq
  · rw [hread.1]
    exact h.present
  · rw [hread.1]
    exact h.target

end Run

/-! ## A run that rolls back -/

/-- The image compose resolves: the pinned one where the override ends in the pin. -/
def samplePin : Option File → Bytes
  | some file =>
      if (ascii "image: web:2\n").isSuffixOf file.bytes then ascii "web:2" else ascii "web:1"
  | none => ascii "web:1"

/-- An error where there is no file to act on. -/
def missing {α : Type} (file : Option α) : Option FileError :=
  if file.isSome then none else some ⟨false, false, []⟩

/-- What is read of a file that is there. -/
def readOf {α : Type} (file : Option File) (field : File → α) : Except FileError α :=
  match file with
  | none => .error ⟨false, false, []⟩
  | some file => .ok (field file)

/-- Where docker keeps the service's volume, and the trial's. -/
def sampleMountpoint (name : Bytes) : Bytes :=
  if name = ascii "data" then ascii "/v" else ascii "/t"

/-- A host whose service has one volume, and whose new container does not stay up. -/
def failingHost (host : Machine Nat) : (call : Call) → Reply call × Machine Nat
  | .config files => (some (samplePin (host.given files.override)), host)
  | .ps _ => (some (ascii "web"), host)
  | .stop _ => (true, { host with running := false })
  | .start _ => (true, { host with running := true })
  | .up _ => (true, { host with running := true, recreated := some host.data })
  | .inspectImage _ => (ascii "web:1", host)
  | .inspectMounts _ =>
      (some [⟨ascii "volume", ascii "data", ascii "/v", ascii "/data", true⟩], host)
  | .inspectState container =>
      (some (if container = ascii "web" then ascii "exited none" else ascii "running none"), host)
  | .volumeInspect name => (some (sampleMountpoint name), host)
  | .stat _ => (.directory, host)
  | .readOverride => (readOf host.override File.bytes, host)
  | .statOverride => (readOf host.override File.mode, host)
  | .lstatOwner _ => (readOf host.override File.owner, host)
  | .writePinned body mode => (none, { host with pinnedCopy := some ⟨body, ⟨0, 0⟩, mode⟩ })
  | .chmodPinned mode =>
      (none, { host with pinnedCopy := host.pinnedCopy.map fun file => { file with mode := mode } })
  | .copyToPart mount source | .tarToPart mount source =>
      (none, host.writePart mount (some ⟨source, host.data source⟩))
  | .keepSnapshot mount =>
      (missing (host.parts mount.index), if (host.parts mount.index).isSome then
        { host.writePart mount none with
          snapshots := Function.update host.snapshots mount.index (host.parts mount.index) }
        else host)
  | .copyBefore => (missing host.override, { host with before := host.override })
  | .copyStaged owner =>
      (missing host.pinnedCopy, { host with
        staged := host.pinnedCopy.map fun file => { file with owner := owner } })
  | .renameStaged =>
      (missing host.staged, if host.staged.isSome then
        { host with override := host.staged, staged := none } else host)
  | .presentBefore => (host.before.isSome, host)
  | .copyRestored => (missing host.before, { host with restoring := host.before })
  | .renameRestored =>
      (missing host.restoring, if host.restoring.isSome then
        { host with override := host.restoring, restoring := none } else host)
  | .removeOverride => (.ok host.override.isSome, { host with override := none })
  | .copyBack mount target | .tarBack mount target =>
      (missing (host.snapshots mount.index),
        host.write target (((host.snapshots mount.index).map Copy.contents).getD 0))
  | .empty _ target => (none, host.write target 0)
  | .tarForTrial _ target => (none, host.write target 7)
  | .removePart mount => (none, host.writePart mount none)
  | .removeStaged => (none, { host with staged := none })
  | .interrupted => (false, host)
  | .now => (0, host)
  | .runTrial _ | .pull _ | .removeContainer _ | .volumeCreate _ | .volumeRemove _ | .unmoved _
  | .sleep _ => (true, host)
  | .writeTrial | .copyForTrial _ | .syncDir | .writeExit _ | .writeResult _ _ => (none, host)

theorem missing_eq_none {α : Type} {file : Option α} : missing file = none ↔ file.isSome = true := by
  cases file with
  | none => simp [missing]
  | some found => simp [missing]

/-- A rename that is done where there is a file to rename. -/
theorem renames {α β : Type} {file : Option α} {done same : β} :
    (missing file ≠ none → (if file.isSome then done else same) = same) ∧
      (missing file = none → file.isSome ∧ (if file.isSome then done else same) = done) := by
  rw [Ne, missing_eq_none]
  exact ⟨fun habsent => if_neg habsent, fun hpresent => ⟨hpresent, if_pos hpresent⟩⟩

theorem readOf_eq_ok {α : Type} {file : Option File} {field : File → α} {read : α}
    (h : readOf file field = .ok read) : ∃ found, file = some found ∧ read = field found := by
  cases file with
  | none => exact absurd h (by simp [readOf])
  | some found => exact ⟨found, rfl, (Except.ok.inj h).symm⟩

theorem failingHost_world (host : Machine Nat) (call : Call) :
    World samplePin sampleMountpoint 0 host ⟨call, (failingHost host call).1⟩ (failingHost host call).2 := by
  refine ⟨host, ⟨rfl, fun _ => rfl⟩, ?_⟩
  cases call with
  | config => exact ⟨rfl, fun image himage => (Option.some.inj himage).symm⟩
  | stop => exact ⟨false, rfl, nofun⟩
  | start => exact ⟨true, rfl, fun _ => rfl⟩
  | up => exact ⟨true, rfl, fun _ => rfl⟩
  | volumeInspect name =>
      refine ⟨rfl, fun printed hprinted => ?_⟩
      obtain rfl := Option.some.inj hprinted
      unfold sampleMountpoint
      split <;> decide
  | readOverride | statOverride => exact ⟨rfl, fun _ hread => readOf_eq_ok hread⟩
  | lstatOwner => exact ⟨rfl, fun _ _ hread => readOf_eq_ok hread⟩
  | writePinned => exact ⟨_, rfl, fun _ => ⟨_, rfl⟩⟩
  | chmodPinned | copyToPart | tarToPart => exact ⟨_, rfl, fun _ => rfl⟩
  | keepSnapshot mount =>
      refine ⟨renames.1, fun hmissing => ?_⟩
      obtain ⟨contents, hcontents⟩ := Option.isSome_iff_exists.mp (missing_eq_none.mp hmissing)
      refine ⟨contents, hcontents, (renames.2 hmissing).2.trans ?_⟩
      rw [hcontents]
  | copyBefore | copyRestored => exact ⟨_, rfl, fun hmissing => ⟨rfl, missing_eq_none.mp hmissing⟩⟩
  | copyStaged owner =>
      refine ⟨_, rfl, fun hmissing => ?_⟩
      obtain ⟨file, hfile⟩ := Option.isSome_iff_exists.mp (missing_eq_none.mp hmissing)
      exact ⟨file, hfile, by rw [hfile]; rfl⟩
  | renameStaged | renameRestored => exact renames
  | copyBack mount | tarBack mount =>
      refine ⟨_, rfl, fun hmissing => ?_⟩
      obtain ⟨copy, hcopy⟩ := Option.isSome_iff_exists.mp (missing_eq_none.mp hmissing)
      simp [hcopy]
  | empty => exact ⟨0, rfl, fun _ => rfl⟩
  | tarForTrial => exact ⟨7, rfl⟩
  | removePart mount => exact ⟨none, rfl⟩
  | removeStaged => exact ⟨none, rfl⟩
  | presentBefore => exact ⟨rfl, rfl⟩
  | removeOverride => exact ⟨nofun, fun present hpresent => ⟨(Except.ok.inj hpresent).symm, rfl⟩⟩
  | _ => rfl

/-- The service as it runs before the upgrade, and the upgrade asked for. -/
def sampleHost : Machine Nat where
  override := some ⟨ascii "services:\n  web:\n    tty: 1", ⟨1000, 1000⟩, 0o640⟩
  staged := none
  restoring := none
  before := none
  pinnedCopy := none
  data _ := 7
  parts _ := none
  snapshots _ := none
  running := true
  recreated := none

def sampleRun : Run where
  request := ⟨ascii "op-1", ascii "/srv/web", ascii "web", ascii "web:1", ascii "web:2", [], 60⟩
  settle := 0
  poll := 1
  dir := ascii "/srv/web"
  trial := ascii "trial"
  override := true
  trialFile := false
  data := []
  steps := []
  phase := .checking

theorem sampleRun_begins : Run.Begins sampleRun sampleHost :=
  ⟨rfl, rfl, rfl, rfl, by decide⟩

/-- What the sample upgrade comes to on a host. -/
def sampleEnd (machine : Machine Nat → (call : Call) → Reply call × Machine Nat) :
    Exchanges × Report × Machine Nat :=
  (sampleRun.execute 3 (ascii "compose.override.yaml")).runWith machine sampleHost

/-- Every stop was done. -/
def stopsDone (exchanges : Exchanges) : Bool :=
  exchanges.all fun exchange =>
    match exchange with
    | ⟨.stop _, stopped⟩ => stopped
    | _ => true

theorem halts_of_stopsDone {exchanges : Exchanges} (h : stopsDone exchanges = true) :
    Halts False exchanges := by
  rintro earlier files stopped later rfl -
  exact List.all_eq_true.mp h ⟨.stop files, stopped⟩ (by simp)

/-- The same host, where the recreated service does not stop, and goes on writing. -/
def stubbornHost (host : Machine Nat) : (call : Call) → Reply call × Machine Nat
  | .stop files => if host.recreated.isSome then (false, host) else failingHost host (.stop files)
  | .up files => failingHost (if host.running then host.write (ascii "/v") 9 else host) (.up files)
  | call => failingHost host call

theorem stubbornHost_world (host : Machine Nat) (call : Call) :
    World samplePin sampleMountpoint 0 host ⟨call, (stubbornHost host call).1⟩
      (stubbornHost host call).2 := by
  cases call with
  | stop files =>
      unfold stubbornHost
      split
      · exact ⟨host, ⟨rfl, fun _ => rfl⟩, host.running, rfl, fun hrunning => ⟨hrunning, rfl⟩⟩
      · exact failingHost_world host (.stop files)
  | up files =>
      unfold stubbornHost
      dsimp only
      split
      · next hrunning =>
          refine ⟨host.write (ascii "/v") 9, ⟨rfl, fun hstopped => ?_⟩, true, rfl, fun _ => rfl⟩
          exact absurd hstopped (by simp [hrunning])
      · exact failingHost_world host (.up files)
  | _ => exact failingHost_world host _

end SeverinoHQ.Host.Upgrade
