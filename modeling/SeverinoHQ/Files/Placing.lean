/-
# How a write ended

A write reports an error both where its file was never put in place and where it was
put in place and its directory could not be synced. What stands at the destination
follows from which of the two it was, and from nothing else.
-/

import SeverinoHQ.Files.Atomicfile

namespace SeverinoHQ.Atomicfile

open SeverinoHQ.Math Dialogue

/-! ## Three ways -/

/-- The file was not put in place; it was, and the directory could not be synced; or
all of it was done. -/
inductive Way
  | unplaced
  | unsynced
  | installed
  deriving DecidableEq, Repr

/-- A file put at its destination. -/
def placing : Exchange Call Reply → Bool
  | ⟨.rename _ _, none⟩ => true
  | ⟨.link _ _, none⟩ => true
  | _ => false

/-- A directory that could not be synced. -/
def unsyncing : Exchange Call Reply → Bool
  | ⟨.openDir _, some _⟩ => true
  | ⟨.syncDir _, some _⟩ => true
  | _ => false

/-- How the write of these exchanges ended. -/
def way (exchanges : List (Exchange Call Reply)) : Way :=
  if exchanges.any placing then if exchanges.any unsyncing then .unsynced else .installed
  else .unplaced

/-- An exchange that neither places a file nor fails to sync a directory. -/
def quiet (exchange : Exchange Call Reply) : Bool := !placing exchange && !unsyncing exchange

theorem way_append {first second : List (Exchange Call Reply)} (h : first.all quiet) :
    way (first ++ second) = way second := by
  have hplacing : first.any placing = false := by
    rw [List.any_eq_false]
    intro exchange hmem
    have hquiet := List.all_eq_true.mp h exchange hmem
    simp only [quiet, Bool.and_eq_true, Bool.not_eq_true'] at hquiet
    simp [hquiet.1]
  have hunsyncing : first.any unsyncing = false := by
    rw [List.any_eq_false]
    intro exchange hmem
    have hquiet := List.all_eq_true.mp h exchange hmem
    simp only [quiet, Bool.and_eq_true, Bool.not_eq_true'] at hquiet
    simp [hquiet.2]
  simp only [way, List.any_append, hplacing, hunsyncing, Bool.false_or]

theorem way_of_quiet {exchanges : List (Exchange Call Reply)} (h : exchanges.all quiet) :
    way exchanges = .unplaced := by
  rw [← List.append_nil exchanges, way_append h]
  rfl

/-! ## What is written beside a destination -/

/-- A call that works on a destination's temporary files alone. -/
def Aside (target : Place) : Call → Prop
  | .random => True
  | .create temp | .chmod temp _ | .chown temp _ _ | .write temp _ | .sync temp | .close temp
  | .remove temp => ∃ text, temp = temporary target text
  | _ => False

/-- A place that is no temporary file of a destination's. -/
def Apart (target place : Place) : Prop := ∀ text, place ≠ temporary target text

theorem apart_self (target : Place) : Apart target target := by
  intro text hsame
  have hname : target.name.length = (temporary target text).name.length := congrArg _ (congrArg _ hsame)
  simp only [temporary, String.length_append] at hname
  have hdot : ".".length = 1 := rfl
  omega

variable {uid gid : Nat} {before after : Files} {target place : Place} {node : Node}

theorem Aside.quiet {exchange : Exchange Call Reply} (h : Aside target exchange.1) :
    quiet exchange := by
  obtain ⟨call, reply⟩ := exchange
  cases call <;> first | rfl | exact h.elim

theorem Aside.others {exchange : Exchange Call Reply} (h : Aside target exchange.1)
    (hstep : Step uid gid before exchange after) (hplace : Apart target place) :
    after place = before place := by
  obtain ⟨call, reply⟩ := exchange
  have hchange : ∀ {temp : Place} (made : Node → Node), (∃ text, temp = temporary target text) →
      before.change temp made place = before place := by
    rintro temp made ⟨text, rfl⟩
    exact Function.update_of_ne (hplace text) _ _
  cases call with
  | random => exact congrFun hstep place
  | create temp =>
      cases reply with
      | none =>
          obtain ⟨text, rfl⟩ := h
          obtain ⟨-, rfl⟩ := hstep
          exact Function.update_of_ne (hplace text) _ _
      | some problem => exact congrFun hstep place
  | chmod temp mode =>
      cases reply with
      | none =>
          obtain rfl := hstep
          exact hchange _ h
      | some problem =>
          rcases hstep with rfl | rfl
          · rfl
          · exact hchange _ h
  | chown temp uid gid =>
      cases reply with
      | none =>
          obtain rfl := hstep
          exact hchange _ h
      | some problem =>
          rcases hstep with rfl | rfl
          · rfl
          · exact hchange _ h
  | write temp data =>
      cases reply with
      | none =>
          obtain rfl := hstep
          exact hchange _ h
      | some problem =>
          obtain ⟨part, -, rfl⟩ := hstep
          exact hchange _ h
  | sync temp => exact congrFun hstep place
  | close temp => exact congrFun hstep place
  | remove temp =>
      cases reply with
      | none =>
          obtain ⟨text, rfl⟩ := h
          obtain rfl := hstep
          exact Function.update_of_ne (hplace text) _ _
      | some problem => exact congrFun hstep place
  | rename | link | openDir | syncDir => exact h.elim

/-- A program that works aside places nothing, and leaves everything else as it is. -/
theorem Aside.always {α : Type} {program : Program α} (h : program.Only (Aside target)) :
    Always (Step uid gid) program before fun exchanges _ after =>
      exchanges.all Atomicfile.quiet ∧ ∀ place, Apart target place → after place = before place := by
  apply Always.and
  · refine (h.exchanges).mono fun exchanges result final hall => ?_
    exact List.all_eq_true.mpr fun exchange hmem => (hall exchange hmem).quiet
  · apply h.keeps
    · intro files place _
      rfl
    · intro first second third hfirst hsecond place hplace
      rw [hsecond place hplace, hfirst place hplace]
    · intro before exchange after hcall hstep place hplace
      exact hcall.others hstep hplace

/-! ## What a write did -/

/-- What a write that was to leave `node` at its destination did. -/
structure Written (target : Place) (node : Node) (before : Files)
    (exchanges : List (Exchange Call Reply)) (problem : Option String) (after : Files) : Prop where
  answer : problem = none ↔ way exchanges = .installed
  content : after target = if way exchanges = .unplaced then before target else some node
  others : ∀ place, place ≠ target → Apart target place → after place = before place

/-- A write that stopped aside put nothing in place. -/
theorem Written.of_aside {exchanges : List (Exchange Call Reply)} {problem : String}
    (h : exchanges.all quiet ∧ ∀ place, Apart target place → after place = before place) :
    Written target node before exchanges (some problem) after where
  answer := by simp [way_of_quiet h.1]
  content := by rw [way_of_quiet h.1, if_pos rfl, h.2 target (apart_self target)]
  others place _ hplace := h.2 place hplace

/-- A write goes on from what was made ready aside. -/
theorem Written.of_quiet {between : Files} {first second : List (Exchange Call Reply)}
    {problem : Option String} (hquiet : first.all quiet)
    (hsame : ∀ place, Apart target place → between place = before place)
    (h : Written target node between second problem after) :
    Written target node before (first ++ second) problem after where
  answer := by rw [way_append hquiet, h.answer]
  content := by rw [way_append hquiet, h.content, hsame target (apart_self target)]
  others place hne hplace := (h.others place hne hplace).trans (hsame place hplace)

/-- A write that fails and clears up aside put nothing in place. -/
theorem stopped_written {α : Type} {cleanup : Program α} {problem : String}
    (hcleanup : cleanup.Only (Aside target)) :
    Always (Step uid gid) (cleanup >>= fun _ => pure (some problem)) before
      (Written target node before) := by
  rw [always_bind]
  refine (Aside.always hcleanup).mono fun exchanges _ after h => ?_
  rw [always_pure, List.append_nil]
  exact Written.of_aside h

/-- What one call made ready aside, the rest of a write goes on from. -/
theorem written_call {call : Call} {next : Reply call → Program (Option String)}
    (haside : Aside target call)
    (hnext : ∀ reply between, Step uid gid before ⟨call, reply⟩ between →
      Always (Step uid gid) (next reply) between (Written target node between)) :
    Always (Step uid gid) (ask call >>= next) before (Written target node before) := by
  rw [always_bind, always_call]
  intro reply between hstep
  refine (hnext reply between hstep).mono fun second problem after hwritten => ?_
  have hcall : Aside target (Sigma.fst (⟨call, reply⟩ : Exchange Call Reply)) := haside
  apply hwritten.of_quiet
  · simpa using hcall.quiet
  · exact fun place hplace => hcall.others hstep hplace

theorem remove_aside {file : File} {text : String} (htemp : file.temp = temporary file.target text) :
    (ask (.remove file.temp)).Only (Aside file.target) := by
  rw [only_call]
  exact ⟨text, htemp⟩

theorem discard_aside {file : File} {text : String} (htemp : file.temp = temporary file.target text) :
    (discard file).Only (Aside file.target) := by
  apply Only.bind
  · rw [only_call]
    exact ⟨text, htemp⟩
  · exact fun _ => Only.bind (remove_aside htemp) fun _ => only_pure _

/-- The names made durable: only the answer says whether they are. -/
theorem syncDir_always {dir : String} :
    Always (Step uid gid) (syncDir dir) before fun exchanges problem after =>
      after = before ∧ exchanges.any placing = false ∧
        (problem = none ↔ exchanges.any unsyncing = false) := by
  unfold syncDir
  rw [always_bind, always_call]
  rintro opened _ rfl
  cases opened with
  | some problem =>
      rw [always_pure]
      simp [placing, unsyncing]
  | none =>
      rw [always_call]
      rintro synced _ rfl
      cases synced <;> simp [placing, unsyncing]

/-- A file put in place: its node moves from the temporary name to the destination. -/
theorem replace_written {file : File} {text : String}
    (htemp : file.temp = temporary file.target text) (hnode : before file.temp = some node) :
    Always (Step uid gid) (replace file) before (Written file.target node before) := by
  have hsync : Aside file.target (.sync file.temp) := ⟨text, htemp⟩
  have hclose : Aside file.target (.close file.temp) := ⟨text, htemp⟩
  unfold replace commit
  apply written_call hsync
  rintro synced _ rfl
  cases synced with
  | some problem => exact stopped_written (discard_aside htemp)
  | none =>
      apply written_call hclose
      rintro closed _ rfl
      cases closed with
      | some problem => exact stopped_written (remove_aside htemp)
      | none =>
          rw [always_bind, always_call]
          intro placed after hplaced
          cases placed with
          | some problem =>
              obtain rfl := hplaced
              have hstopped : Always (Step uid gid)
                  (ask (.remove file.temp) >>= fun _ => pure (some problem)) after
                  (Written file.target node after) := stopped_written (remove_aside htemp)
              exact hstopped.mono fun second problem after h => h.of_quiet rfl fun _ _ => rfl
          | none =>
              obtain rfl := hplaced
              refine syncDir_always.mono ?_
              rintro second problem _ ⟨rfl, hplacing, hanswer⟩
              have hway : way ([⟨.rename file.temp file.target, none⟩] ++ second) =
                  if second.any unsyncing then .unsynced else .installed := by
                simp only [way, List.any_append, placing, unsyncing, List.any_cons, List.any_nil,
                  Bool.or_false, Bool.true_or, Bool.false_or, if_true]
              refine ⟨?_, ?_, ?_⟩
              · rw [hway, hanswer]
                split <;> simp_all
              · rw [hway, Function.update_self, hnode]
                split <;> simp
              · intro place hne hplace
                rw [Function.update_of_ne hne, Function.update_of_ne (htemp ▸ hplace text)]

/-- The bytes written to a new file, and the file put in place. -/
theorem write_written {file : File} {data : Bytes} {text : String}
    (htemp : file.temp = temporary file.target text) (hnode : before file.temp = some node)
    (hempty : node.data = []) :
    Always (Step uid gid) (write file data) before
      (Written file.target { node with data } before) := by
  have hwrite : Aside file.target (.write file.temp data) := ⟨text, htemp⟩
  unfold write
  apply written_call hwrite
  intro written between hstep
  cases written with
  | some problem => exact stopped_written (discard_aside htemp)
  | none =>
      obtain rfl := hstep
      apply replace_written htemp
      simp [Files.change, hnode, hempty]

/-- A new file for a destination, or nothing but what is aside. -/
theorem create_aside {mode : Nat} : (create target mode).Only (Aside target) := by
  unfold create
  apply Only.bind
  · rw [only_call]
    trivial
  · intro text
    have haside : ∃ other, temporary target text = temporary target other := ⟨text, rfl⟩
    apply Only.bind
    · rw [only_call]
      exact haside
    · intro created
      cases created with
      | some problem => exact only_pure _
      | none =>
          apply Only.bind
          · rw [only_call]
            exact haside
          · intro closed
            cases closed with
            | some problem => exact Only.bind (discard_aside rfl) fun _ => only_pure _
            | none => exact only_pure _

/-- What a new file for a destination is, where one was made. -/
theorem create_always {mode : Nat} :
    Always (Step uid gid) (create target mode) before fun _ made after =>
      ∀ file, made = .ok file → file.target = target ∧ (∃ text, file.temp = temporary target text) ∧
        after file.temp = some ⟨.regular, 1, uid, gid, mode, []⟩ := by
  unfold create
  rw [always_bind, always_call]
  rintro text _ rfl
  rw [always_bind, always_call]
  intro created between hcreated
  cases created with
  | some problem =>
      rw [always_pure]
      simp
  | none =>
      obtain ⟨-, rfl⟩ := hcreated
      rw [always_bind, always_call]
      intro closed after hclosed
      cases closed with
      | some problem =>
          rw [always_bind]
          refine (Aside.always (discard_aside rfl)).mono fun exchanges _ after _ => ?_
          rw [always_pure]
          simp
      | none =>
          obtain rfl := hclosed
          rw [always_pure]
          rintro file ⟨rfl⟩
          exact ⟨rfl, ⟨text, rfl⟩, by simp [Files.change]⟩

end SeverinoHQ.Atomicfile
