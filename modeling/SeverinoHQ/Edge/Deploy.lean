/-
# What a deploy leaves in the certificate directory

Which chain and which key stand at the end is decided by how each of the four writes
ended. A write that fails after its file was put in place is taken for one that did
nothing, and then the directory can hold a chain and a key of two deploys.
-/

import SeverinoHQ.Edge.Receiver

namespace SeverinoHQ.Edge

open SeverinoHQ.Math Dialogue
open Atomicfile (Place Node Files Way Apart Written)

/-! ## One write among the others -/

/-- The write a call is part of. -/
def Call.write : Call → Option Write
  | .lookupUser write _ | .lookupGroup write _ | .file write _ => some write
  | _ => none

/-- What one write said to its files. -/
def said (write : Write) (exchanges : List (Exchange Call Reply)) :
    List (Exchange Atomicfile.Call Atomicfile.Reply) :=
  exchanges.filterMap fun
    | ⟨.file other call, reply⟩ => if other = write then some ⟨call, reply⟩ else none
    | _ => none

/-- How one write ended. -/
def wayOf (write : Write) (exchanges : List (Exchange Call Reply)) : Way :=
  Atomicfile.way (said write exchanges)

/-- Whether a write was begun. -/
def begun (write : Write) (exchanges : List (Exchange Call Reply)) : Bool :=
  exchanges.any fun exchange => exchange.1.write = some write

/-- Exchanges of one write alone. -/
def Of (write : Write) (exchanges : List (Exchange Call Reply)) : Prop :=
  ∀ exchange ∈ exchanges, exchange.1.write = some write

section Said

variable {write other : Write} {first second exchanges : List (Exchange Call Reply)}

@[simp]
theorem said_append : said write (first ++ second) = said write first ++ said write second :=
  List.filterMap_append

@[simp]
theorem begun_append : begun write (first ++ second) = (begun write first || begun write second) :=
  List.any_append

@[simp]
theorem said_reload (reply : Option String) : said write [⟨.reload, reply⟩] = [] := rfl

@[simp]
theorem begun_reload (reply : Option String) : begun write [⟨.reload, reply⟩] = false := rfl

theorem said_eq_nil (h : ∀ exchange ∈ exchanges, exchange.1.write ≠ some write) :
    said write exchanges = [] := by
  apply List.filterMap_eq_nil_iff.mpr
  rintro ⟨call, reply⟩ hmem
  have hwrite := h _ hmem
  cases call with
  | file other call =>
      dsimp only
      rw [if_neg]
      rintro rfl
      exact hwrite rfl
  | _ => rfl

theorem begun_eq_false (h : ∀ exchange ∈ exchanges, exchange.1.write ≠ some write) :
    begun write exchanges = false := by
  apply List.any_eq_false.mpr
  intro exchange hmem
  simpa using h exchange hmem

theorem Of.ne (h : Of write exchanges) (hne : other ≠ write) :
    ∀ exchange ∈ exchanges, exchange.1.write ≠ some other := by
  intro exchange hmem hsame
  rw [h exchange hmem] at hsame
  exact hne (Option.some.inj hsame).symm

theorem said_within (inner : List (Exchange Atomicfile.Call Atomicfile.Reply)) :
    said write (inner.map (Exchange.within (Call.file write))) = inner := by
  unfold said
  rw [List.filterMap_map]
  exact (List.filterMap_congr fun exchange _ => if_pos rfl).trans List.filterMap_some

theorem of_within (inner : List (Exchange Atomicfile.Call Atomicfile.Reply)) :
    Of write (inner.map (Exchange.within (Call.file write))) := by
  intro exchange hmem
  obtain ⟨_, -, rfl⟩ := List.mem_map.mp hmem
  rfl

end Said

/-! ## What one install did -/

/-- What an install of `data` at a place did. -/
structure Installed (write : Write) (target : Place) (data : Bytes) (before : Files)
    (exchanges : List (Exchange Call Reply)) (problem : Option String) (after : Files) : Prop where
  answer : problem = none ↔ wayOf write exchanges = .installed
  content : (after target).map Node.data =
    if wayOf write exchanges = .unplaced then (before target).map Node.data else some data
  others : ∀ place, place ≠ target → Apart target place → after place = before place
  its : Of write exchanges
  begun : begun write exchanges = true

variable {receiver : Receiver} {write : Write} {target : Place} {data : Bytes} {mode : Nat}
  {before : Files}

theorem putInPlace_written {uid gid : Int} :
    Always (Atomicfile.Step 0 0) (putInPlace target data uid gid mode) before
      (Written target
        ⟨.regular, 1, Atomicfile.owned 0 uid, Atomicfile.owned 0 gid, mode, data⟩ before) := by
  unfold putInPlace
  rw [always_bind]
  refine ((Atomicfile.Aside.always Atomicfile.create_aside).and Atomicfile.create_always).mono ?_
  rintro exchanges made between ⟨⟨hquiet, hsame⟩, hmade⟩
  cases made with
  | error problem =>
      rw [always_pure, List.append_nil]
      exact Written.of_aside ⟨hquiet, hsame⟩
  | ok file =>
      obtain ⟨rfl, ⟨text, htemp⟩, hnode⟩ := hmade file rfl
      have hchown : Atomicfile.Aside file.target (.chown file.temp uid gid) := ⟨text, htemp⟩
      have hof : ∀ exchanges result after, Written file.target
          ⟨.regular, 1, Atomicfile.owned 0 uid, Atomicfile.owned 0 gid, mode, data⟩ between
            exchanges result after → _ := fun _ _ _ h => h.of_quiet hquiet hsame
      refine Always.mono ?_ hof
      apply Atomicfile.written_call hchown
      intro owned after hstep
      cases owned with
      | some problem => exact Atomicfile.stopped_written (Atomicfile.discard_aside htemp)
      | none =>
          have hmine : after file.temp = some
              ⟨.regular, 1, Atomicfile.owned 0 uid, Atomicfile.owned 0 gid, mode, []⟩ := by
            obtain rfl := hstep
            simp [Files.change, hnode]
          exact Atomicfile.write_written htemp hmine rfl

theorem install_installed :
    Always Step (install receiver write target data mode) before
      (Installed write target data before) := by
  have hfailed : ∀ {exchanges : List (Exchange Call Reply)} {problem : String},
      Of write exchanges → begun write exchanges = true → said write exchanges = [] →
      Installed write target data before exchanges (some problem) before := by
    intro exchanges problem hits hbegun hsaid
    have hway : wayOf write exchanges = .unplaced := by rw [wayOf, hsaid]; rfl
    exact ⟨by simp [hway], by simp [hway], fun _ _ _ => rfl, hits, hbegun⟩
  unfold install
  rw [always_bind, always_call]
  rintro user _ rfl
  cases huid : identify receiver.owner user with
  | error problem =>
      rw [always_pure]
      exact hfailed (by simp [Of, Call.write]) (by simp [begun, Call.write]) rfl
  | ok uid =>
      dsimp only
      rw [always_bind, always_call]
      rintro group _ rfl
      cases hgid : identify receiver.group group with
      | error problem =>
          rw [always_pure]
          exact hfailed (by simp [Of, Call.write]) (by simp [begun, Call.write]) rfl
      | ok gid =>
          dsimp only
          rw [always_within]
          refine putInPlace_written.mono fun exchanges problem after h => ?_
          have hway : wayOf write ([⟨.lookupUser write receiver.owner, user⟩] ++
              ([⟨.lookupGroup write receiver.group, group⟩] ++
                exchanges.map (Exchange.within (Call.file write)))) = Atomicfile.way exchanges := by
            rw [wayOf, said_append, said_append, said_within]
            rfl
          refine ⟨?_, ?_, ?_, ?_, ?_⟩
          · rw [hway]
            exact h.answer
          · rw [hway, h.content]
            split <;> rfl
          · exact h.others
          · intro exchange hmem
            rcases List.mem_append.mp hmem with hmem | hmem
            · exact List.mem_singleton.mp hmem ▸ rfl
            · rcases List.mem_append.mp hmem with hmem | hmem
              · exact List.mem_singleton.mp hmem ▸ rfl
              · exact of_within exchanges exchange hmem
          · simp [Edge.begun, Call.write]

/-! ## The pair that stands -/

/-- The chain and the key in the certificate directory. -/
def held (receiver : Receiver) (files : Files) : Option Bytes × Option Bytes :=
  ((files receiver.chainPlace).map Node.data, (files receiver.keyPlace).map Node.data)

/-- The order the writes of a deploy are begun in, and whether it failed. -/
def Course (exchanges : List (Exchange Call Reply)) (failed : Bool) : Prop :=
  wayOf .chain exchanges ≠ .installed ∧ begun .key exchanges = false ∧
      begun .chainBack exchanges = false ∧ begun .keyBack exchanges = false ∧ failed ∨
    wayOf .chain exchanges = .installed ∧ wayOf .key exchanges ≠ .installed ∧
      begun .chainBack exchanges ∧ begun .keyBack exchanges = false ∧ failed ∨
    wayOf .chain exchanges = .installed ∧ wayOf .key exchanges = .installed ∧
      begun .chainBack exchanges = failed ∧
      begun .keyBack exchanges = (failed && decide (wayOf .chainBack exchanges = .installed))

/-- Where a deploy of one pair over another ended: what stands was put there by the last
write that put a file in place. -/
structure Ended (receiver : Receiver) (previous next : Bytes × Bytes)
    (exchanges : List (Exchange Call Reply)) (answer : Option String) (after : Files) : Prop where
  chain : (held receiver after).1 =
    some (if wayOf .chainBack exchanges = .unplaced ∧ wayOf .chain exchanges ≠ .unplaced then next.1
      else previous.1)
  key : (held receiver after).2 =
    some (if wayOf .keyBack exchanges = .unplaced ∧ wayOf .key exchanges ≠ .unplaced then next.2
      else previous.2)
  course : Course exchanges answer.isSome

theorem wayOf_of_begun {exchanges : List (Exchange Call Reply)} (h : begun write exchanges = false) :
    wayOf write exchanges = .unplaced := by
  have hsaid : said write exchanges = [] := by
    apply said_eq_nil
    intro exchange hmem hsame
    have hnot := List.any_eq_false.mp h exchange hmem
    simp [hsame] at hnot
  rw [wayOf, hsaid]
  rfl

/-- Neither name is a temporary file's. -/
theorem apart_of_head {target place : Place} (h : place.name.toList.head? ≠ some '.') :
    Apart target place := by
  rintro text rfl
  apply h
  simp [Atomicfile.temporary]

theorem chainPlace_apart (receiver : Receiver) (target : Place) :
    Apart target receiver.chainPlace := apart_of_head (by simp [Receiver.chainPlace, fullchainName])

theorem keyPlace_apart (receiver : Receiver) (target : Place) :
    Apart target receiver.keyPlace := apart_of_head (by simp [Receiver.keyPlace, privateKeyName])

theorem chainPlace_ne_keyPlace (receiver : Receiver) : receiver.chainPlace ≠ receiver.keyPlace := by
  simp [Receiver.chainPlace, Receiver.keyPlace, fullchainName, privateKeyName]

section Pieces

variable {exchanges : List (Exchange Call Reply)} {problem : Option String} {after : Files}


theorem Installed.said_ne (h : Installed write target data before exchanges problem after)
    (other : Write) (hne : other ≠ write) : said other exchanges = [] := said_eq_nil (h.its.ne hne)

theorem Installed.begun_ne (h : Installed write target data before exchanges problem after)
    (other : Write) (hne : other ≠ write) : Edge.begun other exchanges = false := begun_eq_false (h.its.ne hne)

theorem Installed.held_chain
    (h : Installed write receiver.chainPlace data before exchanges problem after) :
    held receiver after = (if wayOf write exchanges = .unplaced then (held receiver before).1
      else some data, (held receiver before).2) := by
  have hkey := h.others receiver.keyPlace (chainPlace_ne_keyPlace receiver).symm
    (keyPlace_apart receiver _)
  exact Prod.ext h.content (by rw [held, hkey]; rfl)

theorem Installed.held_key
    (h : Installed write receiver.keyPlace data before exchanges problem after) :
    held receiver after = ((held receiver before).1, if wayOf write exchanges = .unplaced then
      (held receiver before).2 else some data) := by
  have hchain := h.others receiver.chainPlace (chainPlace_ne_keyPlace receiver)
    (chainPlace_apart receiver _)
  exact Prod.ext (by rw [held, hchain]; rfl) h.content

end Pieces

/-- One file put back is one install. -/
theorem put_one {file : Installation} :
    Always Step (put receiver [file]) before (Installed file.write file.target file.data before) := by
  unfold put
  rw [always_bind]
  refine install_installed.mono fun exchanges problem after h => ?_
  cases problem with
  | some problem =>
      rw [always_pure, List.append_nil]
      exact h
  | none =>
      unfold put
      rw [always_pure, List.append_nil]
      exact h

/-- Two files put back: the second only after the first. -/
theorem put_two {file next : Installation} :
    Always Step (put receiver [file, next]) before fun exchanges problem after =>
      (problem.isSome ∧ Installed file.write file.target file.data before exchanges problem after) ∨
        ∃ first second between, exchanges = first ++ second ∧
          Installed file.write file.target file.data before first none between ∧
          Installed next.write next.target next.data between second problem after := by
  unfold put
  rw [always_bind]
  refine install_installed.mono fun first problem between h => ?_
  cases problem with
  | some problem =>
      rw [always_pure, List.append_nil]
      exact Or.inl ⟨rfl, h⟩
  | none =>
      refine put_one.mono fun second problem after hnext => ?_
      exact Or.inr ⟨first, second, between, rfl, h, hnext⟩

/-! ## The paths of a deploy -/

section Paths

variable {previous next : Bytes × Bytes} {first second third fourth again : List (Exchange Call Reply)}
  {problem : String} {answer : Option String} {between after mid last : Files}
  (hheld : held receiver before = (some previous.1, some previous.2))

include hheld

/-- The chain could not be installed. -/
theorem ended_of_chain
    (hchain : Installed .chain receiver.chainPlace next.1 before first (some problem) after) :
    Ended receiver previous next first (some problem) after := by
  have hafter := hchain.held_chain
  rw [hheld] at hafter
  have hway : wayOf .chain first ≠ .installed := by simpa using hchain.answer
  have hkey := hchain.begun_ne .key (by decide)
  have hchainBack := hchain.begun_ne .chainBack (by decide)
  have hkeyBack := hchain.begun_ne .keyBack (by decide)
  refine ⟨?_, ?_, Or.inl ⟨hway, hkey, hchainBack, hkeyBack, rfl⟩⟩
  · rw [hafter, wayOf_of_begun hchainBack]
    by_cases hunplaced : wayOf .chain first = .unplaced <;> simp [hunplaced]
  · rw [hafter, wayOf_of_begun hkeyBack, wayOf_of_begun hkey]
    simp

variable (hchain : Installed .chain receiver.chainPlace next.1 before first none between)

include hchain

theorem held_of_chain : held receiver between = (some next.1, some previous.2) := by
  have hway : wayOf .chain first = .installed := hchain.answer.mp rfl
  rw [hchain.held_chain, hway, if_neg (by decide), hheld]

/-- The key could not be installed, and the previous chain was put back, or not. -/
theorem ended_of_key {told : String}
    (hkey : Installed .key receiver.keyPlace next.2 between second (some problem) after)
    (hback : Installed .chainBack receiver.chainPlace previous.1 after third answer last) :
    Ended receiver previous next (first ++ (second ++ third)) (some told) last := by
  have hlast := hback.held_chain
  rw [hkey.held_key, held_of_chain hheld hchain] at hlast
  have hkeyWay : wayOf .key second ≠ .installed := by simpa using hkey.answer
  have hways : wayOf .chain (first ++ (second ++ third)) = wayOf .chain first ∧
      wayOf .key (first ++ (second ++ third)) = wayOf .key second ∧
      wayOf .chainBack (first ++ (second ++ third)) = wayOf .chainBack third := by
    simp [wayOf, hchain.said_ne, hkey.said_ne, hback.said_ne]
  rw [hchain.answer.mp rfl] at hways
  obtain ⟨hchainAll, hkeyAll, hchainBackAll⟩ := hways
  have hbegun : begun .chainBack (first ++ (second ++ third)) := by simp [hback.begun]
  have hkeyBack : begun .keyBack (first ++ (second ++ third)) = false := by
    simp [hchain.begun_ne, hkey.begun_ne, hback.begun_ne]
  refine ⟨?_, ?_, Or.inr (Or.inl ⟨hchainAll, hkeyAll ▸ hkeyWay, hbegun, hkeyBack, rfl⟩)⟩
  · rw [hlast, hchainBackAll, hchainAll]
    by_cases hunplaced : wayOf .chainBack third = .unplaced <;> simp [hunplaced]
  · rw [hlast, wayOf_of_begun hkeyBack, hkeyAll]
    by_cases hunplaced : wayOf .key second = .unplaced <;> simp [hunplaced]

variable (hkey : Installed .key receiver.keyPlace next.2 between second none after)

include hkey

theorem held_of_key : held receiver after = (some next.1, some next.2) := by
  have hway : wayOf .key second = .installed := hkey.answer.mp rfl
  rw [hkey.held_key, hway, if_neg (by decide), held_of_chain hheld hchain]

/-- Caddy took the new pair. -/
theorem ended_of_reload :
    Ended receiver previous next (first ++ (second ++ [⟨.reload, none⟩])) none after := by
  have hways : wayOf .chain (first ++ (second ++ [⟨.reload, none⟩])) = wayOf .chain first ∧
      wayOf .key (first ++ (second ++ [⟨.reload, none⟩])) = wayOf .key second := by
    simp [wayOf, hchain.said_ne, hkey.said_ne]
  rw [hchain.answer.mp rfl, hkey.answer.mp rfl] at hways
  have hchainBack : begun .chainBack (first ++ (second ++ [⟨.reload, none⟩])) = false := by
    simp [hchain.begun_ne, hkey.begun_ne]
  have hkeyBack : begun .keyBack (first ++ (second ++ [⟨.reload, none⟩])) = false := by
    simp [hchain.begun_ne, hkey.begun_ne]
  refine ⟨?_, ?_, Or.inr (Or.inr ⟨hways.1, hways.2, hchainBack, by simp [hkeyBack]⟩)⟩
  · rw [held_of_key hheld hchain hkey, wayOf_of_begun hchainBack, hways.1]
    simp
  · rw [held_of_key hheld hchain hkey, wayOf_of_begun hkeyBack, hways.2]
    simp

/-- Caddy did not, and the previous chain could not be put back. -/
theorem ended_of_chainBack {trouble told : String}
    (hback : Installed .chainBack receiver.chainPlace previous.1 after third (some trouble) last) :
    Ended receiver previous next (first ++ (second ++ ([⟨.reload, some problem⟩] ++ third)))
      (some told) last := by
  have hlast := hback.held_chain
  rw [held_of_key hheld hchain hkey] at hlast
  have hways : wayOf .chain (first ++ (second ++ ([⟨.reload, some problem⟩] ++ third))) =
        wayOf .chain first ∧
      wayOf .key (first ++ (second ++ ([⟨.reload, some problem⟩] ++ third))) = wayOf .key second ∧
      wayOf .chainBack (first ++ (second ++ ([⟨.reload, some problem⟩] ++ third))) =
        wayOf .chainBack third := by
    simp only [wayOf, said_append, said_reload]
    simp [hchain.said_ne, hkey.said_ne, hback.said_ne]
  rw [hchain.answer.mp rfl, hkey.answer.mp rfl] at hways
  obtain ⟨hchainAll, hkeyAll, hchainBackAll⟩ := hways
  have hbackWay : wayOf .chainBack third ≠ .installed := by simpa using hback.answer
  have hbegun : begun .chainBack (first ++ (second ++ ([⟨.reload, some problem⟩] ++ third))) := by
    simp only [begun_append, hback.begun, Bool.or_true]
  have hkeyBack :
      begun .keyBack (first ++ (second ++ ([⟨.reload, some problem⟩] ++ third))) = false := by
    simp only [begun_append, begun_reload]
    simp [hchain.begun_ne, hkey.begun_ne, hback.begun_ne]
  refine ⟨?_, ?_, Or.inr (Or.inr ⟨hchainAll, hkeyAll, hbegun, ?_⟩)⟩
  · rw [hlast, hchainBackAll, hchainAll]
    by_cases hunplaced : wayOf .chainBack third = .unplaced <;> simp [hunplaced]
  · rw [hlast, wayOf_of_begun hkeyBack, hkeyAll]
    simp
  · rw [hkeyBack, hchainBackAll]
    simp [hbackWay]

/-- Caddy did not, and the previous key was put back after the chain, or not. -/
theorem ended_of_keyBack {told : String}
    (hback : Installed .chainBack receiver.chainPlace previous.1 after third none mid)
    (hkeyBack : Installed .keyBack receiver.keyPlace previous.2 mid fourth answer last)
    (hagain : ∀ exchange ∈ again, exchange.1.write = none) :
    Ended receiver previous next
      (first ++ (second ++ ([⟨.reload, some problem⟩] ++ (third ++ (fourth ++ again)))))
      (some told) last := by
  have hmid := hback.held_chain
  rw [held_of_key hheld hchain hkey, hback.answer.mp rfl, if_neg (by decide)] at hmid
  have hlast := hkeyBack.held_key
  rw [hmid] at hlast
  have hsaid : ∀ write, said write again = [] := fun write =>
    said_eq_nil fun exchange hmem hsame => by simp [hagain exchange hmem] at hsame
  generalize hall : first ++ (second ++ ([⟨.reload, some problem⟩] ++ (third ++ (fourth ++ again)))) =
    all
  have hways : wayOf .chain all = wayOf .chain first ∧ wayOf .key all = wayOf .key second ∧
      wayOf .chainBack all = wayOf .chainBack third ∧
      wayOf .keyBack all = wayOf .keyBack fourth := by
    simp only [← hall, wayOf, said_append, said_reload, hsaid]
    simp [hchain.said_ne, hkey.said_ne, hback.said_ne, hkeyBack.said_ne]
  rw [hchain.answer.mp rfl, hkey.answer.mp rfl, hback.answer.mp rfl] at hways
  obtain ⟨hchainAll, hkeyAll, hchainBackAll, hkeyBackAll⟩ := hways
  have hbegun : begun .chainBack all ∧ begun .keyBack all := by
    simp only [← hall, begun_append, hback.begun, hkeyBack.begun, Bool.or_true, Bool.true_or,
      and_self]
  refine ⟨?_, ?_, Or.inr (Or.inr ⟨hchainAll, hkeyAll, hbegun.1, ?_⟩)⟩
  · rw [hlast, hchainBackAll]
    simp
  · rw [hlast, hkeyBackAll, hkeyAll]
    by_cases hunplaced : wayOf .keyBack fourth = .unplaced <;> simp [hunplaced]
  · rw [hbegun.2, hchainBackAll]
    rfl

end Paths

/-- A pair put over another: every path, by how each of its writes ended. -/
theorem replacePair_ended {previous next : Bytes × Bytes}
    (hheld : held receiver before = (some previous.1, some previous.2)) :
    Always Step (replacePair receiver next.1 next.2 previous.1 previous.2) before
      (Ended receiver previous next) := by
  unfold replacePair
  rw [always_bind]
  refine install_installed.mono fun first problem between hchain => ?_
  cases problem with
  | some problem =>
      rw [always_pure, List.append_nil]
      exact ended_of_chain hheld hchain
  | none =>
      dsimp only
      rw [always_bind]
      refine install_installed.mono fun second problem after hkey => ?_
      cases problem with
      | some problem =>
          dsimp only
          rw [always_bind]
          refine put_one.mono fun third problem last hback => ?_
          rw [always_pure, List.append_nil]
          exact ended_of_key hheld hchain hkey hback
      | none =>
          dsimp only
          rw [always_bind, always_call]
          rintro reloaded _ rfl
          cases reloaded with
          | none =>
              rw [always_pure, List.append_nil]
              exact ended_of_reload hheld hchain hkey
          | some problem =>
              dsimp only [restore]
              rw [always_bind]
              refine put_two.mono ?_
              rintro third trouble last (⟨hsome, hback⟩ | ⟨third, fourth, mid, rfl, hback, hkeyBack⟩)
              · obtain ⟨trouble, rfl⟩ := Option.isSome_iff_exists.mp hsome
                rw [always_pure, List.append_nil]
                exact ended_of_chainBack hheld hchain hkey hback
              · cases trouble with
                | some trouble =>
                    rw [always_pure, List.append_assoc]
                    exact ended_of_keyBack hheld hchain hkey hback hkeyBack (by simp)
                | none =>
                    dsimp only
                    rw [always_bind, always_call]
                    rintro again _ rfl
                    rw [always_pure, List.append_nil, List.append_assoc]
                    exact ended_of_keyBack hheld hchain hkey hback hkeyBack (by simp [Call.write])

/-! ## A pair kept whole -/

/-- Every write that puts a file back, where one was begun, was done. -/
def Restored (exchanges : List (Exchange Call Reply)) : Prop :=
  ∀ write ∈ [Write.chainBack, .keyBack], begun write exchanges → wayOf write exchanges = .installed

/-- The directory holds one deploy's chain and key: after an error whose restoring writes
were done the previous pair, and never a chain and a key of two deploys. -/
structure Whole (library : Library) (receiver : Receiver) (body : Bytes) (before : Files)
    (exchanges : List (Exchange Call Reply)) (answer : Option String) (after : Files) : Prop where
  restored : answer.isSome → Restored exchanges → held receiver after = held receiver before
  unmixed : held receiver after = held receiver before ∨
    ∃ next, readBundle library body = .ok next ∧ held receiver after = (some next.1, some next.2)

/-- The chain handed in is the one that stood, byte for byte. -/
def SameChain (library : Library) (receiver : Receiver) (body : Bytes) (before : Files) : Prop :=
  ∃ next, readBundle library body = .ok next ∧ (held receiver before).1 = some next.1

def SameKey (library : Library) (receiver : Receiver) (body : Bytes) (before : Files) : Prop :=
  ∃ next, readBundle library body = .ok next ∧ (held receiver before).2 = some next.2

/-- No write failed where it leaves the two files apart, or the bytes are the same. -/
structure Harmless (library : Library) (receiver : Receiver) (body : Bytes) (before : Files)
    (exchanges : List (Exchange Call Reply)) : Prop where
  chain : wayOf .chain exchanges = .unsynced → SameChain library receiver body before
  key : wayOf .key exchanges = .unsynced → wayOf .chainBack exchanges ≠ .unplaced →
    SameKey library receiver body before ∨
      wayOf .chainBack exchanges = .unsynced ∧ SameChain library receiver body before
  chainBack : wayOf .chain exchanges = .installed → wayOf .key exchanges = .unplaced →
    wayOf .chainBack exchanges = .unplaced →
    SameChain library receiver body before ∨ SameKey library receiver body before
  reloaded : wayOf .key exchanges = .installed → wayOf .chainBack exchanges = .unsynced →
    SameChain library receiver body before ∨ SameKey library receiver body before
  keyBack : wayOf .key exchanges = .installed → wayOf .chainBack exchanges = .installed →
    wayOf .keyBack exchanges = .unplaced →
    SameChain library receiver body before ∨ SameKey library receiver body before

variable {library : Library} {body : Bytes}

section WholeIff

variable {previous next : Bytes × Bytes} {exchanges : List (Exchange Call Reply)}
  {answer : Option String} {after : Files}

/-- What is whole, in terms of the two pairs. -/
theorem whole_iff (hheld : held receiver before = (some previous.1, some previous.2))
    (hnext : readBundle library body = .ok next) :
    Whole library receiver body before exchanges answer after ↔
      (answer.isSome → Restored exchanges → held receiver after = (some previous.1, some previous.2)) ∧
        (held receiver after = (some previous.1, some previous.2) ∨
          held receiver after = (some next.1, some next.2)) := by
  rw [← hheld]
  constructor
  · rintro ⟨hrestored, hunmixed⟩
    exact ⟨hrestored, by simpa [hnext] using hunmixed⟩
  · rintro ⟨hrestored, hunmixed⟩
    exact ⟨hrestored, by simpa [hnext] using hunmixed⟩

/-- What is harmless, in terms of the two pairs. -/
theorem harmless_iff (hheld : held receiver before = (some previous.1, some previous.2))
    (hnext : readBundle library body = .ok next) :
    Harmless library receiver body before exchanges ↔
      (wayOf .chain exchanges = .unsynced → previous.1 = next.1) ∧
        (wayOf .key exchanges = .unsynced → wayOf .chainBack exchanges ≠ .unplaced →
          previous.2 = next.2 ∨ wayOf .chainBack exchanges = .unsynced ∧ previous.1 = next.1) ∧
        (wayOf .chain exchanges = .installed → wayOf .key exchanges = .unplaced →
          wayOf .chainBack exchanges = .unplaced → previous.1 = next.1 ∨ previous.2 = next.2) ∧
        (wayOf .key exchanges = .installed → wayOf .chainBack exchanges = .unsynced →
          previous.1 = next.1 ∨ previous.2 = next.2) ∧
        (wayOf .key exchanges = .installed → wayOf .chainBack exchanges = .installed →
          wayOf .keyBack exchanges = .unplaced → previous.1 = next.1 ∨ previous.2 = next.2) := by
  have hchain : SameChain library receiver body before ↔ previous.1 = next.1 := by
    simp [SameChain, hnext, hheld]
  have hkey : SameKey library receiver body before ↔ previous.2 = next.2 := by
    simp [SameKey, hnext, hheld]
  rw [← hchain, ← hkey]
  exact ⟨fun ⟨h₁, h₂, h₃, h₄, h₅⟩ => ⟨h₁, h₂, h₃, h₄, h₅⟩, fun ⟨h₁, h₂, h₃, h₄, h₅⟩ => ⟨h₁, h₂, h₃, h₄, h₅⟩⟩

/-- The two agree, whichever writes were begun and however each ended. -/
theorem Ended.whole_iff (h : Ended receiver previous next exchanges answer after)
    (hheld : held receiver before = (some previous.1, some previous.2))
    (hnext : readBundle library body = .ok next) :
    Whole library receiver body before exchanges answer after ↔
      Harmless library receiver body before exchanges := by
  rw [Edge.whole_iff hheld hnext, harmless_iff hheld hnext]
  have hafter : held receiver after =
      (some (if wayOf .chainBack exchanges = .unplaced ∧ wayOf .chain exchanges ≠ .unplaced then
        next.1 else previous.1),
      some (if wayOf .keyBack exchanges = .unplaced ∧ wayOf .key exchanges ≠ .unplaced then next.2
        else previous.2)) := Prod.ext h.chain h.key
  have hrestored : Restored exchanges ↔
      (begun .chainBack exchanges → wayOf .chainBack exchanges = .installed) ∧
        (begun .keyBack exchanges → wayOf .keyBack exchanges = .installed) := by
    simp [Restored]
  have hchainComm : next.1 = previous.1 ↔ previous.1 = next.1 := eq_comm
  have hkeyComm : next.2 = previous.2 ↔ previous.2 = next.2 := eq_comm
  rw [hafter, hrestored]
  rcases h.course with ⟨hchain, hkey, hchainBack, hkeyBack, hfailed⟩ |
    ⟨hchain, hkey, hchainBack, hkeyBack, hfailed⟩ | ⟨hchain, hkey, hchainBack, hkeyBack⟩
  · -- the chain's write failed: only the chain may have been replaced
    rw [wayOf_of_begun hkey, wayOf_of_begun hchainBack, wayOf_of_begun hkeyBack, hchainBack,
      hkeyBack, hfailed]
    cases hway : wayOf .chain exchanges <;> simp_all
  · -- the key's write failed, and only the chain was put back
    rw [wayOf_of_begun hkeyBack, hchain, hchainBack, hkeyBack, hfailed]
    cases hway : wayOf .key exchanges <;> cases hback : wayOf .chainBack exchanges <;>
      simp_all
  · cases hfailed : answer.isSome with
    | false =>
        rw [hfailed] at hchainBack hkeyBack
        rw [wayOf_of_begun hchainBack, wayOf_of_begun hkeyBack, hchain, hkey]
        simp
    | true =>
        -- the reload failed, and the key was put back where the chain was
        rw [hfailed] at hchainBack
        by_cases hback : wayOf .chainBack exchanges = .installed
        · cases hlast : wayOf .keyBack exchanges <;> simp_all [or_comm]
        · have hunplaced := wayOf_of_begun (hkeyBack.trans (by simp [hback]))
          cases hway : wayOf .chainBack exchanges <;> simp_all [or_comm]

/-- What is said before the first write is no part of it. -/
theorem Ended.prepend {first : List (Exchange Call Reply)}
    (h : Ended receiver previous next exchanges answer after)
    (hfirst : ∀ exchange ∈ first, exchange.1.write = none) :
    Ended receiver previous next (first ++ exchanges) answer after := by
  have hsaid : ∀ write, said write (first ++ exchanges) = said write exchanges := by
    intro write
    rw [said_append, said_eq_nil fun exchange hmem hsame => by simp [hfirst exchange hmem] at hsame,
      List.nil_append]
  have hway : ∀ write, wayOf write (first ++ exchanges) = wayOf write exchanges := fun write =>
    congrArg Atomicfile.way (hsaid write)
  have hbegun : ∀ write, begun write (first ++ exchanges) = begun write exchanges := by
    intro write
    rw [begun_append, begun_eq_false fun exchange hmem hsame => by
      simp [hfirst exchange hmem] at hsame, Bool.false_or]
  refine ⟨?_, ?_, ?_⟩
  · rw [hway, hway, h.chain]
  · rw [hway, hway, h.key]
  · simpa only [Course, hway, hbegun] using h.course

/-- A deploy that ends before its first write keeps the pair, and no write failed. -/
theorem whole_iff_of_untouched (hsaid : ∀ exchange ∈ exchanges, exchange.1.write = none) :
    Whole library receiver body before exchanges answer before ↔
      Harmless library receiver body before exchanges := by
  have hway : ∀ write, wayOf write exchanges = .unplaced := by
    intro write
    rw [wayOf, said_eq_nil fun exchange hmem hsame => by simp [hsaid exchange hmem] at hsame]
    rfl
  constructor
  · intro _
    constructor <;> simp [hway]
  · intro _
    exact ⟨fun _ _ => rfl, Or.inl rfl⟩

end WholeIff

/-- The pair as it was read is the pair that stands. -/
theorem installed_held :
    Always Step (installed receiver) before fun exchanges read after =>
      after = before ∧ (∀ exchange ∈ exchanges, exchange.1.write = none) ∧
        ∀ previous, read = .ok previous →
          held receiver before = (some previous.1, some previous.2) := by
  unfold installed
  rw [always_bind, always_call]
  intro chain between hchain
  cases chain with
  | error problem =>
      obtain rfl := hchain
      rw [always_pure]
      simp [Call.write]
  | ok fullchain =>
      obtain ⟨rfl, chainNode, hchainNode, rfl⟩ := hchain
      dsimp only
      rw [always_bind, always_call]
      intro key after hkey
      cases key with
      | error problem =>
          obtain rfl := hkey
          rw [always_pure]
          simp [Call.write]
      | ok privateKey =>
          obtain ⟨rfl, keyNode, hkeyNode, rfl⟩ := hkey
          rw [always_pure]
          refine ⟨rfl, by simp [Call.write], ?_⟩
          rintro previous ⟨rfl⟩
          simp [held, hchainNode, hkeyNode]

/-- A deploy keeps the certificate directory to one deploy's pair exactly when no write
fails where it leaves the two files apart. -/
theorem deploy_whole_iff {exchanges : List (Exchange Call Reply)} {answer : Option String}
    {after : Files}
    (h : Runs Step (deploy library receiver body) before exchanges answer after) :
    Whole library receiver body before exchanges answer after ↔
      Harmless library receiver body before exchanges := by
  revert exchanges answer after
  show Always Step (deploy library receiver body) before _
  unfold deploy
  cases hnext : readBundle library body with
  | error problem =>
      rw [always_pure]
      exact whole_iff_of_untouched (by simp)
  | ok next =>
      dsimp only
      cases hpair : pair library next.1 next.2 with
      | error problem =>
          rw [always_pure]
          exact whole_iff_of_untouched (by simp)
      | ok leaf =>
          dsimp only
          rw [always_bind, always_call]
          rintro now _ rfl
          split
          · rw [always_pure]
            exact whole_iff_of_untouched (by simp [Call.write])
          · rw [always_bind]
            refine installed_held.mono ?_
            rintro reads read _ ⟨rfl, hreads, hheld⟩
            cases read with
            | error problem =>
                rw [always_pure]
                apply whole_iff_of_untouched
                intro exchange hmem
                simp only [List.append_nil, List.singleton_append, List.mem_cons] at hmem
                rcases hmem with rfl | hmem
                · rfl
                · exact hreads exchange hmem
            | ok previous =>
                refine (replacePair_ended (hheld previous rfl)).mono fun writes answer after h => ?_
                have hnow : ∀ exchange ∈ ([⟨.now, now⟩] : List (Exchange Call Reply)),
                    exchange.1.write = none := by simp [Call.write]
                exact ((h.prepend hreads).prepend hnow).whole_iff (hheld previous rfl) hnext

/-! ## Two deploys -/

/-- What a read answers of what stands at a name. -/
def reading (fails : Bool) (node : Option Node) : Except String Bytes :=
  match node with
  | some node => if fails then .error "failed" else .ok node.data
  | none => .error "missing"

/-- An edge whose every call does what it is asked, but for those that fail. -/
def machine (fails : Call → Bool) (files : Files) : (call : Call) → Reply call × Files
  | .lookupUser write name => (if fails (.lookupUser write name) then none else some "0", files)
  | .lookupGroup write name => (if fails (.lookupGroup write name) then none else some "0", files)
  | .file write call => Atomicfile.machine 0 0 (fun call => fails (.file write call)) files call
  | .read place => (reading (fails (.read place)) (files place), files)
  | .now => (0, files)
  | .reload => (if fails .reload then some "failed" else none, files)

theorem step_machine (fails : Call → Bool) (files : Files) (call : Call) :
    Step files ⟨call, (machine fails files call).1⟩ (machine fails files call).2 := by
  cases call with
  | file write call => exact Atomicfile.step_machine 0 0 _ files call
  | read place =>
      show Step files ⟨.read place, reading (fails (.read place)) (files place)⟩ files
      cases hreading : reading (fails (.read place)) (files place) with
      | error problem => rfl
      | ok data =>
          unfold reading at hreading
          split at hreading
          · next node hnode =>
              split at hreading
              · exact absurd hreading (by simp)
              · exact ⟨rfl, node, hnode, Except.ok.inj hreading⟩
          · exact absurd hreading (by simp)
  | lookupUser | lookupGroup | now | reload => rfl

/-- A bundle of one byte is a chain and a key that match. -/
def sampleLibrary : Library where
  entries
    | [chain] => [some ⟨fullchainName, true, some [chain]⟩, some ⟨privateKeyName, true, some [chain, 0]⟩]
    | _ => []
  firstCertificate _ := .ok ⟨1, .ok []⟩
  firstPrivateKey _ := .ok (.ok [])

def sampleReceiver : Receiver := ⟨"/opt/apps/caddy/certs", "root", "root"⟩

/-- The pair a deploy of the byte 1 left. -/
def standing : Files := fun place =>
  if place = sampleReceiver.chainPlace then some ⟨.regular, 1, 0, 0, 0o644, [1]⟩
  else if place = sampleReceiver.keyPlace then some ⟨.regular, 1, 0, 0, 0o600, [1, 0]⟩
  else none

/-- A deploy of the byte 2 over it. -/
def sampleRun (fails : Call → Bool) : List (Exchange Call Reply) × Option String × Files :=
  (deploy sampleLibrary sampleReceiver [2]).runWith (machine fails) standing

theorem sampleRun_runs (fails : Call → Bool) :
    Runs Step (deploy sampleLibrary sampleReceiver [2]) standing (sampleRun fails).1
      (sampleRun fails).2.1 (sampleRun fails).2.2 :=
  runs_runWith (step_machine fails) _ _

/-- Caddy refuses the new pair, and the previous one is put back whole. -/
theorem refused_pair_restored :
    Whole sampleLibrary sampleReceiver [2] standing (sampleRun (· = .reload)).1
      (sampleRun (· = .reload)).2.1 (sampleRun (· = .reload)).2.2 := by
  apply (deploy_whole_iff (sampleRun_runs _)).mpr
  constructor
  · exact fun h => absurd h (by decide +kernel)
  · exact fun h => absurd h (by decide +kernel)
  · exact fun _ h => absurd h (by decide +kernel)
  · exact fun _ h => absurd h (by decide +kernel)
  · exact fun _ _ h => absurd h (by decide +kernel)

/-- The chain is in place when its directory cannot be synced: the deploy answers an
error, puts nothing back, and leaves the new chain beside the previous key. -/
theorem unsynced_chain_mixed :
    ¬∀ (library : Library) (receiver : Receiver) (body : Bytes) (before : Files)
        (exchanges : List (Exchange Call Reply)) (answer : Option String) (after : Files),
      Runs Step (deploy library receiver body) before exchanges answer after →
        Whole library receiver body before exchanges answer after := by
  intro h
  have hwhole := h _ _ _ _ _ _ _ (sampleRun_runs (· = .file .chain (.syncDir sampleReceiver.certDir)))
  rcases hwhole.unmixed with hheld | ⟨next, hnext, hheld⟩
  · exact absurd hheld (by decide)
  · have hpair : readBundle sampleLibrary [2] = .ok ([2], [2, 0]) := by rfl
    obtain rfl : ([2], [2, 0]) = next := Except.ok.inj (hpair.symm.trans hnext)
    exact absurd hheld (by decide)

end SeverinoHQ.Edge
