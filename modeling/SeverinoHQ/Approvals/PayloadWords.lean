/-
# A payload in a person's words

A value is said in words, and two documents are compared by their words: each is opened into
the values it holds, by where they are, and a place is a change where its words are not the
same in both. Text that is really a JSON document is opened with the rest.
-/

import SeverinoHQ.Approvals.Model
import SeverinoHQ.Math.Document
import SeverinoHQ.Math.Dict
import SeverinoHQ.Math.Pattern

namespace SeverinoHQ.Approvals

open SeverinoHQ.Math
open SeverinoHQ.Math.Document (Step)

/-- Texts are told apart letter by letter. -/
local instance lawful_letters : LawfulBEq (List Char) := inferInstance

/-- What the words take from Python and Django: `str` of a number, the cases of letters,
`str.isidentifier`, the decimal digits, `json.loads`, `datetime.fromisoformat` with the two
questions asked of what it reads, and how a day and a moment are written. A document takes
at least its weight to write down. -/
structure Wording (ν τ : Type) where
  number : ν → String
  upper : String → String
  lower : String → String
  isUpper : String → Bool
  isIdentifier : String → Bool
  isDecimal : Char → Bool
  loads : String → Option (Document ν)
  weight_le_of_loads : ∀ {text : String} {value : Document ν}, loads text = some value →
    value.weight ≤ text.length
  fromisoformat : String → Option τ
  isFirstDay : τ → Bool
  inUtc : τ → τ
  whenDay : τ → String
  when : τ → String

variable {ν τ : Type} (wording : Wording ν τ)

/-! ## Labels -/

/-- `text.split()`. -/
def split (text : List Char) : List (List Char) :=
  (text.splitOnP isSpace).filter fun word => !word.isEmpty

/-- `_ACRONYMS`. -/
def acronyms : List String :=
  ["acl", "api", "dns", "hq", "id", "mcp", "npm", "nws", "ssh", "tls", "url", "vin", "vm"]

/-- `text[start:stop]`. -/
def slice (start stop : Nat) (text : String) : String :=
  String.ofList ((text.toList.take stop).drop start)

/-- A field as a person names it: its declared title, else its name as a sentence. -/
def fieldLabel (name : String) (title : Option String) : String :=
  match title with
  | some title => if title = "" then sentence else title
  | none => sentence
where
  sentence : String :=
    let spaced := name.toList.map fun letter => if letter = '.' ∨ letter = '_' then ' ' else letter
    let words := (split spaced).map String.ofList
    let said := " ".intercalate
      (words.map fun word => if word ∈ acronyms then wording.upper word else word)
    wording.upper (upTo 1 said) ++ String.ofList (said.toList.drop 1)

/-- A label as it reads mid-sentence, leaving an acronym alone. -/
def lowerFirst (text : String) : String :=
  if wording.isUpper (slice 1 2 text) then text
  else wording.lower (upTo 1 text) ++ String.ofList (text.toList.drop 1)

attribute [local instance(high)] Option.decidableForallMem in
/-- Many of a noun, as English spells it. -/
def plural (noun : String) : String :=
  let lowered := (wording.lower noun).toList
  let vowels := ['a', 'e', 'i', 'o', 'u']
  if lowered.getLast? = some 'y' ∧ lowered.dropLast ≠ [] ∧
      ∀ letter ∈ lowered.dropLast.getLast?, letter ∉ vowels then
    String.ofList (noun.toList.dropLast ++ ['i', 'e', 's'])
  else if ["s", "x", "z", "ch", "sh"].any fun ending => ending.toList.isSuffixOf lowered then
    noun ++ "es"
  else noun ++ "s"

/-- The digits of a number, its lowest first, with a comma after each three. -/
def grouped : List Char → List Char
  | first :: second :: third :: fourth :: rest =>
      first :: second :: third :: ',' :: grouped (fourth :: rest)
  | digits => digits

/-- `counted`, of one regular noun. -/
def counted (count : Nat) (one : String) : String :=
  String.ofList (grouped (toString count).toList.reverse).reverse ++ " " ++
    if count = 1 then one else plural wording one

/-! ## A value in words -/

/-- A field's schema: the titles of its items and of those of its alternatives, `""` where
one has none. -/
structure Schema where
  itemsTitles : List String

/-- `_items_title`. -/
def itemsTitle (schema : Option Schema) : String :=
  match schema with
  | some schema => (schema.itemsTitles.find? fun title => title ≠ "").getD ""
  | none => ""

/-- `_scalar`. -/
def scalar : Document ν → Bool
  | .arr _ | .obj _ => false
  | _ => true

/-- `_STAMP`. -/
def stamp : Pattern :=
  let digits (count : Nat) : Pattern :=
    (List.replicate count (Pattern.letter wording.isDecimal)).foldr Pattern.seq Pattern.blank
  let sign (letters : List Char) : Pattern := .letter fun letter => letter ∈ letters
  let date : Pattern :=
    .seq (digits 4) (.seq (sign ['-']) (.seq (digits 2) (.seq (sign ['-']) (digits 2))))
  let seconds : Pattern :=
    .seq (sign [':']) (.seq (digits 2) (.opt (.seq (sign ['.']) (.many wording.isDecimal 1))))
  let offset : Pattern :=
    .seq (sign ['+', '-']) (.seq (digits 2) (.opt (.seq (.opt (sign [':'])) (digits 2))))
  let time : Pattern :=
    .seq (sign ['T', ' ']) (.seq (digits 2) (.seq (sign [':']) (.seq (digits 2)
      (.seq (.opt seconds) (.opt (.alt (sign ['Z']) offset))))))
  .seq date (.opt time)

/-- `moment`, of text: nothing for the first of all days, which says never. -/
def moment (text : String) : Option τ :=
  if strip text = "" then none
  else ((wording.fromisoformat (strip text)).filter fun found => !wording.isFirstDay found).map
    wording.inUtc

/-- `_instant`, said by `when`. -/
def instant (text : String) : Option String :=
  let text := strip text
  let found := if [] ∈ (stamp wording).left text.toList then moment wording text else none
  found.map fun found => if text.length = 10 then wording.whenDay found else wording.when found

/-- `_plain_words`, and those of nothing and a flag. -/
def scalarWords : Document ν → String
  | .bool value => if value then "yes" else "no"
  | .num value => wording.number value
  | .str text => (instant wording text).getD text
  | _ => ""

/-- `SAID_WHOLE`. -/
def saidWhole : Nat := 6

/-- `_record_words`. -/
def recordWords (members : List (String × Document ν)) : String :=
  if members.length > saidWhole ∨ ¬members.all fun member => scalar member.2 then
    counted wording members.length "field"
  else
    ", ".intercalate (members.map fun member =>
      let words := scalarWords wording member.2
      lowerFirst wording (fieldLabel wording member.1 none) ++ " " ++
        if words = "" then "empty" else words)

/-- `_list_words`. -/
def listWords (items : List (Document ν)) (schema : Option Schema) : String :=
  if items.all scalar then ", ".intercalate (items.map (scalarWords wording))
  else
    let noun := lowerFirst wording (itemsTitle schema)
    counted wording items.length (if noun ≠ "" ∧ ' ' ∉ noun.toList then noun else "entry")

/-- `value_words`: one value as a person reads it. -/
def valueWords (value : Document ν) (schema : Option Schema) : String :=
  match value with
  | .obj members => recordWords wording members
  | .arr items => listWords wording items schema
  | value => scalarWords wording value

/-! ## Two documents -/

/-- `document`: a string that is really a JSON document, read as one. -/
def document (value : Document ν) : Document ν :=
  match value with
  | .str text =>
      if (strip text).toList.head? = some '\x7b' ∨ (strip text).toList.head? = some '[' then
        (wording.loads text).getD value
      else value
  | value => value

theorem weight_document_le (value : Document ν) : (document wording value).weight ≤ value.weight := by
  cases value with
  | str text =>
      unfold document
      dsimp only
      split
      · cases hloads : wording.loads text with
        | none => exact Nat.le_refl _
        | some loaded =>
            have := wording.weight_le_of_loads hloads
            simp only [Option.getD_some, Document.weight]
            omega
      · exact Nat.le_refl _
  | _ => exact Nat.le_refl _

/-- Where a value is, outermost first. -/
abbrev Path := List Step

mutual

/-- `_leaves`: each value a document holds, by where it is. -/
def leaves (value : Document ν) (path : Path) : List (Path × Document ν) :=
  match _ : document wording value with
  | .obj (member :: members) => leavesOfMembers (member :: members) path
  | .arr items =>
      if items.all scalar then [(path, .arr items)] else leavesOfItems items 0 path
  | value => [(path, value)]
termination_by 2 * value.weight
decreasing_by
  all_goals
    have hweight := weight_document_le wording value
    rw [‹document wording value = _›, Document.weight] at hweight
    omega

def leavesOfItems (items : List (Document ν)) (index : Nat) (path : Path) :
    List (Path × Document ν) :=
  match items with
  | [] => []
  | item :: items =>
      leaves item (path ++ [.entry index]) ++ leavesOfItems items (index + 1) path
termination_by 2 * Document.weightOfItems items + 1
decreasing_by
  all_goals
    have hitem := item.weight_pos
    rw [Document.weightOfItems]
    omega

def leavesOfMembers (members : List (String × Document ν)) (path : Path) :
    List (Path × Document ν) :=
  match members with
  | [] => []
  | (name, child) :: members =>
      leaves child (path ++ [.key name]) ++ leavesOfMembers members path
termination_by 2 * Document.weightOfMembers members + 1
decreasing_by
  all_goals
    have hchild := child.weight_pos
    rw [Document.weightOfMembers]
    omega

end

/-- `path_words`: where a value is in a document, as a person names it. -/
def pathWords (path : Path) : String :=
  " › ".intercalate (path.map fun
    | .entry index => "Entry " ++ toString (index + 1)
    | .key name => if wording.isIdentifier name then fieldLabel wording name none else name)

/-- What became of a value. -/
inductive Change where
  | added
  | removed
  | changed
  deriving DecidableEq, Repr

/-- One value that moves, named and valued in words. -/
structure ChangeRow where
  label : String
  before : String
  after : String
  change : Change
  deriving DecidableEq, Repr

/-- What a document says of a place: nothing where it holds no value there. -/
def saidAt (found : List (Path × Document ν)) (path : Path) : String :=
  match found.lookup path with
  | some value => valueWords wording value none
  | none => ""

/-- The row of one place, where its words are not the same before and after. -/
def changeRow (wasAll nowAll : List (Path × Document ν)) (path : Path) : Option ChangeRow :=
  if saidAt wording wasAll path = saidAt wording nowAll path then none
  else some
    { label := pathWords wording path
      before := saidAt wording wasAll path
      after := saidAt wording nowAll path
      change :=
        if (wasAll.lookup path).isNone then .added
        else if (nowAll.lookup path).isNone then .removed
        else .changed }

/-- `changed_words`: the values that differ between two documents, each named by where it
is. -/
def changedWords (before after : Document ν) (within : Path) : List ChangeRow :=
  let wasAll := Dict.collect (leaves wording before within)
  let nowAll := Dict.collect (leaves wording after within)
  (wasAll.map Prod.fst ++ (nowAll.map Prod.fst).filter fun path => path ∉ wasAll.map Prod.fst).filterMap
    (changeRow wording wasAll nowAll)

/-! ## Places of a document -/

variable {wording}

/-- What a document holds at a place, where that is neither a record nor a list of more than plain
values: text that is a document is opened on the way, and of members of one name the last counts. -/
def leafAt (wording : Wording ν τ) (value : Document ν) : Path → Option (Document ν)
  | [] =>
      match document wording value with
      | .obj (_ :: _) => none
      | .arr items => if items.all scalar then some (.arr items) else none
      | leaf => some leaf
  | step :: path =>
      match document wording value, step with
      | .obj members, .key name => members.reverse.findSome? fun member =>
          if member.1 = name then leafAt wording member.2 path else none
      | .arr items, .entry index =>
          if items.all scalar then none
          else items[index]?.bind fun item => leafAt wording item path
      | _, _ => none

theorem leafAt_obj (members : List (String × Document ν)) (name : String) (path : Path) :
    leafAt wording (.obj members) (.key name :: path) = members.reverse.findSome? fun member =>
      if member.1 = name then leafAt wording member.2 path else none := rfl

/-- The words a document has at a place, none where it holds nothing there. -/
def wordsAt (wording : Wording ν τ) (value : Document ν) (path : Path) : String :=
  ((leafAt wording value path).map fun leaf => valueWords wording leaf none).getD ""

/-- What is found stands under a path, and is at each place under it what it is to hold there. -/
structure Found (found : List (Path × Document ν)) (within : Path)
    (held : Path → Option (Document ν)) : Prop where
  under : ∀ entry ∈ found, within <+: entry.1
  at_place : ∀ path, found.reverse.lookup (within ++ path) = held path

section Found

variable {found others : List (Path × Document ν)} {within : Path}
  {held heldToo : Path → Option (Document ν)}

theorem found_nil : Found ([] : List (Path × Document ν)) within fun _ => none :=
  ⟨nofun, fun _ => rfl⟩

theorem Found.append (h : Found found within held) (hothers : Found others within heldToo) :
    Found (found ++ others) within fun path => (heldToo path).or (held path) where
  under entry hentry := (List.mem_append.mp hentry).elim (h.under entry) (hothers.under entry)
  at_place path := by
    rw [List.reverse_append, List.lookup_append, h.at_place, hothers.at_place]

/-- One value, found where it is. -/
theorem found_singleton (value : Document ν) :
    Found [(within, value)] within fun path => if path = [] then some value else none where
  under entry hentry := by simp_all
  at_place path := by
    by_cases hpath : path = []
    · simp [hpath]
    · have hplace : (within ++ path == within) = false := by simpa using hpath
      simp [hpath, List.lookup_cons, hplace]

/-- What one step leads to. -/
def stepsTo (step : Step) (held : Path → Option (Document ν)) : Path → Option (Document ν)
  | [] => none
  | other :: path => if other = step then held path else none

/-- What is found one step down. -/
theorem Found.step {step : Step} (h : Found found (within ++ [step]) held) :
    Found found within (stepsTo step held) where
  under entry hentry := (List.prefix_append within [step]).trans (h.under entry hentry)
  at_place path := by
    have hnone : ∀ place : Path, ¬ within ++ [step] <+: place → found.reverse.lookup place = none := by
      intro place hplace
      rw [List.lookup_eq_none_iff]
      intro entry hentry
      have hne : place ≠ entry.1 := by
        rintro rfl
        exact hplace (h.under entry (List.mem_reverse.mp hentry))
      simpa using hne
    cases path with
    | nil =>
        apply hnone
        intro hprefix
        have hlength := hprefix.length_le
        rw [List.length_append, List.length_singleton, List.append_nil] at hlength
        omega
    | cons other path =>
        rw [stepsTo]
        by_cases hother : other = step
        · rw [if_pos hother, hother, List.append_cons, h.at_place]
        · rw [if_neg hother]
          apply hnone
          rw [List.prefix_append_right_inj, List.cons_prefix_cons]
          exact fun hstep => hother hstep.1.symm

theorem Found.of_eq (h : Found found within held) (heq : ∀ path, held path = heldToo path) :
    Found found within heldToo :=
  funext heq ▸ h

end Found

section Leaves

variable {within : Path}

theorem found_items {items : List (Document ν)}
    (h : ∀ item ∈ items, ∀ within, Found (leaves wording item within) within (leafAt wording item))
    (index : Nat) :
    Found (leavesOfItems wording items index within) within fun
      | .entry place :: path =>
          if place < index then none
          else items[place - index]?.bind fun item => leafAt wording item path
      | _ => none := by
  induction items generalizing index with
  | nil =>
      rw [leavesOfItems]
      refine found_nil.of_eq fun path => ?_
      split <;> simp
  | cons item items ih =>
      have hitem := (h item List.mem_cons_self (within ++ [.entry index])).step
      have hitems := ih (fun other hother => h other (List.mem_cons_of_mem _ hother)) (index + 1)
      rw [leavesOfItems]
      refine (hitem.append hitems).of_eq fun path => ?_
      match path with
      | [] => rfl
      | .key name :: path => simp [stepsTo]
      | .entry place :: path =>
          rcases Nat.lt_trichotomy place index with hlt | rfl | hgt
          · simp [stepsTo, hlt, Nat.lt_succ_of_lt hlt, Nat.ne_of_lt hlt]
          · simp [stepsTo]
          · have hplace : place - index = (place - (index + 1)) + 1 := by omega
            have hnot : ¬ place < index + 1 := by omega
            simp [stepsTo, hplace, hnot, Nat.not_lt_of_gt hgt, Nat.ne_of_gt hgt]

theorem found_members {members : List (String × Document ν)}
    (h : ∀ member ∈ members, ∀ within,
      Found (leaves wording member.2 within) within (leafAt wording member.2)) :
    Found (leavesOfMembers wording members within) within fun
      | .key name :: path => members.reverse.findSome? fun member =>
          if member.1 = name then leafAt wording member.2 path else none
      | _ => none := by
  induction members with
  | nil =>
      rw [leavesOfMembers]
      refine found_nil.of_eq fun path => ?_
      split <;> rfl
  | cons member members ih =>
      obtain ⟨name, child⟩ := member
      have hchild := (h (name, child) List.mem_cons_self (within ++ [.key name])).step
      have hmembers := ih fun other hother => h other (List.mem_cons_of_mem _ hother)
      rw [leavesOfMembers]
      refine (hchild.append hmembers).of_eq fun path => ?_
      match path with
      | [] => rfl
      | .entry place :: path => simp [stepsTo]
      | .key other :: path =>
          simp only [stepsTo, List.reverse_cons, List.findSome?_append, Step.key.injEq]
          by_cases hname : name = other
          · simp [hname]
          · simp [hname, Ne.symm hname]

theorem weight_le_of_mem_items {items : List (Document ν)} {item : Document ν} (h : item ∈ items) :
    item.weight ≤ Document.weightOfItems items := by
  induction items with
  | nil => exact nomatch h
  | cons other items ih =>
      rw [Document.weightOfItems]
      rcases List.mem_cons.mp h with rfl | hmem
      · omega
      · have := ih hmem
        omega

theorem weight_le_of_mem_members {members : List (String × Document ν)} {member : String × Document ν}
    (h : member ∈ members) : member.2.weight ≤ Document.weightOfMembers members := by
  induction members with
  | nil => exact nomatch h
  | cons other members ih =>
      obtain ⟨name, child⟩ := other
      rw [Document.weightOfMembers]
      rcases List.mem_cons.mp h with rfl | hmem
      · exact Nat.le_trans (Nat.le_add_left _ _) (Nat.le_add_right _ _)
      · have := ih hmem
        omega

/-- The leaves of a document are what it holds, by their places. -/
theorem found_leaves (value : Document ν) (within : Path) :
    Found (leaves wording value within) within (leafAt wording value) := by
  induction hweight : value.weight using Nat.strongRecOn generalizing value within with
  | _ weight ih =>
      subst hweight
      have hopened := weight_document_le wording value
      rw [leaves]
      split
      · next member members hmatch =>
          rw [hmatch, Document.weight] at hopened
          refine (found_members fun child hchild within => ih _ ?_ child.2 within rfl).of_eq
            fun path => ?_
          · have := weight_le_of_mem_members hchild
            omega
          · cases path with
            | nil => simp [leafAt, hmatch]
            | cons step path => cases step <;> simp [leafAt, hmatch]
      · next items hmatch =>
          rw [hmatch, Document.weight] at hopened
          by_cases hplain : items.all scalar = true
          · rw [if_pos hplain]
            refine (found_singleton _).of_eq fun path => ?_
            cases path with
            | nil => simp [leafAt, hmatch, hplain]
            | cons step path => cases step <;> simp [leafAt, hmatch, hplain]
          · rw [if_neg hplain]
            refine (found_items (fun item hitem within => ih _ ?_ item within rfl) 0).of_eq
              fun path => ?_
            · have := weight_le_of_mem_items hitem
              omega
            · cases path with
              | nil => simp [leafAt, hmatch, hplain]
              | cons step path => cases step <;> simp [leafAt, hmatch, hplain]
      · next hmembers hitems =>
          refine (found_singleton _).of_eq fun path => ?_
          cases path with
          | nil =>
              unfold leafAt
              generalize document wording value = opened at hmembers hitems ⊢
              cases opened with
              | obj members =>
                  cases members with
                  | nil => rfl
                  | cons member members => exact (hmembers member members rfl).elim
              | arr items => exact (hitems items rfl).elim
              | null | bool | num | str => rfl
          | cons step path =>
              unfold leafAt
              generalize document wording value = opened at hmembers hitems ⊢
              cases opened with
              | obj members =>
                  cases members with
                  | nil => cases step <;> rfl
                  | cons member members => exact (hmembers member members rfl).elim
              | arr items => exact (hitems items rfl).elim
              | null | bool | num | str => rfl

end Leaves

/-! ## What two documents say -/

theorem saidAt_of_not_mem {found : List (Path × Document ν)} {path : Path}
    (h : path ∉ found.map Prod.fst) : saidAt wording found path = "" := by
  have hnone : found.lookup path = none := by
    rw [List.lookup_eq_none_iff]
    intro item hitem
    have hne : path ≠ item.1 := by
      rintro rfl
      exact h (List.mem_map_of_mem hitem)
    simpa using hne
  simp [saidAt, hnone]

/-- What the leaves of a document say of a place are the words it has there. -/
theorem saidAt_leaves (value : Document ν) (path : Path) :
    saidAt wording (Dict.collect (leaves wording value [])) path = wordsAt wording value path := by
  have hlookup := Dict.lookup_collect (leaves wording value []) path
  rw [lawful_beq_subsingleton instBEqOfDecidableEq (List.instBEq : BEq Path)] at hlookup
  have hfound : Found (leaves wording value []) [] (leafAt wording value) := found_leaves value []
  have hleaf := hfound.at_place path
  rw [List.nil_append, ← hlookup] at hleaf
  rw [saidAt, hleaf, wordsAt]
  cases leafAt wording value path <;> rfl

/-- No change is told exactly where the two documents have the same words at every place. -/
theorem changedWords_eq_nil {before after : Document ν} :
    changedWords wording before after [] = [] ↔
      ∀ place, wordsAt wording before place = wordsAt wording after place := by
  simp only [← saidAt_leaves]
  unfold changedWords
  generalize Dict.collect (leaves wording before []) = wasAll
  generalize Dict.collect (leaves wording after []) = nowAll
  have hrow : ∀ path, changeRow wording wasAll nowAll path = none ↔
      saidAt wording wasAll path = saidAt wording nowAll path := by
    intro path
    unfold changeRow
    split <;> simp_all
  rw [List.filterMap_eq_nil_iff]
  constructor
  · intro hnone path
    by_cases hwas : path ∈ wasAll.map Prod.fst
    · exact (hrow path).mp (hnone path (List.mem_append_left _ hwas))
    · by_cases hnow : path ∈ nowAll.map Prod.fst
      · refine (hrow path).mp (hnone path (List.mem_append_right _ ?_))
        simpa [hnow] using hwas
      · rw [saidAt_of_not_mem hwas, saidAt_of_not_mem hnow]
  · intro halike path _
    exact (hrow path).mpr (halike path)

end SeverinoHQ.Approvals
