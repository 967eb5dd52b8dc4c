/-
# Command-line flags

How a program reads its arguments against the table of flags it knows. A long
flag has its value in its own word or in the next one; short flags cluster; a
flag that implies a value never takes the next word. What is neither is an
operand. A flag the table does not hold, or a value its flag does not accept,
fails the whole reading.
-/

import SeverinoHQ.Math.Bytes

namespace SeverinoHQ.Math

open Bytes (ascii cut)

/-- A flag, the value it has when it is given without one, empty where it needs
one, and the values it accepts. -/
structure Flag where
  name : Bytes
  short : Option UInt8 := none
  implied : Bytes := []
  accepts : Bytes → Bool := fun _ => true

/-- The flags a command knows. -/
abbrev FlagTable := List Flag

/-- What one word of flags gives, and the flag that takes the next word. -/
structure FlagWord where
  given : List (Bytes × Bytes)
  awaits : Option Flag

/-- What the arguments of a command read as: the flags given, in order, and the operands. -/
structure Reading where
  given : List (Bytes × Bytes)
  operands : List Bytes

/-- The values a flag is given, in order. -/
def Reading.values (reading : Reading) (name : Bytes) : List Bytes :=
  (reading.given.filter (·.1 == name)).map Prod.snd

/-- A reading behind more flags. -/
def Reading.after (given : List (Bytes × Bytes)) (reading : Reading) : Reading :=
  { reading with given := given ++ reading.given }

@[simp]
theorem Reading.operands_after (given : List (Bytes × Bytes)) (reading : Reading) :
    (reading.after given).operands = reading.operands := rfl

/-- Flags of other names add nothing to a flag's values. -/
theorem Reading.values_after {given : List (Bytes × Bytes)} {name : Bytes} (reading : Reading)
    (hother : ∀ pair ∈ given, pair.1 ≠ name) :
    (reading.after given).values name = reading.values name := by
  have hnone : given.filter (·.1 == name) = [] := by
    simpa [List.filter_eq_nil_iff] using fun first value hmem => hother (first, value) hmem
  simp [Reading.values, Reading.after, hnone]

/-- A flag given a value in its own word. -/
def Flag.set (flag : Flag) (value : Bytes) : Option FlagWord :=
  if flag.accepts value then some ⟨[(flag.name, value)], none⟩ else none

namespace FlagTable

/-- A long flag, without its two dashes. -/
def longWord (table : FlagTable) (text : Bytes) : Option FlagWord :=
  if text = [] ∨ text.head? = some 45 ∨ text.head? = some 61 then none
  else
    (table.find? (·.name == (cut 61 text).1)).bind fun flag =>
      if (cut 61 text).2.2 then flag.set (cut 61 text).2.1
      else if flag.implied ≠ [] then flag.set flag.implied
      else some ⟨[], some flag⟩

/-- A cluster of short flags, without its dash: one that needs a value takes the
rest of the cluster, or the next word where it ends the cluster. -/
def shortWord (table : FlagTable) : Bytes → Option FlagWord
  | [] => some ⟨[], none⟩
  | byte :: rest =>
      (table.find? (·.short == some byte)).bind fun flag =>
        if rest.head? = some 61 ∧ 1 < rest.length then flag.set (rest.drop 1)
        else if flag.implied ≠ [] then
          if flag.accepts flag.implied then
            (table.shortWord rest).map fun later =>
              ⟨(flag.name, flag.implied) :: later.given, later.awaits⟩
          else none
        else if rest ≠ [] then flag.set rest
        else some ⟨[], some flag⟩

/-- A word that begins with a dash. -/
def word (table : FlagTable) (arg : Bytes) : Option FlagWord :=
  if (ascii "--").isPrefixOf arg then table.longWord (arg.drop 2) else table.shortWord (arg.drop 1)

/-- The arguments of a command. Not interspersed, the operands are everything from
the first one on. -/
def parse (table : FlagTable) (interspersed : Bool) : List Bytes → Option Reading
  | [] => some ⟨[], []⟩
  | arg :: rest =>
      if arg = ascii "--" then some ⟨[], rest⟩
      else if (ascii "-").isPrefixOf arg && arg.length > 1 then
        match table.word arg with
        | none => none
        | some ⟨given, none⟩ => (table.parse interspersed rest).map (·.after given)
        | some ⟨given, some flag⟩ =>
            match rest with
            | [] => none
            | value :: later =>
                if flag.accepts value then
                  (table.parse interspersed later).map (·.after (given ++ [(flag.name, value)]))
                else none
      else if !interspersed then some ⟨[], arg :: rest⟩
      else
        (table.parse interspersed rest).map fun reading =>
          { reading with operands := arg :: reading.operands }

variable {table : FlagTable}

/-- A long flag is one of the table's, with the value in its word, the value it
implies, or the next word to come. -/
theorem longWord_spec {text : Bytes} {word : FlagWord} (h : table.longWord text = some word) :
    ∃ flag ∈ table, flag.name = (cut 61 text).1 ∧
      word = if (cut 61 text).2.2 then ⟨[(flag.name, (cut 61 text).2.1)], none⟩
        else if flag.implied ≠ [] then ⟨[(flag.name, flag.implied)], none⟩
        else ⟨[], some flag⟩ := by
  unfold longWord at h
  split at h
  · cases h
  · obtain ⟨flag, hfind, hflag⟩ := Option.bind_eq_some_iff.mp h
    have hname : flag.name = (cut 61 text).1 := by simpa using List.find?_some hfind
    refine ⟨flag, List.mem_of_find?_eq_some hfind, hname, ?_⟩
    by_cases hinline : (cut 61 text).2.2
    · simp only [hinline, if_true, Flag.set, Option.ite_none_right_eq_some,
        Option.some.injEq] at hflag ⊢
      exact hflag.2.symm
    · by_cases himplied : flag.implied = []
      · simpa [hinline, himplied, eq_comm] using hflag
      · simp only [hinline, himplied, Flag.set, ne_eq, not_false_eq_true, if_true,
          Bool.false_eq_true, if_false, Option.ite_none_right_eq_some,
          Option.some.injEq] at hflag ⊢
        exact hflag.2.symm

/-- The first flag of a cluster is one of the table's: it has its value in the
word, or implies one and leaves the rest of the cluster, or takes the next word. -/
theorem shortWord_cons {byte : UInt8} {rest : Bytes} {word : FlagWord}
    (h : table.shortWord (byte :: rest) = some word) :
    ∃ flag ∈ table, flag.short = some byte ∧
      ((rest.head? = some 61 ∨ flag.implied = [] ∧ rest ≠ []) ∧ word.awaits = none ∨
        (flag.implied ≠ [] ∧ ∃ later, table.shortWord rest = some later ∧
          word = ⟨(flag.name, flag.implied) :: later.given, later.awaits⟩) ∨
        flag.implied = [] ∧ rest = [] ∧ word.awaits = some flag) := by
  rw [shortWord] at h
  obtain ⟨flag, hfind, hflag⟩ := Option.bind_eq_some_iff.mp h
  refine ⟨flag, List.mem_of_find?_eq_some hfind, by simpa using List.find?_some hfind, ?_⟩
  have hset : ∀ {value : Bytes}, flag.set value = some word → word.awaits = none := by
    intro value hvalue
    simp only [Flag.set, Option.ite_none_right_eq_some, Option.some.injEq] at hvalue
    rw [← hvalue.2]
  split at hflag
  · next hequals => exact .inl ⟨.inl hequals.1, hset hflag⟩
  · split at hflag
    · next himplied =>
        split at hflag
        · obtain ⟨later, hlater, hword⟩ := Option.map_eq_some_iff.mp hflag
          exact .inr (.inl ⟨himplied, later, hlater, hword.symm⟩)
        · cases hflag
    · next himplied =>
        have himplied : flag.implied = [] := not_not.mp himplied
        split at hflag
        · next hrest => exact .inl ⟨.inr ⟨himplied, hrest⟩, hset hflag⟩
        · next hrest =>
            cases hflag
            exact .inr (.inr ⟨himplied, not_not.mp hrest, rfl⟩)

/-- A word of flags is read with the words after it: with all of them, or with
those behind the value its last flag takes. -/
theorem parse_dash {interspersed : Bool} {arg : Bytes} {rest : List Bytes} {reading : Reading}
    (hend : arg ≠ ascii "--") (hdash : (ascii "-").isPrefixOf arg) (hlength : 1 < arg.length)
    (h : table.parse interspersed (arg :: rest) = some reading) :
    ∃ word, table.word arg = some word ∧
      ((word.awaits = none ∧ ∃ tail, table.parse interspersed rest = some tail ∧
          reading = tail.after word.given) ∨
        ∃ flag value later tail, word.awaits = some flag ∧ rest = value :: later ∧
          table.parse interspersed later = some tail ∧
          reading = tail.after (word.given ++ [(flag.name, value)])) := by
  rw [parse, if_neg hend, if_pos (by simp [hdash, hlength])] at h
  split at h
  · cases h
  · next given hword =>
      obtain ⟨tail, htail, heq⟩ := Option.map_eq_some_iff.mp h
      exact ⟨_, hword, .inl ⟨rfl, tail, htail, heq.symm⟩⟩
  · next given flag hword =>
      split at h
      · cases h
      · next value later =>
          obtain ⟨tail, htail, heq⟩ :=
            Option.map_eq_some_iff.mp (Option.ite_none_right_eq_some.mp h).2
          exact ⟨_, hword, .inr ⟨flag, value, later, tail, rfl, rfl, htail, heq.symm⟩⟩

/-- A word that takes no other is read with all the words after it. -/
theorem parse_alone {interspersed : Bool} {arg : Bytes} {rest : List Bytes} {reading : Reading}
    (hend : arg ≠ ascii "--") (hdash : (ascii "-").isPrefixOf arg) (hlength : 1 < arg.length)
    (hnone : ∀ word, table.word arg = some word → word.awaits = none)
    (h : table.parse interspersed (arg :: rest) = some reading) :
    ∃ word tail, table.word arg = some word ∧ table.parse interspersed rest = some tail ∧
      reading = tail.after word.given := by
  obtain ⟨word, hword, ⟨-, tail, htail, heq⟩ | ⟨flag, _, _, _, hawaits, -⟩⟩ :=
    parse_dash hend hdash hlength h
  · exact ⟨word, tail, hword, htail, heq⟩
  · simp [hnone word hword] at hawaits

/-- A word that takes the next is read with the words behind that. -/
theorem parse_takes {interspersed : Bool} {arg value : Bytes} {later : List Bytes}
    {reading : Reading} (hend : arg ≠ ascii "--") (hdash : (ascii "-").isPrefixOf arg)
    (hlength : 1 < arg.length) (hsome : ∀ word, table.word arg = some word → word.awaits.isSome)
    (h : table.parse interspersed (arg :: value :: later) = some reading) :
    ∃ word flag tail, table.word arg = some word ∧ word.awaits = some flag ∧
      table.parse interspersed later = some tail ∧
      reading = tail.after (word.given ++ [(flag.name, value)]) := by
  obtain ⟨word, hword, ⟨hnone, -⟩ | ⟨flag, value', later', tail, hawaits, hrest, htail, heq⟩⟩ :=
    parse_dash hend hdash hlength h
  · simpa [hnone] using hsome word hword
  · cases hrest
    exact ⟨word, flag, tail, hword, hawaits, htail, heq⟩

/-- The operands are among the arguments. -/
theorem operands_subset {interspersed : Bool} {args : List Bytes}
    {reading : Reading} (h : table.parse interspersed args = some reading) :
    reading.operands ⊆ args := by
  fun_induction parse table interspersed args generalizing reading with
  | case1 =>
      cases h
      exact List.Subset.refl _
  | case2 rest =>
      cases h
      exact List.subset_cons_self _ _
  | case4 arg rest _ _ _ _ ih =>
      obtain ⟨tail, htail, rfl⟩ := Option.map_eq_some_iff.mp h
      rw [Reading.operands_after]
      exact List.subset_cons_of_subset _ (ih htail)
  | case6 arg _ _ _ _ _ value later _ ih =>
      obtain ⟨tail, htail, rfl⟩ := Option.map_eq_some_iff.mp h
      rw [Reading.operands_after]
      exact List.subset_cons_of_subset _ (List.subset_cons_of_subset _ (ih htail))
  | case8 =>
      cases h
      exact List.Subset.refl _
  | case9 arg rest _ _ _ ih =>
      obtain ⟨tail, htail, rfl⟩ := Option.map_eq_some_iff.mp h
      exact List.cons_subset_cons _ (ih htail)
  | case3 | case5 | case7 => cases h

end FlagTable

end SeverinoHQ.Math
