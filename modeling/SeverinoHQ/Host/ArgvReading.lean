/-
# The names docker itself reads

Docker reads a start command against the whole table of each command's flags,
and keeps the last value of a flag that is given again. Where its parser accepts
a command, the operands the helper reads are docker's own. A container's name
given twice is not, nor one behind a lone dash, nor a service that stands as an
option's value.
-/

import SeverinoHQ.Host.Argv
import SeverinoHQ.Math.Flags

namespace SeverinoHQ.Host

open SeverinoHQ.Math
open SeverinoHQ.Math.Bytes (ascii cut cutPrefix)

/-! ## Options and tables -/

/-- Where a command's table holds these options, it holds them as they are listed:
those read with a value need one, and those that stand alone imply one. -/
structure Options.Describes (options : Options) (table : FlagTable) : Prop where
  long_value : ∀ flag ∈ table, ascii "--" ++ flag.name ∈ options.values → flag.implied = []
  long_flag : ∀ flag ∈ table, ascii "--" ++ flag.name ∈ options.flags → flag.implied ≠ []
  short_value : ∀ flag ∈ table,
    flag.short.any (fun byte => options.values.contains (ascii "-" ++ [byte])) → flag.implied = []
  short_flag : ∀ flag ∈ table,
    flag.short.any (fun byte => options.flags.contains (ascii "-" ++ [byte])) → flag.implied ≠ []

/-- No option is an equals sign. -/
def Options.Plain (options : Options) : Prop :=
  ascii "-=" ∉ options.values ∧ ascii "-=" ∉ options.flags

instance (options : Options) : Decidable options.Plain := inferInstanceAs (Decidable (_ ∧ _))

/-- A long option is cut behind its two dashes. -/
theorem cut_dashes (text : Bytes) :
    cut 61 (ascii "--" ++ text) = (ascii "--" ++ (cut 61 text).1, (cut 61 text).2) := by
  have hdashes : ascii "--" = [45, 45] := by decide
  simp only [hdashes, cut, List.cons_append, List.nil_append, List.dropWhile, List.takeWhile]
  cases text.dropWhile (· != 61) <;> rfl

variable {options : Options} {table : FlagTable}

/-- What the helper steps over in a cluster, the parser's word steps over. -/
theorem awaits_of_cluster (hdescribes : options.Describes table) (hplain : options.Plain)
    {text : Bytes} {word : FlagWord} (hword : table.shortWord text = some word) :
    (options.cluster text = .alone → word.awaits = none) ∧
      (options.cluster text = .takesNext → word.awaits.isSome) := by
  induction text generalizing word with
  | nil =>
      cases hword
      simp [Options.cluster]
  | cons byte rest ih =>
      obtain ⟨flag, hmem, hshort, hcase⟩ := FlagTable.shortWord_cons hword
      rw [Options.cluster]
      by_cases hvalue : ascii "-" ++ [byte] ∈ options.values
      · have himplied := hdescribes.short_value flag hmem (by simp [hshort, hvalue])
        obtain ⟨hrest, hnone⟩ | ⟨hstands, -⟩ | ⟨-, hrest, hsome⟩ := hcase
        · have hrest : rest ≠ [] := by
            obtain hequals | hrest := hrest
            · rintro rfl
              cases hequals
            · exact hrest.2
          simp [hvalue, hrest, hnone]
        · exact absurd himplied hstands
        · simp [hvalue, hrest, hsome]
      · by_cases hflag : ascii "-" ++ [byte] ∈ options.flags
        · have himplied := hdescribes.short_flag flag hmem (by simp [hshort, hflag])
          simp only [List.contains_iff_mem, hvalue, hflag, if_true, if_false]
          obtain ⟨hrest, hnone⟩ | ⟨-, later, hlater, rfl⟩ | ⟨hneeds, -⟩ := hcase
          · obtain hequals | ⟨hneeds, -⟩ := hrest
            · obtain ⟨rest, rfl⟩ := List.head?_eq_some_iff.mp hequals
              have hunknown : options.cluster (61 :: rest) = .unknown := by
                have hdash : ascii "-" ++ [61] = ascii "-=" := by decide
                simp [Options.cluster, hdash, hplain.1, hplain.2]
              simp [hunknown]
            · exact absurd hneeds himplied
          · have hlater := ih hlater
            exact hlater
          · exact absurd hneeds himplied
        · simp [hvalue, hflag]

/-- A word of long options is cut where the whole argument is. -/
theorem longWord_of_word {arg : Bytes} {word : FlagWord} (hdashes : (ascii "--").isPrefixOf arg)
    (hword : table.word arg = some word) :
    ∃ text, arg = ascii "--" ++ text ∧ table.longWord text = some word := by
  obtain ⟨text, rfl⟩ := List.isPrefixOf_iff_prefix.mp hdashes
  rw [FlagTable.word, if_pos hdashes] at hword
  have hlength : (ascii "--").length = 2 := by decide
  rw [← hlength, List.drop_left] at hword
  exact ⟨text, rfl, hword⟩

/-- A long option the helper reads a value after takes the next word where it has
none of its own; one that stands alone takes none. -/
theorem awaits_of_long (hdescribes : options.Describes table) {arg : Bytes} {word : FlagWord}
    (hdashes : (ascii "--").isPrefixOf arg) (hword : table.word arg = some word) :
    ((cut 61 arg).1 ∈ options.values → word.awaits.isSome = !(cut 61 arg).2.2) ∧
      ((cut 61 arg).1 ∈ options.flags → word.awaits = none) := by
  obtain ⟨text, rfl, hlong⟩ := longWord_of_word hdashes hword
  obtain ⟨flag, hmem, hname, rfl⟩ := FlagTable.longWord_spec hlong
  rw [cut_dashes, ← hname]
  constructor
  · intro hvalue
    have himplied := hdescribes.long_value flag hmem hvalue
    by_cases hinline : (cut 61 text).2.2 <;> simp [hinline, himplied]
  · intro hflag
    have himplied := hdescribes.long_flag flag hmem hflag
    by_cases hinline : (cut 61 text).2.2 <;> simp [hinline, himplied]

/-- An argument with two dashes begins with one, and is longer than one byte. -/
theorem dash_of_dashes {arg : Bytes} (hdashes : (ascii "--").isPrefixOf arg) :
    (ascii "-").isPrefixOf arg ∧ 1 < arg.length := by
  obtain ⟨text, rfl⟩ := List.isPrefixOf_iff_prefix.mp hdashes
  have hbytes : ascii "--" = [45, 45] := by decide
  have hbyte : ascii "-" = [45] := by decide
  simp [hbytes, hbyte]

/-- Where the parser accepts the arguments, the operands the helper reads are its
operands. -/
theorem operands_eq (hdescribes : options.Describes table) (hplain : options.Plain)
    {interspersed : Bool} {args ops : List Bytes} {reading : Reading}
    (hops : options.operands interspersed args = some ops)
    (hread : table.parse interspersed args = some reading) : reading.operands = ops := by
  fun_induction Options.operands options interspersed args generalizing ops reading with
  | case1 =>
      cases hops
      cases hread
      rfl
  | case2 rest =>
      cases hops
      rw [FlagTable.parse, if_pos rfl] at hread
      cases hread
      rfl
  | case3 arg rest hend hdashes hvalue hinline ih =>
      have hdash := dash_of_dashes hdashes
      obtain ⟨word, tail, -, htail, rfl⟩ := FlagTable.parse_alone hend hdash.1 hdash.2
        (fun word hword => by
          simpa [hinline] using (awaits_of_long hdescribes hdashes hword).1 (by simpa using hvalue))
        hread
      simpa using ih hops htail
  | case5 arg hend hdashes hvalue hinline value later ih =>
      have hdash := dash_of_dashes hdashes
      obtain ⟨word, flag, tail, -, -, htail, rfl⟩ := FlagTable.parse_takes hend hdash.1 hdash.2
        (fun word hword => by
          simpa [hinline] using (awaits_of_long hdescribes hdashes hword).1 (by simpa using hvalue))
        hread
      simpa using ih hops htail
  | case6 arg rest hend hdashes hvalue hflag ih =>
      have hdash := dash_of_dashes hdashes
      obtain ⟨word, tail, -, htail, rfl⟩ := FlagTable.parse_alone hend hdash.1 hdash.2
        (fun word hword => (awaits_of_long hdescribes hdashes hword).2 (by simpa using hflag))
        hread
      simpa using ih hops htail
  | case9 arg rest hend hdashes hdash hcluster ih =>
      rw [Bool.and_eq_true, decide_eq_true_iff] at hdash
      obtain ⟨word, tail, -, htail, rfl⟩ := FlagTable.parse_alone hend hdash.1 hdash.2
        (fun word hword => by
          rw [FlagTable.word, if_neg hdashes] at hword
          exact (awaits_of_cluster hdescribes hplain hword).1 hcluster) hread
      simpa using ih hops htail
  | case11 arg hend hdashes hdash hcluster value later ih =>
      rw [Bool.and_eq_true, decide_eq_true_iff] at hdash
      obtain ⟨word, flag, tail, -, -, htail, rfl⟩ := FlagTable.parse_takes hend hdash.1 hdash.2
        (fun word hword => by
          rw [FlagTable.word, if_neg hdashes] at hword
          exact (awaits_of_cluster hdescribes hplain hword).2 hcluster) hread
      simpa using ih hops htail
  | case12 arg rest hend hdashes hdash hstops =>
      cases hops
      rw [FlagTable.parse, if_neg hend, if_neg hdash, if_pos hstops] at hread
      cases hread
      rfl
  | case13 arg rest hend hdashes hdash hgoes ih =>
      obtain ⟨operands, hoperands, rfl⟩ := Option.map_eq_some_iff.mp hops
      rw [FlagTable.parse, if_neg hend, if_neg hdash, if_neg hgoes] at hread
      obtain ⟨tail, htail, rfl⟩ := Option.map_eq_some_iff.mp hread
      simp [ih hoperands htail]
  | case4 | case7 | case8 | case10 => cases hops

/-! ## The name of a container -/

/-- A cluster of options that all stand alone gives flags that imply their value. -/
theorem given_of_cluster (hdescribes : options.Describes table) (hplain : options.Plain)
    (hvalues : options.values = []) {text : Bytes} {word : FlagWord}
    (hcluster : options.cluster text ≠ .unknown) (hword : table.shortWord text = some word) :
    ∀ pair ∈ word.given, ∃ flag ∈ table, flag.name = pair.1 ∧ flag.implied ≠ [] := by
  induction text generalizing word with
  | nil =>
      cases hword
      simp
  | cons byte rest ih =>
      obtain ⟨flag, hmem, hshort, hcase⟩ := FlagTable.shortWord_cons hword
      rw [Options.cluster, hvalues] at hcluster
      by_cases hflag : ascii "-" ++ [byte] ∈ options.flags
      · have himplied := hdescribes.short_flag flag hmem (by simp [hshort, hflag])
        simp only [List.contains_nil, Bool.false_eq_true, if_false, List.contains_iff_mem, hflag,
          if_true] at hcluster
        obtain ⟨hequals | ⟨hneeds, -⟩, -⟩ | ⟨-, later, hlater, rfl⟩ | ⟨hneeds, -⟩ := hcase
        · obtain ⟨rest, rfl⟩ := List.head?_eq_some_iff.mp hequals
          have hdash : ascii "-" ++ [61] = ascii "-=" := by decide
          simp [Options.cluster, hvalues, hdash, hplain.2] at hcluster
        · exact absurd hneeds himplied
        · have hlater := ih hcluster hlater
          simpa using ⟨⟨flag, hmem, rfl, himplied⟩, fun first value => hlater (first, value)⟩
        · exact absurd hneeds himplied
      · simp [hflag] at hcluster

/-- An option the helper steps over because it stands alone takes no other word, and
gives only flags that imply their value. -/
theorem word_of_flags (hdescribes : options.Describes table) (hplain : options.Plain)
    (hvalues : options.values = []) {arg : Bytes} {word : FlagWord} (hend : arg ≠ ascii "--")
    (hdash : (ascii "-").isPrefixOf arg) (hlength : 1 < arg.length)
    (hops : options.operands false [arg] ≠ none) (hword : table.word arg = some word) :
    word.awaits = none ∧
      ∀ pair ∈ word.given, ∃ flag ∈ table, flag.name = pair.1 ∧ flag.implied ≠ [] := by
  rw [Options.operands, if_neg hend] at hops
  by_cases hdashes : (ascii "--").isPrefixOf arg
  · have hflag : (cut 61 arg).1 ∈ options.flags := by
      by_contra hflag
      simp [hdashes, hvalues, hflag] at hops
    refine ⟨(awaits_of_long hdescribes hdashes hword).2 hflag, ?_⟩
    obtain ⟨text, rfl, hlong⟩ := longWord_of_word hdashes hword
    obtain ⟨flag, hmem, hname, rfl⟩ := FlagTable.longWord_spec hlong
    rw [cut_dashes, ← hname] at hflag
    have himplied := hdescribes.long_flag flag hmem hflag
    by_cases hinline : (cut 61 text).2.2
    · simpa [hinline] using ⟨flag, hmem, rfl, himplied⟩
    · simpa [hinline, himplied] using ⟨flag, hmem, rfl, himplied⟩
  · rw [FlagTable.word, if_neg hdashes] at hword
    rw [if_neg hdashes, if_pos (by simp [hdash, hlength])] at hops
    have hcluster : options.cluster (arg.drop 1) = .alone := by
      cases hcluster : options.cluster (arg.drop 1) with
      | alone => rfl
      | takesNext | unknown =>
          simp only [hcluster] at hops
          exact absurd rfl hops
    exact ⟨(awaits_of_cluster hdescribes hplain hword).1 hcluster,
      given_of_cluster hdescribes hplain hvalues (by rw [hcluster]; nofun) hword⟩

/-- What is before the first separator begins the text. -/
theorem cut_begins (separator : UInt8) (text : Bytes) : (cut separator text).1 <+: text := by
  unfold cut
  split
  · simp
  · exact List.takeWhile_prefix _

/-- `--name` gives the name in its own word, or takes the next one. -/
theorem word_of_name (hneeds : ∀ flag ∈ table, flag.name = ascii "name" → flag.implied = [])
    {arg : Bytes} {word : FlagWord} (hdashes : (ascii "--").isPrefixOf arg)
    (hcut : (cut 61 arg).1 = ascii "--name") (hword : table.word arg = some word) :
    ∃ flag : Flag, flag.name = ascii "name" ∧
      word = if (cut 61 arg).2.2 then ⟨[(flag.name, (cut 61 arg).2.1)], none⟩
        else ⟨[], some flag⟩ := by
  obtain ⟨text, rfl, hlong⟩ := longWord_of_word hdashes hword
  obtain ⟨flag, hmem, hname, rfl⟩ := FlagTable.longWord_spec hlong
  rw [cut_dashes] at hcut ⊢
  have hsplit : ascii "--name" = ascii "--" ++ ascii "name" := by decide
  have hflag : flag.name = ascii "name" := by
    rw [hname]
    exact List.append_cancel_left (hcut.trans hsplit)
  exact ⟨flag, hflag, by simp [hneeds flag hmem hflag]⟩

/-- An argument cut behind `--name` begins with two dashes, and is more than them. -/
theorem dashes_of_name {arg : Bytes} (hcut : (cut 61 arg).1 = ascii "--name") :
    arg ≠ ascii "--" ∧ (ascii "--").isPrefixOf arg := by
  constructor
  · rintro rfl
    revert hcut
    decide
  · have hdashes : ascii "--" <+: ascii "--name" := ⟨ascii "name", by decide⟩
    rw [← hcut] at hdashes
    exact List.isPrefixOf_iff_prefix.mpr (hdashes.trans (cut_begins 61 arg))

/-- Another long option with its value behind an equals sign takes no other word, and
gives no name. -/
theorem word_of_other {arg : Bytes} {word : FlagWord} (hdashes : (ascii "--").isPrefixOf arg)
    (hinline : (cut 61 arg).2.2 = true) (hother : (cut 61 arg).1 ≠ ascii "--name")
    (hword : table.word arg = some word) :
    word.awaits = none ∧ ∀ pair ∈ word.given, pair.1 ≠ ascii "name" := by
  obtain ⟨text, rfl, hlong⟩ := longWord_of_word hdashes hword
  obtain ⟨flag, -, hflag, rfl⟩ := FlagTable.longWord_spec hlong
  rw [cut_dashes] at hinline hother
  have hname : flag.name ≠ ascii "name" := by
    intro hsame
    have hsplit : ascii "--" ++ ascii "name" = ascii "--name" := by decide
    rw [← hflag, hsame] at hother
    exact hother hsplit
  simpa [show (cut 61 text).2.2 = true from hinline] using hname

/-- The first name given is the one behind the equals sign. -/
theorem first_of_inline (hneeds : ∀ flag ∈ table, flag.name = ascii "name" → flag.implied = [])
    {arg : Bytes} {rest : List Bytes} {reading : Reading} (hcut : (cut 61 arg).1 = ascii "--name")
    (hinline : (cut 61 arg).2.2 = true) (hread : table.parse false (arg :: rest) = some reading) :
    (reading.values (ascii "name")).head? = some (cut 61 arg).2.1 := by
  obtain ⟨hend, hdashes⟩ := dashes_of_name hcut
  have hdash := dash_of_dashes hdashes
  obtain ⟨word, tail, hword, -, rfl⟩ := FlagTable.parse_alone hend hdash.1 hdash.2
    (fun word hword => by
      obtain ⟨flag, -, rfl⟩ := word_of_name hneeds hdashes hcut hword
      simp [hinline]) hread
  obtain ⟨flag, hflag, rfl⟩ := word_of_name hneeds hdashes hcut hword
  simp [Reading.values, Reading.after, hinline, hflag]

/-- The first name given is the word behind a `--name` without an equals sign. -/
theorem first_of_next (hneeds : ∀ flag ∈ table, flag.name = ascii "name" → flag.implied = [])
    {arg value : Bytes} {later : List Bytes} {reading : Reading}
    (hcut : (cut 61 arg).1 = ascii "--name") (hseparate : (cut 61 arg).2.2 = false)
    (hread : table.parse false (arg :: value :: later) = some reading) :
    (reading.values (ascii "name")).head? = some value := by
  obtain ⟨hend, hdashes⟩ := dashes_of_name hcut
  have hdash := dash_of_dashes hdashes
  obtain ⟨word, flag, tail, hword, hawaits, -, rfl⟩ := FlagTable.parse_takes hend hdash.1 hdash.2
    (fun word hword => by
      obtain ⟨flag, -, rfl⟩ := word_of_name hneeds hdashes hcut hword
      simp [hseparate]) hread
  obtain ⟨named, hnamed, rfl⟩ := word_of_name hneeds hdashes hcut hword
  simp only [hseparate, Bool.false_eq_true, if_false, Option.some.injEq] at hawaits
  subst hawaits
  simp [Reading.values, Reading.after, hseparate, hnamed]

/-- A word that takes no other and gives no name leaves the names to those behind it. -/
theorem values_behind {arg : Bytes} {rest : List Bytes} {reading : Reading}
    (hend : arg ≠ ascii "--") (hdash : (ascii "-").isPrefixOf arg) (hlength : 1 < arg.length)
    (hword : ∀ word, table.word arg = some word →
      word.awaits = none ∧ ∀ pair ∈ word.given, pair.1 ≠ ascii "name")
    (hread : table.parse false (arg :: rest) = some reading) :
    ∃ tail, table.parse false rest = some tail ∧
      reading.values (ascii "name") = tail.values (ascii "name") := by
  obtain ⟨word, tail, hgiven, htail, rfl⟩ := FlagTable.parse_alone hend hdash hlength
    (fun word h => (hword word h).1) hread
  exact ⟨tail, htail, tail.values_after (hword word hgiven).2⟩

/-- The first `--name` docker's parser reads is the one the helper reads. -/
theorem first_name (hdescribes : runOptions.Describes table)
    (hneeds : ∀ flag ∈ table, flag.name = ascii "name" → flag.implied = [])
    {args : List Bytes} {name first : Bytes} {reading : Reading} (hname : name ∈ runName args)
    (hread : table.parse false args = some reading)
    (hfirst : (reading.values (ascii "name")).head? = some first) : first = name := by
  induction args generalizing reading with
  | nil => simp [runName] at hname
  | cons arg rest ih =>
      rw [runName] at hname
      split at hname
      · next hinline =>
          have hgiven := first_of_inline hneeds hinline.1 hinline.2 hread
          rw [List.mem_singleton.mp hname]
          exact Option.some.inj (hfirst.symm.trans hgiven)
      · next hnot =>
          split at hname
          · next hnext =>
              obtain ⟨value, later, rfl⟩ := List.exists_cons_of_ne_nil hnext.2
              have hseparate : (cut 61 arg).2.2 = false := by
                simpa using fun hinline => hnot ⟨hnext.1, hinline⟩
              have hgiven := first_of_next hneeds hnext.1 hseparate hread
              rw [List.mem_singleton.mp hname]
              exact Option.some.inj (hfirst.symm.trans hgiven)
          · split at hname
            · next hinline =>
                have hdash := dash_of_dashes hinline.1
                have hend : arg ≠ ascii "--" := by
                  rintro rfl
                  revert hinline
                  decide
                obtain ⟨tail, htail, hvalues⟩ := values_behind hend hdash.1 hdash.2
                  (fun _ => word_of_other hinline.1 hinline.2 fun hcut => hnot ⟨hcut, hinline.2⟩)
                  hread
                exact ih hname htail (hvalues ▸ hfirst)
            · split at hname
              · next hdash =>
                  split at hname
                  · simp at hname
                  · next hops =>
                      by_cases hlength : 1 < arg.length
                      · obtain ⟨tail, htail, hvalues⟩ := values_behind hdash.2 hdash.1 hlength
                          (fun word hword => by
                            obtain ⟨hawaits, hgiven⟩ := word_of_flags hdescribes (by decide) rfl
                              hdash.2 hdash.1 hlength hops hword
                            refine ⟨hawaits, fun pair hpair hsame => ?_⟩
                            obtain ⟨flag, hmem, hflag, himplied⟩ := hgiven pair hpair
                            exact himplied (hneeds flag hmem (hflag.trans hsame))) hread
                        exact ih hname htail (hvalues ▸ hfirst)
                      · -- Docker takes a lone dash as the image, and reads no name behind it.
                        rw [FlagTable.parse, if_neg hdash.2, if_neg (by simp [hlength]),
                          if_pos (by decide)] at hread
                        cases hread
                        simp [Reading.values] at hfirst
              · simp at hname

/-! ## What docker reads -/

/-- The commands docker names a container's operands to. -/
def operandVerbs : List Bytes := ["start", "stop", "restart"].map ascii

/-- The commands docker gives a container its name in. -/
def namingVerbs : List Bytes := ["run", "create"].map ascii

/-- The tables docker reads a start command against: its own, compose's, and those
of the commands of each. -/
structure Docker where
  own : FlagTable
  container : Bytes → FlagTable
  compose : FlagTable
  composed : Bytes → FlagTable
  own_described : dockerOptions.Describes own
  start_described : startOptions.Describes (container (ascii "start"))
  stop_described : stopOptions.Describes (container (ascii "stop"))
  restart_described : stopOptions.Describes (container (ascii "restart"))
  run_described : ∀ verb ∈ namingVerbs, runOptions.Describes (container verb)
  name_needs : ∀ verb ∈ namingVerbs, ∀ flag ∈ container verb,
    flag.name = ascii "name" → flag.implied = []
  compose_described : composeOptions.Describes compose

/-- A command of docker's, without the `container` it may stand behind. -/
def action (command : List Bytes) : List Bytes :=
  if command.head? = some (ascii "container") then command.drop 1 else command

namespace Docker

variable (docker : Docker) (decoder : Decoder) (printed : Command → Output)

/-- What docker's own options leave of its arguments. -/
def command : List Bytes → Option (List Bytes)
  | [] => none
  | program :: args =>
      if baseName program = ascii "docker" then (docker.own.parse false args).map (·.operands)
      else none

/-- The containers docker reads in an uncomposed command: its operands, or the last
value of `--name`. -/
def named (command : List Bytes) : List Bytes :=
  match action command with
  | [] => []
  | verb :: args =>
      if verb ∈ operandVerbs then ((docker.container verb).parse true args).elim [] (·.operands)
      else if verb ∈ namingVerbs then
        ((docker.container verb).parse false args).elim [] fun reading =>
          (reading.values (ascii "name")).getLast?.toList
      else []

/-- The services compose reads among a command's operands: all of them where there
are none. -/
def services (project : Project) (verb : Bytes) (args : List Bytes) : List Bytes :=
  ((docker.composed verb).parse true args).elim [] fun reading =>
    if reading.operands = [] then project.services.map Prod.fst else reading.operands

/-- Whether compose brings a container up, by what it prints of the project. -/
def readsComposed (args : List Bytes) (container : Bytes) : Bool :=
  match (docker.compose.parse false args).elim [] (·.operands) with
  | [] => false
  | verb :: rest =>
      match decoder.project
          (printed (configCommand (args.take (args.length - (rest.length + 1))))).text with
      | none => false
      | some project => (docker.services project verb rest).any (project.brings · container)

/-- Whether docker reads a container's name from a start command. -/
def reads (argv : List Bytes) (container : Bytes) : Bool :=
  match docker.command argv with
  | none | some [] => false
  | some (verb :: args) =>
      if verb = ascii "compose" then docker.readsComposed decoder printed args container
      else (docker.named (verb :: args)).contains container

/-- Docker accepts an uncomposed command, and the first name it reads is the last. -/
def NamesAgree (command : List Bytes) : Prop :=
  match action command with
  | [] => False
  | verb :: args =>
      if verb ∈ operandVerbs then ((docker.container verb).parse true args).isSome = true
      else ∃ reading, (docker.container verb).parse false args = some reading ∧
        reading.values (ascii "name") ≠ [] ∧
        (reading.values (ascii "name")).head? = (reading.values (ascii "name")).getLast?

/-- Some word behind the command names a service, and each that does is an operand, or
has a `container_name` that one of the operands brings. -/
def Covers (project : Project) (args operands : List Bytes) : Prop :=
  (∃ word ∈ args, (project.services.lookup word).isSome) ∧
    ∀ word ∈ args, ∀ fixed, project.services.lookup word = some fixed →
      word ∈ operands ∨ fixed ≠ [] ∧ ∃ operand ∈ operands, project.brings operand fixed

/-- Compose accepts a command, and no operand is left, or the operands cover the
services its words name. -/
def ServicesAgree (args : List Bytes) : Prop :=
  ∃ reading verb rest project words, docker.compose.parse false args = some reading ∧
    reading.operands = verb :: rest ∧
    decoder.project
      (printed (configCommand (args.take (args.length - (rest.length + 1))))).text = some project ∧
    (docker.composed verb).parse true rest = some words ∧
    (words.operands = [] ∨ Covers project rest words.operands)

/-- Docker accepts a start command, and it is one whose names it reads as the helper does. -/
def Agrees (argv : List Bytes) : Prop :=
  match docker.command argv with
  | none | some [] => False
  | some (verb :: args) =>
      if verb = ascii "compose" then docker.ServicesAgree decoder printed args
      else docker.NamesAgree (verb :: args)

end Docker

/-- Whether the helper reads that compose brings a container up. -/
def composesContainer (decoder : Decoder) (printed : Command → Output) (args : List Bytes)
    (container : Bytes) : Bool :=
  ((composed decoder args).runWith (fun (_ : Unit) command => (printed command, ())) ()).2.1
    container

/-- Whether the helper reads a container's name from a start command. -/
def startsContainer (decoder : Decoder) (printed : Command → Output) (argv : List Bytes)
    (container : Bytes) : Bool :=
  ((starter decoder argv).runWith (fun (_ : Unit) command => (printed command, ())) ()).2.1
    container

namespace Docker

variable {docker : Docker} {decoder : Decoder} {printed : Command → Output}

/-- Where docker accepts its own options, it leaves what the helper reads. -/
theorem command_eq {argv command accepted : List Bytes} (hcommand : dockerCommand argv = some command)
    (haccepted : docker.command argv = some accepted) : accepted = command := by
  match argv with
  | [] | [_] => cases hcommand
  | program :: arg :: args =>
      simp only [dockerCommand, Option.ite_none_right_eq_some] at hcommand
      simp only [Docker.command, hcommand.1, if_true] at haccepted
      obtain ⟨reading, hread, rfl⟩ := Option.map_eq_some_iff.mp haccepted
      exact operands_eq docker.own_described (by decide) hcommand.2 hread

/-- The operands the helper reads are docker's exactly where docker accepts them. -/
theorem operands_iff (hdescribes : options.Describes table) (hplain : options.Plain)
    {args named : List Bytes} (hnamed : options.operands true args = some named)
    (hsome : named ≠ []) :
    (∀ container ∈ named, container ∈ (table.parse true args).elim [] (·.operands)) ↔
      (table.parse true args).isSome := by
  cases hread : table.parse true args with
  | none =>
      obtain ⟨container, hmem⟩ := List.exists_mem_of_ne_nil named hsome
      simpa using ⟨container, hmem⟩
  | some reading => simp [operands_eq hdescribes hplain hnamed hread]

/-- The name the helper reads is docker's exactly where docker accepts the command,
reads a name and gives the container the first one it reads. -/
theorem name_iff (hdescribes : runOptions.Describes table)
    (hneeds : ∀ flag ∈ table, flag.name = ascii "name" → flag.implied = []) {args : List Bytes}
    (hsome : runName args ≠ []) :
    (∀ container ∈ runName args, container ∈ (table.parse false args).elim [] fun reading =>
        (reading.values (ascii "name")).getLast?.toList) ↔
      ∃ reading, table.parse false args = some reading ∧ reading.values (ascii "name") ≠ [] ∧
        (reading.values (ascii "name")).head? = (reading.values (ascii "name")).getLast? := by
  constructor
  · intro hreads
    obtain ⟨name, hname⟩ := List.exists_mem_of_ne_nil _ hsome
    have hlast := hreads name hname
    cases hread : table.parse false args with
    | none => simp [hread] at hlast
    | some reading =>
        simp only [hread, Option.elim_some, Option.mem_toList] at hlast
        have hvalues : reading.values (ascii "name") ≠ [] := by
          intro hnil
          simp [hnil] at hlast
        have hfirst := List.head?_eq_some_head hvalues
        refine ⟨reading, rfl, hvalues, ?_⟩
        rw [hlast, hfirst, first_name hdescribes hneeds hname hread hfirst]
  · rintro ⟨reading, hread, hvalues, hsame⟩ name hname
    have hfirst := List.head?_eq_some_head hvalues
    simp [hread, ← hsame, hfirst, first_name hdescribes hneeds hname hread hfirst]

/-- An uncomposed command that names containers: docker reads them all exactly where
it accepts the command and the first name it reads is the last. -/
theorem named_iff {command named : List Bytes} (hnamed : namedContainers command = some named)
    (hsome : named ≠ []) :
    (∀ container ∈ named, container ∈ docker.named command) ↔ docker.NamesAgree command := by
  rw [namedContainers, ← action] at hnamed
  rw [Docker.named, Docker.NamesAgree]
  match haction : action command with
  | [] =>
      rw [haction] at hnamed
      cases hnamed
      exact absurd rfl hsome
  | verb :: args =>
      simp only [haction] at hnamed ⊢
      by_cases hstart : verb = ascii "start"
      · subst hstart
        rw [if_pos rfl] at hnamed
        rw [if_pos (by decide), if_pos (by decide)]
        exact operands_iff docker.start_described (by decide) hnamed hsome
      · by_cases hstop : verb = ascii "stop" ∨ verb = ascii "restart"
        · rw [if_neg hstart, if_pos hstop] at hnamed
          obtain rfl | rfl := hstop
          · rw [if_pos (by decide), if_pos (by decide)]
            exact operands_iff docker.stop_described (by decide +kernel) hnamed hsome
          · rw [if_pos (by decide), if_pos (by decide)]
            exact operands_iff docker.restart_described (by decide) hnamed hsome
        · by_cases hrun : verb = ascii "run" ∨ verb = ascii "create"
          · rw [if_neg hstart, if_neg hstop, if_pos hrun] at hnamed
            cases hnamed
            have hmem : verb ∈ namingVerbs := by simpa [namingVerbs] using hrun
            have hother : verb ∉ operandVerbs := by
              simpa [operandVerbs, hstart] using hstop
            rw [if_neg hother, if_neg hother, if_pos hmem]
            exact name_iff (docker.run_described verb hmem) (docker.name_needs verb hmem) hsome
          · rw [if_neg hstart, if_neg hstop, if_neg hrun] at hnamed
            cases hnamed
            exact absurd rfl hsome

/-- The containers the helper reads compose to bring up are those of the services
found among a command's words. -/
theorem composesContainer_eq {args : List Bytes} {container : Bytes}
    (h : composesContainer decoder printed args container) :
    ∃ verb rest project, composeOptions.operands false args = some (verb :: rest) ∧
      decoder.project
        (printed (configCommand (args.take (args.length - (rest.length + 1))))).text =
          some project ∧
      ∀ other, composesContainer decoder printed args other =
        (project.started rest).any (project.brings · other) := by
  unfold composesContainer Host.composed at h ⊢
  cases hoperands : composeOptions.operands false args with
  | none => simp [hoperands] at h
  | some operands =>
      cases operands with
      | nil => simp [hoperands] at h
      | cons verb rest =>
          simp only [hoperands] at h
          split at h
          · simp at h
          · next haccepted =>
              rw [Dialogue.runWith_call_bind] at h
              cases hproject : decoder.project
                  (printed (configCommand (args.take (args.length - (rest.length + 1))))).text with
              | none => simp [hproject] at h
              | some project =>
                  simp only [hproject] at h
                  split at h
                  · simp at h
                  · next hread =>
                      refine ⟨verb, rest, project, rfl, hproject, fun other => ?_⟩
                      simp only [if_neg haccepted]
                      rw [Dialogue.runWith_call_bind]
                      simp only [hproject, if_neg hread, Dialogue.runWith_pure]

/-- A service that brings a container up is one of the project's. -/
theorem mem_of_brings {project : Project} {service container : Bytes}
    (h : project.brings service container) : service ∈ project.services.map Prod.fst := by
  cases hlookup : project.services.lookup service with
  | none => simp [Project.brings, hlookup] at h
  | some fixed =>
      obtain ⟨before, after, heq, -⟩ := List.lookup_eq_some_iff.mp hlookup
      simp [heq]

/-- What stands before a last dash, in front of digits. -/
theorem append_dash_inj {first second early late : Bytes} (hearly : (45 : UInt8) ∉ early)
    (hlate : (45 : UInt8) ∉ late) (h : first ++ 45 :: early = second ++ 45 :: late) :
    first = second := by
  obtain ⟨between, hbetween, hrest⟩ | ⟨between, hbetween, hrest⟩ :=
    List.append_eq_append_iff.mp h
  · cases between with
    | nil => simpa using hbetween.symm
    | cons byte between =>
        cases hrest
        simp at hearly
  · cases between with
    | nil => simpa using hbetween
    | cons byte between =>
        cases hrest
        simp at hlate

/-- A container's index: digits, and at least one. -/
def IsIndex (index : Bytes) : Prop := index ≠ [] ∧ ∀ byte ∈ index, 48 ≤ byte ∧ byte ≤ 57

theorem IsIndex.dash_not_mem {index : Bytes} (h : IsIndex index) : (45 : UInt8) ∉ index := by
  intro hmem
  have hdigit := h.2 45 hmem
  revert hdigit
  decide

/-- A service without a `container_name` brings up project-service-N. -/
theorem brings_iff {project : Project} {service container : Bytes}
    (hlookup : project.services.lookup service = some []) :
    project.brings service container ↔ ∃ index, IsIndex index ∧
      container = project.name ++ 45 :: (service ++ 45 :: index) := by
  have hdash : ascii "-" = [45] := by decide
  simp only [Project.brings, hlookup, ne_eq, not_true_eq_false, if_false, hdash, cutPrefix]
  constructor
  · intro h
    split at h
    · cases h
    · next index hcut =>
        obtain ⟨hbegins, hdrop⟩ := Option.ite_none_right_eq_some.mp hcut
        obtain ⟨rest, rfl⟩ := List.isPrefixOf_iff_prefix.mp hbegins
        rw [List.drop_left] at hdrop
        cases hdrop
        exact ⟨index, by simpa [IsIndex] using h, by simp⟩
  · rintro ⟨index, ⟨hne, hdigits⟩, rfl⟩
    simpa [hne] using hdigits

theorem brings_fixed {project : Project} {service container fixed : Bytes}
    (hlookup : project.services.lookup service = some fixed) (hfixed : fixed ≠ []) :
    project.brings service container ↔ container = fixed := by
  simp [Project.brings, hlookup, hfixed]

/-- A service without a `container_name` brings a container up that only it brings. -/
theorem exists_brings_only {project : Project} {service : Bytes}
    (hlookup : project.services.lookup service = some []) :
    ∃ container, project.brings service container ∧
      ∀ other, project.brings other container → other = service := by
  -- More digits than the `container_name`s have bytes.
  let longest := (project.services.map Prod.snd).flatten.length
  have hindex : IsIndex (List.replicate (longest + 1) 49) := by
    refine ⟨by simp, fun byte hmem => ?_⟩
    rw [List.eq_of_mem_replicate hmem]
    decide
  refine ⟨_, (brings_iff hlookup).mpr ⟨_, hindex, rfl⟩, fun other hother => ?_⟩
  cases hfixed : project.services.lookup other with
  | none => simp [Project.brings, hfixed] at hother
  | some fixed =>
      by_cases hnone : fixed = []
      · subst hnone
        obtain ⟨index, hdigits, hsame⟩ := (brings_iff hfixed).mp hother
        have hends := List.cons.inj (List.append_cancel_left hsame)
        exact (append_dash_inj hindex.dash_not_mem hdigits.dash_not_mem hends.2).symm
      · have hsame := (brings_fixed hfixed hnone).mp hother
        obtain ⟨before, after, heq, -⟩ := List.lookup_eq_some_iff.mp hfixed
        have hlength : fixed.length ≤ longest :=
          (List.sublist_flatten_of_mem (by simp [heq])).length_le
        have hlong := congrArg List.length hsame
        simp only [List.length_append, List.length_cons, List.length_replicate] at hlong
        omega

/-- Where a service is named among the words, those named are started. -/
theorem started_eq {project : Project} {args : List Bytes} {word : Bytes} (hword : word ∈ args)
    (hservice : (project.services.lookup word).isSome) :
    project.started args = args.filter fun arg => (project.services.lookup arg).isSome := by
  rw [Project.started, if_neg (List.ne_nil_of_mem (List.mem_filter.mpr ⟨hword, hservice⟩))]

/-- The operands bring up every container the words do exactly where they cover the
services named among them. -/
theorem covers_iff {project : Project} {args operands : List Bytes} (hsubset : operands ⊆ args)
    (hstarts : ∃ container, (project.started args).any (project.brings · container)) :
    (∀ container, (project.started args).any (project.brings · container) →
      operands.any (project.brings · container)) ↔ Covers project args operands := by
  simp only [List.any_eq_true] at hstarts ⊢
  have hstarted : ∀ {word : Bytes}, word ∈ args → (project.services.lookup word).isSome →
      word ∈ project.started args := by
    intro word hword hservice
    rw [started_eq hword hservice]
    exact List.mem_filter.mpr ⟨hword, hservice⟩
  constructor
  · intro hbrings
    refine ⟨?_, fun word hword fixed hlookup => ?_⟩
    · obtain ⟨container, hcontainer⟩ := hstarts
      obtain ⟨operand, hoperand, hbrought⟩ := hbrings container hcontainer
      refine ⟨operand, hsubset hoperand, ?_⟩
      cases hlookup : project.services.lookup operand with
      | none => simp [Project.brings, hlookup] at hbrought
      | some fixed => rfl
    · have hstart := hstarted hword (by simp [hlookup])
      by_cases hnone : fixed = []
      · subst hnone
        obtain ⟨container, hbrought, honly⟩ := exists_brings_only hlookup
        obtain ⟨operand, hoperand, hother⟩ := hbrings container ⟨word, hstart, hbrought⟩
        exact .inl (honly operand hother ▸ hoperand)
      · exact .inr ⟨hnone,
          hbrings fixed ⟨word, hstart, (brings_fixed hlookup hnone).mpr rfl⟩⟩
  · rintro ⟨⟨named, hnamed, hservice⟩, hcovers⟩ container ⟨word, hword, hbrought⟩
    rw [started_eq hnamed hservice] at hword
    obtain ⟨hargs, hsome⟩ := List.mem_filter.mp hword
    obtain ⟨fixed, hlookup⟩ := Option.isSome_iff_exists.mp hsome
    rcases hcovers word hargs fixed hlookup with hoperand | ⟨hfixed, hoperands⟩
    · exact ⟨word, hoperand, hbrought⟩
    · rw [(brings_fixed hlookup hfixed).mp hbrought]
      exact hoperands

/-- Where compose accepts its own options, it brings up the services it reads behind
the command the helper reads. -/
theorem readsComposed_eq {args rest : List Bytes} {verb : Bytes} {project : Project}
    {reading : Reading} (hoperands : composeOptions.operands false args = some (verb :: rest))
    (hproject : decoder.project
      (printed (configCommand (args.take (args.length - (rest.length + 1))))).text = some project)
    (hread : docker.compose.parse false args = some reading) (container : Bytes) :
    docker.readsComposed decoder printed args container =
      (docker.services project verb rest).any (project.brings · container) := by
  have hwords := operands_eq docker.compose_described (by decide +kernel) hoperands hread
  simp [readsComposed, hread, hwords, hproject]

/-- A compose command that brings containers up: docker reads them all exactly where
compose accepts the command and its operands bring up what its words name. -/
theorem services_iff {args : List Bytes}
    (hstarts : ∃ container, composesContainer decoder printed args container) :
    (∀ container, composesContainer decoder printed args container →
      docker.readsComposed decoder printed args container) ↔
      docker.ServicesAgree decoder printed args := by
  obtain ⟨container, hcontainer⟩ := hstarts
  obtain ⟨verb, rest, project, hoperands, hproject, hstarts⟩ := composesContainer_eq hcontainer
  simp only [hstarts] at hcontainer ⊢
  cases hread : docker.compose.parse false args with
  | none =>
      constructor
      · intro hreads
        have hrefused := hreads container hcontainer
        simp [readsComposed, hread] at hrefused
      · rintro ⟨reading, _, _, _, _, haccepted, -⟩
        simp [hread] at haccepted
  | some reading =>
      have hwords := operands_eq docker.compose_described (by decide) hoperands hread
      simp only [readsComposed_eq hoperands hproject hread]
      cases hparsed : (docker.composed verb).parse true rest with
      | none =>
          constructor
          · intro hreads
            have hrefused := hreads container hcontainer
            simp [services, hparsed] at hrefused
          · rintro ⟨reading', verb', rest', project', words, hread', hwords', -, haccepted, -⟩
            cases hread.symm.trans hread'
            cases hwords.symm.trans hwords'
            simp [hparsed] at haccepted
      | some words =>
          constructor
          · intro hreads
            refine ⟨reading, verb, rest, project, words, hread, hwords, hproject, hparsed, ?_⟩
            by_cases hnone : words.operands = []
            · exact .inl hnone
            · have hoperands : docker.services project verb rest = words.operands := by
                simp [services, hparsed, hnone]
              rw [hoperands] at hreads
              exact .inr ((covers_iff (FlagTable.operands_subset hparsed)
                ⟨container, hcontainer⟩).mp hreads)
          · rintro ⟨reading', verb', rest', project', words', hread', hwords', hproject', hparsed',
              hcovers⟩ other hother
            cases hread.symm.trans hread'
            cases hwords.symm.trans hwords'
            cases hproject.symm.trans hproject'
            cases hparsed.symm.trans hparsed'
            by_cases hnone : words.operands = []
            · obtain ⟨service, -, hbrings⟩ := List.any_eq_true.mp hother
              simp only [services, hparsed, Option.elim_some, if_pos hnone]
              exact List.any_eq_true.mpr ⟨service, mem_of_brings hbrings, hbrings⟩
            · simp only [services, hparsed, Option.elim_some, if_neg hnone]
              exact (covers_iff (FlagTable.operands_subset hparsed)
                ⟨container, hcontainer⟩).mpr (hcovers.resolve_left hnone) other hother

/-- A start command that names containers: docker reads every name the helper reads
exactly where it accepts the command, the first name it gives a container is the
last, and the services compose reads bring up what the words name. -/
theorem reads_iff (docker : Docker) (decoder : Decoder) (printed : Command → Output)
    (argv : List Bytes) (hstarts : ∃ container, startsContainer decoder printed argv container) :
    (∀ container, startsContainer decoder printed argv container →
      docker.reads decoder printed argv container) ↔ docker.Agrees decoder printed argv := by
  cases hcommand : dockerCommand argv with
  | none => simp [startsContainer, starter, hcommand] at hstarts
  | some command =>
      cases command with
      | nil => simp [startsContainer, starter, hcommand] at hstarts
      | cons verb args =>
          cases haccepted : docker.command argv with
          | none =>
              obtain ⟨container, hcontainer⟩ := hstarts
              simpa [reads, Agrees, haccepted] using ⟨container, hcontainer⟩
          | some accepted =>
              cases command_eq hcommand haccepted
              by_cases hcompose : verb = ascii "compose"
              · have hcomposes : startsContainer decoder printed argv =
                    composesContainer decoder printed args := by
                  funext container
                  simp [startsContainer, composesContainer, starter, hcommand, hcompose]
                simp only [hcomposes] at hstarts ⊢
                simpa [reads, Agrees, haccepted, hcompose] using services_iff hstarts
              · cases hnamed : namedContainers (verb :: args) with
                | none => simp [startsContainer, starter, hcommand, hcompose, hnamed] at hstarts
                | some named =>
                    have hnames (container : Bytes) :
                        startsContainer decoder printed argv container ↔ container ∈ named := by
                      simp [startsContainer, starter, hcommand, hcompose, hnamed]
                    simp only [hnames] at hstarts ⊢
                    obtain ⟨container, hmem⟩ := hstarts
                    simpa [reads, Agrees, haccepted, hcompose] using
                      named_iff hnamed (List.ne_nil_of_mem hmem)

/-! ## A name given twice -/

/-- `strconv.ParseBool` accepts a text. -/
def isBool (value : Bytes) : Bool :=
  (["1", "t", "T", "TRUE", "true", "True", "0", "f", "F", "FALSE", "false", "False"].map
    ascii).contains value

/-- A flag that stands alone. -/
def switch (name : String) (short : Option UInt8) : Flag :=
  { name := ascii name, short, implied := ascii "true", accepts := isBool }

/-- A flag that takes any value. -/
def valued (name : String) (short : Option UInt8) : Flag := { name := ascii name, short }

/-- Docker's own options. -/
def ownFlags : FlagTable :=
  [valued "host" (some 72), valued "context" (some 99), valued "config" none,
    valued "log-level" (some 108), valued "tlscacert" none, valued "tlscert" none,
    valued "tlskey" none, switch "debug" (some 68), switch "tls" none, switch "tlsverify" none]

/-- The options of docker run a small unit needs. -/
def runFlags : FlagTable :=
  [valued "name" none, valued "env" (some 101), valued "network" none, valued "volume" (some 118),
    valued "publish" (some 112), switch "detach" (some 100), switch "interactive" (some 105),
    switch "tty" (some 116), switch "rm" none, switch "init" none, switch "privileged" none,
    switch "read-only" none, switch "publish-all" (some 80), switch "quiet" (some 113)]

/-- Docker with the options of run, and no options of its other commands. -/
def runningDocker : Docker where
  own := ownFlags
  container := fun verb => if verb = ascii "run" then runFlags else []
  compose := []
  composed := fun _ => []
  own_described := ⟨by decide +kernel, by decide +kernel, by decide, by decide +kernel⟩
  start_described := ⟨nofun, nofun, nofun, nofun⟩
  stop_described := ⟨nofun, nofun, nofun, nofun⟩
  restart_described := ⟨nofun, nofun, nofun, nofun⟩
  run_described := by
    intro verb _
    by_cases hrun : verb = ascii "run"
    · rw [if_pos hrun]
      exact ⟨by decide, by decide +kernel, by decide, by decide +kernel⟩
    · rw [if_neg hrun]
      exact ⟨nofun, nofun, nofun, nofun⟩
  name_needs := by
    intro verb _
    by_cases hrun : verb = ascii "run"
    · rw [if_pos hrun]
      decide +kernel
    · rw [if_neg hrun]
      nofun
  compose_described := ⟨nofun, nofun, nofun, nofun⟩

/-- Docker that prints nothing a project reads from. -/
def silentDecoder : Decoder := ⟨fun _ => none, fun _ => none⟩

/-- A command that names its container once. -/
def namedOnce : List Bytes :=
  ["docker", "run", "-d", "--name", "web", "--env", "A=B", "image"].map ascii

theorem namedOnce_agrees :
    runningDocker.Agrees silentDecoder (fun _ => ⟨[], .ok⟩) namedOnce := by
  have hcommand : runningDocker.command namedOnce = some (namedOnce.drop 1) := by decide +kernel
  have hread : (runFlags.parse false (namedOnce.drop 2)).map (·.values (ascii "name")) =
      some [ascii "web"] := by decide +kernel
  obtain ⟨reading, hread, hvalues⟩ := Option.map_eq_some_iff.mp hread
  rw [Agrees, hcommand]
  exact ⟨reading, hread, by simp [hvalues], by simp [hvalues]⟩

theorem namedOnce_read :
    runningDocker.reads silentDecoder (fun _ => ⟨[], .ok⟩) namedOnce (ascii "web") :=
  (reads_iff runningDocker silentDecoder (fun _ => ⟨[], .ok⟩) namedOnce
    ⟨ascii "web", by decide +kernel⟩).mpr namedOnce_agrees (ascii "web") (by decide +kernel)

/-- A container named twice is called by the last name, where the helper reads the first. -/
theorem named_twice_differs :
    ¬ ∀ (docker : Docker) (decoder : Decoder) (printed : Command → Output) (argv : List Bytes)
      (container : Bytes), startsContainer decoder printed argv container →
        docker.reads decoder printed argv container := by
  intro h
  have hweb := h runningDocker silentDecoder (fun _ => ⟨[], .ok⟩)
    (["docker", "run", "--name", "web", "--name", "other", "image"].map ascii) (ascii "web")
  revert hweb
  decide +kernel

end Docker

end SeverinoHQ.Host
