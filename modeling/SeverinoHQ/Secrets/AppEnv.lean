/-
# The application environment, written and loaded

The renderer writes one `KEY='value'` line for each variable; HQ's settings read the
file as text and take its shell tokens apart at their first equals sign. What is
loaded is what was rendered.
-/

import SeverinoHQ.Secrets.Project
import SeverinoHQ.Math.Letters
import SeverinoHQ.Math.Shlex

namespace SeverinoHQ.Secrets

open SeverinoHQ.Math
open SeverinoHQ.Math.Letters (universalNewlines)

/-! ## Loading -/

/-- `token.partition("=")`, for a token that holds one. -/
def assignment (token : List Char) : Option (String × String) :=
  if '=' ∈ token then
    some (String.ofList (token.takeWhile (· != '=')),
      String.ofList (token.dropWhile (· != '=')).tail)
  else none

/-- The variables the settings load from a file's text, in order; none raises. -/
def load (text : String) : Option (List (String × String)) :=
  (Shlex.split (universalNewlines text.toList)).map fun tokens => tokens.filterMap assignment

/-! ## What is rendered -/

/-- The variables an item's fields hold, in order: a field with no value renders none. -/
def rendered (fields : List Field) : List (String × String) :=
  (fields.filter fun field => appVariable (text field.label) && text field.value != "").map
    fun field => (text field.label, text field.value)

theorem universalNewlines_eq {letters : List Char} (h : '\r' ∉ letters) :
    universalNewlines letters = letters := by
  induction letters with
  | nil => rfl
  | cons c rest ih =>
      have hc : c ≠ '\r' := fun heq => h (heq ▸ List.mem_cons_self)
      have hrest := ih fun hmem => h (List.mem_cons_of_mem c hmem)
      unfold universalNewlines
      split <;> simp_all

/-- A label is a bare word, and no part of it is an equals sign. -/
theorem appVariable_letters {label : String} (h : appVariable label) :
    (∀ c ∈ label.toList, Shlex.plain c) ∧ '=' ∉ label.toList ∧ '\r' ∉ label.toList ∧
      label.toList ≠ [] := by
  have hletters : ∀ c : Char, isUpper c || isDigit c || c == '_' →
      Shlex.plain c ∧ c ≠ '=' ∧ c ≠ '\r' := by
    intro c hc
    refine ⟨?_, ?_, ?_⟩
    · by_contra hplain
      have hspecial : c = ' ' ∨ c = '\t' ∨ c = '\r' ∨ c = '\n' ∨ c = '\'' ∨ c = '"' ∨ c = '\\' := by
        simp only [Shlex.plain, Shlex.whitespace, Shlex.quotes] at hplain
        by_contra hnone
        simp_all
      rcases hspecial with rfl | rfl | rfl | rfl | rfl | rfl | rfl <;> exact absurd hc (by decide)
    · rintro rfl
      exact absurd hc (by decide)
    · rintro rfl
      exact absurd hc (by decide)
  have hall : ∀ c ∈ label.toList, isUpper c || isDigit c || c == '_' := by
    unfold appVariable at h
    split at h
    · next first second rest heq =>
        rw [heq]
        simp only [Bool.and_eq_true] at h
        intro c hc
        rcases List.mem_cons.mp hc with rfl | hmem
        · simp [h.1]
        · exact List.all_eq_true.mp h.2 c hmem
    · exact absurd h (by simp)
  refine ⟨fun c hc => (hletters c (hall c hc)).1, fun hmem => (hletters _ (hall _ hmem)).2.1 rfl,
    fun hmem => (hletters _ (hall _ hmem)).2.2 rfl, ?_⟩
  intro hnil
  simp [appVariable, hnil] at h

/-- A rendered variable's token is taken apart at the equals sign after its label. -/
theorem assignment_token {label value : String} (h : '=' ∉ label.toList) :
    assignment (label.toList ++ '=' :: value.toList) = some (label, value) := by
  have hplain : ∀ c ∈ label.toList, (c != '=') = true := by
    intro c hc
    simp only [bne_iff_ne]
    rintro rfl
    exact h hc
  unfold assignment
  rw [if_pos (by simp), List.takeWhile_append_of_pos hplain, List.dropWhile_append_of_pos hplain]
  simp

/-- The line of one variable, as the reader meets it. -/
theorem line_toList (label value lines : String) :
    (label ++ "='" ++ quoted value ++ "'\n" ++ lines).toList =
      (label.toList ++ ['=']) ++ '\'' :: (Shlex.quoteValue value.toList ++
        '\'' :: '\n' :: lines.toList) := by
  simp [quoted, Shlex.quoteValue]

theorem not_mem_quoteValue {c : Char} {value : List Char} (h : c ∉ value)
    (hc : c ≠ '\'' ∧ c ≠ '\\') : c ∉ Shlex.quoteValue value := by
  intro hmem
  obtain ⟨letter, hletter, hin⟩ := List.mem_flatMap.mp hmem
  split at hin
  · simp [hc] at hin
  · exact h (List.mem_singleton.mp hin ▸ hletter)

/-- What the rendered lines read back as. -/
structure ReadsBack (seen : List String) (fields : List Field) (lines : String)
    (all : List String) : Prop where
  tokens : Shlex.split lines.toList =
    some ((rendered fields).map fun entry => entry.1.toList ++ '=' :: entry.2.toList)
  labels : all = seen ++ (rendered fields).map Prod.fst
  distinct : seen.Nodup → all.Nodup
  noReturn : '\r' ∉ lines.toList
  apart : ∀ entry ∈ rendered fields, '=' ∉ entry.1.toList

/-- Every line is one token of its own, with its label and its value as they were. -/
theorem appLines_readsBack {seen all : List String} {fields : List Field} {lines : String}
    (h : appLines seen fields = .ok (lines, all)) : ReadsBack seen fields lines all := by
  induction fields generalizing seen lines with
  | nil =>
      simp only [appLines, Except.ok.injEq, Prod.mk.injEq] at h
      obtain ⟨rfl, rfl⟩ := h
      exact ⟨rfl, by simp [rendered], id, by simp, by simp [rendered]⟩
  | cons field fields ih =>
      simp only [appLines] at h
      by_cases hskip : (!appVariable (text field.label) || text field.value == "") = true
      · rw [if_pos hskip] at h
        have hrendered : rendered (field :: fields) = rendered fields := by
          unfold rendered
          rw [List.filter_cons_of_neg]
          simpa [imp_iff_not_or] using hskip
        have hback := ih h
        exact ⟨hrendered ▸ hback.tokens, hrendered ▸ hback.labels, hback.distinct, hback.noReturn,
          hrendered ▸ hback.apart⟩
      · rw [if_neg hskip] at h
        by_cases hletters : Text.containsAny (text field.value) ['\x00', '\r'] = true
        · simp [hletters] at h
        · by_cases hseen : text field.label ∈ seen
          · simp [hletters, hseen] at h
          · rw [if_neg hletters, if_neg hseen] at h
            cases hrest : appLines (seen ++ [text field.label]) fields with
            | error => simp [hrest] at h
            | ok found =>
                obtain ⟨rest, later⟩ := found
                simp only [hrest, Except.ok.injEq, Prod.mk.injEq] at h
                obtain ⟨rfl, rfl⟩ := h
                have hback := ih hrest
                have hlabel : appVariable (text field.label) = true := by
                  by_contra hno
                  exact hskip (by simp [hno])
                obtain ⟨hplain, hequals, hreturn, hne⟩ := appVariable_letters hlabel
                have hrendered : rendered (field :: fields) =
                    (text field.label, text field.value) :: rendered fields := by
                  unfold rendered
                  rw [List.filter_cons_of_pos (by simpa using hskip), List.map_cons]
                refine ⟨?_, ?_, ?_, ?_, ?_⟩
                · obtain ⟨c, letters, hcons⟩ := List.exists_cons_of_ne_nil hne
                  have hword : ∀ other ∈ letters ++ ['='], Shlex.plain other := by
                    intro other hother
                    rcases List.mem_append.mp hother with hmem | hmem
                    · exact hplain other (hcons ▸ List.mem_cons_of_mem c hmem)
                    · rw [List.mem_singleton.mp hmem]
                      decide
                  have hline := Shlex.read_line (text field.value).toList rest.toList
                    (hplain c (hcons ▸ List.mem_cons_self)) hword
                  have htokens : Shlex.read .space [] false rest.toList = _ := hback.tokens
                  rw [hrendered, line_toList, Shlex.split, hcons]
                  show Shlex.read .space [] false (c :: (letters ++ ['=']) ++ _) = _
                  rw [hline, htokens]
                  simp [hcons]
                · rw [hrendered, hback.labels]
                  simp
                · intro hnodup
                  apply hback.distinct
                  rw [List.nodup_append]
                  refine ⟨hnodup, by simp, ?_⟩
                  rintro name hname _ hother rfl
                  exact hseen (List.mem_singleton.mp hother ▸ hname)
                · rw [line_toList]
                  intro hmem
                  have hvalue : '\r' ∉ (text field.value).toList := by
                    intro hin
                    apply hletters
                    simp only [Text.containsAny, List.any_eq_true]
                    exact ⟨'\r', hin, by decide⟩
                  simp [hreturn, hback.noReturn, not_mem_quoteValue hvalue (by decide)] at hmem
                · rw [hrendered]
                  intro entry hentry
                  rcases List.mem_cons.mp hentry with rfl | hmem
                  · exact hequals
                  · exact hback.apart entry hmem

theorem filterMap_assignment {entries : List (String × String)}
    (h : ∀ entry ∈ entries, '=' ∉ entry.1.toList) :
    (entries.map fun entry => entry.1.toList ++ '=' :: entry.2.toList).filterMap assignment =
      entries := by
  induction entries with
  | nil => rfl
  | cons entry entries ih =>
      rw [List.map_cons, List.filterMap_cons,
        assignment_token (h entry List.mem_cons_self)]
      simp [ih fun other hother => h other (List.mem_cons_of_mem entry hother)]

/-- Every environment the renderer accepts is loaded as it was rendered: the settings
read the item's variables, each once, with their values as the vault holds them. -/
theorem appEnvironment_loads {input : Input} {lines : String} {count : Nat}
    (h : appEnvironment input = .ok (lines, count)) :
    ∃ item, named input.items input.envItem = [item] ∧
      load lines = some (rendered item.fields) ∧
      ((rendered item.fields).map Prod.fst).Nodup ∧ count = (rendered item.fields).length := by
  unfold appEnvironment at h
  split at h
  · next item hitem =>
      cases hall : appLines [] item.fields with
      | error refusal => simp [hall] at h
      | ok found =>
          obtain ⟨rest, seen⟩ := found
          have hback := appLines_readsBack hall
          have hseen : seen = (rendered item.fields).map Prod.fst := by
            simpa using hback.labels
          have hboth : rest = lines ∧ seen.length = count := by
            simp only [hall] at h
            by_cases hempty : rest = ""
            · simp [hempty] at h
            · by_cases hreference : Text.contains rest "op://" = true
              · simp [hempty, hreference] at h
              · rw [if_neg hempty, if_neg hreference] at h
                split at h
                · simpa using h
                · exact absurd h (by simp)
          obtain ⟨rfl, rfl⟩ := hboth
          refine ⟨item, hitem, ?_, ?_, ?_⟩
          · unfold load
            rw [universalNewlines_eq hback.noReturn, hback.tokens, Option.map_some,
              filterMap_assignment hback.apart]
          · rw [← hseen]
            exact hback.distinct List.nodup_nil
          · simp [hseen]
  · exact absurd h (by simp)

/-- Values of quotes, a backslash, lines of their own, a hash and a no-break space, and a plain
one; beside them a field that is no variable, and an empty one. -/
def oddInput : Input where
  registry := ⟨[], ["HQ_NAME"]⟩
  vault := ⟨"HQ", "", ""⟩
  envItem := "env"
  items := [⟨some "a", some "env", [⟨"1", some "notes", some "left out"⟩,
    ⟨"2", some "HQ_NAME", some "''a\\ \"#=\n\u00a0'"⟩, ⟨"3", some "HQ_PORT", some "8000"⟩,
    ⟨"4", some "HQ_DEBUG", some ""⟩, ⟨"5", some "HQ_URL", some "a=b\nHQ_NAME='c'"⟩], [], none, none⟩]
  holdsConnections := false

theorem appEnvironment_loads_odd :
    ∃ item, named oddInput.items oddInput.envItem = [item] ∧
      load ("HQ_NAME=''\\'''\\''a\\ \"#=\n\u00a0'\\'''\nHQ_PORT='8000'\n" ++
        "HQ_URL='a=b\nHQ_NAME='\\''c'\\'''\n") = some (rendered item.fields) ∧
      ((rendered item.fields).map Prod.fst).Nodup ∧ 3 = (rendered item.fields).length :=
  appEnvironment_loads (by decide +kernel)

end SeverinoHQ.Secrets
