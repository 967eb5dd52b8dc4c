/-
# Python's shell tokens

`shlex.split` reads a text character by character, in POSIX mode and with no
comments: words end at white space, a quote holds every character to the next one
of its kind, and a backslash takes the character after it. A value in single quotes,
each of its own single quotes closed, escaped and opened again, is read back whole.
-/

import Mathlib.Data.List.Basic

namespace SeverinoHQ.Math.Shlex

/-- Where the reader is: between words, in one, in a quote, or after a backslash, with
where it goes back to. -/
inductive State
  | space
  | word
  | quote (delimiter : Char)
  | escapedWord
  | escapedQuote (delimiter : Char)
  deriving DecidableEq, Repr

def whitespace (c : Char) : Bool := c == ' ' || c == '\t' || c == '\r' || c == '\n'

def quotes (c : Char) : Bool := c == '\'' || c == '"'

/-- The tokens of the characters left, the one being read first: a text that ends in a
quote or after a backslash is refused. -/
@[grind =]
def read (state : State) (token : List Char) (quoted : Bool) :
    List Char → Option (List (List Char))
  | [] =>
      match state with
      | .space => some []
      | .word => some (if token = [] ∧ !quoted then [] else [token])
      | _ => none
  | c :: rest =>
      match state with
      | .space =>
          if whitespace c then read .space [] false rest
          else if c == '\\' then read .escapedWord [] false rest
          else if quotes c then read (.quote c) [] false rest
          else read .word [c] false rest
      | .word =>
          if whitespace c then
            if token = [] ∧ !quoted then read .space [] false rest
            else (read .space [] false rest).map (token :: ·)
          else if quotes c then read (.quote c) token quoted rest
          else if c == '\\' then read .escapedWord token quoted rest
          else read .word (token ++ [c]) quoted rest
      | .quote delimiter =>
          if c == delimiter then read .word token true rest
          else if c == '\\' && delimiter == '"' then read (.escapedQuote delimiter) token true rest
          else read (.quote delimiter) (token ++ [c]) true rest
      | .escapedWord => read .word (token ++ [c]) quoted rest
      | .escapedQuote delimiter =>
          if c == '\\' || c == delimiter then read (.quote delimiter) (token ++ [c]) quoted rest
          else read (.quote delimiter) (token ++ ['\\', c]) quoted rest

/-- `shlex.split`; none raises ValueError. -/
def split (text : List Char) : Option (List (List Char)) := read .space [] false text

/-- A character of a bare word. -/
def plain (c : Char) : Bool := !whitespace c && !quotes c && c != '\\'

/-- A value's characters, as they stand between single quotes. -/
def quoteValue (value : List Char) : List Char :=
  value.flatMap fun c => if c = '\'' then ['\'', '\\', '\'', '\''] else [c]

variable {token word value rest : List Char} {quoted : Bool}

theorem plain_iff {c : Char} :
    plain c = true ↔ whitespace c = false ∧ quotes c = false ∧ c ≠ '\\' := by
  simp [plain, and_assoc]

theorem read_word (hword : ∀ c ∈ word, plain c) :
    read .word token quoted (word ++ rest) = read .word (token ++ word) quoted rest := by
  induction word generalizing token with
  | nil => simp
  | cons c word ih =>
      obtain ⟨hspace, hquotes, hslash⟩ := plain_iff.mp (hword c List.mem_cons_self)
      rw [List.cons_append, read]
      simp only [hspace, hquotes, beq_iff_eq, hslash, Bool.false_eq_true, if_false]
      rw [ih fun other hother => hword other (List.mem_cons_of_mem c hother)]
      simp

/-- A bare word's first character leaves the space before it. -/
theorem read_space {c : Char} (hc : plain c) :
    read .space [] false (c :: rest) = read .word [c] false rest := by
  obtain ⟨hspace, hquotes, hslash⟩ := plain_iff.mp hc
  rw [read]
  simp only [hspace, hquotes, beq_iff_eq, hslash, Bool.false_eq_true, if_false]

/-- A quoted value is read to its closing quote, every character as it was. -/
theorem read_quoteValue (value rest : List Char) (token : List Char) :
    read (.quote '\'') token true (quoteValue value ++ '\'' :: rest) =
      read .word (token ++ value) true rest := by
  induction value generalizing token with
  | nil => simp [quoteValue, read]
  | cons c value ih =>
      by_cases hc : c = '\''
      · subst hc
        -- the quote closes, its backslash gives one quote, and the next opens again
        have hcons : quoteValue ('\'' :: value) = '\'' :: '\\' :: '\'' :: '\'' :: quoteValue value :=
          rfl
        rw [hcons]
        simp only [List.cons_append, read, whitespace, quotes]
        simpa using ih (token ++ ['\''])
      · have hcons : quoteValue (c :: value) = c :: quoteValue value := by
          simp [quoteValue, hc]
        rw [hcons, List.cons_append, read]
        simp only [beq_iff_eq, hc, if_false]
        simpa using ih (token ++ [c])

theorem read_quote_open (token rest : List Char) :
    read .word token false ('\'' :: rest) = read (.quote '\'') token false rest := by
  simp [read, whitespace, quotes]

/-- A quote is read alike before and after its first character. -/
theorem read_quote_quoted (token rest : List Char) :
    read (.quote '\'') token false rest = read (.quote '\'') token true rest := by
  cases rest with
  | nil => rfl
  | cons c rest => simp only [read]

/-- One line `word'value'`: one token, and the lines after it. -/
theorem read_line (value rest : List Char) {c : Char} (hc : plain c) (hword : ∀ other ∈ word, plain other) :
    read .space [] false
        (c :: word ++ '\'' :: (quoteValue value ++ '\'' :: '\n' :: rest)) =
      (read .space [] false rest).map ((c :: word ++ value) :: ·) := by
  rw [List.cons_append, read_space hc, read_word hword, read_quote_open, read_quote_quoted,
    read_quoteValue]
  simp [read, whitespace]

end SeverinoHQ.Math.Shlex
