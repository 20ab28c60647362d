/-
**From text to tokens.**

Blanks separate tokens, a maximal run of digits is one integer, and any other character is a token
of its own or an error. Reading goes from left to right and stops at the first fault
(`tokenize`); columns count characters from one.
-/

import Abacus.Error

namespace Abacus

/-- The characters that may stand between tokens: space, tab, form feed and the line ends. -/
def isSeparator (c : Char) : Bool :=
  c == ' ' || c == '\t' || c == '\x0c' || c == '\r' || c == '\n'

/-- The tokens of a text whose first character stands at the column. -/
def scan (column : Nat) : List Char → Except ParseError (List Lexeme)
  | [] => .ok []
  | c :: rest =>
    if c.isDigit then
      let digits := c :: rest.takeWhile Char.isDigit
      let magnitude := Nat.ofDigitChars 10 digits 0
      if magnitude < UInt64.size then do
        let lexemes ← scan (column + digits.length) (rest.dropWhile Char.isDigit)
        return ⟨.integer (.ofNat magnitude), column⟩ :: lexemes
      else .error (.literalTooLarge column)
    else if isSeparator c then scan (column + 1) rest
    else
      match Token.ofSymbol? c with
      | some token => do
        let lexemes ← scan (column + 1) rest
        return ⟨token, column⟩ :: lexemes
      | none => .error (.unexpectedToken (String.singleton c) column)
termination_by text => text.length
decreasing_by
  · have := (List.dropWhile_sublist Char.isDigit (l := rest)).length_le
    simp only [List.length_cons]
    omega
  · simp
  · simp

/-- What is read as an integer are digits. -/
theorem isDigit_of_mem_digits {c : Char} {rest : List Char} (digit : c.isDigit) :
    ∀ d ∈ c :: rest.takeWhile Char.isDigit, d.isDigit :=
  List.forall_mem_cons.mpr ⟨digit, List.all_eq_true.mp List.all_takeWhile⟩

/-- An integer and the text behind it. -/
theorem digits_append_rest (c : Char) (rest : List Char) :
    (c :: rest.takeWhile Char.isDigit) ++ rest.dropWhile Char.isDigit = c :: rest := by
  rw [List.cons_append, List.takeWhile_append_dropWhile]

/-- The tokens of a text with their columns. -/
def tokenize (source : String) : Except ParseError (List Lexeme) :=
  scan 1 source.toList

end Abacus
