/-
**Tokens and their text.**

A token is an operator, a parenthesis or an unsigned integer; the minus sign is the token of
subtraction wherever it stands. Texts are lists of characters here and strings at the edges:

* `Token.ofSymbol?_eq_some_iff`: a character is read as the token that is written with it alone;
* `decimal`: the decimal text of a 64-bit value, written with the tokens of `Token.ofValue`.
-/

import Abacus.Operator

namespace Abacus

/-- The lexical units of an expression. -/
inductive Token where
  /-- An unsigned integer; a negative value is a minus sign followed by its magnitude. -/
  | integer (magnitude : UInt64)
  | operator (op : Operator)
  | leftParen
  | rightParen
  /-- A place holder without text, which no rule of the grammar accepts. -/
  | blank

/-- A token and the column it starts at, counted in characters from one. -/
structure Lexeme where
  token : Token
  column : Nat

namespace Token

/-- The minus sign, of a subtraction as of a negation. -/
abbrev minus : Token := .operator .sub

/-- The text of a token. -/
def chars : Token → List Char
  | integer magnitude => Nat.toDigits 10 magnitude.toNat
  | operator op => [op.symbol]
  | leftParen => ['(']
  | rightParen => [')']
  | blank => []

/-- The text of a token as a string. -/
def text (token : Token) : String :=
  String.ofList token.chars

/-- The text of a list of tokens, with nothing between them. -/
def joined (tokens : List Token) : String :=
  String.ofList (tokens.flatMap chars)

/-- The binary operator that a token stands for. -/
def operator? : Token → Option Operator
  | operator op => some op
  | _ => none

theorem operator?_eq_some_iff {token : Token} {op : Operator} :
    token.operator? = some op ↔ token = operator op := by
  cases token <;> simp [operator?]

/-- The token that is written with one character other than a digit. -/
def ofSymbol? : Char → Option Token
  | '(' => some leftParen
  | ')' => some rightParen
  | symbol => (Operator.ofSymbol? symbol).map operator

/-- A character is read as the operator or parenthesis that is written with it alone. -/
theorem ofSymbol?_eq_some_iff {symbol : Char} {token : Token} :
    ofSymbol? symbol = some token ↔
      (∃ op, token = operator op ∧ op.symbol = symbol) ∨
        (token = leftParen ∧ symbol = '(') ∨ (token = rightParen ∧ symbol = ')') := by
  constructor
  · unfold ofSymbol?
    split
    · rintro ⟨⟩
      exact .inr (.inl ⟨rfl, rfl⟩)
    · rintro ⟨⟩
      exact .inr (.inr ⟨rfl, rfl⟩)
    · intro read
      obtain ⟨op, found, rfl⟩ := Option.map_eq_some_iff.mp read
      exact .inl ⟨op, rfl, Operator.ofSymbol?_eq_some_iff.mp found⟩
  · rintro (⟨op, rfl, rfl⟩ | ⟨rfl, rfl⟩ | ⟨rfl, rfl⟩)
    · cases op <;> rfl
    · rfl
    · rfl

theorem chars_of_ofSymbol? {symbol : Char} {token : Token} (found : ofSymbol? symbol = some token) :
    token.chars = [symbol] := by
  rcases ofSymbol?_eq_some_iff.mp found with ⟨op, rfl, rfl⟩ | ⟨rfl, rfl⟩ | ⟨rfl, rfl⟩ <;> rfl

theorem isDigit_of_mem_toDigits {n : Nat} {c : Char} (member : c ∈ Nat.toDigits 10 n) :
    c.isDigit :=
  Nat.isDigit_of_mem_toDigits (b := 10) (by decide) (by decide) member

/-- The tokens of a value: its magnitude, behind a minus sign when the value is negative. -/
def ofValue (value : Int64) : List Token :=
  let magnitude := integer (.ofNat value.toInt.natAbs)
  if value < 0 then [minus, magnitude] else [magnitude]

theorem ofValue_of_neg {value : Int64} (negative : value < 0) :
    ofValue value = [minus, integer (.ofNat value.toInt.natAbs)] := if_pos negative

theorem ofValue_of_not_neg {value : Int64} (notNegative : ¬ value < 0) :
    ofValue value = [integer (.ofNat value.toInt.natAbs)] := if_neg notNegative

end Token

/-- The decimal text of a value. -/
def decimal (value : Int64) : String :=
  Token.joined (Token.ofValue value)

end Abacus
