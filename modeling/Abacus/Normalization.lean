/-
**Ways to echo an expression.**

A normalization changes the blanks of a text and nothing else. `spacing` works on a `Layout`, the
text as its non-blank characters with the blanks before each: it keeps the characters and gives new
blanks to those next to a binary operator. Whether an operator is binary depends on the characters
alone, not on the blanks.

* `Layout.toChars_ofChars`: a layout holds the whole text.
-/

import Abacus.Blank

namespace Abacus

/-- A character that is not blank, with the blanks before it. -/
structure Piece where
  gap : List Char
  char : Char
  deriving DecidableEq

/-- A text as its pieces and the blanks at its end. -/
structure Layout where
  pieces : List Piece
  tail : List Char
  deriving DecidableEq

namespace Layout

/-- A layout behind one more blank. -/
def prependBlank (blank : Char) : Layout → Layout
  | ⟨[], tail⟩ => ⟨[], blank :: tail⟩
  | ⟨⟨gap, char⟩ :: pieces, tail⟩ => ⟨⟨blank :: gap, char⟩ :: pieces, tail⟩

/-- The layout of a text. -/
def ofChars : List Char → Layout
  | [] => ⟨[], []⟩
  | c :: text =>
    let layout := ofChars text
    if isBlank c then layout.prependBlank c else ⟨⟨[], c⟩ :: layout.pieces, layout.tail⟩

/-- The text of a layout. -/
def toChars (layout : Layout) : List Char :=
  layout.pieces.flatMap (fun piece => piece.gap ++ [piece.char]) ++ layout.tail

@[simp]
theorem toChars_prependBlank (blank : Char) (layout : Layout) :
    (layout.prependBlank blank).toChars = blank :: layout.toChars := by
  rcases layout with ⟨_ | ⟨piece, pieces⟩, tail⟩ <;> simp [prependBlank, toChars]

/-- A layout holds the whole text. -/
theorem toChars_ofChars (text : List Char) : (ofChars text).toChars = text := by
  induction text with
  | nil => rfl
  | cons c text ih =>
    rw [ofChars]
    split
    · rw [toChars_prependBlank, ih]
    · simpa [toChars] using ih

end Layout

/-! ### One space around every binary operator -/

/-- The operators that are set off by spaces. The last two are no operators of expressions, so that
other infix texts can be spaced too. -/
def spacedOperators : List Char :=
  ['+', '-', '%', '*', '/', '^', '&', '|']

/-- What the last character that is not blank was. -/
inductive Before where
  /-- The end of an operand: a digit or a closing parenthesis. -/
  | operand
  /-- An operator behind an operand. -/
  | binary
  /-- Anything else, or nothing. -/
  | other
  deriving DecidableEq

/-- The next state of the scan: what a character is, given what stands before it. -/
def Before.next (before : Before) (c : Char) : Before :=
  if c ∈ spacedOperators ∧ before = .operand then .binary
  else if c.isDigit ∨ c = ')' then .operand
  else .other

/-- A piece with one space before it if it is a binary operator or follows one. -/
def Piece.respace (before : Before) (piece : Piece) : Piece :=
  if before = .binary ∨ before.next piece.char = .binary then ⟨[' '], piece.char⟩ else piece

/-- Pieces with the blanks around binary operators replaced; a binary operator at the end has
nothing behind it. -/
def respacePieces (before : Before) (tail : List Char) : List Piece → Layout
  | [] => ⟨[], if before = .binary then [] else tail⟩
  | piece :: pieces =>
    let layout := respacePieces (before.next piece.char) tail pieces
    ⟨piece.respace before :: layout.pieces, layout.tail⟩

/-- A layout with one space on each side of every binary operator. -/
def Layout.respace (layout : Layout) : Layout :=
  respacePieces .other layout.tail layout.pieces

/-- A text with one space on each side of every binary operator; other blanks are kept. -/
def spacing (text : String) : String :=
  String.ofList (Layout.ofChars text.toList).respace.toChars

/-! ### The choice -/

/-- A text without its blanks. -/
def compact (text : String) : String :=
  String.ofList (text.toList.filter fun c => !isBlank c)

/-- How an expression is echoed. -/
inductive Normalization where
  /-- As it is written. -/
  | preserve
  /-- Without blanks. -/
  | compact
  /-- With one space on each side of every binary operator. -/
  | spacing
  deriving DecidableEq

instance : Inhabited Normalization := ⟨.preserve⟩

/-- A text in the form that a normalization gives it. -/
def Normalization.apply (normalization : Normalization) (text : String) : String :=
  match normalization with
  | .preserve => text
  | .compact => Abacus.compact text
  | .spacing => Abacus.spacing text

end Abacus
