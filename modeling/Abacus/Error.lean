/-
**What can go wrong, and how it is told.**

An expression is rejected before it has a value (`ParseError`) or while its value is computed
(`RuntimeError`). Each cause carries the column it is reported at, and `message` alone words it;
`Error.kind` groups the causes.
-/

import Abacus.Token

namespace Abacus

/-- Why a text is not an expression. -/
inductive ParseError where
  /-- There is no token at all. -/
  | emptyExpression
  /-- A character no token starts with, or a token the grammar has no use for. -/
  | unexpectedToken (token : String) (column : Nat)
  /-- The text ends where an operand is due. -/
  | unexpectedEnd (column : Nat)
  /-- The text ends inside the group opened at the column. -/
  | unclosedGroup (column : Nat)
  /-- A complete expression is followed by more tokens. -/
  | trailingTokens (token : String) (column : Nat)
  /-- An integer that no value of an expression can have. -/
  | literalTooLarge (column : Nat)
  /-- More groups are open at once than is allowed. -/
  | nestingTooDeep (column : Nat)
  deriving DecidableEq

/-- Why an expression has no value; the column is that of the operator. -/
inductive RuntimeError where
  | divisionByZero (column : Nat)
  | invalidExponent (exponent : Int64) (column : Nat)
  | overflow (column : Nat)
  deriving DecidableEq

/-- Why evaluating a text fails. -/
inductive Error where
  | parse (cause : ParseError)
  | runtime (cause : RuntimeError)
  deriving DecidableEq

/-- The groups of errors a caller tells apart. -/
inductive ErrorKind where
  | malformedExpression
  | divisionByZero
  | invalidExponent
  | numericOverflow
  deriving DecidableEq

/-- A complaint together with the column it is about. -/
def atColumn (column : Nat) (complaint : String) : String :=
  s!"Error at column {column}: " ++ complaint

namespace ParseError

/-- The text of a parse error. -/
def message : ParseError → String
  | emptyExpression => "Error: No expression supplied."
  | unexpectedToken token column => atColumn column s!"Unexpected token: {token}."
  | unexpectedEnd column => atColumn column "Unexpected end of input."
  | unclosedGroup column => atColumn column "Expected closing parenthesis ')' but none found."
  | trailingTokens token column =>
    atColumn column s!"Extra tokens after expression. Check your input: {token}"
  | literalTooLarge column => atColumn column "Literal is too large."
  | nestingTooDeep column => atColumn column "Expression is nested too deeply."

/-- The column of a parse error, if it has one. -/
def column? : ParseError → Option Nat
  | emptyExpression => none
  | unexpectedToken _ column | unexpectedEnd column | unclosedGroup column
  | trailingTokens _ column | literalTooLarge column | nestingTooDeep column => some column

end ParseError

namespace RuntimeError

/-- The text of a runtime error. -/
def message : RuntimeError → String
  | divisionByZero column => atColumn column "Division by zero."
  | invalidExponent exponent column =>
    atColumn column <| "Exponent " ++ decimal exponent ++
      " is negative; integer powers need a non-negative exponent."
  | overflow column => atColumn column "Integer overflow while trying to compute result."

/-- The column of the operator that failed. -/
def column : RuntimeError → Nat
  | divisionByZero column | invalidExponent _ column | overflow column => column

/-- The kind of a runtime error. -/
def kind : RuntimeError → ErrorKind
  | divisionByZero _ => .divisionByZero
  | invalidExponent _ _ => .invalidExponent
  | overflow _ => .numericOverflow

end RuntimeError

/-- The name of a kind of errors. -/
def ErrorKind.message : ErrorKind → String
  | malformedExpression => "malformed expression"
  | divisionByZero => "division by zero"
  | invalidExponent => "invalid exponent"
  | numericOverflow => "numeric overflow"

namespace Error

/-- The text of an error is that of its cause. -/
def message : Error → String
  | parse cause => cause.message
  | runtime cause => cause.message

/-- The column an error points at, if it has one. -/
def column? : Error → Option Nat
  | parse cause => cause.column?
  | runtime cause => some cause.column

/-- The kind of an error. -/
def kind : Error → ErrorKind
  | parse _ => .malformedExpression
  | runtime cause => cause.kind

end Error

/-! ### Computations that may fail -/

section Bind

variable {ε α β : Type}

@[simp]
theorem ok_bind (value : α) (next : α → Except ε β) : (Except.ok value >>= next) = next value := rfl

@[simp]
theorem error_bind (error : ε) (next : α → Except ε β) :
    (Except.error error >>= next) = .error error := rfl

theorem bind_eq_ok_iff {first : Except ε α} {next : α → Except ε β} {result : β} :
    (first >>= next) = .ok result ↔ ∃ value, first = .ok value ∧ next value = .ok result := by
  cases first <;> simp

end Bind

end Abacus
