/-
**Reading expressions.**

A text is an expression when the grammar reads all of its tokens. `parse` reads a text,
`parseLexemes` a list of tokens.
-/

import Abacus.Grammar
import Abacus.Token.Lexer

namespace Abacus

/-- The expression that a list of tokens is; a missing token is reported at `endColumn`. -/
def parseLexemes (lexemes : List Lexeme) (endColumn : Nat) : Except ParseError Expr :=
  match lexemes with
  | [] => .error .emptyExpression
  | lexemes =>
    match (Grammar.expression endColumn Grammar.maxNesting).run lexemes with
    | .error error => .error error
    | .ok (e, []) => .ok e
    | .ok (_, ⟨token, column⟩ :: _) => .error (.trailingTokens token.text column)

/-- The expression that a text is. A missing token is reported behind the last character. -/
def parse (source : String) : Except ParseError Expr := do
  let lexemes ← tokenize source
  parseLexemes lexemes (source.length + 1)

end Abacus
