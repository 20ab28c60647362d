/-
**The text of an expression.**

An expression is written as the tokens it is read from, with nothing between them. Two places need
parentheses that are no group of the expression: a negative literal behind a minus sign, and a
negative literal that is the base of a power.
-/

import Abacus.Expr

namespace Abacus.Expr

/-- A literal below zero, which is written with a minus sign. -/
def isNegativeLiteral : Expr → Bool
  | literal value _ => value < 0
  | _ => false

theorem isNegativeLiteral_eq_true_iff {e : Expr} :
    e.isNegativeLiteral = true ↔ ∃ value column, e = literal value column ∧ value < 0 := by
  cases e <;> simp [isNegativeLiteral]

/-- Links that start with a power, which would bind tighter than a minus sign before them. -/
def startWithPower : List (Link Expr) → Bool
  | link :: _ => link.op == .pow
  | [] => false

/-- Tokens in parentheses. -/
def enclosed (tokens : List Token) : List Token :=
  .leftParen :: (tokens ++ [.rightParen])

mutual

/-- The tokens of an expression. -/
def tokens : Expr → List Token
  | literal value _ => Token.ofValue value
  | group inner _ => enclosed inner.tokens
  | negate operand _ =>
    .minus :: if operand.isNegativeLiteral then enclosed operand.tokens else operand.tokens
  | chain head links =>
    (if head.isNegativeLiteral && startWithPower links then enclosed head.tokens
      else head.tokens) ++ linksTokens links

/-- The tokens of the links of a chain. -/
def linksTokens : List (Link Expr) → List Token
  | [] => []
  | ⟨op, operand, _⟩ :: links => .operator op :: (operand.tokens ++ linksTokens links)

end

theorem linksTokens_eq_flatMap (links : List (Link Expr)) :
    linksTokens links = links.flatMap fun link => .operator link.op :: link.operand.tokens := by
  induction links with
  | nil => rfl
  | cons link links ih => rw [linksTokens, List.flatMap_cons, ih, List.cons_append]

/-- The text of an expression. -/
def text (e : Expr) : String :=
  Token.joined e.tokens

end Abacus.Expr
