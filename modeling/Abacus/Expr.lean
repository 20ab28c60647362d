/-
**Expressions.**

An expression is a literal, a group in parentheses, a negation or a chain: a head followed by
operators with their right operands, which group from the left. A chain keeps a whole run of
operators flat, so an expression is as deep as its parentheses and not as its text is long.

* `Expr.induction`: induction over an expression and the operands of its chains;
* `Expr.weight`: the number of operators, minus signs and groups, a bound on what is left to do.
-/

import Abacus.Arithmetic

namespace Abacus

/-- An operator with its right operand and its column. -/
structure Link (α : Type) where
  op : Operator
  operand : α
  column : Nat
  deriving DecidableEq

/-- Arithmetic expressions with the columns their parts stand at. -/
inductive Expr where
  /-- A value, at the column of its first character. -/
  | literal (value : Int64) (column : Nat)
  /-- An expression in parentheses, at the column of the opening one. -/
  | group (inner : Expr) (column : Nat)
  /-- A negated expression, at the column of the minus sign. -/
  | negate (operand : Expr) (column : Nat)
  /-- Operators applied from left to right. -/
  | chain (head : Expr) (links : List (Link Expr))

namespace Expr

mutual

/-- **Induction**, with a hypothesis for every operand of a chain. -/
@[elab_as_elim]
theorem induction {motive : Expr → Prop}
    (literal : ∀ value column, motive (.literal value column))
    (group : ∀ inner column, motive inner → motive (.group inner column))
    (negate : ∀ operand column, motive operand → motive (.negate operand column))
    (chain : ∀ head links, motive head → (∀ link ∈ links, motive link.operand) →
      motive (.chain head links)) : ∀ e : Expr, motive e
  | .literal value column => literal value column
  | .group inner column => group inner column (induction literal group negate chain inner)
  | .negate operand column =>
    negate operand column (induction literal group negate chain operand)
  | .chain head links =>
    chain head links (induction literal group negate chain head)
      (inductionLinks literal group negate chain links)

/-- The operands of a chain, one by one. -/
theorem inductionLinks {motive : Expr → Prop}
    (literal : ∀ value column, motive (.literal value column))
    (group : ∀ inner column, motive inner → motive (.group inner column))
    (negate : ∀ operand column, motive operand → motive (.negate operand column))
    (chain : ∀ head links, motive head → (∀ link ∈ links, motive link.operand) →
      motive (.chain head links)) : ∀ links : List (Link Expr), ∀ link ∈ links, motive link.operand
  | ⟨_, operand, _⟩ :: links, link, member => by
    rcases List.mem_cons.mp member with rfl | later
    · exact induction literal group negate chain operand
    · exact inductionLinks literal group negate chain links link later

end

/-- A head with links: the head alone when there are none. -/
def ofLinks (head : Expr) : List (Link Expr) → Expr
  | [] => head
  | link :: links => .chain head (link :: links)

/-- The column an expression starts at: that of its first part. -/
def column : Expr → Nat
  | literal _ column | group _ column | negate _ column => column
  | chain head _ => head.column

/-- The value of an expression that is a literal. -/
def literal? : Expr → Option Int64
  | literal value _ => some value
  | _ => none

mutual

/-- The number of operators, minus signs and groups of an expression. -/
def weight : Expr → Nat
  | literal _ _ => 0
  | group inner _ => inner.weight + 1
  | negate operand _ => operand.weight + 1
  | chain head links => head.weight + linksWeight links

/-- The weight of the links of a chain: each operator and its operand. -/
def linksWeight : List (Link Expr) → Nat
  | [] => 0
  | ⟨_, operand, _⟩ :: links => operand.weight + 1 + linksWeight links

end

theorem ofLinks_append_cons (head : Expr) (before : List (Link Expr)) (link : Link Expr)
    (links : List (Link Expr)) :
    ofLinks head (before ++ link :: links) = chain head (before ++ link :: links) := by
  cases before <;> rfl

@[simp]
theorem column_ofLinks (head : Expr) (links : List (Link Expr)) :
    (ofLinks head links).column = head.column := by
  cases links <;> simp [ofLinks, column]

@[simp]
theorem weight_ofLinks (head : Expr) (links : List (Link Expr)) :
    (ofLinks head links).weight = head.weight + linksWeight links := by
  cases links <;> simp [ofLinks, weight, linksWeight]

theorem literal?_eq_some_iff {e : Expr} {value : Int64} :
    e.literal? = some value ↔ ∃ column, e = literal value column := by
  cases e <;> simp [literal?, eq_comm]

theorem literal?_eq_none_iff {e : Expr} :
    e.literal? = none ↔ ∀ value column, e ≠ literal value column := by
  cases e <;> simp [literal?]

end Expr

end Abacus
