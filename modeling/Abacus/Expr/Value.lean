/-
**The value of an expression.**

`Expr.eval` computes operands before the operators that need them and takes a chain from left to
right, so the first failing operation in that order is the error that is reported.
-/

import Abacus.Expr

namespace Abacus.Expr

mutual

/-- The value of an expression. -/
def eval : Expr → Except RuntimeError Int64
  | literal value _ => .ok value
  | group inner _ => inner.eval
  | negate operand column => do
    let value ← operand.eval
    checkedNeg value column
  | chain head links => do
    let value ← head.eval
    evalLinks value links

/-- The value of a chain whose head has the value `left`. -/
def evalLinks (left : Int64) : List (Link Expr) → Except RuntimeError Int64
  | [] => .ok left
  | ⟨op, operand, column⟩ :: links => do
    let right ← operand.eval
    let value ← op.apply left right column
    evalLinks value links

end

@[simp]
theorem eval_ofLinks (head : Expr) (links : List (Link Expr)) :
    (ofLinks head links).eval = (do let value ← head.eval; evalLinks value links) := by
  cases links
  · cases found : head.eval <;> simp [ofLinks, found, evalLinks]
  · simp [ofLinks, eval]

/-- The links of a chain are evaluated in their order. -/
theorem evalLinks_append (left : Int64) (before links : List (Link Expr)) :
    evalLinks left (before ++ links) =
      (do let value ← evalLinks left before; evalLinks value links) := by
  induction before generalizing left with
  | nil => rw [List.nil_append, evalLinks, ok_bind]
  | cons link before ih =>
    obtain ⟨op, operand, column⟩ := link
    rw [List.cons_append, evalLinks, evalLinks]
    cases operand.eval with
    | error error => simp only [error_bind]
    | ok right =>
      simp only [ok_bind]
      cases op.apply left right column with
      | error error => simp only [error_bind]
      | ok value => simp only [ok_bind, ih]

end Abacus.Expr
