/-
**Results without columns.**

The column of a runtime error is that of an operator in the text, and another text for the same
expression has its operators elsewhere. The outcome of an expression is its value, or its error
without the column; it is made up of the outcomes of the parts (`Expr.outcome_negate`,
`Expr.outcome_ofLinks`, `Expr.outcomeLinks_cons`).
-/

import Abacus.Expr.Value

namespace Abacus

/-- An error without its column; what is left is the cause and the exponent. -/
def RuntimeError.withoutColumn : RuntimeError → RuntimeError
  | divisionByZero _ => divisionByZero 0
  | invalidExponent exponent _ => invalidExponent exponent 0
  | overflow _ => overflow 0

theorem mapError_bind {ε ε' α β : Type} (f : ε → ε') (first : Except ε α)
    (next : α → Except ε β) :
    (first >>= next).mapError f = first.mapError f >>= fun value => (next value).mapError f := by
  cases first <;> rfl

/-! ### Operations -/

section Operations

open RuntimeError

theorem checked_withoutColumn (n : Int) (column : Nat) :
    (checked n column).mapError withoutColumn = checked n 0 := by
  unfold checked
  cases value? n <;> rfl

theorem count32_withoutColumn (value : Int64) (column : Nat) :
    (count32 value column).mapError withoutColumn = count32 value 0 := by
  unfold count32
  split <;> rfl

theorem power_withoutColumn (base exponent : Int64) (column : Nat) :
    (power base exponent column).mapError withoutColumn = power base exponent 0 := by
  unfold power
  split
  · rfl
  · split
    · rfl
    · split
      · rfl
      · rw [mapError_bind, count32_withoutColumn]
        congr 1
        funext count
        split
        · exact checked_withoutColumn _ _
        · rfl

theorem checkedNeg_withoutColumn (value : Int64) (column : Nat) :
    (checkedNeg value column).mapError withoutColumn = checkedNeg value 0 :=
  checked_withoutColumn _ _

/-- The column of an operator takes no part in its operation. -/
theorem apply_withoutColumn (op : Operator) (left right : Int64) (column : Nat) :
    (op.apply left right column).mapError withoutColumn = op.apply left right 0 := by
  cases op with
  | add => exact checked_withoutColumn _ _
  | sub => exact checked_withoutColumn _ _
  | mul => exact checked_withoutColumn _ _
  | div =>
    simp only [Operator.apply]
    split
    · rfl
    · exact checked_withoutColumn _ _
  | mod =>
    simp only [Operator.apply]
    split
    · rfl
    · split
      · rfl
      · exact checked_withoutColumn _ _
  | pow => exact power_withoutColumn _ _ _

end Operations

/-! ### Expressions -/

namespace Expr

/-- The value of an expression, or its error without the column. -/
def outcome (e : Expr) : Except RuntimeError Int64 := e.eval.mapError RuntimeError.withoutColumn

/-- The outcome of a chain whose head has the value `left`. -/
def outcomeLinks (left : Int64) (links : List (Link Expr)) : Except RuntimeError Int64 :=
  (evalLinks left links).mapError RuntimeError.withoutColumn

theorem outcome_group (inner : Expr) (column : Nat) :
    (group inner column).outcome = inner.outcome := by
  rw [outcome, eval, outcome]

theorem outcome_negate (operand : Expr) (column : Nat) :
    (negate operand column).outcome = operand.outcome >>= fun value => checkedNeg value 0 := by
  rw [outcome, eval, mapError_bind]
  simp only [checkedNeg_withoutColumn, outcome]

theorem outcome_ofLinks (head : Expr) (links : List (Link Expr)) :
    (ofLinks head links).outcome = head.outcome >>= fun value => outcomeLinks value links := by
  rw [outcome, eval_ofLinks, mapError_bind]
  rfl

theorem outcomeLinks_nil (left : Int64) : outcomeLinks left [] = .ok left := rfl

theorem outcomeLinks_cons (left : Int64) (op : Operator) (operand : Expr) (column : Nat)
    (links : List (Link Expr)) :
    outcomeLinks left (⟨op, operand, column⟩ :: links) = (do
      let right ← operand.outcome
      let value ← op.apply left right 0
      outcomeLinks value links) := by
  rw [outcomeLinks, evalLinks, mapError_bind]
  simp only [mapError_bind, apply_withoutColumn, outcome, outcomeLinks]

end Expr

end Abacus
