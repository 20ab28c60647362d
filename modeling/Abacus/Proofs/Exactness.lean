/-
**Evaluation is exact.**

Over the unbounded integers, evaluating an expression is a `Computation`: it applies operations to
integers, operands first and from the left, and comes to an integer unless an operation has none.
Some operations offend (`Operation.Offends`): they have no result, or one that is no value.

* `Operation.Offends.unique`: an operation offends in one way at most;
* `Operator.yields_apply`: an operation on values fails exactly if it offends, and with this error;
* `Expr.eval_exact`: evaluation comes to the exact integer if no operation offends, and fails with
  the error of the first one that does otherwise.
-/

import Abacus.Expr.Value
import Abacus.Proofs.Power

namespace Abacus

/-! ### Operations on integers -/

/-- The exact result of an operation: division truncates toward zero, a remainder has the sign of
the dividend. Nothing is divided by zero, and there are no powers with negative exponents. -/
def Operator.exact? : Operator → Int → Int → Option Int
  | add, left, right => some (left + right)
  | sub, left, right => some (left - right)
  | mul, left, right => some (left * right)
  | div, left, right => if right = 0 then none else some (left.tdiv right)
  | mod, left, right => if right = 0 then none else some (left.tmod right)
  | pow, left, right => if right < 0 then none else some (left.pow right.toNat)

/-- An operation with the integers it is applied to and the column of its operator. -/
inductive Operation where
  | negation (operand : Int) (column : Nat)
  | binary (op : Operator) (left right : Int) (column : Nat)

namespace Operation

/-- The column of the operator or minus sign. -/
def column : Operation → Nat
  | negation _ column | binary _ _ _ column => column

/-- The exact result, if there is one. -/
def result? : Operation → Option Int
  | negation operand _ => some (-operand)
  | binary op left right _ => op.exact? left right

/-- The operation has no result, or one that is no value, or it is the remainder of the least value
by minus one, whose quotient is no value. -/
inductive Offends : Operation → RuntimeError → Prop
  | zeroDivisor {op : Operator} {left right : Int} {column : Nat}
      (divides : op = .div ∨ op = .mod) (zero : right = 0) :
      Offends (binary op left right column) (.divisionByZero column)
  | negativeExponent {left right : Int} {exponent : Int64} {column : Nat}
      (exact : exponent.toInt = right) (negative : right < 0) :
      Offends (binary .pow left right column) (.invalidExponent exponent column)
  | outOfRange {operation : Operation} {n : Int} (exact : operation.result? = some n)
      (outside : ¬ InRange n) : Offends operation (.overflow operation.column)
  | leastRemainder {left right : Int} {column : Nat} (dividend : left = -leastMagnitude)
      (divisor : right = -1) : Offends (binary .mod left right column) (.overflow column)

/-- The operation does not offend. -/
def Fine (operation : Operation) : Prop := ∀ error, ¬ operation.Offends error

/-- The first of the operations that offends does so with the error. -/
inductive FirstOffence (error : RuntimeError) : List Operation → Prop
  | here {operation : Operation} {operations : List Operation}
      (offends : operation.Offends error) : FirstOffence error (operation :: operations)
  | later {operation : Operation} {operations : List Operation} (fine : operation.Fine)
      (first : FirstOffence error operations) : FirstOffence error (operation :: operations)

variable {operation : Operation} {operations more : List Operation} {error other : RuntimeError}
  {n : Int}

theorem result?_of_zero {op : Operator} (divides : op = .div ∨ op = .mod) (left : Int)
    (column : Nat) : (binary op left 0 column).result? = none := by
  rcases divides with rfl | rfl <;> rfl

theorem result?_of_negative {right : Int} (negative : right < 0) (left : Int) (column : Nat) :
    (binary .pow left right column).result? = none :=
  if_pos negative

/-- An operation with a result offends by an overflow: the result is out of range, or the operation
is that remainder. -/
theorem Offends.of_result (offends : operation.Offends error) (exact : operation.result? = some n) :
    error = .overflow operation.column ∧
      (¬ InRange n ∨ ∃ column, operation = binary .mod (-leastMagnitude) (-1) column) := by
  cases offends with
  | zeroDivisor divides zero =>
    rw [zero, result?_of_zero divides] at exact
    cases exact
  | negativeExponent _ negative =>
    rw [result?_of_negative negative] at exact
    cases exact
  | outOfRange exact' outside =>
    cases exact.symm.trans exact'
    exact ⟨rfl, .inl outside⟩
  | @leastRemainder left right column dividend divisor =>
    exact ⟨rfl, .inr ⟨column, by rw [dividend, divisor]⟩⟩

/-- **An operation offends in one way at most.** -/
theorem Offends.unique (one : operation.Offends error) (two : operation.Offends other) :
    error = other := by
  cases exact : operation.result? with
  | some n => rw [(one.of_result exact).1, (two.of_result exact).1]
  | none =>
    cases one with
    | zeroDivisor divides zero =>
      cases two with
      | zeroDivisor => rfl
      | negativeExponent => rcases divides with divides | divides <;> cases divides
      | outOfRange exact' => cases exact.symm.trans exact'
      | leastRemainder dividend divisor => omega
    | negativeExponent same negative =>
      cases two with
      | zeroDivisor divides => rcases divides with divides | divides <;> cases divides
      | negativeExponent same' => rw [Int64.toInt_inj.mp (same.trans same'.symm)]
      | outOfRange exact' => cases exact.symm.trans exact'
    | outOfRange exact' => cases exact.symm.trans exact'
    | leastRemainder dividend divisor =>
      rw [dividend, divisor] at exact
      cases exact

theorem FirstOffence.unique (one : FirstOffence error operations)
    (two : FirstOffence other operations) : error = other := by
  induction one with
  | here offends =>
    cases two with
    | here offends' => exact offends.unique offends'
    | later fine _ => exact absurd offends (fine _)
  | later fine _ ih =>
    cases two with
    | here offends' => exact absurd offends' (fine _)
    | later _ first' => exact ih first'

theorem FirstOffence.not_fine (first : FirstOffence error operations) :
    ¬ ∀ operation ∈ operations, operation.Fine := by
  intro fine
  induction first with
  | here offends => exact fine _ List.mem_cons_self _ offends
  | later _ _ ih => exact ih fun operation member => fine operation (List.mem_cons_of_mem _ member)

theorem FirstOffence.append (first : FirstOffence error operations) (more : List Operation) :
    FirstOffence error (operations ++ more) := by
  induction first with
  | here offends => exact .here offends
  | later fine _ ih => exact .later fine ih

theorem FirstOffence.of_fine (fine : ∀ operation ∈ operations, operation.Fine)
    (first : FirstOffence error more) : FirstOffence error (operations ++ more) := by
  induction operations with
  | nil => exact first
  | cons operation operations ih =>
    obtain ⟨fineHere, fineLater⟩ := List.forall_mem_cons.mp fine
    exact .later fineHere (ih fineLater)

end Operation

open Operation (FirstOffence)

/-! ### Computations over the integers -/

/-- What evaluating over the unbounded integers comes to. -/
structure Computation where
  /-- The operations that are applied, in their order. -/
  operations : List Operation
  /-- The integer, if every operation has a result. -/
  result? : Option Int

namespace Computation

/-- The computation of an integer that is given. -/
def value (n : Int) : Computation := ⟨[], some n⟩

/-- The computation that applies one operation. -/
def apply (operation : Operation) : Computation := ⟨[operation], operation.result?⟩

/-- A computation that goes on with the result of another, if that has one. -/
def andThen (first : Computation) (next : Int → Computation) : Computation :=
  match first.result? with
  | none => first
  | some n => ⟨first.operations ++ (next n).operations, (next n).result?⟩

/-- The outcome is the result of a computation without an offence, or the error of the first. -/
inductive Yields (computation : Computation) : Except RuntimeError Int64 → Prop
  | value {value : Int64} (fine : ∀ operation ∈ computation.operations, operation.Fine)
      (exact : computation.result? = some value.toInt) : Yields computation (.ok value)
  | error {error : RuntimeError} (first : FirstOffence error computation.operations) :
      Yields computation (.error error)

theorem yields_value (value : Int64) : (Computation.value value.toInt).Yields (.ok value) :=
  .value nofun rfl

variable {computation : Computation} {outcome : Except RuntimeError Int64}

/-- Outcomes are put together as computations are. -/
theorem Yields.andThen {next : Int → Computation} {goOn : Int64 → Except RuntimeError Int64}
    (one : computation.Yields outcome) (two : ∀ value : Int64, (next value.toInt).Yields (goOn value)) :
    (computation.andThen next).Yields (outcome >>= goOn) := by
  cases one with
  | @value value fine exact =>
    have next := two value
    rw [Computation.andThen, exact, ok_bind]
    generalize goOn value = last at next
    cases next with
    | value fine' exact' =>
      refine .value (List.forall_mem_append.mpr ⟨fine, fine'⟩) exact'
    | error first => exact .error (.of_fine fine first)
  | error first =>
    rw [Computation.andThen, error_bind]
    cases computation.result? with
    | none => exact .error first
    | some n => exact .error (first.append _)

theorem Yields.eq_ok_iff (yields : computation.Yields outcome) (value : Int64) :
    outcome = .ok value ↔ (∀ operation ∈ computation.operations, operation.Fine) ∧
      computation.result? = some value.toInt := by
  cases yields with
  | @value found fine exact =>
    rw [exact, Option.some.injEq, Int64.toInt_inj, Except.ok.injEq]
    exact ⟨fun same => ⟨fine, same⟩, And.right⟩
  | error first => exact ⟨nofun, fun ⟨fine, _⟩ => absurd fine first.not_fine⟩

theorem Yields.eq_error_iff (yields : computation.Yields outcome) (error : RuntimeError) :
    outcome = .error error ↔ FirstOffence error computation.operations := by
  cases yields with
  | value fine _ => exact ⟨nofun, fun first => absurd fine first.not_fine⟩
  | error first =>
    rw [Except.error.injEq]
    exact ⟨fun same => same ▸ first, first.unique⟩

/-! ### Single operations -/

theorem yields_error {operation : Operation} {error : RuntimeError}
    (offends : operation.Offends error) : (apply operation).Yields (.error error) :=
  .error (.here offends)

/-- An operation with a result is checked, unless it is the one remainder that offends. -/
theorem yields_checked {operation : Operation} {n : Int} (exact : operation.result? = some n)
    (allowed : ∀ column, operation ≠ .binary .mod (-leastMagnitude) (-1) column) :
    (apply operation).Yields (checked n operation.column) := by
  cases found : value? n with
  | some value =>
    have same := value?_eq_some_iff.mp found
    rw [checked_eq_ok_iff.mpr same]
    refine .value (fun other member error offends => ?_) (by rw [apply, exact, same])
    cases List.mem_singleton.mp member
    rcases (offends.of_result exact).2 with outside | ⟨column, least⟩
    · exact outside (same ▸ inRange_toInt value)
    · exact allowed column least
  | none =>
    have outside := value?_eq_none_iff.mp found
    rw [checked_of_not_inRange outside]
    exact yields_error (.outOfRange exact outside)

/-- An operation with a result is checked if it is no remainder. -/
theorem yields_checked_of_ne_mod {op : Operator} {left right n : Int} {column : Nat}
    (other : op ≠ .mod) (exact : (Operation.binary op left right column).result? = some n) :
    (apply (.binary op left right column)).Yields (checked n column) :=
  yields_checked exact fun _ same => other (Operation.binary.inj same).1

theorem yields_checkedNeg (operand : Int64) (column : Nat) :
    (apply (.negation operand.toInt column)).Yields (checkedNeg operand column) :=
  yields_checked rfl nofun

end Computation

open Abacus.Computation (yields_error yields_checked yields_checked_of_ne_mod)

/-- **An operation on values fails exactly if it offends**, and with this error. -/
theorem Operator.yields_apply (op : Operator) (left right : Int64) (column : Nat) :
    (Computation.apply (.binary op left.toInt right.toInt column)).Yields
      (op.apply left right column) := by
  cases op with
  | add => exact yields_checked_of_ne_mod (by decide) rfl
  | sub => exact yields_checked_of_ne_mod (by decide) rfl
  | mul => exact yields_checked_of_ne_mod (by decide) rfl
  | div =>
    rw [Operator.apply]
    split
    · rename_i zero
      exact yields_error (.zeroDivisor (.inl rfl) (toInt_eq_zero_iff.mpr zero))
    · rename_i nonzero
      exact yields_checked_of_ne_mod (by decide) (if_neg (mt toInt_eq_zero_iff.mp nonzero))
  | mod =>
    rw [Operator.apply]
    split
    · rename_i zero
      exact yields_error (.zeroDivisor (.inr rfl) (toInt_eq_zero_iff.mpr zero))
    · rename_i nonzero
      split
      · rename_i least
        obtain ⟨rfl, rfl⟩ := least
        exact yields_error (.leastRemainder rfl rfl)
      · rename_i notLeast
        refine yields_checked (if_neg (mt toInt_eq_zero_iff.mp nonzero)) fun other same => ?_
        injection same with _ dividend divisor _
        exact notLeast ⟨Int64.toInt_inj.mp dividend, Int64.toInt_inj.mp divisor⟩
  | pow =>
    rw [Operator.apply]
    by_cases negative : right < 0
    · rw [power, if_pos negative]
      exact yields_error (.negativeExponent rfl (Int64.lt_iff_toInt_lt.mp negative))
    · rw [power_eq_checked negative]
      exact yields_checked_of_ne_mod (by decide) (if_neg (mt Int64.lt_iff_toInt_lt.mpr negative))

/-! ### Evaluation -/

namespace Expr

mutual

/-- Evaluation over the unbounded integers. -/
def computation : Expr → Computation
  | literal value _ => .value value.toInt
  | group inner _ => inner.computation
  | negate operand column =>
    operand.computation.andThen fun n => .apply (.negation n column)
  | chain head links => head.computation.andThen fun left => linksComputation left links

/-- Evaluation of a chain whose head is the integer `left`. -/
def linksComputation (left : Int) : List (Link Expr) → Computation
  | [] => .value left
  | ⟨op, operand, column⟩ :: links =>
    operand.computation.andThen fun right =>
      (Computation.apply (.binary op left right column)).andThen fun n =>
        linksComputation n links

end

mutual

/-- Evaluation is the checked form of the computation over the integers. -/
theorem yields_eval : ∀ e : Expr, e.computation.Yields e.eval
  | literal value _ => by
    rw [computation, eval]
    exact Computation.yields_value value
  | group inner _ => by
    rw [computation, eval]
    exact yields_eval inner
  | negate operand column => by
    rw [computation, eval]
    exact (yields_eval operand).andThen fun value => Computation.yields_checkedNeg value column
  | chain head links => by
    rw [computation, eval]
    exact (yields_eval head).andThen fun left => yields_evalLinks left links

theorem yields_evalLinks (left : Int64) :
    ∀ links : List (Link Expr), (linksComputation left.toInt links).Yields (evalLinks left links)
  | [] => by
    rw [linksComputation, evalLinks]
    exact Computation.yields_value left
  | ⟨op, operand, column⟩ :: links => by
    rw [linksComputation, evalLinks]
    refine (yields_eval operand).andThen fun right => ?_
    exact (op.yields_apply left right column).andThen fun value => yields_evalLinks value links

end

/-- **Evaluation is exact.** An expression has a value exactly if evaluating it over the unbounded
integers meets no operation that offends and comes to this value. Otherwise its error is that of the
first operation that offends, with the column of its operator. -/
theorem eval_exact (e : Expr) :
    (∀ value : Int64, e.eval = .ok value ↔
      (∀ operation ∈ e.computation.operations, ∀ error, ¬ operation.Offends error) ∧
        e.computation.result? = some value.toInt) ∧
      ∀ error, e.eval = .error error ↔ FirstOffence error e.computation.operations :=
  ⟨(yields_eval e).eq_ok_iff, (yields_eval e).eq_error_iff⟩

end Expr

end Abacus
