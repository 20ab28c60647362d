/-
**Checked 64-bit arithmetic.**

Every operation is the exact integer operation followed by a check that the result is a 64-bit
value:

* `value?_eq_some_iff`: the check accepts exactly the integers that are values;
* `power`: exponentiation, which has no negative exponents;
* `Operator.apply` and `checkedNeg`: the operations of expressions.
-/

import Abacus.Error

namespace Abacus

/-- The magnitude of the least value, `2^63`; that of any other value is smaller. -/
abbrev leastMagnitude : Nat := 9223372036854775808

theorem natAbs_le_leastMagnitude (value : Int64) : value.toInt.natAbs ≤ leastMagnitude := by
  have lower := value.le_toInt
  have upper := value.toInt_lt
  change _ ≤ 9223372036854775808
  omega

theorem natAbs_lt_leastMagnitude {value : Int64} (positive : 0 ≤ value.toInt) :
    value.toInt.natAbs < leastMagnitude := by
  have upper := value.toInt_lt
  change _ < 9223372036854775808
  omega

theorem eq_minValue_of_natAbs {value : Int64} (negative : value.toInt < 0)
    (least : value.toInt.natAbs = leastMagnitude) : value = .minValue := by
  change _ = 9223372036854775808 at least
  rw [← Int64.toInt_inj, Int64.toInt_minValue]
  omega

/-- A magnitude fits into an unsigned integer. -/
theorem toNat_ofNat_natAbs (value : Int64) :
    (UInt64.ofNat value.toInt.natAbs).toNat = value.toInt.natAbs := by
  have bound := natAbs_le_leastMagnitude value
  exact UInt64.toNat_ofNat_of_lt' (Nat.lt_of_le_of_lt bound (by decide))

/-- The 64-bit value that is the integer `n`, if there is one. -/
def value? (n : Int) : Option Int64 :=
  if Int64.minValue.toInt ≤ n ∧ n ≤ Int64.maxValue.toInt then some (.ofInt n) else none

/-- An integer is a value exactly when some value has it as its integer. -/
theorem value?_eq_some_iff {n : Int} {value : Int64} : value? n = some value ↔ value.toInt = n := by
  unfold value?
  split
  · rename_i inRange
    have exact : (Int64.ofInt n).toInt = n :=
      Int64.toInt_ofInt_of_le inRange.1 (Int.lt_add_one_of_le inRange.2)
    rw [Option.some.injEq, ← Int64.toInt_inj, exact, eq_comm]
  · rename_i outside
    simp only [reduceCtorEq, false_iff]
    rintro rfl
    exact outside ⟨value.minValue_le_toInt, value.toInt_le⟩

/-- The value that is the integer `n`; an overflow at the column otherwise. -/
def checked (n : Int) (column : Nat) : Except RuntimeError Int64 :=
  match value? n with
  | some value => .ok value
  | none => .error (.overflow column)

/-- A check succeeds with the value that is the checked integer. -/
theorem checked_eq_ok_iff {n : Int} {column : Nat} {value : Int64} :
    checked n column = .ok value ↔ value.toInt = n := by
  rw [← value?_eq_some_iff, checked]
  cases value? n <;> simp

/-- A check fails with an overflow at its column and in no other way. -/
theorem checked_eq_error_iff {n : Int} {column : Nat} {error : RuntimeError} :
    checked n column = .error error ↔ value? n = none ∧ error = .overflow column := by
  rw [checked]
  cases value? n <;> simp [eq_comm]

/-- A value as an unsigned 32-bit count; an overflow at the column if it is none. -/
def count32 (value : Int64) (column : Nat) : Except RuntimeError UInt32 :=
  if 0 ≤ value.toInt ∧ value.toInt < UInt32.size then .ok (.ofNat value.toInt.toNat)
  else .error (.overflow column)

/-- The power of two values. The bases zero, one and minus one have powers for all exponents; any
other base leaves the 64-bit range before the exponent 64, so larger exponents need no product. -/
def power (base exponent : Int64) (column : Nat) : Except RuntimeError Int64 :=
  if exponent < 0 then .error (.invalidExponent exponent column)
  else if base = 0 ∨ base = 1 then .ok (if exponent = 0 then 1 else base)
  else if base = -1 then .ok (if exponent % 2 = 0 then 1 else -1)
  else do
    let count ← count32 exponent column
    if count < 64 then checked (base.toInt.pow count.toNat) column else .error (.overflow column)

/-- A power is negative only if its base is. -/
theorem neg_of_power_eq_ok {base exponent value : Int64} {column : Nat}
    (raised : power base exponent column = .ok value) (negative : value < 0) : base < 0 := by
  unfold power at raised
  split at raised
  · cases raised
  · split at raised
    · rename_i special
      cases raised
      split at negative
      · exact absurd negative (by decide)
      · exact negative
    · split at raised
      · rename_i minusOne
        rw [minusOne]
        decide
      · obtain ⟨count, -, bounded⟩ := bind_eq_ok_iff.mp raised
        split at bounded
        · have exact := checked_eq_ok_iff.mp bounded
          rw [Int64.lt_iff_toInt_lt, Int64.toInt_zero] at negative ⊢
          rw [exact] at negative
          exact Int.not_le.mp fun positive =>
            absurd (Int.pow_nonneg positive) (Int.not_le.mpr negative)
        · cases bounded

/-- A binary operation on values, failing at the column of its operator. Division truncates, a
remainder has the sign of the dividend and needs a quotient in range. -/
def Operator.apply (op : Operator) (left right : Int64) (column : Nat) :
    Except RuntimeError Int64 :=
  match op with
  | add => checked (left.toInt + right.toInt) column
  | sub => checked (left.toInt - right.toInt) column
  | mul => checked (left.toInt * right.toInt) column
  | div =>
    if right = 0 then .error (.divisionByZero column)
    else checked (left.toInt.tdiv right.toInt) column
  | mod =>
    if right = 0 then .error (.divisionByZero column)
    else if left = .minValue ∧ right = -1 then .error (.overflow column)
    else checked (left.toInt.tmod right.toInt) column
  | pow => power left right column

/-- The negation of a value, failing at the column of its minus sign. -/
def checkedNeg (value : Int64) (column : Nat) : Except RuntimeError Int64 :=
  checked (-value.toInt) column

end Abacus
