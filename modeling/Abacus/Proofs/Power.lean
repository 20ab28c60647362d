/-
**Powers without products.**

A power with a large exponent is decided without being computed. It still is the exact power, checked
against the range of values like the result of any other operation:

* `InRange`: the integers that are values;
* `not_inRange_pow`: what a power with a large exponent is not computed for;
* `power_eq_checked`: a power that is not refused is the exact power, checked;
* `power_exact`: what a power comes to, for all values.
-/

import Abacus.Arithmetic

namespace Abacus

/-- The integer is that of a value: it lies between `-2^63` and `2^63 - 1`. -/
def InRange (n : Int) : Prop :=
  -leastMagnitude ≤ n ∧ n < leastMagnitude

theorem inRange_toInt (value : Int64) : InRange value.toInt :=
  ⟨value.le_toInt, value.toInt_lt⟩

theorem toInt_eq_zero_iff {value : Int64} : value.toInt = 0 ↔ value = 0 := by
  rw [← Int64.toInt_inj, Int64.toInt_zero]

theorem value?_eq_none_iff {n : Int} : value? n = none ↔ ¬ InRange n := by
  constructor
  · intro outside inRange
    have bounds : Int64.minValue.toInt ≤ n ∧ n ≤ Int64.maxValue.toInt :=
      ⟨inRange.1, Int.le_of_lt_add_one inRange.2⟩
    rw [value?, if_pos bounds] at outside
    cases outside
  · intro outside
    cases found : value? n with
    | none => rfl
    | some value =>
      rw [← value?_eq_some_iff.mp found] at outside
      exact absurd (inRange_toInt value) outside

/-- An integer in range is that of a value. -/
theorem exists_toInt_eq_of_inRange {n : Int} (inRange : InRange n) :
    ∃ value : Int64, value.toInt = n := by
  cases found : value? n with
  | some value => exact ⟨value, value?_eq_some_iff.mp found⟩
  | none => exact absurd inRange (value?_eq_none_iff.mp found)

theorem checked_of_not_inRange {n : Int} (outside : ¬ InRange n) (column : Nat) :
    checked n column = .error (.overflow column) :=
  checked_eq_error_iff.mpr ⟨value?_eq_none_iff.mpr outside, rfl⟩

/-! ### Powers -/

/-- A power of any base but zero, one and minus one is out of range from the exponent 64 on. -/
theorem not_inRange_pow {base : Int} {exponent : Nat} (large : 2 ≤ base.natAbs)
    (huge : 64 ≤ exponent) : ¬ InRange (base.pow exponent) := by
  intro inRange
  have magnitude : (base.pow exponent).natAbs = base.natAbs.pow exponent :=
    Int.natAbs_pow base exponent
  have doubled : Nat.pow 2 exponent ≤ base.natAbs.pow exponent := Nat.pow_le_pow_left large _
  have least : Nat.pow 2 64 ≤ Nat.pow 2 exponent := Nat.pow_le_pow_right (by decide) huge
  have beyond : leastMagnitude < Nat.pow 2 64 := by decide
  obtain ⟨lower, upper⟩ := inRange
  omega

theorem minus_one_pow (exponent : Nat) :
    Int.pow (-1) exponent = if exponent % 2 = 0 then 1 else -1 := by
  induction exponent with
  | zero => rfl
  | succ exponent ih =>
    have next : Int.pow (-1) (exponent + 1) = Int.pow (-1) exponent * -1 := Int.pow_succ _ _
    rw [next, ih]
    split <;> split <;> omega

/-- The powers of zero and one. -/
theorem toInt_special_power {base exponent : Int64} (special : base = 0 ∨ base = 1)
    (nonneg : 0 ≤ exponent.toInt) :
    (if exponent = 0 then 1 else base).toInt = base.toInt.pow exponent.toInt.toNat := by
  split
  · rename_i zero
    rw [zero]
    exact (Int.pow_zero _).symm
  · rename_i nonzero
    have positive : exponent.toInt.toNat ≠ 0 := by
      rw [← toInt_eq_zero_iff] at nonzero
      omega
    rcases special with rfl | rfl
    · exact (Int.zero_pow positive).symm
    · exact Int.one_pow.symm

/-- The powers of minus one. -/
theorem toInt_minus_one_power {exponent : Int64} (nonneg : 0 ≤ exponent.toInt) :
    (if exponent % 2 = 0 then (1 : Int64) else -1).toInt =
      Int.pow (-1) exponent.toInt.toNat := by
  have parity : exponent % 2 = 0 ↔ exponent.toInt.toNat % 2 = 0 := by
    rw [← toInt_eq_zero_iff, Int64.toInt_mod, Int.tmod_eq_emod_of_nonneg nonneg]
    show exponent.toInt % 2 = 0 ↔ _
    omega
  rw [minus_one_pow]
  split <;> rename_i even
  · rw [if_pos (parity.mp even)]
    rfl
  · rw [if_neg (mt parity.mpr even)]
    rfl

theorem two_le_natAbs_toInt {base : Int64} (notSpecial : ¬ (base = 0 ∨ base = 1))
    (notMinusOne : ¬ base = -1) : 2 ≤ base.toInt.natAbs := by
  rw [← Int64.toInt_inj, ← Int64.toInt_inj] at notSpecial
  rw [← Int64.toInt_inj] at notMinusOne
  have zero : (0 : Int64).toInt = 0 := rfl
  have one : (1 : Int64).toInt = 1 := rfl
  have minusOne : (-1 : Int64).toInt = -1 := rfl
  omega

/-- **A power that is not refused is the exact power, checked**, also where it is not computed:
there the exponent is at least 64. -/
theorem power_eq_checked {base exponent : Int64} (notNegative : ¬ exponent < 0) (column : Nat) :
    power base exponent column = checked (base.toInt.pow exponent.toInt.toNat) column := by
  have nonneg : 0 ≤ exponent.toInt := by
    rwa [Int64.lt_iff_toInt_lt, Int64.toInt_zero, Int.not_lt] at notNegative
  rw [power, if_neg notNegative]
  split
  · rename_i special
    exact (checked_eq_ok_iff.mpr (toInt_special_power special nonneg)).symm
  · rename_i notSpecial
    split
    · rename_i minusOne
      rw [minusOne]
      exact (checked_eq_ok_iff.mpr (toInt_minus_one_power nonneg)).symm
    · rename_i notMinusOne
      have large := two_le_natAbs_toInt notSpecial notMinusOne
      have overflows (huge : 64 ≤ exponent.toInt.toNat) :
          checked (base.toInt.pow exponent.toInt.toNat) column = .error (.overflow column) :=
        checked_of_not_inRange (not_inRange_pow large huge) column
      unfold count32
      split
      · rename_i bounded
        have size : UInt32.size = 4294967296 := rfl
        have same : (UInt32.ofNat exponent.toInt.toNat).toNat = exponent.toInt.toNat :=
          UInt32.toNat_ofNat_of_lt' (by omega)
        rw [ok_bind, same]
        split
        · rfl
        · rename_i huge
          rw [UInt32.lt_iff_toNat_lt, same] at huge
          exact (overflows (Nat.le_of_not_lt huge)).symm
      · rename_i unbounded
        have size : UInt32.size = 4294967296 := rfl
        rw [error_bind]
        exact (overflows (by omega)).symm

/-- **Powers are exact.** A negative exponent is refused with its column. For any other exponent,
however large, the result is the exact power if that is in range, and an overflow at the column if
it is not. -/
theorem power_exact (base exponent : Int64) (column : Nat) :
    (exponent < 0 →
        power base exponent column = .error (.invalidExponent exponent column)) ∧
      (¬ exponent < 0 → InRange (base.toInt.pow exponent.toInt.toNat) →
        ∃ value, power base exponent column = .ok value ∧
          value.toInt = base.toInt.pow exponent.toInt.toNat) ∧
      (¬ exponent < 0 → ¬ InRange (base.toInt.pow exponent.toInt.toNat) →
        power base exponent column = .error (.overflow column)) := by
  refine ⟨fun negative => if_pos negative, fun notNegative inRange => ?_,
    fun notNegative outside => ?_⟩
  · obtain ⟨value, exact⟩ := exists_toInt_eq_of_inRange inRange
    rw [power_eq_checked notNegative]
    exact ⟨value, checked_eq_ok_iff.mpr exact, exact⟩
  · rw [power_eq_checked notNegative]
    exact checked_of_not_inRange outside column

/-- The least value is a power of minus two; two to an exponent beyond 32 bits is no value, and an
exponent of minus one is refused. -/
theorem power_exact_at_limits :
    (power 2 (-1) 7 = .error (.invalidExponent (-1) 7)) ∧
      (∃ value, power (-2) 63 7 = .ok value ∧ value.toInt = -leastMagnitude) ∧
      power 2 4294967296 7 = .error (.overflow 7) := by
  refine ⟨(power_exact 2 (-1) 7).1 (by decide), ?_, ?_⟩
  · exact (power_exact (-2) 63 7).2.1 (by decide) ⟨by decide, by decide⟩
  · exact (power_exact 2 4294967296 7).2.2 (by decide) (not_inRange_pow (by decide) (by decide))

end Abacus
