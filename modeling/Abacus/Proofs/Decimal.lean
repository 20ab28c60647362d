/-
**How long decimal texts are.**

The result of an operation other than a power has a magnitude below the product of those of its
operands, each with one added, so it has at most as many digits as the two together; and it has a
minus sign of its own only where a greater value is subtracted from one that has none either. Digits
as they are read may have zeros in front, which the number they denote is written without.

* `Shrinks`: a text stays as it is or becomes shorter;
* `digitCount_le_add`: the number of digits of a product, a sum and whatever is below them;
* `shrinks_toDigits`: digits and the decimal text of the number they denote;
* `width_result_le`: the result of an operation is not wider than its operands together.
-/

import Abacus.Proofs.Exactness

namespace Abacus

/-! ### Texts that do not grow -/

/-- The second text is the first or a shorter one. -/
def Shrinks (before after : List Char) : Prop :=
  after = before ∨ after.length < before.length

namespace Shrinks

variable {before after last front front' : List Char}

theorem refl (text : List Char) : Shrinks text text := .inl rfl

theorem length_le (shrinks : Shrinks before after) : after.length ≤ before.length := by
  rcases shrinks with rfl | shorter
  · exact Nat.le_refl _
  · exact Nat.le_of_lt shorter

theorem trans (one : Shrinks before after) (two : Shrinks after last) : Shrinks before last := by
  rcases one with rfl | shorter
  · exact two
  · exact .inr (Nat.lt_of_le_of_lt two.length_le shorter)

theorem append (one : Shrinks front front') (two : Shrinks before after) :
    Shrinks (front ++ before) (front' ++ after) := by
  have leFront := one.length_le
  have leRest := two.length_le
  rw [Shrinks, List.length_append, List.length_append]
  rcases one with rfl | shorterFront
  · rcases two with rfl | shorter
    · exact .inl rfl
    · exact .inr (by omega)
  · exact .inr (by omega)

end Shrinks

/-! ### Digits -/

/-- The number of decimal digits of a magnitude. -/
def digitCount (n : Nat) : Nat := (Nat.toDigits 10 n).length

theorem digitCount_pos (n : Nat) : 0 < digitCount n := Nat.length_toDigits_pos

theorem digitCount_le_iff {n count : Nat} (positive : 0 < count) :
    digitCount n ≤ count ↔ n < Nat.pow 10 count :=
  Nat.length_toDigits_le_iff (by decide) positive

theorem lt_pow_digitCount (n : Nat) : n < Nat.pow 10 (digitCount n) :=
  (digitCount_le_iff (digitCount_pos n)).mp (Nat.le_refl _)

theorem digitCount_mono {m n : Nat} (le : m ≤ n) : digitCount m ≤ digitCount n :=
  (digitCount_le_iff (digitCount_pos n)).mpr (Nat.lt_of_le_of_lt le (lt_pow_digitCount n))

/-- **A magnitude that is below the product of two others, each with one added, has at most as many
digits as the two together.** -/
theorem digitCount_le_add {k m n : Nat} (below : k < (m + 1) * (n + 1)) :
    digitCount k ≤ digitCount m + digitCount n := by
  refine (digitCount_le_iff (Nat.add_pos_left (digitCount_pos m) _)).mpr ?_
  calc k < (m + 1) * (n + 1) := below
    _ ≤ Nat.pow 10 (digitCount m) * Nat.pow 10 (digitCount n) :=
      Nat.mul_le_mul (lt_pow_digitCount m) (lt_pow_digitCount n)
    _ = Nat.pow 10 (digitCount m + digitCount n) := (Nat.pow_add 10 _ _).symm

/-- A digit is that of its value. -/
theorem digitChar_of_isDigit {d : Char} (digit : d.isDigit) :
    d.toNat - 48 < 10 ∧ (d.toNat - 48).digitChar = d := by
  obtain ⟨lower, upper⟩ := Char.isDigit_iff_toNat.mp digit
  change 48 ≤ d.toNat at lower
  change d.toNat ≤ 57 at upper
  have small : d.toNat - 48 < 10 := by omega
  refine ⟨small, Char.toNat_inj.mp ?_⟩
  rw [Nat.toNat_digitChar_of_lt_ten small]
  omega

/-- Digits behind the decimal text of a positive number belong to the text. -/
theorem toDigits_ofDigitChars_of_pos {digits : List Char} (digit : ∀ d ∈ digits, d.isDigit)
    {n : Nat} (positive : 0 < n) :
    Nat.toDigits 10 (Nat.ofDigitChars 10 digits n) = Nat.toDigits 10 n ++ digits := by
  induction digits generalizing n with
  | nil => exact (List.append_nil _).symm
  | cons d digits ih =>
    obtain ⟨isDigit, later⟩ := List.forall_mem_cons.mp digit
    obtain ⟨small, same⟩ := digitChar_of_isDigit isDigit
    have extended : Nat.toDigits 10 (10 * n + (d.toNat - 48)) = Nat.toDigits 10 n ++ [d] := by
      rw [← Nat.toDigits_append_toDigits (by decide) positive small,
        Nat.toDigits_of_lt_base small, same]
    calc Nat.toDigits 10 (Nat.ofDigitChars 10 (d :: digits) n)
        = Nat.toDigits 10 (10 * n + (d.toNat - 48)) ++ digits := by
          rw [Nat.ofDigitChars_cons]
          exact ih later (Nat.add_pos_left (Nat.mul_pos (by decide) positive) _)
      _ = Nat.toDigits 10 n ++ d :: digits := by
          rw [extended, List.append_assoc, List.singleton_append]

/-- **Digits are those of the number they denote, or there are zeros in front of these.** -/
theorem shrinks_toDigits {first : Char} {digits : List Char}
    (digit : ∀ d ∈ first :: digits, d.isDigit) :
    Shrinks (first :: digits) (Nat.toDigits 10 (Nat.ofDigitChars 10 (first :: digits) 0)) := by
  induction digits generalizing first with
  | nil =>
    obtain ⟨small, same⟩ := digitChar_of_isDigit (digit first List.mem_cons_self)
    refine .inl ?_
    rw [Nat.ofDigitChars_cons, Nat.ofDigitChars_nil, Nat.mul_zero, Nat.zero_add]
    exact (Nat.toDigits_of_lt_base small).trans (congrArg (fun d => [d]) same)
  | cons second digits ih =>
    obtain ⟨isDigit, later⟩ := List.forall_mem_cons.mp digit
    obtain ⟨small, same⟩ := digitChar_of_isDigit isDigit
    have behind : Nat.ofDigitChars 10 (first :: second :: digits) 0 =
        Nat.ofDigitChars 10 (second :: digits) (first.toNat - 48) := by
      rw [Nat.ofDigitChars_cons, Nat.mul_zero, Nat.zero_add]
      rfl
    rw [behind]
    rcases Nat.eq_zero_or_pos (first.toNat - 48) with zero | positive
    · rw [zero]
      exact .inr (Nat.lt_succ_of_le (ih later).length_le)
    · rw [toDigits_ofDigitChars_of_pos later positive, Nat.toDigits_of_lt_base small, same]
      exact .refl _

/-! ### Results of operations -/

section Results

variable {op : Operator} {left right n : Int}

/-- The magnitude of a result is below the product of those of the operands, each with one added. -/
theorem natAbs_lt_of_exact (noPower : op ≠ .pow) (exact : op.exact? left right = some n) :
    n.natAbs < (left.natAbs + 1) * (right.natAbs + 1) := by
  have expanded : (left.natAbs + 1) * (right.natAbs + 1) =
      left.natAbs * right.natAbs + left.natAbs + right.natAbs + 1 := by
    rw [Nat.add_one_mul, Nat.mul_add_one]
    omega
  rw [expanded]
  cases op with
  | add =>
    cases exact
    omega
  | sub =>
    cases exact
    omega
  | mul =>
    cases exact
    rw [Int.natAbs_mul]
    omega
  | div =>
    obtain ⟨-, ⟨⟩⟩ := Option.ite_none_left_eq_some.mp exact
    have quotient : (left.tdiv right).natAbs ≤ left.natAbs := by
      rw [Int.natAbs_tdiv]
      exact Nat.div_le_self _ _
    omega
  | mod =>
    obtain ⟨-, ⟨⟩⟩ := Option.ite_none_left_eq_some.mp exact
    have remainder : (left.tmod right).natAbs ≤ left.natAbs := by
      rw [Int.natAbs_tmod]
      exact Nat.mod_le _ _
    omega
  | pow => exact absurd rfl noPower

/-- Operands that are not negative have a result that is not, or that is negative with a magnitude
no greater than that of the second operand. -/
theorem natAbs_le_of_exact_of_neg (noPower : op ≠ .pow) (exact : op.exact? left right = some n)
    (leftNonneg : 0 ≤ left) (rightNonneg : 0 ≤ right) (negative : n < 0) :
    n.natAbs ≤ right.natAbs := by
  cases op with
  | add =>
    cases exact
    omega
  | sub =>
    cases exact
    omega
  | mul =>
    cases exact
    exact absurd (Int.mul_nonneg leftNonneg rightNonneg) (Int.not_le.mpr negative)
  | div =>
    obtain ⟨-, ⟨⟩⟩ := Option.ite_none_left_eq_some.mp exact
    exact absurd (Int.tdiv_nonneg leftNonneg rightNonneg) (Int.not_le.mpr negative)
  | mod =>
    obtain ⟨-, ⟨⟩⟩ := Option.ite_none_left_eq_some.mp exact
    exact absurd (Int.tmod_nonneg right leftNonneg) (Int.not_le.mpr negative)
  | pow => exact absurd rfl noPower

end Results

/-- The characters of tokens with nothing between them. -/
def Token.width (tokens : List Token) : Nat := (tokens.flatMap Token.chars).length

theorem width_ofValue (value : Int64) :
    Token.width (Token.ofValue value) =
      digitCount value.toInt.natAbs + if value < 0 then 1 else 0 := by
  have magnitude : (Token.integer (.ofNat value.toInt.natAbs)).chars.length =
      digitCount value.toInt.natAbs := by
    rw [Token.chars, toNat_ofNat_natAbs]
    rfl
  rw [Token.width]
  split
  · rename_i negative
    rw [Token.ofValue_of_neg negative, List.flatMap_cons, List.length_append, List.flatMap_cons,
      List.length_append, magnitude]
    exact Nat.add_comm 1 _
  · rename_i notNegative
    rw [Token.ofValue_of_not_neg notNegative, List.flatMap_cons, List.length_append, magnitude]
    rfl

/-- **The result of an operation other than a power is not wider than its operands together.** -/
theorem width_result_le {op : Operator} {left right value : Int64} {column : Nat}
    (noPower : op ≠ .pow) (applied : op.apply left right column = .ok value) :
    Token.width (Token.ofValue value) ≤
      Token.width (Token.ofValue left) + Token.width (Token.ofValue right) := by
  have exact := (((op.yields_apply left right column).eq_ok_iff value).mp applied).2
  have digits := digitCount_le_add (natAbs_lt_of_exact noPower exact)
  have leftPositive := digitCount_pos left.toInt.natAbs
  rw [width_ofValue, width_ofValue, width_ofValue]
  by_cases negative : value < 0
  · by_cases signed : left < 0 ∨ right < 0
    · rw [if_pos negative]
      rcases signed with signed | signed <;> rw [if_pos signed] <;> omega
    · simp only [Int64.lt_iff_toInt_lt, Int64.toInt_zero, not_or, Int.not_lt] at negative signed
      have fewer := digitCount_mono
        (natAbs_le_of_exact_of_neg noPower exact signed.1 signed.2 negative)
      split <;> omega
  · rw [if_neg negative]
    omega

end Abacus
