/-
**The binary operators and how tightly they bind.**

An operator belongs to one of three tiers; operators of one tier group from the left. The operator
of a symbol is read back by `Operator.ofSymbol?`:

* `Operator.ofSymbol?_eq_some_iff`: a symbol is read as the operator that is written with it;
* `Operator.mem_operators_tier`: the tiers partition the operators.
-/

namespace Abacus

/-- The binding strengths of binary operators. -/
inductive Tier where
  /-- Exponentiation, which binds tightest. -/
  | power
  /-- Multiplication, division and remainder. -/
  | product
  /-- Addition and subtraction, which bind loosest. -/
  | sum
  deriving DecidableEq

/-- The binary operators. -/
inductive Operator where
  | add
  | sub
  | mul
  | div
  | mod
  | pow
  deriving DecidableEq

namespace Tier

/-- The tiers, tightest first. -/
def all : List Tier := [power, product, sum]

/-- The place of a tier in `Tier.all`: the smaller, the tighter. -/
def rank : Tier → Nat
  | power => 0
  | product => 1
  | sum => 2

/-- The operators of a tier. -/
def operators : Tier → List Operator
  | power => [.pow]
  | product => [.mul, .div, .mod]
  | sum => [.add, .sub]

/-- A tier stands in the list of tiers at its rank. -/
theorem all_getElem?_rank (tier : Tier) : all[tier.rank]? = some tier := by
  cases tier <;> rfl

theorem rank_injective {tier other : Tier} (same : tier.rank = other.rank) : tier = other := by
  have found := all_getElem?_rank tier
  rw [same, all_getElem?_rank] at found
  exact (Option.some.inj found).symm

end Tier

namespace Operator

/-- The tier of an operator. -/
def tier : Operator → Tier
  | pow => .power
  | mul | div | mod => .product
  | add | sub => .sum

/-- The character an operator is written with. -/
def symbol : Operator → Char
  | add => '+'
  | sub => '-'
  | mul => '*'
  | div => '/'
  | mod => '%'
  | pow => '^'

/-- The operator written with a character, if there is one. -/
def ofSymbol? : Char → Option Operator
  | '+' => some add
  | '-' => some sub
  | '*' => some mul
  | '/' => some div
  | '%' => some mod
  | '^' => some pow
  | _ => none

@[simp]
theorem ofSymbol?_symbol (op : Operator) : ofSymbol? op.symbol = some op := by
  cases op <;> rfl

/-- A symbol is read as the operator that is written with it. -/
theorem ofSymbol?_eq_some_iff {symbol : Char} {op : Operator} :
    ofSymbol? symbol = some op ↔ op.symbol = symbol := by
  constructor
  · unfold ofSymbol?
    split <;> rintro ⟨⟩ <;> rfl
  · rintro rfl
    exact ofSymbol?_symbol op

/-- An operator is listed under its own tier and no other. -/
theorem mem_operators_tier {op : Operator} {tier : Tier} :
    op ∈ tier.operators ↔ op.tier = tier := by
  cases op <;> cases tier <;> decide

end Operator

end Abacus
