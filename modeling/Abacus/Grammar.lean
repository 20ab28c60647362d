/-
**The grammar of expressions, as rules that read tokens.**

A rule reads an expression off the front of the tokens and returns what is left, which is always
shorter. From the tightest: an atom is an integer or a group, a signed operand may have a minus
sign, powers, products and sums are chains of one tier each.

A minus sign at the start of an expression is the sign of the base behind it, so `-2^2` is four;
behind an operator it negates the whole power, so `0+-2^2` is minus four (`Position`). The magnitude
`2^63` is an integer only behind a minus sign, where both together are the least value
(`leastMagnitude?`).

* `Rule.shortens`: a rule consumes at least one token;
* `expression`: the rule of expressions, with the room it has for groups inside groups.
-/

import Abacus.Expr

namespace Abacus

/-- A rule of the grammar: the expression that the tokens start with, and the tokens behind it. -/
structure Rule where
  run : List Lexeme → Except ParseError (Expr × List Lexeme)
  shortens : ∀ {input e rest}, run input = .ok (e, rest) → rest.length < input.length

/-- Where an operand stands in the expression it belongs to. -/
inductive Position where
  /-- At the start of the expression. -/
  | leading
  /-- Behind an operator. -/
  | following
  deriving DecidableEq

namespace Grammar

/-- The number of groups that may be open at once. -/
def maxNesting : Nat := 256

/-- The column of an integer that is the magnitude of the least value, and what follows it. -/
def leastMagnitude? : List Lexeme → Option (Nat × List Lexeme)
  | ⟨.integer magnitude, column⟩ :: rest =>
    if magnitude.toNat = leastMagnitude then some (column, rest) else none
  | _ => none

theorem length_lt_of_leastMagnitude? {input rest : List Lexeme} {column : Nat}
    (found : leastMagnitude? input = some (column, rest)) : rest.length < input.length := by
  unfold leastMagnitude? at found
  split at found
  · split at found
    · obtain ⟨rfl, rfl⟩ := found
      simp
    · simp at found
  · simp at found

/-- Whether the operator of powers comes next. -/
def powerFollows : List Lexeme → Bool
  | ⟨.operator op, _⟩ :: _ => op == .pow
  | _ => false

/-- An integer or a group. The rule `inside` reads what a group encloses; there is none where no
further group may be opened. Tokens that are missing are reported at `endColumn`. -/
def atomRun (endColumn : Nat) (inside : Option Rule) :
    List Lexeme → Except ParseError (Expr × List Lexeme)
  | [] => .error (.unexpectedEnd endColumn)
  | ⟨.integer magnitude, column⟩ :: rest =>
    if magnitude.toNat < leastMagnitude then .ok (.literal (.ofNat magnitude.toNat) column, rest)
    else .error (.literalTooLarge column)
  | ⟨.leftParen, column⟩ :: rest =>
    match inside with
    | none => .error (.nestingTooDeep column)
    | some rule =>
      match rule.run rest with
      | .error error => .error error
      | .ok (_, []) => .error (.unclosedGroup column)
      | .ok (inner, ⟨.rightParen, _⟩ :: rest) => .ok (.group inner column, rest)
      | .ok (_, ⟨token, column⟩ :: _) =>
        .error (.unexpectedToken ("expected ')', found " ++ token.text) column)
  | ⟨token, column⟩ :: _ => .error (.unexpectedToken token.text column)

/-- The rule of atoms. -/
def atom (endColumn : Nat) (inside : Option Rule) : Rule where
  run := atomRun endColumn inside
  shortens {input e rest} done := by
    unfold atomRun at done
    split at done
    · simp at done
    · split at done
      · obtain ⟨rfl, rfl⟩ := done
        simp
      · simp at done
    · split at done
      · simp at done
      · rename_i rule
        split at done
        · simp at done
        · simp at done
        · rename_i ran
          have := rule.shortens ran
          obtain ⟨rfl, rfl⟩ := done
          simp only [List.length_cons] at this ⊢
          omega
        · simp at done
    · simp at done

/-- An atom with an optional minus sign. -/
def signed (atom : Rule) : Rule where
  run
    | ⟨.operator .sub, column⟩ :: rest =>
      match leastMagnitude? rest with
      | some (_, rest) => .ok (.literal .minValue column, rest)
      | none =>
        match atom.run rest with
        | .error error => .error error
        | .ok (operand, rest) => .ok (.negate operand column, rest)
    | input => atom.run input
  shortens {input e rest} done := by
    split at done
    · split at done
      · rename_i found
        have := length_lt_of_leastMagnitude? found
        obtain ⟨rfl, rfl⟩ := done
        simp only [List.length_cons]
        omega
      · split at done
        · simp at done
        · rename_i ran
          have := atom.shortens ran
          obtain ⟨rfl, rfl⟩ := done
          simp only [List.length_cons]
          omega
    · exact atom.shortens done

/-- The operators of a tier that come next, each with an operand. -/
def links (tier : Tier) (operand : Rule) :
    List Lexeme → Except ParseError (List (Link Expr) × List Lexeme)
  | [] => .ok ([], [])
  | ⟨token, column⟩ :: input =>
    match token.operator? with
    | some op =>
      if op.tier = tier then
        match ran : operand.run input with
        | .error error => .error error
        | .ok (right, rest) =>
          have := operand.shortens ran
          match links tier operand rest with
          | .error error => .error error
          | .ok (more, rest) => .ok (⟨op, right, column⟩ :: more, rest)
      else .ok ([], ⟨token, column⟩ :: input)
    | none => .ok ([], ⟨token, column⟩ :: input)
termination_by input => input.length
decreasing_by
  simp only [List.length_cons]
  omega

theorem length_le_of_links {tier : Tier} {operand : Rule} {input rest : List Lexeme}
    {more : List (Link Expr)} (done : links tier operand input = .ok (more, rest)) :
    rest.length ≤ input.length := by
  fun_induction links tier operand input generalizing more rest with
  | case1 =>
    obtain ⟨rfl, rfl⟩ := done
    simp
  | case2 => simp at done
  | case3 => simp at done
  | case4 token column input op _ _ right middle ran shorter more' rest' read ih =>
    have := ih read
    obtain ⟨rfl, rfl⟩ := done
    simp only [List.length_cons]
    omega
  | case5 =>
    obtain ⟨rfl, rfl⟩ := done
    simp
  | case6 =>
    obtain ⟨rfl, rfl⟩ := done
    simp

/-- A chain of one tier, or its head alone: the operand read by `first`, then the links. -/
def chained (tier : Tier) (first next : Rule) : Rule where
  run input :=
    match first.run input with
    | .error error => .error error
    | .ok (head, rest) =>
      match links tier next rest with
      | .error error => .error error
      | .ok (more, rest) => .ok (.ofLinks head more, rest)
  shortens {input e rest} done := by
    split at done
    · simp at done
    · rename_i ran
      split at done
      · simp at done
      · rename_i read
        have := first.shortens ran
        have := length_le_of_links read
        obtain ⟨rfl, rfl⟩ := done
        omega

/-- A power: the base read by `base`, then exponents with an optional minus sign each. -/
def power (atom base : Rule) : Rule :=
  chained .power base (signed atom)

/-- A power whose minus sign, if there is one, negates it as a whole. -/
def negatedPower (atom : Rule) : Rule where
  run
    | ⟨.operator .sub, column⟩ :: rest =>
      match leastMagnitude? rest with
      | some (magnitudeColumn, rest) =>
        if powerFollows rest then .error (.literalTooLarge magnitudeColumn)
        else .ok (.literal .minValue column, rest)
      | none =>
        match (power atom atom).run rest with
        | .error error => .error error
        | .ok (operand, rest) => .ok (.negate operand column, rest)
    | input => (power atom atom).run input
  shortens {input e rest} done := by
    split at done
    · split at done
      · rename_i found
        have := length_lt_of_leastMagnitude? found
        split at done
        · simp at done
        · obtain ⟨rfl, rfl⟩ := done
          simp only [List.length_cons]
          omega
      · split at done
        · simp at done
        · rename_i ran
          have := (power atom atom).shortens ran
          obtain ⟨rfl, rfl⟩ := done
          simp only [List.length_cons]
          omega
    · exact (power atom atom).shortens done

/-- An operand of a product: a power, whose sign belongs to its base where the expression starts
and to the whole power elsewhere. -/
def factor (atom : Rule) : Position → Rule
  | .leading => power atom (signed atom)
  | .following => negatedPower atom

/-- An operand of a sum: factors joined by the operators of products. -/
def product (atom : Rule) (position : Position) : Rule :=
  chained .product (factor atom position) (factor atom .following)

/-- Products joined by the operators of sums. -/
def sum (atom : Rule) (position : Position) : Rule :=
  chained .sum (product atom position) (product atom .following)

/-- An expression, with room for a number of groups inside one another. -/
def expression (endColumn : Nat) : Nat → Rule
  | 0 => sum (atom endColumn none) .leading
  | room + 1 => sum (atom endColumn (some (expression endColumn room))) .leading

/-- The rule for the inside of a group, if there is room for the group. -/
def inside? (endColumn : Nat) : Nat → Option Rule
  | 0 => none
  | room + 1 => some (expression endColumn room)

/-- An expression is a sum whose groups have the room there is inside. -/
theorem expression_eq (endColumn room : Nat) :
    expression endColumn room = sum (atom endColumn (inside? endColumn room)) .leading := by
  cases room <;> rfl

end Grammar

end Abacus
