/-
**The text of an expression has the tokens it was read from.**

Writing an expression that has been read gives back its tokens one by one, with one exception. The
least value needs no parentheses as the base of a power where it is read, at the start of an
expression, but it is written in parentheses there as any negative base is.

* `encloseLeastBases`: tokens with parentheses around the least values that are bases;
* `Expr.leastBases`: the number of these bases in an expression;
* `Grammar.Derivation.enclose_tokens`, `Grammar.Derivation.length_tokens`: the tokens of a derived
  expression are those of its derivation, enclosed in this way, with a pair of parentheses more for
  each of these bases;
* `tokens_text_of_parse`: the text of an expression has the tokens it was read from and is read as
  the same expression, unless there are such bases.
-/

import Abacus.Proofs.Columns
import Abacus.Proofs.Rendering

namespace Abacus

/-! ### Least values as bases -/

namespace Expr

mutual

/-- The number of powers in an expression whose base is the least value. -/
def leastBases : Expr → Nat
  | literal _ _ => 0
  | group inner _ => inner.leastBases
  | negate operand _ => operand.leastBases
  | chain head links =>
    (if head.literal? = some .minValue ∧ startWithPower links then 1 else 0) + head.leastBases +
      linksLeastBases links

/-- The number of these powers in the operands of links. -/
def linksLeastBases : List (Link Expr) → Nat
  | [] => 0
  | ⟨_, operand, _⟩ :: links => operand.leastBases + linksLeastBases links

end

end Expr

open Abacus.Expr (enclosed startWithPower linksTokens leastBases linksLeastBases)

/-- Tokens with parentheses around every least value that is the base of a power: a minus sign at
the start of an expression, the magnitude `2^63` and the operator of powers. An expression starts at
an opening parenthesis, and with these tokens if `starts`. -/
def encloseLeastBases : (starts : Bool) → List Token → List Token
  | true, .operator .sub :: .integer magnitude :: .operator .pow :: rest =>
    (if magnitude.toNat = leastMagnitude then enclosed [.minus, .integer magnitude]
      else [.minus, .integer magnitude]) ++ .operator .pow :: encloseLeastBases false rest
  | _, .leftParen :: rest => .leftParen :: encloseLeastBases true rest
  | _, token :: rest => token :: encloseLeastBases false rest
  | _, [] => []

/-- The tokens start with the least value as the base of a power. -/
def StartWithLeastBase (tokens : List Token) : Prop :=
  ∃ (magnitude : UInt64) (rest : List Token), magnitude.toNat = leastMagnitude ∧
    tokens = .minus :: .integer magnitude :: .operator .pow :: rest

theorem encloseLeastBases_leftParen (starts : Bool) (rest : List Token) :
    encloseLeastBases starts (.leftParen :: rest) = .leftParen :: encloseLeastBases true rest := by
  cases starts <;> rfl

theorem encloseLeastBases_false_cons (token : Token) (notOpening : token ≠ .leftParen)
    (rest : List Token) :
    encloseLeastBases false (token :: rest) = token :: encloseLeastBases false rest := by
  cases token with
  | leftParen => exact absurd rfl notOpening
  | integer _ => rfl
  | operator _ => rfl
  | rightParen => rfl
  | blank => rfl

/-- At the start of an expression only the least value as a base is enclosed. -/
theorem encloseLeastBases_of_other {tokens : List Token} (other : ¬ StartWithLeastBase tokens)
    (starts : Bool) : encloseLeastBases starts tokens = encloseLeastBases false tokens := by
  cases starts with
  | false => rfl
  | true =>
    fun_cases encloseLeastBases true tokens with
    | case1 magnitude rest =>
      rw [if_neg fun least => other ⟨magnitude, rest, least, rfl⟩]
      rfl
    | case2 _ rest => rfl
    | case3 _ token rest _ notOpening =>
      exact (encloseLeastBases_false_cons token notOpening rest).symm
    | case4 _ => rfl

/-- Enclosing adds tokens and keeps those that are there. -/
theorem sublist_encloseLeastBases (starts : Bool) (tokens : List Token) :
    tokens.Sublist (encloseLeastBases starts tokens) := by
  fun_induction encloseLeastBases starts tokens with
  | case1 magnitude rest ih =>
    have base : [.minus, .integer magnitude].Sublist
        (if magnitude.toNat = leastMagnitude then enclosed [.minus, .integer magnitude]
          else [.minus, .integer magnitude]) := by
      split
      · exact (List.sublist_append_left _ _).cons _
      · exact .refl _
    exact base.append (ih.cons_cons _)
  | case2 _ rest ih => exact ih.cons_cons _
  | case3 _ token rest _ _ ih => exact ih.cons_cons _
  | case4 _ => exact .refl _

/-! ### Literals and signs -/

theorem ofValue_ofNat {magnitude : UInt64} (small : magnitude.toNat < leastMagnitude) :
    Token.ofValue (.ofNat magnitude.toNat) = [.integer magnitude] := by
  rw [Token.ofValue_of_not_neg (Grammar.not_neg_ofNat small), Int64.toInt_ofNat_of_lt small,
    Int.natAbs_natCast, UInt64.ofNat_toNat]

theorem ofValue_minValue {magnitude : UInt64} (least : magnitude.toNat = leastMagnitude) :
    Token.ofValue .minValue = [.minus, .integer magnitude] := by
  have same : UInt64.ofNat Int64.minValue.toInt.natAbs = magnitude := by
    rw [← UInt64.toNat_inj, least]
    rfl
  rw [Token.ofValue_of_neg (by decide), same]

namespace Grammar

variable {symbol : Symbol} {tier : Tier} {position : Position} {lexemes : List Lexeme} {e : Expr}
  {links : List (Link Expr)}

theorem Derivation.not_negative_atom (derivation : Derivation .atom lexemes e) :
    e.isNegativeLiteral = false := by
  cases derivation with
  | integer magnitude column small => exact decide_eq_false (not_neg_ofNat small)
  | group opening closing inside => rfl

theorem Derivation.not_negative_power
    (derivation : Derivation (.chain .power .following) lexemes e) :
    e.isNegativeLiteral = false := by
  cases derivation with
  | alone operand => exact operand.not_negative_atom
  | chain first next => rfl

/-- A negative literal at the start of a power is the least value. -/
theorem Derivation.eq_least_of_negative (derivation : Derivation (.head .power position) lexemes e)
    (negative : e.isNegativeLiteral = true) :
    position = .leading ∧ ∃ (magnitude : UInt64) (column : Nat),
      magnitude.toNat = leastMagnitude ∧ tokensOf lexemes = [.minus, .integer magnitude] ∧
        e = .literal .minValue column := by
  cases position with
  | following => exact absurd negative (by rw [derivation.not_negative_atom]; decide)
  | leading =>
    cases derivation with
    | unsigned operand => exact absurd negative (by rw [operand.not_negative_atom]; decide)
    | signed column operand => cases negative
    | leastSigned magnitude column magnitudeColumn least =>
      exact ⟨rfl, magnitude, column, least, rfl, rfl⟩

/-! ### Tokens of derived expressions -/

/-- A nonterminal at the start of an expression, other than an atom with or without a sign. -/
def Symbol.isLeading : Symbol → Bool
  | .factor .leading => true
  | .chain _ .leading => true
  | _ => false

theorem Symbol.isLeading_of_head (leading : (Symbol.head tier position).isLeading = true) :
    (Symbol.chain tier position).isLeading = true := by
  cases tier <;> cases position <;> first | rfl | cases leading

theorem Symbol.isLeading_operand (tier : Tier) : (Symbol.operand tier).isLeading = false := by
  cases tier <;> rfl

/-- A sign before tokens without a sign is no part of a base that is the least value. -/
theorem encloseLeastBases_minus (unsigned : Unsigned lexemes) (starts : Bool)
    (rest : List Token) :
    encloseLeastBases starts (.minus :: (tokensOf lexemes ++ rest)) =
      .minus :: encloseLeastBases false (tokensOf lexemes ++ rest) := by
  have other : ¬ StartWithLeastBase (.minus :: (tokensOf lexemes ++ rest)) := by
    rintro ⟨magnitude, more, least, same⟩
    obtain ⟨lexeme, behind, rfl, -, notLeast⟩ := unsigned
    exact notLeast magnitude (List.cons.inj (List.cons.inj same).2).1 least
  rw [encloseLeastBases_of_other other]
  exact encloseLeastBases_false_cons .minus nofun _

/-- The tokens do not go on with the operator of powers. -/
def EndsPower (rest : List Token) : Prop := ∀ more, rest ≠ .operator .pow :: more

/-- The least value is no base where no power follows. -/
theorem encloseLeastBases_least {magnitude : UInt64} {starts : Bool} {rest : List Token}
    (least : magnitude.toNat = leastMagnitude) (ends : starts = true → EndsPower rest) :
    encloseLeastBases starts ([.minus, .integer magnitude] ++ rest) =
      Token.ofValue .minValue ++ encloseLeastBases false rest := by
  have plain : encloseLeastBases false ([.minus, .integer magnitude] ++ rest) =
      [.minus, .integer magnitude] ++ encloseLeastBases false rest := rfl
  rw [ofValue_minValue least]
  cases starts with
  | false => exact plain
  | true =>
    have other : ¬ StartWithLeastBase ([.minus, .integer magnitude] ++ rest) := by
      rintro ⟨_, more, -, same⟩
      exact ends rfl more (List.cons.inj (List.cons.inj same).2).2
    rw [encloseLeastBases_of_other other, plain]

/-- The tokens that are written for the nonterminal with parentheses around the least values that
are bases are those of the expression. They are looked at with what follows them, which makes a
least value at their end a base if it goes on with a power. -/
def EnclosesTo (symbol : Symbol) (lexemes : List Lexeme) (e : Expr) : Prop :=
  ∀ (starts : Bool) (rest : List Token), (symbol.isLeading = true → starts = true) →
    (starts = true → e.isNegativeLiteral = true → EndsPower rest) →
      encloseLeastBases starts (tokensOf lexemes ++ rest) =
        e.tokens ++ encloseLeastBases false rest

/-- The same of links, which are never at the start of an expression. -/
def LinksEncloseTo (lexemes : List Lexeme) (links : List (Link Expr)) : Prop :=
  ∀ rest : List Token, encloseLeastBases false (tokensOf lexemes ++ rest) =
    linksTokens links ++ encloseLeastBases false rest

theorem EnclosesTo.group {opening closing : Nat} (inside : EnclosesTo .expression lexemes e) :
    EnclosesTo .atom (⟨.leftParen, opening⟩ :: (lexemes ++ [⟨.rightParen, closing⟩]))
      (.group e opening) := by
  intro starts rest _ _
  have closes : EndsPower (.rightParen :: rest) := nofun
  have whole := inside true (.rightParen :: rest) (fun _ => rfl) fun _ _ => closes
  rw [encloseLeastBases_false_cons .rightParen nofun] at whole
  simp only [tokensOf, List.map_cons, List.map_append, List.map_nil, List.cons_append,
    List.append_assoc, List.nil_append, encloseLeastBases_leftParen, Expr.tokens, enclosed]
    at whole ⊢
  rw [whole]

theorem EnclosesTo.negate {symbol' : Symbol} {column : Nat}
    (operand : EnclosesTo symbol lexemes e) (notLeading : symbol.isLeading = false)
    (unsigned : Unsigned lexemes) (notNegative : e.isNegativeLiteral = false) :
    EnclosesTo symbol' (⟨.minus, column⟩ :: lexemes) (.negate e column) := by
  intro starts rest _ _
  have whole := operand false rest (by rw [notLeading]; exact nofun) nofun
  rw [tokensOf, List.map_cons, List.cons_append, encloseLeastBases_minus unsigned, whole,
    Expr.tokens, notNegative]
  rfl

theorem LinksEncloseTo.cons {op : Operator} {column : Nat} {more : List Lexeme}
    (next : LinksEncloseTo more links) (operand : EnclosesTo (.operand tier) lexemes e) :
    LinksEncloseTo (⟨.operator op, column⟩ :: (lexemes ++ more)) (⟨op, e, column⟩ :: links) := by
  intro rest
  have first := operand false (tokensOf more ++ rest)
    (by rw [Symbol.isLeading_operand]; exact nofun) nofun
  rw [next rest] at first
  rw [tokensOf, List.map_cons, List.map_append, List.cons_append, List.append_assoc,
    encloseLeastBases_false_cons (.operator op) nofun, first, linksTokens, List.cons_append,
    List.append_assoc]

theorem EnclosesTo.alone (operand : EnclosesTo (.head tier position) lexemes e) :
    EnclosesTo (.chain tier position) lexemes e :=
  fun starts rest leading => operand starts rest fun leads =>
    leading (Symbol.isLeading_of_head leads)

/-- A chain with its head as it is written: in parentheses exactly if the head is a base that is the
least value, which stands at the start of an expression then. A head without parentheses that has a
power behind it is no negative literal. -/
theorem EnclosesTo.chain {more : List Lexeme} {link : Link Expr}
    (head : EnclosesTo (.head tier position) lexemes e) (next : LinksEncloseTo more (link :: links))
    (first : Derivation (.head tier position) lexemes e)
    (behind : LinksDerivation tier more (link :: links)) :
    EnclosesTo (.chain tier position) (lexemes ++ more) (.chain e (link :: links)) := by
  intro starts rest leading ends
  rw [tokensOf, List.map_append, List.append_assoc]
  cases behind with
  | @cons _ _ _ operand _ op column ofTier _ _ =>
    rw [Expr.tokens, List.append_assoc, ← next rest]
    cases base : e.isNegativeLiteral && startWithPower (⟨op, operand, column⟩ :: links) with
    | true =>
      obtain ⟨negative, power⟩ := (Bool.and_eq_true _ _).mp base
      obtain rfl : op = .pow := eq_of_beq power
      obtain rfl : .power = tier := ofTier
      obtain ⟨rfl, magnitude, start, least, tokens, rfl⟩ := first.eq_least_of_negative negative
      rw [tokensOf] at tokens
      rw [leading rfl, tokens, Expr.tokens, ofValue_minValue least]
      exact congrArg (· ++ _) (if_pos least)
    | false =>
      have headLeading leads := leading (Symbol.isLeading_of_head leads)
      refine head starts _ headLeading fun _ negative rest same => ?_
      rw [negative, Bool.true_and] at base
      have power : op = .pow := Token.operator.inj (List.cons.inj same).1
      rw [power] at base
      cases base

mutual

/-- **Writing a derived expression encloses the least values that are bases**, and gives back the
other tokens as they were. -/
theorem Derivation.enclose_tokens {symbol : Symbol} {lexemes : List Lexeme} {e : Expr} :
    Derivation symbol lexemes e → EnclosesTo symbol lexemes e
  | .integer magnitude column small => by
    intro starts rest _ _
    have other : ¬ StartWithLeastBase (.integer magnitude :: rest) := nofun
    rw [Expr.tokens, ofValue_ofNat small]
    exact (encloseLeastBases_of_other other starts).trans
      (encloseLeastBases_false_cons (.integer magnitude) nofun rest)
  | .group _ _ inside => inside.enclose_tokens.group
  | .unsigned operand => fun starts rest _ ends => operand.enclose_tokens starts rest nofun ends
  | .signed _ operand =>
    operand.enclose_tokens.negate rfl operand.unsigned_atom operand.not_negative_atom
  | .leastSigned _ _ _ least => fun _ _ _ ends =>
    encloseLeastBases_least least fun starts => ends starts rfl
  | .base power => power.enclose_tokens
  | .plain power => fun starts rest _ ends => power.enclose_tokens starts rest nofun ends
  | .negated _ power =>
    power.enclose_tokens.negate rfl power.unsigned_power power.not_negative_power
  | .leastFactor _ _ _ least => fun _ _ _ ends =>
    encloseLeastBases_least least fun starts => ends starts rfl
  | .alone operand => operand.enclose_tokens.alone
  | .chain first next => first.enclose_tokens.chain next.enclose_tokens first next

theorem LinksDerivation.enclose_tokens {tier : Tier} {lexemes : List Lexeme}
    {links : List (Link Expr)} : LinksDerivation tier lexemes links → LinksEncloseTo lexemes links
  | .nil => fun _ => rfl
  | .cons _ _ _ operand next => next.enclose_tokens.cons operand.enclose_tokens

end

/-! ### The number of added parentheses -/

theorem length_enclosed (tokens : List Token) :
    (enclosed tokens).length = tokens.length + 2 := by
  simp [enclosed]

/-- The head of a derived chain is written with a pair of parentheses more if it is a base that is
the least value. -/
theorem Derivation.length_head (first : Derivation (.head tier position) lexemes e)
    {more : List Lexeme} (next : LinksDerivation tier more links) :
    (if e.isNegativeLiteral && startWithPower links then enclosed e.tokens else e.tokens).length =
      e.tokens.length +
        2 * (if e.literal? = some .minValue ∧ startWithPower links then 1 else 0) := by
  have isBase : (e.isNegativeLiteral && startWithPower links) = true ↔
      e.literal? = some .minValue ∧ startWithPower links := by
    rw [Bool.and_eq_true]
    constructor
    · rintro ⟨negative, power⟩
      cases next with
      | nil => cases power
      | cons op column ofTier operand behind =>
        obtain rfl : op = .pow := eq_of_beq power
        obtain rfl : .power = tier := ofTier
        obtain ⟨-, -, column, -, -, rfl⟩ := first.eq_least_of_negative negative
        exact ⟨rfl, rfl⟩
    · rintro ⟨found, power⟩
      obtain ⟨column, rfl⟩ := Expr.literal?_eq_some_iff.mp found
      exact ⟨rfl, power⟩
  by_cases base : (e.isNegativeLiteral && startWithPower links) = true
  · rw [if_pos base, if_pos (isBase.mp base), length_enclosed]
  · rw [if_neg base, if_neg (mt isBase.mpr base)]
    rfl

mutual

/-- **Writing a derived expression adds one pair of parentheses for each of the bases.** -/
theorem Derivation.length_tokens {symbol : Symbol} {lexemes : List Lexeme} {e : Expr} :
    Derivation symbol lexemes e → e.tokens.length = lexemes.length + 2 * e.leastBases
  | .integer magnitude column small => by
    rw [Expr.tokens, ofValue_ofNat small, leastBases]
    rfl
  | .group _ _ inside => by
    rw [Expr.tokens, leastBases, length_enclosed, inside.length_tokens]
    simp only [List.length_cons, List.length_append, List.length_nil]
    omega
  | .unsigned operand => operand.length_tokens
  | .signed _ operand => by
    rw [Expr.tokens, leastBases, operand.not_negative_atom, List.length_cons, List.length_cons,
      if_neg (by decide), operand.length_tokens]
    omega
  | .leastSigned _ _ _ least => by
    rw [Expr.tokens, ofValue_minValue least, leastBases]
    rfl
  | .base power => power.length_tokens
  | .plain power => power.length_tokens
  | .negated _ power => by
    rw [Expr.tokens, leastBases, power.not_negative_power, List.length_cons, List.length_cons,
      if_neg (by decide), power.length_tokens]
    omega
  | .leastFactor _ _ _ least => by
    rw [Expr.tokens, ofValue_minValue least, leastBases]
    rfl
  | .alone operand => operand.length_tokens
  | .chain first next => by
    rw [Expr.tokens, leastBases, List.length_append, first.length_head next, first.length_tokens,
      next.length_tokens, List.length_append]
    omega

theorem LinksDerivation.length_tokens {tier : Tier} {lexemes : List Lexeme}
    {links : List (Link Expr)} : LinksDerivation tier lexemes links →
      (linksTokens links).length = lexemes.length + 2 * linksLeastBases links
  | .nil => rfl
  | .cons _ _ _ operand next => by
    rw [linksTokens, linksLeastBases, List.length_cons, List.length_cons, List.length_append,
      List.length_append, operand.length_tokens, next.length_tokens]
    omega

end

end Grammar

open Grammar

/-! ### Texts -/

/-- **The text of an expression has the tokens it was read from**, but for a pair of parentheses
around each least value that is the base of a power. Without such a base nothing is added, so it has
the same tokens and is read as the same expression, but for the columns. -/
theorem tokens_text_of_parse {source : String} {e : Expr} (parsed : parse source = .ok e) :
    ∃ lexemes lexemes', tokenize source = .ok lexemes ∧ tokenize e.text = .ok lexemes' ∧
      tokensOf lexemes' = encloseLeastBases true (tokensOf lexemes) ∧
      lexemes'.length = lexemes.length + 2 * e.leastBases ∧
      (e.leastBases = 0 → tokensOf lexemes' = tokensOf lexemes ∧
        ∃ e', parse e.text = .ok e' ∧ e'.withoutColumns = e.withoutColumns) := by
  obtain ⟨lexemes, read, ranParse⟩ := bind_eq_ok_iff.mp parsed
  obtain ⟨⟨derivation⟩, -⟩ := derivation_of_parseLexemes ranParse
  have fits := fits_of_reaches parsed .refl (Nat.le_refl _)
  obtain ⟨lexemes', reread, sameTokens, -⟩ := exists_derivation_text fits
  have written : e.tokens = encloseLeastBases true (tokensOf lexemes) := by
    have whole := derivation.enclose_tokens true [] (fun _ => rfl) fun _ _ _ => nofun
    simpa only [List.append_nil, encloseLeastBases] using whole.symm
  have length : lexemes'.length = lexemes.length + 2 * e.leastBases := by
    rw [← derivation.length_tokens, ← sameTokens, tokensOf, List.length_map]
  refine ⟨lexemes, lexemes', read, reread, sameTokens.trans written, length, fun noBase => ?_⟩
  have same : tokensOf lexemes' = tokensOf lexemes := by
    rw [sameTokens, written]
    refine ((sublist_encloseLeastBases true (tokensOf lexemes)).eq_of_length ?_).symm
    rw [← written, ← sameTokens, tokensOf, tokensOf, List.length_map, List.length_map, length,
      noBase]
    rfl
  exact ⟨same, parse_of_same_tokens parsed read reread same⟩

/-- The least value needs no parentheses as an exponent; as a base it gets a pair of them. -/
theorem tokens_text_of_exponent_and_base :
    (∃ e, parse "2^-9223372036854775808" = .ok e ∧ e.leastBases = 0 ∧
      ∃ e', parse e.text = .ok e' ∧ e'.withoutColumns = e.withoutColumns) ∧
    ∃ lexemes lexemes', tokenize "-9223372036854775808^2" = .ok lexemes ∧
      tokenize "(-9223372036854775808)^2" = .ok lexemes' ∧
      tokensOf lexemes' = encloseLeastBases true (tokensOf lexemes) ∧
      lexemes'.length = lexemes.length + 2 := by
  obtain ⟨exponent, parsed, noBase⟩ := exists_parse_of_test "2^-9223372036854775808"
    (fun e => e.leastBases = 0) (by decide +kernel)
  obtain ⟨base, parsedBase, test⟩ := exists_parse_of_test "-9223372036854775808^2"
    (fun e => e.text = "(-9223372036854775808)^2" ∧ e.leastBases = 1) (by decide +kernel)
  obtain ⟨written, oneBase⟩ := of_decide_eq_true test
  obtain ⟨_, _, -, -, -, -, readsBack⟩ := tokens_text_of_parse parsed
  obtain ⟨lexemes, lexemes', read, reread, same, length, -⟩ := tokens_text_of_parse parsedBase
  rw [written] at reread
  rw [oneBase] at length
  exact ⟨⟨exponent, parsed, of_decide_eq_true noBase, (readsBack (of_decide_eq_true noBase)).2⟩,
    lexemes, lexemes', read, reread, same, length⟩

end Abacus
