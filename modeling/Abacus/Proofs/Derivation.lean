/-
**The grammar of expressions, declared.**

A `Grammar.Derivation` shows how a list of tokens is made up as an expression by the rules of the
grammar, without saying how it is read. The nonterminals (`Grammar.Symbol`) are

* atoms: an integer below `2^63`, or a group, which is an expression in parentheses;
* signed operands: an atom with an optional minus sign;
* chains of one tier: an operand alone, or an operand and then operators of the tier with an operand
  each. The operands of a power are signed, those of a product are factors, those of a sum are
  products;
* factors: where an expression starts, a power whose head is signed; elsewhere a power whose head is
  an atom, with an optional minus sign that negates the power.

The two signs may stand before the magnitude `2^63`, with which they are the least value; that value
is no head of a power behind the second sign. An expression is a chain of sums at its own start.

A derivation says nothing of how deep the groups are nested: `Token.nesting` does.

* `Derivation.balanced`, `Derivation.separated`: derived tokens close their groups, and have no
  integers side by side;
* `exists_tokenize_joined`: so the text of derived tokens is read as these tokens.
-/

import Abacus.Grammar
import Abacus.Proofs.Lexing
import Abacus.Proofs.Nesting

namespace Abacus.Grammar

/-- The nonterminals of the grammar. -/
inductive Symbol where
  | atom
  /-- An atom with an optional minus sign. -/
  | signed
  /-- An operand of a product. -/
  | factor (position : Position)
  /-- An operand, alone or with a run of operators of one tier behind it; the position is that of
  this operand. -/
  | chain (tier : Tier) (position : Position)
  deriving DecidableEq

namespace Symbol

/-- An expression is a sum at its own start. -/
abbrev expression : Symbol := chain .sum .leading

/-- What a chain starts with. -/
def head : Tier → Position → Symbol
  | .power, .leading => signed
  | .power, .following => atom
  | .product, position => factor position
  | .sum, position => chain .product position

/-- What follows the operators of a chain. -/
def operand : Tier → Symbol
  | .power => signed
  | .product => factor .following
  | .sum => chain .product .following

end Symbol

mutual

/-- How tokens are made up as an expression. -/
inductive Derivation : Symbol → List Lexeme → Expr → Type
  | integer (magnitude : UInt64) (column : Nat) (small : magnitude.toNat < leastMagnitude) :
      Derivation .atom [⟨.integer magnitude, column⟩] (.literal (.ofNat magnitude.toNat) column)
  | group {lexemes : List Lexeme} {inner : Expr} (opening closing : Nat)
      (inside : Derivation .expression lexemes inner) :
      Derivation .atom (⟨.leftParen, opening⟩ :: (lexemes ++ [⟨.rightParen, closing⟩]))
        (.group inner opening)
  | unsigned {lexemes : List Lexeme} {e : Expr} (operand : Derivation .atom lexemes e) :
      Derivation .signed lexemes e
  | signed {lexemes : List Lexeme} {e : Expr} (column : Nat)
      (operand : Derivation .atom lexemes e) :
      Derivation .signed (⟨.minus, column⟩ :: lexemes) (.negate e column)
  | leastSigned (magnitude : UInt64) (column magnitudeColumn : Nat)
      (least : magnitude.toNat = leastMagnitude) :
      Derivation .signed [⟨.minus, column⟩, ⟨.integer magnitude, magnitudeColumn⟩]
        (.literal .minValue column)
  | base {lexemes : List Lexeme} {e : Expr}
      (power : Derivation (.chain .power .leading) lexemes e) :
      Derivation (.factor .leading) lexemes e
  | plain {lexemes : List Lexeme} {e : Expr}
      (power : Derivation (.chain .power .following) lexemes e) :
      Derivation (.factor .following) lexemes e
  | negated {lexemes : List Lexeme} {e : Expr} (column : Nat)
      (power : Derivation (.chain .power .following) lexemes e) :
      Derivation (.factor .following) (⟨.minus, column⟩ :: lexemes) (.negate e column)
  | leastFactor (magnitude : UInt64) (column magnitudeColumn : Nat)
      (least : magnitude.toNat = leastMagnitude) :
      Derivation (.factor .following) [⟨.minus, column⟩, ⟨.integer magnitude, magnitudeColumn⟩]
        (.literal .minValue column)
  | alone {tier : Tier} {position : Position} {lexemes : List Lexeme} {e : Expr}
      (operand : Derivation (.head tier position) lexemes e) :
      Derivation (.chain tier position) lexemes e
  | chain {tier : Tier} {position : Position} {lexemes more : List Lexeme} {e : Expr}
      {link : Link Expr} {links : List (Link Expr)}
      (first : Derivation (.head tier position) lexemes e)
      (next : LinksDerivation tier more (link :: links)) :
      Derivation (.chain tier position) (lexemes ++ more) (.chain e (link :: links))

/-- How tokens are made up as operators of one tier with an operand each. -/
inductive LinksDerivation : Tier → List Lexeme → List (Link Expr) → Type
  | nil {tier : Tier} : LinksDerivation tier [] []
  | cons {tier : Tier} {lexemes more : List Lexeme} {e : Expr} {links : List (Link Expr)}
      (op : Operator) (column : Nat) (ofTier : op.tier = tier)
      (operand : Derivation (.operand tier) lexemes e) (next : LinksDerivation tier more links) :
      LinksDerivation tier (⟨.operator op, column⟩ :: (lexemes ++ more)) (⟨op, e, column⟩ :: links)

end

/-- Tokens are made up as an expression in some way. -/
abbrev Derives (symbol : Symbol) (lexemes : List Lexeme) (e : Expr) : Prop :=
  Nonempty (Derivation symbol lexemes e)

section Chains

variable {tier : Tier} {position : Position} {lexemes more : List Lexeme} {e : Expr}
  {links : List (Link Expr)}

/-- An operand and links, of which there may be none, are a chain. -/
theorem derives_ofLinks (first : Derivation (.head tier position) lexemes e)
    (next : LinksDerivation tier more links) :
    Derives (.chain tier position) (lexemes ++ more) (.ofLinks e links) := by
  cases next with
  | nil =>
    rw [List.append_nil]
    exact ⟨.alone first⟩
  | cons op column ofTier operand next => exact ⟨.chain first (.cons op column ofTier operand next)⟩

/-- A chain is made up of an operand and links, of which there may be none. -/
theorem Derivation.exists_links (chain : Derivation (.chain tier position) lexemes e) :
    ∃ before behind head links, lexemes = before ++ behind ∧ e = .ofLinks head links ∧
      Derives (.head tier position) before head ∧
      Nonempty (LinksDerivation tier behind links) := by
  cases chain with
  | alone operand => exact ⟨lexemes, [], e, [], (List.append_nil _).symm, rfl, ⟨operand⟩, ⟨.nil⟩⟩
  | chain first next => exact ⟨_, _, _, _, rfl, rfl, ⟨first⟩, ⟨next⟩⟩

end Chains

/-- The tokens without their columns. -/
abbrev tokensOf (lexemes : List Lexeme) : List Token := lexemes.map Lexeme.token

/-! ### Balance and separation -/

mutual

theorem Derivation.balanced {symbol : Symbol} {lexemes : List Lexeme} {e : Expr} :
    Derivation symbol lexemes e → Token.Balanced (tokensOf lexemes)
  | .integer magnitude _ _ => .singleton (Token.isPlain_integer magnitude)
  | .group _ _ inside => by
    have closed := inside.balanced.enclosed
    simpa only [tokensOf, List.map_cons, List.map_append, List.map_nil] using closed
  | .unsigned operand => operand.balanced
  | .signed _ operand => operand.balanced.cons (Token.isPlain_operator .sub)
  | .leastSigned magnitude _ _ _ =>
    .cons (Token.isPlain_operator .sub) (.singleton (Token.isPlain_integer magnitude))
  | .base power => power.balanced
  | .plain power => power.balanced
  | .negated _ power => power.balanced.cons (Token.isPlain_operator .sub)
  | .leastFactor magnitude _ _ _ =>
    .cons (Token.isPlain_operator .sub) (.singleton (Token.isPlain_integer magnitude))
  | .alone operand => operand.balanced
  | .chain first next => by
    rw [tokensOf, List.map_append]
    exact first.balanced.append next.balanced

theorem LinksDerivation.balanced {tier : Tier} {lexemes : List Lexeme} {links : List (Link Expr)} :
    LinksDerivation tier lexemes links → Token.Balanced (tokensOf lexemes)
  | .nil => .nil
  | .cons op _ _ operand next => by
    rw [tokensOf, List.map_cons, List.map_append]
    exact (operand.balanced.append next.balanced).cons (Token.isPlain_operator op)

end

theorem nesting_operator (op : Operator) (column : Nat) (lexemes : List Lexeme) :
    Token.nesting (tokensOf (⟨.operator op, column⟩ :: lexemes)) =
      Token.nesting (tokensOf lexemes) := rfl

namespace Derivation

variable {symbol : Symbol} {lexemes : List Lexeme} {e : Expr}

theorem nesting_append (derivation : Derivation symbol lexemes e) (more : List Lexeme) :
    Token.nesting (tokensOf (lexemes ++ more)) =
      max (Token.nesting (tokensOf lexemes)) (Token.nesting (tokensOf more)) := by
  rw [tokensOf, List.map_append, derivation.balanced.nesting_append]

theorem nesting_group (inside : Derivation symbol lexemes e) (opening closing : Nat) :
    Token.nesting (tokensOf (⟨.leftParen, opening⟩ :: (lexemes ++ [⟨.rightParen, closing⟩]))) =
      Token.nesting (tokensOf lexemes) + 1 := by
  rw [tokensOf, List.map_cons, List.map_append]
  exact inside.balanced.nesting_enclosed

end Derivation

mutual

theorem Derivation.separated {symbol : Symbol} {lexemes : List Lexeme} {e : Expr} :
    Derivation symbol lexemes e → Token.Separated (tokensOf lexemes)
  | .integer magnitude _ _ => .integer magnitude
  | .group _ _ inside => by
    have closed := inside.separated.append Token.isSeparator_rightParen .nil
    have whole := closed.cons Token.isSeparator_leftParen
    simpa only [tokensOf, List.map_cons, List.map_append, List.map_nil] using whole
  | .unsigned operand => operand.separated
  | .signed _ operand => operand.separated.cons (Token.isSeparator_operator .sub)
  | .leastSigned magnitude _ _ _ =>
    (Token.Separated.integer magnitude).cons (Token.isSeparator_operator .sub)
  | .base power => power.separated
  | .plain power => power.separated
  | .negated _ power => power.separated.cons (Token.isSeparator_operator .sub)
  | .leastFactor magnitude _ _ _ =>
    (Token.Separated.integer magnitude).cons (Token.isSeparator_operator .sub)
  | .alone operand => operand.separated
  | .chain first next => by
    rw [tokensOf, List.map_append]
    exact next.separated_append first.separated

/-- Links behind separated tokens leave them separated, since they start with an operator. -/
theorem LinksDerivation.separated_append {tier : Tier} {lexemes : List Lexeme}
    {links : List (Link Expr)} {before : List Token} :
    LinksDerivation tier lexemes links → Token.Separated before →
      Token.Separated (before ++ tokensOf lexemes)
  | .nil, separated => by rwa [tokensOf, List.map_nil, List.append_nil]
  | .cons op _ _ operand next, separated => by
    rw [tokensOf, List.map_cons, List.map_append]
    exact separated.append (Token.isSeparator_operator op)
      (next.separated_append operand.separated)

end

/-- The text of tokens that are derived, whatever their columns, is read as these tokens. -/
theorem exists_tokenize_joined {symbol : Symbol} {tokens : List Token}
    (derived : ∀ lexemes, tokensOf lexemes = tokens → ∃ e, Derives symbol lexemes e) :
    ∃ lexemes, tokenize (Token.joined tokens) = .ok lexemes ∧ tokensOf lexemes = tokens := by
  have same : tokensOf (tokens.map (Lexeme.mk · 0)) = tokens := by
    rw [tokensOf, List.map_map]
    exact List.map_id tokens
  obtain ⟨_, ⟨derivation⟩⟩ := derived _ same
  have separated := derivation.separated
  rw [same] at separated
  exact tokenize_joined separated

end Abacus.Grammar
