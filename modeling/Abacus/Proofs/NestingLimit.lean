/-
**How deep the texts of states are.**

The text of a state has parentheses that are no groups: around a negative literal behind a minus
sign or at the base of a power. Where the grammar allows no minus sign the literal has come out of a
group, and the parentheses stand where the group stood. But a base at the start of an expression may
have its own sign: then its parentheses are one level deeper than the groups around it.

* `Expr.hasNegativeBase`: whether there is such a base inside a number of groups;
* `Grammar.Fits.bounded`: what fits is at most one level deeper than there is room, and it is so
  only with such a base inside as many groups as there is room for;
* `nesting_text_of_reaches`: which states have texts that are too deep to be read;
* `exists_deeper_state`: for every depth there is a text with a state one level deeper.
-/

import Abacus.Proofs.Rendering

namespace Abacus

namespace Expr

mutual

/-- Whether a power has a negative literal as its base inside as many groups. -/
def hasNegativeBase : Nat → Expr → Bool
  | _, literal _ _ => false
  | 0, group _ _ => false
  | depth + 1, group inner _ => hasNegativeBase depth inner
  | depth, negate operand _ => hasNegativeBase depth operand
  | depth, chain head links =>
    (depth == 0 && head.isNegativeLiteral && startWithPower links) || hasNegativeBase depth head ||
      linksHaveNegativeBase depth links

/-- Whether an operand of links has such a power. -/
def linksHaveNegativeBase : Nat → List (Link Expr) → Bool
  | _, [] => false
  | depth, ⟨_, operand, _⟩ :: links =>
    hasNegativeBase depth operand || linksHaveNegativeBase depth links

end

end Expr

namespace Grammar

/-! ### One level more than there is room -/

/-- The tokens are at most one level deeper than there is room, and so deep only on a condition. -/
structure Bounded (room : Nat) (tokens : List Token) (deep : Bool) : Prop where
  le : Token.nesting tokens ≤ room + 1
  iff : room < Token.nesting tokens ↔ deep = true

namespace Bounded

variable {room : Nat} {tokens more : List Token} {deep deep' : Bool}

theorem of_le (shallow : Token.nesting tokens ≤ room) : Bounded room tokens false :=
  ⟨Nat.le_succ_of_le shallow, fun deeper => absurd shallow (Nat.not_le.mpr deeper), nofun⟩

theorem append (one : Bounded room tokens deep) (two : Bounded room more deep')
    (balanced : Token.Balanced tokens) : Bounded room (tokens ++ more) (deep || deep') := by
  refine ⟨?_, ?_⟩
  · rw [balanced.nesting_append]
    exact Nat.max_le.mpr ⟨one.le, two.le⟩
  · have either : room < max (Token.nesting tokens) (Token.nesting more) ↔
        room < Token.nesting tokens ∨ room < Token.nesting more := by omega
    rw [balanced.nesting_append, either, one.iff, two.iff, Bool.or_eq_true]

theorem enclosed (bounded : Bounded room tokens deep) (balanced : Token.Balanced tokens) :
    Bounded (room + 1) (Expr.enclosed tokens) deep := by
  have deeper : Token.nesting (Expr.enclosed tokens) = Token.nesting tokens + 1 :=
    balanced.nesting_enclosed
  refine ⟨?_, ?_⟩
  · rw [deeper]
    exact Nat.succ_le_succ bounded.le
  · rw [deeper, Nat.succ_lt_succ_iff, bounded.iff]

theorem cons {token : Token} (bounded : Bounded room tokens deep) (plain : token.IsPlain) :
    Bounded room (token :: tokens) deep := by
  have same : Token.nesting (token :: tokens) = Token.nesting tokens :=
    Token.Balanced.nesting_cons plain
  exact ⟨same ▸ bounded.le, same ▸ bounded.iff⟩

end Bounded

theorem bounded_ofValue (room : Nat) (value : Int64) :
    Bounded room (Token.ofValue value) false :=
  .of_le ((Expr.nesting_ofValue value).symm ▸ Nat.zero_le room)

theorem nesting_enclosed_ofValue (value : Int64) :
    Token.nesting (Expr.enclosed (Token.ofValue value)) = 1 := by
  have deeper := (Expr.balanced_ofValue value).nesting_enclosed
  rwa [Expr.nesting_ofValue] at deeper

theorem bounded_literal {room : Nat} {symbol : Symbol} {value : Int64} (column : Nat)
    (fromGroup : symbol.isUnsigned → value < 0 → 0 < room) :
    Bounded room (tokensAt symbol (.literal value column)) false := by
  unfold tokensAt
  split
  · rename_i needed
    obtain ⟨unsigned, negative⟩ := (Bool.and_eq_true _ _).mp needed
    refine .of_le ?_
    rw [Expr.tokens, nesting_enclosed_ofValue]
    exact fromGroup unsigned (of_decide_eq_true negative)
  · exact bounded_ofValue room value

theorem bounded_without_parentheses {room : Nat} {symbol : Symbol} {e : Expr}
    (bounded : Bounded room (tokensAt symbol e) (e.hasNegativeBase room)) :
    Bounded room e.tokens (e.hasNegativeBase room) := by
  cases negative : e.isNegativeLiteral with
  | true =>
    obtain ⟨value, column, rfl, -⟩ := Expr.isNegativeLiteral_eq_true_iff.mp negative
    exact bounded_ofValue room value
  | false => rwa [tokensAt_of_not_negative _ negative] at bounded

/-- A head needs a level of its own if it is a negative base, and none otherwise. -/
theorem bounded_head {room : Nat} {symbol : Symbol} {head : Expr} (links : List (Link Expr))
    (bounded : Bounded room (tokensAt symbol head) (head.hasNegativeBase room)) :
    Bounded room
      (if head.isNegativeLiteral && Expr.startWithPower links then Expr.enclosed head.tokens
        else head.tokens)
      (room == 0 && head.isNegativeLiteral && Expr.startWithPower links ||
        head.hasNegativeBase room) := by
  rw [Bool.and_assoc]
  cases needed : head.isNegativeLiteral && Expr.startWithPower links with
  | false =>
    rw [Bool.and_false, Bool.false_or]
    exact bounded_without_parentheses bounded
  | true =>
    obtain ⟨negative, -⟩ := (Bool.and_eq_true _ _).mp needed
    obtain ⟨value, column, rfl, -⟩ := Expr.isNegativeLiteral_eq_true_iff.mp negative
    refine ⟨?_, ?_⟩
    · show Token.nesting (Expr.enclosed (Token.ofValue value)) ≤ room + 1
      rw [nesting_enclosed_ofValue]
      exact Nat.le_add_left 1 room
    · show room < Token.nesting (Expr.enclosed (Token.ofValue value)) ↔ _
      rw [nesting_enclosed_ofValue, Bool.and_true, Expr.hasNegativeBase, Bool.or_false, beq_iff_eq,
        Nat.lt_one_iff]

theorem bounded_linksTokens {room : Nat} : ∀ {links : List (Link Expr)},
    (∀ link ∈ links, Bounded room link.operand.tokens (link.operand.hasNegativeBase room)) →
      Bounded room (Expr.linksTokens links) (Expr.linksHaveNegativeBase room links)
  | [], _ => .of_le (Nat.zero_le room)
  | ⟨op, operand, column⟩ :: links, bounded => by
    obtain ⟨boundedOperand, boundedMore⟩ := List.forall_mem_cons.mp bounded
    have whole :=
      boundedOperand.append (bounded_linksTokens boundedMore) (Expr.balanced_tokens operand)
    exact whole.cons (Token.isPlain_operator op)

/-- **What fits is at most one level deeper than there is room**, and it is so only where a negative
base stands inside as many groups as there is room for. -/
theorem Fits.bounded {room : Nat} {symbol : Symbol} {e : Expr} (fits : Fits room symbol e) :
    Bounded room (tokensAt symbol e) (e.hasNegativeBase room) := by
  induction fits with
  | literal value column fromGroup => exact bounded_literal column fromGroup
  | @group room inner column _ ih => exact ih.enclosed (Expr.balanced_tokens inner)
  | unsigned _ ih => exact bounded_without_parentheses ih
  | signed column _ ih => exact ih.cons (Token.isPlain_operator .sub)
  | base _ ih => exact ih
  | plain _ ih => exact bounded_without_parentheses ih
  | negated column _ ih => exact ih.cons (Token.isPlain_operator .sub)
  | @chain room tier position head links _ _ _ ihHead ihOperands =>
    cases links with
    | nil => rwa [tokensAt, Symbol.isUnsigned_head, ← tokensAt] at ihHead
    | cons link links =>
      rw [tokensAt_of_not_negative _ rfl]
      have linksBounded := bounded_linksTokens fun link member =>
        bounded_without_parentheses (ihOperands link member)
      exact (bounded_head _ ihHead).append linksBounded
        (Expr.balanced_ite_enclosed (Expr.balanced_tokens head) _)

end Grammar

open Grammar Abacus.Expr

/-! ### Texts with deeper states -/

/-- The tokens of `-2^2` in as many pairs of parentheses. -/
def nestedSquare : Nat → List Token
  | 0 => [.minus, .integer 2, .operator .pow, .integer 2]
  | depth + 1 => enclosed (nestedSquare depth)

/-- An expression of a kind in as many groups. -/
def InGroups (kind : Expr → Prop) : Nat → Expr → Prop
  | 0, e => kind e
  | depth + 1, e => ∃ inner column, e = .group inner column ∧ InGroups kind depth inner

/-- The expression of `-2^2`, which is four, with any columns. -/
def IsSquare (e : Expr) : Prop :=
  ∃ sign base op exponent,
    e = .chain (.negate (.literal 2 base) sign) [⟨.pow, .literal 2 exponent, op⟩]

/-- The same expression with its sign folded. -/
def IsFoldedSquare (e : Expr) : Prop :=
  ∃ base op exponent, e = .chain (.literal (-2) base) [⟨.pow, .literal 2 exponent, op⟩]

theorem balanced_nestedSquare : ∀ depth, Token.Balanced (nestedSquare depth)
  | 0 =>
    have exponent : Token.Balanced [.operator .pow, .integer 2] :=
      .cons (Token.isPlain_operator .pow) (.singleton (Token.isPlain_integer 2))
    .cons (Token.isPlain_operator .sub) (.cons (Token.isPlain_integer 2) exponent)
  | depth + 1 => (balanced_nestedSquare depth).enclosed

theorem nesting_nestedSquare (depth : Nat) : Token.nesting (nestedSquare depth) = depth := by
  induction depth with
  | zero => rfl
  | succ depth ih =>
    have deeper := (balanced_nestedSquare depth).nesting_enclosed
    rwa [ih] at deeper

/-- Whatever the columns, the tokens are derived as the expression in groups. -/
theorem derives_nestedSquare {depth : Nat} {lexemes : List Lexeme}
    (same : tokensOf lexemes = nestedSquare depth) :
    ∃ e, Derives .expression lexemes e ∧ InGroups IsSquare depth e := by
  induction depth generalizing lexemes with
  | zero =>
    obtain ⟨⟨_, sign⟩, _, rfl, rfl, afterSign⟩ := List.map_eq_cons_iff.mp same
    obtain ⟨⟨_, base⟩, _, rfl, rfl, afterBase⟩ := List.map_eq_cons_iff.mp afterSign
    obtain ⟨⟨_, op⟩, _, rfl, rfl, afterOp⟩ := List.map_eq_cons_iff.mp afterBase
    obtain ⟨⟨_, exponent⟩, rfl, rfl⟩ := List.map_eq_singleton_iff.mp afterOp
    have two column : Derivation .atom [⟨.integer 2, column⟩] (.literal 2 column) :=
      .integer 2 column (by decide)
    have first : Derivation (.head .power .leading) _ _ := .signed sign (two base)
    have links : LinksDerivation .power _ _ := .cons .pow op rfl (.unsigned (two exponent)) .nil
    have power : Derivation (.chain .power .leading) _ _ := .chain first links
    exact ⟨_, ⟨.alone (.alone power.base)⟩, sign, base, op, exponent, rfl⟩
  | succ depth ih =>
    obtain ⟨⟨_, opening⟩, _, rfl, rfl, afterOpening⟩ := List.map_eq_cons_iff.mp same
    obtain ⟨between, _, rfl, sameBetween, afterBetween⟩ := List.map_eq_append_iff.mp afterOpening
    obtain ⟨⟨_, closing⟩, rfl, rfl⟩ := List.map_eq_singleton_iff.mp afterBetween
    obtain ⟨inner, ⟨inside⟩, nested⟩ := ih sameBetween
    have power : Derivation (.chain .power .leading) _ _ :=
      .alone (.unsigned (.group opening closing inside))
    exact ⟨_, ⟨.alone (.alone power.base)⟩, inner, opening, rfl, nested⟩

/-- A step inside the groups folds the sign. -/
theorem reduceGroup_nestedSquare {depth : Nat} {e : Expr}
    (nested : InGroups IsSquare (depth + 1) e) :
    ∃ reduction state, e.reduceGroup = .reduced reduction state ∧
      InGroups IsFoldedSquare (depth + 1) state := by
  obtain ⟨inner, column, rfl, nested⟩ := nested
  induction depth generalizing inner column with
  | zero =>
    obtain ⟨sign, base, op, exponent, rfl⟩ := nested
    exact ⟨.negation (-2) sign, _, rfl, _, column, rfl, sign, op, exponent, rfl⟩
  | succ depth ih =>
    obtain ⟨inner, innerColumn, rfl, nested⟩ := nested
    obtain ⟨reduction, state, ran, folded⟩ := ih inner innerColumn nested
    refine ⟨reduction, .group state column, ?_, state, column, rfl, folded⟩
    rw [reduceGroup, ran]
    rfl

theorem stepsTo_nestedSquare {depth : Nat} {e : Expr} (nested : InGroups IsSquare depth e) :
    ∃ state, e.StepsTo state ∧ InGroups IsFoldedSquare depth state := by
  cases depth with
  | zero =>
    obtain ⟨sign, base, op, exponent, rfl⟩ := nested
    exact ⟨_, ⟨.negation (-2) sign, rfl⟩, sign, op, exponent, rfl⟩
  | succ depth =>
    obtain ⟨reduction, state, ran, folded⟩ := reduceGroup_nestedSquare nested
    refine ⟨state, ⟨reduction, ?_⟩, folded⟩
    rw [step, ran]
    rfl

theorem nesting_foldedSquare {depth : Nat} {e : Expr} (folded : InGroups IsFoldedSquare depth e) :
    Token.nesting e.tokens = depth + 1 ∧ e.hasNegativeBase depth = true := by
  induction depth generalizing e with
  | zero =>
    obtain ⟨base, op, exponent, rfl⟩ := folded
    exact ⟨rfl, rfl⟩
  | succ depth ih =>
    obtain ⟨inner, column, rfl, folded⟩ := folded
    obtain ⟨deeper, negative⟩ := ih folded
    have deepest := (balanced_tokens inner).nesting_enclosed
    rw [deeper] at deepest
    exact ⟨deepest, negative⟩

/-- **For every depth there is a text with a state one level deeper.** -/
theorem exists_deeper_state {depth : Nat} (room : depth ≤ maxNesting) :
    ∃ e state, parse (Token.joined (nestedSquare depth)) = .ok e ∧ e.Reaches state ∧
      nesting state.text = depth + 1 ∧ state.hasNegativeBase depth = true := by
  have derived : ∀ lexemes, tokensOf lexemes = nestedSquare depth →
      ∃ e, Derives .expression lexemes e := by
    intro lexemes same
    obtain ⟨e, derives, -⟩ := derives_nestedSquare same
    exact ⟨e, derives⟩
  obtain ⟨lexemes, read, sameTokens⟩ := exists_tokenize_joined derived
  obtain ⟨e, ⟨derivation⟩, nested⟩ := derives_nestedSquare sameTokens
  obtain ⟨state, steps, folded⟩ := stepsTo_nestedSquare nested
  obtain ⟨deeper, negative⟩ := nesting_foldedSquare folded
  refine ⟨e, state, ?_, .single steps, (nesting_joined _).trans deeper, negative⟩
  have shallow : Token.nesting (tokensOf lexemes) ≤ maxNesting := by
    rwa [sameTokens, nesting_nestedSquare]
  rw [parse, read, ok_bind]
  exact parseLexemes_of_derivation derivation shallow _

/-! ### The texts of states -/

/-- **How deep the text of a state is.** It is at most one level deeper than the text that was
reduced. It is refused as too deep exactly if it opens more groups at once than allowed, and this
exactly if a power of the state has a negative literal as its base inside as many groups as may be
open at once. -/
theorem nesting_text_of_reaches {source : String} {e state : Expr} (parsed : parse source = .ok e)
    (reaches : e.Reaches state) :
    nesting state.text ≤ nesting source + 1 ∧
      (maxNesting < nesting state.text ↔ state.hasNegativeBase maxNesting = true) ∧
      ((∃ column, parse state.text = .error (.nestingTooDeep column)) ↔
        state.hasNegativeBase maxNesting = true) := by
  have fits := fits_of_reaches parsed reaches (nesting_le_of_parse parsed)
  have sameNesting : nesting state.text = Token.nesting state.tokens := nesting_joined _
  have tooDeep : maxNesting < nesting state.text ↔ state.hasNegativeBase maxNesting = true := by
    rw [sameNesting]
    exact fits.bounded.iff
  refine ⟨?_, tooDeep, ?_⟩
  · rw [sameNesting]
    exact (fits_of_reaches parsed reaches (Nat.le_refl _)).bounded.le
  · rw [← tooDeep]
    constructor
    · rintro ⟨column, refused⟩
      refine Nat.lt_of_not_le fun shallow => ?_
      obtain ⟨e', read, -⟩ := parse_text_of_fits fits shallow
      cases refused.symm.trans read
    · exact parse_text_of_too_deep fits

/-- With `-2^2` in as many groups as may be open at once, the first step leads to a state that is
too deep. -/
theorem exists_state_too_deep :
    ∃ e state, parse (Token.joined (nestedSquare 256)) = .ok e ∧ e.Reaches state ∧
      ¬ nesting state.text ≤ maxNesting := by
  obtain ⟨e, state, parsed, reaches, deeper, -⟩ := exists_deeper_state (Nat.le_refl maxNesting)
  exact ⟨e, state, parsed, reaches, by rw [deeper]; exact Nat.not_succ_le_self maxNesting⟩

/-- The text of this state is refused for this reason. -/
theorem nestingTooDeep_of_nestedSquare :
    ∃ e state, parse (Token.joined (nestedSquare 256)) = .ok e ∧ e.Reaches state ∧
      state.hasNegativeBase maxNesting = true ∧
      ∃ column, parse state.text = .error (.nestingTooDeep column) := by
  obtain ⟨e, state, parsed, reaches, -, negative⟩ := exists_deeper_state (Nat.le_refl maxNesting)
  have limits := nesting_text_of_reaches parsed reaches
  exact ⟨e, state, parsed, reaches, negative, limits.2.2.mpr negative⟩

end Abacus
