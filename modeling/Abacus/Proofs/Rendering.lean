/-
**The text of a state is read as a state with the same outcome.**

A minus sign belongs to a literal, to an operand or to a power, depending on where it stands, so the
text of a state may be read as another expression, but one that has the same value or the same
error.
`Grammar.Reads` says of a list of tokens what outcome their expression has, whatever the columns.
It has one lemma for each rule of the grammar; where the text has parentheses of its own
(`Grammar.tokensAt`), it has them by the same rules:

* `Grammar.reads_literal`: a literal is read as its value wherever it stands;
* `Grammar.Fits.reads`: what fits where a nonterminal is due is read there with its outcome;
* `parse_text_of_reaches`: the text of a state is read as an expression with the same outcome.
-/

import Abacus.Proofs.Outcome
import Abacus.Proofs.Shape

namespace Abacus

open Abacus.Expr (enclosed outcomeLinks)

namespace Grammar

/-- The tokens of an expression where a nonterminal is due: in parentheses if they start with a
minus sign that the nonterminal does not allow. -/
def tokensAt (symbol : Symbol) (e : Expr) : List Token :=
  if symbol.isUnsigned && e.isNegativeLiteral then enclosed e.tokens else e.tokens

theorem tokensAt_of_signed {symbol : Symbol} (signed : symbol.isUnsigned = false) (e : Expr) :
    tokensAt symbol e = e.tokens := by
  rw [tokensAt, signed]
  rfl

theorem tokensAt_of_negative {symbol : Symbol} {e : Expr} (unsigned : symbol.isUnsigned = true)
    (negative : e.isNegativeLiteral = true) : tokensAt symbol e = enclosed e.tokens := by
  rw [tokensAt, unsigned, negative]
  rfl

theorem tokensAt_of_not_negative {e : Expr} (symbol : Symbol)
    (notNegative : e.isNegativeLiteral = false) : tokensAt symbol e = e.tokens := by
  rw [tokensAt, notNegative, Bool.and_false]
  rfl

/-! ### The rules -/

/-- The tokens are derived from the nonterminal, and their expression has the outcome. -/
def Reads (symbol : Symbol) (tokens : List Token) (outcome : Except RuntimeError Int64) : Prop :=
  ∀ lexemes, tokensOf lexemes = tokens → ∃ e, Derives symbol lexemes e ∧ e.outcome = outcome

/-- The tokens are derived as links, and their outcome depends in this way on the head's value. -/
def ReadsLinks (tier : Tier) (tokens : List Token)
    (outcome : Int64 → Except RuntimeError Int64) : Prop :=
  ∀ lexemes, tokensOf lexemes = tokens →
    ∃ links, Nonempty (LinksDerivation tier lexemes links) ∧
      ∀ left, outcomeLinks left links = outcome left

section Rules

variable {symbol : Symbol} {tier : Tier} {tokens more : List Token}
  {outcome : Except RuntimeError Int64} {outcomes : Int64 → Except RuntimeError Int64}

theorem reads_integer {magnitude : UInt64} (small : magnitude.toNat < leastMagnitude) :
    Reads .atom [.integer magnitude] (.ok (.ofNat magnitude.toNat)) := by
  intro lexemes same
  obtain ⟨⟨token, column⟩, rfl, rfl⟩ := List.map_eq_singleton_iff.mp same
  exact ⟨_, ⟨.integer magnitude column small⟩, rfl⟩

theorem Reads.group (inside : Reads .expression tokens outcome) :
    Reads .atom (enclosed tokens) outcome := by
  intro lexemes same
  obtain ⟨⟨token, opening⟩, behind, rfl, rfl, sameBehind⟩ := List.map_eq_cons_iff.mp same
  obtain ⟨between, last, rfl, sameBetween, sameLast⟩ := List.map_eq_append_iff.mp sameBehind
  obtain ⟨⟨token, closing⟩, rfl, rfl⟩ := List.map_eq_singleton_iff.mp sameLast
  obtain ⟨inner, ⟨derivation⟩, sameOutcome⟩ := inside between sameBetween
  exact ⟨_, ⟨.group opening closing derivation⟩, by rw [Expr.outcome_group, sameOutcome]⟩

/-- A rule that passes an expression on. -/
theorem Reads.imp {symbol' : Symbol} (reads : Reads symbol tokens outcome)
    (rule : ∀ {lexemes e}, Derivation symbol lexemes e → Derivation symbol' lexemes e) :
    Reads symbol' tokens outcome := by
  intro lexemes same
  obtain ⟨e, ⟨derivation⟩, sameOutcome⟩ := reads lexemes same
  exact ⟨e, ⟨rule derivation⟩, sameOutcome⟩

/-- A rule that negates an expression. -/
theorem Reads.negate {symbol' : Symbol} (reads : Reads symbol tokens outcome)
    (rule : ∀ {lexemes e} (column : Nat), Derivation symbol lexemes e →
      Derivation symbol' (⟨.minus, column⟩ :: lexemes) (.negate e column)) :
    Reads symbol' (.minus :: tokens) (outcome >>= fun value => checkedNeg value 0) := by
  intro lexemes same
  obtain ⟨⟨token, column⟩, behind, rfl, rfl, sameBehind⟩ := List.map_eq_cons_iff.mp same
  obtain ⟨e, ⟨derivation⟩, sameOutcome⟩ := reads behind sameBehind
  exact ⟨_, ⟨rule column derivation⟩, by rw [Expr.outcome_negate, sameOutcome]⟩

/-- A rule for the magnitude `2^63` behind a minus sign. -/
theorem reads_minValue {magnitude : UInt64}
    (rule : ∀ column magnitudeColumn, Derivation symbol
      [⟨.minus, column⟩, ⟨.integer magnitude, magnitudeColumn⟩] (.literal .minValue column)) :
    Reads symbol [.minus, .integer magnitude] (.ok .minValue) := by
  intro lexemes same
  obtain ⟨⟨token, column⟩, behind, rfl, rfl, sameBehind⟩ := List.map_eq_cons_iff.mp same
  obtain ⟨⟨token, magnitudeColumn⟩, rfl, rfl⟩ := List.map_eq_singleton_iff.mp sameBehind
  exact ⟨_, ⟨rule column magnitudeColumn⟩, rfl⟩

theorem readsLinks_nil : ReadsLinks tier [] .ok := by
  intro lexemes same
  rw [List.map_eq_nil_iff.mp same]
  exact ⟨[], ⟨.nil⟩, Expr.outcomeLinks_nil⟩

theorem ReadsLinks.cons {op : Operator} (next : ReadsLinks tier more outcomes)
    (ofTier : op.tier = tier) (operand : Reads (.operand tier) tokens outcome) :
    ReadsLinks tier (.operator op :: (tokens ++ more)) (fun left => do
      let right ← outcome
      let value ← op.apply left right 0
      outcomes value) := by
  intro lexemes same
  obtain ⟨⟨token, column⟩, behind, rfl, rfl, sameBehind⟩ := List.map_eq_cons_iff.mp same
  obtain ⟨first, last, rfl, sameFirst, sameLast⟩ := List.map_eq_append_iff.mp sameBehind
  obtain ⟨e, ⟨derivation⟩, sameOutcome⟩ := operand first sameFirst
  obtain ⟨links, ⟨linksDerivation⟩, sameOutcomes⟩ := next last sameLast
  refine ⟨_, ⟨.cons op column ofTier derivation linksDerivation⟩, fun left => ?_⟩
  rw [Expr.outcomeLinks_cons, sameOutcome]
  simp only [sameOutcomes]

theorem Reads.chain {position : Position} (head : Reads (.head tier position) tokens outcome)
    (links : ReadsLinks tier more outcomes) :
    Reads (.chain tier position) (tokens ++ more) (outcome >>= outcomes) := by
  intro lexemes same
  obtain ⟨first, last, rfl, sameFirst, sameLast⟩ := List.map_eq_append_iff.mp same
  obtain ⟨e, ⟨derivation⟩, sameOutcome⟩ := head first sameFirst
  obtain ⟨next, ⟨linksDerivation⟩, sameOutcomes⟩ := links last sameLast
  refine ⟨_, derives_ofLinks derivation linksDerivation, ?_⟩
  rw [Expr.outcome_ofLinks, sameOutcome]
  simp only [sameOutcomes]

/-- The head of a chain alone. -/
theorem Reads.alone {position : Position} (head : Reads (.head tier position) tokens outcome) :
    Reads (.chain tier position) tokens outcome := head.imp .alone

/-- What is read with a sign, as an operand and as a factor, is read wherever a sign may stand. -/
theorem Reads.ofSigned (signed : Reads .signed tokens outcome)
    (factor : Reads (.factor .following) tokens outcome) (allowed : symbol.isUnsigned = false) :
    Reads symbol tokens outcome := by
  have power : Reads (.chain .power .leading) tokens outcome := .alone signed
  have factors : ∀ position, Reads (.factor position) tokens outcome
    | .leading => power.imp .base
    | .following => factor
  have products position : Reads (.chain .product position) tokens outcome :=
    .alone (factors position)
  cases symbol with
  | atom => cases allowed
  | signed => exact signed
  | factor position => exact factors position
  | chain tier position =>
    cases tier with
    | power =>
      cases position with
      | leading => exact power
      | following => cases allowed
    | product => exact products position
    | sum => exact .alone (products position)

/-- What is read as an atom is read everywhere. -/
theorem Reads.ofAtom (atom : Reads .atom tokens outcome) (symbol : Symbol) :
    Reads symbol tokens outcome := by
  have power : Reads (.chain .power .following) tokens outcome := .alone atom
  cases allowed : symbol.isUnsigned with
  | false => exact .ofSigned (atom.imp .unsigned) (power.imp .plain) allowed
  | true =>
    rcases eq_of_isUnsigned allowed with rfl | rfl
    · exact atom
    · exact power

end Rules

/-! ### Literals -/

theorem reads_of_not_neg {value : Int64} (notNegative : ¬ value < 0) :
    Reads .atom (Token.ofValue value) (.ok value) := by
  have magnitude := toNat_ofNat_natAbs value
  have positive : 0 ≤ value.toInt := by
    rwa [Int64.lt_iff_toInt_lt, Int64.toInt_zero, Int.not_lt] at notNegative
  have small := natAbs_lt_leastMagnitude positive
  have atom := reads_integer (magnitude.symm ▸ small)
  have same : Int64.ofNat (UInt64.ofNat value.toInt.natAbs).toNat = value := by
    rw [← Int64.toInt_inj, magnitude, Int64.toInt_ofNat_of_lt small, Int.natAbs_of_nonneg positive]
  rwa [same, ← Token.ofValue_of_not_neg notNegative] at atom

/-- The negation of a magnitude below `2^63` is read back. -/
theorem checkedNeg_natAbs {value : Int64} (negative : value.toInt < 0)
    (small : value.toInt.natAbs < leastMagnitude) :
    checkedNeg (.ofNat (UInt64.ofNat value.toInt.natAbs).toNat) 0 = .ok value := by
  rw [checkedNeg, checked_eq_ok_iff, toNat_ofNat_natAbs, Int64.toInt_ofNat_of_lt small]
  omega

theorem reads_of_neg {value : Int64} (negative : value < 0) :
    Reads .signed (Token.ofValue value) (.ok value) ∧
      Reads (.factor .following) (Token.ofValue value) (.ok value) := by
  have magnitude := toNat_ofNat_natAbs value
  rw [Token.ofValue_of_neg negative]
  rw [Int64.lt_iff_toInt_lt, Int64.toInt_zero] at negative
  by_cases least : value.toInt.natAbs = leastMagnitude
  · rw [eq_minValue_of_natAbs negative least] at magnitude ⊢
    exact ⟨reads_minValue fun _ _ => .leastSigned _ _ _ magnitude,
      reads_minValue fun _ _ => .leastFactor _ _ _ magnitude⟩
  · have small := Nat.lt_of_le_of_ne (natAbs_le_leastMagnitude value) least
    have atom := reads_integer (magnitude.symm ▸ small)
    have power : Reads (.chain .power .following) _ _ := .alone atom
    have signed := atom.negate .signed
    have factor := power.negate .negated
    rw [ok_bind, checkedNeg_natAbs negative small] at signed factor
    exact ⟨signed, factor⟩

/-- **A literal is read as its value**, wherever it stands. -/
theorem reads_literal (symbol : Symbol) (value : Int64) (column : Nat) :
    Reads symbol (tokensAt symbol (.literal value column)) (.ok value) := by
  by_cases negative : value < 0
  · have isNegative : Expr.isNegativeLiteral (.literal value column) = true :=
      decide_eq_true negative
    obtain ⟨signed, factor⟩ := reads_of_neg negative
    cases allowed : symbol.isUnsigned with
    | false =>
      rw [tokensAt_of_signed allowed]
      exact .ofSigned signed factor allowed
    | true =>
      have inside : Reads .expression (Token.ofValue value) (.ok value) :=
        .ofSigned signed factor rfl
      rw [tokensAt_of_negative allowed isNegative]
      exact inside.group.ofAtom symbol
  · have notNegative : Expr.isNegativeLiteral (.literal value column) = false :=
      decide_eq_false negative
    rw [tokensAt_of_not_negative symbol notNegative]
    exact (reads_of_not_neg negative).ofAtom symbol

/-! ### What fits is read -/

/-- What is read where there may be no sign, with parentheses if need be, is read without them where
there may be one. -/
theorem reads_without_parentheses {symbol symbol' : Symbol} {e : Expr}
    (reads : Reads symbol (tokensAt symbol e) e.outcome)
    (rule : ∀ {lexemes e}, Derivation symbol lexemes e → Derivation symbol' lexemes e) :
    Reads symbol' (tokensAt symbol' e) e.outcome := by
  cases negative : e.isNegativeLiteral with
  | true =>
    obtain ⟨value, column, rfl, -⟩ := Expr.isNegativeLiteral_eq_true_iff.mp negative
    exact reads_literal symbol' value column
  | false =>
    rw [tokensAt_of_not_negative _ negative] at reads ⊢
    exact reads.imp rule

theorem readsLinks_linksTokens {tier : Tier} : ∀ {links : List (Link Expr)},
    (∀ link ∈ links, link.op.tier = tier) →
      (∀ link ∈ links, Reads (.operand tier) (tokensAt (.operand tier) link.operand)
        link.operand.outcome) →
      ReadsLinks tier (Expr.linksTokens links) (outcomeLinks · links)
  | [], _, _ => readsLinks_nil
  | ⟨op, operand, column⟩ :: links, ofTier, reads => by
    obtain ⟨ofTierOp, ofTierMore⟩ := List.forall_mem_cons.mp ofTier
    obtain ⟨readsOperand, readsMore⟩ := List.forall_mem_cons.mp reads
    rw [tokensAt_of_signed (Symbol.isUnsigned_operand tier)] at readsOperand
    have whole := (readsLinks_linksTokens ofTierMore readsMore).cons ofTierOp readsOperand
    simp only [← Expr.outcomeLinks_cons _ op operand column links] at whole
    exact whole

/-- The head of a chain is read as it is written: in parentheses before a power if it is negative,
without them before any other operator. -/
theorem reads_head {tier : Tier} {position : Position} {head : Expr} {link : Link Expr}
    (links : List (Link Expr)) (ofTier : link.op.tier = tier)
    (reads : Reads (.head tier position) (tokensAt (.head tier position) head) head.outcome) :
    Reads (.head tier position)
      (if head.isNegativeLiteral && Expr.startWithPower (link :: links) then enclosed head.tokens
        else head.tokens) head.outcome := by
  cases negative : head.isNegativeLiteral with
  | false => rwa [tokensAt_of_not_negative _ negative] at reads
  | true =>
    by_cases isPower : link.op = .pow
    · obtain ⟨value, column, rfl, -⟩ := Expr.isNegativeLiteral_eq_true_iff.mp negative
      have atom := reads_literal .atom value column
      rw [tokensAt_of_negative rfl negative] at atom
      rw [Expr.startWithPower, isPower]
      exact atom.ofAtom _
    · have allowed : (Symbol.head tier position).isUnsigned = false :=
        Bool.eq_false_iff.mpr fun unsigned => isPower (op_eq_pow_of_isUnsigned_head unsigned ofTier)
      rw [tokensAt_of_signed allowed] at reads
      rw [Expr.startWithPower, beq_false_of_ne isPower]
      exact reads

/-- **What fits where a nonterminal is due is read there with its outcome.** -/
theorem Fits.reads {room : Nat} {symbol : Symbol} {e : Expr} (fits : Fits room symbol e) :
    Reads symbol (tokensAt symbol e) e.outcome := by
  induction fits with
  | @literal _ symbol value column _ => exact reads_literal symbol value column
  | group column _ ih =>
    rw [Expr.outcome_group]
    exact ih.group
  | unsigned _ ih => exact reads_without_parentheses ih .unsigned
  | signed column _ ih =>
    rw [Expr.outcome_negate]
    exact ih.negate .signed
  | base _ ih => exact ih.imp .base
  | plain _ ih => exact reads_without_parentheses ih .plain
  | negated column _ ih =>
    rw [Expr.outcome_negate]
    exact ih.negate .negated
  | @chain _ tier position head links _ ofTier _ ihHead ihOperands =>
    cases links with
    | nil =>
      have alone := ihHead.alone
      rwa [tokensAt, Symbol.isUnsigned_head, ← tokensAt] at alone
    | cons link links =>
      rw [Expr.outcome_ofLinks]
      have ofTierFirst := (List.forall_mem_cons.mp ofTier).1
      rw [tokensAt_of_not_negative _ rfl]
      exact (reads_head links ofTierFirst ihHead).chain (readsLinks_linksTokens ofTier ihOperands)

end Grammar

open Grammar Abacus.Expr

/-! ### The texts of states -/

/-- The text of an expression that fits has tokens, and these are derived as an expression with the
same outcome. -/
theorem exists_derivation_text {room : Nat} {e : Expr} (fits : Fits room .expression e) :
    ∃ lexemes, tokenize e.text = .ok lexemes ∧ tokensOf lexemes = e.tokens ∧
      ∃ e', Derives .expression lexemes e' ∧ e'.outcome = e.outcome := by
  have derived : ∀ lexemes, tokensOf lexemes = e.tokens → ∃ e', Derives .expression lexemes e' := by
    intro lexemes same
    obtain ⟨e', derives, -⟩ := fits.reads lexemes same
    exact ⟨e', derives⟩
  obtain ⟨lexemes, read, same⟩ := exists_tokenize_joined derived
  exact ⟨lexemes, read, same, fits.reads lexemes same⟩

theorem parse_text_of_fits {room : Nat} {e : Expr} (fits : Fits room .expression e)
    (shallow : nesting e.text ≤ maxNesting) :
    ∃ e', parse e.text = .ok e' ∧ e'.outcome = e.outcome := by
  obtain ⟨lexemes, read, sameTokens, e', ⟨derivation⟩, sameOutcome⟩ := exists_derivation_text fits
  rw [Expr.text, nesting_joined, ← sameTokens] at shallow
  refine ⟨e', ?_, sameOutcome⟩
  rw [parse, read, ok_bind]
  exact parseLexemes_of_derivation derivation shallow _

theorem parse_text_of_too_deep {room : Nat} {e : Expr} (fits : Fits room .expression e)
    (deep : maxNesting < nesting e.text) :
    ∃ column, parse e.text = .error (.nestingTooDeep column) := by
  obtain ⟨lexemes, read, sameTokens, e', ⟨derivation⟩, -⟩ := exists_derivation_text fits
  rw [Expr.text, nesting_joined, ← sameTokens] at deep
  rw [parse, read, ok_bind]
  exact parseLexemes_of_too_deep derivation deep _

/-- **The text of a state is read as an expression with the same outcome.** For every state of the
reduction of a text, if the text of the state opens no more groups at once than allowed, it is read
as an expression, and this has the value of the state, or fails as the state does: with the same
cause, and the same exponent if that is the cause. -/
theorem parse_text_of_reaches {source : String} {e state : Expr} (parsed : parse source = .ok e)
    (reaches : e.Reaches state) (shallow : nesting state.text ≤ maxNesting) :
    ∃ e', parse state.text = .ok e' ∧ e'.outcome = state.outcome :=
  parse_text_of_fits (fits_of_reaches parsed reaches (nesting_le_of_parse parsed)) shallow

/-- The first step on `-2^2` folds the sign into the base, which is then written in parentheses. -/
theorem parse_text_of_folded_base :
    parse "-2^2" = .ok (.chain (.negate (.literal 2 2) 1) [⟨.pow, .literal 2 4, 3⟩]) ∧
      ∃ e', parse "(-2)^2" = .ok e' ∧ e'.outcome = .ok 4 := by
  have two column : Derivation .atom [⟨.integer 2, column⟩] (.literal 2 column) :=
    .integer 2 column (by decide)
  have first : Derivation (.head .power .leading) _ _ := .signed 1 (two 2)
  have links : LinksDerivation .power _ _ := .cons .pow 3 rfl (.unsigned (two 4)) .nil
  have power : Derivation (.chain .power .leading) _ _ := .chain first links
  have sum : Derivation .expression _ _ := .alone (.alone power.base)
  have read : tokenize "-2^2" =
      .ok [⟨.minus, 1⟩, ⟨.integer 2, 2⟩, ⟨.operator .pow, 3⟩, ⟨.integer 2, 4⟩] := by
    simp [tokenize, scan, isSeparator, Token.ofSymbol?, Operator.ofSymbol?, Nat.ofDigitChars,
      UInt64.size, Functor.map, Except.map]
  have parsed : parse "-2^2" =
      .ok (.chain (.negate (.literal 2 2) 1) [⟨.pow, .literal 2 4, 3⟩]) := by
    rw [parse, read, ok_bind]
    exact parseLexemes_of_derivation sum (by decide) _
  have steps : StepsTo (.chain (.negate (.literal 2 2) 1) [⟨.pow, .literal 2 4, 3⟩])
      (.chain (.literal (-2) 1) [⟨.pow, .literal 2 4, 3⟩]) := ⟨.negation (-2) 1, rfl⟩
  have written : text (.chain (.literal (-2) 1) [⟨.pow, .literal 2 4, 3⟩]) = "(-2)^2" := by decide
  have reread := parse_text_of_reaches parsed (.single steps) (by rw [written]; decide)
  rw [written] at reread
  exact ⟨parsed, reread⟩

end Abacus
