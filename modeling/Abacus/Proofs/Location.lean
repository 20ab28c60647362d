/-
**Errors point at the characters that are wrong.**

The operators and minus signs of an expression are tokens of its text, and the failing operation
that an error reports is one of them. So the column of every error is that of a character that shows
the cause, but for a text that ends too early, where it is the column behind the last character.

* `OperatorHere`, `Grammar.Derivation.mem_of_hasOperator`: operators of expressions are tokens;
* `RuntimeError.About`: which operators have which errors;
* `Located`: what stands at the column of an error;
* `error_located`: every error of a text, with a trace or without one, is located.
-/

import Abacus.Proofs.Culprit
import Abacus.Proofs.Position
import Abacus.Proofs.Refusal

namespace Abacus

/-! ### Operators -/

namespace Expr

/-- The expression itself, not a part, has the operator at the column. -/
inductive OperatorHere (op : Operator) (column : Nat) : Expr → Prop
  | sign {operand : Expr} (minus : op = .sub) : OperatorHere op column (.negate operand column)
  | link {head operand : Expr} {links : List (Link Expr)}
      (member : ⟨op, operand, column⟩ ∈ links) : OperatorHere op column (.chain head links)

/-- One of the links, or an operand of them, has the operator at the column. -/
def LinksHaveOperator (op : Operator) (column : Nat) (links : List (Link Expr)) : Prop :=
  ∃ link ∈ links, link.op = op ∧ link.column = column ∨
    link.operand.HasPart (OperatorHere op column)

variable {op : Operator} {column : Nat}

theorem hasOperator_negate {operand : Expr} {signColumn : Nat}
    (has : (negate operand signColumn).HasPart (OperatorHere op column)) :
    op = .sub ∧ column = signColumn ∨ operand.HasPart (OperatorHere op column) := by
  refine (hasPart_negate_iff.mp has).imp_left fun here => ?_
  cases here with
  | sign minus => exact ⟨minus, rfl⟩

theorem hasOperator_chain {head : Expr} {links : List (Link Expr)}
    (has : (chain head links).HasPart (OperatorHere op column)) :
    head.HasPart (OperatorHere op column) ∨ LinksHaveOperator op column links := by
  rcases hasPart_chain_iff.mp has with here | inHead | ⟨link, member, inside⟩
  · cases here with
    | link member => exact .inr ⟨_, member, .inl ⟨rfl, rfl⟩⟩
  · exact .inl inHead
  · exact .inr ⟨link, member, .inr inside⟩

end Expr

namespace Grammar

open Abacus.Expr

variable {op : Operator} {column : Nat}

mutual

/-- **The operators and minus signs of a derived expression are tokens.** -/
theorem Derivation.mem_of_hasOperator {symbol : Symbol} {lexemes : List Lexeme} {e : Expr} :
    Derivation symbol lexemes e → e.HasPart (OperatorHere op column) →
      ⟨.operator op, column⟩ ∈ lexemes
  | .integer .., has => nomatch hasPart_literal_iff.mp has
  | .group _ _ inside, has => by
    have inner := (hasPart_group_iff.mp has).resolve_left nofun
    exact List.mem_cons_of_mem _ (List.mem_append_left _ (inside.mem_of_hasOperator inner))
  | .unsigned operand, has => operand.mem_of_hasOperator has
  | .signed _ operand, has => by
    rcases hasOperator_negate has with ⟨rfl, rfl⟩ | inside
    · exact List.mem_cons_self
    · exact List.mem_cons_of_mem _ (operand.mem_of_hasOperator inside)
  | .leastSigned .., has => nomatch hasPart_literal_iff.mp has
  | .base power, has => power.mem_of_hasOperator has
  | .plain power, has => power.mem_of_hasOperator has
  | .negated _ power, has => by
    rcases hasOperator_negate has with ⟨rfl, rfl⟩ | inside
    · exact List.mem_cons_self
    · exact List.mem_cons_of_mem _ (power.mem_of_hasOperator inside)
  | .leastFactor .., has => nomatch hasPart_literal_iff.mp has
  | .alone operand, has => operand.mem_of_hasOperator has
  | .chain first next, has => by
    rcases hasOperator_chain has with inHead | inLinks
    · exact List.mem_append_left _ (first.mem_of_hasOperator inHead)
    · exact List.mem_append_right _ (next.mem_of_hasOperator inLinks)

theorem LinksDerivation.mem_of_hasOperator {tier : Tier} {lexemes : List Lexeme}
    {links : List (Link Expr)} :
    LinksDerivation tier lexemes links → LinksHaveOperator op column links →
      ⟨.operator op, column⟩ ∈ lexemes
  | .nil, has => by
    obtain ⟨link, member, -⟩ := has
    cases member
  | .cons _ _ _ operand next, has => by
    obtain ⟨link, member, found⟩ := has
    rcases List.mem_cons.mp member with rfl | later
    · rcases found with ⟨rfl, rfl⟩ | inside
      · exact List.mem_cons_self
      · exact List.mem_cons_of_mem _ (List.mem_append_left _ (operand.mem_of_hasOperator inside))
    · have inLinks := next.mem_of_hasOperator ⟨link, later, found⟩
      exact List.mem_cons_of_mem _ (List.mem_append_right _ inLinks)

end

mutual

/-- Derived tokens close the parentheses that they open, and only these. -/
theorem Derivation.foldl_openBehind {symbol : Symbol} {lexemes : List Lexeme} {e : Expr} :
    Derivation symbol lexemes e → ∀ opened, lexemes.foldl openBehind opened = opened
  | .integer .., _ => rfl
  | .group opening closing inside, opened => by
    rw [List.foldl_cons, List.foldl_append, inside.foldl_openBehind]
    rfl
  | .unsigned operand, opened => operand.foldl_openBehind opened
  | .signed _ operand, opened => operand.foldl_openBehind opened
  | .leastSigned .., _ => rfl
  | .base power, opened => power.foldl_openBehind opened
  | .plain power, opened => power.foldl_openBehind opened
  | .negated _ power, opened => power.foldl_openBehind opened
  | .leastFactor .., _ => rfl
  | .alone operand, opened => operand.foldl_openBehind opened
  | .chain first next, opened => by
    rw [List.foldl_append, first.foldl_openBehind, next.foldl_openBehind]

theorem LinksDerivation.foldl_openBehind {tier : Tier} {lexemes : List Lexeme}
    {links : List (Link Expr)} :
    LinksDerivation tier lexemes links → ∀ opened, lexemes.foldl openBehind opened = opened
  | .nil, _ => rfl
  | .cons _ _ _ operand next, opened => by
    rw [List.foldl_cons, List.foldl_append, operand.foldl_openBehind, next.foldl_openBehind]
    rfl

end

end Grammar

/-! ### Operations that fail -/

/-- The operator at the column can fail with the error, which has this column. -/
inductive RuntimeError.About : RuntimeError → Operator → Nat → Prop
  | division {op : Operator} (column : Nat) (divides : op = .div ∨ op = .mod) :
      About (.divisionByZero column) op column
  | power (exponent : Int64) (column : Nat) : About (.invalidExponent exponent column) .pow column
  | overflow (op : Operator) (column : Nat) : About (.overflow column) op column

section Operations

variable {column : Nat} {error : RuntimeError}

theorem about_of_checked {n : Int} (failed : checked n column = .error error) (op : Operator) :
    error.About op column := by
  rw [(checked_eq_error_iff.mp failed).2]
  exact .overflow op column

theorem about_of_power {base exponent : Int64} (failed : power base exponent column = .error error) :
    error.About .pow column := by
  unfold power at failed
  split at failed
  · cases failed
    exact .power exponent column
  · split at failed
    · cases failed
    · split at failed
      · cases failed
      · cases counted : count32 exponent column with
        | error other =>
          rw [counted] at failed
          cases failed
          unfold count32 at counted
          split at counted
          · cases counted
          · cases counted
            exact .overflow .pow column
        | ok count =>
          rw [counted, ok_bind] at failed
          split at failed
          · exact about_of_checked failed .pow
          · cases failed
            exact .overflow .pow column

/-- An operator fails with an error that is about it. -/
theorem about_of_apply {op : Operator} {left right : Int64}
    (failed : op.apply left right column = .error error) : error.About op column := by
  cases op with
  | add => exact about_of_checked failed .add
  | sub => exact about_of_checked failed .sub
  | mul => exact about_of_checked failed .mul
  | div =>
    simp only [Operator.apply] at failed
    split at failed
    · cases failed
      exact .division column (.inl rfl)
    · exact about_of_checked failed .div
  | mod =>
    simp only [Operator.apply] at failed
    split at failed
    · cases failed
      exact .division column (.inr rfl)
    · split at failed
      · cases failed
        exact .overflow .mod column
      · exact about_of_checked failed .mod
  | pow => exact about_of_power failed

end Operations

open Grammar Abacus.Expr

/-- A failure of an expression is about one of its operators. -/
theorem exists_operator_of_mem_failures {e : Expr} {error : RuntimeError}
    (failure : error ∈ e.failures) :
    ∃ op column, e.HasPart (OperatorHere op column) ∧ error.About op column := by
  obtain ⟨part, contains, fails⟩ := (mem_failures_iff e).mp failure
  cases fails with
  | @sign operand column value _ negated =>
    exact ⟨.sub, column, ⟨_, contains, .sign rfl⟩, about_of_checked negated .sub⟩
  | @link head operand links op column left right index found _ _ applied =>
    have member := List.mem_of_getElem? found
    exact ⟨op, column, ⟨_, contains, .link member⟩, about_of_apply applied⟩

/-! ### What stands at the column of an error -/

/-- **What stands in a text at the column of its error.** A token that is named by an error stands
there as a whole; a group that is not closed is the innermost one. -/
inductive Located (text : List Char) : Error → Prop
  | empty : Located text (.parse .emptyExpression)
  | ended : Located text (.parse (.unexpectedEnd (text.length + 1)))
  | unclosed {column : Nat} (stands : CharAt text column '(')
      (innermost : (unmatched text).head? = some column) :
      Located text (.parse (.unclosedGroup column))
  | tooDeep {column : Nat} (stands : CharAt text column '(') :
      Located text (.parse (.nestingTooDeep column))
  | tooLarge {column : Nat} {digits : List Char} (stands : DigitsAt text column digits)
      (large : leastMagnitude ≤ Nat.ofDigitChars 10 digits 0) :
      Located text (.parse (.literalTooLarge column))
  | unknown {column : Nat} {c : Char} (stands : CharAt text column c) (notDigit : ¬ c.isDigit)
      (notSeparator : ¬ isSeparator c) (notSymbol : Token.ofSymbol? c = none) :
      Located text (.parse (.unexpectedToken (String.singleton c) column))
  | unexpected {column : Nat} {token : Token} (stands : TokenAt text column token) :
      Located text (.parse (.unexpectedToken token.text column))
  | inGroup {column : Nat} {token : Token} (stands : TokenAt text column token) :
      Located text (.parse (.unexpectedToken ("expected ')', found " ++ token.text) column))
  | trailing {column : Nat} {token : Token} (stands : TokenAt text column token) :
      Located text (.parse (.trailingTokens token.text column))
  | division {column : Nat} {op : Operator} (divides : op = .div ∨ op = .mod)
      (stands : CharAt text column op.symbol) :
      Located text (.runtime (.divisionByZero column))
  | power {column : Nat} (exponent : Int64) (stands : CharAt text column '^') :
      Located text (.runtime (.invalidExponent exponent column))
  | overflow {column : Nat} {op : Operator} (stands : CharAt text column op.symbol) :
      Located text (.runtime (.overflow column))

section Located

variable {source : String} {text : List Char} {lexemes : List Lexeme}

/-- The column of an error is one of the text, or the one behind it. -/
theorem Located.bounds {error : Error} {column : Nat} (located : Located text error)
    (found : error.column? = some column) :
    error = .parse (.unexpectedEnd (text.length + 1)) ∨ 1 ≤ column ∧ column ≤ text.length := by
  cases located with
  | empty => cases found
  | ended => exact .inl rfl
  | unclosed stands _ | tooDeep stands | tooLarge stands _ | unknown stands _ _ _
  | unexpected stands | inGroup stands | trailing stands | division _ stands | power _ stands
  | overflow stands =>
    cases found
    exact .inr stands.bounds

theorem ScanFault.located {error : ParseError} (fault : ScanFault text error) :
    Located text (.parse error) := by
  cases fault with
  | unknown stands notDigit notSeparator notSymbol =>
    exact .unknown stands notDigit notSeparator notSymbol
  | tooLarge stands large =>
    have least : leastMagnitude ≤ UInt64.size := by decide
    exact .tooLarge stands (Nat.le_trans least large)

theorem ParseError.About.located {error : ParseError} {lexeme : Lexeme}
    (about : error.About lexeme) (stands : TokenAt text lexeme.column lexeme.token) :
    Located text (.parse error) := by
  cases about with
  | unexpected => exact .unexpected stands
  | inGroup => exact .inGroup stands
  | trailing => exact .trailing stands
  | tooLarge magnitude column large =>
    obtain ⟨digits, run, value⟩ := stands.digits
    exact .tooLarge run (value ▸ large)
  | tooDeep column => exact .tooDeep stands.leftParen

theorem RuntimeError.About.located {error : RuntimeError} {op : Operator} {column : Nat}
    (about : error.About op column) (stands : CharAt text column op.symbol) :
    Located text (.runtime error) := by
  cases about with
  | division column divides => exact .division divides stands
  | power exponent column => exact .power exponent stands
  | overflow op column => exact .overflow stands

/-- Where tokens are refused, the text shows why. -/
theorem located_of_parseLexemes {error : ParseError} (read : tokenize source = .ok lexemes)
    (refused : parseLexemes lexemes (source.length + 1) = .error error) :
    Located source.toList (.parse error) := by
  have stands := tokenAt_of_tokenize read
  by_cases nonempty : lexemes = []
  · rw [nonempty] at refused
    cases refused
    exact .empty
  · cases refusal_of_parseLexemes nonempty refused with
    | @token before lexeme rest _ about _ _ =>
      exact about.located (stands lexeme List.mem_append_cons_self)
    | @base before magnitude column opColumn rest least _ _ _ =>
      have about : ParseError.About (.literalTooLarge column) ⟨.integer magnitude, column⟩ :=
        .tooLarge magnitude column (Nat.le_of_eq least.symm)
      exact about.located (stands _ List.mem_append_cons_self)
    | ended viable => exact .ended
    | @unclosed before inside inner column derives _ =>
      obtain ⟨derivation⟩ := derives
      have paren := stands ⟨.leftParen, column⟩ List.mem_append_cons_self
      refine .unclosed paren.leftParen ?_
      rw [unmatched_eq_of_tokenize read, List.foldl_append, List.foldl_cons,
        derivation.foldl_openBehind]
      rfl

theorem located_of_parse {error : ParseError} (refused : parse source = .error error) :
    Located source.toList (.parse error) := by
  cases read : tokenize source with
  | error fault =>
    rw [parse, read] at refused
    cases refused
    exact (scanFault_of_tokenize read).located
  | ok lexemes =>
    rw [parse, read] at refused
    exact located_of_parseLexemes read refused

/-- Where an operation of an expression fails, its operator stands in the text. -/
theorem located_of_mem_failures {e : Expr} {error : RuntimeError} (parsed : parse source = .ok e)
    (failure : error ∈ e.failures) : Located source.toList (.runtime error) := by
  obtain ⟨lexemes, read, parsedLexemes⟩ := bind_eq_ok_iff.mp parsed
  obtain ⟨⟨derivation⟩, -⟩ := derivation_of_parseLexemes parsedLexemes
  obtain ⟨op, column, has, about⟩ := exists_operator_of_mem_failures failure
  exact about.located (tokenAt_of_tokenize read _ (derivation.mem_of_hasOperator has)).operator

/-- An error is that of the parser, or one of the failures of the expression that is read. -/
theorem parse_error_or_failure {error : Error}
    (reported : evaluate source = .error error ∨
      ∃ options, evaluateWith options source = .error error) :
    (∃ cause, parse source = .error cause ∧ error = .parse cause) ∨
      ∃ e cause, parse source = .ok e ∧ cause ∈ e.failures ∧ error = .runtime cause := by
  cases parsed : parse source with
  | error cause =>
    refine .inl ⟨cause, rfl, ?_⟩
    rcases reported with failed | ⟨options, failed⟩
    · rw [evaluate, parsed] at failed
      cases failed
      rfl
    · cases (evaluateWith_of_refused parsed options).symm.trans failed
      rfl
  | ok e =>
    refine .inr ⟨e, ?_⟩
    rcases reported with failed | ⟨⟨verbose, normalization⟩, failed⟩
    · rw [evaluate_of_parse parsed] at failed
      cases evaluated : e.eval with
      | ok value =>
        rw [evaluated] at failed
        cases failed
      | error cause =>
        rw [evaluated] at failed
        cases failed
        exact ⟨cause, rfl, mem_failures_of_error (.inl evaluated), rfl⟩
    · cases verbose with
      | false =>
        obtain ⟨cause, evaluated, same⟩ :=
          (evaluateWith_plain_eq_error_iff parsed normalization error).mp failed
        exact ⟨cause, rfl, mem_failures_of_error (.inl evaluated), same⟩
      | true =>
        obtain ⟨cause, reduced, same⟩ :=
          (evaluateWith_verbose_eq_error_iff parsed normalization error).mp failed
        exact ⟨cause, rfl, mem_failures_of_error (.inr reduced), same⟩

end Located

/-- **Errors point at the characters that are wrong.** Whatever error is reported for a text, by
evaluation or with any options, what stands at its column is what `Located` says of it; and the
column is one of the text, or the one behind it if the text ends too early. -/
theorem error_located (source : String) (error : Error)
    (reported : evaluate source = .error error ∨
      ∃ options, evaluateWith options source = .error error) :
    Located source.toList error ∧ ∀ column, error.column? = some column →
      error = .parse (.unexpectedEnd (source.length + 1)) ∨
        1 ≤ column ∧ column ≤ source.length := by
  have located : Located source.toList error := by
    rcases parse_error_or_failure reported with ⟨cause, refused, rfl⟩ |
      ⟨e, cause, parsed, failure, rfl⟩
    · exact located_of_parse refused
    · exact located_of_mem_failures parsed failure
  exact ⟨located, fun column found => located.bounds found⟩

/-- In `(2)*((1+3)` the group at column 5 is not closed, though the one inside of it is. -/
theorem error_located_of_open_group :
    evaluate "(2)*((1+3)" = .error (.parse (.unclosedGroup 5)) ∧
      CharAt "(2)*((1+3)".toList 5 '(' ∧ (unmatched "(2)*((1+3)".toList).head? = some 5 := by
  have reported : evaluate "(2)*((1+3)" = .error (.parse (.unclosedGroup 5)) :=
    eq_error_of_failure? (by decide +kernel)
  obtain ⟨located, -⟩ := error_located _ _ (.inl reported)
  cases located with
  | unclosed stands innermost => exact ⟨reported, stands, innermost⟩

end Abacus
