/-
**Evaluation is compositional on text.**

Texts in parentheses can be put together by operators, and their values with them: parentheses keep
the tokens on both sides apart, a minus sign inside of them belongs to the start of an expression,
and the left operand is evaluated before the right one.

* `Spells.append`: texts side by side spell their tokens one after the other;
* `Denotes`: what the tokens of a text are read as where a nonterminal is due, and how deep they are;
* `Denotes.group`, `Denotes.negate`, `Denotes.operation`: how a text is put together;
* `evaluate_composes`: the value of texts that are put together, or the kind of their error.
-/

import Abacus.Proofs.Diagnosis
import Abacus.Proofs.Rendering
import Abacus.Proofs.Columns

namespace Abacus

/-! ### Texts side by side -/

theorem takeWhile_append_eq_nil {α : Type} {p : α → Bool} {first rest : List α}
    (ends : first.takeWhile p = []) (endsRest : rest.takeWhile p = []) :
    (first ++ rest).takeWhile p = [] := by
  cases first with
  | nil => exact endsRest
  | cons a first => by_cases holds : p a <;> simp [holds] at ends ⊢

/-- **Texts side by side spell their tokens one after the other**, if the second does not start with
a digit, which an integer at the end of the first would take up. -/
theorem Spells.append {text rest : List Char} {tokens more : List Token}
    (spells : Spells text tokens) (behind : Spells rest more)
    (ends : rest.takeWhile Char.isDigit = []) : Spells (text ++ rest) (tokens ++ more) := by
  induction spells with
  | nil => exact behind
  | separator separator _ ih => exact .separator separator ih
  | symbol found _ ih => exact .symbol found ih
  | integer digit endsHere small _ ih =>
    rw [List.append_assoc]
    exact .integer digit (takeWhile_append_eq_nil endsHere ends) small ih

theorem takeWhile_isDigit_symbol {c : Char} {token : Token} (found : Token.ofSymbol? c = some token)
    (rest : List Char) : (c :: rest).takeWhile Char.isDigit = [] := by
  rw [List.takeWhile_cons, (isDigit_of_ofSymbol? found).1]
  rfl

/-- A character that is a token, between two texts. -/
theorem Spells.append_symbol {text rest : List Char} {tokens more : List Token} {c : Char}
    {token : Token} (spells : Spells text tokens) (found : Token.ofSymbol? c = some token)
    (behind : Spells rest more) : Spells (text ++ c :: rest) (tokens ++ token :: more) :=
  spells.append (.symbol found behind) (takeWhile_isDigit_symbol found rest)

/-! ### What a text denotes -/

open Grammar Abacus.Expr

theorem Grammar.Derivation.reads {symbol : Symbol} {lexemes : List Lexeme} {e : Expr}
    (derivation : Derivation symbol lexemes e) : Reads symbol (tokensOf lexemes) e.outcome := by
  intro lexemes' same
  obtain ⟨e', derives, sameExpr⟩ := derivation.recolumn lexemes' same
  exact ⟨e', derives, outcome_eq_of_withoutColumns_eq sameExpr⟩

/-- The tokens of the text are read with the outcome where the nonterminal is due, and open at most
as many groups at once. -/
def Denotes (symbol : Symbol) (depth : Nat) (text : List Char)
    (outcome : Except RuntimeError Int64) : Prop :=
  ∃ tokens, Spells text tokens ∧ Reads symbol tokens outcome ∧ Token.Balanced tokens ∧
    Token.nesting tokens ≤ depth

section Denotes

variable {symbol : Symbol} {depth : Nat} {text : List Char} {outcome : Except RuntimeError Int64}

/-- A text that is read as an expression denotes its outcome. -/
theorem denotes_of_parse {source : String} {e : Expr} (parsed : parse source = .ok e)
    (shallow : nesting source ≤ depth) : Denotes .expression depth source.toList e.outcome := by
  obtain ⟨lexemes, read, parsed⟩ := bind_eq_ok_iff.mp parsed
  obtain ⟨⟨derivation⟩, -⟩ := derivation_of_parseLexemes parsed
  rw [nesting_eq_of_tokenize read] at shallow
  exact ⟨tokensOf lexemes, spells_of_scan read, derivation.reads, derivation.balanced, shallow⟩

/-- A text that denotes an outcome is read as an expression with this outcome. -/
theorem Denotes.exists_parse {source : String}
    (denotes : Denotes .expression maxNesting source.toList outcome) :
    ∃ e, parse source = .ok e ∧ e.outcome = outcome := by
  obtain ⟨tokens, spells, reads, -, shallow⟩ := denotes
  obtain ⟨lexemes, read, rfl⟩ := exists_tokenize_iff_spells.mpr spells
  obtain ⟨e, ⟨derivation⟩, same⟩ := reads lexemes rfl
  refine ⟨e, ?_, same⟩
  rw [parse, read, ok_bind]
  exact parseLexemes_of_derivation derivation shallow _

/-- **A text in parentheses** denotes what it denotes without them, wherever it stands. -/
theorem Denotes.group (denotes : Denotes .expression depth text outcome) (symbol : Symbol) :
    Denotes symbol (depth + 1) ('(' :: (text ++ [')'])) outcome := by
  obtain ⟨tokens, spells, reads, balanced, shallow⟩ := denotes
  refine ⟨enclosed tokens, ?_, reads.group.ofAtom symbol, balanced.enclosed, ?_⟩
  · have closes : Token.ofSymbol? ')' = some .rightParen := rfl
    exact .symbol rfl (spells.append_symbol closes .nil)
  · have deeper : Token.nesting (enclosed tokens) = Token.nesting tokens + 1 :=
      balanced.nesting_enclosed
    rw [deeper]
    exact Nat.succ_le_succ shallow

/-- What a chain denotes, an expression denotes. -/
theorem Denotes.expression {tier : Tier}
    (denotes : Denotes (.chain tier .leading) depth text outcome) :
    Denotes .expression depth text outcome := by
  obtain ⟨tokens, spells, reads, rest⟩ := denotes
  refine ⟨tokens, spells, ?_, rest⟩
  cases tier with
  | power =>
    have product : Reads (.chain .product .leading) tokens outcome := .alone (reads.imp .base)
    exact .alone product
  | product => exact .alone reads
  | sum => exact reads

/-- **A minus sign before an atom** denotes its negation. -/
theorem Denotes.negate (denotes : Denotes .atom depth text outcome) :
    Denotes .expression depth ('-' :: text) (outcome >>= fun value => checkedNeg value 0) := by
  obtain ⟨tokens, spells, reads, balanced, shallow⟩ := denotes
  have power : Reads (.chain .power .leading) (.minus :: tokens) _ := .alone (reads.negate .signed)
  have whole : Denotes (.chain .power .leading) depth ('-' :: text) _ :=
    ⟨_, .symbol rfl spells, power, balanced.cons (Token.isPlain_operator .sub), shallow⟩
  exact whole.expression

/-- **An operator between two texts** denotes its operation: the left operand comes first. -/
theorem Denotes.operation {op : Operator} {right : List Char}
    {outcome' : Except RuntimeError Int64}
    (one : Denotes (.head op.tier .leading) depth text outcome)
    (two : Denotes (.operand op.tier) depth right outcome') :
    Denotes .expression depth (text ++ op.symbol :: right) (do
      let left ← outcome
      let right ← outcome'
      op.apply left right 0) := by
  obtain ⟨tokens, spells, reads, balanced, shallow⟩ := one
  obtain ⟨tokens', spells', reads', balanced', shallow'⟩ := two
  have found : Token.ofSymbol? op.symbol = some (.operator op) := by cases op <;> rfl
  have links := readsLinks_nil.cons rfl reads'
  rw [List.append_nil] at links
  have chain := reads.chain links
  have closed : Token.Balanced (.operator op :: tokens') :=
    balanced'.cons (Token.isPlain_operator op)
  have depths : Token.nesting (tokens ++ .operator op :: tokens') ≤ depth := by
    rw [balanced.nesting_append]
    exact Nat.max_le.mpr ⟨shallow, shallow'⟩
  have whole : Denotes (.chain op.tier .leading) depth (text ++ op.symbol :: right) _ :=
    ⟨_, spells.append_symbol found spells', chain, balanced.append closed, depths⟩
  have onward (result : Except RuntimeError Int64) :
      (do let value ← result; Except.ok value) = result := bind_pure result
  simpa only [onward] using whole.expression

end Denotes

/-! ### Values and kinds of errors -/

/-- The value of a text, or the kind of its error. -/
def valueOrKind (source : String) : Except ErrorKind Int64 :=
  (evaluate source).mapError Error.kind

theorem RuntimeError.kind_withoutColumn (error : RuntimeError) :
    error.withoutColumn.kind = error.kind := by
  cases error <;> rfl

theorem mapError_kind_withoutColumn {α : Type} (outcome : Except RuntimeError α) :
    (outcome.mapError RuntimeError.withoutColumn).mapError RuntimeError.kind =
      outcome.mapError RuntimeError.kind := by
  cases outcome with
  | ok value => rfl
  | error error => exact congrArg Except.error error.kind_withoutColumn

/-- The column of an operator takes no part in the kind of its error. -/
theorem kind_apply (op : Operator) (left right : Int64) (column : Nat) :
    (op.apply left right 0).mapError RuntimeError.kind =
      (op.apply left right column).mapError RuntimeError.kind := by
  rw [← apply_withoutColumn op left right column, mapError_kind_withoutColumn]

theorem kind_checkedNeg (value : Int64) (column : Nat) :
    (checkedNeg value 0).mapError RuntimeError.kind =
      (checkedNeg value column).mapError RuntimeError.kind := by
  rw [← checkedNeg_withoutColumn value column, mapError_kind_withoutColumn]

theorem valueOrKind_of_parse {source : String} {e : Expr} (parsed : parse source = .ok e) :
    valueOrKind source = e.outcome.mapError RuntimeError.kind := by
  rw [valueOrKind, evaluate_of_parse parsed, outcome, mapError_kind_withoutColumn]
  cases e.eval <;> rfl

theorem valueOrKind_of_denotes {source : String} {outcome : Except RuntimeError Int64}
    (denotes : Denotes .expression maxNesting source.toList outcome) :
    valueOrKind source = outcome.mapError RuntimeError.kind := by
  obtain ⟨e, parsed, rfl⟩ := denotes.exists_parse
  exact valueOrKind_of_parse parsed

theorem eq_ok_of_toOption {ε α : Type} {outcome : Except ε α} {value : α}
    (found : outcome.toOption = some value) : outcome = .ok value := by
  cases outcome with
  | ok other => exact congrArg Except.ok (Option.some.inj found)
  | error error => cases found

/-- **Evaluation is compositional on text.** For two texts that are read as expressions and leave
room for a group around them, an operator between them in parentheses gives its operation on their
values: the value, or the kind of the error of the left text, or else of the right text, or else of
the operation. Parentheses alone change nothing, and a minus sign before them negates. -/
theorem evaluate_composes {left right : String} {e e' : Expr} (parsed : parse left = .ok e)
    (parsed' : parse right = .ok e') (room : nesting left ≤ maxNesting - 1)
    (room' : nesting right ≤ maxNesting - 1) (op : Operator) (column : Nat) :
    valueOrKind ("(" ++ left ++ ")" ++ String.singleton op.symbol ++ "(" ++ right ++ ")") = (do
        let a ← valueOrKind left
        let b ← valueOrKind right
        (op.apply a b column).mapError RuntimeError.kind) ∧
      valueOrKind ("(" ++ left ++ ")") = valueOrKind left ∧
      valueOrKind ("-(" ++ left ++ ")") = (do
        let a ← valueOrKind left
        (checkedNeg a column).mapError RuntimeError.kind) := by
  have inside := denotes_of_parse parsed room
  have inside' := denotes_of_parse parsed' room'
  refine ⟨?_, ?_, ?_⟩
  · have whole := (inside.group (.head op.tier .leading)).operation (inside'.group _)
    have same : ("(" ++ left ++ ")" ++ String.singleton op.symbol ++ "(" ++ right ++ ")").toList =
        '(' :: (left.toList ++ [')']) ++ op.symbol :: '(' :: (right.toList ++ [')']) := by
      simp
    rw [← same] at whole
    rw [valueOrKind_of_denotes whole, valueOrKind_of_parse parsed, valueOrKind_of_parse parsed',
      mapError_bind]
    simp only [mapError_bind, kind_apply op _ _ column]
  · have whole := inside.group .expression
    have same : ("(" ++ left ++ ")").toList = '(' :: (left.toList ++ [')']) := by simp
    rw [← same] at whole
    rw [valueOrKind_of_denotes whole, valueOrKind_of_parse parsed]
  · have whole := (inside.group .atom).negate
    have same : ("-(" ++ left ++ ")").toList = '-' :: '(' :: (left.toList ++ [')']) := by simp
    rw [← same] at whole
    rw [valueOrKind_of_denotes whole, valueOrKind_of_parse parsed, mapError_bind]
    simp only [kind_checkedNeg _ column]

/-- The minus sign of `-2^2` belongs to the base in parentheses too, and a power of it is taken of
the whole text. -/
theorem evaluate_composes_of_square :
    valueOrKind "-2^2" = .ok 4 ∧ valueOrKind "(-2^2)^(2+1)" = .ok 64 ∧
      valueOrKind "(-2^2)" = .ok 4 ∧ valueOrKind "-(-2^2)" = .ok (-4) := by
  obtain ⟨e, parsed, -⟩ := exists_parse_of_test "-2^2" (fun _ => true) (by decide +kernel)
  obtain ⟨e', parsed', -⟩ := exists_parse_of_test "2+1" (fun _ => true) (by decide +kernel)
  have four : valueOrKind "-2^2" = .ok 4 := eq_ok_of_toOption (by decide +kernel)
  have three : valueOrKind "2+1" = .ok 3 := eq_ok_of_toOption (by decide +kernel)
  obtain ⟨power, alone, negated⟩ :=
    evaluate_composes parsed parsed' (by decide +kernel) (by decide +kernel) .pow 7
  rw [four, three] at power
  rw [four] at alone negated
  exact ⟨four, power, alone, negated⟩

end Abacus
