/-
**How deep parentheses are nested.**

`nesting` is the greatest number of parentheses that are open at once in a text, `Token.nesting` the
same of a list of tokens. The two agree on a text and its tokens:

* `nesting_joined`: a text made of tokens;
* `nesting_eq_of_tokenize`: a text that is read as tokens.

A list is `Balanced` when it closes what it opens; balanced lists side by side are as deep as the
deeper of them (`Balanced.nesting_append`), parentheses around one add a level
(`Balanced.nesting_enclosed`).
-/

import Abacus.Expr.Text
import Abacus.Token.Lexer

namespace Abacus

/-- The nesting of parentheses in a text, `depth` of which are open before it. -/
def nestingFrom (depth : Nat) : List Char → Nat
  | [] => depth
  | c :: rest =>
    if c = '(' then nestingFrom (depth + 1) rest
    else if c = ')' then max depth (nestingFrom (depth - 1) rest)
    else nestingFrom depth rest

/-- The greatest number of parentheses that are open at once in a text. -/
def nesting (text : String) : Nat := nestingFrom 0 text.toList

namespace Token

/-- The nesting of parentheses in a list of tokens, `depth` of which are open before it. -/
def nestingFrom (depth : Nat) : List Token → Nat
  | [] => depth
  | .leftParen :: rest => nestingFrom (depth + 1) rest
  | .rightParen :: rest => max depth (nestingFrom (depth - 1) rest)
  | .integer _ :: rest | .operator _ :: rest | .blank :: rest => nestingFrom depth rest

/-- The greatest number of parentheses that are open at once in a list of tokens. -/
def nesting (tokens : List Token) : Nat := nestingFrom 0 tokens

theorem le_nestingFrom (depth : Nat) (tokens : List Token) : depth ≤ nestingFrom depth tokens := by
  fun_induction nestingFrom depth tokens with
  | case1 => exact Nat.le_refl _
  | case2 depth rest ih => exact Nat.le_of_succ_le ih
  | case3 depth rest ih => exact Nat.le_max_left ..
  | case4 depth _ rest ih => exact ih
  | case5 depth _ rest ih => exact ih
  | case6 depth rest ih => exact ih

/-! ### Balanced lists -/

/-- The list closes the parentheses that it opens, and only these. -/
def Balanced (tokens : List Token) : Prop :=
  ∀ depth rest, nestingFrom depth (tokens ++ rest) =
    max (depth + nesting tokens) (nestingFrom depth rest)

/-- A token other than a parenthesis. -/
def IsPlain (token : Token) : Prop := token ≠ .leftParen ∧ token ≠ .rightParen

theorem IsPlain.nestingFrom_cons {token : Token} (plain : token.IsPlain) (depth : Nat)
    (rest : List Token) :
    Token.nestingFrom depth (token :: rest) = Token.nestingFrom depth rest := by
  cases token with
  | leftParen => exact absurd rfl plain.1
  | rightParen => exact absurd rfl plain.2
  | integer _ => rfl
  | operator _ => rfl
  | blank => rfl

theorem isPlain_integer (magnitude : UInt64) : (integer magnitude).IsPlain := ⟨nofun, nofun⟩

theorem isPlain_operator (op : Operator) : (operator op).IsPlain := ⟨nofun, nofun⟩

namespace Balanced

variable {tokens more : List Token} {token : Token}

theorem nil : Balanced [] := by
  intro depth rest
  have := le_nestingFrom depth rest
  show nestingFrom depth rest = max depth (nestingFrom depth rest)
  omega

theorem nesting_append (one : Balanced tokens) :
    nesting (tokens ++ more) = max (nesting tokens) (nesting more) := by
  have whole := one 0 more
  rwa [Nat.zero_add] at whole

theorem append (one : Balanced tokens) (two : Balanced more) : Balanced (tokens ++ more) := by
  intro depth rest
  rw [List.append_assoc, one, two, one.nesting_append]
  omega

theorem nesting_cons (plain : token.IsPlain) : nesting (token :: tokens) = nesting tokens :=
  plain.nestingFrom_cons 0 tokens

theorem cons (plain : token.IsPlain) (balanced : Balanced tokens) : Balanced (token :: tokens) := by
  intro depth rest
  rw [List.cons_append, plain.nestingFrom_cons, balanced, nesting_cons plain]

theorem nestingFrom_enclosed (balanced : Balanced tokens) (depth : Nat) (rest : List Token) :
    nestingFrom depth (.leftParen :: (tokens ++ .rightParen :: rest)) =
      max (depth + (nesting tokens + 1)) (nestingFrom depth rest) := by
  show nestingFrom (depth + 1) (tokens ++ .rightParen :: rest) = _
  rw [balanced]
  show max _ (max (depth + 1) (nestingFrom depth rest)) = _
  omega

theorem nesting_enclosed (balanced : Balanced tokens) :
    nesting (.leftParen :: (tokens ++ [.rightParen])) = nesting tokens + 1 := by
  have whole := balanced.nestingFrom_enclosed 0 []
  rw [Nat.zero_add] at whole
  exact whole.trans (Nat.max_eq_left (Nat.zero_le _))

theorem enclosed (balanced : Balanced tokens) :
    Balanced (.leftParen :: (tokens ++ [.rightParen])) := by
  intro depth rest
  rw [List.cons_append, List.append_assoc, List.singleton_append, balanced.nestingFrom_enclosed,
    balanced.nesting_enclosed]

theorem singleton (plain : token.IsPlain) : Balanced [token] := nil.cons plain

end Balanced

end Token

/-! ### The tokens of expressions -/

namespace Expr

open Token (Balanced isPlain_integer isPlain_operator)

theorem balanced_ofValue (value : Int64) : Balanced (Token.ofValue value) := by
  have magnitude : Balanced [Token.integer (.ofNat value.toInt.natAbs)] :=
    .singleton (isPlain_integer _)
  unfold Token.ofValue
  split
  · exact magnitude.cons (isPlain_operator .sub)
  · exact magnitude

theorem nesting_ofValue (value : Int64) : Token.nesting (Token.ofValue value) = 0 := by
  unfold Token.ofValue
  split <;> rfl

theorem balanced_ite_enclosed {tokens : List Token} (balanced : Balanced tokens) (needed : Bool) :
    Balanced (if needed then enclosed tokens else tokens) := by
  cases needed with
  | true => exact balanced.enclosed
  | false => exact balanced

mutual

/-- The text of an expression closes the parentheses that it opens. -/
theorem balanced_tokens : ∀ e : Expr, Balanced e.tokens
  | literal value _ => balanced_ofValue value
  | group inner _ => (balanced_tokens inner).enclosed
  | negate operand _ =>
    (balanced_ite_enclosed (balanced_tokens operand) _).cons (isPlain_operator .sub)
  | chain head links =>
    (balanced_ite_enclosed (balanced_tokens head) _).append (balanced_linksTokens links)

theorem balanced_linksTokens : ∀ links : List (Link Expr), Balanced (linksTokens links)
  | [] => .nil
  | ⟨op, operand, _⟩ :: links =>
    ((balanced_tokens operand).append (balanced_linksTokens links)).cons (isPlain_operator op)

end

end Expr

/-! ### Texts and their tokens -/

theorem nestingFrom_append_of_plain {chars : List Char}
    (plain : ∀ c ∈ chars, c ≠ '(' ∧ c ≠ ')') (depth : Nat) (rest : List Char) :
    nestingFrom depth (chars ++ rest) = nestingFrom depth rest := by
  induction chars with
  | nil => rfl
  | cons c chars ih =>
    obtain ⟨notOpen, notClose⟩ := plain c List.mem_cons_self
    rw [List.cons_append, nestingFrom, if_neg notOpen, if_neg notClose]
    exact ih fun c member => plain c (List.mem_cons_of_mem _ member)

theorem ne_paren_of_isDigit {c : Char} (digit : c.isDigit) : c ≠ '(' ∧ c ≠ ')' := by
  constructor <;> (rintro rfl; exact absurd digit (by decide))

theorem ne_paren_of_isSeparator {c : Char} (separator : isSeparator c) : c ≠ '(' ∧ c ≠ ')' := by
  constructor <;> (rintro rfl; exact absurd separator (by decide))

theorem ne_paren_symbol (op : Operator) : op.symbol ≠ '(' ∧ op.symbol ≠ ')' := by
  cases op <;> decide

/-- The parentheses in the text of a token are the token itself. -/
theorem nestingFrom_chars (token : Token) (depth : Nat) (rest : List Char) (tokens : List Token)
    (same : ∀ depth, nestingFrom depth rest = Token.nestingFrom depth tokens) :
    nestingFrom depth (token.chars ++ rest) = Token.nestingFrom depth (token :: tokens) := by
  cases token with
  | integer magnitude =>
    rw [Token.chars, nestingFrom_append_of_plain, same]
    · rfl
    · intro c member
      exact ne_paren_of_isDigit (Token.isDigit_of_mem_toDigits member)
  | operator op =>
    rw [Token.chars, nestingFrom_append_of_plain, same]
    · rfl
    · intro c member
      rw [List.mem_singleton.mp member]
      exact ne_paren_symbol op
  | leftParen => exact same (depth + 1)
  | rightParen => exact congrArg (max depth) (same (depth - 1))
  | blank => exact same depth

/-- A text made of tokens is as deep as the tokens. -/
theorem nesting_joined (tokens : List Token) :
    nesting (Token.joined tokens) = Token.nesting tokens := by
  have every : ∀ depth, nestingFrom depth (tokens.flatMap Token.chars) =
      Token.nestingFrom depth tokens := by
    induction tokens with
    | nil => exact fun _ => rfl
    | cons token tokens ih =>
      intro depth
      rw [List.flatMap_cons]
      exact nestingFrom_chars token depth _ tokens ih
  rw [nesting, Token.joined, String.toList_ofList]
  exact every 0

theorem nestingFrom_eq_of_scan {column : Nat} {text : List Char} {lexemes : List Lexeme}
    (read : scan column text = .ok lexemes) (depth : Nat) :
    nestingFrom depth text = Token.nestingFrom depth (lexemes.map Lexeme.token) := by
  fun_induction scan column text generalizing lexemes depth with
  | case1 =>
    cases read
    rfl
  | case2 column c rest digit digits magnitude small =>
    rename_i ih
    obtain ⟨more, readMore, same⟩ := bind_eq_ok_iff.mp read
    cases same
    rw [← digits_append_rest, nestingFrom_append_of_plain fun d member =>
      ne_paren_of_isDigit (isDigit_of_mem_digits digit d member)]
    exact ih readMore depth
  | case3 => cases read
  | case4 column c rest notDigit separator ih =>
    have plain := ne_paren_of_isSeparator separator
    rw [nestingFrom, if_neg plain.1, if_neg plain.2]
    exact ih read depth
  | case5 column c rest notDigit notSeparator token found ih =>
    obtain ⟨more, readMore, same⟩ := bind_eq_ok_iff.mp read
    cases same
    have same := nestingFrom_chars token depth rest (more.map Lexeme.token) (ih readMore)
    rwa [Token.chars_of_ofSymbol? found] at same
  | case6 => cases read

/-- A text is as deep as the tokens it is read as. -/
theorem nesting_eq_of_tokenize {source : String} {lexemes : List Lexeme}
    (read : tokenize source = .ok lexemes) :
    nesting source = Token.nesting (lexemes.map Lexeme.token) :=
  nestingFrom_eq_of_scan read 0

end Abacus
