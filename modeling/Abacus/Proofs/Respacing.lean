/-
**Normalization never changes an expression.**

The blanks of a text that is read as tokens are the separators between them, and they matter only
between two integers. Spacing changes blanks next to operators only, so it keeps all tokens.
Compaction removes all blanks, and there are no two integers side by side in an expression.

* `respaceFrom`: spacing from any character of a text on, with what stands before it;
* `Spells.respaceFrom`, `Spells.compact`: spacing keeps the tokens of every text, compaction those
  of a text without two integers side by side;
* `normalization_keeps_expression`: the normalized forms of an expression are read as the same
  expression.
-/

import Abacus.Normalization
import Abacus.Proofs.Columns

namespace Abacus

/-! ### Blanks and tokens -/

theorem isBlank_of_isSeparator {c : Char} (separator : isSeparator c) : isBlank c = true := by
  simp only [isSeparator, Bool.or_eq_true, beq_iff_eq] at separator
  rcases separator with (((rfl | rfl) | rfl) | rfl) | rfl <;> rfl

theorem isBlank_of_isDigit {c : Char} (digit : c.isDigit) : isBlank c = false := by
  simp only [Char.isDigit, Bool.and_eq_true, decide_eq_true_eq, UInt32.le_iff_toNat_le] at digit
  have lower : 48 ≤ c.toNat := digit.1
  have upper : c.toNat ≤ 57 := digit.2
  simp only [isBlank, Bool.or_eq_false_iff, Bool.and_eq_false_iff, decide_eq_false_iff_not,
    beq_eq_false_iff_ne]
  omega

theorem isBlank_of_ofSymbol? {c : Char} {token : Token} (found : Token.ofSymbol? c = some token) :
    isBlank c = false := by
  rcases Token.ofSymbol?_eq_some_iff.mp found with ⟨op, -, rfl⟩ | ⟨-, rfl⟩ | ⟨-, rfl⟩
  · cases op <;> decide
  · decide
  · decide

/-! ### Spacing character by character -/

/-- The spaced form of what follows in a text after such a character. -/
def respaceFrom (before : Before) (text : List Char) : List Char :=
  (respacePieces before (Layout.ofChars text).tail (Layout.ofChars text).pieces).toChars

theorem spacing_eq_respaceFrom (text : String) :
    spacing text = String.ofList (respaceFrom .other text.toList) := rfl

namespace Layout

theorem ofChars_cons_of_blank {c : Char} (blank : isBlank c = true) (text : List Char) :
    ofChars (c :: text) = (ofChars text).prependBlank c := by
  rw [ofChars]
  exact if_pos blank

theorem ofChars_cons_of_not_blank {c : Char} (notBlank : isBlank c = false) (text : List Char) :
    ofChars (c :: text) = ⟨⟨[], c⟩ :: (ofChars text).pieces, (ofChars text).tail⟩ := by
  rw [ofChars]
  exact if_neg (by rw [notBlank]; decide)

end Layout

@[simp]
theorem respaceFrom_nil (before : Before) : respaceFrom before [] = [] := by
  simp [respaceFrom, Layout.ofChars, respacePieces, Layout.toChars]

/-- A character that is not blank stays; it has one space before it if it is a binary operator or
follows one. -/
theorem respaceFrom_cons_of_not_blank {c : Char} (notBlank : isBlank c = false) (before : Before)
    (text : List Char) :
    respaceFrom before (c :: text) =
      (if before = .binary ∨ before.next c = .binary then [' '] else []) ++
        c :: respaceFrom (before.next c) text := by
  rw [respaceFrom, Layout.ofChars_cons_of_not_blank notBlank, respacePieces, Piece.respace]
  split <;> simp [respaceFrom, Layout.toChars]

/-- A blank stays, or it is dropped where the rest starts with a space or is nothing. -/
theorem respaceFrom_cons_of_blank {c : Char} (blank : isBlank c = true) (before : Before)
    (text : List Char) :
    respaceFrom before (c :: text) = c :: respaceFrom before text ∨
      respaceFrom before (c :: text) = respaceFrom before text ∧
        (respaceFrom before text).takeWhile Char.isDigit = [] := by
  simp only [respaceFrom, Layout.ofChars_cons_of_blank blank]
  rcases Layout.ofChars text with ⟨_ | ⟨⟨gap, char⟩, pieces⟩, tail⟩
  · simp only [Layout.prependBlank, respacePieces, Layout.toChars]
    split
    · exact .inr ⟨rfl, rfl⟩
    · exact .inl rfl
  · simp only [Layout.prependBlank, respacePieces, Piece.respace, Layout.toChars]
    split
    · exact .inr ⟨rfl, rfl⟩
    · exact .inl rfl

/-- A digit is the end of an operand whatever stands before it. -/
theorem next_of_isDigit {c : Char} (digit : c.isDigit) (before : Before) :
    before.next c = .operand := by
  have notOperator : c ∉ spacedOperators := by
    intro member
    have noDigit : spacedOperators.all (fun operator => !operator.isDigit) = true := by decide
    exact absurd digit (by simpa using List.all_eq_true.mp noDigit c member)
  rw [Before.next, if_neg fun binary => notOperator binary.1, if_pos (.inl digit)]

/-- Digits behind an operand stay as they are. -/
theorem respaceFrom_digits {digits : List Char} (digit : ∀ d ∈ digits, d.isDigit)
    (text : List Char) :
    respaceFrom .operand (digits ++ text) = digits ++ respaceFrom .operand text := by
  induction digits with
  | nil => rfl
  | cons d digits ih =>
    obtain ⟨isDigit, later⟩ := List.forall_mem_cons.mp digit
    rw [List.cons_append, respaceFrom_cons_of_not_blank (isBlank_of_isDigit isDigit),
      next_of_isDigit isDigit, ih later]
    rfl

/-- No digit is moved up to an operand: where blanks are dropped, an operator follows them. -/
theorem takeWhile_isDigit_respaceFrom {text : List Char}
    (ends : text.takeWhile Char.isDigit = []) :
    (respaceFrom .operand text).takeWhile Char.isDigit = [] := by
  cases text with
  | nil => rw [respaceFrom_nil, List.takeWhile_nil]
  | cons c text =>
    have notDigit : c.isDigit = false := by
      cases digit : c.isDigit with
      | false => rfl
      | true => simp [digit] at ends
    cases blank : isBlank c with
    | false =>
      rw [respaceFrom_cons_of_not_blank blank]
      split <;> simp [notDigit]
    | true =>
      rcases respaceFrom_cons_of_blank blank .operand text with same | ⟨same, noDigit⟩
      · rw [same, List.takeWhile_cons, notDigit]
        rfl
      · rw [same, noDigit]

/-! ### Tokens are kept -/

theorem isSeparator_space : isSeparator ' ' = true := rfl

/-- **Spacing keeps the tokens of a text.** -/
theorem Spells.respaceFrom {text : List Char} {tokens : List Token} (spells : Spells text tokens)
    (before : Before) : Spells (respaceFrom before text) tokens := by
  induction spells generalizing before with
  | nil =>
    rw [respaceFrom_nil]
    exact .nil
  | separator separator _ ih =>
    rcases respaceFrom_cons_of_blank (isBlank_of_isSeparator separator) before _ with
      same | ⟨same, -⟩
    · rw [same]
      exact .separator separator (ih before)
    · rw [same]
      exact ih before
  | symbol found _ ih =>
    rw [respaceFrom_cons_of_not_blank (isBlank_of_ofSymbol? found)]
    split
    · exact .separator isSeparator_space (.symbol found (ih _))
    · exact .symbol found (ih _)
  | @integer first digits text tokens digit ends small _ ih =>
    obtain ⟨isDigit, later⟩ := List.forall_mem_cons.mp digit
    have whole := Spells.integer digit (takeWhile_isDigit_respaceFrom ends) small (ih .operand)
    rw [List.cons_append, respaceFrom_cons_of_not_blank (isBlank_of_isDigit isDigit),
      next_of_isDigit isDigit, respaceFrom_digits later]
    split
    · exact .separator isSeparator_space whole
    · exact whole

theorem filter_not_blank_digits {digits : List Char} (digit : ∀ d ∈ digits, d.isDigit)
    (text : List Char) :
    (digits ++ text).filter (fun c => !isBlank c) = digits ++ text.filter fun c => !isBlank c := by
  rw [List.filter_append, List.filter_eq_self.mpr]
  intro d member
  rw [isBlank_of_isDigit (digit d member)]
  rfl

/-- What comes behind an integer starts with no digit, also without its blanks. -/
theorem Spells.takeWhile_isDigit_compact {text : List Char} {tokens : List Token}
    (spells : Spells text tokens) {magnitude : UInt64}
    (separated : Token.Separated (.integer magnitude :: tokens)) :
    (text.filter fun c => !isBlank c).takeWhile Char.isDigit = [] := by
  induction spells with
  | nil => rfl
  | separator separator _ ih =>
    rw [List.filter_cons_of_neg (by rw [isBlank_of_isSeparator separator]; decide)]
    exact ih separated
  | symbol found _ _ =>
    rw [List.filter_cons_of_pos (by rw [isBlank_of_ofSymbol? found]; rfl), List.takeWhile_cons,
      (isDigit_of_ofSymbol? found).1]
    rfl
  | integer _ _ _ _ _ =>
    exact absurd separated (Token.not_separated_integers _ _ _)

/-- **Compaction keeps the tokens** of a text without two integers side by side. -/
theorem Spells.compact {text : List Char} {tokens : List Token} (spells : Spells text tokens)
    (separated : Token.Separated tokens) :
    Spells (text.filter fun c => !isBlank c) tokens := by
  induction spells with
  | nil => exact .nil
  | separator separator _ ih =>
    rw [List.filter_cons_of_neg (by rw [isBlank_of_isSeparator separator]; decide)]
    exact ih separated
  | symbol found _ ih =>
    rw [List.filter_cons_of_pos (by rw [isBlank_of_ofSymbol? found]; rfl)]
    exact .symbol found (ih separated.tail)
  | integer digit ends small spells ih =>
    rw [filter_not_blank_digits digit]
    exact .integer digit (spells.takeWhile_isDigit_compact separated) small (ih separated.tail)

/-! ### Texts -/

open Grammar Abacus.Expr

/-- The spaced form of a text has the same tokens. -/
theorem exists_tokenize_spacing {source : String} {lexemes : List Lexeme}
    (read : tokenize source = .ok lexemes) :
    ∃ lexemes', tokenize (spacing source) = .ok lexemes' ∧
      tokensOf lexemes' = tokensOf lexemes := by
  rw [exists_tokenize_iff_spells, spacing_eq_respaceFrom, String.toList_ofList]
  exact (spells_of_scan read).respaceFrom .other

theorem separated_of_parse {source : String} {lexemes : List Lexeme} {e : Expr}
    (parsed : parse source = .ok e) (read : tokenize source = .ok lexemes) :
    Token.Separated (tokensOf lexemes) := by
  rw [parse, read, ok_bind] at parsed
  obtain ⟨⟨derivation⟩, -⟩ := derivation_of_parseLexemes parsed
  exact derivation.separated

/-- The compact form of an expression has the same tokens. -/
theorem exists_tokenize_compact {source : String} {lexemes : List Lexeme} {e : Expr}
    (parsed : parse source = .ok e) (read : tokenize source = .ok lexemes) :
    ∃ lexemes', tokenize (compact source) = .ok lexemes' ∧
      tokensOf lexemes' = tokensOf lexemes := by
  rw [exists_tokenize_iff_spells, compact, String.toList_ofList]
  exact (spells_of_scan read).compact (separated_of_parse parsed read)

/-- **Normalization never changes an expression.** The spaced form of a text has the same tokens, if
it has tokens at all. The compact form of an expression, its spaced form and the spaced form of the
compact one are read as this expression, but for the columns; so they have its value, or its error
with the same cause and exponent. -/
theorem normalization_keeps_expression (source : String) :
    (∀ lexemes, tokenize source = .ok lexemes →
      ∃ lexemes', tokenize (spacing source) = .ok lexemes' ∧
        tokensOf lexemes' = tokensOf lexemes) ∧
      ∀ e, parse source = .ok e →
        ∀ text ∈ [compact source, spacing source, spacing (compact source)],
          ∃ e', parse text = .ok e' ∧ e'.withoutColumns = e.withoutColumns ∧
            e'.outcome = e.outcome := by
  refine ⟨fun lexemes => exists_tokenize_spacing, fun e parsed text member => ?_⟩
  obtain ⟨lexemes, read, -⟩ := bind_eq_ok_iff.mp parsed
  obtain ⟨spaced, readSpaced, sameSpaced⟩ := exists_tokenize_spacing read
  obtain ⟨compacted, readCompact, sameCompact⟩ := exists_tokenize_compact parsed read
  obtain ⟨both, readBoth, sameBoth⟩ := exists_tokenize_spacing readCompact
  have reparsed : ∃ e', parse text = .ok e' ∧ e'.withoutColumns = e.withoutColumns := by
    simp only [List.mem_cons, List.not_mem_nil, or_false] at member
    rcases member with rfl | rfl | rfl
    · exact parse_of_same_tokens parsed read readCompact sameCompact
    · exact parse_of_same_tokens parsed read readSpaced sameSpaced
    · exact parse_of_same_tokens parsed read readBoth (sameBoth.trans sameCompact)
  obtain ⟨e', parsed', same⟩ := reparsed
  exact ⟨e', parsed', same, outcome_eq_of_withoutColumns_eq same⟩

/-- Of the blanks in `07 *  ( -2- 4 )`, compaction and spacing together leave those around binary
operators. -/
theorem normalization_keeps_expression_of_blanks :
    spacing (compact "07 *  ( -2- 4 )") = "07 * (-2 - 4)" ∧
      ∃ lexemes e, tokenize "07 *  ( -2- 4 )" = .ok lexemes ∧
        parse "07 *  ( -2- 4 )" = .ok e ∧
        (∃ lexemes', tokenize (spacing "07 *  ( -2- 4 )") = .ok lexemes' ∧
          tokensOf lexemes' = tokensOf lexemes) ∧
        ∃ e', parse "07 * (-2 - 4)" = .ok e' ∧ e'.withoutColumns = e.withoutColumns ∧
          e'.outcome = e.outcome := by
  have spaced : spacing (compact "07 *  ( -2- 4 )") = "07 * (-2 - 4)" := by decide +kernel
  obtain ⟨e, parsed, -⟩ :=
    exists_parse_of_test "07 *  ( -2- 4 )" (fun _ => true) (by decide +kernel)
  obtain ⟨lexemes, read, -⟩ := bind_eq_ok_iff.mp parsed
  obtain ⟨keepsTokens, keepsExpression⟩ := normalization_keeps_expression "07 *  ( -2- 4 )"
  have reread := keepsExpression e parsed (spacing (compact "07 *  ( -2- 4 )")) (by simp)
  rw [spaced] at reread
  exact ⟨spaced, lexemes, e, read, parsed, keepsTokens lexemes read, reread⟩

end Abacus
