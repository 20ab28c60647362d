/-
**What stands at a column of a text.**

Columns count the characters of a text from one. Every token of a text stands there at its column:
a symbol as its character, an integer as all the digits there are (`TokenAt`). If a text is not read
as tokens, a character that starts no token stands at the column of the fault, or digits whose value
no token has (`ScanFault`).

* `ReadTo`: what is known where reading has come to, kept by every step of it;
* `tokenAt_of_tokenize`, `scanFault_of_tokenize`: where tokens and faults stand;
* `unmatched`: the columns of the parentheses that nothing closes, which the tokens tell as well
  (`unmatched_eq_of_tokenize`).
-/

import Abacus.Proofs.Nesting

namespace Abacus

/-! ### Characters, digits and tokens -/

/-- The character stands in the text at the column. -/
def CharAt (text : List Char) (column : Nat) (c : Char) : Prop :=
  ∃ before after, text = before ++ c :: after ∧ column = before.length + 1

/-- The digits stand in the text at the column, with no digit before or behind them. -/
def DigitsAt (text : List Char) (column : Nat) (digits : List Char) : Prop :=
  ∃ before after, text = before ++ (digits ++ after) ∧ column = before.length + 1 ∧
    digits ≠ [] ∧ (∀ c ∈ digits, c.isDigit = true) ∧
    (∀ c ∈ before.getLast?, c.isDigit = false) ∧ ∀ c ∈ after.head?, c.isDigit = false

/-- The token stands in the text at the column: an integer as a whole run of digits, which may start
with zeros, any other token as the character it is written with. -/
inductive TokenAt (text : List Char) (column : Nat) : Token → Prop
  | integer {digits : List Char} {magnitude : UInt64} (stands : DigitsAt text column digits)
      (value : Nat.ofDigitChars 10 digits 0 = magnitude.toNat) :
      TokenAt text column (.integer magnitude)
  | symbol {c : Char} {token : Token} (written : Token.ofSymbol? c = some token)
      (stands : CharAt text column c) : TokenAt text column token

/-- Why a text is not read as tokens, and what stands at the column of the fault. -/
inductive ScanFault (text : List Char) : ParseError → Prop
  | unknown {column : Nat} {c : Char} (stands : CharAt text column c) (notDigit : ¬ c.isDigit)
      (notSeparator : ¬ isSeparator c) (notSymbol : Token.ofSymbol? c = none) :
      ScanFault text (.unexpectedToken (String.singleton c) column)
  | tooLarge {column : Nat} {digits : List Char} (stands : DigitsAt text column digits)
      (large : UInt64.size ≤ Nat.ofDigitChars 10 digits 0) :
      ScanFault text (.literalTooLarge column)

section At

variable {text : List Char} {column : Nat}

theorem CharAt.bounds {c : Char} (stands : CharAt text column c) :
    1 ≤ column ∧ column ≤ text.length := by
  obtain ⟨before, after, rfl, rfl⟩ := stands
  rw [List.length_append, List.length_cons]
  omega

theorem DigitsAt.bounds {digits : List Char} (stands : DigitsAt text column digits) :
    1 ≤ column ∧ column ≤ text.length := by
  obtain ⟨before, after, rfl, rfl, nonempty, -⟩ := stands
  have := List.length_pos_iff.mpr nonempty
  rw [List.length_append, List.length_append]
  omega

theorem TokenAt.bounds {token : Token} (stands : TokenAt text column token) :
    1 ≤ column ∧ column ≤ text.length := by
  cases stands with
  | integer stands _ => exact stands.bounds
  | symbol _ stands => exact stands.bounds

theorem TokenAt.operator {op : Operator} (stands : TokenAt text column (.operator op)) :
    CharAt text column op.symbol := by
  cases stands with
  | symbol written stands =>
    rcases Token.ofSymbol?_eq_some_iff.mp written with ⟨_, ⟨⟩, rfl⟩ | ⟨⟨⟩, -⟩ | ⟨⟨⟩, -⟩
    exact stands

theorem TokenAt.leftParen (stands : TokenAt text column .leftParen) : CharAt text column '(' := by
  cases stands with
  | symbol written stands =>
    rcases Token.ofSymbol?_eq_some_iff.mp written with ⟨_, ⟨⟩, -⟩ | ⟨-, rfl⟩ | ⟨⟨⟩, -⟩
    exact stands

theorem TokenAt.digits {magnitude : UInt64} (stands : TokenAt text column (.integer magnitude)) :
    ∃ digits, DigitsAt text column digits ∧
      Nat.ofDigitChars 10 digits 0 = magnitude.toNat := by
  cases stands with
  | integer stands value => exact ⟨_, stands, value⟩
  | symbol written _ =>
    rcases Token.ofSymbol?_eq_some_iff.mp written with ⟨_, ⟨⟩, -⟩ | ⟨⟨⟩, -⟩ | ⟨⟨⟩, -⟩

end At

/-! ### Reading from left to right -/

/-- Reading has come to the column, where the rest of the text starts; a run of digits does not go
across the column. -/
def ReadTo (text : List Char) (column : Nat) (rest : List Char) : Prop :=
  ∃ before, text = before ++ rest ∧ column = before.length + 1 ∧
    ((∀ c ∈ before.getLast?, c.isDigit = false) ∨ ∀ c ∈ rest.head?, c.isDigit = false)

theorem readTo_start (text : List Char) : ReadTo text 1 text := ⟨[], rfl, rfl, .inl nofun⟩

section Scan

variable {text rest : List Char} {column : Nat} {c : Char}

theorem ReadTo.charAt (readTo : ReadTo text column (c :: rest)) : CharAt text column c := by
  obtain ⟨before, split, here, -⟩ := readTo
  exact ⟨before, rest, split, here⟩

theorem ReadTo.step (readTo : ReadTo text column (c :: rest)) (notDigit : ¬ c.isDigit) :
    ReadTo text (column + 1) rest := by
  obtain ⟨before, rfl, rfl, -⟩ := readTo
  refine ⟨before ++ [c], (List.append_cons ..).symm ▸ rfl, by simp, .inl fun d last => ?_⟩
  rw [List.getLast?_concat] at last
  cases last
  exact Bool.eq_false_iff.mpr notDigit

theorem not_isDigit_behind_digits (rest : List Char) :
    ∀ d ∈ (rest.dropWhile Char.isDigit).head?, d.isDigit = false := by
  intro d first
  have stops := List.head?_dropWhile_not Char.isDigit rest
  rw [first] at stops
  exact stops

/-- A digit that reading comes to starts a whole run of digits. -/
theorem ReadTo.digitsAt (readTo : ReadTo text column (c :: rest)) (digit : c.isDigit) :
    DigitsAt text column (c :: rest.takeWhile Char.isDigit) := by
  obtain ⟨before, rfl, here, boundary⟩ := readTo
  refine ⟨before, rest.dropWhile Char.isDigit, ?_, here, List.cons_ne_nil _ _, ?_, ?_,
    not_isDigit_behind_digits rest⟩
  · rw [digits_append_rest]
  · exact isDigit_of_mem_digits digit
  · refine boundary.resolve_right fun ends => ?_
    cases digit.symm.trans (ends c rfl)

theorem ReadTo.skip (readTo : ReadTo text column (c :: rest)) :
    ReadTo text (column + (c :: rest.takeWhile Char.isDigit).length)
      (rest.dropWhile Char.isDigit) := by
  obtain ⟨before, rfl, rfl, -⟩ := readTo
  refine ⟨before ++ c :: rest.takeWhile Char.isDigit, ?_, ?_,
    .inr (not_isDigit_behind_digits rest)⟩
  · rw [List.append_assoc, digits_append_rest]
  · rw [List.length_append, Nat.add_right_comm]

/-- **The tokens of a text stand in it at their columns.** -/
theorem tokenAt_of_scan {lexemes : List Lexeme} (read : scan column rest = .ok lexemes)
    (readTo : ReadTo text column rest) :
    ∀ lexeme ∈ lexemes, TokenAt text lexeme.column lexeme.token := by
  fun_induction scan column rest generalizing lexemes with
  | case1 =>
    cases read
    exact List.forall_mem_nil _
  | case2 column c rest digit digits magnitude small =>
    rename_i ih
    obtain ⟨more, readMore, same⟩ := bind_eq_ok_iff.mp read
    cases same
    have value : magnitude = (UInt64.ofNat magnitude).toNat :=
      (UInt64.toNat_ofNat_of_lt' small).symm
    exact List.forall_mem_cons.mpr
      ⟨.integer (readTo.digitsAt digit) value, ih readMore readTo.skip⟩
  | case3 => cases read
  | case4 column c rest notDigit separator ih => exact ih read (readTo.step notDigit)
  | case5 column c rest notDigit notSeparator token found ih =>
    obtain ⟨more, readMore, same⟩ := bind_eq_ok_iff.mp read
    cases same
    exact List.forall_mem_cons.mpr
      ⟨.symbol found readTo.charAt, ih readMore (readTo.step notDigit)⟩
  | case6 => cases read

theorem scanFault_of_scan {error : ParseError} (failed : scan column rest = .error error)
    (readTo : ReadTo text column rest) : ScanFault text error := by
  fun_induction scan column rest with
  | case1 => cases failed
  | case2 column c rest digit digits magnitude small =>
    rename_i ih
    cases read : scan (column + digits.length) (rest.dropWhile Char.isDigit) with
    | error cause =>
      rw [read] at failed
      cases failed
      exact ih read readTo.skip
    | ok lexemes =>
      rw [read] at failed
      cases failed
  | case3 column c rest digit digits magnitude large =>
    cases failed
    exact .tooLarge (readTo.digitsAt digit) (Nat.le_of_not_lt large)
  | case4 column c rest notDigit separator ih => exact ih failed (readTo.step notDigit)
  | case5 column c rest notDigit notSeparator token found ih =>
    cases read : scan (column + 1) rest with
    | error cause =>
      rw [read] at failed
      cases failed
      exact ih read (readTo.step notDigit)
    | ok lexemes =>
      rw [read] at failed
      cases failed
  | case6 column c rest notDigit notSeparator missing =>
    cases failed
    exact .unknown readTo.charAt notDigit notSeparator missing

end Scan

theorem tokenAt_of_tokenize {source : String} {lexemes : List Lexeme}
    (read : tokenize source = .ok lexemes) :
    ∀ lexeme ∈ lexemes, TokenAt source.toList lexeme.column lexeme.token :=
  tokenAt_of_scan read (readTo_start _)

theorem scanFault_of_tokenize {source : String} {error : ParseError}
    (failed : tokenize source = .error error) : ScanFault source.toList error :=
  scanFault_of_scan failed (readTo_start _)

/-! ### Parentheses that nothing closes -/

/-- The columns of the parentheses that are open behind a text, the innermost first, if those in
`opened` are before it. -/
def unmatchedFrom (column : Nat) (opened : List Nat) : List Char → List Nat
  | [] => opened
  | c :: rest =>
    if c = '(' then unmatchedFrom (column + 1) (column :: opened) rest
    else if c = ')' then unmatchedFrom (column + 1) opened.tail rest
    else unmatchedFrom (column + 1) opened rest

/-- The columns of the opening parentheses of a text that no other parenthesis closes, the innermost
first. -/
def unmatched (text : List Char) : List Nat := unmatchedFrom 1 [] text

/-- The parentheses that are open behind a token. -/
def openBehind (opened : List Nat) (lexeme : Lexeme) : List Nat :=
  match lexeme.token with
  | .leftParen => lexeme.column :: opened
  | .rightParen => opened.tail
  | .integer _ | .operator _ | .blank => opened

theorem unmatchedFrom_append_of_plain {chars : List Char}
    (plain : ∀ c ∈ chars, c ≠ '(' ∧ c ≠ ')') (column : Nat) (opened : List Nat)
    (rest : List Char) :
    unmatchedFrom column opened (chars ++ rest) =
      unmatchedFrom (column + chars.length) opened rest := by
  induction chars generalizing column with
  | nil => rfl
  | cons c chars ih =>
    obtain ⟨⟨notOpen, notClose⟩, later⟩ := List.forall_mem_cons.mp plain
    rw [List.cons_append, unmatchedFrom, if_neg notOpen, if_neg notClose, ih later,
      List.length_cons, Nat.add_right_comm, Nat.add_assoc]

/-- A text leaves open what its tokens leave open. -/
theorem unmatchedFrom_of_scan {column : Nat} {text : List Char} {lexemes : List Lexeme}
    (read : scan column text = .ok lexemes) (opened : List Nat) :
    unmatchedFrom column opened text = lexemes.foldl openBehind opened := by
  fun_induction scan column text generalizing lexemes opened with
  | case1 =>
    cases read
    rfl
  | case2 column c rest digit digits magnitude small =>
    rename_i ih
    obtain ⟨more, readMore, same⟩ := bind_eq_ok_iff.mp read
    cases same
    rw [← digits_append_rest, unmatchedFrom_append_of_plain fun d member =>
      ne_paren_of_isDigit (isDigit_of_mem_digits digit d member)]
    exact ih readMore opened
  | case3 => cases read
  | case4 column c rest notDigit separator ih =>
    have plain := ne_paren_of_isSeparator separator
    rw [unmatchedFrom, if_neg plain.1, if_neg plain.2]
    exact ih read opened
  | case5 column c rest notDigit notSeparator token found ih =>
    obtain ⟨more, readMore, same⟩ := bind_eq_ok_iff.mp read
    cases same
    rcases Token.ofSymbol?_eq_some_iff.mp found with ⟨op, rfl, rfl⟩ | ⟨rfl, rfl⟩ | ⟨rfl, rfl⟩
    · have plain := ne_paren_symbol op
      rw [unmatchedFrom, if_neg plain.1, if_neg plain.2]
      exact ih readMore opened
    · exact ih readMore (column :: opened)
    · exact ih readMore opened.tail
  | case6 => cases read

theorem unmatched_eq_of_tokenize {source : String} {lexemes : List Lexeme}
    (read : tokenize source = .ok lexemes) :
    unmatched source.toList = lexemes.foldl openBehind [] :=
  unmatchedFrom_of_scan read []

end Abacus
