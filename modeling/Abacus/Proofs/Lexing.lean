/-
**Texts and the tokens they spell.**

`Spells` says how a text is made up of tokens with separators between them. Tokens that stand side
by side can be told apart as long as no two integers meet (`Token.Separated`); then they need
nothing between them:

* `exists_tokenize_iff_spells`: a text is read as tokens exactly if it spells them;
* `tokenize_joined`: the text of separated tokens is read as these tokens.
-/

import Abacus.Token.Lexer

namespace Abacus

namespace Token

/-- An operator or a parenthesis, which may stand next to any token. -/
def IsSeparator (token : Token) : Prop :=
  ∃ symbol, ofSymbol? symbol = some token ∧ token.chars = [symbol]

theorem isSeparator_operator (op : Operator) : (operator op).IsSeparator :=
  ⟨op.symbol, by cases op <;> rfl, rfl⟩

theorem isSeparator_leftParen : leftParen.IsSeparator := ⟨'(', rfl, rfl⟩

theorem isSeparator_rightParen : rightParen.IsSeparator := ⟨')', rfl, rfl⟩

theorem not_isSeparator_integer (magnitude : UInt64) : ¬ (integer magnitude).IsSeparator := by
  rintro ⟨symbol, found, -⟩
  rcases ofSymbol?_eq_some_iff.mp found with ⟨op, ⟨⟩, -⟩ | ⟨⟨⟩, -⟩ | ⟨⟨⟩, -⟩

/-- No two integers side by side, and no place holders. -/
inductive Separated : List Token → Prop
  | nil : Separated []
  | integer (magnitude : UInt64) : Separated [.integer magnitude]
  | cons {token : Token} {tokens : List Token} :
      Separated tokens → token.IsSeparator → Separated (token :: tokens)
  | integerCons {token : Token} {tokens : List Token} (magnitude : UInt64) :
      Separated (token :: tokens) → token.IsSeparator →
      Separated (.integer magnitude :: token :: tokens)

/-- Separated lists with an operator or a parenthesis between them are separated. -/
theorem Separated.append {tokens more : List Token} {token : Token} (one : Separated tokens)
    (between : token.IsSeparator) (two : Separated more) :
    Separated (tokens ++ token :: more) := by
  induction one with
  | nil => exact .cons two between
  | integer magnitude => exact .integerCons magnitude (.cons two between) between
  | cons _ first ih => exact .cons ih first
  | integerCons magnitude _ first ih => exact .integerCons magnitude ih first

theorem Separated.tail {token : Token} {tokens : List Token}
    (separated : Separated (token :: tokens)) : Separated tokens := by
  cases separated with
  | integer magnitude => exact .nil
  | cons rest _ => exact rest
  | integerCons magnitude rest _ => exact rest

theorem not_separated_integers (magnitude other : UInt64) (tokens : List Token) :
    ¬ Separated (.integer magnitude :: .integer other :: tokens) := by
  intro separated
  cases separated with
  | cons _ first => exact not_isSeparator_integer magnitude first
  | integerCons _ _ next => exact not_isSeparator_integer other next

end Token

/-! ### Reading -/

/-- How a text is made up of tokens and of what may stand between them. An integer takes up all the
digits there are, with any number of zeros at their start. -/
inductive Spells : List Char → List Token → Prop
  | nil : Spells [] []
  | separator {c : Char} {text : List Char} {tokens : List Token} :
      isSeparator c → Spells text tokens → Spells (c :: text) tokens
  | symbol {c : Char} {token : Token} {text : List Char} {tokens : List Token} :
      Token.ofSymbol? c = some token → Spells text tokens → Spells (c :: text) (token :: tokens)
  | integer {first : Char} {digits text : List Char} {tokens : List Token}
      (digit : ∀ d ∈ first :: digits, d.isDigit) (ends : text.takeWhile Char.isDigit = [])
      (small : Nat.ofDigitChars 10 (first :: digits) 0 < UInt64.size) :
      Spells text tokens →
        Spells (first :: digits ++ text)
          (.integer (.ofNat (Nat.ofDigitChars 10 (first :: digits) 0)) :: tokens)

theorem isDigit_of_ofSymbol? {c : Char} {token : Token} (found : Token.ofSymbol? c = some token) :
    c.isDigit = false ∧ isSeparator c = false := by
  rcases Token.ofSymbol?_eq_some_iff.mp found with ⟨op, -, rfl⟩ | ⟨-, rfl⟩ | ⟨-, rfl⟩
  · cases op <;> decide
  · decide
  · decide

theorem isDigit_of_isSeparator {c : Char} (separator : isSeparator c) : c.isDigit = false := by
  cases digit : c.isDigit with
  | false => rfl
  | true =>
    simp only [isSeparator, Bool.or_eq_true, beq_iff_eq] at separator
    rcases separator with (((rfl | rfl) | rfl) | rfl) | rfl <;> exact absurd digit (by decide)

/-- An operator or a parenthesis is read by itself. -/
theorem scan_symbol {symbol : Char} {token : Token} (found : Token.ofSymbol? symbol = some token)
    (column : Nat) (rest : List Char) :
    scan column (symbol :: rest) = (do
      let lexemes ← scan (column + 1) rest
      return ⟨token, column⟩ :: lexemes) := by
  obtain ⟨notDigit, notSeparator⟩ := isDigit_of_ofSymbol? found
  rw [scan, if_neg (by rw [notDigit]; decide), if_neg (by rw [notSeparator]; decide)]
  split
  · rename_i same
    cases found.symm.trans same
    rfl
  · rename_i missing
    cases found.symm.trans missing

/-- An integer is read up to a character that is no digit. -/
theorem scan_digits {first : Char} {digits rest : List Char}
    (digit : ∀ d ∈ first :: digits, d.isDigit) (ends : rest.takeWhile Char.isDigit = [])
    (small : Nat.ofDigitChars 10 (first :: digits) 0 < UInt64.size) (column : Nat) :
    scan column (first :: digits ++ rest) = (do
      let lexemes ← scan (column + (first :: digits).length) rest
      return ⟨.integer (.ofNat (Nat.ofDigitChars 10 (first :: digits) 0)), column⟩ :: lexemes) := by
  obtain ⟨isDigit, later⟩ := List.forall_mem_cons.mp digit
  have taken : (digits ++ rest).takeWhile Char.isDigit = digits := by
    rw [List.takeWhile_append_of_pos later, ends, List.append_nil]
  have dropped : (digits ++ rest).dropWhile Char.isDigit = rest := by
    rw [List.dropWhile_append_of_pos later]
    have parts := List.takeWhile_append_dropWhile (p := Char.isDigit) (l := rest)
    rwa [ends] at parts
  rw [List.cons_append, scan, if_pos isDigit]
  simp only [taken, dropped]
  rw [if_pos small]

/-- A text that spells tokens is read as these tokens, wherever it starts. -/
theorem Spells.exists_scan {text : List Char} {tokens : List Token} (spells : Spells text tokens)
    (column : Nat) :
    ∃ lexemes, scan column text = .ok lexemes ∧ lexemes.map Lexeme.token = tokens := by
  induction spells generalizing column with
  | nil => exact ⟨[], by rw [scan], rfl⟩
  | @separator c text tokens separator _ ih =>
    obtain ⟨lexemes, read, same⟩ := ih (column + 1)
    refine ⟨lexemes, ?_, same⟩
    rw [scan, if_neg (by rw [isDigit_of_isSeparator separator]; decide), if_pos separator, read]
  | @symbol c token text tokens found _ ih =>
    obtain ⟨lexemes, read, same⟩ := ih (column + 1)
    refine ⟨⟨token, column⟩ :: lexemes, ?_, by rw [List.map_cons, same]⟩
    rw [scan_symbol found, read]
    rfl
  | @integer first digits text tokens digit ends small _ ih =>
    obtain ⟨lexemes, read, same⟩ := ih (column + (first :: digits).length)
    refine ⟨⟨.integer _, column⟩ :: lexemes, ?_, by rw [List.map_cons, same]⟩
    rw [scan_digits digit ends small, read]
    rfl

theorem takeWhile_dropWhile_eq_nil {α : Type} (p : α → Bool) (l : List α) :
    (l.dropWhile p).takeWhile p = [] := by
  induction l with
  | nil => rfl
  | cons a l ih => by_cases holds : p a <;> simp [holds, ih]

/-- A text that is read as tokens spells them. -/
theorem spells_of_scan {column : Nat} {text : List Char} {lexemes : List Lexeme}
    (read : scan column text = .ok lexemes) : Spells text (lexemes.map Lexeme.token) := by
  fun_induction scan column text generalizing lexemes with
  | case1 =>
    cases read
    exact .nil
  | case2 column c rest digit digits magnitude small =>
    rename_i ih
    obtain ⟨more, readMore, same⟩ := bind_eq_ok_iff.mp read
    cases same
    have whole := Spells.integer (isDigit_of_mem_digits digit) (takeWhile_dropWhile_eq_nil _ rest)
      small (ih readMore)
    rwa [digits_append_rest] at whole
  | case3 => cases read
  | case4 column c rest notDigit separator ih => exact .separator separator (ih read)
  | case5 column c rest notDigit notSeparator token found ih =>
    obtain ⟨more, readMore, same⟩ := bind_eq_ok_iff.mp read
    cases same
    exact .symbol found (ih readMore)
  | case6 => cases read

/-- **A text is read as tokens exactly if it spells them.** -/
theorem exists_tokenize_iff_spells {source : String} {tokens : List Token} :
    (∃ lexemes, tokenize source = .ok lexemes ∧ lexemes.map Lexeme.token = tokens) ↔
      Spells source.toList tokens := by
  constructor
  · rintro ⟨lexemes, read, rfl⟩
    exact spells_of_scan read
  · exact fun spells => spells.exists_scan 1

/-! ### Texts of tokens -/

/-- The text of an operator or a parenthesis starts with no digit. -/
theorem takeWhile_isDigit_of_isSeparator {token : Token} (separator : token.IsSeparator)
    (rest : List Char) : (token.chars ++ rest).takeWhile Char.isDigit = [] := by
  obtain ⟨symbol, found, chars⟩ := separator
  rw [chars, List.singleton_append, List.takeWhile_cons, (isDigit_of_ofSymbol? found).1]
  rfl

/-- The text of an integer spells it, up to a character that is no digit. -/
theorem Spells.magnitude (magnitude : UInt64) {text : List Char} {tokens : List Token}
    (ends : text.takeWhile Char.isDigit = []) (spells : Spells text tokens) :
    Spells ((Token.integer magnitude).chars ++ text) (.integer magnitude :: tokens) := by
  have value : Nat.ofDigitChars 10 (Token.integer magnitude).chars 0 = magnitude.toNat :=
    Nat.ofDigitChars_ten_toDigits
  have digits : ∀ d ∈ (Token.integer magnitude).chars, d.isDigit := fun d =>
    Token.isDigit_of_mem_toDigits
  cases shape : (Token.integer magnitude).chars with
  | nil => exact absurd shape Nat.toDigits_ne_nil
  | cons first more =>
    rw [shape] at digits value
    have whole := Spells.integer digits ends (value ▸ magnitude.toNat_lt) spells
    rwa [value, UInt64.ofNat_toNat] at whole

/-- Separated tokens are spelled by their texts side by side. -/
theorem Token.Separated.spells {tokens : List Token} (separated : Token.Separated tokens) :
    Spells (tokens.flatMap Token.chars) tokens := by
  induction separated with
  | nil => exact .nil
  | integer magnitude => exact .magnitude magnitude rfl .nil
  | @cons token tokens _ separator ih =>
    obtain ⟨symbol, found, chars⟩ := separator
    rw [List.flatMap_cons, chars]
    exact .symbol found ih
  | @integerCons token tokens magnitude _ separator ih =>
    have ends := takeWhile_isDigit_of_isSeparator separator (tokens.flatMap Token.chars)
    rw [← List.flatMap_cons] at ends
    rw [List.flatMap_cons]
    exact .magnitude magnitude ends ih

/-- **The text of separated tokens is read as these tokens.** -/
theorem tokenize_joined {tokens : List Token} (separated : Token.Separated tokens) :
    ∃ lexemes, tokenize (Token.joined tokens) = .ok lexemes ∧
      lexemes.map Lexeme.token = tokens := by
  rw [exists_tokenize_iff_spells, Token.joined, String.toList_ofList]
  exact separated.spells

end Abacus
