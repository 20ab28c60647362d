/-
**Reading a text is exact.**

A text is read as tokens exactly if it has no other characters than digits, symbols and separators
and no number that is too large. The tokens are then those that stand in the text, at increasing
columns; otherwise the leftmost fault is reported. Whatever starts a token, or is a fault, stands at
a place where reading comes to if it does not fail before (`ComesTo`).

* `comesTo_of_begins`: reading comes to every place where a token may begin;
* `TokenAt.comesTo`, `ScanFault.comesTo`: tokens and faults begin at such places;
* `SpelledApart`: texts of tokens with separators between each two of them;
* `tokenize_exact`: what a text is read as.
-/

import Abacus.Proofs.Position
import Abacus.Proofs.SourceOrder
import Mathlib.Data.List.TakeWhile

namespace Abacus

/-- The characters of operators and parentheses. -/
def symbols : List Char := ['+', '-', '*', '/', '%', '^', '(', ')']

/-- The characters that may stand between tokens. -/
def separators : List Char := [' ', '\t', '\x0c', '\r', '\n']

theorem mem_separators_iff {c : Char} : c ∈ separators ↔ isSeparator c = true := by
  simp [separators, isSeparator, or_assoc]

theorem mem_symbols_iff {c : Char} : c ∈ symbols ↔ ∃ token, Token.ofSymbol? c = some token := by
  constructor
  · intro member
    simp only [symbols, List.mem_cons, List.not_mem_nil, or_false] at member
    rcases member with rfl | rfl | rfl | rfl | rfl | rfl | rfl | rfl <;> exact ⟨_, rfl⟩
  · rintro ⟨token, found⟩
    rcases Token.ofSymbol?_eq_some_iff.mp found with ⟨op, -, rfl⟩ | ⟨-, rfl⟩ | ⟨-, rfl⟩
    · cases op <;> decide
    · decide
    · decide

/-! ### Where reading comes to -/

/-- Reading a text comes to a place, where the rest of it starts, or it fails before. -/
def ComesTo (column : Nat) (text : List Char) (place : Nat) (rest : List Char) : Prop :=
  (∃ front, scan column text = (do let lexemes ← scan place rest; return front ++ lexemes)) ∨
    ∃ error earlier, scan column text = .error error ∧ error.column? = some earlier ∧
      earlier < place

section ComesTo

variable {column place column' : Nat} {text rest text' : List Char}

theorem ComesTo.refl (column : Nat) (text : List Char) : ComesTo column text column text := by
  refine .inl ⟨[], ?_⟩
  cases scan column text <;> rfl

/-- Reading goes on behind one token, or behind none. -/
theorem ComesTo.behind (front : List Lexeme)
    (read : scan column text = (do let lexemes ← scan column' text'; return front ++ lexemes))
    (comesTo : ComesTo column' text' place rest) : ComesTo column text place rest := by
  rcases comesTo with ⟨more, readMore⟩ | ⟨error, earlier, failed, here, before⟩
  · refine .inl ⟨front ++ more, ?_⟩
    rw [read, readMore]
    cases scan place rest with
    | error cause => rfl
    | ok lexemes => exact congrArg Except.ok (List.append_assoc ..).symm
  · refine .inr ⟨error, earlier, ?_, here, before⟩
    rw [read, failed]
    rfl

end ComesTo

/-- What begins with the character behind the text is no separator and not the rest of a run of
digits. -/
def Begins (before : List Char) (c : Char) : Prop :=
  isSeparator c = false ∧ (c.isDigit = true → ∀ d ∈ before.getLast?, d.isDigit = false)

section Begins

variable {before rest : List Char} {c d : Char}

theorem Begins.of_suffix (begins : Begins before c) (suffix : rest <:+ before) : Begins rest c := by
  obtain ⟨front, rfl⟩ := suffix
  refine ⟨begins.1, fun digit d last => begins.2 digit d ?_⟩
  rw [List.getLast?_append, Option.mem_def.mp last]
  rfl

/-- A run of digits ends before something else begins. -/
theorem Begins.run (begins : Begins (d :: before) c) (digit : d.isDigit) (after : List Char) :
    (before ++ c :: after).takeWhile Char.isDigit = before.takeWhile Char.isDigit ∧
      (before ++ c :: after).dropWhile Char.isDigit =
        before.dropWhile Char.isDigit ++ c :: after := by
  by_cases all : ∀ e ∈ before, e.isDigit
  · have allDigits : ∀ e ∈ d :: before, e.isDigit := List.forall_mem_cons.mpr ⟨digit, all⟩
    have notDigit : ¬ c.isDigit := by
      intro isDigit
      have last := List.getLast?_eq_some_getLast (List.cons_ne_nil d before)
      cases (begins.2 isDigit _ last).symm.trans (allDigits _ (List.getLast_mem _))
    rw [List.takeWhile_append_of_pos all, List.dropWhile_append_of_pos all,
      List.takeWhile_cons_of_neg notDigit, List.dropWhile_cons_of_neg notDigit,
      List.takeWhile_eq_self_iff.mpr all, List.dropWhile_eq_nil_iff.mpr all]
    exact ⟨List.append_nil _, rfl⟩
  · have stops : ¬ (before.dropWhile Char.isDigit).isEmpty := fun empty =>
      all (List.dropWhile_eq_nil_iff.mp (List.isEmpty_iff.mp empty))
    have shorter : (before.takeWhile Char.isDigit).length ≠ before.length := fun same =>
      all (List.takeWhile_eq_self_iff.mp ((List.takeWhile_prefix _).eq_of_length same))
    rw [List.takeWhile_append, if_neg shorter, List.dropWhile_append, if_neg stops]
    exact ⟨rfl, rfl⟩

/-- A fault stops reading before whatever begins behind it. -/
theorem comesTo_of_fault {column place : Nat} {text rest : List Char} (error : ParseError)
    (failed : scan column text = .error error) (here : error.column? = some column)
    (before : column < place) : ComesTo column text place rest :=
  .inr ⟨error, column, failed, here, before⟩

/-- Something begins with the first character of a text, or behind it. -/
theorem Begins.cases {after : List Char} (begins : Begins before c)
    (whole : before ++ c :: after = d :: rest) :
    (before = [] ∧ c :: after = d :: rest) ∨
      ∃ tail, before = d :: tail ∧ rest = tail ++ c :: after ∧ Begins tail c := by
  cases before with
  | nil => exact .inl ⟨rfl, whole⟩
  | cons d' tail =>
    obtain ⟨rfl, same⟩ := List.cons.inj whole
    exact .inr ⟨tail, rfl, same.symm, begins.of_suffix (List.suffix_cons _ tail)⟩

/-- **Reading comes to every place where something begins**, or it fails before. Where nothing is
left before the place it has come to it; otherwise it goes on. -/
theorem comesTo_of_begins (begins : Begins before c) (column : Nat) (after : List Char) :
    ComesTo column (before ++ c :: after) (column + before.length) (c :: after) := by
  generalize whole : before ++ c :: after = text
  fun_induction scan column text generalizing before with
  | case1 => exact absurd whole (List.append_ne_nil_of_right_ne_nil _ (List.cons_ne_nil _ _))
  | case2 column d rest digit digits magnitude small =>
    rename_i ih
    rcases begins.cases whole with ⟨rfl, same⟩ | ⟨tail, rfl, rfl, begins'⟩
    · exact same ▸ .refl column (c :: after)
    · obtain ⟨taken, dropped⟩ := begins.run digit after
      have next := ih (begins'.of_suffix (List.dropWhile_suffix Char.isDigit)) dropped.symm
      have parts := congrArg List.length (List.takeWhile_append_dropWhile (p := Char.isDigit)
        (l := tail))
      have place : column + digits.length + (tail.dropWhile Char.isDigit).length =
          column + (d :: tail).length := by
        rw [List.length_append, ← taken] at parts
        rw [List.length_cons, List.length_cons]
        omega
      rw [place] at next
      refine .behind [⟨.integer (.ofNat magnitude), column⟩] ?_ next
      rw [scan, if_pos digit]
      exact if_pos small
  | case3 column d rest digit =>
    rename_i large
    rcases begins.cases whole with ⟨rfl, same⟩ | ⟨tail, rfl, rfl, -⟩
    · exact same ▸ .refl column (c :: after)
    · refine comesTo_of_fault (.literalTooLarge column) ?_ rfl ?_
      · rw [scan, if_pos digit]
        exact if_neg large
      · exact Nat.lt_add_of_pos_right (Nat.succ_pos _)
  | case4 column d rest notDigit separator ih =>
    rcases begins.cases whole with ⟨rfl, same⟩ | ⟨tail, rfl, rfl, begins'⟩
    · exact same ▸ .refl column (c :: after)
    · have next := ih begins' rfl
      rw [Nat.add_assoc, Nat.add_comm 1] at next
      refine .behind [] ?_ next
      rw [scan, if_neg notDigit, if_pos separator]
      exact (bind_pure _).symm
  | case5 column d rest notDigit notSeparator token found ih =>
    rcases begins.cases whole with ⟨rfl, same⟩ | ⟨tail, rfl, rfl, begins'⟩
    · exact same ▸ .refl column (c :: after)
    · have next := ih begins' rfl
      rw [Nat.add_assoc, Nat.add_comm 1] at next
      exact .behind [⟨token, column⟩] (scan_symbol found column _) next
  | case6 column d rest notDigit notSeparator missing =>
    rcases begins.cases whole with ⟨rfl, same⟩ | ⟨tail, rfl, rfl, -⟩
    · exact same ▸ .refl column (c :: after)
    · refine comesTo_of_fault (.unexpectedToken (String.singleton d) column) ?_ rfl ?_
      · rw [scan, if_neg notDigit, if_neg notSeparator, missing]
      · exact Nat.lt_add_of_pos_right (Nat.succ_pos _)

end Begins

/-! ### Tokens and faults begin where they stand -/

section Place

variable {text : List Char} {column : Nat}

/-- A whole run of digits begins where it stands, and no digit follows it. -/
theorem DigitsAt.begins {digits : List Char} (stands : DigitsAt text column digits) :
    ∃ before first more after, digits = first :: more ∧ text = before ++ (first :: more ++ after) ∧
      column = before.length + 1 ∧ Begins before first ∧ (∀ d ∈ first :: more, d.isDigit) ∧
      after.takeWhile Char.isDigit = [] := by
  obtain ⟨before, after, split, here, nonempty, digit, boundary, ends⟩ := stands
  obtain ⟨first, more, rfl⟩ := List.exists_cons_of_ne_nil nonempty
  have notSeparator : isSeparator first = false := by
    refine Bool.eq_false_iff.mpr fun separator => ?_
    cases (digit first List.mem_cons_self).symm.trans (isDigit_of_isSeparator separator)
  refine ⟨before, first, more, after, rfl, split, here, ⟨notSeparator, fun _ => boundary⟩, digit,
    ?_⟩
  cases after with
  | nil => rfl
  | cons c after => exact List.takeWhile_cons_of_neg (Bool.eq_false_iff.mp (ends c rfl))

/-- **A token begins where it stands**, and reading on from there gives it. -/
theorem TokenAt.begins {token : Token} (stands : TokenAt text column token) :
    ∃ before c after, text = before ++ c :: after ∧ column = before.length + 1 ∧ Begins before c ∧
      ∀ lexemes, scan column (c :: after) = .ok lexemes → ⟨token, column⟩ ∈ lexemes := by
  cases stands with
  | @integer digits magnitude stands value =>
    obtain ⟨before, first, more, after, rfl, split, here, begins, digit, ends⟩ := stands.begins
    refine ⟨before, first, more ++ after, split, here, begins, fun lexemes read => ?_⟩
    rw [← List.cons_append, scan_digits digit ends (value ▸ magnitude.toNat_lt), value,
      UInt64.ofNat_toNat] at read
    obtain ⟨lexemes, -, ⟨⟩⟩ := bind_eq_ok_iff.mp read
    exact List.mem_cons_self
  | @symbol c token written stands =>
    obtain ⟨before, after, split, here⟩ := stands
    obtain ⟨notDigit, notSeparator⟩ := isDigit_of_ofSymbol? written
    refine ⟨before, c, after, split, here, ⟨notSeparator, fun digit => ?_⟩, fun lexemes read => ?_⟩
    · cases digit.symm.trans notDigit
    · rw [scan_symbol written] at read
      obtain ⟨lexemes, -, ⟨⟩⟩ := bind_eq_ok_iff.mp read
      exact List.mem_cons_self

/-- **A fault begins where it stands**, and reading on from there fails with it. -/
theorem ScanFault.begins {error : ParseError} (fault : ScanFault text error) :
    ∃ before c after, text = before ++ c :: after ∧ error.column? = some (before.length + 1) ∧
      Begins before c ∧ scan (before.length + 1) (c :: after) = .error error := by
  cases fault with
  | @unknown column c stands notDigit notSeparator notSymbol =>
    obtain ⟨before, after, split, rfl⟩ := stands
    refine ⟨before, c, after, split, rfl, ⟨Bool.eq_false_iff.mpr notSeparator, fun digit =>
      absurd digit notDigit⟩, ?_⟩
    rw [scan, if_neg notDigit, if_neg notSeparator, notSymbol]
  | @tooLarge column digits stands large =>
    obtain ⟨before, first, more, after, rfl, split, rfl, begins, digit, ends⟩ := stands.begins
    refine ⟨before, first, more ++ after, split, rfl, begins, ?_⟩
    obtain ⟨isDigit, later⟩ := List.forall_mem_cons.mp digit
    have taken : (more ++ after).takeWhile Char.isDigit = more := by
      rw [List.takeWhile_append_of_pos later, ends, List.append_nil]
    rw [scan, if_pos isDigit]
    simp only [taken]
    exact if_neg (Nat.not_lt.mpr large)

end Place

section Source

variable {source : String}

/-- Reading a text comes to every token in it, or it fails. -/
theorem mem_of_tokenAt {lexemes : List Lexeme} (read : tokenize source = .ok lexemes)
    {lexeme : Lexeme} (stands : TokenAt source.toList lexeme.column lexeme.token) :
    lexeme ∈ lexemes := by
  obtain ⟨before, c, after, split, here, begins, first⟩ := stands.begins
  have comesTo := comesTo_of_begins begins 1 after
  rw [← split, Nat.add_comm 1, ← here] at comesTo
  rcases comesTo with ⟨front, readFrom⟩ | ⟨error, earlier, failed, -⟩
  · obtain ⟨rest, readRest, ⟨⟩⟩ := bind_eq_ok_iff.mp (readFrom.symm.trans read)
    exact List.mem_append_right front (first rest readRest)
  · cases failed.symm.trans read

/-- A text with a fault is not read, and the error is this fault or stands before it. -/
theorem exists_error_of_scanFault {error : ParseError} (fault : ScanFault source.toList error) :
    ∃ reported column here, tokenize source = .error reported ∧
      reported.column? = some column ∧ error.column? = some here ∧
      (reported = error ∨ column < here) := by
  obtain ⟨before, c, after, split, here, begins, failedThere⟩ := fault.begins
  have comesTo := comesTo_of_begins begins 1 after
  rw [← split, Nat.add_comm 1] at comesTo
  rcases comesTo with ⟨front, readFrom⟩ | ⟨reported, earlier, failed, column, isBefore⟩
  · rw [failedThere] at readFrom
    exact ⟨error, _, _, readFrom, here, here, .inl rfl⟩
  · exact ⟨reported, earlier, _, failed, column, here, .inr isBefore⟩

/-- **A text is read exactly if it has no fault.** -/
theorem exists_tokenize_iff_no_fault :
    (∃ lexemes, tokenize source = .ok lexemes) ↔ ∀ error, ¬ ScanFault source.toList error := by
  constructor
  · rintro ⟨lexemes, read⟩ error fault
    obtain ⟨reported, -, -, failed, -⟩ := exists_error_of_scanFault fault
    cases failed.symm.trans read
  · intro noFault
    cases read : tokenize source with
    | error error => exact absurd (scanFault_of_tokenize read) (noFault error)
    | ok lexemes => exact ⟨lexemes, rfl⟩

/-- **The error of a text is its leftmost fault.** -/
theorem tokenize_eq_error_iff {error : ParseError} :
    tokenize source = .error error ↔
      ScanFault source.toList error ∧ ∃ column, error.column? = some column ∧
        ∀ other otherColumn, ScanFault source.toList other →
          other.column? = some otherColumn → column ≤ otherColumn := by
  constructor
  · intro failed
    have fault := scanFault_of_tokenize failed
    obtain ⟨before, -, -, -, here, -⟩ := fault.begins
    refine ⟨fault, before.length + 1, here, fun other otherColumn otherFault there => ?_⟩
    obtain ⟨reported, column, _, failed', reportedAt, otherAt, order⟩ :=
      exists_error_of_scanFault otherFault
    cases failed.symm.trans failed'
    cases here.symm.trans reportedAt
    cases there.symm.trans otherAt
    rcases order with rfl | isBefore
    · cases here.symm.trans there
      exact Nat.le_refl _
    · exact Nat.le_of_lt isBefore
  · rintro ⟨fault, column, here, leftmost⟩
    obtain ⟨reported, earlier, _, failed, reportedAt, errorAt, order⟩ :=
      exists_error_of_scanFault fault
    cases here.symm.trans errorAt
    rcases order with rfl | isBefore
    · exact failed
    · have notLater := leftmost reported earlier (scanFault_of_tokenize failed) reportedAt
      exact absurd isBefore (Nat.not_lt.mpr notLater)

/-- Faults are characters of no token and numbers that are too large. -/
theorem no_scanFault_iff {text : List Char} :
    (∀ error, ¬ ScanFault text error) ↔
      (∀ c ∈ text, c.isDigit ∨ c ∈ symbols ∨ c ∈ separators) ∧
        ∀ column digits, DigitsAt text column digits →
          Nat.ofDigitChars 10 digits 0 < UInt64.size := by
  constructor
  · intro noFault
    refine ⟨fun c member => ?_, fun column digits stands => ?_⟩
    · obtain ⟨before, after, split⟩ := List.append_of_mem member
      by_contra unknown
      simp only [not_or, mem_separators_iff] at unknown
      obtain ⟨notDigit, notSymbol, notSeparator⟩ := unknown
      have missing : Token.ofSymbol? c = none :=
        Option.eq_none_iff_forall_ne_some.mpr fun token found =>
          notSymbol (mem_symbols_iff.mpr ⟨token, found⟩)
      exact noFault _ (.unknown ⟨before, after, split, rfl⟩ notDigit notSeparator missing)
    · exact Nat.not_le.mp fun large => noFault _ (.tooLarge stands large)
  · rintro ⟨known, small⟩ error fault
    cases fault with
    | @unknown column c stands notDigit notSeparator notSymbol =>
      obtain ⟨before, after, rfl, -⟩ := stands
      rcases known c (List.mem_append_cons_self ..) with digit | symbol | separator
      · exact notDigit digit
      · obtain ⟨token, found⟩ := mem_symbols_iff.mp symbol
        cases notSymbol.symm.trans found
      · exact notSeparator (mem_separators_iff.mp separator)
    | @tooLarge column digits stands large =>
      exact absurd (small column digits stands) (Nat.not_lt.mpr large)

end Source

/-! ### Texts of tokens -/

/-- The text is made up of the texts of the tokens, none of which is a place holder, with separators
between each two of them. -/
inductive SpelledApart : List Token → List Char → Prop
  | nil : SpelledApart [] []
  | one {token : Token} (notBlank : token ≠ .blank) : SpelledApart [token] token.chars
  | cons {token next : Token} {tokens : List Token} {gap text : List Char}
      (notBlank : token ≠ .blank) (nonempty : gap ≠ []) (between : ∀ c ∈ gap, c ∈ separators) :
      SpelledApart (next :: tokens) text →
        SpelledApart (token :: next :: tokens) (token.chars ++ (gap ++ text))

/-- A token and a text that starts with no digit spell the token first. -/
theorem Spells.token {token : Token} {text : List Char} {tokens : List Token}
    (notBlank : token ≠ .blank) (ends : text.takeWhile Char.isDigit = [])
    (spells : Spells text tokens) : Spells (token.chars ++ text) (token :: tokens) := by
  cases token with
  | integer magnitude => exact .magnitude magnitude ends spells
  | operator op => exact .symbol (Token.ofSymbol?_eq_some_iff.mpr (.inl ⟨op, rfl, rfl⟩)) spells
  | leftParen => exact .symbol rfl spells
  | rightParen => exact .symbol rfl spells
  | blank => exact absurd rfl notBlank

theorem Spells.gap {gap text : List Char} {tokens : List Token}
    (between : ∀ c ∈ gap, c ∈ separators) (spells : Spells text tokens) :
    Spells (gap ++ text) tokens := by
  induction gap with
  | nil => exact spells
  | cons c gap ih =>
    obtain ⟨first, later⟩ := List.forall_mem_cons.mp between
    exact .separator (mem_separators_iff.mp first) (ih later)

/-- **Tokens that are spelled apart are spelled.** -/
theorem SpelledApart.spells {tokens : List Token} {text : List Char}
    (apart : SpelledApart tokens text) : Spells text tokens := by
  induction apart with
  | nil => exact .nil
  | @one token notBlank =>
    have alone := Spells.token notBlank rfl .nil
    rwa [List.append_nil] at alone
  | @cons token next tokens gap text notBlank nonempty between _ ih =>
    refine .token notBlank ?_ (ih.gap between)
    obtain ⟨c, gap, rfl⟩ := List.exists_cons_of_ne_nil nonempty
    have separator := mem_separators_iff.mp (between c List.mem_cons_self)
    exact List.takeWhile_cons_of_neg (by rw [isDigit_of_isSeparator separator]; decide)

/-- **Reading a text is exact.** A text is read as tokens exactly if all its characters are digits,
symbols and separators and all its runs of digits denote numbers below `2^64`. Its tokens stand at
increasing columns, and they are all that stand in the text: an operator or a parenthesis for each
of these characters, an integer for each whole run of digits. Otherwise the error is the leftmost
fault: a run of digits that is too large, or an unknown character. Texts of tokens with separators
between them are read as these tokens. -/
theorem tokenize_exact (source : String) :
    ((∃ lexemes, tokenize source = .ok lexemes) ↔
      (∀ c ∈ source.toList, c.isDigit ∨ c ∈ symbols ∨ c ∈ separators) ∧
        ∀ column digits, DigitsAt source.toList column digits →
          Nat.ofDigitChars 10 digits 0 < UInt64.size) ∧
      (∀ lexemes, tokenize source = .ok lexemes →
        (columnsOf lexemes).Pairwise (· < ·) ∧
          ∀ lexeme, lexeme ∈ lexemes ↔ TokenAt source.toList lexeme.column lexeme.token) ∧
      (∀ error, tokenize source = .error error ↔
        ScanFault source.toList error ∧ ∃ column, error.column? = some column ∧
          ∀ other otherColumn, ScanFault source.toList other →
            other.column? = some otherColumn → column ≤ otherColumn) ∧
      ∀ tokens, SpelledApart tokens source.toList →
        ∃ lexemes, tokenize source = .ok lexemes ∧ lexemes.map Lexeme.token = tokens := by
  refine ⟨exists_tokenize_iff_no_fault.trans no_scanFault_iff, fun lexemes read => ?_,
    fun error => tokenize_eq_error_iff, fun tokens apart => ?_⟩
  · exact ⟨increasing_of_tokenize read, fun lexeme => ⟨tokenAt_of_tokenize read lexeme,
      mem_of_tokenAt read⟩⟩
  · exact exists_tokenize_iff_spells.mpr apart.spells

/-- In `7 -012` with a tab behind the minus sign there are three tokens; the last of them is the
integer `12` at column five. Written without its zero the text is spelled apart. -/
theorem tokenize_exact_of_difference :
    (∃ lexemes, tokenize "7 -\t012" = .ok lexemes ∧ (⟨.integer 12, 5⟩ : Lexeme) ∈ lexemes ∧
      (columnsOf lexemes).Pairwise (· < ·)) ∧
    SpelledApart [.integer 7, .minus, .integer 12] "7 -\t12".toList ∧
    ∃ lexemes, tokenize "7 -\t12" = .ok lexemes ∧
      lexemes.map Lexeme.token = [.integer 7, .minus, .integer 12] := by
  have apart : SpelledApart [.integer 7, .minus, .integer 12] "7 -\t12".toList :=
    @SpelledApart.cons _ _ _ [' '] _ nofun nofun (List.forall_mem_singleton.mpr (by decide))
      (@SpelledApart.cons _ _ _ ['\t'] _ nofun nofun (List.forall_mem_singleton.mpr (by decide))
        (.one nofun))
  have digits : DigitsAt "7 -\t012".toList 5 ['0', '1', '2'] := by
    refine ⟨"7 -\t".toList, [], by decide, by decide, List.cons_ne_nil _ _,
      List.all_eq_true.mp (by decide), ?_, ?_⟩
    · rintro c ⟨⟩
      rfl
    · rintro c ⟨⟩
  have isRead : (tokenize "7 -\t012").toOption.isSome = true := by decide +kernel
  refine ⟨?_, apart, (tokenize_exact "7 -\t12").2.2.2 _ apart⟩
  cases read : tokenize "7 -\t012" with
  | error error =>
    rw [read] at isRead
    cases isRead
  | ok lexemes =>
    obtain ⟨increasing, member⟩ := (tokenize_exact "7 -\t012").2.1 lexemes read
    exact ⟨lexemes, rfl, (member ⟨.integer 12, 5⟩).mpr (.integer digits (by decide)), increasing⟩

end Abacus
