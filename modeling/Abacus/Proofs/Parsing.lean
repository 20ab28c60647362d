/-
**The grammar is unambiguous, and parsing decides it.**

Since the rules recognize the nonterminals, tokens can be cut in one way only into a derived part
and a rest that does not go on with it (`Derivation.prefix_unique`); so there is one way to make up
an expression from its tokens (`Derivation.unique`).

* `parseLexemes_eq_ok_iff_derivation`: a list of tokens is read as an expression exactly when it is
  derived as this expression and not too deep, and it has at most one derivation;
* `parseLexemes_of_too_deep`: a derived list that is too deep is refused for this reason.
-/

import Abacus.Grammar.Parse
import Abacus.Proofs.Recognition

namespace Abacus

namespace Grammar

/-! ### One way to cut -/

theorem recognizes_atoms (endColumn room : Nat) :
    Recognizes (atom endColumn (inside? endColumn room)) room .atom :=
  recognizes_atom fun less _ => recognizes_expression endColumn less

variable {symbol : Symbol} {tier : Tier} {lexemes lexemes' rest rest' : List Lexeme} {e e' : Expr}
  {links links' : List (Link Expr)}

/-- Tokens start in at most one way with derived ones, up to a token that does not go on. -/
theorem Derivation.prefix_unique (one : Derivation symbol lexemes e)
    (two : Derivation symbol lexemes' e') (ends : Ends symbol.reach rest)
    (ends' : Ends symbol.reach rest') (same : lexemes ++ rest = lexemes' ++ rest') :
    lexemes = lexemes' ∧ e = e' ∧ rest = rest' := by
  let room := max (Token.nesting (tokensOf lexemes)) (Token.nesting (tokensOf lexemes'))
  have recognizes := recognizes_rule (recognizes_atoms 0 room) symbol
  have ran := recognizes.complete one ends (Nat.le_max_left ..)
  have ran' := recognizes.complete two ends' (Nat.le_max_right ..)
  rw [same, ran'] at ran
  cases ran
  exact ⟨List.append_cancel_right same, rfl, rfl⟩

theorem LinksDerivation.ends_alone (derivation : LinksDerivation tier lexemes links) :
    Ends tier.rank lexemes := by
  have ends := derivation.ends (ends_nil _)
  rwa [List.append_nil] at ends

theorem LinksDerivation.ends_head (derivation : LinksDerivation tier lexemes links)
    (position : Position) : Ends (Symbol.head tier position).reach lexemes := by
  rw [Symbol.reach_head]
  exact derivation.ends_alone

theorem LinksDerivation.ends_operand (derivation : LinksDerivation tier lexemes links) :
    Ends (Symbol.operand tier).reach lexemes := by
  rw [Symbol.reach_operand]
  exact derivation.ends_alone

theorem LinksDerivation.ne_nil {link : Link Expr}
    (derivation : LinksDerivation tier lexemes (link :: links)) : lexemes ≠ [] := by
  cases derivation with
  | cons op column ofTier operand next => exact List.cons_ne_nil _ _

/-- An operand alone does not go on with links. -/
theorem Derivation.ne_append_links {position : Position} {link : Link Expr}
    (alone : Derivation (.head tier position) lexemes e)
    (first : Derivation (.head tier position) lexemes' e')
    (next : LinksDerivation tier rest (link :: links)) : lexemes ≠ lexemes' ++ rest := by
  intro same
  obtain ⟨-, -, nothing⟩ := alone.prefix_unique first (ends_nil _) (next.ends_head position)
    ((List.append_nil lexemes).trans same)
  exact next.ne_nil nothing.symm

theorem Unsigned.ne_minus (unsigned : Unsigned lexemes) (column : Nat) (more : List Lexeme) :
    lexemes ≠ ⟨.minus, column⟩ :: more := by
  obtain ⟨lexeme, more', rfl, notMinus, -⟩ := unsigned
  intro same
  cases same
  exact notMinus rfl

theorem Unsigned.ne_least (unsigned : Unsigned lexemes) {magnitude : UInt64} (column : Nat)
    (more : List Lexeme) (least : magnitude.toNat = leastMagnitude) :
    lexemes ≠ ⟨.integer magnitude, column⟩ :: more := by
  obtain ⟨lexeme, more', rfl, -, notLeast⟩ := unsigned
  intro same
  cases same
  exact notLeast magnitude rfl least

/-! ### One derivation -/

mutual

/-- **The same tokens have the same derivation**, of the same expression. -/
theorem Derivation.unique {symbol : Symbol} {lexemes lexemes' : List Lexeme} {e e' : Expr} :
    ∀ (one : Derivation symbol lexemes e) (two : Derivation symbol lexemes' e'),
      lexemes = lexemes' → e = e' ∧ HEq one two
  | .integer magnitude column small, .integer magnitude' column' small', same => by
    cases same
    exact ⟨rfl, .rfl⟩
  | .integer .., .group .., same => nomatch same
  | .group .., .integer .., same => nomatch same
  | .group opening closing inside, .group opening' closing' inside', same => by
    obtain ⟨opens, behind⟩ := List.cons.inj same
    obtain ⟨between, closes⟩ := List.append_inj' behind rfl
    obtain ⟨sameInner, equal⟩ := inside.unique inside' between
    cases opens
    cases closes
    cases between
    cases sameInner
    cases equal
    exact ⟨rfl, .rfl⟩
  | .unsigned operand, .unsigned operand', same => by
    obtain ⟨sameExpr, equal⟩ := operand.unique operand' same
    cases same
    cases sameExpr
    cases equal
    exact ⟨rfl, .rfl⟩
  | .unsigned operand, .signed column _, same =>
    absurd same (operand.unsigned_atom.ne_minus column _)
  | .unsigned operand, .leastSigned _ column _ _, same =>
    absurd same (operand.unsigned_atom.ne_minus column _)
  | .signed column _, .unsigned operand', same =>
    absurd same.symm (operand'.unsigned_atom.ne_minus column _)
  | .signed column operand, .signed column' operand', same => by
    obtain ⟨sameExpr, equal⟩ := operand.unique operand' (List.cons.inj same).2
    cases same
    cases sameExpr
    cases equal
    exact ⟨rfl, .rfl⟩
  | .signed _ operand, .leastSigned _ _ column least, same =>
    absurd (List.cons.inj same).2 (operand.unsigned_atom.ne_least column _ least)
  | .leastSigned _ column _ _, .unsigned operand', same =>
    absurd same.symm (operand'.unsigned_atom.ne_minus column _)
  | .leastSigned _ _ column least, .signed _ operand', same =>
    absurd (List.cons.inj same).2.symm (operand'.unsigned_atom.ne_least column _ least)
  | .leastSigned _ _ _ _, .leastSigned _ _ _ _, same => by
    cases same
    exact ⟨rfl, .rfl⟩
  | .base power, .base power', same => by
    obtain ⟨sameExpr, equal⟩ := power.unique power' same
    cases same
    cases sameExpr
    cases equal
    exact ⟨rfl, .rfl⟩
  | .plain power, .plain power', same => by
    obtain ⟨sameExpr, equal⟩ := power.unique power' same
    cases same
    cases sameExpr
    cases equal
    exact ⟨rfl, .rfl⟩
  | .plain power, .negated column _, same =>
    absurd same (power.unsigned_power.ne_minus column _)
  | .plain power, .leastFactor _ column _ _, same =>
    absurd same (power.unsigned_power.ne_minus column _)
  | .negated column _, .plain power', same =>
    absurd same.symm (power'.unsigned_power.ne_minus column _)
  | .negated column power, .negated column' power', same => by
    obtain ⟨sameExpr, equal⟩ := power.unique power' (List.cons.inj same).2
    cases same
    cases sameExpr
    cases equal
    exact ⟨rfl, .rfl⟩
  | .negated _ power, .leastFactor _ _ column least, same =>
    absurd (List.cons.inj same).2 (power.unsigned_power.ne_least column _ least)
  | .leastFactor _ column _ _, .plain power', same =>
    absurd same.symm (power'.unsigned_power.ne_minus column _)
  | .leastFactor _ _ column least, .negated _ power', same =>
    absurd (List.cons.inj same).2.symm (power'.unsigned_power.ne_least column _ least)
  | .leastFactor _ _ _ _, .leastFactor _ _ _ _, same => by
    cases same
    exact ⟨rfl, .rfl⟩
  | .alone operand, .alone operand', same => by
    obtain ⟨sameExpr, equal⟩ := operand.unique operand' same
    cases same
    cases sameExpr
    cases equal
    exact ⟨rfl, .rfl⟩
  | .alone operand, .chain first next, same => absurd same (operand.ne_append_links first next)
  | .chain first next, .alone operand, same =>
    absurd same.symm (operand.ne_append_links first next)
  | .chain first next, .chain first' next', same => by
    obtain ⟨sameFirst, -, sameMore⟩ :=
      first.prefix_unique first' (next.ends_head _) (next'.ends_head _) same
    obtain ⟨sameExpr, equal⟩ := first.unique first' sameFirst
    obtain ⟨sameLinks, equalLinks⟩ := next.unique next' sameMore
    cases sameFirst
    cases sameMore
    cases sameExpr
    cases sameLinks
    cases equal
    cases equalLinks
    exact ⟨rfl, .rfl⟩

theorem LinksDerivation.unique {tier : Tier} {lexemes lexemes' : List Lexeme}
    {links links' : List (Link Expr)} :
    ∀ (one : LinksDerivation tier lexemes links) (two : LinksDerivation tier lexemes' links'),
      lexemes = lexemes' → links = links' ∧ HEq one two
  | .nil, .nil, _ => ⟨rfl, .rfl⟩
  | .nil, .cons .., same => nomatch same
  | .cons .., .nil, same => nomatch same
  | .cons op column ofTier operand next, .cons op' column' ofTier' operand' next', same => by
    obtain ⟨heads, behind⟩ := List.cons.inj same
    cases heads
    obtain ⟨sameFirst, -, sameMore⟩ :=
      operand.prefix_unique operand' next.ends_operand next'.ends_operand behind
    obtain ⟨sameExpr, equal⟩ := operand.unique operand' sameFirst
    obtain ⟨sameLinks, equalLinks⟩ := next.unique next' sameMore
    cases sameFirst
    cases sameMore
    cases sameExpr
    cases sameLinks
    cases equal
    cases equalLinks
    exact ⟨rfl, .rfl⟩

end

theorem derivation_subsingleton (symbol : Symbol) (lexemes : List Lexeme) :
    Subsingleton (Σ e, Derivation symbol lexemes e) := by
  refine ⟨fun one two => ?_⟩
  obtain ⟨e, one⟩ := one
  obtain ⟨e', two⟩ := two
  obtain ⟨same, equal⟩ := one.unique two rfl
  cases same
  cases equal
  rfl

end Grammar

/-! ### Parsing -/

open Grammar

variable {lexemes : List Lexeme} {e : Expr}

theorem Grammar.Derivation.ne_nil (derivation : Derivation .expression lexemes e) :
    lexemes ≠ [] := by
  rintro rfl
  have ran := (recognizes_expression 0 maxNesting).complete derivation (ends_nil _) (Nat.zero_le _)
  have shorter := (expression 0 maxNesting).shortens ran
  cases shorter

theorem parseLexemes_eq_run (nonempty : lexemes ≠ []) (endColumn : Nat) :
    parseLexemes lexemes endColumn =
      match (expression endColumn maxNesting).run lexemes with
      | .error error => .error error
      | .ok (e, []) => .ok e
      | .ok (_, ⟨token, column⟩ :: _) => .error (.trailingTokens token.text column) := by
  unfold parseLexemes
  split
  · exact absurd rfl nonempty
  · rfl

/-- A derived list that is not too deep is read as its expression. -/
theorem parseLexemes_of_derivation (derivation : Derivation .expression lexemes e)
    (shallow : Token.nesting (tokensOf lexemes) ≤ maxNesting) (endColumn : Nat) :
    parseLexemes lexemes endColumn = .ok e := by
  have ran := (recognizes_expression endColumn maxNesting).complete derivation (ends_nil _) shallow
  rw [List.append_nil] at ran
  rw [parseLexemes_eq_run derivation.ne_nil, ran]

/-- **A derived list that is too deep is refused for this reason.** -/
theorem parseLexemes_of_too_deep (derivation : Derivation .expression lexemes e)
    (deep : maxNesting < Token.nesting (tokensOf lexemes)) (endColumn : Nat) :
    ∃ column, parseLexemes lexemes endColumn = .error (.nestingTooDeep column) := by
  obtain ⟨column, ran⟩ :=
    (recognizes_expression endColumn maxNesting).refuses derivation (ends_nil _) deep
  rw [List.append_nil] at ran
  exact ⟨column, by rw [parseLexemes_eq_run derivation.ne_nil, ran]⟩

/-- A list that is read as an expression is derived as it, and not too deep. -/
theorem derivation_of_parseLexemes {endColumn : Nat}
    (parsed : parseLexemes lexemes endColumn = .ok e) :
    Derives .expression lexemes e ∧
      Token.nesting (tokensOf lexemes) ≤ maxNesting := by
  rcases lexemes with _ | ⟨lexeme, more⟩
  · cases parsed
  · rw [parseLexemes_eq_run (List.cons_ne_nil _ _)] at parsed
    split at parsed
    · cases parsed
    · rename_i ran
      cases parsed
      obtain ⟨lexemes, same, derivation, shallow, -⟩ :=
        (recognizes_expression endColumn maxNesting).sound ran
      rw [List.append_nil] at same
      rw [same]
      exact ⟨derivation, shallow⟩
    · cases parsed

/-- **Parsing decides the grammar, and the grammar is unambiguous.** A list of tokens is read as an
expression exactly when it has a derivation as this expression and opens no more groups at once than
allowed; and it has at most one derivation, whatever the expression. -/
theorem parseLexemes_eq_ok_iff_derivation (lexemes : List Lexeme) (endColumn : Nat) :
    (∀ e, parseLexemes lexemes endColumn = .ok e ↔
      Derives .expression lexemes e ∧
        Token.nesting (tokensOf lexemes) ≤ maxNesting) ∧
      Subsingleton (Σ e, Derivation .expression lexemes e) := by
  refine ⟨fun e => ⟨derivation_of_parseLexemes, ?_⟩, derivation_subsingleton .expression lexemes⟩
  rintro ⟨⟨derivation⟩, shallow⟩
  exact parseLexemes_of_derivation derivation shallow endColumn

/-- A computation that comes to a value that passes a test. -/
theorem exists_ok_of_test {ε α : Type} (outcome : Except ε α) (test : α → Bool)
    (passes : outcome.toOption.any test = true) :
    ∃ value, outcome = .ok value ∧ test value = true := by
  cases outcome with
  | error error => cases passes
  | ok value => exact ⟨value, rfl, passes⟩

/-- A text that is read as an expression that passes a test. -/
theorem exists_parse_of_test (source : String) (test : Expr → Bool)
    (passes : (parse source).toOption.any test = true) :
    ∃ e, parse source = .ok e ∧ test e = true :=
  exists_ok_of_test (parse source) test passes

end Abacus
