/-
**Errors point at the first token that is wrong.**

The tokens before the one that a parse error points at can be extended to an accepted list, and no
accepted list starts with that token included. An error at the end of the tokens says that only more
tokens are missing.

* `ParseError.blamed?`: the column of the token that an error points at;
* `EndsWithNegatedLeast`: the exception, the magnitude `2^63` behind a sign that negates a power,
  where an operator of powers cannot follow;
* `viable_prefix_of_refused`: the property, for every list of tokens that is refused.
-/

import Abacus.Proofs.Refusal
import Abacus.Proofs.SourceOrder

namespace Abacus

/-- The column of the token that an error points at; there is none where the tokens end too early. -/
def ParseError.blamed? : ParseError → Option Nat
  | unexpectedToken _ column | trailingTokens _ column | literalTooLarge column
  | nestingTooDeep column => some column
  | emptyExpression | unexpectedEnd _ | unclosedGroup _ => none

theorem ParseError.About.blamed? {error : ParseError} {lexeme : Lexeme}
    (about : error.About lexeme) : error.blamed? = some lexeme.column := by
  cases about <;> rfl

open Grammar

/-- The last token is the magnitude `2^63` behind a minus sign that negates a power. -/
def EndsWithNegatedLeast (lexemes : List Lexeme) : Prop :=
  ∃ before magnitude column, NegatesPower before ∧ magnitude.toNat = leastMagnitude ∧
    lexemes = before ++ [⟨.integer magnitude, column⟩]

theorem not_viable_of_fails {lexemes : List Lexeme} {endColumn : Nat} {error : ParseError}
    (fails : ∀ rest, parseLexemes (lexemes ++ rest) endColumn = .error error) :
    ¬ Viable Accepted lexemes := by
  rintro ⟨rest, accepted⟩
  obtain ⟨e, parsed⟩ := accepted endColumn
  cases (fails rest).symm.trans parsed

theorem Grammar.Viable.of_append {accepts : List Lexeme → Prop} {lexemes more : List Lexeme}
    (viable : Viable accepts (lexemes ++ more)) : Viable accepts lexemes := by
  obtain ⟨rest, accepted⟩ := viable
  rw [List.append_assoc] at accepted
  exact ⟨more ++ rest, accepted⟩

/-- Columns that differ tell the tokens apart. -/
theorem getElem?_columnsOf_iff {before rest : List Lexeme} {lexeme : Lexeme}
    (distinct : (columnsOf (before ++ lexeme :: rest)).Nodup) (k : Nat) :
    (columnsOf (before ++ lexeme :: rest))[k]? = some lexeme.column ↔ k = before.length := by
  have here : (columnsOf (before ++ lexeme :: rest))[before.length]? = some lexeme.column := by
    simp [columnsOf]
  constructor
  · intro there
    obtain ⟨bound, -⟩ := List.getElem?_eq_some_iff.mp there
    exact (List.getElem?_inj bound distinct).mp (there.trans here.symm)
  · rintro rfl
    exact here

/-- **Errors point at the first token that is wrong.** For every list of tokens at distinct columns
that is refused: if the error points at a token, the tokens before it can be extended to an accepted
list, and no accepted list starts with the tokens up to it; where it is the magnitude `2^63` behind a
sign that negates a power, none starts with these and an operator of powers. If the error points at
no token, the whole list can be extended to an accepted one. -/
theorem viable_prefix_of_refused {lexemes : List Lexeme} {endColumn : Nat} {error : ParseError}
    (nonempty : lexemes ≠ []) (distinct : (columnsOf lexemes).Nodup)
    (refused : parseLexemes lexemes endColumn = .error error) :
    (∀ column, error.blamed? = some column → ∃ k,
      (∀ other, (columnsOf lexemes)[other]? = some column ↔ other = k) ∧
        Viable Accepted (lexemes.take k) ∧
        (¬ (error = .literalTooLarge column ∧ EndsWithNegatedLeast (lexemes.take (k + 1))) →
          ¬ Viable Accepted (lexemes.take (k + 1))) ∧
        (error = .literalTooLarge column ∧ EndsWithNegatedLeast (lexemes.take (k + 1)) →
          ∀ opColumn, ¬ Viable Accepted (lexemes.take (k + 1) ++ [⟨.operator .pow, opColumn⟩]))) ∧
      (error.blamed? = none → Viable Accepted lexemes) := by
  cases refusal_of_parseLexemes nonempty refused with
  | @token before lexeme rest error about viable fails =>
    refine ⟨fun column blamed => ?_, fun blamed => ?_⟩
    · cases about.blamed?.symm.trans blamed
      refine ⟨before.length, getElem?_columnsOf_iff distinct, ?_⟩
      rw [List.take_left, List.take_length_add_append, List.take_succ_cons, List.take_zero]
      have stuck rest : parseLexemes (before ++ [lexeme] ++ rest) endColumn = .error error := by
        rw [List.append_assoc]
        exact fails rest
      exact ⟨viable, fun _ => not_viable_of_fails stuck,
        fun _ opColumn goesOn => not_viable_of_fails stuck goesOn.of_append⟩
    · cases about.blamed?.symm.trans blamed
  | @base before magnitude column opColumn rest least negated viable fails =>
    refine ⟨fun column' blamed => ?_, nofun⟩
    cases blamed
    refine ⟨before.length, getElem?_columnsOf_iff distinct, ?_⟩
    rw [List.take_left, List.take_length_add_append, List.take_succ_cons, List.take_zero]
    have ends : EndsWithNegatedLeast (before ++ [⟨.integer magnitude, column⟩]) :=
      ⟨before, magnitude, column, negated, least, rfl⟩
    have stuck opColumn rest : parseLexemes (before ++ [⟨.integer magnitude, column⟩] ++
        [⟨.operator .pow, opColumn⟩] ++ rest) endColumn = .error (.literalTooLarge column) := by
      rw [List.append_assoc, List.append_assoc]
      exact fails opColumn rest
    exact ⟨viable, fun other => absurd ⟨rfl, ends⟩ other,
      fun _ opColumn => not_viable_of_fails (stuck opColumn)⟩
  | ended viable => exact ⟨nofun, fun _ => viable⟩
  | unclosed before inside viable => exact ⟨nofun, fun _ => viable⟩

/-- In the tokens of `2*-9223372036854775808^2` the magnitude is refused: it may stand behind the
sign, but no operator of powers behind it. -/
theorem viable_prefix_of_negated_least :
    parseLexemes [⟨.integer 2, 1⟩, ⟨.operator .mul, 2⟩, ⟨.minus, 3⟩,
        ⟨.integer 9223372036854775808, 4⟩, ⟨.operator .pow, 23⟩, ⟨.integer 2, 24⟩] 25 =
      .error (.literalTooLarge 4) ∧
      Viable Accepted [⟨.integer 2, 1⟩, ⟨.operator .mul, 2⟩, ⟨.minus, 3⟩] ∧
      ∀ opColumn, ¬ Viable Accepted [⟨.integer 2, 1⟩, ⟨.operator .mul, 2⟩, ⟨.minus, 3⟩,
        ⟨.integer 9223372036854775808, 4⟩, ⟨.operator .pow, opColumn⟩] := by
  have refused : parseLexemes [⟨.integer 2, 1⟩, ⟨.operator .mul, 2⟩, ⟨.minus, 3⟩,
      ⟨.integer 9223372036854775808, 4⟩, ⟨.operator .pow, 23⟩, ⟨.integer 2, 24⟩] 25 =
        .error (.literalTooLarge 4) := eq_error_of_failure? (by decide +kernel)
  obtain ⟨blames, -⟩ := viable_prefix_of_refused (List.cons_ne_nil _ _) (by decide) refused
  obtain ⟨k, only, viable, -, exception⟩ := blames 4 rfl
  obtain rfl : 3 = k := (only 3).mp rfl
  have negated : NegatesPower [⟨.integer 2, 1⟩, ⟨.operator .mul, 2⟩, ⟨.minus, 3⟩] :=
    ⟨[⟨.integer 2, 1⟩], .mul, 2, 3, by decide, rfl⟩
  exact ⟨refused, viable, exception ⟨rfl, _, 9223372036854775808, 4, negated, by decide, rfl⟩⟩

end Abacus
