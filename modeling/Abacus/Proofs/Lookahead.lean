/-
**Rules read greedily and locally.**

A rule consumes tokens up to the end, or up to one that is no operator of its tiers. What it reads
lies in the tokens it consumes: with the end or another such token behind them it reads the same
(`Grammar.ReadsUpTo`). The operators are those that the nonterminal takes up when they follow
(`Grammar.Symbol.takes`).

* `Grammar.Recognizes.readsUpTo`: a rule that recognizes a nonterminal reads up to these operators;
* `Grammar.ReadsUpTo.length_rest_le`: such a rule reads the longest beginning of the tokens that it
  can read as a whole;
* `Grammar.rules_read_locally`: powers, products, sums and expressions, with any number of groups
  open.
-/

import Abacus.Proofs.Parsing

namespace Abacus.Grammar

/-- The tokens start with one of the operators. -/
def StartsWith (operators : List Operator) (lexemes : List Lexeme) : Prop :=
  ∃ op ∈ operators, ∃ column rest, lexemes = ⟨.operator op, column⟩ :: rest

theorem StartsWith.append {operators : List Operator} {lexemes : List Lexeme}
    (starts : StartsWith operators lexemes) (more : List Lexeme) :
    StartsWith operators (lexemes ++ more) := by
  obtain ⟨op, member, column, rest, rfl⟩ := starts
  exact ⟨op, member, column, rest ++ more, rfl⟩

theorem not_startsWith_rightParen (operators : List Operator) (column : Nat) (rest : List Lexeme) :
    ¬ StartsWith operators (⟨.rightParen, column⟩ :: rest) := by
  rintro ⟨op, -, opColumn, more, same⟩
  cases same

/-- **The rule reads greedily and locally, up to the operators**: none of them comes next where it
stops; and it consumes at least one token, and reads the same expression from the tokens it consumes
whatever else follows them that does not start with one of the operators. -/
structure ReadsUpTo (rule : Rule) (operators : List Operator) : Prop where
  stops {input rest : List Lexeme} {e : Expr} :
    rule.run input = .ok (e, rest) → ¬ StartsWith operators rest
  consumes {input rest : List Lexeme} {e : Expr} :
    rule.run input = .ok (e, rest) →
      ∃ consumed, consumed ≠ [] ∧ input = consumed ++ rest ∧
        ∀ rest', ¬ StartsWith operators rest' → rule.run (consumed ++ rest') = .ok (e, rest')

/-- **Such a rule reads as much as it can**: no more is left than what is behind any beginning of
the tokens that the rule reads as a whole. Of a longer beginning the rule would leave something. -/
theorem ReadsUpTo.length_rest_le {rule : Rule} {operators : List Operator}
    (reads : ReadsUpTo rule operators) {lexemes more rest : List Lexeme} {e e' : Expr}
    (whole : rule.run lexemes = .ok (e', [])) (done : rule.run (lexemes ++ more) = .ok (e, rest)) :
    rest.length ≤ more.length := by
  have stops := reads.stops done
  obtain ⟨consumed, -, same, again⟩ := reads.consumes done
  rcases List.append_eq_append_iff.mp same with ⟨between, -, rfl⟩ | ⟨between, rfl, rfl⟩
  · rw [List.length_append]
    exact Nat.le_add_left ..
  · have stopsBetween : ¬ StartsWith operators between := fun starts => stops (starts.append more)
    have ran := again between stopsBetween
    rw [whole] at ran
    cases ran
    exact Nat.le_refl _

/-! ### What a nonterminal takes up -/

/-- The operators that a nonterminal takes up when they follow. -/
def Symbol.takes (symbol : Symbol) : List Operator :=
  (Tier.all.filter fun tier => tier.rank < symbol.reach).flatMap Tier.operators

theorem Symbol.mem_takes_iff {symbol : Symbol} {op : Operator} :
    op ∈ symbol.takes ↔ op.tier.rank < symbol.reach := by
  have listed : op.tier ∈ Tier.all := List.mem_of_getElem? (Tier.all_getElem?_rank op.tier)
  simp only [takes, List.mem_flatMap, List.mem_filter, decide_eq_true_eq,
    Operator.mem_operators_tier]
  constructor
  · rintro ⟨tier, ⟨-, tighter⟩, rfl⟩
    exact tighter
  · intro tighter
    exact ⟨op.tier, ⟨listed, tighter⟩, rfl⟩

example (position : Position) :
    (Symbol.chain .product position).takes = [.pow, .mul, .div, .mod] := rfl

theorem ends_reach_iff {symbol : Symbol} {rest : List Lexeme} :
    Ends symbol.reach rest ↔ ¬ StartsWith symbol.takes rest := by
  constructor
  · rintro ends ⟨op, taken, column, more, same⟩
    exact Nat.not_lt_of_le (ends op column more same) (Symbol.mem_takes_iff.mp taken)
  · intro stops op column more same
    refine Nat.le_of_not_lt fun tighter => stops ?_
    exact ⟨op, Symbol.mem_takes_iff.mpr tighter, column, more, same⟩

/-! ### What the rules read -/

/-- **A rule that recognizes a nonterminal reads up to the operators that this takes up**, since the
tokens it consumes are derived, and no deeper than there is room for, whatever follows them. -/
theorem Recognizes.readsUpTo {rule : Rule} {room : Nat} {symbol : Symbol}
    (recognizes : Recognizes rule room symbol) : ReadsUpTo rule symbol.takes where
  stops {input rest e} done := by
    obtain ⟨consumed, -, -, -, ends⟩ := recognizes.sound done
    exact ends_reach_iff.mp ends
  consumes {input rest e} done := by
    obtain ⟨consumed, rfl, ⟨derivation⟩, shallow, -⟩ := recognizes.sound done
    refine ⟨consumed, ?_, rfl, fun rest' stops => ?_⟩
    · rintro rfl
      exact absurd (rule.shortens done) (Nat.lt_irrefl _)
    · exact recognizes.complete derivation (ends_reach_iff.mpr stops) shallow

/-- The rule of atoms where `depth` groups are open already. -/
def atomAt (endColumn depth : Nat) : Rule :=
  atom endColumn (inside? endColumn (maxNesting - depth))

/-- **Powers, products, sums and expressions are read greedily and locally**, each up to the
operators of its own tier and the tighter ones, wherever they stand and however many groups are
open. -/
theorem rules_read_locally (endColumn depth : Nat) (position : Position) :
    ReadsUpTo (factor (atomAt endColumn depth) position) [.pow] ∧
      ReadsUpTo (product (atomAt endColumn depth) position) [.pow, .mul, .div, .mod] ∧
      ReadsUpTo (sum (atomAt endColumn depth) position) [.pow, .mul, .div, .mod, .add, .sub] ∧
      ReadsUpTo (expression endColumn (maxNesting - depth))
        [.pow, .mul, .div, .mod, .add, .sub] := by
  have recognizes (symbol : Symbol) :
      Recognizes (symbol.rule (atomAt endColumn depth)) (maxNesting - depth) symbol :=
    recognizes_rule (recognizes_atoms endColumn _) symbol
  have factors := (recognizes (.factor position)).readsUpTo
  have products := (recognizes (.chain .product position)).readsUpTo
  have sums := (recognizes (.chain .sum position)).readsUpTo
  have expressions := (recognizes_expression endColumn (maxNesting - depth)).readsUpTo
  exact ⟨factors, products, sums, expressions⟩

/-- In the tokens of `-9223372036854775808*2+1`, behind an operator and with all groups open, a
product ends with the `2`; it is the same product where a parenthesis follows instead. -/
theorem rules_read_locally_of_least_value :
    ∃ e, (product (atomAt 0 256) .following).run [⟨.minus, 1⟩, ⟨.integer 9223372036854775808, 2⟩,
        ⟨.operator .mul, 21⟩, ⟨.integer 2, 22⟩, ⟨.operator .add, 23⟩, ⟨.integer 1, 24⟩] =
          .ok (e, [⟨.operator .add, 23⟩, ⟨.integer 1, 24⟩]) ∧
      (product (atomAt 0 256) .following).run [⟨.minus, 1⟩, ⟨.integer 9223372036854775808, 2⟩,
        ⟨.operator .mul, 21⟩, ⟨.integer 2, 22⟩, ⟨.rightParen, 23⟩] =
          .ok (e, [⟨.rightParen, 23⟩]) := by
  obtain ⟨⟨e, rest⟩, done, two⟩ := exists_ok_of_test
    ((product (atomAt 0 256) .following).run [⟨.minus, 1⟩,
      ⟨.integer 9223372036854775808, 2⟩, ⟨.operator .mul, 21⟩, ⟨.integer 2, 22⟩,
      ⟨.operator .add, 23⟩, ⟨.integer 1, 24⟩])
    (fun read => read.2.length = 2) (by decide +kernel)
  obtain ⟨-, products, -, -⟩ := rules_read_locally 0 256 .following
  obtain ⟨consumed, -, same, again⟩ := products.consumes done
  obtain ⟨rfl, rfl⟩ : [⟨.minus, 1⟩, ⟨.integer 9223372036854775808, 2⟩, ⟨.operator .mul, 21⟩,
      ⟨.integer 2, 22⟩] = consumed ∧ [⟨.operator .add, 23⟩, ⟨.integer 1, 24⟩] = rest :=
    List.append_inj' same (of_decide_eq_true two).symm
  exact ⟨e, done, again [⟨.rightParen, 23⟩] (not_startsWith_rightParen _ 23 [])⟩

end Abacus.Grammar
