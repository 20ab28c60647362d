/-
**Texts with the same tokens.**

The columns of tokens take no part in what they are read as: tokens with other columns have the same
derivations, of the same expressions but for the columns (`Expr.withoutColumns`).

* `Expr.outcome_withoutColumns`: the columns of an expression take no part in its outcome;
* `Grammar.Derivation.recolumn`: the columns of tokens take no part in their derivations;
* `parse_of_same_tokens`: a text with the tokens of an expression is read as this expression.
-/

import Abacus.Proofs.Outcome
import Abacus.Proofs.Parsing

namespace Abacus

namespace Expr

/-! ### Expressions without columns -/

mutual

/-- An expression with all its columns set to zero. -/
def withoutColumns : Expr → Expr
  | literal value _ => literal value 0
  | group inner _ => group inner.withoutColumns 0
  | negate operand _ => negate operand.withoutColumns 0
  | chain head links => chain head.withoutColumns (linksWithoutColumns links)

/-- Links with all their columns set to zero. -/
def linksWithoutColumns : List (Link Expr) → List (Link Expr)
  | [] => []
  | ⟨op, operand, _⟩ :: links => ⟨op, operand.withoutColumns, 0⟩ :: linksWithoutColumns links

end

@[simp]
theorem withoutColumns_ofLinks (head : Expr) (links : List (Link Expr)) :
    (ofLinks head links).withoutColumns =
      ofLinks head.withoutColumns (linksWithoutColumns links) := by
  cases links with
  | nil => rfl
  | cons link links => rw [ofLinks, withoutColumns, linksWithoutColumns, ofLinks]

theorem outcome_chain (head : Expr) (links : List (Link Expr)) :
    (chain head links).outcome = head.outcome >>= fun value => outcomeLinks value links := by
  rw [outcome, eval, mapError_bind]
  rfl

mutual

/-- **The columns of an expression take no part in its outcome.** -/
theorem outcome_withoutColumns : ∀ e : Expr, e.withoutColumns.outcome = e.outcome
  | literal _ _ => rfl
  | group inner _ => by
    rw [withoutColumns, outcome_group, outcome_group, outcome_withoutColumns inner]
  | negate operand _ => by
    rw [withoutColumns, outcome_negate, outcome_negate, outcome_withoutColumns operand]
  | chain head links => by
    rw [withoutColumns, outcome_chain, outcome_chain, outcome_withoutColumns head]
    simp only [outcomeLinks_withoutColumns links]

theorem outcomeLinks_withoutColumns : ∀ (links : List (Link Expr)) (left : Int64),
    outcomeLinks left (linksWithoutColumns links) = outcomeLinks left links
  | [], _ => rfl
  | ⟨op, operand, _⟩ :: links, left => by
    rw [linksWithoutColumns, outcomeLinks_cons, outcomeLinks_cons, outcome_withoutColumns operand]
    simp only [outcomeLinks_withoutColumns links]

end

theorem outcome_eq_of_withoutColumns_eq {e e' : Expr}
    (same : e'.withoutColumns = e.withoutColumns) : e'.outcome = e.outcome := by
  rw [← outcome_withoutColumns e', same, outcome_withoutColumns]

end Expr

/-! ### Derivations from other columns -/

namespace Grammar

mutual

/-- **Tokens with other columns have the same derivation**, of the same expression but for the
columns. -/
theorem Derivation.recolumn {symbol : Symbol} {lexemes : List Lexeme} {e : Expr} :
    Derivation symbol lexemes e → ∀ lexemes', tokensOf lexemes' = tokensOf lexemes →
      ∃ e', Derives symbol lexemes' e' ∧ e'.withoutColumns = e.withoutColumns
  | .integer magnitude _ small, lexemes', same => by
    obtain ⟨⟨_, column⟩, rfl, rfl⟩ := List.map_eq_singleton_iff.mp same
    exact ⟨_, ⟨.integer magnitude column small⟩, rfl⟩
  | .group _ _ inside, lexemes', same => by
    rw [tokensOf, tokensOf, List.map_cons, List.map_append] at same
    obtain ⟨⟨_, opening⟩, behind, rfl, rfl, sameBehind⟩ := List.map_eq_cons_iff.mp same
    obtain ⟨between, last, rfl, sameBetween, sameLast⟩ := List.map_eq_append_iff.mp sameBehind
    obtain ⟨⟨_, closing⟩, rfl, rfl⟩ := List.map_eq_singleton_iff.mp sameLast
    obtain ⟨inner, ⟨derivation⟩, sameInner⟩ := inside.recolumn between sameBetween
    exact ⟨_, ⟨.group opening closing derivation⟩, by
      rw [Expr.withoutColumns, Expr.withoutColumns, sameInner]⟩
  | .unsigned operand, lexemes', same => by
    obtain ⟨e', ⟨derivation⟩, sameExpr⟩ := operand.recolumn lexemes' same
    exact ⟨e', ⟨.unsigned derivation⟩, sameExpr⟩
  | .signed _ operand, lexemes', same => by
    obtain ⟨⟨_, column⟩, behind, rfl, rfl, sameBehind⟩ := List.map_eq_cons_iff.mp same
    obtain ⟨e', ⟨derivation⟩, sameExpr⟩ := operand.recolumn behind sameBehind
    exact ⟨_, ⟨.signed column derivation⟩, by
      rw [Expr.withoutColumns, Expr.withoutColumns, sameExpr]⟩
  | .leastSigned magnitude _ _ least, lexemes', same => by
    obtain ⟨⟨_, column⟩, behind, rfl, rfl, sameBehind⟩ := List.map_eq_cons_iff.mp same
    obtain ⟨⟨_, magnitudeColumn⟩, rfl, rfl⟩ := List.map_eq_singleton_iff.mp sameBehind
    exact ⟨_, ⟨.leastSigned magnitude column magnitudeColumn least⟩, rfl⟩
  | .base power, lexemes', same => by
    obtain ⟨e', ⟨derivation⟩, sameExpr⟩ := power.recolumn lexemes' same
    exact ⟨e', ⟨.base derivation⟩, sameExpr⟩
  | .plain power, lexemes', same => by
    obtain ⟨e', ⟨derivation⟩, sameExpr⟩ := power.recolumn lexemes' same
    exact ⟨e', ⟨.plain derivation⟩, sameExpr⟩
  | .negated _ power, lexemes', same => by
    obtain ⟨⟨_, column⟩, behind, rfl, rfl, sameBehind⟩ := List.map_eq_cons_iff.mp same
    obtain ⟨e', ⟨derivation⟩, sameExpr⟩ := power.recolumn behind sameBehind
    exact ⟨_, ⟨.negated column derivation⟩, by
      rw [Expr.withoutColumns, Expr.withoutColumns, sameExpr]⟩
  | .leastFactor magnitude _ _ least, lexemes', same => by
    obtain ⟨⟨_, column⟩, behind, rfl, rfl, sameBehind⟩ := List.map_eq_cons_iff.mp same
    obtain ⟨⟨_, magnitudeColumn⟩, rfl, rfl⟩ := List.map_eq_singleton_iff.mp sameBehind
    exact ⟨_, ⟨.leastFactor magnitude column magnitudeColumn least⟩, rfl⟩
  | .alone operand, lexemes', same => by
    obtain ⟨e', ⟨derivation⟩, sameExpr⟩ := operand.recolumn lexemes' same
    exact ⟨e', ⟨.alone derivation⟩, sameExpr⟩
  | .chain first next, lexemes', same => by
    rw [tokensOf, tokensOf, List.map_append] at same
    obtain ⟨before, behind, rfl, sameFirst, sameNext⟩ := List.map_eq_append_iff.mp same
    obtain ⟨e', ⟨derivation⟩, sameExpr⟩ := first.recolumn before sameFirst
    obtain ⟨links', ⟨linksDerivation⟩, sameLinks⟩ := next.recolumn behind sameNext
    refine ⟨_, derives_ofLinks derivation linksDerivation, ?_⟩
    rw [Expr.withoutColumns_ofLinks, sameExpr, sameLinks]
    rfl

theorem LinksDerivation.recolumn {tier : Tier} {lexemes : List Lexeme} {links : List (Link Expr)} :
    LinksDerivation tier lexemes links → ∀ lexemes', tokensOf lexemes' = tokensOf lexemes →
      ∃ links', Nonempty (LinksDerivation tier lexemes' links') ∧
        Expr.linksWithoutColumns links' = Expr.linksWithoutColumns links
  | .nil, lexemes', same => by
    rw [List.map_eq_nil_iff.mp same]
    exact ⟨[], ⟨.nil⟩, rfl⟩
  | .cons op _ ofTier operand next, lexemes', same => by
    rw [tokensOf, tokensOf, List.map_cons, List.map_append] at same
    obtain ⟨⟨_, column⟩, behind, rfl, rfl, sameBehind⟩ := List.map_eq_cons_iff.mp same
    obtain ⟨first, last, rfl, sameFirst, sameLast⟩ := List.map_eq_append_iff.mp sameBehind
    obtain ⟨e', ⟨derivation⟩, sameExpr⟩ := operand.recolumn first sameFirst
    obtain ⟨links', ⟨linksDerivation⟩, sameLinks⟩ := next.recolumn last sameLast
    exact ⟨_, ⟨.cons op column ofTier derivation linksDerivation⟩, by
      rw [Expr.linksWithoutColumns, Expr.linksWithoutColumns, sameExpr, sameLinks]⟩

end

end Grammar

open Grammar

/-! ### Texts with the same tokens -/

/-- **A text with the same tokens is read as the same expression**, but for the columns. -/
theorem parse_of_same_tokens {source text : String} {lexemes lexemes' : List Lexeme} {e : Expr}
    (parsed : parse source = .ok e) (read : tokenize source = .ok lexemes)
    (reread : tokenize text = .ok lexemes') (same : tokensOf lexemes' = tokensOf lexemes) :
    ∃ e', parse text = .ok e' ∧ e'.withoutColumns = e.withoutColumns := by
  rw [parse, read, ok_bind] at parsed
  obtain ⟨⟨derivation⟩, shallow⟩ := derivation_of_parseLexemes parsed
  obtain ⟨e', ⟨derivation'⟩, sameExpr⟩ := derivation.recolumn lexemes' same
  refine ⟨e', ?_, sameExpr⟩
  rw [parse, reread, ok_bind]
  exact parseLexemes_of_derivation derivation' (same ▸ shallow) _

end Abacus
