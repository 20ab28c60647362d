/-
**The layers of the states of a reduction.**

In an expression that is read from a text, a chain has operators of one tier, and its operands are
literals, groups or chains of a tighter tier, each with at most one minus sign before it. A reduction
keeps these layers: what fits where a nonterminal is due has them.

* `Expr.BindsTighter`: what may stand between operators without parentheses;
* `Grammar.Fits.tighter`: what fits binds as tightly as the nonterminal says;
* `Grammar.Fits.layered`: so do all operands of the chains and minus signs in it;
* `layers_of_states`: every state of the reduction of a text has layers, and its columns increase.
-/

import Abacus.Proofs.Culprit
import Abacus.Proofs.Progress
import Abacus.Proofs.SourceOrder

namespace Abacus

namespace Expr

/-- A literal, a group, or a chain with operators of one tier whose rank is below the bound. -/
inductive BindsTighter (bound : Nat) : Expr → Prop
  | literal (value : Int64) (column : Nat) : BindsTighter bound (.literal value column)
  | group (inner : Expr) (column : Nat) : BindsTighter bound (.group inner column)
  | chain {tier : Tier} {links : List (Link Expr)} (head : Expr)
      (ofTier : ∀ link ∈ links, link.op.tier = tier) (tighter : tier.rank < bound) :
      BindsTighter bound (.chain head links)

theorem BindsTighter.mono {bound more : Nat} {e : Expr} (tight : BindsTighter bound e)
    (le : bound ≤ more) : BindsTighter more e := by
  cases tight with
  | literal value column => exact .literal value column
  | group inner column => exact .group inner column
  | chain head ofTier tighter => exact .chain head ofTier (Nat.lt_of_lt_of_le tighter le)

/-- An expression without the minus sign before it, if there is one. -/
def withoutSign : Expr → Expr
  | negate operand _ => operand
  | e => e

/-- An operation of an expression has its layers: the operators of a chain are of one tier and its
operands bind tighter, but for a minus sign each; a minus sign stands before a literal, a group or a
power. -/
def Layered : Expr → Prop
  | literal _ _ => True
  | group _ _ => True
  | negate operand _ => BindsTighter Tier.product.rank operand
  | chain head links => links ≠ [] ∧ ∃ tier : Tier, (∀ link ∈ links, link.op.tier = tier) ∧
      BindsTighter tier.rank head.withoutSign ∧
      ∀ link ∈ links, BindsTighter tier.rank link.operand.withoutSign

end Expr

namespace Grammar

open Abacus.Expr (BindsTighter Layered Contains)

variable {room : Nat} {symbol : Symbol} {e : Expr}

/-- What a chain starts with, or the whole chain, binds as tightly as its tier. -/
theorem bindsTighter_ofLinks {tier : Tier} {head : Expr} {links : List (Link Expr)}
    (tight : BindsTighter tier.rank head) (ofTier : ∀ link ∈ links, link.op.tier = tier) :
    BindsTighter (tier.rank + 1) (.ofLinks head links) := by
  cases links with
  | nil => exact tight.mono (Nat.le_succ _)
  | cons link links => exact .chain head ofTier (Nat.lt_succ_self _)

/-- The same of a head that may have a minus sign before it. -/
theorem bindsTighter_withoutSign_ofLinks {tier : Tier} {head : Expr} {links : List (Link Expr)}
    (tight : BindsTighter tier.rank head.withoutSign)
    (ofTier : ∀ link ∈ links, link.op.tier = tier) :
    BindsTighter (tier.rank + 1) (Expr.ofLinks head links).withoutSign := by
  cases links with
  | nil => exact tight.mono (Nat.le_succ _)
  | cons link links => exact .chain head ofTier (Nat.lt_succ_self _)

/-- **What fits binds as tightly as the nonterminal says**, but for a minus sign where the
nonterminal allows one. -/
theorem Fits.tighter (fits : Fits room symbol e) :
    BindsTighter symbol.reach e.withoutSign ∧
      (symbol.isUnsigned = true → BindsTighter symbol.reach e) := by
  induction fits with
  | literal value column _ => exact ⟨.literal value column, fun _ => .literal value column⟩
  | group column _ _ => exact ⟨.group _ column, fun _ => .group _ column⟩
  | unsigned _ ih => exact ⟨ih.1, nofun⟩
  | signed column _ ih => exact ⟨ih.2 rfl, nofun⟩
  | base _ ih => exact ⟨ih.1, nofun⟩
  | plain _ ih => exact ⟨ih.1, nofun⟩
  | negated column _ ih => exact ⟨ih.2 rfl, nofun⟩
  | @chain room tier position head links _ ofTier _ ihHead _ =>
    rw [Symbol.reach_head, Symbol.isUnsigned_head] at ihHead
    exact ⟨bindsTighter_withoutSign_ofLinks ihHead.1 ofTier, fun unsigned =>
      bindsTighter_ofLinks (ihHead.2 unsigned) ofTier⟩

/-- **All operations in what fits have their layers.** -/
theorem Fits.layered (fits : Fits room symbol e) : ∀ part, e.Contains part → part.Layered := by
  induction fits with
  | literal value column _ =>
    rintro part ⟨⟩
    trivial
  | group column _ ih =>
    intro part contains
    cases contains with
    | refl => trivial
    | group inside => exact ih part inside
  | unsigned _ ih => exact ih
  | signed column operand ih =>
    intro part contains
    cases contains with
    | refl => exact (operand.tighter.2 rfl).mono (Nat.zero_le _)
    | negate inside => exact ih part inside
  | base _ ih => exact ih
  | plain _ ih => exact ih
  | negated column power ih =>
    intro part contains
    cases contains with
    | refl => exact power.tighter.2 rfl
    | negate inside => exact ih part inside
  | @chain room tier position head links headFits ofTier operandsFit ihHead ihOperands =>
    cases links with
    | nil => exact ihHead
    | cons link links =>
      intro part contains
      cases contains with
      | refl =>
        have tightHead := headFits.tighter.1
        rw [Symbol.reach_head] at tightHead
        refine ⟨List.cons_ne_nil _ _, tier, ofTier, tightHead, fun link member => ?_⟩
        have tightOperand := (operandsFit link member).tighter.1
        rwa [Symbol.reach_operand] at tightOperand
      | head inside => exact ihHead part inside
      | operand member inside => exact ihOperands _ member part inside

end Grammar

open Grammar Abacus.Expr

/-- **Every state of the reduction of a text has layers, and its columns increase.** Whatever steps
are made, also steps that fail: a chain has a link, and its operators are of one tier; without a
minus sign before it, if there is one, each operand is a literal, a group or a chain of a tighter
tier; a minus sign stands before a literal, a group or a chain of powers, and never before another
minus sign; and the columns of literals, groups, minus signs and operators increase in the order of
the text. -/
theorem layers_of_states {source : String} {e : Expr} (parsed : parse source = .ok e)
    (steps : Nat) :
    (∀ head links, (afterStep^[steps] e).Contains (.chain head links) →
      links ≠ [] ∧ ∃ tier : Tier, (∀ link ∈ links, link.op.tier = tier) ∧
        BindsTighter tier.rank head.withoutSign ∧
        ∀ link ∈ links, BindsTighter tier.rank link.operand.withoutSign) ∧
      (∀ operand column, (afterStep^[steps] e).Contains (.negate operand column) →
        BindsTighter Tier.product.rank operand ∧ ∀ inner other, operand ≠ .negate inner other) ∧
      (afterStep^[steps] e).columns.Pairwise (· < ·) := by
  have rewrites := rewritesTo_iterate_afterStep e steps
  have fits := (fits_of_reaches parsed .refl (Nat.le_refl _)).rewritesTo rewrites
  refine ⟨fun head links => fits.layered (.chain head links), fun operand column contains => ?_,
    increasing_of_parse parsed rewrites⟩
  have tight : BindsTighter Tier.product.rank operand := fits.layered _ contains
  refine ⟨tight, ?_⟩
  rintro inner other rfl
  cases tight

/-- After the first step on `2*-3^2-(4+1)` its group is gone, and the minus sign stands before a
power. -/
theorem layers_of_states_of_negated_power :
    ∃ e, parse "2*-3^2-(4+1)" = .ok e ∧ (afterStep^[1] e).text = "2*-3^2-5" ∧
      (afterStep^[1] e).columns = [1, 2, 3, 4, 5, 6, 7, 8] ∧
      (afterStep^[1] e).columns.Pairwise (· < ·) ∧
      ∀ operand column, (afterStep^[1] e).Contains (.negate operand column) →
        BindsTighter Tier.product.rank operand := by
  obtain ⟨e, parsed, test⟩ := exists_parse_of_test "2*-3^2-(4+1)"
    (fun e => (afterStep^[1] e).text = "2*-3^2-5" ∧
      (afterStep^[1] e).columns = [1, 2, 3, 4, 5, 6, 7, 8]) (by decide +kernel)
  obtain ⟨written, columns⟩ := of_decide_eq_true test
  obtain ⟨-, signs, increasing⟩ := layers_of_states parsed 1
  exact ⟨e, parsed, written, columns, increasing, fun operand column contains =>
    (signs operand column contains).1⟩

end Abacus
