/-
**How high expressions are.**

A run of operators of one tier is one chain, so the height of an expression does not grow with the
length of its text. Between a group and the group around it there are at most a negated base, a
power, a negated power, a product and a sum: six levels with the group itself. A rewriting never
makes an expression higher.

* `Grammar.Symbol.level`: the levels that a nonterminal has outside of its groups;
* `Grammar.Fits.height_le`: the height of what fits is bounded by the room it fits in;
* `Expr.Rewrites.height_le`: what rewriting does to the height;
* `Expr.height_iterate_afterStep_le`: so no number of steps makes an expression higher.
-/

import Abacus.Proofs.Shape

namespace Abacus

namespace Expr

mutual

/-- The height of an expression: literals have height one, anything else is one higher than its
highest part. -/
def height : Expr → Nat
  | literal _ _ => 1
  | group inner _ => inner.height + 1
  | negate operand _ => operand.height + 1
  | chain head links => max head.height (linksHeight links) + 1

/-- The height of the highest operand of links. -/
def linksHeight : List (Link Expr) → Nat
  | [] => 0
  | ⟨_, operand, _⟩ :: links => max operand.height (linksHeight links)

end

theorem linksHeight_le_iff {links : List (Link Expr)} {bound : Nat} :
    linksHeight links ≤ bound ↔ ∀ link ∈ links, link.operand.height ≤ bound := by
  induction links with
  | nil => exact ⟨fun _ => List.forall_mem_nil _, fun _ => Nat.zero_le bound⟩
  | cons link links ih => rw [linksHeight, Nat.max_le, List.forall_mem_cons, ih]

theorem linksHeight_append (before links : List (Link Expr)) :
    linksHeight (before ++ links) = max (linksHeight before) (linksHeight links) := by
  induction before with
  | nil => exact (Nat.max_eq_right (Nat.zero_le _)).symm
  | cons link before ih => rw [List.cons_append, linksHeight, linksHeight, ih, Nat.max_assoc]

theorem height_operand_le {links : List (Link Expr)} {link : Link Expr} (member : link ∈ links) :
    link.operand.height ≤ linksHeight links :=
  linksHeight_le_iff.mp (Nat.le_refl _) link member

theorem height_pos (e : Expr) : 0 < e.height := by
  cases e <;> exact Nat.succ_pos _

theorem height_ofLinks_le {head : Expr} {links : List (Link Expr)} {bound : Nat}
    (headBelow : head.height < bound) (operandsBelow : ∀ link ∈ links, link.operand.height < bound) :
    (ofLinks head links).height ≤ bound := by
  cases links with
  | nil => exact Nat.le_of_lt headBelow
  | cons link links =>
    obtain ⟨less, rfl⟩ := Nat.exists_eq_add_of_lt headBelow
    exact Nat.succ_le_succ (Nat.max_le.mpr ⟨Nat.le_of_lt_succ headBelow,
      linksHeight_le_iff.mpr fun link member => Nat.le_of_lt_succ (operandsBelow link member)⟩)

/-! ### Rewriting -/

/-- **A rewriting makes nothing higher.** The links behind a value were in a chain before. -/
theorem Rewrites.height_le {e next : Expr} (rewrites : Rewrites e next) :
    next.height ≤ e.height := by
  induction rewrites with
  | fold negated => exact Nat.succ_pos _
  | @contract left right value op start inner column links applied =>
    refine height_ofLinks_le (Nat.lt_succ_of_le (Nat.le_max_left _ _)) fun link member => ?_
    have operandBound : link.operand.height ≤
        linksHeight (⟨op, literal right inner, column⟩ :: links) :=
      height_operand_le (List.mem_cons_of_mem _ member)
    exact Nat.lt_succ_of_le (Nat.le_trans operandBound (Nat.le_max_right _ _))
  | ungroup => exact Nat.succ_pos _
  | group _ ih => exact Nat.succ_le_succ ih
  | negate _ ih => exact Nat.succ_le_succ ih
  | @head head next links _ ih =>
    exact Nat.succ_le_succ (Nat.max_le.mpr
      ⟨Nat.le_trans ih (Nat.le_max_left _ _), Nat.le_max_right _ _⟩)
  | operand _ ih =>
    rw [height, height, linksHeight_append, linksHeight_append, linksHeight, linksHeight]
    omega

theorem RewritesTo.height_le {e next : Expr} (rewrites : RewritesTo e next) :
    next.height ≤ e.height := by
  induction rewrites with
  | refl => exact Nat.le_refl _
  | tail _ last ih => exact Nat.le_trans last.height_le ih

/-- **No step makes an expression higher**, whether it succeeds or fails. -/
theorem height_iterate_afterStep_le (e : Expr) (steps : Nat) :
    (afterStep^[steps] e).height ≤ e.height :=
  (rewritesTo_iterate_afterStep e steps).height_le

end Expr

/-! ### What fits -/

namespace Grammar

/-- The greatest height that an expression has where the nonterminal is due, if groups have the
height of literals. -/
def Symbol.level : Symbol → Nat
  | atom => 1
  | signed => 2
  | chain .power _ => 3
  | factor _ => 4
  | chain .product _ => 5
  | chain .sum _ => 6

theorem Symbol.level_pos (symbol : Symbol) : 0 < symbol.level := by
  unfold level
  split <;> exact Nat.succ_pos _

theorem Symbol.level_head_lt (tier : Tier) (position : Position) :
    (Symbol.head tier position).level < (Symbol.chain tier position).level := by
  cases tier <;> cases position <;> decide

theorem Symbol.level_operand_lt (tier : Tier) (position : Position) :
    (Symbol.operand tier).level < (Symbol.chain tier position).level := by
  cases tier <;> exact Nat.lt_succ_self _

/-- **The height of what fits.** Every group that there is room for adds the six levels of an
expression. -/
theorem Fits.height_le {room : Nat} {symbol : Symbol} {e : Expr} (fits : Fits room symbol e) :
    e.height ≤ 6 * room + symbol.level := by
  induction fits with
  | @literal room symbol value column _ => exact Nat.le_add_left_of_le symbol.level_pos
  | group column _ ih => exact Nat.succ_le_succ ih
  | unsigned _ ih => exact Nat.le_succ_of_le ih
  | signed column _ ih => exact Nat.succ_le_succ ih
  | base _ ih => exact Nat.le_succ_of_le ih
  | plain _ ih => exact Nat.le_succ_of_le ih
  | negated column _ ih => exact Nat.succ_le_succ ih
  | @chain room tier position head links _ _ _ ihHead ihOperands =>
    have headLevel := Symbol.level_head_lt tier position
    have operandLevel := Symbol.level_operand_lt tier position
    refine Expr.height_ofLinks_le (Nat.lt_of_le_of_lt ihHead ?_) fun link member => ?_
    · exact Nat.add_lt_add_left headLevel _
    · exact Nat.lt_of_le_of_lt (ihOperands link member) (Nat.add_lt_add_left operandLevel _)

end Grammar

end Abacus
