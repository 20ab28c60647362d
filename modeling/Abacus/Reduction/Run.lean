/-
**Reductions to the end.**

Every step removes at least one operator, minus sign or group (`Expr.weight_lt_of_step`), so a
reduction ends. `Expr.reduce` runs it until nothing is left to reduce or an operation fails, and
keeps every state on the way.
-/

import Abacus.Expr.Value
import Abacus.Reduction

namespace Abacus

namespace Attempt

/-- If something was reduced, the new state satisfies `property`. -/
def Reaches {α : Type} (property : α → Prop) : Attempt α → Prop
  | reduced _ state => property state
  | irreducible => True
  | failed _ _ => True

theorem reaches_map {α β : Type} {property : β → Prop} {whole : α → β} {attempt : Attempt α} :
    (attempt.map whole).Reaches property ↔ attempt.Reaches fun state => property (whole state) := by
  cases attempt <;> rfl

theorem reaches_orElse {α : Type} {property : α → Prop} {first second : Attempt α}
    (one : first.Reaches property) (two : second.Reaches property) :
    (first <|> second).Reaches property := by
  cases first
  · exact one
  · exact two
  · exact one

theorem Reaches.imp {α : Type} {property weaker : α → Prop} {attempt : Attempt α}
    (reaches : attempt.Reaches property) (implies : ∀ state, property state → weaker state) :
    attempt.Reaches weaker := by
  cases attempt
  · exact implies _ reaches
  · trivial
  · trivial

end Attempt

namespace Expr

/-! ### A step makes an expression lighter -/

theorem reaches_foldSign {operand : Expr} {column bound : Nat} (positive : 0 < bound) :
    (foldSign operand column).Reaches fun state => state.weight < bound := by
  unfold foldSign
  split
  · trivial
  · split
    · exact positive
    · trivial

mutual

theorem reaches_foldSigns :
    ∀ e : Expr, (foldSigns e).Reaches fun state => state.weight < e.weight
  | literal _ _ => trivial
  | group _ _ => trivial
  | negate operand column => by
    have lighter := reaches_foldSigns operand
    rw [foldSigns]
    split
    · exact reaches_foldSign (by simp [weight])
    · trivial
    · rename_i reduced
      rw [reduced] at lighter
      exact Attempt.reaches_orElse (reaches_foldSign (by simp [weight]))
        (Nat.succ_lt_succ lighter)
  | chain head links => by
    have lighter := reaches_foldSigns head
    have lighterLinks := reaches_foldLinksSigns links
    rw [foldSigns]
    cases ran : foldSigns head <;> cases ranLinks : foldLinksSigns links <;>
      simp only [ran, ranLinks, Attempt.Reaches, Attempt.both, Attempt.map, weight]
        at lighter lighterLinks ⊢ <;> omega

theorem reaches_foldLinksSigns :
    ∀ links : List (Link Expr),
      (foldLinksSigns links).Reaches fun state => linksWeight state < linksWeight links
  | [] => trivial
  | ⟨op, operand, column⟩ :: links => by
    have lighter := reaches_foldSigns operand
    have lighterLinks := reaches_foldLinksSigns links
    rw [foldLinksSigns]
    cases ran : foldSigns operand <;> cases ranLinks : foldLinksSigns links <;>
      simp only [ran, ranLinks, Attempt.Reaches, Attempt.both, Attempt.map, linksWeight]
        at lighter lighterLinks ⊢ <;> omega

end

theorem reaches_contractFirst (tier : Tier) (head : Expr) (links : List (Link Expr)) :
    (contractFirst tier head links).Reaches fun state =>
      state.weight < head.weight + linksWeight links := by
  unfold contractFirst
  split
  · trivial
  · split
    · split
      · split
        · simp only [Attempt.Reaches, weight_ofLinks, weight, linksWeight]
          omega
        · trivial
      · trivial
    · trivial

mutual

theorem reaches_contract (tier : Tier) :
    ∀ e : Expr, (contract tier e).Reaches fun state => state.weight < e.weight
  | literal _ _ => trivial
  | group _ _ => trivial
  | negate operand column => by
    rw [contract, Attempt.reaches_map]
    exact (reaches_contract tier operand).imp fun _ lighter => Nat.succ_lt_succ lighter
  | chain head links => by
    rw [contract]
    refine Attempt.reaches_orElse ?_ (Attempt.reaches_orElse ?_ ?_)
    · rw [Attempt.reaches_map]
      exact (reaches_contract tier head).imp fun _ lighter => Nat.add_lt_add_right lighter _
    · exact reaches_contractFirst tier head links
    · rw [Attempt.reaches_map]
      exact (reaches_contractLinks tier links).imp fun _ lighter => Nat.add_lt_add_left lighter _

theorem reaches_contractLinks (tier : Tier) :
    ∀ links : List (Link Expr),
      (contractLinks tier links).Reaches fun state => linksWeight state < linksWeight links
  | [] => trivial
  | ⟨op, operand, column⟩ :: links => by
    rw [contractLinks]
    refine Attempt.reaches_orElse ?_ ?_
    · rw [Attempt.reaches_map]
      refine (reaches_contract tier operand).imp fun _ lighter => ?_
      simp only [linksWeight]
      omega
    · rw [Attempt.reaches_map]
      exact (reaches_contractLinks tier links).imp fun _ lighter => Nat.add_lt_add_left lighter _

end

theorem reaches_reduceFlat (e : Expr) :
    (reduceFlat e).Reaches fun state => state.weight < e.weight :=
  Attempt.reaches_orElse (reaches_foldSigns e) <|
    Attempt.reaches_orElse (reaches_contract .power e) <|
      Attempt.reaches_orElse (reaches_contract .product e) (reaches_contract .sum e)

theorem weight_regroup_le (inner : Expr) (column : Nat) :
    (regroup inner column).weight ≤ inner.weight + 1 := by
  unfold regroup
  split <;> simp [weight]

theorem reaches_reduceInside (inner : Expr) (column : Nat) :
    (reduceInside inner column).Reaches fun state => state.weight < inner.weight + 1 := by
  have lighter := reaches_reduceFlat inner
  unfold reduceInside
  split
  · rename_i reduced
    rw [reduced] at lighter
    exact Nat.lt_of_le_of_lt (weight_regroup_le _ _) (Nat.succ_lt_succ lighter)
  · trivial
  · split
    · exact Nat.succ_pos _
    · trivial

mutual

theorem reaches_reduceGroup :
    ∀ e : Expr, (reduceGroup e).Reaches fun state => state.weight < e.weight
  | literal _ _ => trivial
  | negate operand column => by
    rw [reduceGroup, Attempt.reaches_map]
    exact (reaches_reduceGroup operand).imp fun _ lighter => Nat.succ_lt_succ lighter
  | chain head links => by
    rw [reduceGroup]
    refine Attempt.reaches_orElse ?_ ?_
    · rw [Attempt.reaches_map]
      exact (reaches_reduceGroup head).imp fun _ lighter => Nat.add_lt_add_right lighter _
    · rw [Attempt.reaches_map]
      exact (reaches_reduceGroupLinks links).imp fun _ lighter => Nat.add_lt_add_left lighter _
  | group inner column => by
    rw [reduceGroup]
    refine Attempt.reaches_orElse ?_ (reaches_reduceInside inner column)
    rw [Attempt.reaches_map]
    exact (reaches_reduceGroup inner).imp fun _ lighter => Nat.succ_lt_succ lighter

theorem reaches_reduceGroupLinks :
    ∀ links : List (Link Expr),
      (reduceGroupLinks links).Reaches fun state => linksWeight state < linksWeight links
  | [] => trivial
  | ⟨op, operand, column⟩ :: links => by
    rw [reduceGroupLinks]
    refine Attempt.reaches_orElse ?_ ?_
    · rw [Attempt.reaches_map]
      refine (reaches_reduceGroup operand).imp fun _ lighter => ?_
      simp only [linksWeight]
      omega
    · rw [Attempt.reaches_map]
      exact (reaches_reduceGroupLinks links).imp fun _ lighter => Nat.add_lt_add_left lighter _

end

/-- **A step makes an expression lighter.** -/
theorem weight_lt_of_step {e next : Expr} {reduction : Reduction}
    (stepped : e.step = .reduced reduction next) : next.weight < e.weight := by
  have lighter : e.step.Reaches fun state => state.weight < e.weight :=
    Attempt.reaches_orElse (reaches_reduceGroup e) (reaches_reduceFlat e)
  rwa [stepped] at lighter

end Expr

/-! ### Whole reductions -/

/-- A reduction carried to its end. -/
structure Run where
  /-- The steps in their order, each with the state it led to. -/
  steps : List (Reduction × Expr)
  /-- The error of the step that failed, if one did. -/
  failure : Option RuntimeError
  /-- The state in the end; a step that fails may have changed the state before it. -/
  final : Expr

/-- The value of a reduction: that of its final state, if no step failed. -/
def Run.value (run : Run) : Except RuntimeError Int64 :=
  match run.failure with
  | none => run.final.eval
  | some error => .error error

/-- The reduction of an expression. -/
def Expr.reduce (e : Expr) : Run :=
  match stepped : e.step with
  | .reduced reduction next =>
    have := Expr.weight_lt_of_step stepped
    let run := next.reduce
    ⟨(reduction, next) :: run.steps, run.failure, run.final⟩
  | .irreducible => ⟨[], none, e⟩
  | .failed error state => ⟨[], some error, state⟩
termination_by e.weight

end Abacus
