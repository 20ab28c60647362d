/-
**Stepwise reduction.**

One step of a reduction works in the region that is the inside of the leftmost group without groups
in it, or the whole expression if there is no group. In the region it folds all minus signs that
stand before literals, or else contracts the leftmost operation of the tightest tier that has two
literals. A group that has become a literal loses its parentheses in the same step.

* `Attempt`: what trying to reduce a thing comes to;
* `Expr.step`: one step of a reduction.
-/

import Abacus.Expr

namespace Abacus

/-- What a step of a reduction has done. -/
inductive Reduction where
  /-- The parentheses around a literal are gone. -/
  | group (value : Int64) (column : Nat)
  /-- Minus signs before literals are folded; this is the leftmost of them. -/
  | negation (value : Int64) (column : Nat)
  /-- An operation on two literals is replaced by its value. -/
  | operation (left : Int64) (op : Operator) (right : Int64) (value : Int64) (column : Nat)
  deriving DecidableEq

/-- The outcome of an attempt to reduce something. -/
inductive Attempt (α : Type) where
  /-- It was reduced to `state`. -/
  | reduced (reduction : Reduction) (state : α)
  /-- There is nothing to reduce in it. -/
  | irreducible
  /-- Its next operation has no value; `state` is how far the step came. -/
  | failed (error : RuntimeError) (state : α)

namespace Attempt

/-- An attempt on a part as an attempt on the whole. -/
def map {α β : Type} (whole : α → β) : Attempt α → Attempt β
  | reduced reduction state => .reduced reduction (whole state)
  | irreducible => .irreducible
  | failed error state => .failed error (whole state)

/-- The first attempt, or the second where there is nothing to reduce in the first. -/
def orElse {α : Type} (first : Attempt α) (second : Unit → Attempt α) : Attempt α :=
  match first with
  | irreducible => second ()
  | settled => settled

instance {α : Type} : OrElse (Attempt α) := ⟨orElse⟩

/-- Attempts on both parts `a` and `b` of a whole, the second unless the first fails. Of two
reductions the first is reported. -/
def both {α β γ : Type} (whole : α → β → γ) (a : α) (b : β) (first : Attempt α)
    (second : Attempt β) : Attempt γ :=
  match first with
  | failed error state => .failed error (whole state b)
  | irreducible => second.map (whole a)
  | reduced reduction state =>
    match second with
    | failed error other => .failed error (whole state other)
    | irreducible => .reduced reduction (whole state b)
    | reduced _ other => .reduced reduction (whole state other)

end Attempt

namespace Expr

/-! ### Folding minus signs -/

/-- A minus sign before a literal becomes part of the literal. -/
def foldSign (operand : Expr) (column : Nat) : Attempt Expr :=
  match operand.literal? with
  | none => .irreducible
  | some value =>
    match checkedNeg value column with
    | .ok result => .reduced (.negation result column) (.literal result column)
    | .error error => .failed error (.negate operand column)

mutual

/-- Every minus sign before a literal folded, outside of groups; the leftmost is reported. -/
def foldSigns : Expr → Attempt Expr
  | literal _ _ => .irreducible
  | group _ _ => .irreducible
  | negate operand column =>
    match foldSigns operand with
    | .irreducible => foldSign operand column
    | .failed error operand => .failed error (negate operand column)
    | .reduced reduction operand =>
      foldSign operand column <|> .reduced reduction (negate operand column)
  | chain head links => .both chain head links (foldSigns head) (foldLinksSigns links)

/-- The minus signs folded in the operands of links. -/
def foldLinksSigns : List (Link Expr) → Attempt (List (Link Expr))
  | [] => .irreducible
  | ⟨op, operand, column⟩ :: links =>
    .both (fun operand links => ⟨op, operand, column⟩ :: links) operand links
      (foldSigns operand) (foldLinksSigns links)

end

/-! ### Contracting an operation -/

/-- The first operation of a chain, if it is of the tier and its operands are literals. -/
def contractFirst (tier : Tier) (head : Expr) : List (Link Expr) → Attempt Expr
  | [] => .irreducible
  | ⟨op, operand, column⟩ :: links =>
    if op.tier = tier then
      match head.literal?, operand.literal? with
      | some left, some right =>
        match op.apply left right column with
        | .ok value =>
          .reduced (.operation left op right value column)
            (ofLinks (literal value head.column) links)
        | .error error => .failed error (chain head (⟨op, operand, column⟩ :: links))
      | _, _ => .irreducible
    else .irreducible

mutual

/-- The leftmost operation of a tier on two literals contracted, outside of groups. -/
def contract (tier : Tier) : Expr → Attempt Expr
  | literal _ _ => .irreducible
  | group _ _ => .irreducible
  | negate operand column => (contract tier operand).map (negate · column)
  | chain head links =>
    (contract tier head).map (chain · links) <|> contractFirst tier head links <|>
      (contractLinks tier links).map (chain head)

/-- The leftmost operation of a tier contracted in the operands of links. -/
def contractLinks (tier : Tier) : List (Link Expr) → Attempt (List (Link Expr))
  | [] => .irreducible
  | ⟨op, operand, column⟩ :: links =>
    (contract tier operand).map (⟨op, ·, column⟩ :: links) <|>
      (contractLinks tier links).map (⟨op, operand, column⟩ :: ·)

end

/-- One reduction outside of groups: minus signs before operations, tight tiers before loose. -/
def reduceFlat (e : Expr) : Attempt Expr :=
  foldSigns e <|> contract .power e <|> contract .product e <|> contract .sum e

/-! ### Groups -/

/-- What remains of a group when its inside is reduced: a literal needs no parentheses. -/
def regroup (inner : Expr) (column : Nat) : Expr :=
  match inner.literal? with
  | some value => literal value column
  | none => group inner column

/-- A reduction in a group that has no groups in it. -/
def reduceInside (inner : Expr) (column : Nat) : Attempt Expr :=
  match reduceFlat inner with
  | .reduced reduction inner => .reduced reduction (regroup inner column)
  | .failed error inner => .failed error (group inner column)
  | .irreducible =>
    match inner.literal? with
    | some value => .reduced (.group value column) (literal value column)
    | none => .irreducible

mutual

/-- A reduction in the leftmost of the innermost groups. -/
def reduceGroup : Expr → Attempt Expr
  | literal _ _ => .irreducible
  | negate operand column => (reduceGroup operand).map (negate · column)
  | chain head links =>
    (reduceGroup head).map (chain · links) <|> (reduceGroupLinks links).map (chain head)
  | group inner column => (reduceGroup inner).map (group · column) <|> reduceInside inner column

/-- A reduction in the leftmost of the innermost groups of the operands of links. -/
def reduceGroupLinks : List (Link Expr) → Attempt (List (Link Expr))
  | [] => .irreducible
  | ⟨op, operand, column⟩ :: links =>
    (reduceGroup operand).map (⟨op, ·, column⟩ :: links) <|>
      (reduceGroupLinks links).map (⟨op, operand, column⟩ :: ·)

end

/-- One step of a reduction: in a group as long as there is one to reduce in. -/
def step (e : Expr) : Attempt Expr :=
  reduceGroup e <|> reduceFlat e

end Expr

end Abacus
