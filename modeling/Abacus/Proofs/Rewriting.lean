/-
**Reduction steps as rewritings.**

A step of a reduction may fold many minus signs at once, or contract an operation and drop a pair of
parentheses with it. `Expr.Rewrites` is the relation of the single changes: one redex, anywhere in
the expression, becomes its literal. `Expr.Faults` says that some redex has no value.

* `Expr.leaves_step`: the state that a step leaves behind, whether it succeeds or fails, is reached
  by rewritings, and the error of a failure is that of a redex of this state;
* `Expr.Reaches.rewritesTo`, `Expr.rewritesTo_iterate_afterStep`: so is every state of a reduction,
  also one that goes on after a failure.

What holds of one rewriting holds of the steps by these two.
-/

import Abacus.Reduction.Run
import Mathlib.Logic.Function.Iterate
import Mathlib.Logic.Relation

namespace Abacus

open Relation (ReflTransGen)

namespace Attempt

/-- The state left behind satisfies `kept`; after a failure it has the `fault` of the error. -/
def Leaves {α : Type} (kept : α → Prop) (fault : RuntimeError → α → Prop) : Attempt α → Prop
  | reduced _ state => kept state
  | irreducible => True
  | failed error state => kept state ∧ fault error state

/-- The state after an attempt on `before`, whatever the attempt comes to. -/
def stateFrom {α : Type} (before : α) : Attempt α → α
  | reduced _ state | failed _ state => state
  | irreducible => before

variable {α β γ : Type} {kept : α → Prop} {fault : RuntimeError → α → Prop}

theorem Leaves.map {kept' : β → Prop} {fault' : RuntimeError → β → Prop} {whole : α → β}
    {attempt : Attempt α} (leaves : attempt.Leaves kept fault)
    (keeps : ∀ state, kept state → kept' (whole state))
    (faults : ∀ error state, fault error state → fault' error (whole state)) :
    (attempt.map whole).Leaves kept' fault' := by
  cases attempt with
  | reduced reduction state => exact keeps state leaves
  | irreducible => trivial
  | failed error state => exact ⟨keeps state leaves.1, faults error state leaves.2⟩

theorem Leaves.orElse {first second : Attempt α} (one : first.Leaves kept fault)
    (two : second.Leaves kept fault) : (first <|> second).Leaves kept fault := by
  cases first with
  | reduced reduction state => exact one
  | irreducible => exact two
  | failed error state => exact one

theorem Leaves.both {keptB : β → Prop} {faultB : RuntimeError → β → Prop} {keptC : γ → Prop}
    {faultC : RuntimeError → γ → Prop} {whole : α → β → γ} {a : α} {b : β} {first : Attempt α}
    {second : Attempt β} (one : first.Leaves kept fault) (two : second.Leaves keptB faultB)
    (startA : kept a) (startB : keptB b)
    (keeps : ∀ x y, kept x → keptB y → keptC (whole x y))
    (faultsFirst : ∀ error x y, fault error x → faultC error (whole x y))
    (faultsSecond : ∀ error x y, faultB error y → faultC error (whole x y)) :
    (Attempt.both whole a b first second).Leaves keptC faultC := by
  cases first with
  | failed error x => exact ⟨keeps x b one.1 startB, faultsFirst error x b one.2⟩
  | irreducible =>
    exact two.map (fun y keptY => keeps a y startA keptY) (fun error y => faultsSecond error a y)
  | reduced reduction x =>
    cases second with
    | failed error y => exact ⟨keeps x y one two.1, faultsSecond error x y two.2⟩
    | irreducible => exact keeps x b one startB
    | reduced _ y => exact keeps x y one two

end Attempt

namespace Expr

/-! ### The relation -/

/-- One redex of an expression is replaced by its literal. -/
inductive Rewrites : Expr → Expr → Prop
  | fold {value result : Int64} {column inner : Nat}
      (negated : checkedNeg value column = .ok result) :
      Rewrites (.negate (.literal value inner) column) (.literal result column)
  | contract {left right value : Int64} {op : Operator} {start inner column : Nat}
      {links : List (Link Expr)} (applied : op.apply left right column = .ok value) :
      Rewrites (.chain (.literal left start) (⟨op, .literal right inner, column⟩ :: links))
        (ofLinks (.literal value start) links)
  | ungroup {value : Int64} {column inner : Nat} :
      Rewrites (.group (.literal value inner) column) (.literal value column)
  | group {inner next : Expr} {column : Nat} :
      Rewrites inner next → Rewrites (.group inner column) (.group next column)
  | negate {operand next : Expr} {column : Nat} :
      Rewrites operand next → Rewrites (.negate operand column) (.negate next column)
  | head {head next : Expr} {links : List (Link Expr)} :
      Rewrites head next → Rewrites (.chain head links) (.chain next links)
  | operand {head operand next : Expr} {op : Operator} {column : Nat}
      {before links : List (Link Expr)} :
      Rewrites operand next →
      Rewrites (.chain head (before ++ ⟨op, operand, column⟩ :: links))
        (.chain head (before ++ ⟨op, next, column⟩ :: links))

/-- Some redex of an expression has no value but the error. -/
inductive Faults (error : RuntimeError) : Expr → Prop
  | fold {value : Int64} {column inner : Nat} (negated : checkedNeg value column = .error error) :
      Faults error (.negate (.literal value inner) column)
  | contract {left right : Int64} {op : Operator} {start inner column : Nat}
      {links : List (Link Expr)} (applied : op.apply left right column = .error error) :
      Faults error (.chain (.literal left start) (⟨op, .literal right inner, column⟩ :: links))
  | group {inner : Expr} {column : Nat} : Faults error inner → Faults error (.group inner column)
  | negate {operand : Expr} {column : Nat} :
      Faults error operand → Faults error (.negate operand column)
  | head {head : Expr} {links : List (Link Expr)} :
      Faults error head → Faults error (.chain head links)
  | operand {head operand : Expr} {op : Operator} {column : Nat} {before links : List (Link Expr)} :
      Faults error operand → Faults error (.chain head (before ++ ⟨op, operand, column⟩ :: links))

/-- In a chain the first operation, the head or one of the operands is rewritten. -/
theorem Rewrites.chain_cases {head next : Expr} {links : List (Link Expr)}
    (rewrites : Rewrites (.chain head links) next) :
    (∃ left start op right inner column more value, head = .literal left start ∧
      links = ⟨op, .literal right inner, column⟩ :: more ∧
      op.apply left right column = .ok value ∧ next = ofLinks (.literal value start) more) ∨
    (∃ head', Rewrites head head' ∧ next = .chain head' links) ∨
    (∃ before op operand column more operand', Rewrites operand operand' ∧
      links = before ++ ⟨op, operand, column⟩ :: more ∧
      next = .chain head (before ++ ⟨op, operand', column⟩ :: more)) := by
  cases rewrites with
  | contract applied => exact .inl ⟨_, _, _, _, _, _, _, _, rfl, rfl, applied, rfl⟩
  | head inside => exact .inr (.inl ⟨_, inside, rfl⟩)
  | operand inside => exact .inr (.inr ⟨_, _, _, _, _, _, inside, rfl, rfl⟩)

/-- Any number of rewritings. -/
abbrev RewritesTo : Expr → Expr → Prop := ReflTransGen Rewrites

/-- What every rewriting keeps is the same after any number of them. -/
theorem RewritesTo.keeps {α : Type} {part : Expr → α}
    (one : ∀ {e next : Expr}, Rewrites e next → part next = part e) {e next : Expr}
    (rewrites : RewritesTo e next) : part next = part e := by
  induction rewrites with
  | refl => rfl
  | tail _ last ih => rw [one last, ih]

/-- Rewritings in the operands of links, in every chain that ends with these links. -/
def LinksRewriteTo (links next : List (Link Expr)) : Prop :=
  ∀ head before, RewritesTo (chain head (before ++ links)) (chain head (before ++ next))

/-- A redex without a value in the operands of links, in every chain that ends with these links. -/
def LinksFault (error : RuntimeError) (links : List (Link Expr)) : Prop :=
  ∀ head before, Faults error (chain head (before ++ links))

section Congruence

variable {e next : Expr} {op : Operator} {column : Nat} {links more : List (Link Expr)}
  {error : RuntimeError}

theorem RewritesTo.group (rewrites : RewritesTo e next) :
    RewritesTo (.group e column) (.group next column) :=
  rewrites.lift (Expr.group · column) fun _ _ => .group

theorem RewritesTo.negate (rewrites : RewritesTo e next) :
    RewritesTo (.negate e column) (.negate next column) :=
  rewrites.lift (Expr.negate · column) fun _ _ => .negate

theorem RewritesTo.head (rewrites : RewritesTo e next) :
    RewritesTo (.chain e links) (.chain next links) :=
  rewrites.lift (Expr.chain · links) fun _ _ => .head

theorem RewritesTo.operand (rewrites : RewritesTo e next) :
    LinksRewriteTo (⟨op, e, column⟩ :: links) (⟨op, next, column⟩ :: links) := by
  intro head before
  exact rewrites.lift (fun operand => Expr.chain head (before ++ ⟨op, operand, column⟩ :: links))
    fun _ _ => .operand

theorem LinksRewriteTo.tail (rewrites : LinksRewriteTo links more) :
    LinksRewriteTo (⟨op, e, column⟩ :: links) (⟨op, e, column⟩ :: more) := by
  intro head before
  have longer := rewrites head (before ++ [⟨op, e, column⟩])
  simpa only [List.append_assoc, List.singleton_append] using longer

theorem LinksFault.tail (faults : LinksFault error links) :
    LinksFault error (⟨op, e, column⟩ :: links) := by
  intro head before
  have longer := faults head (before ++ [⟨op, e, column⟩])
  simpa only [List.append_assoc, List.singleton_append] using longer

end Congruence

/-! ### The parts of a step -/

theorem leaves_foldSign (operand : Expr) (column : Nat) :
    (foldSign operand column).Leaves (RewritesTo (negate operand column)) Faults := by
  unfold foldSign
  split
  · trivial
  · rename_i value found
    obtain ⟨inner, rfl⟩ := literal?_eq_some_iff.mp found
    split
    · rename_i result negated
      exact .single (.fold negated)
    · rename_i error negated
      exact ⟨.refl, .fold negated⟩

mutual

/-- Folding leaves rewritings behind, also where the sign before a new literal is folded with it. -/
theorem leaves_foldSigns : ∀ e : Expr, (foldSigns e).Leaves (RewritesTo e) Faults
  | literal _ _ => trivial
  | group _ _ => trivial
  | negate operand column => by
    have below := leaves_foldSigns operand
    rw [foldSigns]
    split
    · exact leaves_foldSign operand column
    · rename_i error state ran
      rw [ran] at below
      exact ⟨below.1.negate, below.2.negate⟩
    · rename_i reduction state ran
      rw [ran] at below
      have outer := leaves_foldSign state column
      refine Attempt.Leaves.orElse ?_ below.negate
      cases outerRan : foldSign state column with
      | reduced _ next =>
        rw [outerRan] at outer
        exact below.negate.trans outer
      | irreducible => trivial
      | failed error next =>
        rw [outerRan] at outer
        exact ⟨below.negate.trans outer.1, outer.2⟩
  | chain head links => by
    rw [foldSigns]
    refine (leaves_foldSigns head).both (leaves_foldLinksSigns links) .refl (fun _ _ => .refl)
      ?_ ?_ ?_
    · intro state more headTo linksTo
      exact headTo.head.trans (linksTo state [])
    · intro error state more faults
      exact .head faults
    · intro error state more faults
      exact faults state []

theorem leaves_foldLinksSigns :
    ∀ links : List (Link Expr), (foldLinksSigns links).Leaves (LinksRewriteTo links) LinksFault
  | [] => trivial
  | ⟨op, operand, column⟩ :: links => by
    rw [foldLinksSigns]
    refine (leaves_foldSigns operand).both (leaves_foldLinksSigns links) .refl (fun _ _ => .refl)
      ?_ ?_ ?_
    · intro state more operandTo linksTo head before
      exact (operandTo.operand head before).trans (linksTo.tail head before)
    · intro error state more faults head before
      exact .operand faults
    · intro error state more faults
      exact faults.tail

end

theorem leaves_contractFirst (tier : Tier) (head : Expr) (links : List (Link Expr)) :
    (contractFirst tier head links).Leaves (RewritesTo (chain head links)) Faults := by
  unfold contractFirst
  split
  · trivial
  · split
    · split
      · rename_i left right headFound operandFound
        obtain ⟨start, rfl⟩ := literal?_eq_some_iff.mp headFound
        obtain ⟨inner, rfl⟩ := literal?_eq_some_iff.mp operandFound
        split
        · rename_i value applied
          exact .single (.contract applied)
        · rename_i error applied
          exact ⟨.refl, .contract applied⟩
      · trivial
    · trivial

mutual

theorem leaves_contract (tier : Tier) :
    ∀ e : Expr, (contract tier e).Leaves (RewritesTo e) Faults
  | literal _ _ => trivial
  | group _ _ => trivial
  | negate operand column => by
    rw [contract]
    exact (leaves_contract tier operand).map (fun _ => RewritesTo.negate) fun _ _ => .negate
  | chain head links => by
    rw [contract]
    refine Attempt.Leaves.orElse ?_ (.orElse (leaves_contractFirst tier head links) ?_)
    · exact (leaves_contract tier head).map (fun _ => RewritesTo.head) fun _ _ => .head
    · exact (leaves_contractLinks tier links).map (fun _ linksTo => linksTo head [])
        fun _ _ faults => faults head []

theorem leaves_contractLinks (tier : Tier) :
    ∀ links : List (Link Expr),
      (contractLinks tier links).Leaves (LinksRewriteTo links) LinksFault
  | [] => trivial
  | ⟨op, operand, column⟩ :: links => by
    rw [contractLinks]
    refine Attempt.Leaves.orElse ?_ ?_
    · exact (leaves_contract tier operand).map (fun _ => RewritesTo.operand)
        fun _ _ faults _ _ => .operand faults
    · exact (leaves_contractLinks tier links).map (fun _ => LinksRewriteTo.tail)
        fun _ _ => LinksFault.tail

end

theorem leaves_reduceFlat (e : Expr) : (reduceFlat e).Leaves (RewritesTo e) Faults :=
  (leaves_foldSigns e).orElse <|
    (leaves_contract .power e).orElse <|
      (leaves_contract .product e).orElse (leaves_contract .sum e)

theorem rewritesTo_regroup {inner next : Expr} {column : Nat} (rewrites : RewritesTo inner next) :
    RewritesTo (group inner column) (regroup next column) := by
  unfold regroup
  split
  · rename_i value found
    obtain ⟨start, rfl⟩ := literal?_eq_some_iff.mp found
    exact rewrites.group.tail .ungroup
  · exact rewrites.group

theorem leaves_reduceInside (inner : Expr) (column : Nat) :
    (reduceInside inner column).Leaves (RewritesTo (group inner column)) Faults := by
  have inside := leaves_reduceFlat inner
  unfold reduceInside
  split
  · rename_i reduction next ran
    rw [ran] at inside
    exact rewritesTo_regroup inside
  · rename_i error next ran
    rw [ran] at inside
    exact ⟨inside.1.group, inside.2.group⟩
  · split
    · rename_i value found
      obtain ⟨start, rfl⟩ := literal?_eq_some_iff.mp found
      exact .single .ungroup
    · trivial

mutual

theorem leaves_reduceGroup : ∀ e : Expr, (reduceGroup e).Leaves (RewritesTo e) Faults
  | literal _ _ => trivial
  | negate operand column => by
    rw [reduceGroup]
    exact (leaves_reduceGroup operand).map (fun _ => RewritesTo.negate) fun _ _ => .negate
  | chain head links => by
    rw [reduceGroup]
    refine Attempt.Leaves.orElse ?_ ?_
    · exact (leaves_reduceGroup head).map (fun _ => RewritesTo.head) fun _ _ => .head
    · exact (leaves_reduceGroupLinks links).map (fun _ linksTo => linksTo head [])
        fun _ _ faults => faults head []
  | group inner column => by
    rw [reduceGroup]
    refine Attempt.Leaves.orElse ?_ (leaves_reduceInside inner column)
    exact (leaves_reduceGroup inner).map (fun _ => RewritesTo.group) fun _ _ => .group

theorem leaves_reduceGroupLinks :
    ∀ links : List (Link Expr), (reduceGroupLinks links).Leaves (LinksRewriteTo links) LinksFault
  | [] => trivial
  | ⟨op, operand, column⟩ :: links => by
    rw [reduceGroupLinks]
    refine Attempt.Leaves.orElse ?_ ?_
    · exact (leaves_reduceGroup operand).map (fun _ => RewritesTo.operand)
        fun _ _ faults _ _ => .operand faults
    · exact (leaves_reduceGroupLinks links).map (fun _ => LinksRewriteTo.tail)
        fun _ _ => LinksFault.tail

end

/-- **A step is a sequence of rewritings**, and it fails only at a redex of the state it leaves. -/
theorem leaves_step (e : Expr) : e.step.Leaves (RewritesTo e) Faults :=
  (leaves_reduceGroup e).orElse (leaves_reduceFlat e)

/-! ### The states of a reduction -/

/-- The first expression is reduced to the second by one step. -/
def StepsTo (e next : Expr) : Prop :=
  ∃ reduction, e.step = .reduced reduction next

/-- The second expression is a state of the reduction of the first. -/
def Reaches : Expr → Expr → Prop := ReflTransGen StepsTo

theorem StepsTo.rewritesTo {e next : Expr} (steps : StepsTo e next) : RewritesTo e next := by
  obtain ⟨reduction, stepped⟩ := steps
  have leaves := leaves_step e
  rwa [stepped] at leaves

/-- **Every state of a reduction is reached by rewritings.** -/
theorem Reaches.rewritesTo {e state : Expr} (reaches : Reaches e state) : RewritesTo e state := by
  induction reaches with
  | refl => exact .refl
  | tail _ steps rewrites => exact rewrites.trans steps.rewritesTo

/-- The state after a step, whatever the step comes to. -/
def afterStep (e : Expr) : Expr := e.step.stateFrom e

theorem rewritesTo_afterStep (e : Expr) : RewritesTo e e.afterStep := by
  have leaves := leaves_step e
  unfold afterStep
  cases ran : e.step with
  | reduced reduction state =>
    rw [ran] at leaves
    exact leaves
  | irreducible => exact .refl
  | failed error state =>
    rw [ran] at leaves
    exact leaves.1

/-- **So is every state after any number of steps**, whether they succeed or fail. -/
theorem rewritesTo_iterate_afterStep (e : Expr) (steps : Nat) :
    RewritesTo e (afterStep^[steps] e) := by
  induction steps with
  | zero => exact .refl
  | succ steps ih =>
    rw [Function.iterate_succ_apply']
    exact ih.trans (rewritesTo_afterStep _)

end Expr

end Abacus
