/-
**Reductions make progress and end.**

A step finds nothing to reduce exactly where there is no redex (`Expr.step_eq_irreducible_iff`). In
an expression whose chains all have links (`Expr.Linked`) the only such state is a literal, so a
reduction that does not fail ends there.

* `Expr.step_group_eq_irreducible_iff` and its companions: what is left when a step finds nothing,
  for each form of expressions;
* `Expr.Linked.step_eq_irreducible_iff`: progress;
* `Expr.StepsIn.weight_le`, `Expr.stepsIn_reduce`: how many steps there are, and that a reduction
  makes them until there are no more;
* `Grammar.Derivation.weight_lt`: an expression is lighter than its text has tokens;
* `reduction_ends_in_literal`: all of it together.
-/

import Abacus.Proofs.Shape

namespace Abacus

open Abacus.Expr (Rewrites RewritesTo Faults)

/-! ### Attempts that find nothing -/

namespace Attempt

variable {α β γ : Type}

@[simp]
theorem map_eq_irreducible_iff {whole : α → β} {attempt : Attempt α} :
    attempt.map whole = .irreducible ↔ attempt = .irreducible := by
  cases attempt <;> simp [map]

@[simp]
theorem orElse_eq_irreducible_iff {first second : Attempt α} :
    (first <|> second) = .irreducible ↔ first = .irreducible ∧ second = .irreducible := by
  cases first with
  | reduced reduction state => exact ⟨nofun, nofun⟩
  | irreducible => exact ⟨fun nothing => ⟨rfl, nothing⟩, And.right⟩
  | failed error state => exact ⟨nofun, nofun⟩

@[simp]
theorem both_eq_irreducible_iff {whole : α → β → γ} {a : α} {b : β} {first : Attempt α}
    {second : Attempt β} :
    Attempt.both whole a b first second = .irreducible ↔
      first = .irreducible ∧ second = .irreducible := by
  cases first <;> cases second <;> simp [both, map]

end Attempt

namespace Expr

variable {operand inner head : Expr} {links : List (Link Expr)} {column : Nat} {tier : Tier}

theorem foldSign_eq_irreducible_iff :
    foldSign operand column = .irreducible ↔ operand.literal? = none := by
  unfold foldSign
  split
  · rename_i noLiteral
    exact ⟨fun _ => noLiteral, fun _ => rfl⟩
  · rename_i found
    split <;> simp [found]

@[simp]
theorem foldSigns_negate_eq_irreducible_iff :
    foldSigns (negate operand column) = .irreducible ↔
      foldSigns operand = .irreducible ∧ operand.literal? = none := by
  rw [foldSigns]
  split
  · rename_i nothing
    rw [foldSign_eq_irreducible_iff, nothing]
    exact ⟨fun noLiteral => ⟨rfl, noLiteral⟩, And.right⟩
  · rename_i failed
    simp [failed]
  · rename_i reduced
    simp [reduced]

@[simp]
theorem foldLinksSigns_eq_irreducible_iff :
    foldLinksSigns links = .irreducible ↔
      ∀ link ∈ links, foldSigns link.operand = .irreducible := by
  induction links with
  | nil => simp [foldLinksSigns]
  | cons link links ih => simp [foldLinksSigns, ih]

@[simp]
theorem contractLinks_eq_irreducible_iff :
    contractLinks tier links = .irreducible ↔
      ∀ link ∈ links, contract tier link.operand = .irreducible := by
  induction links with
  | nil => simp [contractLinks]
  | cons link links ih => simp [contractLinks, ih]

@[simp]
theorem reduceGroupLinks_eq_irreducible_iff :
    reduceGroupLinks links = .irreducible ↔
      ∀ link ∈ links, reduceGroup link.operand = .irreducible := by
  induction links with
  | nil => simp [reduceGroupLinks]
  | cons link links ih => simp [reduceGroupLinks, ih]

/-- The first of the links stands between two literals. -/
def StartsBetweenLiterals (head : Expr) : List (Link Expr) → Prop
  | [] => False
  | link :: _ => (∃ left, head.literal? = some left) ∧ ∃ right, link.operand.literal? = some right

theorem contractFirst_eq_irreducible_iff :
    (∀ tier, contractFirst tier head links = .irreducible) ↔
      ¬ StartsBetweenLiterals head links := by
  cases links with
  | nil => exact ⟨fun _ => not_false, fun _ _ => rfl⟩
  | cons link links =>
    obtain ⟨op, operand, column⟩ := link
    simp only [contractFirst, StartsBetweenLiterals]
    constructor
    · rintro nothing ⟨⟨left, headFound⟩, right, operandFound⟩
      have found := nothing op.tier
      rw [if_pos rfl, headFound, operandFound] at found
      cases applied : op.apply left right column <;> simp only [applied, reduceCtorEq] at found
    · intro notBetween tier
      split
      · split
        · rename_i left right headFound operandFound
          exact absurd ⟨⟨left, headFound⟩, right, operandFound⟩ notBetween
        · rfl
      · rfl

theorem reduceFlat_eq_irreducible_iff {e : Expr} :
    reduceFlat e = .irreducible ↔
      foldSigns e = .irreducible ∧ ∀ tier, contract tier e = .irreducible := by
  simp only [reduceFlat, Attempt.orElse_eq_irreducible_iff]
  refine and_congr_right fun _ => ⟨?_, fun nothing => ⟨nothing _, nothing _, nothing _⟩⟩
  rintro ⟨power, product, sum⟩ tier
  cases tier <;> assumption

theorem reduceInside_eq_irreducible_iff :
    reduceInside inner column = .irreducible ↔
      reduceFlat inner = .irreducible ∧ inner.literal? = none := by
  unfold reduceInside
  split
  · rename_i reduced
    simp [reduced]
  · rename_i failed
    simp [failed]
  · split <;> simp [*]

/-! ### Steps that find nothing -/

theorem step_eq_irreducible_iff_parts {e : Expr} :
    e.step = .irreducible ↔ reduceGroup e = .irreducible ∧ foldSigns e = .irreducible ∧
      ∀ tier, contract tier e = .irreducible := by
  rw [step, Attempt.orElse_eq_irreducible_iff, reduceFlat_eq_irreducible_iff]

theorem step_group_eq_irreducible_iff :
    (group inner column).step = .irreducible ↔
      inner.step = .irreducible ∧ inner.literal? = none := by
  have flat : foldSigns (group inner column) = .irreducible ∧
      ∀ tier, contract tier (group inner column) = .irreducible := ⟨rfl, fun _ => rfl⟩
  rw [step_eq_irreducible_iff_parts, and_iff_left flat, reduceGroup,
    Attempt.orElse_eq_irreducible_iff, Attempt.map_eq_irreducible_iff,
    reduceInside_eq_irreducible_iff, step, Attempt.orElse_eq_irreducible_iff, and_assoc]

theorem step_negate_eq_irreducible_iff :
    (negate operand column).step = .irreducible ↔
      operand.step = .irreducible ∧ operand.literal? = none := by
  simp only [step_eq_irreducible_iff_parts, reduceGroup, contract,
    foldSigns_negate_eq_irreducible_iff, Attempt.map_eq_irreducible_iff]
  constructor
  · rintro ⟨groups, ⟨signs, noLiteral⟩, operations⟩
    exact ⟨⟨groups, signs, operations⟩, noLiteral⟩
  · rintro ⟨⟨groups, signs, operations⟩, noLiteral⟩
    exact ⟨groups, ⟨signs, noLiteral⟩, operations⟩

theorem step_chain_eq_irreducible_iff :
    (chain head links).step = .irreducible ↔
      head.step = .irreducible ∧ (∀ link ∈ links, link.operand.step = .irreducible) ∧
        ¬ StartsBetweenLiterals head links := by
  rw [← contractFirst_eq_irreducible_iff]
  simp only [step_eq_irreducible_iff_parts, reduceGroup, foldSigns, contract,
    Attempt.orElse_eq_irreducible_iff, Attempt.map_eq_irreducible_iff,
    Attempt.both_eq_irreducible_iff, reduceGroupLinks_eq_irreducible_iff,
    foldLinksSigns_eq_irreducible_iff, contractLinks_eq_irreducible_iff, forall_and]
  constructor
  · rintro ⟨⟨groups, linkGroups⟩, ⟨signs, linkSigns⟩, operations, first, linkOperations⟩
    exact ⟨⟨groups, signs, operations⟩, ⟨linkGroups, linkSigns,
      fun link member tier => linkOperations tier link member⟩, first⟩
  · rintro ⟨⟨groups, signs, operations⟩, ⟨linkGroups, linkSigns, linkOperations⟩, first⟩
    exact ⟨⟨groups, linkGroups⟩, ⟨signs, linkSigns⟩, operations, first,
      fun tier link member => linkOperations link member tier⟩

/-! ### Redexes -/

/-- Where a step finds nothing, nothing can be rewritten. -/
theorem Rewrites.step_ne_irreducible {e next : Expr} (rewrites : Rewrites e next) :
    e.step ≠ .irreducible := by
  intro nothing
  induction rewrites with
  | fold negated => exact nomatch (step_negate_eq_irreducible_iff.mp nothing).2
  | contract applied =>
    exact (step_chain_eq_irreducible_iff.mp nothing).2.2 ⟨⟨_, rfl⟩, _, rfl⟩
  | ungroup => exact nomatch (step_group_eq_irreducible_iff.mp nothing).2
  | group _ ih => exact ih (step_group_eq_irreducible_iff.mp nothing).1
  | negate _ ih => exact ih (step_negate_eq_irreducible_iff.mp nothing).1
  | head _ ih => exact ih (step_chain_eq_irreducible_iff.mp nothing).1
  | operand _ ih =>
    exact ih ((step_chain_eq_irreducible_iff.mp nothing).2.1 _ (List.mem_append_cons_self ..))

theorem Faults.step_ne_irreducible {e : Expr} {error : RuntimeError} (faults : Faults error e) :
    e.step ≠ .irreducible := by
  intro nothing
  induction faults with
  | fold negated => exact nomatch (step_negate_eq_irreducible_iff.mp nothing).2
  | contract applied =>
    exact (step_chain_eq_irreducible_iff.mp nothing).2.2 ⟨⟨_, rfl⟩, _, rfl⟩
  | group _ ih => exact ih (step_group_eq_irreducible_iff.mp nothing).1
  | negate _ ih => exact ih (step_negate_eq_irreducible_iff.mp nothing).1
  | head _ ih => exact ih (step_chain_eq_irreducible_iff.mp nothing).1
  | operand _ ih =>
    exact ih ((step_chain_eq_irreducible_iff.mp nothing).2.1 _ (List.mem_append_cons_self ..))

/-- **A step finds nothing exactly where there is no redex**, with a value or without one. -/
theorem step_eq_irreducible_iff {e : Expr} :
    e.step = .irreducible ↔ (∀ next, ¬ Rewrites e next) ∧ ∀ error, ¬ Faults error e := by
  constructor
  · intro nothing
    exact ⟨fun next rewrites => rewrites.step_ne_irreducible nothing,
      fun error faults => faults.step_ne_irreducible nothing⟩
  · rintro ⟨noRewrites, noFaults⟩
    have stays {state : Expr} (rewrites : RewritesTo e state) : state = e := by
      rcases Relation.ReflTransGen.cases_head rewrites with rfl | ⟨next, first, -⟩
      · rfl
      · exact absurd first (noRewrites next)
    have leaves := leaves_step e
    cases ran : e.step with
    | reduced reduction state =>
      rw [ran] at leaves
      have lighter := weight_lt_of_step ran
      rw [stays leaves] at lighter
      exact absurd lighter (Nat.lt_irrefl _)
    | irreducible => rfl
    | failed error state =>
      rw [ran] at leaves
      exact absurd (stays leaves.1 ▸ leaves.2) (noFaults error)

/-! ### Progress -/

/-- Every chain of the expression has a link. -/
inductive Linked : Expr → Prop
  | literal (value : Int64) (column : Nat) : Linked (.literal value column)
  | group {inner : Expr} (column : Nat) : Linked inner → Linked (.group inner column)
  | negate {operand : Expr} (column : Nat) : Linked operand → Linked (.negate operand column)
  | chain {head : Expr} {link : Link Expr} {links : List (Link Expr)} :
      Linked head → (∀ other ∈ link :: links, Linked other.operand) →
        Linked (.chain head (link :: links))

namespace Linked

variable {e next state : Expr}

theorem ofLinks (headLinked : Linked head) (operandsLinked : ∀ link ∈ links, Linked link.operand) :
    Linked (.ofLinks head links) := by
  cases links with
  | nil => exact headLinked
  | cons link links => exact .chain headLinked operandsLinked

/-- A rewriting leaves no chain without links. -/
theorem rewrites (linked : Linked e) (rewrites : Rewrites e next) : Linked next := by
  induction linked generalizing next with
  | literal value column => cases rewrites
  | group column _ ih =>
    cases rewrites with
    | ungroup => exact .literal _ _
    | group inside => exact .group column (ih inside)
  | negate column _ ih =>
    cases rewrites with
    | fold negated => exact .literal _ _
    | negate inside => exact .negate column (ih inside)
  | @chain head link links headLinked operandsLinked ihHead ihOperands =>
    rcases Rewrites.chain_cases rewrites with
      ⟨left, start, op, right, inner, column, more, value, rfl, same, -, rfl⟩ |
      ⟨head', inside, rfl⟩ | ⟨before, op, operand, column, more, operand', inside, same, rfl⟩
    · obtain ⟨rfl, rfl⟩ := List.cons.inj same
      exact .ofLinks (.literal _ _) (List.forall_mem_cons.mp operandsLinked).2
    · exact .chain (ihHead inside) operandsLinked
    · rw [same] at operandsLinked ihOperands
      obtain ⟨linkedBefore, linkedFrom⟩ := List.forall_mem_append.mp operandsLinked
      have linkedMore := (List.forall_mem_cons.mp linkedFrom).2
      have linkedOperand := ihOperands ⟨op, operand, column⟩ (List.mem_append_cons_self ..) inside
      rw [← ofLinks_append_cons]
      exact .ofLinks headLinked (List.forall_mem_append.mpr
        ⟨linkedBefore, List.forall_mem_cons.mpr ⟨linkedOperand, linkedMore⟩⟩)

theorem rewritesTo (linked : Linked e) (rewrites : RewritesTo e next) : Linked next := by
  induction rewrites with
  | refl => exact linked
  | tail _ last ih => exact ih.rewrites last

/-- **Progress**: where all chains have links, a step finds nothing only in a literal. -/
theorem exists_eq_literal (linked : Linked e) (nothing : e.step = .irreducible) :
    ∃ value column, e = .literal value column := by
  induction linked with
  | literal value column => exact ⟨value, column, rfl⟩
  | group column _ ih =>
    obtain ⟨stuck, noLiteral⟩ := step_group_eq_irreducible_iff.mp nothing
    obtain ⟨value, start, rfl⟩ := ih stuck
    cases noLiteral
  | negate column _ ih =>
    obtain ⟨stuck, noLiteral⟩ := step_negate_eq_irreducible_iff.mp nothing
    obtain ⟨value, start, rfl⟩ := ih stuck
    cases noLiteral
  | chain _ _ ihHead ihOperands =>
    obtain ⟨stuckHead, stuckOperands, notBetween⟩ := step_chain_eq_irreducible_iff.mp nothing
    obtain ⟨left, start, rfl⟩ := ihHead stuckHead
    obtain ⟨right, inner, same⟩ :=
      ihOperands _ List.mem_cons_self (stuckOperands _ List.mem_cons_self)
    exact absurd ⟨⟨left, rfl⟩, right, same ▸ rfl⟩ notBetween

theorem step_eq_irreducible_iff_literal (linked : Linked e) :
    e.step = .irreducible ↔ ∃ value column, e = .literal value column := by
  refine ⟨linked.exists_eq_literal, ?_⟩
  rintro ⟨value, column, rfl⟩
  rfl

end Linked

/-! ### Runs -/

/-- The second expression is the state after as many steps, each of which reduces something. -/
inductive StepsIn : Nat → Expr → Expr → Prop
  | refl (e : Expr) : StepsIn 0 e e
  | head {count : Nat} {e next state : Expr} :
      StepsTo e next → StepsIn count next state → StepsIn (count + 1) e state

theorem StepsIn.reaches {count : Nat} {e state : Expr} (steps : StepsIn count e state) :
    Reaches e state := by
  induction steps with
  | refl => exact .refl
  | head first _ ih => exact .head first ih

/-- Every step takes away some of the weight. -/
theorem StepsIn.weight_le {count : Nat} {e state : Expr} (steps : StepsIn count e state) :
    count + state.weight ≤ e.weight := by
  induction steps with
  | refl e => exact Nat.le_of_eq (Nat.zero_add _)
  | head first _ ih =>
    obtain ⟨reduction, stepped⟩ := first
    have lighter := weight_lt_of_step stepped
    omega

/-- A reduction makes steps until one finds nothing or fails. -/
theorem stepsIn_reduce (e : Expr) :
    ∃ state, StepsIn e.reduce.steps.length e state ∧
      (e.reduce.failure = none → state.step = .irreducible ∧ e.reduce.final = state) ∧
      ∀ error, e.reduce.failure = some error → state.step = .failed error e.reduce.final := by
  fun_induction Expr.reduce e with
  | case1 e reduction next stepped lighter run ih =>
    obtain ⟨state, steps, ends, fails⟩ := ih
    exact ⟨state, .head ⟨reduction, stepped⟩ steps, ends, fails⟩
  | case2 e stepped => exact ⟨e, .refl e, fun _ => ⟨stepped, rfl⟩, nofun⟩
  | case3 e error state stepped =>
    refine ⟨e, .refl e, nofun, fun other same => ?_⟩
    cases same
    exact stepped

/-- A reduction that does not fail ends in a literal. -/
theorem Linked.exists_final_eq_literal {e : Expr} (linked : e.Linked)
    (succeeds : e.reduce.failure = none) :
    ∃ value column, e.reduce.final = .literal value column := by
  obtain ⟨state, steps, ends, -⟩ := stepsIn_reduce e
  obtain ⟨nothing, final⟩ := ends succeeds
  rw [final]
  exact (linked.rewritesTo steps.reaches.rewritesTo).exists_eq_literal nothing

/-- So its outcome is an error only if it fails. -/
theorem Linked.reduce_value_eq_error_iff {e : Expr} (linked : e.Linked) {error : RuntimeError} :
    e.reduce.value = .error error ↔ e.reduce.failure = some error := by
  rw [Run.value]
  cases failed : e.reduce.failure with
  | none =>
    obtain ⟨value, column, final⟩ := linked.exists_final_eq_literal failed
    rw [final]
    exact ⟨nofun, nofun⟩
  | some fault => simp

end Expr

/-! ### Texts -/

namespace Grammar

theorem Fits.linked {room : Nat} {symbol : Symbol} {e : Expr} (fits : Fits room symbol e) :
    e.Linked := by
  induction fits with
  | literal value column _ => exact .literal value column
  | group column _ ih => exact .group column ih
  | unsigned _ ih => exact ih
  | signed column _ ih => exact .negate column ih
  | base _ ih => exact ih
  | plain _ ih => exact ih
  | negated column _ ih => exact .negate column ih
  | chain _ _ _ ihHead ihOperands => exact .ofLinks ihHead ihOperands

mutual

/-- **An expression is lighter than its text has tokens.** -/
theorem Derivation.weight_lt {symbol : Symbol} {lexemes : List Lexeme} {e : Expr} :
    Derivation symbol lexemes e → e.weight < lexemes.length
  | .integer _ _ _ => Nat.zero_lt_one
  | .group _ _ inside => by
    have lighter := inside.weight_lt
    simp only [Expr.weight, List.length_cons, List.length_append, List.length_nil]
    omega
  | .unsigned operand => operand.weight_lt
  | .signed _ operand => Nat.succ_lt_succ operand.weight_lt
  | .leastSigned _ _ _ _ => Nat.zero_lt_two
  | .base power => power.weight_lt
  | .plain power => power.weight_lt
  | .negated _ power => Nat.succ_lt_succ power.weight_lt
  | .leastFactor _ _ _ _ => Nat.zero_lt_two
  | .alone operand => operand.weight_lt
  | .chain first next => by
    rw [Expr.weight, List.length_append]
    exact Nat.add_lt_add_of_lt_of_le first.weight_lt next.weight_le

theorem LinksDerivation.weight_le {tier : Tier} {lexemes : List Lexeme}
    {links : List (Link Expr)} :
    LinksDerivation tier lexemes links → Expr.linksWeight links ≤ lexemes.length
  | .nil => Nat.le_refl 0
  | .cons _ _ _ operand next => by
    have lighter := operand.weight_lt
    have lighterNext := next.weight_le
    simp only [Expr.linksWeight, List.length_cons, List.length_append]
    omega

end

end Grammar

open Grammar Abacus.Expr

theorem linked_of_parse {source : String} {e : Expr} (parsed : parse source = .ok e) : e.Linked :=
  (fits_of_reaches parsed .refl (Nat.le_refl _)).linked

theorem weight_lt_of_parse {source : String} {e : Expr} (parsed : parse source = .ok e) :
    ∃ lexemes, tokenize source = .ok lexemes ∧ e.weight < lexemes.length := by
  obtain ⟨lexemes, read, parsed⟩ := bind_eq_ok_iff.mp parsed
  obtain ⟨⟨derivation⟩, -⟩ := derivation_of_parseLexemes parsed
  exact ⟨lexemes, read, derivation.weight_lt⟩

/-- **A reduction that does not fail ends in a literal.** A step that reduces something makes the
expression lighter; a step that finds nothing leaves it as it was, and there is no redex in it.
Where all chains have links they have them after any steps, and a step finds nothing in a literal
only. So the reduction of a text makes fewer steps than the text has tokens, and it ends in a
literal or at a step that fails. -/
theorem reduction_ends_in_literal :
    (∀ e : Expr,
      (∀ reduction next, e.step = .reduced reduction next → next.weight < e.weight) ∧
        (e.step = .irreducible → e.afterStep = e ∧ ∀ next, ¬ Rewrites e next)) ∧
      (∀ e : Expr, e.Linked → ∀ steps, (afterStep^[steps] e).Linked ∧
        ((afterStep^[steps] e).step = .irreducible ↔
          ∃ value column, afterStep^[steps] e = .literal value column)) ∧
      ∀ source e, parse source = .ok e → e.Linked ∧
        (∃ lexemes, tokenize source = .ok lexemes ∧ e.weight < lexemes.length) ∧
        (∀ count state, StepsIn count e state → count ≤ e.weight) ∧
        ∃ state, StepsIn e.reduce.steps.length e state ∧
          (e.reduce.failure = none →
            e.reduce.final = state ∧ ∃ value column, state = .literal value column) ∧
          ∀ error, e.reduce.failure = some error → state.step = .failed error e.reduce.final := by
  refine ⟨fun e => ⟨fun reduction next => weight_lt_of_step, fun nothing => ⟨?_, ?_⟩⟩,
    fun e linked steps => ?_, fun source e parsed => ?_⟩
  · rw [afterStep, nothing]
    rfl
  · exact (step_eq_irreducible_iff.mp nothing).1
  · have stateLinked := linked.rewritesTo (rewritesTo_iterate_afterStep e steps)
    exact ⟨stateLinked, stateLinked.step_eq_irreducible_iff_literal⟩
  · have linked := linked_of_parse parsed
    obtain ⟨state, steps, ends, fails⟩ := stepsIn_reduce e
    refine ⟨linked, weight_lt_of_parse parsed, fun count other steps => ?_, state, steps, ?_, fails⟩
    · exact Nat.le_of_add_right_le steps.weight_le
    · intro succeeds
      obtain ⟨-, final⟩ := ends succeeds
      exact ⟨final, final ▸ linked.exists_final_eq_literal succeeds⟩

/-- The reduction of `2*(4-5)` ends in a literal. -/
theorem reduction_ends_in_literal_of_product :
    ∃ e, parse "2*(4-5)" = .ok e ∧ e.afterStep.Linked ∧ e.reduce.failure = none ∧
      ∃ value column, e.reduce.final = .literal value column := by
  have succeeds : (match parse "2*(4-5)" with
      | .ok e => decide (e.reduce.failure = none)
      | .error _ => false) = true := by decide +kernel
  cases parsed : parse "2*(4-5)" with
  | error cause =>
    rw [parsed] at succeeds
    cases succeeds
  | ok e =>
    rw [parsed] at succeeds
    have noFailure := of_decide_eq_true succeeds
    obtain ⟨-, linkedAfter, texts⟩ := reduction_ends_in_literal
    obtain ⟨linked, -, -, state, -, ends, -⟩ := texts _ e parsed
    obtain ⟨final, value, column, same⟩ := ends noFailure
    exact ⟨e, rfl, (linkedAfter e linked 1).1, noFailure, value, column, final.trans same⟩

end Abacus
