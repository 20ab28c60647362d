/-
**How deep calls are nested.**

Evaluating, writing and reducing an expression are recursions whose calls go to parts of the
expression; the links of a chain are passed through by loops. The body of such a recursion is taken
apart from its calls (`Expr.evalCall`, `Expr.tokensCall`, `Expr.StepCall.enter`), and `NestsWithin`
says that a value does not depend on what any calls nested deeper would give.

* `nestsWithin_of_rank`: a recursion whose calls go to arguments of lower rank nests its calls within
  the rank;
* `Expr.nestsWithin_eval`, `Expr.nestsWithin_tokens`, `Expr.nestsWithin_step`: the height of an
  expression bounds the calls for its value, its text and its steps;
* `height_of_states`: the states of a text have no more levels than its parentheses allow, however
  long the text is, so the calls for them are nested within a constant.
-/

import Abacus.Expr.Text
import Abacus.Expr.Value
import Abacus.Proofs.Height
import Mathlib.Data.List.Basic

namespace Abacus

/-! ### Recursions and their bodies -/

section Recursion

variable {ι α : Type}

/-- The recursion with this body comes to the value without calls nested deeper than `depth`:
whatever `deeper` gives for those, the value is the same. -/
def NestsWithin (body : (ι → α) → ι → α) (depth : Nat) (argument : ι) (value : α) : Prop :=
  ∀ deeper : ι → α, body^[depth] deeper argument = value

/-- **A recursion nests its calls within the rank of its argument** if every call goes to an argument
of lower rank. -/
theorem nestsWithin_of_rank {body : (ι → α) → ι → α} {function : ι → α} {rank : ι → Nat}
    (positive : ∀ argument, 0 < rank argument)
    (unfolds : ∀ argument, function argument = body function argument)
    (lower : ∀ call argument, (∀ part, rank part < rank argument → call part = function part) →
      body call argument = body function argument)
    {depth : Nat} {argument : ι} (enough : rank argument ≤ depth) :
    NestsWithin body depth argument (function argument) := by
  intro deeper
  induction depth generalizing argument with
  | zero => exact absurd enough (Nat.not_le.mpr (positive argument))
  | succ depth ih =>
    rw [Function.iterate_succ_apply', unfolds argument]
    exact lower _ _ fun part less => ih (Nat.le_of_lt_succ (Nat.lt_of_lt_of_le less enough))

end Recursion

namespace Expr

theorem height_head_lt (head : Expr) (links : List (Link Expr)) :
    head.height < (chain head links).height :=
  Nat.lt_succ_of_le (Nat.le_max_left _ _)

theorem height_operand_lt (head : Expr) {links : List (Link Expr)} {link : Link Expr}
    (member : link ∈ links) : link.operand.height < (chain head links).height :=
  Nat.lt_succ_of_le (Nat.le_trans (height_operand_le member) (Nat.le_max_right _ _))

/-! ### Evaluation -/

/-- What evaluation does with an expression, with `call` for its parts. -/
def evalCall (call : Expr → Except RuntimeError Int64) : Expr → Except RuntimeError Int64
  | literal value _ => .ok value
  | group inner _ => call inner
  | negate operand column => do
    let value ← call operand
    checkedNeg value column
  | chain head links => do
    let value ← call head
    links.foldlM (fun left link => do
      let right ← call link.operand
      link.op.apply left right link.column) value

theorem evalLinks_eq_foldlM (left : Int64) (links : List (Link Expr)) :
    evalLinks left links = links.foldlM (fun left link => do
      let right ← link.operand.eval
      link.op.apply left right link.column) left := by
  induction links generalizing left with
  | nil => rfl
  | cons link links ih =>
    rw [evalLinks, List.foldlM_cons]
    simp only [bind_assoc, ih]

theorem eval_eq_evalCall (e : Expr) : e.eval = evalCall eval e := by
  cases e with
  | literal value column => rw [eval, evalCall]
  | group inner column => rw [eval, evalCall]
  | negate operand column => rw [eval, evalCall]
  | chain head links =>
    rw [eval, evalCall]
    simp only [evalLinks_eq_foldlM]

theorem foldlM_eq_of_mem {ε α β : Type} {f g : β → α → Except ε β} {l : List α}
    (same : ∀ value, ∀ a ∈ l, f value a = g value a) {value : β} :
    l.foldlM f value = l.foldlM g value := by
  induction l generalizing value with
  | nil => rfl
  | cons a l ih =>
    obtain ⟨first, later⟩ := forall_and.mp fun value => List.forall_mem_cons.mp (same value)
    rw [List.foldlM_cons, List.foldlM_cons, first]
    exact congrArg _ (funext fun _ => ih later)

theorem evalCall_of_lower {call : Expr → Except RuntimeError Int64} {e : Expr}
    (same : ∀ part : Expr, part.height < e.height → call part = part.eval) :
    evalCall call e = evalCall eval e := by
  cases e with
  | literal value column => rfl
  | group inner column => exact same inner (Nat.lt_succ_self _)
  | negate operand column => rw [evalCall, evalCall, same operand (Nat.lt_succ_self _)]
  | chain head links =>
    rw [evalCall, evalCall, same head (height_head_lt head links)]
    refine congrArg _ (funext fun left => foldlM_eq_of_mem fun value link member => ?_)
    rw [same link.operand (height_operand_lt head member)]

/-- **The calls for the value of an expression** are nested within its height. -/
theorem nestsWithin_eval {e : Expr} {depth : Nat} (enough : e.height ≤ depth) :
    NestsWithin evalCall depth e e.eval :=
  nestsWithin_of_rank height_pos eval_eq_evalCall (fun _ _ => evalCall_of_lower) enough

/-! ### Writing -/

/-- What writing does with an expression, with `call` for its parts. -/
def tokensCall (call : Expr → List Token) : Expr → List Token
  | literal value _ => Token.ofValue value
  | group inner _ => enclosed (call inner)
  | negate operand _ =>
    .minus :: if operand.isNegativeLiteral then enclosed (call operand) else call operand
  | chain head links =>
    (if head.isNegativeLiteral && startWithPower links then enclosed (call head) else call head) ++
      links.flatMap fun link => .operator link.op :: call link.operand

theorem tokens_eq_tokensCall (e : Expr) : e.tokens = tokensCall tokens e := by
  cases e with
  | literal value column => rw [tokens, tokensCall]
  | group inner column => rw [tokens, tokensCall]
  | negate operand column => rw [tokens, tokensCall]
  | chain head links => rw [tokens, tokensCall, linksTokens_eq_flatMap]

theorem tokensCall_of_lower {call : Expr → List Token} {e : Expr}
    (same : ∀ part : Expr, part.height < e.height → call part = part.tokens) :
    tokensCall call e = tokensCall tokens e := by
  cases e with
  | literal value column => rfl
  | group inner column => rw [tokensCall, tokensCall, same inner (Nat.lt_succ_self _)]
  | negate operand column => rw [tokensCall, tokensCall, same operand (Nat.lt_succ_self _)]
  | chain head links =>
    rw [tokensCall, tokensCall, same head (height_head_lt head links)]
    refine congrArg _ (List.flatMap_congr fun link member => ?_)
    rw [same link.operand (height_operand_lt head member)]

/-- **The calls for the text of an expression** are nested within its height. -/
theorem nestsWithin_tokens {e : Expr} {depth : Nat} (enough : e.height ≤ depth) :
    NestsWithin tokensCall depth e e.tokens :=
  nestsWithin_of_rank height_pos tokens_eq_tokensCall (fun _ _ => tokensCall_of_lower) enough

/-! ### Steps -/

/-- The calls of a step: itself, and those of its parts that search through an expression. -/
inductive StepCall
  | step (e : Expr)
  | inGroup (e : Expr)
  | flat (e : Expr)
  | fold (e : Expr)
  | contract (tier : Tier) (e : Expr)

/-- The first of the operands of links in which an attempt finds something. -/
def searchLinks (attempt : Expr → Attempt Expr) :
    List (Link Expr) → Attempt (List (Link Expr))
  | [] => .irreducible
  | ⟨op, operand, column⟩ :: links =>
    (attempt operand).map (⟨op, ·, column⟩ :: links) <|>
      (searchLinks attempt links).map (⟨op, operand, column⟩ :: ·)

/-- Attempts on all operands of links. -/
def sweepLinks (attempt : Expr → Attempt Expr) : List (Link Expr) → Attempt (List (Link Expr))
  | [] => .irreducible
  | ⟨op, operand, column⟩ :: links =>
    .both (fun operand links => ⟨op, operand, column⟩ :: links) operand links (attempt operand)
      (sweepLinks attempt links)

/-- What remains of a group after an attempt on its inside. -/
def closeGroup (inner : Expr) (column : Nat) : Attempt Expr → Attempt Expr
  | .reduced reduction inner => .reduced reduction (regroup inner column)
  | .failed error inner => .failed error (group inner column)
  | .irreducible =>
    match inner.literal? with
    | some value => .reduced (.group value column) (literal value column)
    | none => .irreducible

/-- A sign after an attempt on its operand. -/
def closeSign (operand : Expr) (column : Nat) : Attempt Expr → Attempt Expr
  | .irreducible => foldSign operand column
  | .failed error operand => .failed error (negate operand column)
  | .reduced reduction operand =>
    foldSign operand column <|> .reduced reduction (negate operand column)

namespace StepCall

/-- What a call comes to. -/
def result : StepCall → Attempt Expr
  | step e => e.step
  | inGroup e => reduceGroup e
  | flat e => reduceFlat e
  | fold e => foldSigns e
  | contract tier e => Expr.contract tier e

/-- What a call does, with `call` for the calls that it makes. -/
def enter (call : StepCall → Attempt Expr) : StepCall → Attempt Expr
  | step e => call (inGroup e) <|> call (flat e)
  | flat e =>
    call (fold e) <|> call (contract .power e) <|> call (contract .product e) <|>
      call (contract .sum e)
  | inGroup (.literal _ _) | fold (.literal _ _) | contract _ (.literal _ _) => .irreducible
  | fold (.group _ _) | contract _ (.group _ _) => .irreducible
  | inGroup (.group inner column) =>
    (call (inGroup inner)).map (group · column) <|> closeGroup inner column (call (flat inner))
  | inGroup (.negate operand column) => (call (inGroup operand)).map (negate · column)
  | fold (.negate operand column) => closeSign operand column (call (fold operand))
  | contract tier (.negate operand column) => (call (contract tier operand)).map (negate · column)
  | inGroup (.chain head links) =>
    (call (inGroup head)).map (chain · links) <|>
      (searchLinks (fun operand => call (inGroup operand)) links).map (chain head)
  | fold (.chain head links) =>
    .both chain head links (call (fold head)) (sweepLinks (fun operand => call (fold operand)) links)
  | contract tier (.chain head links) =>
    (call (contract tier head)).map (chain · links) <|> contractFirst tier head links <|>
      (searchLinks (fun operand => call (contract tier operand)) links).map (chain head)

/-- A bound on the calls below a call: the height of its expression, and more for the calls that
pass the same expression on. -/
def rank : StepCall → Nat
  | step e => e.height + 2
  | inGroup e | flat e => e.height + 1
  | fold e | contract _ e => e.height

theorem rank_pos : ∀ call : StepCall, 0 < call.rank
  | step _ | inGroup _ | flat _ => Nat.succ_pos _
  | fold e | contract _ e => e.height_pos

end StepCall

section Links

variable {links : List (Link Expr)}

theorem foldLinksSigns_eq_sweepLinks : foldLinksSigns links = sweepLinks foldSigns links := by
  induction links with
  | nil => rw [foldLinksSigns, sweepLinks]
  | cons link links ih => rw [foldLinksSigns, sweepLinks, ih]

theorem contractLinks_eq_searchLinks (tier : Tier) :
    contractLinks tier links = searchLinks (contract tier) links := by
  induction links with
  | nil => rw [contractLinks, searchLinks]
  | cons link links ih => rw [contractLinks, searchLinks, ih]

theorem reduceGroupLinks_eq_searchLinks : reduceGroupLinks links = searchLinks reduceGroup links := by
  induction links with
  | nil => rw [reduceGroupLinks, searchLinks]
  | cons link links ih => rw [reduceGroupLinks, searchLinks, ih]

variable {call other : StepCall → Attempt Expr} (ask : Expr → StepCall)

theorem sweepLinks_congr
    (same : ∀ link ∈ links, call (ask link.operand) = other (ask link.operand)) :
    sweepLinks (fun operand => call (ask operand)) links =
      sweepLinks (fun operand => other (ask operand)) links := by
  induction links with
  | nil => rfl
  | cons link links ih =>
    obtain ⟨first, later⟩ := List.forall_mem_cons.mp same
    rw [sweepLinks, sweepLinks, first, ih later]

theorem searchLinks_congr
    (same : ∀ link ∈ links, call (ask link.operand) = other (ask link.operand)) :
    searchLinks (fun operand => call (ask operand)) links =
      searchLinks (fun operand => other (ask operand)) links := by
  induction links with
  | nil => rfl
  | cons link links ih =>
    obtain ⟨first, later⟩ := List.forall_mem_cons.mp same
    rw [searchLinks, searchLinks, first, ih later]

end Links

theorem reduceInside_eq_closeGroup (inner : Expr) (column : Nat) :
    reduceInside inner column = closeGroup inner column (reduceFlat inner) := by
  unfold reduceInside
  cases reduceFlat inner <;> rfl

theorem foldSigns_negate_eq_closeSign (operand : Expr) (column : Nat) :
    foldSigns (negate operand column) = closeSign operand column (foldSigns operand) := by
  rw [foldSigns]
  cases foldSigns operand <;> rfl

namespace StepCall

theorem result_eq_enter (call : StepCall) : call.result = enter result call := by
  cases call with
  | step e => rfl
  | flat e => rfl
  | inGroup e =>
    cases e with
    | literal value column => rw [result, reduceGroup, enter]
    | group inner column => rw [result, reduceGroup, enter, reduceInside_eq_closeGroup]; rfl
    | negate operand column => rw [result, reduceGroup, enter]; rfl
    | chain head links =>
      rw [result, reduceGroup, enter, reduceGroupLinks_eq_searchLinks]
      rfl
  | fold e =>
    cases e with
    | literal value column => rw [result, foldSigns, enter]
    | group inner column => rw [result, foldSigns, enter]
    | negate operand column => rw [result, foldSigns_negate_eq_closeSign, enter]; rfl
    | chain head links => rw [result, foldSigns, enter, foldLinksSigns_eq_sweepLinks]; rfl
  | contract tier e =>
    cases e with
    | literal value column => rw [result, Expr.contract, enter]
    | group inner column => rw [result, Expr.contract, enter]
    | negate operand column => rw [result, Expr.contract, enter]; rfl
    | chain head links =>
      rw [result, Expr.contract, enter, contractLinks_eq_searchLinks]
      rfl

/-- A call depends on calls of lower rank only. -/
theorem enter_of_lower {call : StepCall → Attempt Expr} {argument : StepCall}
    (same : ∀ part : StepCall, part.rank < argument.rank → call part = part.result) :
    enter call argument = enter result argument := by
  cases argument with
  | step e =>
    have inGroup := same (inGroup e) (Nat.lt_succ_self _)
    have flat := same (flat e) (Nat.lt_succ_self _)
    rw [enter, enter, inGroup, flat]
  | flat e =>
    have fold := same (fold e) (Nat.lt_succ_self _)
    have contract tier := same (contract tier e) (Nat.lt_succ_self _)
    rw [enter, enter, fold, contract, contract, contract]
  | inGroup e =>
    cases e with
    | literal value column => rfl
    | group inner column =>
      have inGroup := same (inGroup inner) (Nat.lt_succ_self _)
      have flat := same (flat inner) (Nat.lt_succ_self _)
      rw [enter, enter, inGroup, flat]
    | negate operand column =>
      have inGroup := same (inGroup operand) (Nat.lt_succ_self _)
      rw [enter, enter, inGroup]
    | chain head links =>
      have inHead := same (inGroup head) (Nat.succ_lt_succ (height_head_lt head links))
      have inLinks := searchLinks_congr inGroup fun link member =>
        same (inGroup link.operand) (Nat.succ_lt_succ (height_operand_lt head member))
      rw [enter, enter, inHead, inLinks]
  | fold e =>
    cases e with
    | literal value column => rfl
    | group inner column => rfl
    | negate operand column =>
      have fold := same (fold operand) (Nat.lt_succ_self _)
      rw [enter, enter, fold]
    | chain head links =>
      have foldHead := same (fold head) (height_head_lt head links)
      have foldLinks := sweepLinks_congr fold fun link member =>
        same (fold link.operand) (height_operand_lt head member)
      rw [enter, enter, foldHead, foldLinks]
  | contract tier e =>
    cases e with
    | literal value column => rfl
    | group inner column => rfl
    | negate operand column =>
      have contract := same (contract tier operand) (Nat.lt_succ_self _)
      rw [enter, enter, contract]
    | chain head links =>
      have contractHead := same (contract tier head) (height_head_lt head links)
      have contractLinks := searchLinks_congr (contract tier) fun link member =>
        same (contract tier link.operand) (height_operand_lt head member)
      rw [enter, enter, contractHead, contractLinks]

end StepCall

/-- **The calls of a step** are nested within two more than the height of the expression. -/
theorem nestsWithin_step {e : Expr} {depth : Nat} (enough : e.height + 2 ≤ depth) :
    NestsWithin StepCall.enter depth (.step e) e.step :=
  nestsWithin_of_rank StepCall.rank_pos StepCall.result_eq_enter
    (fun _ _ => StepCall.enter_of_lower) enough

/-- The calls for the value, the text and a step of an expression are nested within the depth. -/
structure CallsWithin (depth : Nat) (e : Expr) : Prop where
  value : NestsWithin evalCall depth e e.eval
  text : NestsWithin tokensCall depth e e.tokens
  step : NestsWithin StepCall.enter depth (.step e) e.step

theorem callsWithin_of_height {e : Expr} {depth : Nat} (enough : e.height + 2 ≤ depth) :
    CallsWithin depth e where
  value := nestsWithin_eval (Nat.le_trans (Nat.le_add_right _ 2) enough)
  text := nestsWithin_tokens (Nat.le_trans (Nat.le_add_right _ 2) enough)
  step := nestsWithin_step enough

end Expr

open Grammar Abacus.Expr

/-- **How high the states of a text are.** An expression that is read from a text has at most six
levels for each level of parentheses and the outermost one, and there are at most 256 of those,
however long the text is. No step makes any expression higher. So the calls for the value, the text
and the next step of every state are nested within a constant. -/
theorem height_of_states {source : String} {e : Expr} (parsed : parse source = .ok e) :
    nesting source ≤ maxNesting ∧ e.height ≤ 6 * (nesting source + 1) ∧ e.height ≤ 1542 ∧
      (∀ state : Expr, state.afterStep.height ≤ state.height) ∧
      ∀ steps, (afterStep^[steps] e).height ≤ e.height ∧ CallsWithin 1544 (afterStep^[steps] e) := by
  have shallow : nesting source ≤ 256 := nesting_le_of_parse parsed
  have bound : e.height ≤ 6 * nesting source + 6 :=
    (fits_of_reaches parsed .refl (Nat.le_refl _)).height_le
  have constant : e.height ≤ 1542 := by omega
  refine ⟨shallow, bound, constant, fun state => height_iterate_afterStep_le state 1,
    fun steps => ?_⟩
  have lower := height_iterate_afterStep_le e steps
  exact ⟨lower, callsWithin_of_height (by omega)⟩

/-- A text with one level of parentheses whose expression has all of the twelve levels. -/
theorem height_of_states_of_all_levels :
    nesting "1+1*-2^-(1+1*-2^-3)" = 1 ∧
      ∃ e, parse "1+1*-2^-(1+1*-2^-3)" = .ok e ∧ e.height = 12 ∧
        e.height ≤ 6 * (nesting "1+1*-2^-(1+1*-2^-3)" + 1) ∧ CallsWithin 1544 (afterStep^[1] e) := by
  obtain ⟨e, parsed, high⟩ := exists_parse_of_test "1+1*-2^-(1+1*-2^-3)"
    (fun e => e.height = 12) (by decide +kernel)
  obtain ⟨-, bound, -, -, states⟩ := height_of_states parsed
  exact ⟨by decide +kernel, e, parsed, of_decide_eq_true high, bound, (states 1).2⟩

end Abacus
