/-
**Which error is reported.**

An expression may have several operations that fail on values (`Expr.failures`). Evaluation and
reduction meet them in different orders: evaluation from the left, reduction by groups, signs and
tiers. Each reports the one it meets first, so tracing the reduction of a text may change what is
told about it, but not whether it fails.

* `Expr.head?_failures`: evaluation reports the first failure;
* `Expr.Rewrites.failures_eq`, `Expr.Faults.mem_failures`: rewritings keep the failures, and the
  error of a redex is one of them;
* `Expr.mem_failures_of_reduce`: reduction reports one of the failures.
-/

import Abacus.Evaluation
import Abacus.Proofs.Refinement

namespace Abacus

namespace Expr

/-! ### Failures -/

/-- The error of an outcome, if it is one. -/
def error? {α : Type} : Except RuntimeError α → Option RuntimeError
  | .ok _ => none
  | .error error => some error

/-- The errors of what goes on with a value, if there is one. -/
def behind {α : Type} (outcome : Except RuntimeError α) (errors : α → List RuntimeError) :
    List RuntimeError :=
  match outcome with
  | .ok value => errors value
  | .error _ => []

mutual

/-- The errors of all operations that fail though their operands have values, in the order in which
evaluation would come to them. -/
def failures : Expr → List RuntimeError
  | literal _ _ => []
  | group inner _ => inner.failures
  | negate operand column =>
    operand.failures ++ behind operand.eval fun value => (error? (checkedNeg value column)).toList
  | chain head links => head.failures ++ linksFailures head.eval links

/-- The errors in the links of a chain behind a part with the outcome `left`. -/
def linksFailures (left : Except RuntimeError Int64) : List (Link Expr) → List RuntimeError
  | [] => []
  | ⟨op, operand, column⟩ :: links =>
    let own := behind left fun value => behind operand.eval fun right =>
      (error? (op.apply value right column)).toList
    let outcome := do
      let value ← left
      let right ← operand.eval
      op.apply value right column
    operand.failures ++ (own ++ linksFailures outcome links)

end

/-! ### Evaluation reports the first failure -/

/-- What comes first in two parts of a computation comes first in the part that fails. -/
theorem head?_append_bind {α β : Type} {errors more : List RuntimeError}
    {first : Except RuntimeError α} {next : α → Except RuntimeError β}
    (one : errors.head? = error? first)
    (two : ∀ value, first = .ok value → more.head? = error? (next value)) :
    (errors ++ more).head? = error? (first >>= next) := by
  rw [List.head?_append, one]
  cases first with
  | error error => rfl
  | ok value => exact two value rfl

theorem head?_toList_error? (outcome : Except RuntimeError Int64) :
    (error? outcome).toList.head? = error? outcome := by
  cases outcome <;> rfl

mutual

/-- **Evaluation reports the first failure**, and has a value if there is none. -/
theorem head?_failures : ∀ e : Expr, e.failures.head? = error? e.eval
  | literal _ _ => rfl
  | group inner _ => by
    rw [failures, eval]
    exact head?_failures inner
  | negate operand column => by
    rw [failures, eval]
    refine head?_append_bind (head?_failures operand) fun value found => ?_
    rw [found]
    exact head?_toList_error? _
  | chain head links => by
    rw [failures, eval]
    refine head?_append_bind (head?_failures head) fun left found => ?_
    rw [found]
    exact head?_linksFailures left links

theorem head?_linksFailures (left : Int64) : ∀ links : List (Link Expr),
    (linksFailures (.ok left) links).head? = error? (evalLinks left links)
  | [] => rfl
  | ⟨op, operand, column⟩ :: links => by
    rw [linksFailures, evalLinks]
    refine head?_append_bind (head?_failures operand) fun right found => ?_
    rw [found]
    refine head?_append_bind (head?_toList_error? _) fun value applied => ?_
    rw [ok_bind, ok_bind, applied]
    exact head?_linksFailures value links

end

/-! ### Reduction reports one of the failures -/

theorem linksFailures_append (left : Except RuntimeError Int64) (before links : List (Link Expr)) :
    linksFailures left (before ++ links) = linksFailures left before ++
      linksFailures (do let value ← left; evalLinks value before) links := by
  induction before generalizing left with
  | nil => cases left <;> simp [linksFailures, evalLinks]
  | cons link before ih =>
    obtain ⟨op, operand, column⟩ := link
    have onward : (do
        let value ← (do let value ← left; let right ← operand.eval; op.apply value right column)
        evalLinks value before) =
        (do let value ← left; evalLinks value (⟨op, operand, column⟩ :: before)) := by
      cases left with
      | error error => rfl
      | ok value => simp only [ok_bind, evalLinks, bind_assoc]
    rw [List.cons_append, linksFailures, linksFailures, ih, onward, List.append_assoc,
      List.append_assoc]

@[simp]
theorem failures_ofLinks (head : Expr) (links : List (Link Expr)) :
    (ofLinks head links).failures = head.failures ++ linksFailures head.eval links := by
  cases links with
  | nil => rw [ofLinks, linksFailures, List.append_nil]
  | cons link links => rw [ofLinks, failures]

/-- **A rewriting keeps the failures.** -/
theorem Rewrites.failures_eq {e next : Expr} (rewrites : Rewrites e next) :
    next.failures = e.failures := by
  induction rewrites with
  | fold negated => simp [failures, behind, eval, negated, error?]
  | contract applied => simp [failures, linksFailures, behind, eval, applied, error?]
  | ungroup => rw [failures, failures, failures]
  | group _ ih => rw [failures, failures, ih]
  | negate inside ih => rw [failures, failures, ih, inside.eval_eq]
  | head inside ih => rw [failures, failures, ih, inside.eval_eq]
  | operand inside ih =>
    simp only [failures, linksFailures_append, linksFailures, ih, inside.eval_eq]

theorem RewritesTo.failures_eq {e next : Expr} (rewrites : RewritesTo e next) :
    next.failures = e.failures :=
  rewrites.keeps Rewrites.failures_eq

/-- **The error of a redex without a value is a failure.** -/
theorem Faults.mem_failures {error : RuntimeError} {e : Expr} (faults : Faults error e) :
    error ∈ e.failures := by
  induction faults with
  | fold negated => simp [failures, behind, eval, negated, error?]
  | contract applied => simp [failures, linksFailures, behind, eval, applied, error?]
  | group _ ih =>
    rw [failures]
    exact ih
  | negate _ ih =>
    rw [failures]
    exact List.mem_append_left _ ih
  | head _ ih =>
    rw [failures]
    exact List.mem_append_left _ ih
  | operand _ ih =>
    rw [failures, linksFailures_append, linksFailures]
    exact List.mem_append_right _ (List.mem_append_right _ (List.mem_append_left _ ih))

/-- **Reduction reports one of the failures.** -/
theorem mem_failures_of_reduce {e : Expr} {error : RuntimeError}
    (reduced : e.reduce.value = .error error) : error ∈ e.failures := by
  fun_induction Expr.reduce e with
  | case1 e reduction next stepped lighter run ih =>
    have same := (StepsTo.rewritesTo ⟨reduction, stepped⟩).failures_eq
    rw [← same]
    exact ih reduced
  | case2 e stepped =>
    have first := head?_failures e
    have failed : e.eval = .error error := reduced
    rw [failed] at first
    exact List.mem_of_head? first
  | case3 e fault state stepped =>
    cases reduced
    have leaves := leaves_step e
    rw [stepped] at leaves
    rw [← leaves.1.failures_eq]
    exact leaves.2.mem_failures

/-- Evaluation fails with the first failure. -/
theorem eval_eq_error_iff {e : Expr} {error : RuntimeError} :
    e.eval = .error error ↔ e.failures.head? = some error := by
  rw [head?_failures]
  cases e.eval <;> simp [error?]

end Expr

/-! ### Texts -/

section Texts

open Abacus.Expr

variable {source : String} {e : Expr}

theorem evaluateWith_of_refused {cause : ParseError} (refused : parse source = .error cause)
    (options : Options) : evaluateWith options source = .error (.parse cause) := by
  rw [evaluateWith, refused]

theorem evaluate_of_parse (parsed : parse source = .ok e) :
    evaluate source = e.eval.mapError .runtime := by
  rw [evaluate, parsed]

theorem evaluateWith_plain_eq_error_iff (parsed : parse source = .ok e)
    (normalization : Normalization) (error : Error) :
    evaluateWith ⟨false, normalization⟩ source = .error error ↔
      ∃ cause, e.eval = .error cause ∧ error = .runtime cause := by
  rw [evaluateWith, parsed]
  cases ran : e.eval <;> simp [ran, eq_comm]

theorem evaluateWith_verbose_eq_error_iff (parsed : parse source = .ok e)
    (normalization : Normalization) (error : Error) :
    evaluateWith ⟨true, normalization⟩ source = .error error ↔
      ∃ cause, e.reduce.value = .error cause ∧ error = .runtime cause := by
  rw [evaluateWith, parsed]
  cases ran : e.reduce.value <;> simp [ran, eq_comm]

end Texts

end Abacus
