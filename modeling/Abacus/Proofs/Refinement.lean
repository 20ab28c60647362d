/-
**Reduction refines evaluation.**

A rewriting keeps the value or the error of an expression, column and exponent included, and a redex
without a value leaves the whole expression without one. So a reduction, which looks for its redexes
in an order of its own, comes to a value exactly when evaluation does:

* `Expr.Rewrites.eval_eq`, `Expr.Faults.eval_fails`: one rewriting and one fault;
* `Expr.eval_step`, `Expr.eval_fails_of_step`: a step, successful or not;
* `Expr.reduce_value_eq_ok_iff`, `Expr.reduce_fails_iff`: a whole reduction;
* `Expr.reduce_value_iff`: the two ways to a value agree on every expression.
-/

import Abacus.Proofs.Rewriting

namespace Abacus.Expr

/-- **A rewriting keeps the value, or the error with its column.** -/
theorem Rewrites.eval_eq {e next : Expr} (rewrites : Rewrites e next) : next.eval = e.eval := by
  induction rewrites with
  | fold negated => rw [eval, eval, eval, ok_bind, negated]
  | contract applied =>
    rw [eval_ofLinks, eval, eval, eval, ok_bind, ok_bind, evalLinks, eval, ok_bind, applied,
      ok_bind]
  | ungroup => rw [eval, eval, eval]
  | group _ ih => rw [eval, eval, ih]
  | negate _ ih => rw [eval, eval, ih]
  | head _ ih => rw [eval, eval, ih]
  | operand _ ih => simp only [eval, evalLinks_append, evalLinks, ih]

theorem RewritesTo.eval_eq {e next : Expr} (rewrites : RewritesTo e next) :
    next.eval = e.eval :=
  rewrites.keeps Rewrites.eval_eq

/-- **A redex without a value leaves the whole expression without one.** The error may be that of
another redex, which evaluation meets first. -/
theorem Faults.eval_fails {fault : RuntimeError} {e : Expr} (faults : Faults fault e) :
    ∃ error, e.eval = .error error := by
  induction faults with
  | fold negated => exact ⟨fault, by rw [eval, eval, ok_bind, negated]⟩
  | contract applied =>
    exact ⟨fault, by rw [eval, eval, ok_bind, evalLinks, eval, ok_bind, applied, error_bind]⟩
  | group _ ih =>
    rw [eval]
    exact ih
  | negate _ ih =>
    obtain ⟨error, failed⟩ := ih
    exact ⟨error, by rw [eval, failed, error_bind]⟩
  | head _ ih =>
    obtain ⟨error, failed⟩ := ih
    exact ⟨error, by rw [eval, failed, error_bind]⟩
  | @operand head operand op column before links _ ih =>
    obtain ⟨error, failed⟩ := ih
    rw [eval]
    cases head.eval with
    | error first => exact ⟨first, error_bind ..⟩
    | ok left =>
      rw [ok_bind, evalLinks_append]
      cases evalLinks left before with
      | error first => exact ⟨first, error_bind ..⟩
      | ok value => exact ⟨error, by rw [ok_bind, evalLinks, failed, error_bind]⟩

/-! ### Steps and whole reductions -/

/-- A step keeps the value or the error of an expression, also a step that fails. -/
theorem eval_step (e : Expr) :
    e.step.Leaves (fun state => state.eval = e.eval) fun _ state => state.eval = e.eval := by
  have leaves := leaves_step e
  cases ran : e.step with
  | reduced reduction state =>
    rw [ran] at leaves
    exact RewritesTo.eval_eq leaves
  | irreducible => trivial
  | failed error state =>
    rw [ran] at leaves
    exact ⟨leaves.1.eval_eq, leaves.1.eval_eq⟩

/-- Where a step fails, evaluation fails. -/
theorem eval_fails_of_step {e state : Expr} {fault : RuntimeError}
    (stepped : e.step = .failed fault state) : ∃ error, e.eval = .error error := by
  have leaves := leaves_step e
  rw [stepped] at leaves
  obtain ⟨error, failed⟩ := leaves.2.eval_fails
  exact ⟨error, leaves.1.eval_eq ▸ failed⟩

/-- The outcome of a reduction that is not an error is the value of the expression. -/
theorem reduce_value_eq_ok_iff (e : Expr) (value : Int64) :
    e.reduce.value = .ok value ↔ e.eval = .ok value := by
  fun_induction Expr.reduce e with
  | case1 e reduction next stepped lighter run ih =>
    have kept := eval_step e
    rw [stepped] at kept
    exact ih.trans (by rw [kept])
  | case2 e stepped => rfl
  | case3 e error state stepped =>
    obtain ⟨first, failed⟩ := eval_fails_of_step stepped
    rw [failed]
    exact ⟨nofun, nofun⟩

/-- Reduction fails exactly where evaluation does. -/
theorem reduce_fails_iff (e : Expr) :
    (∃ error, e.eval = .error error) ↔ ∃ error, e.reduce.value = .error error := by
  have agrees := reduce_value_eq_ok_iff e
  cases evaluated : e.eval with
  | ok value => rw [(agrees value).mpr evaluated]
  | error error =>
    refine ⟨fun _ => ?_, fun _ => ⟨error, rfl⟩⟩
    cases reduced : e.reduce.value with
    | error fault => exact ⟨fault, rfl⟩
    | ok value => cases evaluated.symm.trans ((agrees value).mp reduced)

/-- **Reduction refines evaluation.** For every expression, also one that no text is read as, the
reduction comes to a value exactly when evaluation has this value, and fails exactly when
evaluation fails. -/
theorem reduce_value_iff (e : Expr) :
    (∀ value, e.reduce.value = .ok value ↔ e.eval = .ok value) ∧
      ((∃ error, e.reduce.value = .error error) ↔ ∃ error, e.eval = .error error) :=
  ⟨reduce_value_eq_ok_iff e, (reduce_fails_iff e).symm⟩

end Abacus.Expr
