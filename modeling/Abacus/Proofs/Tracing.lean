/-
**What tracing tells of a failure.**

Evaluation and reduction may fail at different operations of the same expression. Evaluation reports
the first failure from the left. Reduction goes on doing what is due (`Expr.DueStep`) until this has
no value, and reports its error (`Expr.DueFailure`). Neither is defined by the search for redexes.

* `Expr.dueRun_iff_reaches`: the states of a reduction are those that doing what is due leads to;
* `Expr.reduce_value_eq_error_iff`: so a reduction fails with the error of what is due in one of
  them;
* `tracing_fails_alike`: tracing does not change whether a text fails, nor the kind of the error if
  all failures are of one kind;
* `tracing_changes_kind`: it may change the kind otherwise.
-/

import Abacus.Proofs.Diagnosis
import Abacus.Proofs.Strategy

namespace Abacus

open Relation

/-! ### Reductions that fail -/

namespace Expr

variable {e state : Expr} {error : RuntimeError}

theorem failure_reduce_of_reaches (reaches : e.Reaches state)
    (fails : state.step.failure? = some error) : e.reduce.failure = some error := by
  fun_induction Expr.reduce e with
  | case1 e reduction next stepped lighter run ih =>
    rcases reaches.cases_head with rfl | ⟨other, ⟨reduction', steps⟩, onward⟩
    · rw [stepped] at fails
      cases fails
    · cases stepped.symm.trans steps
      exact ih onward
  | case2 e stepped =>
    rcases reaches.cases_head with rfl | ⟨other, ⟨reduction', steps⟩, -⟩
    · rw [stepped] at fails
      cases fails
    · cases stepped.symm.trans steps
  | case3 e fault left stepped =>
    rcases reaches.cases_head with rfl | ⟨other, ⟨reduction', steps⟩, -⟩
    · rw [stepped] at fails
      exact fails
    · cases stepped.symm.trans steps

/-- **A reduction fails as a step on one of its states fails.** -/
theorem failure_reduce_eq_some_iff :
    e.reduce.failure = some error ↔
      ∃ state, e.Reaches state ∧ state.step.failure? = some error := by
  constructor
  · intro failed
    obtain ⟨state, steps, -, fails⟩ := stepsIn_reduce e
    exact ⟨state, steps.reaches, Attempt.failure?_eq_some_iff.mpr ⟨_, fails error failed⟩⟩
  · rintro ⟨state, reaches, fails⟩
    exact failure_reduce_of_reaches reaches fails

/-- The second expression is what the first becomes by doing what is due, any number of times. -/
def DueRun : Expr → Expr → Prop := ReflTransGen fun e next => ∃ reduction, DueStep e reduction next

/-- **A reduction does what is due**, as long as its states are tidy. -/
theorem dueRun_iff_reaches (tidy : ∀ state, RewritesTo e state → state.Tidy) :
    DueRun e state ↔ e.Reaches state := by
  constructor
  · intro run
    induction run with
    | refl => exact .refl
    | tail _ due reaches =>
      obtain ⟨reduction, due⟩ := due
      exact reaches.tail ⟨reduction, (step_eq_reduced_iff (tidy _ reaches.rewritesTo)).mpr due⟩
  · intro reaches
    induction reaches with
    | refl => exact .refl
    | tail reaches steps run =>
      obtain ⟨reduction, stepped⟩ := steps
      have here := tidy _ (Reaches.rewritesTo reaches)
      exact run.tail ⟨reduction, (step_eq_reduced_iff here).mp stepped⟩

/-- **A reduction fails where what is due has no value**, and with its error. -/
theorem reduce_value_eq_error_iff (tidy : ∀ state, RewritesTo e state → state.Tidy) :
    e.reduce.value = .error error ↔ ∃ state, DueRun e state ∧ DueFailure state error := by
  have linked := linked_of_layered e (tidy e .refl).layered
  rw [linked.reduce_value_eq_error_iff, failure_reduce_eq_some_iff]
  refine exists_congr fun state => ?_
  rw [dueRun_iff_reaches tidy]
  exact and_congr_right fun reaches => failure?_step_eq_some_iff (tidy state reaches.rewritesTo)

end Expr

/-! ### Texts -/

section Texts

open Abacus.Expr

variable {source : String} {e : Expr}

/-- The kind of the error that is reported for a text, if it fails. -/
def failureKind? (options : Options) (source : String) : Option ErrorKind :=
  match evaluateWith options source with
  | .ok _ => none
  | .error error => some error.kind

theorem failureKind?_of_error {options : Options} {error : Error}
    (failed : evaluateWith options source = .error error) :
    failureKind? options source = some error.kind := by
  rw [failureKind?, failed]

/-- Where all failures are of one kind, this kind is reported in either way. -/
theorem failureKind?_eq_of_uniform (parsed : parse source = .ok e) (normalization : Normalization)
    (uniform : ∀ cause ∈ e.failures, ∀ other ∈ e.failures, cause.kind = other.kind) :
    failureKind? ⟨false, normalization⟩ source = failureKind? ⟨true, normalization⟩ source := by
  cases evaluated : e.eval with
  | ok value =>
    have reduced := (reduce_value_eq_ok_iff e value).mpr evaluated
    simp [failureKind?, evaluateWith, parsed, evaluated, reduced]
  | error cause =>
    obtain ⟨other, reduced⟩ := (reduce_fails_iff e).mp ⟨cause, evaluated⟩
    have plain := (evaluateWith_plain_eq_error_iff parsed normalization _).mpr
      ⟨cause, evaluated, rfl⟩
    have verbose := (evaluateWith_verbose_eq_error_iff parsed normalization _).mpr
      ⟨other, reduced, rfl⟩
    rw [failureKind?_of_error plain, failureKind?_of_error verbose]
    have first := List.mem_of_head? (eval_eq_error_iff.mp evaluated)
    exact congrArg some (uniform cause first other (mem_failures_of_reduce reduced))

/-- **Tracing the reduction of a text does not change whether it fails.** A text that is no
expression fails in the same way. Where an operation fails, the error without a trace is the first
failure of the expression. The error with a trace is that of what is due in the state that doing
what is due leads to; it is one of the failures, so the kind is the same if all failures are of one
kind. -/
theorem tracing_fails_alike (source : String) (normalization : Normalization) :
    ((∃ error, evaluateWith ⟨false, normalization⟩ source = .error error) ↔
      ∃ error, evaluateWith ⟨true, normalization⟩ source = .error error) ∧
      (∀ cause, evaluateWith ⟨false, normalization⟩ source = .error (.parse cause) ↔
        evaluateWith ⟨true, normalization⟩ source = .error (.parse cause)) ∧
      (∀ e, parse source = .ok e → ∀ cause,
        (evaluateWith ⟨false, normalization⟩ source = .error (.runtime cause) ↔
          e.failures.head? = some cause) ∧
        (evaluateWith ⟨true, normalization⟩ source = .error (.runtime cause) ↔
          ∃ state, DueRun e state ∧ DueFailure state cause) ∧
        (evaluateWith ⟨true, normalization⟩ source = .error (.runtime cause) →
          cause ∈ e.failures)) ∧
      ((∀ e, parse source = .ok e →
          ∀ cause ∈ e.failures, ∀ other ∈ e.failures, cause.kind = other.kind) →
        failureKind? ⟨false, normalization⟩ source =
          failureKind? ⟨true, normalization⟩ source) := by
  cases parsed : parse source with
  | error cause =>
    have failed := evaluateWith_of_refused parsed
    refine ⟨?_, fun other => ?_, nofun, fun _ => ?_⟩
    · rw [failed, failed]
    · rw [failed, failed]
    · rw [failureKind?, failureKind?, failed, failed]
  | ok e =>
    have plain := evaluateWith_plain_eq_error_iff parsed normalization
    have verbose := evaluateWith_verbose_eq_error_iff parsed normalization
    simp only [plain, verbose]
    refine ⟨?_, fun cause => ⟨nofun, nofun⟩, fun e' same cause => ?_, fun uniform => ?_⟩
    · have alike := reduce_fails_iff e
      constructor
      · rintro ⟨_, cause, evaluated, -⟩
        obtain ⟨fault, reduced⟩ := alike.mp ⟨cause, evaluated⟩
        exact ⟨_, fault, reduced, rfl⟩
      · rintro ⟨_, cause, reduced, -⟩
        obtain ⟨fault, evaluated⟩ := alike.mpr ⟨cause, reduced⟩
        exact ⟨_, fault, evaluated, rfl⟩
    · cases same
      refine ⟨by simp [eval_eq_error_iff], ?_, ?_⟩
      · simp [reduce_value_eq_error_iff fun state rewrites => tidy_of_parse parsed rewrites]
      · rintro ⟨_, reduced, ⟨⟩⟩
        exact mem_failures_of_reduce reduced
    · exact failureKind?_eq_of_uniform parsed normalization (uniform e rfl)

/-- In `1/0+(2*3%0)` both operations fail, and for one reason. Evaluation meets the division first;
reduction multiplies in the group and meets the remainder. -/
theorem tracing_fails_alike_of_two_zeros :
    (∀ e, parse "1/0+(2*3%0)" = .ok e →
        ∀ cause ∈ e.failures, ∀ other ∈ e.failures, cause.kind = other.kind) ∧
      failureKind? ⟨false, .preserve⟩ "1/0+(2*3%0)" =
        failureKind? ⟨true, .preserve⟩ "1/0+(2*3%0)" ∧
      failureKind? ⟨false, .preserve⟩ "1/0+(2*3%0)" = some .divisionByZero ∧
      ∃ e, parse "1/0+(2*3%0)" = .ok e ∧
        evaluateWith ⟨false, .preserve⟩ "1/0+(2*3%0)" = .error (.runtime (.divisionByZero 2)) ∧
        evaluateWith ⟨true, .preserve⟩ "1/0+(2*3%0)" = .error (.runtime (.divisionByZero 9)) ∧
        ∃ state, DueRun e state ∧ DueFailure state (.divisionByZero 9) := by
  obtain ⟨e, parsed, test⟩ := exists_parse_of_test "1/0+(2*3%0)"
    (fun e => e.failures = [.divisionByZero 2, .divisionByZero 9] ∧
      e.reduce.failure = some (.divisionByZero 9)) (by decide +kernel)
  obtain ⟨failures, stopped⟩ := of_decide_eq_true test
  obtain ⟨-, -, order, kinds⟩ := tracing_fails_alike "1/0+(2*3%0)" .preserve
  have uniform : ∀ e, parse "1/0+(2*3%0)" = .ok e →
      ∀ cause ∈ e.failures, ∀ other ∈ e.failures, cause.kind = other.kind := by
    intro other same
    cases parsed.symm.trans same
    rw [failures]
    decide
  obtain ⟨plain, -⟩ := order e parsed (.divisionByZero 2)
  obtain ⟨-, verbose, -⟩ := order e parsed (.divisionByZero 9)
  have first := plain.mpr (by rw [failures, List.head?_cons])
  have traced : evaluateWith ⟨true, .preserve⟩ "1/0+(2*3%0)" =
      .error (.runtime (.divisionByZero 9)) :=
    (evaluateWith_verbose_eq_error_iff parsed _ _).mpr ⟨_, by rw [Run.value, stopped], rfl⟩
  refine ⟨uniform, kinds uniform, failureKind?_of_error first, e, parsed, first, traced, ?_⟩
  exact verbose.mp traced

/-- In `1/0+2^-1` evaluation meets the division first, and reduction the power. -/
theorem tracing_changes_kind :
    failureKind? ⟨false, .preserve⟩ "1/0+2^-1" = some .divisionByZero ∧
      failureKind? ⟨true, .preserve⟩ "1/0+2^-1" = some .invalidExponent := by
  decide +kernel

end Texts

end Abacus
