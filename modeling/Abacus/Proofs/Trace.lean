/-
**What a trace shows.**

The trace of an evaluation is the text and the states of its reduction in their normalized form,
without the entries that look like the one before them. The last state is a literal, and the decimal
text of a value is the same in every normalization.

* `Run.trace_eq_destutter`: a trace is a list of texts without its repetitions;
* `Normalization.apply_decimal`: no normalization changes the text of a value;
* `Expr.getLast?_states`, `Expr.eq_literal_of_reduce`: a reduction that does not fail ends with the
  literal of its value;
* `trace_of_evaluation`: the form of a traced evaluation.
-/

import Abacus.Evaluation
import Abacus.Proofs.Diagnosis
import Abacus.Proofs.Progress
import Abacus.Proofs.Respacing
import Mathlib.Data.List.Destutter

namespace Abacus

/-! ### Texts without repetitions -/

theorem cons_changes (last : String) (entries : List String) :
    last :: changes last entries = entries.destutter' (· ≠ ·) last := by
  induction entries generalizing last with
  | nil => rfl
  | cons entry entries ih =>
    by_cases same : entry = last
    · rw [changes, if_pos same, List.destutter'_cons_neg _ (not_not.mpr same.symm), ih]
    · rw [changes, if_neg same, List.destutter'_cons_pos _ (Ne.symm same), ih]

theorem getLast?_destutter' {α : Type} [DecidableEq α] (first : α) (rest : List α) :
    (rest.destutter' (· ≠ ·) first).getLast? = (first :: rest).getLast? := by
  induction rest generalizing first with
  | nil => rfl
  | cons next rest ih =>
    rw [List.getLast?_cons_cons]
    by_cases same : first = next
    · rw [List.destutter'_cons_neg _ (not_not.mpr same), ih, same]
    · rw [List.destutter'_cons_pos _ same, ← ih next]
      cases more : rest.destutter' (· ≠ ·) next with
      | nil => exact absurd more (List.destutter'_ne_nil _ _)
      | cons second more => rw [List.getLast?_cons_cons]

namespace Run

/-- The text that a reduction starts from and those of its states, all normalized. -/
def texts (run : Run) (normalization : Normalization) (expression : String) : List String :=
  expression :: run.steps.map fun (_, state) => normalization.apply state.text

variable (run : Run) (normalization : Normalization) (expression : String)

/-- **A trace is the list of all texts without its repetitions.** -/
theorem trace_eq_destutter :
    run.trace normalization expression =
      (run.texts normalization expression).destutter (· ≠ ·) := by
  rw [trace, cons_changes, texts, List.destutter_cons']

theorem isChain_trace : (run.trace normalization expression).IsChain (· ≠ ·) := by
  rw [trace_eq_destutter]
  exact List.isChain_destutter _ _

theorem length_trace_le : (run.trace normalization expression).length ≤ run.steps.length + 1 := by
  have shorter := (List.destutter_sublist (· ≠ ·) (run.texts normalization expression)).length_le
  rwa [← trace_eq_destutter, texts, List.length_cons, List.length_map] at shorter

theorem getLast?_trace :
    (run.trace normalization expression).getLast? =
      (run.texts normalization expression).getLast? := by
  rw [trace_eq_destutter, texts, List.destutter_cons', getLast?_destutter']

end Run

/-! ### The text of a value -/

theorem toList_decimal_of_neg {value : Int64} (negative : value < 0) :
    (decimal value).toList = '-' :: (Token.integer (.ofNat value.toInt.natAbs)).chars := by
  rw [decimal, Token.joined, String.toList_ofList, Token.ofValue_of_neg negative,
    List.flatMap_cons, List.flatMap_cons, List.flatMap_nil, List.append_nil]
  rfl

theorem toList_decimal_of_not_neg {value : Int64} (notNegative : ¬ value < 0) :
    (decimal value).toList = (Token.integer (.ofNat value.toInt.natAbs)).chars := by
  rw [decimal, Token.joined, String.toList_ofList, Token.ofValue_of_not_neg notNegative,
    List.flatMap_cons, List.flatMap_nil, List.append_nil]

/-- The text of a value is a number: digits, behind a minus sign or alone. -/
theorem toList_decimal (value : Int64) :
    ∃ digits, (∀ d ∈ digits, d.isDigit) ∧
      ((decimal value).toList = digits ∨ (decimal value).toList = '-' :: digits) := by
  refine ⟨(Token.integer (.ofNat value.toInt.natAbs)).chars,
    fun d => Token.isDigit_of_mem_toDigits, ?_⟩
  by_cases negative : value < 0
  · exact .inr (toList_decimal_of_neg negative)
  · exact .inl (toList_decimal_of_not_neg negative)

/-- Spacing does not change a number. -/
theorem respaceFrom_number {digits : List Char} (digit : ∀ d ∈ digits, d.isDigit) :
    respaceFrom .other digits = digits ∧ respaceFrom .other ('-' :: digits) = '-' :: digits := by
  have unsigned : respaceFrom .other digits = digits := by
    cases digits with
    | nil => exact respaceFrom_nil _
    | cons d digits =>
      obtain ⟨isDigit, later⟩ := List.forall_mem_cons.mp digit
      have rest := respaceFrom_digits later []
      rw [List.append_nil, respaceFrom_nil, List.append_nil] at rest
      rw [respaceFrom_cons_of_not_blank (isBlank_of_isDigit isDigit), next_of_isDigit isDigit, rest]
      rfl
  refine ⟨unsigned, ?_⟩
  rw [respaceFrom_cons_of_not_blank (by decide), show Before.other.next '-' = .other by decide,
    unsigned]
  rfl

theorem compact_number {digits : List Char} (digit : ∀ d ∈ digits, d.isDigit) :
    digits.filter (fun c => !isBlank c) = digits ∧
      ('-' :: digits).filter (fun c => !isBlank c) = '-' :: digits := by
  have unsigned : digits.filter (fun c => !isBlank c) = digits := by
    have rest := filter_not_blank_digits digit []
    rwa [List.append_nil, List.filter_nil, List.append_nil] at rest
  exact ⟨unsigned, by rw [List.filter_cons_of_pos (by decide), unsigned]⟩

/-- **No normalization changes the text of a value.** -/
theorem Normalization.apply_decimal (normalization : Normalization) (value : Int64) :
    normalization.apply (decimal value) = decimal value := by
  obtain ⟨digits, digit, written⟩ := toList_decimal value
  cases normalization with
  | preserve => rfl
  | compact =>
    rw [apply, Abacus.compact, ← String.toList_inj, String.toList_ofList]
    rcases written with written | written <;> rw [written]
    · exact (compact_number digit).1
    · exact (compact_number digit).2
  | spacing =>
    rw [apply, spacing_eq_respaceFrom, ← String.toList_inj, String.toList_ofList]
    rcases written with written | written <;> rw [written]
    · exact (respaceFrom_number digit).1
    · exact (respaceFrom_number digit).2

/-! ### The last state -/

namespace Expr

/-- A reduction that does not fail leads to its final state. -/
theorem getLast?_states (e : Expr) (succeeds : e.reduce.failure = none) :
    (e :: e.reduce.steps.map Prod.snd).getLast? = some e.reduce.final := by
  fun_induction Expr.reduce e with
  | case1 e reduction next stepped lighter run ih =>
    rw [List.map_cons, List.getLast?_cons_cons]
    exact ih succeeds
  | case2 e stepped => rfl
  | case3 e error state stepped => cases succeeds

variable {e : Expr} {value : Int64}

/-- **A reduction that comes to a value ends with the literal of this value.** -/
theorem eq_literal_of_reduce (linked : e.Linked) (reduced : e.reduce.value = .ok value) :
    e.reduce.failure = none ∧ ∃ column, e.reduce.final = .literal value column := by
  cases failed : e.reduce.failure with
  | some error =>
    rw [Run.value, failed] at reduced
    cases reduced
  | none =>
    obtain ⟨found, column, final⟩ := linked.exists_final_eq_literal failed
    rw [Run.value, failed, final] at reduced
    cases reduced
    exact ⟨rfl, column, final⟩

theorem length_steps_le (e : Expr) : e.reduce.steps.length ≤ e.weight := by
  obtain ⟨state, steps, -⟩ := stepsIn_reduce e
  exact Nat.le_of_add_right_le steps.weight_le

theorem steps_literal (column : Nat) : (literal value column).reduce.steps = [] :=
  List.eq_nil_of_length_eq_zero (Nat.le_zero.mp (length_steps_le _))

/-- The last text of a reduction that makes a step is that of the value. -/
theorem getLast?_texts (linked : e.Linked) (reduced : e.reduce.value = .ok value)
    (noLiteral : e.literal? = none) (normalization : Normalization) (expression : String) :
    (e.reduce.texts normalization expression).getLast? = some (decimal value) := by
  obtain ⟨succeeds, column, final⟩ := eq_literal_of_reduce linked reduced
  have last := getLast?_states e succeeds
  rw [final] at last
  cases steps : e.reduce.steps with
  | nil =>
    rw [steps] at last
    cases last
    cases noLiteral
  | cons step steps' =>
    rw [steps, List.map_cons, List.getLast?_cons_cons, ← List.map_cons] at last
    have texts := congrArg (Option.map fun state => normalization.apply (text state)) last
    rw [← List.getLast?_map, List.map_map] at texts
    rw [Run.texts, steps, List.map_cons, List.getLast?_cons_cons]
    exact texts.trans (congrArg some (normalization.apply_decimal value))

end Expr

/-! ### Traced evaluations -/

section Texts

variable {source : String} {e : Expr}

theorem evaluate_eq_ok_iff (parsed : parse source = .ok e) (value : Int64) :
    evaluate source = .ok value ↔ e.eval = .ok value := by
  rw [evaluate, parsed]
  cases ran : e.eval <;> simp [ran, Except.mapError]

theorem evaluateWith_verbose_eq_ok_iff (parsed : parse source = .ok e)
    (normalization : Normalization) (evaluation : Evaluation) :
    evaluateWith ⟨true, normalization⟩ source = .ok evaluation ↔
      ∃ value, e.reduce.value = .ok value ∧
        evaluation = ⟨normalization.apply source, value,
          e.reduce.trace normalization (normalization.apply source)⟩ := by
  rw [evaluateWith, parsed]
  cases ran : e.reduce.value <;> simp [ran, eq_comm]

/-- **The form of a traced evaluation.** Tracing gives a value exactly if evaluating does, and then
the same one, with the normalized text. The trace starts with this text and has no two equal
neighbours and at most one entry more than the expression is heavy. For a literal it is this text
alone; otherwise it ends with the decimal text of the value. -/
theorem trace_of_evaluation (source : String) (normalization : Normalization) :
    ((∃ evaluation, evaluateWith ⟨true, normalization⟩ source = .ok evaluation) ↔
      ∃ value, evaluate source = .ok value) ∧
      ∀ evaluation, evaluateWith ⟨true, normalization⟩ source = .ok evaluation →
        evaluate source = .ok evaluation.value ∧
        evaluation.expression = normalization.apply source ∧
        evaluation.trace.head? = some (normalization.apply source) ∧
        evaluation.trace.IsChain (· ≠ ·) ∧
        ∃ e, parse source = .ok e ∧ evaluation.trace.length ≤ e.weight + 1 ∧
          (∀ value column, e = .literal value column →
            evaluation.trace = [normalization.apply source]) ∧
          (e.literal? = none → evaluation.trace.getLast? = some (decimal evaluation.value)) := by
  cases parsed : parse source with
  | error cause =>
    rw [evaluateWith_of_refused parsed, evaluate, parsed]
    refine ⟨⟨?_, ?_⟩, ?_⟩
    · rintro ⟨_, ⟨⟩⟩
    · rintro ⟨_, ⟨⟩⟩
    · rintro _ ⟨⟩
  | ok e =>
    simp only [evaluateWith_verbose_eq_ok_iff parsed, evaluate_eq_ok_iff parsed]
    refine ⟨?_, ?_⟩
    · constructor
      · rintro ⟨_, value, reduced, -⟩
        exact ⟨value, (Expr.reduce_value_eq_ok_iff e value).mp reduced⟩
      · rintro ⟨value, evaluated⟩
        exact ⟨_, value, (Expr.reduce_value_eq_ok_iff e value).mpr evaluated, rfl⟩
    · rintro _ ⟨value, reduced, rfl⟩
      refine ⟨(Expr.reduce_value_eq_ok_iff e value).mp reduced, rfl, rfl, Run.isChain_trace .., e,
        rfl, ?_, ?_, fun noLiteral => ?_⟩
      · exact Nat.le_trans (Run.length_trace_le ..) (Nat.succ_le_succ (Expr.length_steps_le e))
      · rintro value column rfl
        rw [Run.trace, Expr.steps_literal]
        rfl
      · rw [Run.getLast?_trace]
        exact Expr.getLast?_texts (linked_of_parse parsed) reduced noLiteral _ _

/-- The trace of `2*(4-5)` shows the step inside the group and the product. -/
theorem trace_of_evaluation_of_product :
    ∃ evaluation, evaluateWith ⟨true, .spacing⟩ "2*(4-5)" = .ok evaluation ∧
      evaluation.trace = ["2 * (4 - 5)", "2 * -1", "-2"] ∧
      evaluate "2*(4-5)" = .ok evaluation.value ∧
      evaluation.trace.IsChain (· ≠ ·) ∧
      evaluation.trace.getLast? = some (decimal evaluation.value) := by
  have shown : (evaluateWith ⟨true, .spacing⟩ "2*(4-5)").toOption.any (fun evaluation =>
      evaluation.trace = ["2 * (4 - 5)", "2 * -1", "-2"]) = true := by decide +kernel
  obtain ⟨e, parsed, noLiteral⟩ := exists_parse_of_test "2*(4-5)"
    (fun e => e.literal? = none) (by decide +kernel)
  cases ran : evaluateWith ⟨true, .spacing⟩ "2*(4-5)" with
  | error error =>
    rw [ran] at shown
    cases shown
  | ok evaluation =>
    rw [ran] at shown
    obtain ⟨sameValue, -, -, isChain, e', parsed', -, -, ends⟩ :=
      (trace_of_evaluation "2*(4-5)" .spacing).2 evaluation ran
    cases parsed.symm.trans parsed'
    exact ⟨evaluation, rfl, of_decide_eq_true shown, sameValue, isChain,
      ends (of_decide_eq_true noLiteral)⟩

end Texts

end Abacus
