/-
**Evaluating texts.**

`evaluate` gives the value of a text. `evaluateWith` also echoes the text and, on request, traces
the reduction: every state that differs from the one before it. The echo never takes part in the
computation.
-/

import Abacus.Grammar.Parse
import Abacus.Expr.Text
import Abacus.Normalization
import Abacus.Reduction.Run

namespace Abacus

/-- The value of a text. -/
def evaluate (source : String) : Except Error Int64 :=
  match parse source with
  | .error cause => .error (.parse cause)
  | .ok e => e.eval.mapError .runtime

/-- What is wanted beside the value of a text. -/
structure Options where
  /-- Whether the reduction is traced. -/
  verbose : Bool
  /-- The form in which the text and the states are echoed. -/
  normalization : Normalization

/-- A value with the text it is the value of. -/
structure Evaluation where
  expression : String
  value : Int64
  /-- The states of the reduction, from the text to the value; empty unless asked for. -/
  trace : List String

/-- The line that states a result. -/
def Evaluation.text (evaluation : Evaluation) : String :=
  evaluation.expression ++ " = " ++ decimal evaluation.value

/-- The entries that differ from the one before them, the first of which follows `last`. -/
def changes (last : String) : List String → List String
  | [] => []
  | entry :: entries =>
    if entry = last then changes last entries else entry :: changes entry entries

/-- The trace of a run: the text it starts from and the states that look new. -/
def Run.trace (run : Run) (normalization : Normalization) (expression : String) : List String :=
  expression :: changes expression (run.steps.map fun (_, state) => normalization.apply state.text)

/-- The value of a text, the text itself and the trace of its reduction, as the options say. -/
def evaluateWith (options : Options) (source : String) : Except Error Evaluation :=
  let expression := options.normalization.apply source
  match parse source with
  | .error cause => .error (.parse cause)
  | .ok e =>
    if options.verbose then
      let run := e.reduce
      match run.value with
      | .error cause => .error (.runtime cause)
      | .ok value => .ok ⟨expression, value, run.trace options.normalization expression⟩
    else
      match e.eval with
      | .error cause => .error (.runtime cause)
      | .ok value => .ok ⟨expression, value, []⟩

end Abacus
