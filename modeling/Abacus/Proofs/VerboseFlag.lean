/-
**The verbose flag only adds lines.**

Put in front of arguments that do not ask for it, the flag changes nothing of what they ask for but
the trace. A reduction comes to a value exactly if evaluation does, so the command answers with the
same exit code and prints the entries of the trace before what it prints without the flag. Where
there is no value nothing is printed but an error message of one line.

* `Invocation.ofArguments?_verbose`: the flag in front of other arguments;
* `evaluateWith_agree`: an evaluation with a trace and without one;
* `Located.staysOnLine_message`: an error message is one line;
* `verbose_flag_adds_lines`: the answers of the command with the flag and without it.
-/

import Abacus.CommandLine
import Abacus.Proofs.Location
import Abacus.Proofs.Trace

namespace Abacus

open CommandLine

/-! ### Arguments -/

/-- The same request with a trace. -/
def Invocation.traced (invocation : Invocation) : Invocation := { invocation with verbose := true }

namespace CommandLine

theorem requests?_verbose (arguments : List String) :
    requests? ("-v" :: arguments) = (requests? arguments).map (.verbose :: ·) := by
  rw [requests?, if_neg (by decide)]
  rfl

variable {invocation next result : Invocation}

/-- A request is one for a trace, or it can be made behind one as well. -/
theorem add?_cases {request : Request} (added : add? invocation request = some next) :
    next.verbose = true ∨
      next.verbose = invocation.verbose ∧ add? invocation.traced request = some next.traced := by
  cases request with
  | verbose =>
    rw [add?] at added
    split at added <;> cases added
    exact .inl rfl
  | style normalization =>
    rw [add?] at added ⊢
    split at added <;> cases added
    rename_i noStyle
    exact .inr ⟨rfl, if_neg noStyle⟩
  | expression text =>
    rw [add?] at added ⊢
    split at added <;> cases added
    rename_i noText
    exact .inr ⟨rfl, if_neg noText⟩

/-- A request for a trace is never taken back. -/
theorem verbose_of_foldlM {requests : List Request} (verbose : invocation.verbose = true)
    (made : requests.foldlM add? invocation = some result) : result.verbose = true := by
  induction requests generalizing invocation with
  | nil =>
    cases made
    exact verbose
  | cons request requests ih =>
    rw [List.foldlM_cons] at made
    obtain ⟨next, added, more⟩ := Option.bind_eq_some_iff.mp made
    rcases add?_cases added with verboseNext | ⟨same, -⟩
    · exact ih verboseNext more
    · exact ih (same.trans verbose) more

/-- **Requests that do not ask for a trace can be made behind one that does.** -/
theorem foldlM_traced {requests : List Request} (made : requests.foldlM add? invocation = some result)
    (silent : result.verbose = false) :
    requests.foldlM add? invocation.traced = some result.traced := by
  induction requests generalizing invocation with
  | nil =>
    cases made
    rfl
  | cons request requests ih =>
    rw [List.foldlM_cons] at made ⊢
    obtain ⟨next, added, more⟩ := Option.bind_eq_some_iff.mp made
    rcases add?_cases added with verbose | ⟨-, addedTraced⟩
    · exact absurd (verbose_of_foldlM verbose more) (by simp [silent])
    · exact Option.bind_eq_some_iff.mpr ⟨next.traced, addedTraced, ih more⟩

end CommandLine

/-- **The flag in front of other arguments asks for a trace** of what they ask for. -/
theorem Invocation.ofArguments?_verbose {arguments : List String} {invocation : Invocation}
    (accepted : ofArguments? arguments = some invocation) (silent : invocation.verbose = false) :
    ofArguments? ("-v" :: arguments) = some invocation.traced := by
  obtain ⟨requests, read, made⟩ := Option.bind_eq_some_iff.mp accepted
  rw [ofArguments?, requests?_verbose, read]
  exact foldlM_traced made silent

/-! ### Evaluations -/

section Evaluations

variable {source : String}

/-- Evaluation fails as it does without a trace. -/
theorem evaluate_eq_error_iff {normalization : Normalization} {error : Error} :
    evaluate source = .error error ↔
      evaluateWith ⟨false, normalization⟩ source = .error error := by
  cases parsed : parse source with
  | error cause =>
    have refused : evaluate source = .error (.parse cause) := by rw [evaluate, parsed]
    simp [evaluateWith_of_refused parsed, refused]
  | ok e =>
    rw [evaluate_of_parse parsed, evaluateWith_plain_eq_error_iff parsed]
    cases e.eval <;> simp [Except.mapError, eq_comm]

/-- **An evaluation with a trace differs in its trace**, or both fail. -/
theorem evaluateWith_agree (source : String) (normalization : Normalization) :
    (∃ evaluation, evaluateWith ⟨true, normalization⟩ source = .ok evaluation ∧
        evaluateWith ⟨false, normalization⟩ source = .ok { evaluation with trace := [] }) ∨
      ∃ error, evaluateWith ⟨true, normalization⟩ source = .error error ∧
        ∃ plain, evaluateWith ⟨false, normalization⟩ source = .error plain := by
  cases parsed : parse source with
  | error cause =>
    have refused := evaluateWith_of_refused parsed
    exact .inr ⟨_, refused _, _, refused _⟩
  | ok e =>
    cases evaluated : e.eval with
    | ok value =>
      have reduced := (Expr.reduce_value_eq_ok_iff e value).mpr evaluated
      refine .inl ⟨_, (evaluateWith_verbose_eq_ok_iff parsed normalization _).mpr
        ⟨value, reduced, rfl⟩, ?_⟩
      rw [evaluateWith, parsed]
      simp [evaluated]
    | error cause =>
      obtain ⟨fault, reduced⟩ := (Expr.reduce_fails_iff e).mp ⟨cause, evaluated⟩
      exact .inr ⟨_, (evaluateWith_verbose_eq_error_iff parsed normalization _).mpr
        ⟨fault, reduced, rfl⟩, _, (evaluateWith_plain_eq_error_iff parsed normalization _).mpr
        ⟨cause, evaluated, rfl⟩⟩

end Evaluations

/-! ### Messages -/

/-- A text without an end of a line in it. -/
def StaysOnLine (text : String) : Prop := '\n' ∉ text.toList

instance (text : String) : Decidable (StaysOnLine text) :=
  inferInstanceAs (Decidable ('\n' ∉ text.toList))

theorem StaysOnLine.append {text more : String} (one : StaysOnLine text) (two : StaysOnLine more) :
    StaysOnLine (text ++ more) := by
  rw [StaysOnLine, String.toList_append, List.mem_append]
  exact not_or.mpr ⟨one, two⟩

theorem newline_not_mem_of_isDigit {digits : List Char} (digit : ∀ d ∈ digits, d.isDigit) :
    '\n' ∉ digits := fun member => Bool.false_ne_true (digit _ member)

theorem staysOnLine_decimal (value : Int64) : StaysOnLine (decimal value) := by
  obtain ⟨digits, digit, written⟩ := toList_decimal value
  have noEnd := newline_not_mem_of_isDigit digit
  rcases written with written | written <;> rw [StaysOnLine, written]
  · exact noEnd
  · exact List.not_mem_cons_of_ne_of_not_mem (by decide) noEnd

theorem Token.staysOnLine_text (token : Token) : StaysOnLine token.text := by
  rw [StaysOnLine, text, String.toList_ofList]
  cases token with
  | integer magnitude =>
    exact newline_not_mem_of_isDigit fun d => Token.isDigit_of_mem_toDigits
  | operator op => cases op <;> decide
  | leftParen => decide
  | rightParen => decide
  | blank => decide

theorem staysOnLine_atColumn (column : Nat) {complaint : String}
    (stays : StaysOnLine complaint) : StaysOnLine (atColumn column complaint) := by
  have digits : StaysOnLine (toString column) := by
    rw [StaysOnLine, Nat.toString_eq_repr, Nat.toList_repr]
    exact newline_not_mem_of_isDigit fun d => Token.isDigit_of_mem_toDigits
  have opening : StaysOnLine "Error at column " := by decide
  have colon : StaysOnLine ": " := by decide
  exact ((opening.append digits).append colon).append stays

/-- **The message of an error that is reported for a text is one line.** -/
theorem Located.staysOnLine_message {text : List Char} {error : Error}
    (located : Located text error) : StaysOnLine error.message := by
  cases located with
  | empty => decide
  | ended | unclosed _ _ | tooDeep _ | tooLarge _ _ | division _ _ | overflow _ =>
    exact staysOnLine_atColumn _ (by decide)
  | @unknown column c _ _ notSeparator _ =>
    have stays : StaysOnLine (String.singleton c) := by
      rw [StaysOnLine, String.toList_singleton, List.mem_singleton]
      rintro rfl
      exact notSeparator rfl
    exact staysOnLine_atColumn _ (.append (.append (by decide) stays) (by decide))
  | @unexpected column token _ =>
    exact staysOnLine_atColumn _ (.append (.append (by decide) token.staysOnLine_text) (by decide))
  | @inGroup column token _ =>
    have stays : StaysOnLine ("expected ')', found " ++ token.text) :=
      .append (by decide) token.staysOnLine_text
    exact staysOnLine_atColumn _ (.append (.append (by decide) stays) (by decide))
  | @trailing column token _ =>
    exact staysOnLine_atColumn _ (.append (by decide) token.staysOnLine_text)
  | power exponent _ =>
    exact staysOnLine_atColumn _
      (.append (.append (by decide) (staysOnLine_decimal exponent)) (by decide))

/-! ### Answers -/

/-- The expression that a text asks for: the text without the blanks at its ends, if any is left. -/
def CommandLine.expression? (text : String) : Option String :=
  match trimBlanks text.toList with
  | [] => none
  | source => some (String.ofList source)

theorem CommandLine.answerText_eq (options : Options) (text : String) :
    answerText options text =
      match expression? text with
      | none => demonstrate options
      | some source => answer options source := by
  unfold answerText expression?
  cases trimBlanks text.toList <;> rfl

namespace Invocation

/-- The text that is asked about, if standard input can be read where it counts. -/
def text? (invocation : Invocation) (input : List UInt8) : Option String :=
  match invocation.expression with
  | some text => some text
  | none => firstLine? input

/-- The expression that is evaluated, if there is one. -/
def source? (invocation : Invocation) (input : List UInt8) : Option String :=
  (invocation.text? input).bind expression?

/-- The trace of the expression that is evaluated; it has no entries if there is no expression or it
has no value. -/
def trace (invocation : Invocation) (input : List UInt8) : List String :=
  match invocation.source? input with
  | none => []
  | some source =>
    match evaluateWith invocation.traced.options source with
    | .ok evaluation => evaluation.trace
    | .error _ => []

variable {invocation : Invocation} {input : List UInt8} {source : String}

theorem respond_eq (invocation : Invocation) (input : List UInt8) :
    invocation.respond input =
      match invocation.text? input with
      | none => unreadable
      | some text =>
        match expression? text with
        | none => demonstrate invocation.options
        | some source => answer invocation.options source := by
  simp only [← answerText_eq]
  unfold respond text?
  cases invocation.expression
  · cases firstLine? input <;> rfl
  · rfl

/-- The command answers with the value of the expression, if there is one to evaluate. -/
theorem respond_of_source (found : invocation.source? input = some source) :
    invocation.respond input = answer invocation.options source := by
  obtain ⟨text, read, left⟩ := Option.bind_eq_some_iff.mp found
  simp only [respond_eq, read, left]

/-- Without an expression to evaluate the flag changes nothing: the demonstrations have no
traces. -/
theorem respond_traced_of_no_source (missing : invocation.source? input = none) :
    invocation.traced.respond input = invocation.respond input := by
  have sameText : invocation.traced.text? input = invocation.text? input := rfl
  rw [source?] at missing
  rw [respond_eq, respond_eq, sameText]
  cases read : invocation.text? input with
  | none => rfl
  | some text =>
    rw [read, Option.bind_some] at missing
    simp only [missing]
    rfl

end Invocation

/-- The answer is one line that says what is wrong, and nothing else is printed. -/
def Response.IsComplaint (response : Response) : Prop :=
  response.exitCode = 1 ∧ response.output = "" ∧
    ∃ error : Error, response.errors = line error.message ∧ StaysOnLine error.message

theorem isComplaint_answer {options : Options} {source : String} {error : Error}
    (failed : evaluateWith options source = .error error) :
    (answer options source).IsComplaint := by
  have stays : StaysOnLine error.message := by
    rcases parse_error_or_failure (.inr ⟨options, failed⟩) with ⟨cause, refused, rfl⟩ |
      ⟨e, cause, parsed, failure, rfl⟩
    · exact (located_of_parse refused).staysOnLine_message
    · exact (located_of_mem_failures parsed failure).staysOnLine_message
  rw [answer, failed]
  exact ⟨rfl, rfl, error, rfl, stays⟩

/-- **The verbose flag only adds lines.** Take any arguments that can be read and do not ask for a
trace, and any standard input. With the flag before them they can be read too, the exit code is the
same, and what is printed are the entries of the trace, one on each line, and then what is printed
without the flag. Without an expression to evaluate there is no trace and nothing changes at all. If
the expression has no value, either answer is one line that says what is wrong, and no line of a
trace is printed. -/
theorem verbose_flag_adds_lines {arguments : List String} {invocation : Invocation}
    (accepted : Invocation.ofArguments? arguments = some invocation)
    (silent : invocation.verbose = false) (input : List UInt8) :
    Invocation.ofArguments? ("-v" :: arguments) = some invocation.traced ∧
      (invocation.traced.respond input).exitCode = (invocation.respond input).exitCode ∧
      (invocation.traced.respond input).output =
        String.join ((invocation.trace input).map line) ++ (invocation.respond input).output ∧
      (invocation.source? input = none →
        invocation.trace input = [] ∧ invocation.traced.respond input = invocation.respond input) ∧
      ∀ source error, invocation.source? input = some source → evaluate source = .error error →
        (invocation.respond input).IsComplaint ∧
          (invocation.traced.respond input).IsComplaint := by
  refine ⟨Invocation.ofArguments?_verbose accepted silent, ?_⟩
  cases found : invocation.source? input with
  | none =>
    have same := Invocation.respond_traced_of_no_source found
    have noTrace : invocation.trace input = [] := by rw [Invocation.trace, found]
    rw [same, noTrace]
    exact ⟨rfl, by simp, fun _ => ⟨rfl, rfl⟩, nofun⟩
  | some source =>
    have foundTraced : invocation.traced.source? input = some source := found
    have plainOptions : invocation.options = ⟨false, invocation.traced.options.normalization⟩ := by
      rw [Invocation.options, silent]
      rfl
    rw [Invocation.respond_of_source found, Invocation.respond_of_source foundTraced, plainOptions]
    have tracedOptions : invocation.traced.options =
        ⟨true, invocation.traced.options.normalization⟩ := rfl
    rcases evaluateWith_agree source invocation.traced.options.normalization with
      ⟨evaluation, traced, plain⟩ | ⟨error, traced, fault, plain⟩
    · rw [← tracedOptions] at traced
      have entries : invocation.trace input = evaluation.trace := by
        simp only [Invocation.trace, found, traced]
      refine ⟨?_, ?_, nofun, ?_⟩
      · simp only [answer, traced, plain]
      · simp only [answer, traced, plain, entries, List.map_nil, String.join_nil,
          String.empty_append]
        rfl
      · rintro _ error ⟨⟩ failed
        cases plain.symm.trans (evaluate_eq_error_iff.mp failed)
    · rw [← tracedOptions] at traced
      have noTrace : invocation.trace input = [] := by
        simp only [Invocation.trace, found, traced]
      have complaint := isComplaint_answer plain
      have complaintTraced := isComplaint_answer traced
      refine ⟨complaintTraced.1.trans complaint.1.symm, ?_, nofun, fun _ _ _ _ =>
        ⟨complaint, complaintTraced⟩⟩
      rw [noTrace, complaint.2.1, complaintTraced.2.1]
      rfl

/-- The arguments `-n compact -- 2*(4-5)` ask for an evaluation without a trace. With the flag its
three entries stand before the value. -/
theorem verbose_flag_adds_lines_of_product :
    ∃ invocation, Invocation.ofArguments? ["-n", "compact", "--", "2*(4-5)"] = some invocation ∧
      invocation.verbose = false ∧
      Invocation.ofArguments? ["-v", "-n", "compact", "--", "2*(4-5)"] = some invocation.traced ∧
      invocation.trace [] = ["2*(4-5)", "2*-1", "-2"] ∧
      (invocation.respond []).output = "2*(4-5) = -2\n" ∧
      (invocation.traced.respond []).output =
        String.join ((invocation.trace []).map line) ++ "2*(4-5) = -2\n" := by
  have accepted : Invocation.ofArguments? ["-n", "compact", "--", "2*(4-5)"] =
      some ⟨false, some .compact, some "2*(4-5)"⟩ := rfl
  obtain ⟨acceptedTraced, -, output, -⟩ := verbose_flag_adds_lines accepted rfl []
  have entries : Invocation.trace ⟨false, some .compact, some "2*(4-5)"⟩ [] =
      ["2*(4-5)", "2*-1", "-2"] := by decide +kernel
  have plain : (Invocation.respond ⟨false, some .compact, some "2*(4-5)"⟩ []).output =
      "2*(4-5) = -2\n" := by decide +kernel
  rw [plain] at output
  exact ⟨_, accepted, rfl, acceptedTraced, entries, plain, output⟩

end Abacus
