/-
**The command line.**

An invocation says what to evaluate, how to echo it and whether to trace it. Everything here is a
function of the arguments and of the bytes on standard input:

* `Invocation.ofArguments?`: the invocation that the arguments ask for, if they ask for one;
* `Invocation.respond`: what is printed and the exit code.
-/

import Abacus.Evaluation

namespace Abacus

/-- What the arguments of the command ask for. -/
structure Invocation where
  /-- Whether the reduction is traced. -/
  verbose : Bool
  /-- The form of the echo, if one is chosen. -/
  style : Option Normalization
  /-- The text to evaluate, if it is not on standard input. -/
  expression : Option String

/-- What the command answers. -/
structure Response where
  exitCode : UInt32
  output : String
  errors : String
  deriving DecidableEq

namespace CommandLine

/-! ### Arguments -/

/-- A request that stands on the command line. -/
inductive Request where
  | verbose
  | style (normalization : Normalization)
  | expression (text : String)
  deriving DecidableEq

/-- What one argument says. -/
inductive Reading where
  /-- These requests and no more. -/
  | complete (requests : List Request)
  /-- These requests, and a style that the next argument names. -/
  | awaitsStyle (requests : List Request)

/-- A reading behind one more request. -/
def Reading.cons (request : Request) : Reading → Reading
  | complete requests => complete (request :: requests)
  | awaitsStyle requests => awaitsStyle (request :: requests)

/-- The style with a name. -/
def style? (name : List Char) : Option Normalization :=
  if name = "preserve".toList then some .preserve
  else if name = "compact".toList then some .compact
  else if name = "spacing".toList then some .spacing
  else none

/-- The reading of an argument that ends in the name of a style. -/
def named? (name : List Char) : Option Reading :=
  (style? name).map fun style => .complete [.style style]

/-- The options behind a single dash. A style takes the rest of the argument for its name. -/
def shortOptions? : List Char → Option Reading
  | [] => some (.complete [])
  | 'v' :: options => (shortOptions? options).map (.cons .verbose)
  | ['n'] => some (.awaitsStyle [])
  | 'n' :: '=' :: name => named? name
  | 'n' :: name => named? name
  | _ :: _ => none

/-- The option behind two dashes. -/
def longOption? (option : List Char) : Option Reading :=
  if option = "verbose".toList then some (.complete [.verbose])
  else if option = "normalize".toList then some (.awaitsStyle [])
  else if "normalize=".toList.isPrefixOf option then named? (option.drop "normalize=".length)
  else none

/-- What an argument says that is not the end of the options. A lone dash is no option. -/
def reading? (argument : String) : Option Reading :=
  match argument.toList with
  | '-' :: '-' :: option => longOption? option
  | '-' :: c :: options => shortOptions? (c :: options)
  | _ => some (.complete [.expression argument])

/-- The requests of the arguments in their order; two dashes end the options. -/
def requests? : List String → Option (List Request)
  | [] => some []
  | argument :: arguments =>
    if argument = "--" then some (arguments.map .expression)
    else
      match reading? argument with
      | none => none
      | some (.complete found) => (requests? arguments).map (found ++ ·)
      | some (.awaitsStyle found) =>
        match arguments with
        | [] => none
        | name :: arguments =>
          match style? name.toList with
          | none => none
          | some style => (requests? arguments).map ((found ++ [.style style]) ++ ·)

/-- An invocation with one more request; none can be made twice. -/
def add? (invocation : Invocation) : Request → Option Invocation
  | .verbose => if invocation.verbose then none else some { invocation with verbose := true }
  | .style normalization =>
    if invocation.style.isSome then none else some { invocation with style := some normalization }
  | .expression text =>
    if invocation.expression.isSome then none else some { invocation with expression := some text }

end CommandLine

namespace Invocation

/-- The invocation that makes no request. -/
def empty : Invocation := ⟨false, none, none⟩

/-- The invocation that the arguments ask for; there is none if they are malformed. -/
def ofArguments? (arguments : List String) : Option Invocation := do
  let requests ← CommandLine.requests? arguments
  requests.foldlM CommandLine.add? empty

/-- The options of an evaluation; the echo is spaced unless another form is chosen. -/
def options (invocation : Invocation) : Options :=
  ⟨invocation.verbose, invocation.style.getD .spacing⟩

end Invocation

namespace CommandLine

/-! ### Answers -/

/-- A line of a text. -/
def line (text : String) : String :=
  text ++ "\n"

/-- The answer to arguments that are malformed. -/
def usage : Response :=
  ⟨2, "", line "usage: abacus [-v] [-n preserve|compact|spacing] [--] [EXPRESSION]"⟩

/-- The answer to an input that is not text. -/
def unreadable : Response :=
  ⟨1, "", line <| "Failed to read an expression from standard input: " ++
    "stream did not contain valid UTF-8"⟩

/-- The value of a text behind its trace, or what is wrong with it. -/
def answer (options : Options) (source : String) : Response :=
  match evaluateWith options source with
  | .ok evaluation =>
    ⟨0, String.join (evaluation.trace.map line) ++ line evaluation.text, ""⟩
  | .error error => ⟨1, "", line error.message⟩

/-- The expressions that show what can be evaluated. -/
def demonstrations : List String :=
  ["2+2", "2*(4-5)", "4^7-12^3", "3^4+6*((9+12/6)*(24/2^3-1))"]

/-- The answer to a blank text: the demonstrations, without their traces. -/
def demonstrate (options : Options) : Response :=
  let responses := demonstrations.map (answer { options with verbose := false })
  ⟨0, line "Printing test expressions:" ++ String.join (responses.map Response.output),
    String.join (responses.map Response.errors)⟩

/-- The answer to a text. Blanks at its ends do not count. -/
def answerText (options : Options) (text : String) : Response :=
  match trimBlanks text.toList with
  | [] => demonstrate options
  | source => answer options (String.ofList source)

/-- The first line of an input as text, without its end. -/
def firstLine? (input : List UInt8) : Option String :=
  String.fromUTF8? ⟨(input.takeWhile (· != 10)).toArray⟩

end CommandLine

/-- What the command answers. Standard input counts only if no text is given. -/
def Invocation.respond (invocation : Invocation) (input : List UInt8) : Response :=
  match invocation.expression with
  | some text => CommandLine.answerText invocation.options text
  | none =>
    match CommandLine.firstLine? input with
    | some text => CommandLine.answerText invocation.options text
    | none => CommandLine.unreadable

end Abacus
