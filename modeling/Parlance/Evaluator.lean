import Parlance.Machine
import Parlance.Program.Compile
import Parlance.Script.Parser

/-!
# Evaluation

An evaluator compiles what it is given and runs it on a fresh machine.  Every failure is an error
outcome: of parsing, of compiling, of running, and the breakdown of a command.
-/

namespace Parlance

/-- What evaluation needs besides the thing to evaluate. -/
structure Evaluator (σ : Type) where
  host : Host σ
  /-- The source that every program is said to come from. -/
  source : Option Source
  /-- How texts are parsed. -/
  options : Parser.Options

namespace Evaluator

variable {σ : Type}

/-- Runs a program from where a machine stands. -/
def execute (evaluator : Evaluator σ) (program : Program) (machine : Machine) (env : σ) :
    Machine.Stop × σ :=
  machine.execute evaluator.host program env

/-- Runs a program from its start. -/
def runProgram (evaluator : Evaluator σ) (program : Program) (env : σ) : Outcome × σ :=
  let (stop, env) := evaluator.execute program .start env
  (stop.outcome, env)

/-- Runs what was compiled. -/
def runCompiled (evaluator : Evaluator σ) (compiled : Except CompileError Program) (env : σ) :
    Outcome × σ :=
  match compiled with
  | .ok program => evaluator.runProgram program env
  | .error error =>
    ((Outcome.error error.message).withLevel ⟨none, evaluator.source, error.position⟩, env)

/-- The result of a script, which is that of its last sentence. -/
def evaluateScript (evaluator : Evaluator σ) (script : Script) (env : σ) : Outcome × σ :=
  evaluator.runCompiled (Program.ofScript evaluator.source script) env

/-- The result of a sentence. -/
def evaluateSentence (evaluator : Evaluator σ) (sentence : Sentence) (env : σ) : Outcome × σ :=
  evaluator.runCompiled (Program.ofSentence evaluator.source sentence) env

/-- The tuple of all words of some sentences. -/
def evaluateSentences (evaluator : Evaluator σ) (sentences : List Sentence) (env : σ) :
    Outcome × σ :=
  evaluator.runCompiled (Program.ofSentences evaluator.source sentences) env

/-- The value of a word. -/
def evaluateWord (evaluator : Evaluator σ) (word : Word) (env : σ) : Outcome × σ :=
  evaluator.runCompiled (Program.ofWord evaluator.source word) env

/-- The result of a script value; any other value is its own result. -/
def evaluateValue (evaluator : Evaluator σ) (value : Value) (env : σ) : Outcome × σ :=
  match value with
  | .script script _ => evaluator.evaluateScript script env
  | value => evaluator.runProgram (Program.ofConstant evaluator.source value) env

/-- The result of the script that a text holds. -/
def evaluateSource (evaluator : Evaluator σ) (text : String) (env : σ) : Outcome × σ :=
  match parse text evaluator.options with
  | .ok script => evaluator.evaluateScript script env
  | .error error =>
    ((Outcome.error error.message).withLevel ⟨none, evaluator.source, some error.position⟩, env)

/-- The value of the one word that a text holds. -/
def evaluateWordText (evaluator : Evaluator σ) (text : String) (env : σ) : Outcome × σ :=
  match parse text ⟨false⟩ with
  | .error error => (.error error.message, env)
  | .ok ⟨[⟨[word], _⟩], _⟩ => evaluator.evaluateWord word env
  | .ok _ => (.error "expected a single word", env)

end Evaluator

end Parlance
