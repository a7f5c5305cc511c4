import Parlance.Dialect.Workspace

/-!
# The commands of the small dialect

Each command is known by its name.  The first word of a sentence is the command itself, so the
arguments count from one; one that is missing is nil, and one too many is ignored.  A coercion that
fails makes an error of the command.
-/

namespace Parlance

/-- The outcome of a computation that can fail. -/
def Outcome.ofResult : Except ValueError Value → Outcome
  | .ok value => .ok value
  | .error error => .error error.message

namespace Dialect

/-- The commands. -/
inductive Verb where
  | echo | last | nop | join | fail | yield | code | list | dict | int | real | bool | type
  | display | script | cmd | help | context | panic | count | unset | eval | source | resolve
  | repeat | set | ask | countdown | relay
  deriving DecidableEq, Inhabited

/-- The commands by their names. -/
def Verb.table : List (String × Verb) :=
  [("echo", .echo), ("last", .last), ("nop", .nop), ("join", .join), ("fail", .fail),
   ("yield", .yield), ("code", .code), ("list", .list), ("dict", .dict), ("int", .int),
   ("real", .real), ("bool", .bool), ("type", .type), ("display", .display),
   ("script", .script), ("cmd", .cmd), ("help", .help), ("context", .context),
   ("panic", .panic), ("count", .count), ("unset", .unset), ("eval", .eval),
   ("source", .source), ("resolve", .resolve), ("repeat", .repeat), ("set", .set),
   ("ask", .ask), ("countdown", .countdown), ("relay", .relay)]

/-- The command of a name. -/
def Verb.ofName? (name : String) : Option Verb := table.lookup name

/-! ## Parts of commands -/

/-- The dictionary of keys and values that follow each other. -/
def pairUp : List Value → List (String × Value) → Outcome
  | [], entries => .ok (.dictionary entries)
  | [_], _ => .error "invalid dictionary"
  | key :: value :: rest, entries =>
    match key.asString with
    | .error error => .error error.message
    | .ok key => pairUp rest (insertEntry key value entries)

/-- What is known about a command. -/
def describe : Value → Outcome
  | .command command =>
    if Verb.ofName? command.name = some .set then .ok (.string "set varname value")
    else .error "no help"
  | _ => .error "not a command"

/-- The script that a text holds, as a value. -/
def readScript (text : String) : Outcome :=
  match parse text ⟨false⟩ with
  | .ok script => .ok (.script script none)
  | .error error => .error error.message

/-- The breakdown that a text asks for. -/
def crashOf (text : String) : Crash :=
  if text = "static" then ⟨some "static text"⟩
  else if text = "other" then ⟨none⟩
  else ⟨some text⟩

/-- Runs a value again and again, until one outcome is not ok. -/
def repeated (evaluator : Evaluator Workspace) (body : Value) :
    Nat → Outcome → Workspace → Outcome × Workspace
  | 0, latest, workspace => (latest, workspace)
  | n + 1, _, workspace =>
    let (outcome, workspace) := evaluator.evaluateValue body workspace
    if outcome.isOk then repeated evaluator body n outcome workspace else (outcome, workspace)

/-- The outcome whose code has a name. -/
def withCode (name value : Value) : Outcome :=
  match name.asString with
  | .error error => .error error.message
  | .ok name => .of (.ofName name) value

/-! ## Running and resuming -/

/-- Runs a command. -/
def perform (settings : Settings) (evaluator : Evaluator Workspace) (verb : Verb)
    (args : List Value) (workspace : Workspace) : Except Crash Outcome × Workspace :=
  let arg (i : Nat) : Value := args[i]?.getD .nil
  let answer (outcome : Outcome) : Except Crash Outcome × Workspace := (.ok outcome, workspace)
  let result (r : Except ValueError Value) : Except Crash Outcome × Workspace :=
    answer (.ofResult r)
  let withText (f : String → Except Crash Outcome × Workspace) :
      Except Crash Outcome × Workspace :=
    match (arg 1).asString with
    | .error error => answer (.error error.message)
    | .ok text => f text
  let evaluated (r : Outcome × Workspace) : Except Crash Outcome × Workspace := (.ok r.1, r.2)
  match verb with
  | .echo => answer (.ok (.tuple args.tail))
  | .last => answer (.ok (args.getLast?.getD .nil))
  | .nop => answer .nil
  | .join => result ((Machine.joinStrings args.tail).map .string)
  | .fail => answer (.of .error (arg 1))
  | .yield | .ask | .countdown | .relay => answer (.yielding (arg 1))
  | .code => answer (withCode (arg 1) (arg 2))
  | .list => result ((arg 1).asValues.map .list)
  | .dict =>
    match (arg 1).asValues with
    | .error error => answer (.error error.message)
    | .ok items => answer (pairUp items [])
  | .int => result ((arg 1).asInteger.map .integer)
  | .real => result ((arg 1).asReal.map .real)
  | .bool => result ((arg 1).asBoolean.map .boolean)
  | .type => answer (.ok (.string (arg 1).typeName))
  | .display => answer (.ok (.string (arg 1).display))
  | .script => withText fun text => answer (readScript text)
  | .cmd => withText fun name =>
    if (Verb.ofName? name).isSome then answer (.ok (.command ⟨name⟩))
    else answer (.error "no such command")
  | .help => answer (describe (arg 1))
  | .context => answer (.ok ((settings.context.map Value.string).getD .nil))
  | .panic => withText fun text => (.error (crashOf text), workspace)
  | .count =>
    let (n, workspace) := workspace.countCall ((args[1]?.map Value.display).getD "")
    (.ok (.ok (.integer (Int64.ofNat n))), workspace)
  | .unset => withText fun name =>
    let (old, workspace) := workspace.unset name
    (.ok (.ok (old.getD .nil)), workspace)
  | .eval => evaluated (evaluator.evaluateValue (arg 1) workspace)
  | .source => withText fun text => evaluated (evaluator.evaluateSource text workspace)
  | .resolve => result (evaluator.host.resolve workspace (arg 1))
  | .repeat =>
    match (arg 1).asInteger with
    | .error error => answer (.error error.message)
    | .ok n => evaluated (repeated evaluator (arg 2) n.toInt.toNat .nil workspace)
  | .set =>
    match args with
    | [_, name, value] =>
      match name.asString with
      | .error error => answer (.error error.message)
      | .ok name => (.ok (.ok value), workspace.set name value)
    | _ => answer (.error "wrong # args: should be \"set varname value\"")

/-- The outcome of an item list that relays a result: a code and a value. -/
def relayed (items : List Value) : Outcome :=
  withCode (items[0]?.getD .nil) (items[1]?.getD .nil)

/-- How a command that yielded goes on from a value, if it can. -/
def resumed? : Verb → Option (Value → Outcome)
  | .ask => some fun value =>
    .ofResult (value.asString.map fun text => .string ("answer:" ++ text))
  | .countdown => some fun value =>
    match value.asInteger with
    | .error error => .error error.message
    | .ok n => if 0 < n then .yielding (.integer (n - 1)) else .ok (.string "done")
  | .relay => some fun value =>
    match value.asValues with
    | .error error => .error error.message
    | .ok items => relayed items
  | _ => none

/-! ## The host -/

/-- The dialect as a host, given how it runs its commands. -/
def hostWith (settings : Settings)
    (run : Verb → List Value → Workspace → Except Crash Outcome × Workspace) :
    Host Workspace where
  lookup workspace name := workspace.get? name
  findCommand _ name :=
    match name.asString with
    | .error _ => none
    | .ok name => if (Verb.ofName? name).isSome then some ⟨name⟩ else none
  makeSelector := makeSelector settings.selectors
  applyCustom := wrap
  execute command args workspace :=
    match Verb.ofName? command.name with
    | some verb => run verb args workspace
    | none => (.ok (.error "no such command"), workspace)
  resume command :=
    ((Verb.ofName? command.name).bind resumed?).map fun resumed outcome workspace =>
      (.ok (resumed outcome.value), workspace)

/-- The dialect as a host.  Commands that evaluate scripts can be nested `depth` times; deeper ones
break down. -/
def host (settings : Settings) : Nat → Host Workspace
  | 0 => hostWith settings fun _ _ workspace => (.error ⟨some "nesting too deep"⟩, workspace)
  | depth + 1 => hostWith settings fun verb args workspace =>
    perform settings ⟨host settings depth, settings.source, settings.options⟩ verb args workspace

/-- How deep commands that evaluate scripts can be nested. -/
def maxDepth : Nat := 1000000

/-- The evaluator of the dialect. -/
def evaluator (settings : Settings) : Evaluator Workspace :=
  ⟨host settings maxDepth, settings.source, settings.options⟩

end Dialect

end Parlance
