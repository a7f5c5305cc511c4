import Parlance.Evaluator

/-!
# The state of the small dialect

The dialect is a host with a map of variables, a counter of calls and selectors that wrap what they
select from.  Its settings stay the same for as long as it runs.
-/

namespace Parlance.Dialect

/-- How the dialect makes a selector from rules. -/
inductive SelectorPolicy where
  /-- The rules are kept as they are. -/
  | generic
  /-- No rules make a selector. -/
  | none
  /-- All rules are refused. -/
  | refuse
  /-- All rules make a wrapping selector. -/
  | wrap
  deriving DecidableEq, Inhabited

/-- What the dialect is set up with. -/
structure Settings where
  selectors : SelectorPolicy
  /-- A text that commands can ask for. -/
  context : Option String
  source : Option Source
  options : Parser.Options

/-- What commands of the dialect can change. -/
structure Workspace where
  bindings : List (String × Value)
  /-- Number of counted calls. -/
  count : Nat
  /-- What was counted, in order. -/
  calls : Array String
  /-- The identity of the next custom selector. -/
  nextIdentity : Nat

namespace Workspace

/-- A workspace without variables. -/
def empty : Workspace := ⟨[], 0, #[], 0⟩

def set (name : String) (value : Value) (workspace : Workspace) : Workspace :=
  { workspace with bindings := insertEntry name value workspace.bindings }

def get? (name : String) (workspace : Workspace) : Option Value :=
  findEntry name workspace.bindings

/-- Removes a variable and gives the value it had. -/
def unset (name : String) (workspace : Workspace) : Option Value × Workspace :=
  (workspace.get? name,
    { workspace with bindings := workspace.bindings.filter fun entry => entry.1 ≠ name })

/-- Counts a call and gives the number of calls so far. -/
def countCall (text : String) (workspace : Workspace) : Nat × Workspace :=
  (workspace.count + 1,
    { workspace with count := workspace.count + 1, calls := workspace.calls.push text })

end Workspace

/-! ## Wrapping selectors -/

/-- The selector that wraps a value together with some rules. -/
def wrapSelector (identity : Nat) (rules : List Value) : CustomSelector :=
  ⟨identity, brace ("wrap " ++ toString rules.length), rules⟩

/-- What a wrapping selector selects: the list of the value and its rules. -/
def wrap : CustomSelection
  | _, .nil => .error (.custom "cannot wrap nil")
  | selector, value => .ok (.list [value, .tuple selector.held])

/-- The selector that rules make. -/
def makeSelector (policy : SelectorPolicy) (rules : List Value) (workspace : Workspace) :
    Except ValueError (Option Selector) × Workspace :=
  match policy with
  | .generic => ((Selector.ofRules rules).map some, workspace)
  | .none => (.ok none, workspace)
  | .refuse => (.error (.custom ("refused " ++ toString rules.length ++ " rules")), workspace)
  | .wrap =>
    (.ok (some (.custom (wrapSelector workspace.nextIdentity rules))),
      { workspace with nextIdentity := workspace.nextIdentity + 1 })

end Parlance.Dialect
