import Parlance.Outcome
import Parlance.Value.Selection

/-!
# Hosts

A program owns neither variables nor commands.  Its host gives the values of variables, finds
commands and selectors, and runs what belongs to it.  The host's own state is of any type `σ`;
running a command can change it.

A name is resolved the way `$` does it: a string names a variable, a tuple resolves element by
element, and a qualified value resolves its source and then applies its selectors.

    host.resolve env (.qualified source chain)
      = (host.resolve env source).bind (Value.selectAll host.applyCustom chain)      (resolve_qualified)
-/

namespace Parlance

/-- The breakdown of a command, with what it said, if anything. -/
structure Crash where
  message : Option String
  deriving DecidableEq, Inhabited

/-- What the embedder of a program supplies. -/
structure Host (σ : Type) where
  /-- The value of a variable. -/
  lookup : σ → String → Option Value
  /-- The command that a value names. -/
  findCommand : σ → Value → Option Command
  /-- The selector that some rules make, if they make one. -/
  makeSelector : List Value → σ → Except ValueError (Option Selector) × σ
  /-- What custom selectors select. -/
  applyCustom : CustomSelection
  /-- Runs a command.  It is given the whole sentence, its own name first. -/
  execute : Command → List Value → σ → Except Crash Outcome × σ
  /-- How a command that yielded goes on from a result, if it can. -/
  resume : Command → Option (Outcome → σ → Except Crash Outcome × σ)

namespace Host

variable {σ : Type}

/-! ## Variables -/

/-- The value of the variable that a value names. -/
def resolveVariable (host : Host σ) (env : σ) (name : Value) : Except ValueError Value :=
  match name.asString with
  | .error _ => .error .invalidVariableName
  | .ok name =>
    match host.lookup env name with
    | some value => .ok value
    | none => .error (.unresolvedVariable name)

mutual

/-- Resolves a value as `$` does. -/
def resolve (host : Host σ) (env : σ) : Value → Except ValueError Value
  | .tuple items => (resolveAll host env items).map .tuple
  | .qualified source chain =>
    (resolve host env source).bind (Value.selectAll host.applyCustom chain)
  | value => host.resolveVariable env value

/-- Resolves each of several values. -/
def resolveAll (host : Host σ) (env : σ) : List Value → Except ValueError (List Value)
  | [] => .ok []
  | value :: rest =>
    match resolve host env value with
    | .error error => .error error
    | .ok value => (resolveAll host env rest).map (value :: ·)

end

theorem resolve_qualified (host : Host σ) (env : σ) (source : Value) (chain : List Selector) :
    host.resolve env (.qualified source chain) =
      (host.resolve env source).bind (Value.selectAll host.applyCustom chain) := by
  rw [resolve]

/-! ## Commands and selectors -/

/-- The command that a value names; a command value names itself. -/
def resolveCommand (host : Host σ) (env : σ) (name : Value) : Except ValueError Command :=
  match name with
  | .command command => .ok command
  | name =>
    match host.findCommand env name with
    | some command => .ok command
    | none =>
      match name.asString with
      | .ok name => .error (.unresolvedCommand name)
      | .error _ => .error .invalidCommandName

/-- The selector that rules make. -/
def resolveSelector (host : Host σ) (rules : Value) (env : σ) :
    Except ValueError Selector × σ :=
  match rules.asValues with
  | .error error => (.error error, env)
  | .ok rules =>
    match host.makeSelector rules env with
    | (.error error, env) => (.error error, env)
    | (.ok (some selector), env) => (.ok selector, env)
    | (.ok none, env) =>
      (.error (.unresolvedSelector (Selector.generic rules).display), env)

end Host

end Parlance
