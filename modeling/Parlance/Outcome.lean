import Parlance.Value

/-!
# Outcomes

A command or program ends with a code and a value.  An error also carries the levels it passed on
its way out, the innermost first.
-/

namespace Parlance

/-- How a command or program ended. -/
inductive ResultCode where
  | ok
  | returning
  /-- The program is suspended and can go on. -/
  | yielding
  | error
  | breaking
  | continuing
  /-- A code of the embedder, known by its name. -/
  | custom (name : String)
  deriving DecidableEq, Inhabited

namespace ResultCode

def name : ResultCode → String
  | .ok => "ok"
  | .returning => "return"
  | .yielding => "yield"
  | .error => "error"
  | .breaking => "break"
  | .continuing => "continue"
  | .custom name => name

/-- The code of a name; a name that no other code has is a code of the embedder. -/
def ofName : String → ResultCode
  | "ok" => .ok
  | "return" => .returning
  | "yield" => .yielding
  | "error" => .error
  | "break" => .breaking
  | "continue" => .continuing
  | name => .custom name

end ResultCode

/-- A place that an error passed. -/
structure ErrorLevel where
  /-- The words of the sentence, when its command failed. -/
  frame : Option (List Value)
  source : Option Source
  position : Option Position

/-- How a command or program ended, and with what. -/
structure Outcome where
  code : ResultCode
  value : Value
  /-- The levels of an error, the innermost first; none for any other code. -/
  levels : Option (List ErrorLevel)

namespace Outcome

/-- An outcome that passed no level. -/
def of (code : ResultCode) (value : Value) : Outcome := ⟨code, value, none⟩

def ok (value : Value) : Outcome := .of .ok value

/-- Success without a value. -/
def nil : Outcome := .ok .nil

/-- An error whose value is a message. -/
def error (message : String) : Outcome := .of .error (.string message)

def yielding (value : Value) : Outcome := .of .yielding value

instance : Inhabited Outcome := ⟨.nil⟩

def isOk (outcome : Outcome) : Bool := outcome.code = .ok

def isError (outcome : Outcome) : Bool := outcome.code = .error

/-- The outcome after it passed one more level. -/
def withLevel (level : ErrorLevel) (outcome : Outcome) : Outcome :=
  { outcome with levels := some (outcome.levels.getD [] ++ [level]) }

/-- Number of levels passed. -/
def depth (outcome : Outcome) : Nat := (outcome.levels.getD []).length

end Outcome

end Parlance
