import Parlance.Value

/-!
# Programs

A program is a list of instructions and a pool of constants.  Instructions have no operands: each
`pushConstant` takes the next constant of the pool, and everything else works on the frames of the
machine that runs it.  A program never changes and can run any number of times.
-/

namespace Parlance

/-- What an instruction does. -/
inductive OpCode where
  /-- Push nil onto the innermost frame. -/
  | pushNil
  /-- Push the next constant. -/
  | pushConstant
  /-- Open a frame. -/
  | openFrame
  /-- Close the innermost frame and push its values as a tuple. -/
  | closeFrame
  /-- Pop a value, resolve it as the name of a variable and push what it names. -/
  | resolveValue
  /-- Pop a tuple and push its elements. -/
  | expandValue
  /-- Pop a value and push it as the source of a qualified value. -/
  | setSource
  /-- Pop an index, then a value; push what the index selects. -/
  | selectIndex
  /-- Pop a tuple of keys, then a value; push what the keys select. -/
  | selectKeys
  /-- Pop a tuple of rules, then a value; push what the rules select. -/
  | selectRules
  /-- Pop a tuple and run it as a command. -/
  | evaluateSentence
  /-- Push the value of the latest result. -/
  | pushResult
  /-- Pop a tuple and push the texts of its elements as one string. -/
  | joinStrings
  deriving DecidableEq, Inhabited

/-- An instruction and the position of the construct it stands for. -/
structure Instruction where
  op : OpCode
  position : Option Position
  deriving DecidableEq, Inhabited

/-- Instructions, and the constants that they push. -/
structure Program where
  code : List Instruction
  constants : Array Value
  source : Option Source

/-- Whether the program has no instruction. -/
def Program.isEmpty (program : Program) : Bool := program.code.isEmpty

end Parlance
