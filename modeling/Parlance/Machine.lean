import Parlance.Host
import Parlance.Program

/-!
# Running programs

The machine keeps everything that changes while a program runs: the frames of values, how far it
has come in the program and in its constants, the latest command and the latest result.  It stops
at the end of the program or at the first result that is not ok, and stays as it was when it
stopped.  Running it again goes on from there; if the command that stopped it had yielded and can
resume, it resumes first.

A program has no jumps, so what is left of it when the machine stands at instruction `pc` is
`program.code.drop pc`, and running is a recursion on that list.
-/

namespace Parlance

/-- The state of a running program. -/
structure Machine where
  /-- The values of the innermost frame, the latest first. -/
  frame : List Value
  /-- The frames around it, the innermost first and the root frame last. -/
  outer : List (List Value)
  /-- Number of instructions run. -/
  pc : Nat
  /-- Number of constants pushed. -/
  cc : Nat
  /-- The latest command that was run. -/
  command : Option Command
  /-- The latest result. -/
  result : Outcome

namespace Machine

/-- The machine before a program. -/
def start : Machine := ⟨[], [], 0, 0, none, .nil⟩

instance : Inhabited Machine := ⟨.start⟩

/-- Replaces the latest result, for instance by an answer to the command that yielded. -/
def withResult (result : Outcome) (machine : Machine) : Machine :=
  { machine with result := result }

/-! ## Frames -/

/-- Number of open frames, the root frame included. -/
def depth (machine : Machine) : Nat := machine.outer.length + 1

/-- The values of the innermost frame in the order they were pushed. -/
def values (machine : Machine) : List Value := machine.frame.reverse

def push (value : Value) (machine : Machine) : Machine :=
  { machine with frame := value :: machine.frame }

/-- Pushes several values, the first one first. -/
def pushAll (values : List Value) (machine : Machine) : Machine :=
  { machine with frame := values.reverse ++ machine.frame }

/-- Takes the latest value of the innermost frame, nil when there is none. -/
def pop (machine : Machine) : Value × Machine :=
  match machine.frame with
  | [] => (.nil, machine)
  | value :: frame => (value, { machine with frame := frame })

def openFrame (machine : Machine) : Machine :=
  { machine with frame := [], outer := machine.frame :: machine.outer }

/-- Closes the innermost frame and gives its values; the root frame stays open. -/
def closeFrame (machine : Machine) : Option (List Value × Machine) :=
  match machine.outer with
  | [] => none
  | frame :: outer => some (machine.values, { machine with frame := frame, outer := outer })

@[simp] theorem pop_push (value : Value) (machine : Machine) :
    (machine.push value).pop = (value, machine) := rfl

theorem values_push (value : Value) (machine : Machine) :
    (machine.push value).values = machine.values ++ [value] := by
  simp [values, push]

theorem values_pushAll (items : List Value) (machine : Machine) :
    (machine.pushAll items).values = machine.values ++ items := by
  simp [values, pushAll]

/-- What was pushed between opening a frame and closing it is what closing gives back. -/
theorem closeFrame_pushAll_openFrame (items : List Value) (machine : Machine) :
    (machine.openFrame.pushAll items).closeFrame = some (items, machine) := by
  simp [openFrame, pushAll, closeFrame, values]

/-- The latest value of the root frame. -/
def lastValue (machine : Machine) : Option Value :=
  (machine.outer.getLast?.getD machine.frame).head?

/-! ## Steps -/

/-- A machine that has stopped: with its result, or because a command broke down. -/
structure Stop where
  machine : Machine
  crash : Option Crash

/-- Stops with a result. -/
def stopWith (outcome : Outcome) (machine : Machine) : Except Stop Machine :=
  .error ⟨{ machine with result := outcome }, none⟩

/-- Stops because the program makes no sense at this place. -/
def invalidProgram (reason : String) (machine : Machine) : Except Stop Machine :=
  machine.stopWith (.error ("invalid program: " ++ reason))

/-- The outcome of an instruction that failed. -/
def failure (program : Program) (position : Option Position) (error : ValueError) : Outcome :=
  (Outcome.error error.message).withLevel ⟨none, program.source, position⟩

/-- Pushes a value, or stops with an error. -/
def deliver (program : Program) (position : Option Position) (machine : Machine) :
    Except ValueError Value → Except Stop Machine
  | .ok value => .ok (machine.push value)
  | .error error => machine.stopWith (failure program position error)

/-- The texts of several values as one string. -/
def joinStrings : List Value → Except ValueError String
  | [] => .ok ""
  | value :: rest =>
    match value.asString with
    | .error error => .error error
    | .ok text => (joinStrings rest).map (text ++ ·)

variable {σ : Type}

/-- Takes the outcome of a command.  An error passes the level of its sentence. -/
def accept (program : Program) (position : Option Position) (args : List Value)
    (command : Command) (outcome : Outcome) (machine : Machine) : Except Stop Machine :=
  let machine := { machine with command := some command }
  if outcome.isOk then .ok { machine with result := outcome }
  else if outcome.isError then
    machine.stopWith (outcome.withLevel ⟨some args, program.source, position⟩)
  else machine.stopWith outcome

/-- Runs a sentence.  Without words it does nothing. -/
def evaluate (host : Host σ) (program : Program) (position : Option Position)
    (sentence : Value) (machine : Machine) (env : σ) : Except Stop Machine × σ :=
  match sentence.asValues with
  | .error _ => (machine.invalidProgram "sentence is not a tuple", env)
  | .ok [] => (.ok machine, env)
  | .ok (name :: args) =>
    match host.resolveCommand env name with
    | .error error => (machine.stopWith (failure program position error), env)
    | .ok command =>
      match host.execute command (name :: args) env with
      | (.error crash, env) => (.error ⟨machine, some crash⟩, env)
      | (.ok outcome, env) =>
        (machine.accept program position (name :: args) command outcome, env)

/-- Runs one instruction. -/
def step (host : Host σ) (program : Program) (instruction : Instruction) (machine : Machine)
    (env : σ) : Except Stop Machine × σ :=
  let position := instruction.position
  match instruction.op with
  | .pushNil => (.ok (machine.push .nil), env)
  | .pushConstant =>
    match program.constants[machine.cc]? with
    | none => (machine.invalidProgram "constant pool exhausted", env)
    | some value => (.ok { machine.push value with cc := machine.cc + 1 }, env)
  | .openFrame => (.ok machine.openFrame, env)
  | .closeFrame =>
    match machine.closeFrame with
    | none => (machine.invalidProgram "unbalanced frames", env)
    | some (values, machine) => (.ok (machine.push (.tuple values)), env)
  | .resolveValue =>
    let (name, machine) := machine.pop
    (machine.deliver program position (host.resolve env name), env)
  | .expandValue =>
    match machine.pop with
    | (.tuple items, machine) => (.ok (machine.pushAll items), env)
    | (value, machine) => (.ok (machine.push value), env)
  | .setSource =>
    let (source, machine) := machine.pop
    (.ok (machine.push (.qualified source [])), env)
  | .selectIndex =>
    let (index, machine) := machine.pop
    let (value, machine) := machine.pop
    (machine.deliver program position (value.select host.applyCustom (.indexed index)), env)
  | .selectKeys =>
    let (keys, machine) := machine.pop
    let (value, machine) := machine.pop
    let selected :=
      (keys.asValues.bind Selector.ofKeys).bind fun selector => value.select host.applyCustom selector
    (machine.deliver program position selected, env)
  | .selectRules =>
    let (rules, machine) := machine.pop
    let (value, machine) := machine.pop
    let (selector, env) := host.resolveSelector rules env
    let selected := selector.bind fun selector => value.select host.applyCustom selector
    (machine.deliver program position selected, env)
  | .evaluateSentence =>
    let (sentence, machine) := machine.pop
    machine.evaluate host program position sentence env
  | .pushResult => (.ok (machine.push machine.result.value), env)
  | .joinStrings =>
    let (parts, machine) := machine.pop
    let joined := (parts.asValues.bind joinStrings).map Value.string
    (machine.deliver program position joined, env)

/-! ## Runs -/

/-- The machine at the end of a program.  The latest value of the root frame, if there is one, is
the result. -/
def conclude (machine : Machine) : Machine :=
  match machine.lastValue with
  | some value => { machine with result := .ok value }
  | none => machine

/-- Runs what is left of a program. -/
def run (host : Host σ) (program : Program) :
    List Instruction → Machine → σ → Stop × σ
  | [], machine, env => (⟨machine.conclude, none⟩, env)
  | instruction :: rest, machine, env =>
    match step host program instruction { machine with pc := machine.pc + 1 } env with
    | (.error stop, env) => (stop, env)
    | (.ok machine, env) => run host program rest machine env

/-- Runs a program from where the machine stands. -/
def runOn (host : Host σ) (program : Program) (machine : Machine) (env : σ) : Stop × σ :=
  run host program (program.code.drop machine.pc) machine env

/-- Runs a program from where the machine stands, after the command that yielded has resumed. -/
def execute (host : Host σ) (program : Program) (machine : Machine) (env : σ) : Stop × σ :=
  let resume? :=
    if machine.result.code = .yielding then machine.command.bind host.resume else none
  match resume? with
  | none => runOn host program machine env
  | some resume =>
    match resume machine.result env with
    | (.error crash, env) => (⟨machine, some crash⟩, env)
    | (.ok outcome, env) =>
      let machine := { machine with result := outcome }
      if outcome.isOk then runOn host program machine env else (⟨machine, none⟩, env)

/-- What a stopped machine answers.  A breakdown is an error of its own. -/
def Stop.outcome (stop : Stop) : Outcome :=
  match stop.crash with
  | none => stop.machine.result
  | some crash => .error ("internal error: " ++ crash.message.getD "unknown panic")

end Machine

end Parlance
