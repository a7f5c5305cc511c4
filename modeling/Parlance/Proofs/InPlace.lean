import Mathlib
import Parlance.Dialect.Commands
import Parlance.Evaluator
import Parlance.Proofs.Inlined
import Parlance.Proofs.Safety
import Parlance.Proofs.Suspension.Stale

/-!
# Programs in place

An expression is compiled in place: its program stands inside that of the script around it, and runs on
the frames of that script.  It does there what it does on its own, on a machine that holds the result
that the script left last.  An expression that reads only results of its own commands does not depend
on that result.

    InPlace fragment whole m → through whole fragment.code m =
      lift m (through fragment fragment.code (start.withResult m.result))          (through_inPlace)
    InPlace fragment whole m → ReadsOwn fragment fragment.code start env →
      Contributes tree fragment whole m env                                   (contributes_of_inPlace)
-/

namespace Parlance.Machine

variable {σ : Type}

/-! ## Runs of some instructions -/

/-- Runs some instructions of a program. -/
def through (host : Host σ) (program : Program) :
    List Instruction → Machine → σ → Except Stop Machine × σ
  | [], machine, env => (.ok machine, env)
  | instruction :: rest, machine, env =>
    match step host program instruction { machine with pc := machine.pc + 1 } env with
    | (.error stop, env) => (.error stop, env)
    | (.ok machine, env) => through host program rest machine env

theorem run_eq_through (host : Host σ) (program : Program) (instructions : List Instruction)
    (machine : Machine) (env : σ) :
    run host program instructions machine env =
      match through host program instructions machine env with
      | (.error stop, env) => (stop, env)
      | (.ok machine, env) => (⟨machine.conclude, none⟩, env) := by
  induction instructions generalizing machine env with
  | nil => rfl
  | cons instruction rest ih =>
    rw [run, through]
    rcases step host program instruction { machine with pc := machine.pc + 1 } env with
      ⟨stop | next, after⟩
    · rfl
    · exact ih next after

/-- Instructions that stand where a passed machine stands, and run through, lead to one behind them. -/
theorem Passed.through {host : Host σ} {program : Program} {instructions : List Instruction}
    {machine next : Machine} {env after : σ} (h : Passed host program machine)
    (hcode : instructions <+: program.code.drop machine.pc)
    (hrun : through host program instructions machine env = (.ok next, after)) :
    Passed host program next ∧ next.pc = machine.pc + instructions.length := by
  induction instructions generalizing machine env with
  | nil =>
    cases hrun
    exact ⟨h, rfl⟩
  | cons instruction rest ih =>
    obtain ⟨more, hmore⟩ := hcode
    obtain ⟨hat, hdrop⟩ := drop_eq_cons hmore.symm
    rw [Machine.through] at hrun
    rcases hstep : Machine.step host program instruction { machine with pc := machine.pc + 1 } env
      with ⟨stop | moved, between⟩
    · rw [hstep] at hrun
      cases hrun
    · rw [hstep] at hrun
      have hpc : moved.pc = machine.pc + 1 := pc_of_step hstep
      rw [← hpc] at hdrop
      obtain ⟨hnext, hend⟩ := ih (h.step hat hstep) ⟨more, hdrop.symm⟩ hrun
      refine ⟨hnext, ?_⟩
      rw [hend, hpc, List.length_cons]
      omega

/-! ## Machines on top of others -/

/-- Frames on top of those of another machine: the last of them goes on with the innermost frame
there. -/
def raise (below : Machine) : List Value → List (List Value) → List Value × List (List Value)
  | frame, [] => (frame ++ below.frame, below.outer)
  | frame, next :: rest => (frame, (raise below next rest).1 :: (raise below next rest).2)

/-- A machine on top of another one, where that stands. -/
def on (machine below : Machine) : Machine where
  frame := (raise below machine.frame machine.outer).1
  outer := (raise below machine.frame machine.outer).2
  pc := below.pc + machine.pc
  cc := below.cc + machine.cc
  command := machine.command.or below.command
  result := machine.result

/-- What is left of a step, on top of another machine. -/
def lift (below : Machine) : Except Stop Machine → Except Stop Machine
  | .ok machine => .ok (machine.on below)
  | .error stop => .error ⟨stop.machine.on below, stop.crash⟩

section On

variable {host : Host σ} {fragment whole : Program} {machine below : Machine} {env : σ}

theorem raise_append (values frame : List Value) (outer : List (List Value)) :
    raise below (values ++ frame) outer =
      (values ++ (raise below frame outer).1, (raise below frame outer).2) := by
  cases outer with
  | nil => simp only [raise, List.append_assoc]
  | cons next rest => rfl

theorem on_pushAll (machine below : Machine) (values : List Value) :
    (machine.pushAll values).on below = (machine.on below).pushAll values := by
  simp only [on, pushAll, raise_append]

theorem on_push (machine below : Machine) (value : Value) :
    (machine.push value).on below = (machine.on below).push value :=
  on_pushAll machine below [value]

/-- A machine that holds a value pops it on top of another one too. -/
theorem pop_on (below : Machine) (h : machine.frame ≠ []) :
    (machine.on below).pop = (machine.pop.1, machine.pop.2.on below) := by
  obtain ⟨_ | ⟨value, frame⟩, outer, pc, cc, command, result⟩ := machine
  · exact absurd rfl h
  · exact congrArg pop (on_push ⟨frame, outer, pc, cc, command, result⟩ below value)

/-- Two values are popped the same way. -/
theorem pop_pop_on (below : Machine) (h : 2 ≤ machine.frame.length) :
    (machine.on below).pop = (machine.pop.1, machine.pop.2.on below) ∧
      (machine.pop.2.on below).pop = (machine.pop.2.pop.1, machine.pop.2.pop.2.on below) := by
  constructor
  · exact pop_on below (List.ne_nil_of_length_pos (by omega))
  · refine pop_on below (List.ne_nil_of_length_pos ?_)
    rw [pop_eq, List.length_drop]
    omega

variable (hsource : whole.source = fragment.source)
include hsource

theorem deliver_on (position : Option Position) (result : Except ValueError Value) :
    (machine.on below).deliver whole position result =
      lift below (machine.deliver fragment position result) := by
  cases result with
  | ok value => exact congrArg Except.ok (on_push machine below value).symm
  | error error =>
    simp only [deliver, failure, hsource]
    rfl

theorem accept_on (position : Option Position) (args : List Value) (command : Command)
    (outcome : Outcome) :
    (machine.on below).accept whole position args command outcome =
      lift below (machine.accept fragment position args command outcome) := by
  unfold accept
  rw [hsource]
  dsimp only
  split
  · rfl
  · split <;> rfl

theorem evaluate_on (position : Option Position) (sentence : Value) :
    (machine.on below).evaluate host whole position sentence env =
      (lift below (machine.evaluate host fragment position sentence env).1,
        (machine.evaluate host fragment position sentence env).2) := by
  unfold evaluate
  rcases sentence.asValues with error | _ | ⟨name, args⟩
  · rfl
  · rfl
  · dsimp only
    cases host.resolveCommand env name with
    | error error =>
      simp only [failure, hsource]
      rfl
    | ok command =>
      dsimp only
      rcases host.execute command (name :: args) env with ⟨crash | outcome, after⟩
      · rfl
      · exact congrArg (·, after) (accept_on hsource position (name :: args) command outcome)

/-- An instruction does on top of another machine what it does on its own, when it has what it takes. -/
theorem step_on {instruction : Instruction} (h : Sufficient fragment machine instruction.op)
    (hconstant : machine.cc < fragment.constants.size →
      whole.constants[below.cc + machine.cc]? = fragment.constants[machine.cc]?) :
    step host whole instruction (machine.on below) env =
      (lift below (step host fragment instruction machine env).1,
        (step host fragment instruction machine env).2) := by
  obtain ⟨op, position⟩ := instruction
  cases op with
  | pushNil | pushResult => exact congrArg (·, env) (congrArg Except.ok (on_push machine below _).symm)
  | openFrame => rfl
  | pushConstant =>
    have hvalue : fragment.constants[machine.cc]? = some fragment.constants[machine.cc] :=
      Array.getElem?_eq_getElem h
    have hwhole : whole.constants[(machine.on below).cc]? = some fragment.constants[machine.cc] :=
      (hconstant h).trans hvalue
    simp only [step, hwhole, hvalue, ← on_push]
    rfl
  | closeFrame =>
    obtain ⟨frame, _ | ⟨next, outer⟩, pc, cc, command, result⟩ := machine
    · exact absurd rfl h
    · have hpush := on_push ⟨next, outer, pc, cc, command, result⟩ below (.tuple frame.reverse)
      exact congrArg (·, env) (congrArg Except.ok hpush.symm)
  | setSource =>
    simp only [step, pop_on below h]
    exact congrArg (·, env) (congrArg Except.ok (on_push _ below _).symm)
  | resolveValue | joinStrings =>
    simp only [step, pop_on below h]
    exact congrArg (·, env) (deliver_on hsource position _)
  | expandValue =>
    simp only [step, pop_on below h]
    rcases machine.pop with ⟨value, popped⟩
    cases value with
    | tuple items => exact congrArg (·, env) (congrArg Except.ok (on_pushAll popped below items).symm)
    | _ => exact congrArg (·, env) (congrArg Except.ok (on_push popped below _).symm)
  | selectIndex | selectKeys =>
    obtain ⟨hfirst, hsecond⟩ := pop_pop_on below h
    simp only [step, hfirst, hsecond]
    exact congrArg (·, env) (deliver_on hsource position _)
  | selectRules =>
    obtain ⟨hfirst, hsecond⟩ := pop_pop_on below h
    simp only [step, hfirst, hsecond]
    exact congrArg (·, _) (deliver_on hsource position _)
  | evaluateSentence =>
    obtain ⟨words, rest, hframe⟩ := h
    have hpop : machine.frame ≠ [] := by
      rw [hframe]
      exact List.cons_ne_nil _ _
    simp only [step, pop_on below hpop]
    exact evaluate_on hsource position _

end On

/-! ## Programs in place -/

/-- A program stands in place in another one: where a machine stands, its instructions come next, and so
do its constants. -/
structure InPlace (fragment whole : Program) (machine : Machine) : Prop where
  code : fragment.code <+: whole.code.drop machine.pc
  constants : fragment.constants.toList <+: whole.constants.toList.drop machine.cc
  source : whole.source = fragment.source

theorem InPlace.constant {fragment whole : Program} {below : Machine}
    (h : InPlace fragment whole below) {count : Nat} (hcount : count < fragment.constants.size) :
    whole.constants[below.cc + count]? = fragment.constants[count]? := by
  obtain ⟨more, hmore⟩ := h.constants
  rw [← Array.getElem?_toList, ← List.getElem?_drop, ← hmore, List.getElem?_append_left hcount,
    Array.getElem?_toList]

/-- Where the steps of a script are among those of a program, its own program stands in place for every
machine that is passed there. -/
theorem inPlace_of_isPrefix {host : Host σ} {source : Option Source} {inner steps : List Compile.Step}
    {left : Option Nat} {machine : Machine} (h : Compile.Turns steps 0 left)
    (hm : Passed host (Compile.assemble source steps) machine)
    (hinner : inner <+: steps.drop machine.pc) :
    InPlace (Compile.assemble source inner) (Compile.assemble source steps) machine := by
  obtain ⟨final, hfinal, -, -⟩ := Layout.along_turns h .empty [] false
  have hpassed : ∀ step ∈ steps.take machine.pc, IsPaired step := fun step hstep =>
    isPaired_of_turns h step (List.mem_of_mem_take hstep)
  have hcc : machine.cc = ((steps.take machine.pc).filterMap Compile.Step.constant?).length := by
    rw [length_constants hpassed, List.map_take]
    exact (hm.placed hfinal).cc_eq
  have hconstants : steps.filterMap Compile.Step.constant? =
      (steps.take machine.pc).filterMap Compile.Step.constant? ++
        (steps.drop machine.pc).filterMap Compile.Step.constant? := by
    rw [← List.filterMap_append, List.take_append_drop]
  refine ⟨?_, ?_, rfl⟩
  · show inner.map Compile.Step.instruction <+: (steps.map Compile.Step.instruction).drop machine.pc
    rw [← List.map_drop]
    exact hinner.map _
  · show inner.filterMap Compile.Step.constant? <+:
      (steps.filterMap Compile.Step.constant?).drop machine.cc
    rw [hconstants, hcc, List.drop_left]
    exact hinner.filterMap _

section Scripts

variable {host : Host σ} {source : Option Source} {tree : Script} {fragment whole : Program}
  {machine below : Machine} {env : σ}

/-- Instructions of a compiled script do on top of another machine what they do on their own. -/
theorem through_on (h : Program.ofScript source tree = .ok fragment)
    (hplace : InPlace fragment whole below) (hm : Passed host fragment machine) :
    through host whole (fragment.code.drop machine.pc) (machine.on below) env =
      (lift below (through host fragment (fragment.code.drop machine.pc) machine env).1,
        (through host fragment (fragment.code.drop machine.pc) machine env).2) := by
  obtain ⟨steps, hs, rfl⟩ := map_eq_ok h
  have hturns := Compile.Turns.script tree steps hs
  generalize hrest : (Compile.assemble source steps).code.drop machine.pc = rest
  induction rest generalizing machine env with
  | nil => rfl
  | cons instruction rest ih =>
    obtain ⟨hat, hdrop⟩ := drop_eq_cons hrest
    have hsufficient : Sufficient (Compile.assemble source steps)
        { machine with pc := machine.pc + 1 } instruction.op := hm.sufficient hturns hat
    have hstep : step host whole instruction
        { machine.on below with pc := (machine.on below).pc + 1 } env = _ :=
      step_on hplace.source hsufficient hplace.constant
    rw [Machine.through, Machine.through, hstep]
    rcases hown : step host (Compile.assemble source steps) instruction
      { machine with pc := machine.pc + 1 } env with ⟨stop | moved, after⟩
    · rfl
    · have hpc : moved.pc = machine.pc + 1 := pc_of_step hown
      rw [← hpc] at hdrop
      exact ih (hm.step hat hown) hdrop

/-- A script in place does what it does on its own, on a machine that holds the result before it. -/
theorem through_inPlace (h : Program.ofScript source tree = .ok fragment)
    (hplace : InPlace fragment whole machine) (env : σ) :
    through host whole fragment.code machine env =
      (lift machine (through host fragment fragment.code (start.withResult machine.result) env).1,
        (through host fragment fragment.code (start.withResult machine.result) env).2) :=
  through_on h hplace (Passed.start.withResult machine.result)

end Scripts

/-! ## Results of its own -/

/-- Whether a run reads no result but those that its commands left. -/
def ReadsOwn (host : Host σ) (program : Program) : List Instruction → Machine → σ → Prop
  | [], _, _ => True
  | instruction :: rest, machine, env =>
    (instruction.op = .pushResult → machine.command ≠ none) ∧
      match step host program instruction { machine with pc := machine.pc + 1 } env with
      | (.error _, _) => True
      | (.ok machine, env) => ReadsOwn host program rest machine env

/-- The machines are the same, but the first one may hold another result when no command ran yet. -/
inductive Fresh : Machine → Machine → Prop
  | same (machine : Machine) : Fresh machine machine
  | other (result : Outcome) {machine : Machine} (h : machine.command = none) :
    Fresh (machine.withResult result) machine

/-- What two runs leave that differ in the result they began with. -/
inductive LeftFresh : Except Stop Machine → Except Stop Machine → Prop
  | ok {first second : Machine} (h : Fresh first second) : LeftFresh (.ok first) (.ok second)
  | error {first second : Stop} (h : first.outcome = second.outcome) :
    LeftFresh (.error first) (.error second)

section Fresh

variable {host : Host σ} {program : Program}

theorem leftFresh_refl (left : Except Stop Machine) : LeftFresh left left := by
  cases left with
  | ok machine => exact .ok (.same machine)
  | error stop => exact .error rfl

theorem leftFresh_of_kept {other : Outcome} {machine : Machine} {first second : Except Stop Machine}
    (h : Kept other machine first second) (hcommand : machine.command = none) :
    LeftFresh first second := by
  cases h with
  | same => exact leftFresh_refl _
  | moved next hnext _ => exact .ok (.other other (hnext.trans hcommand))
  | crashed => exact .error rfl

/-- A step that reads no result keeps machines the same but for the result. -/
theorem Fresh.step {first second : Machine} (h : Fresh first second) (instruction : Instruction)
    (hreads : instruction.op = .pushResult → second.command ≠ none) (env : σ) :
    (Machine.step host program instruction { first with pc := first.pc + 1 } env).2 =
        (Machine.step host program instruction { second with pc := second.pc + 1 } env).2 ∧
      LeftFresh (Machine.step host program instruction { first with pc := first.pc + 1 } env).1
        (Machine.step host program instruction { second with pc := second.pc + 1 } env).1 := by
  cases h with
  | same => exact ⟨rfl, leftFresh_refl _⟩
  | other result hcommand =>
    have hvalue : instruction.op = .pushResult → result.value = second.result.value :=
      fun hop => absurd hcommand (hreads hop)
    obtain ⟨henv, hkept⟩ :=
      kept_step host program instruction { second with pc := second.pc + 1 } env hvalue
    exact ⟨henv, leftFresh_of_kept hkept hcommand⟩

/-- Runs that read no result but their own leave the same, whatever result they began with. -/
theorem Fresh.through {first second : Machine} {instructions : List Instruction} {env : σ}
    (h : Fresh first second) (hreads : ReadsOwn host program instructions second env) :
    (Machine.through host program instructions first env).2 =
        (Machine.through host program instructions second env).2 ∧
      LeftFresh (Machine.through host program instructions first env).1
        (Machine.through host program instructions second env).1 := by
  induction instructions generalizing first second env with
  | nil => exact ⟨rfl, .ok h⟩
  | cons instruction rest ih =>
    obtain ⟨hown, hrest⟩ := hreads
    obtain ⟨henv, hleft⟩ := h.step instruction hown env
    rw [Machine.through, Machine.through]
    rcases hfirst : Machine.step host program instruction { first with pc := first.pc + 1 } env
      with ⟨left, after⟩
    rcases hsecond : Machine.step host program instruction { second with pc := second.pc + 1 } env
      with ⟨left', after'⟩
    rw [hfirst, hsecond] at henv hleft
    rw [hsecond] at hrest
    cases henv
    cases hleft with
    | ok hnext => exact ih hnext hrest
    | error houtcome => exact ⟨rfl, .error houtcome⟩

end Fresh

/-! ## Expressions -/

section Expressions

variable {evaluator : Evaluator σ} {tree : Script} {fragment whole : Program} {machine : Machine}
  {env : σ}

/-- What a script that is evaluated answers, by the run of its program. -/
theorem evaluateScript_eq (h : Program.ofScript evaluator.source tree = .ok fragment) (env : σ) :
    evaluator.evaluateScript tree env =
      match through evaluator.host fragment fragment.code .start env with
      | (.error stop, after) => (stop.outcome, after)
      | (.ok machine, after) => (machine.conclude.result, after) := by
  have hrun : Machine.start.execute evaluator.host fragment env =
      run evaluator.host fragment fragment.code .start env := execute_of_isOk rfl env
  simp only [Evaluator.evaluateScript, h, Evaluator.runCompiled, Evaluator.runProgram,
    Evaluator.execute, hrun, run_eq_through]
  rcases through evaluator.host fragment fragment.code .start env with ⟨stop | machine, after⟩ <;> rfl

/-- The run of a script's program ends with one value. -/
theorem exists_value_of_through {host : Host σ} {source : Option Source} {next : Machine} {after : σ}
    (h : Program.ofScript source tree = .ok fragment)
    (hrun : through host fragment fragment.code .start env = (.ok next, after)) :
    ∃ value, next.frame = [value] ∧ next.outer = [] := by
  obtain ⟨steps, hs, rfl⟩ := map_eq_ok h
  obtain ⟨hm, hend⟩ := Passed.start.through List.prefix_rfl hrun
  have hend : next.pc = (Compile.assemble source steps).code.length := hend.trans (Nat.zero_add _)
  obtain ⟨houter, -, hcount⟩ := hm.ended (Compile.Turns.script tree steps hs) hend.ge
  obtain ⟨value, hframe⟩ := List.length_eq_one_iff.1 (hcount 1 rfl)
  exact ⟨value, hframe, houter⟩

theorem outcome_on (stop : Stop) (below : Machine) :
    Stop.outcome ⟨stop.machine.on below, stop.crash⟩ = stop.outcome := by
  obtain ⟨machine, _ | crash⟩ := stop <;> rfl

/-- What a script that stands in place contributes is what it evaluates to on its own: it adds that
value to the innermost frame and leaves the same state of the host, and where it stops it does so with
the outcome that it has on its own. -/
def Contributes (evaluator : Evaluator σ) (tree : Script) (fragment whole : Program) (machine : Machine)
    (env : σ) : Prop :=
  (∀ next after, through evaluator.host whole fragment.code machine env = (.ok next, after) →
    ∃ value, evaluator.evaluateScript tree env = (.ok value, after) ∧
      next.frame = value :: machine.frame ∧ next.outer = machine.outer) ∧
  ∀ stop after, through evaluator.host whole fragment.code machine env = (.error stop, after) →
    evaluator.evaluateScript tree env = (stop.outcome, after)

theorem contributes_of_inPlace (h : Program.ofScript evaluator.source tree = .ok fragment)
    (hplace : InPlace fragment whole machine)
    (hreads : ReadsOwn evaluator.host fragment fragment.code .start env) :
    Contributes evaluator tree fragment whole machine env := by
  have hfresh : Fresh (start.withResult machine.result) start := .other machine.result rfl
  obtain ⟨henv, hleft⟩ := hfresh.through hreads
  rw [Contributes, through_inPlace h hplace env, evaluateScript_eq h env]
  rcases hown : through evaluator.host fragment fragment.code (start.withResult machine.result) env
    with ⟨left, after⟩
  rcases hstart : through evaluator.host fragment fragment.code start env with ⟨left', after'⟩
  rw [hown, hstart] at henv hleft
  cases henv
  cases hleft with
  | @ok first second hnext =>
    refine ⟨?_, by rintro _ _ ⟨⟩⟩
    rintro _ _ ⟨⟩
    obtain ⟨value, hframe, houter⟩ := exists_value_of_through h hstart
    obtain ⟨hframe', houter'⟩ : first.frame = [value] ∧ first.outer = [] := by
      cases hnext <;> exact ⟨hframe, houter⟩
    refine ⟨value, ?_, ?_, ?_⟩
    · simp [conclude, lastValue, hframe, houter]
    · simp [on, raise, hframe', houter']
    · simp [on, raise, hframe', houter']
  | error houtcome =>
    refine ⟨by rintro _ _ ⟨⟩, ?_⟩
    rintro _ _ ⟨⟩
    rw [outcome_on, houtcome]

/-- **Expressions that read only their own results.**  Every expression that a script is compiled with
has a place of its own in the program.  On every machine that is passed there, it contributes what its
script evaluates to on its own, as long as that reads no result but those of its own commands: what ran
before does not matter. -/
theorem contributes_of_inlined (h : Program.ofScript evaluator.source tree = .ok whole) :
    ∃ offsets : List Nat, offsets.Pairwise (· < ·) ∧
      List.Forall₂ (fun body offset =>
        ∃ fragment, Program.ofScript evaluator.source body = .ok fragment ∧
          fragment.code <+: whole.code.drop offset ∧
          ∀ machine env, Passed evaluator.host whole machine → machine.pc = offset →
            ReadsOwn evaluator.host fragment fragment.code .start env →
            Contributes evaluator body fragment whole machine env) tree.inlined offsets := by
  obtain ⟨steps, hs, rfl⟩ := map_eq_ok h
  obtain ⟨offsets, hoffsets, hbegin⟩ := Compile.exists_offsets_of_script hs
  refine ⟨offsets, hoffsets, hbegin.imp fun body offset hbody => ?_⟩
  obtain ⟨inner, hinner, hprefix⟩ := hbody
  have hfragment : Program.ofScript evaluator.source body =
      .ok (Compile.assemble evaluator.source inner) := by
    rw [Program.ofScript, hinner]
    rfl
  refine ⟨_, hfragment, ?_, fun machine env hm hpc hreads => ?_⟩
  · show inner.map Compile.Step.instruction <+: (steps.map Compile.Step.instruction).drop offset
    rw [← List.map_drop]
    exact hprefix.map _
  · rw [← hpc] at hprefix
    have hplace := inPlace_of_isPrefix (Compile.Turns.script tree steps hs) hm hprefix
    exact contributes_of_inPlace hfragment hplace hreads

/-- The expression of `echo a; echo [echo x]`, where `echo a` has left its result. -/
theorem contributes_of_inlined_echo :
    let evaluator : Evaluator Dialect.Workspace :=
      ⟨Dialect.host ⟨.generic, none, none, ⟨false⟩⟩ 1, none, ⟨false⟩⟩
    let sentence (words : List Morpheme.Kind) : Sentence :=
      ⟨words.map fun kind => ⟨[⟨kind, none⟩], none⟩, none⟩
    let inner : Script := ⟨[sentence [.literal "echo", .literal "x"]], none⟩
    let outer : Script := ⟨[sentence [.literal "echo", .literal "a"],
      sentence [.literal "echo", .expression inner]], none⟩
    let before : Machine :=
      ⟨[.string "echo"], [[]], 7, 3, some ⟨"echo"⟩, .ok (.tuple [.string "a"])⟩
    ∃ fragment whole, Program.ofScript none inner = .ok fragment ∧
      Program.ofScript none outer = .ok whole ∧ outer.inlined = [inner] ∧
      Passed evaluator.host whole before ∧ fragment.code <+: whole.code.drop before.pc ∧
      ReadsOwn evaluator.host fragment fragment.code .start .empty ∧
      ∃ next value, through evaluator.host whole fragment.code before .empty = (.ok next, .empty) ∧
        evaluator.evaluateScript inner .empty = (.ok value, .empty) ∧
        next.frame = [value, .string "echo"] ∧ next.outer = [[]] := by
  intro evaluator sentence inner outer before
  let instructions (ops : List OpCode) : List Instruction := ops.map fun op => ⟨op, none⟩
  let fragment : Program := ⟨instructions [.openFrame, .pushConstant, .pushConstant, .closeFrame,
    .evaluateSentence, .pushResult], #[.string "echo", .string "x"], none⟩
  let whole : Program := ⟨instructions [.openFrame, .pushConstant, .pushConstant, .closeFrame,
      .evaluateSentence, .openFrame, .pushConstant] ++ fragment.code ++
      instructions [.closeFrame, .evaluateSentence, .pushResult],
    #[.string "echo", .string "a", .string "echo", .string "echo", .string "x"], none⟩
  have hfragment : Program.ofScript none inner = .ok fragment := rfl
  have hwhole : Program.ofScript evaluator.source outer = .ok whole := rfl
  have hbefore : Passed evaluator.host whole before := by
    have hrun : through evaluator.host whole (whole.code.take 7) .start .empty =
        (.ok before, .empty) := rfl
    exact (Passed.start.through (List.take_prefix ..) hrun).1
  have hreads : ReadsOwn evaluator.host fragment fragment.code .start .empty := by
    refine ⟨nofun, nofun, nofun, nofun, nofun, fun _ => nofun, trivial⟩
  have honly : ∀ offset < 11, fragment.code <+: whole.code.drop offset → offset = 7 := by
    decide
  obtain ⟨offsets, -, hplaces⟩ := contributes_of_inlined hwhole
  cases hplaces with
  | @cons _ offset _ _ hplace hnone =>
    obtain ⟨fragment', hfragment', hcode, hcontributes⟩ := hplace
    cases hfragment.symm.trans hfragment'
    have hle : offset < 11 := by
      have hlength : 6 ≤ (whole.code.drop offset).length := hcode.length_le
      have hwhole : whole.code.length = 16 := rfl
      rw [List.length_drop] at hlength
      omega
    have hoffset : offset = 7 := honly offset hle hcode
    let next : Machine := ⟨[.tuple [.string "x"], .string "echo"], [[]], 13, 5, some ⟨"echo"⟩,
      .ok (.tuple [.string "x"])⟩
    have hrun : through evaluator.host whole fragment.code before .empty = (.ok next, .empty) := rfl
    subst hoffset
    obtain ⟨value, hvalue, hframe, houter⟩ :=
      (hcontributes before .empty hbefore rfl hreads).1 next .empty hrun
    exact ⟨fragment, whole, hfragment, hwhole, rfl, hbefore, hcode, hreads, next, value, hrun, hvalue,
      hframe, houter⟩

/-- An expression of a comment alone is nil, unless something ran before it: then it contributes the
result of that. -/
theorem evaluateSource_comment_in_place :
    let evaluator : Evaluator Dialect.Workspace :=
      ⟨Dialect.host ⟨.generic, none, none, ⟨false⟩⟩ 1, none, ⟨false⟩⟩
    evaluator.evaluateSource "#\x7bc\x7d#" .empty = (.nil, .empty) ∧
      evaluator.evaluateSource "echo [#\x7bc\x7d#]" .empty = (.ok (.tuple [.nil]), .empty) ∧
      evaluator.evaluateSource "echo a; echo [#\x7bc\x7d#]" .empty =
        (.ok (.tuple [.tuple [.string "a"]]), .empty) := by
  intro evaluator
  let sentence (words : List Morpheme.Kind) : Sentence :=
    ⟨words.map fun kind => ⟨[⟨kind, none⟩], none⟩, none⟩
  let comment : Script := ⟨[sentence [.blockComment "c" 1]], none⟩
  have hcomment : parse "#\x7bc\x7d#" ⟨false⟩ = .ok comment := by
    cbv
  have halone : parse "echo [#\x7bc\x7d#]" ⟨false⟩ =
      .ok ⟨[sentence [.literal "echo", .expression comment]], none⟩ := by
    cbv
  have hbehind : parse "echo a; echo [#\x7bc\x7d#]" ⟨false⟩ =
      .ok ⟨[sentence [.literal "echo", .literal "a"],
        sentence [.literal "echo", .expression comment]], none⟩ := by
    cbv
  simp only [Evaluator.evaluateSource, evaluator, hcomment, halone, hbehind]
  exact ⟨rfl, rfl, rfl⟩

end Expressions

end Parlance.Machine
