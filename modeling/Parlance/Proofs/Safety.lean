import Parlance.Dialect.Commands
import Parlance.Proofs.Layout

/-!
# Programs never run out of values

A machine that runs of a compiled program pass has what its next instruction takes, however often a
sentence stopped it and it was run again.  At the end only the root frame is open and all constants
are used up.

    Passed host program machine → Placed program machine                              (Passed.placed)
    Passed host program machine → a run from it stops at one, or an instruction failed (Passed.execute)
    origin.compile source = .ok program → Passed host program machine →
      Sufficient program machine op for its next instruction                       (safe_of_compile)
-/

namespace Parlance

open Compile (Step Turns)

namespace Machine

/-! ## Machines that runs pass -/

/-- The machines that runs of a program pass, step after step; the host's state is any state before
each.  A run that a sentence stopped can go on behind it, and a machine can be given any result, as
when its command resumes. -/
inductive Passed {σ : Type} (host : Host σ) (program : Program) : Machine → Prop
  | start : Passed host program .start
  | step {machine next : Machine} {instruction : Instruction} {env after : σ}
    (h : Passed host program machine) (hat : program.code[machine.pc]? = some instruction)
    (hstep : Machine.step host program instruction { machine with pc := machine.pc + 1 } env =
      (.ok next, after)) : Passed host program next
  | stop {machine : Machine} {position : Option Position} {env after : σ} {stop : Stop}
    (h : Passed host program machine)
    (hat : program.code[machine.pc]? = some ⟨.evaluateSentence, position⟩)
    (hstep : Machine.step host program ⟨.evaluateSentence, position⟩
      { machine with pc := machine.pc + 1 } env = (.error stop, after)) :
    Passed host program stop.machine
  | withResult {machine : Machine} (result : Outcome) (h : Passed host program machine) :
    Passed host program (machine.withResult result)

section Runs

variable {σ : Type} {host : Host σ} {program : Program} {machine : Machine}

/-- A machine at the end of the program is passed with its result. -/
theorem Passed.conclude (h : Passed host program machine) : Passed host program machine.conclude := by
  obtain ⟨result, heq⟩ := conclude_eq machine
  rw [heq]
  exact h.withResult result

/-- A machine behind an instruction that failed and is no sentence. -/
structure Broken (program : Program) (machine : Machine) : Prop where
  isError : machine.result.isError
  behind : ∃ instruction, program.code[machine.pc - 1]? = some instruction ∧
    instruction.op ≠ .evaluateSentence

theorem isError_of_deliver {position : Option Position} {result : Except ValueError Value} {stop : Stop}
    (h : machine.deliver program position result = .error stop) : stop.machine.result.isError := by
  cases result with
  | ok value => cases h
  | error error =>
    cases h
    rfl

/-- An instruction that is no sentence stops with an error only. -/
theorem isError_of_step {instruction : Instruction} {env after : σ} {stop : Stop}
    (hop : instruction.op ≠ .evaluateSentence)
    (hstep : Machine.step host program instruction machine env = (.error stop, after)) :
    stop.machine.result.isError := by
  obtain ⟨op, position⟩ := instruction
  cases op with
  | evaluateSentence => exact absurd rfl hop
  | pushNil | openFrame | setSource | pushResult => cases hstep
  | pushConstant | closeFrame =>
    simp only [step] at hstep
    split at hstep <;> cases hstep
    rfl
  | expandValue =>
    simp only [step] at hstep
    split at hstep <;> cases hstep
  | resolveValue | selectIndex | selectKeys | selectRules | joinStrings =>
    simp only [step, Prod.mk.injEq] at hstep
    exact isError_of_deliver hstep.1

theorem Leads.passed {last : Machine} {env before : σ} (h : Leads host program machine env last before)
    (hm : Passed host program machine) : Passed host program last := by
  induction h with
  | here => exact hm
  | step hat hstep _ ih => exact ih (hm.step hat hstep)

/-- A run from a passed machine stops at one, unless an instruction other than a sentence failed. -/
theorem Passed.runOn (h : Passed host program machine) (env : σ) :
    Passed host program (runOn host program machine env).1.machine ∨
      Broken program (runOn host program machine env).1.machine := by
  obtain ⟨last, before, stop, after, hleads, hends⟩ := exists_leads host program machine env
  have hlast := hleads.passed h
  rw [hleads.runOn_eq, hends.runOn_eq]
  cases hends with
  | ended => exact .inl hlast.conclude
  | @stopped instruction stop after hat hstep =>
    obtain ⟨op, position⟩ := instruction
    by_cases hop : op = .evaluateSentence
    · subst hop
      exact .inl (hlast.stop hat hstep)
    · refine .inr ⟨isError_of_step hop hstep, ⟨op, position⟩, ?_, hop⟩
      have hpc : stop.machine.pc = last.pc + 1 := pc_of_stop hstep
      rw [hpc]
      exact hat

/-- So does running a machine again, resumed or not. -/
theorem Passed.execute (h : Passed host program machine) (env : σ) :
    Passed host program (machine.execute host program env).1.machine ∨
      Broken program (machine.execute host program env).1.machine := by
  unfold Machine.execute
  dsimp only
  cases (if machine.result.code = .yielding then machine.command.bind host.resume else none) with
  | none => exact h.runOn env
  | some resume =>
    dsimp only
    rcases resume machine.result env with ⟨crash | outcome, after⟩
    · exact .inl h
    · by_cases hok : outcome.isOk
      · simp only [hok, if_true]
        exact (h.withResult outcome).runOn after
      · simp only [hok]
        exact .inl (h.withResult outcome)

end Runs

/-! ## Machines in their programs -/

/-- Whether an instruction pushes a constant. -/
def pushesConstant (instruction : Instruction) : Bool := instruction.op = .pushConstant

/-- A machine whose frames and constants are as the instructions before it left them. -/
structure Placed (program : Program) (machine : Machine) : Prop where
  pc_le : machine.pc ≤ program.code.length
  cc_eq : machine.cc = (program.code.take machine.pc).countP pushesConstant
  layout : ∃ layout, (program.code.take machine.pc).foldlM Layout.after .start = some layout ∧
    layout.Holds machine

section Placed

variable {σ : Type} {host : Host σ} {program : Program} {machine moved : Machine} {final : Layout}
  {instruction : Instruction}

theorem cc_of_step {next : Machine} {env after : σ}
    (hstep : Machine.step host program instruction machine env = (.ok next, after)) :
    next.cc = machine.cc + [instruction].countP pushesConstant := by
  obtain ⟨op, position⟩ := instruction
  cases harity : Compile.arity op with
  | some pair =>
    obtain ⟨values, rfl, -⟩ := frame_of_step harity hstep
    cases op <;> first | rfl | cases harity
  | none =>
    cases op with
    | pushConstant =>
      simp only [Machine.step] at hstep
      split at hstep <;> cases hstep
      rfl
    | openFrame =>
      cases hstep
      rfl
    | closeFrame =>
      obtain ⟨frame, _ | ⟨below, outer⟩, pc, cc, command, result⟩ := machine <;> cases hstep
      rfl
    | evaluateSentence =>
      obtain ⟨latest, result, hleft⟩ := left_sentence host program position machine env
      rw [hstep] at hleft
      have hleft : next = _ := hleft
      rw [hleft]
      rfl
    | _ => cases harity

theorem take_succ (hat : program.code[machine.pc]? = some instruction) :
    program.code.take (machine.pc + 1) = program.code.take machine.pc ++ [instruction] := by
  rw [List.take_add_one, hat]
  rfl

/-- The layout goes on at every instruction of a program that is laid out to its end. -/
theorem Placed.exists_after (h : Placed program machine)
    (hfinal : program.code.foldlM Layout.after .start = some final)
    (hat : program.code[machine.pc]? = some instruction) :
    ∃ layout later : Layout, layout.Holds machine ∧ layout.after instruction = some later ∧
      (program.code.take (machine.pc + 1)).foldlM Layout.after .start = some later := by
  obtain ⟨layout, hlayout, hholds⟩ := h.layout
  have hone : (program.code.take (machine.pc + 1)).foldlM Layout.after .start =
      layout.after instruction := by
    rw [take_succ hat, List.foldlM_append, hlayout]
    simp
  cases hafter : layout.after instruction with
  | none =>
    rw [hafter] at hone
    rw [← List.take_append_drop (machine.pc + 1) program.code, List.foldlM_append, hone] at hfinal
    cases hfinal
  | some later =>
    rw [hafter] at hone
    exact ⟨layout, later, hholds, hafter, hone⟩

/-- A machine that moved on by one instruction. -/
theorem Placed.advance (h : Placed program machine)
    (hfinal : program.code.foldlM Layout.after .start = some final)
    (hat : program.code[machine.pc]? = some instruction) (hpc : moved.pc = machine.pc + 1)
    (hcc : moved.cc = machine.cc + [instruction].countP pushesConstant)
    (hholds : ∀ layout later : Layout, layout.Holds machine → layout.after instruction = some later →
      later.Holds moved) : Placed program moved := by
  obtain ⟨layout, later, hlayout, hafter, hfold⟩ := h.exists_after hfinal hat
  obtain ⟨hlt, -⟩ := List.getElem?_eq_some_iff.1 hat
  refine ⟨?_, ?_, later, ?_, hholds layout later hlayout hafter⟩
  · rw [hpc]
    exact hlt
  · rw [hcc, h.cc_eq, hpc, take_succ hat, List.countP_append]
  · rw [hpc]
    exact hfold

theorem Passed.placed (hm : Passed host program machine)
    (hfinal : program.code.foldlM Layout.after .start = some final) : Placed program machine := by
  induction hm with
  | start => exact ⟨Nat.zero_le _, rfl, .start, rfl, Layout.holds_start⟩
  | @step machine next instruction env after _ hat hstep ih =>
    have hcc := cc_of_step hstep
    refine ih.advance hfinal hat (pc_of_step hstep) hcc fun layout later hlayout hafter => ?_
    have hlayout : layout.Holds { machine with pc := machine.pc + 1 } :=
      ⟨hlayout.inner, hlayout.outer, hlayout.tuple⟩
    exact hlayout.step hafter hstep
  | @stop machine position env after stop _ hat hstep ih =>
    obtain ⟨latest, result, hleft⟩ :=
      left_sentence host program position { machine with pc := machine.pc + 1 } env
    rw [hstep] at hleft
    have hcc : stop.machine.cc = machine.cc := by
      have hleft : stop.machine = _ := hleft
      rw [hleft]
    refine ih.advance hfinal hat (pc_of_stop hstep) hcc fun layout later hlayout hafter => ?_
    have hlayout : layout.Holds { machine with pc := machine.pc + 1 } :=
      ⟨hlayout.inner, hlayout.outer, hlayout.tuple⟩
    have hsentence := hlayout.sentence host program env hafter
    rwa [hstep] at hsentence
  | withResult result _ ih =>
    obtain ⟨layout, hfold, hlayout⟩ := ih.layout
    exact ⟨ih.pc_le, ih.cc_eq, layout, hfold, hlayout.inner, hlayout.outer, hlayout.tuple⟩

end Placed

end Machine

namespace Program

/-- What a program is compiled from. -/
inductive Origin where
  | script (tree : Script)
  | sentence (tree : Sentence)
  | sentences (trees : List Sentence)
  | word (tree : Word)
  | constant (value : Value)

namespace Origin

/-- The program of a script, a sentence, sentences, a word or a constant. -/
def compile (source : Option Source) : Origin → Except CompileError Program
  | .script tree => Program.ofScript source tree
  | .sentence tree => Program.ofSentence source tree
  | .sentences trees => Program.ofSentences source trees
  | .word tree => Program.ofWord source tree
  | .constant value => .ok (Program.ofConstant source value)

/-- How many values the program leaves; a word can leave any number. -/
def left : Origin → Option Nat
  | .word _ => none
  | _ => some 1

theorem exists_turns {origin : Origin} {source : Option Source} {program : Program}
    (h : origin.compile source = .ok program) :
    ∃ steps, Turns steps 0 origin.left ∧ program = Compile.assemble source steps := by
  cases origin with
  | script tree =>
    obtain ⟨steps, hs, rfl⟩ := map_eq_ok h
    exact ⟨steps, Turns.script tree steps hs, rfl⟩
  | sentence tree =>
    obtain ⟨steps, hs, rfl⟩ := map_eq_ok h
    exact ⟨_, (Turns.evaluated tree steps hs).then_op tree.position rfl, rfl⟩
  | sentences trees =>
    obtain ⟨steps, hs, rfl⟩ := map_eq_ok h
    exact ⟨_, (Turns.allWords trees steps hs).framed _, rfl⟩
  | word tree =>
    obtain ⟨steps, hs, rfl⟩ := map_eq_ok h
    exact ⟨steps, Turns.word tree steps hs, rfl⟩
  | constant value =>
    cases h
    exact ⟨_, .constant value none, rfl⟩

end Origin

end Program

namespace Machine

/-- A constant that is yet to be pushed is not among those pushed. -/
theorem countP_take_lt {program : Program} {pc : Nat} {instruction : Instruction}
    (hat : program.code[pc]? = some instruction) (hop : instruction.op = .pushConstant) :
    (program.code.take pc).countP pushesConstant < program.code.countP pushesConstant := by
  obtain ⟨hlt, rfl⟩ := List.getElem?_eq_some_iff.1 hat
  have hpushes : pushesConstant program.code[pc] := decide_eq_true hop
  conv_rhs => rw [← List.take_append_drop pc program.code, List.drop_eq_getElem_cons hlt]
  rw [List.countP_append, List.countP_cons_of_pos hpushes]
  omega

/-- Whether the step has a constant if its instruction pushes one, and only then. -/
def IsPaired (step : Step) : Prop := pushesConstant step.instruction = step.constant?.isSome

theorem isPaired_framed {steps : List Step} (position : Option Position)
    (h : ∀ step ∈ steps, IsPaired step) : ∀ step ∈ Compile.framed position steps, IsPaired step :=
  List.forall_mem_append.2 ⟨List.forall_mem_cons.2 ⟨rfl, h⟩, List.forall_mem_singleton.2 rfl⟩

theorem isPaired_of_turns {steps : List Step} {taken : Nat} {left : Option Nat}
    (h : Turns steps taken left) : ∀ step ∈ steps, IsPaired step := by
  induction h with
  | nil => exact fun _ h => nomatch h
  | @op code _ _ position h =>
    refine List.forall_mem_singleton.2 ?_
    cases code <;> first | rfl | cases h
  | constant => exact List.forall_mem_singleton.2 rfl
  | append _ _ ihs iht | spread _ _ ihs iht => exact List.forall_mem_append.2 ⟨ihs, iht⟩
  | any _ ih | above _ _ ih => exact ih
  | framed position _ ih => exact isPaired_framed position ih
  | sentence position _ ih =>
    exact List.forall_mem_append.2 ⟨isPaired_framed position ih, List.forall_mem_singleton.2 rfl⟩

/-- Steps have a constant for each instruction that pushes one. -/
theorem length_constants {steps : List Step} (h : ∀ step ∈ steps, IsPaired step) :
    (steps.filterMap Step.constant?).length = (steps.map Step.instruction).countP pushesConstant := by
  rw [List.length_filterMap_eq_countP, List.countP_map]
  refine List.countP_congr fun step hstep => ?_
  have hpaired : pushesConstant step.instruction = step.constant?.isSome := h step hstep
  rw [Function.comp_apply, hpaired]

section Compiled

variable {σ : Type} {host : Host σ} {source : Option Source} {steps : List Step} {left : Option Nat}
  {machine : Machine}

theorem size_constants (h : Turns steps 0 left) : (Compile.assemble source steps).constants.size =
    (Compile.assemble source steps).code.countP pushesConstant :=
  length_constants (isPaired_of_turns h)

/-- A passed machine has what its next instruction takes. -/
theorem Passed.sufficient (h : Turns steps 0 left)
    (hm : Passed host (Compile.assemble source steps) machine) {instruction : Instruction}
    (hat : (Compile.assemble source steps).code[machine.pc]? = some instruction) :
    Sufficient (Compile.assemble source steps) machine instruction.op := by
  obtain ⟨final, hfinal, -, -⟩ := Layout.along_turns h .empty [] false
  have hplaced := hm.placed hfinal
  obtain ⟨layout, later, hlayout, hafter, -⟩ := hplaced.exists_after hfinal hat
  refine hlayout.sufficient hafter fun hop => ?_
  rw [size_constants h, hplaced.cc_eq]
  exact countP_take_lt hat hop

/-- A passed machine at the end has one frame, with the values that were left, and no constant is left
to push. -/
theorem Passed.ended (h : Turns steps 0 left)
    (hm : Passed host (Compile.assemble source steps) machine)
    (hend : (Compile.assemble source steps).code.length ≤ machine.pc) :
    machine.outer = [] ∧ machine.cc = (Compile.assemble source steps).constants.size ∧
      ∀ count, left = some count → machine.frame.length = count := by
  obtain ⟨final, hfinal, houter, hleft⟩ := Layout.along_turns h .empty [] false
  have hplaced := hm.placed hfinal
  have hpc : machine.pc = (Compile.assemble source steps).code.length :=
    Nat.le_antisymm hplaced.pc_le hend
  obtain ⟨layout, hlayout, hinner, hframes, -⟩ := hplaced.layout
  rw [hpc, List.take_length] at hlayout
  cases hlayout.symm.trans hfinal
  rw [houter, List.forall₂_nil_left_iff] at hframes
  refine ⟨hframes, ?_, fun count hcount => ?_⟩
  · rw [hplaced.cc_eq, hpc, List.take_length, size_constants h]
  · rw [hleft count hcount] at hinner
    simpa [Extent.empty, Extent.plus] using hinner.eq_of_exact rfl

end Compiled

/-- **Compiled programs are safe.**  A program has as many constants as instructions that push one.
Every machine that its runs pass, whatever the host does, has what its next instruction takes.  When
the program ends only the root frame is open and all constants were pushed; unless the program is that
of a word, the root frame holds one value. -/
theorem safe_of_compile {origin : Program.Origin} {source : Option Source} {program : Program}
    (h : origin.compile source = .ok program) {σ : Type} (host : Host σ) :
    (program.code.map Instruction.position).length = (program.code.map Instruction.op).length ∧
      program.constants.size = program.code.countP pushesConstant ∧
      ∀ machine, Passed host program machine →
        (∀ instruction, program.code[machine.pc]? = some instruction →
          Sufficient program machine instruction.op) ∧
        (program.code.length ≤ machine.pc →
          machine.outer = [] ∧ machine.cc = program.constants.size ∧
            ((∀ tree, origin ≠ .word tree) → ∃ value, machine.frame = [value])) := by
  obtain ⟨steps, hturns, rfl⟩ := Program.Origin.exists_turns h
  refine ⟨by rw [List.length_map, List.length_map], size_constants hturns, fun machine hm => ?_⟩
  refine ⟨fun instruction hat => hm.sufficient hturns hat, fun hend => ?_⟩
  obtain ⟨houter, hconstants, hcount⟩ := hm.ended hturns hend
  refine ⟨houter, hconstants, fun hword => List.length_eq_one_iff.1 (hcount 1 ?_)⟩
  cases origin with
  | word tree => exact absurd rfl (hword tree)
  | script | sentence | sentences | constant => rfl

/-- `echo [yield a]`, which stops with a frame open and is run again to its end. -/
theorem safe_of_compile_yielding :
    let literal (text : String) : Morpheme := ⟨.literal text, none⟩
    let inner : Script := ⟨[⟨[⟨[literal "yield"], none⟩, ⟨[literal "a"], none⟩], none⟩], none⟩
    let tree : Script :=
      ⟨[⟨[⟨[literal "echo"], none⟩, ⟨[⟨.expression inner, none⟩], none⟩], none⟩], none⟩
    let host := Dialect.host ⟨.generic, none, none, ⟨false⟩⟩ 1
    ∃ program, (Program.Origin.script tree).compile none = .ok program ∧
      let stopped := (Machine.start.execute host program .empty).1.machine
      let ended := (stopped.execute host program .empty).1.machine
      stopped.outer.length = 1 ∧ Passed host program stopped ∧ Passed host program ended ∧
        program.code.length ≤ ended.pc ∧ ended.outer = [] ∧ ended.cc = program.constants.size ∧
        ∃ value, ended.frame = [value] := by
  intro literal inner tree host
  let ops : List OpCode := [.openFrame, .pushConstant, .openFrame, .pushConstant, .pushConstant,
    .closeFrame, .evaluateSentence, .pushResult, .closeFrame, .evaluateSentence, .pushResult]
  let program : Program := ⟨ops.map fun op => ⟨op, none⟩,
    #[.string "echo", .string "yield", .string "a"], none⟩
  have hcompile : (Program.Origin.script tree).compile none = .ok program := rfl
  refine ⟨program, hcompile, ?_⟩
  intro stopped ended
  have hsentence : program.code[stopped.pc - 1]? = some ⟨.evaluateSentence, none⟩ := rfl
  have hstopped : Passed host program stopped := by
    rcases Passed.start.execute Dialect.Workspace.empty with hpassed | ⟨-, instruction, hat, hop⟩
    · exact hpassed
    · cases hsentence.symm.trans hat
      exact absurd rfl hop
  have hended : Passed host program ended := by
    rcases hstopped.execute .empty with hpassed | ⟨herror, -⟩
    · exact hpassed
    · cases herror
  have hend : program.code.length ≤ ended.pc := Nat.le_refl 11
  obtain ⟨houter, hconstants, hvalue⟩ := ((safe_of_compile hcompile host).2.2 ended hended).2 hend
  exact ⟨rfl, hstopped, hended, hend, houter, hconstants, hvalue (by rintro _ ⟨⟩)⟩

end Machine

end Parlance
