import Parlance.Machine

/-!
# Steps and runs

A step leaves a machine where it was, but for opening and closing frames.  A run is steps that go on, up
to the end of the program or to one that stops.

    Leads host p m env last before → runOn host p m env = runOn host p last before        (Leads.runOn_eq)
    every run leads to where it ends                                                      (exists_leads)
-/

namespace Parlance.Machine

variable {σ : Type}

/-! ## Steps -/

/-- The machine that a step leaves, whether it stopped or not. -/
def left : Except Stop Machine → Machine
  | .ok machine => machine
  | .error stop => stop.machine

section Steps

variable {host : Host σ} {program : Program} {machine next : Machine} {stop : Stop} {env after : σ}
  {instruction : Instruction}

theorem pop_outer (machine : Machine) : machine.pop.2.outer = machine.outer := by
  obtain ⟨_ | ⟨value, frame⟩, outer, pc, cc, command, result⟩ := machine <;> rfl

theorem pop_same_pc (machine : Machine) : machine.pop.2.pc = machine.pc := by
  obtain ⟨_ | ⟨value, frame⟩, outer, pc, cc, command, result⟩ := machine <;> rfl

/-- The two machines stand at the same place, inside as many frames. -/
def SamePlace (machine other : Machine) : Prop :=
  machine.pc = other.pc ∧ machine.outer = other.outer

theorem samePlace_pop (machine : Machine) : SamePlace machine.pop.2 machine :=
  ⟨pop_same_pc machine, pop_outer machine⟩

theorem SamePlace.trans {m₁ m₂ m₃ : Machine} (h : SamePlace m₁ m₂) (h' : SamePlace m₂ m₃) :
    SamePlace m₁ m₃ :=
  ⟨h.1.trans h'.1, h.2.trans h'.2⟩

theorem samePlace_deliver (position : Option Position) (machine : Machine)
    (result : Except ValueError Value) :
    SamePlace (left (machine.deliver program position result)) machine := by
  cases result <;> exact ⟨rfl, rfl⟩

theorem samePlace_accept (position : Option Position) (args : List Value) (command : Command)
    (outcome : Outcome) (machine : Machine) :
    SamePlace (left (machine.accept program position args command outcome)) machine := by
  unfold accept
  by_cases hok : outcome.isOk
  · simp only [hok, if_true]
    exact ⟨rfl, rfl⟩
  · simp only [hok]
    by_cases herror : outcome.isError
    · simp only [herror, if_true]
      exact ⟨rfl, rfl⟩
    · simp only [herror]
      exact ⟨rfl, rfl⟩

theorem samePlace_evaluate (position : Option Position) (sentence : Value) (machine : Machine) :
    SamePlace (left (machine.evaluate host program position sentence env).1) machine := by
  unfold evaluate
  rcases sentence.asValues with error | _ | ⟨name, args⟩
  · exact ⟨rfl, rfl⟩
  · exact ⟨rfl, rfl⟩
  · dsimp only
    cases host.resolveCommand env name with
    | error error => exact ⟨rfl, rfl⟩
    | ok command =>
      dsimp only
      rcases host.execute command (name :: args) env with ⟨crash | outcome, after⟩
      · exact ⟨rfl, rfl⟩
      · exact samePlace_accept position (name :: args) command outcome machine

/-- Only opening and closing frames moves a machine to another frame. -/
theorem samePlace_step {op : OpCode} (position : Option Position) (hopen : op ≠ .openFrame)
    (hclose : op ≠ .closeFrame) :
    SamePlace (left (step host program ⟨op, position⟩ machine env).1) machine := by
  have hpop := samePlace_pop machine
  have hpops : SamePlace machine.pop.2.pop.2 machine := (samePlace_pop machine.pop.2).trans hpop
  cases op with
  | openFrame => exact absurd rfl hopen
  | closeFrame => exact absurd rfl hclose
  | pushNil | pushResult => exact ⟨rfl, rfl⟩
  | pushConstant =>
    simp only [step]
    cases program.constants[machine.cc]? <;> exact ⟨rfl, rfl⟩
  | expandValue =>
    simp only [step]
    rcases hvalue : machine.pop with ⟨value, popped⟩
    rw [hvalue] at hpop
    cases value <;> exact hpop
  | setSource => exact hpop
  | resolveValue | joinStrings => exact (samePlace_deliver position _ _).trans hpop
  | selectIndex | selectKeys | selectRules => exact (samePlace_deliver position _ _).trans hpops
  | evaluateSentence => exact (samePlace_evaluate position _ _).trans hpop

theorem step_pc (host : Host σ) (program : Program) (instruction : Instruction) (machine : Machine)
    (env : σ) :
    (left (step host program instruction machine env).1).pc = machine.pc := by
  obtain ⟨op, position⟩ := instruction
  by_cases hopen : op = .openFrame
  · subst hopen
    rfl
  · by_cases hclose : op = .closeFrame
    · subst hclose
      obtain ⟨frame, _ | ⟨first, outer⟩, pc, cc, command, result⟩ := machine <;> rfl
    · exact (samePlace_step position hopen hclose).1

theorem pc_of_step (h : step host program instruction machine env = (.ok next, after)) :
    next.pc = machine.pc := by
  have hpc := step_pc host program instruction machine env
  rwa [h] at hpc

theorem pc_of_stop (h : step host program instruction machine env = (.error stop, after)) :
    stop.machine.pc = machine.pc := by
  have hpc := step_pc host program instruction machine env
  rwa [h] at hpc

theorem conclude_eq (machine : Machine) : ∃ result, machine.conclude = machine.withResult result := by
  unfold conclude
  cases machine.lastValue with
  | none => exact ⟨machine.result, rfl⟩
  | some value => exact ⟨.ok value, rfl⟩

/-- The instruction where a machine stands, and those behind it. -/
theorem drop_eq_cons {instruction : Instruction} {rest : List Instruction} {pc : Nat}
    (h : program.code.drop pc = instruction :: rest) :
    program.code[pc]? = some instruction ∧ program.code.drop (pc + 1) = rest := by
  constructor
  · rw [← List.head?_drop, h]
    rfl
  · rw [← List.tail_drop, h]
    rfl

end Steps

/-! ## Runs -/

/-- Steps that lead from one machine to another, none of which stops. -/
inductive Leads (host : Host σ) (program : Program) : Machine → σ → Machine → σ → Prop
  | here (machine : Machine) (env : σ) : Leads host program machine env machine env
  | step {machine next last : Machine} {instruction : Instruction} {env between after : σ}
    (hat : program.code[machine.pc]? = some instruction)
    (hstep : Machine.step host program instruction { machine with pc := machine.pc + 1 } env =
      (.ok next, between)) (rest : Leads host program next between last after) :
    Leads host program machine env last after

/-- Where steps lead to an end: to that of the program, or to an instruction that stops. -/
inductive Ends (host : Host σ) (program : Program) (machine : Machine) (env : σ) : Stop → σ → Prop
  | ended (h : program.code.length ≤ machine.pc) : Ends host program machine env ⟨machine.conclude, none⟩ env
  | stopped {instruction : Instruction} {stop : Stop} {after : σ}
    (hat : program.code[machine.pc]? = some instruction)
    (hstep : Machine.step host program instruction { machine with pc := machine.pc + 1 } env =
      (.error stop, after)) : Ends host program machine env stop after

section Leads

variable {host : Host σ} {program : Program} {machine last : Machine} {stop : Stop} {env before after : σ}

/-- A run does the next step first. -/
theorem runOn_step {instruction : Instruction} (hat : program.code[machine.pc]? = some instruction)
    (env : σ) : runOn host program machine env =
      match Machine.step host program instruction { machine with pc := machine.pc + 1 } env with
      | (.error stop, after) => (stop, after)
      | (.ok next, after) => runOn host program next after := by
  obtain ⟨hlt, hinstruction⟩ := List.getElem?_eq_some_iff.1 hat
  rw [runOn, List.drop_eq_getElem_cons hlt, hinstruction, run]
  rcases hstep : Machine.step host program instruction { machine with pc := machine.pc + 1 } env
    with ⟨stop | next, after⟩
  · rfl
  · have hpc : next.pc = machine.pc + 1 := pc_of_step hstep
    dsimp only
    rw [runOn, hpc]

theorem Leads.runOn_eq (h : Leads host program machine env last before) :
    runOn host program machine env = runOn host program last before := by
  induction h with
  | here => rfl
  | step hat hstep _ ih =>
    rw [runOn_step hat, hstep]
    exact ih

theorem Ends.runOn_eq (h : Ends host program machine env stop after) :
    runOn host program machine env = (stop, after) := by
  cases h with
  | ended h => rw [runOn, List.drop_eq_nil_of_le h, run]
  | stopped hat hstep => rw [runOn_step hat, hstep]

/-- A run leads to where it ends. -/
theorem exists_leads (host : Host σ) (program : Program) (machine : Machine) (env : σ) :
    ∃ last before stop after, Leads host program machine env last before ∧
      Ends host program last before stop after := by
  -- By induction on the number of instructions that are left.
  generalize hleft : program.code.length - machine.pc = left
  induction left generalizing machine env with
  | zero => exact ⟨machine, env, _, _, .here machine env, .ended (Nat.le_of_sub_eq_zero hleft)⟩
  | succ left ih =>
    have hlt : machine.pc < program.code.length := by omega
    have hat := List.getElem?_eq_getElem hlt
    rcases hstep : Machine.step host program program.code[machine.pc]
      { machine with pc := machine.pc + 1 } env with ⟨stop | next, between⟩
    · exact ⟨machine, env, stop, between, .here machine env, .stopped hat hstep⟩
    · have hpc : next.pc = machine.pc + 1 := pc_of_step hstep
      obtain ⟨last, before, stop, after, hleads, hends⟩ := ih next between (by omega)
      exact ⟨last, before, stop, after, .step hat hstep hleads, hends⟩

end Leads

end Parlance.Machine
