import Parlance.Proofs.Built
import Parlance.Proofs.Runs

/-!
# Open frames

How many frames are open depends only on how far a machine has come, whatever its host does and
wherever it was stopped and run again.  In the program of a script no frame is closed that was not
opened, and at the end the root frame holds the result.

    Reached host p m → (p.code.take m.pc).foldlM opened 0 = some m.outer.length     (Reached.opened_eq)
    Program.ofScript source tree = .ok p → Reached host p m → p.code.length ≤ m.pc →
      its latest value is the result                                       (Reached.conclude_of_ended)
-/

namespace Parlance

open Compile (Step Built)

namespace Machine

variable {σ : Type}

/-! ## Counting frames -/

/-- The number of frames around the innermost one after an instruction, from their number before it;
none when there is no frame to close. -/
def opened (depth : Nat) (instruction : Instruction) : Option Nat :=
  match instruction.op, depth with
  | .openFrame, depth => some (depth + 1)
  | .closeFrame, 0 => none
  | .closeFrame, depth + 1 => some depth
  | _, depth => some depth

theorem opened_of_isPlain {op : OpCode} (position : Option Position) (h : Compile.isPlain op)
    (depth : Nat) : opened depth ⟨op, position⟩ = some depth := by
  cases op <;> first | rfl | cases h

/-- Built steps close what they open. -/
theorem opened_built {steps : List Step} (h : Built steps) (depth : Nat) :
    (steps.map Step.instruction).foldlM opened depth = some depth := by
  induction h generalizing depth with
  | nil => rfl
  | @op code position h =>
    have hone : opened depth ⟨code, position⟩ = some depth := opened_of_isPlain position h depth
    simp [Step.instruction, hone]
  | constant value position => rfl
  | append hs ht ihs iht =>
    rw [List.map_append, List.foldlM_append, ihs depth]
    exact iht depth
  | framed position hs ih =>
    rw [Compile.framed, List.map_append, List.map_cons, List.foldlM_append, List.foldlM_cons]
    show (do
      let depth ← List.foldlM opened (depth + 1) _
      List.foldlM opened depth _) = some depth
    rw [ih (depth + 1)]
    rfl

section Steps

variable {host : Host σ} {program : Program} {machine : Machine} {env : σ}

/-- A step opens and closes frames as it says, whatever comes of it. -/
theorem opened_step (host : Host σ) (program : Program) (instruction : Instruction)
    (machine : Machine) (env : σ) {depth : Nat}
    (h : opened machine.outer.length instruction = some depth) :
    (left (step host program instruction machine env).1).outer.length = depth := by
  obtain ⟨op, position⟩ := instruction
  by_cases hopen : op = .openFrame
  · subst hopen
    cases h
    rfl
  · by_cases hclose : op = .closeFrame
    · subst hclose
      obtain ⟨frame, _ | ⟨first, outer⟩, pc, cc, command, result⟩ := machine <;> cases h
      rfl
    · have hsame : opened machine.outer.length ⟨op, position⟩ = some machine.outer.length := by
        cases op <;> first | rfl | contradiction
      rw [hsame] at h
      cases h
      rw [(samePlace_step position hopen hclose).2]

end Steps

/-! ## Reached machines -/

/-- The machines that a program can be at, when anyone replaces results between two steps: a run that
stopped goes on from there, and the host's state is any state. -/
inductive Reached (host : Host σ) (program : Program) : Machine → Prop
  | start : Reached host program .start
  | step {machine : Machine} {instruction : Instruction} (env : σ) (h : Reached host program machine)
    (hat : program.code[machine.pc]? = some instruction) :
    Reached host program
      (left (step host program instruction { machine with pc := machine.pc + 1 } env).1)
  | withResult {machine : Machine} (result : Outcome) (h : Reached host program machine) :
    Reached host program (machine.withResult result)

section Reached

variable {host : Host σ} {program : Program} {machine : Machine} {env : σ}

theorem Reached.conclude (h : Reached host program machine) : Reached host program machine.conclude := by
  obtain ⟨result, heq⟩ := conclude_eq machine
  rw [heq]
  exact h.withResult result

theorem Leads.reached {last : Machine} {before : σ} (h : Leads host program machine env last before)
    (hm : Reached host program machine) : Reached host program last := by
  induction h with
  | here => exact hm
  | @step machine next last instruction env _ _ hat hstep _ ih =>
    have hnext := hm.step env hat
    rw [hstep] at hnext
    exact ih hnext

/-- A run from a reached machine stops at a reached machine. -/
theorem Reached.runOn (h : Reached host program machine) (env : σ) :
    Reached host program (runOn host program machine env).1.machine := by
  obtain ⟨last, before, stop, after, hleads, hends⟩ := exists_leads host program machine env
  have hlast := hleads.reached h
  rw [hleads.runOn_eq, hends.runOn_eq]
  cases hends with
  | ended => exact hlast.conclude
  | stopped hat hstep =>
    have hstop := hlast.step before hat
    rwa [hstep] at hstop

theorem Reached.execute (h : Reached host program machine) (env : σ) :
    Reached host program (machine.execute host program env).1.machine := by
  unfold Machine.execute
  dsimp only
  cases (if machine.result.code = .yielding then machine.command.bind host.resume else none) with
  | none => exact h.runOn env
  | some resume =>
    dsimp only
    rcases resume machine.result env with ⟨crash | outcome, after⟩
    · exact h
    · by_cases hok : outcome.isOk
      · simp only [hok, if_true]
        exact (h.withResult outcome).runOn after
      · simp only [hok]
        exact h.withResult outcome

end Reached

/-! ## The end of a program -/

/-- A program that closes what it opens and then pushes nil or the latest result. -/
def Closed (program : Program) : Prop :=
  ∃ body op position, program.code = body ++ [⟨op, position⟩] ∧
    body.foldlM opened 0 = some 0 ∧ (op = .pushNil ∨ op = .pushResult)

theorem closed_ofScript {source : Option Source} {tree : Script} {program : Program}
    (h : Program.ofScript source tree = .ok program) : Closed program := by
  rw [Program.ofScript] at h
  obtain ⟨steps, hs, rfl⟩ := map_eq_ok h
  obtain ⟨body, code, position, hbody, hcode, rfl⟩ := Compile.script_ends hs
  refine ⟨body.map Step.instruction, code, position, ?_, opened_built hbody 0, hcode⟩
  simp [Compile.assemble, Step.instruction]

/-- Where a machine can stand in a program. -/
structure Standing (program : Program) (machine : Machine) : Prop where
  pc_le : machine.pc ≤ program.code.length
  opened_eq : (program.code.take machine.pc).foldlM opened 0 = some machine.outer.length
  /-- Behind the last instruction there is a value. -/
  ended : machine.pc = program.code.length → machine.frame ≠ []

section Closed

variable {host : Host σ} {program : Program} {machine : Machine}

theorem Closed.opened_code (h : Closed program) : program.code.foldlM opened 0 = some 0 := by
  obtain ⟨body, op, position, hcode, hbody, hop⟩ := h
  rw [hcode, List.foldlM_append, hbody]
  rcases hop with rfl | rfl <;> rfl

theorem Closed.last {instruction : Instruction} (h : Closed program)
    (hat : program.code[machine.pc]? = some instruction) (hlast : machine.pc + 1 = program.code.length) :
    instruction.op = .pushNil ∨ instruction.op = .pushResult := by
  obtain ⟨body, op, position, hcode, _, hop⟩ := h
  have hlength : machine.pc = body.length := by
    rw [hcode, List.length_append, List.length_singleton] at hlast
    omega
  rw [hcode, hlength, List.getElem?_concat_length] at hat
  cases hat
  exact hop

theorem Standing.step {instruction : Instruction} (h : Closed program) (hm : Standing program machine)
    (hat : program.code[machine.pc]? = some instruction) (env : σ) :
    Standing program
      (left (Machine.step host program instruction { machine with pc := machine.pc + 1 } env).1) := by
  obtain ⟨hlt, -⟩ := List.getElem?_eq_some_iff.1 hat
  have hpc := step_pc host program instruction { machine with pc := machine.pc + 1 } env
  have htake : program.code.take (machine.pc + 1) = program.code.take machine.pc ++ [instruction] := by
    rw [List.take_add_one, hat]
    rfl
  have hone : (program.code.take (machine.pc + 1)).foldlM opened 0 =
      opened machine.outer.length instruction := by
    rw [htake, List.foldlM_append, hm.opened_eq]
    simp
  -- The whole program closes what it opens, so what it begins with does not close the root frame.
  obtain ⟨depth, hdepth⟩ : ∃ depth, opened machine.outer.length instruction = some depth := by
    have hcode := h.opened_code
    rw [← List.take_append_drop (machine.pc + 1) program.code, List.foldlM_append, hone] at hcode
    cases hopened : opened machine.outer.length instruction with
    | none =>
      rw [hopened] at hcode
      cases hcode
    | some depth => exact ⟨depth, rfl⟩
  refine ⟨?_, ?_, ?_⟩
  · rw [hpc]
    exact hlt
  · have hopened := opened_step host program instruction { machine with pc := machine.pc + 1 } env hdepth
    rw [hpc, hopened]
    exact hone.trans hdepth
  · intro hend
    rw [hpc] at hend
    obtain ⟨op, position⟩ := instruction
    rcases h.last hat hend with rfl | rfl <;> exact List.cons_ne_nil _ _

theorem Reached.standing (h : Closed program) (hm : Reached host program machine) :
    Standing program machine := by
  induction hm with
  | start =>
    refine ⟨Nat.zero_le _, rfl, ?_⟩
    obtain ⟨body, op, position, hcode, _⟩ := h
    intro hend
    rw [hcode, List.length_append] at hend
    cases hend
  | step env _ hat ih => exact ih.step h hat env
  | withResult result _ ih => exact ⟨ih.pc_le, ih.opened_eq, ih.ended⟩

/-- At the end of its program a machine has a result. -/
theorem Reached.conclude_of_ended (h : Closed program) (hm : Reached host program machine)
    (hend : program.code.length ≤ machine.pc) :
    ∃ value, ∀ result, (machine.withResult result).conclude = machine.withResult (.ok value) := by
  have hs := hm.standing h
  have hpc : machine.pc = program.code.length := Nat.le_antisymm hs.pc_le hend
  have houter : machine.outer = [] := by
    have hopened := hs.opened_eq
    rw [hpc, List.take_length, h.opened_code] at hopened
    exact List.length_eq_zero_iff.1 (Option.some.inj hopened).symm
  obtain ⟨value, frame, hframe⟩ := List.exists_cons_of_ne_nil (hs.ended hpc)
  refine ⟨value, fun result => ?_⟩
  simp [Machine.conclude, lastValue, Machine.withResult, houter, hframe]

end Closed

end Machine

end Parlance
