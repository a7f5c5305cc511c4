import Parlance.Machine

/-!
# Hosts that act alike

Two hosts act alike when related states answer every question in the same way and stay related.
Programs cannot tell them apart: running on either gives the same machine, and related states.

    host.Alike R other → R env state → (run host p is m env).1 = (run other p is m state).1  (Alike.run)

The first use is a host that also writes down the commands it runs.
-/

namespace Parlance

/-- A command as it was run, with its arguments. -/
structure Call where
  command : Command
  args : List Value

namespace Host

variable {σ τ : Type}

/-- How a command resumes beside a state that it does not see. -/
def beside {υ : Type} (resume : Outcome → σ → Except Crash Outcome × σ) (result : Outcome)
    (state : σ × υ) : Except Crash Outcome × (σ × υ) :=
  let (outcome, env) := resume result state.1
  (outcome, env, state.2)

/-- The host, which also writes down every command that a sentence runs, in order. -/
def recording (host : Host σ) : Host (σ × List Call) where
  lookup state := host.lookup state.1
  findCommand state := host.findCommand state.1
  makeSelector rules state :=
    let (selector, env) := host.makeSelector rules state.1
    (selector, env, state.2)
  applyCustom := host.applyCustom
  execute command args state :=
    let (outcome, env) := host.execute command args state.1
    (outcome, env, state.2 ++ [⟨command, args⟩])
  resume command := (host.resume command).map beside

/-! ## Acting alike -/

/-- Answers that agree, with states that stay related. -/
def Agree {α : Type} (R : σ → τ → Prop) (first : α × σ) (second : α × τ) : Prop :=
  first.1 = second.1 ∧ R first.2 second.2

theorem Agree.pairs {α : Type} {R : σ → τ → Prop} {first : α × σ} {second : α × τ}
    (h : Agree R first second) :
    ∃ answer env state, first = (answer, env) ∧ second = (answer, state) ∧ R env state :=
  ⟨first.1, first.2, second.2, rfl, Prod.ext h.1.symm rfl, h.2⟩

/-- The hosts answer alike in related states. -/
structure Alike (R : σ → τ → Prop) (host : Host σ) (other : Host τ) : Prop where
  lookup : ∀ {env state}, R env state → host.lookup env = other.lookup state
  findCommand : ∀ {env state}, R env state → host.findCommand env = other.findCommand state
  makeSelector : ∀ {env state} rules, R env state →
    Agree R (host.makeSelector rules env) (other.makeSelector rules state)
  applyCustom : host.applyCustom = other.applyCustom
  execute : ∀ {env state} command args, R env state →
    Agree R (host.execute command args env) (other.execute command args state)
  /-- The same commands can resume. -/
  resume : ∀ command, (host.resume command = none ∧ other.resume command = none) ∨
    ∃ resume resume', host.resume command = some resume ∧ other.resume command = some resume' ∧
      ∀ {env state} result, R env state → Agree R (resume result env) (resume' result state)

/-- A host acts as it does when it writes down its calls. -/
theorem alike_recording (host : Host σ) :
    Alike (fun env state => env = state.1) host host.recording where
  lookup h := by subst h; rfl
  findCommand h := by subst h; rfl
  makeSelector rules h := by subst h; exact ⟨rfl, rfl⟩
  applyCustom := rfl
  execute command args h := by subst h; exact ⟨rfl, rfl⟩
  resume command := by
    cases hr : host.resume command with
    | none => exact .inl ⟨rfl, by simp [recording, hr]⟩
    | some resume =>
      refine .inr ⟨resume, beside resume, rfl, by simp only [recording, hr, Option.map_some], ?_⟩
      rintro env state result rfl
      exact ⟨rfl, rfl⟩

namespace Alike

variable {R : σ → τ → Prop} {host : Host σ} {other : Host τ} {env : σ} {state : τ}

section Questions

mutual

theorem resolve (h : Alike R host other) (hR : R env state) :
    ∀ name : Value, host.resolve env name = other.resolve state name
  | .tuple items => by rw [Host.resolve, Host.resolve, resolveAll h hR items]
  | .qualified source chain => by
    rw [resolve_qualified, resolve_qualified, resolve h hR source, h.applyCustom]
  | .nil | .boolean _ | .integer _ | .real _ | .string _ | .list _ | .dictionary _ | .script ..
  | .command _ => by
    simp only [Host.resolve, resolveVariable, h.lookup hR]

theorem resolveAll (h : Alike R host other) (hR : R env state) :
    ∀ names : List Value, host.resolveAll env names = other.resolveAll state names
  | [] => by rw [Host.resolveAll, Host.resolveAll]
  | name :: rest => by
    rw [Host.resolveAll, Host.resolveAll, resolve h hR name, resolveAll h hR rest]

end

variable (h : Alike R host other) (hR : R env state)
include h hR

theorem resolveCommand (name : Value) :
    host.resolveCommand env name = other.resolveCommand state name := by
  simp only [Host.resolveCommand, h.findCommand hR]

theorem resolveSelector (rules : Value) :
    Agree R (host.resolveSelector rules env) (other.resolveSelector rules state) := by
  unfold Host.resolveSelector
  cases rules.asValues with
  | error error => exact ⟨rfl, hR⟩
  | ok rules =>
    obtain ⟨selector, after, after', hfirst, hsecond, hafter⟩ := (h.makeSelector rules hR).pairs
    simp only [hfirst, hsecond]
    rcases selector with error | _ | selector <;> exact ⟨rfl, hafter⟩

end Questions

/-! ## Running -/

section Running

variable (h : Alike R host other) (program : Program)
include h

theorem evaluate (position : Option Position) (sentence : Value) (machine : Machine)
    (hR : R env state) :
    Agree R (machine.evaluate host program position sentence env)
      (machine.evaluate other program position sentence state) := by
  unfold Machine.evaluate
  rcases sentence.asValues with error | _ | ⟨name, args⟩
  · exact ⟨rfl, hR⟩
  · exact ⟨rfl, hR⟩
  · simp only [h.resolveCommand hR name]
    cases other.resolveCommand state name with
    | error error => exact ⟨rfl, hR⟩
    | ok command =>
      obtain ⟨outcome, after, after', hfirst, hsecond, hafter⟩ :=
        (h.execute command (name :: args) hR).pairs
      simp only [hfirst, hsecond]
      cases outcome <;> exact ⟨rfl, hafter⟩

theorem step (instruction : Instruction) (machine : Machine) (hR : R env state) :
    Agree R (Machine.step host program instruction machine env)
      (Machine.step other program instruction machine state) := by
  obtain ⟨op, position⟩ := instruction
  cases op with
  | pushConstant =>
    simp only [Machine.step]
    cases program.constants[machine.cc]? <;> exact ⟨rfl, hR⟩
  | closeFrame =>
    simp only [Machine.step]
    cases machine.closeFrame <;> exact ⟨rfl, hR⟩
  | resolveValue =>
    simp only [Machine.step, h.resolve hR]
    exact ⟨rfl, hR⟩
  | expandValue =>
    simp only [Machine.step]
    rcases machine.pop with ⟨_ | _ | _ | _ | _ | _ | _ | _ | _ | _ | _, popped⟩ <;> exact ⟨rfl, hR⟩
  | selectIndex | selectKeys =>
    simp only [Machine.step, h.applyCustom]
    exact ⟨rfl, hR⟩
  | selectRules =>
    obtain ⟨heq, hafter⟩ := h.resolveSelector hR machine.pop.1
    simp only [Machine.step, h.applyCustom, heq]
    exact ⟨rfl, hafter⟩
  | evaluateSentence => exact h.evaluate program position _ _ hR
  | pushNil | openFrame | setSource | pushResult | joinStrings => exact ⟨rfl, hR⟩

theorem run (code : List Instruction) (machine : Machine) (hR : R env state) :
    Agree R (Machine.run host program code machine env)
      (Machine.run other program code machine state) := by
  induction code generalizing machine env state with
  | nil => exact ⟨rfl, hR⟩
  | cons instruction rest ih =>
    obtain ⟨result, after, after', hfirst, hsecond, hafter⟩ :=
      (h.step program instruction { machine with pc := machine.pc + 1 } hR).pairs
    simp only [Machine.run, hfirst, hsecond]
    cases result with
    | error stop => exact ⟨rfl, hafter⟩
    | ok machine => exact ih machine hafter

theorem runOn (machine : Machine) (hR : R env state) :
    Agree R (Machine.runOn host program machine env) (Machine.runOn other program machine state) :=
  h.run program _ machine hR

theorem reexecute (machine : Machine) (hR : R env state) :
    Agree R (machine.execute host program env) (machine.execute other program state) := by
  unfold Machine.execute
  by_cases hyield : machine.result.code = .yielding
  · simp only [hyield, if_true]
    cases machine.command with
    | none => exact h.runOn program machine hR
    | some command =>
      rcases h.resume command with ⟨hnone, hnone'⟩ | ⟨resume, resume', hsome, hsome', hresume⟩
      · simp only [Option.bind_some, hnone, hnone']
        exact h.runOn program machine hR
      · simp only [Option.bind_some, hsome, hsome']
        obtain ⟨outcome, after, after', hfirst, hsecond, hafter⟩ :=
          (hresume machine.result hR).pairs
        simp only [hfirst, hsecond]
        cases outcome with
        | error crash => exact ⟨rfl, hafter⟩
        | ok outcome =>
          by_cases hok : outcome.isOk
          · simp only [hok, if_true]
            exact h.runOn program _ hafter
          · simp only [hok]
            exact ⟨rfl, hafter⟩
  · simp only [hyield, if_false]
    exact h.runOn program machine hR

end Running

end Alike

end Host

end Parlance
