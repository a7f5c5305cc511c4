import Parlance.Proofs.Frames
import Parlance.Proofs.Suspension

/-!
# Yielded results that nobody resumes

A machine whose command yielded and cannot resume still holds the yielded result when it goes on.
It does what it would do with an ok result of the same value: only that value is read, and in the
program of a script the next command or the end of the program replaces the result.

    Stale host m₁ m₂ → runs from m₁ and m₂ answer the same and leave the same state (answers_of_stale)
-/

namespace Parlance.Machine

variable {σ : Type} {host : Host σ} {program : Program}

/-! ## Steps that do not read the code of the result -/

/-- What a step leaves when it starts from another result of the same value: the same, or the other
result where the first one is kept. -/
inductive Kept (other : Outcome) (machine : Machine) : Except Stop Machine → Except Stop Machine → Prop
  | same (left : Except Stop Machine) : Kept other machine left left
  | moved (next : Machine) (hcommand : next.command = machine.command)
    (hresult : next.result = machine.result) :
    Kept other machine (.ok (next.withResult other)) (.ok next)
  | crashed (next : Machine) (crash : Crash) (hcommand : next.command = machine.command)
    (hresult : next.result = machine.result) :
    Kept other machine (.error ⟨next.withResult other, some crash⟩) (.error ⟨next, some crash⟩)

theorem pop_withResult (result : Outcome) (machine : Machine) :
    (machine.withResult result).pop = (machine.pop.1, machine.pop.2.withResult result) := by
  obtain ⟨_ | ⟨value, frame⟩, outer, pc, cc, command, latest⟩ := machine <;> rfl

theorem pop_command (machine : Machine) : machine.pop.2.command = machine.command := by
  obtain ⟨_ | ⟨value, frame⟩, outer, pc, cc, command, result⟩ := machine <;> rfl

theorem pop_result (machine : Machine) : machine.pop.2.result = machine.result := by
  obtain ⟨_ | ⟨value, frame⟩, outer, pc, cc, command, result⟩ := machine <;> rfl

theorem kept_deliver {other : Outcome} {machine next : Machine} (position : Option Position)
    (hcommand : next.command = machine.command) (hresult : next.result = machine.result)
    (selected : Except ValueError Value) :
    Kept other machine ((next.withResult other).deliver program position selected)
      (next.deliver program position selected) := by
  cases selected with
  | ok value => exact .moved (next.push value) hcommand hresult
  | error error => exact .same _

theorem kept_evaluate {other : Outcome} {machine next : Machine} (position : Option Position)
    (sentence : Value) (env : σ) (hcommand : next.command = machine.command)
    (hresult : next.result = machine.result) :
    ((next.withResult other).evaluate host program position sentence env).2 =
        (next.evaluate host program position sentence env).2 ∧
      Kept other machine ((next.withResult other).evaluate host program position sentence env).1
        (next.evaluate host program position sentence env).1 := by
  unfold evaluate
  rcases sentence.asValues with error | _ | ⟨name, args⟩
  · exact ⟨rfl, .same _⟩
  · exact ⟨rfl, .moved next hcommand hresult⟩
  · dsimp only
    cases host.resolveCommand env name with
    | error error => exact ⟨rfl, .same _⟩
    | ok command =>
      dsimp only
      rcases host.execute command (name :: args) env with ⟨crash | outcome, after⟩
      · exact ⟨rfl, .crashed next crash hcommand hresult⟩
      · refine ⟨rfl, ?_⟩
        unfold accept
        by_cases hok : outcome.isOk
        · simp only [hok, if_true]
          exact .same _
        · simp only [hok]
          by_cases herror : outcome.isError
          · simp only [herror, if_true]
            exact .same _
          · simp only [herror]
            exact .same _

/-- A step reads nothing of the result but its value, and that only to push it. -/
theorem kept_step (host : Host σ) (program : Program) (instruction : Instruction) (machine : Machine)
    (env : σ) {other : Outcome}
    (hvalue : instruction.op = .pushResult → other.value = machine.result.value) :
    (step host program instruction (machine.withResult other) env).2 =
        (step host program instruction machine env).2 ∧
      Kept other machine (step host program instruction (machine.withResult other) env).1
        (step host program instruction machine env).1 := by
  obtain ⟨op, position⟩ := instruction
  have hcommand := pop_command machine
  have hresult := pop_result machine
  have hcommand' := (pop_command machine.pop.2).trans hcommand
  have hresult' := (pop_result machine.pop.2).trans hresult
  cases op with
  | pushNil => exact ⟨rfl, .moved (machine.push .nil) rfl rfl⟩
  | openFrame => exact ⟨rfl, .moved machine.openFrame rfl rfl⟩
  | pushConstant =>
    have hcc : (machine.withResult other).cc = machine.cc := rfl
    simp only [step, hcc]
    cases program.constants[machine.cc]? with
    | none => exact ⟨rfl, .same _⟩
    | some value => exact ⟨rfl, .moved { machine.push value with cc := machine.cc + 1 } rfl rfl⟩
  | closeFrame =>
    obtain ⟨frame, _ | ⟨first, outer⟩, pc, cc, command, result⟩ := machine
    · exact ⟨rfl, .same _⟩
    · exact ⟨rfl, .moved ⟨.tuple frame.reverse :: first, outer, pc, cc, command, result⟩ rfl rfl⟩
  | expandValue =>
    simp only [step, pop_withResult]
    rcases hpop : machine.pop with ⟨value, popped⟩
    rw [hpop] at hcommand hresult
    cases value with
    | tuple items => exact ⟨rfl, .moved (popped.pushAll items) hcommand hresult⟩
    | _ => exact ⟨rfl, .moved (popped.push _) hcommand hresult⟩
  | setSource =>
    simp only [step, pop_withResult]
    exact ⟨trivial, .moved (machine.pop.2.push (.qualified machine.pop.1 [])) hcommand hresult⟩
  | resolveValue | joinStrings =>
    simp only [step, pop_withResult]
    exact ⟨trivial, kept_deliver position hcommand hresult _⟩
  | selectIndex | selectKeys | selectRules =>
    simp only [step, pop_withResult]
    exact ⟨trivial, kept_deliver position hcommand' hresult' _⟩
  | evaluateSentence =>
    simp only [step, pop_withResult]
    exact kept_evaluate position _ env hcommand hresult
  | pushResult =>
    have hpush : ((machine.withResult other).push other.value) =
        (machine.push machine.result.value).withResult other := by
      rw [hvalue rfl]
      rfl
    refine ⟨rfl, ?_⟩
    show Kept other machine (.ok ((machine.withResult other).push other.value)) _
    rw [hpush]
    exact .moved (machine.push machine.result.value) rfl rfl

/-! ## Stale results -/

/-- The machines are the same, but the first one may still hold a yielded result that its command
cannot resume from, where the second one holds the same value as an ok result. -/
inductive Stale (host : Host σ) : Machine → Machine → Prop
  | same (machine : Machine) : Stale host machine machine
  | stale {machine : Machine} {result : Outcome} {command : Command}
    (hyield : result.code = .yielding) (hvalue : result.value = machine.result.value)
    (hok : machine.result.isOk) (hcommand : machine.command = some command)
    (hresume : host.resume command = none) : Stale host (machine.withResult result) machine

/-- Machines that stopped in the same way; a result that stopped them is the same. -/
def StopsAlike (host : Host σ) (first second : Stop) : Prop :=
  first = second ∨ ∃ crash, first.crash = some crash ∧ second.crash = some crash ∧
    Stale host first.machine second.machine

theorem Stale.pc_eq {first second : Machine} (h : Stale host first second) : first.pc = second.pc := by
  cases h <;> rfl

theorem StopsAlike.stale {first second : Stop} (h : StopsAlike host first second) :
    Stale host first.machine second.machine := by
  rcases h with rfl | ⟨crash, _, _, hstale⟩
  · exact .same _
  · exact hstale

theorem StopsAlike.outcome_eq {first second : Stop} (h : StopsAlike host first second) :
    first.outcome = second.outcome := by
  rcases h with rfl | ⟨crash, hfirst, hsecond, _⟩
  · rfl
  · simp only [Stop.outcome, hfirst, hsecond]

theorem Stale.reply {first second : Machine} (h : Stale host first second) (reply : Option Outcome) :
    Stale host (first.reply reply) (second.reply reply) := by
  cases h with
  | same => exact .same _
  | stale hyield hvalue hok hcommand hresume =>
    cases reply with
    | none => exact .stale hyield hvalue hok hcommand hresume
    | some result => exact .same _

/-- Both machines are stale or not, or have stopped alike. -/
def LeftAlike (host : Host σ) : Except Stop Machine → Except Stop Machine → Prop
  | .ok first, .ok second => Stale host first second
  | .error first, .error second => StopsAlike host first second
  | _, _ => False

theorem leftAlike_refl (left : Except Stop Machine) : LeftAlike host left left := by
  cases left with
  | ok machine => exact .same machine
  | error stop => exact .inl rfl

theorem Kept.leftAlike {other : Outcome} {machine : Machine} {first second : Except Stop Machine}
    {command : Command} (h : Kept other machine first second) (hyield : other.code = .yielding)
    (hvalue : other.value = machine.result.value) (hok : machine.result.isOk)
    (hcommand : machine.command = some command) (hresume : host.resume command = none) :
    LeftAlike host first second := by
  have hstale : ∀ next : Machine, next.command = machine.command → next.result = machine.result →
      Stale host (next.withResult other) next := by
    intro next hnext hresult
    refine .stale hyield ?_ ?_ (hnext.trans hcommand) hresume
    · rw [hresult]
      exact hvalue
    · rw [hresult]
      exact hok
  cases h with
  | same => exact leftAlike_refl _
  | moved next hnext hresult => exact hstale next hnext hresult
  | crashed next crash hnext hresult => exact .inr ⟨crash, rfl, rfl, hstale next hnext hresult⟩

/-- A step keeps machines alike. -/
theorem Stale.step {first second : Machine} (h : Stale host first second) (program : Program)
    (instruction : Instruction) (env : σ) :
    ∃ left left' after,
      Machine.step host program instruction { first with pc := first.pc + 1 } env = (left, after) ∧
      Machine.step host program instruction { second with pc := second.pc + 1 } env = (left', after) ∧
      LeftAlike host left left' := by
  cases h with
  | same => exact ⟨_, _, _, rfl, rfl, leftAlike_refl _⟩
  | stale hyield hvalue hok hcommand hresume =>
    obtain ⟨henv, hkept⟩ := kept_step host program instruction { second with pc := second.pc + 1 } env
      fun _ => hvalue
    refine ⟨_, _, (Machine.step host program instruction { second with pc := second.pc + 1 } env).2,
      Prod.ext rfl henv, rfl, ?_⟩
    exact hkept.leftAlike hyield hvalue hok hcommand hresume

/-- The end of a program leaves no yielded result. -/
theorem Stale.conclude {first second : Machine} (h : Stale host first second) (hp : Closed program)
    (hreached : Reached host program second) (hend : program.code.length ≤ second.pc) :
    first.conclude = second.conclude := by
  cases h with
  | same => rfl
  | @stale _ result =>
    obtain ⟨value, hconclude⟩ := hreached.conclude_of_ended hp hend
    rw [hconclude result, ← hconclude second.result]
    rfl

theorem runOn_of_stale {first second : Machine} (h : Stale host first second) (hp : Closed program)
    (hreached : Reached host program second) (env : σ) :
    ∃ stop stop' after, runOn host program first env = (stop, after) ∧
      runOn host program second env = (stop', after) ∧ StopsAlike host stop stop' := by
  rw [runOn, runOn, h.pc_eq]
  generalize hrest : program.code.drop second.pc = rest
  induction rest generalizing first second env with
  | nil =>
    have hend : program.code.length ≤ second.pc := List.drop_eq_nil_iff.1 hrest
    refine ⟨_, _, _, rfl, rfl, .inl ?_⟩
    rw [h.conclude hp hreached hend]
  | cons instruction rest ih =>
    obtain ⟨hat, hdrop⟩ := drop_eq_cons hrest
    have hnext := hreached.step env hat
    have hpc := step_pc host program instruction { second with pc := second.pc + 1 } env
    obtain ⟨left, left', after, hleft, hleft', halike⟩ := h.step program instruction env
    rw [run, run, hleft, hleft']
    rw [hleft'] at hnext hpc
    rcases left with stop | next <;> rcases left' with stop' | next'
    · exact ⟨_, _, _, rfl, rfl, halike⟩
    · exact halike.elim
    · exact halike.elim
    · have hpc : next'.pc = second.pc + 1 := hpc
      rw [← hpc] at hdrop
      exact ih halike hnext after hdrop

/-- A machine whose result is ok has nothing to resume. -/
theorem execute_of_isOk {machine : Machine} (hok : machine.result.isOk) (env : σ) :
    machine.execute host program env = runOn host program machine env := by
  have hcode : ¬ machine.result.code = .yielding := by
    intro hcode
    rw [Outcome.isOk, hcode] at hok
    cases hok
  simp only [execute, hcode, if_false]

theorem execute_of_stale {first second : Machine} (h : Stale host first second) (hp : Closed program)
    (hreached : Reached host program second) (env : σ) :
    ∃ stop stop' after, first.execute host program env = (stop, after) ∧
      second.execute host program env = (stop', after) ∧ StopsAlike host stop stop' := by
  have hrun := runOn_of_stale h hp hreached env
  cases h with
  | same => exact ⟨_, _, _, rfl, rfl, .inl rfl⟩
  | @stale _ result command hyield hvalue hok hcommand hresume =>
    have hfirst : (second.withResult result).execute host program env =
        runOn host program (second.withResult result) env := by
      have hbind : (second.withResult result).command.bind host.resume = none := by
        show second.command.bind host.resume = none
        rw [hcommand]
        exact hresume
      simp only [execute, hbind, ite_self]
    rw [hfirst, execute_of_isOk hok]
    exact hrun

/-- However often machines that stopped alike are run again, they answer the same. -/
theorem answers_of_stale (hp : Closed program) (replies : List (Option Outcome)) {first second : Stop}
    (env : σ) (h : StopsAlike host first second) (hreached : Reached host program second.machine) :
    answers host program replies (first, env) = answers host program replies (second, env) := by
  induction replies generalizing first second env with
  | nil => rw [answers, answers, h.outcome_eq]
  | cons reply rest ih =>
    have hreply : Reached host program (second.machine.reply reply) := by
      cases reply with
      | none => exact hreached
      | some result => exact hreached.withResult result
    obtain ⟨stop, stop', after, hfirst, hsecond, hstops⟩ :=
      execute_of_stale (h.stale.reply reply) hp hreply env
    have hnext := hreply.execute env
    rw [hsecond] at hnext
    rw [answers, answers, hfirst, hsecond, h.outcome_eq]
    simp only [ih after hstops hnext]

end Parlance.Machine
