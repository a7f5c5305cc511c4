import Parlance.Dialect.Commands
import Parlance.Proofs.Calls
import Parlance.Proofs.Meaning.Compiled

/-!
# Programs do what scripts mean

A script that compiles has a meaning, and its program answers with it: the same code and value, from
the same calls in the same order, and the host is left in the same state.

    Program.ofScript source tree = .ok program →
      (run of program).outcome = evaluate host tree, calls included                   (execute_ofScript)
-/

namespace Parlance.Meaning

variable {σ : Type}

/-- The code and the value that a run answers, if the tree has a meaning. -/
def answer : Except Halt Value → Option (ResultCode × Value)
  | .ok value => some (.ok, value)
  | .error (.stopped code value) => some (code, value)
  | .error (.crashed crash) =>
    some (.error, .string ("internal error: " ++ crash.message.getD "unknown panic"))
  | .error .malformed => none

theorem Halt.Fits.answer {stop : Machine.Stop} {halt : Halt} (h : halt.Fits stop) :
    answer (.error halt) = some (stop.outcome.code, stop.outcome.value) := by
  cases halt with
  | stopped code value =>
    obtain ⟨hcrash, rfl, rfl⟩ := h
    rw [Machine.Stop.outcome, hcrash]
    rfl
  | crashed crash =>
    rw [Machine.Stop.outcome, show stop.crash = some crash from h]
    rfl
  | malformed => exact h.elim

variable {source : Option Source} {tree : Script} {program : Program}

/-- The program of a script answers what the script means, and leaves the same state. -/
theorem answer_evaluate (h : Program.ofScript source tree = .ok program) (host : Host σ) (env : σ) :
    ∃ stop after, Machine.start.execute host program env = (stop, after) ∧
      answer (evaluate host tree env).1 = some (stop.outcome.code, stop.outcome.value) ∧
      (evaluate host tree env).2 = after := by
  rw [Program.ofScript] at h
  obtain ⟨steps, hs, rfl⟩ := map_eq_ok h
  have hrun := performs_script host tree steps hs (Compile.assemble source steps) [] .start [] env
    rfl (List.prefix_refl _)
  rw [List.append_nil] at hrun
  change Follows host _ [] .start [] steps
    (Machine.start.execute host (Compile.assemble source steps) env)
    (single (script host tree) .nil env) at hrun
  rw [single, bind_apply] at hrun
  rw [evaluate]
  rcases hmeant : script host tree .nil env with ⟨halt | ⟨value, latest⟩, after⟩
  · rw [hmeant] at hrun
    obtain ⟨stop, hfits, hrun⟩ := hrun
    exact ⟨stop, after, hrun, hfits.answer, rfl⟩
  · rw [hmeant] at hrun
    obtain ⟨command, result, _, hrun⟩ := hrun
    exact ⟨_, after, hrun, rfl, rfl⟩

/-- A script that compiles is run as it is meant: the run answers the code and the value of the
direct evaluation, and both run the same commands on the same arguments in the same order. -/
theorem execute_ofScript (h : Program.ofScript source tree = .ok program) (host : Host σ) (env : σ) :
    ∃ stop after calls,
      Machine.start.execute host program env = (stop, after) ∧
      Machine.start.execute host.recording program (env, []) = (stop, after, calls) ∧
      answer (evaluate host tree env).1 = some (stop.outcome.code, stop.outcome.value) ∧
      (evaluate host tree env).2 = after ∧
      answer (evaluate host.recording tree (env, [])).1 =
        some (stop.outcome.code, stop.outcome.value) ∧
      (evaluate host.recording tree (env, [])).2 = (after, calls) := by
  obtain ⟨stop, after, hrun, hanswer, hafter⟩ := answer_evaluate h host env
  obtain ⟨stop', state, hrecorded, hanswer', hstate⟩ := answer_evaluate h host.recording (env, [])
  have hstart : env = ((env, []) : σ × List Call).1 := rfl
  obtain ⟨hstop, hsame⟩ := host.alike_recording.reexecute program .start hstart
  rw [hrun, hrecorded] at hstop hsame
  cases hstop
  obtain ⟨after', calls⟩ := state
  cases hsame
  exact ⟨stop, after, calls, hrun, hrecorded, hanswer, hafter, hanswer', hstate⟩

/-- `echo [echo a] b` in the dialect. -/
theorem execute_ofScript_nested :
    let literal (text : String) : Morpheme := ⟨.literal text, none⟩
    let inner : Script := ⟨[⟨[⟨[literal "echo"], none⟩, ⟨[literal "a"], none⟩], none⟩], none⟩
    let tree : Script := ⟨[⟨[⟨[literal "echo"], none⟩, ⟨[⟨.expression inner, none⟩], none⟩,
      ⟨[literal "b"], none⟩], none⟩], none⟩
    let host := Dialect.host ⟨.generic, none, none, ⟨false⟩⟩ 1
    ∃ program, Program.ofScript none tree = .ok program ∧ ∃ stop after calls,
      Machine.start.execute host program .empty = (stop, after) ∧
      Machine.start.execute host.recording program (.empty, []) = (stop, after, calls) ∧
      answer (evaluate host tree .empty).1 = some (stop.outcome.code, stop.outcome.value) ∧
      (evaluate host tree .empty).2 = after ∧
      answer (evaluate host.recording tree (.empty, [])).1 =
        some (stop.outcome.code, stop.outcome.value) ∧
      (evaluate host.recording tree (.empty, [])).2 = (after, calls) :=
  ⟨_, rfl, execute_ofScript rfl _ _⟩

end Parlance.Meaning
