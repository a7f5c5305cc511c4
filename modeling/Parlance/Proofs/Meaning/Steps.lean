import Parlance.Machine
import Parlance.Program.Compile
import Parlance.Proofs.Meaning

/-!
# What steps perform

`Performs host steps taken meant` says what running some steps does, on every machine whose
innermost frame ends with the values `taken` and whose program has the constants of the steps next:
when `meant` gives values, these stand in the place of `taken` and the machine is behind the steps;
when `meant` halts, so does the machine, in the same way.  Frames below are never touched.

    Performs s taken (do return f (← e)) → (∀ a, Performs t (f a) (g a)) →
      Performs (s ++ t) taken (e >>= g)                                              (Performs.bind)
    Performs s taken e → Performs s (kept ++ taken) (do return kept ++ (← e))         (Performs.frame)

Each instruction has one such lemma, and the compiled steps of a construct get theirs from these.
-/

namespace Parlance.Meaning

open Compile (Step framed)

variable {σ α β : Type}

/-! ## Evaluations, applied -/

theorem bind_apply (first : Eval σ α) (next : α → Eval σ β) (latest : Value) (env : σ) :
    (first >>= next) latest env =
      match first latest env with
      | (.ok (value, latest), env) => next value latest env
      | (.error halt, env) => (.error halt, env) := by
  simp only [bind, StateT.bind, ExceptT.bind, ExceptT.mk, ExceptT.bindCont]
  cases first latest env with
  | mk result env => cases result <;> rfl

theorem demand_ok (value : α) : (demand (.ok value) : Eval σ α) = pure value := rfl

/-- An evaluation of one value, as one of a list. -/
def single (meant : Eval σ Value) : Eval σ (List Value) := do return [← meant]

/-- An evaluation that leaves no value. -/
def silent (meant : Eval σ Unit) : Eval σ (List Value) := do
  meant
  return []

/-! ## Performing -/

/-- The constants of some steps. -/
def constants (steps : List Step) : List Value := steps.filterMap Step.constant?

@[simp] theorem constants_nil : constants [] = [] := rfl

@[simp] theorem constants_op (op : OpCode) (position : Option Position) (steps : List Step) :
    constants (.op op position :: steps) = constants steps := by
  simp [constants, List.filterMap_cons, Step.constant?]

@[simp] theorem constants_constant (value : Value) (position : Option Position)
    (steps : List Step) : constants (.constant value position :: steps) = value :: constants steps := by
  simp [constants, Step.constant?]

@[simp] theorem constants_append (s t : List Step) : constants (s ++ t) = constants s ++ constants t := by
  simp [constants]

/-- A machine stopped the way an evaluation halted. -/
def Halt.Fits (stop : Machine.Stop) : Halt → Prop
  | .stopped code value =>
    stop.crash = none ∧ stop.machine.result.code = code ∧ stop.machine.result.value = value
  | .crashed crash => stop.crash = some crash
  | .malformed => False

/-- A run from `machine` is the one from behind the steps, with the values that were meant on top of
`base`, or it stopped as it was meant to. -/
def Follows (host : Host σ) (program : Program) (rest : List Instruction) (machine : Machine)
    (base : List Value) (steps : List Step) (run : Machine.Stop × σ) :
    Except Halt (List Value × Value) × σ → Prop
  | (.ok (values, latest), env) => ∃ command result, result.value = latest ∧
      run = Machine.run host program rest
        ⟨values.reverse ++ base, machine.outer, machine.pc + steps.length,
          machine.cc + (constants steps).length, command, result⟩ env
  | (.error halt, env) => ∃ stop, halt.Fits stop ∧ run = (stop, env)

/-- Running `steps` on top of the values `taken` does what is meant. -/
def Performs (host : Host σ) (steps : List Step) (taken : List Value)
    (meant : Eval σ (List Value)) : Prop :=
  ∀ (program : Program) (rest : List Instruction) (machine : Machine) (base : List Value) (env : σ),
    machine.frame = taken.reverse ++ base →
    constants steps <+: program.constants.toList.drop machine.cc →
    Follows host program rest machine base steps
      (Machine.run host program (steps.map Step.instruction ++ rest) machine env)
      (meant machine.result.value env)

section Structure

variable {host : Host σ} {s t : List Step} {taken : List Value}

theorem Performs.nil : Performs host [] taken (pure taken) := by
  intro program rest machine base env hframe hconst
  obtain ⟨frame, outer, pc, cc, command, result⟩ := machine
  subst hframe
  exact ⟨command, result, rfl, rfl⟩

/-- Steps that leave the values `leave a` when `a` was meant, and the steps after them. -/
theorem Performs.bind {meant : Eval σ α} (leave : α → List Value) {next : α → Eval σ (List Value)}
    (hfirst : Performs host s taken (do return leave (← meant)))
    (hnext : ∀ value, Performs host t (leave value) (next value)) :
    Performs host (s ++ t) taken (meant >>= next) := by
  intro program rest machine base env hframe hconst
  rw [constants_append] at hconst
  have hs := hfirst program (t.map Step.instruction ++ rest) machine base env hframe
    ((List.prefix_append ..).trans hconst)
  rw [bind_apply] at hs
  rw [List.map_append, List.append_assoc, bind_apply]
  rcases he : meant machine.result.value env with ⟨halt | ⟨value, latest⟩, env'⟩
  · rw [he] at hs
    exact hs
  · rw [he] at hs
    obtain ⟨command, result, rfl, hrun⟩ := hs
    have hrest : constants t <+:
        program.constants.toList.drop (machine.cc + (constants s).length) := by
      obtain ⟨more, hmore⟩ := hconst
      rw [← List.drop_drop, ← hmore, List.append_assoc, List.drop_left]
      exact List.prefix_append ..
    have ht := hnext value program rest ⟨(leave value).reverse ++ base, machine.outer,
      machine.pc + s.length, machine.cc + (constants s).length, command, result⟩ base env' rfl hrest
    rw [← hrun] at ht
    simpa only [Follows, constants_append, List.length_append, Nat.add_assoc] using ht

theorem Performs.frame {meant : Eval σ (List Value)} (kept : List Value) (h : Performs host s taken meant) :
    Performs host s (kept ++ taken) (do return kept ++ (← meant)) := by
  intro program rest machine base env hframe hconst
  rw [List.reverse_append, List.append_assoc] at hframe
  have hs := h program rest machine (kept.reverse ++ base) env hframe hconst
  rw [bind_apply]
  rcases he : meant machine.result.value env with ⟨halt | ⟨values, latest⟩, env'⟩
  · rw [he] at hs
    exact hs
  · rw [he] at hs
    obtain ⟨command, result, rfl, hrun⟩ := hs
    refine ⟨command, result, rfl, ?_⟩
    rw [List.reverse_append, List.append_assoc]
    exact hrun

/-- Values that are made one list after the other. -/
theorem Performs.append_values {meant others : Eval σ (List Value)}
    (hfirst : Performs host s taken meant) (hothers : Performs host t [] others) :
    Performs host (s ++ t) taken (do
      let first ← meant
      let others ← others
      return first ++ others) := by
  refine Performs.bind id (by simpa using hfirst) fun values => ?_
  have := hothers.frame values
  rwa [List.append_nil] at this

/-- One value, and the steps that take it. -/
theorem Performs.append_single {meant : Eval σ Value} {next : Value → Eval σ (List Value)}
    (hfirst : Performs host s taken (single meant))
    (hnext : ∀ value, Performs host t [value] (next value)) :
    Performs host (s ++ t) taken (meant >>= next) :=
  Performs.bind (fun value => [value]) hfirst hnext

/-- Steps that leave no value, and more steps after them. -/
theorem Performs.append_silent {first : Eval σ Unit} {next : Eval σ (List Value)}
    (hfirst : Performs host s [] (silent first)) (hnext : Performs host t [] next) :
    Performs host (s ++ t) [] (do first; next) :=
  Performs.bind (fun _ => []) hfirst fun _ => hnext

/-- What a frame around some steps leaves. -/
theorem Performs.framed {meant : Eval σ (List Value)} (position : Option Position) (h : Performs host s [] meant) :
    Performs host (framed position s) [] (do return [.tuple (← meant)]) := by
  intro program rest machine base env hframe hconst
  have hconstants : constants (Compile.framed position s) = constants s := by
    simp [Compile.framed]
  have hs := h program (⟨.closeFrame, position⟩ :: rest)
    { machine.openFrame with pc := machine.pc + 1 } [] env rfl (hconstants ▸ hconst)
  rw [bind_apply]
  have hrun : Machine.run host program
      ((Compile.framed position s).map Step.instruction ++ rest) machine env =
      Machine.run host program (s.map Step.instruction ++ ⟨.closeFrame, position⟩ :: rest)
        { machine.openFrame with pc := machine.pc + 1 } env := by
    simp [Compile.framed, Step.instruction, Machine.run, Machine.step, Machine.openFrame]
  rw [hrun]
  have hresult : ({ machine.openFrame with pc := machine.pc + 1 } : Machine).result =
    machine.result := rfl
  rw [hresult] at hs
  rcases he : meant machine.result.value env with ⟨halt | ⟨values, latest⟩, env'⟩
  · rw [he] at hs
    exact hs
  · rw [he] at hs
    obtain ⟨command, result, rfl, hrun'⟩ := hs
    refine ⟨command, result, rfl, ?_⟩
    rw [hrun', hconstants]
    simp only [Machine.run, Machine.step, Machine.closeFrame, Machine.openFrame, Machine.values,
      Machine.push, List.append_nil, List.reverse_reverse, List.reverse_cons, List.reverse_nil,
      List.nil_append, List.singleton_append, hframe, Compile.framed, List.length_cons,
      List.length_append, List.length_nil]
    congr 2
    omega

/-- The tuple that a frame leaves, and the steps that take it. -/
theorem Performs.framed_append {meant : Eval σ (List Value)} {next : List Value → Eval σ (List Value)}
    (position : Option Position) (hfirst : Performs host s [] meant)
    (hnext : ∀ values, Performs host t [.tuple values] (next values)) :
    Performs host (Compile.framed position s ++ t) [] (meant >>= next) :=
  Performs.bind (fun values => [.tuple values]) (hfirst.framed position) hnext

end Structure

/-! ## Instructions -/

section Instructions

variable (host : Host σ) (position : Option Position)

/-- An instruction without a constant that does what is meant, and nothing else. -/
theorem performs_op {op : OpCode} {taken : List Value} {meant : Eval σ (List Value)}
    (h : ∀ (program : Program) (rest : List Instruction) (machine : Machine) (base : List Value)
      (env : σ), machine.frame = taken.reverse ++ base →
      Follows host program rest machine base [.op op position]
        (Machine.run host program (⟨op, position⟩ :: rest) machine env)
        (meant machine.result.value env)) :
    Performs host [.op op position] taken meant :=
  fun program rest machine base env hframe _ => h program rest machine base env hframe

theorem performs_constant (value : Value) :
    Performs host [.constant value position] [] (single (pure value)) := by
  intro program rest machine base env hframe hconst
  have hvalue : program.constants[machine.cc]? = some value := by
    obtain ⟨more, hmore⟩ := hconst
    rw [← Array.getElem?_toList, ← List.head?_drop, ← hmore]
    rfl
  refine ⟨machine.command, machine.result, rfl, ?_⟩
  simp only [List.reverse_nil, List.nil_append] at hframe
  simp [Machine.run, Machine.step, Step.instruction, hvalue, Machine.push, hframe]

theorem performs_pushNil : Performs host [.op .pushNil position] [] (pure [.nil]) := by
  refine performs_op host position fun program rest machine base env hframe => ?_
  refine ⟨machine.command, machine.result, rfl, ?_⟩
  simp only [List.reverse_nil, List.nil_append] at hframe
  simp [Machine.run, Machine.step, Machine.push, hframe]

theorem performs_pushResult :
    Performs host [.op .pushResult position] [] (single get) := by
  refine performs_op host position fun program rest machine base env hframe => ?_
  refine ⟨machine.command, machine.result, rfl, ?_⟩
  simp only [List.reverse_nil, List.nil_append] at hframe
  simp [Machine.run, Machine.step, Machine.push, hframe]

/-- An instruction that delivers a value or fails. -/
theorem follows_deliver {program : Program} {rest : List Instruction} {machine : Machine}
    {base : List Value} {env : σ} {op : OpCode} (after : σ) (result : Except ValueError Value)
    (h : Machine.step host program ⟨op, position⟩ { machine with pc := machine.pc + 1 } env =
      (Machine.deliver program position
        { machine with pc := machine.pc + 1, frame := base } result, after)) :
    Follows host program rest machine base [.op op position]
      (Machine.run host program (⟨op, position⟩ :: rest) machine env)
      (single (demand result) machine.result.value after) := by
  rw [Machine.run, h]
  cases result with
  | ok value =>
    refine ⟨machine.command, machine.result, rfl, ?_⟩
    simp [Machine.deliver, Machine.push]
  | error error =>
    refine ⟨_, ?_, rfl⟩
    exact ⟨rfl, rfl, rfl⟩

theorem performs_resolve (name : Value) :
    Performs host [.op .resolveValue position] [name] (single (resolve host name)) := by
  refine performs_op host position fun program rest machine base env hframe => ?_
  refine follows_deliver host position env (host.resolve env name) ?_
  simp [Machine.step, Machine.pop, hframe]

theorem performs_expand (value : Value) :
    Performs host [.op .expandValue position] [value] (pure (elements value)) := by
  refine performs_op host position fun program rest machine base env hframe => ?_
  refine ⟨machine.command, machine.result, rfl, ?_⟩
  cases value <;>
    simp [Machine.run, Machine.step, Machine.pop, Machine.push, Machine.pushAll, hframe, elements]

theorem performs_setSource (source : Value) :
    Performs host [.op .setSource position] [source] (pure [.qualified source []]) := by
  refine performs_op host position fun program rest machine base env hframe => ?_
  refine ⟨machine.command, machine.result, rfl, ?_⟩
  simp [Machine.run, Machine.step, Machine.pop, Machine.push, hframe]

theorem performs_selectIndex (value index : Value) :
    Performs host [.op .selectIndex position] [value, index]
      (single (selectIndex host value index)) := by
  refine performs_op host position fun program rest machine base env hframe => ?_
  refine follows_deliver host position env _ ?_
  simp [Machine.step, Machine.pop, hframe]

/-- Two demands, one after the other, are one. -/
theorem demand_bind (result : Except ValueError α) (next : α → Except ValueError β) :
    (do demand (next (← demand result)) : Eval σ β) = demand (result.bind next) := by
  cases result <;> rfl

theorem performs_selectKeys (value : Value) (keys : List Value) :
    Performs host [.op .selectKeys position] [value, .tuple keys]
      (single (selectKeys host value keys)) := by
  refine performs_op host position fun program rest machine base env hframe => ?_
  rw [selectKeys, demand_bind]
  refine follows_deliver host position env _ ?_
  simp [Machine.step, Machine.pop, hframe, Value.asValues, Except.bind]

theorem performs_selectRules (value : Value) (rules : List Value) :
    Performs host [.op .selectRules position] [value, .tuple rules]
      (single (selectRules host value rules)) := by
  refine performs_op host position fun program rest machine base env hframe => ?_
  rcases hr : host.resolveSelector (.tuple rules) env with ⟨result, after⟩
  have hmeant : single (selectRules host value rules) machine.result.value env =
      single (demand (result.bind fun selector => value.select host.applyCustom selector))
        machine.result.value after := by
    rw [selectRules, ← demand_bind, single, single, bind_apply, bind_apply, bind_apply, bind_apply]
    simp only [hr]
  rw [hmeant]
  refine follows_deliver host position after _ ?_
  simp [Machine.step, Machine.pop, hframe, hr]

theorem joinStrings_eq (values : List Value) :
    Machine.joinStrings values = (values.mapM Value.asString).map String.join := by
  induction values with
  | nil => rfl
  | cons value rest ih =>
    rw [Machine.joinStrings, List.mapM_cons, ih]
    cases value.asString with
    | error error => rfl
    | ok text =>
      cases rest.mapM Value.asString with
      | error error => rfl
      | ok texts => simp [bind, Except.bind, pure, Except.pure, Except.map]

theorem performs_join (values : List Value) :
    Performs host [.op .joinStrings position] [.tuple values] (single (join values)) := by
  refine performs_op host position fun program rest machine base env hframe => ?_
  refine follows_deliver host position env _ ?_
  have hjoin : (Machine.joinStrings values).map Value.string =
      (values.mapM Value.asString).map fun texts => .string (String.join texts) := by
    rw [joinStrings_eq]
    cases values.mapM Value.asString <;> rfl
  simp [Machine.step, Machine.pop, hframe, Value.asValues, Except.bind, ← hjoin]

theorem performs_dispatch (args : List Value) :
    Performs host [.op .evaluateSentence position] [.tuple args] (silent (dispatch host args)) := by
  refine performs_op host position fun program rest machine base env hframe => ?_
  have hpop : ({ machine with pc := machine.pc + 1 } : Machine).pop =
      (.tuple args, { machine with pc := machine.pc + 1, frame := base }) := by
    simp [Machine.pop, hframe]
  simp only [Machine.run, Machine.step, hpop, Machine.evaluate, Value.asValues, silent, bind_apply]
  cases args with
  | nil => exact ⟨machine.command, machine.result, rfl, by simp⟩
  | cons name args =>
    simp only [dispatch]
    cases hc : host.resolveCommand env name with
    | error error => exact ⟨_, ⟨rfl, rfl, rfl⟩, rfl⟩
    | ok command =>
      rcases he : host.execute command (name :: args) env with ⟨crash | outcome, after⟩
      · simp only [he]
        exact ⟨⟨_, some crash⟩, rfl, rfl⟩
      · simp only [he, Machine.accept]
        by_cases hok : outcome.isOk
        · simp only [hok, if_true]
          exact ⟨some command, outcome, rfl, by simp⟩
        · simp only [hok]
          by_cases herr : outcome.isError
          · simp only [herr, if_true]
            exact ⟨_, ⟨rfl, rfl, rfl⟩, rfl⟩
          · simp only [herr]
            exact ⟨_, ⟨rfl, rfl, rfl⟩, rfl⟩

end Instructions

end Parlance.Meaning
