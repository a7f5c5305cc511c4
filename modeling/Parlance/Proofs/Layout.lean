import Mathlib.Data.List.Forall2
import Parlance.Proofs.Arity
import Parlance.Proofs.Frames

/-!
# How frames are laid out

An instruction has no operands, so what it finds in the frames is for the compiler to see to.  What is
known of the frames before each instruction follows from the instructions before it: how many values
a frame holds at least, whether it holds no more, and whether the latest value is a tuple.

    Turns steps taken left → layout.along steps is some layout                       (along_turns)
    layout.after instruction = some later → layout.Holds machine →
      machine has what the instruction takes, and later.Holds behind it    (Holds.sufficient, Holds.step)
-/

namespace Parlance

open Compile (Step Turns)

namespace Machine

/-! ## Layouts -/

/-- What is known of the number of values in a frame: it is no less than `least`, and when `exact` no
more. -/
structure Extent where
  least : Nat
  exact : Bool

/-- What is known of the frames of a machine. -/
structure Layout where
  inner : Extent
  outer : List Extent
  /-- The latest value of the innermost frame is a tuple. -/
  tuple : Bool

namespace Extent

/-- A frame without values. -/
def empty : Extent := ⟨0, true⟩

/-- The extent of a frame with so many more values. -/
def plus (extent : Extent) (count : Nat) : Extent := ⟨extent.least + count, extent.exact⟩

/-- The extent of a frame from which so many values are taken, if it holds as many. -/
def take? (extent : Extent) (count : Nat) : Option Extent :=
  if count ≤ extent.least then some ⟨extent.least - count, extent.exact⟩ else none

/-- The extent of a frame with any number of values more. -/
def more (extent : Extent) : Extent := ⟨extent.least, false⟩

/-- The extent of a frame with so many more values, or with any number more. -/
def leave (extent : Extent) : Option Nat → Extent
  | some count => extent.plus count
  | none => ⟨extent.least, false⟩

@[simp] theorem plus_zero (extent : Extent) : extent.plus 0 = extent := rfl

theorem plus_plus (extent : Extent) (first second : Nat) :
    (extent.plus first).plus second = extent.plus (first + second) := by
  simp only [plus, Nat.add_assoc]

@[simp] theorem take?_plus (extent : Extent) (count : Nat) :
    (extent.plus count).take? count = some extent := by
  simp [take?, plus]

/-- Whether a frame can hold so many values. -/
structure Admits (extent : Extent) (count : Nat) : Prop where
  least_le : extent.least ≤ count
  eq_of_exact : extent.exact → count = extent.least

theorem admits_empty : empty.Admits 0 := ⟨Nat.le_refl 0, fun _ => rfl⟩

section Admits

variable {extent after : Extent} {count taken : Nat}

theorem Admits.plus (h : extent.Admits count) (more : Nat) :
    (extent.plus more).Admits (count + more) := by
  obtain ⟨hleast, hexact⟩ := h
  refine ⟨Nat.add_le_add_right hleast more, fun h => ?_⟩
  rw [hexact h]
  rfl

theorem Admits.taken_le (h : extent.Admits count) (htake : extent.take? taken = some after) :
    taken ≤ count := by
  unfold take? at htake
  split at htake
  · rename_i htaken
    exact Nat.le_trans htaken h.least_le
  · cases htake

theorem Admits.take (h : extent.Admits count) (htake : extent.take? taken = some after) :
    after.Admits (count - taken) := by
  obtain ⟨hleast, hexact⟩ := h
  unfold take? at htake
  split at htake
  · cases htake
    refine ⟨by dsimp only; omega, fun h => ?_⟩
    rw [hexact h]
  · cases htake

theorem Admits.leave (h : extent.Admits count) {left : Option Nat} {values : List Value}
    (hleft : ∀ count, left = some count → values.length = count) :
    (extent.leave left).Admits (values.length + count) := by
  cases left with
  | none => exact ⟨Nat.le_trans h.least_le (Nat.le_add_left _ _), by rintro ⟨⟩⟩
  | some leaves =>
    rw [Nat.add_comm, hleft leaves rfl]
    exact h.plus leaves

end Admits

end Extent

namespace Layout

/-- The layout of a machine before a program. -/
def start : Layout := ⟨.empty, [], false⟩

/-- The layout after some values were taken from the innermost frame and others left there; any number
of them when `left` is none. -/
def turn (taken : Nat) (left : Option Nat) (layout : Layout) : Option Layout :=
  (layout.inner.take? taken).map fun extent => ⟨extent.leave left, layout.outer, false⟩

/-- The layout after an instruction; none when the layout is not enough for it. -/
def after (layout : Layout) (instruction : Instruction) : Option Layout :=
  match instruction.op with
  | .pushConstant => layout.turn 0 (some 1)
  | .openFrame => some ⟨.empty, layout.inner :: layout.outer, false⟩
  | .closeFrame =>
    match layout.outer with
    | [] => none
    | inner :: outer => some ⟨inner.plus 1, outer, true⟩
  | .evaluateSentence => if layout.tuple then layout.turn 1 (some 0) else none
  | op => (Compile.arity op).bind fun (taken, left) => layout.turn taken left

/-- The layout after some steps. -/
def along (layout : Layout) (steps : List Step) : Option Layout :=
  (steps.map Step.instruction).foldlM after layout

variable {inner : Extent} {outer : List Extent} {tuple : Bool}

theorem along_append (layout : Layout) (s t : List Step) :
    layout.along (s ++ t) = (layout.along s).bind fun next => next.along t := by
  rw [along, List.map_append, List.foldlM_append]
  rfl

theorem along_single (layout : Layout) (step : Step) :
    layout.along [step] = layout.after step.instruction := by
  simp [along]

theorem after_of_arity {op : OpCode} {taken : Nat} {left : Option Nat}
    (h : Compile.arity op = some (taken, left)) (layout : Layout) (position : Option Position) :
    layout.after ⟨op, position⟩ = layout.turn taken left := by
  cases op <;> first | (cases h; done) | (cases h; rfl)

/-- A frame is closed into a tuple, whatever it holds. -/
theorem along_framed {s : List Step} {next : Layout} (position : Option Position)
    (hs : along ⟨.empty, inner :: outer, false⟩ s = some next) (houter : next.outer = inner :: outer) :
    along ⟨inner, outer, tuple⟩ (Compile.framed position s) = some ⟨inner.plus 1, outer, true⟩ := by
  have hopen : along ⟨inner, outer, tuple⟩ [.op .openFrame position] =
      some ⟨.empty, inner :: outer, false⟩ := along_single ..
  have hclose : next.along [.op .closeFrame position] = some ⟨inner.plus 1, outer, true⟩ := by
    obtain ⟨extent, _, flag⟩ := next
    subst houter
    exact along_single ..
  rw [Compile.framed, ← List.singleton_append, List.append_assoc, along_append, hopen,
    Option.bind_some, along_append, hs, Option.bind_some, hclose]

/-- Steps find the values they take, leave as many as they say, and close the frames they open. -/
theorem along_turns {steps : List Step} {taken : Nat} {left : Option Nat} (h : Turns steps taken left) :
    ∀ (base : Extent) (outer : List Extent) (tuple : Bool), ∃ next : Layout,
      along ⟨base.plus taken, outer, tuple⟩ steps = some next ∧ next.outer = outer ∧
        ∀ count, left = some count → next.inner = base.plus count := by
  induction h with
  | nil =>
    intro base outer tuple
    exact ⟨_, rfl, rfl, by rintro _ ⟨⟩; rfl⟩
  | @op _ _ left position h =>
    intro base outer tuple
    refine ⟨⟨base.leave left, outer, false⟩, ?_, rfl, by rintro _ rfl; rfl⟩
    rw [along_single, Step.instruction, after_of_arity h, turn, Extent.take?_plus]
    rfl
  | constant value position =>
    intro base outer tuple
    exact ⟨⟨base.plus 1, outer, false⟩, along_single .., rfl, by rintro _ ⟨⟩; rfl⟩
  | append _ _ ihs iht =>
    intro base outer tuple
    obtain ⟨⟨_, _, flag⟩, hs, rfl, hbetween⟩ := ihs base outer tuple
    cases hbetween _ rfl
    rw [along_append, hs]
    exact iht base _ flag
  | spread _ _ ihs iht =>
    intro base outer tuple
    obtain ⟨⟨inner, _, flag⟩, hs, rfl, -⟩ := ihs base outer tuple
    obtain ⟨next, ht, houter, -⟩ := iht inner _ flag
    rw [along_append, hs]
    exact ⟨next, ht, houter, by rintro _ ⟨⟩⟩
  | any _ ih =>
    intro base outer tuple
    obtain ⟨next, hs, houter, -⟩ := ih base outer tuple
    exact ⟨next, hs, houter, by rintro _ ⟨⟩⟩
  | above kept _ ih =>
    intro base outer tuple
    obtain ⟨next, hs, houter, hleft⟩ := ih (base.plus kept) outer tuple
    rw [Extent.plus_plus] at hs
    refine ⟨next, hs, houter, ?_⟩
    rintro _ ⟨⟩
    rw [← Extent.plus_plus]
    exact hleft _ rfl
  | framed position _ ih =>
    intro base outer tuple
    obtain ⟨next, hs, houter, -⟩ := ih .empty (base :: outer) false
    exact ⟨_, along_framed position hs houter, rfl, by rintro _ ⟨⟩; rfl⟩
  | sentence position _ ih =>
    intro base outer tuple
    obtain ⟨next, hs, houter, -⟩ := ih .empty (base :: outer) false
    refine ⟨⟨base, outer, false⟩, ?_, rfl, by rintro _ ⟨⟩; rfl⟩
    rw [along_append, Extent.plus_zero, along_framed position hs houter, Option.bind_some, along_single]
    rfl

end Layout

/-! ## Machines -/

/-- A machine whose frames are as a layout says. -/
structure Layout.Holds (layout : Layout) (machine : Machine) : Prop where
  inner : layout.inner.Admits machine.frame.length
  outer : List.Forall₂ (fun extent frame => Extent.Admits extent frame.length)
    layout.outer machine.outer
  tuple : layout.tuple → ∃ words below, machine.frame = .tuple words :: below

/-- What a machine needs for an instruction: a constant, a frame to close, a tuple to run, or values to
take. -/
def Sufficient (program : Program) (machine : Machine) : OpCode → Prop
  | .pushConstant => machine.cc < program.constants.size
  | .closeFrame => machine.outer ≠ []
  | .evaluateSentence => ∃ words below, machine.frame = .tuple words :: below
  | .resolveValue | .expandValue | .setSource | .joinStrings => machine.frame ≠ []
  | .selectIndex | .selectKeys | .selectRules => 2 ≤ machine.frame.length
  | .pushNil | .openFrame | .pushResult => True

section Steps

variable {σ : Type} {host : Host σ} {program : Program} {machine next : Machine} {env after : σ}
  {position : Option Position}

theorem pop_eq (machine : Machine) :
    machine.pop = (machine.frame.headD .nil, { machine with frame := machine.frame.drop 1 }) := by
  obtain ⟨_ | ⟨value, frame⟩, outer, pc, cc, command, result⟩ := machine <;> rfl

theorem deliver_eq_ok {result : Except ValueError Value}
    (h : machine.deliver program position result = .ok next) : ∃ value, next = machine.push value := by
  cases result with
  | ok value =>
    cases h
    exact ⟨value, rfl⟩
  | error error => cases h

/-- An instruction that takes and leaves values changes nothing but the innermost frame. -/
theorem frame_of_step {op : OpCode} {taken : Nat} {left : Option Nat}
    (h : Compile.arity op = some (taken, left))
    (hstep : step host program ⟨op, position⟩ machine env = (.ok next, after)) :
    ∃ values, next = { machine with frame := values ++ machine.frame.drop taken } ∧
      ∀ count, left = some count → values.length = count := by
  cases op with
  | pushConstant | openFrame | closeFrame | evaluateSentence => cases h
  | pushNil | pushResult =>
    cases h
    cases hstep
    exact ⟨[_], rfl, by rintro _ ⟨⟩; rfl⟩
  | setSource =>
    cases h
    simp only [step, pop_eq, Prod.mk.injEq, Except.ok.injEq] at hstep
    obtain ⟨rfl, rfl⟩ := hstep
    exact ⟨[_], rfl, by rintro _ ⟨⟩; rfl⟩
  | resolveValue | joinStrings =>
    cases h
    simp only [step, pop_eq, Prod.mk.injEq] at hstep
    obtain ⟨value, rfl⟩ := deliver_eq_ok hstep.1
    exact ⟨[value], rfl, by rintro _ ⟨⟩; rfl⟩
  | selectIndex | selectKeys | selectRules =>
    cases h
    simp only [step, pop_eq, List.drop_drop, Prod.mk.injEq] at hstep
    obtain ⟨value, rfl⟩ := deliver_eq_ok hstep.1
    exact ⟨[value], rfl, by rintro _ ⟨⟩; rfl⟩
  | expandValue =>
    cases h
    simp only [step, pop_eq] at hstep
    cases hvalue : machine.frame.headD .nil with
    | tuple items =>
      rw [hvalue] at hstep
      cases hstep
      exact ⟨items.reverse, rfl, by rintro _ ⟨⟩⟩
    | _ =>
      rw [hvalue] at hstep
      cases hstep
      exact ⟨[_], rfl, by rintro _ ⟨⟩⟩

theorem left_accept (position : Option Position) (args : List Value) (command : Command)
    (outcome : Outcome) (machine : Machine) :
    ∃ (latest : Option Command) (result : Outcome),
      left (machine.accept program position args command outcome) =
        { machine with command := latest, result := result } := by
  unfold accept
  dsimp only
  split
  · exact ⟨_, _, rfl⟩
  · split <;> exact ⟨_, _, rfl⟩

/-- A sentence changes nothing but the latest command and its result, whatever comes of it. -/
theorem left_evaluate (position : Option Position) (sentence : Value) (machine : Machine) :
    ∃ (latest : Option Command) (result : Outcome),
      left (machine.evaluate host program position sentence env).1 =
        { machine with command := latest, result := result } := by
  unfold evaluate
  rcases sentence.asValues with error | _ | ⟨name, args⟩
  · exact ⟨machine.command, _, rfl⟩
  · exact ⟨machine.command, machine.result, rfl⟩
  · dsimp only
    cases host.resolveCommand env name with
    | error error => exact ⟨machine.command, _, rfl⟩
    | ok command =>
      dsimp only
      rcases host.execute command (name :: args) env with ⟨crash | outcome, after⟩
      · exact ⟨machine.command, machine.result, rfl⟩
      · exact left_accept position (name :: args) command outcome machine

/-- Behind a sentence its tuple is gone, whatever came of it. -/
theorem left_sentence (host : Host σ) (program : Program) (position : Option Position)
    (machine : Machine) (env : σ) :
    ∃ (latest : Option Command) (result : Outcome),
      left (step host program ⟨.evaluateSentence, position⟩ machine env).1 =
        { machine with frame := machine.frame.drop 1, command := latest, result := result } := by
  simp only [step, pop_eq]
  exact left_evaluate position _ _

variable {layout later : Layout}

/-- A turn of the layout, and of the innermost frame. -/
theorem Layout.Holds.turn {taken : Nat} {left : Option Nat} (h : layout.Holds machine)
    (hturn : layout.turn taken left = some later) {values : List Value}
    (hleft : ∀ count, left = some count → values.length = count)
    (hframe : next.frame = values ++ machine.frame.drop taken) (houter : next.outer = machine.outer) :
    later.Holds next := by
  obtain ⟨extent, htake, rfl⟩ := Option.map_eq_some_iff.1 hturn
  refine ⟨?_, ?_, by rintro ⟨⟩⟩
  · rw [hframe, List.length_append, List.length_drop]
    exact (h.inner.take htake).leave hleft
  · rw [houter]
    exact h.outer

/-- A sentence leaves the frames as the layout says, whatever comes of it. -/
theorem Layout.Holds.sentence (host : Host σ) (program : Program) (env : σ)
    (h : layout.Holds machine) (hafter : layout.after ⟨.evaluateSentence, position⟩ = some later) :
    later.Holds
      (left (Machine.step host program ⟨.evaluateSentence, position⟩ machine env).1) := by
  obtain ⟨latest, result, hleft⟩ := left_sentence host program position machine env
  rw [hleft]
  simp only [after] at hafter
  split at hafter
  · have hnone : ∀ count, some 0 = some count → ([] : List Value).length = count := by
      rintro _ ⟨⟩
      rfl
    exact h.turn hafter hnone rfl rfl
  · cases hafter

/-- A step that goes on leaves the frames as the layout says. -/
theorem Layout.Holds.step {instruction : Instruction} (h : layout.Holds machine)
    (hafter : layout.after instruction = some later)
    (hstep : Machine.step host program instruction machine env = (.ok next, after)) :
    later.Holds next := by
  obtain ⟨op, position⟩ := instruction
  cases harity : Compile.arity op with
  | some pair =>
    obtain ⟨taken, left⟩ := pair
    rw [after_of_arity harity] at hafter
    obtain ⟨values, rfl, hleft⟩ := frame_of_step harity hstep
    exact h.turn hafter hleft rfl rfl
  | none =>
    cases op with
    | pushConstant =>
      simp only [Machine.step] at hstep
      split at hstep
      · cases hstep
      · rename_i value _
        cases hstep
        have hone : ∀ count, some 1 = some count → [value].length = count := by
          rintro _ ⟨⟩
          rfl
        exact h.turn hafter hone rfl rfl
    | openFrame =>
      cases hafter
      cases hstep
      exact ⟨Extent.admits_empty, .cons h.inner h.outer, by rintro ⟨⟩⟩
    | closeFrame =>
      obtain ⟨inner, _ | ⟨extent, extents⟩, tuple⟩ := layout
      · cases hafter
      · obtain ⟨frame, _ | ⟨below, outer⟩, pc, cc, command, result⟩ := machine
        · cases h.outer
        · cases hafter
          cases hstep
          obtain ⟨hinner, houter⟩ := List.forall₂_cons.1 h.outer
          exact ⟨hinner.plus 1, houter, fun _ => ⟨_, _, rfl⟩⟩
    | evaluateSentence =>
      have hsentence := h.sentence host program env hafter
      rwa [hstep] at hsentence
    | _ => cases harity

/-- A machine has what its next instruction takes, when a layout that holds goes on. -/
theorem Layout.Holds.sufficient {instruction : Instruction} (h : layout.Holds machine)
    (hafter : layout.after instruction = some later)
    (hconstant : instruction.op = .pushConstant → machine.cc < program.constants.size) :
    Sufficient program machine instruction.op := by
  obtain ⟨op, position⟩ := instruction
  cases harity : Compile.arity op with
  | some pair =>
    obtain ⟨taken, left⟩ := pair
    rw [after_of_arity harity] at hafter
    obtain ⟨extent, htake, -⟩ := Option.map_eq_some_iff.1 hafter
    have htaken := h.inner.taken_le htake
    cases op <;> first
      | (cases harity; done)
      | (cases harity; exact trivial)
      | (cases harity; exact List.ne_nil_of_length_pos htaken)
      | (cases harity; exact htaken)
  | none =>
    cases op with
    | pushConstant => exact hconstant rfl
    | openFrame => exact trivial
    | closeFrame =>
      intro hnil
      have houter := h.outer
      rw [hnil] at houter
      obtain ⟨inner, outer, tuple⟩ := layout
      cases houter
      cases hafter
    | evaluateSentence =>
      simp only [after] at hafter
      split at hafter
      · rename_i htuple
        exact h.tuple htuple
      · cases hafter
    | _ => cases harity

theorem Layout.holds_start : Layout.start.Holds Machine.start :=
  ⟨Extent.admits_empty, .nil, by rintro ⟨⟩⟩

end Steps

end Machine

end Parlance
