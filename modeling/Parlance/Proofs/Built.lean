import Parlance.Proofs.Arity

/-!
# The form of compiled steps

Whatever a tree is, its steps are built from single steps and from frames that close what they
open.  The steps of a script end by pushing nil or the latest result.

    Compile.script tree = .ok steps → ∃ body last, Built body ∧ steps = body ++ [last]  (script_ends)
-/

namespace Parlance

namespace Compile

/-- Instructions that neither open nor close a frame, and push no constant. -/
def isPlain : OpCode → Bool
  | .openFrame | .closeFrame | .pushConstant => false
  | _ => true

/-- Steps whose frames close what they open. -/
inductive Built : List Step → Prop
  | nil : Built []
  | op {code : OpCode} (position : Option Position) (h : isPlain code) : Built [.op code position]
  | constant (value : Value) (position : Option Position) : Built [.constant value position]
  | append {s t : List Step} (hs : Built s) (ht : Built t) : Built (s ++ t)
  | framed (position : Option Position) {s : List Step} (hs : Built s) : Built (framed position s)

namespace Built

variable {s t : List Step}

/-- One more instruction after some steps. -/
theorem then_op (hs : Built s) {code : OpCode} (position : Option Position) (h : isPlain code) :
    Built (s ++ [.op code position]) :=
  hs.append (.op position h)

theorem isPlain_of_arity {code : OpCode} {taken : Nat} {left : Option Nat}
    (h : arity code = some (taken, left)) : isPlain code := by
  cases code <;> first | rfl | cases h

theorem of_turns {taken : Nat} {left : Option Nat} (h : Turns s taken left) : Built s := by
  induction h with
  | nil => exact .nil
  | op position h => exact .op position (isPlain_of_arity h)
  | constant value position => exact .constant value position
  | append _ _ ihs iht | spread _ _ ihs iht => exact ihs.append iht
  | any _ ih | above _ _ ih => exact ih
  | framed position _ ih => exact ih.framed position
  | sentence position _ ih => exact (ih.framed position).then_op position rfl

theorem evaluated {tree : Sentence} (h : Compile.evaluated tree = .ok s) : Built s :=
  of_turns (Turns.evaluated tree s h)

end Built

theorem remaining_ends (tree : List Sentence) (position : Option Position) (steps : List Step)
    (h : remaining position tree = .ok steps) :
    ∃ body position, Built body ∧ steps = body ++ [.op .pushResult position] := by
  induction tree generalizing position steps with
  | nil =>
    rw [remaining] at h
    cases h
    exact ⟨[], position, .nil, rfl⟩
  | cons first rest ih =>
    rw [remaining] at h
    obtain ⟨s, hs, h⟩ := bind_eq_ok h
    obtain ⟨t, ht, h⟩ := bind_eq_ok h
    cases h
    obtain ⟨body, position, hbody, rfl⟩ := ih _ t ht
    exact ⟨s ++ body, position, (Built.evaluated hs).append hbody, (List.append_assoc ..).symm⟩

/-- The last step of a script pushes its result. -/
theorem script_ends {tree : Script} {steps : List Step} (h : script tree = .ok steps) :
    ∃ body code position, Built body ∧ (code = .pushNil ∨ code = .pushResult) ∧
      steps = body ++ [.op code position] := by
  obtain ⟨_ | ⟨first, rest⟩, position⟩ := tree
  · rw [script] at h
    cases h
    exact ⟨[], .pushNil, position, .nil, .inl rfl, rfl⟩
  · rw [script] at h
    obtain ⟨s, hs, h⟩ := bind_eq_ok h
    obtain ⟨t, ht, h⟩ := bind_eq_ok h
    cases h
    obtain ⟨body, position, hbody, rfl⟩ := remaining_ends rest _ t ht
    exact ⟨s ++ body, .pushResult, position, (Built.evaluated hs).append hbody, .inr rfl,
      (List.append_assoc ..).symm⟩

end Compile

end Parlance
