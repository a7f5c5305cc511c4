import Mathlib.Tactic.Tauto
import Parlance.Proofs.Inlined
import Parlance.Proofs.Safety

/-!
# Sentences in compiled programs

A program runs the sentences of the script that it is compiled from and those of the expressions in
place, and no others.  The instruction that runs a sentence has its position and ends its code.

    origin.compile source = .ok program →
      program.code[pc]? = some ⟨.evaluateSentence, position⟩ →
        a sentence of origin.sentencesRun has that position, and its code ends there
                                                                         (Program.Origin.exists_sentence)
-/

namespace Parlance

namespace Compile

/-- Every sentence that the steps run is one of some sentences, and its own steps end where it is run. -/
def Runs (sentences : List Sentence) (steps : List Step) : Prop :=
  ∀ before position after, steps = before ++ .op .evaluateSentence position :: after →
    ∃ sentence ∈ sentences, ∃ own, evaluated sentence = .ok own ∧
      own <:+ before ++ [.op .evaluateSentence position]

/-- The sentences of some scripts. -/
def sentencesOf (bodies : List Script) : List Sentence := bodies.flatMap Script.sentences

namespace Runs

variable {first second : List Sentence} {bodies more : List Script} {s t : List Step}

theorem nil : Runs [] [] := by
  intro before position after h
  simp at h

theorem single (step : Step) (h : step.instruction.op ≠ .evaluateSentence) : Runs [] [step] := by
  rintro (_ | ⟨first, before⟩) position after heq
  · obtain ⟨rfl, -⟩ := List.cons.inj heq
    exact absurd rfl h
  · simp at heq

theorem mono (h : Runs first s) (hsub : first ⊆ second) : Runs second s := by
  intro before position after heq
  obtain ⟨sentence, hmem, hown⟩ := h before position after heq
  exact ⟨sentence, hsub hmem, hown⟩

theorem append (hs : Runs first s) (ht : Runs second t) : Runs (first ++ second) (s ++ t) := by
  intro before position after heq
  -- The sentence is run in `t`, in the second case by its first step, or in `s`.
  rcases List.append_eq_append_iff.1 heq with
    ⟨between, rfl, hbehind⟩ | ⟨_ | ⟨step, rest⟩, hbefore, hrest⟩
  · obtain ⟨sentence, hmem, own, hown, hsuffix⟩ := ht between position after hbehind
    refine ⟨sentence, List.mem_append_right _ hmem, own, hown, ?_⟩
    rw [List.append_assoc]
    exact hsuffix.trans (List.suffix_append ..)
  · obtain ⟨sentence, hmem, own, hown, hsuffix⟩ := ht [] position after hrest.symm
    exact ⟨sentence, List.mem_append_right _ hmem, own, hown, hsuffix.trans (List.suffix_append ..)⟩
  · obtain ⟨rfl, -⟩ := List.cons.inj hrest
    obtain ⟨sentence, hmem, hown⟩ := hs before position rest hbefore
    exact ⟨sentence, List.mem_append_left _ hmem, hown⟩

/-- Steps of two lists of scripts, one after the other. -/
theorem both (hs : Runs (sentencesOf bodies) s) (ht : Runs (sentencesOf more) t) :
    Runs (sentencesOf (bodies ++ more)) (s ++ t) := by
  rw [sentencesOf, List.flatMap_append]
  exact hs.append ht

theorem then_op (hs : Runs first s) {code : OpCode} (position : Option Position)
    (h : code ≠ .evaluateSentence) : Runs first (s ++ [.op code position]) := by
  have happend := hs.append (single (.op code position) h)
  rwa [List.append_nil] at happend

theorem framed (hs : Runs first s) (position : Option Position) :
    Runs first (framed position s) :=
  ((single (.op .openFrame position) nofun).append hs).then_op position nofun

/-- A sentence is run behind its words. -/
theorem sentence {tree : Sentence} {position : Option Position} (hs : Runs first s)
    (h : Compile.evaluated tree = .ok (s ++ [.op .evaluateSentence position])) :
    Runs (tree :: first) (s ++ [.op .evaluateSentence position]) := by
  intro before place after heq
  -- Either this very sentence is run, which is the last step, or one before.
  rcases List.eq_nil_or_concat after with rfl | ⟨inner, last, rfl⟩
  · exact ⟨tree, List.mem_cons_self, _, h, heq ▸ List.suffix_rfl⟩
  · rw [List.concat_eq_append, ← List.cons_append, ← List.append_assoc] at heq
    obtain ⟨hinner, -⟩ := List.append_inj' heq rfl
    exact hs.mono (List.subset_cons_self ..) before place inner hinner

/-- What is left to do for a substitution runs no sentence. -/
theorem finishSubstitution (expands : Bool) (levels : Nat) (position : Option Position) :
    Runs [] (finishSubstitution expands levels position) := by
  have hresolve : Runs [] (List.replicate (levels - 1) (Step.op .resolveValue position)) := by
    induction levels - 1 with
    | zero => exact nil
    | succ levels ih => exact (single (.op .resolveValue position) nofun).append ih
  refine hresolve.append ?_
  cases expands with
  | true => exact single (.op .expandValue position) nofun
  | false => exact nil

/-- Behind stems: a morpheme that is no selector. -/
theorem between {place : Stems} {morpheme : Morpheme} {rest : List Morpheme} {selected : Bool}
    {steps : List Step} (hplace : Runs [] place.rest)
    (hstem : ∀ s, Compile.stem morpheme = .ok s → Runs (sentencesOf (morpheme.kind.inlined selected)) s)
    (hrest : ∀ s place, Inlines.Fits place morpheme.kind.isSelected → Runs [] place.rest →
      Compile.stems place rest = .ok s →
      Runs (sentencesOf (Morpheme.allInlined morpheme.kind.isSelected rest)) s)
    (h : (match morpheme.kind with
      | .marker expands levels _ => do
        let others ← Compile.stems (.target expands levels morpheme.position) rest
        return place.rest ++ others
      | _ => do
        let first ← Compile.stem morpheme
        let others ← Compile.stems .next rest
        return place.rest ++ first ++ others) = .ok steps) :
    Runs (sentencesOf (Morpheme.allInlined selected (morpheme :: rest))) steps := by
  rw [Morpheme.allInlined_cons]
  obtain ⟨kind, position⟩ := morpheme
  cases kind with
  | marker expands levels text =>
    obtain ⟨t, ht, h⟩ := bind_eq_ok h
    cases h
    exact hplace.append (hrest t (.target expands levels position) rfl nil ht)
  | _ =>
    obtain ⟨s, hs, h⟩ := bind_eq_ok h
    obtain ⟨t, ht, h⟩ := bind_eq_ok h
    cases h
    exact (hplace.append (hstem s hs)).both (hrest t .next trivial nil ht)

/-- A sentence and those behind it. -/
theorem following {tree : Sentence} {rest : List Sentence}
    (hs : Runs (tree :: sentencesOf (Word.allInlined tree.words)) s)
    (ht : Runs (rest ++ sentencesOf (Sentence.allInlined rest)) t) :
    Runs (tree :: rest ++ sentencesOf (Sentence.allInlined (tree :: rest))) (s ++ t) := by
  refine (hs.append ht).mono fun sentence hmem => ?_
  obtain ⟨items, position⟩ := tree
  rw [Sentence.allInlined]
  simp only [sentencesOf, List.flatMap_append, List.mem_append, List.mem_cons] at hmem ⊢
  tauto

mutual

/-- A script runs its own sentences and those of the expressions in place. -/
theorem script : ∀ (tree : Script) (steps : List Step), Compile.script tree = .ok steps →
    Runs (sentencesOf (tree :: tree.inlined)) steps
  | ⟨[], position⟩, steps, h => by
    rw [Compile.script] at h
    cases h
    exact single (.op .pushNil position) nofun
  | ⟨first :: rest, _⟩, steps, h => by
    rw [Compile.script] at h
    obtain ⟨s, hs, h⟩ := bind_eq_ok h
    obtain ⟨t, ht, h⟩ := bind_eq_ok h
    cases h
    exact following (evaluated first s hs) (remaining rest _ t ht)

theorem remaining : ∀ (tree : List Sentence) (position : Option Position) (steps : List Step),
    Compile.remaining position tree = .ok steps →
    Runs (tree ++ sentencesOf (Sentence.allInlined tree)) steps
  | [], position, steps, h => by
    rw [Compile.remaining] at h
    cases h
    exact single (.op .pushResult position) nofun
  | first :: rest, position, steps, h => by
    rw [Compile.remaining] at h
    obtain ⟨s, hs, h⟩ := bind_eq_ok h
    obtain ⟨t, ht, h⟩ := bind_eq_ok h
    cases h
    exact following (evaluated first s hs) (remaining rest _ t ht)

theorem evaluated : ∀ (tree : Sentence) (steps : List Step), Compile.evaluated tree = .ok steps →
    Runs (tree :: sentencesOf (Word.allInlined tree.words)) steps
  | ⟨items, position⟩, steps, h => by
    have hown := h
    rw [Compile.evaluated] at h
    obtain ⟨s, hs, h⟩ := bind_eq_ok h
    cases h
    exact ((words items s hs).framed position).sentence hown

theorem allWords : ∀ (tree : List Sentence) (steps : List Step),
    Compile.allWords tree = .ok steps → Runs (sentencesOf (Sentence.allInlined tree)) steps
  | [], steps, h => by
    rw [Compile.allWords] at h
    cases h
    exact nil
  | ⟨items, _⟩ :: rest, steps, h => by
    rw [Compile.allWords] at h
    obtain ⟨s, hs, h⟩ := bind_eq_ok h
    obtain ⟨t, ht, h⟩ := bind_eq_ok h
    cases h
    rw [Sentence.allInlined]
    exact (words items s hs).both (allWords rest t ht)

theorem rules : ∀ (tree : List Sentence) (steps : List Step),
    Compile.rules tree = .ok steps → Runs (sentencesOf (Sentence.allInlined tree)) steps
  | [], steps, h => by
    rw [Compile.rules] at h
    cases h
    exact nil
  | ⟨items, position⟩ :: rest, steps, h => by
    rw [Compile.rules] at h
    obtain ⟨s, hs, h⟩ := bind_eq_ok h
    obtain ⟨t, ht, h⟩ := bind_eq_ok h
    cases h
    rw [Sentence.allInlined]
    exact ((words items s hs).framed position).both (rules rest t ht)

theorem words : ∀ (tree : List Word) (steps : List Step), Compile.words tree = .ok steps →
    Runs (sentencesOf (Word.allInlined tree)) steps
  | [], steps, h => by
    rw [Compile.words] at h
    cases h
    exact nil
  | first :: rest, steps, h => by
    rw [Compile.words] at h
    obtain ⟨s, hs, h⟩ := bind_eq_ok h
    obtain ⟨t, ht, h⟩ := bind_eq_ok h
    cases h
    rw [Word.allInlined_cons]
    exact (word first s hs).both (words rest t ht)

theorem word : ∀ (tree : Word) (steps : List Step), Compile.word tree = .ok steps →
    Runs (sentencesOf (Morpheme.allInlined false tree.morphemes)) steps
  | ⟨morphemes, position⟩, steps, h => by
    unfold Compile.word at h
    show Runs (sentencesOf (Morpheme.allInlined false morphemes)) steps
    cases hshape : Morpheme.shape morphemes with
    | root =>
      simp only [hshape] at h
      cases morphemes with
      | nil => cases h
      | cons morpheme rest =>
        obtain ⟨_, hsingle, -⟩ := Morpheme.eq_single_of_root hshape
        obtain ⟨-, hrest⟩ := List.cons.inj hsingle
        rw [hrest, Morpheme.allInlined_cons, Morpheme.allInlined, List.append_nil]
        exact root morpheme steps h
    | compound =>
      simp only [hshape] at h
      obtain ⟨s, hs, h⟩ := bind_eq_ok h
      cases h
      exact ((stems morphemes s .next false trivial nil hs).framed position).then_op position nofun
    | substitution =>
      simp only [hshape] at h
      exact stems morphemes steps .next false trivial nil h
    | qualified =>
      simp only [hshape] at h
      cases morphemes with
      | nil => cases h
      | cons source rest =>
        obtain ⟨s, hs, h⟩ := bind_eq_ok h
        obtain ⟨t, ht, h⟩ := bind_eq_ok h
        cases h
        rw [Morpheme.allInlined_cons]
        have hselected := Morpheme.Kind.isSelected_of_isSubstitutable
          (Morpheme.source_of_qualified hshape).1
        exact (qualifiedSource source s hs).both (stems rest t (.selectors []) _ hselected nil ht)
    | ignored =>
      simp only [hshape] at h
      cases h
      rw [Morpheme.allInlined_of_ignored hshape]
      exact nil
    | invalid =>
      simp only [hshape] at h
      cases h

theorem root : ∀ (tree : Morpheme) (steps : List Step), Compile.root tree = .ok steps →
    Runs (sentencesOf (tree.kind.inlined false)) steps
  | ⟨.literal _, position⟩, steps, h
  | ⟨.hereString _ _, position⟩, steps, h
  | ⟨.taggedString _ _, position⟩, steps, h
  | ⟨.block _ _, position⟩, steps, h => by
    rw [Compile.root] at h
    cases h
    exact single (.constant _ position) nofun
  | ⟨.tuple body, position⟩, steps, h => by
    rw [Compile.root] at h
    exact tuple body position steps h
  | ⟨.expression body, position⟩, steps, h => by
    rw [Compile.root] at h
    exact script body steps h
  | ⟨.string parts, position⟩, steps, h => by
    rw [Compile.root] at h
    obtain ⟨s, hs, h⟩ := bind_eq_ok h
    cases h
    exact ((stems parts s .next false trivial nil hs).framed position).then_op position nofun
  | ⟨.lineComment .., position⟩, steps, h
  | ⟨.blockComment .., position⟩, steps, h
  | ⟨.marker .., position⟩, steps, h => by
    simp [Compile.root] at h

theorem tuple : ∀ (tree : Script) (position : Option Position) (steps : List Step),
    Compile.tuple position tree = .ok steps → Runs (sentencesOf tree.inlined) steps
  | ⟨items, _⟩, position, steps, h => by
    rw [Compile.tuple] at h
    obtain ⟨s, hs, h⟩ := bind_eq_ok h
    cases h
    rw [Script.inlined]
    exact (allWords items s hs).framed position

theorem qualifiedSource : ∀ (tree : Morpheme) (steps : List Step),
    Compile.qualifiedSource tree = .ok steps → Runs (sentencesOf (tree.kind.inlined false)) steps
  | ⟨.literal _, position⟩, steps, h
  | ⟨.block _ _, position⟩, steps, h => by
    rw [Compile.qualifiedSource] at h
    cases h
    exact (single (.constant _ position) nofun).then_op position nofun
  | ⟨.tuple body, position⟩, steps, h => by
    rw [Compile.qualifiedSource] at h
    obtain ⟨s, hs, h⟩ := bind_eq_ok h
    cases h
    exact (tuple body position s hs).then_op position nofun
  | ⟨.expression .., position⟩, steps, h
  | ⟨.string .., position⟩, steps, h
  | ⟨.hereString .., position⟩, steps, h
  | ⟨.taggedString .., position⟩, steps, h
  | ⟨.lineComment .., position⟩, steps, h
  | ⟨.blockComment .., position⟩, steps, h
  | ⟨.marker .., position⟩, steps, h => by
    simp [Compile.qualifiedSource] at h

theorem target : ∀ (tree : Morpheme) (marker : Option Position) (steps : List Step),
    Compile.target marker tree = .ok steps → Runs (sentencesOf (tree.kind.inlined false)) steps
  | ⟨.literal _, position⟩, marker, steps, h
  | ⟨.block _ _, position⟩, marker, steps, h => by
    rw [Compile.target] at h
    cases h
    exact (single (.constant _ position) nofun).then_op marker nofun
  | ⟨.tuple body, position⟩, marker, steps, h => by
    rw [Compile.target] at h
    obtain ⟨s, hs, h⟩ := bind_eq_ok h
    cases h
    exact (tuple body position s hs).then_op marker nofun
  | ⟨.expression body, position⟩, marker, steps, h => by
    rw [Compile.target] at h
    exact script body steps h
  | ⟨.string .., position⟩, marker, steps, h
  | ⟨.hereString .., position⟩, marker, steps, h
  | ⟨.taggedString .., position⟩, marker, steps, h
  | ⟨.lineComment .., position⟩, marker, steps, h
  | ⟨.blockComment .., position⟩, marker, steps, h
  | ⟨.marker .., position⟩, marker, steps, h => by
    simp [Compile.target] at h

theorem selector : ∀ (tree : Morpheme) (steps : List Step), Compile.selector tree = .ok steps →
    Runs (sentencesOf (tree.kind.inlined true)) steps
  | ⟨.tuple body, position⟩, steps, h => by
    rw [Compile.selector] at h
    obtain ⟨s, hs, h⟩ := bind_eq_ok h
    cases h
    exact (tuple body position s hs).then_op position nofun
  | ⟨.block ⟨items, _⟩ _, position⟩, steps, h => by
    rw [Compile.selector] at h
    obtain ⟨s, hs, h⟩ := bind_eq_ok h
    cases h
    exact ((rules items s hs).framed position).then_op position nofun
  | ⟨.expression body, position⟩, steps, h => by
    rw [Compile.selector] at h
    obtain ⟨s, hs, h⟩ := bind_eq_ok h
    cases h
    exact (script body s hs).then_op position nofun
  | ⟨.literal .., position⟩, steps, h
  | ⟨.string .., position⟩, steps, h
  | ⟨.hereString .., position⟩, steps, h
  | ⟨.taggedString .., position⟩, steps, h
  | ⟨.lineComment .., position⟩, steps, h
  | ⟨.blockComment .., position⟩, steps, h
  | ⟨.marker .., position⟩, steps, h => by
    simp [Compile.selector] at h

theorem stem : ∀ (tree : Morpheme) (selected : Bool) (steps : List Step),
    Compile.stem tree = .ok steps → Runs (sentencesOf (tree.kind.inlined selected)) steps
  | ⟨.literal text, position⟩, selected, steps, h => by
    rw [Compile.stem] at h
    cases h
    exact single (.constant _ position) nofun
  | ⟨.expression body, position⟩, selected, steps, h => by
    rw [Compile.stem] at h
    exact script body steps h
  | ⟨.tuple .., position⟩, selected, steps, h
  | ⟨.block .., position⟩, selected, steps, h
  | ⟨.string .., position⟩, selected, steps, h
  | ⟨.hereString .., position⟩, selected, steps, h
  | ⟨.taggedString .., position⟩, selected, steps, h
  | ⟨.lineComment .., position⟩, selected, steps, h
  | ⟨.blockComment .., position⟩, selected, steps, h
  | ⟨.marker .., position⟩, selected, steps, h => by
    simp [Compile.stem] at h

theorem stems : ∀ (tree : List Morpheme) (steps : List Step) (place : Stems) (selected : Bool),
    Inlines.Fits place selected → Runs [] place.rest → Compile.stems place tree = .ok steps →
    Runs (sentencesOf (Morpheme.allInlined selected tree)) steps
  | [], steps, .next, selected, hfits, hplace, h
  | [], steps, .selectors _, selected, hfits, hplace, h => by
    rw [Compile.stems] at h
    · cases h
      exact hplace
    · rintro _ _ _ ⟨⟩
  | [], steps, .target .., selected, hfits, hplace, h => by
    rw [Compile.stems] at h
    cases h
  | morpheme :: rest, steps, .target .., selected, hfits, hplace, h => by
    rw [Compile.stems] at h
    obtain ⟨s, hs, h⟩ := bind_eq_ok h
    obtain ⟨t, ht, h⟩ := bind_eq_ok h
    cases h
    cases hfits
    rw [Morpheme.allInlined_cons]
    exact (target morpheme _ s hs).both
      (stems rest t (.selectors _) _ (Inlines.isSelected_of_target hs)
        (finishSubstitution _ _ _) ht)
  | morpheme :: rest, steps, .next, selected, hfits, hplace, h => by
    rw [Compile.stems.eq_5 _ _ _ (by rintro _ _ _ ⟨⟩) (by rintro _ ⟨⟩)] at h
    exact between hplace (stem morpheme selected) (stems rest · · _) h
  | morpheme :: rest, steps, .selectors left, selected, hfits, hplace, h => by
    by_cases hselector : morpheme.kind.isSelector
    · rw [Compile.stems.eq_4 _ _ _ hselector] at h
      obtain ⟨s, hs, h⟩ := bind_eq_ok h
      obtain ⟨t, ht, h⟩ := bind_eq_ok h
      cases h
      cases hfits
      rw [Morpheme.allInlined_cons]
      have hselected := Morpheme.Kind.isSelected_of_isSelector hselector
      exact (selector morpheme s hs).both (stems rest t (.selectors left) _ hselected hplace ht)
    · rw [Compile.stems.eq_5 _ _ _ (by rintro _ _ _ ⟨⟩) (by rintro _ _ h; exact hselector h)] at h
      exact between hplace (stem morpheme selected) (stems rest · · _) h

end

end Runs

end Compile

/-- The code of a sentence ends at an instruction of a program. -/
def Sentence.EndsAt (program : Program) (pc : Nat) (sentence : Sentence) : Prop :=
  ∃ own, Compile.evaluated sentence = .ok own ∧
    own.map Compile.Step.instruction <:+ program.code.take (pc + 1)

namespace Program.Origin

open Compile (Runs sentencesOf)

/-- The sentences that a program runs: those of a script, and those of the expressions in place.  The
words of a tuple are not run. -/
def sentencesRun : Origin → List Sentence
  | .script tree => sentencesOf (tree :: tree.inlined)
  | .sentence tree => tree :: sentencesOf (Word.allInlined tree.words)
  | .sentences trees => sentencesOf (Sentence.allInlined trees)
  | .word tree => sentencesOf (Morpheme.allInlined false tree.morphemes)
  | .constant _ => []

theorem exists_runs {origin : Origin} {source : Option Source} {program : Program}
    (h : origin.compile source = .ok program) :
    ∃ steps, Runs origin.sentencesRun steps ∧ program = Compile.assemble source steps := by
  cases origin with
  | script tree =>
    obtain ⟨steps, hs, rfl⟩ := map_eq_ok h
    exact ⟨steps, Runs.script tree steps hs, rfl⟩
  | sentence tree =>
    obtain ⟨steps, hs, rfl⟩ := map_eq_ok h
    refine ⟨_, ?_, rfl⟩
    exact (Runs.evaluated tree steps hs).then_op tree.position nofun
  | sentences trees =>
    obtain ⟨steps, hs, rfl⟩ := map_eq_ok h
    exact ⟨_, (Runs.allWords trees steps hs).framed _, rfl⟩
  | word tree =>
    obtain ⟨steps, hs, rfl⟩ := map_eq_ok h
    exact ⟨steps, Runs.word tree steps hs, rfl⟩
  | constant value =>
    cases h
    exact ⟨_, Runs.single (.constant value none) nofun, rfl⟩

/-- An instruction that runs a sentence is the last one of a sentence at its position. -/
theorem exists_sentence {origin : Origin} {source : Option Source} {program : Program} {pc : Nat}
    {position : Option Position} (h : origin.compile source = .ok program)
    (hat : program.code[pc]? = some ⟨.evaluateSentence, position⟩) :
    ∃ sentence ∈ origin.sentencesRun, sentence.EndsAt program pc ∧ sentence.position = position := by
  obtain ⟨steps, hruns, rfl⟩ := exists_runs h
  simp only [Compile.assemble, List.getElem?_map, Option.map_eq_some_iff] at hat
  obtain ⟨step, hstep, hinstruction⟩ := hat
  have hop : step = .op .evaluateSentence position := by
    cases step with
    | op code place =>
      cases hinstruction
      rfl
    | constant value place => cases hinstruction
  have htake : steps.take (pc + 1) = steps.take pc ++ [.op .evaluateSentence position] := by
    rw [List.take_add_one, hstep, hop]
    rfl
  have hsplit : steps = steps.take pc ++ .op .evaluateSentence position :: steps.drop (pc + 1) := by
    rw [List.append_cons, ← htake, List.take_append_drop]
  obtain ⟨sentence, hmem, own, hown, hsuffix⟩ := hruns _ position _ hsplit
  refine ⟨sentence, hmem, ⟨own, hown, ?_⟩, ?_⟩
  · rw [Compile.assemble, ← List.map_take, htake]
    exact hsuffix.map _
  · obtain ⟨before, hbefore⟩ := hsuffix
    obtain ⟨items, place⟩ := sentence
    rw [Compile.evaluated] at hown
    obtain ⟨inner, -, hinner⟩ := bind_eq_ok hown
    cases hinner
    rw [← List.append_assoc] at hbefore
    cases (List.append_inj' hbefore rfl).2
    rfl

end Program.Origin

end Parlance
