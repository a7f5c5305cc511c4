import Parlance.Program.Compile
import Parlance.Proofs.Results

/-!
# How many values compiled steps take and leave

`Turns steps taken left`: the steps take `taken` values from the innermost frame and leave `left`, or
any number when `left` is none.  They take no more, close the frames that they open, and run a command
only on a tuple that was just made.

    Compile.script tree = .ok steps → Turns steps 0 (some 1)                         (Turns.script)
    Compile.words items = .ok steps → Turns steps 0 none                              (Turns.words)
-/

namespace Parlance.Compile

/-- How many values an instruction takes, and how many it leaves.  Frames, constants and sentences
are not counted here. -/
def arity : OpCode → Option (Nat × Option Nat)
  | .pushNil | .pushResult => some (0, some 1)
  | .resolveValue | .setSource | .joinStrings => some (1, some 1)
  | .selectIndex | .selectKeys | .selectRules => some (2, some 1)
  | .expandValue => some (1, none)
  | .pushConstant | .openFrame | .closeFrame | .evaluateSentence => none

/-- Steps that turn some values into others. -/
inductive Turns : List Step → Nat → Option Nat → Prop
  | nil : Turns [] 0 (some 0)
  | op {code : OpCode} {taken : Nat} {left : Option Nat} (position : Option Position)
    (h : arity code = some (taken, left)) : Turns [.op code position] taken left
  | constant (value : Value) (position : Option Position) :
    Turns [.constant value position] 0 (some 1)
  | append {s t : List Step} {taken between : Nat} {left : Option Nat}
    (hs : Turns s taken (some between)) (ht : Turns t between left) : Turns (s ++ t) taken left
  /-- Nothing is known of what any number of values leaves, but the next steps need none of it. -/
  | spread {s t : List Step} {taken : Nat} {left : Option Nat} (hs : Turns s taken none)
    (ht : Turns t 0 left) : Turns (s ++ t) taken none
  | any {s : List Step} {taken left : Nat} (hs : Turns s taken (some left)) : Turns s taken none
  /-- Values below those taken stay. -/
  | above {s : List Step} {taken left : Nat} (kept : Nat) (hs : Turns s taken (some left)) :
    Turns s (kept + taken) (some (kept + left))
  | framed {s : List Step} {left : Option Nat} (position : Option Position) (hs : Turns s 0 left) :
    Turns (framed position s) 0 (some 1)
  | sentence {s : List Step} {left : Option Nat} (position : Option Position) (hs : Turns s 0 left) :
    Turns (Compile.framed position s ++ [.op .evaluateSentence position]) 0 (some 0)

namespace Turns

variable {s t : List Step}

/-- One more instruction that takes what was left. -/
theorem then_op {taken between : Nat} {left : Option Nat} (hs : Turns s taken (some between))
    {code : OpCode} (position : Option Position) (h : arity code = some (between, left)) :
    Turns (s ++ [.op code position]) taken left :=
  hs.append (.op position h)

/-- A frame whose values are joined. -/
theorem joined {left : Option Nat} (position : Option Position) (hs : Turns s 0 left) :
    Turns (Compile.framed position s ++ [.op .joinStrings position]) 0 (some 1) :=
  (hs.framed position).then_op position rfl

/-- A selector takes a value more than its own steps, and leaves what it selects. -/
theorem selecting {code : OpCode} (position : Option Position) (hs : Turns s 0 (some 1))
    (h : arity code = some (2, some 1)) : Turns (s ++ [.op code position]) 1 (some 1) :=
  (hs.above 1).then_op position h

theorem resolveTimes (levels : Nat) (position : Option Position) :
    Turns (List.replicate levels (.op .resolveValue position)) 1 (some 1) := by
  induction levels with
  | zero => exact Turns.nil.above 1
  | succ levels ih => exact (Turns.op position rfl).append ih

theorem finishSubstitution (expands : Bool) (levels : Nat) (position : Option Position) :
    Turns (finishSubstitution expands levels position) 1 none := by
  refine (resolveTimes (levels - 1) position).append ?_
  cases expands with
  | true => exact .op position rfl
  | false => exact (Turns.nil.above 1).any

/-- How many values stand before stems for what is left to do. -/
def held : Stems → Nat
  | .selectors _ => 1
  | _ => 0

/-- A morpheme that no substitution takes. -/
theorem between {place : Stems} {morpheme : Morpheme} {rest : List Morpheme} {steps : List Step}
    (hplace : Turns place.rest (held place) none)
    (hstem : ∀ s, Compile.stem morpheme = .ok s → Turns s 0 (some 1))
    (hrest : ∀ s place, Turns place.rest (held place) none → Compile.stems place rest = .ok s →
      Turns s (held place) none)
    (h : (match morpheme.kind with
      | .marker expands levels _ => do
        let others ← Compile.stems (.target expands levels morpheme.position) rest
        return place.rest ++ others
      | _ => do
        let first ← Compile.stem morpheme
        let others ← Compile.stems .next rest
        return place.rest ++ first ++ others) = .ok steps) : Turns steps (held place) none := by
  obtain ⟨kind, position⟩ := morpheme
  cases kind with
  | marker expands levels text =>
    obtain ⟨t, ht, h⟩ := bind_eq_ok h
    cases h
    exact hplace.spread (hrest t (.target expands levels position) Turns.nil.any ht)
  | _ =>
    obtain ⟨s, hs, h⟩ := bind_eq_ok h
    obtain ⟨t, ht, h⟩ := bind_eq_ok h
    cases h
    exact (hplace.spread (hstem s hs)).spread (hrest t .next Turns.nil.any ht)

mutual

theorem script : ∀ (tree : Script) (steps : List Step), Compile.script tree = .ok steps →
    Turns steps 0 (some 1)
  | ⟨[], position⟩, steps, h => by
    rw [Compile.script] at h
    cases h
    exact .op position rfl
  | ⟨first :: rest, _⟩, steps, h => by
    rw [Compile.script] at h
    obtain ⟨s, hs, h⟩ := bind_eq_ok h
    obtain ⟨t, ht, h⟩ := bind_eq_ok h
    cases h
    exact (evaluated first s hs).append (remaining rest _ t ht)

theorem remaining : ∀ (tree : List Sentence) (position : Option Position) (steps : List Step),
    Compile.remaining position tree = .ok steps → Turns steps 0 (some 1)
  | [], position, steps, h => by
    rw [Compile.remaining] at h
    cases h
    exact .op position rfl
  | first :: rest, position, steps, h => by
    rw [Compile.remaining] at h
    obtain ⟨s, hs, h⟩ := bind_eq_ok h
    obtain ⟨t, ht, h⟩ := bind_eq_ok h
    cases h
    exact (evaluated first s hs).append (remaining rest _ t ht)

theorem evaluated : ∀ (tree : Sentence) (steps : List Step),
    Compile.evaluated tree = .ok steps → Turns steps 0 (some 0)
  | ⟨items, position⟩, steps, h => by
    rw [Compile.evaluated] at h
    obtain ⟨s, hs, h⟩ := bind_eq_ok h
    cases h
    exact (words items s hs).sentence position

theorem allWords : ∀ (tree : List Sentence) (steps : List Step),
    Compile.allWords tree = .ok steps → Turns steps 0 none
  | [], steps, h => by
    rw [Compile.allWords] at h
    cases h
    exact Turns.nil.any
  | ⟨items, _⟩ :: rest, steps, h => by
    rw [Compile.allWords] at h
    obtain ⟨s, hs, h⟩ := bind_eq_ok h
    obtain ⟨t, ht, h⟩ := bind_eq_ok h
    cases h
    exact (words items s hs).spread (allWords rest t ht)

theorem rules : ∀ (tree : List Sentence) (steps : List Step),
    Compile.rules tree = .ok steps → Turns steps 0 none
  | [], steps, h => by
    rw [Compile.rules] at h
    cases h
    exact Turns.nil.any
  | ⟨items, position⟩ :: rest, steps, h => by
    rw [Compile.rules] at h
    obtain ⟨s, hs, h⟩ := bind_eq_ok h
    obtain ⟨t, ht, h⟩ := bind_eq_ok h
    cases h
    exact ((words items s hs).framed position).any.spread (rules rest t ht)

theorem words : ∀ (tree : List Word) (steps : List Step), Compile.words tree = .ok steps →
    Turns steps 0 none
  | [], steps, h => by
    rw [Compile.words] at h
    cases h
    exact Turns.nil.any
  | first :: rest, steps, h => by
    rw [Compile.words] at h
    obtain ⟨s, hs, h⟩ := bind_eq_ok h
    obtain ⟨t, ht, h⟩ := bind_eq_ok h
    cases h
    exact (word first s hs).spread (words rest t ht)

theorem word : ∀ (tree : Word) (steps : List Step), Compile.word tree = .ok steps →
    Turns steps 0 none
  | ⟨morphemes, position⟩, steps, h => by
    unfold Compile.word at h
    cases hshape : Morpheme.shape morphemes with
    | root =>
      simp only [hshape] at h
      cases morphemes with
      | nil => cases h
      | cons morpheme rest => exact (root morpheme steps h).any
    | compound =>
      simp only [hshape] at h
      obtain ⟨s, hs, h⟩ := bind_eq_ok h
      cases h
      exact ((stems morphemes s .next Turns.nil.any hs).joined position).any
    | substitution =>
      simp only [hshape] at h
      exact stems morphemes steps .next Turns.nil.any h
    | qualified =>
      simp only [hshape] at h
      cases morphemes with
      | nil => cases h
      | cons source rest =>
        obtain ⟨s, hs, h⟩ := bind_eq_ok h
        obtain ⟨t, ht, h⟩ := bind_eq_ok h
        cases h
        exact (qualifiedSource source s hs).append
          (stems rest t (.selectors []) (Turns.nil.above 1).any ht)
    | ignored =>
      simp only [hshape] at h
      cases h
      exact Turns.nil.any
    | invalid =>
      simp only [hshape] at h
      cases h

theorem root : ∀ (tree : Morpheme) (steps : List Step), Compile.root tree = .ok steps →
    Turns steps 0 (some 1)
  | ⟨.literal _, position⟩, steps, h
  | ⟨.hereString _ _, position⟩, steps, h
  | ⟨.taggedString _ _, position⟩, steps, h
  | ⟨.block _ _, position⟩, steps, h => by
    rw [Compile.root] at h
    cases h
    exact .constant _ position
  | ⟨.tuple body, position⟩, steps, h => by
    rw [Compile.root] at h
    exact tuple body position steps h
  | ⟨.expression body, position⟩, steps, h => by
    rw [Compile.root] at h
    exact script body steps h
  | ⟨.string parts, position⟩, steps, h => by
    rw [Compile.root] at h
    obtain ⟨s, hs, h⟩ := bind_eq_ok h
    cases h
    exact (stems parts s .next Turns.nil.any hs).joined position
  | ⟨.lineComment .., position⟩, steps, h
  | ⟨.blockComment .., position⟩, steps, h
  | ⟨.marker .., position⟩, steps, h => by
    simp [Compile.root] at h

theorem tuple : ∀ (tree : Script) (position : Option Position) (steps : List Step),
    Compile.tuple position tree = .ok steps → Turns steps 0 (some 1)
  | ⟨items, _⟩, position, steps, h => by
    rw [Compile.tuple] at h
    obtain ⟨s, hs, h⟩ := bind_eq_ok h
    cases h
    exact (allWords items s hs).framed position

theorem qualifiedSource : ∀ (tree : Morpheme) (steps : List Step),
    Compile.qualifiedSource tree = .ok steps → Turns steps 0 (some 1)
  | ⟨.literal _, position⟩, steps, h
  | ⟨.block _ _, position⟩, steps, h => by
    rw [Compile.qualifiedSource] at h
    cases h
    exact (Turns.constant _ position).then_op position rfl
  | ⟨.tuple body, position⟩, steps, h => by
    rw [Compile.qualifiedSource] at h
    obtain ⟨s, hs, h⟩ := bind_eq_ok h
    cases h
    exact (tuple body position s hs).then_op position rfl
  | ⟨.expression .., position⟩, steps, h
  | ⟨.string .., position⟩, steps, h
  | ⟨.hereString .., position⟩, steps, h
  | ⟨.taggedString .., position⟩, steps, h
  | ⟨.lineComment .., position⟩, steps, h
  | ⟨.blockComment .., position⟩, steps, h
  | ⟨.marker .., position⟩, steps, h => by
    simp [Compile.qualifiedSource] at h

theorem target : ∀ (tree : Morpheme) (marker : Option Position) (steps : List Step),
    Compile.target marker tree = .ok steps → Turns steps 0 (some 1)
  | ⟨.literal _, position⟩, marker, steps, h
  | ⟨.block _ _, position⟩, marker, steps, h => by
    rw [Compile.target] at h
    cases h
    exact (Turns.constant _ position).then_op marker rfl
  | ⟨.tuple body, position⟩, marker, steps, h => by
    rw [Compile.target] at h
    obtain ⟨s, hs, h⟩ := bind_eq_ok h
    cases h
    exact (tuple body position s hs).then_op marker rfl
  | ⟨.expression body, position⟩, marker, steps, h => by
    rw [Compile.target] at h
    exact script body steps h
  | ⟨.string .., position⟩, marker, steps, h
  | ⟨.hereString .., position⟩, marker, steps, h
  | ⟨.taggedString .., position⟩, marker, steps, h
  | ⟨.lineComment .., position⟩, marker, steps, h
  | ⟨.blockComment .., position⟩, marker, steps, h
  | ⟨.marker .., position⟩, marker, steps, h => by
    simp [Compile.target] at h

theorem selector : ∀ (tree : Morpheme) (steps : List Step), Compile.selector tree = .ok steps →
    Turns steps 1 (some 1)
  | ⟨.tuple body, position⟩, steps, h => by
    rw [Compile.selector] at h
    obtain ⟨s, hs, h⟩ := bind_eq_ok h
    cases h
    exact (tuple body position s hs).selecting position rfl
  | ⟨.block ⟨items, _⟩ _, position⟩, steps, h => by
    rw [Compile.selector] at h
    obtain ⟨s, hs, h⟩ := bind_eq_ok h
    cases h
    exact ((rules items s hs).framed position).selecting position rfl
  | ⟨.expression body, position⟩, steps, h => by
    rw [Compile.selector] at h
    obtain ⟨s, hs, h⟩ := bind_eq_ok h
    cases h
    exact (script body s hs).selecting position rfl
  | ⟨.literal .., position⟩, steps, h
  | ⟨.string .., position⟩, steps, h
  | ⟨.hereString .., position⟩, steps, h
  | ⟨.taggedString .., position⟩, steps, h
  | ⟨.lineComment .., position⟩, steps, h
  | ⟨.blockComment .., position⟩, steps, h
  | ⟨.marker .., position⟩, steps, h => by
    simp [Compile.selector] at h

theorem stem : ∀ (tree : Morpheme) (steps : List Step), Compile.stem tree = .ok steps →
    Turns steps 0 (some 1)
  | ⟨.literal text, position⟩, steps, h => by
    rw [Compile.stem] at h
    cases h
    exact .constant _ position
  | ⟨.expression body, position⟩, steps, h => by
    rw [Compile.stem] at h
    exact script body steps h
  | ⟨.tuple .., position⟩, steps, h
  | ⟨.block .., position⟩, steps, h
  | ⟨.string .., position⟩, steps, h
  | ⟨.hereString .., position⟩, steps, h
  | ⟨.taggedString .., position⟩, steps, h
  | ⟨.lineComment .., position⟩, steps, h
  | ⟨.blockComment .., position⟩, steps, h
  | ⟨.marker .., position⟩, steps, h => by
    simp [Compile.stem] at h

theorem stems : ∀ (tree : List Morpheme) (steps : List Step) (place : Stems),
    Turns place.rest (held place) none → Compile.stems place tree = .ok steps →
    Turns steps (held place) none
  | [], steps, .next, hplace, h
  | [], steps, .selectors _, hplace, h => by
    rw [Compile.stems] at h
    · cases h
      exact hplace
    · rintro _ _ _ ⟨⟩
  | [], steps, .target .., hplace, h => by
    rw [Compile.stems] at h
    cases h
  | morpheme :: rest, steps, .target .., hplace, h => by
    rw [Compile.stems] at h
    obtain ⟨s, hs, h⟩ := bind_eq_ok h
    obtain ⟨t, ht, h⟩ := bind_eq_ok h
    cases h
    exact (target morpheme _ s hs).append (stems rest t (.selectors _) (finishSubstitution ..) ht)
  | morpheme :: rest, steps, .next, hplace, h => by
    rw [Compile.stems.eq_5 _ _ _ (by rintro _ _ _ ⟨⟩) (by rintro _ ⟨⟩)] at h
    exact between hplace (stem morpheme) (stems rest) h
  | morpheme :: rest, steps, .selectors left, hplace, h => by
    by_cases hselector : morpheme.kind.isSelector
    · rw [Compile.stems.eq_4 _ _ _ hselector] at h
      obtain ⟨s, hs, h⟩ := bind_eq_ok h
      obtain ⟨t, ht, h⟩ := bind_eq_ok h
      cases h
      exact (selector morpheme s hs).append (stems rest t _ hplace ht)
    · rw [Compile.stems.eq_5 _ _ _ (by rintro _ _ _ ⟨⟩) (by rintro _ _ h; exact hselector h)] at h
      exact between hplace (stem morpheme) (stems rest) h

end

end Turns

end Parlance.Compile
