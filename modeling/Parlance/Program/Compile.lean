import Parlance.Program
import Parlance.Script.Shape

/-!
# Compiling scripts

| construct                     | instructions                                                     |
|-------------------------------|------------------------------------------------------------------|
| script                        | its sentences, then `pushResult`; `pushNil` without sentences    |
| sentence                      | `openFrame`, words, `closeFrame`, `evaluateSentence`             |
| literal, raw string, block    | `pushConstant`                                                   |
| tuple                         | `openFrame`, words, `closeFrame`                                 |
| expression                    | its script, in place                                             |
| quoted string, compound word  | `openFrame`, stems, `closeFrame`, `joinStrings`                  |
| qualified word                | source, `setSource`, selectors                                   |
| substitution                  | target, `resolveValue`, selectors, one more `resolveValue` for   |
|                               | each further level, `expandValue` if the marker expands          |
| index, keys, rules            | the value, then `selectIndex`, `selectKeys` or `selectRules`     |

An expression that a marker replaces is not resolved: `$[cmd]` is the result of `cmd`.

Each function gives the instructions together with their constants; `assemble` parts them.
-/

namespace Parlance

/-- A tree that cannot be compiled. -/
inductive CompileError where
  | invalidWord (position : Option Position)
  | unexpectedMorpheme (kind : String) (position : Option Position)
  deriving DecidableEq, Inhabited

namespace CompileError

/-- The text shown to the user. -/
def message : CompileError → String
  | .invalidWord _ => "invalid word structure"
  | .unexpectedMorpheme kind _ => "unexpected " ++ kind ++ " morpheme"

/-- Where the tree is at fault. -/
def position : CompileError → Option Position
  | .invalidWord position => position
  | .unexpectedMorpheme _ position => position

end CompileError

namespace Compile

/-- An instruction with its constant, if it pushes one. -/
inductive Step where
  | op (code : OpCode) (position : Option Position)
  | constant (value : Value) (position : Option Position)

/-- The instruction of a step. -/
def Step.instruction : Step → Instruction
  | .op code position => ⟨code, position⟩
  | .constant _ position => ⟨.pushConstant, position⟩

/-- The constant of a step. -/
def Step.constant? : Step → Option Value
  | .op .. => none
  | .constant value _ => some value

/-- The steps between the opening and the closing of a frame. -/
def framed (position : Option Position) (steps : List Step) : List Step :=
  .op .openFrame position :: steps ++ [.op .closeFrame position]

/-- What is left to do for a substitution after its selectors. -/
def finishSubstitution (expands : Bool) (levels : Nat) (position : Option Position) : List Step :=
  List.replicate (levels - 1) (.op .resolveValue position) ++
    if expands then [.op .expandValue position] else []

/-- Where the stems of a word or string stand. -/
inductive Stems where
  /-- Between stems. -/
  | next
  /-- After a marker with this expansion, these levels and this position. -/
  | target (expands : Bool) (levels : Nat) (position : Option Position)
  /-- Among selectors, with what is left to do after them. -/
  | selectors (rest : List Step)

/-- What is left to do when no selector follows. -/
def Stems.rest : Stems → List Step
  | .selectors rest => rest
  | _ => []

mutual

/-- A script: the result of its last sentence, or nil if it has none. -/
def script : Script → Except CompileError (List Step)
  | ⟨[], position⟩ => .ok [.op .pushNil position]
  | ⟨sentence :: rest, _⟩ => do
    let first ← evaluated sentence
    let others ← remaining sentence.position rest
    return first ++ others

/-- The sentences after one at `position`, then the result of the last. -/
def remaining (position : Option Position) : List Sentence → Except CompileError (List Step)
  | [] => .ok [.op .pushResult position]
  | sentence :: rest => do
    let first ← evaluated sentence
    let others ← remaining sentence.position rest
    return first ++ others

/-- A sentence, run as a command. -/
def evaluated : Sentence → Except CompileError (List Step)
  | ⟨sentence, position⟩ => do
    let steps ← words sentence
    return framed position steps ++ [.op .evaluateSentence position]

/-- The words of all sentences. -/
def allWords : List Sentence → Except CompileError (List Step)
  | [] => .ok []
  | ⟨sentence, _⟩ :: rest => do
    let first ← words sentence
    let others ← allWords rest
    return first ++ others

/-- Sentences as rules, a tuple for each. -/
def rules : List Sentence → Except CompileError (List Step)
  | [] => .ok []
  | ⟨sentence, position⟩ :: rest => do
    let first ← words sentence
    let others ← rules rest
    return framed position first ++ others

/-- Words, one value after the other. -/
def words : List Word → Except CompileError (List Step)
  | [] => .ok []
  | first :: rest => do
    let first ← word first
    let others ← words rest
    return first ++ others

/-- A word. -/
def word : Word → Except CompileError (List Step)
  | ⟨morphemes, position⟩ =>
    match Morpheme.shape morphemes with
    | .root =>
      match morphemes with
      | morpheme :: _ => root morpheme
      | [] => .error (.invalidWord position)
    | .compound => do
      let steps ← stems .next morphemes
      return framed position steps ++ [.op .joinStrings position]
    | .substitution => stems .next morphemes
    | .qualified =>
      match morphemes with
      | source :: selectors => do
        let source ← qualifiedSource source
        let selectors ← stems (.selectors []) selectors
        return source ++ selectors
      | [] => .error (.invalidWord none)
    | .ignored => .ok []
    | .invalid => .error (.invalidWord position)

/-- A morpheme that is a word of its own. -/
def root : Morpheme → Except CompileError (List Step)
  | ⟨.literal text, position⟩ => .ok [.constant (.string text) position]
  | ⟨.hereString text _, position⟩ => .ok [.constant (.string text) position]
  | ⟨.taggedString text _, position⟩ => .ok [.constant (.string text) position]
  | ⟨.block body text, position⟩ => .ok [.constant (.script body (some text)) position]
  | ⟨.tuple body, position⟩ => tuple position body
  | ⟨.expression body, _⟩ => script body
  | ⟨.string parts, position⟩ => do
    let steps ← stems .next parts
    return framed position steps ++ [.op .joinStrings position]
  | ⟨kind, position⟩ => .error (.unexpectedMorpheme kind.name position)

/-- The tuple of all words of a script. -/
def tuple (position : Option Position) : Script → Except CompileError (List Step)
  | ⟨sentences, _⟩ => do
    let steps ← allWords sentences
    return framed position steps

/-- The source of a qualified word. -/
def qualifiedSource : Morpheme → Except CompileError (List Step)
  | ⟨.literal text, position⟩ =>
    .ok [.constant (.string text) position, .op .setSource position]
  | ⟨.block _ text, position⟩ =>
    .ok [.constant (.string text) position, .op .setSource position]
  | ⟨.tuple body, position⟩ => do
    let steps ← tuple position body
    return steps ++ [.op .setSource position]
  | ⟨kind, position⟩ => .error (.unexpectedMorpheme kind.name position)

/-- What a marker at `marker` replaces, resolved. -/
def target (marker : Option Position) : Morpheme → Except CompileError (List Step)
  | ⟨.literal text, position⟩ =>
    .ok [.constant (.string text) position, .op .resolveValue marker]
  | ⟨.block _ text, position⟩ =>
    .ok [.constant (.string text) position, .op .resolveValue marker]
  | ⟨.tuple body, position⟩ => do
    let steps ← tuple position body
    return steps ++ [.op .resolveValue marker]
  | ⟨.expression body, _⟩ => script body
  | _ => .error (.invalidWord marker)

/-- A selector. -/
def selector : Morpheme → Except CompileError (List Step)
  | ⟨.tuple body, position⟩ => do
    let steps ← tuple position body
    return steps ++ [.op .selectKeys position]
  | ⟨.block ⟨sentences, _⟩ _, position⟩ => do
    let steps ← rules sentences
    return framed position steps ++ [.op .selectRules position]
  | ⟨.expression body, position⟩ => do
    let steps ← script body
    return steps ++ [.op .selectIndex position]
  | ⟨kind, position⟩ => .error (.unexpectedMorpheme kind.name position)

/-- A morpheme between stems: a literal or an expression. -/
def stem : Morpheme → Except CompileError (List Step)
  | ⟨.literal text, position⟩ => .ok [.constant (.string text) position]
  | ⟨.expression body, _⟩ => script body
  | ⟨kind, position⟩ => .error (.unexpectedMorpheme kind.name position)

/-- Stems, one value after the other: literals, expressions and substitutions. -/
def stems : Stems → List Morpheme → Except CompileError (List Step)
  | .target _ _ position, [] => .error (.invalidWord position)
  | place, [] => .ok place.rest
  | .target expands levels position, morpheme :: rest => do
    let first ← target position morpheme
    let others ← stems (.selectors (finishSubstitution expands levels position)) rest
    return first ++ others
  | place, morpheme :: rest =>
    match place, morpheme.kind.isSelector with
    | .selectors left, true => do
      let first ← selector morpheme
      let others ← stems (.selectors left) rest
      return first ++ others
    | place, _ =>
      match morpheme.kind with
      | .marker expands levels _ => do
        let others ← stems (.target expands levels morpheme.position) rest
        return place.rest ++ others
      | _ => do
        let first ← stem morpheme
        let others ← stems .next rest
        return place.rest ++ first ++ others

end

/-- The program that takes some steps. -/
def assemble (source : Option Source) (steps : List Step) : Program :=
  ⟨steps.map Step.instruction, (steps.filterMap Step.constant?).toArray, source⟩

end Compile

/-! ## Programs of the parts of a script -/

namespace Program

/-- The program that runs a script. -/
def ofScript (source : Option Source) (script : Script) : Except CompileError Program :=
  (Compile.script script).map (Compile.assemble source)

/-- The program that runs one sentence. -/
def ofSentence (source : Option Source) (sentence : Sentence) : Except CompileError Program :=
  (Compile.evaluated sentence).map fun steps =>
    Compile.assemble source (steps ++ [.op .pushResult sentence.position])

/-- The program whose value is the tuple of all words of some sentences.  It runs no command. -/
def ofSentences (source : Option Source) (sentences : List Sentence) :
    Except CompileError Program :=
  let position := sentences.head?.bind Sentence.position
  (Compile.allWords sentences).map fun steps =>
    Compile.assemble source (Compile.framed position steps)

/-- The program whose value is that of a word. -/
def ofWord (source : Option Source) (word : Word) : Except CompileError Program :=
  (Compile.word word).map (Compile.assemble source)

/-- The program whose value is the one given. -/
def ofConstant (source : Option Source) (value : Value) : Program :=
  Compile.assemble source [.constant value none]

end Program

end Parlance
