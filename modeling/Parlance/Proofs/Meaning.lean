import Parlance.Host
import Parlance.Script.Shape

/-!
# The meaning of scripts

What a script does, said by recursion on its tree and without a program.  An evaluation reads and
replaces two things: the value of the latest result and the state of the host.

| construct                     | meaning                                                           |
|-------------------------------|-------------------------------------------------------------------|
| script                        | its sentences, then the latest result; nil without sentences      |
| sentence                      | its words as one list of arguments, run as a command if not empty |
| literal, raw string           | its text                                                          |
| block                         | a script value                                                    |
| tuple                         | the tuple of all words of its sentences                           |
| expression                    | its script, in place                                              |
| quoted string, compound word  | the texts of its stems as one string                              |
| qualified word                | a qualified value of its source, then its selectors               |
| substitution                  | what its target names, then its selectors, then one more          |
|                               | resolution for each further level; expanded, the elements of that |
| comment                       | nothing                                                           |

A result that is not ok, a failure and the breakdown of a command end the evaluation.
-/

namespace Parlance.Meaning

/-- Why an evaluation ends early. -/
inductive Halt where
  /-- A result that is not ok. -/
  | stopped (code : ResultCode) (value : Value)
  | crashed (crash : Crash)
  /-- The tree has no meaning. -/
  | malformed

/-- An evaluation, from the value of the latest result and the state of the host. -/
abbrev Eval (σ α : Type) := StateT Value (ExceptT Halt (StateM σ)) α

variable {σ α : Type}

/-! ## Single acts -/

/-- Ends with the message of an error, unless there is a value. -/
def demand : Except ValueError α → Eval σ α
  | .ok value => pure value
  | .error error => throw (.stopped .error (.string error.message))

/-- What a value names. -/
def resolve (host : Host σ) (name : Value) : Eval σ Value := fun latest env =>
  demand (host.resolve env name) latest env

/-- What a value names after further levels of naming. -/
def resolveTimes (host : Host σ) : Nat → Value → Eval σ Value
  | 0, value => pure value
  | levels + 1, value => do resolveTimes host levels (← resolve host value)

/-- The elements of a tuple; any other value stands for itself. -/
def elements : Value → List Value
  | .tuple items => items
  | value => [value]

/-- The texts of several values as one string. -/
def join (values : List Value) : Eval σ Value :=
  demand ((values.mapM Value.asString).map fun texts => .string (String.join texts))

/-- What an index selects. -/
def selectIndex (host : Host σ) (value index : Value) : Eval σ Value :=
  demand (value.select host.applyCustom (.indexed index))

/-- What keys select; there must be one. -/
def selectKeys (host : Host σ) (value : Value) (keys : List Value) : Eval σ Value := do
  let selector ← demand (Selector.ofKeys keys)
  demand (value.select host.applyCustom selector)

/-- What rules select, by the selector that the host makes of them. -/
def selectRules (host : Host σ) (value : Value) (rules : List Value) : Eval σ Value := do
  let selector ← fun latest env =>
    let (selector, env) := host.resolveSelector (.tuple rules) env
    demand selector latest env
  demand (value.select host.applyCustom selector)

/-- Runs a list of arguments as a command and remembers the result.  An empty list does nothing. -/
def dispatch (host : Host σ) : List Value → Eval σ Unit
  | [] => pure ()
  | name :: args => fun latest env =>
    match host.resolveCommand env name with
    | .error error => demand (.error error) latest env
    | .ok command =>
      match host.execute command (name :: args) env with
      | (.error crash, env) => (.error (.crashed crash), env)
      | (.ok outcome, env) =>
        if outcome.isOk then (.ok ((), outcome.value), env)
        else (.error (.stopped outcome.code outcome.value), env)

/-! ## Trees -/

/-- A substitution that has begun. -/
structure Substitution where
  expands : Bool
  levels : Nat

/-- The values that a substitution gives once its selectors are applied. -/
def Substitution.finish (host : Host σ) (substitution : Substitution) (value : Value) :
    Eval σ (List Value) := do
  let value ← resolveTimes host (substitution.levels - 1) value
  return if substitution.expands then elements value else [value]

/-- Where the stems of a word or string stand. -/
inductive Place where
  | next
  /-- After a marker. -/
  | target (substitution : Substitution)
  /-- Among selectors, with the value selected so far. -/
  | selectors (substitution : Substitution) (value : Value)

/-- The values of a substitution that no selector follows, if there is one. -/
def Place.finish (host : Host σ) : Place → Eval σ (List Value)
  | .next => pure []
  | .target _ => throw .malformed
  | .selectors substitution value => substitution.finish host value

mutual

/-- A script: the result of its last sentence, or nil if it has none. -/
def script (host : Host σ) : Script → Eval σ Value
  | ⟨[], _⟩ => pure .nil
  | ⟨first :: rest, _⟩ => do
    sentence host first
    sentences host rest
    get

/-- Sentences, one after the other. -/
def sentences (host : Host σ) : List Sentence → Eval σ Unit
  | [] => pure ()
  | first :: rest => do
    sentence host first
    sentences host rest

/-- A sentence, run as a command. -/
def sentence (host : Host σ) : Sentence → Eval σ Unit
  | ⟨items, _⟩ => do dispatch host (← words host items)

/-- The words of all sentences. -/
def allWords (host : Host σ) : List Sentence → Eval σ (List Value)
  | [] => pure []
  | ⟨items, _⟩ :: rest => do
    let first ← words host items
    let others ← allWords host rest
    return first ++ others

/-- Sentences as rules, a tuple for each. -/
def rules (host : Host σ) : List Sentence → Eval σ (List Value)
  | [] => pure []
  | ⟨items, _⟩ :: rest => do
    let first ← words host items
    let others ← rules host rest
    return .tuple first :: others

/-- The values of words. -/
def words (host : Host σ) : List Word → Eval σ (List Value)
  | [] => pure []
  | first :: rest => do
    let first ← word host first
    let others ← words host rest
    return first ++ others

/-- The values of a word: none for a comment, and any number when it expands a tuple. -/
def word (host : Host σ) : Word → Eval σ (List Value)
  | ⟨morphemes, _⟩ =>
    match Morpheme.shape morphemes with
    | .root =>
      match morphemes with
      | morpheme :: _ => return [← root host morpheme]
      | [] => throw .malformed
    | .compound => return [← join (← stems host .next morphemes)]
    | .substitution => stems host .next morphemes
    | .qualified =>
      match morphemes with
      | source :: rest => do
        let source ← qualifiedSource host source
        return [← selectors host (.qualified source []) rest]
      | [] => throw .malformed
    | .ignored => return []
    | .invalid => throw .malformed

/-- The value of a morpheme that is a word of its own. -/
def root (host : Host σ) : Morpheme → Eval σ Value
  | ⟨.literal text, _⟩ => pure (.string text)
  | ⟨.hereString text _, _⟩ => pure (.string text)
  | ⟨.taggedString text _, _⟩ => pure (.string text)
  | ⟨.block body text, _⟩ => pure (.script body (some text))
  | ⟨.tuple body, _⟩ => return .tuple (← tuple host body)
  | ⟨.expression body, _⟩ => script host body
  | ⟨.string parts, _⟩ => do join (← stems host .next parts)
  | _ => throw .malformed

/-- The elements of the tuple that a script stands for. -/
def tuple (host : Host σ) : Script → Eval σ (List Value)
  | ⟨items, _⟩ => allWords host items

/-- The source of a qualified word. -/
def qualifiedSource (host : Host σ) : Morpheme → Eval σ Value
  | ⟨.literal text, _⟩ => pure (.string text)
  | ⟨.block _ text, _⟩ => pure (.string text)
  | ⟨.tuple body, _⟩ => return .tuple (← tuple host body)
  | _ => throw .malformed

/-- What a marker replaces, resolved.  An expression is its own result. -/
def target (host : Host σ) : Morpheme → Eval σ Value
  | ⟨.literal text, _⟩ => resolve host (.string text)
  | ⟨.block _ text, _⟩ => resolve host (.string text)
  | ⟨.tuple body, _⟩ => do resolve host (.tuple (← tuple host body))
  | ⟨.expression body, _⟩ => script host body
  | _ => throw .malformed

/-- What a selector selects from a value. -/
def selector (host : Host σ) (value : Value) : Morpheme → Eval σ Value
  | ⟨.tuple body, _⟩ => do selectKeys host value (← tuple host body)
  | ⟨.block ⟨items, _⟩ _, _⟩ => do selectRules host value (← rules host items)
  | ⟨.expression body, _⟩ => do selectIndex host value (← script host body)
  | _ => throw .malformed

/-- What several selectors select, one after the other. -/
def selectors (host : Host σ) (value : Value) : List Morpheme → Eval σ Value
  | [] => pure value
  | first :: rest => do selectors host (← selector host value first) rest

/-- A morpheme between stems: a literal or an expression. -/
def stem (host : Host σ) : Morpheme → Eval σ Value
  | ⟨.literal text, _⟩ => pure (.string text)
  | ⟨.expression body, _⟩ => script host body
  | _ => throw .malformed

/-- The values of stems.  A substitution takes every selector that follows it. -/
def stems (host : Host σ) : Place → List Morpheme → Eval σ (List Value)
  | place, [] => place.finish host
  | .target substitution, morpheme :: rest => do
    stems host (.selectors substitution (← target host morpheme)) rest
  | place, morpheme :: rest =>
    match place, morpheme.kind.isSelector with
    | .selectors substitution value, true => do
      stems host (.selectors substitution (← selector host value morpheme)) rest
    | place, _ => do
      let before ← place.finish host
      match morpheme.kind with
      | .marker expands levels _ =>
        return before ++ (← stems host (.target ⟨expands, levels⟩) rest)
      | _ => do
        let first ← stem host morpheme
        let others ← stems host .next rest
        return before ++ first :: others

end

/-! ## Whole scripts -/

/-- What a script comes to, with nothing remembered before it. -/
def evaluate (host : Host σ) (tree : Script) (env : σ) : Except Halt Value × σ :=
  let (result, env) := script host tree .nil env
  (result.map Prod.fst, env)

end Parlance.Meaning
