import Parlance.Binary64
import Parlance.Script

/-!
# Values

Values are what words stand for and what commands take and give.  A qualified value is a source
with a chain of selectors that nobody has applied yet; a selector picks part of a value.

Commands and custom selectors belong to the embedder.  A command is known by its name, a custom
selector by an identity and what it holds; what they do is said by the host that runs a program.
-/

namespace Parlance

/-- A command of the embedder. -/
structure Command where
  name : String
  deriving DecidableEq, Inhabited

mutual

/-- What words stand for. -/
inductive Value where
  /-- The absence of a value. -/
  | nil
  | boolean (value : Bool)
  | integer (value : Int64)
  | real (value : Binary64)
  | string (text : String)
  | list (items : List Value)
  /-- A map from strings, in the order of first insertion; no key occurs twice. -/
  | dictionary (entries : List (String × Value))
  /-- The values of several words. -/
  | tuple (items : List Value)
  /-- A block, not run yet.  The text is there when it was written between braces. -/
  | script (script : Script) (text : Option String)
  | command (command : Command)
  /-- A source and the selectors to apply to it once it is resolved. -/
  | qualified (source : Value) (selectors : List Selector)

/-- A way to pick part of a value. -/
inductive Selector where
  /-- `[index]` -/
  | indexed (index : Value)
  /-- `(key key ...)` -/
  | keyed (keys : List Value)
  /-- `{rule; rule; ...}`, where each rule is a tuple -/
  | generic (rules : List Value)
  | custom (selector : CustomSelector)

/-- A selector of the embedder. -/
structure CustomSelector where
  /-- Two custom selectors are the same only when they were made by the same act. -/
  identity : Nat
  /-- How the selector is written. -/
  label : String
  /-- The values it holds. -/
  held : List Value

end

instance : Inhabited Value := ⟨.nil⟩
instance : Inhabited Selector := ⟨.keyed []⟩

namespace Value

/-- The name of the value's kind. -/
def typeName : Value → String
  | .nil => "nil"
  | .boolean _ => "boolean"
  | .integer _ => "integer"
  | .real _ => "real"
  | .string _ => "string"
  | .list _ => "list"
  | .dictionary _ => "dictionary"
  | .tuple _ => "tuple"
  | .script .. => "script"
  | .command _ => "command"
  | .qualified .. => "qualified"

def isNil : Value → Bool
  | .nil => true
  | _ => false

/-- The text of a string value. -/
def text? : Value → Option String
  | .string text => some text
  | _ => none

end Value

/-! ## Dictionaries -/

/-- The entries of a dictionary after `key` was given `value`: a key that is there keeps its place,
a new one comes last. -/
def insertEntry (key : String) (value : Value) :
    List (String × Value) → List (String × Value)
  | [] => [(key, value)]
  | (k, v) :: rest => if k = key then (k, value) :: rest else (k, v) :: insertEntry key value rest

/-- The value of a key. -/
def findEntry (key : String) : List (String × Value) → Option Value
  | [] => none
  | (k, v) :: rest => if k = key then some v else findEntry key rest

theorem findEntry_insertEntry_self (key : String) (value : Value)
    (entries : List (String × Value)) :
    findEntry key (insertEntry key value entries) = some value := by
  induction entries with
  | nil => simp [insertEntry, findEntry]
  | cons entry rest ih =>
    obtain ⟨k, v⟩ := entry
    by_cases h : k = key
    · simp [insertEntry, findEntry, h]
    · simp [insertEntry, findEntry, h, ih]

theorem findEntry_insertEntry_of_ne {key other : String} (h : other ≠ key) (value : Value)
    (entries : List (String × Value)) :
    findEntry other (insertEntry key value entries) = findEntry other entries := by
  induction entries with
  | nil => simp [insertEntry, findEntry, Ne.symm h]
  | cons entry rest ih =>
    obtain ⟨k, v⟩ := entry
    by_cases hk : k = key
    · subst hk
      simp [insertEntry, findEntry, Ne.symm h]
    · by_cases ho : k = other
      · subst ho
        simp [insertEntry, findEntry, h]
      · simp [insertEntry, findEntry, hk, ho, ih]

end Parlance
