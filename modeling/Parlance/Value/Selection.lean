import Parlance.Value.Display

/-!
# Selection

A string is selected by an index, and so is a list; a dictionary is selected by a key.  Two kinds
of value take every selector: a tuple passes it to each of its elements, and a qualified value adds
it to its chain, where keys that follow keys join them.  Rules select from nothing else; a custom
selector says itself what it selects.
-/

namespace Parlance

/-- What the custom selectors of an embedder select. -/
abbrev CustomSelection := CustomSelector → Value → Except ValueError Value

/-! ## Tuples -/

mutual

/-- Applies `f` to a value; a tuple stands for its elements, one by one and at any depth. -/
def Value.mapElements (f : Value → Except ValueError Value) : Value → Except ValueError Value
  | .tuple items => (Value.mapAllElements f items).map .tuple
  | value => f value

/-- Applies `f` to each of several values. -/
def Value.mapAllElements (f : Value → Except ValueError Value) :
    List Value → Except ValueError (List Value)
  | [] => .ok []
  | value :: rest =>
    match Value.mapElements f value with
    | .error error => .error error
    | .ok value => (Value.mapAllElements f rest).map (value :: ·)

end

theorem Value.mapElements_tuple (f : Value → Except ValueError Value) (items : List Value) :
    Value.mapElements f (.tuple items) = (Value.mapAllElements f items).map .tuple := by
  rw [Value.mapElements]

theorem Value.length_of_mapAllElements {f : Value → Except ValueError Value}
    {items results : List Value} (h : Value.mapAllElements f items = .ok results) :
    results.length = items.length := by
  induction items generalizing results with
  | nil =>
    simp only [Value.mapAllElements, Except.ok.injEq] at h
    rw [← h]
  | cons item rest ih =>
    rw [Value.mapAllElements] at h
    split at h
    · cases h
    · cases hr : Value.mapAllElements f rest with
      | error error => simp [hr, Except.map] at h
      | ok others =>
        simp only [hr, Except.map, Except.ok.injEq] at h
        rw [← h, List.length_cons, List.length_cons, ih hr]

/-! ## Chains of selectors -/

/-- A chain with one more selector at its end.  Keys join the keys before them. -/
def Selector.append (selector : Selector) : List Selector → List Selector
  | [] => [selector]
  | [last] =>
    match last, selector with
    | .keyed keys, .keyed more => [.keyed (keys ++ more)]
    | last, selector => [last, selector]
  | first :: rest => first :: Selector.append selector rest

/-- The selector by keys, which must not be empty. -/
def Selector.ofKeys (keys : List Value) : Except ValueError Selector :=
  if keys.isEmpty then .error .emptySelector else .ok (.keyed keys)

/-- The selector by rules, which must not be empty. -/
def Selector.ofRules (rules : List Value) : Except ValueError Selector :=
  if rules.isEmpty then .error .emptySelector else .ok (.generic rules)

namespace Value

/-! ## Selecting by one kind of selector -/

/-- The error for an index that no element has. -/
def outOfRange (index : Value) : ValueError :=
  match index.asString with
  | .ok text => .indexOutOfRange text
  | .error _ => .indexOutOfRange index.display

/-- The place that an index names among `length` elements. -/
def toIndex (index : Value) (length : Nat) : Except ValueError Nat :=
  match index.asInteger with
  | .error .noStringRepresentation => .error .invalidIndex
  | .error error => .error error
  | .ok i =>
    if 0 ≤ i.toInt ∧ i.toInt < length then .ok i.toInt.toNat else .error index.outOfRange

/-- The element of a list that an index names. -/
def elementAt (index : Value) (items : List Value) : Except ValueError Value :=
  match index.toIndex items.length with
  | .error error => .error error
  | .ok i =>
    match items[i]? with
    | some item => .ok item
    | none => .error index.outOfRange

/-- Selects a character of a string or an element of a list. -/
def selectIndex (value index : Value) : Except ValueError Value :=
  value.mapElements fun
    | .string text => elementAt index (text.toList.map fun c => .string c.toString)
    | .list items => elementAt index items
    | .qualified source chain => .ok (.qualified source (Selector.append (.indexed index) chain))
    | _ => .error .notIndexSelectable

/-- Selects the value of a key. -/
def selectKey (value key : Value) : Except ValueError Value :=
  value.mapElements fun
    | .dictionary entries =>
      match key.asString with
      | .error error => .error error
      | .ok name =>
        match findEntry name entries with
        | some value => .ok value
        | none => .error (.unknownKey name)
    | .qualified source chain => .ok (.qualified source (Selector.append (.keyed [key]) chain))
    | _ => .error .notKeySelectable

/-- Selects by one key after the other. -/
def selectEachKey : List Value → Value → Except ValueError Value
  | [], value => .ok value
  | key :: keys, value =>
    match value.selectKey key with
    | .error error => .error error
    | .ok value => selectEachKey keys value

/-- Selects by a list of keys.  A qualified value takes them as one selector. -/
def selectKeys (keys : List Value) : Value → Except ValueError Value
  | .qualified source chain => .ok (.qualified source (Selector.append (.keyed keys) chain))
  | value => selectEachKey keys value

/-- Selects by rules, which no plain value understands. -/
def selectRules (rules : List Value) (value : Value) : Except ValueError Value :=
  value.mapElements fun
    | .qualified source chain => .ok (.qualified source (Selector.append (.generic rules) chain))
    | _ => .error .notSelectable

end Value

/-! ## Selecting -/

/-- Applies a selector through what the value can be selected by. -/
def Selector.apply (custom : CustomSelection) (selector : Selector) (value : Value) :
    Except ValueError Value :=
  match selector with
  | .indexed index => value.selectIndex index
  | .keyed keys => value.selectKeys keys
  | .generic rules => value.selectRules rules
  | .custom selector => custom selector value

/-- Selects from a value.  Tuples and qualified values take the selector whole. -/
def Value.select (custom : CustomSelection) (selector : Selector) (value : Value) :
    Except ValueError Value :=
  value.mapElements fun
    | .qualified source chain => .ok (.qualified source (Selector.append selector chain))
    | value => selector.apply custom value

/-- Selects by one selector after the other. -/
def Value.selectAll (custom : CustomSelection) :
    List Selector → Value → Except ValueError Value
  | [], value => .ok value
  | selector :: rest, value =>
    match value.select custom selector with
    | .error error => .error error
    | .ok value => Value.selectAll custom rest value

end Parlance
