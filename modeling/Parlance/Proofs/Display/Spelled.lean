import Mathlib.Data.List.Forall2
import Parlance.Evaluator
import Parlance.Proofs.Reading.Blocks
import Parlance.Proofs.Selection

/-!
# Values that have words

A value with a word of its own is read back from that word as it was, but for its booleans and
integers: a word that is one gives its text.

`Value.Readable` says which values these are, and `Value.spelled` what is read back.  A value without
booleans and integers is its own reading.

    v.hasScalar = false → v.spelled = v                                      (Value.spelled_eq_self)
-/

namespace Parlance

mutual

/-- A value with the texts of its booleans and integers in their place. -/
def Value.spelled : Value → Value
  | .boolean value => .string (if value then "true" else "false")
  | .integer value => .string (Numeral.write value)
  | .tuple items => .tuple (Value.allSpelled items)
  | .qualified source chain => .qualified (Value.spelled source) (Selector.allSpelled chain)
  | value => value

def Value.allSpelled : List Value → List Value
  | [] => []
  | item :: rest => Value.spelled item :: Value.allSpelled rest

def Selector.spelled : Selector → Selector
  | .keyed keys => .keyed (Value.allSpelled keys)
  | .generic rules => .generic (Value.allSpelled rules)
  | selector => selector

def Selector.allSpelled : List Selector → List Selector
  | [] => []
  | selector :: rest => Selector.spelled selector :: Selector.allSpelled rest

end

mutual

/-- Whether a boolean or an integer is part of a value. -/
def Value.hasScalar : Value → Bool
  | .boolean _ | .integer _ => true
  | .tuple items => Value.anyScalar items
  | .qualified source chain => Value.hasScalar source || Selector.anyScalar chain
  | _ => false

def Value.anyScalar : List Value → Bool
  | [] => false
  | item :: rest => Value.hasScalar item || Value.anyScalar rest

def Selector.hasScalar : Selector → Bool
  | .keyed keys => Value.anyScalar keys
  | .generic rules => Value.anyScalar rules
  | _ => false

def Selector.anyScalar : List Selector → Bool
  | [] => false
  | selector :: rest => Selector.hasScalar selector || Selector.anyScalar rest

end

mutual

/-- Without booleans and integers nothing is replaced. -/
theorem Value.spelled_eq_self : ∀ value : Value, value.hasScalar = false → value.spelled = value
  | .boolean _, h | .integer _, h => by
    rw [Value.hasScalar] at h
    cases h
  | .tuple items, h => by
    rw [Value.hasScalar] at h
    rw [Value.spelled, Value.allSpelled_eq_self items h]
  | .qualified source chain, h => by
    rw [Value.hasScalar, Bool.or_eq_false_iff] at h
    rw [Value.spelled, Value.spelled_eq_self source h.1, Selector.allSpelled_eq_self chain h.2]
  | .nil, _ | .real _, _ | .string _, _ | .list _, _ | .dictionary _, _ | .script .., _
  | .command _, _ => by rw [Value.spelled] <;> simp

theorem Value.allSpelled_eq_self : ∀ items : List Value, Value.anyScalar items = false →
    Value.allSpelled items = items
  | [], _ => by rw [Value.allSpelled]
  | item :: rest, h => by
    rw [Value.anyScalar, Bool.or_eq_false_iff] at h
    rw [Value.allSpelled, Value.spelled_eq_self item h.1, Value.allSpelled_eq_self rest h.2]

theorem Selector.spelled_eq_self : ∀ selector : Selector, selector.hasScalar = false →
    selector.spelled = selector
  | .keyed keys, h => by
    rw [Selector.hasScalar] at h
    rw [Selector.spelled, Value.allSpelled_eq_self keys h]
  | .generic rules, h => by
    rw [Selector.hasScalar] at h
    rw [Selector.spelled, Value.allSpelled_eq_self rules h]
  | .indexed _, _ | .custom _, _ => by rw [Selector.spelled] <;> simp

theorem Selector.allSpelled_eq_self : ∀ chain : List Selector, Selector.anyScalar chain = false →
    Selector.allSpelled chain = chain
  | [], _ => by rw [Selector.allSpelled]
  | selector :: rest, h => by
    rw [Selector.anyScalar, Bool.or_eq_false_iff] at h
    rw [Selector.allSpelled, Selector.spelled_eq_self selector h.1,
      Selector.allSpelled_eq_self rest h.2]

end

theorem Value.allSpelled_eq_map (items : List Value) :
    Value.allSpelled items = items.map Value.spelled := by
  induction items with
  | nil => rw [Value.allSpelled, List.map_nil]
  | cons item rest ih => rw [Value.allSpelled, List.map_cons, ih]

theorem Selector.allSpelled_eq_map (chain : List Selector) :
    Selector.allSpelled chain = chain.map Selector.spelled := by
  induction chain with
  | nil => rw [Selector.allSpelled, List.map_nil]
  | cons selector rest ih => rw [Selector.allSpelled, List.map_cons, ih]

theorem Value.allSpelled_ne_nil {items : List Value} (h : items ≠ []) : Value.allSpelled items ≠ [] := by
  rw [Value.allSpelled_eq_map]
  intro hnil
  exact h (List.map_eq_nil_iff.1 hnil)

@[simp] theorem Value.spelled_string (text : String) : (Value.string text).spelled = .string text := by
  rw [Value.spelled] <;> simp

/-! ## Values with a word -/

namespace Selector

/-- Keys and rules that are not empty; a rule is a tuple that is not empty. -/
def IsFormed : Selector → Prop
  | .keyed keys => keys ≠ []
  | .generic rules => rules ≠ [] ∧ ∀ rule ∈ rules, ∃ words, rule = .tuple words ∧ words ≠ []
  | .indexed _ | .custom _ => False

end Selector

namespace Value

/-- A text that can be the source of a qualified word. -/
def IsSourceText (text : String) : Prop := isLiteralSafe text = true ∨ isBlockSafe text = true

/-- Values with a word that reads back. -/
inductive Readable : Value → Prop
  | nil : Readable .nil
  | boolean (value : Bool) : Readable (.boolean value)
  | integer (value : Int64) : Readable (.integer value)
  | string (text : String) : Readable (.string text)
  | tuple {items : List Value} (hitems : ∀ item ∈ items, Readable item) : Readable (.tuple items)
  /-- A block of a text that was read without positions. -/
  | script {source text : String} {tree script : Script}
      (hparse : parse source ⟨false⟩ = .ok tree) (hblock : (script, text) ∈ tree.blocks) :
      Readable (.script script (some text))
  /-- A source with selectors after it, where no keys follow keys. -/
  | qualified {source : Value} {chain : List Selector}
      (hsource : (∃ items, source = .tuple items) ∨ ∃ text, source = .string text ∧ IsSourceText text)
      (hitems : ∀ items, source = .tuple items → ∀ item ∈ items, Readable item)
      (hchain : chain ≠ []) (hformed : ∀ selector ∈ chain, selector.IsFormed)
      (hapart : chain.IsChain Selector.Apart)
      (hkeys : ∀ keys, .keyed keys ∈ chain → ∀ key ∈ keys, Readable key)
      (hrules : ∀ rules, .generic rules ∈ chain → ∀ words, .tuple words ∈ rules →
        ∀ word ∈ words, Readable word) :
      Readable (.qualified source chain)

end Value

end Parlance
