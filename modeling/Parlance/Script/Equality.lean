import Parlance.Script

/-!
# Equality of scripts

Two scripts are equal when they have the same nodes with the same positions.  `same` decides this
node by node; on each of the five types of node it is equality:

    same a b = true ↔ a = b                                       (Script.same_iff and so on)
-/

namespace Parlance

/-! ## Algorithm -/

mutual

/-- Decides equality of scripts. -/
def Script.same : Script → Script → Bool
  | ⟨s, p⟩, ⟨t, q⟩ => Sentence.sameAll s t && decide (p = q)

/-- Decides equality of lists of sentences. -/
def Sentence.sameAll : List Sentence → List Sentence → Bool
  | [], [] => true
  | s :: ss, t :: ts => Sentence.same s t && Sentence.sameAll ss ts
  | _, _ => false

/-- Decides equality of sentences. -/
def Sentence.same : Sentence → Sentence → Bool
  | ⟨s, p⟩, ⟨t, q⟩ => Word.sameAll s t && decide (p = q)

/-- Decides equality of lists of words. -/
def Word.sameAll : List Word → List Word → Bool
  | [], [] => true
  | s :: ss, t :: ts => Word.same s t && Word.sameAll ss ts
  | _, _ => false

/-- Decides equality of words. -/
def Word.same : Word → Word → Bool
  | ⟨s, p⟩, ⟨t, q⟩ => Morpheme.sameAll s t && decide (p = q)

/-- Decides equality of lists of morphemes. -/
def Morpheme.sameAll : List Morpheme → List Morpheme → Bool
  | [], [] => true
  | s :: ss, t :: ts => Morpheme.same s t && Morpheme.sameAll ss ts
  | _, _ => false

/-- Decides equality of morphemes. -/
def Morpheme.same : Morpheme → Morpheme → Bool
  | ⟨s, p⟩, ⟨t, q⟩ => Morpheme.Kind.same s t && decide (p = q)

/-- Decides equality of kinds. -/
def Morpheme.Kind.same : Morpheme.Kind → Morpheme.Kind → Bool
  | .literal a, .literal b => decide (a = b)
  | .tuple s, .tuple t => Script.same s t
  | .block s a, .block t b => Script.same s t && decide (a = b)
  | .expression s, .expression t => Script.same s t
  | .string s, .string t => Morpheme.sameAll s t
  | .hereString a m, .hereString b n => decide (a = b) && decide (m = n)
  | .taggedString a m, .taggedString b n => decide (a = b) && decide (m = n)
  | .lineComment a m, .lineComment b n => decide (a = b) && decide (m = n)
  | .blockComment a m, .blockComment b n => decide (a = b) && decide (m = n)
  | .marker e m a, .marker f n b => decide (e = f) && decide (m = n) && decide (a = b)
  | _, _ => false

end

/-! ## Lemmas -/

mutual

theorem Script.same_iff : ∀ a b : Script, Script.same a b = true ↔ a = b
  | ⟨s, p⟩, ⟨t, q⟩ => by simp [Script.same, Sentence.sameAll_iff s t]

theorem Sentence.sameAll_iff :
    ∀ a b : List Sentence, Sentence.sameAll a b = true ↔ a = b
  | [], [] => by simp [Sentence.sameAll]
  | s :: ss, t :: ts => by
    simp [Sentence.sameAll, Sentence.same_iff s t, Sentence.sameAll_iff ss ts]
  | [], _ :: _ => by simp [Sentence.sameAll]
  | _ :: _, [] => by simp [Sentence.sameAll]

theorem Sentence.same_iff : ∀ a b : Sentence, Sentence.same a b = true ↔ a = b
  | ⟨s, p⟩, ⟨t, q⟩ => by simp [Sentence.same, Word.sameAll_iff s t]

theorem Word.sameAll_iff : ∀ a b : List Word, Word.sameAll a b = true ↔ a = b
  | [], [] => by simp [Word.sameAll]
  | s :: ss, t :: ts => by simp [Word.sameAll, Word.same_iff s t, Word.sameAll_iff ss ts]
  | [], _ :: _ => by simp [Word.sameAll]
  | _ :: _, [] => by simp [Word.sameAll]

theorem Word.same_iff : ∀ a b : Word, Word.same a b = true ↔ a = b
  | ⟨s, p⟩, ⟨t, q⟩ => by simp [Word.same, Morpheme.sameAll_iff s t]

theorem Morpheme.sameAll_iff :
    ∀ a b : List Morpheme, Morpheme.sameAll a b = true ↔ a = b
  | [], [] => by simp [Morpheme.sameAll]
  | s :: ss, t :: ts => by
    simp [Morpheme.sameAll, Morpheme.same_iff s t, Morpheme.sameAll_iff ss ts]
  | [], _ :: _ => by simp [Morpheme.sameAll]
  | _ :: _, [] => by simp [Morpheme.sameAll]

theorem Morpheme.same_iff : ∀ a b : Morpheme, Morpheme.same a b = true ↔ a = b
  | ⟨s, p⟩, ⟨t, q⟩ => by simp [Morpheme.same, Morpheme.Kind.same_iff s t]

theorem Morpheme.Kind.same_iff :
    ∀ a b : Morpheme.Kind, Morpheme.Kind.same a b = true ↔ a = b
  | .literal a, b => by cases b <;> simp [Morpheme.Kind.same]
  | .tuple s, b => by
    cases b <;> simp [Morpheme.Kind.same]
    exact Script.same_iff s _
  | .block s a, b => by
    cases b <;> simp [Morpheme.Kind.same]
    simp [Script.same_iff s]
  | .expression s, b => by
    cases b <;> simp [Morpheme.Kind.same]
    exact Script.same_iff s _
  | .string s, b => by
    cases b <;> simp [Morpheme.Kind.same]
    exact Morpheme.sameAll_iff s _
  | .hereString a m, b => by cases b <;> simp [Morpheme.Kind.same]
  | .taggedString a m, b => by cases b <;> simp [Morpheme.Kind.same]
  | .lineComment a m, b => by cases b <;> simp [Morpheme.Kind.same]
  | .blockComment a m, b => by cases b <;> simp [Morpheme.Kind.same]
  | .marker e m a, b => by cases b <;> simp [Morpheme.Kind.same, and_assoc]

end

instance : DecidableEq Script := fun a b => decidable_of_iff _ (Script.same_iff a b)
instance : DecidableEq Sentence := fun a b => decidable_of_iff _ (Sentence.same_iff a b)
instance : DecidableEq Word := fun a b => decidable_of_iff _ (Word.same_iff a b)
instance : DecidableEq Morpheme := fun a b => decidable_of_iff _ (Morpheme.same_iff a b)
instance : DecidableEq Morpheme.Kind := fun a b => decidable_of_iff _ (Morpheme.Kind.same_iff a b)

end Parlance
