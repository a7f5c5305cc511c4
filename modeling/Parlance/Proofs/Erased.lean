import Parlance.Script.Draft
import Parlance.Script.Shape

/-!
# Scripts without positions

`erased` forgets the position of every node.  Positions mean nothing for the shape of a word and for
morphemes under construction: what is built from erased parts is what was built, erased.

    Morpheme.shape (morphemes.map erased) = Morpheme.shape morphemes                  (shape_erased)
    (draft.erased.push m.erased) = (draft.push m).erased                 (push_erased, and so on)
-/

namespace Parlance

mutual

/-- A script without positions. -/
def Script.erased : Script → Script
  | ⟨sentences, _⟩ => ⟨Sentence.allErased sentences, none⟩

def Sentence.allErased : List Sentence → List Sentence
  | [] => []
  | ⟨words, _⟩ :: rest => ⟨Word.allErased words, none⟩ :: Sentence.allErased rest

def Word.allErased : List Word → List Word
  | [] => []
  | ⟨morphemes, _⟩ :: rest => ⟨Morpheme.allErased morphemes, none⟩ :: Word.allErased rest

def Morpheme.allErased : List Morpheme → List Morpheme
  | [] => []
  | ⟨kind, _⟩ :: rest => ⟨kind.erased, none⟩ :: Morpheme.allErased rest

/-- A morpheme's kind without the positions within it. -/
def Morpheme.Kind.erased : Morpheme.Kind → Morpheme.Kind
  | .tuple script => .tuple script.erased
  | .block script text => .block script.erased text
  | .expression script => .expression script.erased
  | .string parts => .string (Morpheme.allErased parts)
  | .literal text => .literal text
  | .hereString text length => .hereString text length
  | .taggedString text tag => .taggedString text tag
  | .lineComment text length => .lineComment text length
  | .blockComment text length => .blockComment text length
  | .marker expands levels text => .marker expands levels text

end

/-- A morpheme without positions. -/
def Morpheme.erased (morpheme : Morpheme) : Morpheme := ⟨morpheme.kind.erased, none⟩

/-- A word without positions. -/
def Word.erased (word : Word) : Word := ⟨word.morphemes.map Morpheme.erased, none⟩

/-- A sentence without positions. -/
def Sentence.erased (sentence : Sentence) : Sentence := ⟨sentence.words.map Word.erased, none⟩

theorem Morpheme.allErased_eq_map (morphemes : List Morpheme) :
    allErased morphemes = morphemes.map erased := by
  induction morphemes with
  | nil => rfl
  | cons morpheme rest ih =>
    obtain ⟨kind, position⟩ := morpheme
    rw [allErased, ih]
    rfl

theorem Word.allErased_eq_map (words : List Word) : allErased words = words.map erased := by
  induction words with
  | nil => rfl
  | cons word rest ih =>
    obtain ⟨morphemes, position⟩ := word
    rw [allErased, ih, Morpheme.allErased_eq_map]
    rfl

theorem Sentence.allErased_eq_map (sentences : List Sentence) :
    allErased sentences = sentences.map erased := by
  induction sentences with
  | nil => rfl
  | cons sentence rest ih =>
    obtain ⟨words, position⟩ := sentence
    rw [allErased, ih, Word.allErased_eq_map]
    rfl

theorem Script.erased_mk (sentences : List Sentence) (position : Option Position) :
    Script.erased ⟨sentences, position⟩ = ⟨sentences.map Sentence.erased, none⟩ := by
  rw [Script.erased, Sentence.allErased_eq_map]

/-! ## Shapes -/

namespace Morpheme

@[simp] theorem isString_erased (kind : Kind) : kind.erased.isString = kind.isString := by
  cases kind <;> rfl

@[simp] theorem isSubstitutable_erased (kind : Kind) :
    kind.erased.isSubstitutable = kind.isSubstitutable := by
  cases kind <;> rfl

@[simp] theorem isSelector_erased (morpheme : Morpheme) :
    morpheme.erased.isSelector = morpheme.isSelector := by
  obtain ⟨kind, position⟩ := morpheme
  cases kind <;> rfl

theorem areStems_erased (selecting : Bool) (morphemes : List Morpheme) :
    areStems selecting (morphemes.map erased) = areStems selecting morphemes := by
  match morphemes with
  | [] => rfl
  | ⟨.literal _, _⟩ :: rest => exact areStems_erased false rest
  | ⟨.expression _, _⟩ :: rest => exact areStems_erased selecting rest
  | ⟨.tuple _, _⟩ :: rest | ⟨.block _ _, _⟩ :: rest =>
    exact congrArg (selecting && ·) (areStems_erased true rest)
  | [⟨.marker _ _ _, _⟩] => rfl
  | ⟨.marker _ _ _, _⟩ :: target :: rest =>
    show (target.kind.erased.isSubstitutable && areStems true (rest.map erased)) = _
    rw [isSubstitutable_erased, areStems_erased true rest]
    rfl
  | ⟨.string _, _⟩ :: _ | ⟨.hereString _ _, _⟩ :: _ | ⟨.taggedString _ _, _⟩ :: _
  | ⟨.lineComment _ _, _⟩ :: _ | ⟨.blockComment _ _, _⟩ :: _ => rfl

theorem substitutionLength_erased (morphemes : List Morpheme) :
    substitutionLength (morphemes.map erased) = substitutionLength morphemes := by
  match morphemes with
  | [] => rfl
  | [_] => rfl
  | _ :: target :: rest =>
    have hselectors : (rest.map erased).takeWhile isSelector =
        (rest.takeWhile isSelector).map erased := by
      rw [List.takeWhile_map]
      simp only [Function.comp_def, isSelector_erased]
    rw [List.map_cons, List.map_cons, substitutionLength, substitutionLength, hselectors,
      List.length_map]
    show (if target.kind.erased.isSubstitutable then _ else _) = _
    rw [isSubstitutable_erased]

/-- The shape of a word does not depend on positions. -/
theorem shape_erased (morphemes : List Morpheme) : shape (morphemes.map erased) = shape morphemes := by
  match morphemes with
  | [] => rfl
  | [⟨kind, position⟩] => cases kind <;> rfl
  | ⟨kind, position⟩ :: second :: rest =>
    have hselectors : ((second :: rest).map erased).all isSelector = (second :: rest).all isSelector := by
      rw [List.all_map]
      simp only [Function.comp_def, isSelector_erased]
    have hstems := areStems_erased false (⟨kind, position⟩ :: second :: rest)
    have hlength := substitutionLength_erased (⟨kind, position⟩ :: second :: rest)
    rw [List.map_cons] at hstems hlength
    cases kind <;>
      simp only [List.map_cons, erased, Kind.erased, shape, List.length_cons, List.length_map] at * <;>
      simp only [hselectors, hstems, hlength]

end Morpheme

/-! ## Morphemes under construction -/

namespace Draft

/-- A draft without positions. -/
def erased (draft : Draft) : Draft := ⟨draft.items.map Morpheme.erased, draft.expecting⟩

section Erased

variable (draft : Draft)

theorem toList_erased : draft.erased.toList = draft.toList.map Morpheme.erased :=
  (List.map_reverse ..).symm

@[simp] theorem endsWithString_erased : draft.erased.endsWithString = draft.endsWithString := by
  obtain ⟨_ | ⟨⟨kind, position⟩, before⟩, expecting⟩ := draft
  · rfl
  · exact Morpheme.isString_erased kind

@[simp] theorem endsWithTarget_erased : draft.erased.endsWithTarget = draft.endsWithTarget := by
  obtain ⟨_ | ⟨⟨kind, _⟩, _ | ⟨⟨other, _⟩, before⟩⟩, expecting⟩ := draft
  · rfl
  · cases kind <;> rfl
  · cases kind <;> cases other <;> rfl

theorem pushLiteral_erased (text : String) (position : Option Position) (extendsTarget : Bool) :
    draft.erased.pushLiteral text none extendsTarget =
      (draft.pushLiteral text position extendsTarget).erased := by
  have htarget := endsWithTarget_erased draft
  obtain ⟨_ | ⟨⟨kind, start⟩, before⟩, expecting⟩ := draft
  · rfl
  · cases kind with
    | literal value =>
      unfold pushLiteral
      simp only [erased, List.map_cons, Morpheme.erased, Morpheme.Kind.erased] at htarget ⊢
      rw [htarget]
      split <;> rfl
    | _ => rfl

theorem push_erased (morpheme : Morpheme) :
    draft.erased.push morpheme.erased = (draft.push morpheme).erased := by
  unfold push
  rw [Morpheme.isSelector_erased]
  rfl

theorem pushDollar_erased (position : Option Position) :
    draft.erased.pushDollar none = (draft.pushDollar position).erased := by
  obtain ⟨_ | ⟨⟨kind, start⟩, before⟩, expecting⟩ := draft
  · rfl
  · cases kind with
    | marker expands levels text => cases expecting <;> rfl
    | _ => rfl

theorem pushAsterisk_erased (text : String) (position : Option Position) :
    draft.erased.pushAsterisk text none = (draft.pushAsterisk text position).erased := by
  have hliteral := draft.pushLiteral_erased text position true
  obtain ⟨_ | ⟨⟨kind, start⟩, before⟩, expecting⟩ := draft
  · exact hliteral
  · cases kind with
    | marker expands levels marker =>
      cases expands with
      | true => exact hliteral
      | false => cases expecting <;> rfl
    | _ => exact hliteral

theorem settle_erased : draft.erased.settle = draft.settle.erased := by
  obtain ⟨_ | ⟨⟨kind, start⟩, before⟩, expecting⟩ := draft
  · cases expecting <;> rfl
  · cases expecting with
    | target =>
      cases kind with
      | marker expands levels text => exact pushLiteral_erased ⟨before, .nothing⟩ text start false
      | _ => rfl
    | _ => rfl

end Erased

end Draft

end Parlance
