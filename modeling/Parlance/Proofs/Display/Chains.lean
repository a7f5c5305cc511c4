import Mathlib.Data.List.Forall2
import Parlance.Proofs.Display.Text
import Parlance.Proofs.Reading.Blocks

/-!
# Sources and selectors

Behind a literal, a tuple or a block a word goes on with brackets, which select from it.  Each bracket is a
morpheme of its own, so a source and a chain of selectors are a word: the source alone is a root, and with
selectors behind it the word is qualified.

    IsSource text source → AreSelectors selectors chain →
      IsWord (text ++ displayChain chain) (source :: selectors)                      (isWord_chain)
-/

namespace Parlance

/-! ## Texts of values -/

theorem toList_parentheses (text : String) :
    ("(" ++ text ++ ")").toList = '(' :: text.toList ++ [')'] := by
  rw [String.toList_append, String.toList_append]
  rfl

theorem toList_brace (text : String) : (brace text).toList = '\x7b' :: text.toList ++ ['\x7d'] := by
  rw [brace, String.toList_append, String.toList_append]
  rfl

/-- The texts of the words of a rule. -/
def Value.ruleTexts : Value → List (List Char)
  | .tuple words => words.map fun word => word.display.toList
  | rule => [rule.display.toList]

theorem Value.toList_displayWords (items : List Value) :
    (Value.displayWords items).toList = [' '].intercalate (items.map fun item => item.display.toList) := by
  induction items with
  | nil =>
    rw [Value.displayWords]
    rfl
  | cons item rest ih =>
    cases rest with
    | nil =>
      rw [Value.displayWords]
      simp [List.intercalate]
    | cons next rest =>
      rw [Value.displayWords, String.toList_append, String.toList_append, ih]
      · simp [List.intercalate]
      · simp

theorem Value.toList_displayRule (rule : Value) :
    (Value.displayRule rule).toList = [' '].intercalate rule.ruleTexts := by
  cases rule with
  | tuple words =>
    rw [Value.displayRule]
    exact Value.toList_displayWords words
  | _ =>
    rw [Value.displayRule]
    · simp [Value.ruleTexts, List.intercalate]
    · simp

theorem Value.toList_displayRules (rules : List Value) :
    (Value.displayRules rules).toList =
      [';', ' '].intercalate (rules.map fun rule => [' '].intercalate rule.ruleTexts) := by
  induction rules with
  | nil =>
    rw [Value.displayRules]
    rfl
  | cons rule rest ih =>
    cases rest with
    | nil =>
      rw [Value.displayRules, Value.toList_displayRule]
      simp [List.intercalate]
    | cons next rest =>
      rw [Value.displayRules, String.toList_append, String.toList_append, ih, Value.toList_displayRule]
      · simp [List.intercalate]
      · simp

theorem Value.displaySource_string (text : String) :
    Value.displaySource (.string text) = displaySourceText text := by
  rw [Value.displaySource]
  · rfl
  · simp

namespace Reader

/-- The value that is nothing is written as brackets around nothing. -/
theorem isWord_nil : IsWord (Value.display .nil).toList [⟨.expression ⟨[], none⟩, none⟩] := by
  have hcontent : Content .expression "".toList ⟨[], none⟩ := content_nil .expression
  refine isWord_brackets (by decide) ?_ hcontent
  rw [Value.display]
  rfl

/-! ## Selectors -/

/-- A text that is a selector behind whatever it can select from. -/
structure IsSelector (text : List Char) (morpheme : Morpheme) : Prop where
  adds : ∀ before : List Morpheme,
    (∀ last, before.getLast? = some last → last.kind.isString = false) →
    Adds before text (before ++ [morpheme])
  stops : ∀ rest, Stops (text ++ rest)
  isSelector : morpheme.isSelector = true

/-- A script in brackets is a selector. -/
theorem isSelector_brackets {enclosure : Frame.Enclosure} (henclosure : enclosure ≠ .root)
    {inner display : String} {script : Script}
    (hdisplay : display.toList = enclosure.opening :: inner.toList ++ [enclosure.closing])
    (hcontent : Content enclosure inner.toList script) :
    IsSelector display.toList ⟨enclosure.kind script inner, none⟩ := by
  refine ⟨fun before hlast => adds_display henclosure hdisplay hcontent hlast, fun rest => ?_, ?_⟩
  · rw [hdisplay]
    cases enclosure with
    | root => exact absurd rfl henclosure
    | tuple | block | expression => exact stops_cons (by decide) _
  · cases enclosure with
    | root => exact absurd rfl henclosure
    | tuple | block | expression => rfl

/-- The morphemes of the selectors of a chain. -/
abbrev AreSelectors : List Morpheme → List Selector → Prop :=
  List.Forall₂ fun morpheme selector => IsSelector selector.display.toList morpheme

namespace AreSelectors

variable {selectors : List Morpheme} {chain : List Selector}

theorem isSelector (h : AreSelectors selectors chain) : selectors.all Morpheme.isSelector = true := by
  induction h with
  | nil => rfl
  | cons hselector _ ih => rw [List.all_cons, hselector.isSelector, ih, Bool.and_self]

theorem stops (h : AreSelectors selectors chain) {rest : List Char} (hrest : Stops rest) :
    Stops ((Selector.displayChain chain).toList ++ rest) := by
  cases h with
  | nil =>
    rw [Selector.displayChain]
    exact hrest
  | cons hselector _ =>
    rw [Selector.displayChain, String.toList_append, List.append_assoc]
    exact hselector.stops _

/-- The selectors of a chain are added to a word one after the other. -/
theorem adds (h : AreSelectors selectors chain) {before : List Morpheme}
    (hlast : ∀ last, before.getLast? = some last → last.kind.isString = false) :
    Adds before (Selector.displayChain chain).toList (before ++ selectors) := by
  induction h generalizing before with
  | nil =>
    intro frame below rest hrest
    rw [Selector.displayChain, List.append_nil]
    exact Reads.refl _ _
  | @cons morpheme selector selectors chain hselector hothers ih =>
    intro frame below rest hrest
    have hstring : ∀ last, (before ++ [morpheme]).getLast? = some last →
        last.kind.isString = false := by
      intro last hlast
      rw [List.getLast?_concat] at hlast
      rw [← Option.some.inj hlast]
      have hkind : morpheme.kind.isSelector = true := hselector.isSelector
      revert hkind
      cases morpheme.kind <;> first | exact fun _ => rfl | exact fun h => by cases h
    have hone := hselector.adds before hlast frame below _ (AreSelectors.stops hothers hrest)
    have hmore := ih hstring frame below rest hrest
    rw [List.append_assoc] at hmore
    rw [Selector.displayChain, String.toList_append]
    exact hone.trans hmore

end AreSelectors

/-! ## Sources -/

/-- A text that is a root on its own and can be selected from. -/
structure IsSource (text : List Char) (morpheme : Morpheme) : Prop where
  isWord : IsWord text [morpheme]
  notString : morpheme.kind.isString = false
  shaped : ∀ rest, rest.all Morpheme.isSelector = true →
    Morpheme.shape (morpheme :: rest) = if rest.isEmpty then .root else .qualified

theorem isSource_literal {text : String} (h : isLiteralSafe text = true) :
    IsSource text.toList ⟨.literal text, none⟩ := by
  refine ⟨isWord_literal h, rfl, fun rest hall => ?_⟩
  cases rest with
  | nil => rfl
  | cons next rest => exact if_pos hall

theorem isSource_brackets {enclosure : Frame.Enclosure} (henclosure : enclosure = .tuple ∨ enclosure = .block)
    {inner display : String} {script : Script}
    (hdisplay : display.toList = enclosure.opening :: inner.toList ++ [enclosure.closing])
    (hcontent : Content enclosure inner.toList script) :
    IsSource display.toList ⟨enclosure.kind script inner, none⟩ := by
  have hroot : enclosure ≠ .root := by rcases henclosure with rfl | rfl <;> decide
  refine ⟨isWord_brackets hroot hdisplay hcontent, ?_, fun rest hall => ?_⟩
  · rcases henclosure with rfl | rfl <;> rfl
  · rcases henclosure with rfl | rfl <;> cases rest <;> first | rfl | exact if_pos hall

/-- A text that is safe between braces is that of a block that was parsed. -/
theorem exists_faithful {text : String} (h : isBlockSafe text = true) :
    ∃ script, Faithful (script, text) := by
  unfold isBlockSafe at h
  split at h
  case h_1 script value _ _ _ _ hparse =>
    have hvalue : value = text := eq_of_beq h
    subst hvalue
    refine ⟨script, faithful_of_parse hparse ?_⟩
    simp [Script.blocks, Sentence.allBlocks, Word.allBlocks, Morpheme.allBlocks, Morpheme.Kind.blocks]
  case h_2 => cases h

/-! ## Words -/

variable {source : Morpheme} {text : List Char} {selectors : List Morpheme} {chain : List Selector}

theorem shape_chain (hsource : IsSource text source) (hselectors : AreSelectors selectors chain) :
    Morpheme.shape (source :: selectors) = if chain.isEmpty then .root else .qualified := by
  rw [hsource.shaped selectors (AreSelectors.isSelector hselectors)]
  cases hselectors <;> rfl

/-- A source with a chain of selectors behind it is a word. -/
theorem isWord_chain (hsource : IsSource text source) (hselectors : AreSelectors selectors chain) :
    IsWord (text ++ (Selector.displayChain chain).toList) (source :: selectors) := by
  refine ⟨fun frame below rest hrest => ?_, ?_, ?_⟩
  · have hlast : ∀ last, [source].getLast? = some last → last.kind.isString = false := by
      intro last hlast
      rw [← Option.some.inj hlast]
      exact hsource.notString
    have hfirst := hsource.isWord.adds frame below _ (AreSelectors.stops hselectors hrest)
    exact hfirst.trans (AreSelectors.adds hselectors hlast frame below rest hrest)
  · obtain ⟨c, more, hstarts, hblank⟩ := hsource.isWord.starts
    exact ⟨c, more ++ (Selector.displayChain chain).toList, by rw [hstarts]; rfl, hblank⟩
  · rw [shape_chain hsource hselectors]
    split <;> decide

end Reader

end Parlance
