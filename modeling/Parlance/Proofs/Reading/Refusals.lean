import Parlance.Proofs.Reading.Grown

/-!
# Tokens that are refused

A token is refused for what it is, a bracket, quotes or a `#` where none fits, or for what stands right
before it: a string, to which nothing can be added, or a word that ends without a valid shape.

    read r s = .error cause → Refuses r cause                                      (refuses_of_read)
    Refuses r cause → cause.isIncomplete = false                           (Refuses.not_isIncomplete)
-/

namespace Parlance

open ParseError (Cause)

namespace Parser

open Parlance.Frame (Ordered)

/-- What a token can be refused for. -/
inductive Refuses (reading : Reading) : Cause → Prop
  | unmatched {delimiter : Delimiter} (hkind : closes reading.token.kind = some delimiter) :
    Refuses reading (.unmatchedRight delimiter)
  | mismatched {delimiter : Delimiter} (hkind : closes reading.token.kind = some delimiter) :
    Refuses reading (.mismatchedRight delimiter)
  | quotes (hkind : reading.token.kind = .stringDelimiter) : Refuses reading .unexpectedStringDelimiter
  | comment (hkind : reading.token.kind = .comment) : Refuses reading .unexpectedCommentDelimiter
  | behindString : Refuses reading .extraCharactersAfterStringDelimiter
  | misshaped : Refuses reading .syntaxError

variable {reading : Reading} {below stack : List Frame} {frame : Frame.Sentences} {cause : Cause}

/-- More input does not help a token that is refused. -/
theorem Refuses.not_isIncomplete (h : Refuses reading cause) : cause.isIncomplete = false := by
  cases h <;> rfl

theorem refuses_editWord {position : Option Position} {edit : Draft → Draft}
    (h : frame.editWord position edit = .error cause) : Refuses reading cause := by
  unfold Frame.Sentences.editWord at h
  dsimp only at h
  split at h <;> cases h
  exact .behindString

theorem refuses_closeWord (h : frame.closeWord = .error cause) : Refuses reading cause := by
  unfold Frame.Sentences.closeWord at h
  split at h
  · cases h
  · dsimp only at h
    split at h <;> cases h
    exact .misshaped

theorem refuses_addMorpheme {morpheme : Morpheme} (h : Frame.addMorpheme morpheme stack = .error cause) :
    Refuses reading cause := by
  unfold Frame.addMorpheme at h
  split at h
  · exact refuses_editWord (map_eq_error h)
  · cases h
  · cases h
    exact .misshaped

theorem refuses_matchBracket {delimiter : Delimiter} (hkind : closes reading.token.kind = some delimiter)
    (h : matchBracket reading delimiter frame below = .error cause) : Refuses reading cause := by
  unfold matchBracket at h
  split at h
  · cases h
    exact .unmatched hkind
  · split at h
    · rcases bind_eq_error h with hfinish | ⟨script, -, h⟩
      · exact refuses_closeWord (map_eq_error (map_eq_error hfinish))
      · split at h
        · cases h
          exact .misshaped
        all_goals exact refuses_addMorpheme h
    · cases h
      exact .mismatched hkind

theorem refuses_readInSentences (h : readInSentences reading frame below = .error cause) :
    Refuses reading cause := by
  unfold readInSentences at h
  dsimp only at h
  cases hkind : reading.token.kind <;> simp only [hkind] at h
  case whitespace | continuation => exact refuses_closeWord (map_eq_error h)
  case newline | semicolon => exact refuses_closeWord (map_eq_error (map_eq_error h))
  case comment =>
    split at h
    · cases h
    · split at h
      · cases h
        exact .comment hkind
      · exact refuses_editWord (map_eq_error h)
  case closeTuple | closeBlock | closeExpression =>
    exact refuses_matchBracket (by rw [hkind]; rfl) h
  case stringDelimiter =>
    split at h <;> cases h
    exact .quotes hkind
  all_goals exact refuses_editWord (map_eq_error h)

theorem refuses_readInQuoted {frame : Frame.Quoted} (h : readInQuoted reading frame below = .error cause) :
    Refuses reading cause := by
  unfold readInQuoted at h
  dsimp only at h
  cases hkind : reading.token.kind <;> simp only [hkind] at h
  case stringDelimiter =>
    split at h
    · cases h
      exact .behindString
    · exact refuses_addMorpheme h
  case comment =>
    split at h <;> cases h
    exact .comment hkind
  case openTuple | openBlock => split at h <;> cases h
  all_goals cases h

theorem refuses_readInside (h : readInside reading stack = .error cause) : Refuses reading cause := by
  unfold readInside at h
  split at h
  · exact refuses_readInSentences h
  · exact refuses_readInQuoted h
  · cases h
    exact .misshaped

/-- Every token that cannot be read is refused for one of these. -/
theorem refuses_of_read (hs : Ordered stack) (h : read reading stack = .error cause) :
    Refuses reading cause := by
  cases stack with
  | nil => cases hs
  | cons top below =>
    have hraw : ((∃ frame, top = .here frame) ∨ (∃ frame, top = .tagged frame) ∨
        ∃ frame, top = .blockComment frame) → Refuses reading cause := by
      intro htop
      obtain ⟨after, hafter⟩ := exists_read_of_raw hs htop reading
      rw [hafter] at h
      cases h
    cases top with
    | sentences frame => exact refuses_readInSentences h
    | quoted frame => exact refuses_readInQuoted h
    | here frame => exact hraw (.inl ⟨frame, rfl⟩)
    | tagged frame => exact hraw (.inr (.inl ⟨frame, rfl⟩))
    | blockComment frame => exact hraw (.inr (.inr ⟨frame, rfl⟩))
    | quotePair openedAt position =>
      unfold read at h
      dsimp only at h
      split at h
      · cases h
      · rcases bind_eq_error h with hadd | ⟨next, -, hinside⟩
        · exact refuses_addMorpheme hadd
        · exact refuses_readInside hinside
    | lineComment frame =>
      unfold read at h
      dsimp only at h
      split at h
      · cases h
      · split at h
        · rcases bind_eq_error h with hadd | ⟨next, -, hinside⟩
          · exact refuses_addMorpheme hadd
          · exact refuses_readInside hinside
        · cases h

end Parser

end Parlance
