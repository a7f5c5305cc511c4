import Parlance.Proofs.Lexemes
import Parlance.Proofs.Reading.Effect

/-!
# Stacks that are moved

Reading does not depend on where the text stands: on the tokens read before the first frame was
opened, on the frames below it, on what encloses it, or on positions that the tree does not hold.
`Frame.moved` is a frame as it is behind `offset` more tokens, inside `base` and without positions.

    read (r.moved before) (s.map (moved before.size base) ++ below) =
      (read r s).map (fun s => s.map (moved before.size base) ++ below)              (read_moved)

The only token that goes beyond the frames of a stack is a bracket that closes the last of them; in
the whole script it is an error.
-/

namespace Parlance

open ParseError (Cause)

namespace Frame

/-- Sentences behind `offset` more tokens; those of the whole script are enclosed by `base`. -/
def Sentences.moved (offset : Nat) (base : Enclosure) (frame : Sentences) : Sentences :=
  { frame with
    enclosure := if frame.enclosure = .root then base else frame.enclosure
    openedAt := .start
    textStart := frame.textStart + offset }

/-- A frame behind `offset` more tokens, with the whole script inside `base`. -/
def moved (offset : Nat) (base : Enclosure) : Frame → Frame
  | .sentences frame => .sentences (frame.moved offset base)
  | .quoted frame => .quoted { frame with openedAt := .start }
  | .quotePair _ position => .quotePair .start position
  | .here frame =>
    .here { frame with openedAt := .start, textStart := frame.textStart + offset }
  | .tagged frame =>
    .tagged { frame with
      openedAt := .start
      textStart := frame.textStart.map (· + offset)
      tagStart := frame.tagStart.map (· + offset) }
  | .lineComment frame =>
    .lineComment { frame with openedAt := .start, textStart := frame.textStart + offset }
  | .blockComment frame =>
    .blockComment { frame with
      openedAt := .start
      textStart := frame.textStart + offset
      closeStart := frame.closeStart.map (· + offset) }

section Sentences

variable {offset : Nat} {base : Enclosure} (frame : Sentences)

theorem Sentences.editWord_moved (position : Option Position) (edit : Draft → Draft) :
    (frame.moved offset base).editWord position edit =
      (frame.editWord position edit).map (moved offset base) := by
  unfold editWord
  show (if (frame.word.getD ⟨.empty, position⟩).morphemes.endsWithString then _ else _) = _
  by_cases h : (frame.word.getD ⟨.empty, position⟩).morphemes.endsWithString
  · simp only [h, if_true]
    rfl
  · simp only [h]
    rfl

theorem Sentences.pushMorpheme_moved (morpheme : Morpheme) :
    (frame.moved offset base).pushMorpheme morpheme =
      (frame.pushMorpheme morpheme).map (moved offset base) :=
  frame.editWord_moved morpheme.position (Draft.push morpheme)

theorem Sentences.closeWord_moved :
    (frame.moved offset base).closeWord = frame.closeWord.map (moved offset base) := by
  obtain ⟨enclosure, openedAt, position, textStart, sentences, words, sentencePosition, word⟩ := frame
  rcases word with _ | ⟨morphemes, start⟩
  · rfl
  · simp only [closeWord, Sentences.moved]
    split <;> rfl

theorem Sentences.closeSentence_moved :
    (frame.moved offset base).closeSentence = frame.closeSentence.map (moved offset base) := by
  rw [closeSentence, closeSentence, closeWord_moved]
  cases frame.closeWord with
  | error cause => rfl
  | ok frame =>
    simp only [Except.map, Sentences.moved]
    split <;> rfl

theorem Sentences.finish_moved : (frame.moved offset base).finish = frame.finish := by
  rw [finish, finish, closeSentence_moved]
  cases frame.closeSentence <;> rfl

end Sentences

/-- A stack behind more tokens and on top of more frames. -/
def move (offset : Nat) (base : Enclosure) (below stack : List Frame) : List Frame :=
  stack.map (moved offset base) ++ below

theorem move_cons (offset : Nat) (base : Enclosure) (below : List Frame) (frame : Frame)
    (stack : List Frame) :
    move offset base below (frame :: stack) = frame.moved offset base :: move offset base below stack :=
  rfl

/-- A morpheme is handed to the same frame. -/
theorem addMorpheme_move {offset : Nat} {base : Enclosure} {below stack : List Frame}
    (morpheme : Morpheme) (h : stack ≠ []) :
    addMorpheme morpheme (move offset base below stack) =
      (addMorpheme morpheme stack).map (move offset base below) := by
  cases stack with
  | nil => exact absurd rfl h
  | cons frame stack =>
    rw [move_cons]
    cases frame with
    | sentences frame =>
      simp only [moved, addMorpheme, Sentences.pushMorpheme_moved]
      cases frame.pushMorpheme morpheme <;> rfl
    | _ => rfl

end Frame

namespace Parser

/-- A reading behind the tokens `before`, without the place of its token. -/
def Reading.moved (before : Array String) (reading : Reading) : Reading :=
  ⟨reading.options, reading.token.unplaced, before ++ reading.log⟩

section Reading

variable {before : Array String} {reading : Reading}

theorem Reading.position_eq_none (h : reading.options = ⟨false⟩) : reading.position = none := by
  rw [Reading.position, h]
  rfl

theorem Reading.after_moved : (reading.moved before).after = reading.after + before.size := by
  show (before ++ reading.log).size = reading.log.size + before.size
  rw [Array.size_append, Nat.add_comm]

theorem Reading.before_moved (h : 0 < reading.log.size) :
    (reading.moved before).before = reading.before + before.size := by
  show (before ++ reading.log).size - 1 = reading.log.size - 1 + before.size
  rw [Array.size_append]
  omega

/-- The text between two tokens is the same behind more tokens. -/
theorem text_moved (before log : Array String) (first last : Nat) :
    Reading.text (before ++ log) (first + before.size) (last + before.size) =
      Reading.text log first last := by
  have hextract : (before ++ log).extract (first + before.size) (last + before.size) =
      log.extract first last := by
    rw [Array.extract_append]
    simp
  rw [Reading.text, hextract, Reading.text]

end Reading

/-! ## Reading a token in a moved stack -/

section Moved

variable {reading : Reading} (hlog : 0 < reading.log.size) (before : Array String)
  (base : Frame.Enclosure) (below : List Frame)

section Brackets

include hlog

theorem closeBracket_moved (frame : Frame.Sentences) {rest : List Frame}
    (hframe : frame.enclosure ≠ .root) (hrest : rest ≠ []) :
    closeBracket (reading.moved before) (frame.moved before.size base)
        (Frame.move before.size base below rest) =
      (closeBracket reading frame rest).map (Frame.move before.size base below) := by
  have henclosure : (frame.moved before.size base).enclosure = frame.enclosure := if_neg hframe
  have htext : Reading.text (reading.moved before).log (frame.moved before.size base).textStart
      (reading.moved before).before = Reading.text reading.log frame.textStart reading.before := by
    rw [Reading.before_moved hlog]
    exact text_moved before reading.log frame.textStart reading.before
  have hposition : (frame.moved before.size base).position = frame.position := rfl
  unfold closeBracket
  rw [frame.finish_moved, henclosure, htext, hposition]
  cases frame.finish with
  | error cause => rfl
  | ok script =>
    simp only [Except.bind]
    cases henclosure : frame.enclosure with
    | root => exact absurd henclosure hframe
    | tuple | block | expression => exact Frame.addMorpheme_move _ hrest

/-- A closing bracket, unless it closes what encloses the stack. -/
theorem matchBracket_moved (delimiter : Delimiter) (frame : Frame.Sentences) {rest : List Frame}
    (hrest : frame.enclosure ≠ .root → rest ≠ [])
    (hclose : base = .root ∨ frame.enclosure ≠ .root) :
    matchBracket (reading.moved before) delimiter (frame.moved before.size base)
        (Frame.move before.size base below rest) =
      (matchBracket reading delimiter frame rest).map (Frame.move before.size base below) := by
  by_cases hframe : frame.enclosure = .root
  · have hbase : base = .root := hclose.resolve_right fun h => h hframe
    have henclosure : (frame.moved before.size base).enclosure = .root := by
      rw [hbase]
      exact if_pos hframe
    unfold matchBracket
    rw [hframe, henclosure]
    rfl
  · have henclosure : (frame.moved before.size base).enclosure = frame.enclosure := if_neg hframe
    unfold matchBracket
    rw [henclosure]
    cases frame.enclosure.delimiter with
    | none => rfl
    | some expected =>
      by_cases hexpected : expected = delimiter
      · simp only [hexpected, if_true]
        exact closeBracket_moved hlog before base below frame hframe (hrest hframe)
      · simp only [hexpected, if_false]
        rfl

end Brackets

theorem openBracket_moved (hoptions : reading.options = ⟨false⟩) {enclosure : Frame.Enclosure}
    (h : enclosure ≠ .root) (rest : List Frame) :
    openBracket (reading.moved before) enclosure (Frame.move before.size base below rest) =
      Frame.move before.size base below (openBracket reading enclosure rest) := by
  have hstart : (Frame.Sentences.start enclosure reading.token.position none reading.after).moved
      before.size base = .start enclosure .start none (reading.after + before.size) := by
    simp [Frame.Sentences.moved, Frame.Sentences.start, h]
  have hposition : (reading.moved before).position = none := Reading.position_eq_none hoptions
  rw [openBracket, openBracket, Frame.move_cons, Frame.moved, Reading.after_moved, hposition,
    Reading.position_eq_none hoptions, hstart]
  rfl

theorem openQuotes_moved (hoptions : reading.options = ⟨false⟩) :
    openQuotes (reading.moved before) = (openQuotes reading).moved before.size base := by
  have hposition : (reading.moved before).position = none := Reading.position_eq_none hoptions
  have hlength : (reading.moved before).token.runLength = reading.token.runLength := rfl
  unfold openQuotes
  rw [hlength, Reading.after_moved, hposition, Reading.position_eq_none hoptions]
  dsimp only
  split <;> rfl

/-- Sentences that changed, in their moved stack. -/
theorem map_sentences_moved (result : Except Cause Frame.Sentences) (rest : List Frame) :
    (result.map (Frame.Sentences.moved before.size base)).map
        (fun frame => Frame.sentences frame :: Frame.move before.size base below rest) =
      (result.map fun frame => Frame.sentences frame :: rest).map
        (Frame.move before.size base below) := by
  cases result <;> rfl

/-- An edit of the open word, in the moved stack. -/
theorem editWord_move (position : Option Position) (change : Draft → Draft) (frame : Frame.Sentences)
    (rest : List Frame) :
    (((frame.moved before.size base).editWord position change).map
        fun frame => Frame.sentences frame :: Frame.move before.size base below rest) =
      ((frame.editWord position change).map fun frame => Frame.sentences frame :: rest).map
        (Frame.move before.size base below) := by
  rw [frame.editWord_moved, map_sentences_moved]

/-- A bracket that opens within the open word, in the moved stack. -/
theorem openWithin_move (hoptions : reading.options = ⟨false⟩) {enclosure : Frame.Enclosure}
    (henclosure : enclosure ≠ .root) (position : Option Position) (frame : Frame.Sentences)
    (rest : List Frame) :
    (((frame.moved before.size base).editWord position id).map fun frame =>
        openBracket (reading.moved before) enclosure
          (.sentences frame :: Frame.move before.size base below rest)) =
      ((frame.editWord position id).map fun frame =>
        openBracket reading enclosure (.sentences frame :: rest)).map
        (Frame.move before.size base below) := by
  rw [frame.editWord_moved]
  cases frame.editWord position id with
  | error cause => rfl
  | ok frame =>
    have hopened := openBracket_moved before base below hoptions henclosure
      (.sentences frame :: rest)
    exact congrArg Except.ok hopened

include hlog

theorem readInSentences_moved (hoptions : reading.options = ⟨false⟩) (frame : Frame.Sentences)
    {rest : List Frame} (hrest : frame.enclosure ≠ .root → rest ≠ [])
    (hclose : base = .root ∨ closes reading.token.kind = none ∨ frame.enclosure ≠ .root) :
    readInSentences (reading.moved before) (frame.moved before.size base)
        (Frame.move before.size base below rest) =
      (readInSentences reading frame rest).map (Frame.move before.size base below) := by
  have hposition : (reading.moved before).position = reading.position := by
    rw [Reading.position_eq_none hoptions]
    exact Reading.position_eq_none hoptions
  have hliteral : (reading.moved before).token.literal = reading.token.literal := rfl
  have hword : (frame.moved before.size base).word = frame.word := rfl
  have hkind : (reading.moved before).token.kind = reading.token.kind := rfl
  have hmatch : ∀ delimiter, closes reading.token.kind = some delimiter →
      matchBracket (reading.moved before) delimiter (frame.moved before.size base)
        (Frame.move before.size base below rest) =
      (matchBracket reading delimiter frame rest).map (Frame.move before.size base below) :=
    fun delimiter h => matchBracket_moved hlog before base below delimiter frame hrest
      (hclose.imp id fun hclose => hclose.resolve_left (by rw [h]; exact Option.some_ne_none _))
  unfold readInSentences
  simp only [hposition, hliteral, hword, hkind]
  cases hk : reading.token.kind <;> dsimp only
  case whitespace | continuation =>
    simp only [frame.closeWord_moved]
    exact map_sentences_moved before base below _ rest
  case newline | semicolon =>
    simp only [frame.closeSentence_moved]
    exact map_sentences_moved before base below _ rest
  case text | escape | asterisk | dollar => exact editWord_move before base below _ _ frame rest
  case comment =>
    cases frame.word with
    | none =>
      simp only [Reading.after_moved]
      rfl
    | some word =>
      dsimp only
      by_cases hpending : word.morphemes.isPending
      · simp only [hpending, if_true]
        rfl
      · simp only [hpending]
        exact editWord_move before base below _ _ frame rest
  case openTuple | openBlock | openExpression =>
    exact openWithin_move before base below hoptions (by decide) _ frame rest
  case closeTuple | closeBlock | closeExpression => exact hmatch _ (by rw [hk]; rfl)
  case stringDelimiter =>
    cases frame.word with
    | none =>
      simp only [openQuotes_moved before base hoptions]
      rfl
    | some word => rfl

omit hlog in
theorem readInQuoted_moved (hoptions : reading.options = ⟨false⟩) (frame : Frame.Quoted)
    {rest : List Frame} (hrest : rest ≠ []) :
    readInQuoted (reading.moved before) { frame with openedAt := .start }
        (Frame.move before.size base below rest) =
      (readInQuoted reading frame rest).map (Frame.move before.size base below) := by
  have hposition : (reading.moved before).position = reading.position := by
    rw [Reading.position_eq_none hoptions]
    exact Reading.position_eq_none hoptions
  have hliteral : (reading.moved before).token.literal = reading.token.literal := rfl
  have hlength : (reading.moved before).token.runLength = reading.token.runLength := rfl
  have hkind : (reading.moved before).token.kind = reading.token.kind := rfl
  have hopen : ∀ enclosure, enclosure ≠ .root →
      openBracket (reading.moved before) enclosure
        (.quoted { frame with openedAt := .start } :: Frame.move before.size base below rest) =
      Frame.move before.size base below (openBracket reading enclosure (.quoted frame :: rest)) :=
    fun enclosure h => openBracket_moved before base below hoptions h (.quoted frame :: rest)
  unfold readInQuoted
  simp only [hposition, hliteral, hlength, hkind]
  cases reading.token.kind <;> dsimp only
  case stringDelimiter =>
    by_cases hone : reading.token.runLength > 1
    · simp only [hone, if_true]
      rfl
    · simp only [hone, if_false]
      exact Frame.addMorpheme_move _ hrest
  case comment =>
    by_cases hpending : frame.morphemes.isPending
    · simp only [hpending, if_true]
      rfl
    · simp only [hpending]
      rfl
  case openExpression =>
    rw [hopen .expression (by decide)]
    rfl
  case openTuple =>
    by_cases hexpecting : frame.morphemes.expecting = .nothing
    · simp only [hexpecting, if_true]
      rfl
    · simp only [hexpecting, if_false]
      rw [hopen .tuple (by decide)]
      rfl
  case openBlock =>
    by_cases hexpecting : frame.morphemes.expecting = .nothing
    · simp only [hexpecting, if_true]
      rfl
    · simp only [hexpecting, if_false]
      rw [hopen .block (by decide)]
      rfl
  all_goals rfl

theorem readInHere_moved (frame : Frame.Here) {rest : List Frame} (hrest : rest ≠ []) :
    readInHere (reading.moved before)
        { frame with openedAt := .start, textStart := frame.textStart + before.size }
        (Frame.move before.size base below rest) =
      (readInHere reading frame rest).map (Frame.move before.size base below) := by
  have hkind : (reading.moved before).token.kind = reading.token.kind := rfl
  have hlength : (reading.moved before).token.runLength = reading.token.runLength := rfl
  have htext : Reading.text (reading.moved before).log (frame.textStart + before.size)
      (reading.moved before).before = Reading.text reading.log frame.textStart reading.before := by
    rw [Reading.before_moved hlog]
    exact text_moved before reading.log frame.textStart reading.before
  unfold readInHere
  simp only [hkind, hlength, htext]
  by_cases hend : reading.token.kind = .stringDelimiter ∧
      reading.token.runLength = frame.delimiterLength
  · simp only [hend]
    exact Frame.addMorpheme_move _ hrest
  · simp only [hend, if_false]
    rfl

theorem readInTagged_moved (frame : Frame.Tagged) {rest : List Frame} (hrest : rest ≠ []) :
    readInTagged (reading.moved before)
        { frame with
          openedAt := .start
          textStart := frame.textStart.map (· + before.size)
          tagStart := frame.tagStart.map (· + before.size) }
        (Frame.move before.size base below rest) =
      (readInTagged reading frame rest).map (Frame.move before.size base below) := by
  have hkind : (reading.moved before).token.kind = reading.token.kind := rfl
  have hliteral : (reading.moved before).token.literal = reading.token.literal := rfl
  have hlength : (reading.moved before).token.runLength = reading.token.runLength := rfl
  obtain ⟨openedAt, position, tag, textStart, tagStart⟩ := frame
  unfold readInTagged
  simp only [hkind, hliteral, hlength, Reading.after_moved, Reading.before_moved hlog]
  cases textStart with
  | none =>
    dsimp only [Option.map_none]
    by_cases hnewline : reading.token.kind = .newline
    · simp only [hnewline, if_true]
      rfl
    · simp only [hnewline, if_false]
      rfl
  | some textStart =>
    dsimp only [Option.map_some]
    have hgoOn : (Except.ok (Frame.tagged ⟨.start, position, tag, some (textStart + before.size),
          if reading.token.kind = .text ∧ reading.token.literal = tag then
            some (reading.before + before.size) else none⟩ ::
          Frame.move before.size base below rest) : Except Cause (List Frame)) =
        (Except.ok (Frame.tagged ⟨openedAt, position, tag, some textStart,
          if reading.token.kind = .text ∧ reading.token.literal = tag then
            some reading.before else none⟩ :: rest) : Except Cause (List Frame)).map
          (Frame.move before.size base below) := by
      by_cases htag : reading.token.kind = .text ∧ reading.token.literal = tag
      · simp only [htag, and_self, if_true]
        rfl
      · simp only [htag, if_false]
        rfl
    cases tagStart with
    | none => exact hgoOn
    | some tagStart =>
      dsimp only [Option.map_some]
      have htext : Reading.text (reading.moved before).log (textStart + before.size)
          (tagStart + before.size) = Reading.text reading.log textStart tagStart :=
        text_moved before reading.log textStart tagStart
      by_cases hend : reading.token.kind = .stringDelimiter ∧ reading.token.runLength = 2
      · simp only [hend, and_self, if_true, htext]
        exact Frame.addMorpheme_move _ hrest
      · simp only [hend, if_false]
        exact hgoOn

theorem readInBlockComment_moved (frame : Frame.BlockComment) {rest : List Frame}
    (hrest : rest ≠ []) :
    readInBlockComment (reading.moved before)
        { frame with
          openedAt := .start
          textStart := frame.textStart + before.size
          closeStart := frame.closeStart.map (· + before.size) }
        (Frame.move before.size base below rest) =
      (readInBlockComment reading frame rest).map (Frame.move before.size base below) := by
  have hkind : (reading.moved before).token.kind = reading.token.kind := rfl
  have hlength : (reading.moved before).token.runLength = reading.token.runLength := rfl
  obtain ⟨openedAt, position, delimiterLength, textStart, nesting, afterHash, closeStart⟩ := frame
  unfold readInBlockComment
  simp only [hkind, hlength, Reading.before_moved hlog]
  cases reading.token.kind <;> dsimp only
  case comment =>
    by_cases hrun : reading.token.runLength = delimiterLength
    · simp only [hrun, if_true]
      cases closeStart with
      | none => rfl
      | some closeStart =>
        dsimp only [Option.map_some]
        have htext : Reading.text (reading.moved before).log (textStart + before.size)
            (closeStart + before.size) = Reading.text reading.log textStart closeStart :=
          text_moved before reading.log textStart closeStart
        by_cases hlast : nesting - 1 = 0
        · simp only [hlast, if_true, htext]
          exact Frame.addMorpheme_move _ hrest
        · simp only [hlast, if_false]
          rfl
    · simp only [hrun, if_false]
      rfl
  all_goals rfl

theorem readInside_moved (hoptions : reading.options = ⟨false⟩) {stack : List Frame}
    (hstack : Frame.Stacked stack)
    (hclose : base = .root ∨ closes reading.token.kind = none ∨
      ∀ frame, stack ≠ [.sentences frame]) :
    readInside (reading.moved before) (Frame.move before.size base below stack) =
      (readInside reading stack).map (Frame.move before.size base below) := by
  cases stack with
  | nil => exact absurd rfl hstack.ne_nil
  | cons frame rest =>
    rw [Frame.move_cons]
    cases frame with
    | sentences frame =>
      have hrest : frame.enclosure ≠ .root → rest ≠ [] := fun hframe =>
        hstack.below_ne_nil fun hrole => hframe (Frame.Role.sentences.inj hrole).1
      refine readInSentences_moved hlog before base below hoptions frame hrest ?_
      refine hclose.imp id fun hclose => hclose.imp id fun hclose hframe => ?_
      exact hclose frame (congrArg _ (hstack.below_root hframe))
    | quoted frame =>
      refine readInQuoted_moved before base below hoptions frame ?_
      exact hstack.below_ne_nil (by rintro ⟨⟩)
    | _ => rfl

/-- A frame that ends before its token, in a moved stack. -/
theorem settled_moved (hoptions : reading.options = ⟨false⟩) {rest : List Frame}
    (hrest : Frame.Stacked rest) (morpheme : Morpheme)
    (hclose : base = .root ∨ closes reading.token.kind = none ∨
      ∀ frame, Frame.addMorpheme morpheme rest ≠ .ok [.sentences frame]) :
    (Frame.addMorpheme morpheme (Frame.move before.size base below rest)).bind
        (readInside (reading.moved before)) =
      ((Frame.addMorpheme morpheme rest).bind (readInside reading)).map
        (Frame.move before.size base below) := by
  rw [Frame.addMorpheme_move morpheme hrest.ne_nil]
  cases hadd : Frame.addMorpheme morpheme rest with
  | error cause => rfl
  | ok next =>
    obtain ⟨outer, after, tail, rfl, rfl, hrole, -⟩ := addMorpheme_eq_ok hadd
    refine readInside_moved hlog before base below hoptions (hrest.replace hrole) ?_
    refine hclose.imp id fun hclose => hclose.imp id fun hclose frame hframe => ?_
    exact hclose frame (by rw [hadd, hframe])

/-- A token has the same effect on a moved stack, unless it closes what encloses the stack. -/
theorem read_moved (hoptions : reading.options = ⟨false⟩) {stack : List Frame}
    (hstack : Frame.Stacked stack)
    (hclose : base = .root ∨ closes reading.token.kind = none ∨
      ∀ frame, ¬ Settles reading stack [.sentences frame]) :
    read (reading.moved before) (Frame.move before.size base below stack) =
      (read reading stack).map (Frame.move before.size base below) := by
  have hkind : (reading.moved before).token.kind = reading.token.kind := rfl
  have hliteral : (reading.moved before).token.literal = reading.token.literal := rfl
  cases stack with
  | nil => exact absurd rfl hstack.ne_nil
  | cons frame rest =>
    have hraw : frame.role ≠ .sentences .root 0 none → Frame.Stacked rest := by
      intro hrole
      obtain ⟨outer, tail, rfl⟩ := List.exists_cons_of_ne_nil (hstack.below_ne_nil hrole)
      exact hstack.tail
    cases frame with
    | sentences frame | quoted frame =>
      refine readInside_moved hlog before base below hoptions hstack ?_
      refine hclose.imp id fun hclose => hclose.imp id fun hclose frame' hframe => ?_
      exact hclose frame' (by rw [← hframe]; exact .keep _)
    | here frame =>
      exact readInHere_moved hlog before base below frame (hraw (by rintro ⟨⟩)).ne_nil
    | tagged frame =>
      exact readInTagged_moved hlog before base below frame (hraw (by rintro ⟨⟩)).ne_nil
    | blockComment frame =>
      exact readInBlockComment_moved hlog before base below frame
        (hraw (by rintro ⟨⟩)).ne_nil
    | quotePair openedAt position =>
      have hrest := hraw (by rintro ⟨⟩)
      rw [Frame.move_cons]
      unfold read
      dsimp only [Frame.moved]
      rw [hkind, hliteral]
      by_cases htext : reading.token.kind = .text
      · simp only [htext, if_true]
        rfl
      · simp only [htext, if_false]
        refine settled_moved hlog before base below hoptions hrest _ ?_
        exact hclose.imp id fun hclose => hclose.imp id fun hclose frame h => hclose frame (.pair h)
    | lineComment frame =>
      have hrest := hraw (by rintro ⟨⟩)
      rw [Frame.move_cons]
      unfold read
      dsimp only [Frame.moved]
      rw [hkind]
      by_cases hopen : frame.fresh ∧ reading.token.kind = .openBlock
      · simp only [hopen, and_self, if_true, Reading.after_moved]
        rfl
      · by_cases hnewline : reading.token.kind = .newline
        · have hcomment : lineComment (reading.moved before).log (reading.moved before).before
              { frame with openedAt := .start, textStart := frame.textStart + before.size } =
              lineComment reading.log reading.before frame := by
            rw [Reading.before_moved hlog]
            unfold lineComment
            rw [Reading.moved, text_moved]
          simp only [hnewline, reduceCtorEq, and_false, if_false, if_true, hcomment]
          refine settled_moved hlog before base below hoptions hrest _ (.inr (.inl ?_))
          rw [hnewline]
          rfl
        · simp only [hopen, hnewline, if_false]
          rfl

end Moved

end Parser

end Parlance
