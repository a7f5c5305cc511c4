import Parlance.Proofs.Erased
import Parlance.Proofs.Reading.Run

/-!
# Reading without positions

Recording positions changes nothing else.  A parser that records them goes through the same frames as
one that does not, and what it makes of the tokens is the same script, erased, or the same failure at
the same place.  When nothing is recorded, the places of the tokens show up in failures only.

    read r.erased (s.map erased) = (read r s).map (fun s => s.map erased)              (read_erased)
    push t p.erased = ((push t p).1, (push t p).2.erased)                              (push_erased)
    (parse tokens with positions).map erased = parse tokens without           (parse_positions_erased)
-/

namespace Parlance

open ParseError (Cause)

namespace Frame

/-- An open word without positions. -/
def OpenWord.erased (word : OpenWord) : OpenWord := ⟨word.morphemes.erased, none⟩

/-- A list of sentences under construction without the positions that the tree would hold. -/
def Sentences.erased (frame : Sentences) : Sentences :=
  { frame with
    position := none
    sentences := frame.sentences.map Sentence.erased
    words := frame.words.map Word.erased
    sentencePosition := none
    word := frame.word.map OpenWord.erased }

/-- A frame without the positions that the tree would hold. -/
def erased : Frame → Frame
  | .sentences frame => .sentences frame.erased
  | .quoted frame => .quoted { frame with position := none, morphemes := frame.morphemes.erased }
  | .quotePair openedAt _ => .quotePair openedAt none
  | .here frame => .here { frame with position := none }
  | .tagged frame => .tagged { frame with position := none }
  | .lineComment frame => .lineComment { frame with position := none }
  | .blockComment frame => .blockComment { frame with position := none }

/-! ## Sentences -/

namespace Sentences

variable (frame : Sentences)

/-- An edit that commutes with erasing the open word commutes with erasing the sentences. -/
theorem editWord_erased {edit plain : Draft → Draft} (position : Option Position)
    (hedit : ∀ draft, plain draft.erased = (edit draft).erased) :
    frame.erased.editWord none plain = (frame.editWord position edit).map erased := by
  obtain ⟨enclosure, openedAt, start, textStart, sentences, words, sentencePosition, word⟩ := frame
  have hword : ((word.map OpenWord.erased).getD ⟨.empty, none⟩) =
      (word.getD ⟨.empty, position⟩).erased := by
    cases word <;> rfl
  unfold editWord
  dsimp only [erased]
  rw [hword]
  generalize word.getD ⟨.empty, position⟩ = word
  dsimp only [OpenWord.erased]
  simp only [Draft.endsWithString_erased, hedit]
  split <;> rfl

theorem pushMorpheme_erased (kind : Morpheme.Kind) (position : Option Position) :
    frame.erased.pushMorpheme ⟨kind.erased, none⟩ =
      (frame.pushMorpheme ⟨kind, position⟩).map erased :=
  frame.editWord_erased position fun draft => draft.push_erased ⟨kind, position⟩

theorem closeWord_erased : frame.erased.closeWord = frame.closeWord.map erased := by
  obtain ⟨enclosure, openedAt, start, textStart, sentences, words, sentencePosition, word⟩ := frame
  rcases word with _ | ⟨morphemes, position⟩
  · rfl
  · have htoList : morphemes.erased.settle.toList = morphemes.settle.toList.map Morpheme.erased := by
      rw [Draft.settle_erased, Draft.toList_erased]
    have hshape : Word.shape ⟨morphemes.settle.toList.map Morpheme.erased, none⟩ =
        Word.shape ⟨morphemes.settle.toList, position⟩ := Morpheme.shape_erased _
    simp only [closeWord, erased, Option.map_some, OpenWord.erased, htoList, hshape,
      List.isEmpty_map]
    split
    · rfl
    · simp only [Except.map, erased, List.map_cons, Word.erased, ite_self, Option.map_none]

theorem closeSentence_erased : frame.erased.closeSentence = frame.closeSentence.map erased := by
  rw [closeSentence, closeSentence, closeWord_erased]
  cases frame.closeWord with
  | error cause => rfl
  | ok frame =>
    simp only [Except.map, erased, List.isEmpty_map]
    split
    · rfl
    · simp only [List.map_cons, Sentence.erased, List.map_reverse, List.map_nil]

theorem finish_erased : frame.erased.finish = frame.finish.map Script.erased := by
  rw [finish, finish, closeSentence_erased]
  cases frame.closeSentence with
  | error cause => rfl
  | ok frame =>
    simp only [Except.map, erased, Script.erased_mk, List.map_reverse]

end Sentences

/-- A morpheme is handed to the same frame. -/
theorem addMorpheme_erased (kind : Morpheme.Kind) (position : Option Position)
    (stack : List Frame) :
    addMorpheme ⟨kind.erased, none⟩ (stack.map erased) =
      (addMorpheme ⟨kind, position⟩ stack).map (List.map erased) := by
  cases stack with
  | nil => rfl
  | cons frame below =>
    cases frame with
    | sentences frame =>
      have hpush := frame.pushMorpheme_erased kind position
      simp only [List.map_cons, erased, addMorpheme, hpush]
      cases frame.pushMorpheme ⟨kind, position⟩ <;> rfl
    | quoted frame =>
      have hpush := frame.morphemes.push_erased ⟨kind, position⟩
      exact congrArg (fun draft => Except.ok (Frame.quoted { frame with position := none, morphemes := draft } ::
        below.map erased)) hpush
    | _ => rfl

end Frame

namespace Parser

/-- The reading of a parser that records no positions. -/
def Reading.erased (reading : Reading) : Reading := { reading with options := ⟨false⟩ }

/-! ## Reading a token -/

section Reading

variable (reading : Reading)

theorem position_erased : reading.erased.position = none := rfl

theorem openQuotes_erased : openQuotes reading.erased = (openQuotes reading).erased := by
  unfold openQuotes
  dsimp only [Reading.erased]
  split <;> rfl

theorem closeBracket_erased (frame : Frame.Sentences) (below : List Frame) :
    closeBracket reading.erased frame.erased (below.map Frame.erased) =
      (closeBracket reading frame below).map (List.map Frame.erased) := by
  unfold closeBracket
  rw [frame.finish_erased]
  cases frame.finish with
  | error cause => rfl
  | ok script =>
    have henclosure : frame.erased.enclosure = frame.enclosure := rfl
    simp only [Except.map, Except.bind, henclosure]
    cases frame.enclosure with
    | root => rfl
    | tuple => exact Frame.addMorpheme_erased (.tuple script) frame.position below
    | expression => exact Frame.addMorpheme_erased (.expression script) frame.position below
    | block => exact Frame.addMorpheme_erased (.block script _) frame.position below

theorem matchBracket_erased (delimiter : Delimiter) (frame : Frame.Sentences) (below : List Frame) :
    matchBracket reading.erased delimiter frame.erased (below.map Frame.erased) =
      (matchBracket reading delimiter frame below).map (List.map Frame.erased) := by
  have henclosure : frame.erased.enclosure = frame.enclosure := rfl
  unfold matchBracket
  rw [henclosure]
  cases frame.enclosure.delimiter with
  | none => rfl
  | some expected =>
    dsimp only
    split
    · exact closeBracket_erased reading frame below
    · rfl

/-- Sentences that changed, in their erased stack. -/
theorem map_sentences_erased (result : Except Cause Frame.Sentences) (below : List Frame) :
    (result.map Frame.Sentences.erased).map
        (fun frame => Frame.sentences frame :: below.map Frame.erased) =
      (result.map fun frame => Frame.sentences frame :: below).map (List.map Frame.erased) := by
  cases result <;> rfl

/-- An edit of the open word, in the erased stack. -/
theorem editSentences_erased {edit plain : Draft → Draft} (position : Option Position)
    (hedit : ∀ draft, plain draft.erased = (edit draft).erased) (frame : Frame.Sentences)
    (below : List Frame) :
    ((frame.erased.editWord none plain).map
        fun frame => Frame.sentences frame :: below.map Frame.erased) =
      ((frame.editWord position edit).map fun frame => Frame.sentences frame :: below).map
        (List.map Frame.erased) := by
  rw [frame.editWord_erased position hedit, map_sentences_erased]

/-- A bracket that opens within the open word, in the erased stack. -/
theorem openWithin_erased (enclosure : Frame.Enclosure) (position : Option Position)
    (frame : Frame.Sentences) (below : List Frame) :
    ((frame.erased.editWord none id).map fun frame =>
        openBracket reading.erased enclosure (.sentences frame :: below.map Frame.erased)) =
      ((frame.editWord position id).map fun frame =>
        openBracket reading enclosure (.sentences frame :: below)).map (List.map Frame.erased) := by
  have hedit : frame.erased.editWord none id =
      (frame.editWord position id).map Frame.Sentences.erased :=
    frame.editWord_erased position fun draft => rfl
  rw [hedit]
  cases frame.editWord position id <;> rfl

theorem readInSentences_erased (frame : Frame.Sentences) (below : List Frame) :
    readInSentences reading.erased frame.erased (below.map Frame.erased) =
      (readInSentences reading frame below).map (List.map Frame.erased) := by
  have hliteral : ∀ draft : Draft,
      draft.erased.pushLiteral reading.token.literal none true =
        (draft.pushLiteral reading.token.literal reading.position true).erased :=
    fun draft => draft.pushLiteral_erased _ _ true
  have htoken : reading.erased.token = reading.token := rfl
  unfold readInSentences
  simp only [position_erased, htoken]
  cases reading.token.kind <;> dsimp only
  case whitespace | continuation =>
    rw [frame.closeWord_erased]
    exact map_sentences_erased _ below
  case newline | semicolon =>
    rw [frame.closeSentence_erased]
    exact map_sentences_erased _ below
  case text | escape => exact editSentences_erased _ hliteral frame below
  case asterisk =>
    exact editSentences_erased _ (fun draft => draft.pushAsterisk_erased _ _) frame below
  case dollar => exact editSentences_erased _ (fun draft => draft.pushDollar_erased _) frame below
  case comment =>
    have hword : frame.erased.word = frame.word.map Frame.OpenWord.erased := rfl
    rw [hword]
    cases frame.word with
    | none => rfl
    | some word =>
      have hpending : word.erased.morphemes.isPending = word.morphemes.isPending := rfl
      simp only [Option.map_some, hpending]
      split
      · rfl
      · exact editSentences_erased _ hliteral frame below
  case openTuple | openBlock | openExpression => exact openWithin_erased reading _ _ frame below
  case closeTuple | closeBlock | closeExpression => exact matchBracket_erased reading _ frame below
  case stringDelimiter =>
    have hword : frame.erased.word = frame.word.map Frame.OpenWord.erased := rfl
    rw [hword]
    cases frame.word with
    | none =>
      simp only [Option.map_none, openQuotes_erased]
      rfl
    | some word => rfl

theorem readInQuoted_erased (frame : Frame.Quoted) (below : List Frame) :
    readInQuoted reading.erased { frame with position := none, morphemes := frame.morphemes.erased }
        (below.map Frame.erased) =
      (readInQuoted reading frame below).map (List.map Frame.erased) := by
  have htoken : reading.erased.token = reading.token := rfl
  have hpending : frame.morphemes.erased.isPending = frame.morphemes.isPending := rfl
  have hexpecting : frame.morphemes.erased.expecting = frame.morphemes.expecting := rfl
  have hkeep : ∀ {plain draft : Draft}, plain = draft.erased →
      (Except.ok (Frame.quoted { frame with position := none, morphemes := plain } ::
          below.map Frame.erased) : Except Cause (List Frame)) =
        (Except.ok (Frame.quoted { frame with morphemes := draft } :: below) :
          Except Cause (List Frame)).map (List.map Frame.erased) := by
    rintro plain draft rfl
    rfl
  -- A bracket that is text there settles a pending marker first.
  have htext : frame.morphemes.erased.settle.pushLiteral reading.token.literal none false =
      (frame.morphemes.settle.pushLiteral reading.token.literal reading.position false).erased := by
    rw [Draft.settle_erased, Draft.pushLiteral_erased]
  unfold readInQuoted
  simp only [position_erased, htoken, hpending, hexpecting]
  cases reading.token.kind <;> dsimp only
  case stringDelimiter =>
    split
    · rfl
    · rw [Draft.settle_erased, Draft.toList_erased, ← Morpheme.allErased_eq_map]
      exact Frame.addMorpheme_erased (.string frame.morphemes.settle.toList) frame.position below
  case text | escape => exact hkeep (Draft.pushLiteral_erased _ _ _ true)
  case asterisk => exact hkeep (Draft.pushAsterisk_erased _ _ _)
  case dollar => exact hkeep (Draft.pushDollar_erased _ _)
  case comment =>
    split
    · rfl
    · exact hkeep htext
  case openExpression => rfl
  case openTuple | openBlock =>
    split
    · exact hkeep htext
    · rfl
  all_goals exact hkeep htext

theorem readInHere_erased (frame : Frame.Here) (below : List Frame) :
    readInHere reading.erased { frame with position := none } (below.map Frame.erased) =
      (readInHere reading frame below).map (List.map Frame.erased) := by
  have htoken : reading.erased.token = reading.token := rfl
  unfold readInHere
  rw [htoken]
  split
  · exact Frame.addMorpheme_erased (.hereString _ frame.delimiterLength) frame.position below
  · rfl

theorem readInTagged_erased (frame : Frame.Tagged) (below : List Frame) :
    readInTagged reading.erased { frame with position := none } (below.map Frame.erased) =
      (readInTagged reading frame below).map (List.map Frame.erased) := by
  obtain ⟨openedAt, position, tag, textStart, tagStart⟩ := frame
  have htoken : reading.erased.token = reading.token := rfl
  unfold readInTagged
  rw [htoken]
  cases textStart with
  | none =>
    dsimp only
    split <;> rfl
  | some textStart =>
    cases tagStart with
    | none => rfl
    | some tagStart =>
      dsimp only
      split
      · exact Frame.addMorpheme_erased (.taggedString _ tag) position below
      · rfl

theorem readInBlockComment_erased (frame : Frame.BlockComment) (below : List Frame) :
    readInBlockComment reading.erased { frame with position := none } (below.map Frame.erased) =
      (readInBlockComment reading frame below).map (List.map Frame.erased) := by
  obtain ⟨openedAt, position, delimiterLength, textStart, nesting, afterHash, closeStart⟩ := frame
  have htoken : reading.erased.token = reading.token := rfl
  unfold readInBlockComment
  simp only [htoken]
  cases reading.token.kind <;> dsimp only
  case comment =>
    split
    · cases closeStart with
      | none => rfl
      | some closeStart =>
        dsimp only
        split
        · exact Frame.addMorpheme_erased (.blockComment _ delimiterLength) position below
        · rfl
    · rfl
  all_goals rfl

theorem readInside_erased (stack : List Frame) :
    readInside reading.erased (stack.map Frame.erased) =
      (readInside reading stack).map (List.map Frame.erased) := by
  cases stack with
  | nil => rfl
  | cons frame below =>
    cases frame with
    | sentences frame => exact readInSentences_erased reading frame below
    | quoted frame => exact readInQuoted_erased reading frame below
    | _ => rfl

/-- A frame that ends before its token, in the erased stack. -/
theorem settled_erased (kind : Morpheme.Kind) (position : Option Position) (below : List Frame) :
    (Frame.addMorpheme ⟨kind.erased, none⟩ (below.map Frame.erased)).bind
        (readInside reading.erased) =
      ((Frame.addMorpheme ⟨kind, position⟩ below).bind (readInside reading)).map
        (List.map Frame.erased) := by
  rw [Frame.addMorpheme_erased kind position]
  cases Frame.addMorpheme ⟨kind, position⟩ below with
  | error cause => rfl
  | ok stack => exact readInside_erased reading stack

/-- A token has the same effect whether or not positions are recorded. -/
theorem read_erased (stack : List Frame) :
    read reading.erased (stack.map Frame.erased) =
      (read reading stack).map (List.map Frame.erased) := by
  have htoken : reading.erased.token = reading.token := rfl
  cases stack with
  | nil => rfl
  | cons frame below =>
    cases frame with
    | sentences frame => exact readInSentences_erased reading frame below
    | quoted frame => exact readInQuoted_erased reading frame below
    | here frame => exact readInHere_erased reading frame below
    | tagged frame => exact readInTagged_erased reading frame below
    | blockComment frame => exact readInBlockComment_erased reading frame below
    | quotePair openedAt position =>
      rw [List.map_cons, Frame.erased, read, read, htoken]
      split
      · rfl
      · exact settled_erased reading (.string []) position below
    | lineComment frame =>
      rw [List.map_cons, Frame.erased, read, read, htoken]
      dsimp only
      split
      · rfl
      · split
        · exact settled_erased reading (.lineComment _ frame.delimiterLength) frame.position below
        · rfl

end Reading

/-! ## Whole parsers -/

/-- The parser that recorded no positions. -/
def erased (parser : Parser) : Parser :=
  { parser with options := ⟨false⟩, stack := parser.stack.map Frame.erased }

section Parsers

variable (parser : Parser)

theorem begin_erased : parser.erased.begin = parser.begin.erased := rfl

theorem push_erased (token : Token) :
    push token parser.erased = ((push token parser).1, (push token parser).2.erased) := by
  obtain ⟨options, stack, log, latest, failure⟩ := parser
  cases failure with
  | some failure => rfl
  | none =>
    have hread := read_erased ⟨options, token, log.push token.sequence⟩ stack
    unfold push erased
    dsimp only [Reading.erased] at hread ⊢
    rw [hread]
    cases read ⟨options, token, log.push token.sequence⟩ stack <;> rfl

theorem feed_erased (tokens : List Token) :
    parser.erased.feed tokens = ((parser.feed tokens).1, (parser.feed tokens).2.erased) := by
  induction tokens generalizing parser with
  | nil => rw [feed_nil, feed_nil]
  | cons token rest ih =>
    have hpush := push_erased parser token
    rcases hanswer : push token parser with ⟨answer, after⟩
    rw [hanswer] at hpush
    cases answer with
    | ok => rw [feed_cons_of_ok hanswer, feed_cons_of_ok hpush, ih after]
    | error failure => rw [feed_cons_of_error hanswer, feed_cons_of_error hpush]

theorem unclosedFrame_erased (stack : List Frame) :
    unclosedFrame (stack.map Frame.erased) = unclosedFrame stack := by
  induction stack with
  | nil => rfl
  | cons frame below ih =>
    cases frame with
    | quotePair | lineComment => exact ih
    | _ => rfl

theorem unclosed_erased : parser.erased.unclosed = parser.unclosed := by
  unfold unclosed erased
  dsimp only
  rw [unclosedFrame_erased]

theorem closeInnermost_erased (log : Array String) (stack : List Frame) :
    closeInnermost log (stack.map Frame.erased) =
      (closeInnermost log stack).map (List.map Frame.erased) := by
  cases stack with
  | nil => rfl
  | cons frame below =>
    cases frame with
    | quotePair openedAt position => exact Frame.addMorpheme_erased (.string []) position below
    | lineComment frame =>
      exact Frame.addMorpheme_erased (.lineComment _ frame.delimiterLength) frame.position below
    | _ => rfl

theorem finish_erased (log : Array String) (stack : List Frame) :
    finish log (stack.map Frame.erased) = (finish log stack).map Script.erased := by
  unfold finish
  rw [closeInnermost_erased]
  cases closeInnermost log stack with
  | error cause => rfl
  | ok stack =>
    rcases stack with _ | ⟨first, _ | ⟨second, rest⟩⟩
    · rfl
    · cases first with
      | sentences frame => exact frame.finish_erased
      | _ => rfl
    · cases first <;> rfl

theorem close_erased :
    parser.erased.close = (parser.close.1.map Script.erased, parser.close.2.erased) := by
  have hunclosed := unclosed_erased parser
  have hfinish := finish_erased parser.log parser.stack
  have hbegin := begin_erased parser
  have hfailure : parser.erased.failure = parser.failure := rfl
  have hlog : parser.erased.log = parser.log := rfl
  have hstack : parser.erased.stack = parser.stack.map Frame.erased := rfl
  have hlatest : parser.erased.latest = parser.latest := rfl
  unfold close
  rw [hunclosed, hfailure, hlog, hstack, hlatest, hfinish, hbegin]
  cases parser.failure with
  | some failure => rfl
  | none =>
    cases parser.unclosed with
    | some error => rfl
    | none => cases finish parser.log parser.stack <;> rfl

theorem parseTokens_erased (tokens : List Token) :
    parser.erased.parseTokens tokens =
      ((parser.parseTokens tokens).1.map Script.erased, (parser.parseTokens tokens).2.erased) := by
  unfold parseTokens
  rw [begin_erased, feed_erased]
  rcases parser.begin.feed tokens with ⟨answer, after⟩
  cases answer with
  | ok => exact close_erased after
  | error failure => rfl

end Parsers

/-! ## What is read -/

/-- What a parser makes of a list of tokens when it records no positions. -/
theorem parseTokens_plain (tokens : List Token) (parser : Parser) :
    ({ parser with options := ⟨false⟩ }.parseTokens tokens).1 =
      (parser.parseTokens tokens).1.map Script.erased := by
  have hbegin : { parser with options := ⟨false⟩ }.parseTokens tokens =
      parser.erased.parseTokens tokens := rfl
  rw [hbegin, parseTokens_erased]

/-- Without positions recorded, the places of the tokens show up in failures only. -/
theorem parseTokens_unplaced {tokens other : List Token}
    (h : other.map Token.unplaced = tokens.map Token.unplaced) :
    ((start ⟨false⟩).parseTokens other).1.mapError ParseError.cause =
      ((start ⟨false⟩).parseTokens tokens).1.mapError ParseError.cause := by
  have hclose : ∀ tokens : List Token,
      ((start ⟨false⟩).parseTokens tokens).1.mapError ParseError.cause =
        (close (run (tokens.map Token.unplaced) (start ⟨false⟩))).1.mapError ParseError.cause := by
    intro tokens
    have hrun := run_unplaced plain_start tokens
    rw [unplaced_start] at hrun
    rw [parseTokens_eq_close_run, ← hrun, close_unplaced (plain_start.run tokens)]
    rfl
  rw [hclose, hclose, h]

/-- Recording positions adds the positions to the script and changes nothing else; and when none are
recorded, only the position of a failure depends on where the tokens stand. -/
theorem parse_positions_erased (parser : Parser) (tokens : List Token) :
    let placed := ({ parser with options := ⟨true⟩ }.parseTokens tokens).1
    let plain := ({ parser with options := ⟨false⟩ }.parseTokens tokens).1
    placed.map Script.erased = plain ∧ plain.map Script.erased = plain ∧
      ∀ other : List Token, other.map Token.unplaced = tokens.map Token.unplaced →
        ({ parser with options := ⟨false⟩ }.parseTokens other).1.mapError ParseError.cause =
          plain.mapError ParseError.cause := by
  intro placed plain
  refine ⟨?_, ?_, fun other h => ?_⟩
  · exact (parseTokens_plain tokens { parser with options := ⟨true⟩ }).symm
  · exact (parseTokens_plain tokens { parser with options := ⟨false⟩ }).symm
  · exact parseTokens_unplaced h

/-- The same tokens a line further down: a parenthesis that matches nothing is refused there. -/
theorem parse_positions_erased_below :
    let tokens : List Token :=
      [⟨.text, ⟨0, 0, 0⟩, "a", "a"⟩, ⟨.closeTuple, ⟨1, 0, 1⟩, ")", ")"⟩]
    let below : List Token :=
      [⟨.text, ⟨1, 1, 0⟩, "a", "a"⟩, ⟨.closeTuple, ⟨2, 1, 1⟩, ")", ")"⟩]
    below.map Token.unplaced = tokens.map Token.unplaced ∧
      ((start ⟨false⟩).parseTokens tokens).1 =
        .error ⟨.unmatchedRight .parenthesis, ⟨1, 0, 1⟩⟩ ∧
      ((start ⟨false⟩).parseTokens below).1.mapError ParseError.cause =
        .error (.unmatchedRight .parenthesis) := by
  intro tokens below
  have hplaces : below.map Token.unplaced = tokens.map Token.unplaced := rfl
  have htokens : ((start ⟨false⟩).parseTokens tokens).1 =
      .error ⟨.unmatchedRight .parenthesis, ⟨1, 0, 1⟩⟩ := by
    rw [parseTokens_eq_close_run]
    rfl
  refine ⟨hplaces, htokens, ?_⟩
  have hbelow := (parse_positions_erased (start ⟨false⟩) tokens).2.2 below hplaces
  exact hbelow.trans (congrArg (Except.mapError ParseError.cause) htokens)

end Parser

end Parlance
