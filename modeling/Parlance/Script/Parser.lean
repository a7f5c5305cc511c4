import Parlance.Script.Frame
import Parlance.Token.Stream

/-!
# Reading scripts from tokens

The parser takes one token at a time and never looks ahead, so it can stop after any token and go
on when there are more.  Each token goes to the innermost frame.  Two frames can end before a token
that does not belong to them: an empty string, and a line comment at the newline.  They become
morphemes of the frame below, which then takes the token.

A failure is final: every later call reports it again, until the parser begins anew.  Closing while
a construct is open is no failure; the parser keeps its state and can be given more.
-/

namespace Parlance

/-- What the parser is asked to record. -/
structure Parser.Options where
  /-- Whether the tree holds positions. -/
  capturePositions : Bool
  deriving DecidableEq, Inhabited

/-- A parser at work. -/
structure Parser where
  options : Parser.Options
  /-- The open constructs, the innermost first; the whole script is the last. -/
  stack : List Frame
  /-- The sequences of the tokens read. -/
  log : Array String
  /-- Kind and position of the latest token. -/
  latest : Option (Token.Kind × Position)
  failure : Option ParseError

namespace Parser

open ParseError (Cause)

/-- A position as the tree holds it. -/
def Options.capture (options : Options) (position : Position) : Option Position :=
  if options.capturePositions then some position else none

/-- The frame of the whole script. -/
def rootFrame (options : Options) : Frame :=
  .sentences (.start .root .start (options.capture .start) 0)

/-- A parser that has read nothing. -/
def start (options : Options) : Parser := ⟨options, [rootFrame options], #[], none, none⟩

/-- Forgets everything and begins a new script. -/
def begin (parser : Parser) : Parser := start parser.options

/-! ## Tokens in their frames -/

/-- What reading one token needs to know. -/
structure Reading where
  options : Options
  token : Token
  /-- The sequences of the tokens read, this one included. -/
  log : Array String

namespace Reading

/-- The token's position as the tree holds it. -/
def position (reading : Reading) : Option Position := reading.options.capture reading.token.position

/-- Number of tokens before this one. -/
def before (reading : Reading) : Nat := reading.log.size - 1

/-- Number of tokens up to this one. -/
def after (reading : Reading) : Nat := reading.log.size

/-- The text of the tokens from number `first` up to number `last`, without the latter. -/
def text (log : Array String) (first last : Nat) : String :=
  String.join (log.extract first last).toList

end Reading

/-- Opens a bracket on top of the frames below. -/
def openBracket (reading : Reading) (enclosure : Frame.Enclosure) (below : List Frame) :
    List Frame :=
  .sentences (.start enclosure reading.token.position reading.position reading.after) :: below

/-- Turns a bracketed script into a morpheme of the frame below. -/
def closeBracket (reading : Reading) (frame : Frame.Sentences) (below : List Frame) :
    Except Cause (List Frame) :=
  frame.finish.bind fun script =>
    match frame.enclosure with
    | .root => .error .syntaxError
    | .tuple => Frame.addMorpheme ⟨.tuple script, frame.position⟩ below
    | .expression => Frame.addMorpheme ⟨.expression script, frame.position⟩ below
    | .block =>
      let text := Reading.text reading.log frame.textStart reading.before
      Frame.addMorpheme ⟨.block script text, frame.position⟩ below

/-- Handles a closing bracket, which must fit the innermost open one. -/
def matchBracket (reading : Reading) (delimiter : Delimiter) (frame : Frame.Sentences)
    (below : List Frame) : Except Cause (List Frame) :=
  match frame.enclosure.delimiter with
  | none => .error (.unmatchedRight delimiter)
  | some expected =>
    if expected = delimiter then closeBracket reading frame below
    else .error (.mismatchedRight delimiter)

/-- The frame that a run of quotes opens. -/
def openQuotes (reading : Reading) : Frame :=
  let openedAt := reading.token.position
  match reading.token.runLength with
  | 1 => .quoted ⟨openedAt, reading.position, .empty⟩
  | 2 => .quotePair openedAt reading.position
  | length => .here ⟨openedAt, reading.position, length, reading.after⟩

/-- A token within a list of sentences. -/
def readInSentences (reading : Reading) (frame : Frame.Sentences) (below : List Frame) :
    Except Cause (List Frame) :=
  let position := reading.position
  let token := reading.token
  let edit (change : Draft → Draft) : Except Cause (List Frame) :=
    (frame.editWord position change).map fun frame => .sentences frame :: below
  let openInWord (enclosure : Frame.Enclosure) : Except Cause (List Frame) :=
    (frame.editWord position id).map fun frame =>
      openBracket reading enclosure (.sentences frame :: below)
  match token.kind with
  | .whitespace | .continuation => frame.closeWord.map (.sentences · :: below)
  | .newline | .semicolon => frame.closeSentence.map (.sentences · :: below)
  | .text | .escape => edit (Draft.pushLiteral token.literal position true)
  | .asterisk => edit (Draft.pushAsterisk token.literal position)
  | .dollar => edit (Draft.pushDollar position)
  | .comment =>
    match frame.word with
    | none =>
      .ok (.lineComment ⟨token.position, position, token.runLength, reading.after, true⟩ ::
        .sentences frame :: below)
    | some word =>
      if word.morphemes.isPending then .error .unexpectedCommentDelimiter
      else edit (Draft.pushLiteral token.literal position true)
  | .openTuple => openInWord .tuple
  | .openBlock => openInWord .block
  | .openExpression => openInWord .expression
  | .closeTuple => matchBracket reading .parenthesis frame below
  | .closeBlock => matchBracket reading .brace frame below
  | .closeExpression => matchBracket reading .bracket frame below
  | .stringDelimiter =>
    match frame.word with
    | some _ => .error .unexpectedStringDelimiter
    | none => .ok (openQuotes reading :: .sentences frame :: below)

/-- A token within a quoted string.  Only an expression, or a bracket that a marker replaces or
that selects from a substitution, opens there; any other bracket is text. -/
def readInQuoted (reading : Reading) (frame : Frame.Quoted) (below : List Frame) :
    Except Cause (List Frame) :=
  let position := reading.position
  let token := reading.token
  let draft := frame.morphemes
  let keep (draft : Draft) : List Frame := .quoted { frame with morphemes := draft } :: below
  let asText := keep (draft.settle.pushLiteral token.literal position false)
  match token.kind with
  | .stringDelimiter =>
    if token.runLength > 1 then .error .extraCharactersAfterStringDelimiter
    else Frame.addMorpheme ⟨.string draft.settle.toList, frame.position⟩ below
  | .text | .escape => .ok (keep (draft.pushLiteral token.literal position true))
  | .asterisk => .ok (keep (draft.pushAsterisk token.literal position))
  | .dollar => .ok (keep (draft.pushDollar position))
  | .comment => if draft.isPending then .error .unexpectedCommentDelimiter else .ok asText
  | .openExpression => .ok (openBracket reading .expression (.quoted frame :: below))
  | .openTuple =>
    if draft.expecting = .nothing then .ok asText
    else .ok (openBracket reading .tuple (.quoted frame :: below))
  | .openBlock =>
    if draft.expecting = .nothing then .ok asText
    else .ok (openBracket reading .block (.quoted frame :: below))
  | _ => .ok asText

/-- A token within a here-string, which ends at a run of quotes of its own length. -/
def readInHere (reading : Reading) (frame : Frame.Here) (below : List Frame) :
    Except Cause (List Frame) :=
  if reading.token.kind = .stringDelimiter ∧ reading.token.runLength = frame.delimiterLength then
    let text := Reading.text reading.log frame.textStart reading.before
    Frame.addMorpheme ⟨.hereString text frame.delimiterLength, frame.position⟩ below
  else .ok (.here frame :: below)

/-- A token within a tagged string.  The lines start after the first newline; the string ends at
the tag with two quotes right after it. -/
def readInTagged (reading : Reading) (frame : Frame.Tagged) (below : List Frame) :
    Except Cause (List Frame) :=
  let token := reading.token
  match frame.textStart, frame.tagStart with
  | none, _ =>
    if token.kind = .newline then
      .ok (.tagged { frame with textStart := some reading.after } :: below)
    else .ok (.tagged frame :: below)
  | some textStart, tagStart =>
    let goOn : Except Cause (List Frame) :=
      let tagStart :=
        if token.kind = .text ∧ token.literal = frame.tag then some reading.before else none
      .ok (.tagged { frame with tagStart := tagStart } :: below)
    match tagStart with
    | none => goOn
    | some tagStart =>
      if token.kind = .stringDelimiter ∧ token.runLength = 2 then
        let text := Frame.unindent (Reading.text reading.log textStart tagStart)
        Frame.addMorpheme ⟨.taggedString text frame.tag, frame.position⟩ below
      else goOn

/-- A token within a block comment.  A run of `#` of the comment's length opens a nested comment
when a brace follows it, and closes one when a brace stands before it. -/
def readInBlockComment (reading : Reading) (frame : Frame.BlockComment) (below : List Frame) :
    Except Cause (List Frame) :=
  let token := reading.token
  let other : Except Cause (List Frame) :=
    .ok (.blockComment { frame with afterHash := false, closeStart := none } :: below)
  match token.kind with
  | .comment =>
    if token.runLength = frame.delimiterLength then
      match frame.closeStart with
      | some closeStart =>
        if frame.nesting - 1 = 0 then
          let text := Reading.text reading.log frame.textStart closeStart
          Frame.addMorpheme ⟨.blockComment text frame.delimiterLength, frame.position⟩ below
        else
          .ok (.blockComment
            { frame with nesting := frame.nesting - 1, afterHash := false, closeStart := none } ::
              below)
      | none => .ok (.blockComment { frame with afterHash := true } :: below)
    else other
  | .openBlock =>
    let nesting := if frame.afterHash then frame.nesting + 1 else frame.nesting
    .ok (.blockComment { frame with nesting := nesting, afterHash := false, closeStart := none } ::
      below)
  | .closeBlock =>
    .ok (.blockComment { frame with afterHash := false, closeStart := some reading.before } ::
      below)
  | _ => other

/-- A token in a frame that holds morphemes. -/
def readInside (reading : Reading) : List Frame → Except Cause (List Frame)
  | .sentences frame :: below => readInSentences reading frame below
  | .quoted frame :: below => readInQuoted reading frame below
  | _ => .error .syntaxError

/-- The comment whose text ends before token number `stop`. -/
def lineComment (log : Array String) (stop : Nat) (frame : Frame.LineComment) : Morpheme :=
  ⟨.lineComment (Reading.text log frame.textStart stop) frame.delimiterLength, frame.position⟩

/-- A token in the innermost frame, and in the frame below if it ends the innermost one. -/
def read (reading : Reading) (stack : List Frame) : Except Cause (List Frame) :=
  let token := reading.token
  match stack with
  | .quotePair openedAt position :: below =>
    if token.kind = .text then
      .ok (.tagged ⟨openedAt, position, token.literal, none, none⟩ :: below)
    else (Frame.addMorpheme ⟨.string [], position⟩ below).bind (readInside reading)
  | .lineComment frame :: below =>
    if frame.fresh ∧ token.kind = .openBlock then
      .ok (.blockComment
        ⟨frame.openedAt, frame.position, frame.delimiterLength, reading.after, 1, false, none⟩ ::
          below)
    else if token.kind = .newline then
      (Frame.addMorpheme (lineComment reading.log reading.before frame) below).bind
        (readInside reading)
    else .ok (.lineComment { frame with fresh := false } :: below)
  | .here frame :: below => readInHere reading frame below
  | .tagged frame :: below => readInTagged reading frame below
  | .blockComment frame :: below => readInBlockComment reading frame below
  | stack => readInside reading stack

/-- Takes one token. -/
def push (token : Token) (parser : Parser) : Except ParseError Unit × Parser :=
  match parser.failure with
  | some failure => (.error failure, parser)
  | none =>
    let log := parser.log.push token.sequence
    let parser := { parser with log := log, latest := some (token.kind, token.position) }
    match read ⟨parser.options, token, log⟩ parser.stack with
    | .ok stack => (.ok (), { parser with stack := stack })
    | .error cause =>
      let failure := ⟨cause, token.position⟩
      (.error failure, { parser with failure := some failure })

/-- Takes every token of a stream, up to one that cannot be read. -/
def feed {σ : Type} [TokenStream σ] (stream : σ) (parser : Parser) :
    Except ParseError Unit × Parser :=
  match _h : TokenStream.next stream with
  | none => (.ok (), parser)
  | some (token, stream) =>
    match push token parser with
    | (.error failure, parser) => (.error failure, parser)
    | (.ok (), parser) => feed stream parser
termination_by TokenStream.remaining stream
decreasing_by exact TokenStream.remaining_next_lt _h

theorem feed_nil (parser : Parser) : parser.feed ([] : List Token) = (.ok (), parser) := by
  rw [feed]
  rfl

theorem feed_cons_of_ok {token : Token} {rest : List Token} {parser after : Parser}
    (h : parser.push token = (.ok (), after)) : parser.feed (token :: rest) = after.feed rest := by
  rw [feed]
  simp only [TokenStream.next, TokenStream.nextOfList]
  rw [h]

theorem feed_cons_of_error {token : Token} {rest : List Token} {parser after : Parser}
    {failure : ParseError} (h : parser.push token = (.error failure, after)) :
    parser.feed (token :: rest) = (.error failure, after) := by
  rw [feed]
  simp only [TokenStream.next, TokenStream.nextOfList]
  rw [h]

/-! ## The end of the input -/

/-- The innermost construct that more input could close.  A line comment and an empty string end
with the input, as does the whole script. -/
def unclosedFrame : List Frame → Option ParseError
  | [] => none
  | .lineComment _ :: below => unclosedFrame below
  | .quotePair .. :: below => unclosedFrame below
  | .sentences frame :: _ =>
    match frame.enclosure.delimiter with
    | none => none
    | some delimiter => some ⟨.unmatchedLeft delimiter, frame.openedAt⟩
  | .quoted frame :: _ => some ⟨.unmatchedStringDelimiter, frame.openedAt⟩
  | .here frame :: _ => some ⟨.unmatchedHereStringDelimiter, frame.openedAt⟩
  | .tagged frame :: _ => some ⟨.unmatchedTaggedStringDelimiter, frame.openedAt⟩
  | .blockComment frame :: _ => some ⟨.unmatchedBlockCommentDelimiter, frame.openedAt⟩

/-- Why the input cannot end here, if it cannot. -/
def unclosed (parser : Parser) : Option ParseError :=
  match unclosedFrame parser.stack with
  | some error => some error
  | none =>
    match parser.latest with
    | some (.continuation, position) => some ⟨.unterminatedScript, position⟩
    | _ => none

/-- Closes what ends with the input. -/
def closeInnermost (log : Array String) : List Frame → Except Cause (List Frame)
  | .lineComment frame :: below => Frame.addMorpheme (lineComment log log.size frame) below
  | .quotePair _ position :: below => Frame.addMorpheme ⟨.string [], position⟩ below
  | stack => .ok stack

/-- The script of a stack in which nothing but the whole script is open. -/
def finish (log : Array String) (stack : List Frame) : Except Cause Script :=
  (closeInnermost log stack).bind fun stack =>
    match stack with
    | [.sentences frame] => frame.finish
    | _ => .error .unterminatedScript

/-- Ends the input.  With a script as the answer the parser begins anew; when a construct is open
the parser stays as it is and can be given more. -/
def close (parser : Parser) : Except ParseError Script × Parser :=
  match parser.failure with
  | some failure => (.error failure, parser)
  | none =>
    match parser.unclosed with
    | some error => (.error error, parser)
    | none =>
      match finish parser.log parser.stack with
      | .ok script => (.ok script, parser.begin)
      | .error cause =>
        let position := (parser.latest.map Prod.snd).getD .start
        let failure := ⟨cause, position⟩
        (.error failure, { parser with failure := some failure })

/-- Reads a whole list of tokens, whatever the parser read before. -/
def parseTokens (tokens : List Token) (parser : Parser) : Except ParseError Script × Parser :=
  match parser.begin.feed tokens with
  | (.error failure, parser) => (.error failure, parser)
  | (.ok (), parser) => parser.close

end Parser

/-- Reads a script. -/
def parse (source : String) (options : Parser.Options) : Except ParseError Script :=
  ((Parser.start options).parseTokens (tokenize source)).1

end Parlance
