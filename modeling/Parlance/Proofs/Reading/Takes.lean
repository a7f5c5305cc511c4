import Parlance.Proofs.Results
import Parlance.Script.Parser

/-!
# What a token can do

All that a token can do to the open frames when it can be read.  An empty string and a line comment can
end before it (`Settles`).  Then it ends a word or a sentence, edits a word or a string, opens a frame,
goes on with a text that is taken as it stands, or closes the innermost frame into a morpheme of the
frame below (`Takes`).  Each case says what the parser checked.

    read r s = .ok s' → ∃ t, Settles r s t ∧ Takes r t s'                             (takes_of_read)
-/

namespace Parlance

namespace Frame.Enclosure

/-- What a closed enclosure is. -/
def kind (script : Script) (text : String) : Enclosure → Morpheme.Kind
  | .root | .tuple => .tuple script
  | .block => .block script text
  | .expression => .expression script

/-- The bracket that opens an enclosure. -/
def opening : Enclosure → Char
  | .root | .tuple => '('
  | .block => '\x7b'
  | .expression => '['

/-- The bracket that closes an enclosure. -/
def closing : Enclosure → Char
  | .root | .tuple => ')'
  | .block => '\x7d'
  | .expression => ']'

end Frame.Enclosure

namespace Parser

/-! ## The cases -/

/-- The enclosure that a kind of token opens. -/
def opens : Token.Kind → Option Frame.Enclosure
  | .openTuple => some .tuple
  | .openBlock => some .block
  | .openExpression => some .expression
  | _ => none

/-- The brackets that a kind of token closes. -/
def closes : Token.Kind → Option Delimiter
  | .closeTuple => some .parenthesis
  | .closeBlock => some .brace
  | .closeExpression => some .bracket
  | _ => none

/-- The frames that a token finds: an empty string, and a line comment at the newline, end before
it. -/
inductive Settles (reading : Reading) : List Frame → List Frame → Prop
  | keep (stack : List Frame) : Settles reading stack stack
  | pair {openedAt : Position} {position : Option Position} {below stack : List Frame}
    (h : Frame.addMorpheme ⟨.string [], position⟩ below = .ok stack) :
    Settles reading (.quotePair openedAt position :: below) stack
  | comment {frame : Frame.LineComment} {below stack : List Frame}
    (hkind : reading.token.kind = .newline)
    (h : Frame.addMorpheme (lineComment reading.log reading.before frame) below = .ok stack) :
    Settles reading (.lineComment frame :: below) stack

/-- How a token edits the morphemes of a word. -/
inductive Edits (reading : Reading) : (Draft → Draft) → Prop
  | text (hkind : reading.token.kind ∈ [.text, .escape, .comment]) :
    Edits reading (Draft.pushLiteral reading.token.literal reading.position true)
  | asterisk (hkind : reading.token.kind = .asterisk) :
    Edits reading (Draft.pushAsterisk reading.token.literal reading.position)
  | dollar (hkind : reading.token.kind = .dollar) : Edits reading (Draft.pushDollar reading.position)

/-- How a token edits the morphemes of a quoted string: as in a word, or as text that no marker
replaces. -/
inductive EditsString (reading : Reading) : (Draft → Draft) → Prop
  | word {edit : Draft → Draft} (h : Edits reading edit) : EditsString reading edit
  | verbatim (hkind : reading.token.kind ≠ .stringDelimiter) : EditsString reading fun draft =>
    draft.settle.pushLiteral reading.token.literal reading.position false

/-- How a text that is taken as it stands goes on. -/
inductive GoesOn (reading : Reading) : Frame → Frame → Prop
  | here (frame : Frame.Here) : GoesOn reading (.here frame) (.here frame)
  | line (frame : Frame.LineComment) (hkind : reading.token.kind ≠ .newline) :
    GoesOn reading (.lineComment frame) (.lineComment { frame with fresh := false })
  | tagged (frame : Frame.Tagged) (textStart tagStart : Option Nat) :
    GoesOn reading (.tagged frame)
      (.tagged { frame with textStart := textStart, tagStart := tagStart })
  | block (frame : Frame.BlockComment) (nesting : Nat) (afterHash : Bool) {closeStart : Option Nat}
    (hclose : ∀ stop ∈ closeStart, stop = reading.before ∧ reading.token.kind = .closeBlock) :
    GoesOn reading (.blockComment frame) (.blockComment
      { frame with nesting := nesting, afterHash := afterHash, closeStart := closeStart })

/-- The morpheme that a frame becomes when a token closes it. -/
inductive Ends (reading : Reading) : Frame → Morpheme → Prop
  | bracket {frame : Frame.Sentences} {delimiter : Delimiter} {script : Script}
    (hkind : closes reading.token.kind = some delimiter)
    (henclosure : frame.enclosure.delimiter = some delimiter) (hfinish : frame.finish = .ok script) :
    Ends reading (.sentences frame) ⟨frame.enclosure.kind script
      (Reading.text reading.log frame.textStart reading.before), frame.position⟩
  | string {frame : Frame.Quoted} (hkind : reading.token.kind = .stringDelimiter)
    (hlength : reading.token.runLength ≤ 1) :
    Ends reading (.quoted frame) ⟨.string frame.morphemes.settle.toList, frame.position⟩
  | here {frame : Frame.Here} (hkind : reading.token.kind = .stringDelimiter)
    (hlength : reading.token.runLength = frame.delimiterLength) :
    Ends reading (.here frame) ⟨.hereString
      (Reading.text reading.log frame.textStart reading.before) frame.delimiterLength, frame.position⟩
  | tagged {frame : Frame.Tagged} (hkind : reading.token.kind = .stringDelimiter) (text : String) :
    Ends reading (.tagged frame) ⟨.taggedString text frame.tag, frame.position⟩
  | block {frame : Frame.BlockComment} {stop : Nat} (hkind : reading.token.kind = .comment)
    (hlength : reading.token.runLength = frame.delimiterLength) (hstop : frame.closeStart = some stop) :
    Ends reading (.blockComment frame) ⟨.blockComment
      (Reading.text reading.log frame.textStart stop) frame.delimiterLength, frame.position⟩

/-- What a token does to the open frames. -/
inductive Takes (reading : Reading) : List Frame → List Frame → Prop
  | closesWord {frame after : Frame.Sentences} {below : List Frame}
    (hkind : reading.token.kind ∈ [.whitespace, .continuation]) (h : frame.closeWord = .ok after) :
    Takes reading (.sentences frame :: below) (.sentences after :: below)
  | closesSentence {frame after : Frame.Sentences} {below : List Frame}
    (hkind : reading.token.kind ∈ [.newline, .semicolon]) (h : frame.closeSentence = .ok after) :
    Takes reading (.sentences frame :: below) (.sentences after :: below)
  | editsWord {frame after : Frame.Sentences} {below : List Frame} {edit : Draft → Draft}
    (hedit : Edits reading edit) (hword : reading.token.kind = .comment → frame.word ≠ none)
    (h : frame.editWord reading.position edit = .ok after) :
    Takes reading (.sentences frame :: below) (.sentences after :: below)
  | editsString {frame : Frame.Quoted} {below : List Frame} {edit : Draft → Draft}
    (hedit : EditsString reading edit) :
    Takes reading (.quoted frame :: below)
      (.quoted { frame with morphemes := edit frame.morphemes } :: below)
  | opensInWord {frame after : Frame.Sentences} {below : List Frame} {enclosure : Frame.Enclosure}
    (hkind : opens reading.token.kind = some enclosure)
    (h : frame.editWord reading.position id = .ok after) :
    Takes reading (.sentences frame :: below) (openBracket reading enclosure (.sentences after :: below))
  | opensInString {frame : Frame.Quoted} {below : List Frame} {enclosure : Frame.Enclosure}
    (hkind : opens reading.token.kind = some enclosure)
    (hplace : frame.morphemes.expecting = .nothing → enclosure = .expression) :
    Takes reading (.quoted frame :: below) (openBracket reading enclosure (.quoted frame :: below))
  | opensQuotes {frame : Frame.Sentences} {below : List Frame}
    (hkind : reading.token.kind = .stringDelimiter) (hword : frame.word = none) :
    Takes reading (.sentences frame :: below) (openQuotes reading :: .sentences frame :: below)
  | opensComment {frame : Frame.Sentences} {below : List Frame}
    (hkind : reading.token.kind = .comment) (hword : frame.word = none) :
    Takes reading (.sentences frame :: below) (.lineComment ⟨reading.token.position,
      reading.position, reading.token.runLength, reading.after, true⟩ :: .sentences frame :: below)
  | opensTagged {openedAt : Position} {position : Option Position} {below : List Frame}
    (hkind : reading.token.kind = .text) :
    Takes reading (.quotePair openedAt position :: below)
      (.tagged ⟨openedAt, position, reading.token.literal, none, none⟩ :: below)
  | opensBlockComment {frame : Frame.LineComment} {below : List Frame}
    (hkind : reading.token.kind = .openBlock) (hfresh : frame.fresh = true) :
    Takes reading (.lineComment frame :: below) (.blockComment ⟨frame.openedAt, frame.position,
      frame.delimiterLength, reading.after, 1, false, none⟩ :: below)
  | goesOn {top after : Frame} {below : List Frame} (h : GoesOn reading top after) :
    Takes reading (top :: below) (after :: below)
  | closes {top : Frame} {below stack : List Frame} {morpheme : Morpheme}
    (hends : Ends reading top morpheme) (h : Frame.addMorpheme morpheme below = .ok stack) :
    Takes reading (top :: below) stack

/-! ## Every token has its case -/

section Frames

variable {reading : Reading} {below stack : List Frame}

theorem takes_of_closeBracket {delimiter : Delimiter} {frame : Frame.Sentences}
    (hkind : closes reading.token.kind = some delimiter)
    (hframe : frame.enclosure.delimiter = some delimiter)
    (h : closeBracket reading frame below = .ok stack) :
    Takes reading (.sentences frame :: below) stack := by
  obtain ⟨script, hfinish, h⟩ := bind_eq_ok h
  refine .closes (.bracket hkind hframe hfinish) ?_
  cases henclosure : frame.enclosure with
  | root =>
    rw [henclosure] at h
    cases h
  | tuple | block | expression =>
    rw [henclosure] at h
    exact h

theorem takes_of_matchBracket {delimiter : Delimiter} {frame : Frame.Sentences}
    (hkind : closes reading.token.kind = some delimiter)
    (h : matchBracket reading delimiter frame below = .ok stack) :
    Takes reading (.sentences frame :: below) stack := by
  unfold matchBracket at h
  split at h
  · cases h
  · rename_i expected hexpected
    split at h
    · rename_i heq
      rw [heq] at hexpected
      exact takes_of_closeBracket hkind hexpected h
    · cases h

theorem takes_of_edit {frame : Frame.Sentences} {edit : Draft → Draft} (hedit : Edits reading edit)
    (hword : reading.token.kind = .comment → frame.word ≠ none)
    (h : ((frame.editWord reading.position edit).map fun frame => Frame.sentences frame :: below) =
      .ok stack) : Takes reading (.sentences frame :: below) stack := by
  obtain ⟨after, hafter, rfl⟩ := map_eq_ok h
  exact .editsWord hedit hword hafter

theorem takes_of_openInWord {frame : Frame.Sentences} {enclosure : Frame.Enclosure}
    (hkind : opens reading.token.kind = some enclosure)
    (h : ((frame.editWord reading.position id).map fun frame =>
      openBracket reading enclosure (.sentences frame :: below)) = .ok stack) :
    Takes reading (.sentences frame :: below) stack := by
  obtain ⟨after, hafter, rfl⟩ := map_eq_ok h
  exact .opensInWord hkind hafter

theorem takes_of_readInSentences {frame : Frame.Sentences}
    (h : readInSentences reading frame below = .ok stack) :
    Takes reading (.sentences frame :: below) stack := by
  unfold readInSentences at h
  dsimp only at h
  cases hkind : reading.token.kind <;> simp only [hkind] at h
  case whitespace | continuation =>
    obtain ⟨after, hafter, rfl⟩ := map_eq_ok h
    exact .closesWord (by simp [hkind]) hafter
  case newline | semicolon =>
    obtain ⟨after, hafter, rfl⟩ := map_eq_ok h
    exact .closesSentence (by simp [hkind]) hafter
  case text | escape => exact takes_of_edit (.text (by simp [hkind])) (by simp [hkind]) h
  case asterisk => exact takes_of_edit (.asterisk hkind) (by simp [hkind]) h
  case dollar => exact takes_of_edit (.dollar hkind) (by simp [hkind]) h
  case comment =>
    split at h
    · rename_i hword
      cases h
      exact .opensComment hkind hword
    · rename_i hword
      split at h
      · cases h
      · exact takes_of_edit (.text (by simp [hkind])) (by simp [hword]) h
  case openTuple | openBlock | openExpression =>
    exact takes_of_openInWord (by rw [hkind]; rfl) h
  case closeTuple | closeBlock | closeExpression =>
    exact takes_of_matchBracket (by rw [hkind]; rfl) h
  case stringDelimiter =>
    split at h
    · cases h
    · rename_i hword
      cases h
      exact .opensQuotes hkind hword

theorem takes_of_readInQuoted {frame : Frame.Quoted}
    (h : readInQuoted reading frame below = .ok stack) :
    Takes reading (.quoted frame :: below) stack := by
  have hedit : ∀ {edit : Draft → Draft}, EditsString reading edit →
      .quoted { frame with morphemes := edit frame.morphemes } :: below = stack →
      Takes reading (.quoted frame :: below) stack := by
    rintro edit hedit rfl
    exact .editsString hedit
  have hopen : ∀ {enclosure}, opens reading.token.kind = some enclosure →
      (frame.morphemes.expecting = .nothing → enclosure = .expression) →
      openBracket reading enclosure (.quoted frame :: below) = stack →
      Takes reading (.quoted frame :: below) stack := by
    rintro enclosure hkind hplace rfl
    exact .opensInString hkind hplace
  unfold readInQuoted at h
  dsimp only at h
  cases hkind : reading.token.kind <;> simp only [hkind] at h
  case stringDelimiter =>
    split at h
    · cases h
    · rename_i hlength
      exact .closes (.string hkind (Nat.le_of_not_lt hlength)) h
  case text | escape => exact hedit (.word (.text (by simp [hkind]))) (Except.ok.inj h)
  case asterisk => exact hedit (.word (.asterisk hkind)) (Except.ok.inj h)
  case dollar => exact hedit (.word (.dollar hkind)) (Except.ok.inj h)
  case comment =>
    split at h
    · cases h
    · exact hedit (.verbatim (by simp [hkind])) (Except.ok.inj h)
  case openExpression => exact hopen (by rw [hkind]; rfl) (fun _ => rfl) (Except.ok.inj h)
  case openTuple | openBlock =>
    split at h
    · exact hedit (.verbatim (by simp [hkind])) (Except.ok.inj h)
    · rename_i hexpecting
      exact hopen (by rw [hkind]; rfl) (fun hnothing => absurd hnothing hexpecting) (Except.ok.inj h)
  all_goals exact hedit (.verbatim (by simp [hkind])) (Except.ok.inj h)

theorem takes_of_readInHere {frame : Frame.Here} (h : readInHere reading frame below = .ok stack) :
    Takes reading (.here frame :: below) stack := by
  unfold readInHere at h
  split at h
  · rename_i hend
    exact .closes (.here hend.1 hend.2) h
  · cases h
    exact .goesOn (.here frame)

theorem takes_of_readInTagged {frame : Frame.Tagged}
    (h : readInTagged reading frame below = .ok stack) : Takes reading (.tagged frame :: below) stack := by
  unfold readInTagged at h
  dsimp only at h
  split at h
  · split at h
    · cases h
      exact .goesOn (.tagged frame _ _)
    · cases h
      exact .goesOn (.tagged frame _ _)
  · split at h
    · cases h
      exact .goesOn (.tagged frame _ _)
    · split at h
      · rename_i hend
        exact .closes (.tagged hend.1 _) h
      · cases h
        exact .goesOn (.tagged frame _ _)

theorem takes_of_readInBlockComment {frame : Frame.BlockComment}
    (h : readInBlockComment reading frame below = .ok stack) :
    Takes reading (.blockComment frame :: below) stack := by
  have hother : ∀ nesting afterHash,
      .blockComment { frame with nesting := nesting, afterHash := afterHash, closeStart := none } ::
        below = stack → Takes reading (.blockComment frame :: below) stack := by
    rintro nesting afterHash rfl
    exact .goesOn (.block frame nesting afterHash (fun stop hstop => by cases hstop))
  unfold readInBlockComment at h
  dsimp only at h
  cases hkind : reading.token.kind <;> simp only [hkind] at h
  case comment =>
    split at h
    · rename_i hlength
      split at h
      · rename_i hclose
        split at h
        · exact .closes (.block hkind hlength hclose) h
        · exact hother _ _ (Except.ok.inj h)
      · rename_i hclose
        refine hother frame.nesting true ?_
        rw [← hclose]
        exact Except.ok.inj h
    · exact hother _ _ (Except.ok.inj h)
  case closeBlock =>
    cases h
    refine .goesOn (.block frame _ _ fun stop hstop => ?_)
    rw [Option.mem_some_iff] at hstop
    exact ⟨hstop.symm, hkind⟩
  all_goals exact hother _ _ (Except.ok.inj h)

theorem takes_of_readInside {stack after : List Frame} (h : readInside reading stack = .ok after) :
    Takes reading stack after := by
  unfold readInside at h
  split at h
  · exact takes_of_readInSentences h
  · exact takes_of_readInQuoted h
  · cases h

/-- A token that can be read does one of the things that a token can do. -/
theorem takes_of_read {stack after : List Frame} (h : read reading stack = .ok after) :
    ∃ settled, Settles reading stack settled ∧ Takes reading settled after := by
  unfold read at h
  dsimp only at h
  split at h
  · split at h
    · rename_i hkind
      cases h
      exact ⟨_, .keep _, .opensTagged hkind⟩
    · obtain ⟨next, hadd, h⟩ := bind_eq_ok h
      exact ⟨next, .pair hadd, takes_of_readInside h⟩
  · split at h
    · rename_i hopen
      cases h
      exact ⟨_, .keep _, .opensBlockComment hopen.2 hopen.1⟩
    · split at h
      · rename_i hnewline
        obtain ⟨next, hadd, h⟩ := bind_eq_ok h
        exact ⟨next, .comment hnewline hadd, takes_of_readInside h⟩
      · rename_i hnewline
        cases h
        exact ⟨_, .keep _, .goesOn (.line _ hnewline)⟩
  · exact ⟨_, .keep _, takes_of_readInHere h⟩
  · exact ⟨_, .keep _, takes_of_readInTagged h⟩
  · exact ⟨_, .keep _, takes_of_readInBlockComment h⟩
  · exact ⟨_, .keep _, takes_of_readInside h⟩

end Frames

end Parser

end Parlance
