import Parlance.Proofs.Located
import Parlance.Proofs.Reading.Final
import Parlance.Proofs.Reading.Opened
import Parlance.Proofs.Shifted

/-!
# Errors point at the culprit

An error at a token stands where that token stands.  An error at the end of the input stands where the
innermost construct that more input could close was opened, or at the line continuation that the input
ends with.  So the first character there is known from the cause.

    Refuses r cause → cause.culprit = some c → r.token.kind.initial = some c     (initial_of_refuses)
    unclosedFrame stack = some error → the error is that of one frame, and what was opened
      above it ends with the input                                             (unclosedFrame_eq_some)
-/

namespace Parlance

open ParseError (Cause)

/-- The bracket of a pair that opens. -/
def Delimiter.left : Delimiter → Char
  | .parenthesis => '('
  | .brace => '\x7b'
  | .bracket => '['

/-- The bracket of a pair that closes. -/
def Delimiter.right : Delimiter → Char
  | .parenthesis => ')'
  | .brace => '\x7d'
  | .bracket => ']'

/-- The character at fault, where the cause tells. -/
def ParseError.Cause.culprit : Cause → Option Char
  | .unmatchedLeft delimiter => some delimiter.left
  | .unmatchedRight delimiter | .mismatchedRight delimiter => some delimiter.right
  | .unexpectedStringDelimiter | .unmatchedStringDelimiter | .unmatchedHereStringDelimiter
  | .unmatchedTaggedStringDelimiter => some '"'
  | .unexpectedCommentDelimiter | .unmatchedBlockCommentDelimiter => some '#'
  | .unterminatedScript => some '\\'
  | .extraCharactersAfterStringDelimiter | .syntaxError => none

/-- The character that all tokens of a kind begin with, if there is one. -/
def Token.Kind.initial (kind : Kind) : Option Char :=
  match kind with
  | .comment => some '#'
  | .stringDelimiter => some '"'
  | .continuation | .escape => some '\\'
  | _ => kind.sign?

/-! ## Characters -/

theorem Lexeme.head_of_initial {lexeme : Lexeme} {rest : List Char} (h : Cut lexeme rest) {c : Char}
    (hc : lexeme.kind.initial = some c) : lexeme.sequence.head? = some c := by
  cases h with
  | @sign kind d hsign =>
    have hd : (verbatim kind [d]).kind.initial = some d := by
      cases kind <;> first | exact hsign | cases hsign
    exact hd.symm.trans hc
  | @run kind p d more _ hkind hrun =>
    have hd := hrun d List.mem_cons_self
    cases kind with
    | comment | stringDelimiter =>
      cases hkind
      cases hc
      exact congrArg some (beq_iff_eq.1 hd)
    | whitespace => cases hc
    | _ => cases hkind
  | text => cases hc
  | lastText => cases hc
  | continuation => exact hc
  | escape => exact hc

section Source

variable {source : String} {token : Token}

/-- A token begins with the character of its kind. -/
theorem char_of_initial (h : token ∈ tokenize source) {c : Char}
    (hc : token.kind.initial = some c) : source.toList[token.position.index]? = some c := by
  obtain ⟨i, hi⟩ := List.mem_iff_getElem?.1 h
  obtain ⟨item, rest, place, rfl, hcut⟩ := exists_cut_of_getElem hi
  have htext := textAt_of_getElem hi
  rw [left_of_getElem hi, textAt] at htext
  have hsequence : (item.toToken place).sequence.toList = item.sequence := String.toList_ofList
  rw [← List.head?_drop, htext, hsequence,
    List.head?_append_of_ne_nil _ (Lexeme.sequence_ne_nil_of_cut hcut)]
  exact Lexeme.head_of_initial hcut hc

/-- The text before a token has the tokens before it. -/
theorem tokenize_take {before after : List Token} (h : tokenize source = before ++ token :: after) :
    tokenize (String.ofList (source.toList.take token.position.index)) = before := by
  have hposition := position_of_placed ((tokenize_eq_placed source).symm.trans h)
  rw [tokenize_eq_placed] at h
  obtain ⟨first, second, hlexemes, rfl, -⟩ := placed_eq_append h
  have hsource : source.toList = covered first ++ covered second := by
    rw [← covered_append, ← hlexemes, covered_lexemes]
  have hfront : source.toList.take token.position.index = covered first := by
    rw [hposition, toList_join_placed, hsource]
    exact List.take_left
  rw [hsource] at hlexemes
  rw [hfront, tokenize_eq_placed, String.toList_ofList, (lexemes_of_split hlexemes).1]

end Source

namespace Frame

/-- Whether a frame ends with the input. -/
def endsWithInput : Frame → Bool
  | .lineComment _ | .quotePair .. => true
  | _ => false

end Frame

namespace Parser

open Parlance.Frame (Ordered Opened)

/-! ## Errors at a token -/

variable {reading : Reading} {stack : List Frame} {cause : Cause} {error : ParseError}

theorem initial_of_refuses (h : Refuses reading cause) {c : Char} (hc : cause.culprit = some c) :
    reading.token.kind.initial = some c := by
  have hcloses : ∀ {kind : Token.Kind} {delimiter : Delimiter}, closes kind = some delimiter →
      kind.initial = some delimiter.right := by
    intro kind delimiter hkind
    cases kind <;> cases hkind <;> rfl
  cases h with
  | unmatched hkind => exact (hcloses hkind).trans hc
  | mismatched hkind => exact (hcloses hkind).trans hc
  | quotes hkind | comment hkind =>
    rw [hkind]
    exact hc
  | behindString | misshaped => cases hc

/-- A run that fails refuses one of its tokens. -/
theorem exists_refused {tokens : List Token} {parser : Parser} (hs : Ordered parser.stack)
    (hnone : parser.failure = none) {failure : ParseError}
    (h : (run tokens parser).failure = some failure) :
    ∃ token ∈ tokens, failure.position = token.position ∧
      ∃ reading, reading.token = token ∧ Refuses reading failure.cause := by
  induction tokens generalizing parser with
  | nil => cases hnone.symm.trans h
  | cons token rest ih =>
    have hrun : run (token :: rest) parser = run rest (push token parser).2 := rfl
    rw [hrun] at h
    rcases push_cases hnone token with ⟨stack, hread, hpush⟩ | ⟨cause, hread, -, hrefused⟩
    · have hordered := ordered_push token hs
      rw [hpush] at h hordered
      obtain ⟨other, hother, hrest⟩ := ih hordered hnone h
      exact ⟨other, List.mem_cons_of_mem _ hother, hrest⟩
    · rw [run_of_failure hrefused, hrefused] at h
      cases h
      exact ⟨token, List.mem_cons_self, rfl, _, rfl, refuses_of_read hs hread⟩

/-! ## Errors at the end of the input -/

/-- What keeps the input from ending is one frame, under frames that end with the input. -/
theorem unclosedFrame_eq_some (h : unclosedFrame stack = some error) :
    ∃ above frame below, stack = above ++ frame :: below ∧
      (∀ other ∈ above, other.endsWithInput = true) ∧ unclosedFrame [frame] = some error := by
  induction stack with
  | nil => cases h
  | cons top below ih =>
    cases top with
    | quotePair | lineComment =>
      obtain ⟨above, frame, rest, rfl, habove, hframe⟩ := ih h
      exact ⟨_ :: above, frame, rest, rfl, List.forall_mem_cons.2 ⟨rfl, habove⟩, hframe⟩
    | _ => exact ⟨[], _, below, rfl, List.forall_mem_nil _, h⟩

/-- A frame that keeps the input from ending is to blame where it was opened. -/
theorem culprit_of_unclosedFrame {frame : Frame} (h : unclosedFrame [frame] = some error) :
    error.position = frame.openedAt ∧ ∃ kind, frame.openedBy = some kind ∧
      error.cause.culprit = kind.initial := by
  cases frame with
  | sentences frame =>
    unfold unclosedFrame at h
    split at h
    · cases h
    · rename_i delimiter hdelimiter
      cases h
      show _ ∧ ∃ kind, frame.enclosure.openedBy = some kind ∧ _
      cases henclosure : frame.enclosure <;> rw [henclosure] at hdelimiter <;> cases hdelimiter
      all_goals exact ⟨rfl, _, rfl, rfl⟩
  | quotePair | lineComment => cases h
  | quoted | here | tagged | blockComment =>
    cases h
    exact ⟨rfl, _, rfl, rfl⟩

/-- How the end of the input can fail: a construct is open, a line continuation comes last, or a word
is refused. -/
theorem close_error_cases {parser : Parser} (hs : Ordered parser.stack) (hnone : parser.failure = none)
    (h : parser.close.1 = .error error) :
    unclosedFrame parser.stack = some error ∨
      (∃ position, parser.latest = some (.continuation, position) ∧
        error = ⟨.unterminatedScript, position⟩) ∨
      error = ⟨.syntaxError, (parser.latest.map Prod.snd).getD .start⟩ := by
  unfold close at h
  rw [hnone] at h
  dsimp only at h
  split at h
  · rename_i found hfound
    cases h
    unfold unclosed at hfound
    split at hfound
    · rename_i hframe
      exact .inl (hframe.trans hfound)
    · split at hfound
      · rename_i position hlatest
        exact .inr (.inl ⟨position, hlatest, (Option.some.inj hfound).symm⟩)
      · cases hfound
  · rename_i hunclosed
    split at h
    · cases h
    · rename_i cause hfinish
      rw [(invalid_of_finish hs (unclosedFrame_of_unclosed hunclosed) hfinish).1] at h
      exact .inr (.inr (Except.error.inj h).symm)

/-- The latest token is the last one, when none was refused. -/
theorem latest_of_run {tokens : List Token} {options : Options}
    (hnone : (run tokens (start options)).failure = none) :
    (run tokens (start options)).latest =
      tokens.getLast?.map fun token => (token.kind, token.position) := by
  rcases List.eq_nil_or_concat tokens with rfl | ⟨before, last, rfl⟩
  · rfl
  · rw [List.concat_eq_append] at hnone ⊢
    have hrun : run (before ++ [last]) (start options) = (push last (run before (start options))).2 :=
      run_append before [last] (start options)
    rcases push_cases (failure_of_run_append hnone) last with ⟨stack, -, hpush⟩ | ⟨cause, -, -, hrefused⟩
    · rw [hrun, hpush, List.getLast?_concat]
      rfl
    · rw [hrun, hrefused] at hnone
      cases hnone

theorem feed_eq_ok {tokens : List Token} {parser : Parser} (h : (run tokens parser).failure = none) :
    (parser.feed tokens).1 = .ok () := by
  cases hfeed : (parser.feed tokens).1 with
  | ok => rfl
  | error failure =>
    rw [(feed_tokens tokens parser).2 failure hfeed] at h
    cases h

/-! ## Errors of a text -/

section Text

variable {source : String} {options : Options}

/-- What is known of an incomplete error: no token is refused, and it is that of the innermost construct
that keeps the input from ending, or of a line continuation at the end. -/
theorem incomplete_cases (h : (run (tokenize source) (start options)).close.1 = .error error)
    (hincomplete : error.isIncomplete = true) :
    (run (tokenize source) (start options)).failure = none ∧
      (unclosedFrame (run (tokenize source) (start options)).stack = some error ∨
        ∃ last, (tokenize source).getLast? = some last ∧ last.kind = .continuation ∧
          error = ⟨.unterminatedScript, last.position⟩) := by
  have hordered := ordered_run (tokenize source) (ordered_start options)
  cases hfailure : (run (tokenize source) (start options)).failure with
  | some failure =>
    rw [close_of_failure hfailure] at h
    cases h
    obtain ⟨token, -, -, reading, -, hrefuses⟩ := exists_refused (ordered_start options) rfl hfailure
    cases hrefuses.not_isIncomplete.symm.trans hincomplete
  | none =>
    refine ⟨rfl, ?_⟩
    rcases close_error_cases hordered hfailure h with hframe | ⟨position, hlatest, herror⟩ | herror
    · exact .inl hframe
    · rw [latest_of_run hfailure] at hlatest
      obtain ⟨last, hlast, heq⟩ := Option.map_eq_some_iff.1 hlatest
      obtain ⟨hkind, rfl⟩ := Prod.mk.inj heq
      exact .inr ⟨last, hlast, hkind, herror⟩
    · rw [herror] at hincomplete
      cases hincomplete

/-- An error stands at a token that begins with the character at fault. -/
theorem exists_culprit (h : (run (tokenize source) (start options)).close.1 = .error error) :
    ∃ token ∈ tokenize source, token.position = error.position ∧
      ∀ c, error.cause.culprit = some c → token.kind.initial = some c := by
  have hordered := ordered_run (tokenize source) (ordered_start options)
  cases hfailure : (run (tokenize source) (start options)).failure with
  | some failure =>
    rw [close_of_failure hfailure] at h
    cases h
    obtain ⟨token, htoken, hposition, reading, rfl, hrefuses⟩ :=
      exists_refused (ordered_start options) rfl hfailure
    exact ⟨_, htoken, hposition.symm, fun c => initial_of_refuses hrefuses⟩
  | none =>
    rcases close_error_cases hordered hfailure h with hframe | ⟨position, hlatest, rfl⟩ | rfl
    · obtain ⟨above, frame, below, hsplit, -, hframe⟩ := unclosedFrame_eq_some hframe
      obtain ⟨hposition, kind, hkind, hculprit⟩ := culprit_of_unclosedFrame hframe
      have hmem : frame ∈ (run (tokenize source) (start options)).stack := by
        rw [hsplit]
        exact List.mem_append_right _ List.mem_cons_self
      obtain ⟨token, htoken, hat, rfl⟩ := (opened_tokenize source options).exists_opener hmem hkind
      exact ⟨token, htoken, hat.trans hposition.symm, fun c hc => hculprit.symm.trans hc⟩
    · rw [latest_of_run hfailure] at hlatest
      obtain ⟨last, hlast, heq⟩ := Option.map_eq_some_iff.1 hlatest
      obtain ⟨hkind, hposition⟩ := Prod.mk.inj heq
      refine ⟨last, List.mem_of_getLast? hlast, hposition, fun c hc => ?_⟩
      rw [hkind]
      exact hc
    · rw [latest_of_run hfailure]
      cases hlast : (tokenize source).getLast? with
      | some last => exact ⟨last, List.mem_of_getLast? hlast, rfl, fun c hc => by cases hc⟩
      | none =>
        -- Without a token the text is empty, and that is a script.
        rw [List.getLast?_eq_none_iff.1 hlast] at h
        cases h

/-- What was opened behind an incomplete error ends with the input. -/
theorem endsWithInput_of_behind (h : (run (tokenize source) (start options)).close.1 = .error error)
    (hincomplete : error.isIncomplete = true) {frame : Frame}
    (hframe : frame ∈ (run (tokenize source) (start options)).stack)
    (hbehind : error.position.index < frame.openedAt.index) : frame.endsWithInput = true := by
  have hopened := opened_tokenize source options
  rcases (incomplete_cases h hincomplete).2 with hunclosed | ⟨last, hlast, -, rfl⟩
  · obtain ⟨above, culprit, below, hsplit, habove, hculprit⟩ := unclosedFrame_eq_some hunclosed
    rw [(culprit_of_unclosedFrame hculprit).1] at hbehind
    rw [hsplit] at hopened hframe
    rcases List.mem_append.1 hframe with hmem | hmem
    · exact habove frame hmem
    · rcases List.mem_cons.1 hmem with rfl | hmem
      · exact absurd hbehind (Nat.lt_irrefl _)
      · exact absurd hbehind (Nat.not_lt_of_le (hopened.below_le frame hmem))
  · -- Nothing is opened behind the last token.
    exfalso
    rcases hopened.exists_token hframe with hstart | ⟨token, htoken, hposition⟩
    · rw [hstart] at hbehind
      exact Nat.not_lt_zero _ hbehind
    · obtain ⟨before, hsplit⟩ := List.getLast?_eq_some_iff.1 hlast
      have hsorted := pairwise_tokenize source
      rw [hsplit] at hsorted htoken
      rw [← hposition] at hbehind
      rcases List.mem_append.1 htoken with hmem | hmem
      · exact Nat.not_lt_of_le
          ((List.pairwise_append.1 hsorted).2.2 token hmem last List.mem_cons_self) hbehind
      · rw [List.mem_singleton.1 hmem] at hbehind
        exact Nat.lt_irrefl _ hbehind

end Text

end Parser

/-- **Errors point at the culprit.**  An error stands where a token of the text stands, and where its
cause tells which character is at fault, the text has that character there.  An error that more input
could repair stands where the innermost construct that is open was opened, or at the line continuation
that comes last: every token before it can be read, and what was opened behind it and is still open is a
line comment or an empty string. -/
theorem culprit_of_parse {source : String} {options : Parser.Options} {error : ParseError}
    (h : parse source options = .error error) :
    let before := String.ofList (source.toList.take error.position.index)
    let stack := ((Parser.start options).feed (tokenize source)).2.stack
    (∃ token ∈ tokenize source, token.position = error.position) ∧
    (∀ c, error.cause.culprit = some c → source.toList[error.position.index]? = some c) ∧
    (error.isIncomplete = true →
      ((Parser.start options).feed (tokenize before)).1 = .ok () ∧
      ((∃ frame ∈ stack, frame.openedAt = error.position ∧ Parser.unclosedFrame [frame] = some error) ∨
        ∃ last, (tokenize source).getLast? = some last ∧ last.kind = .continuation ∧
          error = ⟨.unterminatedScript, last.position⟩) ∧
      ∀ frame ∈ stack, error.position.index < frame.openedAt.index → frame.endsWithInput = true) := by
  intro before stack
  rw [Parser.parse_eq_close_run] at h
  have hstack : stack = (Parser.run (tokenize source) (.start options)).stack :=
    congrArg Parser.stack (Parser.feed_tokens (tokenize source) (.start options)).1
  obtain ⟨token, htoken, hposition, hinitial⟩ := Parser.exists_culprit h
  refine ⟨⟨token, htoken, hposition⟩, fun c hc => ?_, fun hincomplete => ?_⟩
  · rw [← hposition]
    exact char_of_initial htoken (hinitial c hc)
  · obtain ⟨hfailure, hcases⟩ := Parser.incomplete_cases h hincomplete
    rw [hstack]
    refine ⟨?_, hcases.imp_left fun hunclosed => ?_, fun frame hframe hbehind =>
      Parser.endsWithInput_of_behind h hincomplete hframe hbehind⟩
    · obtain ⟨first, second, hsplit⟩ := List.append_of_mem htoken
      have hfront := tokenize_take hsplit
      rw [hposition] at hfront
      rw [hsplit] at hfailure
      rw [hfront]
      exact Parser.feed_eq_ok (Parser.failure_of_run_append hfailure)
    · obtain ⟨above, frame, below, hsplit, -, hframe⟩ := Parser.unclosedFrame_eq_some hunclosed
      refine ⟨frame, ?_, (Parser.culprit_of_unclosedFrame hframe).1.symm, hframe⟩
      rw [hsplit]
      exact List.mem_append_right _ List.mem_cons_self

/-- A bracket that is left open among others, with a comment behind it. -/
theorem culprit_of_parse_bracket :
    let source := "( [b # c"
    let stack := ((Parser.start ⟨true⟩).feed (tokenize source)).2.stack
    parse source ⟨true⟩ = .error ⟨.unmatchedLeft .bracket, ⟨2, 0, 2⟩⟩ ∧
      source.toList[2]? = some '[' ∧ ((Parser.start ⟨true⟩).feed (tokenize "( ")).1 = .ok () ∧
      ∀ frame ∈ stack, 2 < frame.openedAt.index → frame.endsWithInput = true := by
  intro source stack
  have hparse : parse source ⟨true⟩ = .error ⟨.unmatchedLeft .bracket, ⟨2, 0, 2⟩⟩ := by
    cbv
  have hfront : String.ofList (source.toList.take 2) = "( " := by
    cbv
  obtain ⟨-, hchar, hopen⟩ := culprit_of_parse hparse
  obtain ⟨hbefore, -, hbehind⟩ := hopen rfl
  rw [hfront] at hbefore
  exact ⟨hparse, hchar _ rfl, hbefore, hbehind⟩

end Parlance
