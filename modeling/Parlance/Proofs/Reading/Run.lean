import Parlance.Proofs.Reading.Move

/-!
# Runs of the parser

A run takes tokens until one cannot be read; from then on the parser stays as it is.  So it does not
matter whether the tokens come at once or in pieces, and closing a parser that failed reports why.
A close that could have gone on with more input leaves the parser as it was.

Positions are only reported: a run with other positions has the same frames, the same failure and the
same end.

    parse text o = (close (run (tokenize text) (start o))).1                    (parse_eq_close_run)
    close p = (error e, p') → e.isIncomplete → p' = p                     (close_of_isIncomplete)
    (run tokens p).unplaced = run (tokens.map unplaced) p.unplaced                    (run_unplaced)
-/

namespace Parlance

open ParseError (Cause)

namespace Parser

/-- The parser after some tokens, whether or not all of them could be read. -/
def run (tokens : List Token) (parser : Parser) : Parser :=
  tokens.foldl (fun parser token => (push token parser).2) parser

variable {parser after : Parser} {failure : ParseError}

theorem run_append (first second : List Token) (parser : Parser) :
    run (first ++ second) parser = run second (run first parser) :=
  List.foldl_append

/-! ## Failures -/

theorem push_of_failure (h : parser.failure = some failure) (token : Token) :
    push token parser = (.error failure, parser) := by
  unfold push
  rw [h]

theorem failure_of_push {token : Token} (h : push token parser = (.error failure, after)) :
    after.failure = some failure := by
  unfold push at h
  split at h
  · rename_i known hknown
    obtain ⟨hfailure, rfl⟩ := Prod.mk.inj h
    rw [hknown, Except.error.inj hfailure]
  · dsimp only at h
    split at h
    · cases h
    · obtain ⟨hfailure, rfl⟩ := Prod.mk.inj h
      rw [← Except.error.inj hfailure]

/-- A failure is final. -/
theorem run_of_failure (h : parser.failure = some failure) (tokens : List Token) :
    run tokens parser = parser := by
  induction tokens with
  | nil => rfl
  | cons token rest ih =>
    show run rest (push token parser).2 = parser
    rw [push_of_failure h token]
    exact ih

theorem close_of_failure (h : parser.failure = some failure) :
    parser.close = (.error failure, parser) := by
  unfold close
  rw [h]

/-- A token that is taken, or refused for good. -/
theorem push_cases (hfailure : parser.failure = none) (token : Token) :
    (∃ stack, read ⟨parser.options, token, parser.log.push token.sequence⟩ parser.stack = .ok stack ∧
      push token parser = (.ok (), { parser with
        log := parser.log.push token.sequence
        latest := some (token.kind, token.position)
        stack := stack })) ∨
    ∃ cause, read ⟨parser.options, token, parser.log.push token.sequence⟩ parser.stack =
        .error cause ∧ (push token parser).1 = .error ⟨cause, token.position⟩ ∧
      (push token parser).2.failure = some ⟨cause, token.position⟩ := by
  unfold push
  rw [hfailure]
  dsimp only
  cases hread : read ⟨parser.options, token, parser.log.push token.sequence⟩ parser.stack with
  | ok stack => exact .inl ⟨stack, rfl, rfl⟩
  | error cause => exact .inr ⟨cause, rfl, rfl, rfl⟩

/-- A run without a failure has none on its way. -/
theorem failure_of_run_append {first second : List Token}
    (h : (run (first ++ second) parser).failure = none) : (run first parser).failure = none := by
  cases hfirst : (run first parser).failure with
  | none => rfl
  | some failure =>
    rw [run_append, run_of_failure hfirst, hfirst] at h
    cases h

/-- A run without a failure takes each of its tokens. -/
theorem push_of_run_append {before rest : List Token} {token : Token}
    (h : (run (before ++ token :: rest) parser).failure = none) :
    (push token (run before parser)).1 = .ok () := by
  rcases push_cases (failure_of_run_append h) token with ⟨stack, -, hpush⟩ | ⟨cause, -, -, hrefused⟩
  · rw [hpush]
  · have hrun : run (before ++ token :: rest) parser =
        run rest (push token (run before parser)).2 := by
      rw [run_append]
      rfl
    rw [hrun, run_of_failure hrefused, hrefused] at h
    cases h

/-! ## Feeding -/

/-- The tokens that a scanner gives are those of its text. -/
theorem collect_scanner (scanner : Scanner) : TokenStream.collect scanner = scanner.tokens := by
  generalize hn : scanner.cursor.rest.length = n
  induction n using Nat.strongRecOn generalizing scanner with
  | _ n ih =>
    rcases hnext : scanner.next with - | ⟨token, after⟩
    · rw [TokenStream.collect_of_next_eq_none hnext, Scanner.tokens_of_next_eq_none hnext]
    · have hlt := Scanner.length_rest_next_lt hnext
      rw [hn] at hlt
      rw [TokenStream.collect_of_next_eq_some hnext, Scanner.tokens_of_next_eq_some hnext,
        ih _ hlt after rfl]

/-- Feeding ends with the run of the tokens, and reports the failure of the run. -/
theorem feed_tokens (tokens : List Token) (parser : Parser) :
    (parser.feed tokens).2 = run tokens parser ∧
      ∀ failure, (parser.feed tokens).1 = .error failure →
        (run tokens parser).failure = some failure := by
  induction tokens generalizing parser with
  | nil =>
    rw [feed_nil]
    exact ⟨rfl, fun failure h => by cases h⟩
  | cons token rest ih =>
    rcases hpush : push token parser with ⟨answer, after⟩
    have hrun : run (token :: rest) parser = run rest after := by
      show run rest (push token parser).2 = run rest after
      rw [hpush]
    cases answer with
    | ok =>
      rw [feed_cons_of_ok hpush, hrun]
      exact ih after
    | error failure =>
      have hfailure := failure_of_push hpush
      rw [feed_cons_of_error hpush, hrun, run_of_failure hfailure]
      refine ⟨rfl, fun failure' h => ?_⟩
      rw [← Except.error.inj h]
      exact hfailure

/-- Feeding a stream is feeding the tokens that it gives. -/
theorem feed_collect {σ : Type} [TokenStream σ] (stream : σ) (parser : Parser) :
    parser.feed stream = parser.feed (TokenStream.collect stream) := by
  generalize hn : TokenStream.remaining stream = n
  induction n using Nat.strongRecOn generalizing stream parser with
  | _ n ih =>
    rw [feed]
    split
    · rename_i hnext
      rw [TokenStream.collect_of_next_eq_none hnext, feed_nil]
    · rename_i token next hnext
      have hlt := TokenStream.remaining_next_lt hnext
      rw [hn] at hlt
      rw [TokenStream.collect_of_next_eq_some hnext]
      cases hpush : push token parser with
      | mk answer after =>
        cases answer with
        | ok =>
          rw [feed_cons_of_ok hpush]
          exact ih _ hlt next after rfl
        | error failure => rw [feed_cons_of_error hpush]

/-- Feeding a scanner is feeding its tokens. -/
theorem feed_scanner (scanner : Scanner) (parser : Parser) :
    parser.feed scanner = parser.feed scanner.tokens := by
  rw [feed_collect, collect_scanner]

/-- Reading a list of tokens is running them from the beginning and closing. -/
theorem parseTokens_eq_close_run (tokens : List Token) (parser : Parser) :
    (parser.parseTokens tokens).1 = (close (run tokens parser.begin)).1 := by
  obtain ⟨hrun, hfailure⟩ := feed_tokens tokens parser.begin
  unfold parseTokens
  rcases hfeed : parser.begin.feed tokens with ⟨answer, after⟩
  rw [hfeed] at hrun hfailure
  rw [← hrun]
  cases answer with
  | ok => rfl
  | error failure =>
    have hafter := hfailure failure rfl
    rw [← hrun] at hafter
    rw [close_of_failure hafter]

/-- Reading a text is running its tokens and closing. -/
theorem parse_eq_close_run (source : String) (options : Options) :
    parse source options = (close (run (tokenize source) (start options))).1 :=
  parseTokens_eq_close_run (tokenize source) (start options)

/-! ## Parsers without positions -/

/-- A parser that does not record positions, with frames as they can be open. -/
structure Plain (parser : Parser) : Prop where
  options : parser.options = ⟨false⟩
  stacked : Frame.Stacked parser.stack

theorem plain_start : Plain (start ⟨false⟩) := ⟨rfl, .root rfl⟩

theorem Plain.push (h : Plain parser) (token : Token) : Plain (push token parser).2 := by
  unfold Parser.push
  split
  · exact h
  · dsimp only
    split
    · rename_i stack hread
      exact ⟨h.options, stacked_of_read hread h.stacked⟩
    · exact ⟨h.options, h.stacked⟩

theorem Plain.run (h : Plain parser) (tokens : List Token) : Plain (run tokens parser) := by
  induction tokens generalizing parser with
  | nil => exact h
  | cons token rest ih => exact ih (h.push token)

/-! ## Incomplete input -/

theorem not_isIncomplete_addMorpheme {morpheme : Morpheme} {stack : List Frame} {cause : Cause}
    (h : Frame.addMorpheme morpheme stack = .error cause) : cause.isIncomplete = false := by
  unfold Frame.addMorpheme at h
  split at h
  · rename_i frame below
    unfold Frame.Sentences.pushMorpheme Frame.Sentences.editWord at h
    dsimp only at h
    split at h <;> cases h
    rfl
  · cases h
  · cases h
    rfl

theorem not_isIncomplete_finish {frame : Frame.Sentences} {cause : Cause}
    (h : frame.finish = .error cause) : cause.isIncomplete = false := by
  unfold Frame.Sentences.finish Frame.Sentences.closeSentence Frame.Sentences.closeWord at h
  split at h
  · cases h
  · dsimp only at h
    split at h <;> cases h
    rfl

/-- Sentences that need not be closed are those of the whole script. -/
theorem enclosure_of_unclosed {frame : Frame.Sentences} {below : List Frame}
    (hunclosed : unclosedFrame (.sentences frame :: below) = none) : frame.enclosure = .root := by
  unfold unclosedFrame at hunclosed
  cases henclosure : frame.enclosure with
  | root => rfl
  | tuple | block | expression =>
    rw [henclosure] at hunclosed
    cases hunclosed

/-- Below sentences that need not be closed there is nothing. -/
theorem below_eq_nil_of_unclosed {frame : Frame} {below : List Frame} {enclosure : Frame.Enclosure}
    {textStart : Nat} {position : Option Position}
    (hrole : frame.role = .sentences enclosure textStart position)
    (hstack : Frame.Stacked (frame :: below)) (hunclosed : unclosedFrame (frame :: below) = none) :
    below = [] := by
  cases frame with
  | sentences frame => exact hstack.below_root (enclosure_of_unclosed hunclosed)
  | _ => cases hrole

/-- Where nothing is left to close, only the whole script is open. -/
theorem closeInnermost_of_unclosed {log : Array String} {stack rest : List Frame}
    (hstack : Frame.Stacked stack) (hunclosed : unclosedFrame stack = none)
    (h : closeInnermost log stack = .ok rest) : ∃ frame, rest = [.sentences frame] := by
  cases stack with
  | nil => exact absurd rfl hstack.ne_nil
  | cons top below =>
    -- An empty string or a line comment becomes part of the sentences below it.
    have hadd : ∀ {morpheme : Morpheme}, top.role = .other → unclosedFrame below = none →
        Frame.addMorpheme morpheme below = .ok rest → ∃ frame, rest = [.sentences frame] := by
      intro morpheme htop hunclosed hmorpheme
      obtain ⟨outer, after, tail, rfl, rfl, hrole, -⟩ := addMorpheme_eq_ok hmorpheme
      obtain ⟨enclosure, textStart, position, houter⟩ := hstack.below_other htop
      rw [below_eq_nil_of_unclosed houter hstack.tail hunclosed]
      rw [houter] at hrole
      cases after with
      | sentences frame => exact ⟨frame, rfl⟩
      | _ => cases hrole
    cases top with
    | sentences frame =>
      cases h
      rw [below_eq_nil_of_unclosed rfl hstack hunclosed]
      exact ⟨frame, rfl⟩
    | quotePair openedAt position => exact hadd rfl hunclosed h
    | lineComment frame => exact hadd rfl hunclosed h
    | _ => cases hunclosed

theorem unclosedFrame_of_unclosed {parser : Parser} (h : parser.unclosed = none) :
    unclosedFrame parser.stack = none := by
  unfold unclosed at h
  split at h
  · cases h
  · assumption

/-- When a construct is open, a close leaves the parser as it is. -/
theorem close_of_isIncomplete (h : Plain parser) {error : ParseError}
    (hclose : parser.close.1 = .error error) (hincomplete : error.isIncomplete = true) :
    parser.close.2 = parser := by
  unfold close at hclose ⊢
  cases hfailure : parser.failure with
  | some failure => rfl
  | none =>
    cases hunclosed : parser.unclosed with
    | some error => rfl
    | none =>
      simp only [hfailure, hunclosed] at hclose ⊢
      have hframe := unclosedFrame_of_unclosed hunclosed
      cases hfinish : finish parser.log parser.stack with
      | ok script =>
        rw [hfinish] at hclose
        cases hclose
      | error cause =>
        rw [hfinish] at hclose
        rw [← Except.error.inj hclose] at hincomplete
        have hcause : cause.isIncomplete = false := by
          unfold finish at hfinish
          cases hinner : closeInnermost parser.log parser.stack with
          | error cause' =>
            rw [hinner] at hfinish
            cases hfinish
            unfold closeInnermost at hinner
            split at hinner
            · exact not_isIncomplete_addMorpheme hinner
            · exact not_isIncomplete_addMorpheme hinner
            · cases hinner
          | ok rest =>
            obtain ⟨frame, rfl⟩ := closeInnermost_of_unclosed h.stacked hframe hinner
            rw [hinner] at hfinish
            exact not_isIncomplete_finish hfinish
        rw [show ParseError.isIncomplete ⟨cause, _⟩ = cause.isIncomplete from rfl, hcause] at hincomplete
        cases hincomplete

/-! ## Positions -/

/-- A parser with nothing but the start for a position. -/
def unplaced (parser : Parser) : Parser :=
  { parser with
    stack := Frame.move 0 .root [] parser.stack
    latest := parser.latest.map fun latest => (latest.1, .start)
    failure := parser.failure.map fun failure => ⟨failure.cause, .start⟩ }

theorem unplaced_start : (start ⟨false⟩).unplaced = start ⟨false⟩ := rfl

theorem read_unplaced (reading : Reading) (hlog : 0 < reading.log.size)
    (hoptions : reading.options = ⟨false⟩) {stack : List Frame} (hstack : Frame.Stacked stack) :
    read { reading with token := reading.token.unplaced } (Frame.move 0 .root [] stack) =
      (read reading stack).map (Frame.move 0 .root []) := by
  have hmoved : reading.moved #[] = { reading with token := reading.token.unplaced } := by
    rw [Reading.moved, Array.empty_append]
  rw [← hmoved]
  exact read_moved hlog #[] .root [] hoptions hstack (.inl rfl)

theorem push_unplaced (h : Plain parser) (token : Token) :
    (push token.unplaced parser.unplaced).2 = (push token parser).2.unplaced := by
  obtain ⟨options, stack, log, latest, failure⟩ := parser
  cases failure with
  | some failure => rfl
  | none =>
    have hsequence : token.unplaced.sequence = token.sequence := rfl
    have hkind : token.unplaced.kind = token.kind := rfl
    have hlog : 0 < (log.push token.sequence).size := by
      rw [Array.size_push]
      exact Nat.succ_pos _
    have hread := read_unplaced ⟨options, token, log.push token.sequence⟩ hlog h.options h.stacked
    unfold push unplaced
    dsimp only [Option.map_none] at hread ⊢
    rw [hsequence, hkind, hread]
    cases read ⟨options, token, log.push token.sequence⟩ stack <;> rfl

/-- Positions have no effect on a run. -/
theorem run_unplaced (h : Plain parser) (tokens : List Token) :
    (run tokens parser).unplaced = run (tokens.map Token.unplaced) parser.unplaced := by
  induction tokens generalizing parser with
  | nil => rfl
  | cons token rest ih =>
    have hrest := ih (h.push token)
    rw [← push_unplaced h token] at hrest
    exact hrest

theorem closeInnermost_move {log : Array String} {stack : List Frame}
    (hstack : Frame.Stacked stack) :
    closeInnermost log (Frame.move 0 .root [] stack) =
      (closeInnermost log stack).map (Frame.move 0 .root []) := by
  cases stack with
  | nil => rfl
  | cons top below =>
    have hbelow : top.role = .other → below ≠ [] := by
      intro htop
      exact hstack.below_ne_nil fun hrole => by rw [htop] at hrole; cases hrole
    cases top with
    | quotePair openedAt position => exact Frame.addMorpheme_move _ (hbelow rfl)
    | lineComment frame => exact Frame.addMorpheme_move _ (hbelow rfl)
    | _ => rfl

theorem finish_unplaced (log : Array String) {stack : List Frame} (hstack : Frame.Stacked stack) :
    finish log (Frame.move 0 .root [] stack) = finish log stack := by
  unfold finish
  rw [closeInnermost_move hstack]
  cases closeInnermost log stack with
  | error cause => rfl
  | ok rest =>
    cases rest with
    | nil => rfl
    | cons first more =>
      cases more with
      | cons second more => cases first <;> rfl
      | nil =>
        cases first with
        | sentences frame => exact frame.finish_moved
        | quoted | quotePair | here | tagged | lineComment | blockComment => rfl

theorem unclosedFrame_unplaced (stack : List Frame) :
    unclosedFrame (Frame.move 0 .root [] stack) =
      (unclosedFrame stack).map fun error => ⟨error.cause, .start⟩ := by
  induction stack with
  | nil => rfl
  | cons top below ih =>
    cases top with
    | sentences frame =>
      have henclosure : (frame.moved 0 .root).enclosure = frame.enclosure := by
        show (if frame.enclosure = .root then Frame.Enclosure.root else frame.enclosure) = _
        by_cases hroot : frame.enclosure = .root
        · rw [if_pos hroot, hroot]
        · rw [if_neg hroot]
      rw [Frame.move_cons]
      dsimp only [Frame.moved, unclosedFrame]
      rw [henclosure]
      cases frame.enclosure.delimiter <;> rfl
    | quotePair openedAt position => exact ih
    | lineComment frame => exact ih
    | _ => rfl

theorem unclosed_unplaced (parser : Parser) :
    parser.unplaced.unclosed = parser.unclosed.map fun error => ⟨error.cause, .start⟩ := by
  unfold unclosed unplaced
  dsimp only
  rw [unclosedFrame_unplaced]
  cases unclosedFrame parser.stack with
  | some error => rfl
  | none =>
    rcases parser.latest with _ | ⟨kind, position⟩
    · rfl
    · cases kind <;> rfl

/-- Positions have no effect on a close. -/
theorem close_unplaced (h : Plain parser) :
    parser.unplaced.close.1.mapError ParseError.cause = parser.close.1.mapError ParseError.cause := by
  have hunclosed := unclosed_unplaced parser
  have hfinish := finish_unplaced parser.log h.stacked
  have hfailure : parser.unplaced.failure =
      parser.failure.map fun failure => ⟨failure.cause, .start⟩ := rfl
  have hlog : parser.unplaced.log = parser.log := rfl
  have hstack : parser.unplaced.stack = Frame.move 0 .root [] parser.stack := rfl
  unfold close
  rw [hunclosed, hfailure, hlog, hstack, hfinish]
  cases parser.failure with
  | some failure => rfl
  | none =>
    cases parser.unclosed with
    | some error => rfl
    | none => cases finish parser.log parser.stack <;> rfl

end Parser

end Parlance
