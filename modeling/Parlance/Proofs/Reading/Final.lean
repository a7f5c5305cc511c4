import Mathlib
import Parlance.Proofs.Reading.Refusals

/-!
# Errors that more input cannot repair

An error that is not incomplete is final.  A token that was refused is refused as a longer one, and a
word that was refused at the end of the input is hopeless: the parser is `Doomed` either way.  An
incomplete error never comes from a token, only from the end of the input.

    Doomed p → Doomed (run tokens p), and a doomed parser fails to close    (Doomed.run, Doomed.close)
    the failure of a parser is never incomplete                                     (FailsForGood.run)
-/

namespace Parlance

open ParseError (Cause)

namespace Parser

open Parlance.Frame (Ordered HopelessStack)

/-! ## The end of the input -/

section End

variable {log : Array String} {stack after : List Frame} {cause : Cause}

theorem finish_single {frame : Frame.Sentences} {morpheme : Morpheme}
    (hshape : Morpheme.shape [morpheme] ≠ .invalid) :
    ∃ script, (frame.single morpheme).finish = .ok script := by
  have hclose : ∃ after, (frame.single morpheme).closeWord = .ok after := by
    unfold Frame.Sentences.closeWord
    exact ⟨_, if_neg hshape⟩
  exact exists_map_ok _ (exists_map_ok _ hclose)

/-- A line comment or an empty string at the end is a word of its own, and no word was open before it. -/
theorem finish_of_raw {top : Frame} {below : List Frame} {morpheme : Morpheme}
    (hs : Ordered (top :: below)) (hraw : top.isRaw) (hunclosed : unclosedFrame below = none)
    (hshape : Morpheme.shape [morpheme] ≠ .invalid)
    (hclose : closeInnermost log (top :: below) = Frame.addMorpheme morpheme below) :
    ∃ script, finish log (top :: below) = .ok script := by
  obtain ⟨frame, rest, rfl, hadd⟩ := Frame.addMorpheme_of_raw hs hraw morpheme
  obtain rfl := hs.tail.below_root (enclosure_of_unclosed hunclosed)
  obtain ⟨script, hscript⟩ := finish_single hshape
  refine ⟨script, ?_⟩
  unfold finish
  rw [hclose, hadd]
  exact hscript

/-- Only an open word can be refused where it ends. -/
theorem invalid_of_closeWord {frame : Frame.Sentences} (h : frame.closeWord = .error cause) :
    cause = .syntaxError ∧
      ∃ word, frame.word = some word ∧ Morpheme.shape word.morphemes.settle.toList = .invalid := by
  unfold Frame.Sentences.closeWord at h
  split at h
  · cases h
  · rename_i morphemes position hword
    dsimp only at h
    split at h
    · rename_i hshape
      cases h
      exact ⟨rfl, ⟨morphemes, position⟩, hword, hshape⟩
    · cases h

/-- Where nothing is left to close, only a word can be refused: the open word of the script. -/
theorem invalid_of_finish (hs : Ordered stack) (hunclosed : unclosedFrame stack = none)
    (h : finish log stack = .error cause) :
    cause = .syntaxError ∧ ∃ frame word, stack = [.sentences frame] ∧ frame.enclosure = .root ∧
      frame.word = some word ∧ Morpheme.shape word.morphemes.settle.toList = .invalid := by
  cases stack with
  | nil => cases hs
  | cons top below =>
    cases top with
    | quoted | here | tagged | blockComment => cases hunclosed
    | quotePair openedAt position =>
      obtain ⟨script, hscript⟩ := finish_of_raw hs (.inr rfl) hunclosed (by rintro ⟨⟩) rfl
      rw [hscript] at h
      cases h
    | lineComment frame =>
      obtain ⟨script, hscript⟩ := finish_of_raw hs (.inr rfl) hunclosed (by rintro ⟨⟩) rfl
      rw [hscript] at h
      cases h
    | sentences frame =>
      have henclosure := enclosure_of_unclosed hunclosed
      obtain rfl := hs.below_root henclosure
      have hclose : frame.closeWord = .error cause := map_eq_error (map_eq_error h)
      obtain ⟨hcause, word, hword, hshape⟩ := invalid_of_closeWord hclose
      exact ⟨hcause, frame, word, rfl, henclosure, hword, hshape⟩

end End

/-! ## Whole texts -/

section Parsers

variable {parser : Parser}

/-- A parser that has failed or cannot do otherwise. -/
def Doomed (parser : Parser) : Prop := parser.failure ≠ none ∨ HopelessStack parser.stack

theorem Doomed.push (h : Doomed parser) (token : Token) : Doomed (push token parser).2 := by
  unfold Parser.push
  split
  · rename_i failure hfailure
    exact .inl (by rw [hfailure]; exact Option.some_ne_none _)
  · rename_i hnone
    have hstack := h.resolve_left fun hfailure => hfailure hnone
    dsimp only
    split
    · rename_i stack hread
      exact .inr (hopeless_of_read hread hstack)
    · exact .inl (Option.some_ne_none _)

theorem Doomed.run (h : Doomed parser) (tokens : List Token) : Doomed (run tokens parser) := by
  induction tokens generalizing parser with
  | nil => exact h
  | cons token rest ih => exact ih (h.push token)

theorem Doomed.close (h : Doomed parser) : ∃ failure, parser.close.1 = .error failure := by
  unfold Parser.close
  split
  · exact ⟨_, rfl⟩
  · rename_i hnone
    have hstack := h.resolve_left fun hfailure => hfailure hnone
    split
    · exact ⟨_, rfl⟩
    · split
      · rename_i script hfinish
        exact absurd hfinish (finish_of_hopeless hstack script)
      · exact ⟨_, rfl⟩

theorem isIncomplete_of_unclosedFrame {stack : List Frame} {error : ParseError}
    (h : unclosedFrame stack = some error) : error.isIncomplete = true := by
  induction stack with
  | nil => cases h
  | cons top below ih =>
    cases top with
    | quotePair | lineComment => exact ih h
    | sentences frame =>
      unfold unclosedFrame at h
      split at h <;> cases h
      rfl
    | quoted | here | tagged | blockComment =>
      cases h
      rfl

/-- Input that cannot end is incomplete. -/
theorem isIncomplete_of_unclosed {error : ParseError} (h : parser.unclosed = some error) :
    error.isIncomplete = true := by
  unfold unclosed at h
  split at h
  · rename_i frameError hframes
    cases h
    exact isIncomplete_of_unclosedFrame hframes
  · split at h <;> cases h
    rfl

/-- A close that fails for good, without a token that was refused, refuses the open word. -/
theorem invalid_of_close (hs : Ordered parser.stack) (hfailure : parser.failure = none)
    {error : ParseError} (h : parser.close.1 = .error error) (hfinal : error.isIncomplete = false) :
    ∃ frame word, parser.stack = [.sentences frame] ∧ frame.enclosure = .root ∧
      frame.word = some word ∧ Morpheme.shape word.morphemes.settle.toList = .invalid := by
  unfold close at h
  rw [hfailure] at h
  dsimp only at h
  split at h
  · rename_i found hfound
    cases h
    rw [isIncomplete_of_unclosed hfound] at hfinal
    cases hfinal
  · rename_i hnone
    split at h
    · cases h
    · rename_i cause hfinish
      exact (invalid_of_finish hs (unclosedFrame_of_unclosed hnone) hfinish).2

/-- A word that was refused right after its latest token is hopeless. -/
theorem hopeless_of_close {last : Token} {stack : List Frame} (hs : Ordered parser.stack)
    (hread : read ⟨parser.options, last, parser.log.push last.sequence⟩ parser.stack = .ok stack)
    (hpush : (push last parser).2.stack = stack ∧ (push last parser).2.failure = none)
    {error : ParseError} (h : (push last parser).2.close.1 = .error error)
    (hfinal : error.isIncomplete = false) :
    ∃ frame word, stack = [.sentences frame] ∧ frame.enclosure = .root ∧
      frame.word = some word ∧ word.morphemes.Hopeless := by
  have hordered : Ordered (push last parser).2.stack := ordered_push last hs
  obtain ⟨frame, word, hstack, hroot, hword, hshape⟩ := invalid_of_close hordered hpush.2 h hfinal
  rw [hpush.1] at hstack
  subst hstack
  obtain ⟨settled, -, htakes⟩ := takes_of_read hread
  exact ⟨frame, word, rfl, hroot, hword,
    Draft.hopeless_of_shape (tracked_of_takes htakes hword) hshape⟩

/-- A parser that fails for good at a token, or right after it, is doomed at a longer token. -/
theorem doomed_of_grows {last grown : Token} (hs : Ordered parser.stack)
    (hgrows : last.Grows grown) {error : ParseError}
    (h : (push last parser).2.close.1 = .error error) (hfinal : error.isIncomplete = false) :
    Doomed (push grown parser).2 := by
  cases hfailure : parser.failure with
  | some failure =>
    rw [push_of_failure hfailure]
    exact .inl (by rw [hfailure]; exact Option.some_ne_none _)
  | none =>
    by_cases hsign : last.kind.sign? = none
    · have hposition : Reading.position ⟨parser.options, grown, parser.log.push grown.sequence⟩ =
          Reading.position ⟨parser.options, last, parser.log.push last.sequence⟩ :=
        congrArg parser.options.capture hgrows.position
      rcases push_cases hfailure grown with ⟨after, hnew, hpush⟩ | ⟨cause, -, -, hrefused⟩
      · rcases push_cases hfailure last with ⟨stack, hread, hlast⟩ | ⟨cause, hread, -⟩
        · obtain ⟨frame, word, rfl, hroot, hword, hhopeless⟩ :=
            hopeless_of_close hs hread (by rw [hlast]; exact ⟨rfl, hfailure⟩) h hfinal
          rw [hpush]
          exact .inr (hopeless_of_grows hs hgrows hposition hsign hread hword hhopeless hnew)
        · rw [read_error_of_grows hs hgrows hposition hsign hread] at hnew
          cases hnew
      · exact .inl (by rw [hrefused]; exact Option.some_ne_none _)
    · rw [hgrows.sign hsign]
      rcases push_cases hfailure last with ⟨stack, hread, hlast⟩ | ⟨cause, -, -, hrefused⟩
      · obtain ⟨frame, word, rfl, hroot, hword, hhopeless⟩ :=
          hopeless_of_close hs hread (by rw [hlast]; exact ⟨rfl, hfailure⟩) h hfinal
        rw [hlast]
        exact .inr (.root hroot hword hhopeless)
      · exact .inl (by rw [hrefused]; exact Option.some_ne_none _)

/-- Whether the failure of a parser, if it has one, is no matter of more input. -/
def FailsForGood (parser : Parser) : Prop := ∀ failure ∈ parser.failure, failure.isIncomplete = false

theorem FailsForGood.push (h : FailsForGood parser) (hs : Ordered parser.stack) (token : Token) :
    FailsForGood (push token parser).2 := by
  cases hfailure : parser.failure with
  | some failure =>
    rw [push_of_failure hfailure]
    exact h
  | none =>
    rcases push_cases hfailure token with ⟨stack, -, hpush⟩ | ⟨cause, hread, -, hrefused⟩
    · rw [hpush]
      exact h
    · intro failure hmem
      rw [hrefused] at hmem
      cases hmem
      exact (refuses_of_read hs hread).not_isIncomplete

theorem FailsForGood.run (h : FailsForGood parser) (hs : Ordered parser.stack) (tokens : List Token) :
    FailsForGood (run tokens parser) := by
  induction tokens generalizing parser with
  | nil => exact h
  | cons token rest ih => exact ih (h.push hs token) (ordered_push token hs)

end Parsers

end Parser

open Parlance.Parser (push run start)

/-- **Errors are final or incomplete.**  A text that fails for good fails with whatever text behind it,
unless its last backslash would escape that text.  When a text fails as incomplete, every one of its
tokens can be read, and it is the end of the input that fails. -/
theorem fails_of_parse {source : String} {options : Parser.Options} {error : ParseError}
    (h : parse source options = .error error) :
    (error.isIncomplete = false → endsOpen source = false →
      ∀ more, ∃ failure, parse (source ++ more) options = .error failure) ∧
    (error.isIncomplete = true →
      (∀ before token after, tokenize source = before ++ token :: after →
        (push token (run before (start options))).1 = .ok ()) ∧
      (run (tokenize source) (start options)).close.1 = .error error) := by
  rw [Parser.parse_eq_close_run] at h
  refine ⟨fun hfinal hends more => ?_, fun hincomplete => ⟨?_, h⟩⟩
  · rcases List.eq_nil_or_concat (tokenize source) with hnil | ⟨before, last, hlast⟩
    · rw [hnil] at h
      cases h
    · rw [List.concat_eq_append] at hlast
      obtain ⟨grown, rest, hgrown, hgrows⟩ := tokenize_append hends hlast more
      have hs := Parser.ordered_run before (Parser.ordered_start options)
      rw [hlast, Parser.run_append] at h
      have hdoomed := Parser.doomed_of_grows hs hgrows h hfinal
      rw [Parser.parse_eq_close_run, hgrown, Parser.run_append]
      exact (hdoomed.run rest).close
  · intro before token after hsplit
    have hgood : Parser.FailsForGood (start options) := fun failure hfailure => by cases hfailure
    have hall := hgood.run (Parser.ordered_start options) (tokenize source)
    -- The failure of any token would be reported at the end, and it is not incomplete.
    have hfailure : (run (tokenize source) (start options)).failure = none := by
      cases hfailure : (run (tokenize source) (start options)).failure with
      | none => rfl
      | some failure =>
        rw [Parser.close_of_failure hfailure] at h
        cases h
        rw [hall error hfailure] at hincomplete
        cases hincomplete
    rw [hsplit] at hfailure
    exact Parser.push_of_run_append hfailure

/-- A word that no text completes, and a bracket that waits for its closing bracket. -/
theorem fails_of_parse_compound :
    parse "(a)b$" ⟨true⟩ = .error ⟨.syntaxError, ⟨4, 0, 4⟩⟩ ∧
      (∃ failure, parse ("(a)b$" ++ "(c)") ⟨true⟩ = .error failure) ∧
      parse "x (" ⟨false⟩ = .error ⟨.unmatchedLeft .parenthesis, ⟨2, 0, 2⟩⟩ ∧
      ∀ before token after, tokenize "x (" = before ++ token :: after →
        (push token (run before (start ⟨false⟩))).1 = .ok () := by
  have hfinal : parse "(a)b$" ⟨true⟩ = .error ⟨.syntaxError, ⟨4, 0, 4⟩⟩ := by
    cbv
  have hopen : parse "x (" ⟨false⟩ = .error ⟨.unmatchedLeft .parenthesis, ⟨2, 0, 2⟩⟩ := by
    cbv
  have hends : endsOpen "(a)b$" = false := by
    cbv
  exact ⟨hfinal, (fails_of_parse hfinal).1 rfl hends "(c)", hopen, ((fails_of_parse hopen).2 rfl).1⟩

end Parlance
