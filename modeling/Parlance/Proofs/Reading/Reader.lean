import Parlance.Proofs.Reading.Run

/-!
# Reading lexemes

Without positions a text is read lexeme by lexeme, and a parser is its log, its frames and the kind
of its latest token.  What a reader makes of a text does not depend on anything else.

    (parse source ⟨false⟩).mapError cause = Reader.start.parse source.toList       (mapError_parse)
    readAll (before ++ after) r = (readAll before r).bind (readAll after)         (readAll_append)
-/

namespace Parlance

open ParseError (Cause)
open Parlance.Parser

/-- A parser that has not failed, without positions. -/
structure Reader where
  log : Array String
  stack : List Frame
  /-- The kind of the latest token. -/
  latest : Option Token.Kind

namespace Reader

/-- A reader that has read nothing. -/
def start : Reader := ⟨#[], [rootFrame ⟨false⟩], none⟩

/-- The log once a lexeme is read. -/
def logged (lexeme : Lexeme) (reader : Reader) : Array String :=
  reader.log.push (String.ofList lexeme.sequence)

/-- What is known when a lexeme is read. -/
def reading (lexeme : Lexeme) (reader : Reader) : Reading :=
  ⟨⟨false⟩, lexeme.toToken .start, reader.logged lexeme⟩

/-- The reader after one lexeme. -/
def next (lexeme : Lexeme) (reader : Reader) : Except Cause Reader :=
  (read (reader.reading lexeme) reader.stack).map fun stack =>
    ⟨reader.logged lexeme, stack, some lexeme.kind⟩

/-- The reader after several lexemes. -/
def readAll : List Lexeme → Reader → Except Cause Reader
  | [], reader => .ok reader
  | lexeme :: rest, reader => (reader.next lexeme).bind (readAll rest)

/-- The script of a reader at the end of its input. -/
def close (reader : Reader) : Except Cause Script :=
  match unclosedFrame reader.stack with
  | some error => .error error.cause
  | none =>
    if reader.latest = some .continuation then .error .unterminatedScript
    else finish reader.log reader.stack

/-- The script of a reader that is given a text and nothing more. -/
def parse (text : List Char) (reader : Reader) : Except Cause Script :=
  (reader.readAll (lexemes text)).bind close

variable {reader after : Reader}

theorem readAll_append (first second : List Lexeme) (reader : Reader) :
    reader.readAll (first ++ second) = (reader.readAll first).bind (readAll second) := by
  induction first generalizing reader with
  | nil => rfl
  | cons lexeme rest ih =>
    rw [List.cons_append, readAll, readAll]
    cases reader.next lexeme with
    | error cause => rfl
    | ok next => exact ih next

theorem readAll_trans {first second : List Lexeme} {middle : Reader}
    (hfirst : reader.readAll first = .ok middle) (hsecond : middle.readAll second = .ok after) :
    reader.readAll (first ++ second) = .ok after := by
  rw [readAll_append, hfirst]
  exact hsecond

theorem readAll_single {lexeme : Lexeme} (h : reader.next lexeme = .ok after) :
    reader.readAll [lexeme] = .ok after := by
  rw [readAll, h]
  rfl

/-- The reader after a lexeme that can be read. -/
theorem next_of_read {lexeme : Lexeme} {stack : List Frame}
    (h : read (reader.reading lexeme) reader.stack = .ok stack) :
    reader.next lexeme = .ok ⟨reader.logged lexeme, stack, some lexeme.kind⟩ := by
  rw [next, h]
  rfl

theorem parse_nil (reader : Reader) : reader.parse [] = reader.close := by
  rw [parse, lexemes_nil]
  rfl

/-- A text is parsed from its first lexeme on. -/
theorem parse_cons {c : Char} {text rest : List Char} {lexeme : Lexeme}
    (hfirst : Lexeme.first c text = (lexeme, rest)) (hnext : reader.next lexeme = .ok after) :
    reader.parse (c :: text) = after.parse rest := by
  rw [parse, lexemes_cons, hfirst, readAll, hnext]
  rfl

/-- A reader that has a script at the end finishes it from its frames. -/
theorem finish_of_close {script : Script} (h : reader.close = .ok script) :
    finish reader.log reader.stack = .ok script := by
  unfold close at h
  split at h
  · cases h
  · split at h
    · cases h
    · exact h

/-! ## Readers and parsers -/

/-- The parser that a reader stands for. -/
def toParser (reader : Reader) : Parser :=
  ⟨⟨false⟩, reader.stack, reader.log, reader.latest.map fun kind => (kind, .start), none⟩

theorem close_toParser (reader : Reader) :
    reader.toParser.close.1.mapError ParseError.cause = reader.close := by
  obtain ⟨log, stack, latest⟩ := reader
  unfold Parser.close close unclosed toParser
  dsimp only
  cases unclosedFrame stack with
  | some error => rfl
  | none =>
    cases latest with
    | none =>
      dsimp only [Option.map_none]
      cases finish log stack <;> rfl
    | some kind =>
      by_cases hkind : kind = .continuation
      · subst hkind
        rfl
      · dsimp only [Option.map_some]
        have hlatest : some kind ≠ some .continuation := fun h => hkind (Option.some.inj h)
        rw [if_neg hlatest]
        split
        · rename_i hsome
          split at hsome
          · rename_i hcontinuation
            exact absurd (Prod.mk.inj (Option.some.inj hcontinuation)).1 hkind
          · cases hsome
        · cases finish log stack <;> rfl

theorem push_toParser_ok {lexeme : Lexeme} {stack : List Frame}
    (h : read (reader.reading lexeme) reader.stack = .ok stack) :
    (push (lexeme.toToken .start) reader.toParser).2 =
      toParser ⟨reader.logged lexeme, stack, some lexeme.kind⟩ := by
  have hread : read ⟨⟨false⟩, lexeme.toToken .start,
      reader.log.push (lexeme.toToken .start).sequence⟩ reader.stack = .ok stack := h
  unfold push toParser
  dsimp only
  rw [hread]
  rfl

theorem push_toParser_error {lexeme : Lexeme} {cause : Cause}
    (h : read (reader.reading lexeme) reader.stack = .error cause) :
    (push (lexeme.toToken .start) reader.toParser).2 =
      { toParser ⟨reader.logged lexeme, reader.stack, some lexeme.kind⟩ with
        failure := some ⟨cause, .start⟩ } := by
  have hread : read ⟨⟨false⟩, lexeme.toToken .start,
      reader.log.push (lexeme.toToken .start).sequence⟩ reader.stack = .error cause := h
  unfold push toParser
  dsimp only
  rw [hread]
  rfl

/-- A parser closes as its reader does. -/
theorem close_run_toParser (items : List Lexeme) (reader : Reader) :
    (run (items.map fun lexeme => lexeme.toToken .start) reader.toParser).close.1.mapError
        ParseError.cause =
      (reader.readAll items).bind close := by
  induction items generalizing reader with
  | nil => exact close_toParser reader
  | cons lexeme rest ih =>
    show (run (rest.map fun lexeme => lexeme.toToken .start)
      (push (lexeme.toToken .start) reader.toParser).2).close.1.mapError ParseError.cause = _
    rw [readAll, next]
    cases hread : read (reader.reading lexeme) reader.stack with
    | ok stack =>
      rw [push_toParser_ok hread]
      exact ih ⟨reader.logged lexeme, stack, some lexeme.kind⟩
    | error cause =>
      rw [push_toParser_error hread, run_of_failure rfl, close_of_failure rfl]
      rfl

/-- Reading a text, without positions. -/
theorem mapError_parse (source : String) :
    (Parlance.parse source ⟨false⟩).mapError ParseError.cause = Reader.start.parse source.toList := by
  rw [parse_eq_close_run, ← close_unplaced (plain_start.run _), run_unplaced plain_start,
    unplaced_tokenize, unplaced_start]
  exact close_run_toParser (lexemes source.toList) .start

theorem parse_eq_ok {source : String} {script : Script} :
    Parlance.parse source ⟨false⟩ = .ok script ↔ Reader.start.parse source.toList = .ok script := by
  rw [← mapError_parse]
  cases Parlance.parse source ⟨false⟩ with
  | error error => constructor <;> (intro h; cases h)
  | ok script' => constructor <;> (intro h; cases h; rfl)

end Reader

end Parlance
