import Parlance.Source.Cursor
import Parlance.Token
import Parlance.Token.Escape

/-!
# Scanning text into tokens

The first character decides the kind of a token.

| first character                          | token                                         |
|------------------------------------------|-----------------------------------------------|
| space, tab, carriage return, form feed   | whitespace, the whole run                     |
| newline                                  | newline                                       |
| backslash before a newline               | continuation, with the blanks that follow     |
| backslash before anything else           | escape                                        |
| `#`                                      | comment, the whole run                        |
| `"`                                      | string delimiter, the whole run               |
| `( ) { } [ ] $ * ;`                      | one token each                                |
| anything else                            | text, the whole run                           |

A backslash that ends the input has nothing to escape.  It is text, and belongs to the text run
before it if there is one.  Nothing is lost, and every lexeme covers at least one character:

    (first c rest).1.sequence ++ (first c rest).2 = c :: rest            (sequence_append_first)
    (first c rest).2.length ≤ rest.length                                (length_first_le)
-/

namespace Parlance

/-! ## Lexemes: tokens without a place -/

/-- A token without its position, as characters. -/
structure Lexeme where
  kind : Token.Kind
  sequence : List Char
  literal : List Char

/-- Blanks within a line. -/
def isBlank (c : Char) : Bool :=
  c = ' ' || c = '\t' || c = '\r' || c = '\x0c'

/-- Characters that form text. -/
def isOrdinary (c : Char) : Bool :=
  !(isBlank c || c ∈ ['\n', '\\', '#', '"', '(', ')', '{', '}', '[', ']', '$', '*', ';'])

namespace Lexeme

/-- A lexeme that stands for its own text. -/
def verbatim (kind : Token.Kind) (text : List Char) : Lexeme := ⟨kind, text, text⟩

/-- The lexeme of one kind that starts with `c` and goes on while `p` holds, and the rest. -/
def run (kind : Token.Kind) (p : Char → Bool) (c : Char) (rest : List Char) :
    Lexeme × List Char :=
  (verbatim kind (c :: rest.takeWhile p), rest.dropWhile p)

/-- A run of text, together with a backslash that ends the input right after it. -/
def textRun (c : Char) (rest : List Char) : Lexeme × List Char :=
  match rest.dropWhile isOrdinary with
  | ['\\'] => (verbatim .text (c :: rest), [])
  | after => (verbatim .text (c :: rest.takeWhile isOrdinary), after)

/-- What a backslash begins. -/
def afterBackslash : List Char → Lexeme × List Char
  | [] => (verbatim .text ['\\'], [])
  | '\n' :: rest =>
    (⟨.continuation, '\\' :: '\n' :: rest.takeWhile isBlank, [' ']⟩, rest.dropWhile isBlank)
  | c :: rest =>
    let (meant, count) := Escape.decode c rest
    (⟨.escape, '\\' :: c :: rest.take count, [meant]⟩, rest.drop count)

/-- The first lexeme of the text `c :: rest`, and what follows it. -/
def first (c : Char) (rest : List Char) : Lexeme × List Char :=
  match c with
  | '\n' => (verbatim .newline [c], rest)
  | '\\' => afterBackslash rest
  | '#' => run .comment (· == '#') c rest
  | '"' => run .stringDelimiter (· == '"') c rest
  | '(' => (verbatim .openTuple [c], rest)
  | ')' => (verbatim .closeTuple [c], rest)
  | '{' => (verbatim .openBlock [c], rest)
  | '}' => (verbatim .closeBlock [c], rest)
  | '[' => (verbatim .openExpression [c], rest)
  | ']' => (verbatim .closeExpression [c], rest)
  | '$' => (verbatim .dollar [c], rest)
  | '*' => (verbatim .asterisk [c], rest)
  | ';' => (verbatim .semicolon [c], rest)
  | _ => if isBlank c then run .whitespace isBlank c rest else textRun c rest

/-- The token that a lexeme makes at a position. -/
def toToken (lexeme : Lexeme) (position : Position) : Token :=
  ⟨lexeme.kind, position, String.ofList lexeme.sequence, String.ofList lexeme.literal⟩

/-! ### Lemmas -/

theorem sequence_append_run (kind : Token.Kind) (p : Char → Bool) (c : Char) (rest : List Char) :
    (run kind p c rest).1.sequence ++ (run kind p c rest).2 = c :: rest := by
  simp [run, verbatim]

theorem sequence_append_textRun (c : Char) (rest : List Char) :
    (textRun c rest).1.sequence ++ (textRun c rest).2 = c :: rest := by
  unfold textRun
  split <;> simp [verbatim]

theorem sequence_append_afterBackslash (rest : List Char) :
    (afterBackslash rest).1.sequence ++ (afterBackslash rest).2 = '\\' :: rest := by
  unfold afterBackslash
  split <;> simp [verbatim]

theorem sequence_append_first (c : Char) (rest : List Char) :
    (first c rest).1.sequence ++ (first c rest).2 = c :: rest := by
  unfold first
  split
  case h_2 => exact sequence_append_afterBackslash rest
  case h_3 => exact sequence_append_run ..
  case h_4 => exact sequence_append_run ..
  case h_14 =>
    split
    · exact sequence_append_run ..
    · exact sequence_append_textRun ..
  all_goals simp [verbatim]

theorem length_dropWhile_le (p : Char → Bool) (text : List Char) :
    (text.dropWhile p).length ≤ text.length :=
  (List.dropWhile_sublist p).length_le

theorem length_first_le (c : Char) (rest : List Char) :
    (first c rest).2.length ≤ rest.length := by
  unfold first
  split
  case h_2 =>
    unfold afterBackslash
    split
    · simp
    · have := length_dropWhile_le isBlank
      simp only [List.length_cons]
      exact Nat.le_succ_of_le (this _)
    · simp only [List.length_drop, List.length_cons]
      omega
  case h_14 =>
    split
    · exact length_dropWhile_le ..
    · unfold textRun
      split
      · simp
      · exact length_dropWhile_le ..
  all_goals simp [run, length_dropWhile_le]

end Lexeme

/-! ## The scanner -/

/-- A tokenizer at work: the text it reads and how far it has come. -/
structure Scanner where
  cursor : Cursor

namespace Scanner

/-- A scanner without input. -/
def idle : Scanner := ⟨.ofString ""⟩

/-- A scanner at the start of `source`. -/
def start (source : String) : Scanner := ⟨.ofString source⟩

/-- Whether no token is left. -/
def atEnd (scanner : Scanner) : Bool := scanner.cursor.atEnd

/-- The next token, and the scanner after it. -/
def next (scanner : Scanner) : Option (Token × Scanner) :=
  match scanner.cursor.rest with
  | [] => none
  | c :: rest =>
    let lexeme := (Lexeme.first c rest).1
    some (lexeme.toToken scanner.cursor.position,
      ⟨scanner.cursor.skip lexeme.sequence.length⟩)

theorem rest_next {scanner after : Scanner} {token : Token} {c : Char} {rest : List Char}
    (hrest : scanner.cursor.rest = c :: rest) (h : scanner.next = some (token, after)) :
    after.cursor.rest = (Lexeme.first c rest).2 := by
  unfold next at h
  rw [hrest] at h
  simp only [Option.some.injEq, Prod.mk.injEq] at h
  obtain ⟨-, rfl⟩ := h
  rw [Cursor.rest_skip, hrest]
  conv => lhs; rw [← Lexeme.sequence_append_first c rest]
  exact List.drop_left

theorem length_rest_next_lt {scanner after : Scanner} {token : Token}
    (h : scanner.next = some (token, after)) :
    after.cursor.rest.length < scanner.cursor.rest.length := by
  cases hrest : scanner.cursor.rest with
  | nil => simp [next, hrest] at h
  | cons c rest =>
    rw [rest_next hrest h]
    exact Nat.lt_succ_of_le (Lexeme.length_first_le c rest)

/-- The tokens still to come. -/
def tokens (scanner : Scanner) : List Token :=
  match _h : scanner.next with
  | none => []
  | some (token, after) => token :: tokens after
termination_by scanner.cursor.rest.length
decreasing_by exact length_rest_next_lt _h

theorem tokens_of_next_eq_none {scanner : Scanner} (h : scanner.next = none) :
    scanner.tokens = [] := by
  rw [tokens]
  split
  · rfl
  · simp_all

theorem tokens_of_next_eq_some {scanner after : Scanner} {token : Token}
    (h : scanner.next = some (token, after)) : scanner.tokens = token :: after.tokens := by
  rw [tokens]
  split
  · simp_all
  · next t s hs =>
    rw [h] at hs
    obtain ⟨rfl, rfl⟩ := Prod.mk.inj (Option.some.inj hs)
    rfl

end Scanner

/-- The tokens of a text. -/
def tokenize (source : String) : List Token := (Scanner.start source).tokens

end Parlance
