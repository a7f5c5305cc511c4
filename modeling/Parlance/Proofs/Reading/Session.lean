import Mathlib
import Parlance.Proofs.Reading.Run

/-!
# Interactive reading

A text can come in chunks, each with a scanner of its own, and after any chunk one can try to close
the parser to see whether the text is complete.  When the chunks are cut where tokens end, and every
close that is tried reports incomplete input, the last close answers what reading the whole text
answers.

    takeAll chunks p ends in run (tokens of all chunks) p                             (takeAll_snd)
    chunks make up source → these tokens are those of source, but for their places
                                                                               (Chunk.Cover.tokens)
-/

namespace Parlance

/-- A piece of input. -/
structure Chunk where
  text : String
  /-- Whether a close is tried after it. -/
  closes : Bool

namespace Chunk

/-- What a parser answers to a chunk. -/
structure Answer where
  fed : Except ParseError Unit
  /-- The answer to the close, if one was tried. -/
  closed : Option (Except ParseError Script)

/-- A close that was tried reported incomplete input. -/
def Answer.GoesOn (answer : Answer) : Prop :=
  ∀ closed, answer.closed = some closed → ∃ error, closed = .error error ∧ error.isIncomplete = true

/-- The text before the chunk of a number. -/
def textBefore (chunks : List Chunk) (number : Nat) : String :=
  String.join ((chunks.take number).map Chunk.text)

/-- Chunks that make up a text and are cut where its tokens end. -/
structure Cover (source : String) (chunks : List Chunk) : Prop where
  whole : String.join (chunks.map Chunk.text) = source
  cuts : ∀ number, ∃ n,
    textBefore chunks number = String.join (((tokenize source).take n).map Token.sequence)

end Chunk

namespace Parser

open Chunk (Answer)

/-- Takes a chunk, and tries to close if asked to. -/
def take (chunk : Chunk) (parser : Parser) : Answer × Parser :=
  let (fed, parser) := parser.feed (Scanner.start chunk.text)
  if chunk.closes then
    let (closed, parser) := parser.close
    (⟨fed, some closed⟩, parser)
  else (⟨fed, none⟩, parser)

/-- Takes chunks one after the other. -/
def takeAll : List Chunk → Parser → List Answer × Parser
  | [], parser => ([], parser)
  | chunk :: rest, parser =>
    let (answer, parser) := take chunk parser
    let (answers, parser) := takeAll rest parser
    (answer :: answers, parser)

end Parser

/-! ## The tokens of chunks -/

namespace Chunk

/-- The tokens of all chunks. -/
def tokens (chunks : List Chunk) : List Token := chunks.flatMap fun chunk => tokenize chunk.text

/-- The text of some first tokens. -/
theorem covered_tokenize (source : String) (n : Nat) :
    (String.join (((tokenize source).take n).map Token.sequence)).toList =
      covered ((lexemes source.toList).take n) := by
  have hsequence : ∀ token : Token, token.unplaced.sequence = token.sequence := fun token => rfl
  have hlexemes : ((tokenize source).take n).map Token.sequence =
      ((lexemes source.toList).take n).map fun lexeme => String.ofList lexeme.sequence := by
    have hunplaced := congrArg (fun tokens => (tokens.take n).map Token.sequence)
      (unplaced_tokenize source)
    simp only [← List.map_take, List.map_map] at hunplaced
    exact hunplaced
  rw [hlexemes, String.toList_join, List.flatMap_map]
  simp only [String.toList_ofList]
  rfl

/-- Chunks have the tokens of the text that they make up. -/
theorem Cover.tokens {source : String} {chunks : List Chunk} (h : Cover source chunks) :
    (Chunk.tokens chunks).map Token.unplaced = (tokenize source).map Token.unplaced := by
  have hsource : (chunks.map fun chunk => chunk.text.toList).flatten = source.toList := by
    rw [← h.whole, String.toList_join, List.flatMap_map]
    rfl
  have hpieces : (chunks.map fun chunk => chunk.text.toList).flatMap lexemes =
      lexemes source.toList := by
    rw [← hsource]
    refine lexemes_pieces fun k => ?_
    obtain ⟨n, hn⟩ := h.cuts k
    refine ⟨n, ?_⟩
    rw [hsource, ← covered_tokenize, ← hn, textBefore, String.toList_join, ← List.map_take,
      List.flatMap_map]
    rfl
  have hmap : (Chunk.tokens chunks).map Token.unplaced =
      ((chunks.map fun chunk => chunk.text.toList).flatMap lexemes).map fun lexeme =>
        lexeme.toToken .start := by
    unfold Chunk.tokens
    rw [List.map_flatMap, List.flatMap_map, List.map_flatMap]
    simp only [unplaced_tokenize]
  rw [hmap, hpieces, unplaced_tokenize]

end Chunk

/-! ## The parser after chunks -/

namespace Parser

open Chunk (Answer)

variable {parser : Parser}

/-- A chunk after which the input goes on: only its tokens are read. -/
theorem take_snd (h : Plain parser) {chunk : Chunk} (hgoes : (take chunk parser).1.GoesOn) :
    (take chunk parser).2 = run (tokenize chunk.text) parser := by
  have hfed : (parser.feed (Scanner.start chunk.text)).2 = run (tokenize chunk.text) parser := by
    rw [feed_scanner]
    exact (feed_tokens (tokenize chunk.text) parser).1
  unfold take at hgoes ⊢
  by_cases hcloses : chunk.closes
  · simp only [hcloses, if_true, hfed] at hgoes ⊢
    obtain ⟨error, hclose, hincomplete⟩ := hgoes _ rfl
    exact close_of_isIncomplete (h.run _) hclose hincomplete
  · simp only [hcloses]
    exact hfed

/-- Chunks after which the input goes on: only their tokens are read. -/
theorem takeAll_snd {chunks : List Chunk} (h : Plain parser)
    (hgoes : ∀ answer ∈ (takeAll chunks parser).1, answer.GoesOn) :
    (takeAll chunks parser).2 = run (Chunk.tokens chunks) parser := by
  induction chunks generalizing parser with
  | nil => rfl
  | cons chunk rest ih =>
    have hchunk := take_snd h (hgoes _ List.mem_cons_self)
    have hplain : Plain (take chunk parser).2 := by
      rw [hchunk]
      exact h.run _
    have hrest := ih hplain fun answer hanswer => hgoes answer (List.mem_cons_of_mem _ hanswer)
    show (takeAll rest (take chunk parser).2).2 = run (tokenize chunk.text ++ Chunk.tokens rest) parser
    rw [hrest, hchunk, run_append]

/-- A chunk that could not be read leaves its failure in the parser. -/
theorem failure_of_take {chunk : Chunk} {error : ParseError}
    (hfed : (take chunk parser).1.fed = .error error) :
    (run (tokenize chunk.text) parser).failure = some error := by
  refine (feed_tokens (tokenize chunk.text) parser).2 error ?_
  have hscanner := feed_scanner (Scanner.start chunk.text) parser
  rw [← show (Scanner.start chunk.text).tokens = tokenize chunk.text from rfl, ← hscanner, ← hfed]
  unfold take
  by_cases hcloses : chunk.closes
  · simp only [hcloses, if_true]
  · simp only [hcloses]
    rfl

/-- The first failure is the one that stays. -/
theorem failure_of_takeAll {chunks : List Chunk} (h : Plain parser)
    (hgoes : ∀ answer ∈ (takeAll chunks parser).1, answer.GoesOn) {answer : Answer}
    (hanswer : answer ∈ (takeAll chunks parser).1) {error : ParseError}
    (hfed : answer.fed = .error error) :
    (run (Chunk.tokens chunks) parser).failure = some error := by
  induction chunks generalizing parser with
  | nil => cases hanswer
  | cons chunk rest ih =>
    have hfirst := hgoes _ List.mem_cons_self
    have hchunk := take_snd h hfirst
    show (run (tokenize chunk.text ++ Chunk.tokens rest) parser).failure = some error
    rw [run_append]
    rcases List.mem_cons.1 hanswer with rfl | hlater
    · have hfailure := failure_of_take hfed
      rw [run_of_failure hfailure, hfailure]
    · rw [← hchunk]
      have hplain : Plain (take chunk parser).2 := by
        rw [hchunk]
        exact h.run _
      exact ih hplain (fun answer hanswer => hgoes answer (List.mem_cons_of_mem _ hanswer)) hlater

/-- The tokens of chunks end as those of the text that they make up. -/
theorem close_run_tokens {source : String} {chunks : List Chunk} (h : Chunk.Cover source chunks) :
    (run (Chunk.tokens chunks) (start ⟨false⟩)).close.1.mapError ParseError.cause =
      (parse source ⟨false⟩).mapError ParseError.cause := by
  rw [parse_eq_close_run, ← close_unplaced (plain_start.run _), ← close_unplaced (plain_start.run _),
    run_unplaced plain_start, run_unplaced plain_start, h.tokens]

/-- Reading a text in chunks is reading the text.  The chunks are cut where tokens end, and whenever
a close is tried between them it reports incomplete input.  The last close then gives the script of
the whole text or the cause of its failure, and so does a chunk that cannot be read. -/
theorem close_takeAll {source : String} {chunks : List Chunk} (hcover : Chunk.Cover source chunks)
    (hgoes : ∀ answer ∈ (takeAll chunks (start ⟨false⟩)).1, answer.GoesOn) :
    (takeAll chunks (start ⟨false⟩)).2.close.1.mapError ParseError.cause =
        (parse source ⟨false⟩).mapError ParseError.cause ∧
      ∀ answer ∈ (takeAll chunks (start ⟨false⟩)).1, ∀ error, answer.fed = .error error →
        (parse source ⟨false⟩).mapError ParseError.cause = .error error.cause := by
  refine ⟨?_, fun answer hanswer error hfed => ?_⟩
  · rw [takeAll_snd plain_start hgoes]
    exact close_run_tokens hcover
  · have hfailure := failure_of_takeAll plain_start hgoes hanswer hfed
    rw [← close_run_tokens hcover, close_of_failure hfailure]
    rfl

/-- A text cut within an expression, a tuple and a string, with a close tried at each cut. -/
theorem close_takeAll_nested :
    Chunk.Cover "put [a (\"b c\")]" [⟨"put [a (", true⟩, ⟨"\"b ", true⟩, ⟨"c\")]", false⟩] ∧
      (∀ answer ∈ (takeAll [⟨"put [a (", true⟩, ⟨"\"b ", true⟩, ⟨"c\")]", false⟩] (start ⟨false⟩)).1,
        answer.GoesOn) ∧
      (takeAll [⟨"put [a (", true⟩, ⟨"\"b ", true⟩, ⟨"c\")]", false⟩]
          (start ⟨false⟩)).2.close.1.mapError ParseError.cause =
        (parse "put [a (\"b c\")]" ⟨false⟩).mapError ParseError.cause := by
  have hcover : Chunk.Cover "put [a (\"b c\")]"
      [⟨"put [a (", true⟩, ⟨"\"b ", true⟩, ⟨"c\")]", false⟩] := by
    refine ⟨by cbv, fun number => ?_⟩
    rcases number with _ | _ | _ | _
    · exact ⟨0, by cbv⟩
    · exact ⟨6, by cbv⟩
    · exact ⟨9, by cbv⟩
    · refine ⟨13, ?_⟩
      rw [Chunk.textBefore, List.take_of_length_le (Nat.le_add_left 3 _)]
      cbv
  have hgoes : ∀ answer ∈ (takeAll [⟨"put [a (", true⟩, ⟨"\"b ", true⟩, ⟨"c\")]", false⟩]
      (start ⟨false⟩)).1, answer.GoesOn := by
    have hanswers : (takeAll [⟨"put [a (", true⟩, ⟨"\"b ", true⟩, ⟨"c\")]", false⟩]
        (start ⟨false⟩)).1 =
        [⟨.ok (), some (.error ⟨.unmatchedLeft .parenthesis, ⟨7, 0, 7⟩⟩)⟩,
          ⟨.ok (), some (.error ⟨.unmatchedStringDelimiter, ⟨0, 0, 0⟩⟩)⟩, ⟨.ok (), none⟩] := by
      cbv
    rw [hanswers]
    intro answer hanswer closed hclosed
    simp only [List.mem_cons, List.not_mem_nil, or_false] at hanswer
    rcases hanswer with rfl | rfl | rfl
    · exact ⟨_, (Option.some.inj hclosed).symm, rfl⟩
    · exact ⟨_, (Option.some.inj hclosed).symm, rfl⟩
    · cases hclosed
  exact ⟨hcover, hgoes, (close_takeAll hcover hgoes).1⟩

end Parser

end Parlance
