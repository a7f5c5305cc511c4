import Parlance.Proofs.Display.Words
import Parlance.Proofs.Lexemes.Quotes
import Parlance.Proofs.Reading.Single

/-!
# Block comments

A block comment is read as a flat run of lexemes, with the number of comments that are open and two notes
about the latest lexeme.  Hashes of its length before a brace open a comment within it, and close one
behind a brace.  So a body that is made of texts and comments leaves the frame as it was, whatever its
depth, and the hashes behind it close the comment.

    body.WellFormed → a body takes the frame of its comment to itself             (reads_body)
    body.WellFormed → IsWord (comment n (body.write n)) [block comment]          (isWord_comment)
-/

namespace Parlance

open Parlance.Parser (read)

/-! ## Bodies -/

/-- A text that can stand in a block comment: nothing in it can open, close or escape. -/
def IsCommentText (text : List Char) : Prop := ∀ c ∈ text, c ∉ ['#', '\x7b', '\x7d', '\\']

instance (text : List Char) : Decidable (IsCommentText text) :=
  List.decidableBAll _ text

/-- What stands in a block comment: texts with comments of the same length between them. -/
inductive CommentBody where
  | text (text : List Char)
  /-- A text, a comment with its body, and the body behind the comment. -/
  | comment (before : List Char) (inner after : CommentBody)

/-- A block comment of `n` hashes. -/
def blockComment (n : Nat) (body : List Char) : List Char :=
  List.replicate n '#' ++ ('\x7b' :: (body ++ '\x7d' :: List.replicate n '#'))

namespace CommentBody

/-- A body as it is written in comments of `n` hashes. -/
def write (n : Nat) : CommentBody → List Char
  | .text own => own
  | .comment before inner after => before ++ (blockComment n (inner.write n) ++ after.write n)

/-- A body does not begin with a comment. -/
def BeginsWithText : CommentBody → Prop
  | .text _ => True
  | .comment before _ _ => before ≠ []

/-- The texts of a body are texts, and between two comments there is one. -/
inductive WellFormed : CommentBody → Prop
  | text {text : List Char} (htext : IsCommentText text) : WellFormed (.text text)
  | comment {before : List Char} {inner after : CommentBody} (hbefore : IsCommentText before)
    (hinner : WellFormed inner) (hafter : WellFormed after) (happart : after.BeginsWithText) :
    WellFormed (.comment before inner after)

end CommentBody

/-! ## Lexemes -/

/-- Whether a token neither opens nor closes a block comment, and escapes nothing. -/
def Token.Kind.isInert : Token.Kind → Bool
  | .comment | .openBlock | .closeBlock | .continuation | .escape => false
  | _ => true

namespace Lexeme

/-- The lexeme of `n` hashes. -/
def hashes (n : Nat) : Lexeme := verbatim .comment (List.replicate n '#')

theorem cut_hashes {n : Nat} {rest : List Char} (hn : 0 < n) (hrest : rest.head? ≠ some '#') :
    Cut (hashes n) rest := by
  refine cut_replicate rfl rfl hn fun c hc => ?_
  rw [beq_eq_false_iff_ne]
  rintro rfl
  exact hrest hc

theorem runLength_hashes (n : Nat) (position : Position) : ((hashes n).toToken position).runLength = n :=
  utf8ByteSize_replicate n (by decide)

/-- The lexemes of a text in a block comment are inert. -/
theorem isInert_of_cut {lexeme : Lexeme} {rest : List Char} (h : Cut lexeme rest)
    (htext : IsCommentText lexeme.sequence) : lexeme.kind.isInert = true := by
  cases h with
  | @sign kind c hkind =>
    have hc := htext c List.mem_cons_self
    cases kind with
    | openBlock | closeBlock =>
      cases hkind
      exact absurd hc (by decide)
    | whitespace | continuation | text | escape | comment | stringDelimiter => cases hkind
    | _ => rfl
  | @run kind p c more _ hkind hrun =>
    cases kind with
    | comment =>
      cases hkind
      have hc := htext c List.mem_cons_self
      rw [beq_iff_eq.1 (hrun c List.mem_cons_self)] at hc
      exact absurd hc (by decide)
    | whitespace | stringDelimiter => rfl
    | _ => cases hkind
  | text => rfl
  | lastText => exact absurd (htext '\\' (List.mem_append_right _ List.mem_cons_self)) (by decide)
  | continuation => exact absurd (htext '\\' List.mem_cons_self) (by decide)
  | escape => exact absurd (htext '\\' List.mem_cons_self) (by decide)

end Lexeme

namespace Reader

open Lexeme (hashes Cut)

variable {lexeme : Lexeme} {text rest : List Char} {stack after below : List Frame}

/-- A lexeme that can be cut off is read. -/
theorem parse_cut (hcut : Cut lexeme rest) (reader : Reader)
    (hread : read (reader.reading lexeme) reader.stack = .ok after) :
    reader.parse (lexeme.sequence ++ rest) =
      parse rest ⟨reader.log ++ #[String.ofList lexeme.sequence], after, some lexeme.kind⟩ := by
  obtain ⟨c, more, hsequence⟩ := List.exists_cons_of_ne_nil (Lexeme.sequence_ne_nil_of_cut hcut)
  have hfirst : Lexeme.first c (more ++ rest) = (lexeme, rest) :=
    Lexeme.first_of_cut hcut (by rw [hsequence, List.cons_append])
  have hone := parse_lexeme reader hfirst hread
  rw [← hone.1] at hone
  exact hone.2

theorem reads_cut (hcut : Cut lexeme rest) (hkind : lexeme.kind ≠ .continuation)
    (hread : ∀ log, read ⟨⟨false⟩, lexeme.toToken .start, log⟩ stack = .ok after) :
    Reads lexeme.sequence rest stack after := by
  obtain ⟨c, more, hsequence⟩ := List.exists_cons_of_ne_nil (Lexeme.sequence_ne_nil_of_cut hcut)
  rw [hsequence]
  exact reads_lexeme (Lexeme.first_of_cut hcut (by rw [hsequence, List.cons_append])) hkind hread

/-- Lexemes that leave the frames as they are. -/
theorem reads_kept (hlexemes : lexemes (text ++ rest) = lexemes text ++ lexemes rest)
    (hkind : ∀ item ∈ lexemes text, item.kind ≠ .continuation)
    (hread : ∀ item ∈ lexemes text, ∀ log,
      read ⟨⟨false⟩, item.toToken .start, log⟩ stack = .ok stack) :
    Reads text rest stack stack := by
  intro log latest hlatest
  obtain ⟨inside, hinside, hstack, hlast⟩ : ∃ inside,
      (⟨log, stack, latest⟩ : Reader).readAll (lexemes text) = .ok inside ∧
        inside.stack = stack ∧ inside.latest ≠ some .continuation := by
    refine readAll_of_next (P := fun reader => reader.stack = stack ∧ reader.latest ≠ some .continuation)
      (fun item hitem reader hreader => ?_) ⟨rfl, hlatest⟩
    refine ⟨_, next_of_read (hreader.1 ▸ hread item hitem _), rfl, fun h => ?_⟩
    exact hkind item hitem (Option.some.inj h)
  refine ⟨sequences (lexemes text), inside.latest, ?_, hlast, ?_⟩
  · conv => rhs; rw [← covered_lexemes text]
    rw [sequences, String.toList_join, List.flatMap_map]
    simp only [String.toList_ofList]
    rfl
  · rw [parse, hlexemes, readAll_append, hinside, ← hstack]
    show (readAll (lexemes rest) inside).bind close = _
    rw [parse, ← log_of_readAll hinside]

/-! ## Within a block comment -/

variable {n m textStart : Nat}

/-- Some frames with a block comment on top, in which `nesting` comments are open. -/
def commented (n textStart nesting : Nat) (below : List Frame) : List Frame :=
  .blockComment ⟨.start, none, n, textStart, nesting, false, none⟩ :: below

/-- An inert token does not matter. -/
theorem read_inert (hinert : lexeme.kind.isInert = true) (log : Array String) :
    read ⟨⟨false⟩, lexeme.toToken .start, log⟩ (commented n textStart m below) =
      .ok (commented n textStart m below) := by
  show Parser.readInBlockComment _ _ below = _
  unfold Parser.readInBlockComment
  have hkind : (lexeme.toToken .start).kind = lexeme.kind := rfl
  dsimp only
  rw [hkind]
  split
  · rename_i hcomment
    rw [hcomment] at hinert
    cases hinert
  · rename_i hopen
    rw [hopen] at hinert
    cases hinert
  · rename_i hclose
    rw [hclose] at hinert
    cases hinert
  · rfl

/-- A text is read over, up to a hash or a closing brace. -/
theorem reads_commentText (htext : IsCommentText text) {c : Char} (hc : c = '#' ∨ c = '\x7d')
    (more : List Char) :
    Reads text (c :: more) (commented n textStart m below) (commented n textStart m below) := by
  have hitem : ∀ item ∈ lexemes text, ∃ rest, Cut item rest ∧ IsCommentText item.sequence := by
    intro item hitem
    obtain ⟨before, behind, hsplit⟩ := List.append_of_mem hitem
    refine ⟨_, cut_of_split hsplit, fun d hd => htext d ?_⟩
    rw [← covered_lexemes text, hsplit, covered_append, covered_cons]
    exact List.mem_append_right _ (List.mem_append_left _ hd)
  have hinert : ∀ item ∈ lexemes text, item.kind.isInert = true := by
    intro item hmem
    obtain ⟨rest, hcut, hown⟩ := hitem item hmem
    exact Lexeme.isInert_of_cut hcut hown
  have hcut : lexemes (text ++ c :: more) = lexemes text ++ lexemes (c :: more) := by
    refine lexemes_append_of_cut fun last hlast hcut => ?_
    have hmem := List.mem_of_getLast? hlast
    obtain ⟨-, -, hown⟩ := hitem last hmem
    refine hcut.cons (fun hslash => hown _ hslash (by decide)) ?_ ?_ (fun p hp => ?_) more
    · rcases hc with rfl | rfl <;> rfl
    · rcases hc with rfl | rfl <;> decide
    · have hlastInert := hinert last hmem
      cases hkind : last.kind with
      | comment =>
        rw [hkind] at hlastInert
        cases hlastInert
      | whitespace | stringDelimiter =>
        rw [hkind] at hp
        cases hp
        rcases hc with rfl | rfl <;> rfl
      | _ =>
        rw [hkind] at hp
        cases hp
  refine reads_kept hcut (fun item hmem hkind => ?_) fun item hmem log => ?_
  · have hitemInert := hinert item hmem
    rw [hkind] at hitemInert
    cases hitemInert
  · exact read_inert (hinert item hmem) log

/-- Hashes and a brace open a comment within the comment. -/
theorem reads_openComment (hn : 0 < n) (rest : List Char) :
    Reads (List.replicate n '#' ++ ['\x7b']) rest (commented n textStart m below)
      (commented n textStart (m + 1) below) := by
  have hhashes : ∀ log, read ⟨⟨false⟩, (hashes n).toToken .start, log⟩ (commented n textStart m below) =
      .ok (.blockComment ⟨.start, none, n, textStart, m, true, none⟩ :: below) :=
    fun log => if_pos (Lexeme.runLength_hashes n .start)
  have hbrace : Cut (.verbatim .openBlock ['\x7b']) rest := .sign rfl rest
  have hcut : Cut (hashes n) (['\x7b'] ++ rest) := Lexeme.cut_hashes hn fun h => by cases h
  exact (reads_cut hcut (fun h => by cases h) hhashes).trans
    (reads_cut hbrace (fun h => by cases h) fun log => rfl)

/-- A brace and hashes in a block comment are read as two lexemes. -/
theorem parse_closeComment (hn : 0 < n) (hrest : rest.head? ≠ some '#') {log : Array String}
    (latest : Option Token.Kind)
    (hread : read ⟨⟨false⟩, (hashes n).toToken .start,
        (log ++ #["\x7d"]).push (String.ofList (hashes n).sequence)⟩
      (.blockComment ⟨.start, none, n, textStart, m, false, some log.size⟩ :: below) = .ok after) :
    parse ('\x7d' :: List.replicate n '#' ++ rest) ⟨log, commented n textStart m below, latest⟩ =
      parse rest ⟨log ++ #["\x7d"] ++ #[String.ofList (hashes n).sequence], after, some .comment⟩ := by
  have hbrace : Cut (.verbatim .closeBlock ['\x7d']) (List.replicate n '#' ++ rest) := .sign rfl _
  have hbraceRead : read (reading (.verbatim .closeBlock ['\x7d'])
        ⟨log, commented n textStart m below, latest⟩) (commented n textStart m below) =
      .ok (.blockComment ⟨.start, none, n, textStart, m, false, some log.size⟩ :: below) := by
    rw [← before_reading (.verbatim .closeBlock ['\x7d']) ⟨log, commented n textStart m below, latest⟩]
    rfl
  exact (parse_cut hbrace _ hbraceRead).trans (parse_cut (Lexeme.cut_hashes hn hrest) _ hread)

/-- A brace and hashes close the innermost comment of several. -/
theorem reads_closeComment (hn : 0 < n) (hm : 0 < m) (hrest : rest.head? ≠ some '#') :
    Reads ('\x7d' :: List.replicate n '#') rest (commented n textStart (m + 1) below)
      (commented n textStart m below) := by
  intro log latest _
  refine ⟨#["\x7d"] ++ #[String.ofList (hashes n).sequence], some .comment, ?_, by decide, ?_⟩
  · rw [toList_join_append, toList_join_single, toList_join_single]
    rfl
  · rw [← Array.append_assoc]
    have hopen : m + 1 - 1 ≠ 0 := Nat.ne_of_gt hm
    exact parse_closeComment hn hrest latest
      ((if_pos (Lexeme.runLength_hashes n .start)).trans (if_neg hopen))

/-! ## Bodies and comments -/

open CommentBody (WellFormed BeginsWithText)

/-- A body that begins with a text does not begin with a hash, nor does what closes it. -/
theorem head_write {body : CommentBody} (h : body.WellFormed) (hbegins : body.BeginsWithText)
    (more : List Char) : (body.write n ++ '\x7d' :: more).head? ≠ some '#' := by
  have hhead : ∀ {text : List Char}, IsCommentText text → ∀ rest,
      (text ≠ [] ∨ rest.head? ≠ some '#') → (text ++ rest).head? ≠ some '#' := by
    intro text htext rest hne
    cases text with
    | nil => exact hne.resolve_left fun h => h rfl
    | cons c text =>
      intro hc
      cases hc
      exact htext '#' List.mem_cons_self (by decide)
  cases h with
  | text htext => exact hhead htext _ (.inr fun hhash => by cases hhash)
  | comment hbefore =>
    rw [CommentBody.write, List.append_assoc]
    exact hhead hbefore _ (.inl hbegins)

/-- A body leaves the number of open comments as it was. -/
theorem reads_body (hn : 0 < n) {body : CommentBody} (h : body.WellFormed) (hm : 0 < m)
    (more : List Char) :
    Reads (body.write n) ('\x7d' :: more) (commented n textStart m below)
      (commented n textStart m below) := by
  induction h generalizing m more with
  | text htext => exact reads_commentText htext (.inr rfl) more
  | @comment before inner after hbefore hinner hafter hbegins ihinner ihafter =>
    obtain ⟨k, rfl⟩ := Nat.exists_eq_succ_of_ne_zero (Nat.ne_of_gt hn)
    have htext : (CommentBody.comment before inner after).write (k + 1) =
        before ++ ((List.replicate (k + 1) '#' ++ ['\x7b']) ++ (inner.write (k + 1) ++
          ('\x7d' :: List.replicate (k + 1) '#' ++ after.write (k + 1)))) := by
      simp [CommentBody.write, blockComment]
    have hclose : Reads ('\x7d' :: List.replicate (k + 1) '#') (after.write (k + 1) ++ '\x7d' :: more)
        (commented (k + 1) textStart (m + 1) below) (commented (k + 1) textStart m below) :=
      reads_closeComment hn hm (head_write hafter hbegins more)
    rw [htext]
    refine (reads_commentText hbefore (.inl rfl) _).trans ((reads_openComment hn _).trans ?_)
    exact Reads.trans (ihinner (Nat.succ_pos m) _) (hclose.trans (ihafter hm more))

/-- A run of hashes begins a line comment where a word can start. -/
theorem read_hashes {reading : Parser.Reading} (hkind : reading.token.kind = .comment)
    {frame : Frame.Sentences} (hword : frame.word = none) :
    read reading (.sentences frame :: below) = .ok (.lineComment
      ⟨reading.token.position, reading.position, reading.token.runLength, reading.after, true⟩ ::
        .sentences frame :: below) := by
  show Parser.readInSentences reading frame below = _
  unfold Parser.readInSentences
  simp only [hkind, hword]

/-- Hashes and a brace begin a block comment where a word can start. -/
theorem parse_beginComment (hn : 0 < n) {frame : Frame.Sentences} (hword : frame.word = none)
    (rest : List Char) (log : Array String) (latest : Option Token.Kind) :
    parse (List.replicate n '#' ++ '\x7b' :: rest) ⟨log, .sentences frame :: below, latest⟩ =
      parse rest ⟨log ++ #[String.ofList (hashes n).sequence, "\x7b"],
        commented n (log.size + 2) 1 (.sentences frame :: below), some .openBlock⟩ := by
  have hbrace : Cut (.verbatim .openBlock ['\x7b']) rest := .sign rfl rest
  have hcut : Cut (hashes n) (['\x7b'] ++ rest) := Lexeme.cut_hashes hn fun h => by cases h
  let begun : Reader := ⟨log, .sentences frame :: below, latest⟩
  let fresh : Reader := ⟨log ++ #[String.ofList (hashes n).sequence],
    .lineComment ⟨.start, none, n, log.size + 1, true⟩ :: .sentences frame :: below, some .comment⟩
  have hhashes : read (begun.reading (hashes n)) begun.stack = .ok fresh.stack := by
    have hlength : (begun.reading (hashes n)).token.runLength = n := Lexeme.runLength_hashes n .start
    have hafter : (begun.reading (hashes n)).after = log.size + 1 := Array.size_push _
    rw [read_hashes rfl hword, hlength, hafter]
    rfl
  have hopened : read (fresh.reading (.verbatim .openBlock ['\x7b'])) fresh.stack =
      .ok (commented n (log.size + 2) 1 (.sentences frame :: below)) := by
    have hafter : (fresh.reading (.verbatim .openBlock ['\x7b'])).after = log.size + 2 := by
      show ((log ++ #[_]).push _).size = _
      rw [Array.size_push, Array.size_append]
      rfl
    rw [← hafter]
    rfl
  have hlog : log ++ #[String.ofList (hashes n).sequence, "\x7b"] =
      fresh.log ++ #[String.ofList ['\x7b']] := by
    rw [Array.append_assoc]
    rfl
  rw [hlog]
  exact (parse_cut hcut begun hhashes).trans (parse_cut hbrace fresh hopened)

/-- Hashes behind the last brace add the comment with the text between its braces. -/
theorem read_closingHashes (n textStart textEnd : Nat) (frame : Frame.Sentences) (below : List Frame)
    (log : Array String) :
    read ⟨⟨false⟩, (hashes n).toToken .start, log⟩
        (.blockComment ⟨.start, none, n, textStart, 1, false, some textEnd⟩ ::
          .sentences (frame.holding []) :: below) =
      .ok (.sentences
        (frame.holding [⟨.blockComment (Parser.Reading.text log textStart textEnd) n, none⟩]) :: below) := by
  refine ((if_pos (Lexeme.runLength_hashes n .start)).trans (if_pos rfl)).trans ?_
  rw [Frame.addMorpheme, Frame.Sentences.pushMorpheme_of (frame.getD_holding [])
    fun last (hlast : [].getLast? = some last) => by cases hlast]
  rfl

/-- A whole comment is a morpheme of its own. -/
theorem adds_comment (hn : 0 < n) {body : CommentBody} (h : body.WellFormed) :
    Adds [] (blockComment n (body.write n))
      [⟨.blockComment (String.ofList (body.write n)) n, none⟩] := by
  intro frame below rest hrest log latest _
  have hhash : rest.head? ≠ some '#' := fun hhash => absurd (hrest '#' hhash) (by decide)
  let mark : String := String.ofList (hashes n).sequence
  let opened : Array String := log ++ #[mark, "\x7b"]
  obtain ⟨inside, latest', hinside, -, hbody⟩ := @reads_body (.sentences (frame.holding []) :: below)
    n 1 (log.size + 2) hn body h Nat.one_pos (List.replicate n '#' ++ rest) opened (some .openBlock)
    (by decide)
  have htext : Parser.Reading.text ((opened ++ inside ++ #["\x7d"]).push mark) (log.size + 2)
      (opened ++ inside).size = String.ofList (body.write n) := by
    have hsize : opened.size = log.size + 2 := Array.size_append
    have hlog : (opened ++ inside ++ #["\x7d"]).push mark = opened ++ inside ++ #["\x7d", mark] := by
      rw [Array.push_eq_append, Array.append_assoc]
      rfl
    rw [hlog, ← hsize, text_append, ← hinside, String.ofList_toList]
  have hclosed := read_closingHashes n (log.size + 2) (opened ++ inside).size frame below
    ((opened ++ inside ++ #["\x7d"]).push mark)
  rw [htext] at hclosed
  refine ⟨#[mark, "\x7b"] ++ inside ++ #["\x7d"] ++ #[mark], some .comment, ?_, by decide, ?_⟩
  · rw [toList_join_append, toList_join_append, toList_join_append, hinside]
    simp [mark, hashes, Lexeme.verbatim, blockComment]
  · have htexts : blockComment n (body.write n) ++ rest = List.replicate n '#' ++ '\x7b' ::
        (body.write n ++ ('\x7d' :: List.replicate n '#' ++ rest)) := by
      simp [blockComment]
    rw [htexts, parse_beginComment hn rfl, ← Array.append_assoc, ← Array.append_assoc, ← Array.append_assoc]
    exact hbody.trans (parse_closeComment hn hhash latest' hclosed)

/-- A block comment is a word wherever a word can start. -/
theorem isWord_comment (hn : 0 < n) {body : CommentBody} (h : body.WellFormed) :
    IsWord (blockComment n (body.write n)) [⟨.blockComment (String.ofList (body.write n)) n, none⟩] := by
  refine ⟨adds_comment hn h, ?_, fun h => by cases h⟩
  obtain ⟨k, rfl⟩ := Nat.exists_eq_succ_of_ne_zero (Nat.ne_of_gt hn)
  exact ⟨'#', _, rfl, rfl⟩

/-- **Block comments nest.**  A body of texts and of comments of the same length, nested to any depth,
between the hashes and braces of a comment, is a script of one word that is that comment with that body,
with or without positions. -/
theorem parse_blockComment (hn : 0 < n) {body : CommentBody} (h : body.WellFormed)
    (options : Parser.Options) :
    (Parlance.parse (String.ofList (blockComment n (body.write n))) options).map Script.erased =
      .ok (.single (.blockComment (String.ofList (body.write n)) n)) := by
  have hword := isWord_comment hn h
  rw [← String.toList_ofList (l := blockComment n (body.write n))] at hword
  rw [erased_parse_eq_ok, ← parse_eq_ok]
  exact parse_word hword

/-- Comments in a comment, next to braces and within each other. -/
theorem parse_blockComment_nested :
    let body : CommentBody := .comment ['a', ' ']
      (.comment [] (.text []) (.comment ['b', '\n'] (.text [' ', '"', '[']) (.text []))) (.text ['c'])
    let value : String := "a ##\x7b##\x7b\x7d##b\n##\x7b \"[\x7d##\x7d##c"
    body.WellFormed ∧ String.ofList (body.write 2) = value ∧
      (Parlance.parse ("##\x7b" ++ value ++ "\x7d##") ⟨true⟩).map Script.erased =
        .ok (.single (.blockComment value 2)) := by
  intro body value
  have htext : ∀ {text : List Char}, IsCommentText text → (CommentBody.text text).WellFormed := .text
  have hbody : body.WellFormed :=
    .comment (by decide)
      (.comment (by decide) (htext (by decide))
        (.comment (by decide) (htext (by decide)) (htext (by decide)) trivial) (List.cons_ne_nil _ _))
      (htext (by decide)) trivial
  exact ⟨hbody, rfl, parse_blockComment Nat.two_pos hbody ⟨true⟩⟩

end Reader

end Parlance
