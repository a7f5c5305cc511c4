import Mathlib.Data.List.Chain
import Parlance.Proofs.Lexemes.Quotes
import Parlance.Proofs.Reading.Single

/-!
# Tagged strings

A tagged string is written with every line indented alike, and with the same indent before the closing
tag.  Reading takes the indent off again.  The lines can hold the tag, brackets, comments and
backslashes, even one at the end that makes the newline and the next indent a continuation; only two
quotes behind the tag end the string, and no two quotes stand next to each other in a line.

    unindent (the indented lines and one more indent) = the lines             (unindent_taggedBody)
    lexemes (body ++ tag ++ quotes) = lexemes body ++ [tag, quotes]         (lexemes_taggedBody_tag)
    two quotes, the tag, its line and a body, with the tag and two quotes behind it,
      are the only word                                                      (readAll_taggedString)
-/

namespace Parlance

/-! ## Lines -/

/-- Lines with an indent before each, and the indent of the line of the closing tag. -/
def taggedBody (indent : List Char) (lines : List (List Char)) : List Char :=
  lines.flatMap (fun line => indent ++ (line ++ ['\n'])) ++ indent

theorem taggedBody_cons (indent line : List Char) (lines : List (List Char)) :
    taggedBody indent (line :: lines) = indent ++ (line ++ '\n' :: taggedBody indent lines) := by
  simp [taggedBody]

theorem getLast_lines (indent : List Char) (lines : List (List Char)) :
    lines.flatMap (fun line => indent ++ (line ++ ['\n'])) = [] ∨
      (lines.flatMap (fun line => indent ++ (line ++ ['\n']))).getLast? = some '\n' := by
  rcases List.eq_nil_or_concat lines with rfl | ⟨lines, line, rfl⟩
  · exact .inl rfl
  · exact .inr (by simp [← List.append_assoc])

variable {indent : List Char} {lines : List (List Char)}

namespace Frame

theorem splitLines_line {line : List Char} (h : '\n' ∉ line) (text : List Char) :
    splitLines (line ++ '\n' :: text) = (line :: (splitLines text).1, (splitLines text).2) := by
  induction line with
  | nil => rfl
  | cons c line ih =>
    rw [List.mem_cons, not_or] at h
    rw [List.cons_append, splitLines, ih h.2]
    exact if_neg (Ne.symm h.1)

theorem splitLines_last {text : List Char} (h : '\n' ∉ text) : splitLines text = ([], text) := by
  induction text with
  | nil => rfl
  | cons c text ih =>
    rw [List.mem_cons, not_or] at h
    rw [splitLines, ih h.2]
    exact if_neg (Ne.symm h.1)

theorem splitLines_taggedBody (hindent : '\n' ∉ indent) (hlines : ∀ line ∈ lines, '\n' ∉ line) :
    splitLines (taggedBody indent lines) = (lines.map (indent ++ ·), indent) := by
  induction lines with
  | nil => exact splitLines_last hindent
  | cons line lines ih =>
    obtain ⟨hline, hlines⟩ := List.forall_mem_cons.1 hlines
    have hfirst : '\n' ∉ indent ++ line := by
      rw [List.mem_append]
      exact not_or.2 ⟨hindent, hline⟩
    rw [taggedBody_cons, ← List.append_assoc, splitLines_line hfirst, ih hlines]
    rfl

/-- Taking off the indent gives the lines back. -/
theorem unindent_taggedBody (hindent : '\n' ∉ indent) (hlines : ∀ line ∈ lines, '\n' ∉ line) :
    unindent (String.ofList (taggedBody indent lines)) =
      String.ofList (lines.flatMap fun line => line ++ ['\n']) := by
  unfold unindent
  rw [String.toList_ofList, splitLines_taggedBody hindent hlines]
  dsimp only
  rw [List.flatMap_map]
  simp only [List.drop_left]

end Frame

/-! ## Two quotes next to each other -/

theorem not_pair_iff {text : List Char} : ¬ ['"', '"'] <:+: text ↔
    text.IsChain fun first second => ¬ (first = '"' ∧ second = '"') := by
  rw [List.isChain_iff_forall_rel_of_append_cons_cons]
  constructor
  · rintro h first second before after rfl ⟨rfl, rfl⟩
    exact h ⟨before, after, by rw [List.append_assoc]; rfl⟩
  · rintro h ⟨before, after, hsplit⟩
    rw [List.append_assoc] at hsplit
    exact h hsplit.symm ⟨rfl, rfl⟩

theorem not_pair_append {first second : List Char} (hfirst : ¬ ['"', '"'] <:+: first)
    (hsecond : ¬ ['"', '"'] <:+: second)
    (h : first.getLast? ≠ some '"' ∨ second.head? ≠ some '"') :
    ¬ ['"', '"'] <:+: first ++ second := by
  rw [not_pair_iff] at hfirst hsecond ⊢
  refine List.isChain_append.2 ⟨hfirst, hsecond, ?_⟩
  rintro c hc d hd ⟨rfl, rfl⟩
  exact h.elim (fun hlast => hlast hc) fun hhead => hhead hd

theorem not_pair_of_not_mem {text : List Char} (h : '"' ∉ text) : ¬ ['"', '"'] <:+: text :=
  fun hpair => h (hpair.subset List.mem_cons_self)

theorem not_pair_taggedBody (hindent : '"' ∉ indent)
    (hlines : ∀ line ∈ lines, ¬ ['"', '"'] <:+: line) :
    ¬ ['"', '"'] <:+: taggedBody indent lines := by
  have hlast : indent.getLast? ≠ some '"' := fun h => hindent (List.mem_of_getLast? h)
  induction lines with
  | nil => exact not_pair_of_not_mem hindent
  | cons line lines ih =>
    obtain ⟨hline, hlines⟩ := List.forall_mem_cons.1 hlines
    have hnewline : ¬ ['"', '"'] <:+: ['\n'] ++ taggedBody indent lines :=
      not_pair_append (not_pair_of_not_mem (by decide)) (ih hlines) (.inl (by decide))
    rw [taggedBody_cons]
    exact not_pair_append (not_pair_of_not_mem hindent)
      (not_pair_append hline hnewline (.inr (by simp))) (.inl hlast)

/-! ## Lexemes -/

namespace Lexeme

variable {lexeme : Lexeme} {rest : List Char}

theorem Cut.newline_mem (h : Cut lexeme rest) (hkind : lexeme.kind = .newline) :
    '\n' ∈ lexeme.sequence := by
  cases h with
  | sign h =>
    cases hkind
    cases h
    exact List.mem_cons_self
  | run h =>
    cases hkind
    cases h
  | text => cases hkind
  | lastText => cases hkind
  | continuation => cases hkind
  | escape => cases hkind

/-- No escape goes beyond its line. -/
theorem newline_not_mem_escape (h : Cut lexeme rest) (hkind : lexeme.kind = .escape) :
    '\n' ∉ lexeme.sequence := by
  cases h with
  | sign h => cases hkind; cases h
  | run h => cases hkind; cases h
  | text => cases hkind
  | lastText => cases hkind
  | continuation => cases hkind
  | @escape c meant digits _ hc hdecode =>
    intro hmem
    have hdigits : '\n' ∈ digits := by
      rcases List.mem_cons.1 hmem with h | hmem
      · cases h
      · exact (List.mem_cons.1 hmem).resolve_left (Ne.symm hc)
    obtain ⟨before, after, rfl⟩ := List.append_of_mem hdigits
    -- The digits would have ended at the newline.
    rw [List.append_assoc, List.cons_append, decode_newline] at hdecode
    have hle := decode_snd_le c before
    rw [hdecode, List.length_append, List.length_cons] at hle
    dsimp only at hle
    omega

/-- No run goes on with text. -/
theorem not_run_of_isOrdinary {kind : Token.Kind} {p : Char → Bool} {c : Char}
    (hkind : kind.run? = some p) (hc : isOrdinary c = true) : p c = false := by
  have hne : ∀ d, isOrdinary d = false → (c == d) = false := by
    intro d hd
    rw [beq_eq_false_iff_ne]
    rintro rfl
    rw [hc] at hd
    cases hd
  cases kind with
  | whitespace =>
    cases hkind
    exact isBlank_of_isOrdinary hc
  | comment | stringDelimiter =>
    cases hkind
    exact hne _ (by decide)
  | _ => cases hkind

/-- What has a newline, or is blank, can stand before text. -/
theorem Cut.ordinary (h : Cut lexeme [])
    (hlast : '\n' ∈ lexeme.sequence ∨ ∀ c ∈ lexeme.sequence, isBlank c = true) {c : Char}
    (hc : isOrdinary c = true) (rest : List Char) : Cut lexeme (c :: rest) := by
  have hends : ∀ {p : Char → Bool}, p c = false → Ends p (c :: rest) := by
    intro p hp d hd
    cases hd
    exact hp
  have hslash : '\\' ∈ lexeme.sequence → '\n' ∈ lexeme.sequence := fun hmem =>
    hlast.resolve_right fun hblank => absurd (hblank _ hmem) (by decide)
  cases h with
  | sign hkind => exact .sign hkind _
  | run hkind hrun => exact .run hkind hrun (hends (not_run_of_isOrdinary hkind hc))
  | @text d more _ hrun =>
    rcases hlast with hnewline | hblank
    · exact absurd (hrun _ hnewline) (by decide)
    · have hd := hblank d List.mem_cons_self
      rw [isBlank_of_isOrdinary (hrun d List.mem_cons_self)] at hd
      cases hd
  | lastText hrun =>
    rcases List.mem_append.1 (hslash (List.mem_append_right _ List.mem_cons_self)) with hnewline | hnewline
    · exact absurd (hrun _ hnewline) (by decide)
    · exact absurd (List.mem_singleton.1 hnewline) (by decide)
  | continuation hrun => exact .continuation hrun (hends (isBlank_of_isOrdinary hc))
  | escape hne hdecode =>
    exact absurd (hslash List.mem_cons_self) (newline_not_mem_escape (.escape hne hdecode) rfl)

/-- The lexeme of a run of text. -/
def ofText (text : List Char) : Lexeme := verbatim .text text

theorem cut_ofText {text : List Char} (hne : text ≠ []) (hrun : ∀ c ∈ text, isOrdinary c = true)
    (hrest : Ends isOrdinary rest) (hback : rest ≠ ['\\']) : Cut (ofText text) rest := by
  obtain ⟨c, more, rfl⟩ := List.exists_cons_of_ne_nil hne
  exact .text hrun hrest hback

end Lexeme

open Lexeme (quotes ofText)

/-- A lexeme is a piece of its text. -/
theorem isInfix_sequence {text : List Char} {lexeme : Lexeme} (h : lexeme ∈ lexemes text) :
    lexeme.sequence <:+: text := by
  obtain ⟨first, second, hsplit⟩ := List.append_of_mem h
  refine ⟨covered first, covered second, ?_⟩
  rw [← covered_lexemes text, hsplit, covered_append, covered_cons, List.append_assoc]

/-- The lexemes up to the first line. -/
def openingLine (tag : List Char) (line : List Lexeme) : List Lexeme :=
  [quotes 2, ofText tag] ++ (line ++ [.verbatim .newline ['\n']])

section Lexemes

variable {tag rest : List Char} (htag : tag ≠ []) (hordinary : ∀ c ∈ tag, isOrdinary c = true)

include htag hordinary

/-- A body is lexemes of its own before a tag. -/
theorem lexemes_taggedBody_tag (hindent : ∀ c ∈ indent, isBlank c = true) :
    lexemes (taggedBody indent lines ++ (tag ++ List.replicate 2 '"')) =
      lexemes (taggedBody indent lines) ++ [ofText tag, quotes 2] := by
  have hends : Lexeme.Ends isOrdinary (List.replicate 2 '"') := by
    intro c hc
    cases hc
    decide
  have htail : lexemes (tag ++ List.replicate 2 '"') = [ofText tag, quotes 2] := by
    rw [← lexemes_quotes (show 0 < 2 by decide)]
    exact lexemes_of_cut (Lexeme.cut_ofText htag hordinary hends (by decide))
  obtain ⟨c, more, htag⟩ := List.exists_cons_of_ne_nil htag
  rw [← htail]
  refine lexemes_append_of_cut fun last hlast hcut => ?_
  rw [htag, List.cons_append]
  refine hcut.ordinary ?_ (hordinary c (by rw [htag]; exact List.mem_cons_self)) _
  -- The last lexeme lies within the last indent or reaches back to the newline before it.
  obtain ⟨init, hinit⟩ := List.getLast?_eq_some_iff.1 hlast
  have hcovered := covered_lexemes (taggedBody indent lines)
  rw [hinit, covered_append, covered_cons, covered_nil, List.append_nil, taggedBody] at hcovered
  rcases List.append_eq_append_iff.1 hcovered with ⟨back, hlines, hsequence⟩ | ⟨before, -, hindent'⟩
  · rw [hsequence]
    rcases List.eq_nil_or_concat back with rfl | ⟨back, d, rfl⟩
    · exact .inr hindent
    · rw [List.concat_eq_append] at hlines ⊢
      have hd := getLast_lines indent lines
      rw [hlines, ← List.append_assoc, List.getLast?_concat] at hd
      rw [Option.some.inj (hd.resolve_left (by simp))]
      exact .inl (by simp)
  · exact .inr fun d hd => hindent d (by rw [hindent']; exact List.mem_append_right _ hd)

/-- The lexemes of a tagged string. -/
theorem lexemes_tagged (hline : '\n' ∉ rest) (hslash : '\\' ∉ rest)
    (hrest : rest = [] ∨ rest.head? = some ' ') (hindent : ∀ c ∈ indent, isBlank c = true) :
    lexemes (List.replicate 2 '"' ++ (tag ++ (rest ++ '\n' ::
        (taggedBody indent lines ++ (tag ++ List.replicate 2 '"'))))) =
      openingLine tag (lexemes rest) ++
        (lexemes (taggedBody indent lines) ++ ([ofText tag] ++ [quotes 2])) := by
  generalize htail : taggedBody indent lines ++ (tag ++ List.replicate 2 '"') = tail
  have hquote : (tag ++ (rest ++ '\n' :: tail)).head? ≠ some '"' := by
    rw [List.head?_append_of_ne_nil _ htag]
    exact fun hhead => absurd (hordinary _ (List.mem_of_head? hhead)) (by decide)
  have hhead : (rest ++ '\n' :: tail).head? = some '\n' ∨ (rest ++ '\n' :: tail).head? = some ' ' := by
    rcases hrest with rfl | hspace
    · exact .inl rfl
    · rw [List.head?_append, hspace]
      exact .inr rfl
  have hends : Lexeme.Ends isOrdinary (rest ++ '\n' :: tail) := by
    intro c hc
    rcases hhead with h | h <;> (rw [h] at hc; cases hc; decide)
  have hback : rest ++ '\n' :: tail ≠ ['\\'] := by
    intro h
    rw [h] at hhead
    rcases hhead with h | h <;> cases h
  have hangs : ∀ last, (lexemes rest).getLast? = some last → ¬ last.Hangs := fun last hlast h =>
    hslash ((isInfix_sequence (List.mem_of_getLast? hlast)).subset (List.mem_of_getLast? h.2))
  have htext := lexemes_of_cut (Lexeme.cut_ofText htag hordinary hends hback)
  have hnewline : Lexeme.first '\n' tail = (.verbatim .newline ['\n'], tail) := rfl
  rw [lexemes_quotes_append (by decide) hquote, show tag = (ofText tag).sequence from rfl, htext,
    lexemes_append_newline hangs, lexemes_cons, hnewline, ← htail,
    lexemes_taggedBody_tag htag hordinary hindent, openingLine, List.append_assoc, List.append_assoc]
  rfl

end Lexemes

/-! ## Reading -/

namespace Reader

open Parlance.Frame.Sentences (unread)

variable {reader : Reader} {tag : List Char} {textStart : Nat}

/-- The frames within a tagged string that a text begins with. -/
def inTagged (tag : List Char) (textStart tagStart : Option Nat) : List Frame :=
  [.tagged ⟨.start, none, String.ofList tag, textStart, tagStart⟩, .sentences unread]

/-- Two quotes and text begin a tagged string. -/
theorem readAll_openTagged (tag : List Char) :
    ∃ after, start.readAll [quotes 2, ofText tag] = .ok after ∧
      after.stack = inTagged tag none none := by
  have hlength : (start.reading (quotes 2)).token.runLength = 2 := Lexeme.runLength_quotes 2 .start
  have hopen : Parser.openQuotes (start.reading (quotes 2)) = .quotePair .start none := by
    unfold Parser.openQuotes
    rw [hlength]
    rfl
  have hread : Parser.read (start.reading (quotes 2)) start.stack =
      .ok [.quotePair .start none, .sentences unread] := by
    rw [← hopen]
    rfl
  exact ⟨⟨sequences [quotes 2, ofText tag], inTagged tag none none, some .text⟩,
    readAll_trans (readAll_single (next_of_read hread)) rfl, rfl⟩

/-- The opening line goes on to its newline. -/
theorem next_openingLine {item : Lexeme} (hkind : item.kind ≠ .newline)
    (hstack : reader.stack = inTagged tag none none) :
    ∃ after, reader.next item = .ok after ∧ after.stack = inTagged tag none none := by
  have hread : Parser.read (reader.reading item) reader.stack = .ok (inTagged tag none none) := by
    rw [hstack]
    exact if_neg hkind
  exact ⟨_, next_of_read hread, rfl⟩

theorem next_endLine (hstack : reader.stack = inTagged tag none none) :
    ∃ after, reader.next (.verbatim .newline ['\n']) = .ok after ∧
      after.stack = inTagged tag (some (reader.log.size + 1)) none := by
  have hread : Parser.read (reader.reading (.verbatim .newline ['\n'])) reader.stack =
      .ok (inTagged tag (some (reader.log.size + 1)) none) := by
    have hafter : (reader.reading (.verbatim .newline ['\n'])).after = reader.log.size + 1 :=
      Array.size_push _
    rw [hstack, ← hafter]
    rfl
  exact ⟨_, next_of_read hread, rfl⟩

theorem readAll_openingLine {line : List Lexeme} (tag : List Char)
    (hline : ∀ item ∈ line, item.kind ≠ .newline) :
    ∃ after, start.readAll (openingLine tag line) = .ok after ∧
      after.stack = inTagged tag (some (openingLine tag line).length) none := by
  obtain ⟨begun, hbegun, hbegunStack⟩ := readAll_openTagged tag
  obtain ⟨along, halong, halongStack⟩ := readAll_of_next
    (fun item hitem reader => next_openingLine (hline item hitem)) hbegunStack
  obtain ⟨ended, hended, hendedStack⟩ := next_endLine halongStack
  have hsize : along.log.size + 1 = (openingLine tag line).length := by
    rw [log_of_readAll (readAll_trans hbegun halong), Array.size_append, size_sequences]
    simp [openingLine, start]
  rw [hsize] at hendedStack
  exact ⟨ended, readAll_trans hbegun (readAll_trans halong (readAll_single hended)), hendedStack⟩

/-- Nothing but two quotes ends a tagged string.  Its tag may do so with the next token. -/
theorem next_taggedBody {item : Lexeme} (hcut : ∃ rest, Lexeme.Cut item rest) (hne : item ≠ quotes 2)
    {tagStart : Option Nat} (hstack : reader.stack = inTagged tag (some textStart) tagStart) :
    ∃ after, reader.next item = .ok after ∧ after.stack = inTagged tag (some textStart)
      (if item.kind = .text ∧ String.ofList item.literal = String.ofList tag then some reader.log.size
      else none) := by
  obtain ⟨rest, hcut⟩ := hcut
  have hother : ¬ ((reader.reading item).token.kind = .stringDelimiter ∧
      (reader.reading item).token.runLength = 2) := by
    rintro ⟨hkind, hlength⟩
    exact hne (Lexeme.eq_quotes_of_runLength hcut hkind hlength)
  have hread : Parser.read (reader.reading item) reader.stack = .ok (inTagged tag (some textStart)
      (if item.kind = .text ∧ String.ofList item.literal = String.ofList tag then some reader.log.size
      else none)) := by
    rw [hstack, ← before_reading item reader]
    cases tagStart with
    | none => rfl
    | some tagStart => exact if_neg hother
  exact ⟨_, next_of_read hread, rfl⟩

theorem readAll_taggedBody {inside : List Lexeme}
    (hcut : ∀ item ∈ inside, ∃ rest, Lexeme.Cut item rest) (hinside : quotes 2 ∉ inside)
    (hstack : reader.stack = inTagged tag (some textStart) none) :
    ∃ after tagStart, reader.readAll inside = .ok after ∧
      after.stack = inTagged tag (some textStart) tagStart := by
  have hnext : ∀ item ∈ inside, ∀ reader : Reader,
      (∃ tagStart, reader.stack = inTagged tag (some textStart) tagStart) →
      ∃ after, reader.next item = .ok after ∧
        ∃ tagStart, after.stack = inTagged tag (some textStart) tagStart := by
    rintro item hitem reader ⟨tagStart, hstack⟩
    obtain ⟨after, hafter, hafterStack⟩ :=
      next_taggedBody (hcut item hitem) (fun heq => hinside (heq ▸ hitem)) hstack
    exact ⟨after, hafter, _, hafterStack⟩
  obtain ⟨after, hafter, tagStart, hafterStack⟩ := readAll_of_next hnext ⟨none, hstack⟩
  exact ⟨after, tagStart, hafter, hafterStack⟩

/-- Behind the closing tag two quotes make a tagged string. -/
theorem read_closeTagged {tagStart : Nat}
    (hstack : reader.stack = inTagged tag (some textStart) (some tagStart)) :
    Parser.read (reader.reading (quotes 2)) reader.stack =
      .ok [.sentences (unread.single ⟨.taggedString (Frame.unindent (Parser.Reading.text
        (reader.logged (quotes 2)) textStart tagStart)) (String.ofList tag), none⟩)] := by
  have hclose : (reader.reading (quotes 2)).token.kind = .stringDelimiter ∧
      (reader.reading (quotes 2)).token.runLength = 2 := ⟨rfl, Lexeme.runLength_quotes 2 .start⟩
  rw [hstack]
  show Parser.readInTagged (reader.reading (quotes 2))
    ⟨.start, none, String.ofList tag, some textStart, some tagStart⟩ [.sentences unread] = _
  unfold Parser.readInTagged
  dsimp only
  rw [if_pos hclose]
  rfl

/-- A tagged string, from its two quotes to the two quotes behind its tag. -/
theorem readAll_taggedString {line inside : List Lexeme} (tag : List Char)
    (htag : ∃ rest, Lexeme.Cut (ofText tag) rest) (hline : ∀ item ∈ line, item.kind ≠ .newline)
    (hcut : ∀ item ∈ inside, ∃ rest, Lexeme.Cut item rest) (hinside : quotes 2 ∉ inside) :
    ∃ after, start.readAll (openingLine tag line ++ (inside ++ ([ofText tag] ++ [quotes 2]))) =
        .ok after ∧
      after.stack = [.sentences (unread.single ⟨.taggedString
        (Frame.unindent (String.ofList (covered inside))) (String.ofList tag), none⟩)] ∧
      after.latest = some .stringDelimiter := by
  obtain ⟨opened, hopened, hopenedStack⟩ := readAll_openingLine tag hline
  obtain ⟨inner, tagStart, hinner, hinnerStack⟩ := readAll_taggedBody hcut hinside hopenedStack
  have hlog : inner.log = sequences (openingLine tag line ++ inside) := by
    rw [log_of_readAll (readAll_trans hopened hinner)]
    exact Array.empty_append
  obtain ⟨tagged, htagged, htaggedStack⟩ := next_taggedBody htag (by rintro ⟨⟩) hinnerStack
  rw [if_pos ⟨rfl, rfl⟩, hlog, size_sequences] at htaggedStack
  have hread := read_closeTagged htaggedStack
  have htext : Parser.Reading.text (tagged.logged (quotes 2)) (openingLine tag line).length
      (openingLine tag line ++ inside).length = String.ofList (covered inside) := by
    rw [← text_between (openingLine tag line) inside (sequences [ofText tag, quotes 2]), logged,
      (next_eq_ok htagged).2.1, hlog, Array.push_eq_append, Array.append_assoc]
    rfl
  rw [htext] at hread
  exact ⟨_, readAll_trans hopened (readAll_trans hinner
    (readAll_trans (readAll_single htagged) (readAll_single (next_of_read hread)))), rfl, rfl⟩

end Reader

/-! ## Texts -/

/-- A tagged string as it is written: what stands behind the first tag on its line, the lines with
their indent, and the closing tag with the same indent. -/
def taggedText (tag behind indent : String) (lines : List String) : String :=
  "\"\"" ++ tag ++ behind ++ "\n" ++ String.join (lines.map fun line => indent ++ line ++ "\n") ++
    indent ++ tag ++ "\"\""

theorem toList_taggedText (tag behind indent : String) (lines : List String) :
    (taggedText tag behind indent lines).toList = List.replicate 2 '"' ++ (tag.toList ++
      (behind.toList ++ '\n' :: (taggedBody indent.toList (lines.map String.toList) ++
        (tag.toList ++ List.replicate 2 '"')))) := by
  have hlines : (String.join (lines.map fun line => indent ++ line ++ "\n")).toList =
      (lines.map String.toList).flatMap fun line => indent.toList ++ (line ++ ['\n']) := by
    rw [String.toList_join, List.flatMap_map, List.flatMap_map]
    simp only [String.toList_append, List.append_assoc]
    rfl
  unfold taggedText taggedBody
  simp only [String.toList_append, hlines, List.append_assoc]
  rfl

/-- **Tagged strings decode what they were written from.**  Lines without a newline and without two
quotes next to each other, written with blanks before each, with a tag of ordinary characters and the
same blanks before the closing tag, are read as a tagged string of these lines. -/
theorem parse_taggedString {tag behind indent : String} {lines : List String} (htag : tag ≠ "")
    (hordinary : ∀ c ∈ tag.toList, isOrdinary c = true)
    (hbehind : behind = "" ∨ behind.toList.head? = some ' ')
    (hnewline : '\n' ∉ behind.toList) (hslash : '\\' ∉ behind.toList)
    (hindent : ∀ c ∈ indent.toList, isBlank c = true)
    (hlines : ∀ line ∈ lines, '\n' ∉ line.toList ∧ ¬ ['"', '"'] <:+: line.toList)
    (options : Parser.Options) :
    (parse (taggedText tag behind indent lines) options).map Script.erased =
      .ok (.single (.taggedString (String.join (lines.map (· ++ "\n"))) tag)) := by
  have hne : tag.toList ≠ [] := fun h => htag (String.toList_eq_nil_iff.1 h)
  have hempty : behind.toList = [] ∨ behind.toList.head? = some ' ' :=
    hbehind.imp_left fun h => String.toList_eq_nil_iff.2 h
  have hnoNewline : '\n' ∉ indent.toList := fun h => absurd (hindent _ h) (by decide)
  have hnoQuote : '"' ∉ indent.toList := fun h => absurd (hindent _ h) (by decide)
  have hpair : quotes 2 ∉ lexemes (taggedBody indent.toList (lines.map String.toList)) := fun hmem =>
    not_pair_taggedBody hnoQuote (List.forall_mem_map.2 fun line hline => (hlines line hline).2)
      (isInfix_sequence hmem)
  have hline : ∀ item ∈ lexemes behind.toList, item.kind ≠ .newline := by
    intro item hitem hkind
    obtain ⟨rest, hcut⟩ := exists_cut_of_mem hitem
    exact hnewline ((isInfix_sequence hitem).subset (hcut.newline_mem hkind))
  have hcut : ∃ rest, Lexeme.Cut (ofText tag.toList) rest :=
    ⟨[], Lexeme.cut_ofText hne hordinary (fun c hc => by cases hc) (by decide)⟩
  obtain ⟨after, hafter, hstack, hlatest⟩ :=
    Reader.readAll_taggedString tag.toList hcut hline (fun _ => exists_cut_of_mem) hpair
  rw [covered_lexemes, Frame.unindent_taggedBody hnoNewline
    (List.forall_mem_map.2 fun line hline => (hlines line hline).1), String.ofList_toList] at hstack
  have hvalue : String.ofList ((lines.map String.toList).flatMap fun line => line ++ ['\n']) =
      String.join (lines.map (· ++ "\n")) := by
    apply String.toList_injective
    rw [String.toList_ofList, String.toList_join, List.flatMap_map, List.flatMap_map]
    simp only [String.toList_append]
    rfl
  rw [hvalue] at hstack
  rw [erased_parse_eq_ok, Reader.parse, toList_taggedText,
    lexemes_tagged hne hordinary hnewline hslash hempty hindent, hafter]
  exact Reader.close_single rfl hstack (by rw [hlatest]; decide)

/-- The tag and a comment in a line, a backslash at its end, an empty line and brackets. -/
theorem parse_taggedString_tricky :
    (parse (taggedText "EOF" " (#" " \t" ["EOF # \\", "", "[ \x7b \"\\\""]) ⟨true⟩).map Script.erased =
      .ok (.single (.taggedString "EOF # \\\n\n[ \x7b \"\\\"\n" "EOF")) := by
  have hlines : String.join (["EOF # \\", "", "[ \x7b \"\\\""].map (· ++ "\n")) =
      "EOF # \\\n\n[ \x7b \"\\\"\n" := rfl
  have hinside : ∀ line ∈ ["EOF # \\", "", "[ \x7b \"\\\""],
      '\n' ∉ line.toList ∧ ¬ ['"', '"'] <:+: line.toList := by
    simp only [not_pair_iff]
    decide
  have hordinary : ∀ c ∈ "EOF".toList, isOrdinary c = true := List.all_eq_true.1 rfl
  have hindent : ∀ c ∈ " \t".toList, isBlank c = true := List.all_eq_true.1 rfl
  rw [← hlines]
  exact parse_taggedString (by decide) hordinary (.inr (by decide)) (by decide) (by decide)
    hindent hinside ⟨true⟩

end Parlance
