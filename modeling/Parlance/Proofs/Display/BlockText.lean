import Mathlib
import Parlance.Proofs.Display.RoundTrip

/-!
# Texts of blocks

The text of a block is enough to read it again.  Between braces it is a word that is that block; on
its own it is a text whose script is the script of the block, except that a text cannot end with a
line continuation.

    Faithful (script, text) → lexemes text end with a continuation → parse text fails as unterminated
    Faithful (script, text) → they do not → parse text = script               (mapError_parse_faithful)
-/

namespace Parlance

namespace Reader

variable {reader after : Reader} {items : List Lexeme}

/-- Lexemes that stand before a brace are those of their text alone. -/
theorem lexemes_of_before_brace {text : List Char}
    (h : ∀ rest, lexemes (text ++ '}' :: rest) = items ++ lexemes ('}' :: rest))
    (hcovered : covered items = text) : lexemes text = items := by
  have hbrace := h []
  have hcut : text = covered ((lexemes (text ++ ['}'])).take items.length) := by
    rw [hbrace, List.take_left, hcovered]
  have halone := lexemes_local hcut (.inl rfl) (.inr (List.cons_ne_nil _ _).symm)
  rw [List.append_nil, lexemes_nil, List.append_nil, hbrace, List.take_left] at halone
  exact halone

/-- A reader whose frames settle to the whole script closes to that script, unless the latest token
is a line continuation. -/
theorem close_of_settles {frame : Frame.Sentences} {script : Script}
    (hstacked : Frame.Stacked reader.stack)
    (hsettles : ∀ reading, Parser.Settles reading reader.stack [.sentences frame])
    (hfinish : frame.finish = .ok script) :
    reader.close =
      if reader.latest = some .continuation then .error .unterminatedScript else .ok script := by
  -- At a brace a line comment goes on, so only an empty string can settle.
  have hbrace := hsettles ⟨⟨false⟩, ⟨.closeBlock, .start, "", ""⟩, #[]⟩
  have hroot : frame.enclosure = .root := by
    cases hbrace.stacked hstacked with
    | root hrole => exact (Frame.Role.sentences.inj hrole).1
  have hopen : Parser.unclosedFrame [.sentences frame] = none := by
    rw [Parser.unclosedFrame, hroot]
    rfl
  generalize hstack : reader.stack = stack at hbrace
  have hclosed : Parser.unclosedFrame stack = none ∧ Parser.finish reader.log stack = .ok script := by
    cases hbrace with
    | keep => exact ⟨hopen, hfinish⟩
    | @pair openedAt position _ _ hadd =>
      obtain ⟨old, rfl, hpush⟩ := addMorpheme_eq_sentences hadd
      have hold := (Frame.Role.sentences.inj (Parser.role_editWord hpush)).1
      refine ⟨?_, ?_⟩
      · show Parser.unclosedFrame [.sentences old] = none
        rw [Parser.unclosedFrame, ← hold, hroot]
        rfl
      · have hclose : Parser.closeInnermost reader.log [.quotePair openedAt position, .sentences old] =
            .ok [.sentences frame] := hadd
        rw [Parser.finish, hclose]
        exact hfinish
    | comment hnewline => cases hnewline
  unfold close
  rw [hstack, hclosed.1, hclosed.2]

/-- The text of a faithful block is read as its script, unless it ends with a line continuation. -/
theorem mapError_parse_faithful {script : Script} {text : String} (h : Faithful (script, text)) :
    (Parlance.parse text ⟨false⟩).mapError ParseError.cause =
      if (lexemes text.toList).getLast?.map Lexeme.kind = some .continuation then
        .error .unterminatedScript
      else .ok script := by
  obtain ⟨items, inner, frame, hcovered, hbefore, hinner, hends, hfinish⟩ := h
  have hstacked := stacked_of_readAll hinner (.root rfl)
  have hlexemes := lexemes_of_before_brace hbefore hcovered
  have hlatest : inner.latest = items.getLast?.map Lexeme.kind := by
    rw [latest_of_readAll hinner]
    exact Option.or_none
  rw [mapError_parse, parse, hlexemes, hinner, ← hlatest]
  exact close_of_settles hstacked hends hfinish

/-- The kind of the last token is that of the last lexeme. -/
theorem getLast_tokenize (text : String) :
    (tokenize text).getLast?.map Token.kind = (lexemes text.toList).getLast?.map Lexeme.kind := by
  have hkind : ∀ token : Token, token.unplaced.kind = token.kind := fun _ => rfl
  have hunplaced := congrArg (fun tokens => tokens.getLast?.map Token.kind) (unplaced_tokenize text)
  simp only [List.getLast?_map, Option.map_map, Function.comp_def, hkind] at hunplaced
  exact hunplaced

/-- **Blocks hold their text.**  The text of a block in a parsed script, between braces, is one
sentence of one word that is the same block.  On its own it is read as the script of the block; only a
text whose last token is a line continuation is refused, as unterminated. -/
theorem parse_block_text {source : String} {tree : Script}
    (h : Parlance.parse source ⟨false⟩ = .ok tree) {script : Script} {text : String}
    (hblock : (script, text) ∈ tree.blocks) :
    Parlance.parse ("\x7b" ++ text ++ "\x7d") ⟨false⟩ =
        .ok ⟨[⟨[⟨[⟨.block script text, none⟩], none⟩], none⟩], none⟩ ∧
      (Parlance.parse text ⟨false⟩).mapError ParseError.cause =
        if (tokenize text).getLast?.map Token.kind = some .continuation then
          .error .unterminatedScript
        else .ok script := by
  have hfaithful := faithful_of_parse h hblock
  refine ⟨?_, ?_⟩
  · have hword : IsWord (brace text).toList [⟨.block script text, none⟩] :=
      isWord_brackets (by decide) (toList_brace text) (content_of_faithful hfaithful)
    exact parse_word hword
  · rw [getLast_tokenize]
    exact mapError_parse_faithful hfaithful

/-- A block in a quoted string, whose text holds another block, and one that ends with a line
continuation. -/
theorem parse_block_text_quoted :
    let literal (text : String) : Morpheme := ⟨.literal text, none⟩
    let script (morphemes : List Morpheme) : Script := ⟨[⟨[⟨morphemes, none⟩], none⟩], none⟩
    let inner : Script := script [literal "b"]
    let outer : Script := script [⟨.block inner "b\\\n", none⟩]
    let text : String := "\x7bb\\\n\x7d"
    let tree : Script := script [⟨.string [⟨.marker false 1 "$", none⟩, literal "x",
      ⟨.block outer text, none⟩], none⟩]
    Parlance.parse "\"$x\x7b\x7bb\\\n\x7d\x7d\"" ⟨false⟩ = .ok tree ∧
      (outer, text) ∈ tree.blocks ∧ (inner, "b\\\n") ∈ tree.blocks ∧
      (Parlance.parse text ⟨false⟩).mapError ParseError.cause = .ok outer ∧
      Parlance.parse ("\x7b" ++ "b\\\n" ++ "\x7d") ⟨false⟩ = .ok outer ∧
      (Parlance.parse "b\\\n" ⟨false⟩).mapError ParseError.cause = .error .unterminatedScript := by
  intro literal script inner outer text tree
  have hparse : Parlance.parse "\"$x\x7b\x7bb\\\n\x7d\x7d\"" ⟨false⟩ = .ok tree := by
    cbv
  have hblocks : tree.blocks = [(outer, text), (inner, "b\\\n")] := by
    cbv
  have houter : (outer, text) ∈ tree.blocks := by
    rw [hblocks]
    exact List.mem_cons_self
  have hinner : (inner, "b\\\n") ∈ tree.blocks := by
    rw [hblocks]
    exact List.mem_cons_of_mem _ List.mem_cons_self
  have hend : (tokenize text).getLast?.map Token.kind = some .closeBlock := by
    cbv
  have hcontinued : (tokenize "b\\\n").getLast?.map Token.kind = some .continuation := by
    cbv
  have hscript := (parse_block_text hparse houter).2
  obtain ⟨hbraced, hrefused⟩ := parse_block_text hparse hinner
  rw [hend] at hscript
  rw [hcontinued] at hrefused
  exact ⟨hparse, houter, hinner, hscript, hbraced, hrefused⟩

end Reader

end Parlance
