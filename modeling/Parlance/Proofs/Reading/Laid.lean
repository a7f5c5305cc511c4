import Mathlib
import Parlance.Proofs.Reading.Run
import Parlance.Proofs.Tiles

/-!
# Frames laid out on their tokens

Between two tokens, every open frame covers the tokens from the one that opened it up to the one that
opened the frame on top of it.  The innermost frame covers all that is left, so what it becomes when it
is closed stands where its first token does, and covers what follows for the frame below.

    LaidOut source s n → Settles r s t → LaidOut source t n                    (laidOut_of_settles)
    LaidOut source s n → Takes r s t → LaidOut source t (n + 1)                   (laidOut_of_takes)
    parse source ⟨true⟩ = .ok tree → tree.Located source                          (located_of_parse)
-/

namespace Parlance

variable {source : String} {token : Token} {start k n : Nat}

namespace Frame

/-- The position of what a frame becomes. -/
def position : Frame → Option Position
  | .sentences frame => frame.position
  | .quoted frame => frame.position
  | .quotePair _ position => position
  | .here frame => frame.position
  | .tagged frame => frame.position
  | .lineComment frame => frame.position
  | .blockComment frame => frame.position

/-! ## Sentences -/

/-- Sentences whose open word, if there is one, ends before token number `n`. -/
structure Sentences.Laid (source : String) (frame : Sentences) (n : Nat) : Prop where
  sentences : ∀ sentence ∈ frame.sentences, sentence.Located source
  words : ∀ word ∈ frame.words, word.Located source
  /-- The open sentence stands where its first word does. -/
  first : ∀ word, frame.words.getLast? = some word → word.position = frame.sentencePosition
  /-- The open word stands where its morphemes begin. -/
  word : ∀ word, frame.word = some word → ∃ i first, (tokenize source)[i]? = some first ∧
    word.position = some first.position ∧ Tiles source word.morphemes.items i n

namespace Sentences

variable {frame after : Sentences}

theorem laid_start (source : String) (enclosure : Enclosure) (openedAt : Position)
    (position : Option Position) (textStart n : Nat) :
    (Sentences.start enclosure openedAt position textStart).Laid source n :=
  ⟨by rintro _ ⟨⟩, by rintro _ ⟨⟩, by rintro _ ⟨⟩, by rintro _ ⟨⟩⟩

/-- An edit of the open word, or of the word that begins at token number `k`. -/
theorem Laid.editWord (h : frame.Laid source k) {edit : Draft → Draft}
    (htoken : (tokenize source)[k]? = some token)
    (hedit : ∀ (draft : Draft) (i : Nat), Tiles source draft.items i k →
      Tiles source (edit draft).items i n)
    (hafter : frame.editWord (some token.position) edit = .ok after) : after.Laid source n := by
  unfold Sentences.editWord at hafter
  dsimp only at hafter
  split at hafter
  · cases hafter
  · cases hafter
    refine ⟨h.sentences, h.words, h.first, fun word hword => ?_⟩
    cases hword
    cases hframe : frame.word with
    | none => exact ⟨k, token, htoken, rfl, hedit _ k (.nil k)⟩
    | some word =>
      obtain ⟨i, first, hfirst, hposition, htiles⟩ := h.word word hframe
      exact ⟨i, first, hfirst, hposition, hedit _ i htiles⟩

/-- A finished word stands where its first morpheme does. -/
theorem located_word {morphemes : Draft} {position : Option Position} {i : Nat}
    (htoken : (tokenize source)[i]? = some token) (hposition : position = some token.position)
    (htiles : Tiles source morphemes.items i n)
    (hshape : Word.shape ⟨morphemes.settle.toList, position⟩ ≠ .invalid) :
    Word.Located source ⟨morphemes.settle.toList, position⟩ := by
  have hsettle := htiles.settle
  have hitems : morphemes.settle.items ≠ [] := by
    intro hnil
    apply hshape
    unfold Draft.toList
    rw [hnil]
    rfl
  refine ⟨?_, hsettle.allLocated⟩
  show morphemes.settle.items.reverse.head?.map Morpheme.position = some position
  rw [List.head?_reverse, hsettle.position hitems htoken, hposition]

theorem Laid.closeWord (h : frame.Laid source k) (hafter : frame.closeWord = .ok after) (n : Nat) :
    after.Laid source n := by
  unfold Sentences.closeWord at hafter
  split at hafter
  · rename_i hnone
    cases hafter
    refine ⟨h.sentences, h.words, h.first, fun word hword => ?_⟩
    rw [hnone] at hword
    cases hword
  · rename_i morphemes position hword
    dsimp only at hafter
    split at hafter
    · cases hafter
    · rename_i hshape
      cases hafter
      obtain ⟨i, token, htoken, hposition, htiles⟩ := h.word _ hword
      have hlocated := located_word htoken hposition htiles hshape
      refine ⟨h.sentences, List.forall_mem_cons.2 ⟨hlocated, h.words⟩, ?_, by rintro _ ⟨⟩⟩
      intro word hlast
      have hfirst := h.first word
      dsimp only at hlast ⊢
      cases hwords : frame.words with
      | nil =>
        rw [hwords] at hlast
        cases hlast
        rfl
      | cons second rest =>
        rw [hwords] at hlast hfirst
        rw [List.getLast?_cons_cons] at hlast
        exact hfirst hlast

theorem Laid.closeSentence (h : frame.Laid source k) (hafter : frame.closeSentence = .ok after)
    (n : Nat) : after.Laid source n := by
  obtain ⟨closed, hclosed, heq⟩ := map_eq_ok hafter
  have hlaid := h.closeWord hclosed n
  split at heq <;> subst heq
  · exact hlaid
  · rename_i hwords
    refine ⟨List.forall_mem_cons.2 ⟨⟨?_, ?_⟩, hlaid.sentences⟩, by rintro _ ⟨⟩, by rintro _ ⟨⟩,
      hlaid.word⟩
    · show closed.words.reverse.head?.map Word.position = some closed.sentencePosition
      cases hlast : closed.words.getLast? with
      | none =>
        rw [List.getLast?_eq_none_iff] at hlast
        rw [hlast] at hwords
        exact absurd rfl hwords
      | some word =>
        rw [List.head?_reverse, hlast, Option.map_some, hlaid.first word hlast]
    · exact Word.allLocated_iff.2 fun word hword => hlaid.words word (List.mem_reverse.1 hword)

theorem Laid.finish (h : frame.Laid source k) {script : Script} (hscript : frame.finish = .ok script) :
    script.Located source := by
  obtain ⟨after, hafter, rfl⟩ := map_eq_ok hscript
  have hlaid := h.closeSentence hafter k
  exact Sentence.allLocated_iff.2 fun sentence hsentence =>
    hlaid.sentences sentence (List.mem_reverse.1 hsentence)

end Sentences

/-! ## Frames -/

/-- How an open frame goes with the tokens from the one that opened it, number `start`, up to number
`n`. -/
inductive Since (source : String) (token : Token) (start n : Nat) : Frame → Prop
  | sentences {frame : Sentences} (hkind : Parser.opens token.kind = some frame.enclosure)
    (htext : frame.textStart = start + 1) (h : frame.Laid source n) :
    Since source token start n (.sentences frame)
  | quoted {frame : Quoted} (hkind : token.kind = .stringDelimiter) (hlength : token.runLength = 1)
    (h : Tiles source frame.morphemes.items (start + 1) n) : Since source token start n (.quoted frame)
  | quotePair {openedAt : Position} {position : Option Position}
    (hkind : token.kind = .stringDelimiter) (hlength : token.runLength = 2) (hn : n = start + 1) :
    Since source token start n (.quotePair openedAt position)
  | here {frame : Here} (hkind : token.kind = .stringDelimiter)
    (hlength : token.runLength = frame.delimiterLength) (htext : frame.textStart = start + 1) :
    Since source token start n (.here frame)
  | tagged {frame : Tagged} {tag : Token} (hkind : token.kind = .stringDelimiter)
    (hlength : token.runLength = 2) (htag : (tokenize source)[start + 1]? = some tag)
    (htext : tag.kind = .text) (hliteral : frame.tag = tag.literal) :
    Since source token start n (.tagged frame)
  | lineComment {frame : LineComment} (hkind : token.kind = .comment)
    (hlength : token.runLength = frame.delimiterLength) (htext : frame.textStart = start + 1)
    (hfresh : frame.fresh = true → n = start + 1) : Since source token start n (.lineComment frame)
  | blockComment {frame : BlockComment} {brace : Token} (hkind : token.kind = .comment)
    (hlength : token.runLength = frame.delimiterLength)
    (hbrace : (tokenize source)[start + 1]? = some brace) (hopen : brace.kind = .openBlock)
    (htext : frame.textStart = start + 2) (hlt : start + 1 < n)
    (hclose : ∀ stop ∈ frame.closeStart, start + 2 ≤ stop ∧ stop + 1 = n ∧
      ∃ closing, (tokenize source)[stop]? = some closing ∧ closing.kind = .closeBlock) :
    Since source token start n (.blockComment frame)

/-- Open frames before token number `n`. -/
inductive LaidOut (source : String) : List Frame → Nat → Prop
  | root {frame : Sentences} {n : Nat} (hroot : frame.enclosure = .root) (h : frame.Laid source n) :
    LaidOut source [.sentences frame] n
  | opened {top : Frame} {below : List Frame} {token : Token} {start n : Nat}
    (htoken : (tokenize source)[start]? = some token) (hposition : top.position = some token.position)
    (hlt : start < n) (htop : Since source token start n top) (h : LaidOut source below start) :
    LaidOut source (top :: below) n

namespace LaidOut

variable {frame after : Sentences} {below stack : List Frame}

/-- An edit of the sentences on top. -/
theorem edit (hs : LaidOut source (.sentences frame :: below) k) (hkn : k ≤ n)
    (hrole : (Frame.sentences after).role = (Frame.sentences frame).role)
    (h : frame.Laid source k → after.Laid source n) : LaidOut source (.sentences after :: below) n := by
  obtain ⟨henclosure, htextStart, hsame⟩ := Role.sentences.inj hrole
  cases hs with
  | root hroot hlaid => exact .root (henclosure.trans hroot) (h hlaid)
  | opened htoken hposition hlt htop hbelow =>
    cases htop with
    | sentences hkind htext hlaid =>
      rw [← henclosure] at hkind
      exact .opened htoken (hsame.trans hposition) (Nat.lt_of_lt_of_le hlt hkn)
        (.sentences hkind (htextStart.trans htext) (h hlaid)) hbelow

/-- An edit of the string on top. -/
theorem editQuoted {frame : Quoted} {edit : Draft → Draft}
    (hs : LaidOut source (.quoted frame :: below) k) (hkn : k ≤ n)
    (h : ∀ (draft : Draft) (i : Nat), Tiles source draft.items i k → Tiles source (edit draft).items i n) :
    LaidOut source (.quoted { frame with morphemes := edit frame.morphemes } :: below) n := by
  cases hs with
  | opened htoken hposition hlt htop hbelow =>
    cases htop with
    | quoted hkind hlength htiles =>
      exact .opened htoken hposition (Nat.lt_of_lt_of_le hlt hkn)
        (.quoted hkind hlength (h _ _ htiles)) hbelow

/-- A morpheme that covers the tokens up to number `n` is handed to the innermost frame. -/
theorem addMorpheme {morpheme : Morpheme} (hs : LaidOut source below k)
    (hmorpheme : morpheme.Spans source k n) (h : Frame.addMorpheme morpheme below = .ok stack) :
    LaidOut source stack n := by
  have hkn := Nat.le_of_lt hmorpheme.lt
  have hpush : ∀ (draft : Draft) (i : Nat), Tiles source draft.items i k →
      Tiles source (draft.push morpheme).items i n := fun draft i htiles => htiles.push hmorpheme
  unfold Frame.addMorpheme at h
  split at h
  · obtain ⟨after, hafter, rfl⟩ := map_eq_ok h
    obtain ⟨token, htoken, hposition⟩ := hmorpheme.position
    unfold Sentences.pushMorpheme at hafter
    refine hs.edit hkn (Parser.role_editWord hafter) fun hlaid => hlaid.editWord htoken hpush ?_
    rw [← hposition]
    exact hafter
  · cases h
    exact hs.editQuoted hkn hpush
  · cases h

end LaidOut

end Frame

/-! ## What a frame becomes -/

namespace Parser

open Parlance.Frame (Since LaidOut)

theorem sign_of_opens {kind : Token.Kind} {enclosure : Frame.Enclosure}
    (h : opens kind = some enclosure) : kind.sign? = some enclosure.opening := by
  cases kind <;> cases h <;> rfl

theorem sign_of_delimiter {kind : Token.Kind} {enclosure : Frame.Enclosure} {delimiter : Delimiter}
    (h : closes kind = some delimiter) (henclosure : enclosure.delimiter = some delimiter) :
    kind.sign? = some enclosure.closing := by
  cases enclosure <;> cases henclosure <;> cases kind <;> first | rfl | cases h

/-- What is known when token number `n` is read. -/
structure Reading.At (source : String) (n : Nat) (reading : Reading) : Prop where
  token : (tokenize source)[n]? = some reading.token
  options : reading.options = ⟨true⟩
  log : reading.log = (((tokenize source).take (n + 1)).map Token.sequence).toArray

section Readings

variable {reading : Reading}

theorem Reading.At.position (hat : reading.At source n) :
    reading.position = some reading.token.position := by
  unfold Reading.position Options.capture
  rw [hat.options]
  rfl

theorem Reading.At.after (hat : reading.At source n) : reading.after = n + 1 := by
  obtain ⟨hlt, -⟩ := List.getElem?_eq_some_iff.1 hat.token
  rw [Reading.after, hat.log, List.size_toArray, List.length_map, List.length_take]
  omega

theorem Reading.At.before (hat : reading.At source n) : reading.before = n := by
  have hafter : reading.log.size = n + 1 := hat.after
  rw [Reading.before, hafter]
  rfl

theorem Reading.At.text (hat : reading.At source n) {i j : Nat} (hj : j ≤ n + 1) :
    Reading.text reading.log i j = piece Token.sequence (tokenize source) i j := by
  rw [Reading.text, hat.log, text_extract hj]

/-- What is between two brackets of an enclosure. -/
theorem standsAt_bracket {closing : Token} {enclosure : Frame.Enclosure}
    (h : (tokenize source)[start]? = some token) (hopens : opens token.kind = some enclosure)
    (hlt : start < n) (hclosing : (tokenize source)[n]? = some closing)
    (hcloses : closing.kind.sign? = some enclosure.closing) (script : Script) :
    (enclosure.kind script (piece Token.sequence (tokenize source) (start + 1) n)).StandsAt source
      token.position := by
  have hsource : textAt source token.position = enclosure.opening ::
      ((piece Token.sequence (tokenize source) (start + 1) n).toList ++
        enclosure.closing :: left (tokenize source) (n + 1)) := by
    rw [textAt_of_sign h (sign_of_opens hopens), left_eq_append (Nat.succ_le_of_lt hlt),
      left_of_sign hclosing hcloses]
  cases enclosure with
  | root => exact absurd rfl (opens_ne_root hopens)
  | tuple | expression => exact ⟨_, hsource.symm⟩
  | block =>
    refine ⟨left (tokenize source) (n + 1), ?_⟩
    rw [hsource]
    simp [Frame.Enclosure.opening, Frame.Enclosure.closing]

/-- An empty string, which two quotes are when no tag follows. -/
theorem spans_pair {openedAt : Position} {position : Option Position}
    (htoken : (tokenize source)[start]? = some token) (hposition : position = some token.position)
    (htop : Since source token start n (.quotePair openedAt position)) :
    Morpheme.Spans source ⟨.string [], position⟩ start n := by
  cases htop with
  | quotePair hkind hlength hn =>
    subst hn hposition
    have hstands := standsAt_string htoken hkind (by rw [hlength]; decide) []
    exact spans_of_standsAt htoken (Nat.lt_succ_self start) hstands trivial trivial

/-- A comment up to the end of its line. -/
theorem spans_lineComment {frame : Frame.LineComment} {log : Array String}
    (htoken : (tokenize source)[start]? = some token)
    (hposition : frame.position = some token.position) (hlt : start < n)
    (htop : Since source token start n (.lineComment frame))
    (hlog : Reading.text log (start + 1) n = piece Token.sequence (tokenize source) (start + 1) n)
    (hrest : left (tokenize source) n = [] ∨ (left (tokenize source) n).head? = some '\n') :
    (lineComment log n frame).Spans source start n := by
  cases htop with
  | lineComment hkind hlength htext =>
    unfold lineComment
    rw [hposition, htext, hlog, ← hlength]
    exact spans_of_standsAt htoken hlt (standsAt_lineComment htoken hkind hlt hrest) trivial trivial

/-- What a frame becomes when a token closes it. -/
theorem Ends.spans {top : Frame} {morpheme : Morpheme} (h : Ends reading top morpheme)
    (hat : reading.At source n) (htoken : (tokenize source)[start]? = some token)
    (hposition : top.position = some token.position) (hlt : start < n)
    (htop : Since source token start n top) : morpheme.Spans source start (n + 1) := by
  have hspans : ∀ {kind : Morpheme.Kind}, kind.StandsAt source token.position →
      kind.Spells source start (n + 1) → kind.Inside source →
      Morpheme.Spans source ⟨kind, top.position⟩ start (n + 1) := by
    intro kind hstands hspells hinside
    rw [hposition]
    exact spans_of_standsAt htoken (Nat.lt_succ_of_lt hlt) hstands hspells hinside
  have hbetween := hat.text (i := start + 1) (Nat.le_succ n)
  cases h with
  | @bracket frame delimiter script hkind henclosure hfinish =>
    cases htop with
    | sentences hopens htext hlaid =>
      have hscript := hlaid.finish hfinish
      have hsign := sign_of_delimiter hkind henclosure
      rw [hat.before, htext, hbetween]
      refine hspans (standsAt_bracket htoken hopens hlt hat.token hsign script) ?_ ?_
      · cases frame.enclosure <;> trivial
      · cases frame.enclosure <;> exact hscript
  | string hkind hlength =>
    cases htop with
    | quoted hopen hone htiles =>
      have hstands := standsAt_string htoken hopen (by rw [hone]; decide)
      exact hspans (hstands _) trivial htiles.settle.allLocated
  | here hkind hlength =>
    cases htop with
    | here hopen hopening htext =>
      rw [hat.before, htext, hbetween, ← hopening]
      have hsame := hlength.trans hopening.symm
      exact hspans (standsAt_hereString htoken hopen hlt hat.token hkind hsame) trivial trivial
  | tagged hkind text =>
    cases htop with
    | tagged hopen hlength htag htext hliteral =>
      rw [hliteral]
      exact hspans (standsAt_taggedString htoken hopen hlength htag htext text) trivial trivial
  | @block frame stop hkind hlength hstop =>
    cases htop with
    | blockComment hopen hopening hbrace hbraceKind htext hbody hclose =>
      obtain ⟨hle, hn, closing, hclosing, hclosingKind⟩ := hclose stop hstop
      have hrun := hat.token
      rw [← hn] at hrun
      rw [htext, hat.text (by omega), ← hopening]
      have hsame := hlength.trans hopening.symm
      exact hspans (standsAt_blockComment htoken hopen hbrace hbraceKind hle hclosing hclosingKind hrun
        hkind hsame) trivial trivial

/-! ## Reading -/

variable {stack after : List Frame}

theorem laidOut_of_settles (h : Settles reading stack after) (hat : reading.At source n)
    (hs : LaidOut source stack n) : LaidOut source after n := by
  cases h with
  | keep => exact hs
  | pair hadd =>
    cases hs with
    | opened htoken hposition hlt htop hbelow =>
      exact hbelow.addMorpheme (spans_pair htoken hposition htop) hadd
  | comment hkind hadd =>
    cases hs with
    | opened htoken hposition hlt htop hbelow =>
      rw [hat.before] at hadd
      have hnewline := left_of_sign (c := '\n') hat.token (by rw [hkind]; rfl)
      refine hbelow.addMorpheme (spans_lineComment htoken hposition hlt htop (hat.text (Nat.le_succ n))
        (.inr ?_)) hadd
      rw [hnewline]
      rfl

theorem Edits.tiles {edit : Draft → Draft} (h : Edits reading edit) (hat : reading.At source n)
    (draft : Draft) (i : Nat) (htiles : Tiles source draft.items i n) :
    Tiles source (edit draft).items i (n + 1) := by
  cases h with
  | text =>
    rw [hat.position]
    exact htiles.pushToken hat.token true
  | asterisk hkind =>
    rw [hat.position]
    exact htiles.pushAsterisk hat.token hkind
  | dollar hkind =>
    rw [hat.position]
    exact htiles.pushDollar hat.token hkind

theorem EditsString.tiles {edit : Draft → Draft} (h : EditsString reading edit)
    (hat : reading.At source n) (draft : Draft) (i : Nat) (htiles : Tiles source draft.items i n) :
    Tiles source (edit draft).items i (n + 1) := by
  cases h with
  | word hedit => exact hedit.tiles hat draft i htiles
  | verbatim =>
    rw [hat.position]
    exact htiles.settle.pushToken hat.token false

/-- A frame that a token opens covers that token. -/
theorem laidOut_opening {frame : Frame} (hs : LaidOut source stack n) (hat : reading.At source n)
    (hposition : frame.position = reading.position)
    (hframe : Since source reading.token n (n + 1) frame) : LaidOut source (frame :: stack) (n + 1) :=
  .opened hat.token (hposition.trans hat.position) (Nat.lt_succ_self n) hframe hs

theorem since_openBracket {enclosure : Frame.Enclosure} (hat : reading.At source n)
    (hkind : opens reading.token.kind = some enclosure) :
    Since source reading.token n (n + 1)
      (.sentences (.start enclosure reading.token.position reading.position reading.after)) :=
  .sentences hkind hat.after (Frame.Sentences.laid_start source _ _ _ _ _)

theorem since_openQuotes (hat : reading.At source n) (hkind : reading.token.kind = .stringDelimiter) :
    (openQuotes reading).position = reading.position ∧
      Since source reading.token n (n + 1) (openQuotes reading) := by
  unfold openQuotes
  dsimp only
  split
  · rename_i hlength
    exact ⟨rfl, .quoted hkind hlength (.nil _)⟩
  · rename_i hlength
    exact ⟨rfl, .quotePair hkind hlength rfl⟩
  · exact ⟨rfl, .here hkind rfl hat.after⟩

/-- A text that goes on covers one more token. -/
theorem GoesOn.since {top next : Frame} (h : GoesOn reading top next) (hat : reading.At source n)
    (htop : Since source token start n top) :
    next.position = top.position ∧ Since source token start (n + 1) next := by
  cases h with
  | here =>
    cases htop with
    | here hkind hlength htext => exact ⟨rfl, .here hkind hlength htext⟩
  | line =>
    cases htop with
    | lineComment hkind hlength htext => exact ⟨rfl, .lineComment hkind hlength htext (by rintro ⟨⟩)⟩
  | tagged =>
    cases htop with
    | tagged hkind hlength htag htext hliteral =>
      exact ⟨rfl, .tagged hkind hlength htag htext hliteral⟩
  | block frame nesting afterHash hclose =>
    cases htop with
    | blockComment hkind hlength hbrace hopen htext hlt =>
      refine ⟨rfl, .blockComment hkind hlength hbrace hopen htext (Nat.lt_succ_of_lt hlt) ?_⟩
      intro stop hstop
      obtain ⟨hbefore, hbraceKind⟩ := hclose stop hstop
      rw [hat.before] at hbefore
      subst hbefore
      exact ⟨Nat.succ_le_of_lt hlt, rfl, reading.token, hat.token, hbraceKind⟩

theorem laidOut_of_takes (h : Takes reading stack after) (hat : reading.At source n)
    (hs : LaidOut source stack n) : LaidOut source after (n + 1) := by
  have hnext := Nat.le_succ n
  cases h with
  | closesWord hkind h =>
    exact hs.edit hnext (role_closeWord h) fun hlaid => hlaid.closeWord h (n + 1)
  | closesSentence hkind h =>
    exact hs.edit hnext (role_closeSentence h) fun hlaid => hlaid.closeSentence h (n + 1)
  | editsWord hedit hword h =>
    refine hs.edit hnext (role_editWord h) fun hlaid => ?_
    rw [hat.position] at h
    exact hlaid.editWord hat.token (hedit.tiles hat) h
  | editsString hedit => exact hs.editQuoted hnext (hedit.tiles hat)
  | opensInWord hkind h =>
    refine laidOut_opening ?_ hat rfl (since_openBracket hat hkind)
    refine hs.edit (Nat.le_refl n) (role_editWord h) fun hlaid => ?_
    rw [hat.position] at h
    exact hlaid.editWord hat.token (fun draft i htiles => htiles) h
  | opensInString hkind => exact laidOut_opening hs hat rfl (since_openBracket hat hkind)
  | opensQuotes hkind =>
    obtain ⟨hposition, hsince⟩ := since_openQuotes hat hkind
    exact laidOut_opening hs hat hposition hsince
  | opensComment hkind => exact laidOut_opening hs hat rfl (.lineComment hkind rfl hat.after fun _ => rfl)
  | opensTagged hkind =>
    cases hs with
    | opened htoken hposition hlt htop hbelow =>
      cases htop with
      | quotePair hquotes hlength hn =>
        subst hn
        exact .opened htoken hposition (Nat.lt_succ_of_lt hlt)
          (.tagged hquotes hlength hat.token hkind rfl) hbelow
  | opensBlockComment hkind hfresh =>
    cases hs with
    | opened htoken hposition hlt htop hbelow =>
      cases htop with
      | lineComment hhash hlength htext hn =>
        obtain rfl := hn hfresh
        exact .opened htoken hposition (Nat.lt_succ_of_lt hlt)
          (.blockComment hhash hlength hat.token hkind hat.after (Nat.lt_succ_self _)
            (by rintro _ ⟨⟩)) hbelow
  | goesOn h =>
    cases hs with
    | root => cases h
    | opened htoken hposition hlt htop hbelow =>
      obtain ⟨hsame, hsince⟩ := h.since hat htop
      exact .opened htoken (hsame.trans hposition) (Nat.lt_succ_of_lt hlt) hsince hbelow
  | closes hends h =>
    cases hs with
    | root hroot =>
      cases hends with
      | bracket _ henclosure =>
        rw [hroot] at henclosure
        cases henclosure
    | opened htoken hposition hlt htop hbelow =>
      exact hbelow.addMorpheme (hends.spans hat htoken hposition hlt htop) h

end Readings

/-! ## Runs -/

/-- A parser that has read the first `n` tokens. -/
structure At (source : String) (n : Nat) (parser : Parser) : Prop where
  options : parser.options = ⟨true⟩
  log : parser.log = (((tokenize source).take n).map Token.sequence).toArray
  laid : LaidOut source parser.stack n

theorem at_start (source : String) : (Parser.start ⟨true⟩).At source 0 :=
  ⟨rfl, rfl, .root rfl (Frame.Sentences.laid_start source _ _ _ _ _)⟩

theorem At.push {parser : Parser} (h : parser.At source n)
    (htoken : (tokenize source)[n]? = some token) (hfailure : parser.failure = none)
    (hafter : (Parser.push token parser).2.failure = none) :
    (Parser.push token parser).2.At source (n + 1) := by
  rcases push_cases hfailure token with ⟨stack, hread, hpush⟩ | ⟨cause, -, -, hrefused⟩
  · have hlog : parser.log.push token.sequence =
        (((tokenize source).take (n + 1)).map Token.sequence).toArray := by
      rw [h.log, List.push_toArray, List.take_add_one, htoken, List.map_append]
      rfl
    have hat : Reading.At source n ⟨parser.options, token, parser.log.push token.sequence⟩ :=
      ⟨htoken, h.options, hlog⟩
    obtain ⟨settled, hsettles, htakes⟩ := takes_of_read hread
    rw [hpush]
    exact ⟨h.options, hlog, laidOut_of_takes htakes hat (laidOut_of_settles hsettles hat h.laid)⟩
  · rw [hrefused] at hafter
    cases hafter

/-- Whatever the parser has read without a failure is laid out on its tokens. -/
theorem at_run (n : Nat) (hn : n ≤ (tokenize source).length)
    (hfailure : (run ((tokenize source).take n) (Parser.start ⟨true⟩)).failure = none) :
    (run ((tokenize source).take n) (Parser.start ⟨true⟩)).At source n := by
  induction n with
  | zero => exact at_start source
  | succ n ih =>
    have htoken : (tokenize source)[n]? = some (tokenize source)[n] := List.getElem?_eq_getElem hn
    rw [List.take_add_one, htoken] at hfailure ⊢
    have hbefore := failure_of_run_append hfailure
    rw [run_append] at hfailure ⊢
    exact (ih (Nat.le_of_succ_le hn) hbefore).push htoken hbefore hfailure

/-- What ends with the input covers the tokens up to its end. -/
theorem laidOut_of_closeInnermost {stack after : List Frame} {log : Array String}
    (hlog : log = ((tokenize source).map Token.sequence).toArray)
    (h : closeInnermost log stack = .ok after) (hs : LaidOut source stack (tokenize source).length) :
    LaidOut source after (tokenize source).length := by
  have hsize : log.size = (tokenize source).length := by
    rw [hlog, List.size_toArray, List.length_map]
  unfold closeInnermost at h
  split at h
  · cases hs with
    | opened htoken hposition hlt htop hbelow =>
      rw [hsize] at h
      refine hbelow.addMorpheme (spans_lineComment htoken hposition hlt htop ?_ (.inl ?_)) h
      · rw [Reading.text, hlog, ← text_extract (Nat.le_refl _), List.take_length]
      · exact left_length _
  · cases hs with
    | opened htoken hposition hlt htop hbelow =>
      exact hbelow.addMorpheme (spans_pair htoken hposition htop) h
  · cases h
    exact hs

theorem LaidOut.finish {stack : List Frame} {log : Array String} {script : Script}
    (hlog : log = ((tokenize source).map Token.sequence).toArray)
    (h : finish log stack = .ok script) (hs : LaidOut source stack (tokenize source).length) :
    script.Located source := by
  obtain ⟨closed, hclosed, hscript⟩ := bind_eq_ok h
  have hlaid := laidOut_of_closeInnermost hlog hclosed hs
  split at hscript
  · cases hlaid with
    | root hroot hframe => exact hframe.finish hscript
    | opened htoken hposition hlt htop hbelow => cases hbelow
  · cases hscript

end Parser

/-- **A tree tells where it stands.**  With positions, every morpheme of the tree of a text, however
deep, stands in the text where it says, and reads there as its kind does.  Every word stands where its
first morpheme does, and every sentence where its first word does. -/
theorem located_of_parse {tree : Script} (h : parse source ⟨true⟩ = .ok tree) : tree.Located source := by
  rw [Parser.parse_eq_close_run] at h
  unfold Parser.close at h
  split at h
  · cases h
  · rename_i hfailure
    have hat := Parser.at_run (tokenize source).length (Nat.le_refl _) (by rwa [List.take_length])
    have hlog := hat.log
    rw [List.take_length] at hat hlog
    split at h
    · cases h
    · split at h
      · rename_i script hfinish
        cases h
        exact Parser.LaidOut.finish hlog hfinish hat.laid
      · cases h

/-- Behind a character of two bytes: a `$` that is text, a block and a comment. -/
theorem located_of_parse_comment :
    let literal (text : String) (place : Position) : Word :=
      ⟨[⟨.literal text, some place⟩], some place⟩
    let inside : Script :=
      ⟨[⟨[literal "a" ⟨4, 0, 4⟩], some ⟨4, 0, 4⟩⟩, ⟨[literal "b" ⟨6, 0, 6⟩], some ⟨6, 0, 6⟩⟩],
        some ⟨3, 0, 3⟩⟩
    let tree : Script :=
      ⟨[⟨[literal "é$" ⟨0, 0, 0⟩, ⟨[⟨.block inside "a;b", some ⟨3, 0, 3⟩⟩], some ⟨3, 0, 3⟩⟩,
        ⟨[⟨.lineComment " c" 1, some ⟨9, 0, 9⟩⟩], some ⟨9, 0, 9⟩⟩], some ⟨0, 0, 0⟩⟩], some ⟨0, 0, 0⟩⟩
    parse "é$ \x7ba;b\x7d # c" ⟨true⟩ = .ok tree ∧ tree.Located "é$ \x7ba;b\x7d # c" := by
  intro literal inside tree
  have hparse : parse "é$ \x7ba;b\x7d # c" ⟨true⟩ = .ok tree := by
    cbv
  exact ⟨hparse, located_of_parse hparse⟩

end Parlance
