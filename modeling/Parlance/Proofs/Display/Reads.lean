import Parlance.Proofs.Reading.Faithful

/-!
# What a text does before any other text

A text that stands before others takes the open frames to other frames and leaves the rest to be
read (`Reads`).  In a list of sentences it adds morphemes to the open word (`Adds`), if what follows
can stand after a word; in brackets it is the content of a script (`Content`).

    Reads s (t ++ rest) a b → Reads t rest b c → Reads (s ++ t) rest a c              (Reads.trans)
    Content e text script → Adds before (e.opening :: text ++ [e.closing])
      (before ++ [⟨e.morpheme script text, none⟩])                                 (adds_brackets)
    Faithful (script, text) → Content .block text script                     (content_of_faithful)
-/

namespace Parlance

open Parlance.Parser (read)

namespace Reader

/-! ## Texts before others -/

/-- The text `text` before `rest` takes the frames `stack` to `after`. -/
def Reads (text rest : List Char) (stack after : List Frame) : Prop :=
  ∀ log latest, latest ≠ some .continuation → ∃ more latest',
    (String.join more.toList).toList = text ∧ latest' ≠ some .continuation ∧
      parse (text ++ rest) ⟨log, stack, latest⟩ = parse rest ⟨log ++ more, after, latest'⟩

/-- What can follow a word: nothing, a separator, a closing bracket or a selector. -/
def Stops (rest : List Char) : Prop :=
  ∀ c, rest.head? = some c → c ∈ [' ', ';', ')', '}', ']', '(', '{', '[']

theorem stops_nil : Stops [] := by
  intro c hc
  cases hc

theorem stops_cons {c : Char} (h : c ∈ [' ', ';', ')', '}', ']', '(', '{', '[']) (rest : List Char) :
    Stops (c :: rest) := by
  intro d hd
  cases hd
  exact h

theorem toList_join_append (first second : Array String) :
    (String.join (first ++ second).toList).toList =
      (String.join first.toList).toList ++ (String.join second.toList).toList := by
  rw [Array.toList_append, String.toList_join, List.flatMap_append, ← String.toList_join,
    ← String.toList_join]

theorem toList_join_single (text : List Char) :
    (String.join #[String.ofList text].toList).toList = text := by
  rw [String.toList_join, List.flatMap_singleton, String.toList_ofList]

variable {text rest : List Char} {stack middle after below : List Frame} {lexeme : Lexeme}

theorem Reads.refl (rest : List Char) (stack : List Frame) : Reads [] rest stack stack := by
  intro log latest hlatest
  refine ⟨#[], latest, rfl, hlatest, ?_⟩
  rw [Array.append_empty]
  rfl

theorem Reads.trans {more : List Char} (first : Reads text (more ++ rest) stack middle)
    (second : Reads more rest middle after) : Reads (text ++ more) rest stack after := by
  intro log latest hlatest
  obtain ⟨before, latest', htext, hlatest', hfirst⟩ := first log latest hlatest
  obtain ⟨next, latest'', hmore, hlatest'', hsecond⟩ := second (log ++ before) latest' hlatest'
  refine ⟨before ++ next, latest'', ?_, hlatest'', ?_⟩
  · rw [toList_join_append, htext, hmore]
  · rw [List.append_assoc, hfirst, hsecond, Array.append_assoc]

/-- A single lexeme. -/
theorem parse_lexeme (reader : Reader) {c : Char} {more : List Char}
    (hfirst : Lexeme.first c (more ++ rest) = (lexeme, rest))
    (hread : read (reader.reading lexeme) reader.stack = .ok after) :
    lexeme.sequence = c :: more ∧ reader.parse (c :: more ++ rest) =
      parse rest ⟨reader.log ++ #[String.ofList lexeme.sequence], after, some lexeme.kind⟩ := by
  have hcover := Lexeme.sequence_append_first c (more ++ rest)
  rw [hfirst] at hcover
  refine ⟨List.append_cancel_right hcover, ?_⟩
  rw [List.cons_append, parse_cons hfirst (next_of_read hread)]
  rfl

/-- A single lexeme that has the same effect whatever stands before it. -/
theorem reads_lexeme {c : Char} {more : List Char}
    (hfirst : Lexeme.first c (more ++ rest) = (lexeme, rest))
    (hkind : lexeme.kind ≠ .continuation)
    (hread : ∀ log, read ⟨⟨false⟩, lexeme.toToken .start, log⟩ stack = .ok after) :
    Reads (c :: more) rest stack after := by
  intro log latest hlatest
  have hone := parse_lexeme ⟨log, stack, latest⟩ hfirst (hread _)
  refine ⟨#[String.ofList lexeme.sequence], some lexeme.kind, ?_, fun h => hkind (Option.some.inj h),
    hone.2⟩
  rw [toList_join_single, hone.1]

/-- The first lexeme of what can follow a word is no text. -/
theorem kind_of_stops {c : Char} {more : List Char} (h : Stops (c :: more)) :
    (Lexeme.first c more).1.kind ≠ .text := by
  have hc := h c rfl
  simp only [List.mem_cons, List.not_mem_nil, or_false] at hc
  rcases hc with rfl | rfl | rfl | rfl | rfl | rfl | rfl | rfl <;> exact fun h => by cases h

/-- An empty string ends before what can follow a word. -/
theorem reads_pair {frame : Frame.Sentences} (h : Stops rest)
    (hadd : Frame.addMorpheme ⟨.string [], none⟩ stack = .ok (.sentences frame :: below)) :
    Reads [] rest (.quotePair .start none :: stack) (.sentences frame :: below) := by
  intro log latest hlatest
  refine ⟨#[], latest, rfl, hlatest, ?_⟩
  rw [Array.append_empty, List.nil_append]
  cases rest with
  | nil =>
    have hunclosed : Parser.unclosedFrame stack =
        Parser.unclosedFrame (.sentences frame :: below) := by
      unfold Frame.addMorpheme at hadd
      split at hadd
      · rename_i old outer
        obtain ⟨new, hnew, heq⟩ := map_eq_ok hadd
        obtain ⟨hframe, rfl⟩ := List.cons.inj heq
        cases hframe
        unfold Frame.Sentences.pushMorpheme Frame.Sentences.editWord at hnew
        dsimp only at hnew
        split at hnew
        · cases hnew
        · cases hnew
          rfl
      · cases hadd
      · cases hadd
    have hinner : ∀ log, Parser.closeInnermost log (.quotePair .start none :: stack) =
        Parser.closeInnermost log (.sentences frame :: below) := fun log => hadd
    rw [parse_nil, parse_nil, close, close]
    dsimp only
    rw [Parser.unclosedFrame, hunclosed, Parser.finish, hinner]
    rfl
  | cons c more =>
    have hnext : next (Lexeme.first c more).1 ⟨log, .quotePair .start none :: stack, latest⟩ =
        next (Lexeme.first c more).1 ⟨log, .sentences frame :: below, latest⟩ := by
      have hread : ∀ reading : Parser.Reading, reading.token.kind ≠ .text →
          read reading (.quotePair .start none :: stack) =
            read reading (.sentences frame :: below) := by
        intro reading hkind
        unfold Parser.read
        dsimp only
        rw [if_neg hkind, hadd]
        rfl
      unfold next
      dsimp only
      rw [show reading (Lexeme.first c more).1 ⟨log, .quotePair .start none :: stack, latest⟩ =
        reading (Lexeme.first c more).1 ⟨log, .sentences frame :: below, latest⟩ from rfl,
        hread _ (kind_of_stops h)]
      rfl
    rw [parse, parse, lexemes_cons, readAll, readAll, hnext]

/-! ## Words and brackets -/

end Reader

/-- The draft of some morphemes, without a marker. -/
def Draft.of (morphemes : List Morpheme) : Draft := ⟨morphemes.reverse, .nothing⟩

/-- Sentences whose open word has some morphemes; without any there is no word. -/
def Frame.Sentences.holding (morphemes : List Morpheme) (frame : Sentences) : Sentences :=
  { frame with word := if morphemes.isEmpty then none else some ⟨.of morphemes, none⟩ }

namespace Reader

/-- The text `text` adds to the morphemes of the open word, wherever it stands. -/
def Adds (before : List Morpheme) (text : List Char) (after : List Morpheme) : Prop :=
  ∀ (frame : Frame.Sentences) (below : List Frame) (rest : List Char), Stops rest →
    Reads text rest (.sentences (frame.holding before) :: below)
      (.sentences (frame.holding after) :: below)

/-- The text `text` is the content of a script in brackets. -/
def Content (enclosure : Frame.Enclosure) (text : List Char) (script : Script) : Prop :=
  ∀ log below rest latest, latest ≠ some .continuation →
    ∃ more frame latest', (String.join more.toList).toList = text ∧
      frame.enclosure = enclosure ∧ frame.textStart = log.size ∧ frame.position = none ∧
      frame.finish = .ok script ∧
      parse (text ++ enclosure.closing :: rest)
          ⟨log, .sentences (.start enclosure .start none log.size) :: below, latest⟩ =
        parse (enclosure.closing :: rest) ⟨log ++ more, .sentences frame :: below, latest'⟩

end Reader

/-! ### Open words -/

section Holding

variable {frame : Frame.Sentences} {before : List Morpheme}

/-- A word that does not end with a string can be edited. -/
theorem Frame.Sentences.editWord_of (hword : frame.word.getD ⟨.empty, none⟩ = ⟨.of before, none⟩)
    (hlast : ∀ last, before.getLast? = some last → last.kind.isString = false)
    (edit : Draft → Draft) :
    frame.editWord none edit = .ok { frame with word := some ⟨edit (.of before), none⟩ } := by
  have hstring : (Draft.of before).endsWithString = false := by
    unfold Draft.endsWithString Draft.of
    dsimp only
    split
    · rename_i last rest hreverse
      refine hlast last ?_
      rw [← List.head?_reverse, hreverse]
      rfl
    · rfl
  unfold editWord
  rw [hword]
  dsimp only
  rw [hstring]
  rfl

theorem Frame.Sentences.getD_holding (frame : Sentences) (morphemes : List Morpheme) :
    (frame.holding morphemes).word.getD ⟨.empty, none⟩ = ⟨.of morphemes, none⟩ := by
  cases morphemes <;> rfl

theorem Frame.Sentences.holding_append (frame : Sentences) (before : List Morpheme)
    (morpheme : Morpheme) :
    frame.holding (before ++ [morpheme]) =
      { frame with word := some ⟨.of (before ++ [morpheme]), none⟩ } := by
  unfold holding
  rw [if_neg (by simp)]

theorem Draft.push_of (morpheme : Morpheme) (morphemes : List Morpheme) :
    (Draft.of morphemes).push morpheme = .of (morphemes ++ [morpheme]) := by
  unfold push of
  rw [List.reverse_append]
  rfl

/-- A morpheme that is added to the open word. -/
theorem Frame.Sentences.pushMorpheme_of
    (hword : frame.word.getD ⟨.empty, none⟩ = ⟨.of before, none⟩)
    (hlast : ∀ last, before.getLast? = some last → last.kind.isString = false)
    (kind : Morpheme.Kind) :
    frame.pushMorpheme ⟨kind, none⟩ = .ok (frame.holding (before ++ [⟨kind, none⟩])) := by
  unfold pushMorpheme
  rw [editWord_of hword hlast, Draft.push_of, holding_append]

end Holding

/-! ### Brackets -/

namespace Reader

/-- The token of a bracket that opens. -/
def opener (enclosure : Frame.Enclosure) : Lexeme :=
  .verbatim (match enclosure with
    | .root | .tuple => .openTuple
    | .block => .openBlock
    | .expression => .openExpression) [enclosure.opening]

/-- The token of a bracket that closes. -/
def closer (enclosure : Frame.Enclosure) : Lexeme :=
  .verbatim (match enclosure with
    | .root | .tuple => .closeTuple
    | .block => .closeBlock
    | .expression => .closeExpression) [enclosure.closing]

theorem first_opening (enclosure : Frame.Enclosure) (rest : List Char) :
    Lexeme.first enclosure.opening ([] ++ rest) = (opener enclosure, rest) := by
  cases enclosure <;> rfl

theorem first_closing (enclosure : Frame.Enclosure) (rest : List Char) :
    Lexeme.first enclosure.closing ([] ++ rest) = (closer enclosure, rest) := by
  cases enclosure <;> rfl

variable {enclosure : Frame.Enclosure} {before : List Morpheme} {below : List Frame}
  {frame : Frame.Sentences}

/-- A bracket opens within the open word. -/
theorem read_opener (henclosure : enclosure ≠ .root)
    (hword : frame.word.getD ⟨.empty, none⟩ = ⟨.of before, none⟩)
    (hlast : ∀ last, before.getLast? = some last → last.kind.isString = false)
    (log : Array String) :
    read ⟨⟨false⟩, (opener enclosure).toToken .start, log⟩ (.sentences frame :: below) =
      .ok (.sentences (.start enclosure .start none log.size) ::
        .sentences { frame with word := some ⟨.of before, none⟩ } :: below) := by
  have hedit := Frame.Sentences.editWord_of hword hlast id
  have hopen : ∀ enclosure, ((frame.editWord none id).map fun frame => Parser.openBracket
      ⟨⟨false⟩, (opener enclosure).toToken .start, log⟩ enclosure (.sentences frame :: below)) =
      .ok (.sentences (.start enclosure .start none log.size) ::
        .sentences { frame with word := some ⟨.of before, none⟩ } :: below) := by
    intro enclosure
    rw [hedit]
    rfl
  cases enclosure with
  | root => exact absurd rfl henclosure
  | tuple => exact hopen .tuple
  | block => exact hopen .block
  | expression => exact hopen .expression

/-- The text of the tokens between some before and some after them. -/
theorem text_append (log more after : Array String) :
    Parser.Reading.text (log ++ more ++ after) log.size (log ++ more).size = String.join more.toList := by
  unfold Parser.Reading.text
  congr 1
  rw [Array.toList_extract, Array.toList_append, Array.toList_append, List.extract_eq_take_drop,
    List.append_assoc, List.drop_left' Array.length_toList, Array.size_append, Nat.add_sub_cancel_left,
    List.take_left' Array.length_toList]

/-- A closing bracket makes a morpheme of the script that was read. -/
theorem read_closer {inner : Frame.Sentences} {script : Script} {log more : Array String}
    {last : String} (henclosure : enclosure ≠ .root) (hinner : inner.enclosure = enclosure)
    (hstart : inner.textStart = log.size) (hposition : inner.position = none)
    (hfinish : inner.finish = .ok script)
    (hword : frame.word.getD ⟨.empty, none⟩ = ⟨.of before, none⟩)
    (hlast : ∀ last, before.getLast? = some last → last.kind.isString = false) :
    read ⟨⟨false⟩, (closer enclosure).toToken .start, (log ++ more).push last⟩
        (.sentences inner :: .sentences frame :: below) =
      .ok (.sentences (frame.holding (before ++
        [⟨enclosure.kind script (String.join more.toList), none⟩])) :: below) := by
  have htext : Parser.Reading.text ((log ++ more).push last) log.size (log ++ more).size =
      String.join more.toList := by
    rw [Array.push_eq_append]
    exact text_append log more #[last]
  have hbefore : Parser.Reading.before
      ⟨⟨false⟩, (closer enclosure).toToken .start, (log ++ more).push last⟩ = (log ++ more).size := by
    show ((log ++ more).push last).size - 1 = _
    rw [Array.size_push]
    rfl
  have hadd : ∀ kind : Morpheme.Kind, Frame.addMorpheme ⟨kind, none⟩ (.sentences frame :: below) =
      .ok (.sentences (frame.holding (before ++ [⟨kind, none⟩])) :: below) := by
    intro kind
    rw [Frame.addMorpheme, Frame.Sentences.pushMorpheme_of hword hlast]
    rfl
  have hclose : Parser.closeBracket
      ⟨⟨false⟩, (closer enclosure).toToken .start, (log ++ more).push last⟩ inner
        (.sentences frame :: below) =
      .ok (.sentences (frame.holding (before ++
        [⟨enclosure.kind script (String.join more.toList), none⟩])) :: below) := by
    unfold Parser.closeBracket
    rw [hfinish, hbefore, hstart, hposition, hinner]
    dsimp only [Except.bind]
    rw [htext]
    cases enclosure with
    | root => exact absurd rfl henclosure
    | tuple | block | expression => exact hadd _
  cases enclosure with
  | root => exact absurd rfl henclosure
  | tuple | block | expression =>
    show Parser.matchBracket _ _ inner (.sentences frame :: below) = _
    unfold Parser.matchBracket
    rw [hinner]
    exact hclose

/-- The content of a script, in its brackets, is a morpheme of the open word. -/
theorem adds_brackets (henclosure : enclosure ≠ .root) {text : List Char} {script : Script}
    (hcontent : Content enclosure text script)
    (hlast : ∀ last, before.getLast? = some last → last.kind.isString = false) :
    Adds before (enclosure.opening :: text ++ [enclosure.closing])
      (before ++ [⟨enclosure.kind script (String.ofList text), none⟩]) := by
  intro frame below rest hrest log latest hlatest
  have hopen := parse_lexeme ⟨log, .sentences (frame.holding before) :: below, latest⟩
    (first_opening enclosure (text ++ enclosure.closing :: rest))
    (read_opener henclosure (frame.getD_holding before) hlast _)
  have hkind : some (opener enclosure).kind ≠ some .continuation := by
    cases enclosure <;> decide
  obtain ⟨more, inner, latest', hmore, hinner, hstart, hposition, hfinish, hparse⟩ :=
    hcontent (log ++ #[String.ofList (opener enclosure).sequence])
      (.sentences { frame with word := some ⟨.of before, none⟩ } :: below) rest _ hkind
  have hclose := parse_lexeme
    ⟨log ++ #[String.ofList (opener enclosure).sequence] ++ more,
      .sentences inner :: .sentences { frame with word := some ⟨.of before, none⟩ } :: below, latest'⟩
    (first_closing enclosure rest)
    (read_closer henclosure hinner hstart hposition hfinish rfl hlast)
  have htext : String.join more.toList = String.ofList text := by
    rw [← hmore, String.ofList_toList]
  refine ⟨#[String.ofList (opener enclosure).sequence] ++ more ++
    #[String.ofList (closer enclosure).sequence], some (closer enclosure).kind, ?_, ?_, ?_⟩
  · rw [toList_join_append, toList_join_append, toList_join_single, toList_join_single, hmore,
      hopen.1, hclose.1]
    rfl
  · cases enclosure <;> decide
  · have htexts : enclosure.opening :: text ++ [enclosure.closing] ++ rest =
        [enclosure.opening] ++ (text ++ enclosure.closing :: rest) := by
      simp
    rw [← Array.append_assoc, ← Array.append_assoc, ← htext, htexts]
    exact hopen.2.trans (hparse.trans hclose.2)

/-- A text that is read alone, and whose frames settle to its script, is the content of that script
between brackets that leave its lexemes as they are. -/
theorem content_of_readAll {items : List Lexeme} {text : List Char}
    {inner : Reader} {script : Script} (hcovered : covered items = text)
    (hlexemes : ∀ rest, lexemes (text ++ enclosure.closing :: rest) =
      items ++ lexemes (enclosure.closing :: rest))
    (hinner : start.readAll items = .ok inner)
    (hends : ∀ reading, Parser.Settles reading inner.stack [.sentences frame])
    (hfinish : frame.finish = .ok script) : Content enclosure text script := by
  intro log below rest latest hlatest
  have hstacked := stacked_of_readAll hinner (.root rfl)
  have hrole : (Frame.sentences frame).role = .sentences .root 0 none := by
    cases (hends (inner.reading (closer enclosure))).stacked hstacked with
    | root hrole => exact hrole
  obtain ⟨hroot, hstart, hposition⟩ := Frame.Role.sentences.inj hrole
  obtain ⟨latest', hread⟩ := readAll_moved log enclosure below (.root rfl) hinner latest
  have hfirst : ({ start.moved log enclosure below with latest := latest } : Reader) =
      ⟨log, .sentences (.start enclosure .start none log.size) :: below, latest⟩ := by
    have hmoved : (Frame.Sentences.start .root .start none 0).moved log.size enclosure =
        .start enclosure .start none log.size := by
      simp only [Frame.Sentences.moved, Frame.Sentences.start, if_true, Nat.zero_add]
    show (⟨log ++ #[], .sentences ((Frame.Sentences.start .root .start none 0).moved log.size
      enclosure) :: below, latest⟩ : Reader) = _
    rw [hmoved, Array.append_empty]
  have hlog : inner.log = sequences items := by
    rw [log_of_readAll hinner]
    exact Array.empty_append
  -- The frames settle at the closing bracket, so it finds the script alone.
  have hnext : next (closer enclosure) { inner.moved log enclosure below with latest := latest' } =
      next (closer enclosure)
        ⟨log ++ inner.log, .sentences (frame.moved log.size enclosure) :: below, latest'⟩ := by
    obtain ⟨delimiter, hcloses⟩ : ∃ delimiter,
        Parser.closes (closer enclosure).kind = some delimiter := by
      cases enclosure <;> exact ⟨_, rfl⟩
    have hsettles := (hends (inner.reading (closer enclosure))).moved log enclosure below hstacked
      hcloses
    rw [← reading_moved log enclosure below] at hsettles
    have hcloses' : Parser.closes ((inner.moved log enclosure below).reading
        (closer enclosure)).token.kind = some delimiter := hcloses
    have hmovedRead := Parser.read_of_closes hcloses' hsettles
    have hsettledRead := Parser.read_of_closes hcloses' (.keep
      (.sentences (frame.moved log.size enclosure) :: below))
    exact congrArg (Except.map _) (hmovedRead.trans hsettledRead.symm)
  refine ⟨inner.log, frame.moved log.size enclosure, latest', ?_, ?_, ?_, hposition, ?_, ?_⟩
  · rw [hlog, ← hcovered, sequences, String.toList_join, List.flatMap_map]
    simp only [String.toList_ofList]
    rfl
  · exact if_pos hroot
  · show frame.textStart + log.size = log.size
    rw [hstart, Nat.zero_add]
  · rw [Frame.Sentences.finish_moved]
    exact hfinish
  · show (readAll (lexemes (text ++ enclosure.closing :: rest)) _).bind close =
      (readAll (lexemes (enclosure.closing :: rest)) _).bind close
    have hcloser : lexemes (enclosure.closing :: rest) = closer enclosure :: lexemes rest := by
      rw [lexemes_cons]
      exact congrArg (fun first => first.1 :: lexemes first.2) (first_closing enclosure rest)
    rw [hlexemes rest, readAll_append, ← hfirst, hread, hcloser]
    show (readAll (closer enclosure :: lexemes rest) _).bind close = _
    rw [readAll, readAll, hnext]

/-- The text of a faithful block is the content of its script. -/
theorem content_of_faithful {script : Script} {text : String} (h : Faithful (script, text)) :
    Content .block text.toList script := by
  obtain ⟨items, inner, frame, hcovered, hlexemes, hinner, hends, hfinish⟩ := h
  exact content_of_readAll hcovered hlexemes hinner hends hfinish

end Reader

end Parlance
