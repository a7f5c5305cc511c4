import Parlance.Proofs.Reading.Enclosed

/-!
# Blocks are faithful to their text

A block of a parsed script keeps its text, and that text is read as the script of the block again,
between braces anywhere else: it has the same lexemes there, and a reader of them alone ends with
the script.

    parse source ⟨false⟩ = .ok tree → block ∈ tree.blocks → Faithful block       (faithful_of_parse)
-/

namespace Parlance

open Parlance.Parser (Settles closes closedBlock)

/-! ## Lexemes of braces -/

theorem Lexeme.first_closeBlock {c : Char} {rest : List Char}
    (h : (first c rest).1.kind = .closeBlock) : (first c rest).1.sequence = ['}'] := by
  revert h
  unfold first
  split <;> intro h
  case h_2 =>
    unfold afterBackslash at h
    split at h <;> cases h
  case h_8 => rfl
  case h_14 =>
    split at h
    · cases h
    · unfold textRun at h
      split at h <;> cases h
  all_goals cases h

theorem sequence_of_closeBlock {text : List Char} {lexeme : Lexeme} (h : lexeme ∈ lexemes text)
    (hkind : lexeme.kind = .closeBlock) : lexeme.sequence = ['}'] := by
  induction text using lexemes.induct with
  | case1 =>
    rw [lexemes_nil] at h
    cases h
  | case2 c rest ih =>
    rw [lexemes_cons] at h
    rcases List.mem_cons.1 h with rfl | hrest
    · exact Lexeme.first_closeBlock hkind
    · exact ih hrest

/-- The lexemes before a brace do not depend on what follows it. -/
theorem lexemes_before_brace {source : List Char} {items rest : List Lexeme} {lexeme : Lexeme}
    (hsource : lexemes source = items ++ lexeme :: rest) (hkind : lexeme.kind = .closeBlock)
    (n : Nat) (more : List Char) :
    lexemes (covered (items.drop n) ++ '}' :: more) = items.drop n ++ lexemes ('}' :: more) := by
  have hmem : lexeme ∈ lexemes source := by
    rw [hsource]
    exact List.mem_append_right _ List.mem_cons_self
  have hbrace := sequence_of_closeBlock hmem hkind
  have hcover : source = covered (items.take n) ++ (covered (items.drop n) ++ '}' :: covered rest) := by
    have hall := covered_lexemes source
    rw [hsource, covered_append, covered_cons, hbrace] at hall
    rw [← List.append_assoc, ← covered_append, List.take_append_drop]
    exact hall.symm
  by_cases hle : n ≤ items.length
  · have htake : (lexemes source).take n = items.take n := by
      rw [hsource, List.take_append_of_le_length hle]
    have hdrop : lexemes (covered (items.drop n) ++ '}' :: covered rest) =
        items.drop n ++ lexeme :: rest := by
      rw [lexemes_drop (n := n) (by rw [← hcover, htake]), ← hcover, hsource,
        List.drop_append_of_le_length hle]
    have hlength : (lexemes (covered (items.drop n) ++ '}' :: covered rest)).take
        (items.drop n).length = items.drop n := by
      rw [hdrop, List.take_left]
    have hlocal : lexemes (covered (items.drop n) ++ '}' :: more) =
        (lexemes (covered (items.drop n) ++ '}' :: covered rest)).take (items.drop n).length ++
          lexemes ('}' :: more) :=
      lexemes_local (by rw [hlength]) (.inr rfl) (.inr (by simp))
    rw [hlocal, hlength]
  · have hnil : items.drop n = [] := List.drop_eq_nil_of_le (Nat.le_of_not_le hle)
    rw [hnil]
    rfl

namespace Reader

/-- A block whose text is read as its script wherever it stands between braces. -/
def Faithful (block : Block) : Prop :=
  ∃ items inner frame, covered items = block.2.toList ∧
    (∀ rest, lexemes (block.2.toList ++ '}' :: rest) = items ++ lexemes ('}' :: rest)) ∧
    start.readAll items = .ok inner ∧
    (∀ reading, Settles reading inner.stack [.sentences frame]) ∧ frame.finish = .ok block.1

/-- The text of the lexemes between two places in the log. -/
theorem text_between (before inside : List Lexeme) (more : Array String) :
    Parser.Reading.text (sequences (before ++ inside) ++ more) before.length
        (before ++ inside).length = String.ofList (covered inside) := by
  have hextract : ((sequences (before ++ inside) ++ more).extract before.length
      (before ++ inside).length).toList = inside.map fun lexeme => String.ofList lexeme.sequence := by
    rw [sequences, Array.toList_extract, Array.toList_append, List.extract_eq_take_drop, List.map_append,
      List.append_assoc, List.drop_left' (List.length_map _)]
    exact List.take_left' (by rw [List.length_map, List.length_append, Nat.add_sub_cancel_left])
  apply String.toList_injective
  rw [Parser.Reading.text, String.toList_join, hextract, List.flatMap_map, String.toList_ofList]
  simp only [String.toList_ofList]
  rfl

/-- The text of some lexemes in the log. -/
theorem text_sequences {items : List Lexeme} {n : Nat} (h : n ≤ items.length) (last : String) :
    (Parser.Reading.text ((sequences items).push last) n items.length).toList =
      covered (items.drop n) := by
  have htext := text_between (items.take n) (items.drop n) #[last]
  rw [List.take_append_drop, List.length_take_of_le h, ← Array.push_eq_append] at htext
  rw [htext, String.toList_ofList]

theorem moved_eq_sentences {frame : Frame} {offset : Nat} {base : Frame.Enclosure}
    {after : Frame.Sentences} (h : frame.moved offset base = .sentences after) :
    ∃ before, frame = .sentences before ∧ before.moved offset base = after := by
  cases frame with
  | sentences before => exact ⟨before, rfl, Frame.sentences.inj h⟩
  | _ => cases h

theorem moved_eq_quotePair {frame : Frame} {offset : Nat} {base : Frame.Enclosure}
    {openedAt : Position} {position : Option Position}
    (h : frame.moved offset base = .quotePair openedAt position) :
    ∃ before, frame = .quotePair before position := by
  cases frame with
  | quotePair before other =>
    cases h
    exact ⟨before, rfl⟩
  | _ => cases h

/-- A morpheme that was added to sentences was added to their open word. -/
theorem addMorpheme_eq_sentences {morpheme : Morpheme} {stack below : List Frame}
    {frame : Frame.Sentences} (h : Frame.addMorpheme morpheme stack = .ok (.sentences frame :: below)) :
    ∃ old, stack = .sentences old :: below ∧ old.pushMorpheme morpheme = .ok frame := by
  unfold Frame.addMorpheme at h
  split at h
  · obtain ⟨new, hnew, heq⟩ := map_eq_ok h
    obtain ⟨hframe, rfl⟩ := List.cons.inj heq
    rw [Frame.sentences.inj hframe] at hnew
    exact ⟨_, rfl, hnew⟩
  · cases h
  · cases h

/-- The reader inside a bracket that is about to be closed has its script. -/
theorem ends_inside {items : List Lexeme} {reader : Reader} {reading : Parser.Reading}
    {frame : Frame.Sentences} {below : List Frame} (ht : Traced items reader.stack)
    (hkind : reading.token.kind ≠ .newline) (hframe : frame.enclosure ≠ .root)
    (hsettles : Settles reading reader.stack (.sentences frame :: below)) :
    frame.textStart ≤ items.length ∧
      ∃ inner inside, start.readAll (items.drop frame.textStart) = .ok inner ∧
        (∀ reading, Settles reading inner.stack [.sentences inside]) ∧
        inside.finish = frame.finish := by
  generalize hstack : reader.stack = stack at hsettles
  cases hsettles with
  | keep =>
    obtain ⟨hle, inner, hinner, hinnerStack⟩ := ht [] frame below hstack hframe
    obtain ⟨first, rest, hcons, hfirst, hrest⟩ := List.map_eq_cons_iff.1 hinnerStack
    obtain ⟨inside, rfl, hinside⟩ := moved_eq_sentences hfirst
    rw [List.map_eq_nil_iff.1 hrest] at hcons
    refine ⟨hle, inner, inside, hinner, fun reading => ?_, ?_⟩
    · rw [hcons]
      exact .keep _
    · rw [← hinside, Frame.Sentences.finish_moved]
  | @pair openedAt position outer _ hadd =>
    obtain ⟨old, rfl, hpush⟩ := addMorpheme_eq_sentences hadd
    obtain ⟨henclosure, hstart, -⟩ := Frame.Role.sentences.inj (Parser.role_editWord hpush)
    rw [henclosure] at hframe
    obtain ⟨hle, inner, hinner, hinnerStack⟩ :=
      ht [.quotePair openedAt position] old below hstack hframe
    obtain ⟨first, rest, hcons, hfirst, hrest⟩ := List.map_eq_cons_iff.1 hinnerStack
    obtain ⟨second, rest', hcons', hsecond, hrest'⟩ := List.map_eq_cons_iff.1 hrest
    obtain ⟨inside, rfl, hinside⟩ := moved_eq_sentences hsecond
    rw [List.map_eq_nil_iff.1 hrest'] at hcons'
    rw [hcons'] at hcons
    rw [← hinside, Frame.Sentences.pushMorpheme_moved] at hpush
    obtain ⟨closed, hclosed, hmoved⟩ := map_eq_ok hpush
    obtain ⟨openedAt', rfl⟩ := moved_eq_quotePair hfirst
    rw [← hstart] at hle
    refine ⟨hle, inner, closed, ?_, fun reading => ?_, ?_⟩
    · rw [hstart]
      exact hinner
    · rw [hcons]
      refine .pair ?_
      rw [Frame.addMorpheme, hclosed]
      rfl
    · rw [← hmoved, Frame.Sentences.finish_moved]
  | comment hnewline => exact absurd hnewline hkind

/-! ## The blocks of a parsed script -/

/-- A block that is closed is faithful. -/
theorem faithful_of_closed {source : List Char} {items rest : List Lexeme} {lexeme : Lexeme}
    (hsource : lexemes source = items ++ lexeme :: rest) {reader : Reader}
    (hlog : reader.log = sequences items) (ht : Traced items reader.stack) {top : Frame}
    {below : List Frame} (hsettles : Settles (reader.reading lexeme) reader.stack (top :: below))
    {block : Block} (hblock : block ∈ closedBlock (reader.reading lexeme) top) : Faithful block := by
  unfold closedBlock at hblock
  split at hblock
  · rename_i frame
    split at hblock
    · rename_i script hkind hframe hfinish
      have hlexeme : lexeme.kind = .closeBlock := hkind
      have hroot : frame.enclosure ≠ .root := by
        rw [hframe]
        decide
      have hnewline : (reader.reading lexeme).token.kind ≠ .newline := by
        rw [hkind]
        decide
      obtain ⟨hle, inner, inside, hinner, hends, hfinish'⟩ := ends_inside ht hnewline hroot hsettles
      have hbefore : (reader.reading lexeme).before = items.length := by
        rw [before_reading, hlog, size_sequences]
      have htext : (Parser.Reading.text (reader.reading lexeme).log frame.textStart
          (reader.reading lexeme).before).toList = covered (items.drop frame.textStart) := by
        rw [hbefore]
        show (Parser.Reading.text (reader.log.push _) _ _).toList = _
        rw [hlog]
        exact text_sequences hle _
      rw [List.mem_singleton] at hblock
      subst hblock
      refine ⟨items.drop frame.textStart, inner, inside, htext.symm, fun more => ?_, hinner, hends, ?_⟩
      · rw [htext]
        exact lexemes_before_brace hsource hlexeme frame.textStart more
      · rw [hfinish', hfinish]
    · cases hblock
  · cases hblock

/-- What is known of a reader within a text: its log, its open brackets and its blocks. -/
structure Keeps (items : List Lexeme) (reader : Reader) : Prop where
  log : reader.log = sequences items
  traced : Traced items reader.stack
  blocks : ∀ frame ∈ reader.stack, ∀ block ∈ frame.blocks, Faithful block

theorem keeps_start : Keeps [] start := by
  refine ⟨rfl, traced_start, fun frame hframe block hblock => ?_⟩
  rw [List.mem_singleton.1 hframe] at hblock
  cases hblock

variable {source : List Char} {items rest : List Lexeme}

theorem Keeps.next {reader after : Reader} {lexeme : Lexeme} (hk : Keeps items reader)
    (hsource : lexemes source = items ++ lexeme :: rest) (h : reader.next lexeme = .ok after) :
    Keeps (items ++ [lexeme]) after := by
  obtain ⟨hread, hlog, -⟩ := next_eq_ok h
  refine ⟨by rw [hlog, hk.log, sequences_append], hk.traced.next hk.log h, ?_⟩
  obtain ⟨settled, hsettles, heffect⟩ := Parser.read_effect hread
  have hsettled : ∀ frame ∈ settled, ∀ block ∈ frame.blocks, Faithful block := by
    rcases hsettles.eq_or with heq | ⟨ended, outer, new, below, hstack, rfl, -, -, hblocks⟩
    · rw [heq]
      exact hk.blocks
    · have hold := hk.blocks
      rw [hstack] at hold
      simp only [List.forall_mem_cons] at hold ⊢
      exact ⟨fun block hblock => hold.2.1 block (hblocks hblock), hold.2.2⟩
  generalize after.stack = stack at heffect
  cases heffect with
  | change hrole hblocks =>
    simp only [List.forall_mem_cons] at hsettled ⊢
    exact ⟨fun block hblock => hsettled.1 block (hblocks hblock), hsettled.2⟩
  | opening hrole hblocks hopens =>
    simp only [List.forall_mem_cons] at hsettled ⊢
    refine ⟨fun block hblock => ?_, fun block hblock => hsettled.1 block (hblocks hblock), hsettled.2⟩
    rcases hopens with ⟨enclosure, -, -, rfl⟩ | ⟨-, hnil, -⟩
    · cases hblock
    · rw [hnil] at hblock
      cases hblock
  | closing hkind hrole hblocks =>
    simp only [List.forall_mem_cons] at hsettled ⊢
    refine ⟨fun block hblock => ?_, hsettled.2.2⟩
    rcases List.mem_append.1 (hblocks hblock) with hnew | houter
    · rcases List.mem_append.1 hnew with hclosed | htop
      · exact faithful_of_closed hsource hk.log hk.traced hsettles hclosed
      · exact hsettled.1 block htop
    · exact hsettled.2.1 block houter

theorem Keeps.readAll {reader after : Reader} (hk : Keeps items reader)
    (hsource : lexemes source = items ++ rest) (h : reader.readAll rest = .ok after) :
    Keeps (items ++ rest) after := by
  induction rest generalizing items reader with
  | nil =>
    cases h
    rw [List.append_nil]
    exact hk
  | cons lexeme rest ih =>
    obtain ⟨next, hnext, hrest⟩ := readAll_cons_eq_ok h
    have hmore := ih (hk.next hsource hnext) (by rw [List.append_assoc]; exact hsource) hrest
    rw [List.append_assoc] at hmore
    exact hmore

/-- The blocks of a script are those of the frames that it ends with. -/
theorem blocks_of_close {reader : Reader} {script : Script} (h : reader.close = .ok script) :
    ∀ block ∈ script.blocks, ∃ frame ∈ reader.stack, block ∈ frame.blocks := by
  obtain ⟨stack, hinner, hclosed⟩ := bind_eq_ok (finish_of_close h)
  intro block hblock
  split at hclosed
  · rename_i frame
    have hframe : block ∈ (Frame.sentences frame).blocks :=
      Frame.Sentences.blocks_finish hclosed hblock
    have hadd : ∀ {morpheme : Morpheme} {below : List Frame}, morpheme.kind.blocks = [] →
        Frame.addMorpheme morpheme below = .ok [.sentences frame] →
        ∃ frame ∈ below, block ∈ frame.blocks := by
      intro morpheme below hnil hmorpheme
      obtain ⟨outer, after, tail, rfl, heq, -, hblocks⟩ := Parser.addMorpheme_eq_ok hmorpheme
      obtain ⟨rfl, -⟩ := List.cons.inj heq
      rw [hnil, List.nil_append] at hblocks
      exact ⟨outer, List.mem_cons_self, hblocks hframe⟩
    generalize reader.stack = stack at hinner
    unfold Parser.closeInnermost at hinner
    split at hinner
    · obtain ⟨frame, hmem, hframe⟩ := hadd rfl hinner
      exact ⟨frame, List.mem_cons_of_mem _ hmem, hframe⟩
    · obtain ⟨frame, hmem, hframe⟩ := hadd rfl hinner
      exact ⟨frame, List.mem_cons_of_mem _ hmem, hframe⟩
    · rw [Except.ok.inj hinner]
      exact ⟨_, List.mem_cons_self, hframe⟩
  · cases hclosed

/-- The blocks of a parsed script are faithful. -/
theorem faithful_of_parse {source : String} {script : Script}
    (h : Parlance.parse source ⟨false⟩ = .ok script) {block : Block} (hblock : block ∈ script.blocks) :
    Faithful block := by
  obtain ⟨reader, hread, hclose⟩ := bind_eq_ok (parse_eq_ok.1 h)
  have hkeeps := keeps_start.readAll (List.nil_append _).symm hread
  obtain ⟨frame, hframe, hmem⟩ := blocks_of_close hclose block hblock
  exact hkeeps.blocks frame hframe block hmem

end Reader

end Parlance
