import Parlance.Proofs.Reading.Reader

/-!
# Brackets that are read as texts of their own

What stands in a bracket is read as a whole text with the same tokens would be, until its closing
bracket comes.  So the frames that are open in a bracket are those of another reader, moved
(`Traced`); a closing bracket is one that this other reader has nothing to match with.

    Traced items r.stack → r.next l = .ok r' → Traced (items ++ [l]) r'.stack          (Traced.next)
    r.readAll items = .ok r' → the moved reader of r comes to the moved reader of r'  (readAll_moved)
-/

namespace Parlance

open Parlance.Frame (Stacked)

/-! ## Closing brackets -/

namespace Parser

variable {reading : Reading} {delimiter : Delimiter}

theorem readInSentences_of_closes (h : closes reading.token.kind = some delimiter)
    (frame : Frame.Sentences) (below : List Frame) :
    readInSentences reading frame below = matchBracket reading delimiter frame below := by
  unfold readInSentences
  dsimp only
  cases hkind : reading.token.kind <;> rw [hkind] at h <;> cases h <;> rfl

/-- A closing bracket among sentences, or after an empty string. -/
theorem read_of_closes (h : closes reading.token.kind = some delimiter) {stack below : List Frame}
    {frame : Frame.Sentences} (hsettles : Settles reading stack (.sentences frame :: below)) :
    read reading stack = matchBracket reading delimiter frame below := by
  cases hsettles with
  | keep => exact readInSentences_of_closes h frame below
  | pair hadd =>
    have hkind : reading.token.kind ≠ .text := by
      intro hkind
      rw [hkind] at h
      cases h
    unfold read
    dsimp only
    rw [if_neg hkind, hadd]
    exact readInSentences_of_closes h frame below
  | comment hnewline => exact absurd hnewline (ne_newline_of_closes h)

/-- A bracket that closes makes a morpheme of the frame below. -/
theorem length_of_matchBracket {frame : Frame.Sentences} {below stack : List Frame}
    (h : matchBracket reading delimiter frame below = .ok stack) : stack.length = below.length := by
  unfold matchBracket at h
  split at h
  · cases h
  split at h
  · obtain ⟨script, -, h⟩ := bind_eq_ok h
    have hadd : ∃ morpheme, Frame.addMorpheme morpheme below = .ok stack := by
      split at h
      · cases h
      all_goals exact ⟨_, h⟩
    obtain ⟨morpheme, hadd⟩ := hadd
    obtain ⟨outer, after, rest, rfl, rfl, -⟩ := addMorpheme_eq_ok hadd
    rfl
  · cases h

/-- Nothing closes the whole script. -/
theorem not_settles_of_read {stack after : List Frame} (hstack : Stacked stack)
    (h : read reading stack = .ok after) :
    closes reading.token.kind = none ∨ ∀ frame, ¬ Settles reading stack [.sentences frame] := by
  cases hcloses : closes reading.token.kind with
  | none => exact .inl rfl
  | some delimiter =>
    refine .inr fun frame hsettles => ?_
    have hroot := hsettles.stacked hstack
    rw [read_of_closes hcloses hsettles] at h
    have hlength := length_of_matchBracket h
    unfold matchBracket at h
    cases hroot with
    | root hrole =>
      rw [(Frame.Role.sentences.inj hrole).1] at h
      cases h

theorem Settles.moved (before : Array String) (base : Frame.Enclosure) (below : List Frame)
    {stack settled : List Frame} (hstack : Stacked stack)
    (hcloses : closes reading.token.kind = some delimiter) (h : Settles reading stack settled) :
    Settles (reading.moved before) (Frame.move before.size base below stack)
      (Frame.move before.size base below settled) := by
  cases h with
  | keep => exact .keep _
  | pair hadd =>
    refine .pair ?_
    have hne := hstack.below_ne_nil (by rintro ⟨⟩)
    show Frame.addMorpheme _ (Frame.move before.size base below _) = _
    rw [Frame.addMorpheme_move _ hne, hadd]
    rfl
  | comment hnewline => exact absurd hnewline (ne_newline_of_closes hcloses)

end Parser

/-! ## Brackets that are open -/

namespace Reader

variable {reader after : Reader} {lexeme : Lexeme}

/-- The sequences of lexemes. -/
def sequences (items : List Lexeme) : Array String :=
  (items.map fun lexeme => String.ofList lexeme.sequence).toArray

theorem sequences_append (first second : List Lexeme) :
    sequences (first ++ second) = sequences first ++ sequences second := by
  simp [sequences]

theorem size_sequences (items : List Lexeme) : (sequences items).size = items.length := by
  simp [sequences]

theorem next_eq_ok (h : reader.next lexeme = .ok after) :
    Parser.read (reader.reading lexeme) reader.stack = .ok after.stack ∧
      after.log = reader.log ++ sequences [lexeme] ∧ after.latest = some lexeme.kind := by
  obtain ⟨stack, hread, rfl⟩ := map_eq_ok h
  exact ⟨hread, Array.push_eq_append, rfl⟩

theorem readAll_cons_eq_ok {rest : List Lexeme} (h : reader.readAll (lexeme :: rest) = .ok after) :
    ∃ next, reader.next lexeme = .ok next ∧ next.readAll rest = .ok after :=
  bind_eq_ok h

theorem stacked_of_readAll {items : List Lexeme} (h : reader.readAll items = .ok after)
    (hs : Stacked reader.stack) : Stacked after.stack := by
  induction items generalizing reader with
  | nil =>
    cases h
    exact hs
  | cons lexeme rest ih =>
    obtain ⟨next, hnext, hrest⟩ := readAll_cons_eq_ok h
    exact ih hrest (Parser.stacked_of_read (next_eq_ok hnext).1 hs)

theorem log_of_readAll {items : List Lexeme} (h : reader.readAll items = .ok after) :
    after.log = reader.log ++ sequences items := by
  induction items generalizing reader with
  | nil =>
    cases h
    exact Array.append_empty.symm
  | cons lexeme rest ih =>
    obtain ⟨next, hnext, hrest⟩ := readAll_cons_eq_ok h
    rw [ih hrest, (next_eq_ok hnext).2.1, Array.append_assoc, ← sequences_append]
    rfl

/-- The latest kind is that of the last lexeme read. -/
theorem latest_of_readAll (h : reader.readAll items = .ok after) :
    after.latest = (items.getLast?.map Lexeme.kind).or reader.latest := by
  induction items generalizing reader with
  | nil =>
    cases h
    rfl
  | cons lexeme rest ih =>
    obtain ⟨next, hnext, hrest⟩ := readAll_cons_eq_ok h
    have hlatest := (next_eq_ok hnext).2.2
    rw [ih hrest, hlatest]
    cases rest with
    | nil => rfl
    | cons second rest =>
      rw [List.getLast?_cons_cons, List.getLast?_eq_some_getLast (List.cons_ne_nil second rest)]
      rfl

/-- A reader behind a log and on top of frames. -/
def moved (before : Array String) (base : Frame.Enclosure) (below : List Frame) (reader : Reader) :
    Reader :=
  ⟨before ++ reader.log, Frame.move before.size base below reader.stack, reader.latest⟩

theorem reading_moved (before : Array String) (base : Frame.Enclosure) (below : List Frame)
    (lexeme : Lexeme) (reader : Reader) :
    (reader.moved before base below).reading lexeme = (reader.reading lexeme).moved before := by
  unfold reading logged moved Parser.Reading.moved
  dsimp only
  rw [Array.push_append]
  rfl

theorem size_reading_pos (lexeme : Lexeme) (reader : Reader) :
    0 < (reader.reading lexeme).log.size := by
  show 0 < (reader.log.push _).size
  rw [Array.size_push]
  exact Nat.succ_pos _

/-- The tokens before the one that is read. -/
theorem before_reading (lexeme : Lexeme) (reader : Reader) :
    (reader.reading lexeme).before = reader.log.size := by
  show (reader.log.push _).size - 1 = _
  rw [Array.size_push]
  rfl

/-- A moved reader reads a lexeme as the other does, unless that closes what encloses it. -/
theorem read_reading_moved (before : Array String) (base : Frame.Enclosure) (below : List Frame)
    (hs : Stacked reader.stack)
    (hclose : Parser.closes lexeme.kind = none ∨
      ∀ frame, ¬ Parser.Settles (reader.reading lexeme) reader.stack [.sentences frame]) :
    Parser.read ((reader.moved before base below).reading lexeme)
        (Frame.move before.size base below reader.stack) =
      (Parser.read (reader.reading lexeme) reader.stack).map (Frame.move before.size base below) := by
  rw [reading_moved]
  exact Parser.read_moved (size_reading_pos lexeme reader) before base below rfl hs (.inr hclose)

/-- What can be read can be read by the moved reader. -/
theorem readAll_moved {items : List Lexeme} (before : Array String) (base : Frame.Enclosure)
    (below : List Frame) (hs : Stacked reader.stack) (h : reader.readAll items = .ok after)
    (latest : Option Token.Kind) :
    ∃ latest', readAll items { reader.moved before base below with latest := latest } =
      .ok { after.moved before base below with latest := latest' } := by
  induction items generalizing reader latest with
  | nil =>
    cases h
    exact ⟨latest, rfl⟩
  | cons lexeme rest ih =>
    obtain ⟨next, hnext, hrest⟩ := readAll_cons_eq_ok h
    obtain ⟨hread, hlog, -⟩ := next_eq_ok hnext
    have hmoved := read_reading_moved before base below hs (Parser.not_settles_of_read hs hread)
    rw [hread] at hmoved
    have hstep : Reader.next lexeme { reader.moved before base below with latest := latest } =
        .ok { next.moved before base below with latest := some lexeme.kind } := by
      have hreading : Reader.reading lexeme { reader.moved before base below with latest := latest } =
          (reader.moved before base below).reading lexeme := rfl
      rw [next_of_read (hreading ▸ hmoved)]
      unfold logged moved
      dsimp only
      rw [hlog, ← Array.append_assoc]
      rfl
    obtain ⟨latest', hlater⟩ := ih (Parser.stacked_of_read hread hs) hrest (some lexeme.kind)
    exact ⟨latest', by rw [readAll, hstep]; exact hlater⟩

end Reader

/-! ## Brackets that stay open -/

namespace Parser

variable {reading : Reading} {stack after top below : List Frame} {frame : Frame.Sentences}

theorem sentences_of_role {old : Frame} (h : (Frame.sentences frame).role = old.role) :
    ∃ before, old = .sentences before ∧ before.enclosure = frame.enclosure ∧
      before.textStart = frame.textStart := by
  cases old with
  | sentences before =>
    obtain ⟨henclosure, hstart, -⟩ := Frame.Role.sentences.inj h
    exact ⟨before, rfl, henclosure.symm, hstart.symm⟩
  | _ => cases h

/-- A bracket that is open after a token was opened by it or open before, on the same frames. -/
theorem Effect.opened_or_stays (h : Effect reading stack (top ++ .sentences frame :: below)) :
    (top = [] ∧ ∃ enclosure, frame =
      .start enclosure reading.token.position reading.position reading.after) ∨
    ∃ top' before, stack = top' ++ .sentences before :: below ∧
      before.enclosure = frame.enclosure ∧ before.textStart = frame.textStart := by
  generalize hafter : top ++ .sentences frame :: below = after at h
  cases h with
  | @change old new rest hrole hblocks =>
    refine .inr ?_
    cases top with
    | nil =>
      obtain ⟨rfl, rfl⟩ := List.cons.inj hafter
      obtain ⟨before, rfl, hsame⟩ := sentences_of_role hrole
      exact ⟨[], before, rfl, hsame⟩
    | cons first top =>
      obtain ⟨rfl, rfl⟩ := List.cons.inj hafter
      exact ⟨old :: top, frame, rfl, rfl, rfl⟩
  | @opening old new opened rest hrole hblocks hopens =>
    cases top with
    | nil =>
      obtain ⟨rfl, rfl⟩ := List.cons.inj hafter
      rcases hopens with ⟨enclosure, -, -, hframe⟩ | ⟨hrole', -, -⟩
      · exact .inl ⟨rfl, enclosure, Frame.sentences.inj hframe⟩
      · rcases hrole' with hrole' | hrole' <;> cases hrole'
    | cons first top =>
      have htail := (List.cons.inj hafter).2
      refine .inr ?_
      cases top with
      | nil =>
        obtain ⟨rfl, rfl⟩ := List.cons.inj htail
        obtain ⟨before, rfl, hsame⟩ := sentences_of_role hrole
        exact ⟨[], before, rfl, hsame⟩
      | cons second top =>
        obtain ⟨rfl, rfl⟩ := List.cons.inj htail
        exact ⟨old :: top, frame, rfl, rfl, rfl⟩
  | @closing old outer new rest hkind hrole hblocks =>
    refine .inr ?_
    cases top with
    | nil =>
      obtain ⟨rfl, rfl⟩ := List.cons.inj hafter
      obtain ⟨before, rfl, hsame⟩ := sentences_of_role hrole
      exact ⟨[old], before, rfl, hsame⟩
    | cons first top =>
      obtain ⟨rfl, rfl⟩ := List.cons.inj hafter
      exact ⟨old :: outer :: top, frame, rfl, rfl, rfl⟩

theorem Settles.stays (h : Settles reading stack (top ++ .sentences frame :: below)) :
    ∃ top' before, stack = top' ++ .sentences before :: below ∧
      before.enclosure = frame.enclosure ∧ before.textStart = frame.textStart := by
  rcases h.eq_or with heq | ⟨ended, outer, new, rest, rfl, heq, -, hrole, -⟩
  · exact ⟨top, frame, heq.symm, rfl, rfl⟩
  · cases top with
    | nil =>
      obtain ⟨rfl, rfl⟩ := List.cons.inj heq
      obtain ⟨before, rfl, hsame⟩ := sentences_of_role hrole
      exact ⟨[ended], before, rfl, hsame⟩
    | cons first top =>
      obtain ⟨rfl, rfl⟩ := List.cons.inj heq
      exact ⟨ended :: outer :: top, frame, rfl, rfl, rfl⟩

end Parser

namespace Reader

/-- Every open bracket holds, from its own text on, what a reader of that text alone would. -/
def Traced (items : List Lexeme) (stack : List Frame) : Prop :=
  ∀ top frame below, stack = top ++ .sentences frame :: below → frame.enclosure ≠ .root →
    frame.textStart ≤ items.length ∧
      ∃ inner, start.readAll (items.drop frame.textStart) = .ok inner ∧
        inner.stack.map (Frame.moved frame.textStart frame.enclosure) = top ++ [.sentences frame]

theorem traced_start : Traced [] start.stack := by
  intro top frame below h hframe
  cases top with
  | nil =>
    obtain ⟨hroot, -⟩ := List.cons.inj h
    cases hroot
    exact absurd rfl hframe
  | cons first top =>
    have hnil := (List.cons.inj h).2
    simp at hnil

/-- A lexeme that leaves a bracket open is read by the reader inside it. -/
theorem next_inside {reader inner after : Reader} {lexeme : Lexeme} {before : Array String}
    {base : Frame.Enclosure} {below top : List Frame} (hs : Stacked inner.stack)
    (hlog : reader.log = before ++ inner.log)
    (hstack : reader.stack = Frame.move before.size base below inner.stack)
    (h : reader.next lexeme = .ok after) {frame : Frame.Sentences}
    (hafter : after.stack = top ++ .sentences frame :: below) :
    ∃ inner', inner.next lexeme = .ok inner' ∧
      after.stack = Frame.move before.size base below inner'.stack := by
  have hread := (next_eq_ok h).1
  have hreading : reader.reading lexeme = (inner.moved before base below).reading lexeme := by
    unfold reading logged moved
    dsimp only
    rw [hlog]
  rw [hreading, hstack] at hread
  by_cases hclose : ∃ delimiter closed, Parser.closes lexeme.kind = some delimiter ∧
      Parser.Settles (inner.reading lexeme) inner.stack [.sentences closed]
  · -- The token would close the bracket, and leave fewer frames.
    obtain ⟨delimiter, closed, hcloses, hsettles⟩ := hclose
    have hmoved := hsettles.moved before base below hs hcloses
    rw [← reading_moved before base below] at hmoved
    rw [Parser.read_of_closes hcloses hmoved] at hread
    have hlength := Parser.length_of_matchBracket hread
    rw [hafter, List.length_append, List.length_cons, List.append_eq, List.map_nil,
      List.nil_append] at hlength
    omega
  · have hopen : Parser.closes lexeme.kind = none ∨
        ∀ closed, ¬ Parser.Settles (inner.reading lexeme) inner.stack [.sentences closed] := by
      cases hcloses : Parser.closes lexeme.kind with
      | none => exact .inl rfl
      | some delimiter =>
        exact .inr fun closed hsettles => hclose ⟨delimiter, closed, hcloses, hsettles⟩
    rw [read_reading_moved before base below hs hopen] at hread
    obtain ⟨stack, hinner, hstack'⟩ := map_eq_ok hread
    exact ⟨_, next_of_read hinner, hstack'.symm⟩

/-- One more lexeme is read in every bracket that stays open. -/
theorem Traced.next {items : List Lexeme} {reader after : Reader} {lexeme : Lexeme}
    (ht : Traced items reader.stack) (hlog : reader.log = sequences items)
    (h : reader.next lexeme = .ok after) : Traced (items ++ [lexeme]) after.stack := by
  intro top frame below hafter hframe
  obtain ⟨settled, hsettles, heffect⟩ := Parser.read_effect (next_eq_ok h).1
  rw [hafter] at heffect
  have hlength : (items ++ [lexeme]).length = items.length + 1 := List.length_append
  rcases heffect.opened_or_stays with ⟨rfl, enclosure, rfl⟩ | ⟨top', new, rfl, hnew, hnewStart⟩
  · -- The bracket is new, and nothing was read in it.
    have hstart : (Frame.Sentences.start enclosure (reader.reading lexeme).token.position
        (reader.reading lexeme).position (reader.reading lexeme).after).textStart =
        (items ++ [lexeme]).length := by
      show (reader.log.push _).size = _
      rw [Array.size_push, hlog, size_sequences, hlength]
    refine ⟨Nat.le_of_eq hstart, start, ?_, ?_⟩
    · rw [hstart, List.drop_length]
      rfl
    · have hmoved : ∀ n, (Frame.Sentences.start .root .start none 0).moved n enclosure =
          .start enclosure .start none n := by
        intro n
        simp only [Frame.Sentences.moved, Frame.Sentences.start, if_true, Nat.zero_add]
      exact congrArg (fun frame => [Frame.sentences frame]) (hmoved _)
  · obtain ⟨top'', old, hstack, hold, holdStart⟩ := hsettles.stays
    rw [hnew] at hold
    rw [hnewStart] at holdStart
    obtain ⟨hle, inner, hinner, hinnerStack⟩ := ht top'' old below hstack (hold ▸ hframe)
    rw [holdStart] at hle hinner
    rw [holdStart, hold] at hinnerStack
    have hsize : (sequences (items.take frame.textStart)).size = frame.textStart := by
      rw [size_sequences, List.length_take]
      omega
    have hinnerLog : reader.log = sequences (items.take frame.textStart) ++ inner.log := by
      rw [log_of_readAll hinner, hlog]
      show _ = _ ++ (#[] ++ _)
      rw [Array.empty_append, ← sequences_append, List.take_append_drop]
    have hmoved : reader.stack = Frame.move (sequences (items.take frame.textStart)).size
        frame.enclosure below inner.stack := by
      rw [hsize, Frame.move, hinnerStack, hstack, List.append_assoc]
      rfl
    obtain ⟨inner', hnext, hnextStack⟩ :=
      next_inside (stacked_of_readAll hinner (.root rfl)) hinnerLog hmoved h hafter
    refine ⟨by rw [hlength]; omega, inner', ?_, ?_⟩
    · rw [List.drop_append_of_le_length hle, readAll_append, hinner]
      show (inner.next lexeme).bind (readAll []) = _
      rw [hnext]
      rfl
    · rw [hafter, hsize, Frame.move] at hnextStack
      have hsplit : top ++ .sentences frame :: below = (top ++ [.sentences frame]) ++ below :=
        (List.append_assoc top [.sentences frame] below).symm
      rw [hsplit] at hnextStack
      exact (List.append_cancel_right hnextStack).symm

end Reader

end Parlance
