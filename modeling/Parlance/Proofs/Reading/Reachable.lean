import Parlance.Proofs.Reading.Dispatch
import Parlance.Proofs.Reading.Final

/-!
# Parsers that can be

However a parser was begun, fed and closed, as long as nothing failed its frames are in order, block
comments count at least themselves, and no frame noted more tokens than there were.  So a token never
meets a guard, and the end of the input always comes down to the whole script.

    Reachable p → Steady p                                                     (steady_of_reachable)
    Steady p → Sound p                                                                (Steady.sound)
-/

namespace Parlance

open ParseError (Cause)

namespace Frame

/-- The numbers of tokens that a frame noted. -/
def offsets : Frame → List Nat
  | .sentences frame => [frame.textStart]
  | .quoted _ | .quotePair _ _ => []
  | .here frame => [frame.textStart]
  | .tagged frame => frame.textStart.toList ++ frame.tagStart.toList
  | .lineComment frame => [frame.textStart]
  | .blockComment frame => frame.textStart :: frame.closeStart.toList

/-- A frame that noted at most `size` tokens, and that counts itself when it is a block comment. -/
structure Within (size : Nat) (frame : Frame) : Prop where
  offsets : ∀ offset ∈ frame.offsets, offset ≤ size
  nesting : ∀ comment, frame = .blockComment comment → 1 ≤ comment.nesting

/-- Frames within `size`. -/
def AllWithin (size : Nat) (stack : List Frame) : Prop := ∀ frame ∈ stack, frame.Within size

/-- The sentences of the whole script. -/
def isRoot (frame : Frame) : Prop := ∃ script, frame = .sentences script ∧ script.enclosure = .root

section Within

variable {size bound : Nat} {top frame outer after : Frame} {below stack : List Frame}

theorem Within.mono (h : frame.Within size) (hle : size ≤ bound) : frame.Within bound :=
  ⟨fun offset hoffset => (h.offsets offset hoffset).trans hle, h.nesting⟩

theorem AllWithin.mono (h : AllWithin size stack) (hle : size ≤ bound) : AllWithin bound stack :=
  fun frame hframe => (h frame hframe).mono hle

theorem AllWithin.cons (htop : top.Within size) (h : AllWithin size below) :
    AllWithin size (top :: below) := List.forall_mem_cons.2 ⟨htop, h⟩

theorem AllWithin.head (h : AllWithin size (top :: below)) : top.Within size :=
  (List.forall_mem_cons.1 h).1

theorem AllWithin.tail (h : AllWithin size (top :: below)) : AllWithin size below :=
  (List.forall_mem_cons.1 h).2

/-- Sentences and quoted strings note what their role tells. -/
theorem Within.of_role (h : frame.Within size) (hrole : after.role = frame.role)
    (hother : frame.role ≠ .other) : after.Within size := by
  cases frame with
  | sentences frame =>
    cases after with
    | sentences after =>
      have hstart : after.textStart = frame.textStart := (Role.sentences.inj hrole).2.1
      refine ⟨fun offset hoffset => ?_, by rintro comment ⟨⟩⟩
      rw [List.mem_singleton.1 hoffset, hstart]
      exact h.offsets _ (List.mem_singleton.2 rfl)
    | quoted | quotePair | here | tagged | lineComment | blockComment => cases hrole
  | quoted frame =>
    cases after with
    | quoted after => exact ⟨by rintro offset ⟨⟩, by rintro comment ⟨⟩⟩
    | sentences | quotePair | here | tagged | lineComment | blockComment => cases hrole
  | quotePair | here | tagged | lineComment | blockComment => exact absurd rfl hother

/-- A morpheme changes nothing that a frame noted. -/
theorem AllWithin.addMorpheme {morpheme : Morpheme} (h : AllWithin size below)
    (hadd : Frame.addMorpheme morpheme below = .ok stack) : AllWithin size stack := by
  obtain ⟨outer, new, rest, rfl, rfl, hrole, -⟩ := Parser.addMorpheme_eq_ok hadd
  have hother : outer.role ≠ .other := by
    intro hother
    cases outer with
    | sentences | quoted => cases hother
    | quotePair | here | tagged | lineComment | blockComment => cases hadd
  exact .cons (h.head.of_role hrole hother) h.tail

end Within

end Frame

namespace Parser

open Parlance.Frame (Ordered AllWithin)

/-! ## One token -/

section Frames

variable {reading : Reading} {size : Nat} {top : Frame} {below stack after next : List Frame}
  {seen : List (List Frame)}

theorem before_le (reading : Reading) : reading.before ≤ reading.after := Nat.sub_le _ _

/-- A frame that opens at a token notes the tokens up to it. -/
theorem within_of_start {frame : Frame} (hoffsets : ∀ offset ∈ frame.offsets, offset = reading.after)
    (hcomment : ∀ comment, frame ≠ .blockComment comment) : frame.Within reading.after :=
  ⟨fun offset hoffset => (hoffsets offset hoffset).le,
    fun comment heq => absurd heq (hcomment comment)⟩

theorem within_openQuotes (reading : Reading) : (openQuotes reading).Within reading.after := by
  unfold openQuotes
  dsimp only
  split
  · exact within_of_start (by rintro offset ⟨⟩) (by rintro comment ⟨⟩)
  · exact within_of_start (by rintro offset ⟨⟩) (by rintro comment ⟨⟩)
  · exact within_of_start (fun offset => List.mem_singleton.1) (by rintro comment ⟨⟩)

/-- What a token does to sentences or to a quoted string. -/
theorem allWithin_of_takes (h : Takes reading (top :: below) after) (htop : top.role ≠ .other)
    (hwithin : AllWithin reading.after (top :: below)) : AllWithin reading.after after := by
  have hchange : ∀ {new : Frame}, new.role = top.role →
      AllWithin reading.after (new :: below) :=
    fun hrole => .cons (hwithin.head.of_role hrole htop) hwithin.tail
  cases h with
  | closesWord hkind h => exact hchange (role_closeWord h)
  | closesSentence hkind h => exact hchange (role_closeSentence h)
  | editsWord hedit hword h => exact hchange (role_editWord h)
  | editsString hedit => exact hchange rfl
  | opensInWord hkind h =>
    exact .cons (within_of_start (fun offset => List.mem_singleton.1) (by rintro comment ⟨⟩))
      (hchange (role_editWord h))
  | opensInString hkind =>
    exact .cons (within_of_start (fun offset => List.mem_singleton.1) (by rintro comment ⟨⟩)) hwithin
  | opensQuotes => exact .cons (within_openQuotes reading) hwithin
  | opensComment =>
    exact .cons (within_of_start (fun offset => List.mem_singleton.1) (by rintro comment ⟨⟩)) hwithin
  | opensTagged => exact absurd rfl htop
  | opensBlockComment => exact absurd rfl htop
  | goesOn h => cases h <;> exact absurd rfl htop
  | closes hends h => exact hwithin.tail.addMorpheme h

theorem allWithin_of_readInHere {frame : Frame.Here}
    (h : readInHere reading frame below = .ok after)
    (hwithin : AllWithin reading.after (.here frame :: below)) : AllWithin reading.after after := by
  unfold readInHere at h
  split at h
  · exact hwithin.tail.addMorpheme h
  · cases h
    exact hwithin

theorem allWithin_of_readInTagged {frame : Frame.Tagged}
    (h : readInTagged reading frame below = .ok after)
    (hwithin : AllWithin reading.after (.tagged frame :: below)) : AllWithin reading.after after := by
  have hstart : ∀ offset ∈ frame.textStart, offset ≤ reading.after := by
    intro offset hoffset
    exact hwithin.head.offsets _ (List.mem_append_left _ (Option.mem_toList.2 hoffset))
  -- The frame goes on with numbers that are within bounds.
  have hgoes : ∀ textStart tagStart : Option Nat, (∀ offset ∈ textStart, offset ≤ reading.after) →
      (∀ offset ∈ tagStart, offset ≤ reading.after) →
      AllWithin reading.after
        (.tagged { frame with textStart := textStart, tagStart := tagStart } :: below) := by
    intro textStart tagStart htext htag
    refine .cons ⟨fun offset hoffset => ?_, by rintro comment ⟨⟩⟩ hwithin.tail
    rcases List.mem_append.1 hoffset with hoffset | hoffset
    · exact htext offset (Option.mem_toList.1 hoffset)
    · exact htag offset (Option.mem_toList.1 hoffset)
  have htag : ∀ offset ∈ (if reading.token.kind = .text ∧ reading.token.literal = frame.tag then
      some reading.before else none), offset ≤ reading.after := by
    intro offset hoffset
    split at hoffset
    · cases hoffset
      exact before_le reading
    · cases hoffset
  unfold readInTagged at h
  dsimp only at h
  split at h
  · split at h
    · cases h
      refine hgoes (some reading.after) frame.tagStart ?_ ?_
      · rintro offset ⟨⟩
        exact Nat.le_refl _
      · intro offset hoffset
        exact hwithin.head.offsets _ (List.mem_append_right _ (Option.mem_toList.2 hoffset))
    · cases h
      exact hwithin
  · rename_i textStart tagStart htextStart
    split at h
    · cases h
      exact hgoes _ _ hstart htag
    · split at h
      · exact hwithin.tail.addMorpheme h
      · cases h
        exact hgoes _ _ hstart htag

theorem allWithin_of_readInBlockComment {frame : Frame.BlockComment}
    (h : readInBlockComment reading frame below = .ok after)
    (hwithin : AllWithin reading.after (.blockComment frame :: below)) :
    AllWithin reading.after after := by
  have hcount : 1 ≤ frame.nesting := hwithin.head.nesting frame rfl
  have hgoes : ∀ (nesting : Nat) (afterHash : Bool) (closeStart : Option Nat), 1 ≤ nesting →
      (∀ offset ∈ closeStart, offset ≤ reading.after) →
      AllWithin reading.after (.blockComment { frame with
        nesting := nesting, afterHash := afterHash, closeStart := closeStart } :: below) := by
    intro nesting afterHash closeStart hnesting hclose
    refine .cons ⟨fun offset hoffset => ?_, ?_⟩ hwithin.tail
    · rcases List.mem_cons.1 hoffset with rfl | hoffset
      · exact hwithin.head.offsets _ (List.mem_cons_self ..)
      · exact hclose offset (Option.mem_toList.1 hoffset)
    · rintro comment ⟨⟩
      exact hnesting
  have hnone : ∀ offset ∈ (none : Option Nat), offset ≤ reading.after := by rintro offset ⟨⟩
  unfold readInBlockComment at h
  dsimp only at h
  cases hkind : reading.token.kind <;> simp only [hkind] at h
  case comment =>
    split at h
    · split at h
      · split at h
        · exact hwithin.tail.addMorpheme h
        · rename_i hzero
          cases h
          exact hgoes _ false none (Nat.pos_of_ne_zero hzero) hnone
      · rename_i hclose
        cases h
        refine hgoes frame.nesting true frame.closeStart hcount ?_
        rw [hclose]
        exact hnone
    · cases h
      exact hgoes frame.nesting false none hcount hnone
  case openBlock =>
    cases h
    refine hgoes _ false none ?_ hnone
    split
    · exact Nat.succ_pos _
    · exact hcount
  case closeBlock =>
    cases h
    refine hgoes frame.nesting false (some reading.before) hcount ?_
    rintro offset ⟨⟩
    exact before_le reading
  all_goals
    cases h
    exact hgoes frame.nesting false none hcount hnone

/-- A frame that takes a token. -/
theorem allWithin_of_done (h : dispatch reading stack = .ok (.done after))
    (hwithin : AllWithin reading.after stack) : AllWithin reading.after after := by
  have hdone : ∀ {result : Except Cause (List Frame)}, result.map Step.done = .ok (.done after) →
      result = .ok after := by
    intro result h
    obtain ⟨stack, hstack, heq⟩ := map_eq_ok h
    cases heq
    exact hstack
  have hagain : ∀ {result : Except Cause (List Frame)},
      result.map Step.again ≠ .ok (.done after) := by
    intro result h
    obtain ⟨stack, -, heq⟩ := map_eq_ok h
    cases heq
  cases stack with
  | nil => cases h
  | cons top below =>
    cases top with
    | sentences frame =>
      exact allWithin_of_takes (takes_of_readInSentences (hdone h)) (by rintro ⟨⟩) hwithin
    | quoted frame =>
      exact allWithin_of_takes (takes_of_readInQuoted (hdone h)) (by rintro ⟨⟩) hwithin
    | here frame => exact allWithin_of_readInHere (hdone h) hwithin
    | tagged frame => exact allWithin_of_readInTagged (hdone h) hwithin
    | blockComment frame => exact allWithin_of_readInBlockComment (hdone h) hwithin
    | quotePair openedAt position =>
      unfold dispatch at h
      dsimp only at h
      split at h
      · cases h
        exact .cons ⟨by rintro offset ⟨⟩, by rintro comment ⟨⟩⟩ hwithin.tail
      · exact absurd h hagain
    | lineComment frame =>
      unfold dispatch at h
      dsimp only at h
      split at h
      · cases h
        refine .cons ⟨fun offset hoffset => ?_, ?_⟩ hwithin.tail
        · rw [List.mem_singleton.1 hoffset]
        · rintro comment ⟨⟩
          exact Nat.le_refl 1
      · split at h
        · exact absurd h hagain
        · cases h
          exact .cons ⟨hwithin.head.offsets, by rintro comment ⟨⟩⟩ hwithin.tail

theorem allWithin_of_again (h : dispatch reading stack = .ok (.again next))
    (hwithin : AllWithin size stack) : AllWithin size next := by
  obtain ⟨top, below, morpheme, rfl, -, -, hadd⟩ := addMorpheme_of_again h
  exact hwithin.tail.addMorpheme hadd

theorem Dispatches.allWithin (h : Dispatches reading stack seen (.ok after))
    (hwithin : AllWithin reading.after stack) : AllWithin reading.after after := by
  generalize hresult : Except.ok after = result at h
  induction h with
  | done h =>
    cases hresult
    exact allWithin_of_done h hwithin
  | refused => cases hresult
  | again h hnext ih => exact ih (allWithin_of_again h hwithin) hresult

theorem allWithin_of_read (h : read reading stack = .ok after)
    (hwithin : AllWithin reading.after stack) : AllWithin reading.after after := by
  obtain ⟨seen, hdispatches, -⟩ := dispatches_read reading stack
  rw [h] at hdispatches
  exact hdispatches.allWithin hwithin

end Frames

/-! ## Whole parsers -/

/-- The parsers that can be: a new one, and what begins, tokens, streams and ends make of it. -/
inductive Reachable : Parser → Prop
  | start (options : Options) : Reachable (start options)
  | begin {parser : Parser} (h : Reachable parser) : Reachable parser.begin
  | push {parser : Parser} (h : Reachable parser) (token : Token) : Reachable (push token parser).2
  | feed {parser : Parser} {σ : Type} [TokenStream σ] (h : Reachable parser) (stream : σ) :
    Reachable (parser.feed stream).2
  | close {parser : Parser} (h : Reachable parser) : Reachable parser.close.2

/-- What every step keeps. -/
structure Steady (parser : Parser) : Prop where
  ordered : Ordered parser.stack
  within : AllWithin parser.log.size parser.stack

section Parsers

variable {parser : Parser}

theorem steady_start (options : Options) : Steady (start options) := by
  refine ⟨ordered_start options, .cons ⟨fun offset hoffset => ?_, ?_⟩ (by rintro frame ⟨⟩)⟩
  · exact (List.mem_singleton.1 hoffset).le
  · rintro comment ⟨⟩

theorem Steady.push (h : Steady parser) (token : Token) : Steady (push token parser).2 := by
  refine ⟨ordered_push token h.ordered, ?_⟩
  have hlog : parser.log.size ≤ (parser.log.push token.sequence).size := by
    rw [Array.size_push]
    exact Nat.le_succ _
  have hwithin := h.within.mono hlog
  unfold Parser.push
  split
  · exact h.within
  · dsimp only
    split
    · rename_i stack hread
      exact allWithin_of_read hread hwithin
    · exact hwithin

theorem Steady.run (h : Steady parser) (tokens : List Token) : Steady (run tokens parser) := by
  induction tokens generalizing parser with
  | nil => exact h
  | cons token rest ih => exact ih (h.push token)

theorem Steady.close (h : Steady parser) : Steady parser.close.2 := by
  unfold Parser.close
  split
  · exact h
  · split
    · exact h
    · split
      · exact steady_start _
      · exact ⟨h.ordered, h.within⟩

theorem steady_of_reachable (h : Reachable parser) : Steady parser := by
  induction h with
  | start options => exact steady_start options
  | begin h ih => exact steady_start _
  | push h token ih => exact ih.push token
  | feed h stream ih =>
    rw [feed_collect, (feed_tokens _ _).1]
    exact ih.run _
  | close h ih => exact ih.close

end Parsers

/-! ## What this says of the frames -/

/-- The frames of a parser, one condition for each kind of frame. -/
structure Sound (parser : Parser) : Prop where
  /-- The whole script stands at the bottom, and only there. -/
  root : ∃ above script, parser.stack = above ++ [.sentences script] ∧ script.enclosure = .root ∧
    ∀ frame ∈ above, ¬ frame.isRoot
  /-- A quoted string stands directly on sentences. -/
  quoted : ∀ above frame below, parser.stack = above ++ .quoted frame :: below →
    ∃ sentences rest, below = .sentences sentences :: rest
  /-- An empty string, a here-string, a tagged string or a comment stands on top, directly on
  sentences without an open word. -/
  raw : ∀ above frame below, parser.stack = above ++ frame :: below → frame.role = .other →
    above = [] ∧ ∃ sentences rest, below = .sentences sentences :: rest ∧ sentences.word = none
  nesting : ∀ comment, .blockComment comment ∈ parser.stack → 1 ≤ comment.nesting
  offsets : ∀ frame ∈ parser.stack, ∀ offset ∈ frame.offsets, offset ≤ parser.log.size

section Order

variable {top : Frame} {above below stack : List Frame} {log : Array String} {parser : Parser}

theorem ordered_suffix (h : Ordered (above ++ top :: below)) : Ordered (top :: below) := by
  induction above with
  | nil => exact h
  | cons first rest ih =>
    cases rest with
    | nil => exact h.tail
    | cons second rest => exact ih h.tail

/-- Nothing stands on a text that is neither sentences nor a quoted string. -/
theorem eq_nil_of_ordered (h : Ordered (above ++ top :: below)) (htop : top.role = .other) :
    above = [] := by
  rcases List.eq_nil_or_concat above with hnil | ⟨init, last, hlast⟩
  · exact hnil
  · rw [hlast, List.concat_eq_append, List.append_assoc] at h
    cases ordered_suffix h with
    | bracket henclosure houter => exact absurd htop houter
    | raw => cases htop

theorem exists_root (h : Ordered stack) :
    ∃ above script, stack = above ++ [.sentences script] ∧ script.enclosure = .root ∧
      ∀ frame ∈ above, ¬ frame.isRoot := by
  induction h with
  | @root script hroot => exact ⟨[], script, rfl, hroot, by rintro frame ⟨⟩⟩
  | @bracket frame outer below henclosure houter h ih =>
    obtain ⟨above, script, heq, hroot, habove⟩ := ih
    refine ⟨.sentences frame :: above, script, by rw [heq]; rfl, hroot, ?_⟩
    refine List.forall_mem_cons.2 ⟨?_, habove⟩
    rintro ⟨_, ⟨⟩, hframe⟩
    exact henclosure hframe
  | @raw top frame below htop hword h ih =>
    obtain ⟨above, script, heq, hroot, habove⟩ := ih
    refine ⟨top :: above, script, by rw [heq]; rfl, hroot, ?_⟩
    refine List.forall_mem_cons.2 ⟨?_, habove⟩
    rintro ⟨sentences, rfl, -⟩
    exact Frame.not_isRaw_sentences _ htop

theorem Steady.sound (h : Steady parser) : Sound parser where
  root := exists_root h.ordered
  quoted above frame below hstack := by
    have hs := h.ordered
    rw [hstack] at hs
    obtain ⟨sentences, rest, hbelow, -⟩ := (ordered_suffix hs).below_raw (.inl rfl)
    exact ⟨sentences, rest, hbelow⟩
  raw above frame below hstack hrole := by
    have hs := h.ordered
    rw [hstack] at hs
    obtain ⟨sentences, rest, hbelow, hword, -⟩ := (ordered_suffix hs).below_raw (.inr hrole)
    exact ⟨eq_nil_of_ordered hs hrole, sentences, rest, hbelow, hword⟩
  nesting comment hcomment := (h.within _ hcomment).nesting comment rfl
  offsets frame hframe := (h.within frame hframe).offsets

/-- When nothing is left to close, the input comes down to the whole script. -/
theorem closeInnermost_of_ordered (hs : Ordered stack) (hunclosed : unclosedFrame stack = none) :
    ∃ script, closeInnermost log stack = .ok [.sentences script] ∧ script.enclosure = .root := by
  have hraw : ∀ {top : Frame} {below : List Frame}, Ordered (top :: below) → top.isRaw →
      unclosedFrame below = none → ∀ morpheme, ∃ script,
        Frame.addMorpheme morpheme below = .ok [.sentences script] ∧ script.enclosure = .root := by
    intro top below hs htop hunclosed morpheme
    obtain ⟨script, rest, rfl, hadd⟩ := Frame.addMorpheme_of_raw hs htop morpheme
    have hroot := enclosure_of_unclosed hunclosed
    obtain rfl := hs.tail.below_root hroot
    exact ⟨_, hadd, hroot⟩
  cases stack with
  | nil => cases hs
  | cons top below =>
    cases top with
    | quoted | here | tagged | blockComment => cases hunclosed
    | quotePair openedAt position => exact hraw hs (.inr rfl) hunclosed _
    | lineComment frame => exact hraw hs (.inr rfl) hunclosed _
    | sentences frame =>
      have hroot := enclosure_of_unclosed hunclosed
      obtain rfl := hs.below_root hroot
      exact ⟨frame, rfl, hroot⟩

end Order

/-- What reading a token in the parser's state needs to know. -/
def reading (parser : Parser) (token : Token) : Reading :=
  ⟨parser.options, token, parser.log.push token.sequence⟩

/-- **Parser states.**  As long as nothing failed, the frames are sound.  A token is then handed to at
most two of them and meets no guard, and the end of the input comes down to the whole script; so a
syntax error always is a completed word without a valid shape. -/
theorem sound_of_reachable {parser : Parser} (h : Reachable parser)
    (hfailure : parser.failure = none) :
    Sound parser ∧
      (∀ token, (∃ seen, (∀ other result, Dispatches (parser.reading token) parser.stack other result ↔
            other = seen ∧ result = read (parser.reading token) parser.stack) ∧
          seen.length ≤ 2 ∧ ∀ frames ∈ seen, ¬ Defends (parser.reading token) frames) ∧
        ∀ error, (push token parser).1 = .error error → error.cause = .syntaxError →
          RefusesWord (parser.reading token) parser.stack) ∧
      (parser.unclosed = none → ∃ script,
        closeInnermost parser.log parser.stack = .ok [.sentences script] ∧ script.enclosure = .root) ∧
      ∀ error, parser.close.1 = .error error → error.cause = .syntaxError →
        ∃ script word, parser.stack = [.sentences script] ∧ script.word = some word ∧
          Morpheme.shape word.morphemes.settle.toList = .invalid := by
  have hsteady := steady_of_reachable h
  refine ⟨hsteady.sound, fun token => ?_, fun hunclosed => ?_, fun error hclose hcause => ?_⟩
  · obtain ⟨seen, hdispatches, hlength⟩ := dispatches_read (parser.reading token) parser.stack
    have hordered := hdispatches.ordered hsteady.ordered
    have hcourse : ∀ other result, Dispatches (parser.reading token) parser.stack other result ↔
        other = seen ∧ result = read (parser.reading token) parser.stack := by
      refine fun other result => ⟨fun h => h.unique hdispatches, ?_⟩
      rintro ⟨rfl, rfl⟩
      exact hdispatches
    have hguards : ∀ frames ∈ seen, ¬ Defends (parser.reading token) frames :=
      fun frames hframes => not_defends (hordered frames hframes)
    refine ⟨⟨seen, hcourse, hlength, hguards⟩, fun error hpush hcause => ?_⟩
    rcases push_cases hfailure token with ⟨stack, -, hok⟩ | ⟨cause, hread, hrefused, -⟩
    · rw [hok] at hpush
      cases hpush
    · rw [hrefused] at hpush
      cases hpush
      subst hcause
      have hrefuses : read (parser.reading token) parser.stack = .error .syntaxError := hread
      rw [hrefuses] at hdispatches
      exact hdispatches.refusesWord hsteady.ordered
  · exact closeInnermost_of_ordered hsteady.ordered (unclosedFrame_of_unclosed hunclosed)
  · have hfinal : error.isIncomplete = false := by
      rw [ParseError.isIncomplete, hcause]
      rfl
    obtain ⟨script, word, hstack, -, hword, hshape⟩ :=
      invalid_of_close hsteady.ordered hfailure hclose hfinal
    exact ⟨script, word, hstack, hword, hshape⟩

/-- An empty string in a tuple: it ends before a newline, which goes to the tuple. -/
theorem sound_of_reachable_pair :
    let pair : Token := ⟨.stringDelimiter, ⟨1, 0, 1⟩, "\"\"", "\"\""⟩
    let parser := (push pair (push ⟨.openTuple, .start, "(", "("⟩ (start ⟨true⟩)).2).2
    Reachable parser ∧ parser.failure = none ∧ Sound parser ∧ parser.stack.length = 3 ∧
      parser.close.1 = .error ⟨.unmatchedLeft .parenthesis, .start⟩ := by
  intro pair parser
  have hreachable : Reachable parser := .push (.push (.start ⟨true⟩) _) pair
  have hfailure : parser.failure = none := rfl
  exact ⟨hreachable, hfailure, (sound_of_reachable hreachable hfailure).1, rfl, rfl⟩

end Parser

end Parlance
