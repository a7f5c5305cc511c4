import Parlance.Proofs.Lexemes.Growth
import Parlance.Proofs.Placed
import Parlance.Proofs.Reading.Hopeless

/-!
# Tokens that grow

With more text behind a text its last token may become longer.  What was refused is still refused then,
and an open word that is hopeless with the shorter token is hopeless with the longer one.

    tokenize source = before ++ [last] → tokenize (source ++ more) = before ++ grown :: rest
      with last.Grows grown                                                        (tokenize_append)
    read old s = .error cause → read new s = .error cause                       (read_error_of_grows)
-/

namespace Parlance

open ParseError (Cause)

/-! ## Tokens that grow -/

/-- How a token can change when more text follows. -/
structure Token.Grows (old new : Token) : Prop where
  kind : new.kind = old.kind
  position : new.position = old.position
  sign : old.kind.sign? ≠ none → new = old
  quotes : old.kind = .stringDelimiter → old.runLength ≤ new.runLength

theorem Lexeme.Grows.toToken {old new : Lexeme} (h : old.Grows new) (position : Position) :
    (old.toToken position).Grows (new.toToken position) := by
  refine ⟨h.kind, rfl, fun hsign => ?_, fun hquotes => ?_⟩
  · rw [h.sign hsign]
  · obtain ⟨more, hnew, hliteral, hold⟩ := h.quotes hquotes
    show (String.ofList old.literal).utf8ByteSize ≤ (String.ofList new.literal).utf8ByteSize
    rw [hliteral, hnew, hold, String.ofList_append, String.utf8ByteSize_append]
    exact Nat.le_add_right _ _

/-- With more text the last token grows and those before it stay. -/
theorem tokenize_append {source : String} (hends : endsOpen source = false) {before : List Token}
    {last : Token} (h : tokenize source = before ++ [last]) (more : String) :
    ∃ grown rest, tokenize (source ++ more) = before ++ grown :: rest ∧ last.Grows grown := by
  rw [tokenize_eq_placed] at h
  obtain ⟨first, second, hitems, rfl, hlast⟩ := placed_eq_append h
  obtain ⟨item, rfl⟩ : ∃ item, second = [item] := by
    have hlength := congrArg List.length hlast
    rw [length_placed] at hlength
    exact List.length_eq_one_iff.1 hlength.symm
  obtain ⟨rfl, -⟩ := List.cons.inj hlast
  have hhangs : ¬ item.Hangs :=
    not_hangs_of_endsOpen hends (by rw [hitems, List.getLast?_concat])
  obtain ⟨grown, rest, hmore, hgrows⟩ := lexemes_append hitems hhangs more.toList
  have htokens : tokenize (source ++ more) = placed .start first ++
      placed (Position.start.advanceBy (covered first)) (grown :: rest) := by
    rw [tokenize_eq_placed, String.toList_append, hmore, placed_append]
  exact ⟨_, _, htokens, hgrows.toToken _⟩

namespace Parser

open Parlance.Frame (Ordered HopelessStack)

/-! ## Tokens that are refused -/

section Refused

variable {old new : Reading} {frame : Frame.Sentences} {below stack after : List Frame} {cause : Cause}

/-- A word that cannot be edited cannot be edited in any way. -/
theorem editWord_error {position : Option Position} {edit : Draft → Draft}
    (h : frame.editWord position edit = .error cause) (other : Draft → Draft) :
    frame.editWord position other = .error cause := by
  unfold Frame.Sentences.editWord at h ⊢
  dsimp only at h ⊢
  split at h
  · rename_i hstring
    rw [if_pos hstring]
    exact h
  · cases h

theorem readInSentences_error_of_grows (hgrows : old.token.Grows new.token)
    (hposition : new.position = old.position) (hsign : old.token.kind.sign? = none)
    (h : readInSentences old frame below = .error cause) :
    readInSentences new frame below = .error cause := by
  unfold readInSentences at h ⊢
  dsimp only at h ⊢
  rw [hposition, hgrows.kind]
  cases hkind : old.token.kind <;> simp only [hkind] at h hsign ⊢
  case whitespace | continuation => exact h
  case text | escape =>
    rw [editWord_error (map_eq_error h)]
    rfl
  case comment =>
    split at h
    · cases h
    · split at h
      · rename_i hpending
        rw [if_pos hpending]
        exact h
      · rename_i hpending
        rw [if_neg hpending, editWord_error (map_eq_error h)]
        rfl
  case stringDelimiter =>
    split at h
    · exact h
    · cases h
  all_goals cases hsign

theorem readInQuoted_error_of_grows {frame : Frame.Quoted} (hgrows : old.token.Grows new.token)
    (hsign : old.token.kind.sign? = none) (hs : Ordered (.quoted frame :: below))
    (h : readInQuoted old frame below = .error cause) :
    readInQuoted new frame below = .error cause := by
  unfold readInQuoted at h ⊢
  dsimp only at h ⊢
  rw [hgrows.kind]
  cases hkind : old.token.kind <;> simp only [hkind] at h hsign ⊢
  case stringDelimiter =>
    have hlength := hgrows.quotes hkind
    split at h
    · rename_i hlong
      rw [if_pos (Nat.lt_of_lt_of_le hlong hlength)]
      exact h
    · obtain ⟨outer, rest, rfl, hadd⟩ := Frame.addMorpheme_of_raw hs (.inl rfl)
        ⟨.string frame.morphemes.settle.toList, frame.position⟩
      rw [hadd] at h
      cases h
  case comment =>
    split at h
    · rename_i hpending
      rw [if_pos hpending]
      exact h
    · cases h
  all_goals first | cases h | cases hsign

/-- A text that is taken as it stands takes every token. -/
theorem exists_read_of_raw {top : Frame} (hs : Ordered (top :: below))
    (htop : (∃ frame, top = .here frame) ∨ (∃ frame, top = .tagged frame) ∨
      ∃ frame, top = .blockComment frame) (reading : Reading) :
    ∃ after, read reading (top :: below) = .ok after := by
  have hadd : top.isRaw → ∀ morpheme, ∃ after, Frame.addMorpheme morpheme below = .ok after := by
    intro hraw morpheme
    obtain ⟨frame, rest, rfl, hadd⟩ := Frame.addMorpheme_of_raw hs hraw morpheme
    exact ⟨_, hadd⟩
  rcases htop with ⟨frame, rfl⟩ | ⟨frame, rfl⟩ | ⟨frame, rfl⟩
  · show ∃ after, readInHere reading frame below = .ok after
    unfold readInHere
    split
    · exact hadd (.inr rfl) _
    · exact ⟨_, rfl⟩
  · show ∃ after, readInTagged reading frame below = .ok after
    unfold readInTagged
    dsimp only
    split
    · split <;> exact ⟨_, rfl⟩
    · split
      · exact ⟨_, rfl⟩
      · split
        · exact hadd (.inr rfl) _
        · exact ⟨_, rfl⟩
  · show ∃ after, readInBlockComment reading frame below = .ok after
    unfold readInBlockComment
    dsimp only
    split
    · split
      · split
        · split
          · exact hadd (.inr rfl) _
          · exact ⟨_, rfl⟩
        · exact ⟨_, rfl⟩
      · exact ⟨_, rfl⟩
    all_goals exact ⟨_, rfl⟩

/-- A token that is refused is refused as a longer one. -/
theorem read_error_of_grows (hs : Ordered stack) (hgrows : old.token.Grows new.token)
    (hposition : new.position = old.position) (hsign : old.token.kind.sign? = none)
    (h : read old stack = .error cause) : read new stack = .error cause := by
  have hraw : ∀ {top : Frame} {below : List Frame}, stack = top :: below →
      ((∃ frame, top = .here frame) ∨ (∃ frame, top = .tagged frame) ∨
        ∃ frame, top = .blockComment frame) → read new stack = .error cause := by
    rintro top below rfl htop
    obtain ⟨after, hafter⟩ := exists_read_of_raw hs htop old
    rw [hafter] at h
    cases h
  cases stack with
  | nil => cases hs
  | cons top below =>
    cases top with
    | sentences frame => exact readInSentences_error_of_grows hgrows hposition hsign h
    | quoted frame => exact readInQuoted_error_of_grows hgrows hsign hs h
    | quotePair openedAt position =>
      obtain ⟨frame, rest, rfl, hadd⟩ := Frame.addMorpheme_of_raw hs (.inr rfl) ⟨.string [], position⟩
      unfold read at h ⊢
      dsimp only at h ⊢
      rw [hadd] at h ⊢
      rw [hgrows.kind]
      split at h
      · cases h
      · rename_i hkind
        rw [if_neg hkind]
        exact readInSentences_error_of_grows hgrows hposition hsign h
    | lineComment frame =>
      have hnewline : old.token.kind ≠ .newline := by
        intro hkind
        rw [hkind] at hsign
        cases hsign
      unfold read at h
      dsimp only at h
      rw [if_neg hnewline] at h
      split at h <;> cases h
    | here frame => exact hraw rfl (.inl ⟨frame, rfl⟩)
    | tagged frame => exact hraw rfl (.inr (.inl ⟨frame, rfl⟩))
    | blockComment frame => exact hraw rfl (.inr (.inr ⟨frame, rfl⟩))

/-! ## Words that are refused -/

theorem sign_of_closes {kind : Token.Kind} {delimiter : Delimiter}
    (h : closes kind = some delimiter) : kind.sign? ≠ none := by
  cases kind <;> first | exact Option.some_ne_none _ | cases h

/-- A construct that ends is a word of its own. -/
theorem Ends.shape_ne_invalid {top : Frame} {morpheme : Morpheme} (h : Ends old top morpheme) :
    Morpheme.shape [morpheme] ≠ .invalid := by
  cases h with
  | @bracket frame => cases frame.enclosure <;> rintro ⟨⟩
  | string | here | tagged | block => rintro ⟨⟩

theorem not_hopeless_single {morpheme : Morpheme} (h : Morpheme.shape [morpheme] ≠ .invalid) :
    ¬ Draft.Hopeless ⟨[morpheme], .nothing⟩ :=
  fun hhopeless => h (Draft.shape_of_hopeless hhopeless)

/-- Text that goes on in the open word of the whole script. -/
theorem read_text (hkind : new.token.kind ∈ [.text, .escape, .comment])
    (hcomment : new.token.kind = .comment → frame.word ≠ none)
    (h : read new [.sentences frame] = .ok after) :
    ∃ edited, frame.editWord new.position
      (Draft.pushLiteral new.token.literal new.position true) = .ok edited ∧
      after = [.sentences edited] := by
  have hread : readInSentences new frame [] = .ok after := h
  unfold readInSentences at hread
  simp only [List.mem_cons, List.not_mem_nil, or_false] at hkind
  rcases hkind with hkind | hkind | hkind <;> simp only [hkind] at hread
  · obtain ⟨edited, hedited, rfl⟩ := map_eq_ok hread
    exact ⟨edited, hedited, rfl⟩
  · obtain ⟨edited, hedited, rfl⟩ := map_eq_ok hread
    exact ⟨edited, hedited, rfl⟩
  · split at hread
    · rename_i hword
      exact absurd hword (hcomment hkind)
    · split at hread
      · cases hread
      · obtain ⟨edited, hedited, rfl⟩ := map_eq_ok hread
        exact ⟨edited, hedited, rfl⟩

/-- A word that text leaves hopeless, longer text leaves hopeless. -/
theorem hopeless_of_longer {before edited : Frame.Sentences} {word : Frame.OpenWord}
    {position : Option Position} {text longer : String} (hroot : before.enclosure = .root)
    (h : before.editWord position (Draft.pushLiteral text position true) = .ok frame)
    (hword : frame.word = some word) (hhopeless : word.morphemes.Hopeless)
    (hedited : before.editWord position (Draft.pushLiteral longer position true) = .ok edited) :
    HopelessStack [.sentences edited] := by
  unfold Frame.Sentences.editWord at h hedited
  dsimp only at h hedited
  split at h
  · cases h
  · rename_i hstring
    rw [if_neg hstring] at hedited
    cases h
    cases hedited
    refine .root hroot rfl ?_
    rw [← Option.some.inj hword] at hhopeless
    unfold Draft.Hopeless at hhopeless ⊢
    rwa [Draft.outline_pushLiteral_eq longer text]

/-- A raw text that ends is a word that is not refused. -/
theorem not_hopeless_of_raw {top : Frame} {morpheme : Morpheme} {word : Frame.OpenWord}
    (hs : Ordered (top :: below)) (hraw : top.isRaw) (hshape : Morpheme.shape [morpheme] ≠ .invalid)
    (hadd : Frame.addMorpheme morpheme below = .ok [.sentences frame])
    (hword : frame.word = some word) : ¬ word.morphemes.Hopeless := by
  obtain ⟨outer, rest, rfl, hsingle⟩ := Frame.addMorpheme_of_raw hs hraw morpheme
  rw [hsingle] at hadd
  cases hadd
  cases hword
  exact not_hopeless_single hshape

/-- A token that leaves the open word of the script hopeless does so as a longer one. -/
theorem hopeless_of_grows {word : Frame.OpenWord} (hs : Ordered stack)
    (hgrows : old.token.Grows new.token) (hposition : new.position = old.position)
    (hsign : old.token.kind.sign? = none) (h : read old stack = .ok [.sentences frame])
    (hword : frame.word = some word) (hhopeless : word.morphemes.Hopeless)
    (hnew : read new stack = .ok after) : HopelessStack after := by
  obtain ⟨settled, hsettles, htakes⟩ := takes_of_read h
  have hsettled := ordered_of_settles hsettles hs
  generalize htarget : [Frame.sentences frame] = target at htakes
  cases htakes with
  | closesWord hkind h =>
    cases htarget
    rw [word_of_closeWord h] at hword
    cases hword
  | closesSentence hkind h =>
    cases htarget
    rw [word_of_closeSentence h] at hword
    cases hword
  | @editsWord before _ _ edit hedit hcomment hbefore =>
    cases htarget
    cases hedit with
    | asterisk hkind | dollar hkind =>
      rw [hkind] at hsign
      cases hsign
    | text hkind =>
      generalize hstack : [Frame.sentences before] = target at hsettles
      cases hsettles with
      | keep =>
        subst hstack
        rw [← hgrows.kind] at hkind hcomment
        obtain ⟨edited, hedited, rfl⟩ := read_text hkind hcomment hnew
        have hroot : before.enclosure = .root := by
          cases hs
          assumption
        rw [hposition] at hedited
        exact hopeless_of_longer hroot hbefore hword hhopeless hedited
      | @pair openedAt position below _ hadd =>
        subst hstack
        obtain ⟨outer, rest, rfl, hsingle⟩ :=
          Frame.addMorpheme_of_raw hs (.inr rfl) ⟨.string [], position⟩
        rw [hsingle] at hadd
        cases hadd
        -- Nothing goes into a word that ends with a string.
        cases hbefore
      | comment hnewline =>
        rw [hnewline] at hsign
        cases hsign
  | editsString | opensInWord | opensInString | opensComment | opensTagged | opensBlockComment =>
    cases htarget
  | opensQuotes => exact absurd (List.cons.inj htarget).2 (List.cons_ne_nil _ _).symm
  | goesOn h =>
    cases htarget
    cases h
  | @closes top below _ morpheme hends hadd =>
    subst htarget
    have hraw : top.isRaw := by
      refine Frame.isRaw_of_ne fun inner htop => ?_
      subst htop
      cases hends with
      | bracket hkind => exact sign_of_closes hkind hsign
    exact absurd hhopeless (not_hopeless_of_raw hsettled hraw hends.shape_ne_invalid hadd hword)

end Refused

end Parser

end Parlance
