import Parlance.Proofs.Reading.Ordered

/-!
# One token, dispatched

Reading hands a token to the innermost frame, and once more to the frame below when it ended the
innermost one: that is all the repetition there is.  The frames guard against frames that cannot be
(`Defends`).  Apart from these guards, the only syntax error is a word without a valid shape, at the
token that completes it; and frames in their order never meet a guard.

    Dispatches r s seen (read r s) and seen.length ≤ 2                             (dispatches_read)
    dispatch r s = .error .syntaxError → Defends r s ∨ RefusesWord r s        (dispatch_syntaxError)
    Ordered s → ¬ Defends r s                                                          (not_defends)
-/

namespace Parlance

namespace Parser

open ParseError (Cause)
open Parlance.Frame (Ordered)

/-! ## Dispatching -/

/-- What the innermost frame makes of a token. -/
inductive Step where
  /-- The token is read. -/
  | done (stack : List Frame)
  /-- The frame ended before the token, which goes to the frames below. -/
  | again (stack : List Frame)

/-- A token in the innermost frame. -/
def dispatch (reading : Reading) : List Frame → Except Cause Step
  | .sentences frame :: below => (readInSentences reading frame below).map .done
  | .quoted frame :: below => (readInQuoted reading frame below).map .done
  | .quotePair openedAt position :: below =>
    if reading.token.kind = .text then
      .ok (.done (.tagged ⟨openedAt, position, reading.token.literal, none, none⟩ :: below))
    else (Frame.addMorpheme ⟨.string [], position⟩ below).map .again
  | .here frame :: below => (readInHere reading frame below).map .done
  | .tagged frame :: below => (readInTagged reading frame below).map .done
  | .lineComment frame :: below =>
    if frame.fresh ∧ reading.token.kind = .openBlock then
      .ok (.done (.blockComment
        ⟨frame.openedAt, frame.position, frame.delimiterLength, reading.after, 1, false, none⟩ ::
          below))
    else if reading.token.kind = .newline then
      (Frame.addMorpheme (lineComment reading.log reading.before frame) below).map .again
    else .ok (.done (.lineComment { frame with fresh := false } :: below))
  | .blockComment frame :: below => (readInBlockComment reading frame below).map .done
  | [] => .error .syntaxError

/-- Dispatching until the token is read or refused, with the frames that it was handed to. -/
inductive Dispatches (reading : Reading) :
    List Frame → List (List Frame) → Except Cause (List Frame) → Prop
  | done {stack after : List Frame} (h : dispatch reading stack = .ok (.done after)) :
    Dispatches reading stack [stack] (.ok after)
  | refused {stack : List Frame} {cause : Cause} (h : dispatch reading stack = .error cause) :
    Dispatches reading stack [stack] (.error cause)
  | again {stack next : List Frame} {seen : List (List Frame)} {result : Except Cause (List Frame)}
    (h : dispatch reading stack = .ok (.again next)) (hnext : Dispatches reading next seen result) :
    Dispatches reading stack (stack :: seen) result

section Frames

variable {reading : Reading} {top : Frame} {below stack after next : List Frame}
  {seen other : List (List Frame)} {result result' : Except Cause (List Frame)} {cause : Cause}

/-- Dispatching takes one course. -/
theorem Dispatches.unique (h : Dispatches reading stack seen result)
    (h' : Dispatches reading stack other result') : seen = other ∧ result = result' := by
  induction h generalizing other result' with
  | done h =>
    cases h' with
    | done h' =>
      rw [h] at h'
      cases h'
      exact ⟨rfl, rfl⟩
    | refused h' | again h' =>
      rw [h] at h'
      cases h'
  | refused h =>
    cases h' with
    | refused h' =>
      rw [h] at h'
      cases h'
      exact ⟨rfl, rfl⟩
    | done h' | again h' =>
      rw [h] at h'
      cases h'
  | again h hnext ih =>
    cases h' with
    | again h' hnext' =>
      rw [h] at h'
      cases h'
      obtain ⟨rfl, rfl⟩ := ih hnext'
      exact ⟨rfl, rfl⟩
    | done h' | refused h' =>
      rw [h] at h'
      cases h'

/-- A frame that never ends before a token. -/
theorem dispatches_of_map (h : dispatch reading stack = result.map .done) :
    Dispatches reading stack [stack] result := by
  cases result with
  | error cause => exact .refused h
  | ok after => exact .done h

/-- The token goes to the frame that took the morpheme, if one did. -/
theorem dispatches_addMorpheme {morpheme : Morpheme}
    (h : dispatch reading stack = (Frame.addMorpheme morpheme below).map .again) :
    ∃ seen, Dispatches reading stack seen
      ((Frame.addMorpheme morpheme below).bind (readInside reading)) ∧ seen.length ≤ 2 := by
  cases hadd : Frame.addMorpheme morpheme below with
  | error cause =>
    rw [hadd] at h
    exact ⟨[stack], .refused h, Nat.le_succ 1⟩
  | ok next =>
    rw [hadd] at h
    have hinside : dispatch reading next = (readInside reading next).map .done := by
      unfold Frame.addMorpheme at hadd
      split at hadd
      · obtain ⟨frame, -, rfl⟩ := map_eq_ok hadd
        rfl
      · cases hadd
        rfl
      · cases hadd
    exact ⟨[stack, next], .again h (dispatches_of_map hinside), Nat.le_refl 2⟩

/-- Reading a token is dispatching it, at most twice. -/
theorem dispatches_read (reading : Reading) (stack : List Frame) :
    ∃ seen, Dispatches reading stack seen (read reading stack) ∧ seen.length ≤ 2 := by
  cases stack with
  | nil => exact ⟨_, .refused rfl, Nat.le_succ 1⟩
  | cons top below =>
    cases top with
    | sentences | quoted | here | tagged | blockComment =>
      exact ⟨_, dispatches_of_map rfl, Nat.le_succ 1⟩
    | quotePair openedAt position =>
      unfold read
      dsimp only
      split
      · rename_i hkind
        exact ⟨_, .done (if_pos hkind), Nat.le_succ 1⟩
      · rename_i hkind
        exact dispatches_addMorpheme (if_neg hkind)
    | lineComment frame =>
      unfold read
      dsimp only
      split
      · rename_i hopen
        exact ⟨_, .done (if_pos hopen), Nat.le_succ 1⟩
      · rename_i hopen
        split
        · rename_i hkind
          exact dispatches_addMorpheme ((if_neg hopen).trans (if_pos hkind))
        · rename_i hkind
          exact ⟨_, .done ((if_neg hopen).trans (if_neg hkind)), Nat.le_succ 1⟩

/-! ## Guards -/

/-- The morpheme that the innermost frame becomes, at a token that ends it or before one. -/
inductive Becomes (reading : Reading) : Frame → Morpheme → Prop
  | ends {top : Frame} {morpheme : Morpheme} (h : Ends reading top morpheme) :
    Becomes reading top morpheme
  | pair {openedAt : Position} {position : Option Position} (hkind : reading.token.kind ≠ .text) :
    Becomes reading (.quotePair openedAt position) ⟨.string [], position⟩
  | comment {frame : Frame.LineComment} (hkind : reading.token.kind = .newline) :
    Becomes reading (.lineComment frame) (lineComment reading.log reading.before frame)

/-- The guards against frames that cannot be: no frame at all, a morpheme that no frame takes, and a
bracket that closes the whole script. -/
inductive Defends (reading : Reading) : List Frame → Prop
  | missing : Defends reading []
  | ownerless {top : Frame} {below : List Frame} {morpheme : Morpheme}
    (hbecomes : Becomes reading top morpheme) (howner : ∀ owner ∈ below.head?, owner.role = .other) :
    Defends reading (top :: below)
  | root {frame : Frame.Sentences} {below : List Frame} {delimiter : Delimiter}
    (hkind : closes reading.token.kind = some delimiter)
    (hmatch : frame.enclosure.delimiter = some delimiter) (hroot : frame.enclosure = .root) :
    Defends reading (.sentences frame :: below)

/-- Whether a kind of token completes the open word of some sentences. -/
def Completes (kind : Token.Kind) (frame : Frame.Sentences) : Prop :=
  kind ∈ [.whitespace, .continuation, .newline, .semicolon] ∨
    ∃ delimiter, closes kind = some delimiter ∧ frame.enclosure.delimiter = some delimiter

/-- The token completes a word that has no valid shape. -/
inductive RefusesWord (reading : Reading) : List Frame → Prop
  | intro {frame : Frame.Sentences} {below : List Frame} {word : Frame.OpenWord}
    (hcompletes : Completes reading.token.kind frame) (hword : frame.word = some word)
    (hshape : Morpheme.shape word.morphemes.settle.toList = .invalid) :
    RefusesWord reading (.sentences frame :: below)

/-- Only an open word can be refused where it ends. -/
theorem refusesWord_of_closeWord {frame : Frame.Sentences}
    (hcompletes : Completes reading.token.kind frame) (h : frame.closeWord = .error cause) :
    RefusesWord reading (.sentences frame :: below) := by
  unfold Frame.Sentences.closeWord at h
  split at h
  · cases h
  · rename_i morphemes position hword
    dsimp only at h
    split at h
    · rename_i hshape
      exact .intro hcompletes hword hshape
    · cases h

theorem editWord_ne_syntaxError (frame : Frame.Sentences) (position : Option Position)
    (edit : Draft → Draft) : frame.editWord position edit ≠ .error .syntaxError := by
  unfold Frame.Sentences.editWord
  dsimp only
  split <;> rintro ⟨⟩

/-- A morpheme that cannot be handed over, but for what the word is, has no owner. -/
theorem ownerless_of_addMorpheme {morpheme : Morpheme}
    (h : Frame.addMorpheme morpheme below = .error .syntaxError) :
    ∀ owner ∈ below.head?, owner.role = .other := by
  rintro owner howner
  cases below with
  | nil => cases howner
  | cons first rest =>
    cases howner
    cases owner with
    | sentences frame => exact absurd (map_eq_error h) (editWord_ne_syntaxError _ _ _)
    | quoted frame => cases h
    | quotePair | here | tagged | lineComment | blockComment => rfl

theorem defends_of_addMorpheme {morpheme : Morpheme} (hbecomes : Becomes reading top morpheme)
    (h : Frame.addMorpheme morpheme below = .error .syntaxError) : Defends reading (top :: below) :=
  .ownerless hbecomes (ownerless_of_addMorpheme h)

theorem matchBracket_syntaxError {delimiter : Delimiter} {frame : Frame.Sentences}
    (hkind : closes reading.token.kind = some delimiter)
    (h : matchBracket reading delimiter frame below = .error .syntaxError) :
    Defends reading (.sentences frame :: below) ∨ RefusesWord reading (.sentences frame :: below) := by
  unfold matchBracket at h
  split at h
  · cases h
  · rename_i expected hexpected
    split at h
    · rename_i heq
      subst heq
      rcases bind_eq_error h with hfinish | ⟨script, hfinish, h⟩
      · have hclose : frame.closeWord = .error .syntaxError := map_eq_error (map_eq_error hfinish)
        exact .inr (refusesWord_of_closeWord (.inr ⟨expected, hkind, hexpected⟩) hclose)
      · have hbecomes := Becomes.ends (.bracket hkind hexpected hfinish)
        cases henclosure : frame.enclosure with
        | root => exact .inl (.root hkind hexpected henclosure)
        | tuple | expression | block =>
          rw [henclosure] at h
          exact .inl (.ownerless hbecomes (ownerless_of_addMorpheme h))
    · cases h

theorem readInSentences_syntaxError {frame : Frame.Sentences}
    (h : readInSentences reading frame below = .error .syntaxError) :
    Defends reading (.sentences frame :: below) ∨ RefusesWord reading (.sentences frame :: below) := by
  have hedit : ∀ {edit : Draft → Draft} {f : Frame.Sentences → List Frame},
      (frame.editWord reading.position edit).map f ≠ .error .syntaxError :=
    fun h => editWord_ne_syntaxError frame _ _ (map_eq_error h)
  unfold readInSentences at h
  dsimp only at h
  cases hkind : reading.token.kind <;> simp only [hkind] at h
  case whitespace | continuation =>
    exact .inr (refusesWord_of_closeWord (.inl (by simp [hkind])) (map_eq_error h))
  case newline | semicolon =>
    exact .inr (refusesWord_of_closeWord (.inl (by simp [hkind])) (map_eq_error (map_eq_error h)))
  case comment =>
    split at h
    · cases h
    · split at h
      · cases h
      · exact absurd h hedit
  case closeTuple | closeBlock | closeExpression =>
    exact matchBracket_syntaxError (by rw [hkind]; rfl) h
  case stringDelimiter => split at h <;> cases h
  all_goals exact absurd h hedit

theorem readInQuoted_syntaxError {frame : Frame.Quoted}
    (h : readInQuoted reading frame below = .error .syntaxError) :
    Defends reading (.quoted frame :: below) := by
  unfold readInQuoted at h
  dsimp only at h
  cases hkind : reading.token.kind <;> simp only [hkind] at h
  case stringDelimiter =>
    split at h
    · cases h
    · rename_i hlength
      exact defends_of_addMorpheme (.ends (.string hkind (Nat.le_of_not_lt hlength))) h
  case comment | openTuple | openBlock => split at h <;> cases h
  all_goals cases h

theorem readInHere_syntaxError {frame : Frame.Here}
    (h : readInHere reading frame below = .error .syntaxError) :
    Defends reading (.here frame :: below) := by
  unfold readInHere at h
  split at h
  · rename_i hend
    exact defends_of_addMorpheme (.ends (.here hend.1 hend.2)) h
  · cases h

theorem readInTagged_syntaxError {frame : Frame.Tagged}
    (h : readInTagged reading frame below = .error .syntaxError) :
    Defends reading (.tagged frame :: below) := by
  unfold readInTagged at h
  dsimp only at h
  split at h
  · split at h <;> cases h
  · split at h
    · cases h
    · split at h
      · rename_i hend
        exact defends_of_addMorpheme (.ends (.tagged hend.1 _)) h
      · cases h

theorem readInBlockComment_syntaxError {frame : Frame.BlockComment}
    (h : readInBlockComment reading frame below = .error .syntaxError) :
    Defends reading (.blockComment frame :: below) := by
  unfold readInBlockComment at h
  dsimp only at h
  cases hkind : reading.token.kind <;> simp only [hkind] at h
  case comment =>
    split at h
    · rename_i hlength
      split at h
      · rename_i hclose
        split at h
        · exact defends_of_addMorpheme (.ends (.block hkind hlength hclose)) h
        · cases h
      · cases h
    · cases h
  all_goals cases h

/-- A syntax error is a guard or a word without a valid shape. -/
theorem dispatch_syntaxError (h : dispatch reading stack = .error .syntaxError) :
    Defends reading stack ∨ RefusesWord reading stack := by
  cases stack with
  | nil => exact .inl .missing
  | cons top below =>
    cases top with
    | sentences frame => exact readInSentences_syntaxError (map_eq_error h)
    | quoted frame => exact .inl (readInQuoted_syntaxError (map_eq_error h))
    | here frame => exact .inl (readInHere_syntaxError (map_eq_error h))
    | tagged frame => exact .inl (readInTagged_syntaxError (map_eq_error h))
    | blockComment frame => exact .inl (readInBlockComment_syntaxError (map_eq_error h))
    | quotePair openedAt position =>
      unfold dispatch at h
      dsimp only at h
      split at h
      · cases h
      · rename_i hkind
        exact .inl (defends_of_addMorpheme (.pair hkind) (map_eq_error h))
    | lineComment frame =>
      unfold dispatch at h
      dsimp only at h
      split at h
      · cases h
      · split at h
        · rename_i hkind
          exact .inl (defends_of_addMorpheme (.comment hkind) (map_eq_error h))
        · cases h

/-! ## Frames in their order -/

/-- Frames in their order meet no guard. -/
theorem not_defends (hs : Ordered stack) : ¬ Defends reading stack := by
  rintro (_ | ⟨hbecomes, howner⟩ | ⟨-, hmatch, hroot⟩)
  · cases hs
  · cases hs with
    | root hroot =>
      rcases hbecomes with ⟨⟨-, hdelimiter, -⟩⟩
      rw [hroot] at hdelimiter
      cases hdelimiter
    | bracket henclosure houter => exact houter (howner _ rfl)
    | raw htop hword =>
      have hrole := howner _ rfl
      cases hrole
  · rw [hroot] at hmatch
    cases hmatch

/-- A frame that ends before its token is an empty string or a line comment. -/
theorem addMorpheme_of_again (h : dispatch reading stack = .ok (.again next)) :
    ∃ top below morpheme, stack = top :: below ∧ top.role = .other ∧
      Morpheme.shape [morpheme] ≠ .invalid ∧ Frame.addMorpheme morpheme below = .ok next := by
  have hadd : ∀ {below : List Frame} {morpheme : Morpheme},
      (Frame.addMorpheme morpheme below).map Step.again = .ok (.again next) →
        Frame.addMorpheme morpheme below = .ok next := by
    intro below morpheme h
    obtain ⟨stack, hstack, heq⟩ := map_eq_ok h
    cases heq
    exact hstack
  have hdone : ∀ {result : Except Cause (List Frame)}, result.map Step.done ≠ .ok (.again next) := by
    intro result h
    obtain ⟨stack, -, heq⟩ := map_eq_ok h
    cases heq
  cases stack with
  | nil => cases h
  | cons top below =>
    cases top with
    | sentences | quoted | here | tagged | blockComment => exact absurd h hdone
    | quotePair openedAt position =>
      unfold dispatch at h
      dsimp only at h
      split at h
      · cases h
      · exact ⟨_, _, _, rfl, rfl, by rintro ⟨⟩, hadd h⟩
    | lineComment frame =>
      unfold dispatch at h
      dsimp only at h
      split at h
      · cases h
      · split at h
        · exact ⟨_, _, _, rfl, rfl, by rintro ⟨⟩, hadd h⟩
        · cases h

theorem ordered_of_again (hs : Ordered stack) (h : dispatch reading stack = .ok (.again next)) :
    Ordered next := by
  obtain ⟨top, below, morpheme, rfl, -, -, hadd⟩ := addMorpheme_of_again h
  obtain ⟨outer, new, rest, rfl, rfl, hrole, -⟩ := addMorpheme_eq_ok hadd
  exact hs.tail.replace hrole

/-- The word that a frame leaves when it ends before its token is not refused. -/
theorem not_refusesWord_of_again (hs : Ordered stack)
    (h : dispatch reading stack = .ok (.again next)) : ¬ RefusesWord reading next := by
  obtain ⟨top, below, morpheme, rfl, hrole, hvalid, hadd⟩ := addMorpheme_of_again h
  obtain ⟨frame, rest, rfl, hsingle⟩ := Frame.addMorpheme_of_raw hs (.inr hrole) morpheme
  rw [hsingle] at hadd
  cases hadd
  rintro ⟨-, hword, hshape⟩
  cases hword
  exact hvalid hshape

/-- A token is handed to frames in their order only. -/
theorem Dispatches.ordered (h : Dispatches reading stack seen result) (hs : Ordered stack) :
    ∀ frames ∈ seen, Ordered frames := by
  induction h with
  | done | refused => exact fun frames hframes => List.mem_singleton.1 hframes ▸ hs
  | again h hnext ih =>
    intro frames hframes
    rcases List.mem_cons.1 hframes with rfl | hframes
    · exact hs
    · exact ih (ordered_of_again hs h) frames hframes

/-- With frames in their order, a token is refused for its syntax only where it completes a word. -/
theorem Dispatches.refusesWord (h : Dispatches reading stack seen (.error .syntaxError))
    (hs : Ordered stack) : RefusesWord reading stack := by
  generalize hresult : Except.error Cause.syntaxError = result at h
  induction h with
  | done => cases hresult
  | refused h =>
    cases hresult
    exact (dispatch_syntaxError h).resolve_left (not_defends hs)
  | again h hnext ih =>
    have hnext := ih (ordered_of_again hs h) hresult
    exact absurd hnext (not_refusesWord_of_again hs h)

end Frames

end Parser

end Parlance
