import Parlance.Proofs.Reading.Rooted

/-!
# Scripts with a hopeless word

A word that no more text can repair, as the open word of the whole script, is refused in the end: no
token closes it, what is added to it leaves it hopeless, and the script is never finished.

    a hopeless open word stays hopeless and open                              (lasting_isHopeless)
    read r s = .ok s' → HopelessStack s → HopelessStack s'                        (hopeless_of_read)
    HopelessStack s → finish log s ≠ .ok script                                 (finish_of_hopeless)
-/

namespace Parlance

/-! ## Frames -/

namespace Frame

/-- Open frames in which the open word of the whole script is hopeless. -/
inductive HopelessStack : List Frame → Prop
  | root {frame : Sentences} {word : OpenWord} (hroot : frame.enclosure = .root)
    (hword : frame.word = some word) (h : word.morphemes.Hopeless) :
    HopelessStack [.sentences frame]
  | above {top : Frame} {below : List Frame} (h : HopelessStack below) : HopelessStack (top :: below)

namespace Sentences

variable {frame after : Sentences} {word : OpenWord}

/-- Sentences with a hopeless open word. -/
def IsHopeless (frame : Sentences) : Prop :=
  ∃ word, frame.word = some word ∧ word.morphemes.Hopeless

theorem closeWord_of_isHopeless (h : frame.IsHopeless) : frame.closeWord = .error .syntaxError := by
  obtain ⟨⟨morphemes, position⟩, hword, hhopeless⟩ := h
  unfold closeWord
  rw [hword]
  exact if_pos (Draft.shape_of_hopeless hhopeless)

theorem closeSentence_of_isHopeless (h : frame.IsHopeless) :
    frame.closeSentence = .error .syntaxError := by
  rw [closeSentence, closeWord_of_isHopeless h]
  rfl

/-- What is added to a hopeless word leaves it hopeless. -/
theorem isHopeless_editWord {position : Option Position} {edit : Draft → Draft}
    (hedit : ∀ draft : Draft, draft.outline <+: (edit draft).outline)
    (h : frame.editWord position edit = .ok after) (hhopeless : frame.IsHopeless) :
    after.IsHopeless := by
  obtain ⟨word, hword, hhopeless⟩ := hhopeless
  unfold editWord at h
  rw [hword] at h
  dsimp only [Option.getD_some] at h
  split at h
  · cases h
  · cases h
    exact ⟨_, rfl, Morpheme.Hopeless.extend hhopeless (hedit _)⟩

theorem lasting_isHopeless : Lasting IsHopeless where
  editWord := isHopeless_editWord
  closeWord h hhopeless := by
    rw [closeWord_of_isHopeless hhopeless] at h
    cases h
  closeSentence h hhopeless := by
    rw [closeSentence_of_isHopeless hhopeless] at h
    cases h

end Sentences

theorem hopelessStack_iff {stack : List Frame} :
    HopelessStack stack ↔ Rooted Sentences.IsHopeless stack := by
  constructor <;> intro h
  · induction h with
    | root hroot hword h => exact .root hroot ⟨_, hword, h⟩
    | above _ ih => exact .above ih
  · induction h with
    | root hroot h =>
      obtain ⟨word, hword, hhopeless⟩ := h
      exact .root hroot hword hhopeless
    | above _ ih => exact .above ih

end Frame

namespace Parser

open Parlance.Frame (HopelessStack hopelessStack_iff)
open Parlance.Frame.Sentences (lasting_isHopeless)

section Frames

variable {reading : Reading} {stack after : List Frame}

/-- Nothing that a token does repairs a hopeless word. -/
theorem hopeless_of_read (h : read reading stack = .ok after) (hs : HopelessStack stack) :
    HopelessStack after :=
  hopelessStack_iff.2 (rooted_of_read lasting_isHopeless h (hopelessStack_iff.1 hs))

/-- A script with a hopeless word is never finished. -/
theorem finish_of_hopeless {log : Array String} (hs : HopelessStack stack) (script : Script) :
    finish log stack ≠ .ok script := by
  intro h
  obtain ⟨frame, hframe, hfinish⟩ := rooted_of_finish lasting_isHopeless h (hopelessStack_iff.1 hs)
  unfold Frame.Sentences.finish at hfinish
  rw [Frame.Sentences.closeSentence_of_isHopeless hframe] at hfinish
  cases hfinish

/-! ## Words that were just read -/

theorem Ends.ne_marker {top : Frame} {morpheme : Morpheme} (h : Ends reading top morpheme)
    (expands : Bool) (levels : Nat) (text : String) : morpheme.kind ≠ .marker expands levels text := by
  cases h with
  | @bracket frame => cases frame.enclosure <;> rintro ⟨⟩
  | string | here | tagged | block => rintro ⟨⟩

theorem tracked_editWord {frame new : Frame.Sentences} {word : Frame.OpenWord}
    {position : Option Position} {edit : Draft → Draft} (hedit : ∀ draft, (edit draft).Tracked)
    (h : frame.editWord position edit = .ok new) (hword : new.word = some word) :
    word.morphemes.Tracked := by
  unfold Frame.Sentences.editWord at h
  dsimp only at h
  split at h
  · cases h
  · cases h
    rw [← Option.some.inj hword]
    exact hedit _

/-- Where a token leaves a word open on top, it was the latest thing to go into that word. -/
theorem tracked_of_takes {frame : Frame.Sentences} {below : List Frame} {word : Frame.OpenWord}
    (h : Takes reading stack (.sentences frame :: below)) (hword : frame.word = some word) :
    word.morphemes.Tracked := by
  generalize hafter : Frame.sentences frame :: below = after at h
  cases h with
  | closesWord hkind h =>
    cases hafter
    rw [word_of_closeWord h] at hword
    cases hword
  | closesSentence hkind h =>
    cases hafter
    rw [word_of_closeSentence h] at hword
    cases hword
  | editsWord hedit _ h =>
    cases hafter
    refine tracked_editWord (fun draft => ?_) h hword
    cases hedit with
    | text => exact Draft.tracked_pushLiteral _ _ _ draft
    | asterisk => exact Draft.tracked_pushAsterisk _ _ draft
    | dollar => exact Draft.tracked_pushDollar _ draft
  | editsString => cases hafter
  | opensInWord =>
    cases hafter
    cases hword
  | opensInString =>
    cases hafter
    cases hword
  | opensQuotes =>
    have hraw := isRaw_openQuotes reading
    rw [← (List.cons.inj hafter).1] at hraw
    exact absurd hraw (Frame.not_isRaw_sentences frame)
  | opensComment => cases hafter
  | opensTagged => cases hafter
  | opensBlockComment => cases hafter
  | goesOn h =>
    cases hafter
    cases h
  | closes hends h =>
    subst hafter
    unfold Frame.addMorpheme at h
    split at h
    · obtain ⟨new, hnew, heq⟩ := map_eq_ok h
      cases heq
      exact tracked_editWord (Draft.tracked_push hends.ne_marker) hnew hword
    · cases h
    · cases h

end Frames

end Parser

end Parlance
