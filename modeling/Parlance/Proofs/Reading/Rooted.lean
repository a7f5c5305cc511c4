import Parlance.Proofs.Hopeless
import Parlance.Proofs.Reading.Ordered

/-!
# The frame of the whole script

However many constructs are open, a token touches the innermost frame and the one below it.  So what is
known of the sentences of the whole script stays known as long as editing the open word, closing it and
closing the sentence respect it (`Lasting`), and the script that comes out has it as well.

    Lasting P → read r s = .ok s' → Rooted P s → Rooted P s'                          (rooted_of_read)
    Lasting P → Rooted P s → finish log s = .ok script →
      the script is finished from sentences with P                                  (rooted_of_finish)
-/

namespace Parlance

namespace Frame

/-- Open frames in which the sentences of the whole script have a property. -/
inductive Rooted (P : Sentences → Prop) : List Frame → Prop
  | root {frame : Sentences} (hroot : frame.enclosure = .root) (h : P frame) :
    Rooted P [.sentences frame]
  | above {top : Frame} {below : List Frame} (h : Rooted P below) : Rooted P (top :: below)

/-- A property of sentences that goes on as they grow.  An edit of the open word only adds to it. -/
structure Lasting (P : Sentences → Prop) : Prop where
  editWord : ∀ {frame after : Sentences} {position : Option Position} {edit : Draft → Draft},
    (∀ draft : Draft, draft.outline <+: (edit draft).outline) →
    frame.editWord position edit = .ok after → P frame → P after
  closeWord : ∀ {frame after : Sentences}, frame.closeWord = .ok after → P frame → P after
  closeSentence : ∀ {frame after : Sentences}, frame.closeSentence = .ok after → P frame → P after

variable {P : Sentences → Prop} {stack after : List Frame}

theorem rooted_addMorpheme (hP : Lasting P) {morpheme : Morpheme}
    (h : addMorpheme morpheme stack = .ok after) (hs : Rooted P stack) : Rooted P after := by
  cases hs with
  | root hroot hframe =>
    obtain ⟨new, hnew, rfl⟩ := map_eq_ok h
    exact .root ((Role.sentences.inj (Parser.role_editWord hnew)).1.trans hroot)
      (hP.editWord (Draft.prefix_outline_push morpheme) hnew hframe)
  | above hs =>
    obtain ⟨outer, new, rest, heq, rfl, -⟩ := Parser.addMorpheme_eq_ok h
    obtain ⟨-, rfl⟩ := List.cons.inj heq
    exact .above hs

end Frame

namespace Parser

open Parlance.Frame (Rooted Lasting)

variable {P : Frame.Sentences → Prop} {reading : Reading} {stack after : List Frame}

theorem prefix_outline_edits {edit : Draft → Draft} (h : Edits reading edit) (draft : Draft) :
    draft.outline <+: (edit draft).outline := by
  cases h with
  | text => exact Draft.prefix_outline_pushLiteral _ _ _ draft
  | asterisk => exact Draft.prefix_outline_pushAsterisk _ _ draft
  | dollar => exact Draft.prefix_outline_pushDollar _ draft

theorem rooted_of_settles (hP : Lasting P) (h : Settles reading stack after)
    (hs : Rooted P stack) : Rooted P after := by
  cases h with
  | keep => exact hs
  | pair hadd =>
    cases hs with
    | above hs => exact Frame.rooted_addMorpheme hP hadd hs
  | comment _ hadd =>
    cases hs with
    | above hs => exact Frame.rooted_addMorpheme hP hadd hs

theorem rooted_of_takes (hP : Lasting P) (h : Takes reading stack after) (hs : Rooted P stack) :
    Rooted P after := by
  cases hs with
  | above hs =>
    -- Nothing below the innermost frame changes, but when that frame is closed.
    cases h with
    | closes hends h => exact Frame.rooted_addMorpheme hP h hs
    | opensInWord | opensInString | opensQuotes | opensComment => exact .above (.above hs)
    | _ => exact .above hs
  | @root frame hroot hframe =>
    -- The whole script has no brackets, so nothing closes it.
    have hsame : ∀ {new : Frame.Sentences}, (Frame.sentences new).role = (Frame.sentences frame).role →
        new.enclosure = .root := fun hrole => (Frame.Role.sentences.inj hrole).1.trans hroot
    cases h with
    | closesWord _ h => exact .root (hsame (role_closeWord h)) (hP.closeWord h hframe)
    | closesSentence _ h => exact .root (hsame (role_closeSentence h)) (hP.closeSentence h hframe)
    | editsWord hedit _ h =>
      exact .root (hsame (role_editWord h)) (hP.editWord (prefix_outline_edits hedit) h hframe)
    | opensInWord _ h =>
      exact .above (.root (hsame (role_editWord h))
        (hP.editWord (fun _ => List.prefix_rfl) h hframe))
    | opensQuotes | opensComment => exact .above (.root hroot hframe)
    | goesOn h => cases h
    | closes hends _ =>
      cases hends with
      | bracket _ hdelimiter =>
        rw [hroot] at hdelimiter
        cases hdelimiter

/-- No token takes a lasting property from the sentences of the whole script. -/
theorem rooted_of_read (hP : Lasting P) (h : read reading stack = .ok after) (hs : Rooted P stack) :
    Rooted P after := by
  obtain ⟨settled, hsettles, htakes⟩ := takes_of_read h
  exact rooted_of_takes hP htakes (rooted_of_settles hP hsettles hs)

theorem rooted_of_closeInnermost (hP : Lasting P) {log : Array String}
    (h : closeInnermost log stack = .ok after) (hs : Rooted P stack) : Rooted P after := by
  unfold closeInnermost at h
  split at h
  · cases hs with
    | above hs => exact Frame.rooted_addMorpheme hP h hs
  · cases hs with
    | above hs => exact Frame.rooted_addMorpheme hP h hs
  · rw [← Except.ok.inj h]
    exact hs

/-- A script comes from sentences of the whole script that have the property. -/
theorem rooted_of_finish (hP : Lasting P) {log : Array String} {script : Script}
    (h : finish log stack = .ok script) (hs : Rooted P stack) :
    ∃ frame, P frame ∧ frame.finish = .ok script := by
  obtain ⟨last, hinner, hlast⟩ := bind_eq_ok h
  have hlasting := rooted_of_closeInnermost hP hinner hs
  split at hlast
  · rename_i frame
    cases hlasting with
    | root _ hframe => exact ⟨frame, hframe, hlast⟩
    | above hnil => cases hnil
  · cases hlast

end Parser

end Parlance
