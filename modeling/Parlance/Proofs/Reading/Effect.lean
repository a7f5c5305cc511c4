import Parlance.Proofs.Reading.Blocks
import Parlance.Proofs.Reading.Takes

/-!
# What a token does to the open frames

A token that can be read changes the innermost frame, opens a frame on top of it, or closes it into
the frame below; an empty string or a line comment can end before it (`Settles`).  `Effect` says so,
and which blocks the frames then hold: those they held before, and a block that was just closed.

    read r s = .ok s' → ∃ t, Settles r s t ∧ Effect r t s'                           (read_effect)
    read r s = .ok s' → Stacked s → Stacked s'                                   (stacked_of_read)
-/

namespace Parlance

namespace Frame

/-- What a frame is to the frames on top of it. -/
inductive Role where
  | sentences (enclosure : Enclosure) (textStart : Nat) (position : Option Position)
  | quoted
  /-- No frame opens on top of this one. -/
  | other
  deriving DecidableEq

def role : Frame → Role
  | .sentences frame => .sentences frame.enclosure frame.textStart frame.position
  | .quoted _ => .quoted
  | _ => .other

/-- Frames as they can be open: the whole script at the bottom, brackets among sentences or in a
quoted string, and everything else among sentences. -/
inductive Stacked : List Frame → Prop
  | root {frame : Frame} (h : frame.role = .sentences .root 0 none) : Stacked [frame]
  | bracket {frame outer : Frame} {below : List Frame} {enclosure : Enclosure} {textStart : Nat}
    {position : Option Position} (hrole : frame.role = .sentences enclosure textStart position)
    (henclosure : enclosure ≠ .root) (houter : outer.role ≠ .other)
    (h : Stacked (outer :: below)) : Stacked (frame :: outer :: below)
  | raw {frame outer : Frame} {below : List Frame} {enclosure : Enclosure} {textStart : Nat}
    {position : Option Position} (hrole : frame.role = .quoted ∨ frame.role = .other)
    (houter : outer.role = .sentences enclosure textStart position)
    (h : Stacked (outer :: below)) : Stacked (frame :: outer :: below)

namespace Stacked

variable {frame outer after : Frame} {below : List Frame}

theorem ne_nil {stack : List Frame} (h : Stacked stack) : stack ≠ [] := by
  cases h <;> exact List.cons_ne_nil _ _

theorem tail (h : Stacked (frame :: outer :: below)) : Stacked (outer :: below) := by
  cases h <;> assumption

/-- A frame can be replaced by one of the same role. -/
theorem replace (h : Stacked (frame :: below)) (hrole : after.role = frame.role) :
    Stacked (after :: below) := by
  cases h with
  | root h => exact .root (hrole.trans h)
  | bracket h henclosure houter hbelow => exact .bracket (hrole.trans h) henclosure houter hbelow
  | raw h houter hbelow =>
    rw [← hrole] at h
    exact .raw h houter hbelow

/-- A raw text stands among sentences. -/
theorem below_other (h : Stacked (frame :: outer :: below)) (hrole : frame.role = .other) :
    ∃ enclosure textStart position, outer.role = .sentences enclosure textStart position := by
  cases h with
  | bracket h =>
    rw [hrole] at h
    cases h
  | raw _ houter => exact ⟨_, _, _, houter⟩

/-- The whole script stands at the bottom. -/
theorem below_root {frame : Sentences} (h : Stacked (.sentences frame :: below))
    (hroot : frame.enclosure = .root) : below = [] := by
  cases h with
  | root => rfl
  | bracket hrole henclosure => exact absurd ((Role.sentences.inj hrole).1.symm.trans hroot) henclosure
  | raw hrole => rcases hrole with hrole | hrole <;> cases hrole

/-- Only the sentences of the whole script stand at the bottom. -/
theorem below_ne_nil (h : Stacked (frame :: below)) (hroot : frame.role ≠ .sentences .root 0 none) :
    below ≠ [] := by
  cases h with
  | root h => exact absurd h hroot
  | bracket => exact List.cons_ne_nil _ _
  | raw => exact List.cons_ne_nil _ _

end Stacked

end Frame

namespace Parser

open Parlance.Frame (Role Stacked)

/-! ## Effects -/

/-- A frame that a token opens on top of `outer`. -/
def Opens (reading : Reading) (outer frame : Frame) : Prop :=
  (∃ enclosure, enclosure ≠ .root ∧ outer.role ≠ .other ∧ frame =
    .sentences (.start enclosure reading.token.position reading.position reading.after)) ∨
  ((frame.role = .quoted ∨ frame.role = .other) ∧ frame.blocks = [] ∧
    ∃ enclosure textStart position, outer.role = .sentences enclosure textStart position)

theorem ne_newline_of_closes {kind : Token.Kind} {delimiter : Delimiter}
    (h : closes kind = some delimiter) : kind ≠ .newline := by
  rintro rfl
  cases h

/-- The block that a frame makes when a brace closes it. -/
def closedBlock (reading : Reading) : Frame → List Block
  | .sentences frame =>
    match reading.token.kind, frame.enclosure, frame.finish with
    | .closeBlock, .block, .ok script =>
      [(script, Reading.text reading.log frame.textStart reading.before)]
    | _, _, _ => []
  | _ => []

/-- The effects of a token on the open frames. -/
inductive Effect (reading : Reading) : List Frame → List Frame → Prop
  | change {top after : Frame} {below : List Frame} (hrole : after.role = top.role)
    (hblocks : after.blocks ⊆ top.blocks) : Effect reading (top :: below) (after :: below)
  | opening {top after frame : Frame} {below : List Frame} (hrole : after.role = top.role)
    (hblocks : after.blocks ⊆ top.blocks) (hopens : Opens reading after frame) :
    Effect reading (top :: below) (frame :: after :: below)
  | closing {top outer after : Frame} {below : List Frame}
    (hkind : reading.token.kind ≠ .newline) (hrole : after.role = outer.role)
    (hblocks : after.blocks ⊆ closedBlock reading top ++ top.blocks ++ outer.blocks) :
    Effect reading (top :: outer :: below) (after :: below)

/-- Frames stay as they can be open. -/
theorem Effect.stacked {reading : Reading} {stack after : List Frame} (h : Effect reading stack after)
    (hs : Stacked stack) : Stacked after := by
  cases h with
  | change hrole _ => exact hs.replace hrole
  | opening hrole _ hopens =>
    have hafter := hs.replace hrole
    rcases hopens with ⟨enclosure, henclosure, houter, rfl⟩ |
      ⟨hkind, _, enclosure, textStart, position, houter⟩
    · exact .bracket rfl henclosure houter hafter
    · exact .raw hkind houter hafter
  | closing _ hrole _ => exact hs.tail.replace hrole

/-! ## Edits keep the role of a frame -/

theorem role_editWord {frame after : Frame.Sentences} {position : Option Position}
    {edit : Draft → Draft} (h : frame.editWord position edit = .ok after) :
    (Frame.sentences after).role = (Frame.sentences frame).role := by
  unfold Frame.Sentences.editWord at h
  dsimp only at h
  split at h
  · cases h
  · cases h
    rfl

theorem role_closeWord {frame after : Frame.Sentences} (h : frame.closeWord = .ok after) :
    (Frame.sentences after).role = (Frame.sentences frame).role := by
  unfold Frame.Sentences.closeWord at h
  split at h
  · cases h
    rfl
  · dsimp only at h
    split at h
    · cases h
    · cases h
      rfl

theorem role_closeSentence {frame after : Frame.Sentences} (h : frame.closeSentence = .ok after) :
    (Frame.sentences after).role = (Frame.sentences frame).role := by
  unfold Frame.Sentences.closeSentence at h
  obtain ⟨closed, hclose, h⟩ := map_eq_ok h
  have hclosed := role_closeWord hclose
  split at h <;> subst h <;> exact hclosed

/-- No word is open once a word was closed. -/
theorem word_of_closeWord {frame after : Frame.Sentences} (h : frame.closeWord = .ok after) :
    after.word = none := by
  unfold Frame.Sentences.closeWord at h
  split at h
  · rename_i hnone
    cases h
    exact hnone
  · dsimp only at h
    split at h
    · cases h
    · cases h
      rfl

theorem word_of_closeSentence {frame after : Frame.Sentences} (h : frame.closeSentence = .ok after) :
    after.word = none := by
  obtain ⟨closed, hclosed, h⟩ := map_eq_ok h
  have hword := word_of_closeWord hclosed
  split at h <;> subst h <;> exact hword

/-! ## Each construct -/

section Frames

variable {reading : Reading} {below stack : List Frame}

/-- A morpheme changes the frame that takes it. -/
theorem addMorpheme_eq_ok {morpheme : Morpheme} (h : Frame.addMorpheme morpheme below = .ok stack) :
    ∃ outer after rest, below = outer :: rest ∧ stack = after :: rest ∧ after.role = outer.role ∧
      after.blocks ⊆ morpheme.kind.blocks ++ outer.blocks := by
  unfold Frame.addMorpheme at h
  split at h
  · obtain ⟨after, hafter, rfl⟩ := map_eq_ok h
    exact ⟨_, _, _, rfl, rfl, role_editWord hafter, Frame.Sentences.blocks_pushMorpheme hafter⟩
  · cases h
    exact ⟨_, _, _, rfl, rfl, rfl, by simp only [Frame.blocks, Draft.blocks_push, List.Subset.refl]⟩
  · cases h

/-- Frames that settle are those below the one that ends. -/
theorem Settles.eq_or {stack settled : List Frame} (h : Settles reading stack settled) :
    settled = stack ∨ ∃ top outer after below, stack = top :: outer :: below ∧
      settled = after :: below ∧ top.role = .other ∧ after.role = outer.role ∧
      after.blocks ⊆ outer.blocks := by
  cases h with
  | keep => exact .inl rfl
  | pair h =>
    obtain ⟨outer, after, rest, rfl, rfl, hrole, hblocks⟩ := addMorpheme_eq_ok h
    exact .inr ⟨_, _, _, _, rfl, rfl, rfl, hrole, hblocks⟩
  | comment _ h =>
    obtain ⟨outer, after, rest, rfl, rfl, hrole, hblocks⟩ := addMorpheme_eq_ok h
    exact .inr ⟨_, _, _, _, rfl, rfl, rfl, hrole, hblocks⟩

theorem Settles.stacked {stack settled : List Frame} (h : Settles reading stack settled)
    (hs : Stacked stack) : Stacked settled := by
  rcases h.eq_or with rfl | ⟨top, outer, after, below, rfl, rfl, _, hrole, _⟩
  · exact hs
  · exact hs.tail.replace hrole

/-- A token of the kind that ends the line closes no frame. -/
theorem Ends.ne_newline {top : Frame} {morpheme : Morpheme} (h : Ends reading top morpheme) :
    reading.token.kind ≠ .newline := by
  cases h with
  | bracket hkind => exact ne_newline_of_closes hkind
  | string hkind | here hkind | tagged hkind | block hkind =>
    rw [hkind]
    decide

/-- A frame that is closed makes no block but the one that it may be. -/
theorem Ends.blocks_subset {top : Frame} {morpheme : Morpheme} (h : Ends reading top morpheme) :
    morpheme.kind.blocks ⊆ closedBlock reading top ++ top.blocks := by
  cases h with
  | @bracket frame delimiter script hkind hdelimiter hfinish =>
    have hscript : script.blocks ⊆
        closedBlock reading (.sentences frame) ++ (Frame.sentences frame).blocks :=
      fun block hblock => List.mem_append_right _ (Frame.Sentences.blocks_finish hfinish hblock)
    cases henclosure : frame.enclosure with
    | root =>
      rw [henclosure] at hdelimiter
      cases hdelimiter
    | tuple | expression => simpa only [Frame.Enclosure.kind, Morpheme.Kind.blocks] using hscript
    | block =>
      have hbrace : reading.token.kind = .closeBlock := by
        rw [henclosure] at hdelimiter
        cases hdelimiter
        cases htoken : reading.token.kind <;> rw [htoken] at hkind <;> cases hkind
      simp only [Frame.Enclosure.kind, Morpheme.Kind.blocks, List.cons_subset]
      refine ⟨List.mem_append_left _ ?_, hscript⟩
      simp only [closedBlock, hbrace, henclosure, hfinish, List.mem_singleton]
  | @string frame =>
    intro block hblock
    refine List.mem_append_right _ ?_
    simp only [Morpheme.Kind.blocks, Draft.mem_blocks_toList, Draft.blocks_settle] at hblock
    exact hblock
  | here | tagged | block => exact List.nil_subset _

theorem Edits.blocks {edit : Draft → Draft} (h : Edits reading edit) (draft : Draft) :
    (edit draft).blocks = draft.blocks := by
  cases h with
  | text => exact Draft.blocks_pushLiteral _ _ _ draft
  | asterisk => exact Draft.blocks_pushAsterisk _ _ draft
  | dollar => exact Draft.blocks_pushDollar _ draft

theorem EditsString.blocks {edit : Draft → Draft} (h : EditsString reading edit) (draft : Draft) :
    (edit draft).blocks = draft.blocks := by
  cases h with
  | word hedit => exact hedit.blocks draft
  | verbatim => rw [Draft.blocks_pushLiteral, Draft.blocks_settle]

theorem opens_ne_root {kind : Token.Kind} {enclosure : Frame.Enclosure}
    (h : opens kind = some enclosure) : enclosure ≠ .root := by
  rintro rfl
  cases kind <;> cases h

/-- What a run of quotes opens among sentences. -/
theorem opens_openQuotes (frame : Frame.Sentences) :
    Opens reading (.sentences frame) (openQuotes reading) := by
  refine .inr ?_
  unfold openQuotes
  dsimp only
  split
  · exact ⟨.inl rfl, rfl, _, _, _, rfl⟩
  · exact ⟨.inr rfl, rfl, _, _, _, rfl⟩
  · exact ⟨.inr rfl, rfl, _, _, _, rfl⟩

/-- Whatever a token does to the open frames has one of the effects. -/
theorem Takes.effect {stack after : List Frame} (h : Takes reading stack after) :
    Effect reading stack after := by
  cases h with
  | closesWord hkind h => exact .change (role_closeWord h) (Frame.Sentences.blocks_closeWord h)
  | closesSentence hkind h =>
    exact .change (role_closeSentence h) (Frame.Sentences.blocks_closeSentence h)
  | editsWord hedit _ h =>
    exact .change (role_editWord h) (Frame.Sentences.blocks_editWord_of_eq hedit.blocks h)
  | editsString hedit =>
    refine .change rfl ?_
    simp only [Frame.blocks, hedit.blocks, List.Subset.refl]
  | opensInWord hkind h =>
    refine .opening (role_editWord h) ?_ (.inl ⟨_, opens_ne_root hkind, by rintro ⟨⟩, rfl⟩)
    exact Frame.Sentences.blocks_editWord_of_eq (fun draft => rfl) h
  | opensInString hkind hplace =>
    exact .opening rfl (List.Subset.refl _) (.inl ⟨_, opens_ne_root hkind, by rintro ⟨⟩, rfl⟩)
  | opensQuotes => exact .opening rfl (List.Subset.refl _) (opens_openQuotes _)
  | opensComment =>
    exact .opening rfl (List.Subset.refl _) (.inr ⟨.inr rfl, rfl, _, _, _, rfl⟩)
  | opensTagged => exact .change rfl (List.Subset.refl _)
  | opensBlockComment => exact .change rfl (List.Subset.refl _)
  | goesOn h => cases h <;> exact .change rfl (List.Subset.refl _)
  | closes hends h =>
    obtain ⟨outer, after, rest, rfl, rfl, hrole, hblocks⟩ := addMorpheme_eq_ok h
    refine .closing hends.ne_newline hrole fun block hblock => ?_
    rcases List.mem_append.1 (hblocks hblock) with hnew | hold
    · exact List.mem_append_left _ (hends.blocks_subset hnew)
    · exact List.mem_append_right _ hold

/-- A token that can be read has one of the effects on the frames that it finds. -/
theorem read_effect {stack after : List Frame} (h : read reading stack = .ok after) :
    ∃ settled, Settles reading stack settled ∧ Effect reading settled after := by
  obtain ⟨settled, hsettles, htakes⟩ := takes_of_read h
  exact ⟨settled, hsettles, htakes.effect⟩

/-- Reading keeps the frames as they can be open. -/
theorem stacked_of_read {stack after : List Frame} (h : read reading stack = .ok after)
    (hs : Stacked stack) : Stacked after := by
  obtain ⟨settled, hsettles, heffect⟩ := read_effect h
  exact heffect.stacked (hsettles.stacked hs)

end Frames

end Parser

end Parlance
