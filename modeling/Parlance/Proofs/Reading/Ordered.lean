import Parlance.Proofs.Reading.Run

/-!
# Open frames, whatever the positions

The whole script stands at the bottom, brackets stand among sentences or in a quoted string, and
everything else stands among sentences that have no open word.  So a raw text always finds a place for
the morpheme that it becomes.

    read r s = .ok s' → Ordered s → Ordered s'                                    (ordered_of_read)
    Ordered (raw :: below) → addMorpheme m below is the first morpheme of a word  (addMorpheme_of_raw)
-/

namespace Parlance

namespace Frame

/-- Whether a frame holds neither sentences nor any frame on top of it but brackets. -/
def isRaw (frame : Frame) : Prop := frame.role = .quoted ∨ frame.role = .other

/-- Frames as they can be open. -/
inductive Ordered : List Frame → Prop
  | root {frame : Sentences} (hroot : frame.enclosure = .root) : Ordered [.sentences frame]
  | bracket {frame : Sentences} {outer : Frame} {below : List Frame}
    (henclosure : frame.enclosure ≠ .root) (houter : outer.role ≠ .other)
    (h : Ordered (outer :: below)) : Ordered (.sentences frame :: outer :: below)
  | raw {top : Frame} {frame : Sentences} {below : List Frame} (htop : top.isRaw)
    (hword : frame.word = none) (h : Ordered (.sentences frame :: below)) :
    Ordered (top :: .sentences frame :: below)

theorem not_isRaw_sentences (frame : Sentences) : ¬ (Frame.sentences frame).isRaw := by
  rintro (h | h) <;> cases h

theorem isRaw_of_ne {frame : Frame} (h : ∀ sentences, frame ≠ .sentences sentences) : frame.isRaw := by
  cases frame with
  | sentences frame => exact absurd rfl (h frame)
  | quoted => exact .inl rfl
  | quotePair | here | tagged | lineComment | blockComment => exact .inr rfl

/-- The only morpheme of a new word. -/
def Sentences.single (frame : Sentences) (morpheme : Morpheme) : Sentences :=
  { frame with word := some ⟨⟨[morpheme], .nothing⟩, morpheme.position⟩ }

namespace Ordered

variable {top after outer : Frame} {frame : Sentences} {below stack : List Frame}

theorem tail (h : Ordered (top :: outer :: below)) : Ordered (outer :: below) := by
  cases h <;> assumption

/-- A frame can be replaced by one of the same role. -/
theorem replace (h : Ordered (top :: below)) (hrole : after.role = top.role) :
    Ordered (after :: below) := by
  cases h with
  | @root frame hroot =>
    obtain ⟨new, rfl⟩ : ∃ new, after = .sentences new := by
      cases after <;> first | exact ⟨_, rfl⟩ | cases hrole
    exact .root ((Role.sentences.inj hrole).1.trans hroot)
  | @bracket frame outer below henclosure houter h =>
    obtain ⟨new, rfl⟩ : ∃ new, after = .sentences new := by
      cases after <;> first | exact ⟨_, rfl⟩ | cases hrole
    exact .bracket (fun hroot => henclosure ((Role.sentences.inj hrole).1.symm.trans hroot)) houter h
  | raw htop hword h =>
    refine .raw ?_ hword h
    unfold isRaw at htop ⊢
    rwa [hrole]

/-- A raw text stands among sentences without an open word. -/
theorem below_raw (h : Ordered (top :: below)) (htop : top.isRaw) :
    ∃ frame rest, below = .sentences frame :: rest ∧ frame.word = none ∧
      Ordered (.sentences frame :: rest) := by
  cases h with
  | root => exact absurd htop (not_isRaw_sentences _)
  | bracket => exact absurd htop (not_isRaw_sentences _)
  | raw _ hword h => exact ⟨_, _, rfl, hword, h⟩

/-- The whole script stands at the bottom. -/
theorem below_root (h : Ordered (.sentences frame :: below)) (hroot : frame.enclosure = .root) :
    below = [] := by
  cases h with
  | root => rfl
  | bracket henclosure => exact absurd hroot henclosure
  | raw htop => exact absurd htop (not_isRaw_sentences _)

end Ordered

/-- What a raw text becomes is the first morpheme of a word. -/
theorem addMorpheme_of_raw {top : Frame} {below : List Frame} (h : Ordered (top :: below))
    (htop : top.isRaw) (morpheme : Morpheme) :
    ∃ frame rest, below = .sentences frame :: rest ∧
      addMorpheme morpheme below = .ok (.sentences (frame.single morpheme) :: rest) := by
  obtain ⟨frame, rest, rfl, hword, -⟩ := h.below_raw htop
  refine ⟨frame, rest, rfl, ?_⟩
  unfold addMorpheme Sentences.pushMorpheme Sentences.editWord
  dsimp only
  rw [hword]
  rfl

end Frame

/-! ## Reading -/

namespace Parser

open Parlance.Frame (Ordered)

section Frames

variable {reading : Reading} {stack after : List Frame}

theorem ordered_of_settles (h : Settles reading stack after) (hs : Ordered stack) : Ordered after := by
  rcases h.eq_or with rfl | ⟨top, outer, new, below, rfl, rfl, -, hrole, -⟩
  · exact hs
  · exact hs.tail.replace hrole

/-- A run of quotes opens a raw frame. -/
theorem isRaw_openQuotes (reading : Reading) : (openQuotes reading).isRaw := by
  unfold openQuotes
  dsimp only
  split
  · exact .inl rfl
  · exact .inr rfl
  · exact .inr rfl

theorem ordered_of_takes (h : Takes reading stack after) (hs : Ordered stack) : Ordered after := by
  cases h with
  | closesWord hkind h => exact hs.replace (role_closeWord h)
  | closesSentence hkind h => exact hs.replace (role_closeSentence h)
  | editsWord hedit hword h => exact hs.replace (role_editWord h)
  | editsString hedit => exact hs.replace rfl
  | opensInWord hkind h =>
    exact .bracket (opens_ne_root hkind) (by rintro ⟨⟩) (hs.replace (role_editWord h))
  | opensInString hkind => exact .bracket (opens_ne_root hkind) (by rintro ⟨⟩) hs
  | opensQuotes hkind hword => exact .raw (isRaw_openQuotes reading) hword hs
  | opensComment hkind hword => exact .raw (.inr rfl) hword hs
  | opensTagged => exact hs.replace rfl
  | opensBlockComment => exact hs.replace rfl
  | goesOn h => cases h <;> exact hs.replace rfl
  | closes hends h =>
    obtain ⟨outer, new, rest, rfl, rfl, hrole, -⟩ := addMorpheme_eq_ok h
    exact hs.tail.replace hrole

theorem ordered_of_read (h : read reading stack = .ok after) (hs : Ordered stack) : Ordered after := by
  obtain ⟨settled, hsettles, htakes⟩ := takes_of_read h
  exact ordered_of_takes htakes (ordered_of_settles hsettles hs)

end Frames

theorem ordered_push (token : Token) {parser : Parser} (hs : Ordered parser.stack) :
    Ordered (push token parser).2.stack := by
  unfold push
  split
  · exact hs
  · dsimp only
    split
    · rename_i stack hread
      exact ordered_of_read hread hs
    · exact hs

theorem ordered_run (tokens : List Token) {parser : Parser} (hs : Ordered parser.stack) :
    Ordered (run tokens parser).stack := by
  induction tokens generalizing parser with
  | nil => exact hs
  | cons token rest ih => exact ih (ordered_push token hs)

theorem ordered_start (options : Options) : Ordered (start options).stack := .root rfl

end Parser

end Parlance
