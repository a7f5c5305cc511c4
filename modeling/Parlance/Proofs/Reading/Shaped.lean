import Mathlib
import Parlance.Proofs.Reading.Run
import Parlance.Proofs.WellShaped

/-!
# What is read is well shaped

A word is checked when it ends, the parts of a quoted string never are: they are stems because the
draft of the string tracks what a marker expects.  `Draft.Stemmed` says how the parts stand for each
expectation, and a bracket opened in a string fits the expectation it was opened at.

    draft.Stemmed → draft.settle.areStems                                        (areStems_settle)
    read r s = .ok s' → ShapedStack s → ShapedStack s'                                (shaped_read)
    parse text options = .ok tree → tree.isWellShaped                          (isWellShaped_parse)
-/

namespace Parlance

namespace Draft

/-! ## Stems under construction -/

/-- Whether morphemes can follow what a draft expects. -/
def Expecting.admits : Expecting → List Morpheme → Bool
  | .nothing, rest => Morpheme.areStems false rest
  | .selectors, rest => Morpheme.areStems true rest
  | .target, replaced :: rest => replaced.kind.isSubstitutable && Morpheme.areStems true rest
  | .target, [] => false

/-- Stems, the latest first, and what is expected after them. -/
inductive Stems : List Morpheme → Expecting → Prop
  | empty : Stems [] .nothing
  | literal {before : List Morpheme} {expecting : Expecting} {text : String}
    {position : Option Position} (h : Stems before expecting) (hsettled : expecting ≠ .target) :
    Stems (⟨.literal text, position⟩ :: before) .nothing
  | expression {before : List Morpheme} {body : Script} {position : Option Position}
    (h : Stems before .nothing) : Stems (⟨.expression body, position⟩ :: before) .nothing
  | marker {before : List Morpheme} {expecting : Expecting} {expands : Bool} {levels : Nat}
    {text : String} {position : Option Position} (h : Stems before expecting)
    (hsettled : expecting ≠ .target) :
    Stems (⟨.marker expands levels text, position⟩ :: before) .target
  | target {before : List Morpheme} {morpheme : Morpheme} (h : Stems before .target)
    (hreplaced : morpheme.kind.isSubstitutable) : Stems (morpheme :: before) .selectors
  | selector {before : List Morpheme} {morpheme : Morpheme} (h : Stems before .selectors)
    (hselector : morpheme.kind.isSelector) : Stems (morpheme :: before) .selectors

namespace Stems

variable {items rest : List Morpheme} {expecting : Expecting}

/-- Stems go on with what they admit. -/
theorem areStems_append (h : Stems items expecting) (hrest : expecting.admits rest) :
    Morpheme.areStems false (items.reverse ++ rest) := by
  induction h generalizing rest with
  | empty => exact hrest
  | literal _ hsettled ih =>
    rw [List.reverse_cons, List.append_assoc]
    apply ih
    rename_i before expecting _ _ _
    cases expecting with
    | nothing | selectors => exact hrest
    | target => exact absurd rfl hsettled
  | expression _ ih =>
    rw [List.reverse_cons, List.append_assoc]
    exact ih hrest
  | marker _ hsettled ih =>
    rw [List.reverse_cons, List.append_assoc]
    apply ih
    rename_i before expecting _ _ _ _ _
    cases expecting with
    | nothing | selectors => cases rest <;> exact hrest
    | target => exact absurd rfl hsettled
  | target _ hreplaced ih =>
    rw [List.reverse_cons, List.append_assoc]
    apply ih
    show (_ && Morpheme.areStems true rest) = true
    rw [hreplaced]
    exact hrest
  | selector _ hselector ih =>
    rw [List.reverse_cons, List.append_assoc]
    apply ih
    rename_i before morpheme _
    obtain ⟨kind, position⟩ := morpheme
    cases kind <;> first | (cases hselector; done) | exact hrest

/-- A marker stands last when one expects something to replace. -/
theorem exists_marker (h : Stems items .target) :
    ∃ expands levels text position before,
      items = ⟨.marker expands levels text, position⟩ :: before := by
  cases h with
  | marker => exact ⟨_, _, _, _, _, rfl⟩

/-- What stands before a marker. -/
theorem before_marker {expands : Bool} {levels : Nat} {text : String} {position : Option Position}
    (h : Stems (⟨.marker expands levels text, position⟩ :: items) expecting) :
    expecting = .target ∧ ∃ before, Stems items before ∧ before ≠ .target := by
  cases h with
  | marker h hsettled => exact ⟨rfl, _, h, hsettled⟩
  | target _ hreplaced => cases hreplaced
  | selector _ hselector => cases hselector

/-- What stands before a literal that no marker replaces. -/
theorem before_literal {text : String} {position : Option Position} {any : Expecting}
    (h : Stems (⟨.literal text, position⟩ :: items) expecting)
    (hplain : (Draft.mk (⟨.literal text, position⟩ :: items) any).endsWithTarget = false) :
    expecting = .nothing ∧ ∃ before, Stems items before ∧ before ≠ .target := by
  cases h with
  | literal h hsettled => exact ⟨rfl, _, h, hsettled⟩
  | target h _ =>
    obtain ⟨_, _, _, _, _, rfl⟩ := h.exists_marker
    cases hplain
  | selector _ hselector => cases hselector

end Stems

/-- Whether the morphemes of a draft are stems so far. -/
def Stemmed (draft : Draft) : Prop := Stems draft.items draft.expecting

section Stemmed

variable {draft : Draft} {items : List Morpheme} {expecting : Expecting}

theorem stemmed_addLiteral {text : String} {position : Option Position}
    (h : Stems items expecting) : (addLiteral text position ⟨items, expecting⟩).Stemmed := by
  cases expecting with
  | nothing => exact .literal h (by decide)
  | selectors => exact .literal h (by decide)
  | target => exact .target h rfl

theorem stemmed_pushLiteral {text : String} {position : Option Position} {extendsTarget : Bool}
    (h : draft.Stemmed) : (draft.pushLiteral text position extendsTarget).Stemmed := by
  obtain ⟨items, expecting⟩ := draft
  unfold pushLiteral
  split
  · rename_i value start before hitems
    dsimp only at hitems
    subst hitems
    split
    · rename_i hmerges
      cases hplain : (Draft.mk (⟨.literal value, start⟩ :: before) expecting).endsWithTarget with
      | false =>
        obtain ⟨rfl, _, hbefore, hsettled⟩ := Stems.before_literal h hplain
        exact .literal hbefore hsettled
      | true =>
        rw [hplain] at hmerges
        simp only [Bool.not_true, Bool.false_or, Bool.and_eq_true, decide_eq_true_iff] at hmerges
        obtain ⟨-, rfl⟩ := hmerges
        cases h with
        | target hbefore _ => exact .target hbefore rfl
        | selector _ hselector => cases hselector
    · exact stemmed_addLiteral h
  · exact stemmed_addLiteral h

theorem stemmed_addMarker {position : Option Position} (h : draft.Stemmed)
    (hsettled : draft.expecting ≠ .target) : (draft.addMarker position).Stemmed :=
  .marker h hsettled

theorem stemmed_pushDollar {position : Option Position} (h : draft.Stemmed) :
    (draft.pushDollar position).Stemmed := by
  obtain ⟨items, expecting⟩ := draft
  unfold pushDollar
  split
  · rename_i expands levels text start before hitems
    dsimp only at hitems
    subst hitems
    obtain ⟨rfl, _, hbefore, hsettled⟩ := Stems.before_marker h
    exact .marker hbefore hsettled
  · rename_i hlast
    refine stemmed_addMarker h fun htarget => ?_
    dsimp only at htarget
    subst htarget
    obtain ⟨_, _, _, _, _, hitems⟩ := Stems.exists_marker h
    exact hlast _ _ _ _ _ hitems

theorem stemmed_pushAsterisk {text : String} {position : Option Position} (h : draft.Stemmed) :
    (draft.pushAsterisk text position).Stemmed := by
  obtain ⟨items, expecting⟩ := draft
  unfold pushAsterisk
  split
  · rename_i levels marker start before hitems
    dsimp only at hitems
    subst hitems
    split
    · obtain ⟨rfl, _, hbefore, hsettled⟩ := Stems.before_marker h
      exact .marker hbefore hsettled
    · exact stemmed_pushLiteral h
  · exact stemmed_pushLiteral h

/-- A bracket fits where an expression stands between stems, or where one expects something. -/
theorem stemmed_push {morpheme : Morpheme} (h : draft.Stemmed)
    (hselector : morpheme.kind.isSelector)
    (hplace : draft.expecting = .nothing → ∃ body, morpheme.kind = .expression body) :
    (draft.push morpheme).Stemmed := by
  obtain ⟨items, expecting⟩ := draft
  obtain ⟨kind, position⟩ := morpheme
  cases expecting with
  | nothing =>
    obtain ⟨body, rfl⟩ := hplace rfl
    exact .expression h
  | selectors =>
    unfold push
    rw [if_pos ⟨nofun, hselector⟩]
    exact .selector h hselector
  | target =>
    unfold push
    rw [if_pos ⟨nofun, hselector⟩]
    exact .target h (by cases kind <;> first | rfl | cases hselector)

/-- Text can stand where a marker stood. -/
theorem stemmed_replaceMarker {text : String} {position : Option Position} {before : Expecting}
    (h : Stems items before) (hsettled : before ≠ .target) :
    (pushLiteral text position false ⟨items, .nothing⟩).Stemmed ∧
      (pushLiteral text position false ⟨items, .nothing⟩).expecting ≠ .target := by
  unfold pushLiteral
  dsimp only
  split
  · rename_i value start rest
    split
    · rename_i hmerges
      simp only [Bool.false_and, Bool.or_false, Bool.not_eq_true'] at hmerges
      obtain ⟨-, _, hbefore, hsettled⟩ := Stems.before_literal h hmerges
      exact ⟨.literal hbefore hsettled, nofun⟩
    · exact ⟨.literal h hsettled, nofun⟩
  · exact ⟨.literal h hsettled, nofun⟩

theorem stemmed_settle (h : draft.Stemmed) :
    draft.settle.Stemmed ∧ draft.settle.expecting ≠ .target := by
  obtain ⟨items, expecting⟩ := draft
  unfold settle isPending
  dsimp only
  split
  · rename_i hpending
    rw [decide_eq_true_iff] at hpending
    subst hpending
    obtain ⟨_, _, _, _, _, rfl⟩ := Stems.exists_marker h
    obtain ⟨-, _, hbefore, hsettled⟩ := Stems.before_marker h
    exact stemmed_replaceMarker hbefore hsettled
  · rename_i hpending
    exact ⟨h, fun htarget => hpending (decide_eq_true htarget)⟩

/-- The parts of a string that ends are stems. -/
theorem areStems_settle (h : draft.Stemmed) : Morpheme.areStems false draft.settle.toList := by
  obtain ⟨hsettle, hsettled⟩ := stemmed_settle h
  have hend : draft.settle.expecting.admits [] := by
    cases hexpecting : draft.settle.expecting with
    | nothing | selectors => rfl
    | target => exact absurd hexpecting hsettled
  have hstems := Stems.areStems_append hsettle hend
  rwa [List.append_nil] at hstems

end Stemmed

/-! ## Well-shaped morphemes -/

section WellShaped

variable {draft : Draft}

/-- Whether every morpheme of a draft is well shaped. -/
def isWellShaped (draft : Draft) : Bool := Morpheme.areWellShaped draft.items

theorem isWellShaped_push {morpheme : Morpheme} (hmorpheme : morpheme.kind.isWellShaped)
    (h : draft.isWellShaped) : (draft.push morpheme).isWellShaped := by
  unfold isWellShaped push
  rw [Morpheme.areWellShaped_cons, Bool.and_eq_true]
  exact ⟨hmorpheme, h⟩

theorem isWellShaped_pushLiteral {text : String} {position : Option Position} {extendsTarget : Bool}
    (h : draft.isWellShaped) : (draft.pushLiteral text position extendsTarget).isWellShaped := by
  obtain ⟨items, expecting⟩ := draft
  unfold pushLiteral
  split
  · rename_i hitems
    dsimp only at hitems
    subst hitems
    split <;> simpa [isWellShaped, addLiteral, Morpheme.Kind.isWellShaped] using h
  · simpa [isWellShaped, addLiteral, Morpheme.Kind.isWellShaped] using h

theorem isWellShaped_pushDollar {position : Option Position} (h : draft.isWellShaped) :
    (draft.pushDollar position).isWellShaped := by
  obtain ⟨items, expecting⟩ := draft
  unfold pushDollar
  split
  · rename_i hitems
    dsimp only at hitems
    subst hitems
    split <;> simpa [isWellShaped, addMarker, Morpheme.Kind.isWellShaped] using h
  · simpa [isWellShaped, addMarker, Morpheme.Kind.isWellShaped] using h

theorem isWellShaped_pushAsterisk {text : String} {position : Option Position}
    (h : draft.isWellShaped) : (draft.pushAsterisk text position).isWellShaped := by
  obtain ⟨items, expecting⟩ := draft
  unfold pushAsterisk
  split
  · rename_i hitems
    dsimp only at hitems
    subst hitems
    split
    · simpa [isWellShaped, Morpheme.Kind.isWellShaped] using h
    · exact isWellShaped_pushLiteral h
  · exact isWellShaped_pushLiteral h

theorem isWellShaped_settle (h : draft.isWellShaped) : draft.settle.isWellShaped := by
  obtain ⟨items, expecting⟩ := draft
  unfold settle
  split
  · dsimp only
    split
    · refine isWellShaped_pushLiteral ?_
      simpa [isWellShaped, Morpheme.Kind.isWellShaped] using h
    · exact h
  · exact h

theorem areWellShaped_toList (h : draft.isWellShaped) : Morpheme.areWellShaped draft.toList := by
  rw [Morpheme.areWellShaped_iff]
  intro morpheme hmorpheme
  exact Morpheme.areWellShaped_iff.1 h morpheme (List.mem_reverse.1 hmorpheme)

end WellShaped

end Draft

/-! ## Frames -/

namespace Frame

/-- Whether sentences under construction are well shaped so far. -/
structure Sentences.Shaped (frame : Sentences) : Prop where
  sentences : Sentence.areWellShaped frame.sentences
  words : Word.areWellShaped frame.words
  word : ∀ word ∈ frame.word, word.morphemes.isWellShaped

/-- Whether what a frame holds is well shaped so far. -/
def Shaped : Frame → Prop
  | .sentences frame => frame.Shaped
  | .quoted frame => frame.morphemes.Stemmed ∧ frame.morphemes.isWellShaped
  | _ => True

/-- Whether a frame can stand on another: in a quoted string stand only brackets that can be a stem
there. -/
def Fits : Frame → Frame → Prop
  | .sentences frame, .quoted outer =>
    outer.morphemes.expecting = .nothing → frame.enclosure = .expression
  | _, .quoted _ => False
  | _, _ => True

/-- Whether a frame holds sentences. -/
def holdsSentences : Frame → Bool
  | .sentences _ => true
  | _ => false

/-- Only sentences stand on a quoted string. -/
theorem Fits.ne_quoted {top outer : Frame} (h : top.Fits outer) (htop : top.holdsSentences = false)
    (quoted : Quoted) : outer ≠ .quoted quoted := by
  rintro rfl
  cases top with
  | sentences => cases htop
  | quoted | quotePair | here | tagged | lineComment | blockComment => exact h

theorem fits_of_ne_quoted {top outer : Frame} (h : ∀ quoted, outer ≠ .quoted quoted) :
    top.Fits outer := by
  cases outer with
  | quoted quoted => exact absurd rfl (h quoted)
  | sentences | quotePair | here | tagged | lineComment | blockComment =>
    cases top <;> exact trivial

/-- Open frames that are well shaped and fit each other. -/
structure ShapedStack (stack : List Frame) : Prop where
  shaped : ∀ frame ∈ stack, frame.Shaped
  fits : stack.IsChain Fits

namespace ShapedStack

variable {top after outer : Frame} {below : List Frame}

theorem tail (h : ShapedStack (top :: below)) : ShapedStack below :=
  ⟨fun frame hframe => h.shaped frame (List.mem_cons_of_mem _ hframe), h.fits.tail⟩

theorem head (h : ShapedStack (top :: below)) : top.Shaped := h.shaped top List.mem_cons_self

/-- A frame opens on a frame it fits. -/
theorem cons (h : ShapedStack (outer :: below)) (htop : top.Shaped) (hfits : top.Fits outer) :
    ShapedStack (top :: outer :: below) :=
  ⟨List.forall_mem_cons.2 ⟨htop, h.shaped⟩, List.isChain_cons_cons.2 ⟨hfits, h.fits⟩⟩

/-- A frame can be replaced by one that fits the same frames. -/
theorem replace (h : ShapedStack (top :: below)) (hafter : after.Shaped)
    (hfits : ∀ outer, top.Fits outer → after.Fits outer) : ShapedStack (after :: below) := by
  cases below with
  | nil => exact ⟨List.forall_mem_singleton.2 hafter, List.isChain_singleton _⟩
  | cons outer below => exact h.tail.cons hafter (hfits outer (List.isChain_cons_cons.1 h.fits).1)

theorem fits_head (h : ShapedStack (top :: outer :: below)) : top.Fits outer :=
  (List.isChain_cons_cons.1 h.fits).1

end ShapedStack

theorem shaped_start {enclosure : Enclosure} {openedAt : Position} {position : Option Position}
    {textStart : Nat} : (Sentences.start enclosure openedAt position textStart).Shaped :=
  ⟨rfl, rfl, by rintro _ ⟨⟩⟩

namespace Sentences

variable {frame after : Sentences}

theorem shaped_editWord {position : Option Position} {edit : Draft → Draft}
    (hedit : ∀ draft : Draft, draft.isWellShaped → (edit draft).isWellShaped)
    (h : frame.editWord position edit = .ok after) (hs : frame.Shaped) :
    after.Shaped ∧ after.enclosure = frame.enclosure := by
  unfold editWord at h
  dsimp only at h
  split at h
  · cases h
  · cases h
    refine ⟨⟨hs.sentences, hs.words, ?_⟩, rfl⟩
    rintro word ⟨⟩
    apply hedit
    cases hword : frame.word with
    | none => rfl
    | some word => exact hs.word word hword

theorem shaped_closeWord (h : frame.closeWord = .ok after) (hs : frame.Shaped) :
    after.Shaped ∧ after.enclosure = frame.enclosure := by
  unfold closeWord at h
  split at h
  · cases h
    exact ⟨hs, rfl⟩
  · rename_i morphemes position hword
    dsimp only at h
    split at h
    · cases h
    · rename_i hshape
      cases h
      refine ⟨⟨hs.sentences, ?_, by rintro _ ⟨⟩⟩, rfl⟩
      have hmorphemes := hs.word ⟨morphemes, position⟩ hword
      simp only [Word.areWellShaped_cons, Bool.and_eq_true, decide_eq_true_iff]
      exact ⟨⟨hshape, Draft.areWellShaped_toList (Draft.isWellShaped_settle hmorphemes)⟩, hs.words⟩

theorem shaped_closeSentence (h : frame.closeSentence = .ok after) (hs : frame.Shaped) :
    after.Shaped ∧ after.enclosure = frame.enclosure := by
  unfold closeSentence at h
  obtain ⟨closed, hclose, h⟩ := map_eq_ok h
  obtain ⟨hclosed, henclosure⟩ := shaped_closeWord hclose hs
  split at h <;> subst h
  · exact ⟨hclosed, henclosure⟩
  · refine ⟨⟨?_, rfl, hclosed.word⟩, henclosure⟩
    rw [Sentence.areWellShaped_cons, Bool.and_eq_true]
    refine ⟨Word.areWellShaped_iff.2 fun word hword => ?_, hclosed.sentences⟩
    exact Word.areWellShaped_iff.1 hclosed.words word (List.mem_reverse.1 hword)

/-- The script of well-shaped sentences. -/
theorem isWellShaped_finish {script : Script} (h : frame.finish = .ok script) (hs : frame.Shaped) :
    script.isWellShaped := by
  unfold finish at h
  obtain ⟨closed, hclose, rfl⟩ := map_eq_ok h
  rw [Script.isWellShaped]
  refine Sentence.areWellShaped_iff.2 fun sentence hsentence => ?_
  exact Sentence.areWellShaped_iff.1 (shaped_closeSentence hclose hs).1.sentences sentence
    (List.mem_reverse.1 hsentence)

end Sentences

/-- A morpheme that fits the frame that takes it. -/
theorem shaped_addMorpheme {morpheme : Morpheme} {below stack : List Frame}
    (hmorpheme : morpheme.kind.isWellShaped)
    (hfits : ∀ outer rest, below = .quoted outer :: rest → morpheme.kind.isSelector ∧
      (outer.morphemes.expecting = .nothing → ∃ body, morpheme.kind = .expression body))
    (h : addMorpheme morpheme below = .ok stack) (hs : ShapedStack below) : ShapedStack stack := by
  unfold addMorpheme at h
  split at h
  · rename_i frame below hnotQuoted
    obtain ⟨after, hafter, rfl⟩ := map_eq_ok h
    obtain ⟨hshaped, henclosure⟩ :=
      Sentences.shaped_editWord (fun _ => Draft.isWellShaped_push hmorpheme) hafter hs.head
    refine hs.replace hshaped fun outer => ?_
    cases outer with
    | quoted outer =>
      intro hfits hnothing
      exact henclosure.trans (hfits hnothing)
    | sentences | quotePair | here | tagged | lineComment | blockComment => exact id
  · rename_i frame below
    cases h
    obtain ⟨hselector, hplace⟩ := hfits _ _ rfl
    refine hs.replace ?_ fun outer hfits => fits_of_ne_quoted (hfits.ne_quoted rfl)
    exact ⟨Draft.stemmed_push hs.head.1 hselector hplace,
      Draft.isWellShaped_push hmorpheme hs.head.2⟩
  · cases h

end Frame

/-! ## Reading -/

namespace Parser

open Parlance.Frame (ShapedStack shaped_addMorpheme)

section Frames

variable {reading : Reading} {below stack : List Frame}

/-- A raw text ends among sentences, which take any morpheme. -/
theorem shaped_endRaw {top : Frame} {morpheme : Morpheme} (hmorpheme : morpheme.kind.isWellShaped)
    (htop : top.holdsSentences = false)
    (h : Frame.addMorpheme morpheme below = .ok stack) (hs : ShapedStack (top :: below)) :
    ShapedStack stack := by
  refine shaped_addMorpheme hmorpheme ?_ h hs.tail
  rintro outer rest rfl
  exact absurd rfl (hs.fits_head.ne_quoted htop outer)

/-- A text that goes on. -/
theorem shaped_raw {top after : Frame} (htop : top.holdsSentences = false)
    (hafter : after.Shaped) (hs : ShapedStack (top :: below)) : ShapedStack (after :: below) :=
  hs.replace hafter fun _ hfits => Frame.fits_of_ne_quoted (hfits.ne_quoted htop)

/-- An edit of the sentences on top. -/
theorem shaped_sentences {frame after : Frame.Sentences}
    (hafter : after.Shaped ∧ after.enclosure = frame.enclosure)
    (hs : ShapedStack (.sentences frame :: below)) : ShapedStack (.sentences after :: below) := by
  refine hs.replace hafter.1 fun outer hfits => ?_
  cases outer with
  | quoted => exact fun hnothing => hafter.2.trans (hfits hnothing)
  | sentences | quotePair | here | tagged | lineComment | blockComment => exact trivial

theorem isWellShaped_edits {edit : Draft → Draft} (h : Edits reading edit) {draft : Draft}
    (hdraft : draft.isWellShaped) : (edit draft).isWellShaped := by
  cases h with
  | text => exact Draft.isWellShaped_pushLiteral hdraft
  | asterisk => exact Draft.isWellShaped_pushAsterisk hdraft
  | dollar => exact Draft.isWellShaped_pushDollar hdraft

/-- The parts of a string stay stems under every edit. -/
theorem stemmed_editsString {edit : Draft → Draft} (h : EditsString reading edit) {draft : Draft}
    (hdraft : draft.Stemmed ∧ draft.isWellShaped) :
    (edit draft).Stemmed ∧ (edit draft).isWellShaped := by
  obtain ⟨hstemmed, hshaped⟩ := hdraft
  cases h with
  | verbatim =>
    exact ⟨Draft.stemmed_pushLiteral (Draft.stemmed_settle hstemmed).1,
      Draft.isWellShaped_pushLiteral (Draft.isWellShaped_settle hshaped)⟩
  | word hedit =>
    refine ⟨?_, isWellShaped_edits hedit hshaped⟩
    cases hedit with
    | text => exact Draft.stemmed_pushLiteral hstemmed
    | asterisk => exact Draft.stemmed_pushAsterisk hstemmed
    | dollar => exact Draft.stemmed_pushDollar hstemmed

/-- A run of quotes opens a frame without morphemes. -/
theorem shaped_openQuotes (frame : Frame.Sentences) :
    (openQuotes reading).Shaped ∧ (openQuotes reading).Fits (.sentences frame) := by
  unfold openQuotes
  dsimp only
  split
  · exact ⟨⟨.empty, rfl⟩, trivial⟩
  · exact ⟨trivial, trivial⟩
  · exact ⟨trivial, trivial⟩

/-- A frame that is closed fits the frame below as the morpheme that it becomes. -/
theorem shaped_ends {top : Frame} {morpheme : Morpheme} (hends : Ends reading top morpheme)
    (h : Frame.addMorpheme morpheme below = .ok stack) (hs : ShapedStack (top :: below)) :
    ShapedStack stack := by
  cases hends with
  | @bracket frame delimiter script hkind hdelimiter hfinish =>
    have hscript := Frame.Sentences.isWellShaped_finish hfinish hs.head
    refine shaped_addMorpheme ?_ ?_ h hs.tail
    · cases frame.enclosure <;>
        (rw [Frame.Enclosure.kind, Morpheme.Kind.isWellShaped]; exact hscript)
    · -- In a quoted string only an expression can be a stem of its own.
      rintro outer rest rfl
      refine ⟨by cases frame.enclosure <;> rfl, fun hnothing => ⟨script, ?_⟩⟩
      have hexpression : frame.enclosure = .expression := hs.fits_head hnothing
      rw [hexpression]
      rfl
  | string =>
    refine shaped_endRaw ?_ rfl h hs
    rw [Morpheme.Kind.isWellShaped, Bool.and_eq_true]
    exact ⟨Draft.areStems_settle hs.head.1,
      Draft.areWellShaped_toList (Draft.isWellShaped_settle hs.head.2)⟩
  | here | tagged | block => exact shaped_endRaw rfl rfl h hs

theorem shaped_takes {stack after : List Frame} (h : Takes reading stack after)
    (hs : ShapedStack stack) : ShapedStack after := by
  cases h with
  | closesWord hkind h => exact shaped_sentences (Frame.Sentences.shaped_closeWord h hs.head) hs
  | closesSentence hkind h =>
    exact shaped_sentences (Frame.Sentences.shaped_closeSentence h hs.head) hs
  | editsWord hedit _ h =>
    have hafter := Frame.Sentences.shaped_editWord (fun _ => isWellShaped_edits hedit) h hs.head
    exact shaped_sentences hafter hs
  | editsString hedit => exact shaped_raw rfl (stemmed_editsString hedit hs.head) hs
  | opensInWord hkind h =>
    have hafter := Frame.Sentences.shaped_editWord (fun _ => id) h hs.head
    exact (shaped_sentences hafter hs).cons Frame.shaped_start trivial
  | opensInString hkind hplace => exact hs.cons Frame.shaped_start hplace
  | @opensQuotes frame =>
    obtain ⟨hshaped, hfits⟩ := shaped_openQuotes frame
    exact hs.cons hshaped hfits
  | opensComment => exact hs.cons trivial trivial
  | opensTagged => exact shaped_raw rfl trivial hs
  | opensBlockComment => exact shaped_raw rfl trivial hs
  | goesOn h => cases h <;> exact shaped_raw rfl trivial hs
  | closes hends h => exact shaped_ends hends h hs

theorem shaped_settles {stack settled : List Frame} (h : Settles reading stack settled)
    (hs : ShapedStack stack) : ShapedStack settled := by
  cases h with
  | keep => exact hs
  | pair hadd => exact shaped_endRaw rfl rfl hadd hs
  | comment _ hadd => exact shaped_endRaw rfl rfl hadd hs

/-- A token keeps the frames well shaped. -/
theorem shaped_read {stack after : List Frame} (h : read reading stack = .ok after)
    (hs : ShapedStack stack) : ShapedStack after := by
  obtain ⟨settled, hsettles, htakes⟩ := takes_of_read h
  exact shaped_takes htakes (shaped_settles hsettles hs)

end Frames

/-! ## Whole texts -/

theorem shaped_push (token : Token) {parser : Parser} (hs : ShapedStack parser.stack) :
    ShapedStack (push token parser).2.stack := by
  unfold push
  split
  · exact hs
  · dsimp only
    split
    · rename_i stack hread
      exact shaped_read hread hs
    · exact hs

theorem shaped_run (tokens : List Token) {parser : Parser} (hs : ShapedStack parser.stack) :
    ShapedStack (run tokens parser).stack := by
  induction tokens generalizing parser with
  | nil => exact hs
  | cons token rest ih => exact ih (shaped_push token hs)

/-- The script of a well-shaped stack. -/
theorem isWellShaped_finish {log : Array String} {stack : List Frame} {script : Script}
    (h : finish log stack = .ok script) (hs : ShapedStack stack) : script.isWellShaped := by
  obtain ⟨closed, hclosed, h⟩ := bind_eq_ok h
  have hshaped : ShapedStack closed := by
    unfold closeInnermost at hclosed
    split at hclosed
    · exact shaped_endRaw rfl rfl hclosed hs
    · exact shaped_endRaw rfl rfl hclosed hs
    · cases hclosed
      exact hs
  split at h
  · exact Frame.Sentences.isWellShaped_finish h hshaped.head
  · cases h

theorem isWellShaped_close {parser : Parser} {script : Script} (h : parser.close.1 = .ok script)
    (hs : ShapedStack parser.stack) : script.isWellShaped := by
  unfold close at h
  split at h
  · cases h
  · split at h
    · cases h
    · split at h
      · rename_i hfinish
        cases h
        exact isWellShaped_finish hfinish hs
      · cases h

theorem shaped_rootFrame (options : Options) : ShapedStack (start options).stack :=
  ⟨List.forall_mem_singleton.2 Frame.shaped_start, List.isChain_singleton _⟩

end Parser

/-- What is read is well shaped. -/
theorem isWellShaped_parse {text : String} {options : Parser.Options} {tree : Script}
    (h : parse text options = .ok tree) : tree.isWellShaped := by
  rw [Parser.parse_eq_close_run] at h
  exact Parser.isWellShaped_close h (Parser.shaped_run _ (Parser.shaped_rootFrame options))

/-- What is read compiles, whole and in parts, and so does every script in its brackets: the body
of a block can be run later. -/
theorem compiles_of_parse {text : String} {options : Parser.Options} {tree : Script}
    (h : parse text options = .ok tree) (source : Option Source) :
    tree.Compiles source ∧ ∀ body ∈ tree.bodies, body.Compiles source := by
  have htree := isWellShaped_parse h
  refine ⟨Script.compiles htree source, fun body hbody => ?_⟩
  exact Script.compiles (Script.isWellShaped_of_mem_bodies tree htree body hbody) source

/-- A block with an expression in it, and a quoted string with selectors and a block as a name. -/
theorem compiles_of_parse_nested :
    ∃ tree, parse "a \x7bb [c]\x7d \"$d(e)[f] $\x7bg\x7d\"" ⟨true⟩ = .ok tree ∧
      tree.bodies.length = 5 ∧ tree.Compiles none ∧ ∀ body ∈ tree.bodies, body.Compiles none := by
  have hbodies : (parse "a \x7bb [c]\x7d \"$d(e)[f] $\x7bg\x7d\"" ⟨true⟩).map
      (fun tree => tree.bodies.length) = .ok 5 := by
    cbv
  obtain ⟨tree, hparse, hlength⟩ := map_eq_ok hbodies
  exact ⟨tree, hparse, hlength, compiles_of_parse hparse none⟩

end Parlance
