import Mathlib.Data.List.Chain
import Parlance.Proofs.Reading.Hopeless
import Parlance.Proofs.Reading.Reachable
import Parlance.Proofs.Reading.Shaped

/-!
# Markers under construction

What a draft expects tells how its morphemes end: with a marker, with a substitution, or with anything
else.  A marker is never left without something that it can replace, because nothing but brackets and
text can come behind it, and it turns into text where a word or a string ends.

    draft.Marked → draft.Sound                                                        (Marked.sound)
    read r s = .ok s' → AllMarked s → AllMarked s'                               (allMarked_of_read)
    Reachable p → the drafts of p are sound, and no script ends a word with a marker
                                                                         (sound_drafts_of_reachable)
-/

namespace Parlance

open ParseError (Cause)

namespace Morpheme.Kind

/-- Whether a morpheme is a marker. -/
def isMarker : Morpheme.Kind → Bool
  | .marker .. => true
  | _ => false

theorem isMarker_of_isSubstitutable {kind : Morpheme.Kind} (h : kind.isSubstitutable) :
    kind.isMarker = false := by
  cases kind with
  | marker => cases h
  | _ => rfl

theorem isSubstitutable_of_isSelector {kind : Morpheme.Kind} (h : kind.isSelector) :
    kind.isSubstitutable := by
  cases kind <;> first | rfl | cases h

theorem isMarker_of_isSelector {kind : Morpheme.Kind} (h : kind.isSelector) :
    kind.isMarker = false := isMarker_of_isSubstitutable (isSubstitutable_of_isSelector h)

end Morpheme.Kind

/-- Whether no marker stands last. -/
def Morpheme.EndsPlain (items : List Morpheme) : Prop :=
  ∀ last ∈ items.getLast?, last.kind.isMarker = false

namespace Draft

/-! ## Markers -/

/-- How a marker is written: with as many `$` as it has levels, and with one `*` if it expands. -/
structure Spelled (expands : Bool) (levels : Nat) (text : String) : Prop where
  one_le : 1 ≤ levels
  levels_eq : levels = text.toList.count '$'
  expands_iff : expands = true ↔ '*' ∈ text.toList
  count_le : text.toList.count '*' ≤ 1

theorem spelled_dollar : Spelled false 1 "$" := by
  constructor <;> decide

theorem Spelled.dollar {expands : Bool} {levels : Nat} {text : String}
    (h : Spelled expands levels text) : Spelled expands (levels + 1) (text ++ "$") := by
  refine ⟨Nat.le_add_left 1 levels, ?_, ?_, ?_⟩
  · rw [String.toList_append, List.count_append, ← h.levels_eq]
    rfl
  · rw [String.toList_append, List.mem_append, h.expands_iff]
    simp
  · rw [String.toList_append, List.count_append]
    exact h.count_le

theorem Spelled.asterisk {levels : Nat} {text : String} (h : Spelled false levels text) :
    Spelled true levels (text ++ "*") := by
  have hnone : '*' ∉ text.toList := fun hmem => Bool.false_ne_true (h.expands_iff.2 hmem)
  refine ⟨h.one_le, ?_, ?_, ?_⟩
  · rw [String.toList_append, List.count_append, ← h.levels_eq]
    rfl
  · rw [String.toList_append, List.mem_append]
    simp
  · rw [String.toList_append, List.count_append, List.count_eq_zero.2 hnone]
    decide

/-! ## Drafts and their markers -/

/-- Morphemes, the latest first, and what is expected after them. -/
inductive Marks : List Morpheme → Expecting → Prop
  | empty : Marks [] .nothing
  | plain {before : List Morpheme} {expecting : Expecting} {morpheme : Morpheme}
    (h : Marks before expecting) (hsettled : expecting ≠ .target)
    (hplain : morpheme.kind.isMarker = false) : Marks (morpheme :: before) .nothing
  | marker {before : List Morpheme} {expecting : Expecting} {expands : Bool} {levels : Nat}
    {text : String} {position : Option Position} (h : Marks before expecting)
    (hsettled : expecting ≠ .target) (hspelled : Spelled expands levels text) :
    Marks (⟨.marker expands levels text, position⟩ :: before) .target
  | target {before : List Morpheme} {morpheme : Morpheme} (h : Marks before .target)
    (hreplaced : morpheme.kind.isSubstitutable) : Marks (morpheme :: before) .selectors
  | selector {before : List Morpheme} {morpheme : Morpheme} (h : Marks before .selectors)
    (hselector : morpheme.kind.isSelector) : Marks (morpheme :: before) .selectors

/-- Whether a draft expects what its morphemes tell. -/
def Marked (draft : Draft) : Prop := Marks draft.items draft.expecting

namespace Marks

variable {items : List Morpheme} {expecting : Expecting}

/-- A marker stands last when one expects something to replace. -/
theorem exists_marker (h : Marks items .target) :
    ∃ expands levels text position before,
      items = ⟨.marker expands levels text, position⟩ :: before := by
  cases h with
  | marker => exact ⟨_, _, _, _, _, rfl⟩

/-- What stands before a marker. -/
theorem before_marker {expands : Bool} {levels : Nat} {text : String} {position : Option Position}
    (h : Marks (⟨.marker expands levels text, position⟩ :: items) expecting) :
    expecting = .target ∧ Spelled expands levels text ∧
      ∃ before, Marks items before ∧ before ≠ .target := by
  cases h with
  | plain _ _ hplain => cases hplain
  | marker h hsettled hspelled => exact ⟨rfl, hspelled, _, h, hsettled⟩
  | target _ hreplaced => cases hreplaced
  | selector _ hselector => cases hselector

/-- Text can be added to a literal. -/
theorem replace_literal {value text : String} {position : Option Position}
    (h : Marks (⟨.literal value, position⟩ :: items) expecting) :
    Marks (⟨.literal text, position⟩ :: items) expecting := by
  cases h with
  | plain h hsettled _ => exact .plain h hsettled rfl
  | target h _ => exact .target h rfl
  | selector _ hselector => cases hselector

/-- What stands before a literal that no marker replaces. -/
theorem before_literal {value : String} {position : Option Position} {any : Expecting}
    (h : Marks (⟨.literal value, position⟩ :: items) expecting)
    (hplain : (Draft.mk (⟨.literal value, position⟩ :: items) any).endsWithTarget = false) :
    ∃ before, Marks items before ∧ before ≠ .target := by
  cases h with
  | plain h hsettled _ => exact ⟨_, h, hsettled⟩
  | target h _ =>
    obtain ⟨_, _, _, _, _, rfl⟩ := h.exists_marker
    cases hplain
  | selector _ hselector => cases hselector

/-! ### What the marks tell -/

/-- A marker stands last exactly when something to replace is expected. -/
theorem target_iff (h : Marks items expecting) :
    expecting = .target ↔ ∃ marker before, items = marker :: before ∧ marker.kind.isMarker := by
  constructor
  · rintro rfl
    obtain ⟨_, _, _, _, _, rfl⟩ := h.exists_marker
    exact ⟨_, _, rfl, rfl⟩
  · rintro ⟨⟨kind, position⟩, before, rfl, hmarker⟩
    cases kind with
    | marker => exact h.before_marker.1
    | _ => cases hmarker

/-- What stands behind a marker is what it replaces. -/
theorem isChain (h : Marks items expecting) :
    items.IsChain fun later earlier => earlier.kind.isMarker → later.kind.isSubstitutable := by
  -- Behind anything but a pending marker there can be any morpheme.
  have hany : ∀ {morpheme : Morpheme} {before : List Morpheme} {expecting : Expecting},
      Marks before expecting → expecting ≠ .target →
      (before.IsChain fun later earlier => earlier.kind.isMarker → later.kind.isSubstitutable) →
      (morpheme :: before).IsChain fun later earlier =>
        earlier.kind.isMarker → later.kind.isSubstitutable := by
    intro morpheme before expecting hbefore hsettled hchain
    cases before with
    | nil => exact List.isChain_singleton _
    | cons last before =>
      refine List.isChain_cons_cons.2 ⟨fun hmarker => ?_, hchain⟩
      exact absurd (hbefore.target_iff.2 ⟨last, before, rfl, hmarker⟩) hsettled
  have hfits : ∀ {morpheme : Morpheme} {before : List Morpheme}, morpheme.kind.isSubstitutable →
      (before.IsChain fun later earlier => earlier.kind.isMarker → later.kind.isSubstitutable) →
      (morpheme :: before).IsChain fun later earlier =>
        earlier.kind.isMarker → later.kind.isSubstitutable := by
    intro morpheme before hreplaced hchain
    cases before with
    | nil => exact List.isChain_singleton _
    | cons last before => exact List.isChain_cons_cons.2 ⟨fun _ => hreplaced, hchain⟩
  induction h with
  | empty => exact List.isChain_nil
  | plain h hsettled _ ih => exact hany h hsettled ih
  | marker h hsettled _ ih => exact hany h hsettled ih
  | target _ hreplaced ih => exact hfits hreplaced ih
  | selector h _ ih => exact hany h nofun ih

/-- Selectors are expected behind a marker, what it replaces and any selectors. -/
theorem exists_substitution (h : Marks items .selectors) :
    ∃ selectors target marker before, items = selectors ++ target :: marker :: before ∧
      (∀ selector ∈ selectors, selector.kind.isSelector) ∧ target.kind.isSubstitutable ∧
      marker.kind.isMarker := by
  generalize hexpecting : Expecting.selectors = expecting at h
  induction h with
  | empty | plain | marker => cases hexpecting
  | @target before target h hreplaced _ =>
    obtain ⟨_, _, _, _, _, rfl⟩ := h.exists_marker
    exact ⟨[], target, _, _, rfl, List.forall_mem_nil _, hreplaced, rfl⟩
  | @selector before selector h hselector ih =>
    obtain ⟨selectors, target, marker, rest, rfl, hselectors, htarget, hmarker⟩ := ih hexpecting
    exact ⟨selector :: selectors, target, marker, rest, rfl,
      List.forall_mem_cons.2 ⟨hselector, hselectors⟩, htarget, hmarker⟩

theorem spelled (h : Marks items expecting) {expands : Bool} {levels : Nat} {text : String}
    {position : Option Position} (hmem : ⟨.marker expands levels text, position⟩ ∈ items) :
    Spelled expands levels text := by
  induction h with
  | empty => cases hmem
  | plain _ _ hplain ih =>
    rcases List.mem_cons.1 hmem with rfl | hmem
    · cases hplain
    · exact ih hmem
  | marker _ _ hspelled ih =>
    rcases List.mem_cons.1 hmem with heq | hmem
    · cases heq
      exact hspelled
    · exact ih hmem
  | target _ hreplaced ih =>
    rcases List.mem_cons.1 hmem with rfl | hmem
    · cases hreplaced
    · exact ih hmem
  | selector _ hselector ih =>
    rcases List.mem_cons.1 hmem with rfl | hmem
    · cases hselector
    · exact ih hmem

end Marks

section Marked

variable {draft : Draft} {items : List Morpheme} {expecting : Expecting}

theorem marked_addLiteral {text : String} {position : Option Position} (h : draft.Marked) :
    (draft.addLiteral text position).Marked := by
  obtain ⟨items, expecting⟩ := draft
  cases expecting with
  | nothing => exact .plain h nofun rfl
  | selectors => exact .plain h nofun rfl
  | target => exact .target h rfl

theorem marked_pushLiteral {text : String} {position : Option Position} {extendsTarget : Bool}
    (h : draft.Marked) : (draft.pushLiteral text position extendsTarget).Marked := by
  obtain ⟨items, expecting⟩ := draft
  unfold pushLiteral
  split
  · rename_i value start before hitems
    dsimp only at hitems
    subst hitems
    split
    · exact Marks.replace_literal h
    · exact marked_addLiteral h
  · exact marked_addLiteral h

theorem marked_pushDollar {position : Option Position} (h : draft.Marked) :
    (draft.pushDollar position).Marked := by
  obtain ⟨items, expecting⟩ := draft
  unfold pushDollar
  split
  · rename_i expands levels text start before hitems
    dsimp only at hitems
    subst hitems
    obtain ⟨rfl, hspelled, _, hbefore, hsettled⟩ := Marks.before_marker h
    exact .marker hbefore hsettled hspelled.dollar
  · rename_i hlast
    refine .marker h (fun htarget => ?_) spelled_dollar
    subst htarget
    obtain ⟨_, _, _, _, _, hitems⟩ := Marks.exists_marker h
    exact hlast _ _ _ _ _ hitems

theorem marked_pushAsterisk {text : String} {position : Option Position} (h : draft.Marked) :
    (draft.pushAsterisk text position).Marked := by
  obtain ⟨items, expecting⟩ := draft
  unfold pushAsterisk
  split
  · rename_i levels marker start before hitems
    dsimp only at hitems
    subst hitems
    obtain ⟨rfl, hspelled, _, hbefore, hsettled⟩ := Marks.before_marker h
    exact .marker hbefore hsettled hspelled.asterisk
  · exact marked_pushLiteral h

/-- A bracket fits anywhere. -/
theorem marked_push {morpheme : Morpheme} (h : draft.Marked)
    (hselector : morpheme.kind.isSelector) : (draft.push morpheme).Marked := by
  obtain ⟨items, expecting⟩ := draft
  cases expecting with
  | nothing => exact .plain h nofun (Morpheme.Kind.isMarker_of_isSelector hselector)
  | selectors =>
    unfold push
    rw [if_pos ⟨nofun, hselector⟩]
    exact .selector h hselector
  | target =>
    unfold push
    rw [if_pos ⟨nofun, hselector⟩]
    exact .target h (Morpheme.Kind.isSubstitutable_of_isSelector hselector)

/-- Text can stand where a marker stood. -/
theorem marked_replaceMarker {text : String} {position : Option Position}
    (h : Marks items expecting) (hsettled : expecting ≠ .target) :
    (pushLiteral text position false ⟨items, .nothing⟩).Marked ∧
      (pushLiteral text position false ⟨items, .nothing⟩).expecting ≠ .target := by
  unfold pushLiteral
  dsimp only
  split
  · rename_i value start rest
    split
    · rename_i hmerges
      simp only [Bool.false_and, Bool.or_false, Bool.not_eq_true'] at hmerges
      obtain ⟨_, hbefore, hsettled⟩ := h.before_literal hmerges
      exact ⟨.plain hbefore hsettled rfl, nofun⟩
    · exact ⟨.plain h hsettled rfl, nofun⟩
  · exact ⟨.plain h hsettled rfl, nofun⟩

/-- No marker waits for anything once a draft is settled. -/
theorem marked_settle (h : draft.Marked) : draft.settle.Marked ∧ draft.settle.expecting ≠ .target := by
  obtain ⟨items, expecting⟩ := draft
  unfold settle isPending
  dsimp only
  split
  · rename_i hpending
    rw [decide_eq_true_iff] at hpending
    subst hpending
    obtain ⟨_, _, _, _, _, rfl⟩ := Marks.exists_marker h
    obtain ⟨-, -, _, hbefore, hsettled⟩ := Marks.before_marker h
    exact marked_replaceMarker hbefore hsettled
  · rename_i hpending
    exact ⟨h, fun htarget => hpending (decide_eq_true htarget)⟩

end Marked

/-- What the markers of a draft, in the order they were written, have to do with what it expects. -/
structure Sound (draft : Draft) : Prop where
  /-- A marker is pending exactly when it is the last morpheme. -/
  pending : draft.isPending ↔
    ∃ before marker, draft.toList = before ++ [marker] ∧ marker.kind.isMarker
  /-- No two markers are adjacent. -/
  apart : draft.toList.IsChain fun first second => ¬ (first.kind.isMarker ∧ second.kind.isMarker)
  /-- A marker that is not the last morpheme is followed by a literal, a tuple, a block or an
  expression. -/
  followed : draft.toList.IsChain fun first second =>
    first.kind.isMarker → second.kind.isSubstitutable
  /-- Selectors are expected only behind a marker, its target and any selectors. -/
  selectors : draft.expecting = .selectors → ∃ before marker target selectors,
    draft.toList = before ++ marker :: target :: selectors ∧ marker.kind.isMarker ∧
      target.kind.isSubstitutable ∧ ∀ selector ∈ selectors, selector.kind.isSelector
  /-- Every marker is written as it counts. -/
  spelled : ∀ expands levels text position,
    ⟨.marker expands levels text, position⟩ ∈ draft.toList → Spelled expands levels text

theorem Marked.sound {draft : Draft} (h : draft.Marked) : draft.Sound := by
  have hmarks : Marks draft.items draft.expecting := h
  have hfollowed : draft.toList.IsChain fun first second =>
      first.kind.isMarker → second.kind.isSubstitutable := List.isChain_reverse.2 hmarks.isChain
  refine ⟨?_, ?_, hfollowed, fun hexpecting => ?_, fun expands levels text position hmem => ?_⟩
  · unfold isPending
    rw [decide_eq_true_iff, hmarks.target_iff]
    constructor
    · rintro ⟨marker, before, hitems, hmarker⟩
      exact ⟨before.reverse, marker, by rw [toList, hitems, List.reverse_cons], hmarker⟩
    · rintro ⟨before, marker, hlist, hmarker⟩
      refine ⟨marker, before.reverse, ?_, hmarker⟩
      rw [← List.reverse_reverse draft.items]
      show draft.toList.reverse = _
      rw [hlist, List.reverse_append]
      rfl
  · refine hfollowed.imp fun first second hreplaced hmarkers => ?_
    have hplain := Morpheme.Kind.isMarker_of_isSubstitutable (hreplaced hmarkers.1)
    exact Bool.false_ne_true (hplain.symm.trans hmarkers.2)
  · rw [hexpecting] at hmarks
    obtain ⟨selectors, target, marker, before, hitems, hselectors, htarget, hmarker⟩ :=
      hmarks.exists_substitution
    refine ⟨before.reverse, marker, target, selectors.reverse, ?_, hmarker, htarget,
      fun selector hmem => hselectors selector (List.mem_reverse.1 hmem)⟩
    rw [toList, hitems]
    simp
  · exact hmarks.spelled (List.mem_reverse.1 hmem)

/-- A draft that is settled does not end with a marker. -/
theorem endsPlain_settle {draft : Draft} (h : draft.Marked) :
    Morpheme.EndsPlain draft.settle.toList := by
  obtain ⟨hmarked, hsettled⟩ := marked_settle h
  intro last hlast
  rw [toList, List.getLast?_reverse] at hlast
  by_contra hmarker
  obtain ⟨before, hitems⟩ := List.head?_eq_some_iff.1 hlast
  exact hsettled (Marks.target_iff hmarked |>.2
    ⟨last, before, hitems, Bool.eq_true_of_not_eq_false hmarker⟩)

end Draft

/-! ## Frames -/

namespace Frame

/-- The morphemes under construction in a frame. -/
def drafts : Frame → List Draft
  | .sentences frame => (frame.word.map OpenWord.morphemes).toList
  | .quoted frame => [frame.morphemes]
  | _ => []

/-- All morphemes under construction. -/
def allDrafts (stack : List Frame) : List Draft := stack.flatMap drafts

/-- Frames whose drafts all expect what their morphemes tell. -/
def AllMarked (stack : List Frame) : Prop := ∀ frame ∈ stack, ∀ draft ∈ frame.drafts, draft.Marked

namespace AllMarked

variable {top : Frame} {frame after : Sentences} {below stack : List Frame}

theorem cons (htop : ∀ draft ∈ top.drafts, draft.Marked) (h : AllMarked below) :
    AllMarked (top :: below) := List.forall_mem_cons.2 ⟨htop, h⟩

theorem tail (h : AllMarked (top :: below)) : AllMarked below := (List.forall_mem_cons.1 h).2

theorem head (h : AllMarked (top :: below)) : ∀ draft ∈ top.drafts, draft.Marked :=
  (List.forall_mem_cons.1 h).1

theorem of_mem {draft : Draft} (h : AllMarked stack) (hdraft : draft ∈ allDrafts stack) :
    draft.Marked := by
  obtain ⟨frame, hframe, hmem⟩ := List.mem_flatMap.1 hdraft
  exact h frame hframe draft hmem

/-- Sentences whose word has ended. -/
theorem of_word_eq_none (h : AllMarked below) (hword : frame.word = none) :
    AllMarked (.sentences frame :: below) := by
  refine h.cons fun draft hdraft => ?_
  rw [drafts, hword] at hdraft
  cases hdraft

theorem editWord (h : AllMarked (.sentences frame :: below)) {position : Option Position}
    {edit : Draft → Draft} (hedit : ∀ draft : Draft, draft.Marked → (edit draft).Marked)
    (hafter : frame.editWord position edit = .ok after) : AllMarked (.sentences after :: below) := by
  unfold Sentences.editWord at hafter
  dsimp only at hafter
  split at hafter
  · cases hafter
  · cases hafter
    refine h.tail.cons fun draft hdraft => ?_
    rw [List.mem_singleton.1 hdraft]
    apply hedit
    cases hword : frame.word with
    | none => exact .empty
    | some word => exact h.head _ (by rw [drafts, hword]; exact List.mem_singleton_self _)

/-- A bracket becomes a morpheme of a word or of a string. -/
theorem addMorpheme {morpheme : Morpheme} (h : AllMarked below)
    (hselector : morpheme.kind.isSelector) (hadd : Frame.addMorpheme morpheme below = .ok stack) :
    AllMarked stack := by
  unfold Frame.addMorpheme at hadd
  split at hadd
  · obtain ⟨after, hafter, rfl⟩ := map_eq_ok hadd
    exact h.editWord (fun draft hdraft => Draft.marked_push hdraft hselector) hafter
  · cases hadd
    refine h.tail.cons fun draft hdraft => ?_
    rw [List.mem_singleton.1 hdraft]
    exact Draft.marked_push (h.head _ (List.mem_singleton_self _)) hselector
  · cases hadd

/-- Any other morpheme is the only one of a word. -/
theorem addMorpheme_of_raw {morpheme : Morpheme} (h : AllMarked (top :: below))
    (hordered : Ordered (top :: below)) (htop : top.isRaw) (hplain : morpheme.kind.isMarker = false)
    (hadd : Frame.addMorpheme morpheme below = .ok stack) : AllMarked stack := by
  obtain ⟨frame, rest, rfl, hsingle⟩ := Frame.addMorpheme_of_raw hordered htop morpheme
  rw [hsingle] at hadd
  cases hadd
  refine h.tail.tail.cons fun draft hdraft => ?_
  rw [List.mem_singleton.1 hdraft]
  exact .plain .empty nofun hplain

end AllMarked

end Frame

/-! ## Words and strings that have ended -/

namespace Morpheme

/-- The parts of the quoted strings among some morphemes. -/
def strings (items : List Morpheme) : List (List Morpheme) :=
  items.filterMap fun morpheme =>
    match morpheme.kind with
    | .string parts => some parts
    | _ => none

variable {marker : Morpheme} {items : List Morpheme}

theorem eq_marker (h : marker.kind.isMarker) : ∃ expands levels text position,
    marker = ⟨.marker expands levels text, position⟩ := by
  obtain ⟨kind, position⟩ := marker
  cases kind with
  | marker => exact ⟨_, _, _, _, rfl⟩
  | _ => cases h

/-- Stems do not end with a marker. -/
theorem areStems_concat_marker (h : marker.kind.isMarker) : ∀ (selecting : Bool) (before : List Morpheme),
    areStems selecting (before ++ [marker]) = false
  | _, [] => by
    obtain ⟨_, _, _, _, rfl⟩ := eq_marker h
    rfl
  | _, [⟨.marker .., _⟩] => by
    obtain ⟨_, _, _, _, rfl⟩ := eq_marker h
    rfl
  | _, ⟨.marker .., _⟩ :: target :: rest => by
    show (target.kind.isSubstitutable && areStems true (rest ++ [marker])) = false
    rw [areStems_concat_marker h true rest, Bool.and_false]
  | _, ⟨.literal _, _⟩ :: rest => areStems_concat_marker h false rest
  | selecting, ⟨.expression _, _⟩ :: rest => areStems_concat_marker h selecting rest
  | selecting, ⟨.tuple _, _⟩ :: rest | selecting, ⟨.block _ _, _⟩ :: rest => by
    show (selecting && areStems true (rest ++ [marker])) = false
    rw [areStems_concat_marker h true rest, Bool.and_false]
  | _, ⟨.string _, _⟩ :: _ | _, ⟨.hereString _ _, _⟩ :: _ | _, ⟨.taggedString _ _, _⟩ :: _
  | _, ⟨.lineComment _ _, _⟩ :: _ | _, ⟨.blockComment _ _, _⟩ :: _ => rfl

theorem endsPlain_of_areStems {selecting : Bool} (h : areStems selecting items) : EndsPlain items := by
  intro last hlast
  by_contra hmarker
  rw [← List.dropLast_append_getLast? last hlast,
    areStems_concat_marker (Bool.eq_true_of_not_eq_false hmarker)] at h
  cases h

/-- A word does not end with a marker. -/
theorem endsPlain_of_shape (h : shape items ≠ .invalid) : EndsPlain items := by
  cases hshape : shape items with
  | invalid => exact absurd hshape h
  | compound => exact endsPlain_of_areStems (areStems_of_compound hshape)
  | substitution => exact endsPlain_of_areStems (areStems_of_substitution hshape)
  | root =>
    obtain ⟨⟨kind, position⟩, rfl, -, hplain⟩ := eq_single_of_root hshape
    rintro last ⟨⟩
    cases kind <;> first | rfl | exact absurd rfl (hplain _ _ _)
  | ignored =>
    obtain ⟨⟨kind, position⟩, rfl, hcomment⟩ := eq_single_of_ignored hshape
    rintro last ⟨⟩
    cases kind <;> first | rfl | cases hcomment
  | qualified =>
    intro last hlast
    cases items with
    | nil => cases hlast
    | cons source selectors =>
      rcases List.mem_cons.1 (List.mem_of_getLast? hlast) with rfl | hmem
      · exact Kind.isMarker_of_isSubstitutable (source_of_qualified hshape).1
      · have hselector := List.all_eq_true.1 (all_isSelector_of_qualified hshape) last hmem
        exact Kind.isMarker_of_isSelector hselector

theorem endsPlain_of_mem_strings (h : areWellShaped items) {parts : List Morpheme}
    (hparts : parts ∈ strings items) : EndsPlain parts := by
  obtain ⟨⟨kind, position⟩, hmem, heq⟩ := List.mem_filterMap.1 hparts
  have hkind := areWellShaped_iff.1 h _ hmem
  cases kind <;> cases heq
  rw [Kind.isWellShaped, Bool.and_eq_true] at hkind
  exact endsPlain_of_areStems hkind.1

end Morpheme

/-- The morphemes of each word of a script, and of each quoted string in one. -/
def Script.lists (script : Script) : List (List Morpheme) :=
  script.sentences.flatMap fun sentence => sentence.words.flatMap fun word =>
    word.morphemes :: Morpheme.strings word.morphemes

theorem Script.endsPlain_of_mem_lists {script : Script} (h : script.isWellShaped) :
    ∀ items ∈ script.lists, Morpheme.EndsPlain items := by
  obtain ⟨sentences, position⟩ := script
  rw [Script.isWellShaped] at h
  intro items hitems
  obtain ⟨sentence, hsentence, hitems⟩ := List.mem_flatMap.1 hitems
  obtain ⟨word, hword, hitems⟩ := List.mem_flatMap.1 hitems
  obtain ⟨hshape, hmorphemes⟩ :=
    Word.areWellShaped_iff.1 (Sentence.areWellShaped_iff.1 h sentence hsentence) word hword
  rcases List.mem_cons.1 hitems with rfl | hitems
  · exact Morpheme.endsPlain_of_shape hshape
  · exact Morpheme.endsPlain_of_mem_strings hmorphemes hitems

/-! ## Reading -/

namespace Parser

open Parlance.Frame (AllMarked Ordered)

section Frames

variable {reading : Reading} {top : Frame} {below stack after next : List Frame}
  {seen : List (List Frame)} {result : Except Cause (List Frame)}

theorem marked_edits {edit : Draft → Draft} (h : Edits reading edit) {draft : Draft}
    (hdraft : draft.Marked) : (edit draft).Marked := by
  cases h with
  | text => exact Draft.marked_pushLiteral hdraft
  | asterisk => exact Draft.marked_pushAsterisk hdraft
  | dollar => exact Draft.marked_pushDollar hdraft

theorem marked_editsString {edit : Draft → Draft} (h : EditsString reading edit) {draft : Draft}
    (hdraft : draft.Marked) : (edit draft).Marked := by
  cases h with
  | word hedit => exact marked_edits hedit hdraft
  | verbatim => exact Draft.marked_pushLiteral (Draft.marked_settle hdraft).1

/-- A run of quotes opens a frame without morphemes. -/
theorem marked_openQuotes (reading : Reading) :
    ∀ draft ∈ (openQuotes reading).drafts, draft.Marked := by
  unfold openQuotes
  dsimp only
  split
  · intro draft hdraft
    rw [List.mem_singleton.1 hdraft]
    exact .empty
  · rintro draft ⟨⟩
  · rintro draft ⟨⟩

theorem allMarked_of_ends {morpheme : Morpheme} (hends : Ends reading top morpheme)
    (hadd : Frame.addMorpheme morpheme below = .ok after) (hordered : Ordered (top :: below))
    (h : AllMarked (top :: below)) : AllMarked after := by
  cases hends with
  | @bracket frame => exact h.tail.addMorpheme (by cases frame.enclosure <;> rfl) hadd
  | string => exact h.addMorpheme_of_raw hordered (.inl rfl) rfl hadd
  | here | tagged | block => exact h.addMorpheme_of_raw hordered (.inr rfl) rfl hadd

theorem allMarked_of_takes (htakes : Takes reading stack after) (hordered : Ordered stack)
    (h : AllMarked stack) : AllMarked after := by
  cases htakes with
  | closesWord hkind hclose => exact h.tail.of_word_eq_none (word_of_closeWord hclose)
  | closesSentence hkind hclose => exact h.tail.of_word_eq_none (word_of_closeSentence hclose)
  | editsWord hedit _ hafter => exact h.editWord (fun draft => marked_edits hedit) hafter
  | editsString hedit =>
    refine h.tail.cons fun draft hdraft => ?_
    rw [List.mem_singleton.1 hdraft]
    exact marked_editsString hedit (h.head _ (List.mem_singleton_self _))
  | opensInWord hkind hafter =>
    exact (h.editWord (fun draft => id) hafter).of_word_eq_none rfl
  | opensInString hkind hplace => exact h.of_word_eq_none rfl
  | opensQuotes => exact h.cons (marked_openQuotes reading)
  | opensComment => exact h.cons (by rintro draft ⟨⟩)
  | opensTagged | opensBlockComment => exact h.tail.cons (by rintro draft ⟨⟩)
  | goesOn hgoes => cases hgoes <;> exact h.tail.cons (by rintro draft ⟨⟩)
  | closes hends hadd => exact allMarked_of_ends hends hadd hordered h

theorem allMarked_of_settles (hsettles : Settles reading stack after) (hordered : Ordered stack)
    (h : AllMarked stack) : AllMarked after := by
  cases hsettles with
  | keep => exact h
  | pair hadd => exact h.addMorpheme_of_raw hordered (.inr rfl) rfl hadd
  | comment _ hadd => exact h.addMorpheme_of_raw hordered (.inr rfl) rfl hadd

/-- A token keeps the markers of every draft in order. -/
theorem allMarked_of_read (hread : read reading stack = .ok after) (hordered : Ordered stack)
    (h : AllMarked stack) : AllMarked after := by
  obtain ⟨settled, hsettles, htakes⟩ := takes_of_read hread
  exact allMarked_of_takes htakes (ordered_of_settles hsettles hordered)
    (allMarked_of_settles hsettles hordered h)

theorem allMarked_of_again (hordered : Ordered stack)
    (hagain : dispatch reading stack = .ok (.again next)) (h : AllMarked stack) : AllMarked next := by
  obtain ⟨top, below, morpheme, rfl, hrole, hshape, hadd⟩ := addMorpheme_of_again hagain
  refine h.addMorpheme_of_raw hordered (.inr hrole) ?_ hadd
  obtain ⟨kind, position⟩ := morpheme
  cases kind with
  | marker => exact absurd rfl hshape
  | _ => rfl

/-- A token is only handed to frames whose markers are in order. -/
theorem Dispatches.allMarked (hdispatches : Dispatches reading stack seen result)
    (hordered : Ordered stack) (h : AllMarked stack) : ∀ frames ∈ seen, AllMarked frames := by
  induction hdispatches with
  | done | refused => exact fun frames hframes => List.mem_singleton.1 hframes ▸ h
  | again hagain hnext ih =>
    intro frames hframes
    rcases List.mem_cons.1 hframes with rfl | hframes
    · exact h
    · exact ih (ordered_of_again hordered hagain) (allMarked_of_again hordered hagain h) frames hframes

end Frames

/-! ## Parsers -/

section Parsers

variable {parser : Parser}

/-- What holds of the frames of a new parser, and is kept by every token that can be read, holds of the
frames of every parser that can be. -/
theorem stack_of_reachable {P : List Frame → Prop} (hstart : ∀ options, P (start options).stack)
    (hread : ∀ {reading stack after}, read reading stack = .ok after → Ordered stack → P stack → P after)
    (h : Reachable parser) : P parser.stack := by
  have hpush : ∀ {parser}, Reachable parser → P parser.stack →
      ∀ token, P (push token parser).2.stack := by
    intro parser hreachable hstack token
    unfold push
    split
    · exact hstack
    · dsimp only
      split
      · rename_i after hafter
        exact hread hafter (steady_of_reachable hreachable).ordered hstack
      · exact hstack
  have hrun : ∀ (tokens : List Token) {parser}, Reachable parser → P parser.stack →
      P (run tokens parser).stack := by
    intro tokens
    induction tokens with
    | nil => exact fun _ hstack => hstack
    | cons token rest ih =>
      exact fun hreachable hstack => ih (hreachable.push token) (hpush hreachable hstack token)
  induction h with
  | start options => exact hstart options
  | begin _ _ => exact hstart _
  | push hreachable token ih => exact hpush hreachable ih token
  | feed hreachable stream ih =>
    rw [feed_collect, (feed_tokens _ _).1]
    exact hrun _ hreachable ih
  | close _ ih =>
    unfold close
    split
    · exact ih
    · split
      · exact ih
      · split
        · exact hstart _
        · exact ih

theorem allMarked_of_reachable (h : Reachable parser) : AllMarked parser.stack :=
  stack_of_reachable (fun _ => AllMarked.of_word_eq_none (by rintro frame ⟨⟩) rfl) allMarked_of_read h

theorem shaped_of_reachable (h : Reachable parser) : Frame.ShapedStack parser.stack :=
  stack_of_reachable shaped_rootFrame (fun hread _ => shaped_read hread) h

end Parsers

/-- **Markers under construction.**  Whatever a parser has read, the markers of every draft are in order
and the draft expects what they tell, between two tokens as well as in the frames that a token is
handed to, before and after a pending marker turns into text.  So no marker stands last where a word or
a quoted string ends, and none does so in any script that is read, at any depth. -/
theorem sound_drafts_of_reachable {parser : Parser} (h : Reachable parser) :
    (∀ draft ∈ Frame.allDrafts parser.stack, draft.Sound) ∧
      (∀ token, ∃ seen,
        Dispatches (parser.reading token) parser.stack seen
          (read (parser.reading token) parser.stack) ∧
        ∀ frames ∈ seen, ∀ draft ∈ Frame.allDrafts frames,
          draft.Sound ∧ draft.settle.Sound ∧ Morpheme.EndsPlain draft.settle.toList) ∧
      ∀ script, parser.close.1 = .ok script → ∀ body ∈ script :: script.bodies,
        ∀ items ∈ body.lists, Morpheme.EndsPlain items := by
  have hmarked := allMarked_of_reachable h
  refine ⟨fun draft hdraft => (hmarked.of_mem hdraft).sound, fun token => ?_,
    fun script hscript body hbody => ?_⟩
  · obtain ⟨seen, hdispatches, -⟩ := dispatches_read (parser.reading token) parser.stack
    have hseen := hdispatches.allMarked (steady_of_reachable h).ordered hmarked
    refine ⟨seen, hdispatches, fun frames hframes draft hdraft => ?_⟩
    have hdraft := (hseen frames hframes).of_mem hdraft
    exact ⟨hdraft.sound, (Draft.marked_settle hdraft).1.sound, Draft.endsPlain_settle hdraft⟩
  · have hshaped := isWellShaped_close hscript (shaped_of_reachable h)
    refine Script.endsPlain_of_mem_lists ?_
    rcases List.mem_cons.1 hbody with rfl | hbody
    · exact hshaped
    · exact Script.isWellShaped_of_mem_bodies script hshaped body hbody

/-- A string in which a marker with two levels waits behind a substitution with a selector. -/
theorem sound_drafts_of_reachable_pending :
    let parser := ((start ⟨false⟩).feed (tokenize "a \"$b(c)$$*")).2
    Reachable parser ∧ ∃ draft ∈ Frame.allDrafts parser.stack,
      draft.isPending = true ∧ draft.items.length = 4 ∧ draft.Sound := by
  intro parser
  have hreachable : Reachable parser := .feed (.start ⟨false⟩) _
  have hdrafts : (Frame.allDrafts ((start ⟨false⟩).feed (tokenize "a \"$b(c)$$*")).2.stack).map
      (fun draft => (draft.isPending, draft.items.length)) = [(true, 4)] := by
    cbv
  obtain ⟨draft, hdraft, heq⟩ := List.mem_map.1 (hdrafts ▸ List.mem_singleton_self (true, 4))
  obtain ⟨hpending, hlength⟩ := Prod.mk.inj heq
  exact ⟨hreachable, draft, hdraft, hpending, hlength,
    (sound_drafts_of_reachable hreachable).1 draft hdraft⟩

end Parser

end Parlance
