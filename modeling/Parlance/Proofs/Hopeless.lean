import Mathlib.Logic.Basic
import Mathlib.Tactic.ByContra
import Parlance.Proofs.Shapes
import Parlance.Script.Draft

/-!
# Words that no more text can repair

A word is checked when it ends, but what is wrong with it does not go away: morphemes that were refused
stay refused with more morphemes behind them.  A literal that grows and a pending marker that gains a
level do not change this, as the shape of a word depends on the outline of its morphemes only.  A marker
that was refused as text, having found nothing to replace, is refused with something to replace as well.

    draft.settle is invalid → draft.Hopeless                                  (hopeless_of_shape)
    draft.Hopeless → (an edit of draft).Hopeless                 (hopeless_pushLiteral, and so on)
    draft.Hopeless → draft.settle is invalid                                  (shape_of_hopeless)
-/

namespace Parlance

namespace Morpheme

/-- A word of two morphemes or more is a source with its selectors, or made of stems. -/
theorem shape_ne_invalid_iff {first second : Morpheme} {rest : List Morpheme} :
    shape (first :: second :: rest) ≠ .invalid ↔
      (first.kind.isSubstitutable ∧ (∀ script, first.kind ≠ .expression script) ∧
        (second :: rest).all isSelector) ∨ areStems false (first :: second :: rest) := by
  constructor
  · intro hvalid
    cases hshape : shape (first :: second :: rest) with
    | invalid => exact absurd hshape hvalid
    | root =>
      obtain ⟨morpheme, hsingle, -⟩ := eq_single_of_root hshape
      cases hsingle
    | ignored =>
      obtain ⟨comment, hsingle, -⟩ := eq_single_of_ignored hshape
      cases hsingle
    | qualified =>
      obtain ⟨hsource, hexpression⟩ := source_of_qualified hshape
      exact .inl ⟨hsource, hexpression, all_isSelector_of_qualified hshape⟩
    | compound => exact .inr (areStems_of_compound hshape)
    | substitution => exact .inr (areStems_of_substitution hshape)
  · obtain ⟨kind, position⟩ := first
    rintro (⟨hsource, hexpression, hselectors⟩ | hstems)
    · cases kind <;> first
        | (cases hsource; done)
        | exact absurd rfl (hexpression _)
        | simp only [shape, hselectors, if_true, ne_eq, reduceCtorEq, not_false_eq_true]
    · cases kind <;> first
        | (unfold areStems at hstems; cases hstems)
        | (simp only [shape, hstems, if_true]; grind)

/-! ## Outlines -/

/-- A morpheme without what does not matter for the shape of its word. -/
def outline (morpheme : Morpheme) : Morpheme :=
  match morpheme.kind with
  | .literal _ => ⟨.literal "", none⟩
  | .marker .. => ⟨.marker false 1 "$", none⟩
  | _ => morpheme

/-- What becomes of a morpheme when its word ends: a marker turns back into text. -/
def ended (morpheme : Morpheme) : Morpheme :=
  match morpheme.kind with
  | .marker .. => ⟨.literal "", none⟩
  | _ => morpheme

@[simp] theorem isSelector_outline (morpheme : Morpheme) :
    morpheme.outline.isSelector = morpheme.isSelector := by
  obtain ⟨kind, position⟩ := morpheme
  cases kind <;> rfl

@[simp] theorem isSubstitutable_outline (morpheme : Morpheme) :
    morpheme.outline.kind.isSubstitutable = morpheme.kind.isSubstitutable := by
  obtain ⟨kind, position⟩ := morpheme
  cases kind <;> rfl

theorem areStems_outline (selecting : Bool) (morphemes : List Morpheme) :
    areStems selecting (morphemes.map outline) = areStems selecting morphemes := by
  match morphemes with
  | [] => rfl
  | ⟨.literal _, _⟩ :: rest => exact areStems_outline false rest
  | ⟨.expression _, _⟩ :: rest => exact areStems_outline selecting rest
  | ⟨.tuple _, _⟩ :: rest | ⟨.block _ _, _⟩ :: rest =>
    exact congrArg (selecting && ·) (areStems_outline true rest)
  | [⟨.marker _ _ _, _⟩] => rfl
  | ⟨.marker _ _ _, _⟩ :: target :: rest =>
    show (target.outline.kind.isSubstitutable && areStems true (rest.map outline)) = _
    rw [isSubstitutable_outline, areStems_outline true rest]
    rfl
  | ⟨.string _, _⟩ :: _ | ⟨.hereString _ _, _⟩ :: _ | ⟨.taggedString _ _, _⟩ :: _
  | ⟨.lineComment _ _, _⟩ :: _ | ⟨.blockComment _ _, _⟩ :: _ => rfl

/-- Whether a word is refused depends on the outline only. -/
theorem shape_outline {morphemes : List Morpheme} :
    shape (morphemes.map outline) = .invalid ↔ shape morphemes = .invalid := by
  match morphemes with
  | [] => exact Iff.rfl
  | [⟨kind, position⟩] => cases kind <;> exact Iff.rfl
  | first :: second :: rest =>
    rw [← not_iff_not]
    show shape (first.outline :: second.outline :: rest.map outline) ≠ .invalid ↔ _
    have hexpression : (∀ script, first.outline.kind ≠ .expression script) ↔
        ∀ script, first.kind ≠ .expression script := by
      obtain ⟨kind, position⟩ := first
      cases kind <;> simp [outline]
    have hselectors : (second.outline :: rest.map outline).all isSelector =
        (second :: rest).all isSelector := by
      simp [List.all_map, Function.comp_def]
    have hstems := areStems_outline false (first :: second :: rest)
    rw [List.map_cons, List.map_cons] at hstems
    rw [shape_ne_invalid_iff, isSubstitutable_outline, hexpression, hselectors, hstems]
    exact shape_ne_invalid_iff.symm

/-! ## Morphemes that are refused -/

/-- Stems can be cut off behind any morpheme. -/
theorem areStems_cut {selecting : Bool} {before after : List Morpheme} {last : Morpheme}
    (h : areStems selecting (before ++ last :: after)) : areStems selecting (before ++ [last.ended]) := by
  match before with
  | [] =>
    obtain ⟨kind, position⟩ := last
    cases kind <;> first
      | (unfold areStems at h; cases h)
      | rfl
      | (simp only [List.nil_append, areStems, Bool.and_eq_true] at h; simp [ended, areStems, h.1])
  | ⟨.literal _, _⟩ :: before =>
    have hrest : areStems false (before ++ last :: after) := h
    have hcut := areStems_cut hrest
    exact hcut
  | ⟨.expression _, _⟩ :: before =>
    have hrest : areStems selecting (before ++ last :: after) := h
    have hcut := areStems_cut hrest
    exact hcut
  | ⟨.tuple _, _⟩ :: before | ⟨.block _ _, _⟩ :: before =>
    obtain ⟨hselecting, hrest⟩ := Bool.and_eq_true_iff.1 h
    have hcut := areStems_cut hrest
    exact Bool.and_eq_true_iff.2 ⟨hselecting, hcut⟩
  | [⟨.marker _ _ _, _⟩] =>
    obtain ⟨hlast, -⟩ := Bool.and_eq_true_iff.1 h
    obtain ⟨kind, position⟩ := last
    cases kind <;> first | (cases hlast; done) | rfl
  | ⟨.marker _ _ _, _⟩ :: target :: before =>
    obtain ⟨htarget, hrest⟩ := Bool.and_eq_true_iff.1 h
    have hcut := areStems_cut hrest
    exact Bool.and_eq_true_iff.2 ⟨htarget, hcut⟩
  | ⟨.string _, _⟩ :: _ | ⟨.hereString _ _, _⟩ :: _ | ⟨.taggedString _ _, _⟩ :: _
  | ⟨.lineComment _ _, _⟩ :: _ | ⟨.blockComment _ _, _⟩ :: _ => cases h

/-- Text can stand behind stems. -/
theorem areStems_concat_literal {selecting : Bool} {morphemes : List Morpheme} (text : String)
    (position : Option Position) (h : areStems selecting morphemes) :
    areStems selecting (morphemes ++ [⟨.literal text, position⟩]) := by
  match morphemes with
  | [] => rfl
  | ⟨.literal _, _⟩ :: rest =>
    have hrest : areStems false rest := h
    have hmore := areStems_concat_literal text position hrest
    exact hmore
  | ⟨.expression _, _⟩ :: rest =>
    have hrest : areStems selecting rest := h
    have hmore := areStems_concat_literal text position hrest
    exact hmore
  | ⟨.tuple _, _⟩ :: rest | ⟨.block _ _, _⟩ :: rest =>
    obtain ⟨hselecting, hrest⟩ := Bool.and_eq_true_iff.1 h
    have hmore := areStems_concat_literal text position hrest
    exact Bool.and_eq_true_iff.2 ⟨hselecting, hmore⟩
  | [⟨.marker _ _ _, _⟩] => cases h
  | ⟨.marker _ _ _, _⟩ :: target :: rest =>
    obtain ⟨htarget, hrest⟩ := Bool.and_eq_true_iff.1 h
    have hmore := areStems_concat_literal text position hrest
    exact Bool.and_eq_true_iff.2 ⟨htarget, hmore⟩
  | ⟨.string _, _⟩ :: _ | ⟨.hereString _ _, _⟩ :: _ | ⟨.taggedString _ _, _⟩ :: _
  | ⟨.lineComment _ _, _⟩ :: _ | ⟨.blockComment _ _, _⟩ :: _ => cases h

/-- A word that was refused stays refused with more morphemes behind it. -/
theorem shape_append {before after : List Morpheme} {last : Morpheme}
    (h : shape (before ++ [last.ended]) = .invalid) : shape (before ++ last :: after) = .invalid := by
  match before with
  | [] =>
    obtain ⟨kind, position⟩ := last
    cases kind <;> cases h
  | first :: before =>
    by_contra hvalid
    obtain ⟨second, rest, hrest⟩ := List.exists_cons_of_ne_nil
      (List.append_ne_nil_of_right_ne_nil before (List.cons_ne_nil last after))
    obtain ⟨second', rest', hrest'⟩ := List.exists_cons_of_ne_nil
      (List.append_ne_nil_of_right_ne_nil before (List.cons_ne_nil last.ended []))
    rw [List.cons_append, hrest] at hvalid
    rw [List.cons_append, hrest'] at h
    refine shape_ne_invalid_iff.2 ?_ h
    rcases shape_ne_invalid_iff.1 hvalid with ⟨hsource, hexpression, hselectors⟩ | hstems
    · refine .inl ⟨hsource, hexpression, ?_⟩
      rw [← hrest, List.all_append, List.all_cons, Bool.and_eq_true, Bool.and_eq_true] at hselectors
      rw [← hrest', List.all_append, Bool.and_eq_true]
      refine ⟨hselectors.1, ?_⟩
      obtain ⟨kind, position⟩ := last
      cases kind <;> first | (cases hselectors.2.1; done) | rfl
    · rw [← hrest, ← List.cons_append] at hstems
      rw [← hrest', ← List.cons_append]
      exact .inr (areStems_cut hstems)

/-- Text behind text changes nothing. -/
theorem shape_of_concat_literal {before : List Morpheme} {text more : String}
    {position behind : Option Position}
    (h : shape (before ++ [⟨.literal text, position⟩, ⟨.literal more, behind⟩]) = .invalid) :
    shape (before ++ [⟨.literal text, position⟩]) = .invalid := by
  match before with
  | [] => cases h
  | first :: before =>
    by_contra hvalid
    obtain ⟨second, rest, hrest⟩ := List.exists_cons_of_ne_nil
      (List.append_ne_nil_of_right_ne_nil before
        (List.cons_ne_nil (Morpheme.mk (.literal text) position) []))
    have hmore : before ++ [⟨.literal text, position⟩, ⟨.literal more, behind⟩] =
        second :: (rest ++ [⟨.literal more, behind⟩]) := by
      rw [← List.cons_append, ← hrest, List.append_assoc]
      rfl
    rw [List.cons_append, hrest] at hvalid
    rw [List.cons_append, hmore] at h
    refine shape_ne_invalid_iff.2 (.inr ?_) h
    rcases shape_ne_invalid_iff.1 hvalid with ⟨-, -, hselectors⟩ | hstems
    · -- A literal is no selector.
      rw [← hrest, List.all_append, Bool.and_eq_true] at hselectors
      cases hselectors.2
    · exact areStems_concat_literal more behind hstems

/-- Morphemes that no word can begin with: some of them were refused. -/
def Hopeless (morphemes : List Morpheme) : Prop :=
  ∃ before last after, morphemes = before ++ last :: after ∧ shape (before ++ [last.ended]) = .invalid

theorem Hopeless.shape {morphemes : List Morpheme} (h : Hopeless morphemes) :
    Morpheme.shape morphemes = .invalid := by
  obtain ⟨before, last, after, rfl, hshape⟩ := h
  exact shape_append hshape

theorem Hopeless.extend {morphemes more : List Morpheme} (h : Hopeless morphemes)
    (hbegins : morphemes <+: more) : Hopeless more := by
  obtain ⟨before, last, after, rfl, hshape⟩ := h
  obtain ⟨behind, rfl⟩ := hbegins
  exact ⟨before, last, after ++ behind, by simp, hshape⟩

end Morpheme

/-! ## Drafts -/

namespace Draft

variable {draft : Draft}

/-- The outline of a draft. -/
def outline (draft : Draft) : List Morpheme := draft.toList.map Morpheme.outline

theorem outline_cons (morpheme : Morpheme) (items : List Morpheme) (expecting : Expecting) :
    outline ⟨morpheme :: items, expecting⟩ = outline ⟨items, expecting⟩ ++ [morpheme.outline] := by
  simp [outline, toList]

/-- A draft that no word can begin with. -/
def Hopeless (draft : Draft) : Prop := Morpheme.Hopeless draft.outline

/-- Whether the latest morpheme is a marker. -/
def endsWithMarker (draft : Draft) : Bool :=
  match draft.items with
  | ⟨.marker .., _⟩ :: _ => true
  | _ => false

/-- A draft that has morphemes, and whose last marker waits for something to replace. -/
structure Tracked (draft : Draft) : Prop where
  ne_nil : draft.items ≠ []
  pending : draft.endsWithMarker = true → draft.isPending = true

theorem tracked_pushLiteral (text : String) (position : Option Position) (extendsTarget : Bool)
    (draft : Draft) : (draft.pushLiteral text position extendsTarget).Tracked := by
  have hliteral : ∀ value start before expecting,
      Tracked ⟨⟨.literal value, start⟩ :: before, expecting⟩ :=
    fun _ _ _ _ => ⟨List.cons_ne_nil _ _, fun hmarker => by cases hmarker⟩
  unfold pushLiteral
  split
  · split <;> exact hliteral _ _ _ _
  · exact hliteral _ _ _ _

theorem tracked_pushDollar (position : Option Position) (draft : Draft) :
    (draft.pushDollar position).Tracked := by
  have hmarker : (draft.addMarker position).Tracked := ⟨List.cons_ne_nil _ _, fun _ => rfl⟩
  unfold pushDollar
  split
  · split
    · rename_i hpending
      exact ⟨List.cons_ne_nil _ _, fun _ => hpending⟩
    · exact hmarker
  · exact hmarker

theorem tracked_pushAsterisk (text : String) (position : Option Position) (draft : Draft) :
    (draft.pushAsterisk text position).Tracked := by
  unfold pushAsterisk
  split
  · split
    · rename_i hpending
      exact ⟨List.cons_ne_nil _ _, fun _ => hpending⟩
    · exact tracked_pushLiteral text position true draft
  · exact tracked_pushLiteral text position true draft

theorem tracked_push {morpheme : Morpheme}
    (h : ∀ expands levels text, morpheme.kind ≠ .marker expands levels text) (draft : Draft) :
    (draft.push morpheme).Tracked := by
  refine ⟨List.cons_ne_nil _ _, fun hmarker => ?_⟩
  obtain ⟨kind, position⟩ := morpheme
  cases kind <;> first | exact absurd rfl (h _ _ _) | cases hmarker

/-- Literal text grows the literal that stands last, or is a literal of its own. -/
theorem outline_pushLiteral (text : String) (position : Option Position) (extendsTarget : Bool)
    (draft : Draft) :
    (draft.pushLiteral text position extendsTarget).outline = draft.outline ++ [⟨.literal "", none⟩] ∨
      (draft.pushLiteral text position extendsTarget).outline = draft.outline ∧
        ∃ before, draft.outline = before ++ [⟨.literal "", none⟩] := by
  obtain ⟨items, expecting⟩ := draft
  unfold pushLiteral
  split
  · rename_i value start before hitems
    dsimp only at hitems
    subst hitems
    split
    · refine .inr ⟨?_, _, outline_cons _ before expecting⟩
      rw [outline_cons, outline_cons]
      rfl
    · exact .inl (outline_cons _ _ _)
  · exact .inl (outline_cons _ _ _)

/-- The outline does not depend on the text. -/
theorem outline_pushLiteral_eq (first second : String) (position : Option Position)
    (extendsTarget : Bool) (draft : Draft) :
    (draft.pushLiteral first position extendsTarget).outline =
      (draft.pushLiteral second position extendsTarget).outline := by
  have hliteral : ∀ text, (draft.addLiteral text position).outline =
      draft.outline ++ [⟨.literal "", none⟩] := fun text => outline_cons _ draft.items _
  unfold pushLiteral
  split
  · split
    · rw [outline_cons, outline_cons]
      rfl
    · rw [hliteral, hliteral]
  · rw [hliteral, hliteral]

theorem prefix_outline_pushLiteral (text : String) (position : Option Position)
    (extendsTarget : Bool) (draft : Draft) :
    draft.outline <+: (draft.pushLiteral text position extendsTarget).outline := by
  rcases outline_pushLiteral text position extendsTarget draft with happend | ⟨hsame, -⟩
  · rw [happend]
    exact List.prefix_append _ _
  · exact ⟨[], (List.append_nil _).trans hsame.symm⟩

theorem prefix_outline_pushDollar (position : Option Position) (draft : Draft) :
    draft.outline <+: (draft.pushDollar position).outline := by
  have hmarker : draft.outline <+: (draft.addMarker position).outline :=
    ⟨_, (outline_cons _ draft.items _).symm⟩
  unfold pushDollar
  split
  · rename_i expands levels text start before hitems
    split
    · have hsame : draft.outline = outline ⟨⟨.marker expands (levels + 1) (text ++ "$"), start⟩ :: before,
          draft.expecting⟩ := by
        rw [outline_cons, outline, toList, hitems]
        simp [outline, toList, Morpheme.outline]
      exact ⟨[], (List.append_nil _).trans hsame⟩
    · exact hmarker
  · exact hmarker

theorem prefix_outline_pushAsterisk (text : String) (position : Option Position) (draft : Draft) :
    draft.outline <+: (draft.pushAsterisk text position).outline := by
  unfold pushAsterisk
  split
  · rename_i levels marker start before hitems
    split
    · have hsame : draft.outline = outline ⟨⟨.marker true levels (marker ++ "*"), start⟩ :: before,
          draft.expecting⟩ := by
        rw [outline_cons, outline, toList, hitems]
        simp [outline, toList, Morpheme.outline]
      exact ⟨[], (List.append_nil _).trans hsame⟩
    · exact prefix_outline_pushLiteral text position true draft
  · exact prefix_outline_pushLiteral text position true draft

theorem prefix_outline_push (morpheme : Morpheme) (draft : Draft) :
    draft.outline <+: (draft.push morpheme).outline :=
  ⟨_, (outline_cons morpheme draft.items _).symm⟩

/-- A draft settles to itself, or turns its last marker into text. -/
theorem settle_eq_or (draft : Draft) :
    (draft.isPending && draft.endsWithMarker) = false ∧ draft.settle.outline = draft.outline ∨
      ∃ before text position, draft.endsWithMarker = true ∧ draft.isPending = true ∧
        draft.outline = outline ⟨before, .nothing⟩ ++ [⟨.marker false 1 "$", none⟩] ∧
        draft.settle = pushLiteral text position false ⟨before, .nothing⟩ := by
  obtain ⟨items, expecting⟩ := draft
  unfold settle
  by_cases hpending : isPending ⟨items, expecting⟩ = true
  · rw [if_pos hpending]
    dsimp only
    split
    · rename_i expands levels text position before
      exact .inr ⟨before, text, position, rfl, hpending, outline_cons _ before expecting, rfl⟩
    · rename_i hmarker
      refine .inl ⟨?_, rfl⟩
      rw [Bool.and_eq_false_iff]
      right
      unfold endsWithMarker
      split
      · rename_i heq
        exact absurd heq (hmarker _ _ _ _ _)
      · rfl
  · rw [if_neg hpending]
    rw [Bool.not_eq_true] at hpending
    exact .inl ⟨by rw [hpending]; rfl, rfl⟩

/-- A hopeless draft is refused as a word. -/
theorem shape_of_hopeless (h : draft.Hopeless) :
    Morpheme.shape draft.settle.toList = .invalid := by
  rw [← Morpheme.shape_outline]
  show Morpheme.shape draft.settle.outline = .invalid
  rcases draft.settle_eq_or with ⟨-, hsame⟩ | ⟨before, text, position, -, -, houtline, hsettle⟩
  · rw [hsame]
    exact h.shape
  · obtain ⟨init, last, after, hsplit, hshape⟩ := h
    rw [houtline] at hsplit
    rw [hsettle]
    rcases List.eq_nil_or_concat after with rfl | ⟨inner, final, rfl⟩
    · -- The marker itself was refused.
      obtain ⟨hinit, hlast⟩ := List.append_inj' hsplit rfl
      rw [← hinit, ← (List.cons.inj hlast).1] at hshape
      rcases outline_pushLiteral text position false ⟨before, .nothing⟩ with happend | ⟨hsame, more, hmore⟩
      · rw [happend]
        exact hshape
      · rw [hsame, hmore]
        rw [hmore, List.append_assoc] at hshape
        exact Morpheme.shape_of_concat_literal hshape
    · rw [List.concat_eq_append, ← List.cons_append, ← List.append_assoc] at hsplit
      obtain ⟨hinit, -⟩ := List.append_inj' hsplit rfl
      have hbefore : Morpheme.Hopeless (outline ⟨before, .nothing⟩) := ⟨init, last, inner, hinit, hshape⟩
      exact (hbefore.extend (prefix_outline_pushLiteral text position false _)).shape

/-- A draft that was refused as a word is hopeless. -/
theorem hopeless_of_shape (htracked : draft.Tracked)
    (h : Morpheme.shape draft.settle.toList = .invalid) : draft.Hopeless := by
  rw [← Morpheme.shape_outline] at h
  have hshape : Morpheme.shape draft.settle.outline = .invalid := h
  rcases draft.settle_eq_or with ⟨hsettled, hsame⟩ | ⟨before, text, position, -, -, houtline, hsettle⟩
  · rw [hsame] at hshape
    obtain ⟨items, expecting⟩ := draft
    obtain ⟨⟨kind, position⟩, items, rfl⟩ := List.exists_cons_of_ne_nil htracked.ne_nil
    rw [outline_cons] at hshape
    refine ⟨_, _, [], outline_cons _ items expecting, ?_⟩
    cases kind with
    | marker =>
      -- A marker that stands last is pending.
      have hpending := htracked.pending rfl
      rw [hpending] at hsettled
      cases hsettled
    | _ => exact hshape
  · rw [hsettle] at hshape
    rcases outline_pushLiteral text position false ⟨before, .nothing⟩ with happend | ⟨hsame, more, hmore⟩
    · rw [happend] at hshape
      exact ⟨_, _, [], houtline, hshape⟩
    · rw [hsame, hmore] at hshape
      refine ⟨more, ⟨.literal "", none⟩, [⟨.marker false 1 "$", none⟩], ?_, hshape⟩
      rw [houtline, hmore, List.append_assoc]
      rfl

end Draft

end Parlance
