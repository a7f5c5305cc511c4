import Mathlib.Data.List.TakeWhile
import Parlance.Proofs.Hopeless

/-!
# The grammar of words

A word is sorted in one pass over its morphemes: a substitution takes every selector behind it, and
what is left goes on with the next stem.  The grammar of words knows no such order.  An expression that
follows a substitution is a selector of it or a stem of its own, and a word is a compound if it can be
cut into stems in any way.  The pass decides the grammar all the same, as a cut that works goes on
working when a substitution takes more selectors.

    areStems true m = areStems false (m.dropWhile isSelector)              (areStems_true_eq)
    areStems false m → areStems true m                                     (areStems_true_of_false)
    areStems false m ↔ CutsIntoStems m                                     (areStems_iff)
    Fits m s ↔ shape m = s, for all shapes s but the invalid one           (fits_iff_shape)
-/

namespace Parlance

/-- What selectors can follow without a marker. -/
def Morpheme.Kind.isSource : Morpheme.Kind → Bool
  | .literal .. | .tuple .. | .block .. => true
  | _ => false

namespace Morpheme

/-! ## The grammar -/

/-- A marker, what it replaces and any number of selectors. -/
inductive IsSubstitution : List Morpheme → Prop
  | intro {expands : Bool} {levels : Nat} {text : String} {position : Option Position}
      {target : Morpheme} {selectors : List Morpheme} :
      target.kind.isSubstitutable → selectors.all isSelector →
      IsSubstitution (⟨.marker expands levels text, position⟩ :: target :: selectors)

/-- A source and one selector or more. -/
inductive IsQualified : List Morpheme → Prop
  | intro {source selector : Morpheme} {selectors : List Morpheme} :
      source.kind.isSource → (selector :: selectors).all isSelector →
      IsQualified (source :: selector :: selectors)

/-- What compounds are made of. -/
inductive IsStem : List Morpheme → Prop
  | literal {text : String} {position : Option Position} : IsStem [⟨.literal text, position⟩]
  | expression {script : Script} {position : Option Position} :
      IsStem [⟨.expression script, position⟩]
  | substitution {morphemes : List Morpheme} : IsSubstitution morphemes → IsStem morphemes

/-- There is a way to cut a list into stems. -/
def CutsIntoStems (morphemes : List Morpheme) : Prop :=
  ∃ stems : List (List Morpheme), stems.flatten = morphemes ∧ ∀ stem ∈ stems, IsStem stem

/-- The morphemes that a word of each shape is made of. -/
inductive Fits : List Morpheme → Word.Shape → Prop
  | ignored {comment : Morpheme} : comment.kind.isComment → Fits [comment] .ignored
  | root {morpheme : Morpheme} : morpheme.kind.isComment = false →
      (∀ expands levels text, morpheme.kind ≠ .marker expands levels text) → Fits [morpheme] .root
  | qualified {morphemes : List Morpheme} : IsQualified morphemes → Fits morphemes .qualified
  | substitution {morphemes : List Morpheme} :
      IsSubstitution morphemes → Fits morphemes .substitution
  | compound {morphemes : List Morpheme} :
      2 ≤ morphemes.length → ¬IsQualified morphemes → ¬IsSubstitution morphemes →
        CutsIntoStems morphemes → Fits morphemes .compound

variable {morphemes rest : List Morpheme}

/-! ## The length of a substitution -/

/-- A substitution has a marker and a target, and ends with the list or before. -/
theorem substitutionLength_bounds {length : Nat} (h : substitutionLength morphemes = some length) :
    2 ≤ length ∧ length ≤ morphemes.length := by
  unfold substitutionLength at h
  split at h
  · rename_i marker target rest
    split at h
    · have hprefix := (List.takeWhile_prefix (l := rest) isSelector).length_le
      have hlength := Option.some.inj h
      simp only [List.length_cons]
      omega
    · cases h
  · cases h

/-- What a marker takes is a substitution. -/
theorem isSubstitution_take {expands : Bool} {levels length : Nat} {text : String}
    {position : Option Position}
    (h : substitutionLength (⟨.marker expands levels text, position⟩ :: rest) = some length) :
    IsSubstitution ((⟨.marker expands levels text, position⟩ :: rest).take length) := by
  cases rest with
  | nil => cases h
  | cons target rest =>
    rw [substitutionLength] at h
    split at h
    · rename_i htarget
      obtain rfl := Option.some.inj h
      rw [Nat.add_comm, List.take_succ_cons, List.take_succ_cons,
        ← List.prefix_iff_eq_take.1 (List.takeWhile_prefix isSelector)]
      exact .intro htarget List.all_takeWhile
    · cases h

/-! ## One pass -/

/-- Behind a substitution the pass goes on with what follows its selectors. -/
theorem areStems_true_eq (morphemes : List Morpheme) :
    areStems true morphemes = areStems false (morphemes.dropWhile isSelector) := by
  induction morphemes with
  | nil => rfl
  | cons first rest ih =>
    obtain ⟨kind, position⟩ := first
    cases kind with
    | tuple | block | expression =>
      rw [List.dropWhile_cons_of_pos rfl, ← ih]
      rfl
    | _ =>
      rw [List.dropWhile_cons_of_neg Bool.false_ne_true]
      unfold areStems
      rfl

/-- The pass takes a substitution as a whole. -/
theorem areStems_marker {expands : Bool} {levels : Nat} {text : String}
    {position : Option Position} (rest : List Morpheme) :
    areStems false (⟨.marker expands levels text, position⟩ :: rest) =
      (substitutionLength (⟨.marker expands levels text, position⟩ :: rest)).any fun length =>
        areStems false ((⟨.marker expands levels text, position⟩ :: rest).drop length) := by
  cases rest with
  | nil => rfl
  | cons target rest =>
    have hdrop : rest.drop (rest.takeWhile isSelector).length = rest.dropWhile isSelector := by
      have hsplit := List.takeWhile_append_dropWhile (p := isSelector) (l := rest)
      exact (congrArg (List.drop _) hsplit.symm).trans List.drop_left
    rw [areStems, substitutionLength]
    cases target.kind.isSubstitutable with
    | false => rfl
    | true =>
      rw [if_pos rfl, Option.any_some, Nat.add_comm, List.drop_succ_cons, List.drop_succ_cons, hdrop,
        ← areStems_true_eq, Bool.true_and]

/-- What stands on its own can follow a substitution: its expressions become selectors. -/
theorem areStems_true_of_false (h : areStems false morphemes) : areStems true morphemes := by
  induction morphemes with
  | nil => rfl
  | cons first rest ih =>
    obtain ⟨kind, position⟩ := first
    cases kind with
    | expression => exact ih h
    | tuple | block => cases h
    | _ =>
      unfold areStems at h ⊢
      exact h

/-! ## Any cut -/

/-- The pass takes any stem, and goes on behind it. -/
theorem IsStem.areStems_append {stem : List Morpheme} (hstem : IsStem stem)
    (hrest : areStems false rest) : areStems false (stem ++ rest) := by
  cases hstem with
  | literal => exact hrest
  | expression => exact hrest
  | substitution hsubstitution =>
    obtain ⟨htarget, hselectors⟩ := hsubstitution
    rename_i target selectors
    -- A cut may leave selectors behind a substitution: the pass takes these as well.
    have hall : areStems true (selectors ++ rest) := by
      rw [areStems_true_eq, List.dropWhile_append_of_pos (List.all_eq_true.1 hselectors),
        ← areStems_true_eq]
      exact areStems_true_of_false hrest
    rw [List.cons_append, List.cons_append, areStems]
    exact Bool.and_eq_true_iff.2 ⟨htarget, hall⟩

theorem CutsIntoStems.cons {stem : List Morpheme} (hstem : IsStem stem)
    (hrest : CutsIntoStems rest) : CutsIntoStems (stem ++ rest) := by
  obtain ⟨stems, rfl, hstems⟩ := hrest
  refine ⟨stem :: stems, List.flatten_cons, ?_⟩
  rw [List.forall_mem_cons]
  exact ⟨hstem, hstems⟩

/-- The pass finds a cut. -/
theorem cutsIntoStems_of_areStems {morphemes : List Morpheme} (h : areStems false morphemes) :
    CutsIntoStems morphemes := by
  match morphemes with
  | [] => exact ⟨[], rfl, fun _ hstem => nomatch hstem⟩
  | ⟨.literal _, _⟩ :: rest =>
    have hrest : areStems false rest := h
    exact (cutsIntoStems_of_areStems hrest).cons .literal
  | ⟨.expression _, _⟩ :: rest =>
    have hrest : areStems false rest := h
    exact (cutsIntoStems_of_areStems hrest).cons .expression
  | ⟨.marker expands levels text, position⟩ :: rest =>
    rw [areStems_marker] at h
    obtain ⟨length, hlength, hrest⟩ := Option.any_eq_true _ _ |>.1 h
    have hbounds := substitutionLength_bounds hlength
    have hcut := (cutsIntoStems_of_areStems hrest).cons (.substitution (isSubstitution_take hlength))
    rwa [List.take_append_drop] at hcut
termination_by morphemes.length
decreasing_by
  all_goals simp only [List.length_cons, List.length_drop] at *; omega

/-- The pass accepts what some cut accepts. -/
theorem areStems_iff : areStems false morphemes ↔ CutsIntoStems morphemes := by
  constructor
  · exact cutsIntoStems_of_areStems
  · rintro ⟨stems, rfl, hstems⟩
    induction stems with
    | nil => rfl
    | cons stem stems ih =>
      rw [List.forall_mem_cons] at hstems
      rw [List.flatten_cons]
      exact hstems.1.areStems_append (ih hstems.2)

/-! ## Shapes -/

theorem isQualified_of_shape (h : shape morphemes = .qualified) : IsQualified morphemes := by
  match morphemes with
  | [] => cases h
  | [⟨kind, position⟩] => cases kind <;> cases h
  | source :: selector :: selectors =>
    obtain ⟨hsource, hexpression⟩ := source_of_qualified h
    refine .intro ?_ (all_isSelector_of_qualified h)
    obtain ⟨kind, position⟩ := source
    cases kind <;> first | (cases hsource; done) | exact absurd rfl (hexpression _) | rfl

theorem shape_qualified_iff : shape morphemes = .qualified ↔ IsQualified morphemes := by
  constructor
  · exact isQualified_of_shape
  · rintro ⟨hsource, hselectors⟩
    rename_i source selector selectors
    obtain ⟨kind, position⟩ := source
    cases kind <;> first
      | (cases hsource; done)
      | simp only [shape, hselectors, if_true]

theorem shape_substitution_iff : shape morphemes = .substitution ↔ IsSubstitution morphemes := by
  constructor
  · intro h
    obtain ⟨_, _, _, _, target, selectors, rfl, htarget, hselectors⟩ := stem_of_substitution h
    exact .intro htarget hselectors
  · rintro ⟨htarget, hselectors⟩
    rename_i target selectors
    -- The marker takes every selector, which leaves nothing.
    have hall : selectors.takeWhile isSelector = selectors :=
      List.takeWhile_eq_self_iff.2 (List.all_eq_true.1 hselectors)
    have hlength : 2 + selectors.length = (target :: selectors).length + 1 := by
      rw [List.length_cons]
      omega
    simp only [shape, substitutionLength, htarget, if_true, hall, hlength]

theorem length_of_compound (h : shape morphemes = .compound) : 2 ≤ morphemes.length := by
  match morphemes with
  | [] => cases h
  | [⟨kind, position⟩] => cases kind <;> cases h
  | _ :: _ :: rest => exact Nat.le_add_left 2 rest.length

/-- A word has the morphemes that its shape asks for. -/
theorem fits_shape (hvalid : shape morphemes ≠ .invalid) : Fits morphemes (shape morphemes) := by
  cases hshape : shape morphemes with
  | invalid => exact absurd hshape hvalid
  | ignored =>
    obtain ⟨comment, rfl, hcomment⟩ := eq_single_of_ignored hshape
    exact .ignored hcomment
  | root =>
    obtain ⟨morpheme, rfl, hcomment, hmarker⟩ := eq_single_of_root hshape
    exact .root hcomment hmarker
  | qualified => exact .qualified (shape_qualified_iff.1 hshape)
  | substitution => exact .substitution (shape_substitution_iff.1 hshape)
  | compound =>
    refine .compound (length_of_compound hshape) ?_ ?_ (areStems_iff.1 (areStems_of_compound hshape))
    · rw [← shape_qualified_iff, hshape]
      simp
    · rw [← shape_substitution_iff, hshape]
      simp

/-- Morphemes are sorted by what they fit. -/
theorem shape_of_fits {shape : Word.Shape} (h : Fits morphemes shape) :
    Morpheme.shape morphemes = shape := by
  cases h with
  | ignored hcomment =>
    rename_i comment
    obtain ⟨kind, position⟩ := comment
    cases kind <;> first | (cases hcomment; done) | rfl
  | root hcomment hmarker =>
    rename_i morpheme
    obtain ⟨kind, position⟩ := morpheme
    cases kind <;> first | (cases hcomment; done) | exact absurd rfl (hmarker _ _ _) | rfl
  | qualified hqualified => exact shape_qualified_iff.2 hqualified
  | substitution hsubstitution => exact shape_substitution_iff.2 hsubstitution
  | compound hlength hqualified hsubstitution hcut =>
    match morphemes with
    | [] | [_] => simp at hlength
    | first :: second :: rest =>
      have hfits := fits_shape (shape_ne_invalid_iff.2 (.inr (areStems_iff.2 hcut)))
      -- Of the shapes that two morphemes can have, a compound is what is left.
      generalize Morpheme.shape (first :: second :: rest) = shape at hfits
      cases hfits with
      | qualified h => exact absurd h hqualified
      | substitution h => exact absurd h hsubstitution
      | compound => rfl

theorem fits_iff {shape : Word.Shape} :
    Fits morphemes shape ↔ Morpheme.shape morphemes = shape ∧ shape ≠ .invalid := by
  constructor
  · intro h
    refine ⟨shape_of_fits h, ?_⟩
    rintro rfl
    cases h
  · rintro ⟨rfl, hvalid⟩
    exact fits_shape hvalid

/-- **The pass decides the grammar.**  A word has a shape, other than the invalid one, just when its
morphemes fit the shape, and is invalid when they fit none.  A marker takes two morphemes or more, and
never more than there are. -/
theorem fits_iff_shape (morphemes : List Morpheme) :
    (∀ shape, Fits morphemes shape ↔ Morpheme.shape morphemes = shape ∧ shape ≠ .invalid) ∧
      (Morpheme.shape morphemes = .invalid ↔ ¬∃ shape, Fits morphemes shape) ∧
      (substitutionLength morphemes = none ∨
        ∃ length, substitutionLength morphemes = some length ∧
          2 ≤ length ∧ length ≤ morphemes.length) := by
  refine ⟨fun shape => fits_iff, ?_, ?_⟩
  · constructor
    · rintro hinvalid ⟨shape, h⟩
      obtain ⟨hshape, hvalid⟩ := fits_iff.1 h
      exact hvalid (hshape.symm.trans hinvalid)
    · intro hnone
      by_contra hvalid
      exact hnone ⟨_, fits_shape hvalid⟩
  · cases hlength : substitutionLength morphemes with
    | none => exact .inl rfl
    | some length => exact .inr ⟨length, rfl, substitutionLength_bounds hlength⟩

/-- `$a[]()b`: the marker takes the selectors between the two literals. -/
example (script : Script) :
    substitutionLength [⟨.marker false 1 "$", none⟩, ⟨.literal "a", none⟩, ⟨.expression script, none⟩,
      ⟨.tuple script, none⟩, ⟨.literal "b", none⟩] = some 4 ∧
    shape [⟨.marker false 1 "$", none⟩, ⟨.literal "a", none⟩, ⟨.expression script, none⟩,
      ⟨.tuple script, none⟩, ⟨.literal "b", none⟩] = .compound :=
  ⟨rfl, rfl⟩

end Morpheme

end Parlance
