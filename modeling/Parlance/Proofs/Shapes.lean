import Parlance.Script.Shape

/-!
# What the shapes of words say of their morphemes

    shape (source :: rest) = .qualified → rest.all isSelector           (all_isSelector_of_qualified)
    shape morphemes = .substitution → a marker, its target and selectors       (stem_of_substitution)
    shape morphemes = .substitution → areStems false morphemes             (areStems_of_substitution)
    shape morphemes = .compound → areStems false morphemes                     (areStems_of_compound)
-/

namespace Parlance.Morpheme

variable {morphemes rest : List Morpheme} {first : Morpheme}

/-- A word that is a root has one morpheme. -/
theorem eq_single_of_root (h : shape morphemes = .root) :
    ∃ morpheme, morphemes = [morpheme] ∧ morpheme.kind.isComment = false ∧
      ∀ expands levels text, morpheme.kind ≠ .marker expands levels text := by
  match morphemes with
  | [] => cases h
  | [⟨kind, position⟩] =>
    refine ⟨⟨kind, position⟩, rfl, ?_⟩
    cases kind <;> first | (cases h; done) | exact ⟨rfl, by rintro _ _ _ ⟨⟩⟩
  | ⟨kind, position⟩ :: second :: rest =>
    cases kind <;> simp only [shape] at h <;> grind

/-- A word that is ignored is one comment. -/
theorem eq_single_of_ignored (h : shape morphemes = .ignored) :
    ∃ morpheme, morphemes = [morpheme] ∧ morpheme.kind.isComment := by
  match morphemes with
  | [] => cases h
  | [⟨kind, position⟩] =>
    refine ⟨⟨kind, position⟩, rfl, ?_⟩
    cases kind <;> first | (cases h; done) | rfl
  | ⟨kind, position⟩ :: second :: rest =>
    cases kind <;> simp only [shape] at h <;> grind

theorem all_isSelector_of_qualified (h : shape (first :: rest) = .qualified) :
    rest.all isSelector := by
  cases rest with
  | nil => rfl
  | cons next rest =>
    rw [shape] at h
    · grind
    · simp

/-- The source of a qualified word is a literal, a tuple or a block. -/
theorem source_of_qualified (h : shape (first :: rest) = .qualified) :
    first.kind.isSubstitutable ∧ ∀ script, first.kind ≠ .expression script := by
  obtain ⟨kind, position⟩ := first
  cases rest with
  | nil => cases kind <;> cases h
  | cons next rest => cases kind <;> simp only [shape] at h <;> grind [Kind.isSubstitutable]

/-- Selectors go on with a substitution. -/
theorem areStems_of_all_isSelector (h : morphemes.all isSelector) : areStems true morphemes := by
  induction morphemes with
  | nil => rfl
  | cons first rest ih =>
    rw [List.all_cons, Bool.and_eq_true] at h
    obtain ⟨kind, position⟩ := first
    cases kind <;> first | (cases h.1; done) | (unfold areStems; simpa using ih h.2)

theorem areStems_of_compound (h : shape morphemes = .compound) : areStems false morphemes := by
  match morphemes with
  | [] => rfl
  | [⟨kind, position⟩] => cases kind <;> cases h
  | ⟨kind, position⟩ :: second :: rest => cases kind <;> simp only [shape] at h <;> grind

/-- A word that is a substitution is a marker, what it replaces and selectors. -/
theorem stem_of_substitution (h : shape morphemes = .substitution) :
    ∃ expands levels text position target selectors,
      morphemes = ⟨.marker expands levels text, position⟩ :: target :: selectors ∧
        target.kind.isSubstitutable ∧ selectors.all isSelector := by
  match morphemes with
  | [] => cases h
  | [⟨kind, position⟩] => cases kind <;> cases h
  | ⟨.marker expands levels text, position⟩ :: target :: rest =>
    have hlength : substitutionLength (⟨.marker expands levels text, position⟩ :: target :: rest) =
        some ((target :: rest).length + 1) := by
      simp only [shape] at h
      grind
    rw [substitutionLength] at hlength
    split at hlength
    · rename_i htarget
      -- The substitution takes every morpheme after its target.
      have htake : (rest.takeWhile isSelector).length = rest.length := by
        have hsum := Option.some.inj hlength
        rw [List.length_cons] at hsum
        omega
      have hall : rest.all isSelector := by
        have hprefix := (List.takeWhile_prefix (l := rest) isSelector).eq_of_length htake
        rw [← hprefix]
        exact List.all_takeWhile
      exact ⟨_, _, _, _, _, _, rfl, htarget, hall⟩
    · cases hlength
  | ⟨.literal _, _⟩ :: second :: rest | ⟨.tuple _, _⟩ :: second :: rest
  | ⟨.block _ _, _⟩ :: second :: rest | ⟨.expression _, _⟩ :: second :: rest
  | ⟨.string _, _⟩ :: second :: rest | ⟨.hereString _ _, _⟩ :: second :: rest
  | ⟨.taggedString _ _, _⟩ :: second :: rest | ⟨.lineComment _ _, _⟩ :: second :: rest
  | ⟨.blockComment _ _, _⟩ :: second :: rest =>
    simp only [shape] at h
    grind

/-- A word that is a substitution is one stem. -/
theorem areStems_of_substitution (h : shape morphemes = .substitution) : areStems false morphemes := by
  obtain ⟨expands, levels, text, position, target, selectors, rfl, htarget, hall⟩ :=
    stem_of_substitution h
  rw [areStems]
  simp only [htarget, areStems_of_all_isSelector hall, Bool.and_self]

end Parlance.Morpheme
