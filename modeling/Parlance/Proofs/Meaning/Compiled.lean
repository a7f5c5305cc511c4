import Parlance.Proofs.Results
import Parlance.Proofs.Meaning.Steps
import Parlance.Proofs.Shapes

/-!
# Compiled trees perform their meaning

One lemma for each construct, by recursion on the tree along with the compiler.  The stems of a word
or string are read from left to right by both sides; `Stands` says that they stand at the same place.

    Compile.script tree = .ok steps → Performs host steps [] (single (script host tree))   (performs_script)
-/

namespace Parlance.Meaning

open Compile (Step framed finishSubstitution)

variable {σ : Type}

section Finish

variable (host : Host σ) (position : Option Position)

theorem performs_resolveTimes (levels : Nat) (value : Value) :
    Performs host (List.replicate levels (.op .resolveValue position)) [value]
      (single (resolveTimes host levels value)) := by
  induction levels generalizing value with
  | zero => exact Performs.nil
  | succ levels ih =>
    have h := (performs_resolve host position value).append_single fun named => ih named
    simpa [resolveTimes, single, List.replicate_succ] using h

/-- What is left to do for a substitution makes its values. -/
theorem performs_finish (substitution : Substitution) (value : Value) :
    Performs host (finishSubstitution substitution.expands substitution.levels position) [value]
      (substitution.finish host value) := by
  unfold finishSubstitution Substitution.finish
  refine (performs_resolveTimes host position _ value).append_single fun named => ?_
  by_cases he : substitution.expands
  · simpa [he] using performs_expand host position named
  · simpa [he] using Performs.nil

end Finish

/-- Both sides stand at the same place among the stems, with `taken` selected so far. -/
inductive Stands : Compile.Stems → Place → List Value → Prop where
  | next : Stands .next .next []
  | target {expands : Bool} {levels : Nat} {position : Option Position} :
      Stands (.target expands levels position) (.target ⟨expands, levels⟩) []
  | selectors {substitution : Substitution} {value : Value} {position : Option Position} :
      Stands (.selectors (finishSubstitution substitution.expands substitution.levels position))
        (.selectors substitution value) [value]

variable (host : Host σ)

/-- A morpheme that no substitution takes: what is left of the substitution before it is done, and
the morpheme is a marker or a stem of its own. -/
theorem performs_between (origin : Compile.Stems) (place : Place) {taken : List Value}
    {morpheme : Morpheme} {rest : List Morpheme} {steps : List Step}
    (hleft : Performs host origin.rest taken (place.finish host))
    (hstem : ∀ s, Compile.stem morpheme = .ok s →
      Performs host s [] (single (stem host morpheme)))
    (hrest : ∀ s {origin place taken}, Stands origin place taken → Compile.stems origin rest = .ok s →
      Performs host s taken (stems host place rest))
    (h : (match morpheme.kind with
      | .marker expands levels _ => do
        let others ← Compile.stems (.target expands levels morpheme.position) rest
        return origin.rest ++ others
      | _ => do
        let first ← Compile.stem morpheme
        let others ← Compile.stems .next rest
        return origin.rest ++ first ++ others) = .ok steps) :
    Performs host steps taken (do
      let before ← place.finish host
      match morpheme.kind with
      | .marker expands levels _ =>
        return before ++ (← stems host (.target ⟨expands, levels⟩) rest)
      | _ => do
        let first ← stem host morpheme
        let others ← stems host .next rest
        return before ++ first :: others) := by
  obtain ⟨kind, position⟩ := morpheme
  cases kind with
  | marker expands levels text =>
    obtain ⟨t, ht, h⟩ := bind_eq_ok h
    cases h
    exact hleft.append_values (hrest t .target ht)
  | _ =>
    obtain ⟨s, hs, h⟩ := bind_eq_ok h
    obtain ⟨t, ht, h⟩ := bind_eq_ok h
    cases h
    have h := hleft.append_values ((hstem s hs).append_values (hrest t .next ht))
    simpa [single] using h

mutual

theorem performs_script : ∀ (tree : Script) (steps : List Step), Compile.script tree = .ok steps →
    Performs host steps [] (single (script host tree))
  | ⟨[], position⟩, steps, h => by
    rw [Compile.script] at h
    cases h
    simpa [script, single] using performs_pushNil host position
  | ⟨first :: rest, position⟩, steps, h => by
    rw [Compile.script] at h
    obtain ⟨s, hs, h⟩ := bind_eq_ok h
    obtain ⟨t, ht, h⟩ := bind_eq_ok h
    cases h
    have h := (performs_sentence first s hs).append_silent (performs_remaining rest _ t ht)
    simpa [script, single] using h

theorem performs_remaining : ∀ (tree : List Sentence) (position : Option Position)
    (steps : List Step), Compile.remaining position tree = .ok steps →
    Performs host steps [] (single (do sentences host tree; get))
  | [], position, steps, h => by
    rw [Compile.remaining] at h
    cases h
    simpa [sentences] using performs_pushResult host position
  | first :: rest, position, steps, h => by
    rw [Compile.remaining] at h
    obtain ⟨s, hs, h⟩ := bind_eq_ok h
    obtain ⟨t, ht, h⟩ := bind_eq_ok h
    cases h
    have h := (performs_sentence first s hs).append_silent (performs_remaining rest _ t ht)
    simpa [sentences, single] using h

theorem performs_sentence : ∀ (tree : Sentence) (steps : List Step),
    Compile.evaluated tree = .ok steps → Performs host steps [] (silent (sentence host tree))
  | ⟨items, position⟩, steps, h => by
    rw [Compile.evaluated] at h
    obtain ⟨s, hs, h⟩ := bind_eq_ok h
    cases h
    have h := (performs_words items s hs).framed_append position (performs_dispatch host position)
    simpa [sentence, silent] using h

theorem performs_allWords : ∀ (tree : List Sentence) (steps : List Step),
    Compile.allWords tree = .ok steps → Performs host steps [] (allWords host tree)
  | [], steps, h => by
    rw [Compile.allWords] at h
    cases h
    simpa [allWords] using Performs.nil
  | ⟨items, position⟩ :: rest, steps, h => by
    rw [Compile.allWords] at h
    obtain ⟨s, hs, h⟩ := bind_eq_ok h
    obtain ⟨t, ht, h⟩ := bind_eq_ok h
    cases h
    rw [allWords]
    exact (performs_words items s hs).append_values (performs_allWords rest t ht)

theorem performs_rules : ∀ (tree : List Sentence) (steps : List Step),
    Compile.rules tree = .ok steps → Performs host steps [] (rules host tree)
  | [], steps, h => by
    rw [Compile.rules] at h
    cases h
    simpa [rules] using Performs.nil
  | ⟨items, position⟩ :: rest, steps, h => by
    rw [Compile.rules] at h
    obtain ⟨s, hs, h⟩ := bind_eq_ok h
    obtain ⟨t, ht, h⟩ := bind_eq_ok h
    cases h
    have h := ((performs_words items s hs).framed position).append_values (performs_rules rest t ht)
    simpa [rules] using h

theorem performs_words : ∀ (tree : List Word) (steps : List Step), Compile.words tree = .ok steps →
    Performs host steps [] (words host tree)
  | [], steps, h => by
    rw [Compile.words] at h
    cases h
    simpa [words] using Performs.nil
  | first :: rest, steps, h => by
    rw [Compile.words] at h
    obtain ⟨s, hs, h⟩ := bind_eq_ok h
    obtain ⟨t, ht, h⟩ := bind_eq_ok h
    cases h
    rw [words]
    exact (performs_word first s hs).append_values (performs_words rest t ht)

theorem performs_word : ∀ (tree : Word) (steps : List Step), Compile.word tree = .ok steps →
    Performs host steps [] (word host tree)
  | ⟨morphemes, position⟩, steps, h => by
    unfold Compile.word at h
    unfold word
    cases hshape : Morpheme.shape morphemes with
    | root =>
      simp only [hshape] at h ⊢
      cases morphemes with
      | nil => cases h
      | cons morpheme rest => exact performs_root morpheme steps h
    | compound =>
      simp only [hshape] at h ⊢
      obtain ⟨s, hs, h⟩ := bind_eq_ok h
      cases h
      have h := (performs_stems morphemes s .next hs).framed_append position
        (performs_join host position)
      simpa [single] using h
    | substitution =>
      simp only [hshape] at h ⊢
      exact performs_stems morphemes steps .next h
    | qualified =>
      simp only [hshape] at h ⊢
      cases morphemes with
      | nil => cases h
      | cons source rest =>
        obtain ⟨s, hs, h⟩ := bind_eq_ok h
        obtain ⟨t, ht, h⟩ := bind_eq_ok h
        cases h
        have h := (performs_qualifiedSource source s hs).bind
          (fun value => [.qualified value []]) fun value =>
            performs_selectors rest (.qualified value []) t (Morpheme.all_isSelector_of_qualified hshape) ht
        simpa [single] using h
    | ignored =>
      simp only [hshape] at h ⊢
      cases h
      exact Performs.nil
    | invalid =>
      simp only [hshape] at h
      cases h

theorem performs_root : ∀ (tree : Morpheme) (steps : List Step), Compile.root tree = .ok steps →
    Performs host steps [] (single (root host tree))
  | ⟨.literal text, position⟩, steps, h
  | ⟨.hereString text _, position⟩, steps, h
  | ⟨.taggedString text _, position⟩, steps, h => by
    rw [Compile.root] at h
    cases h
    simpa [root, single] using performs_constant host position (.string text)
  | ⟨.block body text, position⟩, steps, h => by
    rw [Compile.root] at h
    cases h
    simpa [root, single] using performs_constant host position (.script body (some text))
  | ⟨.tuple body, position⟩, steps, h => by
    rw [Compile.root] at h
    simpa [root, single] using performs_tuple body position steps h
  | ⟨.expression body, position⟩, steps, h => by
    rw [Compile.root] at h
    exact performs_script body steps h
  | ⟨.string parts, position⟩, steps, h => by
    rw [Compile.root] at h
    obtain ⟨s, hs, h⟩ := bind_eq_ok h
    cases h
    have h := (performs_stems parts s .next hs).framed_append position (performs_join host position)
    simpa [root, single] using h
  | ⟨.lineComment .., position⟩, steps, h
  | ⟨.blockComment .., position⟩, steps, h
  | ⟨.marker .., position⟩, steps, h => by
    simp [Compile.root] at h

theorem performs_tuple : ∀ (tree : Script) (position : Option Position) (steps : List Step),
    Compile.tuple position tree = .ok steps →
    Performs host steps [] (do return [.tuple (← tuple host tree)])
  | ⟨items, _⟩, position, steps, h => by
    rw [Compile.tuple] at h
    obtain ⟨s, hs, h⟩ := bind_eq_ok h
    cases h
    exact (performs_allWords items s hs).framed position

theorem performs_qualifiedSource : ∀ (tree : Morpheme) (steps : List Step),
    Compile.qualifiedSource tree = .ok steps →
    Performs host steps [] (do return [.qualified (← qualifiedSource host tree) []])
  | ⟨.literal text, position⟩, steps, h
  | ⟨.block _ text, position⟩, steps, h => by
    rw [Compile.qualifiedSource] at h
    cases h
    have h := (performs_constant host position (.string text)).append_single
      (performs_setSource host position)
    simpa [qualifiedSource] using h
  | ⟨.tuple body, position⟩, steps, h => by
    rw [Compile.qualifiedSource] at h
    obtain ⟨s, hs, h⟩ := bind_eq_ok h
    cases h
    have h := (performs_tuple body position s hs).bind (fun values => [.tuple values])
      fun values => performs_setSource host position (.tuple values)
    simpa [qualifiedSource] using h
  | ⟨.expression .., position⟩, steps, h
  | ⟨.string .., position⟩, steps, h
  | ⟨.hereString .., position⟩, steps, h
  | ⟨.taggedString .., position⟩, steps, h
  | ⟨.lineComment .., position⟩, steps, h
  | ⟨.blockComment .., position⟩, steps, h
  | ⟨.marker .., position⟩, steps, h => by
    simp [Compile.qualifiedSource] at h

theorem performs_target : ∀ (tree : Morpheme) (marker : Option Position) (steps : List Step),
    Compile.target marker tree = .ok steps → Performs host steps [] (single (target host tree))
  | ⟨.literal text, position⟩, marker, steps, h
  | ⟨.block _ text, position⟩, marker, steps, h => by
    rw [Compile.target] at h
    cases h
    have h := (performs_constant host position (.string text)).append_single
      (performs_resolve host marker)
    simpa [target] using h
  | ⟨.tuple body, position⟩, marker, steps, h => by
    rw [Compile.target] at h
    obtain ⟨s, hs, h⟩ := bind_eq_ok h
    cases h
    have h := (performs_tuple body position s hs).bind (fun values => [.tuple values])
      fun values => performs_resolve host marker (.tuple values)
    simpa [target, single] using h
  | ⟨.expression body, position⟩, marker, steps, h => by
    rw [Compile.target] at h
    exact performs_script body steps h
  | ⟨.string .., position⟩, marker, steps, h
  | ⟨.hereString .., position⟩, marker, steps, h
  | ⟨.taggedString .., position⟩, marker, steps, h
  | ⟨.lineComment .., position⟩, marker, steps, h
  | ⟨.blockComment .., position⟩, marker, steps, h
  | ⟨.marker .., position⟩, marker, steps, h => by
    simp [Compile.target] at h

theorem performs_selector : ∀ (tree : Morpheme) (value : Value) (steps : List Step),
    Compile.selector tree = .ok steps →
    Performs host steps [value] (single (selector host value tree))
  | ⟨.tuple body, position⟩, value, steps, h => by
    rw [Compile.selector] at h
    obtain ⟨s, hs, h⟩ := bind_eq_ok h
    cases h
    have hkeys := (performs_tuple body position s hs).frame [value]
    have h := Performs.bind (fun keys => [value, .tuple keys]) (by simpa using hkeys)
      fun keys => performs_selectKeys host position value keys
    simpa [selector, single] using h
  | ⟨.block ⟨items, _⟩ text, position⟩, value, steps, h => by
    rw [Compile.selector] at h
    obtain ⟨s, hs, h⟩ := bind_eq_ok h
    cases h
    have hrules := ((performs_rules items s hs).framed position).frame [value]
    have h := Performs.bind (fun rules => [value, .tuple rules]) (by simpa using hrules)
      fun rules => performs_selectRules host position value rules
    simpa [selector, single] using h
  | ⟨.expression body, position⟩, value, steps, h => by
    rw [Compile.selector] at h
    obtain ⟨s, hs, h⟩ := bind_eq_ok h
    cases h
    have hindex := (performs_script body s hs).frame [value]
    have h := Performs.bind (fun index => [value, index]) (by simpa [single] using hindex)
      fun index => performs_selectIndex host position value index
    simpa [selector, single] using h
  | ⟨.literal .., position⟩, value, steps, h
  | ⟨.string .., position⟩, value, steps, h
  | ⟨.hereString .., position⟩, value, steps, h
  | ⟨.taggedString .., position⟩, value, steps, h
  | ⟨.lineComment .., position⟩, value, steps, h
  | ⟨.blockComment .., position⟩, value, steps, h
  | ⟨.marker .., position⟩, value, steps, h => by
    simp [Compile.selector] at h

theorem performs_selectors : ∀ (tree : List Morpheme) (value : Value) (steps : List Step),
    tree.all Morpheme.isSelector → Compile.stems (.selectors []) tree = .ok steps →
    Performs host steps [value] (single (selectors host value tree))
  | [], value, steps, hall, h => by
    rw [Compile.stems] at h
    · cases h
      show Performs host [] [value] _
      simpa [selectors, single] using Performs.nil
    · rintro _ _ _ ⟨⟩
  | first :: rest, value, steps, hall, h => by
    rw [List.all_cons, Bool.and_eq_true] at hall
    rw [Compile.stems.eq_4 _ _ _ hall.1] at h
    obtain ⟨s, hs, h⟩ := bind_eq_ok h
    obtain ⟨t, ht, h⟩ := bind_eq_ok h
    cases h
    have h := (performs_selector first value s hs).append_single fun selected =>
      performs_selectors rest selected t hall.2 ht
    simpa [selectors, single] using h

theorem performs_stem : ∀ (tree : Morpheme) (steps : List Step), Compile.stem tree = .ok steps →
    Performs host steps [] (single (stem host tree))
  | ⟨.literal text, position⟩, steps, h => by
    rw [Compile.stem] at h
    cases h
    simpa [stem, single] using performs_constant host position (.string text)
  | ⟨.expression body, position⟩, steps, h => by
    rw [Compile.stem] at h
    exact performs_script body steps h
  | ⟨.tuple .., position⟩, steps, h
  | ⟨.block .., position⟩, steps, h
  | ⟨.string .., position⟩, steps, h
  | ⟨.hereString .., position⟩, steps, h
  | ⟨.taggedString .., position⟩, steps, h
  | ⟨.lineComment .., position⟩, steps, h
  | ⟨.blockComment .., position⟩, steps, h
  | ⟨.marker .., position⟩, steps, h => by
    simp [Compile.stem] at h

theorem performs_stems : ∀ (tree : List Morpheme) (steps : List Step) {origin : Compile.Stems}
    {place : Place} {taken : List Value}, Stands origin place taken →
    Compile.stems origin tree = .ok steps → Performs host steps taken (stems host place tree)
  | [], steps, _, _, _, hplace, h => by
    rw [stems]
    cases hplace with
    | next =>
      rw [Compile.stems] at h
      · cases h
        exact Performs.nil
      · rintro _ _ _ ⟨⟩
    | target =>
      rw [Compile.stems] at h
      cases h
    | selectors =>
      rw [Compile.stems] at h
      · cases h
        exact performs_finish host _ _ _
      · rintro _ _ _ ⟨⟩
  | morpheme :: rest, steps, _, _, _, hplace, h => by
    cases hplace with
    | next =>
      rw [Compile.stems.eq_5 _ _ _ (by rintro _ _ _ ⟨⟩) (by rintro _ ⟨⟩)] at h
      rw [stems.eq_4 _ _ _ _ (by rintro _ ⟨⟩) (by rintro _ _ ⟨⟩)]
      exact performs_between host .next .next Performs.nil (performs_stem morpheme) (performs_stems rest) h
    | target =>
      rw [Compile.stems] at h
      obtain ⟨s, hs, h⟩ := bind_eq_ok h
      obtain ⟨t, ht, h⟩ := bind_eq_ok h
      cases h
      rw [stems]
      exact (performs_target morpheme _ s hs).append_single fun value =>
        performs_stems rest t .selectors ht
    | @selectors substitution value position =>
      have hleft := performs_finish host position substitution value
      by_cases hselector : morpheme.kind.isSelector
      · rw [Compile.stems.eq_4 _ _ _ hselector] at h
        obtain ⟨s, hs, h⟩ := bind_eq_ok h
        obtain ⟨t, ht, h⟩ := bind_eq_ok h
        cases h
        rw [stems.eq_3 _ _ _ _ _ hselector]
        exact (performs_selector morpheme _ s hs).append_single fun value =>
          performs_stems rest t .selectors ht
      · rw [Compile.stems.eq_5 _ _ _ (by rintro _ _ _ ⟨⟩) (by rintro _ _ h; exact hselector h)] at h
        rw [stems.eq_4 _ _ _ _ (by rintro _ ⟨⟩) (by rintro _ _ _ h; exact hselector h)]
        exact performs_between host (.selectors _) (.selectors ..) hleft
          (performs_stem morpheme) (performs_stems rest) h

end

end Parlance.Meaning
