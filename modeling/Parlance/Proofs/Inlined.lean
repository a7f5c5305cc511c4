import Mathlib.Data.List.Forall2
import Parlance.Program.Compile
import Parlance.Proofs.Results
import Parlance.Proofs.Shapes

/-!
# Expressions in compiled scripts

An expression is compiled in place: the steps of its script are among those of the script around it.
Each one has a place of its own there.  A block is no such place, unless it is a selector: its rules
are compiled with the rest.

    Compile.script tree = .ok steps → ∃ offsets, offsets.Pairwise (· < ·) ∧
      List.Forall₂ (BeginsAt steps) tree.inlined offsets                        (exists_offsets_of_script)
-/

namespace Parlance

/-- Whether a block behind the morpheme is a selector: behind a marker it is what that replaces. -/
def Morpheme.Kind.isSelected : Morpheme.Kind → Bool
  | .marker .. => false
  | _ => true

theorem Morpheme.Kind.isSelected_of_isSubstitutable {kind : Morpheme.Kind}
    (h : kind.isSubstitutable) : kind.isSelected := by
  cases kind <;> first | rfl | cases h

theorem Morpheme.Kind.isSelected_of_isSelector {kind : Morpheme.Kind} (h : kind.isSelector) :
    kind.isSelected := by
  cases kind <;> first | rfl | cases h

mutual

/-- The scripts of the expressions that a script is compiled with, in the order of their steps. -/
def Script.inlined : Script → List Script
  | ⟨sentences, _⟩ => Sentence.allInlined sentences

def Sentence.allInlined : List Sentence → List Script
  | [] => []
  | ⟨words, _⟩ :: rest => Word.allInlined words ++ Sentence.allInlined rest

def Word.allInlined : List Word → List Script
  | [] => []
  | ⟨morphemes, _⟩ :: rest => Morpheme.allInlined false morphemes ++ Word.allInlined rest

def Morpheme.allInlined (selected : Bool) : List Morpheme → List Script
  | [] => []
  | ⟨kind, _⟩ :: rest => kind.inlined selected ++ Morpheme.allInlined kind.isSelected rest

/-- The expressions of a morpheme, which is a selector if it is a block and `selected`. -/
def Morpheme.Kind.inlined (selected : Bool) : Morpheme.Kind → List Script
  | .expression script => script :: script.inlined
  | .tuple script => script.inlined
  | .block script _ => if selected then script.inlined else []
  | .string parts => Morpheme.allInlined false parts
  | .literal .. | .hereString .. | .taggedString .. | .lineComment .. | .blockComment ..
  | .marker .. => []

end

theorem Word.allInlined_cons (item : Word) (rest : List Word) :
    allInlined (item :: rest) = Morpheme.allInlined false item.morphemes ++ allInlined rest := by
  cases item
  rw [allInlined]

theorem Morpheme.allInlined_cons (selected : Bool) (item : Morpheme) (rest : List Morpheme) :
    allInlined selected (item :: rest) =
      item.kind.inlined selected ++ allInlined item.kind.isSelected rest := by
  cases item
  rw [allInlined]

theorem Morpheme.allInlined_of_ignored {morphemes : List Morpheme}
    (h : Morpheme.shape morphemes = .ignored) : Morpheme.allInlined false morphemes = [] := by
  cases morphemes with
  | nil => cases h
  | cons first rest =>
    obtain ⟨kind, position⟩ := first
    cases rest with
    | nil =>
      cases kind with
      | lineComment | blockComment => rfl
      | _ => cases h
    | cons second rest => cases kind <;> simp only [Morpheme.shape] at h <;> grind

namespace Compile

/-- Steps that hold those of some scripts, in order of where they begin. -/
inductive Inlines : List Script → List Step → Prop
  | plain (s : List Step) : Inlines [] s
  | append {bodies more : List Script} {s t : List Step} (hs : Inlines bodies s)
    (ht : Inlines more t) : Inlines (bodies ++ more) (s ++ t)
  /-- What is in place in a script begins behind its first step. -/
  | inPlace {tree : Script} {bodies : List Script} {first : Step} {rest : List Step}
    (h : Compile.script tree = .ok (first :: rest)) (hrest : Inlines bodies rest) :
    Inlines (tree :: bodies) (first :: rest)

namespace Inlines

variable {bodies more : List Script} {s t : List Step}

theorem after (before : List Step) (h : Inlines bodies s) : Inlines bodies (before ++ s) :=
  (Inlines.plain before).append h

theorem before (h : Inlines bodies s) (after : List Step) : Inlines bodies (s ++ after) := by
  have happend := h.append (.plain after)
  rwa [List.append_nil] at happend

theorem framed (h : Inlines bodies s) (position : Option Position) :
    Inlines bodies (framed position s) :=
  (h.after [_]).before [_]

/-- Whether a block that comes next among stems is a selector.  Between stems none can come. -/
def Fits : Stems → Bool → Prop
  | .next, _ => True
  | .target .., selected => selected = false
  | .selectors _, selected => selected = true

theorem isSelected_of_target {morpheme : Morpheme} {marker : Option Position} {steps : List Step}
    (h : Compile.target marker morpheme = .ok steps) : morpheme.kind.isSelected := by
  obtain ⟨kind, position⟩ := morpheme
  cases kind with
  | marker => simp [Compile.target] at h
  | _ => rfl

/-- A morpheme that no substitution takes. -/
theorem between {place : Stems} {morpheme : Morpheme} {rest : List Morpheme} {steps : List Step}
    {selected : Bool}
    (hstem : ∀ s, Compile.stem morpheme = .ok s → Inlines (morpheme.kind.inlined selected) s)
    (hrest : ∀ s place, Fits place morpheme.kind.isSelected → Compile.stems place rest = .ok s →
      Inlines (Morpheme.allInlined morpheme.kind.isSelected rest) s)
    (h : (match morpheme.kind with
      | .marker expands levels _ => do
        let others ← Compile.stems (.target expands levels morpheme.position) rest
        return place.rest ++ others
      | _ => do
        let first ← Compile.stem morpheme
        let others ← Compile.stems .next rest
        return place.rest ++ first ++ others) = .ok steps) :
    Inlines (Morpheme.allInlined selected (morpheme :: rest)) steps := by
  rw [Morpheme.allInlined_cons]
  obtain ⟨kind, position⟩ := morpheme
  cases kind with
  | marker expands levels text =>
    obtain ⟨t, ht, h⟩ := bind_eq_ok h
    cases h
    exact (hrest t (.target expands levels position) rfl ht).after place.rest
  | _ =>
    obtain ⟨s, hs, h⟩ := bind_eq_ok h
    obtain ⟨t, ht, h⟩ := bind_eq_ok h
    cases h
    exact ((hstem s hs).after place.rest).append (hrest t .next trivial ht)

/-- An expression holds its own script and what that holds. -/
theorem expression {tree : Script} {steps : List Step}
    (hscript : ∀ steps, Compile.script tree = .ok steps →
      ∃ first rest, steps = first :: rest ∧ Inlines tree.inlined rest)
    (h : Compile.script tree = .ok steps) : Inlines (tree :: tree.inlined) steps := by
  obtain ⟨first, rest, rfl, hrest⟩ := hscript steps h
  exact .inPlace h hrest

mutual

/-- A script has a first step, and the expressions in place are behind it. -/
theorem script : ∀ (tree : Script) (steps : List Step), Compile.script tree = .ok steps →
    ∃ first rest, steps = first :: rest ∧ Inlines tree.inlined rest
  | ⟨[], position⟩, steps, h => by
    rw [Compile.script] at h
    cases h
    exact ⟨_, _, rfl, .plain []⟩
  | ⟨⟨items, position⟩ :: rest, _⟩, steps, h => by
    rw [Compile.script, Compile.evaluated] at h
    obtain ⟨s, hs, h⟩ := bind_eq_ok h
    obtain ⟨inner, hinner, hs⟩ := bind_eq_ok hs
    obtain ⟨t, ht, h⟩ := bind_eq_ok h
    cases hs
    cases h
    refine ⟨_, _, rfl, ?_⟩
    rw [Script.inlined, Sentence.allInlined]
    exact (((words items inner hinner).before _).before _).append (remaining rest _ t ht)

theorem remaining : ∀ (tree : List Sentence) (position : Option Position) (steps : List Step),
    Compile.remaining position tree = .ok steps → Inlines (Sentence.allInlined tree) steps
  | [], position, steps, h => by
    rw [Sentence.allInlined]
    exact .plain steps
  | ⟨items, _⟩ :: rest, position, steps, h => by
    rw [Compile.remaining, Compile.evaluated] at h
    obtain ⟨s, hs, h⟩ := bind_eq_ok h
    obtain ⟨inner, hinner, hs⟩ := bind_eq_ok hs
    obtain ⟨t, ht, h⟩ := bind_eq_ok h
    cases hs
    cases h
    rw [Sentence.allInlined]
    exact (((words items inner hinner).framed _).before _).append (remaining rest _ t ht)

theorem allWords : ∀ (tree : List Sentence) (steps : List Step),
    Compile.allWords tree = .ok steps → Inlines (Sentence.allInlined tree) steps
  | [], steps, h => by
    rw [Sentence.allInlined]
    exact .plain steps
  | ⟨items, _⟩ :: rest, steps, h => by
    rw [Compile.allWords] at h
    obtain ⟨s, hs, h⟩ := bind_eq_ok h
    obtain ⟨t, ht, h⟩ := bind_eq_ok h
    cases h
    rw [Sentence.allInlined]
    exact (words items s hs).append (allWords rest t ht)

theorem rules : ∀ (tree : List Sentence) (steps : List Step),
    Compile.rules tree = .ok steps → Inlines (Sentence.allInlined tree) steps
  | [], steps, h => by
    rw [Sentence.allInlined]
    exact .plain steps
  | ⟨items, position⟩ :: rest, steps, h => by
    rw [Compile.rules] at h
    obtain ⟨s, hs, h⟩ := bind_eq_ok h
    obtain ⟨t, ht, h⟩ := bind_eq_ok h
    cases h
    rw [Sentence.allInlined]
    exact ((words items s hs).framed position).append (rules rest t ht)

theorem words : ∀ (tree : List Word) (steps : List Step), Compile.words tree = .ok steps →
    Inlines (Word.allInlined tree) steps
  | [], steps, h => by
    rw [Word.allInlined]
    exact .plain steps
  | first :: rest, steps, h => by
    rw [Compile.words] at h
    obtain ⟨s, hs, h⟩ := bind_eq_ok h
    obtain ⟨t, ht, h⟩ := bind_eq_ok h
    cases h
    rw [Word.allInlined_cons]
    exact (word first s hs).append (words rest t ht)

theorem word : ∀ (tree : Word) (steps : List Step), Compile.word tree = .ok steps →
    Inlines (Morpheme.allInlined false tree.morphemes) steps
  | ⟨morphemes, position⟩, steps, h => by
    unfold Compile.word at h
    show Inlines (Morpheme.allInlined false morphemes) steps
    cases hshape : Morpheme.shape morphemes with
    | root =>
      simp only [hshape] at h
      cases morphemes with
      | nil => cases h
      | cons morpheme rest =>
        obtain ⟨_, hsingle, -⟩ := Morpheme.eq_single_of_root hshape
        obtain ⟨-, hrest⟩ := List.cons.inj hsingle
        rw [hrest, Morpheme.allInlined_cons, Morpheme.allInlined, List.append_nil]
        exact root morpheme steps h
    | compound =>
      simp only [hshape] at h
      obtain ⟨s, hs, h⟩ := bind_eq_ok h
      cases h
      exact ((stems morphemes s .next false trivial hs).framed position).before _
    | substitution =>
      simp only [hshape] at h
      exact stems morphemes steps .next false trivial h
    | qualified =>
      simp only [hshape] at h
      cases morphemes with
      | nil => cases h
      | cons source rest =>
        obtain ⟨s, hs, h⟩ := bind_eq_ok h
        obtain ⟨t, ht, h⟩ := bind_eq_ok h
        cases h
        rw [Morpheme.allInlined_cons]
        have hselected := Morpheme.Kind.isSelected_of_isSubstitutable
          (Morpheme.source_of_qualified hshape).1
        exact (qualifiedSource source s hs).append (stems rest t (.selectors []) _ hselected ht)
    | ignored =>
      rw [Morpheme.allInlined_of_ignored hshape]
      exact .plain steps
    | invalid =>
      simp only [hshape] at h
      cases h

theorem root : ∀ (tree : Morpheme) (steps : List Step), Compile.root tree = .ok steps →
    Inlines (tree.kind.inlined false) steps
  | ⟨.tuple body, position⟩, steps, h => by
    rw [Compile.root] at h
    exact tuple body position steps h
  | ⟨.expression body, position⟩, steps, h => by
    rw [Compile.root] at h
    exact expression (script body) h
  | ⟨.string parts, position⟩, steps, h => by
    rw [Compile.root] at h
    obtain ⟨s, hs, h⟩ := bind_eq_ok h
    cases h
    exact ((stems parts s .next false trivial hs).framed position).before _
  | ⟨.literal .., position⟩, steps, h
  | ⟨.hereString .., position⟩, steps, h
  | ⟨.taggedString .., position⟩, steps, h
  | ⟨.block .., position⟩, steps, h
  | ⟨.lineComment .., position⟩, steps, h
  | ⟨.blockComment .., position⟩, steps, h
  | ⟨.marker .., position⟩, steps, h => .plain steps

theorem tuple : ∀ (tree : Script) (position : Option Position) (steps : List Step),
    Compile.tuple position tree = .ok steps → Inlines tree.inlined steps
  | ⟨items, _⟩, position, steps, h => by
    rw [Compile.tuple] at h
    obtain ⟨s, hs, h⟩ := bind_eq_ok h
    cases h
    rw [Script.inlined]
    exact (allWords items s hs).framed position

theorem qualifiedSource : ∀ (tree : Morpheme) (steps : List Step),
    Compile.qualifiedSource tree = .ok steps → Inlines (tree.kind.inlined false) steps
  | ⟨.tuple body, position⟩, steps, h => by
    rw [Compile.qualifiedSource] at h
    obtain ⟨s, hs, h⟩ := bind_eq_ok h
    cases h
    exact (tuple body position s hs).before _
  | ⟨.expression .., position⟩, steps, h
  | ⟨.string .., position⟩, steps, h => by
    simp [Compile.qualifiedSource] at h
  | ⟨.literal .., position⟩, steps, h
  | ⟨.block .., position⟩, steps, h
  | ⟨.hereString .., position⟩, steps, h
  | ⟨.taggedString .., position⟩, steps, h
  | ⟨.lineComment .., position⟩, steps, h
  | ⟨.blockComment .., position⟩, steps, h
  | ⟨.marker .., position⟩, steps, h => .plain steps

theorem target : ∀ (tree : Morpheme) (marker : Option Position) (steps : List Step),
    Compile.target marker tree = .ok steps → Inlines (tree.kind.inlined false) steps
  | ⟨.tuple body, position⟩, marker, steps, h => by
    rw [Compile.target] at h
    obtain ⟨s, hs, h⟩ := bind_eq_ok h
    cases h
    exact (tuple body position s hs).before _
  | ⟨.expression body, position⟩, marker, steps, h => by
    rw [Compile.target] at h
    exact expression (script body) h
  | ⟨.string .., position⟩, marker, steps, h => by
    simp [Compile.target] at h
  | ⟨.literal .., position⟩, marker, steps, h
  | ⟨.block .., position⟩, marker, steps, h
  | ⟨.hereString .., position⟩, marker, steps, h
  | ⟨.taggedString .., position⟩, marker, steps, h
  | ⟨.lineComment .., position⟩, marker, steps, h
  | ⟨.blockComment .., position⟩, marker, steps, h
  | ⟨.marker .., position⟩, marker, steps, h => .plain steps

theorem selector : ∀ (tree : Morpheme) (steps : List Step), Compile.selector tree = .ok steps →
    Inlines (tree.kind.inlined true) steps
  | ⟨.tuple body, position⟩, steps, h => by
    rw [Compile.selector] at h
    obtain ⟨s, hs, h⟩ := bind_eq_ok h
    cases h
    exact (tuple body position s hs).before _
  | ⟨.block ⟨items, _⟩ _, position⟩, steps, h => by
    rw [Compile.selector] at h
    obtain ⟨s, hs, h⟩ := bind_eq_ok h
    cases h
    exact ((rules items s hs).framed position).before _
  | ⟨.expression body, position⟩, steps, h => by
    rw [Compile.selector] at h
    obtain ⟨s, hs, h⟩ := bind_eq_ok h
    cases h
    exact (expression (script body) hs).before _
  | ⟨.string .., position⟩, steps, h => by
    simp [Compile.selector] at h
  | ⟨.literal .., position⟩, steps, h
  | ⟨.hereString .., position⟩, steps, h
  | ⟨.taggedString .., position⟩, steps, h
  | ⟨.lineComment .., position⟩, steps, h
  | ⟨.blockComment .., position⟩, steps, h
  | ⟨.marker .., position⟩, steps, h => .plain steps

theorem stem : ∀ (tree : Morpheme) (selected : Bool) (steps : List Step),
    Compile.stem tree = .ok steps → Inlines (tree.kind.inlined selected) steps
  | ⟨.expression body, position⟩, selected, steps, h => by
    rw [Compile.stem] at h
    exact expression (script body) h
  | ⟨.tuple .., position⟩, selected, steps, h
  | ⟨.block .., position⟩, selected, steps, h
  | ⟨.string .., position⟩, selected, steps, h => by
    simp [Compile.stem] at h
  | ⟨.literal .., position⟩, selected, steps, h
  | ⟨.hereString .., position⟩, selected, steps, h
  | ⟨.taggedString .., position⟩, selected, steps, h
  | ⟨.lineComment .., position⟩, selected, steps, h
  | ⟨.blockComment .., position⟩, selected, steps, h
  | ⟨.marker .., position⟩, selected, steps, h => .plain steps

theorem stems : ∀ (tree : List Morpheme) (steps : List Step) (place : Stems) (selected : Bool),
    Fits place selected → Compile.stems place tree = .ok steps →
    Inlines (Morpheme.allInlined selected tree) steps
  | [], steps, place, selected, hfits, h => by
    rw [Morpheme.allInlined]
    exact .plain steps
  | morpheme :: rest, steps, .target .., selected, hfits, h => by
    rw [Compile.stems] at h
    obtain ⟨s, hs, h⟩ := bind_eq_ok h
    obtain ⟨t, ht, h⟩ := bind_eq_ok h
    cases h
    cases hfits
    rw [Morpheme.allInlined_cons]
    exact (target morpheme _ s hs).append
      (stems rest t (.selectors _) _ (isSelected_of_target hs) ht)
  | morpheme :: rest, steps, .next, selected, hfits, h => by
    rw [Compile.stems.eq_5 _ _ _ (by rintro _ _ _ ⟨⟩) (by rintro _ ⟨⟩)] at h
    exact between (stem morpheme selected) (stems rest · · _) h
  | morpheme :: rest, steps, .selectors left, selected, hfits, h => by
    by_cases hselector : morpheme.kind.isSelector
    · rw [Compile.stems.eq_4 _ _ _ hselector] at h
      obtain ⟨s, hs, h⟩ := bind_eq_ok h
      obtain ⟨t, ht, h⟩ := bind_eq_ok h
      cases h
      cases hfits
      rw [Morpheme.allInlined_cons]
      have hselected := Morpheme.Kind.isSelected_of_isSelector hselector
      exact (selector morpheme s hs).append (stems rest t (.selectors left) _ hselected ht)
    · rw [Compile.stems.eq_5 _ _ _ (by rintro _ _ _ ⟨⟩) (by rintro _ _ h; exact hselector h)] at h
      exact between (stem morpheme selected) (stems rest · · _) h

end

end Inlines

/-! ## Where they begin -/

/-- The steps of a script are among others, from an offset on. -/
def BeginsAt (steps : List Step) (tree : Script) (offset : Nat) : Prop :=
  ∃ inner, script tree = .ok inner ∧ inner <+: steps.drop offset

section BeginsAt

variable {s : List Step} {tree : Script} {offset : Nat}

theorem BeginsAt.append (h : BeginsAt s tree offset) (t : List Step) : BeginsAt (s ++ t) tree offset := by
  obtain ⟨inner, hinner, hs⟩ := h
  refine ⟨inner, hinner, ?_⟩
  rw [List.drop_append]
  exact hs.trans (List.prefix_append ..)

theorem BeginsAt.behind (h : BeginsAt s tree offset) (t : List Step) :
    BeginsAt (t ++ s) tree (t.length + offset) := by
  obtain ⟨inner, hinner, hs⟩ := h
  refine ⟨inner, hinner, ?_⟩
  rwa [List.drop_length_add_append]

/-- Every script has a step. -/
theorem BeginsAt.lt (h : BeginsAt s tree offset) : offset < s.length := by
  obtain ⟨inner, hinner, hs⟩ := h
  obtain ⟨first, rest, rfl, -⟩ := Inlines.script tree inner hinner
  have hlength := hs.length_le
  rw [List.length_cons, List.length_drop] at hlength
  omega

/-- What steps hold begins at places of its own. -/
theorem Inlines.exists_offsets {bodies : List Script} (h : Inlines bodies s) :
    ∃ offsets : List Nat, offsets.Pairwise (· < ·) ∧ List.Forall₂ (BeginsAt s) bodies offsets := by
  induction h with
  | plain s => exact ⟨[], .nil, .nil⟩
  | @append bodies more s t _ _ ihs iht =>
    obtain ⟨first, hfirst, hs⟩ := ihs
    obtain ⟨second, hsecond, ht⟩ := iht
    have hlt : ∀ offset ∈ first, offset < s.length :=
      ((List.forall₂_and_left ..).1 (hs.flip.imp fun _ _ h => ⟨BeginsAt.lt h, h⟩)).1
    refine ⟨first ++ second.map (s.length + ·), ?_, ?_⟩
    · rw [List.pairwise_append]
      refine ⟨hfirst, hsecond.map _ fun _ _ h => Nat.add_lt_add_left h _, ?_⟩
      intro offset hoffset place hplace
      obtain ⟨behind, -, rfl⟩ := List.mem_map.1 hplace
      exact Nat.lt_add_right _ (hlt offset hoffset)
    · refine List.rel_append (hs.imp fun _ _ h => h.append t) ?_
      rw [List.forall₂_map_right_iff]
      exact ht.imp fun _ _ h => h.behind s
  | @inPlace tree bodies first rest h _ ih =>
    obtain ⟨offsets, hoffsets, hrest⟩ := ih
    refine ⟨0 :: offsets.map (1 + ·), ?_, ?_⟩
    · rw [List.pairwise_cons]
      refine ⟨fun place hplace => ?_, hoffsets.map _ fun _ _ h => Nat.add_lt_add_left h 1⟩
      obtain ⟨behind, -, rfl⟩ := List.mem_map.1 hplace
      exact Nat.lt_add_right _ Nat.one_pos
    · refine .cons ⟨first :: rest, h, List.prefix_rfl⟩ ?_
      rw [List.forall₂_map_right_iff]
      exact hrest.imp fun _ _ h => h.behind [first]

end BeginsAt

/-- The expressions of a script are compiled in place, each at a place of its own. -/
theorem exists_offsets_of_script {tree : Script} {steps : List Step} (h : script tree = .ok steps) :
    ∃ offsets : List Nat, offsets.Pairwise (· < ·) ∧
      List.Forall₂ (BeginsAt steps) tree.inlined offsets := by
  obtain ⟨first, rest, rfl, hrest⟩ := Inlines.script tree steps h
  exact (hrest.after [first]).exists_offsets

end Compile

end Parlance
