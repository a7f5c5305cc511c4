import Parlance.Program.Compile
import Parlance.Proofs.Results
import Parlance.Proofs.Shapes

/-!
# Well-shaped scripts

A script is well shaped when every word in it, at any depth, has a shape and the parts of every
quoted string are stems.  Well-shaped scripts compile, whole and in parts, and so do the scripts in
their brackets.

    tree.isWellShaped → body ∈ tree.bodies → body.isWellShaped               (isWellShaped_of_mem_bodies)
    tree.isWellShaped → tree.Compiles source                                              (compiles)
-/

namespace Parlance

mutual

/-- Whether every word of a script has a shape, and the parts of every quoted string are stems. -/
def Script.isWellShaped : Script → Bool
  | ⟨sentences, _⟩ => Sentence.areWellShaped sentences

def Sentence.areWellShaped : List Sentence → Bool
  | [] => true
  | ⟨words, _⟩ :: rest => Word.areWellShaped words && Sentence.areWellShaped rest

def Word.areWellShaped : List Word → Bool
  | [] => true
  | ⟨morphemes, _⟩ :: rest =>
    Morpheme.shape morphemes ≠ .invalid && Morpheme.areWellShaped morphemes &&
      Word.areWellShaped rest

def Morpheme.areWellShaped : List Morpheme → Bool
  | [] => true
  | ⟨kind, _⟩ :: rest => kind.isWellShaped && Morpheme.areWellShaped rest

def Morpheme.Kind.isWellShaped : Morpheme.Kind → Bool
  | .tuple script => script.isWellShaped
  | .block script _ => script.isWellShaped
  | .expression script => script.isWellShaped
  | .string parts => Morpheme.areStems false parts && Morpheme.areWellShaped parts
  | .literal .. | .hereString .. | .taggedString .. | .lineComment .. | .blockComment ..
  | .marker .. => true

end

@[simp] theorem Sentence.areWellShaped_cons (item : Sentence) (rest : List Sentence) :
    areWellShaped (item :: rest) = (Word.areWellShaped item.words && areWellShaped rest) := by
  cases item
  rw [areWellShaped]

@[simp] theorem Word.areWellShaped_cons (item : Word) (rest : List Word) :
    areWellShaped (item :: rest) =
      (item.shape ≠ .invalid && Morpheme.areWellShaped item.morphemes && areWellShaped rest) := by
  cases item
  rw [areWellShaped, Word.shape]

@[simp] theorem Morpheme.areWellShaped_cons (item : Morpheme) (rest : List Morpheme) :
    areWellShaped (item :: rest) = (item.kind.isWellShaped && areWellShaped rest) := by
  cases item
  rw [areWellShaped]

theorem Sentence.areWellShaped_iff {items : List Sentence} :
    areWellShaped items ↔ ∀ item ∈ items, Word.areWellShaped item.words := by
  induction items with
  | nil => simp [areWellShaped]
  | cons item rest ih => simp [ih]

theorem Word.areWellShaped_iff {items : List Word} :
    areWellShaped items ↔
      ∀ item ∈ items, item.shape ≠ .invalid ∧ Morpheme.areWellShaped item.morphemes := by
  induction items with
  | nil => simp [areWellShaped]
  | cons item rest ih => simp [ih]

theorem Morpheme.areWellShaped_iff {items : List Morpheme} :
    areWellShaped items ↔ ∀ item ∈ items, item.kind.isWellShaped := by
  induction items with
  | nil => simp [areWellShaped]
  | cons item rest ih => simp [ih]

/-! ## Scripts in brackets -/

mutual

/-- The scripts of the tuples, blocks and expressions of a script, at any depth. -/
def Script.bodies : Script → List Script
  | ⟨sentences, _⟩ => Sentence.allBodies sentences

def Sentence.allBodies : List Sentence → List Script
  | [] => []
  | ⟨words, _⟩ :: rest => Word.allBodies words ++ Sentence.allBodies rest

def Word.allBodies : List Word → List Script
  | [] => []
  | ⟨morphemes, _⟩ :: rest => Morpheme.allBodies morphemes ++ Word.allBodies rest

def Morpheme.allBodies : List Morpheme → List Script
  | [] => []
  | ⟨kind, _⟩ :: rest => kind.bodies ++ Morpheme.allBodies rest

/-- The scripts in a morpheme, its own included. -/
def Morpheme.Kind.bodies : Morpheme.Kind → List Script
  | .tuple script => script :: script.bodies
  | .block script _ => script :: script.bodies
  | .expression script => script :: script.bodies
  | .string parts => Morpheme.allBodies parts
  | .literal .. | .hereString .. | .taggedString .. | .lineComment .. | .blockComment ..
  | .marker .. => []

end

mutual

/-- The scripts in a well-shaped script are well shaped. -/
theorem Script.isWellShaped_of_mem_bodies : ∀ tree : Script, tree.isWellShaped →
    ∀ body ∈ tree.bodies, body.isWellShaped
  | ⟨sentences, _⟩, h, body, hbody => by
    rw [Script.isWellShaped] at h
    rw [Script.bodies] at hbody
    exact Sentence.isWellShaped_of_mem_allBodies sentences h body hbody

theorem Sentence.isWellShaped_of_mem_allBodies : ∀ items : List Sentence,
    Sentence.areWellShaped items → ∀ body ∈ Sentence.allBodies items, body.isWellShaped
  | [], _, body, hbody => by
    rw [Sentence.allBodies] at hbody
    cases hbody
  | ⟨words, _⟩ :: rest, h, body, hbody => by
    rw [Sentence.areWellShaped, Bool.and_eq_true] at h
    rw [Sentence.allBodies] at hbody
    rcases List.mem_append.1 hbody with hbody | hbody
    · exact Word.isWellShaped_of_mem_allBodies words h.1 body hbody
    · exact Sentence.isWellShaped_of_mem_allBodies rest h.2 body hbody

theorem Word.isWellShaped_of_mem_allBodies : ∀ items : List Word, Word.areWellShaped items →
    ∀ body ∈ Word.allBodies items, body.isWellShaped
  | [], _, body, hbody => by
    rw [Word.allBodies] at hbody
    cases hbody
  | ⟨morphemes, _⟩ :: rest, h, body, hbody => by
    rw [Word.areWellShaped, Bool.and_eq_true, Bool.and_eq_true] at h
    rw [Word.allBodies] at hbody
    rcases List.mem_append.1 hbody with hbody | hbody
    · exact Morpheme.isWellShaped_of_mem_allBodies morphemes h.1.2 body hbody
    · exact Word.isWellShaped_of_mem_allBodies rest h.2 body hbody

theorem Morpheme.isWellShaped_of_mem_allBodies : ∀ items : List Morpheme,
    Morpheme.areWellShaped items → ∀ body ∈ Morpheme.allBodies items, body.isWellShaped
  | [], _, body, hbody => by
    rw [Morpheme.allBodies] at hbody
    cases hbody
  | ⟨kind, _⟩ :: rest, h, body, hbody => by
    rw [Morpheme.areWellShaped, Bool.and_eq_true] at h
    rw [Morpheme.allBodies] at hbody
    rcases List.mem_append.1 hbody with hbody | hbody
    · exact Morpheme.Kind.isWellShaped_of_mem_bodies kind h.1 body hbody
    · exact Morpheme.isWellShaped_of_mem_allBodies rest h.2 body hbody

theorem Morpheme.Kind.isWellShaped_of_mem_bodies : ∀ kind : Morpheme.Kind, kind.isWellShaped →
    ∀ body ∈ kind.bodies, body.isWellShaped
  | .tuple script, h, body, hbody | .block script _, h, body, hbody
  | .expression script, h, body, hbody => by
    rw [Morpheme.Kind.isWellShaped] at h
    rw [Morpheme.Kind.bodies] at hbody
    rcases List.mem_cons.1 hbody with rfl | hbody
    · exact h
    · exact Script.isWellShaped_of_mem_bodies script h body hbody
  | .string parts, h, body, hbody => by
    rw [Morpheme.Kind.isWellShaped, Bool.and_eq_true] at h
    rw [Morpheme.Kind.bodies] at hbody
    exact Morpheme.isWellShaped_of_mem_allBodies parts h.2 body hbody
  | .literal .., _, body, hbody | .hereString .., _, body, hbody
  | .taggedString .., _, body, hbody | .lineComment .., _, body, hbody
  | .blockComment .., _, body, hbody | .marker .., _, body, hbody => by
    simp [Morpheme.Kind.bodies] at hbody

end

/-! ## Compiling -/

namespace Compile

/-- Whether morphemes can follow at a place among stems. -/
def Stems.admits : Stems → List Morpheme → Bool
  | .next, morphemes => Morpheme.areStems false morphemes
  | .selectors _, morphemes => Morpheme.areStems true morphemes
  | .target .., replaced :: rest => replaced.kind.isSubstitutable && Morpheme.areStems true rest
  | .target .., [] => false

/-- A morpheme that no substitution takes, among stems. -/
theorem between_ok (selecting : Bool) {place : Stems} {morpheme : Morpheme} {rest : List Morpheme}
    (hselector : selecting → morpheme.kind.isSelector = false)
    (hstems : Morpheme.areStems selecting (morpheme :: rest))
    (hstem : (∃ text, morpheme.kind = .literal text) ∨ (∃ body, morpheme.kind = .expression body) →
      ∃ steps, stem morpheme = .ok steps)
    (hrest : ∀ place : Stems, place.admits rest → ∃ steps, stems place rest = .ok steps) :
    ∃ steps, (match morpheme.kind with
      | .marker expands levels _ => do
        let others ← stems (.target expands levels morpheme.position) rest
        return place.rest ++ others
      | _ => do
        let first ← stem morpheme
        let others ← stems .next rest
        return place.rest ++ first ++ others) = .ok steps := by
  obtain ⟨kind, position⟩ := morpheme
  unfold Morpheme.areStems at hstems
  cases kind with
  | marker expands levels text =>
    refine exists_bind_ok (hrest (.target expands levels position) ?_) fun _ => ⟨_, rfl⟩
    cases rest <;> exact hstems
  | literal text =>
    exact exists_bind_ok (hstem (.inl ⟨text, rfl⟩)) fun _ =>
      exists_bind_ok (hrest .next hstems) fun _ => ⟨_, rfl⟩
  | expression body =>
    have hnext : selecting = false := by
      cases selecting with
      | false => rfl
      | true => cases hselector rfl
    subst hnext
    exact exists_bind_ok (hstem (.inr ⟨body, rfl⟩)) fun _ =>
      exists_bind_ok (hrest .next hstems) fun _ => ⟨_, rfl⟩
  | tuple | block =>
    simp only [Bool.and_eq_true] at hstems
    cases hselector hstems.1
  | string | hereString | taggedString | lineComment | blockComment => cases hstems

mutual

theorem script_ok : ∀ tree : Script, tree.isWellShaped → ∃ steps, script tree = .ok steps
  | ⟨[], _⟩, _ => by
    rw [script]
    exact ⟨_, rfl⟩
  | ⟨first :: rest, _⟩, h => by
    rw [Script.isWellShaped, Sentence.areWellShaped_cons, Bool.and_eq_true] at h
    rw [script]
    exact exists_bind_ok (evaluated_ok first h.1) fun _ =>
      exists_bind_ok (remaining_ok rest _ h.2) fun _ => ⟨_, rfl⟩

theorem remaining_ok : ∀ (tree : List Sentence) (position : Option Position),
    Sentence.areWellShaped tree → ∃ steps, remaining position tree = .ok steps
  | [], _, _ => by
    rw [remaining]
    exact ⟨_, rfl⟩
  | first :: rest, _, h => by
    rw [Sentence.areWellShaped_cons, Bool.and_eq_true] at h
    rw [remaining]
    exact exists_bind_ok (evaluated_ok first h.1) fun _ =>
      exists_bind_ok (remaining_ok rest _ h.2) fun _ => ⟨_, rfl⟩

theorem evaluated_ok : ∀ tree : Sentence, Word.areWellShaped tree.words →
    ∃ steps, evaluated tree = .ok steps
  | ⟨items, _⟩, h => by
    rw [evaluated]
    exact exists_bind_ok (words_ok items h) fun _ => ⟨_, rfl⟩

theorem allWords_ok : ∀ tree : List Sentence, Sentence.areWellShaped tree →
    ∃ steps, allWords tree = .ok steps
  | [], _ => by
    rw [allWords]
    exact ⟨_, rfl⟩
  | ⟨items, _⟩ :: rest, h => by
    rw [Sentence.areWellShaped, Bool.and_eq_true] at h
    rw [allWords]
    exact exists_bind_ok (words_ok items h.1) fun _ =>
      exists_bind_ok (allWords_ok rest h.2) fun _ => ⟨_, rfl⟩

theorem rules_ok : ∀ tree : List Sentence, Sentence.areWellShaped tree →
    ∃ steps, rules tree = .ok steps
  | [], _ => by
    rw [rules]
    exact ⟨_, rfl⟩
  | ⟨items, _⟩ :: rest, h => by
    rw [Sentence.areWellShaped, Bool.and_eq_true] at h
    rw [rules]
    exact exists_bind_ok (words_ok items h.1) fun _ =>
      exists_bind_ok (rules_ok rest h.2) fun _ => ⟨_, rfl⟩

theorem words_ok : ∀ tree : List Word, Word.areWellShaped tree → ∃ steps, words tree = .ok steps
  | [], _ => by
    rw [words]
    exact ⟨_, rfl⟩
  | first :: rest, h => by
    rw [Word.areWellShaped_cons, Bool.and_eq_true, Bool.and_eq_true, decide_eq_true_iff] at h
    rw [words]
    exact exists_bind_ok (word_ok first h.1.1 h.1.2) fun _ =>
      exists_bind_ok (words_ok rest h.2) fun _ => ⟨_, rfl⟩

theorem word_ok : ∀ tree : Word, tree.shape ≠ .invalid → Morpheme.areWellShaped tree.morphemes →
    ∃ steps, word tree = .ok steps
  | ⟨morphemes, position⟩, hvalid, h => by
    unfold word
    cases hshape : Morpheme.shape morphemes with
    | root =>
      cases morphemes with
      | nil => cases hshape
      | cons morpheme rest =>
        obtain ⟨_, hsingle, hcomment, hmarker⟩ := Morpheme.eq_single_of_root hshape
        obtain ⟨rfl, -⟩ := List.cons.inj hsingle
        rw [Morpheme.areWellShaped_cons, Bool.and_eq_true] at h
        exact root_ok morpheme hcomment hmarker h.1
    | compound =>
      exact exists_bind_ok (stems_ok morphemes .next (Morpheme.areStems_of_compound hshape) h)
        fun _ => ⟨_, rfl⟩
    | substitution =>
      exact stems_ok morphemes .next (Morpheme.areStems_of_substitution hshape) h
    | qualified =>
      cases morphemes with
      | nil => cases hshape
      | cons source rest =>
        rw [Morpheme.areWellShaped_cons, Bool.and_eq_true] at h
        have hall := Morpheme.all_isSelector_of_qualified hshape
        exact exists_bind_ok (qualifiedSource_ok source (Morpheme.source_of_qualified hshape) h.1) fun _ =>
          exists_bind_ok (stems_ok rest (.selectors []) (Morpheme.areStems_of_all_isSelector hall) h.2)
            fun _ => ⟨_, rfl⟩
    | ignored => exact ⟨_, rfl⟩
    | invalid => exact absurd hshape hvalid

theorem root_ok : ∀ tree : Morpheme, tree.kind.isComment = false →
    (∀ expands levels text, tree.kind ≠ .marker expands levels text) → tree.kind.isWellShaped →
    ∃ steps, root tree = .ok steps
  | ⟨.literal _, _⟩, _, _, _ | ⟨.hereString _ _, _⟩, _, _, _ | ⟨.taggedString _ _, _⟩, _, _, _
  | ⟨.block _ _, _⟩, _, _, _ => by
    rw [root]
    exact ⟨_, rfl⟩
  | ⟨.tuple body, position⟩, _, _, h => by
    rw [Morpheme.Kind.isWellShaped] at h
    rw [root]
    exact tuple_ok body position h
  | ⟨.expression body, _⟩, _, _, h => by
    rw [Morpheme.Kind.isWellShaped] at h
    rw [root]
    exact script_ok body h
  | ⟨.string parts, _⟩, _, _, h => by
    rw [Morpheme.Kind.isWellShaped, Bool.and_eq_true] at h
    rw [root]
    exact exists_bind_ok (stems_ok parts .next h.1 h.2) fun _ => ⟨_, rfl⟩
  | ⟨.lineComment .., _⟩, h, _, _ | ⟨.blockComment .., _⟩, h, _, _ => by cases h
  | ⟨.marker .., _⟩, _, h, _ => absurd rfl (h _ _ _)

theorem tuple_ok : ∀ (tree : Script) (position : Option Position), tree.isWellShaped →
    ∃ steps, tuple position tree = .ok steps
  | ⟨items, _⟩, _, h => by
    rw [Script.isWellShaped] at h
    rw [tuple]
    exact exists_bind_ok (allWords_ok items h) fun _ => ⟨_, rfl⟩

theorem qualifiedSource_ok : ∀ tree : Morpheme,
    (tree.kind.isSubstitutable ∧ ∀ script, tree.kind ≠ .expression script) →
    tree.kind.isWellShaped → ∃ steps, qualifiedSource tree = .ok steps
  | ⟨.literal _, _⟩, _, _ | ⟨.block _ _, _⟩, _, _ => by
    rw [qualifiedSource]
    exact ⟨_, rfl⟩
  | ⟨.tuple body, position⟩, _, h => by
    rw [Morpheme.Kind.isWellShaped] at h
    rw [qualifiedSource]
    exact exists_bind_ok (tuple_ok body position h) fun _ => ⟨_, rfl⟩
  | ⟨.expression _, _⟩, h, _ => absurd rfl (h.2 _)
  | ⟨.string .., _⟩, h, _ | ⟨.hereString .., _⟩, h, _ | ⟨.taggedString .., _⟩, h, _
  | ⟨.lineComment .., _⟩, h, _ | ⟨.blockComment .., _⟩, h, _ | ⟨.marker .., _⟩, h, _ => by cases h.1

theorem target_ok : ∀ (tree : Morpheme) (marker : Option Position), tree.kind.isSubstitutable →
    tree.kind.isWellShaped → ∃ steps, target marker tree = .ok steps
  | ⟨.literal _, _⟩, _, _, _ | ⟨.block _ _, _⟩, _, _, _ => by
    rw [target]
    exact ⟨_, rfl⟩
  | ⟨.tuple body, position⟩, _, _, h => by
    rw [Morpheme.Kind.isWellShaped] at h
    rw [target]
    exact exists_bind_ok (tuple_ok body position h) fun _ => ⟨_, rfl⟩
  | ⟨.expression body, _⟩, _, _, h => by
    rw [Morpheme.Kind.isWellShaped] at h
    rw [target]
    exact script_ok body h
  | ⟨.string .., _⟩, _, h, _ | ⟨.hereString .., _⟩, _, h, _ | ⟨.taggedString .., _⟩, _, h, _
  | ⟨.lineComment .., _⟩, _, h, _ | ⟨.blockComment .., _⟩, _, h, _ | ⟨.marker .., _⟩, _, h, _ => by
    cases h

theorem selector_ok : ∀ tree : Morpheme, tree.kind.isSelector → tree.kind.isWellShaped →
    ∃ steps, selector tree = .ok steps
  | ⟨.tuple body, position⟩, _, h => by
    rw [Morpheme.Kind.isWellShaped] at h
    rw [selector]
    exact exists_bind_ok (tuple_ok body position h) fun _ => ⟨_, rfl⟩
  | ⟨.block ⟨items, _⟩ _, _⟩, _, h => by
    rw [Morpheme.Kind.isWellShaped, Script.isWellShaped] at h
    rw [selector]
    exact exists_bind_ok (rules_ok items h) fun _ => ⟨_, rfl⟩
  | ⟨.expression body, _⟩, _, h => by
    rw [Morpheme.Kind.isWellShaped] at h
    rw [selector]
    exact exists_bind_ok (script_ok body h) fun _ => ⟨_, rfl⟩
  | ⟨.literal .., _⟩, h, _ | ⟨.string .., _⟩, h, _ | ⟨.hereString .., _⟩, h, _
  | ⟨.taggedString .., _⟩, h, _ | ⟨.lineComment .., _⟩, h, _ | ⟨.blockComment .., _⟩, h, _
  | ⟨.marker .., _⟩, h, _ => by cases h

theorem stem_ok : ∀ tree : Morpheme,
    (∃ text, tree.kind = .literal text) ∨ (∃ body, tree.kind = .expression body) →
    tree.kind.isWellShaped → ∃ steps, stem tree = .ok steps
  | ⟨.literal _, _⟩, _, _ => by
    rw [stem]
    exact ⟨_, rfl⟩
  | ⟨.expression body, _⟩, _, h => by
    rw [Morpheme.Kind.isWellShaped] at h
    rw [stem]
    exact script_ok body h
  | ⟨.tuple .., _⟩, h, _ | ⟨.block .., _⟩, h, _ | ⟨.string .., _⟩, h, _ | ⟨.hereString .., _⟩, h, _
  | ⟨.taggedString .., _⟩, h, _ | ⟨.lineComment .., _⟩, h, _ | ⟨.blockComment .., _⟩, h, _
  | ⟨.marker .., _⟩, h, _ => by rcases h with ⟨_, h⟩ | ⟨_, h⟩ <;> cases h

theorem stems_ok : ∀ (tree : List Morpheme) (place : Stems), place.admits tree →
    Morpheme.areWellShaped tree → ∃ steps, stems place tree = .ok steps
  | [], .next, _, _ | [], .selectors _, _, _ => by
    rw [stems]
    · exact ⟨_, rfl⟩
    · rintro _ _ _ ⟨⟩
  | [], .target .., hplace, _ => by cases hplace
  | morpheme :: rest, .target expands levels position, hplace, h => by
    rw [Stems.admits, Bool.and_eq_true] at hplace
    rw [Morpheme.areWellShaped_cons, Bool.and_eq_true] at h
    rw [stems]
    exact exists_bind_ok (target_ok morpheme position hplace.1 h.1) fun _ =>
      exists_bind_ok (stems_ok rest (.selectors _) hplace.2 h.2) fun _ => ⟨_, rfl⟩
  | morpheme :: rest, .next, hplace, h => by
    rw [Morpheme.areWellShaped_cons, Bool.and_eq_true] at h
    rw [stems.eq_5 _ _ _ (by rintro _ _ _ ⟨⟩) (by rintro _ ⟨⟩)]
    exact between_ok false (by rintro ⟨⟩) hplace (fun hkind => stem_ok morpheme hkind h.1)
      fun place hplace => stems_ok rest place hplace h.2
  | morpheme :: rest, .selectors left, hplace, h => by
    rw [Morpheme.areWellShaped_cons, Bool.and_eq_true] at h
    by_cases hselector : morpheme.kind.isSelector
    · have hrest : Morpheme.areStems true rest := by
        obtain ⟨kind, position⟩ := morpheme
        rw [Stems.admits] at hplace
        unfold Morpheme.areStems at hplace
        cases kind <;> first | (cases hselector; done) | simpa using hplace
      rw [stems.eq_4 _ _ _ hselector]
      exact exists_bind_ok (selector_ok morpheme hselector h.1) fun _ =>
        exists_bind_ok (stems_ok rest (.selectors left) hrest h.2) fun _ => ⟨_, rfl⟩
    · rw [stems.eq_5 _ _ _ (by rintro _ _ _ ⟨⟩) (by rintro _ _ h; exact hselector h)]
      exact between_ok true (fun _ => Bool.eq_false_iff.2 hselector) hplace
        (fun hkind => stem_ok morpheme hkind h.1) fun place hplace => stems_ok rest place hplace h.2

end

end Compile

/-- A script compiles, and so do its sentences, together and each alone, and each of its words. -/
structure Script.Compiles (source : Option Source) (tree : Script) : Prop where
  script : ∃ program, Program.ofScript source tree = .ok program
  sentences : ∃ program, Program.ofSentences source tree.sentences = .ok program
  sentence : ∀ sentence ∈ tree.sentences, ∃ program, Program.ofSentence source sentence = .ok program
  word : ∀ sentence ∈ tree.sentences, ∀ word ∈ sentence.words,
    ∃ program, Program.ofWord source word = .ok program

theorem Script.compiles {tree : Script} (h : tree.isWellShaped) (source : Option Source) :
    tree.Compiles source := by
  have hsentences : Sentence.areWellShaped tree.sentences := by
    cases tree
    rwa [Script.isWellShaped] at h
  have hwords := Sentence.areWellShaped_iff.1 hsentences
  refine ⟨?_, ?_, fun sentence hsentence => ?_, fun sentence hsentence word hword => ?_⟩
  · exact exists_map_ok _ (Compile.script_ok tree h)
  · exact exists_map_ok _ (Compile.allWords_ok _ hsentences)
  · exact exists_map_ok _ (Compile.evaluated_ok sentence (hwords sentence hsentence))
  · obtain ⟨hshape, hmorphemes⟩ := Word.areWellShaped_iff.1 (hwords sentence hsentence) word hword
    exact exists_map_ok _ (Compile.word_ok word hshape hmorphemes)

end Parlance
