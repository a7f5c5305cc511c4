import Parlance.Proofs.Results
import Parlance.Script.Parser

/-!
# The blocks of a script

Every block of a tree, at any depth, as its script and its text.  Building a tree makes no block but
the one that a morpheme is, and loses none.
-/

namespace Parlance

/-- A block: its script and the text between its braces. -/
abbrev Block := Script × String

mutual

/-- The blocks of a script. -/
def Script.blocks : Script → List Block
  | ⟨sentences, _⟩ => Sentence.allBlocks sentences

def Sentence.allBlocks : List Sentence → List Block
  | [] => []
  | ⟨words, _⟩ :: rest => Word.allBlocks words ++ Sentence.allBlocks rest

def Word.allBlocks : List Word → List Block
  | [] => []
  | ⟨morphemes, _⟩ :: rest => Morpheme.allBlocks morphemes ++ Word.allBlocks rest

def Morpheme.allBlocks : List Morpheme → List Block
  | [] => []
  | ⟨kind, _⟩ :: rest => kind.blocks ++ Morpheme.allBlocks rest

/-- The blocks of a morpheme; a block is one of its own. -/
def Morpheme.Kind.blocks : Morpheme.Kind → List Block
  | .tuple script => script.blocks
  | .block script text => (script, text) :: script.blocks
  | .expression script => script.blocks
  | .string parts => Morpheme.allBlocks parts
  | .literal .. | .hereString .. | .taggedString .. | .lineComment .. | .blockComment ..
  | .marker .. => []

end

@[simp] theorem Sentence.allBlocks_cons (item : Sentence) (rest : List Sentence) :
    allBlocks (item :: rest) = Word.allBlocks item.words ++ allBlocks rest := by
  cases item
  rw [allBlocks]

@[simp] theorem Word.allBlocks_cons (item : Word) (rest : List Word) :
    allBlocks (item :: rest) = Morpheme.allBlocks item.morphemes ++ allBlocks rest := by
  cases item
  rw [allBlocks]

@[simp] theorem Morpheme.allBlocks_cons (item : Morpheme) (rest : List Morpheme) :
    allBlocks (item :: rest) = item.kind.blocks ++ allBlocks rest := by
  cases item
  rw [allBlocks]

theorem Sentence.mem_allBlocks {block : Block} {items : List Sentence} :
    block ∈ allBlocks items ↔ ∃ item ∈ items, block ∈ Word.allBlocks item.words := by
  induction items with
  | nil => simp [allBlocks]
  | cons item rest ih => simp [ih]

theorem Word.mem_allBlocks {block : Block} {items : List Word} :
    block ∈ allBlocks items ↔ ∃ item ∈ items, block ∈ Morpheme.allBlocks item.morphemes := by
  induction items with
  | nil => simp [allBlocks]
  | cons item rest ih => simp [ih]

theorem Morpheme.mem_allBlocks {block : Block} {items : List Morpheme} :
    block ∈ allBlocks items ↔ ∃ item ∈ items, block ∈ item.kind.blocks := by
  induction items with
  | nil => simp [allBlocks]
  | cons item rest ih => simp [ih]

/-! ## Drafts -/

namespace Draft

/-- The blocks of a draft. -/
def blocks (draft : Draft) : List Block := Morpheme.allBlocks draft.items

theorem blocks_addLiteral (text : String) (position : Option Position) (draft : Draft) :
    (draft.addLiteral text position).blocks = draft.blocks := by
  simp [addLiteral, blocks, Morpheme.Kind.blocks]

theorem blocks_pushLiteral (text : String) (position : Option Position) (extendsTarget : Bool)
    (draft : Draft) : (draft.pushLiteral text position extendsTarget).blocks = draft.blocks := by
  unfold pushLiteral
  split
  · rename_i value start before hitems
    split
    · simp [blocks, hitems, Morpheme.Kind.blocks]
    · exact blocks_addLiteral text position draft
  · exact blocks_addLiteral text position draft

theorem blocks_push (morpheme : Morpheme) (draft : Draft) :
    (draft.push morpheme).blocks = morpheme.kind.blocks ++ draft.blocks := by
  simp [push, blocks]

theorem blocks_addMarker (position : Option Position) (draft : Draft) :
    (draft.addMarker position).blocks = draft.blocks := by
  simp [addMarker, blocks, Morpheme.Kind.blocks]

theorem blocks_pushDollar (position : Option Position) (draft : Draft) :
    (draft.pushDollar position).blocks = draft.blocks := by
  unfold pushDollar
  split
  · rename_i expands levels text start before hitems
    split
    · simp [blocks, hitems, Morpheme.Kind.blocks]
    · exact blocks_addMarker position draft
  · exact blocks_addMarker position draft

theorem blocks_pushAsterisk (text : String) (position : Option Position) (draft : Draft) :
    (draft.pushAsterisk text position).blocks = draft.blocks := by
  unfold pushAsterisk
  split
  · rename_i levels marker start before hitems
    split
    · simp [blocks, hitems, Morpheme.Kind.blocks]
    · exact blocks_pushLiteral text position true draft
  · exact blocks_pushLiteral text position true draft

theorem blocks_settle (draft : Draft) : draft.settle.blocks = draft.blocks := by
  unfold settle
  split
  · split
    · rename_i expands levels text position before hitems
      rw [blocks_pushLiteral]
      simp [blocks, hitems, Morpheme.Kind.blocks]
    · rfl
  · rfl

theorem mem_blocks_toList {block : Block} {draft : Draft} :
    block ∈ Morpheme.allBlocks draft.toList ↔ block ∈ draft.blocks := by
  simp [toList, blocks, Morpheme.mem_allBlocks]

end Draft

/-! ## Frames -/

namespace Frame

/-- The blocks of a list of sentences under construction. -/
def Sentences.blocks (frame : Sentences) : List Block :=
  Sentence.allBlocks frame.sentences ++ Word.allBlocks frame.words ++
    (frame.word.elim [] fun word => word.morphemes.blocks)

/-- The blocks of a frame. -/
def blocks : Frame → List Block
  | .sentences frame => frame.blocks
  | .quoted frame => frame.morphemes.blocks
  | _ => []

/-- The blocks of an open word after an edit are those that the edit adds. -/
theorem Sentences.blocks_editWord {frame after : Sentences} {position : Option Position}
    {edit : Draft → Draft} {added : List Block}
    (hedit : ∀ draft, (edit draft).blocks ⊆ added ++ draft.blocks)
    (h : frame.editWord position edit = .ok after) : after.blocks ⊆ added ++ frame.blocks := by
  unfold editWord at h
  dsimp only at h
  split at h
  · cases h
  · cases h
    have hword := hedit (frame.word.getD ⟨.empty, position⟩).morphemes
    have hold : (frame.word.getD ⟨.empty, position⟩).morphemes.blocks ⊆
        (frame.word.elim [] fun word => word.morphemes.blocks) := by
      cases frame.word with
      | none => simp [Draft.empty, Draft.blocks, Morpheme.allBlocks]
      | some word => simp
    intro block hblock
    simp only [Sentences.blocks, Option.elim_some, List.mem_append] at hblock ⊢
    rcases hblock with hblock | hblock
    · exact .inr (.inl hblock)
    · rcases List.mem_append.1 (hword hblock) with hadded | hdraft
      · exact .inl hadded
      · exact .inr (.inr (hold hdraft))

theorem Sentences.blocks_editWord_of_eq {frame after : Sentences} {position : Option Position}
    {edit : Draft → Draft} (hedit : ∀ draft, (edit draft).blocks = draft.blocks)
    (h : frame.editWord position edit = .ok after) : after.blocks ⊆ frame.blocks := by
  show after.blocks ⊆ [] ++ frame.blocks
  refine blocks_editWord (fun draft => ?_) h
  rw [hedit, List.nil_append]
  exact List.Subset.refl _

theorem Sentences.blocks_pushMorpheme {frame after : Sentences} {morpheme : Morpheme}
    (h : frame.pushMorpheme morpheme = .ok after) :
    after.blocks ⊆ morpheme.kind.blocks ++ frame.blocks :=
  blocks_editWord (fun draft => by rw [Draft.blocks_push]; exact List.Subset.refl _) h

theorem Sentences.blocks_closeWord {frame after : Sentences} (h : frame.closeWord = .ok after) :
    after.blocks ⊆ frame.blocks := by
  unfold closeWord at h
  split at h
  · cases h
    exact List.Subset.refl _
  · rename_i morphemes position hword
    dsimp only at h
    split at h
    · cases h
    · cases h
      intro block hblock
      simp only [Sentences.blocks, Word.allBlocks_cons, Option.elim_none, List.append_nil,
        List.mem_append, Draft.mem_blocks_toList, Draft.blocks_settle] at hblock
      simp only [Sentences.blocks, hword, Option.elim_some, List.mem_append]
      rcases hblock with hblock | hblock | hblock
      · exact .inl (.inl hblock)
      · exact .inr hblock
      · exact .inl (.inr hblock)

theorem Sentences.blocks_closeSentence {frame after : Sentences}
    (h : frame.closeSentence = .ok after) : after.blocks ⊆ frame.blocks := by
  unfold closeSentence at h
  obtain ⟨closed, hclose, h⟩ := map_eq_ok h
  have hclosed := blocks_closeWord hclose
  split at h
  · subst h
    exact hclosed
  · subst h
    intro block hblock
    apply hclosed
    simp only [Sentences.blocks, Sentence.allBlocks_cons, Word.allBlocks, List.mem_append,
      Word.mem_allBlocks, List.mem_reverse, List.append_nil] at hblock ⊢
    rcases hblock with (hblock | hblock) | hblock
    · exact .inl (.inr hblock)
    · exact .inl (.inl hblock)
    · exact .inr hblock

/-- A finished script has the blocks of its frame. -/
theorem Sentences.blocks_finish {frame : Sentences} {script : Script} (h : frame.finish = .ok script) :
    script.blocks ⊆ frame.blocks := by
  unfold finish at h
  obtain ⟨closed, hclose, rfl⟩ := map_eq_ok h
  intro block hblock
  apply blocks_closeSentence hclose
  simp only [Script.blocks, Sentence.mem_allBlocks, List.mem_reverse] at hblock
  simp only [Sentences.blocks, List.mem_append, Sentence.mem_allBlocks]
  exact .inl (.inl hblock)

end Frame

end Parlance
