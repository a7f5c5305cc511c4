import Parlance.Proofs.Placed
import Parlance.Proofs.Reading.Ordered

/-!
# Where frames were opened

Every frame but that of the whole script was opened by a token of its kind and remembers where that
token stands, also when it turns into a frame of another sort: two quotes into a tagged string, a line
comment into a block comment.  As frames open on top of one another, the innermost opened last.

    read r s = .ok s' → Opened tokens s → Opened (tokens ++ [r.token]) s'           (opened_of_read)
    Opened (tokenize source) (run (tokenize source) (start options)).stack          (opened_tokenize)
-/

namespace Parlance

namespace Frame

/-- The kind of token that opens an enclosure. -/
def Enclosure.openedBy : Enclosure → Option Token.Kind
  | .root => none
  | .tuple => some .openTuple
  | .block => some .openBlock
  | .expression => some .openExpression

/-- Where a frame was opened. -/
def openedAt : Frame → Position
  | .sentences frame => frame.openedAt
  | .quoted frame => frame.openedAt
  | .quotePair openedAt _ => openedAt
  | .here frame => frame.openedAt
  | .tagged frame => frame.openedAt
  | .lineComment frame => frame.openedAt
  | .blockComment frame => frame.openedAt

/-- The kind of the token that opened a frame.  Nothing opens the whole script. -/
def openedBy : Frame → Option Token.Kind
  | .sentences frame => frame.enclosure.openedBy
  | .quoted _ | .quotePair .. | .here _ | .tagged _ => some .stringDelimiter
  | .lineComment _ | .blockComment _ => some .comment

/-- Two frames that the same token opened. -/
structure OpenedAlike (new old : Frame) : Prop where
  place : new.openedAt = old.openedAt
  kind : new.openedBy = old.openedBy

/-- Open frames, each opened by one of the tokens and after the frames below it. -/
inductive Opened (tokens : List Token) : List Frame → Prop
  | script {frame : Frame} (hat : frame.openedAt = .start) (hkind : frame.openedBy = none) :
    Opened tokens [frame]
  | above {top : Frame} {below : List Frame} {token : Token} (htoken : token ∈ tokens)
    (hat : top.openedAt = token.position) (hkind : top.openedBy = some token.kind)
    (hbelow : ∀ frame ∈ below, frame.openedAt.index ≤ top.openedAt.index)
    (h : Opened tokens below) : Opened tokens (top :: below)

namespace Opened

variable {tokens : List Token} {stack below : List Frame} {top new frame : Frame}

theorem mono (h : Opened tokens stack) {more : List Token} (hmore : tokens ⊆ more) :
    Opened more stack := by
  induction h with
  | script hat hkind => exact .script hat hkind
  | above htoken hat hkind hbelow _ ih => exact .above (hmore htoken) hat hkind hbelow ih

theorem tail {outer : Frame} (h : Opened tokens (top :: outer :: below)) :
    Opened tokens (outer :: below) := by
  cases h
  assumption

theorem replace (h : Opened tokens (top :: below)) (hnew : OpenedAlike new top) :
    Opened tokens (new :: below) := by
  cases h with
  | script hat hkind => exact .script (hnew.place.trans hat) (hnew.kind.trans hkind)
  | above htoken hat hkind hbelow h =>
    exact .above htoken (hnew.place.trans hat) (hnew.kind.trans hkind)
      (fun frame hframe => by rw [hnew.place]; exact hbelow frame hframe) h

theorem exists_token (h : Opened tokens stack) (hframe : frame ∈ stack) :
    frame.openedAt = .start ∨ ∃ token ∈ tokens, token.position = frame.openedAt := by
  induction h with
  | script hat => exact .inl (by rw [List.mem_singleton.1 hframe, hat])
  | above htoken hat _ _ _ ih =>
    rcases List.mem_cons.1 hframe with rfl | hframe
    · exact .inr ⟨_, htoken, hat.symm⟩
    · exact ih hframe

theorem exists_opener (h : Opened tokens stack) (hframe : frame ∈ stack) {kind : Token.Kind}
    (hkind : frame.openedBy = some kind) :
    ∃ token ∈ tokens, token.position = frame.openedAt ∧ token.kind = kind := by
  induction h with
  | script _ hnone =>
    rw [List.mem_singleton.1 hframe, hnone] at hkind
    cases hkind
  | above htoken hat hby _ _ ih =>
    rcases List.mem_cons.1 hframe with rfl | hframe
    · exact ⟨_, htoken, hat.symm, Option.some.inj (hby.symm.trans hkind)⟩
    · exact ih hframe

/-- A token that stands behind the others opens a frame. -/
theorem push (h : Opened tokens stack) {token : Token}
    (hle : ∀ other ∈ tokens, other.position.index ≤ token.position.index)
    (hat : top.openedAt = token.position) (hkind : top.openedBy = some token.kind) :
    Opened (tokens ++ [token]) (top :: stack) := by
  refine .above (List.mem_append_right _ List.mem_cons_self) hat hkind (fun frame hframe => ?_)
    (h.mono (List.subset_append_left _ _))
  rcases h.exists_token hframe with hstart | ⟨other, hother, hposition⟩
  · rw [hstart]
    exact Nat.zero_le _
  · rw [← hposition, hat]
    exact hle other hother

/-- The frames below a frame were opened before it. -/
theorem below_le {above : List Frame} (h : Opened tokens (above ++ top :: below)) :
    ∀ frame ∈ below, frame.openedAt.index ≤ top.openedAt.index := by
  induction above with
  | nil =>
    cases h with
    | script => exact fun frame hframe => by cases hframe
    | above _ _ _ hbelow _ => exact hbelow
  | cons first above ih =>
    rw [List.cons_append] at h
    cases hrest : above ++ top :: below with
    | nil => simp at hrest
    | cons outer rest =>
      rw [hrest] at h ih
      exact ih h.tail

end Opened

end Frame

namespace Parser

open Parlance.Frame (Opened OpenedAlike)

section Frames

variable {reading : Reading} {tokens : List Token} {stack after below : List Frame}
  {frame new : Frame.Sentences}

theorem alike_editWord {position : Option Position} {edit : Draft → Draft}
    (h : frame.editWord position edit = .ok new) : OpenedAlike (.sentences new) (.sentences frame) := by
  unfold Frame.Sentences.editWord at h
  dsimp only at h
  split at h <;> cases h
  exact ⟨rfl, rfl⟩

theorem alike_closeWord (h : frame.closeWord = .ok new) :
    OpenedAlike (.sentences new) (.sentences frame) := by
  unfold Frame.Sentences.closeWord at h
  split at h
  · cases h
    exact ⟨rfl, rfl⟩
  · dsimp only at h
    split at h <;> cases h
    exact ⟨rfl, rfl⟩

theorem alike_closeSentence (h : frame.closeSentence = .ok new) :
    OpenedAlike (.sentences new) (.sentences frame) := by
  obtain ⟨closed, hclosed, rfl⟩ := map_eq_ok h
  have hword := alike_closeWord hclosed
  split
  · exact hword
  · exact ⟨hword.place, hword.kind⟩

theorem opened_addMorpheme {morpheme : Morpheme} (h : Frame.addMorpheme morpheme stack = .ok after)
    (hs : Opened tokens stack) : Opened tokens after := by
  unfold Frame.addMorpheme at h
  split at h
  · obtain ⟨new, hnew, rfl⟩ := map_eq_ok h
    exact hs.replace (alike_editWord hnew)
  · cases h
    exact hs.replace ⟨rfl, rfl⟩
  · cases h

theorem opened_of_settles (h : Settles reading stack after) (hs : Opened tokens stack) :
    Opened tokens after := by
  have hbelow : ∀ {top : Frame} {below : List Frame}, Opened tokens (top :: below) →
      below ≠ [] → Opened tokens below := by
    intro top below hs hne
    obtain ⟨outer, rest, rfl⟩ := List.exists_cons_of_ne_nil hne
    exact hs.tail
  cases h with
  | keep => exact hs
  | pair hadd => exact opened_addMorpheme hadd (hbelow hs (by rintro rfl; cases hadd))
  | comment _ hadd => exact opened_addMorpheme hadd (hbelow hs (by rintro rfl; cases hadd))

theorem openedBy_of_opens {kind : Token.Kind} {enclosure : Frame.Enclosure}
    (h : opens kind = some enclosure) : enclosure.openedBy = some kind := by
  cases kind <;> cases h <;> rfl

theorem opened_openQuotes (reading : Reading) :
    (openQuotes reading).openedAt = reading.token.position ∧
      (openQuotes reading).openedBy = some .stringDelimiter := by
  unfold openQuotes
  dsimp only
  split <;> exact ⟨rfl, rfl⟩

/-- A token opens a frame at its own place, or leaves the frames where they were opened. -/
theorem opened_of_takes (h : Takes reading stack after) (hs : Opened tokens stack)
    (hle : ∀ other ∈ tokens, other.position.index ≤ reading.token.position.index) :
    Opened (tokens ++ [reading.token]) after := by
  have hmore := hs.mono (List.subset_append_left tokens [reading.token])
  cases h with
  | closesWord _ h => exact hmore.replace (alike_closeWord h)
  | closesSentence _ h => exact hmore.replace (alike_closeSentence h)
  | editsWord _ _ h => exact hmore.replace (alike_editWord h)
  | editsString => exact hmore.replace ⟨rfl, rfl⟩
  | opensInWord hkind h =>
    exact (hs.replace (alike_editWord h)).push hle rfl (openedBy_of_opens hkind)
  | opensInString hkind => exact hs.push hle rfl (openedBy_of_opens hkind)
  | opensQuotes hkind =>
    obtain ⟨hat, hby⟩ := opened_openQuotes reading
    exact hs.push hle hat (by rw [hby, hkind])
  | opensComment hkind => exact hs.push hle rfl (by rw [hkind]; rfl)
  | opensTagged => exact hmore.replace ⟨rfl, rfl⟩
  | opensBlockComment => exact hmore.replace ⟨rfl, rfl⟩
  | goesOn h => cases h <;> exact hmore.replace ⟨rfl, rfl⟩
  | @closes top below _ _ _ h =>
    cases below with
    | nil => cases h
    | cons outer rest => exact opened_addMorpheme h hmore.tail

theorem opened_of_read (h : read reading stack = .ok after) (hs : Opened tokens stack)
    (hle : ∀ other ∈ tokens, other.position.index ≤ reading.token.position.index) :
    Opened (tokens ++ [reading.token]) after := by
  obtain ⟨settled, hsettles, htakes⟩ := takes_of_read h
  exact opened_of_takes htakes (opened_of_settles hsettles hs) hle

end Frames

/-! ## Whole texts -/

section Parsers

variable {parser : Parser} {before tokens : List Token}

theorem opened_push (hs : Opened before parser.stack) {token : Token}
    (hle : ∀ other ∈ before, other.position.index ≤ token.position.index) :
    Opened (before ++ [token]) (push token parser).2.stack := by
  have hmore := hs.mono (List.subset_append_left before [token])
  unfold push
  split
  · exact hmore
  · dsimp only
    split
    · rename_i stack hread
      exact opened_of_read hread hs hle
    · exact hmore

theorem opened_run (hs : Opened before parser.stack)
    (hsorted : (before ++ tokens).Pairwise fun first second =>
      first.position.index ≤ second.position.index) :
    Opened (before ++ tokens) (run tokens parser).stack := by
  induction tokens generalizing before parser with
  | nil =>
    rw [List.append_nil]
    exact hs
  | cons token rest ih =>
    have hsplit : before ++ token :: rest = before ++ [token] ++ rest := by simp
    have hle := (List.pairwise_append.1 hsorted).2.2
    rw [hsplit] at hsorted ⊢
    exact ih (opened_push hs fun other hother => hle other hother token List.mem_cons_self) hsorted

end Parsers

end Parser

/-- Tokens stand one behind the other. -/
theorem pairwise_placed (position : Position) (items : List Lexeme) :
    (placed position items).Pairwise (fun first second =>
        first.position.index ≤ second.position.index) ∧
      ∀ token ∈ placed position items, position.index ≤ token.position.index := by
  induction items generalizing position with
  | nil => exact ⟨.nil, fun token htoken => by cases htoken⟩
  | cons item rest ih =>
    obtain ⟨hsorted, hle⟩ := ih (position.advanceBy item.sequence)
    rw [Position.index_advanceBy] at hle
    have hrest : ∀ token ∈ placed (position.advanceBy item.sequence) rest,
        position.index ≤ token.position.index :=
      fun token htoken => Nat.le_trans (Nat.le_add_right _ _) (hle token htoken)
    refine ⟨.cons hrest hsorted, fun token htoken => ?_⟩
    rcases List.mem_cons.1 htoken with rfl | htoken
    · exact Nat.le_refl _
    · exact hrest token htoken

theorem pairwise_tokenize (source : String) : (tokenize source).Pairwise fun first second =>
    first.position.index ≤ second.position.index := by
  rw [tokenize_eq_placed]
  exact (pairwise_placed .start (lexemes source.toList)).1

/-- Every construct that a text leaves open was opened by one of its tokens. -/
theorem opened_tokenize (source : String) (options : Parser.Options) :
    Frame.Opened (tokenize source) (Parser.run (tokenize source) (.start options)).stack := by
  have hstart : Frame.Opened [] (Parser.start options).stack := .script rfl rfl
  exact Parser.opened_run hstart (pairwise_tokenize source)

end Parlance
