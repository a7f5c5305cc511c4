import Mathlib.Data.List.Chain
import Parlance.Proofs.Lexemes.Cut

/-!
# Tokens at their places

Tokenizing loses nothing and invents nothing: the sequences of the tokens are the text, piece by piece,
every token knows how many characters, lines and columns stand before it, and its literal is what its
sequence means.  Two tokens that would be one if they met never meet.

    Position.start.advanceBy text = .behind text                                   (advanceBy_start)
    placed p (first ++ second) = placed p first ++ placed (p.advanceBy (covered first)) second
                                                                                   (placed_append)
-/

namespace Parlance

/-! ## Positions -/

/-- The place behind a text: its characters, its newlines, and the characters behind the last newline. -/
def Position.behind (text : List Char) : Position :=
  ⟨text.length, text.count '\n', (text.reverse.takeWhile (· ≠ '\n')).length⟩

/-- Walking over a text from the start leads behind it. -/
theorem Position.advanceBy_start (text : List Char) :
    Position.start.advanceBy text = .behind text := by
  have hreverse : ∀ text : List Char, Position.start.advanceBy text.reverse = .behind text.reverse := by
    intro text
    induction text with
    | nil => rfl
    | cons c text ih =>
      rw [List.reverse_cons, advanceBy_append, ih]
      show (behind text.reverse).advance c = _
      by_cases hc : c = '\n'
      · subst hc
        simp [advance, behind]
      · simp [advance, behind, hc]
  have h := hreverse text.reverse
  rwa [List.reverse_reverse] at h

/-! ## Placed lexemes -/

section Placed

variable {position : Position} {items first second : List Lexeme}

theorem length_placed (position : Position) (items : List Lexeme) :
    (placed position items).length = items.length := by
  induction items generalizing position with
  | nil => rfl
  | cons item rest ih => simp [placed, ih]

theorem placed_append (position : Position) (first second : List Lexeme) :
    placed position (first ++ second) =
      placed position first ++ placed (position.advanceBy (covered first)) second := by
  induction first generalizing position with
  | nil => rfl
  | cons item rest ih =>
    simp only [List.cons_append, placed, ih, covered_cons, Position.advanceBy_append]

theorem kinds_placed (position : Position) (items : List Lexeme) :
    (placed position items).map Token.kind = items.map Lexeme.kind := by
  induction items generalizing position with
  | nil => rfl
  | cons item rest ih => simp [placed, ih, Lexeme.toToken]

theorem sequences_placed (position : Position) (items : List Lexeme) :
    (placed position items).map Token.sequence =
      items.map fun item => String.ofList item.sequence := by
  induction items generalizing position with
  | nil => rfl
  | cons item rest ih => simp [placed, ih, Lexeme.toToken]

theorem toList_join_placed (position : Position) (items : List Lexeme) :
    (String.join ((placed position items).map Token.sequence)).toList = covered items := by
  rw [sequences_placed, String.toList_join, List.flatMap_map]
  simp only [String.toList_ofList]
  rfl

/-- Tokens are cut where their lexemes are. -/
theorem placed_eq_append {before after : List Token} (h : placed position items = before ++ after) :
    ∃ first second, items = first ++ second ∧ before = placed position first ∧
      after = placed (position.advanceBy (covered first)) second := by
  have hitems := List.take_append_drop before.length items
  have hlength := congrArg List.length h
  rw [length_placed, List.length_append] at hlength
  have hsplit := placed_append position (items.take before.length) (items.drop before.length)
  rw [hitems, h] at hsplit
  obtain ⟨hbefore, hafter⟩ := List.append_inj hsplit (by
    rw [length_placed, List.length_take]
    omega)
  exact ⟨_, _, hitems.symm, hbefore, hafter⟩

/-- Every token is a lexeme at some place. -/
theorem exists_lexeme_of_mem {token : Token} (h : token ∈ placed position items) :
    ∃ item ∈ items, ∃ place, token = item.toToken place := by
  obtain ⟨before, after, hsplit⟩ := List.append_of_mem h
  obtain ⟨first, second, rfl, -, hafter⟩ := placed_eq_append hsplit
  cases second with
  | nil => cases hafter
  | cons item rest =>
    exact ⟨item, List.mem_append_right _ List.mem_cons_self, _, (List.cons.inj hafter).1⟩

/-- A token stands behind the text of the tokens before it. -/
theorem position_of_placed {before after : List Token} {token : Token}
    (h : placed .start items = before ++ token :: after) :
    token.position = .behind (String.join (before.map Token.sequence)).toList := by
  obtain ⟨first, second, -, rfl, hafter⟩ := placed_eq_append h
  rw [toList_join_placed]
  cases second with
  | nil => cases hafter
  | cons item rest =>
    obtain ⟨rfl, -⟩ := List.cons.inj hafter
    exact Position.advanceBy_start (covered first)

end Placed

/-! ## What a lexeme means -/

namespace Lexeme

/-- What the literal of a lexeme is: the character that an escape stands for, one blank where a line
is continued, and otherwise the sequence. -/
def Means (lexeme : Lexeme) : Prop :=
  match lexeme.kind with
  | .escape => ∃ c digits meant, lexeme.sequence = '\\' :: c :: digits ∧
      Escape.decode c digits = (meant, digits.length) ∧ lexeme.literal = [meant]
  | .continuation => lexeme.literal = [' ']
  | _ => lexeme.literal = lexeme.sequence

theorem means_of_cut {lexeme : Lexeme} {rest : List Char} (h : Cut lexeme rest) : lexeme.Means := by
  cases h with
  | @sign kind c hkind =>
    cases kind <;> first | (cases hkind; done) | rfl
  | @run kind p c more _ hkind =>
    cases kind <;> first | (cases hkind; done) | rfl
  | text => rfl
  | lastText => rfl
  | continuation => rfl
  | @escape c meant digits _ hc hdecode =>
    have halone := decode_local hdecode (.inl rfl)
    rw [List.append_nil] at halone
    exact ⟨c, digits, meant, rfl, halone, rfl⟩

end Lexeme

/-! ## Lexemes of a text -/

theorem exists_cut_of_mem {text : List Char} {lexeme : Lexeme} (h : lexeme ∈ lexemes text) :
    ∃ rest, Lexeme.Cut lexeme rest := by
  induction text using lexemes.induct with
  | case1 =>
    rw [lexemes_nil] at h
    cases h
  | case2 c rest ih =>
    rw [lexemes_cons] at h
    rcases List.mem_cons.1 h with rfl | hrest
    · exact ⟨_, Lexeme.cut_first c rest⟩
    · exact ih hrest

theorem isChain_kind_lexemes (text : List Char) :
    ((lexemes text).map Lexeme.kind).IsChain Token.Kind.Apart := by
  induction text using lexemes.induct with
  | case1 =>
    rw [lexemes_nil]
    exact .nil
  | case2 c rest ih =>
    rw [lexemes_cons]
    cases hafter : (Lexeme.first c rest).2 with
    | nil =>
      rw [lexemes_nil]
      exact .singleton _
    | cons d more =>
      rw [hafter] at ih
      have hcut := Lexeme.cut_first c rest
      rw [hafter] at hcut
      have hapart := Lexeme.apart_of_cut hcut (Lexeme.cut_first d more)
        (Lexeme.sequence_append_first d more).symm
      rw [lexemes_cons] at ih ⊢
      exact .cons_cons hapart ih

/-! ## Tokens -/

/-- What the literal of a token is: the character that an escape stands for, one blank where a line
is continued, and otherwise the sequence. -/
def Token.Means (token : Token) : Prop :=
  match token.kind with
  | .escape => ∃ c digits meant, token.sequence = String.ofList ('\\' :: c :: digits) ∧
      Escape.decode c digits = (meant, digits.length) ∧ token.literal = String.ofList [meant]
  | .continuation => token.literal = " "
  | _ => token.literal = token.sequence

theorem Lexeme.means_toToken {lexeme : Lexeme} (h : lexeme.Means) (position : Position) :
    (lexeme.toToken position).Means := by
  obtain ⟨kind, sequence, literal⟩ := lexeme
  cases kind with
  | escape =>
    obtain ⟨c, digits, meant, hsequence, hdecode, hliteral⟩ := h
    exact ⟨c, digits, meant, congrArg String.ofList hsequence, hdecode, congrArg String.ofList hliteral⟩
  | _ => exact congrArg String.ofList h

/-- **Tokenizing is exact.**  The sequences of the tokens of a text are the text.  No token is empty,
its position counts the characters, the lines and the column before it, and its literal is its
sequence, but for escapes and continued lines.  Tokens that would merge are never neighbours, and no
blanks follow a continued line. -/
theorem tokenize_exact (source : String) :
    String.join ((tokenize source).map Token.sequence) = source ∧
      (∀ token ∈ tokenize source, token.sequence ≠ "" ∧ token.Means) ∧
      (∀ before token after, tokenize source = before ++ token :: after →
        token.position = .behind (String.join (before.map Token.sequence)).toList) ∧
      ((tokenize source).map Token.kind).IsChain Token.Kind.Apart := by
  rw [tokenize_eq_placed]
  refine ⟨?_, ?_, ?_, ?_⟩
  · apply String.toList_injective
    rw [toList_join_placed, covered_lexemes]
  · intro token htoken
    obtain ⟨item, hitem, place, rfl⟩ := exists_lexeme_of_mem htoken
    obtain ⟨_, hcut⟩ := exists_cut_of_mem hitem
    refine ⟨?_, Lexeme.means_toToken (Lexeme.means_of_cut hcut) _⟩
    intro hempty
    exact Lexeme.sequence_ne_nil_of_cut hcut (String.ofList_injective hempty)
  · exact fun before token after hsplit => position_of_placed hsplit
  · rw [kinds_placed]
    exact isChain_kind_lexemes source.toList

/-- Text before an escape and a line that is continued. -/
example : tokenize "a\\x41 \\\n b" =
    [⟨.text, ⟨0, 0, 0⟩, "a", "a"⟩, ⟨.escape, ⟨1, 0, 1⟩, "\\x41", "A"⟩,
      ⟨.whitespace, ⟨5, 0, 5⟩, " ", " "⟩, ⟨.continuation, ⟨6, 0, 6⟩, "\\\n ", " "⟩,
      ⟨.text, ⟨9, 1, 1⟩, "b", "b"⟩] := by
  cbv

end Parlance
