import Parlance.Proofs.Placed

/-!
# Tokens of a text put together

A scanner that starts in the middle of a text, where a token begins, finds the tokens that follow there.
It knows nothing of the text before, so its places have to be shifted: each is further along by the
characters and the lines before, and on its first line by the columns before as well.  A scanner that
stops there finds the tokens before, as it never had to look beyond the end of a token to find it.

    (front.shift p).advanceBy text = front.shift (p.advanceBy text)              (advanceBy_shift)
    placed (front.shift p) items = (placed p items).map (Token.shift front)         (placed_shift)
    lexemes (covered first ++ rest) = first ++ second →
      lexemes (covered first) = first and lexemes rest = second                  (lexemes_of_split)
-/

namespace Parlance

/-! ## Shifted places -/

/-- The place, in a whole text, of what has a place in the part that begins at `front`. -/
def Position.shift (front position : Position) : Position where
  index := front.index + position.index
  line := front.line + position.line
  column := if position.line = 0 then front.column + position.column else position.column

/-- A token of the part that begins at `front`, as a token of the whole text. -/
def Token.shift (front : Position) (token : Token) : Token :=
  { token with position := front.shift token.position }

namespace Position

@[simp] theorem shift_start (front : Position) : front.shift .start = front := rfl

theorem advance_shift (front position : Position) (c : Char) :
    (front.shift position).advance c = front.shift (position.advance c) := by
  unfold advance
  by_cases hnewline : c = '\n'
  · simp only [hnewline, if_true, shift, Nat.add_assoc, Nat.add_one_ne_zero, if_false]
  · simp only [hnewline, if_false, shift, Nat.add_assoc]
    split <;> rfl

theorem advanceBy_shift (front position : Position) (text : List Char) :
    (front.shift position).advanceBy text = front.shift (position.advanceBy text) := by
  induction text generalizing position with
  | nil => rfl
  | cons c text ih => rw [advanceBy_cons, advanceBy_cons, advance_shift, ih]

end Position

theorem placed_shift (front position : Position) (items : List Lexeme) :
    placed (front.shift position) items = (placed position items).map (Token.shift front) := by
  induction items generalizing position with
  | nil => rfl
  | cons item rest ih =>
    rw [placed, placed, List.map_cons, Position.advanceBy_shift, ih]
    rfl

/-! ## Two texts -/

/-- Where some of the lexemes of a text end, the text can be cut: these are the lexemes of what stands
before the cut, and the others those of what stands behind it. -/
theorem lexemes_of_split {first second : List Lexeme} {rest : List Char}
    (h : lexemes (covered first ++ rest) = first ++ second) :
    lexemes (covered first) = first ∧ lexemes rest = second := by
  have hcut : covered first = covered ((lexemes (covered first ++ rest)).take first.length) := by
    rw [h, List.take_left]
  constructor
  · -- Nothing at all can stand behind the cut as well.
    have hlocal := lexemes_local hcut (.inl rfl) (.inr (by simp))
    rwa [h, List.take_left, lexemes_nil, List.append_nil, List.append_nil] at hlocal
  · rw [lexemes_drop hcut, h, List.drop_left]

/-- Each of the lexemes of a text can be cut off before those that follow it. -/
theorem cut_of_split {text : List Char} {first second : List Lexeme} {lexeme : Lexeme}
    (h : lexemes text = first ++ lexeme :: second) : Lexeme.Cut lexeme (covered second) := by
  have hcovered := covered_lexemes text
  rw [h, covered_append] at hcovered
  rw [← hcovered] at h
  have hbehind := (lexemes_of_split h).2
  cases hrest : covered (lexeme :: second) with
  | nil =>
    rw [hrest, lexemes_nil] at hbehind
    cases hbehind
  | cons c rest =>
    rw [hrest, lexemes_cons] at hbehind
    obtain ⟨hfirst, hsecond⟩ := List.cons.inj hbehind
    rw [← hfirst, ← hsecond, covered_lexemes]
    exact Lexeme.cut_first c rest

/-- **Tokenizing is local.**  A text that ends with one of the tokens of a longer text has the tokens up
to this one, and what follows has the others, shifted past the text.  At any other place the tokens of
the longer text are not those of its parts. -/
theorem tokenize_append_iff (front back : String) :
    (∃ before after, tokenize (front ++ back) = before ++ after ∧
      String.join (before.map Token.sequence) = front) ↔
    tokenize (front ++ back) =
      tokenize front ++ (tokenize back).map (Token.shift (.behind front.toList)) := by
  constructor
  · rintro ⟨before, after, hsplit, hfront⟩
    rw [tokenize_eq_placed, String.toList_append] at hsplit
    obtain ⟨first, second, hlexemes, rfl, -⟩ := placed_eq_append hsplit
    have hcovered : covered first = front.toList := by
      rw [← toList_join_placed .start first, hfront]
    rw [← hcovered] at hlexemes
    obtain ⟨hfirst, hsecond⟩ := lexemes_of_split hlexemes
    calc tokenize (front ++ back)
        = placed .start (first ++ second) := by
          rw [tokenize_eq_placed, String.toList_append, ← hcovered, hlexemes]
      _ = placed .start first ++ placed (.behind front.toList) second := by
          rw [placed_append, hcovered, Position.advanceBy_start]
      _ = tokenize front ++ (tokenize back).map (Token.shift (.behind front.toList)) := by
          rw [tokenize_eq_placed, tokenize_eq_placed, ← hcovered, hfirst, hsecond, ← placed_shift,
            Position.shift_start]
  · intro h
    refine ⟨_, _, h, ?_⟩
    apply String.toList_injective
    rw [tokenize_eq_placed, toList_join_placed, covered_lexemes]

/-- A line that goes on, cut before its last word. -/
example : tokenize ("a \\\n " ++ "b\nc") =
    tokenize "a \\\n " ++ (tokenize "b\nc").map (Token.shift ⟨5, 1, 1⟩) := by
  cbv

end Parlance
