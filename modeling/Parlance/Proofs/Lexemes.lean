import Parlance.Token.Scanner

/-!
# Lexemes of parts of a text

A lexeme depends on what follows it by one character at most, and on nothing that stands before it.
So a text can be cut wherever a lexeme ends: its lexemes are those of the parts.  Only a backslash
at the end of the input is special, as it escapes nothing.

    l.sequence = c :: more → first c (more ++ x) = (l, x) → first c (more ++ y) = (l, y)
      when y is empty or starts like x                                             (first_local)
    p ends where n lexemes of p ++ x end →
      lexemes (p ++ y) = (lexemes (p ++ x)).take n ++ lexemes y                    (lexemes_local)
    every piece ends where a lexeme ends → pieces.flatMap lexemes = lexemes pieces.flatten
                                                                                  (lexemes_pieces)
    tokenize source = placed .start (lexemes source.toList)                   (tokenize_eq_placed)
-/

namespace Parlance

/-! ## Lexemes of a text -/

/-- The lexemes of a text. -/
def lexemes : List Char → List Lexeme
  | [] => []
  | c :: rest => (Lexeme.first c rest).1 :: lexemes (Lexeme.first c rest).2
termination_by text => text.length
decreasing_by
  have := Lexeme.length_first_le c rest
  exact Nat.lt_succ_of_le this

/-- The text that lexemes cover. -/
def covered (items : List Lexeme) : List Char := items.flatMap Lexeme.sequence

@[simp] theorem covered_nil : covered [] = [] := rfl

@[simp] theorem covered_cons (item : Lexeme) (items : List Lexeme) :
    covered (item :: items) = item.sequence ++ covered items := rfl

theorem lexemes_nil : lexemes [] = [] := by rw [lexemes]

theorem lexemes_cons (c : Char) (rest : List Char) :
    lexemes (c :: rest) = (Lexeme.first c rest).1 :: lexemes (Lexeme.first c rest).2 := by
  rw [lexemes]

/-- Nothing of a text is lost. -/
theorem covered_lexemes (text : List Char) : covered (lexemes text) = text := by
  induction text using lexemes.induct with
  | case1 => rw [lexemes_nil, covered_nil]
  | case2 c rest ih => rw [lexemes_cons, covered_cons, ih, Lexeme.sequence_append_first]

/-- The tokens of lexemes that stand one after the other, the first of them at a position. -/
def placed : Position → List Lexeme → List Token
  | _, [] => []
  | position, item :: rest =>
    item.toToken position :: placed (position.advanceBy item.sequence) rest

/-- Tokens are lexemes at places. -/
theorem Scanner.tokens_eq_placed (scanner : Scanner) :
    scanner.tokens = placed scanner.cursor.position (lexemes scanner.cursor.rest) := by
  generalize hn : scanner.cursor.rest.length = n
  induction n using Nat.strongRecOn generalizing scanner with
  | _ n ih =>
    cases hrest : scanner.cursor.rest with
    | nil =>
      have hnext : scanner.next = none := by
        rw [next, hrest]
      rw [tokens_of_next_eq_none hnext, lexemes_nil]
      rfl
    | cons c rest =>
      have hnext : scanner.next = some ((Lexeme.first c rest).1.toToken scanner.cursor.position,
          ⟨scanner.cursor.skip (Lexeme.first c rest).1.sequence.length⟩) := by
        rw [next, hrest]
      have hlt := length_rest_next_lt hnext
      rw [hn] at hlt
      have hposition : (scanner.cursor.skip (Lexeme.first c rest).1.sequence.length).position =
          scanner.cursor.position.advanceBy (Lexeme.first c rest).1.sequence := by
        rw [Cursor.position_skip, hrest]
        congr 1
        conv => lhs; rw [← Lexeme.sequence_append_first c rest]
        exact List.take_left
      rw [tokens_of_next_eq_some hnext, ih _ hlt _ rfl, rest_next hrest hnext, hposition,
        lexemes_cons, placed]

theorem tokenize_eq_placed (source : String) :
    tokenize source = placed .start (lexemes source.toList) :=
  Scanner.tokens_eq_placed (.start source)

/-- A token without its place. -/
def Token.unplaced (token : Token) : Token := { token with position := .start }

theorem unplaced_placed (position : Position) (items : List Lexeme) :
    (placed position items).map Token.unplaced = items.map fun lexeme => lexeme.toToken .start := by
  induction items generalizing position with
  | nil => rfl
  | cons item rest ih =>
    rw [placed, List.map_cons, List.map_cons, ih]
    rfl

theorem unplaced_tokenize (source : String) :
    (tokenize source).map Token.unplaced =
      (lexemes source.toList).map fun lexeme => lexeme.toToken .start := by
  rw [tokenize_eq_placed, unplaced_placed]

/-! ## Locality -/

/-- A text that can stand in the place of `old` behind a lexeme: it is empty or starts the same way. -/
def StartsLike (new old : List Char) : Prop := new = [] ∨ new.head? = old.head?

theorem ends_dropWhile {p : Char → Bool} {text after : List Char} (h : text.dropWhile p = after) :
    ∀ c, after.head? = some c → p c = false := by
  intro c hc
  have hnot := List.head?_dropWhile_not p text
  rw [h, hc] at hnot
  simpa using hnot

/-- A run that ends before `old` ends before `new` as well. -/
theorem run_local {p : Char → Bool} {inside old new : List Char}
    (h : (inside ++ old).takeWhile p = inside) (hnew : StartsLike new old) :
    (inside ++ new).takeWhile p = inside ∧ (inside ++ new).dropWhile p = new := by
  have hinside : ∀ c ∈ inside, p c = true := by
    intro c hc
    rw [← h] at hc
    exact List.all_eq_true.1 List.all_takeWhile c hc
  have hold : (inside ++ old).dropWhile p = old := by
    have happend := List.takeWhile_append_dropWhile (p := p) (l := inside ++ old)
    rw [h] at happend
    exact List.append_cancel_left happend
  have hstop : ∀ c, new.head? = some c → p c = false := by
    intro c hc
    rcases hnew with rfl | hhead
    · cases hc
    · exact ends_dropWhile hold c (hhead ▸ hc)
  rw [List.takeWhile_append_of_pos hinside, List.dropWhile_append_of_pos hinside]
  cases new with
  | nil => simp
  | cons c new => simp [hstop c rfl]

/-- Digits that end before `old` end before `new` as well. -/
theorem digits_local {radix : UInt32} {limit : Nat} {inside old new : List Char}
    (h : (Escape.digits radix limit (inside ++ old)).length = inside.length)
    (hnew : StartsLike new old) :
    Escape.digits radix limit (inside ++ new) = Escape.digits radix limit (inside ++ old) := by
  induction inside generalizing limit with
  | nil =>
    cases limit with
    | zero => rfl
    | succ limit =>
      rcases hnew with rfl | hhead
      · rw [List.length_eq_zero_iff.1 h, List.nil_append, Escape.digits]
      · cases new with
        | nil =>
          cases old with
          | nil => rfl
          | cons c old => cases hhead
        | cons c new =>
          cases old with
          | nil => cases hhead
          | cons c' old =>
            cases hhead
            simp only [List.nil_append, Escape.digits] at h ⊢
            cases hdigit : Escape.digit? radix c with
            | none => rfl
            | some value =>
              rw [hdigit] at h
              cases h
  | cons c inside ih =>
    cases limit with
    | zero => cases h
    | succ limit =>
      simp only [List.cons_append, Escape.digits] at h ⊢
      cases hdigit : Escape.digit? radix c with
      | none => rfl
      | some value =>
        rw [hdigit] at h
        have hrest := ih (Nat.succ.inj h)
        simp only [hrest]

theorem hexadecimal_local {c meant : Char} {limit : Nat} {inside old new : List Char}
    (h : Escape.hexadecimal c limit (inside ++ old) = (meant, inside.length))
    (hnew : StartsLike new old) :
    Escape.hexadecimal c limit (inside ++ new) = (meant, inside.length) := by
  rw [← h, Escape.hexadecimal, Escape.hexadecimal, digits_local _ hnew]
  unfold Escape.hexadecimal at h
  generalize Escape.digits 16 limit (inside ++ old) = run at h ⊢
  cases run with
  | nil => exact congrArg Prod.snd h
  | cons value run => exact congrArg Prod.snd h

/-- An escape that ends before `old` ends before `new` as well. -/
theorem decode_local {c meant : Char} {inside old new : List Char}
    (h : Escape.decode c (inside ++ old) = (meant, inside.length)) (hnew : StartsLike new old) :
    Escape.decode c (inside ++ new) = (meant, inside.length) := by
  revert h
  unfold Escape.decode
  split <;> intro h
  case h_8 => exact hexadecimal_local h hnew
  case h_9 => exact hexadecimal_local h hnew
  case h_10 => exact hexadecimal_local h hnew
  case h_11 =>
    cases hdigit : Escape.digit? 8 c with
    | none =>
      rw [hdigit] at h
      exact h
    | some value =>
      rw [hdigit] at h
      have hcount := congrArg Prod.snd h
      simp only [digits_local hcount hnew]
      exact h
  all_goals exact h

namespace Lexeme

variable {more old new : List Char} {lexeme : Lexeme}

theorem run_eq_local {kind : Token.Kind} {p : Char → Bool} {c : Char}
    (h : run kind p c (more ++ old) = (lexeme, old)) (hnew : StartsLike new old) :
    run kind p c (more ++ new) = (lexeme, new) := by
  have hcover := sequence_append_run kind p c (more ++ old)
  rw [h] at hcover
  simp only [run, Prod.mk.injEq] at h ⊢
  obtain ⟨hlexeme, -⟩ := h
  have hinside : (more ++ old).takeWhile p = more := by
    rw [← hlexeme] at hcover
    exact List.append_cancel_right (List.cons.inj hcover).2
  obtain ⟨htake, hdrop⟩ := run_local hinside hnew
  rw [htake, hdrop, ← hlexeme, hinside]
  exact ⟨rfl, rfl⟩

theorem textRun_local {c : Char} (h : textRun c (more ++ old) = (lexeme, old))
    (hnew : StartsLike new old) (hback : new = old ∨ new ≠ ['\\']) :
    textRun c (more ++ new) = (lexeme, new) := by
  by_cases hold : new = old
  · rw [hold]
    exact h
  · have hback := hback.resolve_left hold
    have hcover := sequence_append_textRun c (more ++ old)
    rw [h] at hcover
    unfold textRun at h
    split at h
    · -- The run goes to the end, so there is nothing to replace.
      obtain ⟨hlexeme, rfl⟩ := Prod.mk.inj h
      rcases hnew with hnil | hhead
      · exact absurd hnil hold
      · exact absurd (List.head?_eq_none_iff.1 hhead) hold
    · obtain ⟨hlexeme, hdrop⟩ := Prod.mk.inj h
      have hinside : (more ++ old).takeWhile isOrdinary = more := by
        rw [← hlexeme] at hcover
        exact List.append_cancel_right (List.cons.inj hcover).2
      obtain ⟨htake, hdrop'⟩ := run_local hinside hnew
      unfold textRun
      rw [htake, hdrop']
      split
      · exact absurd rfl hback
      · rw [← hlexeme, hinside]

theorem afterBackslash_local (h : afterBackslash (more ++ old) = (lexeme, old))
    (hnew : StartsLike new old) (hmore : new = old ∨ more ≠ []) :
    afterBackslash (more ++ new) = (lexeme, new) := by
  by_cases hold : new = old
  · rw [hold]
    exact h
  cases more with
  | nil => exact absurd rfl (hmore.resolve_left hold)
  | cons c more =>
    have hcover := sequence_append_afterBackslash (c :: more ++ old)
    rw [h] at hcover
    by_cases hc : c = '\n'
    · subst hc
      have hlexeme := (Prod.mk.inj h).1
      rw [← hlexeme] at hcover
      have hinside : (more ++ old).takeWhile isBlank = more :=
        List.append_cancel_right (List.cons.inj (List.cons.inj hcover).2).2
      obtain ⟨htake, hdrop⟩ := run_local hinside hnew
      rw [← hlexeme, show more.append old = more ++ old from rfl, hinside]
      simp only [List.cons_append, afterBackslash, htake, hdrop]
    · rw [List.cons_append, afterBackslash.eq_3 _ _ hc] at h ⊢
      rcases hdecode : Escape.decode c (more ++ old) with ⟨meant, count⟩
      rw [hdecode] at h
      obtain ⟨hlexeme, hdrop⟩ := Prod.mk.inj h
      rw [← hlexeme] at hcover
      have hinside : (more ++ old).take count = more :=
        List.append_cancel_right (List.cons.inj (List.cons.inj hcover).2).2
      have hcount : count = more.length := by
        have hlength := congrArg List.length hinside
        have hpos : 0 < old.length := by
          rw [List.length_pos_iff]
          rintro rfl
          exact hold (hnew.elim id fun hhead => List.head?_eq_none_iff.1 hhead)
        rw [List.length_take, List.length_append] at hlength
        omega
      subst hcount
      simp only [decode_local hdecode hnew, List.take_left', List.drop_left', ← hlexeme, hinside]

/-- A lexeme that ends before `old` ends before `new` as well. -/
theorem first_local {c : Char} (h : first c (more ++ old) = (lexeme, old))
    (hnew : StartsLike new old) (hback : new = old ∨ new ≠ ['\\'])
    (hmore : c = '\\' → new = old ∨ more ≠ []) : first c (more ++ new) = (lexeme, new) := by
  have hsingle : ∀ kind, (verbatim kind [c], more ++ old) = (lexeme, old) →
      (verbatim kind [c], more ++ new) = (lexeme, new) := by
    intro kind hkind
    obtain ⟨hlexeme, hrest⟩ := Prod.mk.inj hkind
    have hnil : more = [] := List.append_left_eq_self.1 hrest
    rw [hnil, ← hlexeme]
    rfl
  revert h
  unfold first
  split <;> intro h
  case h_2 => exact afterBackslash_local h hnew (hmore rfl)
  case h_3 => exact run_eq_local h hnew
  case h_4 => exact run_eq_local h hnew
  case h_14 =>
    by_cases hblank : isBlank c
    · simp only [hblank, if_true] at h ⊢
      exact run_eq_local h hnew
    · simp only [hblank] at h ⊢
      exact textRun_local h hnew hback
  all_goals exact hsingle _ h

end Lexeme

theorem length_sequence_pos (c : Char) (rest : List Char) :
    0 < (Lexeme.first c rest).1.sequence.length := by
  have hcover := congrArg List.length (Lexeme.sequence_append_first c rest)
  have hlt := Lexeme.length_first_le c rest
  rw [List.length_append, List.length_cons] at hcover
  omega

/-- Only a backslash that ends the input is a lexeme of its own. -/
theorem ne_backslash_of_first {rest : List Char} (h : rest ≠ []) :
    (Lexeme.first '\\' rest).1.sequence ≠ ['\\'] := by
  show (Lexeme.afterBackslash rest).1.sequence ≠ ['\\']
  unfold Lexeme.afterBackslash
  split
  · exact absurd rfl h
  · simp
  · simp

/-- The first of the lexemes that a text ends with. -/
theorem cut_succ {n : Nat} {text old : List Char}
    (h : text = covered ((lexemes (text ++ old)).take (n + 1))) (hne : text ++ old ≠ []) :
    ∃ c more inside lexeme, text = c :: more ++ inside ∧
      Lexeme.first c (more ++ (inside ++ old)) = (lexeme, inside ++ old) ∧
      lexeme.sequence = c :: more ∧
      lexemes (text ++ old) = lexeme :: lexemes (inside ++ old) ∧
      inside = covered ((lexemes (inside ++ old)).take n) := by
  obtain ⟨c, rest, hrest⟩ := List.exists_cons_of_ne_nil hne
  rcases hfirst : Lexeme.first c rest with ⟨lexeme, after⟩
  have hlexemes : lexemes (text ++ old) = lexeme :: lexemes after := by
    rw [hrest, lexemes_cons, hfirst]
  have hcover : lexeme.sequence ++ after = c :: rest := by
    rw [← Lexeme.sequence_append_first c rest, hfirst]
  have hpos := length_sequence_pos c rest
  rw [hfirst] at hpos
  rw [hlexemes, List.take_succ_cons, covered_cons] at h
  obtain ⟨d, more, hsequence⟩ := List.exists_cons_of_ne_nil (List.length_pos_iff.1 hpos)
  rw [hsequence, List.cons_append] at hcover
  obtain ⟨rfl, rfl⟩ := List.cons.inj hcover
  generalize hinside : covered ((lexemes after).take n) = inside at h
  have hafter : after = inside ++ old := by
    rw [h, hsequence, List.cons_append, List.cons_append, List.append_assoc] at hrest
    exact (List.append_cancel_left (List.cons.inj hrest).2).symm
  subst hafter
  exact ⟨d, more, inside, lexeme, by rw [h, hsequence], hfirst, hsequence, hlexemes, hinside.symm⟩

/-- What follows a text that ends where `n` lexemes end has the lexemes that are left. -/
theorem lexemes_drop {n : Nat} {text old : List Char}
    (h : text = covered ((lexemes (text ++ old)).take n)) :
    lexemes old = (lexemes (text ++ old)).drop n := by
  induction n generalizing text with
  | zero =>
    rw [List.take_zero, covered_nil] at h
    rw [h]
    rfl
  | succ n ih =>
    by_cases hne : text ++ old = []
    · obtain ⟨rfl, rfl⟩ := List.append_eq_nil_iff.1 hne
      rw [List.append_nil, lexemes_nil]
      rfl
    · obtain ⟨c, more, inside, lexeme, -, -, -, hlexemes, hinside⟩ := cut_succ h hne
      rw [hlexemes, List.drop_succ_cons]
      exact ih hinside

/-- A text that ends where `n` lexemes end has these lexemes before anything that starts alike. -/
theorem lexemes_local {n : Nat} {text old new : List Char}
    (h : text = covered ((lexemes (text ++ old)).take n)) (hnew : StartsLike new old)
    (hback : new = old ∨ new ≠ ['\\']) :
    lexemes (text ++ new) = (lexemes (text ++ old)).take n ++ lexemes new := by
  by_cases hold : new = old
  · rw [hold, lexemes_drop h, List.take_append_drop]
  have hne : old ≠ [] := by
    rintro rfl
    exact hold (hnew.elim id fun hhead => List.head?_eq_none_iff.1 hhead)
  induction n generalizing text with
  | zero =>
    rw [List.take_zero, covered_nil] at h
    rw [h, List.take_zero]
    rfl
  | succ n ih =>
    obtain ⟨c, more, inside, lexeme, htext, hfirst, hsequence, hlexemes, hinside⟩ :=
      cut_succ h fun hnil => hne (List.append_eq_nil_iff.1 hnil).2
    have hstarts : StartsLike (inside ++ new) (inside ++ old) := by
      cases inside with
      | nil => exact hnew
      | cons d inside => exact .inr rfl
    have hback : inside ++ new ≠ ['\\'] := by
      intro hsingle
      cases inside with
      | nil => exact hback.resolve_left hold hsingle
      | cons d inside =>
        -- A lexeme that is a backslash alone would stand before `old`.
        obtain ⟨rfl, hnil⟩ := List.cons.inj hsingle
        obtain ⟨rfl, rfl⟩ := List.append_eq_nil_iff.1 hnil
        cases n with
        | zero => cases hinside
        | succ n =>
          obtain ⟨c', more', inside', lexeme', htext', hfirst', hsequence', -, -⟩ :=
            cut_succ hinside fun hnil => hne (List.append_eq_nil_iff.1 hnil).2
          obtain ⟨rfl, hnil'⟩ := List.cons.inj htext'
          obtain ⟨rfl, rfl⟩ := List.append_eq_nil_iff.1 hnil'.symm
          have halone := ne_backslash_of_first hne
          rw [List.nil_append, List.nil_append] at hfirst'
          rw [hfirst'] at halone
          exact halone hsequence'
    have hmore : c = '\\' → inside ++ new = inside ++ old ∨ more ≠ [] := by
      rintro rfl
      refine .inr ?_
      rintro rfl
      have halone : (Lexeme.first '\\' (inside ++ old)).1.sequence ≠ ['\\'] :=
        ne_backslash_of_first fun hnil => hne (List.append_eq_nil_iff.1 hnil).2
      rw [List.nil_append] at hfirst
      rw [hfirst] at halone
      exact halone hsequence
    have hfirst' := Lexeme.first_local hfirst hstarts (.inr hback) hmore
    rw [hlexemes, List.take_succ_cons, List.cons_append, ← ih hinside, htext, List.append_assoc,
      List.cons_append, lexemes_cons, hfirst']

/-! ## Pieces -/

theorem covered_append (first second : List Lexeme) :
    covered (first ++ second) = covered first ++ covered second :=
  List.flatMap_append

/-- What lies between two ends of lexemes is covered by the lexemes between them. -/
theorem covered_between {n m : Nat} {text more : List Char} {items : List Lexeme}
    (hn : text = covered (items.take n)) (hm : text ++ more = covered (items.take m)) :
    ∃ k, more = covered ((items.drop n).take k) := by
  by_cases h : n ≤ m
  · refine ⟨m - n, ?_⟩
    have hsplit : items.take m = items.take n ++ (items.drop n).take (m - n) := by
      rw [← List.take_add, Nat.add_sub_cancel' h]
    rw [hsplit, covered_append, ← hn] at hm
    exact List.append_cancel_left hm
  · refine ⟨0, ?_⟩
    have hsplit : items.take n = items.take m ++ (items.drop m).take (n - m) := by
      rw [← List.take_add, Nat.add_sub_cancel' (Nat.le_of_not_le h)]
    rw [hsplit, covered_append, ← hm, List.append_assoc] at hn
    have hnil := List.append_right_eq_self.1 hn.symm
    exact (List.append_eq_nil_iff.1 hnil).1

/-- The lexemes of a text are those of its pieces when every piece ends where a lexeme ends. -/
theorem lexemes_pieces {pieces : List (List Char)}
    (h : ∀ k, ∃ n, (pieces.take k).flatten = covered ((lexemes pieces.flatten).take n)) :
    pieces.flatMap lexemes = lexemes pieces.flatten := by
  induction pieces with
  | nil => exact lexemes_nil.symm
  | cons piece rest ih =>
    obtain ⟨n, hn⟩ := h 1
    rw [List.take_succ_cons, List.take_zero, List.flatten_cons, List.flatten_cons, List.flatten_nil,
      List.append_nil] at hn
    have hpiece := lexemes_local hn (.inl rfl) (.inr (List.cons_ne_nil _ _).symm)
    rw [List.append_nil, lexemes_nil, List.append_nil] at hpiece
    have hdrop := lexemes_drop hn
    have hrest : rest.flatMap lexemes = lexemes rest.flatten := by
      refine ih fun k => ?_
      obtain ⟨m, hm⟩ := h (k + 1)
      rw [List.take_succ_cons, List.flatten_cons, List.flatten_cons] at hm
      rw [hdrop]
      exact covered_between hn hm
    rw [List.flatMap_cons, List.flatten_cons, hrest, hpiece, hdrop, List.take_append_drop]

end Parlance
