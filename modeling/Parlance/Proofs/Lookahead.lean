import Parlance.Proofs.Lexemes.Cut
import Parlance.Token.Tokenizer

/-!
# One token ahead

What a tokenizer has still to give is its pending token and the tokens of the input that is left
(`upcoming`).  A pending token is never text, so nothing can be merged into it.  Then a call of `next`
gives the first of the upcoming tokens and leaves the others, and the tokenizer is at its end exactly
when there are none.

    scan cursor = some (token, after) → token is text →
      merge token after gives the token that a scanner finds there                 (merge_scanned)
    t.Apart → t.upcoming = [] ∧ t.next = none ∨
      t.next = some (token, t') with t.upcoming = token :: t'.upcoming               (next_cases)
    Yields stream tokens → every call answers as the tokens say             (Yields.answer, Yields.atEnd)
-/

namespace Parlance

/-! ## Streams call by call -/

namespace TokenStream

variable {σ : Type} [TokenStream σ]

/-- The stream after `n` calls of `next`.  A call without an answer leaves it as it is. -/
def after : Nat → σ → σ
  | 0, stream => stream
  | n + 1, stream =>
    match next stream with
    | none => stream
    | some (_, behind) => after n behind

/-- The answer of the call of `next` that comes after `n` others. -/
def answer (n : Nat) (stream : σ) : Option Token := (next (after n stream)).map Prod.fst

/-- The stream gives these tokens and then none, and always knows whether there is one. -/
inductive Yields : σ → List Token → Prop
  | nothing {stream : σ} (hend : atEnd stream = true) (hnext : next stream = none) : Yields stream []
  | token {stream behind : σ} {token : Token} {rest : List Token} (hend : atEnd stream = false)
    (hnext : next stream = some (token, behind)) (h : Yields behind rest) :
    Yields stream (token :: rest)

namespace Yields

variable {stream : σ} {tokens : List Token}

theorem after_of_none (hnext : next stream = none) (n : Nat) : after n stream = stream := by
  cases n with
  | zero => rfl
  | succ n => rw [after, hnext]

theorem answer_eq (h : Yields stream tokens) (n : Nat) : answer n stream = tokens[n]? := by
  induction h generalizing n with
  | nothing hend hnext =>
    rw [answer, after_of_none hnext, hnext]
    rfl
  | token hend hnext h ih =>
    cases n with
    | zero =>
      rw [answer, after, hnext]
      rfl
    | succ n =>
      rw [List.getElem?_cons_succ, ← ih n, answer, after, hnext]
      rfl

theorem atEnd_eq (h : Yields stream tokens) (n : Nat) :
    atEnd (after n stream) = decide (tokens.length ≤ n) := by
  induction h generalizing n with
  | nothing hend hnext =>
    rw [after_of_none hnext, hend]
    simp
  | token hend hnext h ih =>
    cases n with
    | zero =>
      rw [after, hend]
      simp
    | succ n =>
      rw [after, hnext, List.length_cons]
      simp only [ih n, Nat.add_le_add_iff_right]

theorem drain_eq (h : Yields stream tokens) : drain stream = tokens := by
  induction h with
  | nothing hend hnext => rw [drain, if_pos hend]
  | token hend hnext h ih =>
    rw [drain, hend, if_neg Bool.false_ne_true]
    split
    · rename_i hnone
      rw [hnext] at hnone
      cases hnone
    · rename_i hsome
      rw [hnext] at hsome
      cases hsome
      rw [ih]

theorem collect_eq (h : Yields stream tokens) : collect stream = tokens := by
  induction h with
  | nothing hend hnext => exact collect_of_next_eq_none hnext
  | token hend hnext h ih => rw [collect_of_next_eq_some hnext, ih]

end Yields

/-- A list of tokens yields itself. -/
theorem yields_list (tokens : List Token) : Yields tokens tokens := by
  induction tokens with
  | nil => exact .nothing rfl rfl
  | cons token rest ih => exact .token rfl rfl ih

end TokenStream

/-! ## Scanning and merging -/

namespace Tokenizer

open Lexeme (scanned first)

variable {cursor behind : Cursor} {token : Token} {c : Char} {rest : List Char}

theorem scan_eq (hrest : cursor.rest = c :: rest) :
    scan cursor = some ((scanned c rest).1.toToken cursor.position,
      cursor.skip (scanned c rest).1.sequence.length) := by
  rw [scan, hrest]

theorem next_scanner_eq (hrest : cursor.rest = c :: rest) :
    Scanner.next ⟨cursor⟩ = some ((first c rest).1.toToken cursor.position,
      ⟨cursor.skip (first c rest).1.sequence.length⟩) := by
  rw [Scanner.next, hrest]

theorem exists_rest_of_scan (h : scan cursor = some (token, behind)) :
    ∃ c rest, cursor.rest = c :: rest := by
  cases hrest : cursor.rest with
  | nil =>
    rw [scan, hrest] at h
    cases h
  | cons c rest => exact ⟨c, rest, rfl⟩

/-- Anything but text is scanned as a scanner finds it. -/
theorem next_scanner_of_scan (h : scan cursor = some (token, behind)) (hkind : token.kind ≠ .text) :
    Scanner.next ⟨cursor⟩ = some (token, ⟨behind⟩) := by
  obtain ⟨c, rest, hrest⟩ := exists_rest_of_scan h
  rw [scan_eq hrest] at h
  obtain ⟨rfl, rfl⟩ := Prod.mk.inj (Option.some.inj h)
  have hsame : scanned c rest = first c rest := by
    unfold scanned at hkind ⊢
    split
    · rename_i hc
      rw [if_pos hc] at hkind
      exact absurd rfl hkind
    · rfl
  rw [next_scanner_eq hrest, hsame]

/-- Text goes on with ordinary characters or with a backslash that ends the input, and with nothing
else. -/
theorem kind_scanned_ne_text (hc : isOrdinary c = false) (hback : c :: rest ≠ ['\\']) :
    (scanned c rest).1.kind ≠ .text := by
  intro hkind
  have hfirst : scanned c rest = first c rest := by
    rw [scanned, hc, if_neg Bool.false_ne_true]
  rw [hfirst] at hkind
  have hcover := Lexeme.sequence_append_first c rest
  rcases Lexeme.head_of_text (Lexeme.cut_first c rest) hkind with hslash | ⟨d, hhead, hd⟩
  · exact hback (hcover.symm.trans hslash)
  · rw [hcover] at hhead
    cases hhead
    rw [hc] at hd
    cases hd

/-- The tokens that a tokenizer has still to give. -/
def upcoming (tokenizer : Tokenizer) : List Token :=
  tokenizer.pending.toList ++
    (tokenizer.input.map fun cursor => (Scanner.mk cursor).tokens).getD []

/-- A tokenizer whose pending token, if there is one, takes no text. -/
def Apart (tokenizer : Tokenizer) : Prop := ∀ token ∈ tokenizer.pending, token.kind ≠ .text

/-- Text that no text follows is a token as it is. -/
theorem merge_before_other (token : Token) (cursor : Cursor)
    (hhead : ∀ c ∈ cursor.rest.head?, isOrdinary c = false) (hback : cursor.rest ≠ ['\\']) :
    ∃ after, merge token cursor = (token, after) ∧ after.Apart ∧
      after.upcoming = (Scanner.mk cursor).tokens := by
  cases hrest : cursor.rest with
  | nil =>
    have hscan : scan cursor = none := by rw [scan, hrest]
    refine ⟨⟨some cursor, none⟩, ?_, ?_, rfl⟩
    · rw [merge]
      split
      · rfl
      · rename_i hsome
        rw [hscan] at hsome
        cases hsome
    · rintro pending ⟨⟩
  | cons c rest =>
    rw [hrest] at hhead hback
    have hscan := scan_eq hrest
    have hkind := kind_scanned_ne_text (hhead c rfl) hback
    refine ⟨⟨some _, some _⟩, ?_, ?_, (Scanner.tokens_of_next_eq_some
      (next_scanner_of_scan hscan hkind)).symm⟩
    · rw [merge]
      split
      · rename_i hnone
        rw [hscan] at hnone
        cases hnone
      · rename_i hsome
        rw [hscan] at hsome
        cases hsome
        exact if_neg hkind
    · rintro pending ⟨⟩
      exact hkind

/-- Text before a backslash that ends the input takes it. -/
theorem merge_before_backslash (token : Token) (hrest : cursor.rest = ['\\']) :
    merge token cursor = (token.join ⟨.text, cursor.position, "\\", "\\"⟩,
      ⟨some (cursor.skip 1), none⟩) := by
  have hscan : scan cursor = some (⟨.text, cursor.position, "\\", "\\"⟩, cursor.skip 1) :=
    scan_eq hrest
  have hend : scan (cursor.skip 1) = none := by
    rw [scan, Cursor.rest_skip, hrest]
    rfl
  rw [merge]
  split
  · rename_i hnone
    rw [hscan] at hnone
    cases hnone
  · rename_i hsome
    rw [hscan] at hsome
    cases hsome
    rw [if_pos rfl, merge]
    split
    · rfl
    · rename_i hmore
      rw [hend] at hmore
      cases hmore

theorem skip_skip (n m : Nat) (cursor : Cursor) :
    (cursor.skip n).skip m = cursor.skip (n + m) := by
  induction n generalizing cursor with
  | zero => rw [Nat.zero_add]; rfl
  | succ n ih => rw [Nat.add_right_comm, Cursor.skip, Cursor.skip, ih]

theorem rest_behind_run (hrest : cursor.rest = c :: rest) :
    (cursor.skip (c :: rest.takeWhile isOrdinary).length).rest = rest.dropWhile isOrdinary := by
  have hsplit := List.takeWhile_append_dropWhile (p := isOrdinary) (l := rest)
  have hdrop : rest.drop (rest.takeWhile isOrdinary).length = rest.dropWhile isOrdinary := by
    conv => lhs; arg 2; rw [← hsplit]
    exact List.drop_left
  rw [Cursor.rest_skip, hrest, List.length_cons, List.drop_succ_cons, hdrop]

/-- A run of text with a backslash behind it that ends the input.  The scanner takes the backslash at
once, the tokenizer in a second scan. -/
theorem merge_run_backslash (hrest : cursor.rest = c :: rest)
    (hback : rest.dropWhile isOrdinary = ['\\']) :
    ∃ after, merge ((Lexeme.verbatim .text (c :: rest.takeWhile isOrdinary)).toToken cursor.position)
          (cursor.skip (c :: rest.takeWhile isOrdinary).length) =
        ((Lexeme.verbatim .text (c :: rest)).toToken cursor.position, after) ∧ after.Apart ∧
      after.upcoming = (Scanner.mk (cursor.skip (c :: rest).length)).tokens := by
  have hsplit : rest.takeWhile isOrdinary ++ ['\\'] = rest := by
    rw [← hback, List.takeWhile_append_dropWhile]
  have hlength : (c :: rest).length = (c :: rest.takeWhile isOrdinary).length + 1 := by
    have hcount := congrArg List.length hsplit
    rw [List.length_append, List.length_singleton] at hcount
    rw [List.length_cons, List.length_cons, hcount]
  have hjoin : String.ofList (c :: rest.takeWhile isOrdinary) ++ "\\" = String.ofList (c :: rest) := by
    conv => rhs; rw [← hsplit, ← List.cons_append, String.ofList_append]
  refine ⟨⟨some (cursor.skip (c :: rest).length), none⟩,
    (merge_before_backslash _ ((rest_behind_run hrest).trans hback)).trans ?_, ?_, rfl⟩
  · rw [skip_skip, ← hlength]
    unfold Token.join Lexeme.toToken Lexeme.verbatim
    dsimp only
    rw [hjoin]
  · rintro pending ⟨⟩

/-- Text that was scanned, with all the text behind it, is the token that a scanner finds there. -/
theorem merge_scanned (h : scan cursor = some (token, behind)) (hkind : token.kind = .text) :
    ∃ merged after scanner, merge token behind = (merged, after) ∧
      Scanner.next ⟨cursor⟩ = some (merged, scanner) ∧ after.Apart ∧
      after.upcoming = scanner.tokens := by
  obtain ⟨c, rest, hrest⟩ := exists_rest_of_scan h
  have hnext := next_scanner_eq hrest
  rw [scan_eq hrest] at h
  obtain ⟨rfl, rfl⟩ := Prod.mk.inj (Option.some.inj h)
  by_cases hc : isOrdinary c = true
  · have hscanned : (scanned c rest).1 = .verbatim .text (c :: rest.takeWhile isOrdinary) := by
      rw [scanned, if_pos hc]
      rfl
    rw [Lexeme.first_of_ordinary hc] at hnext
    rw [hscanned]
    by_cases hback : rest.dropWhile isOrdinary = ['\\']
    · have hrun : (Lexeme.textRun c rest).1 = .verbatim .text (c :: rest) := by
        unfold Lexeme.textRun
        simp only [hback]
      obtain ⟨after, hmerge, hapart, hupcoming⟩ := merge_run_backslash hrest hback
      rw [hrun] at hnext
      exact ⟨_, after, _, hmerge, hnext, hapart, hupcoming⟩
    · have hrun : (Lexeme.textRun c rest).1 = .verbatim .text (c :: rest.takeWhile isOrdinary) := by
        unfold Lexeme.textRun
        split
        · rename_i hslash
          exact absurd hslash hback
        · rfl
      have hbehind := rest_behind_run hrest
      obtain ⟨after, hmerge, hapart, hupcoming⟩ := merge_before_other
        ((Lexeme.verbatim .text (c :: rest.takeWhile isOrdinary)).toToken cursor.position)
        (cursor.skip (c :: rest.takeWhile isOrdinary).length)
        (by rw [hbehind]; exact Lexeme.ends_of_dropWhile isOrdinary rest) (by rw [hbehind]; exact hback)
      rw [hrun] at hnext
      exact ⟨_, after, _, hmerge, hnext, hapart, hupcoming⟩
  · have hc : isOrdinary c = false := Bool.eq_false_iff.2 hc
    have halone : c :: rest = ['\\'] :=
      Classical.byContradiction fun hback => kind_scanned_ne_text hc hback hkind
    obtain ⟨rfl, rfl⟩ := List.cons.inj halone
    have hbehind : (cursor.skip 1).rest = [] := by
      rw [Cursor.rest_skip, hrest]
      rfl
    obtain ⟨after, hmerge, hapart, hupcoming⟩ := merge_before_other
      ⟨.text, cursor.position, "\\", "\\"⟩ (cursor.skip 1)
      (by rw [hbehind]; rintro d ⟨⟩) (by rw [hbehind]; decide)
    exact ⟨_, after, _, hmerge, hnext, hapart, hupcoming⟩

/-! ## Tokenizers -/

/-- A call of `next` gives the first upcoming token and leaves the others. -/
theorem next_cases {tokenizer : Tokenizer} (h : tokenizer.Apart) :
    (tokenizer.upcoming = [] ∧ tokenizer.next = none) ∨
      ∃ token after, tokenizer.next = some (token, after) ∧ after.Apart ∧
        tokenizer.upcoming = token :: after.upcoming := by
  obtain ⟨input, pending⟩ := tokenizer
  cases pending with
  | some token =>
    have hkind : token.kind ≠ .text := h token rfl
    refine .inr ⟨token, ⟨input, none⟩, ?_, by rintro pending ⟨⟩, rfl⟩
    cases input with
    | none => rfl
    | some cursor => exact congrArg some (if_neg hkind)
  | none =>
    cases input with
    | none => exact .inl ⟨rfl, rfl⟩
    | some cursor =>
      have hupcoming : upcoming ⟨some cursor, none⟩ = (Scanner.mk cursor).tokens := rfl
      rw [hupcoming]
      simp only [next]
      cases hscan : scan cursor with
      | none =>
        have hrest : cursor.rest = [] := by
          cases hrest : cursor.rest with
          | nil => rfl
          | cons c rest =>
            rw [scan_eq hrest] at hscan
            cases hscan
        exact .inl ⟨Scanner.tokens_of_next_eq_none (by rw [Scanner.next, hrest]), rfl⟩
      | some scanned =>
        obtain ⟨token, behind⟩ := scanned
        refine .inr ?_
        simp only [complete]
        by_cases hkind : token.kind = .text
        · obtain ⟨merged, after, scanner, hmerge, hnext, hapart, hafter⟩ := merge_scanned hscan hkind
          refine ⟨merged, after, by rw [if_pos hkind, hmerge], hapart, ?_⟩
          rw [Scanner.tokens_of_next_eq_some hnext, hafter]
        · refine ⟨token, ⟨some behind, none⟩, by rw [if_neg hkind], by rintro pending ⟨⟩, ?_⟩
          exact Scanner.tokens_of_next_eq_some (next_scanner_of_scan hscan hkind)

/-- A tokenizer is at its end exactly when no token is left. -/
theorem atEnd_iff (tokenizer : Tokenizer) : tokenizer.atEnd = true ↔ tokenizer.upcoming = [] := by
  obtain ⟨input, pending⟩ := tokenizer
  cases pending with
  | some token => simp [atEnd, upcoming]
  | none =>
    cases input with
    | none => simp [atEnd, upcoming]
    | some cursor =>
      show cursor.atEnd = true ↔ (Scanner.mk cursor).tokens = []
      rw [Cursor.atEnd, List.isEmpty_iff]
      cases hrest : cursor.rest with
      | nil => simp [Scanner.tokens_of_next_eq_none, Scanner.next, hrest]
      | cons c rest => simp [Scanner.tokens_of_next_eq_some (next_scanner_eq hrest)]

/-- A tokenizer yields its upcoming tokens. -/
theorem yields_upcoming {tokenizer : Tokenizer} (h : tokenizer.Apart) :
    TokenStream.Yields tokenizer tokenizer.upcoming := by
  generalize hn : tokenizer.remaining = n
  induction n using Nat.strongRecOn generalizing tokenizer with
  | _ n ih =>
    rcases next_cases h with ⟨hnil, hnext⟩ | ⟨token, after, hnext, hapart, hupcoming⟩
    · rw [hnil]
      exact .nothing ((atEnd_iff tokenizer).2 hnil) hnext
    · have hlt := remaining_next_lt hnext
      rw [hn] at hlt
      have hend : tokenizer.atEnd = false := by
        rw [Bool.eq_false_iff, Ne, atEnd_iff, hupcoming]
        exact List.cons_ne_nil _ _
      rw [hupcoming]
      exact .token hend hnext (ih _ hlt hapart rfl)

/-- A tokenizer that begins yields the tokens of its source. -/
theorem yields_begin (tokenizer : Tokenizer) (source : String) :
    TokenStream.Yields (tokenizer.begin (.ofString source)) (Parlance.tokenize source) :=
  yields_upcoming (by rintro token ⟨⟩)

end Tokenizer

open TokenStream (answer after drain)

/-- **One call at a time or all at once.**  Whatever a tokenizer did before, once it begins on a source
its calls answer with the tokens of the source, one after the other, and with none from then on.  Before
every call it is at its end exactly when the call will answer with none.  A list of these tokens gives
the same answers, also about its end; and taking tokens until the end, or until there is none, takes all
of them. -/
theorem Tokenizer.begin_answers (tokenizer : Tokenizer) (source : String) :
    let started := tokenizer.begin (.ofString source)
    let tokens := Parlance.tokenize source
    (∀ n, answer n started = tokens[n]? ∧ answer n tokens = tokens[n]? ∧
        (TokenStream.atEnd (after n started) = true ↔ answer n started = none) ∧
        TokenStream.atEnd (after n started) = TokenStream.atEnd (after n tokens)) ∧
      drain started = tokens ∧ drain tokens = tokens ∧ (tokenizer.tokenize source).1 = tokens := by
  intro started tokens
  have hstarted : TokenStream.Yields started tokens := yields_begin tokenizer source
  have htokens := TokenStream.yields_list tokens
  refine ⟨fun n => ⟨hstarted.answer_eq n, htokens.answer_eq n, ?_, ?_⟩, hstarted.drain_eq,
    htokens.drain_eq, hstarted.collect_eq⟩
  · rw [hstarted.atEnd_eq, hstarted.answer_eq, decide_eq_true_iff, List.getElem?_eq_none_iff]
  · rw [hstarted.atEnd_eq, htokens.atEnd_eq]

end Parlance
