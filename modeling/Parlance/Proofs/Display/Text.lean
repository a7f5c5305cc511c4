import Parlance.Proofs.Display.Words
import Parlance.Proofs.Lexemes.Cut
import Parlance.Value.Display

/-!
# Strings as words

A string is written bare or in quotes.  Bare, it is runs of text and asterisks that merge into one
literal.  In quotes it is tokens of many kinds; as every character that could begin something has a
backslash, each of them is text and they merge into one literal as well.

    isLiteralSafe s → IsWord s.toList [literal s]                                 (isWord_literal)
    IsWord (quoteText s).toList [string (literals s)]                              (isWord_quoted)
-/

namespace Parlance

open Parlance.Parser (read)

/-- A text as morphemes: one literal, or nothing when it is empty. -/
def literals (text : String) : List Morpheme :=
  if text = "" then [] else [⟨.literal text, none⟩]

theorem ofList_ne_empty {text : List Char} (h : text ≠ []) : String.ofList text ≠ "" := by
  intro hempty
  exact h (String.ofList_injective (hempty.trans String.ofList_nil.symm))

/-! ## Literals that merge -/

namespace Draft

theorem append_ne_empty {text more : String} (hmore : more ≠ "") : text ++ more ≠ "" := by
  intro h
  exact hmore (String.append_eq_empty_iff.1 h).2

/-- Literal text merges into the literal before it. -/
theorem pushLiteral_literals {more : String} (hmore : more ≠ "") (text : String)
    (extendsTarget : Bool) :
    (Draft.of (literals text)).pushLiteral more none extendsTarget = .of (literals (text ++ more)) := by
  have hnew : literals (text ++ more) = [⟨.literal (text ++ more), none⟩] :=
    if_neg (append_ne_empty hmore)
  rw [hnew]
  by_cases htext : text = ""
  · subst htext
    rw [String.empty_append]
    rfl
  · have hold : literals text = [⟨.literal text, none⟩] := if_neg htext
    rw [hold]
    rfl

theorem pushAsterisk_literals {more : String} (hmore : more ≠ "") (text : String) :
    (Draft.of (literals text)).pushAsterisk more none = .of (literals (text ++ more)) := by
  rw [← pushLiteral_literals hmore text true]
  by_cases htext : text = ""
  · subst htext
    rfl
  · have hold : literals text = [⟨.literal text, none⟩] := if_neg htext
    rw [hold]
    rfl

end Draft

theorem literals_last (text : String) :
    ∀ last, (literals text).getLast? = some last → last.kind.isString = false := by
  intro last hlast
  unfold literals at hlast
  split at hlast
  · cases hlast
  · rw [← Option.some.inj hlast]
    rfl

namespace Reader

variable {frame : Frame.Sentences} {below : List Frame} {rest : List Char} {more : String}

/-! ## Bare strings -/

/-- Text and asterisks add to the literal of a word. -/
theorem read_literal {lexeme : Lexeme} (hkind : lexeme.kind = .text ∨ lexeme.kind = .asterisk)
    (hliteral : lexeme.literal ≠ []) (text : String) (log : Array String) :
    read ⟨⟨false⟩, lexeme.toToken .start, log⟩ (.sentences (frame.holding (literals text)) :: below) =
      .ok (.sentences (frame.holding (literals (text ++ String.ofList lexeme.literal))) :: below) := by
  have hmore := ofList_ne_empty hliteral
  have hedit := Frame.Sentences.editWord_of (frame.getD_holding (literals text)) (literals_last text)
  have hnew : frame.holding (literals (text ++ String.ofList lexeme.literal)) =
      { frame with word := some ⟨.of (literals (text ++ String.ofList lexeme.literal)), none⟩ } := by
    have hliterals : literals (text ++ String.ofList lexeme.literal) =
        [] ++ [⟨.literal (text ++ String.ofList lexeme.literal), none⟩] :=
      if_neg (Draft.append_ne_empty hmore)
    rw [hliterals, Frame.Sentences.holding_append]
  have hread : ∀ edit : Draft → Draft,
      edit (.of (literals text)) = .of (literals (text ++ String.ofList lexeme.literal)) →
      (((frame.holding (literals text)).editWord none edit).map fun frame =>
        Frame.sentences frame :: below) =
      .ok (.sentences (frame.holding (literals (text ++ String.ofList lexeme.literal))) :: below) := by
    intro edit hresult
    rw [hedit, hresult, hnew]
    rfl
  show Parser.readInSentences _ _ _ = _
  unfold Parser.readInSentences
  have htoken : (lexeme.toToken .start).kind = lexeme.kind := rfl
  dsimp only
  rw [htoken]
  rcases hkind with hkind | hkind
  · rw [hkind]
    exact hread _ (Draft.pushLiteral_literals hmore text true)
  · rw [hkind]
    exact hread _ (Draft.pushAsterisk_literals hmore text)

theorem isOrdinary_of_literal {c : Char} (h : endsLiteral c = false) (hasterisk : c ≠ '*') :
    isOrdinary c = true := by
  unfold endsLiteral at h
  unfold isOrdinary isBlank
  simp only [List.mem_cons, List.not_mem_nil, or_false, decide_eq_false_iff_not, not_or] at h
  simp only [Bool.not_eq_true', Bool.or_eq_false_iff, decide_eq_false_iff_not, List.mem_cons,
    List.not_mem_nil, or_false, not_or]
  grind

theorem not_isOrdinary_of_stops (hrest : Stops rest) :
    ∀ c, rest.head? = some c → isOrdinary c = false := by
  intro c hc
  have hmem := hrest c hc
  simp only [List.mem_cons, List.not_mem_nil, or_false] at hmem
  rcases hmem with rfl | rfl | rfl | rfl | rfl | rfl | rfl | rfl <;> decide

/-- The first lexeme of a bare string. -/
theorem first_literal {c : Char} {text : List Char} (h : ∀ d ∈ c :: text, endsLiteral d = false)
    (hrest : Stops rest) :
    ∃ lexeme inside after, text = inside ++ after ∧
      Lexeme.first c (inside ++ (after ++ rest)) = (lexeme, after ++ rest) ∧
      (lexeme.kind = .text ∨ lexeme.kind = .asterisk) ∧ lexeme.literal = c :: inside := by
  by_cases hasterisk : c = '*'
  · subst hasterisk
    exact ⟨.verbatim .asterisk ['*'], [], text, rfl, rfl, .inr rfl, rfl⟩
  · have hordinary := isOrdinary_of_literal (h c List.mem_cons_self) hasterisk
    obtain ⟨htake, hdrop⟩ := Lexeme.span_append (not_isOrdinary_of_stops hrest) text
    have hsplit : text = text.takeWhile isOrdinary ++ text.dropWhile isOrdinary :=
      List.takeWhile_append_dropWhile.symm
    have hback : text.dropWhile isOrdinary ++ rest ≠ ['\\'] := by
      intro hback
      cases hafter : text.dropWhile isOrdinary with
      | nil =>
        rw [hafter] at hback
        have hmem := hrest '\\' (by rw [show rest = ['\\'] from hback]; rfl)
        revert hmem
        decide
      | cons d after =>
        rw [hafter] at hback
        have hd : d ∈ text := (List.dropWhile_sublist _).mem (by rw [hafter]; exact List.mem_cons_self)
        have hends := h d (List.mem_cons_of_mem _ hd)
        rw [(List.cons.inj hback).1] at hends
        revert hends
        decide
    refine ⟨.verbatim .text (c :: text.takeWhile isOrdinary), _, _, hsplit, ?_, .inl rfl, rfl⟩
    rw [← List.append_assoc, ← hsplit]
    rw [Lexeme.first_of_ordinary hordinary, Lexeme.textRun, htake, hdrop]
    split
    · rename_i hsingle
      exact absurd hsingle hback
    · rfl

/-- A bare string adds its text to the literal of a word. -/
theorem reads_literal {text : List Char} (h : ∀ c ∈ text, endsLiteral c = false) (hrest : Stops rest)
    (before : String) :
    Reads text rest (.sentences (frame.holding (literals before)) :: below)
      (.sentences (frame.holding (literals (before ++ String.ofList text))) :: below) := by
  generalize hn : text.length = n
  induction n using Nat.strongRecOn generalizing text before with
  | _ n ih =>
    cases text with
    | nil =>
      rw [String.ofList_nil, String.append_empty]
      exact Reads.refl _ _
    | cons c text =>
      obtain ⟨lexeme, inside, after, rfl, hfirst, hkind, hliteral⟩ := first_literal h hrest
      have hafter : ∀ d ∈ after, endsLiteral d = false := fun d hd =>
        h d (List.mem_cons_of_mem _ (List.mem_append_right _ hd))
      have hlength : after.length < n := by
        rw [← hn, List.length_cons, List.length_append]
        omega
      have hcontinuation : lexeme.kind ≠ .continuation := by
        rcases hkind with hkind | hkind <;> rw [hkind] <;> decide
      have hone : Reads (c :: inside) (after ++ rest)
          (.sentences (frame.holding (literals before)) :: below)
          (.sentences (frame.holding (literals (before ++ String.ofList (c :: inside)))) :: below) := by
        refine reads_lexeme hfirst hcontinuation fun log => ?_
        rw [← hliteral]
        exact read_literal hkind (by rw [hliteral]; exact List.cons_ne_nil _ _) before log
      have hothers := ih _ hlength hafter (before ++ String.ofList (c :: inside)) rfl
      have htext : before ++ String.ofList (c :: (inside ++ after)) =
          before ++ String.ofList (c :: inside) ++ String.ofList after := by
        rw [String.append_assoc, ← String.ofList_append]
        rfl
      rw [htext]
      exact hone.trans hothers

theorem endsLiteral_of_isLiteralSafe {text : String} (h : isLiteralSafe text = true) :
    ∀ c ∈ text.toList, endsLiteral c = false := by
  intro c hc
  unfold isLiteralSafe at h
  simp only [Bool.and_eq_true, Bool.not_eq_true', List.any_eq_false] at h
  simpa using h.2 c hc

theorem ne_empty_of_isLiteralSafe {text : String} (h : isLiteralSafe text = true) : text ≠ "" := by
  rintro rfl
  revert h
  decide

/-- A bare string begins a word with its literal. -/
theorem adds_literal {text : String} (h : isLiteralSafe text = true) :
    Adds [] text.toList [⟨.literal text, none⟩] := by
  intro frame below rest hrest
  have hreads : Reads text.toList rest (.sentences (frame.holding (literals "")) :: below)
      (.sentences (frame.holding (literals ("" ++ String.ofList text.toList))) :: below) :=
    reads_literal (endsLiteral_of_isLiteralSafe h) hrest ""
  have hliterals : literals ("" ++ String.ofList text.toList) = [⟨.literal text, none⟩] := by
    rw [String.empty_append, String.ofList_toList]
    exact if_neg (ne_empty_of_isLiteralSafe h)
  rw [hliterals] at hreads
  exact hreads

/-- A bare string is a word. -/
theorem isWord_literal {text : String} (h : isLiteralSafe text = true) :
    IsWord text.toList [⟨.literal text, none⟩] := by
  refine ⟨adds_literal h, ?_, fun h => by cases h⟩
  cases htext : text.toList with
  | nil => exact absurd (String.toList_eq_nil_iff.1 htext) (ne_empty_of_isLiteralSafe h)
  | cons c more =>
    have hc := endsLiteral_of_isLiteralSafe h c (by rw [htext]; exact List.mem_cons_self)
    refine ⟨c, more, rfl, ?_⟩
    unfold endsLiteral at hc
    unfold isBlank
    simp only [List.mem_cons, List.not_mem_nil, or_false, decide_eq_false_iff_not, not_or] at hc
    simp only [Bool.or_eq_false_iff, decide_eq_false_iff_not]
    grind

/-! ## Quoted strings -/

/-- A text with a backslash before each character that needs one. -/
def escaped (text : List Char) : List Char :=
  text.flatMap fun c => if needsBackslash c then ['\\', c] else [c]

theorem escaped_cons (c : Char) (text : List Char) :
    escaped (c :: text) = (if needsBackslash c then ['\\', c] else [c]) ++ escaped text := rfl

/-- A run of characters that need no backslash. -/
theorem span_escaped {p : Char → Bool} (hp : ∀ c, p c = true → needsBackslash c = false)
    (hslash : p '\\' = false) (text : List Char) :
    (escaped text).takeWhile p = text.takeWhile p ∧
      (escaped text).dropWhile p = escaped (text.dropWhile p) := by
  induction text with
  | nil => exact ⟨rfl, rfl⟩
  | cons c text ih =>
    by_cases hc : p c = true
    · rw [escaped_cons, hp c hc, if_neg (by decide), List.singleton_append,
        List.takeWhile_cons_of_pos hc, List.dropWhile_cons_of_pos hc, List.takeWhile_cons_of_pos hc,
        List.dropWhile_cons_of_pos hc, ih.1, ih.2]
      exact ⟨rfl, rfl⟩
    · rw [List.takeWhile_cons_of_neg hc, List.dropWhile_cons_of_neg hc]
      have hstop : ∃ d more, escaped (c :: text) = d :: more ∧ p d = false := by
        rw [escaped_cons]
        by_cases hneeds : needsBackslash c = true
        · rw [if_pos hneeds]
          exact ⟨_, _, rfl, hslash⟩
        · rw [if_neg hneeds]
          exact ⟨_, _, rfl, Bool.eq_false_iff.2 hc⟩
      obtain ⟨d, more, hmore, hd⟩ := hstop
      rw [hmore]
      exact ⟨List.takeWhile_cons_of_neg (by rw [hd]; decide),
        List.dropWhile_cons_of_neg (by rw [hd]; decide)⟩

/-- The same before the closing quote. -/
theorem span_quoted {p : Char → Bool} (hp : ∀ c, p c = true → needsBackslash c = false)
    (hslash : p '\\' = false) (hquote : p '"' = false) (text rest : List Char) :
    (escaped text ++ '"' :: rest).takeWhile p = text.takeWhile p ∧
      (escaped text ++ '"' :: rest).dropWhile p = escaped (text.dropWhile p) ++ '"' :: rest := by
  have hrest : ∀ c, ('"' :: rest).head? = some c → p c = false := by
    intro c hc
    cases hc
    exact hquote
  obtain ⟨htake, hdrop⟩ := Lexeme.span_append hrest (escaped text)
  obtain ⟨htake', hdrop'⟩ := span_escaped hp hslash text
  exact ⟨htake.trans htake', hdrop.trans (by rw [hdrop'])⟩

/-- Kinds of token that are text within quotes. -/
def IsQuotable (kind : Token.Kind) : Prop :=
  kind ∉ [.stringDelimiter, .dollar, .openExpression, .continuation]

instance (kind : Token.Kind) : Decidable (IsQuotable kind) :=
  inferInstanceAs (Decidable (kind ∉ [_, _, _, _]))

/-- The lexeme that `c` begins within quotes takes some of the text, as it stands. -/
def Takes (c : Char) (text rest : List Char) : Prop :=
  ∃ kind inside after, IsQuotable kind ∧ text = inside ++ after ∧
    escaped text ++ '"' :: rest = inside ++ (escaped after ++ '"' :: rest) ∧
    Lexeme.first c (escaped text ++ '"' :: rest) =
      (.verbatim kind (c :: inside), escaped after ++ '"' :: rest)

variable {c : Char} {text : List Char}

theorem takes_run {kind : Token.Kind} {p : Char → Bool} (hkind : IsQuotable kind)
    (hp : ∀ c, p c = true → needsBackslash c = false) (hslash : p '\\' = false)
    (hquote : p '"' = false)
    (hfirst : ∀ more, more ≠ [] → more.dropWhile p ≠ ['\\'] →
      Lexeme.first c more = (.verbatim kind (c :: more.takeWhile p), more.dropWhile p)) :
    Takes c text rest := by
  obtain ⟨htake, hdrop⟩ := span_quoted hp hslash hquote text rest
  have hsplit : escaped text ++ '"' :: rest =
      text.takeWhile p ++ (escaped (text.dropWhile p) ++ '"' :: rest) := by
    rw [← htake, ← hdrop, List.takeWhile_append_dropWhile]
  have hback : (escaped text ++ '"' :: rest).dropWhile p ≠ ['\\'] := by
    intro hback
    have hmem : '"' ∈ (escaped text ++ '"' :: rest).dropWhile p := by
      rw [hdrop]
      exact List.mem_append_right _ List.mem_cons_self
    rw [hback] at hmem
    revert hmem
    decide
  refine ⟨kind, _, _, hkind, List.takeWhile_append_dropWhile.symm, hsplit, ?_⟩
  rw [hfirst _ (by simp) hback, htake, hdrop]

theorem takes_single {kind : Token.Kind} (hkind : IsQuotable kind)
    (hfirst : ∀ more, Lexeme.first c more = (.verbatim kind [c], more)) : Takes c text rest :=
  ⟨kind, [], text, hkind, rfl, rfl, hfirst _⟩

theorem eq_of_needsBackslash {c : Char} (h : needsBackslash c = true) :
    c = '\\' ∨ c = '"' ∨ c = '$' ∨ c = '[' := by
  unfold needsBackslash at h
  simpa using h

theorem needsBackslash_of_run {p : Char → Bool} (hslash : p '\\' = false) (hquote : p '"' = false)
    (hdollar : p '$' = false) (hbracket : p '[' = false) :
    ∀ c, p c = true → needsBackslash c = false := by
  intro c hc
  cases hneeds : needsBackslash c with
  | false => rfl
  | true =>
    rcases eq_of_needsBackslash hneeds with rfl | rfl | rfl | rfl
    · rw [hslash] at hc
      cases hc
    · rw [hquote] at hc
      cases hc
    · rw [hdollar] at hc
      cases hc
    · rw [hbracket] at hc
      cases hc

/-- Without a backslash a character within quotes begins text. -/
theorem takes_of_plain (hc : needsBackslash c = false) : Takes c text rest := by
  by_cases hordinary : isOrdinary c = true
  · have hp := needsBackslash_of_run (p := isOrdinary) (by decide) (by decide) (by decide) (by decide)
    have hkind : IsQuotable .text := by decide
    refine takes_run hkind hp (by decide) (by decide) fun more hmore hback => ?_
    rw [Lexeme.first_of_ordinary hordinary, Lexeme.textRun]
    split
    · rename_i hdrop
      exact absurd hdrop hback
    · rfl
  by_cases hblank : isBlank c = true
  · have hp := needsBackslash_of_run (p := isBlank) (by decide) (by decide) (by decide) (by decide)
    have hkind : IsQuotable .whitespace := by decide
    refine takes_run hkind hp (by decide) (by decide) fun more _ _ => ?_
    unfold isBlank at hblank
    simp only [Bool.or_eq_true, decide_eq_true_eq] at hblank
    rcases hblank with ((rfl | rfl) | rfl) | rfl <;> rfl
  · have hspecial : c ∈ ['\n', '\\', '#', '"', '(', ')', '\x7b', '\x7d', '[', ']', '$', '*', ';'] := by
      unfold isOrdinary at hordinary
      rw [Bool.not_eq_true', Bool.not_eq_false, Bool.or_eq_true] at hordinary
      exact of_decide_eq_true (hordinary.resolve_left hblank)
    simp only [List.mem_cons, List.not_mem_nil, or_false] at hspecial
    rcases hspecial with rfl | rfl | rfl | rfl | rfl | rfl | rfl | rfl | rfl | rfl | rfl | rfl | rfl
    case inr.inr.inl =>
      have hp := needsBackslash_of_run (p := (· == '#')) (by decide) (by decide) (by decide) (by decide)
      have hkind : IsQuotable .comment := by decide
      exact takes_run hkind hp (by decide) (by decide) fun more _ _ => rfl
    case inr.inl | inr.inr.inr.inl | inr.inr.inr.inr.inr.inr.inr.inr.inl |
        inr.inr.inr.inr.inr.inr.inr.inr.inr.inr.inl => exact absurd hc (by decide)
    all_goals exact takes_single (by decide) fun more => rfl

/-- A token that is text within quotes adds to the literal there. -/
theorem read_quotable {lexeme : Lexeme} (hkind : IsQuotable lexeme.kind) (hliteral : lexeme.literal ≠ [])
    (before : String) (log : Array String) :
    read ⟨⟨false⟩, lexeme.toToken .start, log⟩
        (.quoted ⟨.start, none, .of (literals before)⟩ :: below) =
      .ok (.quoted ⟨.start, none, .of (literals (before ++ String.ofList lexeme.literal))⟩ :: below) := by
  have hmore := ofList_ne_empty hliteral
  have hpush := Draft.pushLiteral_literals hmore before
  have hasterisk := Draft.pushAsterisk_literals hmore before
  have hsettle : (Draft.of (literals before)).settle = .of (literals before) := rfl
  have htoken : (lexeme.toToken .start).kind = lexeme.kind := rfl
  have hposition : Parser.Reading.position ⟨⟨false⟩, lexeme.toToken .start, log⟩ = none := rfl
  have htext : (lexeme.toToken .start).literal = String.ofList lexeme.literal := rfl
  have hpending : (Draft.of (literals before)).isPending = false := rfl
  have hexpecting : (Draft.of (literals before)).expecting = .nothing := rfl
  show Parser.readInQuoted _ _ _ = _
  unfold Parser.readInQuoted
  dsimp only
  rw [htoken, hposition, htext, hsettle, hpending, hexpecting, hasterisk]
  cases hlexeme : lexeme.kind
  case stringDelimiter | dollar | openExpression | continuation =>
    rw [hlexeme] at hkind
    exact absurd hkind (by decide)
  case comment | openTuple | openBlock =>
    simp only [hpush, Bool.false_eq_true, if_true, if_false]
  all_goals simp only [hpush]

/-- A backslash and the character that it stands before. -/
theorem first_backslash (hc : needsBackslash c = true) (more : List Char) :
    Lexeme.first '\\' ([c] ++ more) = (⟨.escape, ['\\', c], [c]⟩, more) := by
  rcases eq_of_needsBackslash hc with rfl | rfl | rfl | rfl <;> rfl

/-- A text within quotes adds to the literal there. -/
theorem reads_escaped (text rest : List Char) (before : String) :
    Reads (escaped text) ('"' :: rest) (.quoted ⟨.start, none, .of (literals before)⟩ :: below)
      (.quoted ⟨.start, none, .of (literals (before ++ String.ofList text))⟩ :: below) := by
  generalize hn : text.length = n
  induction n using Nat.strongRecOn generalizing text before with
  | _ n ih =>
    cases text with
    | nil =>
      rw [String.ofList_nil, String.append_empty]
      exact Reads.refl _ _
    | cons c text =>
      rw [List.length_cons] at hn
      by_cases hc : needsBackslash c = true
      · have hone : Reads ['\\', c] (escaped text ++ '"' :: rest)
            (.quoted ⟨.start, none, .of (literals before)⟩ :: below)
            (.quoted ⟨.start, none, .of (literals (before ++ String.ofList [c]))⟩ :: below) :=
          reads_lexeme (first_backslash hc _) (fun h => by cases h) fun log =>
            read_quotable (show IsQuotable .escape by decide) (List.cons_ne_nil _ _) before log
        have hothers := ih text.length (by omega) text (before ++ String.ofList [c]) rfl
        have htext : before ++ String.ofList (c :: text) =
            before ++ String.ofList [c] ++ String.ofList text := by
          rw [String.append_assoc, ← String.ofList_append]
          rfl
        rw [escaped_cons, if_pos hc, htext]
        exact hone.trans hothers
      · obtain ⟨kind, inside, after, hkind, rfl, hescaped, hfirst⟩ : Takes c text rest :=
          takes_of_plain (Bool.eq_false_iff.2 hc)
        have hcontinuation : kind ≠ .continuation := by
          rintro rfl
          exact absurd hkind (by decide)
        have hone : Reads (c :: inside) (escaped after ++ '"' :: rest)
            (.quoted ⟨.start, none, .of (literals before)⟩ :: below)
            (.quoted ⟨.start, none, .of (literals (before ++ String.ofList (c :: inside)))⟩ ::
              below) := by
          refine reads_lexeme (by rw [← hescaped, hfirst]) hcontinuation fun log => ?_
          exact read_quotable hkind (List.cons_ne_nil _ _) before log
        have hlength : after.length < n := by
          rw [List.length_append] at hn
          omega
        have hothers := ih _ hlength after (before ++ String.ofList (c :: inside)) rfl
        have hcancel : escaped (inside ++ after) = inside ++ escaped after := by
          rw [← List.append_assoc] at hescaped
          exact List.append_cancel_right hescaped
        have htext : before ++ String.ofList (c :: (inside ++ after)) =
            before ++ String.ofList (c :: inside) ++ String.ofList after := by
          rw [String.append_assoc, ← String.ofList_append]
          rfl
        rw [escaped_cons, if_neg hc, hcancel, htext]
        exact hone.trans hothers

/-! ### The quotes -/

theorem ne_quote_of_stops (hrest : Stops rest) : ∀ c, rest.head? = some c → (c == '"') = false := by
  intro c hc
  have hmem := hrest c hc
  simp only [List.mem_cons, List.not_mem_nil, or_false] at hmem
  rcases hmem with rfl | rfl | rfl | rfl | rfl | rfl | rfl | rfl <;> decide

/-- The quotes that a run of them is. -/
theorem first_quotes (inside : List Char) (hinside : ∀ c ∈ inside, (c == '"') = true)
    (hrest : ∀ c, rest.head? = some c → (c == '"') = false) :
    Lexeme.first '"' (inside ++ rest) = (.verbatim .stringDelimiter ('"' :: inside), rest) := by
  obtain ⟨htake, hdrop⟩ := Lexeme.span_append hrest []
  rw [List.nil_append] at htake hdrop
  show Lexeme.run .stringDelimiter (· == '"') '"' (inside ++ rest) = _
  rw [Lexeme.run, List.takeWhile_append_of_pos hinside, List.dropWhile_append_of_pos hinside, htake,
    hdrop, List.takeWhile_nil, List.append_nil]
  rfl

theorem head_escaped {text : String} (h : text ≠ "") (rest : List Char) :
    ∀ c, (escaped text.toList ++ '"' :: rest).head? = some c → (c == '"') = false := by
  intro c hc
  cases htext : text.toList with
  | nil => exact absurd (String.toList_eq_nil_iff.1 htext) h
  | cons d more =>
    rw [htext, escaped_cons] at hc
    by_cases hd : needsBackslash d = true
    · rw [if_pos hd] at hc
      cases hc
      decide
    · rw [if_neg hd] at hc
      cases hc
      rw [beq_eq_false_iff_ne]
      rintro rfl
      exact hd (by decide)

/-- A quote ends a quoted string. -/
theorem read_closeQuote {token : Token} (hkind : token.kind = .stringDelimiter)
    (hlength : ¬ token.runLength > 1) (morphemes : List Morpheme) (below : List Frame)
    (log : Array String) :
    read ⟨⟨false⟩, token, log⟩ (.quoted ⟨.start, none, .of morphemes⟩ :: below) =
      Frame.addMorpheme ⟨.string morphemes, none⟩ below := by
  have hmorphemes : (Draft.of morphemes).settle.toList = morphemes := List.reverse_reverse _
  show Parser.readInQuoted _ _ _ = _
  unfold Parser.readInQuoted
  dsimp only
  rw [hkind]
  dsimp only
  rw [if_neg hlength, hmorphemes]

/-- The morphemes of a quoted string. -/
def quotedMorphemes (text : String) : List Morpheme := [⟨.string (literals text), none⟩]

theorem adds_quoted (text : String) : Adds [] (quoteText text).toList (quotedMorphemes text) := by
  intro frame below rest hrest
  have htext : (quoteText text).toList = '"' :: escaped text.toList ++ ['"'] := String.toList_ofList
  have hpush : ∀ parts, Frame.addMorpheme ⟨.string parts, none⟩ (.sentences (frame.holding []) :: below) =
      .ok (.sentences (frame.holding [⟨.string parts, none⟩]) :: below) := by
    intro parts
    have hpush := Frame.Sentences.pushMorpheme_of (frame.getD_holding []) (fun last h => by cases h)
      (.string parts)
    rw [Frame.addMorpheme, hpush]
    rfl
  rw [htext]
  by_cases hempty : text = ""
  · subst hempty
    have hinside : ∀ c ∈ ['"'], (c == '"') = true := by
      intro c hc
      rw [List.mem_singleton.1 hc]
      rfl
    have hone : Reads ['"', '"'] rest (.sentences (frame.holding []) :: below)
        (.quotePair .start none :: .sentences (frame.holding []) :: below) :=
      reads_lexeme (first_quotes ['"'] hinside (ne_quote_of_stops hrest)) (by decide) fun log => rfl
    have hboth := hone.trans (reads_pair hrest (hpush []))
    exact hboth
  · have hopen : Reads ['"'] (escaped text.toList ++ ('"' :: rest))
        (.sentences (frame.holding []) :: below)
        (.quoted ⟨.start, none, .of (literals "")⟩ :: .sentences (frame.holding []) :: below) := by
      refine reads_lexeme (first_quotes [] (by simp) (head_escaped hempty rest)) (by decide)
        fun log => rfl
    have hbody : Reads (escaped text.toList) ('"' :: rest)
        (.quoted ⟨.start, none, .of (literals "")⟩ :: .sentences (frame.holding []) :: below)
        (.quoted ⟨.start, none, .of (literals ("" ++ String.ofList text.toList))⟩ ::
          .sentences (frame.holding []) :: below) := reads_escaped text.toList rest ""
    have hclose : Reads ['"'] rest
        (.quoted ⟨.start, none, .of (literals text)⟩ :: .sentences (frame.holding []) :: below)
        (.sentences (frame.holding (quotedMorphemes text)) :: below) := by
      refine reads_lexeme (first_quotes [] (by simp) (ne_quote_of_stops hrest)) (by decide) fun log => ?_
      exact (read_closeQuote rfl (by decide) _ _ log).trans (hpush (literals text))
    rw [String.empty_append, String.ofList_toList] at hbody
    have hall := (hopen.trans hbody).trans hclose
    exact hall

/-- A quoted string is a word. -/
theorem isWord_quoted (text : String) : IsWord (quoteText text).toList (quotedMorphemes text) := by
  have htext : (quoteText text).toList = '"' :: (escaped text.toList ++ ['"']) := String.toList_ofList
  exact ⟨adds_quoted text, ⟨'"', _, htext, by decide⟩, fun h => by cases h⟩

end Reader

end Parlance
