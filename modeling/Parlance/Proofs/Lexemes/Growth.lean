import Parlance.Proofs.Lexemes.Cut

/-!
# What more text does to lexemes

More text behind a text leaves all its lexemes as they are, but for the last one.  That one can grow:
it stays of its kind, and a kind of single characters stays what it is.  A newline makes nothing grow.
The exception is a backslash that ends the text, which escapes what comes after it.

    lexemes text = init ++ [last] → ¬ last.Hangs →
      lexemes (text ++ more) = init ++ last' :: rest with Grows last last'          (lexemes_append)
    the last lexeme of text can end before rest →
      lexemes (text ++ rest) = lexemes text ++ lexemes rest                  (lexemes_append_of_cut)
    lexemes (text ++ '\n' :: rest) = lexemes text ++ lexemes ('\n' :: rest)  (lexemes_append_newline)
-/

namespace Parlance

namespace Lexeme

/-- A lexeme whose last backslash would escape what came after it. -/
def Hangs (lexeme : Lexeme) : Prop :=
  lexeme.kind = .text ∧ lexeme.sequence.getLast? = some '\\'

/-- How a lexeme can change when more text follows. -/
structure Grows (old new : Lexeme) : Prop where
  kind : new.kind = old.kind
  sign : old.kind.sign? ≠ none → new = old
  quotes : old.kind = .stringDelimiter →
    ∃ more, new.sequence = old.sequence ++ more ∧ new.literal = new.sequence ∧ old.literal = old.sequence

variable {lexeme : Lexeme} {rest : List Char}

theorem Grows.refl (h : Cut lexeme rest) : Grows lexeme lexeme := by
  refine ⟨rfl, fun _ => rfl, fun hkind => ?_⟩
  have hliteral : lexeme.literal = lexeme.sequence := by
    cases h with
    | continuation => cases hkind
    | escape => cases hkind
    | sign | run | text | lastText => rfl
  exact ⟨[], (List.append_nil _).symm, hliteral, hliteral⟩

/-! ## Lexemes that something follows -/

theorem Ends.append {p : Char → Bool} (h : Ends p rest) (hne : rest ≠ []) (more : List Char) :
    Ends p (rest ++ more) := by
  cases rest with
  | nil => exact absurd rfl hne
  | cons c rest => exact h

/-- A lexeme that something follows is cut off there whatever comes later. -/
theorem Cut.append (h : Cut lexeme rest) (hne : rest ≠ []) (more : List Char) :
    Cut lexeme (rest ++ more) := by
  cases h with
  | sign hkind => exact .sign hkind _
  | run hkind hrun hrest => exact .run hkind hrun (hrest.append hne more)
  | text hrun hrest hback =>
    refine .text hrun (hrest.append hne more) ?_
    intro hslash
    cases rest with
    | nil => exact hne rfl
    | cons c rest =>
      obtain ⟨rfl, hnil⟩ := List.cons.inj hslash
      obtain ⟨rfl, -⟩ := List.append_eq_nil_iff.1 hnil
      exact hback rfl
  | lastText => exact absurd rfl hne
  | continuation hrun hrest => exact .continuation hrun (hrest.append hne more)
  | escape hc hdecode =>
    refine .escape hc (decode_local hdecode (.inr ?_))
    cases rest with
    | nil => exact absurd rfl hne
    | cons c rest => rfl

/-! ## Newlines -/

theorem digits_newline {radix : UInt32} (hradix : Escape.digit? radix '\n' = none) (limit : Nat)
    (text rest : List Char) :
    Escape.digits radix limit (text ++ '\n' :: rest) = Escape.digits radix limit text := by
  induction limit generalizing text with
  | zero => rfl
  | succ limit ih =>
    cases text with
    | nil => simp only [List.nil_append, Escape.digits, hradix]
    | cons c text => simp only [List.cons_append, Escape.digits, ih]

theorem decode_newline (c : Char) (text rest : List Char) :
    Escape.decode c (text ++ '\n' :: rest) = Escape.decode c text := by
  have hhexadecimal : ∀ limit, Escape.hexadecimal c limit (text ++ '\n' :: rest) =
      Escape.hexadecimal c limit text := by
    intro limit
    rw [Escape.hexadecimal, Escape.hexadecimal, digits_newline (by decide)]
  unfold Escape.decode
  split
  case h_8 => exact hhexadecimal 2
  case h_9 => exact hhexadecimal 4
  case h_10 => exact hhexadecimal 8
  case h_11 => rw [digits_newline (by decide)]
  all_goals rfl

/-- A newline ends every lexeme but a backslash. -/
theorem Cut.newline (h : Cut lexeme []) (hangs : ¬ lexeme.Hangs) (rest : List Char) :
    Cut lexeme ('\n' :: rest) := by
  have hends : ∀ p : Char → Bool, p '\n' = false → Ends p ('\n' :: rest) := by
    intro p hp c hc
    cases hc
    exact hp
  cases h with
  | sign hkind => exact .sign hkind _
  | @run kind p c more _ hkind hrun =>
    refine .run hkind hrun (hends p ?_)
    cases kind <;> cases hkind <;> rfl
  | text hrun => exact .text hrun (hends isOrdinary rfl) (fun hslash => by cases hslash)
  | lastText => exact absurd ⟨rfl, List.getLast?_concat⟩ hangs
  | continuation hrun => exact .continuation hrun (hends isBlank rfl)
  | @escape c meant digits _ hc hdecode =>
    rw [List.append_nil] at hdecode
    exact .escape hc (by rw [decode_newline, hdecode])

/-! ## The last lexeme -/

theorem exists_takeWhile_append {p : Char → Bool} {run : List Char} (hrun : ∀ d ∈ run, p d = true)
    (more : List Char) : ∃ tail, (run ++ more).takeWhile p = run ++ tail :=
  ⟨_, List.takeWhile_append_of_pos hrun⟩

/-- The lexeme that ends a text, when more text follows. -/
theorem grows_first {c : Char} {text : List Char} (h : first c text = (lexeme, []))
    (hangs : ¬ lexeme.Hangs) (more : List Char) : Grows lexeme (first c (text ++ more)).1 := by
  obtain ⟨htext, hcut⟩ := first_iff.1 h
  rw [List.append_nil] at htext
  cases hcut with
  | sign hkind =>
    obtain ⟨rfl, rfl⟩ := List.cons.inj htext
    rw [first_of_sign hkind]
    exact .refl (.sign hkind [])
  | @run kind p d run _ hkind hrun hrest =>
    obtain ⟨rfl, rfl⟩ := List.cons.inj htext
    obtain ⟨hc, hmore⟩ := List.forall_mem_cons.1 hrun
    obtain ⟨tail, htail⟩ := exists_takeWhile_append hmore more
    rw [first_of_run hkind hc, Lexeme.run, htail]
    refine ⟨rfl, fun hsign => ?_, fun _ => ⟨tail, rfl, rfl, rfl⟩⟩
    cases kind <;> first | (cases hkind; done) | exact absurd rfl hsign
  | text hrun =>
    obtain ⟨rfl, rfl⟩ := List.cons.inj htext
    rw [first_of_ordinary (hrun _ List.mem_cons_self), textRun]
    have hkind : ∀ old new, Grows (verbatim .text old) (verbatim .text new) :=
      fun old new => ⟨rfl, fun hsign => absurd rfl hsign, fun hquotes => by cases hquotes⟩
    split <;> exact hkind _ _
  | lastText => exact absurd ⟨rfl, List.getLast?_concat⟩ hangs
  | continuation =>
    obtain ⟨rfl, rfl⟩ := List.cons.inj htext
    exact ⟨rfl, fun hsign => absurd rfl hsign, fun hquotes => by cases hquotes⟩
  | @escape d meant digits _ hd =>
    obtain ⟨rfl, rfl⟩ := List.cons.inj htext
    show Grows _ (afterBackslash (d :: (digits ++ more))).1
    rw [afterBackslash.eq_3 _ _ hd]
    exact ⟨rfl, fun hsign => absurd rfl hsign, fun hquotes => by cases hquotes⟩

end Lexeme

/-! ## Texts -/

/-- A lexeme before others does not change when more text follows. -/
theorem lexemes_cons_append {c : Char} {text rest : List Char} {lexeme : Lexeme}
    (h : Lexeme.first c text = (lexeme, rest)) (hne : rest ≠ []) (more : List Char) :
    lexemes (c :: text ++ more) = lexeme :: lexemes (rest ++ more) := by
  obtain ⟨htext, hcut⟩ := Lexeme.first_iff.1 h
  have hfirst : Lexeme.first c (text ++ more) = (lexeme, rest ++ more) :=
    Lexeme.first_of_cut (hcut.append hne more) (by
      rw [← List.append_assoc, ← htext, List.cons_append])
  rw [List.cons_append, lexemes_cons, hfirst]

/-- A text begins with a lexeme that can be cut off. -/
theorem lexemes_of_cut {lexeme : Lexeme} {rest : List Char} (h : Lexeme.Cut lexeme rest) :
    lexemes (lexeme.sequence ++ rest) = lexeme :: lexemes rest := by
  obtain ⟨c, more, hsequence⟩ := List.exists_cons_of_ne_nil (Lexeme.sequence_ne_nil_of_cut h)
  have hfirst : Lexeme.first c (more ++ rest) = (lexeme, rest) :=
    Lexeme.first_of_cut h (by rw [hsequence, List.cons_append])
  rw [hsequence, List.cons_append, lexemes_cons, hfirst]

/-- Where the last lexeme of a text can end, what follows has lexemes of its own. -/
theorem lexemes_append_of_cut {text rest : List Char}
    (h : ∀ last, (lexemes text).getLast? = some last → Lexeme.Cut last [] → Lexeme.Cut last rest) :
    lexemes (text ++ rest) = lexemes text ++ lexemes rest := by
  induction text using lexemes.induct with
  | case1 =>
    rw [lexemes_nil]
    rfl
  | case2 c text ih =>
    rcases hfirst : Lexeme.first c text with ⟨lexeme, after⟩
    rw [hfirst] at ih
    have hlexemes : lexemes (c :: text) = lexeme :: lexemes after := by
      rw [lexemes_cons, hfirst]
    by_cases hne : after = []
    · subst hne
      obtain ⟨htext, hcut⟩ := Lexeme.first_iff.1 hfirst
      rw [lexemes_nil] at hlexemes
      have hlast := h lexeme (by rw [hlexemes]; rfl) hcut
      have hfirst' : Lexeme.first c (text ++ rest) = (lexeme, rest) :=
        Lexeme.first_of_cut hlast (by
          rw [← List.cons_append, htext, List.append_nil])
      rw [hlexemes, List.cons_append, lexemes_cons, hfirst']
      rfl
    · have hinner : ∀ last, (lexemes after).getLast? = some last → Lexeme.Cut last [] →
          Lexeme.Cut last rest := by
        intro last hlast
        refine h last ?_
        rw [hlexemes, List.getLast?_cons, hlast]
        rfl
      rw [lexemes_cons_append hfirst hne, ih hinner, hlexemes, List.cons_append]

/-- Before a newline stand the lexemes of a text, unless it ends with a backslash. -/
theorem lexemes_append_newline {text : List Char}
    (hangs : ∀ last, (lexemes text).getLast? = some last → ¬ last.Hangs) (rest : List Char) :
    lexemes (text ++ '\n' :: rest) = lexemes text ++ lexemes ('\n' :: rest) :=
  lexemes_append_of_cut fun last hlast hcut => hcut.newline (hangs last hlast) rest

/-- With more text the last lexeme grows and those before it stay. -/
theorem lexemes_append {text : List Char} {init : List Lexeme} {last : Lexeme}
    (h : lexemes text = init ++ [last]) (hangs : ¬ last.Hangs) (more : List Char) :
    ∃ last' rest, lexemes (text ++ more) = init ++ last' :: rest ∧ last.Grows last' := by
  induction text using lexemes.induct generalizing init with
  | case1 =>
    rw [lexemes_nil] at h
    exact absurd h (by simp)
  | case2 c text ih =>
    rcases hfirst : Lexeme.first c text with ⟨lexeme, after⟩
    rw [hfirst] at ih
    rw [lexemes_cons, hfirst] at h
    by_cases hne : after = []
    · subst hne
      rw [lexemes_nil] at h
      cases init with
      | nil =>
        obtain ⟨rfl, -⟩ := List.cons.inj h
        exact ⟨_, _, lexemes_cons c (text ++ more), Lexeme.grows_first hfirst hangs more⟩
      | cons first init =>
        have hnil := (List.cons.inj h).2
        exact absurd hnil (by simp)
    · cases init with
      | nil =>
        have hnil : lexemes after = [] := (List.cons.inj h).2
        have hcovered := covered_lexemes after
        rw [hnil] at hcovered
        exact absurd hcovered.symm hne
      | cons first init =>
        obtain ⟨rfl, hrest⟩ := List.cons.inj h
        obtain ⟨last', rest, hlexemes, hgrows⟩ := ih hrest
        exact ⟨last', rest, by rw [lexemes_cons_append hfirst hne, hlexemes]; rfl, hgrows⟩

/-! ## Texts that end with a backslash -/

/-- Whether the last backslash of the token would escape what came after it. -/
def Token.hangs (token : Token) : Bool :=
  token.kind = .text ∧ token.sequence.toList.getLast? = some '\\'

/-- Whether a text ends with a backslash that escapes nothing. -/
def endsOpen (source : String) : Bool := (tokenize source).getLast?.any Token.hangs

theorem not_hangs_of_endsOpen {source : String} (h : endsOpen source = false) {last : Lexeme}
    (hlast : (lexemes source.toList).getLast? = some last) : ¬ last.Hangs := by
  rintro ⟨hkind, hback⟩
  have hunplaced := congrArg List.getLast? (unplaced_tokenize source)
  rw [List.getLast?_map, List.getLast?_map, hlast] at hunplaced
  obtain ⟨token, htoken, heq⟩ := Option.map_eq_some_iff.1 hunplaced
  have hhangs : token.hangs = true := by
    have hsame : token.unplaced.hangs = token.hangs := rfl
    rw [← hsame, heq]
    unfold Token.hangs Lexeme.toToken
    rw [decide_eq_true_iff]
    exact ⟨hkind, by rw [String.toList_ofList]; exact hback⟩
  rw [endsOpen, htoken, Option.any_some, hhangs] at h
  cases h

end Parlance
