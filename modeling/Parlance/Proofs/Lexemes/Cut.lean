import Parlance.Proofs.Lexemes

/-!
# Where a lexeme is cut off

The scanner decides on a lexeme by looking at what it finds.  `Lexeme.Cut` says the same from the
outside: what a lexeme of each kind is made of, and what it can stand before.  Every run is as long as
it can be, an escape owns all the digits it may own, and a backslash is text only at the end of the
input.

    first c text = (lexeme, rest) ↔ c :: text = lexeme.sequence ++ rest ∧ Cut lexeme rest    (first_iff)
    Cut lexeme rest → rest starts with `next` → kinds that would merge are not neighbours (apart_of_cut)
-/

namespace Parlance

namespace Token.Kind

/-- The one character of a kind whose tokens are single characters. -/
def sign? : Kind → Option Char
  | .newline => some '\n'
  | .openTuple => some '('
  | .closeTuple => some ')'
  | .openBlock => some '\x7b'
  | .closeBlock => some '\x7d'
  | .openExpression => some '['
  | .closeExpression => some ']'
  | .dollar => some '$'
  | .asterisk => some '*'
  | .semicolon => some ';'
  | _ => none

/-- What the characters of a run are, for the kinds whose tokens are runs. -/
def run? : Kind → Option (Char → Bool)
  | .whitespace => some isBlank
  | .comment => some (· == '#')
  | .stringDelimiter => some (· == '"')
  | _ => none

/-- Whether two tokens of the kind that meet are one token. -/
def merges : Kind → Bool
  | .text | .whitespace | .comment | .stringDelimiter => true
  | _ => false

/-- Whether a token of the second kind can stand right after one of the first. -/
def Apart (first second : Kind) : Prop :=
  (first = second → first.merges = false) ∧ ¬ (first = .continuation ∧ second = .whitespace)

theorem merges_of_sign {kind : Kind} {c : Char} (h : kind.sign? = some c) : kind.merges = false := by
  cases kind <;> first | rfl | cases h

end Token.Kind

namespace Lexeme

/-- What a text starts with, if it does not go on with characters that satisfy `p`. -/
def Ends (p : Char → Bool) (rest : List Char) : Prop := ∀ c, rest.head? = some c → p c = false

/-- The lexemes there are, each before what it can stand before. -/
inductive Cut : Lexeme → List Char → Prop
  | sign {kind : Token.Kind} {c : Char} (hkind : kind.sign? = some c) (rest : List Char) :
    Cut (verbatim kind [c]) rest
  | run {kind : Token.Kind} {p : Char → Bool} {c : Char} {more rest : List Char}
    (hkind : kind.run? = some p) (hrun : ∀ d ∈ c :: more, p d = true) (hrest : Ends p rest) :
    Cut (verbatim kind (c :: more)) rest
  | text {c : Char} {more rest : List Char} (hrun : ∀ d ∈ c :: more, isOrdinary d = true)
    (hrest : Ends isOrdinary rest) (hback : rest ≠ ['\\']) :
    Cut (verbatim .text (c :: more)) rest
  /-- A backslash that ends the input, behind the text before it. -/
  | lastText {run : List Char} (hrun : ∀ d ∈ run, isOrdinary d = true) :
    Cut (verbatim .text (run ++ ['\\'])) []
  | continuation {blanks rest : List Char} (hrun : ∀ d ∈ blanks, isBlank d = true)
    (hrest : Ends isBlank rest) : Cut ⟨.continuation, '\\' :: '\n' :: blanks, [' ']⟩ rest
  | escape {c meant : Char} {digits rest : List Char} (hc : c ≠ '\n')
    (hdecode : Escape.decode c (digits ++ rest) = (meant, digits.length)) :
    Cut ⟨.escape, '\\' :: c :: digits, [meant]⟩ rest

/-! ## What the scanner cuts off -/

theorem ends_of_dropWhile (p : Char → Bool) (text : List Char) : Ends p (text.dropWhile p) :=
  ends_dropWhile rfl

/-- A run that cannot go on in `rest` ends within `text`. -/
theorem span_append {p : Char → Bool} {rest : List Char} (hrest : Ends p rest) (text : List Char) :
    (text ++ rest).takeWhile p = text.takeWhile p ∧
      (text ++ rest).dropWhile p = text.dropWhile p ++ rest := by
  induction text with
  | nil =>
    cases rest with
    | nil => exact ⟨rfl, rfl⟩
    | cons c more =>
      have hc := hrest c rfl
      exact ⟨List.takeWhile_cons_of_neg (by rw [hc]; decide),
        List.dropWhile_cons_of_neg (by rw [hc]; decide)⟩
  | cons c text ih =>
    by_cases hc : p c = true
    · rw [List.cons_append, List.takeWhile_cons_of_pos hc, List.dropWhile_cons_of_pos hc,
        List.takeWhile_cons_of_pos hc, List.dropWhile_cons_of_pos hc, ih.1, ih.2]
      exact ⟨rfl, rfl⟩
    · rw [List.cons_append, List.takeWhile_cons_of_neg hc, List.dropWhile_cons_of_neg hc,
        List.takeWhile_cons_of_neg hc, List.dropWhile_cons_of_neg hc]
      exact ⟨rfl, rfl⟩

/-- A run is all of the text before the place where it cannot go on. -/
theorem span_run {p : Char → Bool} {run rest : List Char} (hrun : ∀ d ∈ run, p d = true)
    (hrest : Ends p rest) : (run ++ rest).takeWhile p = run ∧ (run ++ rest).dropWhile p = rest := by
  obtain ⟨htake, hdrop⟩ := span_append hrest []
  rw [List.takeWhile_append_of_pos hrun, List.dropWhile_append_of_pos hrun]
  simp only [List.nil_append, List.takeWhile_nil, List.dropWhile_nil] at htake hdrop
  rw [htake, hdrop, List.append_nil]
  exact ⟨rfl, rfl⟩

theorem isBlank_of_isOrdinary {c : Char} (h : isOrdinary c = true) : isBlank c = false := by
  unfold isOrdinary at h
  simp only [Bool.not_eq_true', Bool.or_eq_false_iff] at h
  exact h.1

/-- An ordinary character begins a run of text. -/
theorem first_of_ordinary {c : Char} (h : isOrdinary c = true) (rest : List Char) :
    first c rest = textRun c rest := by
  unfold first
  split
  case h_14 => simp only [isBlank_of_isOrdinary h, Bool.false_eq_true, if_false]
  all_goals exact absurd h (by decide)

/-- A blank begins a run of blanks. -/
theorem first_of_blank {c : Char} (h : isBlank c = true) (rest : List Char) :
    first c rest = run .whitespace isBlank c rest := by
  unfold first
  split
  case h_14 => simp only [h, if_true]
  all_goals exact absurd h (by decide)

theorem length_digits_le (radix : UInt32) (limit : Nat) (text : List Char) :
    (Escape.digits radix limit text).length ≤ text.length := by
  induction limit generalizing text with
  | zero => simp [Escape.digits]
  | succ limit ih =>
    cases text with
    | nil => simp [Escape.digits]
    | cons c text =>
      unfold Escape.digits
      split
      · simp
      · simpa using ih text

theorem decode_snd_le (c : Char) (following : List Char) :
    (Escape.decode c following).2 ≤ following.length := by
  have hhexadecimal : ∀ limit, (Escape.hexadecimal c limit following).2 ≤ following.length := by
    intro limit
    have hdigits := length_digits_le 16 limit following
    unfold Escape.hexadecimal
    split
    · exact Nat.zero_le _
    · exact hdigits
  unfold Escape.decode
  split
  case h_8 => exact hhexadecimal 2
  case h_9 => exact hhexadecimal 4
  case h_10 => exact hhexadecimal 8
  case h_11 =>
    split
    · exact Nat.zero_le _
    · exact length_digits_le 8 2 following
  all_goals exact Nat.zero_le _

theorem cut_run {kind : Token.Kind} {p : Char → Bool} {c : Char} (hkind : kind.run? = some p)
    (hc : p c = true) (rest : List Char) :
    Cut (run kind p c rest).1 (run kind p c rest).2 := by
  refine .run hkind (fun d hd => ?_) (ends_of_dropWhile p rest)
  rcases List.mem_cons.1 hd with rfl | hd
  · exact hc
  · exact List.all_eq_true.1 List.all_takeWhile d hd

theorem cut_textRun {c : Char} (hc : isOrdinary c = true) (rest : List Char) :
    Cut (textRun c rest).1 (textRun c rest).2 := by
  have hrun : ∀ d ∈ c :: rest.takeWhile isOrdinary, isOrdinary d = true := by
    intro d hd
    rcases List.mem_cons.1 hd with rfl | hd
    · exact hc
    · exact List.all_eq_true.1 List.all_takeWhile d hd
  unfold textRun
  split
  · rename_i hback
    have hsplit : c :: rest = c :: rest.takeWhile isOrdinary ++ ['\\'] := by
      have happend := List.takeWhile_append_dropWhile (p := isOrdinary) (l := rest)
      rw [hback] at happend
      rw [List.cons_append, happend]
    show Cut (verbatim .text (c :: rest)) []
    rw [hsplit]
    exact .lastText hrun
  · rename_i hback
    exact .text hrun (ends_of_dropWhile isOrdinary rest) hback

theorem cut_afterBackslash (rest : List Char) :
    Cut (afterBackslash rest).1 (afterBackslash rest).2 := by
  unfold afterBackslash
  split
  · have hcut : Cut (verbatim .text ([] ++ ['\\'])) [] := .lastText (by simp)
    exact hcut
  · rename_i rest
    exact .continuation (fun d hd => List.all_eq_true.1 List.all_takeWhile d hd)
      (ends_of_dropWhile isBlank rest)
  · rename_i c rest hc
    rcases hdecode : Escape.decode c rest with ⟨meant, count⟩
    have hle := decode_snd_le c rest
    rw [hdecode] at hle
    refine .escape hc ?_
    rw [List.take_append_drop, hdecode, List.length_take, Nat.min_eq_left hle]

theorem cut_first (c : Char) (rest : List Char) : Cut (first c rest).1 (first c rest).2 := by
  unfold first
  split
  case h_2 => exact cut_afterBackslash rest
  case h_3 => exact cut_run rfl rfl rest
  case h_4 => exact cut_run rfl rfl rest
  case h_14 =>
    by_cases hblank : isBlank c = true
    · simp only [hblank, if_true]
      exact cut_run rfl hblank rest
    · simp only [hblank]
      refine cut_textRun ?_ rest
      simp only [isOrdinary, List.mem_cons, List.not_mem_nil, or_false]
      simp_all
  all_goals exact .sign rfl rest

/-! ## What is cut off is what the scanner finds -/

theorem first_of_sign {kind : Token.Kind} {c : Char} (h : kind.sign? = some c) (rest : List Char) :
    first c rest = (verbatim kind [c], rest) := by
  cases kind <;> cases h <;> rfl

theorem first_of_run {kind : Token.Kind} {p : Char → Bool} {c : Char} (h : kind.run? = some p)
    (hc : p c = true) (rest : List Char) : first c rest = run kind p c rest := by
  cases kind <;> cases h
  · exact first_of_blank hc rest
  · rw [beq_iff_eq.1 hc]
    rfl
  · rw [beq_iff_eq.1 hc]
    rfl

/-- What can be cut off is what the scanner finds. -/
theorem first_of_cut {lexeme : Lexeme} {c : Char} {text rest : List Char} (h : Cut lexeme rest)
    (htext : c :: text = lexeme.sequence ++ rest) : first c text = (lexeme, rest) := by
  cases h with
  | sign hkind =>
    obtain ⟨rfl, rfl⟩ := List.cons.inj htext
    exact first_of_sign hkind text
  | run hkind hrun hrest =>
    obtain ⟨rfl, rfl⟩ := List.cons.inj htext
    obtain ⟨hc, hmore⟩ := List.forall_mem_cons.1 hrun
    obtain ⟨htake, hdrop⟩ := span_run hmore hrest
    rw [first_of_run hkind hc, Lexeme.run, List.append_eq, htake, hdrop]
  | text hrun hrest hback =>
    obtain ⟨rfl, rfl⟩ := List.cons.inj htext
    obtain ⟨hc, hmore⟩ := List.forall_mem_cons.1 hrun
    obtain ⟨htake, hdrop⟩ := span_run hmore hrest
    rw [first_of_ordinary hc, textRun, List.append_eq, htake, hdrop]
    split
    · exact absurd rfl hback
    · rfl
  | @lastText run hrun =>
    rw [List.append_nil] at htext
    cases run with
    | nil =>
      obtain ⟨rfl, rfl⟩ := List.cons.inj htext
      rfl
    | cons d more =>
      obtain ⟨rfl, rfl⟩ := List.cons.inj htext
      obtain ⟨hc, hmore⟩ := List.forall_mem_cons.1 hrun
      have hback : Ends isOrdinary ['\\'] := by
        intro d hd
        cases hd
        decide
      obtain ⟨-, hdrop⟩ := span_run hmore hback
      rw [first_of_ordinary hc, textRun, List.append_eq, hdrop]
      rfl
  | continuation hrun hrest =>
    obtain ⟨rfl, rfl⟩ := List.cons.inj htext
    obtain ⟨htake, hdrop⟩ := span_run hrun hrest
    show afterBackslash ('\n' :: (_ ++ rest)) = _
    rw [afterBackslash, htake, hdrop]
  | @escape d meant digits _ hd hdecode =>
    obtain ⟨rfl, rfl⟩ := List.cons.inj htext
    show afterBackslash (d :: (digits ++ rest)) = _
    rw [afterBackslash.eq_3 _ _ hd, hdecode]
    simp only [List.take_left', List.drop_left']

theorem first_iff {lexeme : Lexeme} {c : Char} {text rest : List Char} :
    first c text = (lexeme, rest) ↔ c :: text = lexeme.sequence ++ rest ∧ Cut lexeme rest := by
  constructor
  · intro h
    have hcover := sequence_append_first c text
    have hcut := cut_first c text
    rw [h] at hcover hcut
    exact ⟨hcover.symm, hcut⟩
  · rintro ⟨htext, hcut⟩
    exact first_of_cut hcut htext

/-- As many characters of a run as there are, before something else. -/
theorem cut_replicate {kind : Token.Kind} {p : Char → Bool} {c : Char} {n : Nat} {rest : List Char}
    (hkind : kind.run? = some p) (hc : p c = true) (hn : 0 < n) (hrest : Ends p rest) :
    Cut (verbatim kind (List.replicate n c)) rest := by
  obtain ⟨m, rfl⟩ := Nat.exists_eq_succ_of_ne_zero (Nat.ne_of_gt hn)
  refine .run hkind (fun d hd => ?_) hrest
  have hreplicate : d ∈ List.replicate (m + 1) c := hd
  rw [List.eq_of_mem_replicate hreplicate]
  exact hc

/-- What escapes nothing and ends the input can stand before a character that is of no run, or of
another one. -/
theorem Cut.cons {lexeme : Lexeme} (h : Cut lexeme []) (hslash : '\\' ∉ lexeme.sequence) {c : Char}
    (hordinary : isOrdinary c = false) (hback : c ≠ '\\')
    (hrun : ∀ p, lexeme.kind.run? = some p → p c = false) (rest : List Char) : Cut lexeme (c :: rest) := by
  have hends : ∀ {p : Char → Bool}, p c = false → Ends p (c :: rest) := by
    intro p hp d hd
    cases hd
    exact hp
  cases h with
  | sign hkind => exact .sign hkind _
  | run hkind hall => exact .run hkind hall (hends (hrun _ hkind))
  | text hall => exact .text hall (hends hordinary) fun h => hback (List.cons.inj h).1
  | lastText => exact absurd (List.mem_append_right _ List.mem_cons_self) hslash
  | continuation => exact absurd List.mem_cons_self hslash
  | escape => exact absurd List.mem_cons_self hslash

theorem sequence_ne_nil_of_cut {lexeme : Lexeme} {rest : List Char} (h : Cut lexeme rest) :
    lexeme.sequence ≠ [] := by
  cases h <;> simp [verbatim]

/-! ## Neighbours -/

/-- What text starts with. -/
theorem head_of_text {lexeme : Lexeme} {rest : List Char} (h : Cut lexeme rest)
    (hkind : lexeme.kind = .text) :
    lexeme.sequence ++ rest = ['\\'] ∨
      ∃ c, (lexeme.sequence ++ rest).head? = some c ∧ isOrdinary c = true := by
  cases h with
  | sign h => cases hkind; cases h
  | run h => cases hkind; cases h
  | text hrun => exact .inr ⟨_, rfl, hrun _ List.mem_cons_self⟩
  | @lastText run hrun =>
    cases run with
    | nil => exact .inl rfl
    | cons c more => exact .inr ⟨c, rfl, hrun c List.mem_cons_self⟩
  | continuation => cases hkind
  | escape => cases hkind

/-- What a run starts with. -/
theorem head_of_run {lexeme : Lexeme} {rest : List Char} {p : Char → Bool} (h : Cut lexeme rest)
    (hkind : lexeme.kind.run? = some p) :
    ∃ c, (lexeme.sequence ++ rest).head? = some c ∧ p c = true := by
  cases h with
  | @sign kind c h => cases kind <;> first | (cases h; done) | cases hkind
  | run h hrun =>
    obtain rfl := Option.some.inj (h.symm.trans hkind)
    exact ⟨_, rfl, hrun _ List.mem_cons_self⟩
  | text => cases hkind
  | lastText => cases hkind
  | continuation => cases hkind
  | escape => cases hkind

/-- Lexemes that stand next to each other are of kinds that do not merge. -/
theorem apart_of_cut {first second : Lexeme} {rest after : List Char} (h : Cut first rest)
    (hsecond : Cut second after) (hrest : rest = second.sequence ++ after) :
    first.kind.Apart second.kind := by
  have hends : ∀ p, second.kind.run? = some p → ¬ Ends p rest := by
    intro p hp hends
    obtain ⟨c, hhead, hc⟩ := head_of_run hsecond hp
    rw [← hrest] at hhead
    rw [hends c hhead] at hc
    cases hc
  cases h with
  | @sign kind c hkind =>
    constructor
    · intro _
      exact Token.Kind.merges_of_sign hkind
    · rintro ⟨rfl, -⟩
      cases hkind
  | @run kind p c more _ hkind hrun hstop =>
    constructor
    · intro hsame
      exact absurd hstop (hends p (hsame ▸ hkind))
    · rintro ⟨rfl, -⟩
      cases hkind
  | text hrun hstop hback =>
    constructor
    · intro hsame
      rcases head_of_text hsecond hsame.symm with hslash | ⟨c, hhead, hc⟩
      · exact absurd (hrest.trans hslash) hback
      · rw [← hrest] at hhead
        rw [hstop c hhead] at hc
        cases hc
    · rintro ⟨hkind, -⟩
      cases hkind
  | lastText hrun =>
    exact absurd (List.append_eq_nil_iff.1 hrest.symm).1 (sequence_ne_nil_of_cut hsecond)
  | continuation hrun hstop =>
    constructor
    · intro _
      rfl
    · rintro ⟨-, hblank⟩
      have hblank : second.kind = .whitespace := hblank
      exact hends isBlank (by rw [hblank]; rfl) hstop
  | escape hc hdecode =>
    constructor
    · intro _
      rfl
    · rintro ⟨hkind, -⟩
      cases hkind

end Lexeme

end Parlance
