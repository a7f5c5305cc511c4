import Mathlib.Data.Nat.Digits.Lemmas
import Parlance.Token.Scanner

/-!
# What escapes stand for

An escape takes the longest run of digits that can belong to it, and stands for the character whose
code they write.  The code is a number of 32 bits that takes one digit after the other; an escape has
too few digits to fill it, and an octal one too few to write a code that no character has.

    digits radix limit text = values run, run the longest at its start               (digits_eq_values)
    few digits → (number radix (values run)).toNat is what they write                    (toNat_number)
    decode c text = (meaning c run, run.length), run the longest that is allowed         (decode_exact)
-/

namespace Parlance.Escape

/-! ## Digits and codes -/

/-- The value of a digit: its place among the sixteen digits, in either case.  It is 16 for a character
that is no digit. -/
def digitValue (c : Char) : Nat := "0123456789abcdef".toList.idxOf c.toLower

/-- The number that digits write, the first digit the highest. -/
def written (radix : Nat) (run : List Char) : Nat := Nat.ofDigits radix (run.map digitValue).reverse

/-- The character with a code, U+FFFD when no character has it. -/
def ofCode (code : Nat) : Char := if code.isValidChar then Char.ofNat code else '\ufffd'

/-- The longest run of at most `limit` digits at the start of a text. -/
structure LongestRun (radix limit : Nat) (text run : List Char) : Prop where
  starts : run <+: text
  digits : ∀ c ∈ run, digitValue c < radix
  length_le : run.length ≤ limit
  longest : ∀ other, other <+: text → (∀ c ∈ other, digitValue c < radix) → other.length ≤ limit →
    other.length ≤ run.length

/-- The radix of the digits that can follow `c` in an escape, and how many there can be. -/
def allowance (c : Char) : Nat × Nat :=
  if digitValue c < 8 then (8, 2)
  else if c = 'x' then (16, 2)
  else if c = 'u' then (16, 4)
  else if c = 'U' then (16, 8)
  else (16, 0)

/-- The control characters, each with the letter that stands for it. -/
def controls : List (Char × Char) :=
  [('a', '\x07'), ('b', '\x08'), ('f', '\x0c'), ('n', '\n'), ('r', '\r'), ('t', '\t'), ('v', '\x0b')]

/-- What a backslash, `c` and a run of digits stand for. -/
def meaning (c : Char) (run : List Char) : Char :=
  if digitValue c < 8 then ofCode (written 8 (c :: run))
  else if c ∈ ['x', 'u', 'U'] then if run = [] then c else ofCode (written 16 run)
  else (controls.lookup c).getD c

/-! ## Digits -/

theorem digit?_ascii : ∀ n, n < 128 → digit? 16 (Char.ofNat n) =
    if digitValue (Char.ofNat n) < 16 then some (UInt32.ofNat (digitValue (Char.ofNat n)))
    else none := by
  decide +kernel

theorem digitValue_of_le {c : Char} (h : 128 ≤ c.toNat) : digitValue c = 16 := by
  have hlower : c.toLower = c := by
    unfold Char.toLower
    rw [dif_neg]
    rintro ⟨-, hle⟩
    have hcode : c.toNat ≤ 90 := hle
    omega
  have hascii : ∀ digit ∈ "0123456789abcdef".toList, digit.toNat < 128 := by simp
  have hdigit : c ∉ "0123456789abcdef".toList := fun hc => absurd (hascii c hc) (by omega)
  rw [digitValue, hlower]
  exact List.idxOf_eq_length hdigit

theorem digit?_sixteen (c : Char) :
    digit? 16 c = if digitValue c < 16 then some (UInt32.ofNat (digitValue c)) else none := by
  by_cases h : c.toNat < 128
  · have hascii := digit?_ascii c.toNat h
    rwa [Char.ofNat_toNat] at hascii
  · have hrange : ∀ low high : Char, high.toNat < 128 → ¬ (low ≤ c ∧ c ≤ high) := by
      rintro low high hhigh ⟨-, hle⟩
      have hcode : c.toNat ≤ high.toNat := hle
      omega
    rw [digitValue_of_le (Nat.le_of_not_lt h), if_neg (Nat.lt_irrefl 16)]
    unfold digit?
    rw [if_neg (hrange '0' '9' (by decide)), if_neg (hrange 'a' 'f' (by decide)),
      if_neg (hrange 'A' 'F' (by decide))]
    rfl

theorem digit?_eq_filter {radix : UInt32} (hradix : radix.toNat ≤ 16) (c : Char) :
    digit? radix c = (digit? 16 c).filter (· < radix) := by
  have hvalue : ∀ value : UInt32, (if value < radix then some value else none) =
      (if value < 16 then some value else none).filter (· < radix) := by
    intro value
    by_cases hlt : value < radix
    · have hsixteen : value < 16 := UInt32.lt_iff_toNat_lt.2 (lt_of_lt_of_le hlt hradix)
      rw [if_pos hlt, if_pos hsixteen, Option.filter_some, if_pos (decide_eq_true hlt)]
    · rw [if_neg hlt]
      split
      · rw [Option.filter_some, if_neg (by simpa using hlt)]
      · rfl
  exact hvalue _

theorem toNat_ofNat_digitValue (c : Char) : (UInt32.ofNat (digitValue c)).toNat = digitValue c :=
  UInt32.toNat_ofNat_of_lt (lt_of_le_of_lt List.idxOf_le_length (by decide))

/-- A digit has its value in every radix that has the digit. -/
theorem digit?_eq_ite {radix : UInt32} (hradix : radix.toNat ≤ 16) (c : Char) :
    digit? radix c =
      if digitValue c < radix.toNat then some (UInt32.ofNat (digitValue c)) else none := by
  rw [digit?_eq_filter hradix, digit?_sixteen]
  by_cases h : digitValue c < 16
  · have hlt : UInt32.ofNat (digitValue c) < radix ↔ digitValue c < radix.toNat := by
      rw [UInt32.lt_iff_toNat_lt, toNat_ofNat_digitValue]
    simp only [if_pos h, Option.filter_some, decide_eq_true_eq, hlt]
  · rw [if_neg h, if_neg (by omega)]
    rfl

/-! ## Runs of digits -/

namespace LongestRun

variable {radix limit : Nat} {c : Char} {text run : List Char}

/-- No run is longer than an empty one where none is allowed, or no digit stands first. -/
theorem nil (h : limit = 0 ∨ ∀ first ∈ text.head?, radix ≤ digitValue first) :
    LongestRun radix limit text [] := by
  refine ⟨List.nil_prefix, by rintro _ ⟨⟩, Nat.zero_le _, fun other hother hdigits hlength => ?_⟩
  rcases h with rfl | hfirst
  · exact hlength
  · cases other with
    | nil => exact Nat.le_refl 0
    | cons first other =>
      obtain ⟨rest, rfl⟩ := hother
      have hdigit := hdigits first List.mem_cons_self
      exact absurd (hfirst first rfl) (Nat.not_le_of_lt hdigit)

/-- A digit in front makes the longest run longer. -/
theorem cons (h : LongestRun radix limit text run) (hc : digitValue c < radix) :
    LongestRun radix (limit + 1) (c :: text) (c :: run) := by
  refine ⟨List.cons_prefix_cons.2 ⟨rfl, h.starts⟩, List.forall_mem_cons.2 ⟨hc, h.digits⟩,
    Nat.succ_le_succ h.length_le, fun other hother hdigits hlength => ?_⟩
  cases other with
  | nil => exact Nat.zero_le _
  | cons first other =>
    have hrest := (List.cons_prefix_cons.1 hother).2
    exact Nat.succ_le_succ (h.longest other hrest (List.forall_mem_cons.1 hdigits).2
      (Nat.le_of_succ_le_succ hlength))

end LongestRun

/-- The values of the digits of a run. -/
def values (run : List Char) : List UInt32 := run.map fun c => UInt32.ofNat (digitValue c)

/-- The digits at the start of a text are those of its longest run. -/
theorem digits_eq_values {radix : UInt32} (hradix : radix.toNat ≤ 16) (limit : Nat)
    (text : List Char) :
    ∃ run, LongestRun radix.toNat limit text run ∧ digits radix limit text = values run := by
  induction limit generalizing text with
  | zero => exact ⟨[], .nil (.inl rfl), by cases text <;> rfl⟩
  | succ limit ih =>
    cases text with
    | nil => exact ⟨[], .nil (.inr (by rintro _ ⟨⟩)), rfl⟩
    | cons c text =>
      rw [digits, digit?_eq_ite hradix]
      by_cases hc : digitValue c < radix.toNat
      · obtain ⟨run, hrun, hdigits⟩ := ih text
        refine ⟨c :: run, hrun.cons hc, ?_⟩
        rw [if_pos hc]
        simp only [hdigits, values, List.map_cons]
      · refine ⟨[], .nil (.inr ?_), by rw [if_neg hc]; rfl⟩
        rintro _ ⟨⟩
        exact Nat.le_of_not_lt hc

/-! ## Numbers -/

theorem written_concat (radix : Nat) (run : List Char) (c : Char) :
    written radix (run ++ [c]) = written radix run * radix + digitValue c := by
  unfold written
  rw [List.map_append, List.map_singleton, List.reverse_append, List.reverse_singleton,
    List.singleton_append, Nat.ofDigits_cons, Nat.mul_comm, Nat.add_comm]

theorem written_cons (radix : Nat) (c : Char) (run : List Char) :
    written radix (c :: run) = digitValue c * radix ^ run.length + written radix run := by
  unfold written
  rw [List.map_cons, List.reverse_cons, Nat.ofDigits_append, Nat.ofDigits_singleton,
    List.length_reverse, List.length_map, Nat.mul_comm, Nat.add_comm]

theorem written_lt {radix : Nat} {run : List Char} (hradix : 1 < radix)
    (h : ∀ c ∈ run, digitValue c < radix) : written radix run < radix ^ run.length := by
  have hdigits : ∀ value ∈ (run.map digitValue).reverse, value < radix := by
    intro value hvalue
    obtain ⟨c, hc, rfl⟩ := List.mem_map.1 (List.mem_reverse.1 hvalue)
    exact h c hc
  have hlt := Nat.ofDigits_lt_base_pow_length hradix hdigits
  rwa [List.length_reverse, List.length_map] at hlt

/-- Digits of a radix that are few enough for 32 bits. -/
structure Few (radix : UInt32) (run : List Char) : Prop where
  one_lt : 1 < radix.toNat
  digits : ∀ c ∈ run, digitValue c < radix.toNat
  size : radix.toNat ^ run.length ≤ UInt32.size

/-- Whether a number takes the digits of a run, one after the other, without leaving 32 bits. -/
def Fits (radix : UInt32) (run : List Char) : Prop :=
  ∀ before c after, run = before ++ c :: after →
    (number radix (values before)).toNat * radix.toNat + digitValue c < UInt32.size

section Number

variable {radix : UInt32} {shorter run : List Char}

theorem Few.of_sublist (h : Few radix run) (hshorter : shorter.Sublist run) : Few radix shorter where
  one_lt := h.one_lt
  digits c hc := h.digits c (hshorter.subset hc)
  size := (Nat.pow_le_pow_right (Nat.zero_lt_of_lt h.one_lt) hshorter.length_le).trans h.size

theorem Few.written_lt (h : Few radix run) : written radix.toNat run < UInt32.size :=
  lt_of_lt_of_le (Escape.written_lt h.one_lt h.digits) h.size

theorem number_concat (radix : UInt32) (run : List Char) (c : Char) :
    number radix (values (run ++ [c])) =
      number radix (values run) * radix + UInt32.ofNat (digitValue c) := by
  unfold number values
  rw [List.map_append, List.map_singleton, List.foldl_append]
  rfl

/-- The number of few digits is what they write. -/
theorem toNat_number (h : Few radix run) :
    (number radix (values run)).toNat = written radix.toNat run := by
  induction run using List.reverseRecOn with
  | nil => rfl
  | append_singleton run c ih =>
    have hrun := ih (h.of_sublist (List.sublist_append_left run [c]))
    have hlt := h.written_lt
    rw [written_concat, ← hrun] at hlt ⊢
    rw [number_concat, UInt32.toNat_add, UInt32.toNat_mul, toNat_ofNat_digitValue, Nat.mod_add_mod]
    exact Nat.mod_eq_of_lt hlt

/-- Few digits never leave 32 bits on their way to a number. -/
theorem Few.fits (h : Few radix run) : Fits radix run := by
  rintro before c after rfl
  have hnext : (before ++ [c]).Sublist (before ++ c :: after) := by simp
  have hbefore := (List.sublist_append_left before [c]).trans hnext
  rw [toNat_number (h.of_sublist hbefore), ← written_concat]
  exact (h.of_sublist hnext).written_lt

end Number

theorem character_eq_ofCode (code : UInt32) : character code = ofCode code.toNat := by
  unfold character ofCode
  by_cases hvalid : code.toNat.isValidChar
  · rw [dif_pos hvalid, if_pos hvalid, Char.ofNat, dif_pos hvalid]
    rfl
  · rw [dif_neg hvalid, if_neg hvalid]

theorem character_number {radix : UInt32} {run : List Char} (h : Few radix run) :
    character (number radix (values run)) = ofCode (written radix.toNat run) := by
  rw [character_eq_ofCode, toNat_number h]

/-- A code of three octal digits has a character, and that is not U+FFFD. -/
theorem ofCode_ne_replacement {code : Nat} (h : code < 512) : ofCode code ≠ '\ufffd' := by
  have hvalid : code.isValidChar := .inl (h.trans (by decide))
  intro heq
  rw [ofCode, if_pos hvalid, Char.ofNat, dif_pos hvalid] at heq
  have hcode : code = '\ufffd'.toNat := congrArg Char.toNat heq
  rw [hcode] at h
  exact absurd h (by decide)

/-! ## Escapes -/

section Escape

variable {c meant : Char} {limit : Nat} {following run : List Char}

theorem few_of_longestRun (hlimit : limit ≤ 8) (hrun : LongestRun 16 limit following run) :
    Few 16 run :=
  ⟨by decide, hrun.digits, Nat.pow_le_pow_right (by decide) (hrun.length_le.trans hlimit)⟩

/-- An octal digit and the digits after it write a code below 512. -/
theorem few_of_octal (hoctal : digitValue c < 8) (hrun : LongestRun 8 2 following run) :
    Few 8 (c :: run) ∧ written 8 (c :: run) < 512 := by
  have hdigits : ∀ digit ∈ c :: run, digitValue digit < 8 :=
    List.forall_mem_cons.2 ⟨hoctal, hrun.digits⟩
  have hsize : 8 ^ (c :: run).length ≤ 512 :=
    Nat.pow_le_pow_right (by decide) (Nat.succ_le_succ hrun.length_le)
  exact ⟨⟨by decide, hdigits, hsize.trans (by decide)⟩,
    lt_of_lt_of_le (written_lt (by decide) hdigits) hsize⟩

theorem allowance_of_octal (hoctal : digitValue c < 8) : allowance c = (8, 2) := if_pos hoctal

theorem allowance_of_not_octal (hoctal : ¬ digitValue c < 8) :
    (allowance c).1 = 16 ∧ (allowance c).2 ≤ 8 := by
  rw [allowance, if_neg hoctal]
  split_ifs <;> decide

theorem decode_of_octal (hoctal : digitValue c < 8) (following : List Char) :
    decode c following =
      (character (number 8 (UInt32.ofNat (digitValue c) :: digits 8 2 following)),
        (digits 8 2 following).length) := by
  have hdigit : digit? 8 c = some (UInt32.ofNat (digitValue c)) := by
    rw [digit?_eq_ite (by decide)]
    exact if_pos hoctal
  unfold decode
  split
  case h_11 => rw [hdigit]
  all_goals exact absurd hoctal (by decide +kernel)

theorem decode_of_letter (hletter : c ∈ ['x', 'u', 'U']) (following : List Char) :
    decode c following = hexadecimal c (allowance c).2 following := by
  simp only [List.mem_cons, List.not_mem_nil, or_false] at hletter
  rcases hletter with rfl | rfl | rfl <;> rfl

theorem decode_of_other (hoctal : ¬ digitValue c < 8) (hletter : c ∉ ['x', 'u', 'U'])
    (following : List Char) : decode c following = ((controls.lookup c).getD c, 0) := by
  have hdigit : digit? 8 c = none := by
    rw [digit?_eq_ite (by decide)]
    exact if_neg hoctal
  unfold decode
  split
  case h_8 | h_9 | h_10 => exact absurd (by simp) hletter
  case h_11 ha hb hf hn hr ht hv _ _ _ =>
    have hcontrol : controls.lookup c = none := by
      rw [List.lookup_eq_none_iff]
      simpa [controls] using And.intro ha ⟨hb, hf, hn, hr, ht, hv⟩
    rw [hdigit, hcontrol]
    rfl
  all_goals rfl

theorem hexadecimal_eq (hlimit : limit ≤ 8) (c : Char) (following : List Char) :
    ∃ run, LongestRun 16 limit following run ∧
      hexadecimal c limit following =
        (if run = [] then c else ofCode (written 16 run), run.length) := by
  have hradix : (16 : UInt32).toNat ≤ 16 := by decide
  obtain ⟨run, hrun, hdigits⟩ := digits_eq_values hradix limit following
  refine ⟨run, hrun, ?_⟩
  unfold hexadecimal
  rw [hdigits]
  cases run with
  | nil => rfl
  | cons first run =>
    show (character (number 16 (values (first :: run))), (values (first :: run)).length) = _
    rw [character_number (few_of_longestRun hlimit hrun), if_neg (List.cons_ne_nil first run),
      values, List.length_map]
    rfl

/-- An escape stands for what its longest run means. -/
theorem decode_eq_meaning (c : Char) (following : List Char) :
    ∃ run, LongestRun (allowance c).1 (allowance c).2 following run ∧
      decode c following = (meaning c run, run.length) := by
  by_cases hoctal : digitValue c < 8
  · have hradix : (8 : UInt32).toNat ≤ 16 := by decide
    obtain ⟨run, hrun, hdigits⟩ := digits_eq_values hradix 2 following
    have hcode : character (number 8 (UInt32.ofNat (digitValue c) :: values run)) =
        ofCode (written 8 (c :: run)) := character_number (few_of_octal hoctal hrun).1
    refine ⟨run, ?_, ?_⟩
    · rw [allowance_of_octal hoctal]
      exact hrun
    · rw [decode_of_octal hoctal, hdigits, hcode, meaning, if_pos hoctal, values, List.length_map]
  · obtain ⟨hradix, hlimit⟩ := allowance_of_not_octal hoctal
    by_cases hletter : c ∈ ['x', 'u', 'U']
    · obtain ⟨run, hrun, hhexadecimal⟩ := hexadecimal_eq hlimit c following
      refine ⟨run, by rwa [hradix], ?_⟩
      rw [decode_of_letter hletter, hhexadecimal, meaning, if_neg hoctal, if_pos hletter]
    · have hnone : (allowance c).2 = 0 := by
        simp only [List.mem_cons, List.not_mem_nil, or_false, not_or] at hletter
        rw [allowance, if_neg hoctal, if_neg hletter.1, if_neg hletter.2.1, if_neg hletter.2.2]
      refine ⟨[], .nil (.inl hnone), ?_⟩
      rw [decode_of_other hoctal hletter, meaning, if_neg hoctal, if_neg hletter]
      rfl

/-- The token of an escape ends where its run of digits does. -/
theorem afterBackslash_of_decode (hstarts : run <+: following)
    (hdecode : decode c following = (meant, run.length)) (hc : c ≠ '\n') :
    Lexeme.afterBackslash (c :: following) =
      (⟨.escape, '\\' :: c :: run, [meant]⟩, following.drop run.length) := by
  have htake : following.take run.length = run := (List.prefix_iff_eq_take.1 hstarts).symm
  rw [Lexeme.afterBackslash, hdecode]
  · dsimp only
    rw [htake]
  · exact hc

end Escape

/-- **Escapes are decoded exactly.**  An escape takes the longest run of digits that its first character
allows, and stands for what that character and the run mean.  The code of the run never leaves 32 bits,
neither digit by digit nor when an octal digit is put before the others, and the code of an octal escape
always has a character.  The token of the escape ends where the run does. -/
theorem decode_exact (c : Char) (following : List Char) :
    ∃ run, LongestRun (allowance c).1 (allowance c).2 following run ∧
      decode c following = (meaning c run, run.length) ∧
      (digitValue c < 8 → Fits 8 (c :: run) ∧
        digitValue c * 8 ^ run.length + (number 8 (values run)).toNat < UInt32.size ∧
        meaning c run ≠ '\ufffd') ∧
      (8 ≤ digitValue c → Fits 16 run) ∧
      (c ≠ '\n' → Lexeme.afterBackslash (c :: following) =
        (⟨.escape, '\\' :: c :: run, [meaning c run]⟩, following.drop run.length)) := by
  obtain ⟨run, hrun, hdecode⟩ := decode_eq_meaning c following
  refine ⟨run, hrun, hdecode, fun hoctal => ?_, fun hother => ?_,
    afterBackslash_of_decode hrun.starts hdecode⟩
  · rw [allowance_of_octal hoctal] at hrun
    obtain ⟨hfew, hsmall⟩ := few_of_octal hoctal hrun
    have hnumber := toNat_number (hfew.of_sublist (List.sublist_cons_self c run))
    refine ⟨hfew.fits, ?_, ?_⟩
    · rw [hnumber]
      exact lt_of_eq_of_lt (written_cons 8 c run).symm (hsmall.trans (by decide))
    · rw [meaning, if_pos hoctal]
      exact ofCode_ne_replacement hsmall
  · obtain ⟨hradix, hlimit⟩ := allowance_of_not_octal (Nat.not_lt_of_le hother)
    rw [hradix] at hrun
    exact (few_of_longestRun hlimit hrun).fits

/-- Eight digits of a code that no character has, the last of the digits left over. -/
example : decode 'U' "FFFFFFFF0".toList = ('\ufffd', 8) := by decide +kernel

/-- The digits of an octal escape end before an 8. -/
example : decode '1' "78".toList = ('\x0f', 1) := by decide +kernel

end Parlance.Escape
