import Mathlib.Data.List.TakeDrop
import Parlance.Json.Reader

/-!
# Reading what was written

The text of a value is read as that value, and nothing that stands behind it is touched.  The bound of
the reader is never met: what is written of a value is longer than its values are deep.

    readCodes (text.flatMap escape ++ '"' :: rest) = some (text.map Char.toNat, rest)     (readCodes_flatMap)
    readNumber ((toString n).toList ++ rest) = some (.ofNat n, rest)                   (readNumber_ofNat)
    json.Plain → ofText? json.toText = some json                                         (ofText?_toText)
-/

namespace Parlance.Json

/-! ## Strings -/

theorem hexValue?_hexDigit (n : Nat) : hexValue? (hexDigit n) = some (n % 16) := by
  have hdigits : ∀ digit < 16, hexValue? digit.digitChar = some digit := by decide
  exact hdigits (n % 16) (Nat.mod_lt _ (by decide))

/-- Four digits hold any code below 65536. -/
theorem code?_hexDigit {code : Nat} (h : code < 65536) :
    code? (hexDigit (code / 4096)) (hexDigit (code / 256)) (hexDigit (code / 16)) (hexDigit code) =
      some code := by
  have hvalue : ((code / 4096 % 16 * 16 + code / 256 % 16) * 16 + code / 16 % 16) * 16 + code % 16 =
      code := by
    omega
  unfold code?
  simp only [hexValue?_hexDigit, hvalue]

/-- A character that stands for itself. -/
theorem readCodes_cons {c : Char} {text : List Char} (hquote : c ≠ '"') (hbackslash : c ≠ '\\')
    (hcontrol : ¬ c.toNat < 32) :
    readCodes (c :: text) = (readCodes text).map fun (codes, rest) => (c.toNat :: codes, rest) := by
  rw [readCodes]
  · rw [if_neg hcontrol]
    cases readCodes text <;> rfl
  all_goals simp_all

/-- A character behind a backslash. -/
theorem readCodes_backslash {letter c : Char} {text : List Char} (hletter : letter ≠ 'u')
    (hc : unescape? letter = some c) :
    readCodes ('\\' :: letter :: text) =
      (readCodes text).map fun (codes, rest) => (c.toNat :: codes, rest) := by
  rw [readCodes]
  · rw [hc]
    cases readCodes text <;> rfl
  · simp_all

/-- A character behind a backslash, by its code. -/
theorem readCodes_escapeCode {code : Nat} (h : code < 65536) (text : List Char) :
    readCodes (escapeCode code ++ text) =
      (readCodes text).map fun (codes, rest) => (code :: codes, rest) := by
  show readCodes ('\\' :: 'u' :: hexDigit (code / 4096) :: hexDigit (code / 256) ::
    hexDigit (code / 16) :: hexDigit code :: text) = _
  rw [readCodes, code?_hexDigit h]
  cases readCodes text <;> rfl

/-- An escaped character is read as itself. -/
theorem readCodes_escape (c : Char) (text : List Char) :
    readCodes (escape c ++ text) =
      (readCodes text).map fun (codes, rest) => (c.toNat :: codes, rest) := by
  unfold escape
  split
  case h_8 c hquote hbackslash _ _ _ _ _ =>
    split
    · rename_i hcontrol
      exact readCodes_escapeCode (Nat.lt_trans hcontrol (by decide)) text
    · rename_i hcontrol
      exact readCodes_cons hquote hbackslash hcontrol
  all_goals exact readCodes_backslash (by decide) rfl

/-- The codes of a text that was written. -/
theorem readCodes_flatMap (text rest : List Char) :
    readCodes (text.flatMap escape ++ '"' :: rest) = some (text.map Char.toNat, rest) := by
  induction text with
  | nil => rfl
  | cons c text ih =>
    rw [List.flatMap_cons, List.append_assoc, readCodes_escape, ih]
    rfl

theorem not_isSurrogate (c : Char) :
    isHighSurrogate c.toNat = false ∧ isLowSurrogate c.toNat = false := by
  have hvalid : c.toNat < 0xd800 ∨ 0xdfff < c.toNat ∧ c.toNat < 0x110000 := c.valid
  unfold isHighSurrogate isLowSurrogate
  simp only [Bool.and_eq_false_iff, decide_eq_false_iff_not]
  omega

/-- A text has no surrogates. -/
theorem pairSurrogates?_map (text : List Char) :
    pairSurrogates? (text.map Char.toNat) = some text := by
  match text with
  | [] => rfl
  | [c] =>
    obtain ⟨hhigh, hlow⟩ := not_isSurrogate c
    simp only [List.map_cons, List.map_nil, pairSurrogates?, hhigh, hlow, Char.ofNat_toNat]
    rfl
  | c :: next :: text =>
    obtain ⟨hhigh, hlow⟩ := not_isSurrogate c
    have hrest := pairSurrogates?_map (next :: text)
    rw [List.map_cons] at hrest
    simp only [List.map_cons, pairSurrogates?, hhigh, hlow, hrest, Char.ofNat_toNat]
    rfl

theorem ofCodes_map (text : String) : ofCodes (text.toList.map Char.toNat) = .string text := by
  unfold ofCodes
  rw [pairSurrogates?_map]
  exact congrArg Json.string String.ofList_toList

/-! ## Numbers -/

/-- Whether a text does not go on with a number. -/
def Stops (rest : List Char) : Prop :=
  ∀ c ∈ rest.head?, c.isDigit = false ∧ c ≠ '.' ∧ c ≠ 'e' ∧ c ≠ 'E'

theorem stops_cons {c : Char} {rest : List Char}
    (h : c.isDigit = false ∧ c ≠ '.' ∧ c ≠ 'e' ∧ c ≠ 'E') : Stops (c :: rest) := by
  rintro _ ⟨⟩
  exact h

theorem span_digits {digits rest : List Char} (hdigits : ∀ c ∈ digits, c.isDigit = true)
    (hrest : Stops rest) : (digits ++ rest).span Char.isDigit = (digits, rest) := by
  have htake : rest.takeWhile Char.isDigit = [] := by
    cases rest with
    | nil => rfl
    | cons c rest => exact List.takeWhile_cons_of_neg (by rw [(hrest c rfl).1]; decide)
  have hdrop : rest.dropWhile Char.isDigit = rest := by
    cases rest with
    | nil => rfl
    | cons c rest => exact List.dropWhile_cons_of_neg (by rw [(hrest c rfl).1]; decide)
  rw [List.span_eq_takeWhile_dropWhile, List.takeWhile_append_of_pos hdigits,
    List.dropWhile_append_of_pos hdigits, htake, hdrop, List.append_nil]

/-- A number starts with a digit. -/
theorem exists_digit (n : Nat) :
    ∃ c digits, (toString n).toList = c :: digits ∧ c.isDigit = true := by
  rw [Nat.toString_eq_ofList_toDigits, String.toList_ofList]
  cases hdigits : Nat.toDigits 10 n with
  | nil => exact absurd hdigits Nat.toDigits_ne_nil
  | cons c digits =>
    refine ⟨c, digits, rfl, ?_⟩
    apply Nat.isDigit_of_mem_toDigits (b := 10) (n := n) (by decide) (by decide)
    rw [hdigits]
    exact List.mem_cons_self ..

/-- Only zero is written with a leading zero. -/
theorem exists_toDigits {n : Nat} (h : 0 < n) :
    ∃ c digits, Nat.toDigits 10 n = c :: digits ∧ c ≠ '0' := by
  induction n using Nat.strongRecOn with
  | _ n ih =>
    by_cases hsmall : n < 10
    · refine ⟨n.digitChar, [], Nat.toDigits_of_lt_base hsmall, ?_⟩
      have hall : ∀ digit < 10, 0 < digit → digit.digitChar ≠ '0' := by decide
      exact hall n hsmall h
    · have hle : 10 ≤ n := Nat.le_of_not_lt hsmall
      obtain ⟨c, digits, hdigits, hc⟩ := ih (n / 10) (by omega) (by omega)
      refine ⟨c, digits ++ [(n % 10).digitChar], ?_, hc⟩
      rw [Nat.toDigits_of_base_le (by decide) hle, hdigits]
      rfl

theorem readWhole_toDigits (n : Nat) {rest : List Char} (hrest : Stops rest) :
    readWhole (Nat.toDigits 10 n ++ rest) = some (Nat.toDigits 10 n, rest) := by
  have hdigits : ∀ c ∈ Nat.toDigits 10 n, c.isDigit = true :=
    fun c => Nat.isDigit_of_mem_toDigits (by decide) (by decide)
  rcases Nat.eq_zero_or_pos n with rfl | hpos
  · cases rest with
    | nil => rfl
    | cons c rest =>
      show (if c.isDigit then none else some (['0'], c :: rest)) = _
      rw [(hrest c rfl).1]
      rfl
  · obtain ⟨c, digits, hcons, hc⟩ := exists_toDigits hpos
    have hspan := span_digits hdigits hrest
    rw [hcons] at hspan ⊢
    rw [List.cons_append] at hspan ⊢
    rw [readWhole, readDigits, hspan]
    intro _ heq
    exact hc (List.cons.inj heq).1

theorem readPlaces_of_stops {rest : List Char} (hrest : Stops rest) :
    readPlaces rest = some ([], rest) := by
  cases rest with
  | nil => rfl
  | cons c rest =>
    rw [readPlaces]
    intro _ heq
    exact (hrest c rfl).2.1 (List.cons.inj heq).1

theorem readExponent_of_stops {rest : List Char} (hrest : Stops rest) :
    readExponent rest = some ([], rest) := by
  cases rest with
  | nil => rfl
  | cons c rest =>
    obtain ⟨-, -, hlower, hupper⟩ := hrest c rfl
    simp only [readExponent, hlower, hupper, decide_false, Bool.or_self, Bool.false_eq_true, if_false]

theorem readUnsigned_ofNat (n : Nat) {rest : List Char} (hrest : Stops rest) :
    readUnsigned ((toString n).toList ++ rest) = some ((toString n).toList, rest) := by
  rw [Nat.toString_eq_ofList_toDigits, String.toList_ofList]
  unfold readUnsigned
  rw [readWhole_toDigits n hrest]
  show (readPlaces rest).bind _ = _
  rw [readPlaces_of_stops hrest]
  show (readExponent rest).bind _ = _
  rw [readExponent_of_stops hrest]
  show some (Nat.toDigits 10 n ++ [] ++ [], rest) = _
  rw [List.append_nil, List.append_nil]

/-- A natural number is read as it is written. -/
theorem readNumber_ofNat (n : Nat) {rest : List Char} (hrest : Stops rest) :
    readNumber ((toString n).toList ++ rest) = some (ofNat n, rest) := by
  have hunsigned := readUnsigned_ofNat n hrest
  obtain ⟨c, digits, htext, hc⟩ := exists_digit n
  have hsign : c ≠ '-' := by
    rintro rfl
    cases hc
  have hnumber : String.ofList (c :: digits) = toString n := by
    rw [← htext, String.ofList_toList]
  rw [htext, List.cons_append] at hunsigned ⊢
  rw [readNumber, hunsigned]
  · exact congrArg (fun text => some (number text, rest)) hnumber
  · intro _ heq
    exact hsign (List.cons.inj heq).1

/-! ## Values -/

mutual

/-- A value as scripts are stored: its numbers are natural, and its strings and keys are texts. -/
def Plain : Json → Prop
  | .null | .boolean _ | .string _ => True
  | .number text => ∃ n : Nat, text = toString n
  | .array items => AllPlain items
  | .object fields => FieldsPlain fields
  | .brokenString _ | .brokenObject _ => False

def AllPlain : List Json → Prop
  | [] => True
  | item :: items => item.Plain ∧ AllPlain items

def FieldsPlain : List (String × Json) → Prop
  | [] => True
  | (_, value) :: fields => value.Plain ∧ FieldsPlain fields

end

section Lengths

theorem lt_length_writeText (text : String) (rest : List Char) :
    rest.length < (writeText text rest).length := by
  unfold writeText
  simp only [List.length_append, List.length_cons]
  omega

mutual

/-- A value takes up at least one character. -/
theorem lt_length_write (json : Json) (h : json.Plain) (rest : List Char) :
    rest.length < (write rest json).length := by
  match json with
  | .null | .boolean true | .boolean false =>
    simp only [write, List.length_cons]
    omega
  | .string text => exact lt_length_writeText text rest
  | .number text =>
    obtain ⟨n, rfl⟩ := h
    obtain ⟨c, digits, htext, -⟩ := exists_digit n
    rw [write, htext, List.length_append, List.length_cons]
    omega
  | .array [] | .object [] =>
    simp only [write, List.length_cons]
    omega
  | .array (item :: items) =>
    have hitem := lt_length_write item h.1 (writeItems rest items)
    have hitems := lt_length_writeItems items h.2 rest
    rw [write, List.length_cons]
    omega
  | .object ((key, value) :: fields) =>
    have hkey := lt_length_writeText key (':' :: write (writeFields rest fields) value)
    have hvalue := lt_length_write value h.1 (writeFields rest fields)
    have hfields := lt_length_writeFields fields h.2 rest
    rw [write, List.length_cons]
    rw [List.length_cons] at hkey
    omega
  | .brokenString _ | .brokenObject _ => exact h.elim

theorem lt_length_writeItems (items : List Json) (h : AllPlain items) (rest : List Char) :
    rest.length < (writeItems rest items).length := by
  match items with
  | [] => exact Nat.lt_succ_self _
  | item :: items =>
    have hitem := lt_length_write item h.1 (writeItems rest items)
    have hitems := lt_length_writeItems items h.2 rest
    rw [writeItems, List.length_cons]
    omega

theorem lt_length_writeFields (fields : List (String × Json)) (h : FieldsPlain fields)
    (rest : List Char) : rest.length < (writeFields rest fields).length := by
  match fields with
  | [] => exact Nat.lt_succ_self _
  | (key, value) :: fields =>
    have hkey := lt_length_writeText key (':' :: write (writeFields rest fields) value)
    have hvalue := lt_length_write value h.1 (writeFields rest fields)
    have hfields := lt_length_writeFields fields h.2 rest
    rw [writeFields, List.length_cons]
    rw [List.length_cons] at hkey
    omega

end

end Lengths

theorem stops_writeItems (rest : List Char) (items : List Json) : Stops (writeItems rest items) := by
  cases items <;> exact stops_cons (by decide)

theorem stops_writeFields (rest : List Char) (fields : List (String × Json)) :
    Stops (writeFields rest fields) := by
  cases fields <;> exact stops_cons (by decide)

/-- Blanks are dropped in front of other characters only. -/
theorem skipBlanks_cons {c : Char} {text : List Char}
    (hc : (c = ' ' || c = '\n' || c = '\t' || c = '\r') = false) :
    skipBlanks (c :: text) = c :: text :=
  List.dropWhile_cons_of_neg (by rw [hc]; decide)

/-- Nothing stands in front of a value, least of all the end of an array. -/
theorem exists_write {json : Json} (h : json.Plain) (rest : List Char) :
    ∃ c text, write rest json = c :: text ∧
      (c = ' ' || c = '\n' || c = '\t' || c = '\r') = false ∧ c ≠ ']' := by
  match json with
  | .null | .boolean true | .boolean false | .string _ | .array [] | .array (_ :: _)
  | .object [] | .object (_ :: _) => exact ⟨_, _, rfl, by decide, by decide⟩
  | .number text =>
    obtain ⟨n, rfl⟩ := h
    obtain ⟨c, digits, htext, hc⟩ := exists_digit n
    refine ⟨c, digits ++ rest, by rw [write, htext, List.cons_append], ?_, ?_⟩
    · rw [Bool.eq_false_iff]
      intro hblank
      simp only [Bool.or_eq_true, decide_eq_true_eq] at hblank
      rcases hblank with ((rfl | rfl) | rfl) | rfl <;> cases hc
    · rintro rfl
      cases hc
  | .brokenString _ | .brokenObject _ => exact h.elim

theorem skipBlanks_write {json : Json} (h : json.Plain) (rest : List Char) :
    skipBlanks (write rest json) = write rest json := by
  obtain ⟨c, text, htext, hc, -⟩ := exists_write h rest
  rw [htext, skipBlanks_cons hc]

/-- Fields with their keys as codes. -/
def codedFields (fields : List (String × Json)) : List (List Nat × Json) :=
  fields.map fun (key, value) => (key.toList.map Char.toNat, value)

theorem ofFields_codedFields (fields : List (String × Json)) :
    ofFields (codedFields fields) = .object fields := by
  have hpair : pairKeys? (codedFields fields) = some fields := by
    induction fields with
    | nil => rfl
    | cons field fields ih =>
      obtain ⟨key, value⟩ := field
      have hcoded : codedFields ((key, value) :: fields) =
          (key.toList.map Char.toNat, value) :: codedFields fields := rfl
      rw [hcoded, pairKeys?, pairSurrogates?_map, ih]
      dsimp only
      rw [String.ofList_toList]
  rw [ofFields, hpair]

theorem readKey_writeText (key : String) (text : List Char) :
    readKey (writeText key (':' :: text)) = some (key.toList.map Char.toNat, text) := by
  have htext : writeText key (':' :: text) =
      '"' :: (key.toList.flatMap escape ++ '"' :: ':' :: text) := rfl
  have hquote : skipBlanks ('"' :: (key.toList.flatMap escape ++ '"' :: ':' :: text)) = _ :=
    skipBlanks_cons rfl
  have hcolon : skipBlanks (':' :: text) = _ := skipBlanks_cons rfl
  simp only [htext, readKey, hquote, readCodes_flatMap, hcolon]

/-- Whether values are read back with a bound. -/
def ReadsValues (bound : Nat) : Prop :=
  ∀ (json : Json) (rest : List Char), json.Plain → Stops rest →
    (write rest json).length ≤ bound + rest.length →
    readValue bound (write rest json) = some (json, rest)

/-- Whether the items of arrays are read back with a bound. -/
def ReadsItems (bound : Nat) : Prop :=
  ∀ (item : Json) (items : List Json) (rest : List Char), AllPlain (item :: items) →
    (write (writeItems rest items) item).length ≤ bound + rest.length →
    readItems bound (write (writeItems rest items) item) = some (item :: items, rest)

/-- Whether the fields of objects are read back with a bound. -/
def ReadsFields (bound : Nat) : Prop :=
  ∀ (key : String) (value : Json) (fields : List (String × Json)) (rest : List Char),
    FieldsPlain ((key, value) :: fields) →
    (writeText key (':' :: write (writeFields rest fields) value)).length ≤ bound + rest.length →
    readFields bound (writeText key (':' :: write (writeFields rest fields) value)) =
      some (codedFields ((key, value) :: fields), rest)

section Steps

variable {bound : Nat}

theorem readsItems_succ (hvalues : ReadsValues bound) (hitems : ReadsItems bound) :
    ReadsItems (bound + 1) := by
  intro item items rest hplain hbound
  have hitem := lt_length_write item hplain.1 (writeItems rest items)
  have hrest := lt_length_writeItems items hplain.2 rest
  have hvalue := hvalues item (writeItems rest items) hplain.1 (stops_writeItems rest items)
    (by omega)
  cases items with
  | nil =>
    have hend : skipBlanks (writeItems rest []) = ']' :: rest := skipBlanks_cons rfl
    simp only [readItems, hvalue, hend]
  | cons next items =>
    have hcomma : skipBlanks (writeItems rest (next :: items)) =
        ',' :: write (writeItems rest items) next := skipBlanks_cons rfl
    have hlength : (writeItems rest (next :: items)).length =
        (write (writeItems rest items) next).length + 1 := rfl
    have hnext := hitems next items rest hplain.2 (by omega)
    simp only [readItems, hvalue, hcomma, hnext, Option.map_some]

theorem readsFields_succ (hvalues : ReadsValues bound) (hfields : ReadsFields bound) :
    ReadsFields (bound + 1) := by
  intro key value fields rest hplain hbound
  have hkey := lt_length_writeText key (':' :: write (writeFields rest fields) value)
  rw [List.length_cons] at hkey
  have hvalue' := lt_length_write value hplain.1 (writeFields rest fields)
  have hrest := lt_length_writeFields fields hplain.2 rest
  have hvalue := hvalues value (writeFields rest fields) hplain.1 (stops_writeFields rest fields)
    (by omega)
  cases fields with
  | nil =>
    have hend : skipBlanks (writeFields rest []) = '\x7d' :: rest := skipBlanks_cons rfl
    simp only [readFields, readKey_writeText, hvalue, hend]
    rfl
  | cons next fields =>
    obtain ⟨nextKey, nextValue⟩ := next
    have hcomma : skipBlanks (writeFields rest ((nextKey, nextValue) :: fields)) =
        ',' :: writeText nextKey (':' :: write (writeFields rest fields) nextValue) :=
      skipBlanks_cons rfl
    have hlength : (writeFields rest ((nextKey, nextValue) :: fields)).length =
        (writeText nextKey (':' :: write (writeFields rest fields) nextValue)).length + 1 := rfl
    have hnext := hfields nextKey nextValue fields rest hplain.2 (by omega)
    simp only [readFields, readKey_writeText, hvalue, hcomma, hnext, Option.map_some]
    rfl

theorem readsValues_succ (hitems : ReadsItems bound) (hfields : ReadsFields bound) :
    ReadsValues (bound + 1) := by
  intro json rest hplain hrest hbound
  have hskip := skipBlanks_write hplain rest
  rw [readValue, hskip]
  match json with
  | .null => rfl
  | .boolean true => rfl
  | .boolean false => rfl
  | .string text =>
    show (readCodes (text.toList.flatMap escape ++ '"' :: rest)).map _ = _
    rw [readCodes_flatMap]
    show some (ofCodes (text.toList.map Char.toNat), rest) = _
    rw [ofCodes_map]
  | .number text =>
    obtain ⟨n, rfl⟩ := hplain
    obtain ⟨c, digits, htext, hc⟩ := exists_digit n
    have hread := readNumber_ofNat n hrest
    rw [write, htext, List.cons_append] at *
    -- No literal, quote or bracket starts with a digit.
    split
    case h_7 => exact hread
    all_goals
      rename_i heq
      rw [(List.cons.inj heq).1] at hc
      cases hc
  | .array [] => rfl
  | .array (item :: items) =>
    rw [write, List.length_cons] at hbound
    have hread := hitems item items rest hplain (by omega)
    obtain ⟨c, text, htext, -, hc⟩ := exists_write hplain.1 (writeItems rest items)
    have hstart := skipBlanks_write hplain.1 (writeItems rest items)
    simp only [write, hread, hstart]
    split
    · rename_i heq
      rw [htext] at heq
      exact absurd (List.cons.inj heq).1 hc
    · rfl
  | .object [] => rfl
  | .object ((key, value) :: fields) =>
    rw [write, List.length_cons] at hbound
    have hread := hfields key value fields rest hplain (by omega)
    have hstart : skipBlanks (writeText key (':' :: write (writeFields rest fields) value)) =
        writeText key (':' :: write (writeFields rest fields) value) := skipBlanks_cons rfl
    simp only [write, hread, hstart]
    show some (ofFields (codedFields ((key, value) :: fields)), rest) = _
    rw [ofFields_codedFields]
  | .brokenString _ | .brokenObject _ => exact hplain.elim

end Steps

/-- With any bound, what fits is read back. -/
theorem reads (bound : Nat) : ReadsValues bound ∧ ReadsItems bound ∧ ReadsFields bound := by
  induction bound with
  | zero =>
    refine ⟨fun json rest hplain _ hbound => ?_, fun item items rest hplain hbound => ?_,
      fun key value fields rest hplain hbound => ?_⟩
    · have hlength := lt_length_write json hplain rest
      omega
    · have hitem := lt_length_write item hplain.1 (writeItems rest items)
      have hitems := lt_length_writeItems items hplain.2 rest
      omega
    · have hkey := lt_length_writeText key (':' :: write (writeFields rest fields) value)
      have hvalue := lt_length_write value hplain.1 (writeFields rest fields)
      have hfields := lt_length_writeFields fields hplain.2 rest
      rw [List.length_cons] at hkey
      omega
  | succ bound ih =>
    obtain ⟨hvalues, hitems, hfields⟩ := ih
    exact ⟨readsValues_succ hitems hfields, readsItems_succ hvalues hitems,
      readsFields_succ hvalues hfields⟩

/-- The text of a value is read as the value. -/
theorem ofText?_toText {json : Json} (h : json.Plain) : ofText? json.toText = some json := by
  have hread := (reads ((write [] json).length + 1)).1 json [] h (by rintro c ⟨⟩) (Nat.le_succ _)
  unfold ofText? toText
  simp only [String.toList_ofList, hread]
  rfl

end Parlance.Json
