import Mathlib.Data.List.Basic
import Parlance.Proofs.Placed
import Parlance.Script

/-!
# Trees that tell where they stand

A morpheme with a position stands there in the source: `Morpheme.Kind.StandsAt` says what the source
reads from that place on, for each kind.  `Script.Located` says it of every morpheme of a tree at any
depth, and that every word stands where its first morpheme does and every sentence where its first word
does.

The tokens from number `i` up to number `j` spell a piece of the source:

    textAt source token.position = left tokens i                                  (textAt_of_getElem)
    left tokens i = piece sequence tokens i j ++ left tokens j                      (left_eq_append)
-/

namespace Parlance

/-! ## Places -/

/-- The source from a place on. -/
def textAt (source : String) (place : Position) : List Char := source.toList.drop place.index

/-- What the source reads where a morpheme stands.  A literal is made of the literals of consecutive
tokens; of a string and a bracket only the opening is said here, as their parts stand for themselves. -/
def Morpheme.Kind.StandsAt (source : String) (place : Position) : Morpheme.Kind → Prop
  | .literal text => ∃ before run after, tokenize source = before ++ run ++ after ∧
      run.head?.map Token.position = some place ∧ text = String.join (run.map Token.literal)
  | .tuple _ => ['('] <+: textAt source place
  | .block _ text => '\x7b' :: text.toList ++ ['\x7d'] <+: textAt source place
  | .expression _ => ['['] <+: textAt source place
  | .string _ => ['"'] <+: textAt source place
  | .hereString text n =>
    List.replicate n '"' ++ text.toList ++ List.replicate n '"' <+: textAt source place
  | .taggedString _ tag => '"' :: '"' :: tag.toList <+: textAt source place
  | .lineComment text n => ∃ rest, textAt source place = List.replicate n '#' ++ text.toList ++ rest ∧
      (rest = [] ∨ rest.head? = some '\n')
  | .blockComment text n =>
    List.replicate n '#' ++ '\x7b' :: text.toList ++ '\x7d' :: List.replicate n '#' <+:
      textAt source place
  | .marker _ _ text => text.toList <+: textAt source place

mutual

/-- Whether every morpheme of a script stands where it says, and every word and sentence where its first
constituent does. -/
def Script.Located (source : String) : Script → Prop
  | ⟨sentences, _⟩ => Sentence.AllLocated source sentences

def Sentence.AllLocated (source : String) : List Sentence → Prop
  | [] => True
  | ⟨words, position⟩ :: rest =>
    (words.head?.map Word.position = some position ∧ Word.AllLocated source words) ∧
      Sentence.AllLocated source rest

def Word.AllLocated (source : String) : List Word → Prop
  | [] => True
  | ⟨morphemes, position⟩ :: rest =>
    (morphemes.head?.map Morpheme.position = some position ∧ Morpheme.AllLocated source morphemes) ∧
      Word.AllLocated source rest

def Morpheme.AllLocated (source : String) : List Morpheme → Prop
  | [] => True
  | ⟨kind, position⟩ :: rest =>
    ((∃ place, position = some place ∧ kind.StandsAt source place) ∧ kind.Inside source) ∧
      Morpheme.AllLocated source rest

/-- Whether all that is inside a morpheme is located. -/
def Morpheme.Kind.Inside (source : String) : Morpheme.Kind → Prop
  | .tuple script => script.Located source
  | .block script _ => script.Located source
  | .expression script => script.Located source
  | .string parts => Morpheme.AllLocated source parts
  | .literal .. | .hereString .. | .taggedString .. | .lineComment .. | .blockComment ..
  | .marker .. => True

end

/-- Whether a sentence stands where its first word does, and its words are located. -/
def Sentence.Located (source : String) (sentence : Sentence) : Prop :=
  sentence.words.head?.map Word.position = some sentence.position ∧
    Word.AllLocated source sentence.words

/-- Whether a word stands where its first morpheme does, and its morphemes are located. -/
def Word.Located (source : String) (word : Word) : Prop :=
  word.morphemes.head?.map Morpheme.position = some word.position ∧
    Morpheme.AllLocated source word.morphemes

/-- Whether a morpheme stands where it says, and all that is inside it does. -/
def Morpheme.Located (source : String) (morpheme : Morpheme) : Prop :=
  (∃ place, morpheme.position = some place ∧ morpheme.kind.StandsAt source place) ∧
    morpheme.kind.Inside source

section Located

variable {source : String}

theorem Sentence.allLocated_iff {items : List Sentence} :
    AllLocated source items ↔ ∀ item ∈ items, item.Located source := by
  induction items with
  | nil => simp [AllLocated]
  | cons item rest ih =>
    cases item
    rw [AllLocated, ih, List.forall_mem_cons]
    exact Iff.rfl

theorem Word.allLocated_iff {items : List Word} :
    AllLocated source items ↔ ∀ item ∈ items, item.Located source := by
  induction items with
  | nil => simp [AllLocated]
  | cons item rest ih =>
    cases item
    rw [AllLocated, ih, List.forall_mem_cons]
    exact Iff.rfl

theorem Morpheme.allLocated_iff {items : List Morpheme} :
    AllLocated source items ↔ ∀ item ∈ items, item.Located source := by
  induction items with
  | nil => simp [AllLocated]
  | cons item rest ih =>
    cases item
    rw [AllLocated, ih, List.forall_mem_cons]
    exact Iff.rfl

end Located

/-! ## Pieces -/

section Pieces

variable {part : Token → String} {tokens : List Token} {token : Token} {i j k n : Nat}

/-- What the tokens from number `first` up to number `last` spell, without the latter. -/
def piece (part : Token → String) (tokens : List Token) (first last : Nat) : String :=
  String.join (((tokens.drop first).take (last - first)).map part)

/-- The text of the tokens from number `first` on. -/
def left (tokens : List Token) (first : Nat) : List Char :=
  (String.join ((tokens.drop first).map Token.sequence)).toList

theorem piece_append (hij : i ≤ j) (hjk : j ≤ k) :
    piece part tokens i j ++ piece part tokens j k = piece part tokens i k := by
  have hk : k - i = (j - i) + (k - j) := by omega
  have hj : i + (j - i) = j := by omega
  rw [piece, piece, piece, hk, List.take_add, List.map_append, String.join_append, List.drop_drop, hj]

theorem piece_single (h : tokens[j]? = some token) : piece part tokens j (j + 1) = part token := by
  obtain ⟨hlt, rfl⟩ := List.getElem?_eq_some_iff.1 h
  have hone : j + 1 - j = 1 := by omega
  rw [piece, hone, List.drop_eq_getElem_cons hlt, List.take_succ_cons, List.take_zero, List.map_cons,
    List.map_nil, String.join_cons]
  exact String.append_empty

theorem piece_succ (hij : i ≤ j) (h : tokens[j]? = some token) :
    piece part tokens i (j + 1) = piece part tokens i j ++ part token := by
  rw [← piece_append hij (Nat.le_succ j), piece_single h]

theorem left_eq_append (hij : i ≤ j) :
    left tokens i = (piece Token.sequence tokens i j).toList ++ left tokens j := by
  have hj : i + (j - i) = j := by omega
  have hsplit := List.take_append_drop (j - i) (tokens.drop i)
  rw [List.drop_drop, hj] at hsplit
  rw [left, piece, left, ← String.toList_append, ← String.join_append, ← List.map_append, hsplit]

theorem left_of_getElem (h : tokens[i]? = some token) :
    left tokens i = token.sequence.toList ++ left tokens (i + 1) := by
  rw [left_eq_append (Nat.le_succ i), piece_single h]

theorem left_length (tokens : List Token) : left tokens tokens.length = [] := by
  rw [left, List.drop_length]
  rfl

/-- The log of a parser that has read some tokens, between two of them. -/
theorem text_extract (hjn : j ≤ n) :
    String.join (((tokens.take n).map Token.sequence).toArray.extract i j).toList =
      piece Token.sequence tokens i j := by
  have hmin : min (j - i) (n - i) = j - i := by omega
  rw [piece, List.extract_toArray, List.extract_eq_take_drop, ← List.map_drop, ← List.map_take,
    List.drop_take, List.take_take, hmin]

end Pieces

/-! ## Tokens of a source -/

section Tokens

variable {source : String} {token : Token} {i : Nat}

/-- Where a token stands, the source goes on with it. -/
theorem textAt_of_getElem (h : (tokenize source)[i]? = some token) :
    textAt source token.position = left (tokenize source) i := by
  obtain ⟨hlt, htoken⟩ := List.getElem?_eq_some_iff.1 h
  have hsplit : tokenize source = (tokenize source).take i ++ token :: (tokenize source).drop (i + 1) := by
    rw [← htoken, ← List.drop_eq_getElem_cons hlt, List.take_append_drop]
  have hplaced := tokenize_eq_placed source
  have hposition := position_of_placed (hplaced.symm.trans hsplit)
  have hsource : source.toList = (String.join ((tokenize source).map Token.sequence)).toList := by
    rw [hplaced, toList_join_placed, covered_lexemes]
  have hcut : source.toList =
      (String.join (((tokenize source).take i).map Token.sequence)).toList ++ left (tokenize source) i := by
    rw [left, ← String.toList_append, ← String.join_append, ← List.map_append, List.take_append_drop]
    exact hsource
  rw [textAt, hposition, hcut]
  exact List.drop_left

theorem exists_cut_of_getElem (h : (tokenize source)[i]? = some token) :
    ∃ item rest place, token = Lexeme.toToken item place ∧ Lexeme.Cut item rest := by
  have hmem := List.mem_of_getElem? h
  rw [tokenize_eq_placed] at hmem
  obtain ⟨item, hitem, place, htoken⟩ := exists_lexeme_of_mem hmem
  obtain ⟨rest, hcut⟩ := exists_cut_of_mem hitem
  exact ⟨item, rest, place, htoken, hcut⟩

/-- A token of a kind of single characters. -/
theorem spelled_sign {c : Char} (h : (tokenize source)[i]? = some token)
    (hkind : token.kind.sign? = some c) :
    token.sequence = String.ofList [c] ∧ token.literal = token.sequence := by
  obtain ⟨item, rest, place, rfl, hcut⟩ := exists_cut_of_getElem h
  have hsign : item.kind.sign? = some c := hkind
  cases hcut with
  | sign hitem =>
    cases hitem.symm.trans hsign
    exact ⟨rfl, rfl⟩
  | @run kind _ _ _ _ hrun => cases kind <;> first | (cases hsign; done) | cases hrun
  | text => cases hsign
  | lastText => cases hsign
  | continuation => cases hsign
  | escape => cases hsign

theorem left_of_sign {c : Char} (h : (tokenize source)[i]? = some token)
    (hkind : token.kind.sign? = some c) :
    left (tokenize source) i = c :: left (tokenize source) (i + 1) := by
  rw [left_of_getElem h, (spelled_sign h hkind).1, String.toList_ofList]
  rfl

theorem utf8ByteSize_replicate (n : Nat) {c : Char} (h : c.utf8Size = 1) :
    (String.ofList (List.replicate n c)).utf8ByteSize = n := by
  induction n with
  | zero => rfl
  | succ n ih =>
    rw [List.replicate_succ', String.ofList_append, String.utf8ByteSize_append, ih]
    show n + (String.singleton c).utf8ByteSize = n + 1
    rw [String.utf8ByteSize_singleton, h]

/-- A token that is a run of one character. -/
theorem spelled_run {c : Char} (h : (tokenize source)[i]? = some token)
    (hkind : token.kind.run? = some (· == c)) (hc : c.utf8Size = 1) :
    token.sequence.toList = List.replicate token.runLength c := by
  obtain ⟨item, rest, place, rfl, hcut⟩ := exists_cut_of_getElem h
  have hrun : item.kind.run? = some (· == c) := hkind
  cases hcut with
  | @sign kind _ hsign => cases kind <;> first | cases hrun | cases hsign
  | @run kind p d more _ hitem hall =>
    cases hitem.symm.trans hrun
    have hreplicate : d :: more = List.replicate (d :: more).length c :=
      List.eq_replicate_of_mem fun b hb => beq_iff_eq.1 (hall b hb)
    show (String.ofList (d :: more)).toList = List.replicate (String.ofList (d :: more)).utf8ByteSize c
    rw [String.toList_ofList, hreplicate, utf8ByteSize_replicate _ hc]
  | text => cases hrun
  | lastText => cases hrun
  | continuation => cases hrun
  | escape => cases hrun

/-- Where a token of a run of one character stands, the source has that many of them. -/
theorem textAt_of_run {c : Char} (h : (tokenize source)[i]? = some token)
    (hkind : token.kind.run? = some (· == c)) (hc : c.utf8Size = 1) :
    textAt source token.position =
      List.replicate token.runLength c ++ left (tokenize source) (i + 1) := by
  rw [textAt_of_getElem h, left_of_getElem h, spelled_run h hkind hc]

/-- Where a token of a single character stands, the source has that character. -/
theorem textAt_of_sign {c : Char} (h : (tokenize source)[i]? = some token)
    (hkind : token.kind.sign? = some c) :
    textAt source token.position = c :: left (tokenize source) (i + 1) := by
  rw [textAt_of_getElem h, left_of_sign h hkind]

theorem literal_of_text (h : (tokenize source)[i]? = some token) (hkind : token.kind = .text) :
    token.literal = token.sequence := by
  obtain ⟨item, rest, place, rfl, hcut⟩ := exists_cut_of_getElem h
  have hitem : item.kind = .text := hkind
  cases hcut with
  | sign | run | text | lastText => rfl
  | continuation => cases hitem
  | escape => cases hitem

end Tokens

/-! ## What stands at tokens -/

section Stands

variable {source : String} {token closing : Token} {i j : Nat}

theorem standsAt_string (h : (tokenize source)[i]? = some token) (hkind : token.kind = .stringDelimiter)
    (hlength : token.runLength ≠ 0) (parts : List Morpheme) :
    Morpheme.Kind.StandsAt source token.position (.string parts) := by
  obtain ⟨n, hn⟩ := Nat.exists_eq_succ_of_ne_zero hlength
  show ['"'] <+: textAt source token.position
  rw [textAt_of_run h (by rw [hkind]; rfl) rfl, hn, List.replicate_succ]
  exact ⟨_, rfl⟩

/-- What is between two runs of quotes of one length. -/
theorem standsAt_hereString (h : (tokenize source)[i]? = some token)
    (hkind : token.kind = .stringDelimiter) (hij : i < j) (hclosing : (tokenize source)[j]? = some closing)
    (hclosingKind : closing.kind = .stringDelimiter) (hlength : closing.runLength = token.runLength) :
    Morpheme.Kind.StandsAt source token.position
      (.hereString (piece Token.sequence (tokenize source) (i + 1) j) token.runLength) := by
  refine ⟨left (tokenize source) (j + 1), ?_⟩
  rw [textAt_of_run h (by rw [hkind]; rfl) rfl, left_eq_append (Nat.succ_le_of_lt hij),
    left_of_getElem hclosing, spelled_run hclosing (by rw [hclosingKind]; rfl) rfl, hlength]
  simp only [List.append_assoc]

/-- Two quotes with a text behind them, which is the tag. -/
theorem standsAt_taggedString {tag : Token} (h : (tokenize source)[i]? = some token)
    (hkind : token.kind = .stringDelimiter) (hlength : token.runLength = 2)
    (htag : (tokenize source)[i + 1]? = some tag) (htext : tag.kind = .text) (text : String) :
    Morpheme.Kind.StandsAt source token.position (.taggedString text tag.literal) := by
  refine ⟨left (tokenize source) (i + 2), ?_⟩
  rw [textAt_of_run h (by rw [hkind]; rfl) rfl, hlength, left_of_getElem htag,
    ← literal_of_text htag htext]
  rfl

/-- What is between a run of `#` and the end of the line. -/
theorem standsAt_lineComment (h : (tokenize source)[i]? = some token) (hkind : token.kind = .comment)
    (hij : i < j)
    (hrest : left (tokenize source) j = [] ∨ (left (tokenize source) j).head? = some '\n') :
    Morpheme.Kind.StandsAt source token.position
      (.lineComment (piece Token.sequence (tokenize source) (i + 1) j) token.runLength) := by
  refine ⟨left (tokenize source) j, ?_, hrest⟩
  rw [textAt_of_run h (by rw [hkind]; rfl) rfl, left_eq_append (Nat.succ_le_of_lt hij),
    List.append_assoc]

/-- What is between a brace behind a run of `#` and a brace before one of the same length. -/
theorem standsAt_blockComment {opening closingRun : Token} (h : (tokenize source)[i]? = some token)
    (hkind : token.kind = .comment) (hopening : (tokenize source)[i + 1]? = some opening)
    (hopeningKind : opening.kind = .openBlock) (hij : i + 2 ≤ j)
    (hclosing : (tokenize source)[j]? = some closing) (hclosingKind : closing.kind = .closeBlock)
    (hrun : (tokenize source)[j + 1]? = some closingRun) (hrunKind : closingRun.kind = .comment)
    (hlength : closingRun.runLength = token.runLength) :
    Morpheme.Kind.StandsAt source token.position
      (.blockComment (piece Token.sequence (tokenize source) (i + 2) j) token.runLength) := by
  refine ⟨left (tokenize source) (j + 2), ?_⟩
  rw [textAt_of_run h (by rw [hkind]; rfl) rfl,
    left_of_sign (c := '\x7b') hopening (by rw [hopeningKind]; rfl), left_eq_append hij,
    left_of_sign (c := '\x7d') hclosing (by rw [hclosingKind]; rfl), left_of_getElem hrun,
    spelled_run (c := '#') hrun (by rw [hrunKind]; rfl) rfl, hlength]
  simp only [List.append_assoc, List.cons_append]

end Stands

end Parlance
