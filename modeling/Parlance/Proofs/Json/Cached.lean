import Parlance.Proofs.Json.Thinned
import Parlance.Script.Cached

/-!
# Stored scripts read back

A stored script is read as the script that it was, and so are stored tokens.  A position that is null
can be left out, at any node.  The numbers of a script must fit in 64 bits, which is no limit where
numbers have no more.

    script.Fits → script.toJson.Thinned json → ofJson? json = some script       (ofJson?_of_thinned)
    token.Fits → Token.ofJson? token.toJson = some token                                (ofJson?_toJson)
-/

namespace Parlance

namespace Json

theorem toNat?_ofNat {n : Nat} (h : n < UInt64.size) : (ofNat n).toNat? = some n := by
  have hdigits : Numeral.readDigits? (toString n).toList = some n := by
    have hall : (Nat.toDigits 10 n).all Char.isDigit = true :=
      List.all_eq_true.2 fun c => Nat.isDigit_of_mem_toDigits (by decide) (by decide)
    have hnil : (Nat.toDigits 10 n).isEmpty = false := by
      rw [List.isEmpty_eq_false_iff]
      exact Nat.toDigits_ne_nil
    have hvalue : Numeral.ofDigits (Nat.toDigits 10 n) = n := by
      rw [Numeral.ofDigits, ← Nat.ofDigitChars_eq_foldl]
      exact Nat.ofDigitChars_ten_toDigits
    rw [Nat.toString_eq_ofList_toDigits, String.toList_ofList, Numeral.readDigits?, hall, hnil, hvalue]
    rfl
  rw [ofNat, toNat?, hdigits]
  exact if_pos h

end Json

open Json (Thinned ThinnedItems ThinnedFields)

/-! ## Numbers that fit -/

/-- A position whose numbers fit in 64 bits. -/
structure Position.Fits (position : Position) : Prop where
  index : position.index < UInt64.size
  line : position.line < UInt64.size
  column : position.column < UInt64.size

/-- The numbers of a morpheme's own. -/
def Morpheme.Kind.numbers : Morpheme.Kind → List Nat
  | .hereString _ length | .lineComment _ length | .blockComment _ length => [length]
  | .marker _ levels _ => [levels]
  | _ => []

/-- Whether the position of a node, if it has one, fits. -/
def PositionFits (position : Option Position) : Prop := ∀ place ∈ position, place.Fits

mutual

/-- A script whose numbers fit in 64 bits. -/
def Script.Fits : Script → Prop
  | ⟨sentences, position⟩ => Sentence.AllFit sentences ∧ PositionFits position

def Sentence.AllFit : List Sentence → Prop
  | [] => True
  | ⟨words, position⟩ :: rest => (Word.AllFit words ∧ PositionFits position) ∧ Sentence.AllFit rest

def Word.AllFit : List Word → Prop
  | [] => True
  | ⟨morphemes, position⟩ :: rest =>
    (Morpheme.AllFit morphemes ∧ PositionFits position) ∧ Word.AllFit rest

def Morpheme.AllFit : List Morpheme → Prop
  | [] => True
  | ⟨kind, position⟩ :: rest => (kind.Fits ∧ PositionFits position) ∧ Morpheme.AllFit rest

/-- A kind whose numbers fit, with what it holds. -/
def Morpheme.Kind.Fits : Morpheme.Kind → Prop
  | .tuple script | .block script _ | .expression script => script.Fits
  | .string parts => Morpheme.AllFit parts
  | kind => ∀ n ∈ kind.numbers, n < UInt64.size

end

/-- A token whose position fits. -/
def Token.Fits (token : Token) : Prop := token.position.Fits

/-! ## Positions -/

namespace Position

theorem ofJson?_toJson {position : Position} (h : position.Fits) :
    ofJson? position.toJson = some position := by
  have hfields : position.toJson.fields? ["index", "line", "column"] =
      some [.ofNat position.index, .ofNat position.line, .ofNat position.column] := rfl
  rw [ofJson?, hfields]
  simp only [Json.toNat?_ofNat h.index, Json.toNat?_ofNat h.line, Json.toNat?_ofNat h.column]

theorem optionOfJson?_optionToJson {position : Option Position} (h : PositionFits position) :
    optionOfJson? (optionToJson position) = some position := by
  cases position with
  | none => rfl
  | some position =>
    show (ofJson? position.toJson).map some = _
    rw [ofJson?_toJson (h position rfl)]
    rfl

theorem plain_toJson (position : Position) : position.toJson.Plain :=
  ⟨⟨_, rfl⟩, ⟨_, rfl⟩, ⟨_, rfl⟩, trivial⟩

theorem plain_optionToJson (position : Option Position) : (optionToJson position).Plain := by
  cases position with
  | none => exact trivial
  | some position => exact plain_toJson position

theorem eq_of_thinned {position : Option Position} {json : Json}
    (h : Thinned (optionToJson position) json) : json = optionToJson position := by
  cases position with
  | none => exact h.eq_of_isLeaf rfl
  | some position =>
    refine h.eq_object ?_
    simp only [List.forall_mem_cons]
    exact ⟨⟨by decide, rfl⟩, ⟨by decide, rfl⟩, ⟨by decide, rfl⟩, by rintro field ⟨⟩⟩

end Position

/-! ## Scripts -/

namespace Script

/-- How the parts of a node are read: the content from the field `name`, and the position. -/
structure ReadsParts {α : Type} (name : String) (content : Json → Option α)
    (parts : List (String × Json) → Option (Parts α)) : Prop where
  distinct : name ≠ "position"
  nil : parts [] = some Parts.none
  cons_content : ∀ value rest, parts ((name, value) :: rest) =
    (parts rest).bind fun parts => parts.addContent (content value)
  cons_position : ∀ value rest, parts (("position", value) :: rest) =
    (parts rest).bind fun parts => parts.addPosition value

/-- A stored node is read back, even when its position was null and left out. -/
theorem ReadsParts.exists_fields {α β : Type} {name : String} {content : Json → Option α}
    {parts : List (String × Json) → Option (Parts α)} (hparts : ReadsParts name content parts)
    (node : α → Option Position → β) {value : α} {stored json : Json} {position : Option Position}
    (hposition : PositionFits position)
    (hcontent : ∀ left, Thinned stored left → content left = some value)
    (h : Thinned (.object [(name, stored), ("position", Position.optionToJson position)]) json) :
    ∃ fields, json = .object fields ∧
      (parts fields).bind (Parts.make node) = some (node value position) := by
  obtain ⟨fields, rfl, hfields⟩ := h.exists_fields
  obtain ⟨left, rest, rfl, hleft, hrest⟩ := hfields.exists_cons hparts.distinct
  have hvalue := hcontent left hleft
  refine ⟨_, rfl, ?_⟩
  generalize hstored : Position.optionToJson position = place at hrest
  cases hrest with
  | cons hplace hrest =>
    cases hrest
    subst hstored
    have hread := Position.optionOfJson?_optionToJson hposition
    rw [Position.eq_of_thinned hplace, hparts.cons_content, hparts.cons_position, hparts.nil, hvalue]
    simp only [Option.bind_some, Parts.none, Parts.addPosition, hread, Parts.addContent, Parts.make,
      Option.map_some, Option.getD_some]
  | drop hrest =>
    cases hrest
    have hnone : position = none := by
      cases position with
      | none => rfl
      | some position => cases hstored
    subst hnone
    rw [hparts.cons_content, hparts.nil, hvalue]
    simp only [Option.bind_some, Parts.none, Parts.addContent, Parts.make, Option.map_some,
      Option.getD_none]

theorem readsParts_script : ReadsParts "sentences" sentencesOfJson? scriptParts where
  distinct := by decide
  nil := rfl
  cons_content value rest := by rw [scriptParts]; cases scriptParts rest <;> rfl
  cons_position value rest := by rw [scriptParts]; cases scriptParts rest <;> rfl

theorem readsParts_sentence : ReadsParts "words" wordsOfJson? sentenceParts where
  distinct := by decide
  nil := rfl
  cons_content value rest := by rw [sentenceParts]; cases sentenceParts rest <;> rfl
  cons_position value rest := by rw [sentenceParts]; cases sentenceParts rest <;> rfl

theorem readsParts_word : ReadsParts "morphemes" morphemesOfJson? wordParts where
  distinct := by decide
  nil := rfl
  cons_content value rest := by rw [wordParts]; cases wordParts rest <;> rfl
  cons_position value rest := by rw [wordParts]; cases wordParts rest <;> rfl

theorem readsParts_morpheme : ReadsParts "kind" kindOfJson? morphemeParts where
  distinct := by decide
  nil := rfl
  cons_content value rest := by rw [morphemeParts]; cases morphemeParts rest <;> rfl
  cons_position value rest := by rw [morphemeParts]; cases morphemeParts rest <;> rfl

/-- The items of a stored list, read one by one. -/
theorem read_items {α : Type} {items : List Json} {json : Json} {values : List α}
    {read : Json → Option (List α)} {readAll : List Json → Option (List α)}
    (hread : ∀ others, read (.array others) = readAll others)
    (hitems : ∀ others, ThinnedItems items others → readAll others = some values)
    (h : Thinned (.array items) json) : read json = some values := by
  obtain ⟨others, rfl, hothers⟩ := h.exists_items
  rw [hread, hitems others hothers]

/-- A text and the length of its delimiters, as they are stored. -/
theorem delimitedOfJson?_of_thinned {text : String} {length : Nat} (hfits : length < UInt64.size)
    {json : Json} (h : Thinned
      (.object [("value", .string text), ("delimiter_length", .ofNat length)]) json) :
    delimitedOfJson? json = some (text, length) := by
  have hjson := h.eq_object (by
    simp only [List.forall_mem_cons]
    exact ⟨⟨by decide, rfl⟩, ⟨by decide, rfl⟩, by rintro field ⟨⟩⟩)
  have hfields : Json.fields? ["value", "delimiter_length"] json =
      some [.string text, .ofNat length] := by
    rw [hjson]
    rfl
  rw [delimitedOfJson?, hfields]
  simp only [Json.toText?, Json.toNat?_ofNat hfits]

mutual

/-- A stored script is read as the script that it was. -/
theorem ofJson?_of_thinned (script : Script) (hfits : script.Fits) (json : Json)
    (h : Thinned script.toJson json) : ofJson? json = some script := by
  obtain ⟨sentences, position⟩ := script
  have hcontent : ∀ left, Thinned (.array (sentencesToJson sentences)) left →
      sentencesOfJson? left = some sentences :=
    fun left => read_items (fun _ => rfl) (sentenceList_of_thinned sentences hfits.1)
  obtain ⟨fields, rfl, hnode⟩ := readsParts_script.exists_fields Script.mk hfits.2 hcontent h
  exact hnode

theorem sentenceList_of_thinned (sentences : List Sentence) (hfits : Sentence.AllFit sentences)
    (items : List Json) (h : ThinnedItems (sentencesToJson sentences) items) :
    sentenceList items = some sentences := by
  match sentences with
  | [] =>
    cases h
    rfl
  | ⟨words, position⟩ :: rest =>
    rw [sentencesToJson] at h
    cases h with
    | cons hitem hrest =>
      have hcontent : ∀ left, Thinned (.array (wordsToJson words)) left →
          wordsOfJson? left = some words :=
        fun left => read_items (fun _ => rfl) (wordList_of_thinned words hfits.1.1)
      obtain ⟨fields, rfl, hnode⟩ :=
        readsParts_sentence.exists_fields Sentence.mk hfits.1.2 hcontent hitem
      rw [sentenceList, sentenceOfJson?, hnode, sentenceList_of_thinned rest hfits.2 _ hrest]

theorem wordList_of_thinned (words : List Word) (hfits : Word.AllFit words) (items : List Json)
    (h : ThinnedItems (wordsToJson words) items) : wordList items = some words := by
  match words with
  | [] =>
    cases h
    rfl
  | ⟨morphemes, position⟩ :: rest =>
    rw [wordsToJson] at h
    cases h with
    | cons hitem hrest =>
      have hcontent : ∀ left, Thinned (.array (morphemesToJson morphemes)) left →
          morphemesOfJson? left = some morphemes :=
        fun left => read_items (fun _ => rfl) (morphemeList_of_thinned morphemes hfits.1.1)
      obtain ⟨fields, rfl, hnode⟩ := readsParts_word.exists_fields Word.mk hfits.1.2 hcontent hitem
      rw [wordList, wordOfJson?, hnode, wordList_of_thinned rest hfits.2 _ hrest]

theorem morphemeList_of_thinned (morphemes : List Morpheme) (hfits : Morpheme.AllFit morphemes)
    (items : List Json) (h : ThinnedItems (morphemesToJson morphemes) items) :
    morphemeList items = some morphemes := by
  match morphemes with
  | [] =>
    cases h
    rfl
  | ⟨kind, position⟩ :: rest =>
    rw [morphemesToJson] at h
    cases h with
    | cons hitem hrest =>
      obtain ⟨fields, rfl, hnode⟩ := readsParts_morpheme.exists_fields Morpheme.mk hfits.1.2
        (kindOfJson?_of_thinned kind hfits.1.1) hitem
      rw [morphemeList, morphemeOfJson?, hnode, morphemeList_of_thinned rest hfits.2 _ hrest]

theorem kindOfJson?_of_thinned (kind : Morpheme.Kind) (hfits : kind.Fits) (json : Json)
    (h : Thinned (kindToJson kind) json) : kindOfJson? json = some kind := by
  match kind with
  | .literal text =>
    obtain ⟨content, rfl, hcontent⟩ := h.exists_single (by decide)
    rw [hcontent.eq_of_isLeaf rfl]
    rfl
  | .tuple script =>
    obtain ⟨content, rfl, hcontent⟩ := h.exists_single (by decide)
    show (ofJson? content).map Morpheme.Kind.tuple = _
    rw [ofJson?_of_thinned script hfits content hcontent]
    rfl
  | .expression script =>
    obtain ⟨content, rfl, hcontent⟩ := h.exists_single (by decide)
    show (ofJson? content).map Morpheme.Kind.expression = _
    rw [ofJson?_of_thinned script hfits content hcontent]
    rfl
  | .string parts =>
    obtain ⟨content, rfl, hcontent⟩ := h.exists_single (by decide)
    have hparts : morphemesOfJson? content = some parts :=
      read_items (fun _ => rfl) (morphemeList_of_thinned parts hfits) hcontent
    show (morphemesOfJson? content).map Morpheme.Kind.string = _
    rw [hparts]
    rfl
  | .block script text =>
    obtain ⟨content, rfl, hcontent⟩ := h.exists_single (by decide)
    obtain ⟨fields, rfl, hfields⟩ := hcontent.exists_fields
    obtain ⟨left, rest, rfl, hleft, hrest⟩ := hfields.exists_cons (by decide)
    have htext : rest = [("value", .string text)] := by
      refine hrest.eq_of_isLeaf ?_
      rintro field hfield
      rw [List.mem_singleton.1 hfield]
      exact ⟨show "value" ≠ "position" by decide, rfl⟩
    have hscript := ofJson?_of_thinned script hfits left hleft
    subst htext
    show blockOfJson? (.object [("subscript", left), ("value", .string text)]) = _
    simp [blockOfJson?, blockParts, hscript, Json.toText?]
  | .taggedString text tag =>
    obtain ⟨content, rfl, hcontent⟩ := h.exists_single (by decide)
    have hjson := hcontent.eq_object (by
      simp only [List.forall_mem_cons]
      exact ⟨⟨by decide, rfl⟩, ⟨by decide, rfl⟩, by rintro field ⟨⟩⟩)
    rw [hjson]
    rfl
  | .hereString text length =>
    obtain ⟨content, rfl, hcontent⟩ := h.exists_single (by decide)
    have hpair := delimitedOfJson?_of_thinned (hfits length (List.mem_singleton.2 rfl)) hcontent
    show (delimitedOfJson? content).map (fun (text, length) =>
      Morpheme.Kind.hereString text length) = _
    rw [hpair]
    rfl
  | .lineComment text length =>
    obtain ⟨content, rfl, hcontent⟩ := h.exists_single (by decide)
    have hpair := delimitedOfJson?_of_thinned (hfits length (List.mem_singleton.2 rfl)) hcontent
    show (delimitedOfJson? content).map (fun (text, length) =>
      Morpheme.Kind.lineComment text length) = _
    rw [hpair]
    rfl
  | .blockComment text length =>
    obtain ⟨content, rfl, hcontent⟩ := h.exists_single (by decide)
    have hpair := delimitedOfJson?_of_thinned (hfits length (List.mem_singleton.2 rfl)) hcontent
    show (delimitedOfJson? content).map (fun (text, length) =>
      Morpheme.Kind.blockComment text length) = _
    rw [hpair]
    rfl
  | .marker expands levels text =>
    obtain ⟨content, rfl, hcontent⟩ := h.exists_single (by decide)
    have hjson := hcontent.eq_object (by
      simp only [List.forall_mem_cons]
      exact ⟨⟨by decide, rfl⟩, ⟨by decide, rfl⟩, ⟨by decide, rfl⟩, by rintro field ⟨⟩⟩)
    have hlevels := Json.toNat?_ofNat (hfits levels (List.mem_singleton.2 rfl))
    have hfields : Json.fields? ["expansion", "levels", "value"] content =
        some [.boolean expands, .ofNat levels, .string text] := by
      rw [hjson]
      rfl
    show markerOfJson? content = _
    rw [markerOfJson?, hfields]
    simp only [Json.toBool?, hlevels, Json.toText?]

end

/-! ## Stored text -/

mutual

/-- Scripts are stored as plain values. -/
theorem plain_toJson (script : Script) : script.toJson.Plain := by
  obtain ⟨sentences, position⟩ := script
  exact ⟨allPlain_sentencesToJson sentences, Position.plain_optionToJson position, trivial⟩

theorem allPlain_sentencesToJson (sentences : List Sentence) :
    Json.AllPlain (sentencesToJson sentences) := by
  match sentences with
  | [] => exact trivial
  | ⟨words, position⟩ :: rest =>
    exact ⟨⟨allPlain_wordsToJson words, Position.plain_optionToJson position, trivial⟩,
      allPlain_sentencesToJson rest⟩

theorem allPlain_wordsToJson (words : List Word) : Json.AllPlain (wordsToJson words) := by
  match words with
  | [] => exact trivial
  | ⟨morphemes, position⟩ :: rest =>
    exact ⟨⟨allPlain_morphemesToJson morphemes, Position.plain_optionToJson position, trivial⟩,
      allPlain_wordsToJson rest⟩

theorem allPlain_morphemesToJson (morphemes : List Morpheme) :
    Json.AllPlain (morphemesToJson morphemes) := by
  match morphemes with
  | [] => exact trivial
  | ⟨kind, position⟩ :: rest =>
    exact ⟨⟨plain_kindToJson kind, Position.plain_optionToJson position, trivial⟩,
      allPlain_morphemesToJson rest⟩

theorem plain_kindToJson (kind : Morpheme.Kind) : (kindToJson kind).Plain := by
  match kind with
  | .literal text => exact ⟨trivial, trivial⟩
  | .tuple script | .expression script => exact ⟨plain_toJson script, trivial⟩
  | .block script text => exact ⟨⟨plain_toJson script, trivial, trivial⟩, trivial⟩
  | .string parts => exact ⟨allPlain_morphemesToJson parts, trivial⟩
  | .hereString text length | .lineComment text length | .blockComment text length =>
    exact ⟨⟨trivial, ⟨length, rfl⟩, trivial⟩, trivial⟩
  | .taggedString text tag => exact ⟨⟨trivial, trivial, trivial⟩, trivial⟩
  | .marker expands levels text =>
    exact ⟨⟨trivial, ⟨levels, rfl⟩, trivial, trivial⟩, trivial⟩

end

end Script

/-! ## Tokens -/

namespace Token

theorem Kind.ofName?_name (kind : Kind) : Kind.ofName? kind.name = some kind := by
  cases kind <;> rfl

theorem ofJson?_toJson {token : Token} (h : token.Fits) : ofJson? token.toJson = some token := by
  have hfields : token.toJson.fields? ["kind", "position", "sequence", "literal"] =
      some [.string token.kind.name, token.position.toJson, .string token.sequence,
        .string token.literal] := rfl
  rw [ofJson?, hfields]
  simp only [Kind.ofJson?, Kind.ofName?_name, Position.ofJson?_toJson h, Json.toText?]

theorem plain_toJson (token : Token) : token.toJson.Plain :=
  ⟨trivial, Position.plain_toJson token.position, trivial, trivial, trivial⟩

theorem allPlain_toJson (tokens : List Token) : Json.AllPlain (tokens.map toJson) := by
  induction tokens with
  | nil => exact trivial
  | cons token tokens ih => exact ⟨plain_toJson token, ih⟩

/-- Stored tokens are read as the tokens that they were. -/
theorem listOfCache?_listToCache {tokens : List Token} (h : ∀ token ∈ tokens, token.Fits) :
    listOfCache? (listToCache tokens) = some tokens := by
  have hread : (tokens.map toJson).mapM ofJson? = some tokens := by
    induction tokens with
    | nil => rfl
    | cons token tokens ih =>
      obtain ⟨htoken, htokens⟩ := List.forall_mem_cons.1 h
      rw [List.map_cons, List.mapM_cons, ofJson?_toJson htoken, ih htokens]
      rfl
  rw [listOfCache?, listToCache, Json.ofText?_toText]
  · exact hread
  · exact allPlain_toJson tokens

end Token

/-- **Stored scripts and tokens.**  A script is read back as it was from its stored text, whatever
positions that are null were left out, and tokens are read back as they were. -/
theorem cache_round_trip {script : Script} {tokens : List Token} (hscript : script.Fits)
    (htokens : ∀ token ∈ tokens, token.Fits) :
    Script.ofCacheUnlimited? script.toCache = some script ∧
      (∀ json, Thinned script.toJson json →
        Script.ofCacheUnlimited? json.toText = some script) ∧
      Token.listOfCache? (Token.listToCache tokens) = some tokens := by
  have hthinned : ∀ json, Thinned script.toJson json →
      Script.ofCacheUnlimited? json.toText = some script := by
    intro json h
    have hplain := h.plain (Script.plain_toJson script)
    rw [Script.ofCacheUnlimited?, Json.ofText?_toText hplain]
    exact Script.ofJson?_of_thinned script hscript json h
  exact ⟨hthinned _ (Thinned.refl _), hthinned, Token.listOfCache?_listToCache htokens⟩

/-- A block with a control character in its text and a single position: the script, its sentence, its
word and the script in the block are stored without theirs. -/
theorem cache_round_trip_block :
    let place : Position := ⟨0, 0, 0⟩
    let text := "\x01\"é"
    let script : Script :=
      ⟨[⟨[⟨[⟨.block ⟨[], none⟩ text, some place⟩], none⟩], none⟩], none⟩
    let block : Json := .object [("Block", .object
      [("subscript", .object [("sentences", .array [])]), ("value", .string text)])]
    let json : Json := .object [("sentences", .array [.object [("words", .array [.object
      [("morphemes", .array [.object [("kind", block), ("position", place.toJson)]])]])]])]
    let tokens : List Token := [⟨.text, place, text, text⟩]
    script.Fits ∧ (∀ token ∈ tokens, token.Fits) ∧ Thinned script.toJson json ∧
      Script.ofCacheUnlimited? script.toCache = some script ∧
      Script.ofCacheUnlimited? json.toText = some script ∧
      Token.listOfCache? (Token.listToCache tokens) = some tokens := by
  intro place text script block json tokens
  have hplace : place.Fits := ⟨by decide, by decide, by decide⟩
  have hnone : PositionFits none := by rintro place ⟨⟩
  have hscript : script.Fits :=
    ⟨⟨⟨⟨⟨⟨⟨⟨trivial, hnone⟩, by rintro _ ⟨⟩; exact hplace⟩, trivial⟩, hnone⟩, trivial⟩, hnone⟩, trivial⟩,
      hnone⟩
  have htokens : ∀ token ∈ tokens, token.Fits := List.forall_mem_singleton.2 hplace
  have hblock : Thinned (Script.kindToJson (.block ⟨[], none⟩ text)) block :=
    .object (.cons (.object (.cons (.object (.cons (.refl _) (.drop .nil))) (.refl _))) .nil)
  have hjson : Thinned script.toJson json :=
    .object (.cons (.array (.cons (.object (.cons (.array (.cons (.object (.cons (.array (.cons
      (.object (.cons hblock (.refl _))) .nil)) (.drop .nil))) .nil)) (.drop .nil))) .nil)) (.drop .nil))
  obtain ⟨hstored, hthinned, hlist⟩ := cache_round_trip hscript htokens
  exact ⟨hscript, htokens, hjson, hstored, hthinned json hjson, hlist⟩

end Parlance
