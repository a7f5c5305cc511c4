import Parlance.Proofs.Display.Reads

/-!
# Words, sentences and rules

Words with a blank between them are a sentence, sentences with a semicolon between them a script.  Where
there is nothing between two semicolons, there is no sentence.

    every item is a word → the items with blanks between them close to a sentence     (reads_words)
    every rule has words → the rules with semicolons between them are the content of a script
                                                                                    (content_rules)
    brackets around a content are a word                                          (isWord_brackets)
    a word is parsed as the only word of a script                                      (parse_word)
-/

namespace Parlance

open Parlance.Parser (read)

namespace Reader

/-- A text that is a word of some morphemes wherever a word can start. -/
structure IsWord (text : List Char) (morphemes : List Morpheme) : Prop where
  adds : Adds [] text morphemes
  starts : ∃ c more, text = c :: more ∧ isBlank c = false
  shaped : Morpheme.shape morphemes ≠ .invalid

/-- A word as it is written, with its morphemes. -/
abbrev Written := List Char × List Morpheme

/-- The text of words: a blank stands between them. -/
def sentenceText (items : List Written) : List Char := [' '].intercalate (items.map Prod.fst)

/-- The sentence of words. -/
def sentenceOf (items : List Written) : Sentence := ⟨items.map fun item => ⟨item.2, none⟩, none⟩

/-- The text of rules: a semicolon and a blank stand between them. -/
def rulesText (rules : List (List Written)) : List Char :=
  [';', ' '].intercalate (rules.map sentenceText)

variable {frame : Frame.Sentences} {below : List Frame} {rest : List Char}

/-- A word that is closed. -/
theorem closeWord_holding {morphemes : List Morpheme} (hshape : Morpheme.shape morphemes ≠ .invalid)
    (hposition : frame.sentencePosition = none) :
    (frame.holding morphemes).closeWord = .ok { frame with
      word := none, words := ⟨morphemes, none⟩ :: frame.words, sentencePosition := none } := by
  have hne : morphemes ≠ [] := by
    rintro rfl
    exact hshape rfl
  have hword : (frame.holding morphemes).word = some ⟨.of morphemes, none⟩ := by
    cases morphemes with
    | nil => exact absurd rfl hne
    | cons first rest => rfl
  have hsettle : (Draft.of morphemes).settle.toList = morphemes := List.reverse_reverse morphemes
  have hkept : (if (frame.holding morphemes).words.isEmpty then none
      else (frame.holding morphemes).sentencePosition) = none := by
    show (if frame.words.isEmpty then none else frame.sentencePosition) = none
    rw [hposition, ite_self]
  unfold Frame.Sentences.closeWord
  rw [hword]
  dsimp only
  rw [hsettle, if_neg (show Word.shape ⟨morphemes, none⟩ ≠ .invalid from hshape), hkept]
  rfl

/-- A blank closes the open word. -/
theorem reads_blank {after : Frame.Sentences} (hclose : frame.closeWord = .ok after)
    (hrest : ∀ c, rest.head? = some c → isBlank c = false) :
    Reads [' '] rest (.sentences frame :: below) (.sentences after :: below) := by
  have hrun : rest.takeWhile isBlank = [] ∧ rest.dropWhile isBlank = rest := by
    cases rest with
    | nil => exact ⟨rfl, rfl⟩
    | cons c more =>
      have hc := hrest c rfl
      exact ⟨List.takeWhile_cons_of_neg (by rw [hc]; decide),
        List.dropWhile_cons_of_neg (by rw [hc]; decide)⟩
  have hfirst : Lexeme.first ' ' ([] ++ rest) = (.verbatim .whitespace [' '], rest) := by
    show Lexeme.run .whitespace isBlank ' ' rest = _
    rw [Lexeme.run, hrun.1, hrun.2]
  refine reads_lexeme hfirst (by decide) fun log => ?_
  show frame.closeWord.map _ = _
  rw [hclose]
  rfl

/-- A semicolon closes the open sentence. -/
theorem reads_semicolon {after : Frame.Sentences} (hclose : frame.closeSentence = .ok after) :
    Reads [';'] rest (.sentences frame :: below) (.sentences after :: below) := by
  have hfirst : Lexeme.first ';' ([] ++ rest) = (.verbatim .semicolon [';'], rest) := rfl
  refine reads_lexeme hfirst (by decide) fun log => ?_
  show frame.closeSentence.map _ = _
  rw [hclose]
  rfl

/-- Sentences with more finished words. -/
def withWords (words : List Word) (frame : Frame.Sentences) : Frame.Sentences :=
  { frame with word := none, words := words.reverse ++ frame.words, sentencePosition := none }

theorem head_sentenceText {items : List Written} (h : ∀ item ∈ items, IsWord item.1 item.2)
    (hne : items ≠ []) (more : List Char) :
    ∀ c, (sentenceText items ++ more).head? = some c → isBlank c = false := by
  cases items with
  | nil => exact absurd rfl hne
  | cons item rest =>
    obtain ⟨c, text, htext, hblank⟩ := (h item List.mem_cons_self).starts
    intro d hd
    have hhead : (sentenceText (item :: rest) ++ more).head? = some c := by
      unfold sentenceText
      cases rest <;> simp [List.intercalate, htext]
    rw [hhead] at hd
    rw [← Option.some.inj hd]
    exact hblank

/-- Words with blanks between them, the last one still open. -/
theorem reads_words (below : List Frame) {items : List Written} (h : ∀ item ∈ items, IsWord item.1 item.2)
    (hne : items ≠ []) (hposition : frame.sentencePosition = none) (hrest : Stops rest) :
    ∃ after, Reads (sentenceText items) rest (.sentences (frame.holding []) :: below)
        (.sentences after :: below) ∧
      after.closeWord = .ok (withWords (sentenceOf items).words frame) := by
  induction items generalizing frame with
  | nil => exact absurd rfl hne
  | cons item others ih =>
    have hitem := h item List.mem_cons_self
    have hclose := closeWord_holding hitem.shaped hposition
    cases others with
    | nil =>
      refine ⟨frame.holding item.2, ?_, hclose⟩
      have htext : sentenceText [item] = item.1 := by simp [sentenceText, List.intercalate]
      rw [htext]
      exact hitem.adds frame below rest hrest
    | cons second others =>
      have hothers : ∀ item ∈ second :: others, IsWord item.1 item.2 :=
        fun item hitem => h item (List.mem_cons_of_mem _ hitem)
      have htext : sentenceText (item :: second :: others) =
          item.1 ++ ([' '] ++ sentenceText (second :: others)) := by
        simp [sentenceText, List.intercalate]
      have hstart : (withWords [⟨item.2, none⟩] frame).sentencePosition = none := rfl
      obtain ⟨after, hreads, hafter⟩ := ih hothers (List.cons_ne_nil _ _) hstart
      refine ⟨after, ?_, ?_⟩
      · rw [htext]
        have hhead := head_sentenceText hothers (List.cons_ne_nil _ _) rest
        have hblank : Reads [' '] (sentenceText (second :: others) ++ rest)
            (.sentences (frame.holding item.2) :: below)
            (.sentences (withWords [⟨item.2, none⟩] frame) :: below) := reads_blank hclose hhead
        exact (hitem.adds frame below _ (stops_cons (by decide) _)).trans (hblank.trans hreads)
      · rw [hafter]
        simp [withWords, sentenceOf]

/-- Sentences with more finished sentences. -/
def withSentences (sentences : List Sentence) (frame : Frame.Sentences) : Frame.Sentences :=
  { frame with
    word := none
    sentences := sentences.reverse ++ frame.sentences
    words := []
    sentencePosition := none }

theorem closeSentence_of_words {items : List Written} {after : Frame.Sentences} (hne : items ≠ [])
    (hwords : frame.words = [])
    (h : after.closeWord = .ok (withWords (sentenceOf items).words frame)) :
    after.closeSentence = .ok (withSentences [sentenceOf items] frame) := by
  have hsome : (withWords (sentenceOf items).words frame).words.isEmpty = false := by
    cases items with
    | nil => exact absurd rfl hne
    | cons item rest => simp [withWords, sentenceOf]
  have hreverse : (withWords (sentenceOf items).words frame).words.reverse =
      (sentenceOf items).words := by
    show ((sentenceOf items).words.reverse ++ frame.words).reverse = _
    rw [hwords, List.append_nil, List.reverse_reverse]
  unfold Frame.Sentences.closeSentence
  rw [h]
  dsimp only [Except.map]
  rw [hsome, hreverse]
  rfl

/-- The sentences of rules.  A rule without words is none. -/
def sentencesOf (rules : List (List Written)) : List Sentence :=
  (rules.filter fun items => !items.isEmpty).map sentenceOf

theorem sentencesOf_cons (items : List Written) (rules : List (List Written)) :
    sentencesOf (items :: rules) = sentencesOf [items] ++ sentencesOf rules := by
  cases items <;> rfl

theorem sentencesOf_eq_map {rules : List (List Written)} (h : ∀ items ∈ rules, items ≠ []) :
    sentencesOf rules = rules.map sentenceOf := by
  rw [sentencesOf, List.filter_eq_self.2 fun items hitems => by simpa using h items hitems]

/-- One rule, still open. -/
theorem reads_rule (below : List Frame) {items : List Written} (h : ∀ item ∈ items, IsWord item.1 item.2)
    (hwords : frame.words = []) (hposition : frame.sentencePosition = none) (hrest : Stops rest) :
    ∃ after, Reads (sentenceText items) rest (.sentences (frame.holding []) :: below)
        (.sentences after :: below) ∧
      after.closeSentence = .ok (withSentences (sentencesOf [items]) frame) := by
  cases items with
  | nil =>
    refine ⟨frame.holding [], Reads.refl _ _, ?_⟩
    obtain ⟨enclosure, openedAt, position, textStart, sentences, words, word, place⟩ := frame
    cases hwords
    cases hposition
    rfl
  | cons item others =>
    obtain ⟨after, hreads, hafter⟩ := reads_words below h (List.cons_ne_nil _ _) hposition hrest
    exact ⟨after, hreads, closeSentence_of_words (List.cons_ne_nil _ _) hwords hafter⟩

/-- Rules do not begin with a blank when what follows them does not. -/
theorem head_rulesText {rules : List (List Written)}
    (h : ∀ items ∈ rules, ∀ item ∈ items, IsWord item.1 item.2)
    (hrest : ∀ c, rest.head? = some c → isBlank c = false) :
    ∀ c, (rulesText rules ++ rest).head? = some c → isBlank c = false := by
  cases rules with
  | nil => exact hrest
  | cons items others =>
    have hsplit : ∃ more, rulesText (items :: others) ++ rest = sentenceText items ++ more ∧
        ∀ c, more.head? = some c → isBlank c = false := by
      cases others with
      | nil => exact ⟨rest, by simp [rulesText, List.intercalate], hrest⟩
      | cons second others =>
        refine ⟨[';', ' '] ++ rulesText (second :: others) ++ rest, by
          simp [rulesText, List.intercalate], fun c hc => ?_⟩
        cases hc
        decide
    obtain ⟨more, htext, hmore⟩ := hsplit
    rw [htext]
    by_cases hitems : items = []
    · rw [hitems]
      exact hmore
    · exact head_sentenceText (h items List.mem_cons_self) hitems more

/-- Rules with semicolons between them, the last one still open. -/
theorem reads_rules (below : List Frame) {rules : List (List Written)}
    (h : ∀ items ∈ rules, ∀ item ∈ items, IsWord item.1 item.2) (hne : rules ≠ [])
    (hwords : frame.words = []) (hposition : frame.sentencePosition = none) (hrest : Stops rest)
    (hblank : ∀ c, rest.head? = some c → isBlank c = false) :
    ∃ after, Reads (rulesText rules) rest (.sentences (frame.holding []) :: below)
        (.sentences after :: below) ∧
      after.closeSentence = .ok (withSentences (sentencesOf rules) frame) := by
  induction rules generalizing frame with
  | nil => exact absurd rfl hne
  | cons items others ih =>
    have hitems := h items List.mem_cons_self
    cases others with
    | nil =>
      have htext : rulesText [items] = sentenceText items := by simp [rulesText, List.intercalate]
      rw [htext]
      exact reads_rule below hitems hwords hposition hrest
    | cons second others =>
      have hothers : ∀ items ∈ second :: others, ∀ item ∈ items, IsWord item.1 item.2 :=
        fun items hitems => h items (List.mem_cons_of_mem _ hitems)
      have htext : rulesText (items :: second :: others) =
          sentenceText items ++ ([';'] ++ ([' '] ++ rulesText (second :: others))) := by
        simp [rulesText, List.intercalate]
      obtain ⟨closed, hreads, hsemicolon⟩ := reads_rule below hitems hwords hposition
        (stops_cons (c := ';') (by decide) ([' '] ++ rulesText (second :: others) ++ rest))
      have hclosed : (withSentences (sentencesOf [items]) frame).closeWord =
          .ok (withSentences (sentencesOf [items]) frame) := rfl
      have hstart : (withSentences (sentencesOf [items]) frame).sentencePosition = none := rfl
      obtain ⟨after, hrules, hafter⟩ := ih hothers (List.cons_ne_nil _ _) rfl hstart
      refine ⟨after, ?_, ?_⟩
      · rw [htext]
        exact hreads.trans ((reads_semicolon hsemicolon).trans
          ((reads_blank hclosed (head_rulesText hothers hblank)).trans hrules))
      · rw [hafter, sentencesOf_cons items (second :: others)]
        simp [withSentences]

/-! ## Contents of brackets -/

/-- Without rules there is nothing between brackets. -/
theorem content_nil (enclosure : Frame.Enclosure) : Content enclosure [] ⟨[], none⟩ := by
  intro log below rest latest _
  refine ⟨#[], .start enclosure .start none log.size, latest, rfl, rfl, rfl, rfl, rfl, ?_⟩
  rw [Array.append_empty]
  rfl

/-- Rules are the content of the script of their sentences. -/
theorem content_rules (enclosure : Frame.Enclosure) {rules : List (List Written)}
    (h : ∀ items ∈ rules, ∀ item ∈ items, IsWord item.1 item.2) :
    Content enclosure (rulesText rules) ⟨sentencesOf rules, none⟩ := by
  by_cases hne : rules = []
  · rw [hne]
    exact content_nil enclosure
  intro log below rest latest hlatest
  have hrest : Stops (enclosure.closing :: rest) := by
    cases enclosure <;> exact stops_cons (by decide) rest
  have hblank : ∀ c, (enclosure.closing :: rest).head? = some c → isBlank c = false := by
    intro c hc
    cases hc
    cases enclosure <;> decide
  have hwords : (Frame.Sentences.start enclosure .start none log.size).words = [] := rfl
  obtain ⟨after, hreads, hafter⟩ := reads_rules below h hne hwords rfl hrest hblank
  obtain ⟨more, latest', hmore, -, hparse⟩ := hreads log latest hlatest
  have hfinish : after.finish = .ok ⟨sentencesOf rules, none⟩ := by
    unfold Frame.Sentences.finish
    rw [hafter]
    simp [Except.map, withSentences, Frame.Sentences.start]
  obtain ⟨hkept, hstart, hposition⟩ := Frame.Role.sentences.inj (Parser.role_closeSentence hafter)
  exact ⟨more, after, latest', hmore, hkept.symm, hstart.symm, hposition.symm, hfinish, hparse⟩

/-- A text between brackets is added to a word as the brackets are. -/
theorem adds_display {enclosure : Frame.Enclosure} (henclosure : enclosure ≠ .root) {inner : String}
    {display : String} {script : Script}
    (hdisplay : display.toList = enclosure.opening :: inner.toList ++ [enclosure.closing])
    (hcontent : Content enclosure inner.toList script) {before : List Morpheme}
    (hlast : ∀ last, before.getLast? = some last → last.kind.isString = false) :
    Adds before display.toList (before ++ [⟨enclosure.kind script inner, none⟩]) := by
  have hadds := adds_brackets henclosure hcontent hlast
  rw [String.ofList_toList] at hadds
  rw [hdisplay]
  exact hadds

/-- A text between brackets that is a word of its own. -/
theorem isWord_brackets {enclosure : Frame.Enclosure} (henclosure : enclosure ≠ .root)
    {inner display : String} {script : Script}
    (hdisplay : display.toList = enclosure.opening :: inner.toList ++ [enclosure.closing])
    (hcontent : Content enclosure inner.toList script) :
    IsWord display.toList [⟨enclosure.kind script inner, none⟩] := by
  have hadds := adds_display henclosure hdisplay hcontent (fun last (h : [].getLast? = _) => by cases h)
  refine ⟨hadds, ⟨_, _, hdisplay, ?_⟩, ?_⟩
  · cases enclosure <;> decide
  · cases enclosure <;> exact fun h => by cases h

/-! ## Words as scripts -/

/-- A reader that ends among the sentences of the script itself. -/
theorem close_root {frame : Frame.Sentences} {log : Array String} {latest : Option Token.Kind}
    (henclosure : frame.enclosure = .root) (hlatest : latest ≠ some .continuation) :
    close ⟨log, [.sentences frame], latest⟩ = frame.finish := by
  have hunclosed : Parser.unclosedFrame [.sentences frame] = none := by
    rw [Parser.unclosedFrame, henclosure]
    rfl
  unfold close
  rw [hunclosed]
  dsimp only
  rw [if_neg hlatest]
  rfl

/-- A word is parsed as the one word of a script. -/
theorem parse_word {text : String} {morphemes : List Morpheme} (h : IsWord text.toList morphemes) :
    Parlance.parse text ⟨false⟩ = .ok ⟨[⟨[⟨morphemes, none⟩], none⟩], none⟩ := by
  rw [parse_eq_ok]
  have hitems : ∀ item ∈ [(text.toList, morphemes)], IsWord item.1 item.2 := by
    intro item hitem
    rw [List.mem_singleton.1 hitem]
    exact h
  have hwords : (Frame.Sentences.start .root .start none 0).words = [] := rfl
  obtain ⟨after, hreads, hafter⟩ := reads_rule [] hitems hwords rfl stops_nil
  obtain ⟨log, latest, -, hlatest, hparse⟩ := hreads #[] none (by decide)
  have hrole : (Frame.sentences after).role = .sentences .root 0 none :=
    (Parser.role_closeSentence hafter).symm
  have henclosure : after.enclosure = .root := (Frame.Role.sentences.inj hrole).1
  have hfinish : after.finish = .ok ⟨[⟨[⟨morphemes, none⟩], none⟩], none⟩ := by
    unfold Frame.Sentences.finish
    rw [hafter]
    simp [Except.map, withSentences, Frame.Sentences.start, sentencesOf, sentenceOf]
  have htext : sentenceText [(text.toList, morphemes)] ++ [] = text.toList := by
    simp [sentenceText, List.intercalate]
  have hstart : Reader.start =
      ⟨#[], [.sentences ((Frame.Sentences.start .root .start none 0).holding [])], none⟩ := rfl
  rw [htext] at hparse
  rw [hstart, hparse, parse_nil, close_root henclosure hlatest]
  exact hfinish

end Reader

end Parlance
