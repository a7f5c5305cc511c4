import Mathlib
import Parlance.Proofs.Display.Chains
import Parlance.Proofs.Display.Numbers
import Parlance.Proofs.Reading.BlockComments

/-!
# Values are written as one word

Every value has a text, also where nothing could read the value back, and that text is always one word
that is a root or qualified.  Lists and dictionaries are expressions, and what has no source form is a
block with a block comment in it.  Texts of words with blanks and semicolons between them are the content of
brackets, whatever the words are, so it is enough to know that of the parts of a value.

    every text is a word → the texts with blanks and semicolons are the content of a script
                                                                                 (exists_content)
    value.Displayable → HasWord value.display                                          (hasWord)
    value.Displayable → parse value.display = one sentence of one word            (parse_display)
-/

namespace Parlance

/-- The values of all kinds whose blocks were parsed and whose selectors are plain ones. -/
inductive Value.Displayable : Value → Prop
  | nil : Displayable .nil
  | boolean (value : Bool) : Displayable (.boolean value)
  | integer (value : Int64) : Displayable (.integer value)
  | real (value : Binary64) : Displayable (.real value)
  | string (text : String) : Displayable (.string text)
  | list {items : List Value} (hitems : ∀ item ∈ items, Displayable item) : Displayable (.list items)
  | dictionary {entries : List (String × Value)} (hvalues : ∀ entry ∈ entries, Displayable entry.2) :
    Displayable (.dictionary entries)
  | tuple {items : List Value} (hitems : ∀ item ∈ items, Displayable item) : Displayable (.tuple items)
  /-- A block of a parsed script, with its text. -/
  | script {source : String} {tree script : Script} {text : String}
    (hparse : parse source ⟨false⟩ = .ok tree) (hblock : (script, text) ∈ tree.blocks) :
    Displayable (.script script (some text))
  | sourceless (script : Script) : Displayable (.script script none)
  | command (command : Command) : Displayable (.command command)
  | qualified {source : Value} {chain : List Selector} (hsource : Displayable source)
    (hindices : ∀ index, .indexed index ∈ chain → Displayable index)
    (hkeys : ∀ keys, .keyed keys ∈ chain → ∀ key ∈ keys, Displayable key)
    (hrules : ∀ rules, .generic rules ∈ chain → ∀ rule ∈ rules, Displayable rule)
    (hcustom : ∀ selector, .custom selector ∉ chain) : Displayable (.qualified source chain)

theorem Value.toList_displayEntries (entries : List (String × Value)) :
    (Value.displayEntries entries).toList =
      [' '].intercalate (entries.flatMap fun entry =>
        [(displayText entry.1).toList, entry.2.display.toList]) := by
  induction entries with
  | nil =>
    rw [Value.displayEntries]
    rfl
  | cons entry rest ih =>
    obtain ⟨key, value⟩ := entry
    cases rest with
    | nil =>
      rw [Value.displayEntries, String.toList_append, String.toList_append]
      simp [List.intercalate]
    | cons next rest =>
      rw [Value.displayEntries, String.toList_append, String.toList_append, String.toList_append,
        String.toList_append, ih]
      · simp [List.intercalate]
      · simp

namespace Reader

/-! ## Contents of brackets -/

/-- Texts that are words, with what they are read as. -/
theorem exists_items {texts : List (List Char)} (h : ∀ text ∈ texts, ∃ morphemes, IsWord text morphemes) :
    ∃ items : List Written, items.map Prod.fst = texts ∧ ∀ item ∈ items, IsWord item.1 item.2 := by
  induction texts with
  | nil => exact ⟨[], rfl, fun item hitem => by cases hitem⟩
  | cons text rest ih =>
    obtain ⟨morphemes, hword⟩ := h text List.mem_cons_self
    obtain ⟨items, htexts, hitems⟩ := ih fun text htext => h text (List.mem_cons_of_mem _ htext)
    refine ⟨(text, morphemes) :: items, by rw [List.map_cons, htexts], fun item hitem => ?_⟩
    rcases List.mem_cons.1 hitem with rfl | hitem
    · exact hword
    · exact hitems item hitem

/-- Words with blanks and semicolons between them are the content of brackets of each kind. -/
theorem exists_content (enclosure : Frame.Enclosure) {rules : List (List (List Char))}
    (h : ∀ texts ∈ rules, ∀ text ∈ texts, ∃ morphemes, IsWord text morphemes) :
    ∃ script, Content enclosure
      ([';', ' '].intercalate (rules.map fun texts => [' '].intercalate texts)) script := by
  obtain ⟨written, hrules, hwords⟩ : ∃ written : List (List Written),
      written.map sentenceText = rules.map (fun texts => [' '].intercalate texts) ∧
        ∀ items ∈ written, ∀ item ∈ items, IsWord item.1 item.2 := by
    induction rules with
    | nil => exact ⟨[], rfl, fun items hitems => by cases hitems⟩
    | cons texts rest ih =>
      obtain ⟨items, htexts, hitems⟩ := exists_items (h texts List.mem_cons_self)
      obtain ⟨others, hothers, hwords⟩ := ih fun texts htexts => h texts (List.mem_cons_of_mem _ htexts)
      refine ⟨items :: others, ?_, fun items' hmem => ?_⟩
      · rw [List.map_cons, List.map_cons, hothers, sentenceText, htexts]
      · rcases List.mem_cons.1 hmem with rfl | hmem
        · exact hitems
        · exact hwords items' hmem
  rw [← hrules]
  exact ⟨_, content_rules enclosure hwords⟩

/-- Words with blanks between them are the content of brackets of each kind. -/
theorem exists_content_words (enclosure : Frame.Enclosure) {texts : List (List Char)}
    (h : ∀ text ∈ texts, ∃ morphemes, IsWord text morphemes) :
    ∃ script, Content enclosure ([' '].intercalate texts) script := by
  have hrules : ∀ words ∈ [texts], ∀ text ∈ words, ∃ morphemes, IsWord text morphemes := by
    intro words hwords
    rw [List.mem_singleton.1 hwords]
    exact h
  obtain ⟨script, hcontent⟩ := exists_content enclosure hrules
  refine ⟨script, ?_⟩
  rw [List.map_cons, List.map_nil, List.intercalate_singleton] at hcontent
  exact hcontent

/-! ## Words of the parts -/

/-- A text is a word that stands for a value. -/
def HasWord (text : List Char) : Prop :=
  ∃ morphemes, IsWord text morphemes ∧
    (Morpheme.shape morphemes = .root ∨ Morpheme.shape morphemes = .qualified)

theorem HasWord.isWord {text : List Char} (h : HasWord text) : ∃ morphemes, IsWord text morphemes := by
  obtain ⟨morphemes, hword, -⟩ := h
  exact ⟨morphemes, hword⟩

theorem hasWord_of_isSource {text : List Char} {morpheme : Morpheme} (h : IsSource text morpheme) :
    HasWord text :=
  ⟨[morpheme], h.isWord, .inl (h.shaped [] rfl)⟩

theorem hasWord_literal {text : String} (h : isLiteralSafe text = true) : HasWord text.toList :=
  hasWord_of_isSource (isSource_literal h)

theorem hasWord_displayText (text : String) : HasWord (displayText text).toList := by
  unfold displayText
  split
  · rename_i hsafe
    exact hasWord_literal hsafe
  · exact ⟨_, isWord_quoted text, .inl rfl⟩

/-- A block with only a comment in it can be selected from. -/
theorem exists_placeholder {name : String} (hname : IsCommentText name.toList) :
    ∃ morpheme, IsSource (placeholder name).toList morpheme := by
  have hcomment : ("#" ++ brace name ++ "#").toList = blockComment 1 name.toList := by
    rw [String.toList_append, String.toList_append, toList_brace]
    simp [blockComment]
  have hword := isWord_comment Nat.one_pos (.text hname)
  have hcontent : ∃ script, Content .block ("#" ++ brace name ++ "#").toList script := by
    obtain ⟨script, hcontent⟩ := exists_content_words .block
      fun text (htext : text ∈ [blockComment 1 name.toList]) => ⟨_, List.mem_singleton.1 htext ▸ hword⟩
    rw [List.intercalate_singleton, ← hcomment] at hcontent
    exact ⟨script, hcontent⟩
  obtain ⟨script, hcontent⟩ := hcontent
  exact ⟨_, isSource_brackets (.inr rfl) (toList_brace _) hcontent⟩

theorem exists_sourceText (text : String) :
    ∃ morpheme, IsSource (displaySourceText text).toList morpheme := by
  unfold displaySourceText
  split
  · rename_i hliteral
    exact ⟨_, isSource_literal hliteral⟩
  · split
    · rename_i hblock
      obtain ⟨script, hfaithful⟩ := exists_faithful hblock
      exact ⟨_, isSource_brackets (.inr rfl) (toList_brace text) (content_of_faithful hfaithful)⟩
    · exact exists_placeholder (by decide)

/-- Words with blanks between them are what a tuple holds. -/
theorem exists_content_values {items : List Value} (h : ∀ item ∈ items, HasWord item.display.toList) :
    ∃ script, Content .tuple (Value.displayWords items).toList script := by
  rw [Value.toList_displayWords]
  refine exists_content_words .tuple fun text htext => ?_
  obtain ⟨item, hitem, rfl⟩ := List.mem_map.1 htext
  exact (h item hitem).isWord

/-- A tuple can be selected from. -/
theorem exists_tuple {items : List Value} (h : ∀ item ∈ items, HasWord item.display.toList) :
    ∃ morpheme, IsSource ("(" ++ Value.displayWords items ++ ")").toList morpheme := by
  obtain ⟨script, hcontent⟩ := exists_content_values h
  exact ⟨_, isSource_brackets (.inl rfl) (toList_parentheses _) hcontent⟩

/-- What a value is written as, when it is selected from, can be selected from. -/
theorem exists_source {value : Value}
    (h : ∀ items, value = .tuple items → ∀ item ∈ items, HasWord item.display.toList) :
    ∃ morpheme, IsSource (Value.displaySource value).toList morpheme := by
  cases value with
  | tuple items =>
    rw [Value.displaySource]
    exact exists_tuple (h items rfl)
  | _ =>
    rw [Value.displaySource]
    · split
      · exact exists_sourceText _
      · exact exists_placeholder (by decide)
    · simp

/-- A command with one argument in an expression. -/
theorem hasWord_call (name : String) (hname : isLiteralSafe name = true) {inner display : String}
    (hdisplay : display.toList = '[' :: (name.toList ++ ' ' :: '(' :: inner.toList ++ [')']) ++ [']'])
    (hcontent : ∃ script, Content .tuple inner.toList script) : HasWord display.toList := by
  obtain ⟨script, hcontent⟩ := hcontent
  have hargument : IsWord ("(" ++ inner ++ ")").toList [⟨.tuple script, none⟩] :=
    isWord_brackets (by decide) (toList_parentheses inner) hcontent
  obtain ⟨call, hcall⟩ : ∃ call, Content .expression
      (String.ofList (name.toList ++ ' ' :: '(' :: inner.toList ++ [')'])).toList call := by
    have htext : (String.ofList (name.toList ++ ' ' :: '(' :: inner.toList ++ [')'])).toList =
        [' '].intercalate [name.toList, ("(" ++ inner ++ ")").toList] := by
      rw [String.toList_ofList, toList_parentheses]
      simp [List.intercalate]
    rw [htext]
    refine exists_content_words .expression fun text htext => ?_
    rcases List.mem_cons.1 htext with rfl | htext
    · exact (hasWord_literal hname).isWord
    · exact ⟨_, List.mem_singleton.1 htext ▸ hargument⟩
  refine ⟨_, isWord_brackets (by decide) ?_ hcall, .inl rfl⟩
  rw [hdisplay, String.toList_ofList]
  rfl

/-! ## Selectors -/

/-- An index in brackets selects. -/
theorem exists_indexed {index : Value} (h : HasWord index.display.toList) :
    ∃ morpheme, IsSelector (Selector.indexed index).display.toList morpheme := by
  obtain ⟨script, hcontent⟩ := exists_content_words .expression
    fun text (htext : text ∈ [index.display.toList]) => List.mem_singleton.1 htext ▸ h.isWord
  rw [List.intercalate_singleton] at hcontent
  refine ⟨_, isSelector_brackets (by decide) ?_ hcontent⟩
  rw [Selector.display, String.toList_append, String.toList_append]
  rfl

theorem exists_keyed {keys : List Value} (h : ∀ key ∈ keys, HasWord key.display.toList) :
    ∃ morpheme, IsSelector (Selector.keyed keys).display.toList morpheme := by
  obtain ⟨script, hcontent⟩ := exists_content_values h
  refine ⟨_, isSelector_brackets (by decide) ?_ hcontent⟩
  rw [Selector.display]
  exact toList_parentheses _

theorem exists_generic {rules : List Value} (h : ∀ rule ∈ rules, ∀ text ∈ rule.ruleTexts, HasWord text) :
    ∃ morpheme, IsSelector (Selector.generic rules).display.toList morpheme := by
  obtain ⟨script, hcontent⟩ := exists_content .block
    fun texts (htexts : texts ∈ rules.map Value.ruleTexts) text htext => by
      obtain ⟨rule, hrule, rfl⟩ := List.mem_map.1 htexts
      exact (h rule hrule text htext).isWord
  rw [List.map_map] at hcontent
  have hrules : (Value.displayRules rules).toList = [';', ' '].intercalate
      (rules.map ((fun texts => [' '].intercalate texts) ∘ Value.ruleTexts)) :=
    Value.toList_displayRules rules
  rw [← hrules] at hcontent
  refine ⟨_, isSelector_brackets (by decide) ?_ hcontent⟩
  rw [Selector.display]
  exact toList_brace _

theorem exists_areSelectors {chain : List Selector}
    (h : ∀ selector ∈ chain, ∃ morpheme, IsSelector selector.display.toList morpheme) :
    ∃ selectors, AreSelectors selectors chain := by
  induction chain with
  | nil => exact ⟨[], .nil⟩
  | cons selector rest ih =>
    obtain ⟨morpheme, hmorpheme⟩ := h selector List.mem_cons_self
    obtain ⟨selectors, hselectors⟩ := ih fun selector hmem => h selector (List.mem_cons_of_mem _ hmem)
    exact ⟨morpheme :: selectors, .cons hmorpheme hselectors⟩

/-- A qualified value is a root without selectors and qualified with them. -/
theorem hasWord_qualified {source : Value} {chain : List Selector}
    (hsource : ∃ morpheme, IsSource (Value.displaySource source).toList morpheme)
    (hchain : ∃ selectors, AreSelectors selectors chain) :
    HasWord (Value.display (.qualified source chain)).toList := by
  obtain ⟨morpheme, hsource⟩ := hsource
  obtain ⟨selectors, hselectors⟩ := hchain
  rw [Value.display, String.toList_append]
  refine ⟨_, isWord_chain hsource hselectors, ?_⟩
  rw [shape_chain hsource hselectors]
  split
  · exact .inl rfl
  · exact .inr rfl

/-! ## Words of all values -/

/-- The texts of a value that matter to what holds it: its own, and as a rule those of its words. -/
structure Texts (value : Value) : Prop where
  word : HasWord value.display.toList
  words : ∀ text ∈ value.ruleTexts, HasWord text

/-- All values but tuples have only their own text. -/
theorem Texts.of_hasWord {value : Value} (h : HasWord value.display.toList)
    (hrule : value.ruleTexts = [value.display.toList]) : Texts value := by
  refine ⟨h, fun text htext => ?_⟩
  rw [hrule] at htext
  rw [List.mem_singleton.1 htext]
  exact h

theorem Texts.of_literal {value : Value} (h : isLiteralSafe value.display = true)
    (hrule : value.ruleTexts = [value.display.toList]) : Texts value :=
  .of_hasWord (hasWord_literal h) hrule

/-- The items of a tuple are its words as a rule. -/
theorem Texts.items {items : List Value} (h : Texts (.tuple items)) :
    ∀ item ∈ items, HasWord item.display.toList :=
  fun _ hitem => h.words _ (List.mem_map_of_mem hitem)

theorem Texts.of_placeholder {value : Value} {name : String} (hdisplay : value.display = placeholder name)
    (hname : IsCommentText name.toList) (hrule : value.ruleTexts = [value.display.toList]) :
    Texts value := by
  obtain ⟨morpheme, hsource⟩ := exists_placeholder hname
  rw [← hdisplay] at hsource
  exact .of_hasWord (hasWord_of_isSource hsource) hrule

/-- Every value is written as a word. -/
theorem texts_of_displayable {value : Value} (h : value.Displayable) : Texts value := by
  induction h with
  | nil => exact .of_hasWord ⟨_, isWord_nil, .inl rfl⟩ rfl
  | boolean value =>
    refine .of_literal ?_ rfl
    rw [Value.display]
    cases value <;> decide
  | integer value =>
    refine .of_literal ?_ rfl
    rw [Value.display]
    exact isLiteralSafe_write value
  | real value =>
    refine .of_literal ?_ rfl
    rw [Value.display]
    exact value.isLiteralSafe_toText
  | string text =>
    refine .of_hasWord ?_ rfl
    rw [Value.display]
    exact hasWord_displayText text
  | @list items _ ih =>
    have hcontent := exists_content_values fun item hitem => (ih item hitem).word
    refine .of_hasWord (hasWord_call "list" (by decide) ?_ hcontent) rfl
    rw [Value.display, String.toList_append, String.toList_append]
    simp
  | @dictionary entries _ ih =>
    have hcontent : ∃ script, Content .tuple (Value.displayEntries entries).toList script := by
      rw [Value.toList_displayEntries]
      refine exists_content_words .tuple fun text htext => ?_
      obtain ⟨entry, hentry, htext⟩ := List.mem_flatMap.1 htext
      rcases List.mem_cons.1 htext with rfl | htext
      · exact (hasWord_displayText entry.1).isWord
      · exact List.mem_singleton.1 htext ▸ (ih entry hentry).word.isWord
    refine .of_hasWord (hasWord_call "dict" (by decide) ?_ hcontent) rfl
    rw [Value.display, String.toList_append, String.toList_append]
    simp
  | @tuple items _ ih =>
    have hitems : ∀ item ∈ items, HasWord item.display.toList := fun item hitem => (ih item hitem).word
    obtain ⟨morpheme, hsource⟩ := exists_tuple hitems
    refine ⟨?_, fun text htext => ?_⟩
    · rw [Value.display]
      exact hasWord_of_isSource hsource
    · obtain ⟨item, hitem, rfl⟩ := List.mem_map.1 htext
      exact hitems item hitem
  | @script source tree script text hparse hblock =>
    refine .of_hasWord ?_ rfl
    rw [Value.display]
    exact hasWord_of_isSource (isSource_brackets (.inr rfl) (toList_brace text)
      (content_of_faithful (faithful_of_parse hparse hblock)))
  | sourceless script =>
    have hdisplay : Value.display (.script script none) = placeholder "script" := by rw [Value.display]
    exact .of_placeholder hdisplay (by decide) rfl
  | command command =>
    have hdisplay : Value.display (.command command) = placeholder "command" := by rw [Value.display]
    exact .of_placeholder hdisplay (by decide) rfl
  | @qualified source chain _ _ _ _ hcustom ihsource ihindices ihkeys ihrules =>
    refine .of_hasWord (hasWord_qualified (exists_source ?_) (exists_areSelectors ?_)) rfl
    · rintro items rfl
      exact ihsource.items
    · intro selector hmem
      cases selector with
      | indexed index => exact exists_indexed (ihindices index hmem).word
      | keyed keys => exact exists_keyed fun key hkey => (ihkeys keys hmem key hkey).word
      | generic rules => exact exists_generic fun rule hrule => (ihrules rules hmem rule hrule).words
      | custom selector => exact absurd hmem (hcustom selector)

end Reader

/-! ## Parsing -/

/-- A script that is one word, but for positions, is one word. -/
theorem Script.eq_single_of_erased {script : Script} {morphemes : List Morpheme}
    (h : script.erased = ⟨[⟨[⟨morphemes, none⟩], none⟩], none⟩) :
    ∃ word place position, script = ⟨[⟨[word], place⟩], position⟩ ∧
      word.morphemes.map Morpheme.erased = morphemes := by
  obtain ⟨sentences, position⟩ := script
  rw [Script.erased, Sentence.allErased_eq_map] at h
  obtain ⟨⟨words, place⟩, rfl, hsentence⟩ := List.map_eq_singleton_iff.1 (Script.mk.inj h).1
  obtain ⟨word, rfl, hword⟩ := List.map_eq_singleton_iff.1 (Sentence.mk.inj hsentence).1
  exact ⟨word, place, position, rfl, (Word.mk.inj hword).1⟩

/-- **Every value is written as one word.**  The text of a value of any kinds, nested to any depth, whose
blocks were parsed without positions and whose selectors are not custom, is parsed as one sentence of one
word, which is a root or qualified. -/
theorem Value.parse_display {value : Value} (h : value.Displayable) (options : Parser.Options) :
    ∃ word place position, parse value.display options = .ok ⟨[⟨[word], place⟩], position⟩ ∧
      (word.shape = .root ∨ word.shape = .qualified) := by
  obtain ⟨morphemes, hword, hshape⟩ := (Reader.texts_of_displayable h).word
  have hparse : (parse value.display options).map Script.erased =
      .ok ⟨[⟨[⟨morphemes, none⟩], none⟩], none⟩ := by
    rw [erased_parse_eq_ok, ← Reader.parse_eq_ok]
    exact Reader.parse_word hword
  obtain ⟨script, hscript, herased⟩ := map_eq_ok hparse
  obtain ⟨word, place, position, rfl, hmorphemes⟩ := Script.eq_single_of_erased herased
  refine ⟨word, place, position, hscript, ?_⟩
  rw [Word.shape, ← Morpheme.shape_erased, hmorphemes]
  exact hshape

/-- Lists, dictionaries, commands and blocks in the selectors of a source that has no form. -/
theorem Value.parse_display_qualified :
    let block : Script := ⟨[⟨[⟨[⟨.literal "b", none⟩], none⟩], none⟩], none⟩
    let held : List Value := [.script block (some "b"), .script block none, .command ⟨"c"⟩]
    let index : Value := .list [.dictionary [("a b", .boolean true)], .integer (-1)]
    let value : Value := .qualified (.string "\x7b")
      [.indexed index, .keyed [], .generic [.tuple held, .tuple [], .nil]]
    let text : String := "\x7b#\x7bqualified\x7d#\x7d[[list ([dict (\"a b\" true)] -1)]]()" ++
      "\x7b\x7bb\x7d \x7b#\x7bscript\x7d#\x7d \x7b#\x7bcommand\x7d#\x7d; ; []\x7d"
    value.Displayable ∧ value.display = text ∧
      ∃ word place position, parse text ⟨true⟩ = .ok ⟨[⟨[word], place⟩], position⟩ ∧
        (word.shape = .root ∨ word.shape = .qualified) := by
  intro block held index value text
  have htext : value.display = text := by
    cbv
  have hblock : (Value.script block (some "b")).Displayable := by
    have hparse : parse "\x7bb\x7d" ⟨false⟩ =
        .ok ⟨[⟨[⟨[⟨.block block "b", none⟩], none⟩], none⟩], none⟩ := by
      cbv
    refine .script hparse ?_
    simp [Script.blocks, Sentence.allBlocks, Word.allBlocks, Morpheme.allBlocks, Morpheme.Kind.blocks]
  have hheld : (Value.tuple held).Displayable := by
    refine .tuple (List.forall_mem_cons.2 ⟨hblock, fun item hitem => ?_⟩)
    simp only [List.mem_cons, List.not_mem_nil, or_false] at hitem
    rcases hitem with rfl | rfl <;> constructor
  have hindex : index.Displayable := by
    refine .list fun item hitem => ?_
    simp only [List.mem_cons, List.not_mem_nil, or_false] at hitem
    rcases hitem with rfl | rfl
    · exact .dictionary fun entry hentry => List.mem_singleton.1 hentry ▸ .boolean true
    · constructor
  have hvalue : value.Displayable := by
    refine .qualified (.string _) ?_ ?_ ?_ ?_
    · intro found hfound
      simp only [List.mem_cons, List.not_mem_nil, or_false, Selector.indexed.injEq, reduceCtorEq] at hfound
      exact hfound ▸ hindex
    · intro keys hkeys key hkey
      simp only [List.mem_cons, List.not_mem_nil, or_false, false_or, Selector.keyed.injEq,
        reduceCtorEq] at hkeys
      rw [hkeys] at hkey
      cases hkey
    · intro rules hrules rule hrule
      simp only [List.mem_cons, List.not_mem_nil, or_false, false_or, Selector.generic.injEq,
        reduceCtorEq] at hrules
      rw [hrules] at hrule
      simp only [List.mem_cons, List.not_mem_nil, or_false] at hrule
      rcases hrule with rfl | rfl | rfl
      · exact hheld
      · exact .tuple fun item hitem => absurd hitem List.not_mem_nil
      · exact .nil
    · simp
  have hparse := Value.parse_display hvalue ⟨true⟩
  rw [htext] at hparse
  exact ⟨hvalue, htext, hparse⟩

end Parlance
