import Parlance.Proofs.Display.Chains
import Parlance.Proofs.Display.Spelled
import Parlance.Proofs.Meaning.Compiled

/-!
# Words of values

`Writes host item value` says that a written word is the source form of a value, that it compiles and
that it means the value as it is spelled.  Words that write values are the content of a tuple that
means these values, and the same holds of rules between braces.

    WritesAll host items values → Content .tuple (displayWords values) (tupleScript items)
                                                                                (WritesAll.content)
    WritesRules host rules values → Content .block (displayRules values) ⟨rules.map sentenceOf, none⟩
                                                                              (WritesRules.content)
-/

namespace Parlance

/-- Rules that are not empty make the selector by these rules. -/
def Host.MakesGeneric {σ : Type} (host : Host σ) : Prop :=
  ∀ rules env, host.makeSelector rules env = ((Selector.ofRules rules).map some, env)

namespace Reader

variable {σ : Type} (host : Host σ)

/-- A written word is the source form of a value and means the value as it is spelled. -/
structure Writes (item : Written) (value : Value) : Prop where
  text : item.1 = value.display.toList
  isWord : IsWord item.1 item.2
  compiles : ∃ steps, Compile.word ⟨item.2, none⟩ = .ok steps
  means : Meaning.word host ⟨item.2, none⟩ = pure [value.spelled]

/-- The words of a sentence write values. -/
abbrev WritesAll : List Written → List Value → Prop := List.Forall₂ (Writes host)

variable {host}

/-- Values that have a word each can be written one after the other. -/
theorem exists_writesAll {values : List Value} (h : ∀ value ∈ values, ∃ item, Writes host item value) :
    ∃ items, WritesAll host items values := by
  induction values with
  | nil => exact ⟨[], .nil⟩
  | cons value rest ih =>
    obtain ⟨item, hitem⟩ := h value List.mem_cons_self
    obtain ⟨items, hitems⟩ := ih fun value hvalue => h value (List.mem_cons_of_mem _ hvalue)
    exact ⟨item :: items, .cons hitem hitems⟩

namespace WritesAll

variable {items : List Written} {values : List Value}

theorem isWord (h : WritesAll host items values) : ∀ item ∈ items, IsWord item.1 item.2 := by
  induction h with
  | nil => simp
  | cons hitem _ ih =>
    intro item hmem
    rcases List.mem_cons.1 hmem with rfl | hmem
    · exact hitem.isWord
    · exact ih item hmem

/-- The items are written with blanks between them. -/
theorem texts (h : WritesAll host items values) :
    items.map Prod.fst = values.map fun value => value.display.toList := by
  induction h with
  | nil => rfl
  | cons hitem _ ih => rw [List.map_cons, List.map_cons, hitem.text, ih]

theorem text (h : WritesAll host items values) :
    sentenceText items = (Value.displayWords values).toList := by
  rw [sentenceText, WritesAll.texts h, Value.toList_displayWords]

theorem compiles (h : WritesAll host items values) :
    ∃ steps, Compile.words (sentenceOf items).words = .ok steps := by
  induction h with
  | nil => exact ⟨[], by rw [sentenceOf, List.map_nil, Compile.words]⟩
  | cons hitem _ ih =>
    obtain ⟨first, hfirst⟩ := hitem.compiles
    obtain ⟨others, hothers⟩ := ih
    refine ⟨first ++ others, ?_⟩
    rw [sentenceOf] at hothers ⊢
    rw [List.map_cons, Compile.words, hfirst, hothers]
    rfl

theorem means (h : WritesAll host items values) :
    Meaning.words host (sentenceOf items).words = pure (Value.allSpelled values) := by
  induction h with
  | nil => rw [sentenceOf, List.map_nil, Meaning.words, Value.allSpelled]
  | cons hitem _ ih =>
    rw [sentenceOf] at ih ⊢
    rw [List.map_cons, Meaning.words, hitem.means, ih, Value.allSpelled]
    rfl

theorem ne_nil (h : WritesAll host items values) (hvalues : values ≠ []) : items ≠ [] := by
  rintro rfl
  cases h
  exact hvalues rfl

end WritesAll

/-! ## Tuples -/

/-- The script between the parentheses of a tuple: one sentence, if there are items. -/
def tupleScript (items : List Written) : Script :=
  ⟨(if items = [] then [] else [items]).map sentenceOf, none⟩

namespace WritesAll

variable {items : List Written} {values : List Value}

theorem content (h : WritesAll host items values) :
    Content .tuple (Value.displayWords values).toList (tupleScript items) := by
  have htext : rulesText [items] = (Value.displayWords values).toList := by
    rw [← WritesAll.text h]
    simp [rulesText, List.intercalate]
  have hscript : (⟨sentencesOf [items], none⟩ : Script) = tupleScript items := by
    cases items <;> rfl
  rw [← htext, ← hscript]
  refine content_rules _ fun sentence hsentence => ?_
  rw [List.mem_singleton.1 hsentence]
  exact WritesAll.isWord h

theorem tuple_compiles (h : WritesAll host items values) :
    ∃ steps, Compile.tuple none (tupleScript items) = .ok steps := by
  obtain ⟨steps, hsteps⟩ := WritesAll.compiles h
  by_cases hitems : items = []
  · exact ⟨_, by rw [tupleScript, if_pos hitems, List.map_nil, Compile.tuple, Compile.allWords]; rfl⟩
  · refine ⟨Compile.framed none (steps ++ []), ?_⟩
    rw [tupleScript, if_neg hitems, List.map_cons, List.map_nil, Compile.tuple]
    rw [sentenceOf] at hsteps ⊢
    rw [Compile.allWords, hsteps, Compile.allWords]
    rfl

theorem tuple_means (h : WritesAll host items values) :
    Meaning.tuple host (tupleScript items) = pure (Value.allSpelled values) := by
  have hwords := WritesAll.means h
  by_cases hitems : items = []
  · subst hitems
    cases h
    rw [tupleScript, if_pos rfl, List.map_nil, Meaning.tuple, Meaning.allWords, Value.allSpelled]
  · rw [tupleScript, if_neg hitems, List.map_cons, List.map_nil, Meaning.tuple]
    rw [sentenceOf] at hwords ⊢
    rw [Meaning.allWords, hwords, Meaning.allWords, pure_bind, pure_bind, List.append_nil]

end WritesAll

/-! ## Rules -/

/-- The sentences of a block write rules: each one is the words of a tuple that is not empty. -/
abbrev WritesRules (host : Host σ) : List (List Written) → List Value → Prop :=
  List.Forall₂ fun items rule => ∃ words, rule = .tuple words ∧ words ≠ [] ∧ WritesAll host items words

theorem exists_writesRules {values : List Value}
    (hformed : ∀ rule ∈ values, ∃ words, rule = .tuple words ∧ words ≠ [])
    (h : ∀ words, .tuple words ∈ values → ∀ word ∈ words, ∃ item, Writes host item word) :
    ∃ rules, WritesRules host rules values := by
  induction values with
  | nil => exact ⟨[], .nil⟩
  | cons rule rest ih =>
    obtain ⟨words, rfl, hne⟩ := hformed rule List.mem_cons_self
    obtain ⟨items, hitems⟩ := exists_writesAll (h words List.mem_cons_self)
    obtain ⟨rules, hrules⟩ := ih (fun rule hrule => hformed rule (List.mem_cons_of_mem _ hrule))
      fun words hwords => h words (List.mem_cons_of_mem _ hwords)
    exact ⟨items :: rules, .cons ⟨words, rfl, hne, hitems⟩ hrules⟩

namespace WritesRules

variable {rules : List (List Written)} {values : List Value}

theorem isWord (h : WritesRules host rules values) :
    ∀ items ∈ rules, items ≠ [] ∧ ∀ item ∈ items, IsWord item.1 item.2 := by
  induction h with
  | nil => simp
  | cons hrule _ ih =>
    obtain ⟨words, -, hne, hitems⟩ := hrule
    intro items hmem
    rcases List.mem_cons.1 hmem with rfl | hmem
    · exact ⟨WritesAll.ne_nil hitems hne, WritesAll.isWord hitems⟩
    · exact ih items hmem

/-- The rules are written with semicolons between them. -/
theorem text (h : WritesRules host rules values) :
    rulesText rules = (Value.displayRules values).toList := by
  have htexts : rules.map sentenceText =
      values.map fun rule => [' '].intercalate rule.ruleTexts := by
    induction h with
    | nil => rfl
    | cons hrule _ ih =>
      obtain ⟨words, rfl, -, hitems⟩ := hrule
      rw [List.map_cons, List.map_cons, ih, sentenceText, WritesAll.texts hitems]
      rfl
  rw [rulesText, htexts, Value.toList_displayRules]

theorem content (h : WritesRules host rules values) :
    Content .block (Value.displayRules values).toList ⟨rules.map sentenceOf, none⟩ := by
  have hrules := WritesRules.isWord h
  rw [← WritesRules.text h, ← sentencesOf_eq_map fun items hitems => (hrules items hitems).1]
  exact content_rules _ fun items hitems => (hrules items hitems).2

theorem compiles (h : WritesRules host rules values) :
    ∃ steps, Compile.rules (rules.map sentenceOf) = .ok steps := by
  induction h with
  | nil => exact ⟨[], by rw [List.map_nil, Compile.rules]⟩
  | cons hrule _ ih =>
    obtain ⟨words, -, -, hitems⟩ := hrule
    obtain ⟨first, hfirst⟩ := WritesAll.compiles hitems
    obtain ⟨others, hothers⟩ := ih
    refine ⟨Compile.framed none first ++ others, ?_⟩
    rw [sentenceOf] at hfirst
    rw [List.map_cons, sentenceOf, Compile.rules, hfirst, hothers]
    rfl

theorem means (h : WritesRules host rules values) :
    Meaning.rules host (rules.map sentenceOf) = pure (Value.allSpelled values) := by
  induction h with
  | nil => rw [List.map_nil, Meaning.rules, Value.allSpelled]
  | cons hrule _ ih =>
    obtain ⟨words, rfl, -, hitems⟩ := hrule
    have hwords := WritesAll.means hitems
    rw [sentenceOf] at hwords
    rw [List.map_cons, sentenceOf, Meaning.rules, hwords, ih, Value.allSpelled, Value.spelled, pure_bind,
      pure_bind]

end WritesRules

end Reader

end Parlance
