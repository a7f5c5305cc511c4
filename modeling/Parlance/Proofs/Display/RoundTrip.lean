import Mathlib
import Parlance.Proofs.Display.Numbers
import Parlance.Proofs.Display.Qualified

/-!
# Values read back from their words

A value with a word of its own is what evaluating that word gives, with the texts of its booleans and
integers in their place.  Each kind of value has a word that writes it, by induction on the value; a
word is parsed as the only word of a script, and its program makes what the word means.

    Readable value → ∃ item, Writes host item value                                    (exists_writes)
    Readable value → evaluateWordText value.display = .ok value.spelled             (evaluate_display)
-/

namespace Parlance

namespace Reader

variable {σ : Type} {host : Host σ}

/-! ## Words that are one morpheme -/

/-- A value that is written as a bare string. -/
theorem writes_literal (host : Host σ) {value : Value} (h : isLiteralSafe value.display = true)
    (hspelled : value.spelled = .string value.display) :
    Writes host (value.display.toList, [⟨.literal value.display, none⟩]) value := by
  refine ⟨rfl, isWord_literal h, ⟨[.constant (.string value.display) none], rfl⟩, ?_⟩
  rw [hspelled]
  rfl

theorem writes_boolean (host : Host σ) (value : Bool) : ∃ item, Writes host item (.boolean value) := by
  refine ⟨_, writes_literal host ?_ ?_⟩
  · rw [Value.display]
    cases value <;> decide
  · rw [Value.spelled, Value.display]

theorem writes_integer (host : Host σ) (value : Int64) : ∃ item, Writes host item (.integer value) := by
  refine ⟨_, writes_literal host ?_ ?_⟩
  · rw [Value.display]
    exact isLiteralSafe_write value
  · rw [Value.spelled, Value.display]

/-- A string is written bare or in quotes. -/
theorem writes_string (host : Host σ) (text : String) : ∃ item, Writes host item (.string text) := by
  have hspelled := Value.spelled_string text
  have hdisplay : Value.display (.string text) = displayText text := by rw [Value.display]
  by_cases hsafe : isLiteralSafe text = true
  · have htext : Value.display (.string text) = text := by
      rw [hdisplay, displayText, if_pos hsafe]
    exact ⟨_, writes_literal host (htext.symm ▸ hsafe) (hspelled.trans (by rw [htext]))⟩
  · have htext : Value.display (.string text) = quoteText text := by
      rw [hdisplay, displayText, if_neg hsafe]
    refine ⟨((quoteText text).toList, quotedMorphemes text), by rw [htext], isWord_quoted text, ?_, ?_⟩
    · by_cases hempty : text = ""
      · subst hempty
        exact ⟨_, rfl⟩
      · have hliterals : literals text = [⟨.literal text, none⟩] := if_neg hempty
        rw [quotedMorphemes, hliterals]
        exact ⟨_, rfl⟩
    · rw [hspelled]
      by_cases hempty : text = ""
      · subst hempty
        rfl
      · have hliterals : literals text = [⟨.literal text, none⟩] := if_neg hempty
        rw [quotedMorphemes, hliterals]
        have hjoin : String.join [text] = text := by simp [String.join]
        show (pure [Value.string (String.join [text])] : Meaning.Eval σ (List Value)) = _
        rw [hjoin]

theorem writes_nil (host : Host σ) : ∃ item, Writes host item .nil := by
  refine ⟨(_, [⟨.expression ⟨[], none⟩, none⟩]), rfl, isWord_nil, ⟨_, rfl⟩, ?_⟩
  rw [Value.spelled] <;> simp
  rfl

theorem writes_script (host : Host σ) {script : Script} {text : String} (h : Faithful (script, text)) :
    ∃ item, Writes host item (.script script (some text)) := by
  have hdisplay : (Value.display (.script script (some text))).toList =
      '\x7b' :: text.toList ++ ['\x7d'] := by
    rw [Value.display]
    exact toList_brace text
  refine ⟨(_, [⟨.block script text, none⟩]), rfl,
    isWord_brackets (by decide) hdisplay (content_of_faithful h), ⟨_, rfl⟩, ?_⟩
  rw [Value.spelled] <;> simp
  rfl

theorem writes_tuple {items : List Written} {values : List Value} (h : WritesAll host items values) :
    ∃ item, Writes host item (.tuple values) := by
  have hdisplay : (Value.display (.tuple values)).toList =
      '(' :: (Value.displayWords values).toList ++ [')'] := by
    rw [Value.display]
    exact toList_parentheses _
  refine ⟨(_, [⟨.tuple (tupleScript items), none⟩]), rfl,
    isWord_brackets (by decide) hdisplay (WritesAll.content h), WritesAll.tuple_compiles h, ?_⟩
  show (do return [← (do return Value.tuple (← Meaning.tuple host (tupleScript items)))]) = _
  rw [WritesAll.tuple_means h, Value.spelled]
  rfl

/-! ## Words of all values -/

/-- A selector of values that have a word has a morpheme. -/
theorem exists_selects (hhost : host.MakesGeneric) {selector : Selector} (hformed : selector.IsFormed)
    (hkeys : ∀ keys, selector = .keyed keys → ∀ key ∈ keys, ∃ item, Writes host item key)
    (hrules : ∀ rules, selector = .generic rules → ∀ words, .tuple words ∈ rules →
      ∀ word ∈ words, ∃ item, Writes host item word) :
    ∃ morpheme, Selects host morpheme selector := by
  cases selector with
  | indexed index => exact hformed.elim
  | custom selector => exact hformed.elim
  | keyed keys =>
    obtain ⟨items, hitems⟩ := exists_writesAll (hkeys keys rfl)
    exact ⟨_, selects_keyed hitems hformed⟩
  | generic rules =>
    obtain ⟨hne, htuples⟩ := hformed
    obtain ⟨sentences, hsentences⟩ := exists_writesRules htuples (hrules rules rfl)
    exact ⟨_, selects_generic hhost hsentences hne⟩

theorem exists_selectsAll (hhost : host.MakesGeneric) {chain : List Selector}
    (hformed : ∀ selector ∈ chain, selector.IsFormed)
    (hkeys : ∀ keys, .keyed keys ∈ chain → ∀ key ∈ keys, ∃ item, Writes host item key)
    (hrules : ∀ rules, .generic rules ∈ chain → ∀ words, .tuple words ∈ rules →
      ∀ word ∈ words, ∃ item, Writes host item word) :
    ∃ selectors, SelectsAll host selectors chain := by
  induction chain with
  | nil => exact ⟨[], .nil⟩
  | cons selector rest ih =>
    obtain ⟨morpheme, hmorpheme⟩ := exists_selects hhost (hformed selector List.mem_cons_self)
      (fun keys hselector => hkeys keys (hselector ▸ List.mem_cons_self))
      (fun rules hselector => hrules rules (hselector ▸ List.mem_cons_self))
    obtain ⟨selectors, hselectors⟩ := ih
      (fun selector hmem => hformed selector (List.mem_cons_of_mem _ hmem))
      (fun keys hmem => hkeys keys (List.mem_cons_of_mem _ hmem))
      (fun rules hmem => hrules rules (List.mem_cons_of_mem _ hmem))
    exact ⟨morpheme :: selectors, .cons hmorpheme hselectors⟩

/-- Every readable value has a word that writes it. -/
theorem exists_writes (hhost : host.MakesGeneric) {value : Value} (h : value.Readable) :
    ∃ item, Writes host item value := by
  induction h with
  | nil => exact writes_nil host
  | boolean value => exact writes_boolean host value
  | integer value => exact writes_integer host value
  | string text => exact writes_string host text
  | tuple _ ih =>
    obtain ⟨items, hitems⟩ := exists_writesAll ih
    exact writes_tuple hitems
  | script hparse hblock => exact writes_script host (faithful_of_parse hparse hblock)
  | qualified hsource _ hchain hformed hapart _ _ ihitems ihkeys ihrules =>
    obtain ⟨selectors, hselectors⟩ := exists_selectsAll hhost hformed ihkeys ihrules
    rcases hsource with ⟨items, rfl⟩ | ⟨text, rfl, htext⟩
    · obtain ⟨written, hwritten⟩ := exists_writesAll (ihitems items rfl)
      exact ⟨_, writes_qualified (begins_tuple hwritten) hselectors hchain hapart⟩
    · by_cases hliteral : isLiteralSafe text = true
      · exact ⟨_, writes_qualified (begins_literal host hliteral) hselectors hchain hapart⟩
      · obtain ⟨script, hbegins⟩ := begins_block host hliteral (htext.resolve_left hliteral)
        exact ⟨_, writes_qualified hbegins hselectors hchain hapart⟩

/-! ## Reading back -/

/-- A word that means a value is evaluated to it. -/
theorem evaluateWord_of_means (evaluator : Evaluator σ) {word : Word} {steps : List Compile.Step}
    {value : Value} (hcompiles : Compile.word word = .ok steps)
    (hmeans : Meaning.word evaluator.host word = pure [value]) (env : σ) :
    evaluator.evaluateWord word env = (.ok value, env) := by
  have hrun := Meaning.performs_word evaluator.host word steps hcompiles
    (Compile.assemble evaluator.source steps) [] .start [] env rfl (List.prefix_refl _)
  rw [List.append_nil, hmeans] at hrun
  obtain ⟨command, result, -, hrun⟩ := hrun
  have hexecute : Machine.start.execute evaluator.host (Compile.assemble evaluator.source steps) env =
      Machine.run evaluator.host (Compile.assemble evaluator.source steps)
        (steps.map Compile.Step.instruction) .start env := rfl
  unfold Evaluator.evaluateWord Program.ofWord
  rw [hcompiles]
  show evaluator.runProgram (Compile.assemble evaluator.source steps) env = _
  unfold Evaluator.runProgram Evaluator.execute
  rw [hexecute, hrun]
  rfl

end Reader

/-- An evaluator that was given nothing: no variables, no commands and no source, and rules that are not
empty make the selector by these rules. -/
def Evaluator.bare {σ : Type} (applyCustom : CustomSelection)
    (execute : Command → List Value → σ → Except Crash Outcome × σ)
    (resume : Command → Option (Outcome → σ → Except Crash Outcome × σ)) : Evaluator σ where
  host :=
    { lookup := fun _ _ => none
      findCommand := fun _ _ => none
      makeSelector := fun rules env => ((Selector.ofRules rules).map some, env)
      applyCustom := applyCustom
      execute := execute
      resume := resume }
  source := none
  options := ⟨false⟩

/-- **Reading back.**  The source form of a readable value is one word, and evaluating it gives the value
with the texts of its booleans and integers in their place; without any of these, the value itself. -/
theorem Evaluator.evaluateWordText_display {σ : Type} (applyCustom : CustomSelection)
    (execute : Command → List Value → σ → Except Crash Outcome × σ)
    (resume : Command → Option (Outcome → σ → Except Crash Outcome × σ)) (env : σ) {value : Value}
    (h : value.Readable) :
    (bare applyCustom execute resume).evaluateWordText value.display env = (.ok value.spelled, env) ∧
      (value.hasScalar = false →
        (bare applyCustom execute resume).evaluateWordText value.display env = (.ok value, env)) := by
  have hspelled : (bare applyCustom execute resume).evaluateWordText value.display env =
      (.ok value.spelled, env) := by
    have hwrites : ∃ item, Reader.Writes (bare applyCustom execute resume).host item value :=
      Reader.exists_writes (fun _ _ => rfl) h
    obtain ⟨item, hitem⟩ := hwrites
    obtain ⟨steps, hsteps⟩ := hitem.compiles
    have hparse := Reader.parse_word (hitem.text ▸ hitem.isWord)
    unfold evaluateWordText
    rw [hparse]
    exact Reader.evaluateWord_of_means _ hsteps hitem.means env
  refine ⟨hspelled, fun hscalar => ?_⟩
  rw [hspelled, Value.spelled_eq_self value hscalar]

/-- `("" (3 "a b")("\$x"){[] true} {a})` as a value. -/
theorem Evaluator.evaluateWordText_display_nested :
    let block : Script := ⟨[⟨[⟨[⟨.literal "a", none⟩], none⟩], none⟩], none⟩
    let keys : Selector := .keyed [.string "$x"]
    let script : Value := .script block (some "a")
    let value : Value := .tuple [.string "", .qualified (.tuple [.integer 3, .string "a b"])
      [keys, .generic [.tuple [.nil, .boolean true]]], script]
    let evaluator : Evaluator Unit :=
      bare (fun _ value => .ok value) (fun _ _ env => (.ok .nil, env)) (fun _ => none)
    value.Readable ∧ evaluator.evaluateWordText value.display () =
      (.ok (.tuple [.string "", .qualified (.tuple [.string "3", .string "a b"])
        [keys, .generic [.tuple [.nil, .string "true"]]], script]), ()) ∧
      script.hasScalar = false ∧
      evaluator.evaluateWordText script.display () = (.ok script, ()) := by
  intro block keys script value evaluator
  have hscript : script.Readable := by
    have hparse : parse "\x7ba\x7d" ⟨false⟩ =
        .ok ⟨[⟨[⟨[⟨.block block "a", none⟩], none⟩], none⟩], none⟩ := by
      cbv
    refine .script hparse ?_
    simp [Script.blocks, Sentence.allBlocks, Word.allBlocks, Morpheme.allBlocks, Morpheme.Kind.blocks]
  have hsource : (Value.tuple [.integer 3, .string "a b"]).Readable := by
    refine .tuple fun item hitem => ?_
    simp only [List.mem_cons, List.not_mem_nil, or_false] at hitem
    rcases hitem with rfl | rfl <;> constructor
  have hqualified : (Value.qualified (.tuple [.integer 3, .string "a b"])
      [keys, .generic [.tuple [.nil, .boolean true]]]).Readable := by
    refine .qualified (.inl ⟨_, rfl⟩) ?_ (by simp) ?_ ?_ ?_ ?_
    · intro items hitems
      cases hitems
      cases hsource with
      | tuple hitems => exact hitems
    · simp [keys, Selector.IsFormed]
    · simp [keys, Selector.Apart]
    · intro more hmore key hkey
      simp only [List.mem_cons, List.not_mem_nil, or_false, keys, Selector.keyed.injEq, reduceCtorEq]
        at hmore
      subst hmore
      rw [List.mem_singleton.1 hkey]
      exact .string _
    · intro rules hrules words hwords word hword
      simp only [List.mem_cons, List.not_mem_nil, or_false, keys, Selector.generic.injEq, reduceCtorEq,
        false_or] at hrules
      subst hrules
      cases List.mem_singleton.1 hwords
      simp only [List.mem_cons, List.not_mem_nil, or_false] at hword
      rcases hword with rfl | rfl <;> constructor
  have hvalue : value.Readable := by
    refine .tuple fun item hitem => ?_
    simp only [List.mem_cons, List.not_mem_nil, or_false] at hitem
    rcases hitem with rfl | rfl | rfl
    · exact .string _
    · exact hqualified
    · exact hscript
  exact ⟨hvalue, (evaluateWordText_display _ _ _ () hvalue).1, rfl,
    (evaluateWordText_display _ _ _ () hscript).2 rfl⟩

end Parlance
