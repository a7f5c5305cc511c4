import Mathlib.Data.List.Chain
import Parlance.Proofs.Display.Forms

/-!
# Words of qualified values

The source of a qualified value is a morpheme, and each of its selectors one more.  A selector adds
itself to the word and, when the word is evaluated, to the chain; keys would join the keys before
them, so a chain is read back as it was only when its keys stand apart.

    Begins host source value → Forall₂ (Selects host) selectors chain → chain.IsChain Apart →
      Writes host (source :: selectors) (.qualified value chain)                     (writes_qualified)
-/

namespace Parlance

namespace Selector

/-- A selector that stays apart from the one before it comes after it. -/
theorem append_of_apart {selector : Selector} {chain : List Selector}
    (h : (chain ++ [selector]).IsChain Apart) : append selector chain = chain ++ [selector] := by
  induction chain with
  | nil => rfl
  | cons first rest ih =>
    cases rest with
    | nil =>
      have hapart : Apart first selector := (List.isChain_cons_cons.1 h).1
      cases first <;> cases selector <;> first | rfl | exact hapart.elim
    | cons second rest =>
      have hrest : (second :: rest ++ [selector]).IsChain Apart := (List.isChain_cons_cons.1 h).2
      rw [append, ih hrest]
      · rfl
      · simp

theorem Apart.spelled {first second : Selector} (h : Apart first second) :
    Apart first.spelled second.spelled := by
  cases first <;> cases second <;> first | exact h.elim | trivial

theorem isChain_allSpelled {chain : List Selector} (h : chain.IsChain Apart) :
    (allSpelled chain).IsChain Apart := by
  rw [allSpelled_eq_map]
  exact List.isChain_map_of_isChain spelled (fun _ _ hapart => hapart.spelled) h

end Selector

namespace Reader

variable {σ : Type} (host : Host σ)

/-! ## Selectors -/

/-- A morpheme is the source form of a selector, and it means that the selector joins the chain. -/
structure Selects (morpheme : Morpheme) (selector : Selector) : Prop
    extends IsSelector selector.display.toList morpheme where
  compiles : ∃ steps, Compile.selector morpheme = .ok steps
  means : ∀ source chain, Meaning.selector host (.qualified source chain) morpheme =
    pure (.qualified source (selector.spelled.append chain))

variable {host} {items : List Written} {rules : List (List Written)} {values : List Value}

/-- Keys select by the values of their words. -/
theorem selects_keyed (h : WritesAll host items values) (hne : values ≠ []) :
    Selects host ⟨.tuple (tupleScript items), none⟩ (.keyed values) := by
  have hdisplay : (Selector.keyed values).display.toList =
      '(' :: (Value.displayWords values).toList ++ [')'] := by
    rw [Selector.display]
    exact toList_parentheses _
  have hspelled := Value.allSpelled_ne_nil hne
  obtain ⟨steps, hsteps⟩ := WritesAll.tuple_compiles h
  refine ⟨isSelector_brackets (by decide) hdisplay (WritesAll.content h), ?_, fun source chain => ?_⟩
  · exact ⟨steps ++ [.op .selectKeys none], by rw [Compile.selector, hsteps]; rfl⟩
  · have hkeys : Selector.ofKeys (Value.allSpelled values) = .ok (.keyed (Value.allSpelled values)) :=
      if_neg (by simpa using hspelled)
    rw [Meaning.selector, WritesAll.tuple_means h, pure_bind, Meaning.selectKeys, hkeys,
      Meaning.demand_ok, pure_bind, Selector.spelled]
    rfl

/-- Rules select by the tuples of their words. -/
theorem selects_generic (hhost : host.MakesGeneric) (h : WritesRules host rules values)
    (hne : values ≠ []) :
    Selects host ⟨.block ⟨rules.map sentenceOf, none⟩ (Value.displayRules values), none⟩
      (.generic values) := by
  have hdisplay : (Selector.generic values).display.toList =
      '\x7b' :: (Value.displayRules values).toList ++ ['\x7d'] := by
    rw [Selector.display]
    exact toList_brace _
  have hspelled := Value.allSpelled_ne_nil hne
  obtain ⟨steps, hsteps⟩ := WritesRules.compiles h
  refine ⟨isSelector_brackets (by decide) hdisplay (WritesRules.content h), ?_, fun source chain => ?_⟩
  · exact ⟨Compile.framed none steps ++ [.op .selectRules none],
      by rw [Compile.selector, hsteps]; rfl⟩
  · have hrules : Selector.ofRules (Value.allSpelled values) =
        .ok (.generic (Value.allSpelled values)) := if_neg (by simpa using hspelled)
    have hresolve : ∀ env, host.resolveSelector (.tuple (Value.allSpelled values)) env =
        (.ok (.generic (Value.allSpelled values)), env) := by
      intro env
      unfold Host.resolveSelector
      dsimp only [Value.asValues]
      rw [hhost, hrules]
      rfl
    rw [Meaning.selector, WritesRules.means h, pure_bind, Meaning.selectRules, Selector.spelled]
    funext latest env
    rw [Meaning.bind_apply, hresolve]
    rfl

/-! ## Chains of selectors -/

/-- The morphemes of a chain. -/
abbrev SelectsAll (host : Host σ) : List Morpheme → List Selector → Prop :=
  List.Forall₂ (Selects host)

namespace SelectsAll

variable {selectors : List Morpheme} {chain : List Selector}

theorem areSelectors (h : SelectsAll host selectors chain) : AreSelectors selectors chain :=
  h.imp fun _ _ hselects => hselects.toIsSelector

theorem compiles (h : SelectsAll host selectors chain) :
    ∃ steps, Compile.stems (.selectors []) selectors = .ok steps := by
  induction h with
  | nil =>
    refine ⟨[], ?_⟩
    rw [Compile.stems]
    · rfl
    · rintro _ _ _ ⟨⟩
  | cons hselector _ ih =>
    obtain ⟨first, hfirst⟩ := hselector.compiles
    obtain ⟨others, hothers⟩ := ih
    refine ⟨first ++ others, ?_⟩
    rw [Compile.stems.eq_4 _ _ _ hselector.isSelector, hfirst, hothers]
    rfl

/-- The selectors join the chain one after the other; with keys apart none of them merge. -/
theorem means (h : SelectsAll host selectors chain) (source : Value) {taken : List Selector}
    (hapart : (taken ++ Selector.allSpelled chain).IsChain Selector.Apart) :
    Meaning.selectors host (.qualified source taken) selectors =
      pure (.qualified source (taken ++ Selector.allSpelled chain)) := by
  induction h generalizing taken with
  | nil => rw [Meaning.selectors, Selector.allSpelled, List.append_nil]
  | @cons morpheme selector selectors chain hselector _ ih =>
    have hsplit : taken ++ Selector.allSpelled (selector :: chain) =
        taken ++ [selector.spelled] ++ Selector.allSpelled chain := by
      rw [Selector.allSpelled, List.append_assoc]
      rfl
    rw [hsplit] at hapart ⊢
    have hfirst : (taken ++ [selector.spelled]).IsChain Selector.Apart := hapart.left_of_append
    rw [Meaning.selectors, hselector.means, pure_bind, Selector.append_of_apart hfirst, ih hapart]

end SelectsAll

/-! ## Sources -/

/-- A morpheme is the source of a qualified word. -/
structure Begins (host : Host σ) (morpheme : Morpheme) (source : Value) : Prop
    extends IsSource (Value.displaySource source).toList morpheme where
  compiles : ∃ steps, Compile.qualifiedSource morpheme = .ok steps
  means : Meaning.qualifiedSource host morpheme = pure source.spelled

theorem begins_tuple (h : WritesAll host items values) :
    Begins host ⟨.tuple (tupleScript items), none⟩ (.tuple values) := by
  have hdisplay : (Value.displaySource (.tuple values)).toList =
      '(' :: (Value.displayWords values).toList ++ [')'] := by
    rw [Value.displaySource]
    exact toList_parentheses _
  obtain ⟨steps, hsteps⟩ := WritesAll.tuple_compiles h
  refine ⟨isSource_brackets (.inl rfl) hdisplay (WritesAll.content h), ?_, ?_⟩
  · exact ⟨steps ++ [.op .setSource none], by rw [Compile.qualifiedSource, hsteps]; rfl⟩
  · rw [Meaning.qualifiedSource, WritesAll.tuple_means h, pure_bind, Value.spelled]

theorem begins_literal (host : Host σ) {text : String} (h : isLiteralSafe text = true) :
    Begins host ⟨.literal text, none⟩ (.string text) := by
  have hdisplay : Value.displaySource (.string text) = text :=
    (Value.displaySource_string text).trans (if_pos h)
  refine ⟨?_, ⟨_, by rw [Compile.qualifiedSource]⟩, ?_⟩
  · rw [hdisplay]
    exact isSource_literal h
  · rw [Meaning.qualifiedSource, Value.spelled_string]

theorem begins_block (host : Host σ) {text : String} (hliteral : ¬ isLiteralSafe text = true)
    (hblock : isBlockSafe text = true) :
    ∃ script, Begins host ⟨.block script text, none⟩ (.string text) := by
  obtain ⟨script, hfaithful⟩ := exists_faithful hblock
  have hdisplay : (Value.displaySource (.string text)).toList = '\x7b' :: text.toList ++ ['\x7d'] := by
    rw [Value.displaySource_string, displaySourceText, if_neg hliteral, if_pos hblock]
    exact toList_brace text
  refine ⟨script, ?_, ⟨_, by rw [Compile.qualifiedSource]⟩, ?_⟩
  · exact isSource_brackets (.inr rfl) hdisplay (content_of_faithful hfaithful)
  · rw [Meaning.qualifiedSource, Value.spelled_string]

/-! ## Qualified words -/

/-- A source and a chain that is not empty, with keys apart, are a qualified word. -/
theorem writes_qualified {morpheme : Morpheme} {source : Value} {selectors : List Morpheme}
    {chain : List Selector} (hsource : Begins host morpheme source)
    (hselectors : SelectsAll host selectors chain) (hchain : chain ≠ [])
    (hapart : chain.IsChain Selector.Apart) :
    Writes host ((Value.display (.qualified source chain)).toList, morpheme :: selectors)
      (.qualified source chain) := by
  have hdisplay : (Value.display (.qualified source chain)).toList =
      (Value.displaySource source).toList ++ (Selector.displayChain chain).toList := by
    rw [Value.display, String.toList_append]
  have hchainText := SelectsAll.areSelectors hselectors
  have hshape : Morpheme.shape (morpheme :: selectors) = .qualified :=
    (shape_chain hsource.toIsSource hchainText).trans (if_neg (by simpa using hchain))
  refine ⟨rfl, ?_, ?_, ?_⟩
  · rw [hdisplay]
    exact isWord_chain hsource.toIsSource hchainText
  · obtain ⟨first, hfirst⟩ := hsource.compiles
    obtain ⟨others, hothers⟩ := SelectsAll.compiles hselectors
    refine ⟨first ++ others, ?_⟩
    rw [Compile.word]
    simp only [hshape]
    rw [hfirst, hothers]
    rfl
  · have hmeans := SelectsAll.means hselectors source.spelled
      (Selector.isChain_allSpelled hapart : ([] ++ Selector.allSpelled chain).IsChain _)
    rw [Meaning.word]
    simp only [hshape]
    rw [hsource.means, pure_bind, hmeans, pure_bind, Value.spelled]
    rfl

end Reader

end Parlance
