import Parlance.Dialect.Commands
import Parlance.Proofs.Selection

/-!
# Deferred selection

A qualified value takes selectors without applying them; they are applied to what its source resolves
to.  Nothing changes by that, although keys that follow keys join them and so select together.

    selectors join the chain of a qualified value, and selecting never fails    (selectAll_qualified)
    chain ++ selector, keys joined, selects ↔ the chain selects and then the selector
                                                                     (selectAll_append_eq_ok_iff)
    host.resolve (the source with selectors) succeeds ↔ host.resolve source does, and then the selectors
                                                                                 (resolve_deferred)
-/

namespace Parlance

/-! ## Chains -/

namespace Selector

/-- A selector comes last in a chain, apart from the others, or its keys join the keys that come
last. -/
theorem append_cases (selector : Selector) (chain : List Selector) :
    (append selector chain = chain ++ [selector] ∧
      ∀ last, chain.getLast? = some last → Apart last selector) ∨
      ∃ before keys more, chain = before ++ [.keyed keys] ∧ selector = .keyed more ∧
        append selector chain = before ++ [.keyed (keys ++ more)] := by
  induction chain with
  | nil => exact .inl ⟨rfl, fun last h => by cases h⟩
  | cons first rest ih =>
    cases rest with
    | nil =>
      have hother : Apart first selector → append selector [first] = [first] ++ [selector] →
          append selector [first] = [first] ++ [selector] ∧
            ∀ last, [first].getLast? = some last → Apart last selector :=
        fun hapart happend => ⟨happend, fun last hlast => Option.some.inj hlast ▸ hapart⟩
      cases first with
      | keyed keys =>
        cases selector with
        | keyed more => exact .inr ⟨[], keys, more, rfl, rfl, rfl⟩
        | indexed | generic | custom => exact .inl (hother trivial rfl)
      | indexed | generic | custom => exact .inl (hother trivial rfl)
    | cons second rest =>
      have happend : append selector (first :: second :: rest) =
          first :: append selector (second :: rest) := rfl
      rw [happend]
      rcases ih with ⟨hlast, hapart⟩ | ⟨before, keys, more, hchain, hselector, hjoined⟩
      · exact .inl ⟨congrArg (first :: ·) hlast, fun last h => hapart last h⟩
      · exact .inr ⟨first :: before, keys, more, congrArg (first :: ·) hchain, hselector,
          congrArg (first :: ·) hjoined⟩

/-- A chain that several selectors have joined, one after the other. -/
def appendAll (selectors chain : List Selector) : List Selector :=
  selectors.foldl (fun chain selector => append selector chain) chain

theorem made_append {selector : Selector} {chain : List Selector} (hselector : selector.Made)
    (hchain : ∀ other ∈ chain, other.Made) : ∀ other ∈ append selector chain, other.Made := by
  rcases append_cases selector chain with ⟨hlast, -⟩ | ⟨before, keys, more, rfl, -, hjoined⟩
  · rw [hlast]
    intro other hother
    rcases List.mem_append.1 hother with hbefore | hsingle
    · exact hchain other hbefore
    · rw [List.mem_singleton.1 hsingle]
      exact hselector
  · rw [hjoined]
    intro other hother
    rcases List.mem_append.1 hother with hbefore | hsingle
    · exact hchain other (List.mem_append_left _ hbefore)
    · have hkeys := made_keyed_iff.1 (hchain (.keyed keys) (by simp))
      rw [List.mem_singleton.1 hsingle]
      exact made_keyed_iff.2 (List.append_ne_nil_of_left_ne_nil hkeys more)

end Selector

/-! ## Selecting by a chain -/

namespace Value

variable {custom : CustomSelection}

theorem selectAll_cons (selector : Selector) (rest : List Selector) (value : Value) :
    selectAll custom (selector :: rest) value =
      (value.select custom selector).bind (selectAll custom rest) := by
  rw [selectAll]
  cases value.select custom selector <;> rfl

theorem selectAll_append (first last : List Selector) (value : Value) :
    selectAll custom (first ++ last) value =
      (selectAll custom first value).bind (selectAll custom last) := by
  induction first generalizing value with
  | nil => rfl
  | cons selector first ih =>
    rw [List.cons_append, selectAll_cons, selectAll_cons]
    cases value.select custom selector with
    | error error => rfl
    | ok value => exact ih value

theorem selectAll_concat_eq_ok_iff {chain : List Selector} {selector : Selector}
    {value result : Value} :
    selectAll custom (chain ++ [selector]) value = .ok result ↔
      ∃ between, selectAll custom chain value = .ok between ∧
        between.select custom selector = .ok result := by
  have hsingle : ∀ between, selectAll custom [selector] between = between.select custom selector := by
    intro between
    rw [selectAll_cons]
    cases between.select custom selector <;> rfl
  rw [selectAll_append, bind_eq_ok_iff]
  simp only [hsingle]

/-- A selector that joins a chain is applied behind the chain, also when its keys join others. -/
theorem selectAll_append_eq_ok_iff {selector : Selector} {chain : List Selector}
    (hselector : selector.Made) (hchain : ∀ other ∈ chain, other.Made) {value result : Value} :
    selectAll custom (selector.append chain) value = .ok result ↔
      ∃ between, selectAll custom chain value = .ok between ∧
        between.select custom selector = .ok result := by
  rcases Selector.append_cases selector chain with ⟨hlast, -⟩ | ⟨before, keys, more, rfl, rfl, hjoined⟩
  · rw [hlast, selectAll_concat_eq_ok_iff]
  · have hkeys := Selector.made_keyed_iff.1 (hchain (.keyed keys) (by simp))
    have hmore := Selector.made_keyed_iff.1 hselector
    rw [hjoined, selectAll_concat_eq_ok_iff]
    simp only [select_keyed_append_eq_ok_iff hkeys hmore, selectAll_concat_eq_ok_iff]
    constructor
    · rintro ⟨first, hfirst, second, hsecond, hresult⟩
      exact ⟨second, ⟨first, hfirst, hsecond⟩, hresult⟩
    · rintro ⟨second, ⟨first, hfirst, hsecond⟩, hresult⟩
      exact ⟨first, hfirst, second, hsecond, hresult⟩

theorem selectAll_appendAll_eq_ok_iff {selectors chain : List Selector}
    (hselectors : ∀ selector ∈ selectors, selector.Made) (hchain : ∀ other ∈ chain, other.Made)
    {value result : Value} :
    selectAll custom (Selector.appendAll selectors chain) value = .ok result ↔
      ∃ between, selectAll custom chain value = .ok between ∧
        selectAll custom selectors between = .ok result := by
  induction selectors generalizing chain with
  | nil => simp [Selector.appendAll, selectAll]
  | cons selector rest ih =>
    obtain ⟨hselector, hrest⟩ := List.forall_mem_cons.1 hselectors
    show selectAll custom (Selector.appendAll rest (selector.append chain)) value = .ok result ↔ _
    rw [ih hrest (Selector.made_append hselector hchain)]
    simp only [selectAll_append_eq_ok_iff hselector hchain, selectAll_cons, bind_eq_ok_iff]
    constructor
    · rintro ⟨second, ⟨first, hfirst, hsecond⟩, hresult⟩
      exact ⟨first, hfirst, second, hsecond, hresult⟩
    · rintro ⟨first, hfirst, second, hsecond, hresult⟩
      exact ⟨second, ⟨first, hfirst, hsecond⟩, hresult⟩

/-- A qualified value takes any selectors into its chain. -/
theorem selectAll_qualified (selectors : List Selector) (source : Value) (chain : List Selector) :
    selectAll custom selectors (.qualified source chain) =
      .ok (.qualified source (Selector.appendAll selectors chain)) := by
  induction selectors generalizing chain with
  | nil => rfl
  | cons selector rest ih =>
    have hselect : select custom selector (.qualified source chain) =
        .ok (.qualified source (selector.append chain)) := by
      rw [select, mapElements_of_ne_tuple (by simp)]
    rw [selectAll_cons, hselect]
    exact ih (selector.append chain)

end Value

/-- **Deferring a selection changes nothing.**  Selectors that a qualified value has taken, one after the
other, are never refused.  Resolving it then gives what the selectors give, one after the other, of what
its source resolves to, and fails where that fails. -/
theorem Host.resolve_deferred {σ : Type} (host : Host σ) (env : σ) (source : Value)
    {selectors : List Selector} (h : ∀ selector ∈ selectors, selector.Made) :
    ∃ deferred, Value.selectAll host.applyCustom selectors (.qualified source []) = .ok deferred ∧
      ∀ result, host.resolve env deferred = .ok result ↔
        ∃ value, host.resolve env source = .ok value ∧
          Value.selectAll host.applyCustom selectors value = .ok result := by
  refine ⟨_, Value.selectAll_qualified selectors source [], fun result => ?_⟩
  rw [resolve_qualified, bind_eq_ok_iff]
  simp only [Value.selectAll_appendAll_eq_ok_iff h (List.forall_mem_nil _), Value.selectAll,
    Except.ok.injEq, exists_eq_left']

/-- Keys one after the other, an index and a wrapping selector, on a tuple of two names.  What the keys
find in the variable is a tuple that holds a qualified value. -/
theorem Host.resolve_deferred_nested :
    let host := Dialect.host ⟨.generic, none, none, ⟨false⟩⟩ 1
    let wrapper := Selector.custom (Dialect.wrapSelector 0 [.string "r"])
    let selectors : List Selector :=
      [.keyed [.string "a"], .keyed [.string "b"], .indexed (.integer 1), wrapper]
    let found := Value.dictionary [("b", .list [.nil, .boolean true])]
    let workspace := Dialect.Workspace.empty.set "d"
      (.dictionary [("a", .tuple [found, .qualified (.string "x") [.keyed [.string "k"]]])])
    let selected := Value.tuple [.list [.boolean true, .tuple [.string "r"]],
      .qualified (.string "x")
        [.keyed [.string "k", .string "b"], .indexed (.integer 1), wrapper]]
    (∀ selector ∈ selectors, selector.Made) ∧
      host.resolve workspace (.qualified (.tuple [.string "d", .string "d"])
        [.keyed [.string "a", .string "b"], .indexed (.integer 1), wrapper]) =
          .ok (.tuple [selected, selected]) := by
  intro host wrapper selectors found workspace selected
  have hmade : ∀ selector ∈ selectors, selector.Made := by
    intro selector hselector
    simp only [selectors, List.mem_cons, List.not_mem_nil, or_false] at hselector
    rcases hselector with rfl | rfl | rfl | rfl
    · exact Selector.made_keyed_iff.2 (by simp)
    · exact Selector.made_keyed_iff.2 (by simp)
    · exact .indexed _
    · exact .custom _
  refine ⟨hmade, ?_⟩
  obtain ⟨deferred, hdeferred, hresolve⟩ :=
    resolve_deferred host workspace (.tuple [.string "d", .string "d"]) hmade
  cases hdeferred
  exact (hresolve _).2 ⟨_, rfl, rfl⟩

end Parlance
