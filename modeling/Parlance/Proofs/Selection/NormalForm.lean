import Mathlib.Data.List.Chain
import Parlance.Proofs.Selection.Deferred

/-!
# Chains in normal form

Five calls select from a value, and on a qualified value each of them lets a selector join the chain.
Keys join the keys before them, so no keys follow keys in a chain, and what the chain selects by is, key
by key, what the calls asked for.  No call fails.

Selectors without keys or rules cannot be made, but two of the calls take lists as they come: an empty
list is the one way to a selector that is empty.

    call.run (.qualified source chain) = .ok (.qualified source (call.selector.append chain))
                                                                                  (run_qualified)
    chain.IsChain Apart → (selector.append chain).IsChain Apart                  (isChain_append)
    the parts of selector.append chain are those of chain and then those of selector
                                                                                    (parts_append)
-/

namespace Parlance

/-! ## Chains -/

namespace Selector

/-- A selector key by key. -/
def parts : Selector → List Selector
  | .keyed keys => keys.map fun key => .keyed [key]
  | selector => [selector]

variable {selector other : Selector} {chain : List Selector}

/-- A selector that joins a chain comes last in what the chain selects by. -/
theorem parts_append (selector : Selector) (chain : List Selector) :
    (append selector chain).flatMap parts = chain.flatMap parts ++ selector.parts := by
  rcases append_cases selector chain with ⟨hlast, -⟩ | ⟨before, keys, more, rfl, rfl, hjoined⟩
  · rw [hlast, List.flatMap_append, List.flatMap_singleton]
  · rw [hjoined, List.flatMap_append, List.flatMap_append, List.flatMap_singleton,
      List.flatMap_singleton, List.append_assoc, parts, parts, parts, List.map_append]

theorem apart_keyed {keys : List Value} (h : Apart other (.keyed keys)) (more : List Value) :
    Apart other (.keyed more) := by
  cases other with
  | keyed => exact h.elim
  | indexed | generic | custom => trivial

/-- Keys that join others stand where these stood, so no keys follow keys. -/
theorem isChain_append (selector : Selector) (h : chain.IsChain Apart) :
    (append selector chain).IsChain Apart := by
  rcases append_cases selector chain with ⟨hlast, hapart⟩ | ⟨before, keys, more, rfl, -, hjoined⟩
  · rw [hlast]
    refine List.isChain_append.2 ⟨h, .singleton selector, fun last hend first hfirst => ?_⟩
    rw [← Option.some.inj hfirst]
    exact hapart last hend
  · rw [hjoined]
    obtain ⟨hbefore, -, hlink⟩ := List.isChain_append.1 h
    refine List.isChain_append.2 ⟨hbefore, .singleton _, fun last hend first hfirst => ?_⟩
    rw [← Option.some.inj hfirst]
    exact apart_keyed (hlink last hend _ rfl) _

/-- Keys that join others are together empty only where both are. -/
theorem keyed_nil_of_append (h : .keyed [] ∈ append selector chain) :
    .keyed [] ∈ chain ∨ selector = .keyed [] := by
  rcases append_cases selector chain with ⟨hlast, -⟩ | ⟨before, keys, more, rfl, -, hjoined⟩
  · rw [hlast, List.mem_append, List.mem_singleton] at h
    exact h.imp_right Eq.symm
  · rw [hjoined, List.mem_append, List.mem_singleton] at h
    refine .inl (List.mem_append.2 (h.imp_right fun hkeyed => ?_))
    rw [(List.append_eq_nil_iff.1 (keyed.inj hkeyed).symm).1]
    exact List.mem_cons_self

/-- A selector by rules stands in a chain as it is, so the parts show it. -/
theorem generic_mem_parts_iff {rules : List Value} :
    .generic rules ∈ chain.flatMap parts ↔ .generic rules ∈ chain := by
  constructor
  · intro h
    obtain ⟨selector, hmem, hpart⟩ := List.mem_flatMap.1 h
    cases selector with
    | keyed keys =>
      obtain ⟨key, -, heq⟩ := List.mem_map.1 hpart
      cases heq
    | generic own =>
      cases List.mem_singleton.1 hpart
      exact hmem
    | indexed | custom => cases List.mem_singleton.1 hpart
  · exact fun h => List.mem_flatMap.2 ⟨_, h, List.mem_cons_self⟩

end Selector

/-! ## Calls -/

/-- A call that selects from a value. -/
inductive Selecting where
  | select (selector : Selector)
  | index (item : Value)
  | key (item : Value)
  | keys (items : List Value)
  | rules (items : List Value)

namespace Selecting

/-- The result of a call. -/
def run (custom : CustomSelection) : Selecting → Value → Except ValueError Value
  | .select selector, value => value.select custom selector
  | .index item, value => value.selectIndex item
  | .key item, value => value.selectKey item
  | .keys items, value => value.selectKeys items
  | .rules items, value => value.selectRules items

/-- Calls one after the other, each on what the one before it gave. -/
def runAll (custom : CustomSelection) : List Selecting → Value → Except ValueError Value
  | [], value => .ok value
  | call :: rest, value => (call.run custom value).bind (runAll custom rest)

/-- The selector that a call selects by. -/
def selector : Selecting → Selector
  | .select selector => selector
  | .index item => .indexed item
  | .key item => .keyed [item]
  | .keys items => .keyed items
  | .rules items => .generic items

variable {custom : CustomSelection}

/-- A qualified value takes what a call selects by into its chain. -/
theorem run_qualified (call : Selecting) (source : Value) (chain : List Selector) :
    call.run custom (.qualified source chain) =
      .ok (.qualified source (call.selector.append chain)) := by
  have htuple : ∀ items, Value.qualified source chain ≠ .tuple items := by simp
  cases call with
  | keys keys => rfl
  | select | index | key | rules => exact Value.mapElements_of_ne_tuple htuple

/-- The calls make the selectors of a chain join another one after the other. -/
theorem runAll_qualified (calls : List Selecting) (source : Value) (chain : List Selector) :
    runAll custom calls (.qualified source chain) =
      .ok (.qualified source (Selector.appendAll (calls.map selector) chain)) := by
  induction calls generalizing chain with
  | nil => rfl
  | cons call rest ih =>
    rw [runAll, run_qualified]
    exact ih (call.selector.append chain)

end Selecting

/-! ## Chains that calls make -/

namespace Selector

theorem isChain_appendAll (selectors : List Selector) {chain : List Selector}
    (h : chain.IsChain Apart) : (appendAll selectors chain).IsChain Apart := by
  induction selectors generalizing chain with
  | nil => exact h
  | cons selector rest ih => exact ih (isChain_append selector h)

theorem parts_appendAll (selectors chain : List Selector) :
    (appendAll selectors chain).flatMap parts = chain.flatMap parts ++ selectors.flatMap parts := by
  induction selectors generalizing chain with
  | nil => exact (List.append_nil _).symm
  | cons selector rest ih =>
    show (appendAll rest (append selector chain)).flatMap parts = _
    rw [ih, parts_append, List.append_assoc, List.flatMap_cons]

theorem keyed_nil_of_appendAll {selectors chain : List Selector}
    (h : .keyed [] ∈ appendAll selectors chain) : .keyed [] ∈ chain ∨ .keyed [] ∈ selectors := by
  induction selectors generalizing chain with
  | nil => exact .inl h
  | cons selector rest ih =>
    rcases @ih (append selector chain) h with hfirst | hrest
    · exact (keyed_nil_of_append hfirst).imp_right fun heq => List.mem_cons.2 (.inl heq.symm)
    · exact .inr (List.mem_cons_of_mem _ hrest)

end Selector

namespace Selecting

/-- Made selectors are not empty, so an empty selector by keys is from a call with no keys. -/
theorem keys_nil_of_mem {calls : List Selecting}
    (h : ∀ selector, .select selector ∈ calls → selector.Made) (hmem : .keyed [] ∈ calls.map selector) :
    .keys [] ∈ calls := by
  obtain ⟨call, hcall, hselector⟩ := List.mem_map.1 hmem
  cases call with
  | select selector =>
    cases hselector
    exact absurd rfl (Selector.made_keyed_iff.1 (h _ hcall))
  | keys items =>
    cases hselector
    exact hcall
  | index | key | rules => cases hselector

/-- Made selectors are not empty, so an empty selector by rules is from a call with no rules. -/
theorem rules_nil_mem_iff {calls : List Selecting}
    (h : ∀ selector, .select selector ∈ calls → selector.Made) :
    .generic [] ∈ calls.map selector ↔ .rules [] ∈ calls := by
  constructor
  · intro hmem
    obtain ⟨call, hcall, hselector⟩ := List.mem_map.1 hmem
    cases call with
    | select selector =>
      cases hselector
      exact absurd rfl (Selector.made_generic_iff.1 (h _ hcall))
    | rules items =>
      cases hselector
      exact hcall
    | index | key | keys => cases hselector
  · exact List.mem_map_of_mem (f := selector)

/-- **Chains stay in normal form.**  Calls on a qualified value without selectors never fail, whatever
they are given.  In the chain that they make no keys follow keys, and key by key it is what the calls
select by.  It has a selector without keys only where a call was given no keys, and a selector without
rules exactly where a call was given no rules. -/
theorem runAll_normal (custom : CustomSelection) (source : Value) {calls : List Selecting}
    (h : ∀ selector, .select selector ∈ calls → selector.Made) :
    ∃ chain, runAll custom calls (.qualified source []) = .ok (.qualified source chain) ∧
      chain.IsChain Selector.Apart ∧
      chain.flatMap Selector.parts = calls.flatMap (fun call => call.selector.parts) ∧
      (.keyed [] ∈ chain → .keys [] ∈ calls) ∧ (.generic [] ∈ chain ↔ .rules [] ∈ calls) := by
  have hparts (selectors : List Selector) :
      (Selector.appendAll selectors []).flatMap Selector.parts = selectors.flatMap Selector.parts := by
    rw [Selector.parts_appendAll, List.flatMap_nil, List.nil_append]
  refine ⟨_, runAll_qualified calls source [], Selector.isChain_appendAll _ .nil, ?_, fun hempty => ?_, ?_⟩
  · rw [hparts, List.flatMap_map]
  · exact keys_nil_of_mem h ((Selector.keyed_nil_of_appendAll hempty).resolve_left List.not_mem_nil)
  · rw [← rules_nil_mem_iff h, ← Selector.generic_mem_parts_iff, hparts, Selector.generic_mem_parts_iff]

/-- Keys join across three kinds of calls, and an index keeps the keys after it apart. -/
theorem runAll_normal_joined :
    let custom : CustomSelection := fun _ value => .ok value
    let source : Value := .string "row"
    let calls : List Selecting := [.key (.string "a"), .select (.keyed [.string "b", .nil]),
      .keys [.string "c"], .index (.integer 1), .keys [.string "d"], .rules [.string "e"]]
    let chain : List Selector := [.keyed [.string "a", .string "b", .nil, .string "c"],
      .indexed (.integer 1), .keyed [.string "d"], .generic [.string "e"]]
    (∀ selector, .select selector ∈ calls → selector.Made) ∧
      runAll custom calls (.qualified source []) = .ok (.qualified source chain) ∧
      chain.IsChain Selector.Apart ∧
      chain.flatMap Selector.parts = calls.flatMap (fun call => call.selector.parts) ∧
      .keyed [] ∉ chain ∧ .generic [] ∉ chain := by
  intro custom source calls chain
  have hmade : ∀ selector, .select selector ∈ calls → selector.Made := by
    intro selector hmem
    have hselector : selector = .keyed [.string "b", .nil] := by simpa [calls] using hmem
    rw [hselector, Selector.made_keyed_iff]
    exact List.cons_ne_nil _ _
  obtain ⟨result, hrun, hapart, hparts, hkeys, hrules⟩ := runAll_normal custom source hmade
  have hresult : runAll custom calls (.qualified source []) = .ok (.qualified source chain) := rfl
  cases hrun.symm.trans hresult
  exact ⟨hmade, hresult, hapart, hparts, fun hmem => by simpa [calls] using hkeys hmem,
    fun hmem => by simpa [calls] using hrules.1 hmem⟩

/-- No keys and no rules make no selector, but a qualified value takes either into its chain. -/
theorem runAll_empty :
    Selector.ofKeys [] = .error .emptySelector ∧ Selector.ofRules [] = .error .emptySelector ∧
      runAll (fun _ value => .ok value) [.keys [], .rules []] (.qualified (.string "row") []) =
        .ok (.qualified (.string "row") [.keyed [], .generic []]) :=
  ⟨rfl, rfl, rfl⟩

end Selecting

end Parlance
