import Parlance.Dialect.Commands
import Parlance.Proofs.Equality.Canonical
import Parlance.Proofs.Selection.Deferred

/-!
# What equality is respected by

Selecting and resolving take canonical forms to canonical forms: what they give for the canonical form
of a value is the canonical form of what they give for the value, or both are errors.  Only a real must
not be an index, a key or a name, since the two zeros have different texts, and what custom selectors
select is up to the embedder.

Equal values have one canonical form, so they cannot be told apart by what is selected from them or
what they resolve to.

    selector.Plain → value.canonical.select selector.canonical = (value.select selector).canonical
                                                                                   (select_follows)
    value.Plain → host.canonical.resolve value.canonical = (host.resolve value).canonical
                                                                                  (resolve_follows)
    equality is an equivalence, and equal values stay equal                    (equality_respected)
-/

namespace Parlance

/-! ## Results -/

/-- Two results of one computation on equal things: values that are equal, or two failures. -/
inductive EqualResults : Except ValueError Value → Except ValueError Value → Prop
  | value {a b : Value} (h : a.equals b = true) : EqualResults (.ok a) (.ok b)
  | failure (error other : ValueError) : EqualResults (.error error) (.error other)

/-- The second result is the canonical form of the first one, of which `P` holds, or both are
failures. -/
inductive Follows {α : Type} (P : α → Prop) (form : α → α) :
    Except ValueError α → Except ValueError α → Prop
  | value {a : α} (h : P a) : Follows P form (.ok a) (.ok (form a))
  | failure (error other : ValueError) : Follows P form (.error error) (.error other)

namespace Follows

variable {α β : Type} {P : α → Prop} {Q : β → Prop} {form : α → α} {form' : β → β}
  {first second : Except ValueError α}

theorem bind {f g : α → Except ValueError β} (h : Follows P form first second)
    (hnext : ∀ a, P a → Follows Q form' (f a) (g (form a))) :
    Follows Q form' (first.bind f) (second.bind g) := by
  cases h with
  | value ha => exact hnext _ ha
  | failure error other => exact .failure error other

theorem map {f g : α → β} (h : Follows P form first second) (hQ : ∀ a, P a → Q (f a))
    (hform : ∀ a, form' (f a) = g (form a)) : Follows Q form' (first.map f) (second.map g) := by
  cases h with
  | value ha =>
    show Follows Q form' (.ok (f _)) (.ok (g (form _)))
    rw [← hform]
    exact .value (hQ _ ha)
  | failure error other => exact .failure error other

/-- Two results with one canonical form are equal. -/
theorem agree {first second result : Except ValueError Value}
    (hfirst : Follows Value.WithoutNaN Value.canonical first result)
    (hsecond : Follows Value.WithoutNaN Value.canonical second result) : EqualResults first second := by
  cases hfirst with
  | @value a ha =>
    generalize hresult : Except.ok a.canonical = result at hsecond
    cases hsecond with
    | value hb =>
      exact .value ((Value.equals_iff_canonical_eq ha hb).2 (Except.ok.inj hresult))
    | failure error other => cases hresult
  | failure error other =>
    generalize hresult : Except.error other = result at hsecond
    cases hsecond with
    | value hb => cases hresult
    | failure error' other' => exact .failure error error'

end Follows

/-! ## Coercions -/

/-- Values without a real or a custom selector inside. -/
def Value.Plain (value : Value) : Prop := value.Every (fun _ => False) fun _ => False

/-- Selectors without a real or a custom selector inside. -/
def Selector.Plain (selector : Selector) : Prop := selector.Every (fun _ => False) fun _ => False

section Plain

variable {real : Binary64 → Prop} {own : CustomSelector → Prop} {value : Value} {selector : Selector}

theorem Value.Plain.every (h : value.Plain) : value.Every real own :=
  Value.Every.mono (fun _ => False.elim) (fun _ => False.elim) h

theorem Selector.Plain.every (h : selector.Plain) : selector.Every real own :=
  Selector.Every.mono (fun _ => False.elim) (fun _ => False.elim) h

theorem Value.Plain.asString_canonical (h : value.Plain) :
    value.canonical.asString = value.asString := by
  cases h with
  | real h => exact h.elim
  | _ => simp [Value.asString]

theorem Value.Plain.asInteger_canonical (h : value.Plain) :
    value.canonical.asInteger = value.asInteger := by
  have hread : value.canonical.readInteger = value.readInteger := by
    rw [Value.readInteger, Value.readInteger, h.asString_canonical]
  cases h with
  | real h => exact h.elim
  | list | dictionary | tuple | qualified => simpa [Value.asInteger] using hread
  | _ => simp

end Plain

/-! ## Selecting -/

section Selecting

variable {real : Binary64 → Prop} {own : CustomSelector → Prop}

namespace Selector

/-- A selector joins the canonical form of a chain as it joins the chain. -/
theorem append_canonical (selector : Selector) (chain : List Selector) :
    (append selector chain).map canonical = append selector.canonical (chain.map canonical) := by
  induction chain with
  | nil => rfl
  | cons first rest ih =>
    cases rest with
    | nil => cases first <;> cases selector <;> simp [append]
    | cons second rest => simpa [append] using ih

theorem every_append {selector : Selector} {chain : List Selector} (hselector : selector.Every real own)
    (hchain : ∀ other ∈ chain, other.Every real own) :
    ∀ other ∈ append selector chain, other.Every real own := by
  rcases append_cases selector chain with ⟨hlast, -⟩ | ⟨before, keys, more, rfl, rfl, hjoined⟩
  · rw [hlast]
    simpa [or_imp, forall_and] using ⟨hchain, hselector⟩
  · rw [hjoined]
    intro other hother
    rcases List.mem_append.1 hother with hbefore | hsingle
    · exact hchain other (List.mem_append_left _ hbefore)
    · rw [List.mem_singleton.1 hsingle]
      have hkeys := (hchain (.keyed keys) (by simp)).of_keyed
      refine .keyed fun key hkey => ?_
      rcases List.mem_append.1 hkey with hkey | hkey
      · exact hkeys key hkey
      · exact hselector.of_keyed key hkey

end Selector

namespace Value

variable {custom : CustomSelection} {f g : Value → Except ValueError Value} {value : Value}

/-- What `g` gives for the canonical form of a value is the canonical form of what `f` gives for the
value. -/
abbrev FollowsOn (real : Binary64 → Prop) (own : CustomSelector → Prop) (value : Value)
    (f g : Value → Except ValueError Value) : Prop :=
  Follows (Value.Every real own) canonical (f value) (g value.canonical)

theorem mapAllElements_cons (item : Value) (rest : List Value) :
    mapAllElements f (item :: rest) =
      (mapElements f item).bind fun first => (mapAllElements f rest).map (first :: ·) := by
  rw [mapAllElements]
  cases mapElements f item <;> rfl

theorem canonical_ne_tuple (h : ∀ items, value ≠ .tuple items) :
    ∀ items, value.canonical ≠ .tuple items := by
  cases value with
  | tuple items => exact absurd rfl (h items)
  | _ => simp

mutual

/-- Functions that go along up to canonical forms but for tuples do so on tuples as well. -/
theorem mapElements_follows
    (h : ∀ value : Value, (∀ items, value ≠ .tuple items) → value.Every real own →
      FollowsOn real own value f g) :
    ∀ value : Value, value.Every real own → FollowsOn real own value (mapElements f) (mapElements g)
  | .tuple items, hvalue => by
    unfold FollowsOn
    rw [canonical_tuple, mapElements_tuple, mapElements_tuple]
    exact (mapAllElements_follows h items hvalue.of_tuple).map (fun _ => .tuple) canonical_tuple
  | .nil, hvalue | .boolean _, hvalue | .integer _, hvalue | .real _, hvalue | .string _, hvalue
  | .list _, hvalue | .dictionary _, hvalue | .script .., hvalue | .command _, hvalue
  | .qualified .., hvalue => by
    unfold FollowsOn
    rw [mapElements_of_ne_tuple (by simp), mapElements_of_ne_tuple (canonical_ne_tuple (by simp))]
    exact h _ (by simp) hvalue

theorem mapAllElements_follows
    (h : ∀ value : Value, (∀ items, value ≠ .tuple items) → value.Every real own →
      FollowsOn real own value f g) :
    ∀ items : List Value, (∀ item ∈ items, item.Every real own) →
      Follows (fun items => ∀ item ∈ items, item.Every real own) (List.map canonical)
        (mapAllElements f items) (mapAllElements g (items.map canonical))
  | [], _ => .value (by simp)
  | item :: rest, hitems => by
    obtain ⟨hfirst, hrest⟩ := List.forall_mem_cons.1 hitems
    rw [List.map_cons, mapAllElements_cons, mapAllElements_cons]
    refine (mapElements_follows h item hfirst).bind fun first hfirst => ?_
    exact (mapAllElements_follows h rest hrest).map
      (fun _ hothers => List.forall_mem_cons.2 ⟨hfirst, hothers⟩) fun _ => rfl

end

/-- The element of a canonical form is the canonical form of the element. -/
theorem elementAt_follows {index : Value} (hindex : index.Plain) {items : List Value}
    (hitems : ∀ item ∈ items, item.Every real own) :
    Follows (Value.Every real own) canonical (elementAt index items)
      (elementAt index.canonical (items.map canonical)) := by
  unfold elementAt toIndex
  rw [hindex.asInteger_canonical, List.length_map]
  cases index.asInteger with
  | error error => cases error <;> exact .failure _ _
  | ok i =>
    by_cases hi : 0 ≤ i.toInt ∧ i.toInt < items.length
    · simp only [if_pos hi, List.getElem?_map]
      cases hitem : items[i.toInt.toNat]? with
      | none => exact .failure _ _
      | some item => exact .value (hitems item (List.mem_of_getElem? hitem))
    · simp only [if_neg hi]
      exact .failure _ _

theorem qualified_follows {selector : Selector} {source : Value} {chain : List Selector}
    (hselector : selector.Every real own) (hvalue : (qualified source chain).Every real own) :
    Follows (Value.Every real own) canonical (.ok (.qualified source (selector.append chain)))
      (.ok (.qualified source.canonical (selector.canonical.append (chain.map Selector.canonical)))) := by
  obtain ⟨hsource, hchain⟩ := hvalue.of_qualified
  rw [← Selector.append_canonical, ← canonical_qualified]
  exact .value (.qualified hsource (Selector.every_append hselector hchain))

theorem selectIndex_follows {index : Value} (hindex : index.Plain) (hvalue : value.Every real own) :
    FollowsOn real own value (selectIndex · index) (selectIndex · index.canonical) := by
  refine mapElements_follows (fun value htuple hvalue => ?_) value hvalue
  unfold FollowsOn
  cases value with
  | tuple items => exact absurd rfl (htuple items)
  | string text =>
    have hcharacters : ∀ item ∈ text.toList.map fun c => Value.string c.toString,
        item.Every real own := by
      intro item hitem
      obtain ⟨c, -, rfl⟩ := List.mem_map.1 hitem
      exact .string c.toString
    simpa [Function.comp_def] using elementAt_follows hindex hcharacters
  | list items =>
    rw [canonical_list]
    exact elementAt_follows hindex hvalue.of_list
  | qualified source chain =>
    simpa using qualified_follows (.indexed hindex.every) hvalue
  | _ => simpa using Follows.failure _ _

theorem selectKey_follows {key : Value} (hkey : key.Plain) (hvalue : value.Every real own) :
    FollowsOn real own value (selectKey · key) (selectKey · key.canonical) := by
  refine mapElements_follows (fun value htuple hvalue => ?_) value hvalue
  unfold FollowsOn
  cases value with
  | tuple items => exact absurd rfl (htuple items)
  | dictionary entries =>
    obtain ⟨hdistinct, hentries⟩ := hvalue.of_dictionary
    rw [canonical_dictionary]
    simp only [hkey.asString_canonical]
    cases key.asString with
    | error error => exact .failure error error
    | ok name =>
      have hfind : findEntry name (sortEntries (entries.map canonicalEntry)) =
          (findEntry name entries).map canonical :=
        (findEntry_sortEntries hdistinct.canonical).trans (findEntry_canonical name entries)
      simp only [hfind]
      cases hfound : findEntry name entries with
      | none => exact .failure _ _
      | some found => exact .value (hentries _ (mem_of_findEntry hfound))
  | qualified source chain =>
    have hkeys : (Selector.keyed [key]).Every real own := .keyed (by simpa using hkey.every)
    simpa using qualified_follows hkeys hvalue
  | _ => simpa using Follows.failure _ _

theorem selectEachKey_follows {keys : List Value} (hkeys : ∀ key ∈ keys, key.Plain)
    (hvalue : value.Every real own) :
    FollowsOn real own value (selectEachKey keys) (selectEachKey (keys.map canonical)) := by
  induction keys generalizing value with
  | nil => exact .value hvalue
  | cons key keys ih =>
    obtain ⟨hkey, hkeys⟩ := List.forall_mem_cons.1 hkeys
    unfold FollowsOn
    rw [List.map_cons, selectEachKey_cons, selectEachKey_cons]
    exact (selectKey_follows hkey hvalue).bind fun _ hfound => ih hkeys hfound

theorem selectKeys_follows {keys : List Value} (hkeys : ∀ key ∈ keys, key.Plain)
    (hvalue : value.Every real own) :
    FollowsOn real own value (selectKeys keys) (selectKeys (keys.map canonical)) := by
  have heach := selectEachKey_follows hkeys hvalue
  unfold FollowsOn at heach ⊢
  cases value with
  | qualified source chain =>
    have hselector : (Selector.keyed keys).Every real own := .keyed fun key hkey => (hkeys key hkey).every
    simpa [selectKeys] using qualified_follows hselector hvalue
  | _ => simpa [selectKeys] using heach

theorem selectRules_follows {rules : List Value} (hrules : ∀ rule ∈ rules, rule.Plain)
    (hvalue : value.Every real own) :
    FollowsOn real own value (selectRules rules) (selectRules (rules.map canonical)) := by
  refine mapElements_follows (fun value htuple hvalue => ?_) value hvalue
  unfold FollowsOn
  cases value with
  | tuple items => exact absurd rfl (htuple items)
  | qualified source chain =>
    have hselector : (Selector.generic rules).Every real own :=
      .generic fun rule hrule => (hrules rule hrule).every
    simpa using qualified_follows hselector hvalue
  | _ => simpa using Follows.failure _ _

theorem apply_follows {selector : Selector} (hselector : selector.Plain)
    (hvalue : value.Every real own) :
    FollowsOn real own value (selector.apply custom) (selector.canonical.apply custom) := by
  cases selector with
  | indexed index =>
    rw [Selector.canonical_indexed]
    exact selectIndex_follows hselector.of_indexed hvalue
  | keyed keys =>
    rw [Selector.canonical_keyed]
    exact selectKeys_follows hselector.of_keyed hvalue
  | generic rules =>
    rw [Selector.canonical_generic]
    exact selectRules_follows hselector.of_generic hvalue
  | custom selector => exact hselector.of_custom.elim

/-- What a selector selects from a canonical form is the canonical form of what it selects. -/
theorem select_follows {selector : Selector} (hselector : selector.Plain)
    (hvalue : value.Every real own) :
    FollowsOn real own value (select custom selector) (select custom selector.canonical) := by
  refine mapElements_follows (fun value htuple hvalue => ?_) value hvalue
  have happly : FollowsOn real own value (selector.apply custom) (selector.canonical.apply custom) :=
    apply_follows hselector hvalue
  unfold FollowsOn at happly ⊢
  cases value with
  | tuple items => exact absurd rfl (htuple items)
  | qualified source chain => simpa using qualified_follows hselector.every hvalue
  | _ => simpa using happly

theorem selectAll_follows {chain : List Selector} (hchain : ∀ selector ∈ chain, selector.Plain)
    (hvalue : value.Every real own) :
    FollowsOn real own value (selectAll custom chain)
      (selectAll custom (chain.map Selector.canonical)) := by
  induction chain generalizing value with
  | nil => exact .value hvalue
  | cons selector rest ih =>
    obtain ⟨hselector, hrest⟩ := List.forall_mem_cons.1 hchain
    unfold FollowsOn
    rw [List.map_cons, selectAll_cons, selectAll_cons]
    exact (select_follows hselector hvalue).bind fun _ hselected => ih hrest hselected

end Value

/-! ## Resolving -/

namespace Host

variable {σ : Type} {host : Host σ} {env : σ}

/-- The host with the canonical forms of the values of its variables. -/
def canonical (host : Host σ) : Host σ :=
  { host with lookup := fun env name => (host.lookup env name).map Value.canonical }

theorem resolveVariable_follows
    (hhost : ∀ name value, host.lookup env name = some value → value.Every real own) {name : Value}
    (hname : name.Plain) :
    Follows (Value.Every real own) Value.canonical (host.resolveVariable env name)
      (host.canonical.resolveVariable env name.canonical) := by
  unfold resolveVariable
  rw [hname.asString_canonical]
  cases name.asString with
  | error error => exact .failure _ _
  | ok name =>
    have hlookup : host.canonical.lookup env name = (host.lookup env name).map Value.canonical := rfl
    simp only [hlookup]
    cases hvalue : host.lookup env name with
    | none => exact .failure _ _
    | some value => exact .value (hhost name value hvalue)

theorem resolveAll_cons (host : Host σ) (env : σ) (item : Value) (rest : List Value) :
    resolveAll host env (item :: rest) =
      (resolve host env item).bind fun first => (resolveAll host env rest).map (first :: ·) := by
  rw [resolveAll]
  cases resolve host env item <;> rfl

mutual

/-- What a host resolves a canonical form to is the canonical form of what it resolves the value to. -/
theorem resolve_follows
    (hhost : ∀ name value, host.lookup env name = some value → value.Every real own) :
    ∀ value : Value, value.Plain →
      Follows (Value.Every real own) Value.canonical (host.resolve env value)
        (host.canonical.resolve env value.canonical)
  | .tuple items, hvalue => by
    rw [Value.canonical_tuple, resolve, resolve]
    exact (resolveAll_follows hhost items hvalue.of_tuple).map (fun _ => .tuple) Value.canonical_tuple
  | .qualified source chain, hvalue => by
    obtain ⟨hsource, hchain⟩ := hvalue.of_qualified
    rw [Value.canonical_qualified, resolve_qualified, resolve_qualified]
    exact (resolve_follows hhost source hsource).bind
      fun _ hresolved => Value.selectAll_follows hchain hresolved
  | .nil, hvalue | .boolean _, hvalue | .integer _, hvalue | .real _, hvalue | .string _, hvalue
  | .list _, hvalue | .dictionary _, hvalue | .script .., hvalue | .command _, hvalue => by
    simpa [resolve] using resolveVariable_follows hhost hvalue

theorem resolveAll_follows
    (hhost : ∀ name value, host.lookup env name = some value → value.Every real own) :
    ∀ items : List Value, (∀ item ∈ items, item.Plain) →
      Follows (fun items => ∀ item ∈ items, item.Every real own) (List.map Value.canonical)
        (host.resolveAll env items) (host.canonical.resolveAll env (items.map Value.canonical))
  | [], _ => .value (by simp)
  | item :: rest, hitems => by
    obtain ⟨hfirst, hrest⟩ := List.forall_mem_cons.1 hitems
    rw [List.map_cons, resolveAll_cons, resolveAll_cons]
    refine (resolve_follows hhost item hfirst).bind fun first hfirst => ?_
    exact (resolveAll_follows hhost rest hrest).map
      (fun _ hothers => List.forall_mem_cons.2 ⟨hfirst, hothers⟩) fun _ => rfl

end

end Host

end Selecting

/-! ## Equality -/

/-- **Equality is an equivalence that selecting and resolving respect.**  On values and selectors
without a NaN it is reflexive, symmetric and transitive.  Dictionaries are equal when every key is
missing in both or has equal values in both, in whatever order they have it; commands and custom
selectors are equal when they are the same.

Equal selectors without a real or a custom selector inside select equal values from equal values, or
fail for both.  Equal values without a real or a custom selector inside resolve to equal values, or to
none, as long as no variable has a value with a NaN inside. -/
theorem equality_respected :
    (Equivalence fun a b : { value : Value // value.WithoutNaN } => a.1.equals b.1 = true) ∧
    (Equivalence fun s t : { selector : Selector // selector.WithoutNaN } => s.1.equals t.1 = true) ∧
    (∀ entries others, (Value.dictionary entries).WithoutNaN → (Value.dictionary others).WithoutNaN →
      ((Value.dictionary entries).equals (.dictionary others) = true ↔
        ∀ key, Option.Rel (fun a b => a.equals b = true) (findEntry key entries)
          (findEntry key others))) ∧
    (∀ c d, (Value.command c).equals (.command d) = true ↔ c = d) ∧
    (∀ s t, (Selector.custom s).equals (.custom t) = true ↔ s.identity = t.identity) ∧
    (∀ (custom : CustomSelection) (a b : Value) (s t : Selector), a.WithoutNaN → b.WithoutNaN →
      s.Plain → t.Plain → a.equals b = true → s.equals t = true →
        EqualResults (a.select custom s) (b.select custom t)) ∧
    ∀ (σ : Type) (host : Host σ) (env : σ),
      (∀ name value, host.lookup env name = some value → value.WithoutNaN) →
      ∀ a b : Value, a.Plain → b.Plain → a.equals b = true →
        EqualResults (host.resolve env a) (host.resolve env b) := by
  refine ⟨Value.equals_equivalence, Selector.equals_equivalence, ?_, ?_, ?_, ?_, ?_⟩
  · intro entries others hentries hothers
    exact Value.dictionary_equals_iff hentries hothers
  · simp [Value.equals]
  · simp [Selector.equals]
  · intro custom a b s t ha hb hs ht hab hst
    have hvalues : a.canonical = b.canonical := (Value.equals_iff_canonical_eq ha hb).1 hab
    have hselectors : s.canonical = t.canonical :=
      (Selector.equals_iff_canonical_eq hs.every ht.every).1 hst
    have hfirst : Follows Value.WithoutNaN Value.canonical (a.select custom s)
        (a.canonical.select custom s.canonical) := Value.select_follows hs ha
    have hsecond : Follows Value.WithoutNaN Value.canonical (b.select custom t)
        (b.canonical.select custom t.canonical) := Value.select_follows ht hb
    rw [← hvalues, ← hselectors] at hsecond
    exact hfirst.agree hsecond
  · intro σ host env hhost a b ha hb hab
    have hvalues : a.canonical = b.canonical :=
      (Value.equals_iff_canonical_eq ha.every hb.every).1 hab
    have hfirst := Host.resolve_follows hhost a ha
    have hsecond := Host.resolve_follows hhost b hb
    rw [← hvalues] at hsecond
    exact hfirst.agree hsecond

/-- Selecting from a dictionary that is in two orders, with a zero of either sign, and resolving a name
with such a dictionary as an index, which a qualified value takes. -/
theorem equality_respected_reordered :
    let host := Dialect.host ⟨.generic, none, none, ⟨false⟩⟩ 1
    let workspace := Dialect.Workspace.empty.set "q" (.qualified (.string "x") [])
    let inOrder : Value → Value := fun value => .dictionary [("a", value), ("b", .nil)]
    let reordered : Value → Value := fun value => .dictionary [("b", .nil), ("a", value)]
    let zero := Value.real ⟨0⟩
    let negativeZero := Value.real (.ofMagnitude true 0)
    let key := Selector.keyed [.string "a"]
    let ask : Value → Value := fun index => .qualified (.string "q") [.indexed index]
    EqualResults ((inOrder zero).select host.applyCustom key)
        ((reordered negativeZero).select host.applyCustom key) ∧
      (inOrder zero).select host.applyCustom key = .ok zero ∧
      (reordered negativeZero).select host.applyCustom key = .ok negativeZero ∧
      EqualResults (host.resolve workspace (ask (inOrder .nil)))
        (host.resolve workspace (ask (reordered .nil))) ∧
      host.resolve workspace (ask (inOrder .nil)) =
        .ok (.qualified (.string "x") [.indexed (inOrder .nil)]) := by
  intro host workspace inOrder reordered zero negativeZero key ask
  obtain ⟨-, -, -, -, -, hselect, hresolve⟩ := equality_respected
  have hinOrder : ∀ {real own} {value : Value}, value.Every real own → (inOrder value).Every real own :=
    fun h => .dictionary (by simp [DistinctKeys]) (by simpa using ⟨h, .nil⟩)
  have hreordered : ∀ {real own} {value : Value}, value.Every real own →
      (reordered value).Every real own :=
    fun h => .dictionary (by simp [DistinctKeys]) (by simpa using ⟨.nil, h⟩)
  have hask : ∀ {index : Value}, index.Plain → (ask index).Plain :=
    fun h => .qualified (.string "q") (by simpa using .indexed h)
  have hvariables : ∀ name value, host.lookup workspace name = some value → value.WithoutNaN := by
    intro name value hvalue
    have hmem : (name, value) ∈ workspace.bindings := mem_of_findEntry hvalue
    cases List.mem_singleton.1 hmem
    exact .qualified (.string "x") (by simp)
  refine ⟨?_, rfl, rfl, ?_, rfl⟩
  · exact hselect host.applyCustom _ _ key key (hinOrder (.real (by decide)))
      (hreordered (.real (by decide))) (.keyed (by simpa using .string "a"))
      (.keyed (by simpa using .string "a")) (by cbv) (by cbv)
  · exact hresolve _ host workspace hvariables _ _ (hask (hinOrder .nil)) (hask (hreordered .nil))
      (by cbv)

/-- The zeros are equal reals, but not one key. -/
example :
    let custom : CustomSelection := fun _ value => .ok value
    let key : Binary64 → Selector := fun x => .keyed [.real x]
    let value := Value.dictionary [("0", .nil)]
    (key ⟨0⟩).equals (key (.ofMagnitude true 0)) = true ∧
      value.select custom (key ⟨0⟩) = .ok .nil ∧
      value.select custom (key (.ofMagnitude true 0)) = .error (.unknownKey "-0") := by
  refine ⟨?_, ?_, ?_⟩ <;> cbv

end Parlance
