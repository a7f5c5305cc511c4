import Mathlib.Data.List.Forall2
import Parlance.Proofs.Results
import Parlance.Value.Selection

/-!
# Ways to select

A tuple is selected from element by element, at any depth.  What a way to select does to tuples is
therefore known from what it does to all other values, and two ways that agree on those agree.  Only
the errors can differ, as a tuple meets them in another order.

    Elementwise f → Elementwise g → Elementwise (f, then g)                       (Elementwise.bind)
    Elementwise f → Elementwise g → f and g agree but for tuples → they agree    (Elementwise.agree)
    keys ≠ [] → value.selectKeys keys = value.selectEachKey keys                      (selectKeys_eq)
    selector.Made → value.select selector succeeds as selector.apply value does
                                                                       (select_eq_ok_iff_apply)
-/

namespace Parlance

/-! ## Selectors that can be made -/

/-- The selectors there is a way to make.  Without keys or rules there is no selector. -/
inductive Selector.Made : Selector → Prop
  | indexed (index : Value) : Made (.indexed index)
  | keyed {keys : List Value} {selector : Selector} (h : Selector.ofKeys keys = .ok selector) :
    Made selector
  | generic {rules : List Value} {selector : Selector} (h : Selector.ofRules rules = .ok selector) :
    Made selector
  | custom (selector : CustomSelector) : Made (.custom selector)

theorem Selector.made_keyed_iff {keys : List Value} : Selector.Made (.keyed keys) ↔ keys ≠ [] := by
  constructor
  · intro h
    cases h with
    | keyed h =>
      unfold Selector.ofKeys at h
      split at h
      · cases h
      · rename_i hkeys
        cases h
        simpa using hkeys
    | generic h =>
      unfold Selector.ofRules at h
      split at h <;> cases h
  · intro hne
    exact .keyed (if_neg (by simpa using hne))

theorem Selector.made_generic_iff {rules : List Value} :
    Selector.Made (.generic rules) ↔ rules ≠ [] := by
  constructor
  · intro h
    cases h with
    | generic h =>
      unfold Selector.ofRules at h
      split at h
      · cases h
      · rename_i hrules
        cases h
        simpa using hrules
    | keyed h =>
      unfold Selector.ofKeys at h
      split at h <;> cases h
  · intro hne
    exact .generic (if_neg (by simpa using hne))

/-! ## Element by element -/

/-- Two steps between lists, member by member, are one. -/
theorem exists_forall₂_iff {α β γ : Type} {R : α → β → Prop} {S : β → γ → Prop} {first : List α}
    {last : List γ} :
    (∃ middle, List.Forall₂ R first middle ∧ List.Forall₂ S middle last) ↔
      List.Forall₂ (fun a c => ∃ b, R a b ∧ S b c) first last := by
  constructor
  · rintro ⟨middle, hR, hS⟩
    induction hR generalizing last with
    | nil =>
      cases hS
      exact .nil
    | cons hab _ ih =>
      cases hS with
      | cons hbc hS => exact .cons ⟨_, hab, hbc⟩ (ih hS)
  · intro h
    induction h with
    | nil => exact ⟨[], .nil, .nil⟩
    | cons hac _ ih =>
      obtain ⟨b, hab, hbc⟩ := hac
      obtain ⟨middle, hR, hS⟩ := ih
      exact ⟨b :: middle, .cons hab hR, .cons hbc hS⟩

theorem forall₂_congr_mem {α β : Type} {R S : α → β → Prop} {first : List α} {last : List β}
    (h : ∀ a ∈ first, ∀ b, R a b ↔ S a b) : List.Forall₂ R first last ↔ List.Forall₂ S first last := by
  constructor
  · intro hR
    exact ((List.forall₂_and_left _ _).2 ⟨h, hR⟩).imp fun a b hab => (hab.1 b).1 hab.2
  · intro hS
    exact ((List.forall₂_and_left _ _).2 ⟨h, hS⟩).imp fun a b hab => (hab.1 b).2 hab.2

namespace Value

variable {f g : Value → Except ValueError Value} {items results : List Value}

/-- A function that takes a tuple element by element.  It gives the tuple of what it gives for the
elements, as long as it fails for none of them. -/
def Elementwise (f : Value → Except ValueError Value) : Prop :=
  ∀ items result, f (.tuple items) = .ok result ↔
    ∃ results, List.Forall₂ (fun item result => f item = .ok result) items results ∧
      .tuple results = result

theorem mapAllElements_eq_ok_iff :
    mapAllElements f items = .ok results ↔
      List.Forall₂ (fun item result => mapElements f item = .ok result) items results := by
  induction items generalizing results with
  | nil =>
    rw [mapAllElements, List.forall₂_nil_left_iff, Except.ok.injEq]
    exact eq_comm
  | cons item rest ih =>
    rw [mapAllElements, List.forall₂_cons_left_iff]
    cases hitem : mapElements f item with
    | error error => simp
    | ok first =>
      simp only [map_eq_ok_iff, ih, Except.ok.injEq]
      constructor
      · rintro ⟨others, hothers, rfl⟩
        exact ⟨first, others, rfl, hothers, rfl⟩
      · rintro ⟨_, others, rfl, hothers, rfl⟩
        exact ⟨others, hothers, rfl⟩

theorem elementwise_mapElements (f : Value → Except ValueError Value) :
    Elementwise (mapElements f) := by
  intro items result
  rw [mapElements_tuple, map_eq_ok_iff]
  simp only [mapAllElements_eq_ok_iff]

theorem mapElements_of_ne_tuple {value : Value} (h : ∀ items, value ≠ .tuple items) :
    mapElements f value = f value := by
  cases value with
  | tuple items => exact absurd rfl (h items)
  | _ => rw [mapElements]; simp

theorem elementwise_ok : Elementwise Except.ok := by
  intro items result
  simp only [Except.ok.injEq, List.forall₂_eq_eq_eq, exists_eq_left']

/-- One elementwise function behind another. -/
theorem Elementwise.bind (hf : Elementwise f) (hg : Elementwise g) :
    Elementwise fun value => (f value).bind g := by
  intro items result
  simp only [bind_eq_ok_iff, ← exists_forall₂_iff]
  constructor
  · rintro ⟨_, hfirst, hlast⟩
    obtain ⟨middle, hmiddle, rfl⟩ := (hf items _).1 hfirst
    obtain ⟨results, hresults, hresult⟩ := (hg middle result).1 hlast
    exact ⟨results, ⟨middle, hmiddle, hresults⟩, hresult⟩
  · rintro ⟨results, ⟨middle, hmiddle, hresults⟩, hresult⟩
    exact ⟨.tuple middle, (hf items _).2 ⟨middle, hmiddle, rfl⟩,
      (hg middle result).2 ⟨results, hresults, hresult⟩⟩

/-- Elementwise functions that agree on everything but tuples agree on tuples as well, however deep
these are nested. -/
theorem Elementwise.agree (hf : Elementwise f) (hg : Elementwise g)
    (h : ∀ value, (∀ items, value ≠ .tuple items) →
      ∀ result, f value = .ok result ↔ g value = .ok result) (value result : Value) :
    f value = .ok result ↔ g value = .ok result := by
  by_cases htuple : ∃ items, value = .tuple items
  · obtain ⟨items, hitems⟩ := htuple
    have hagree : ∀ item ∈ items, ∀ result, f item = .ok result ↔ g item = .ok result :=
      fun item hitem result => Elementwise.agree hf hg h item result
    rw [hitems, hf items result, hg items result]
    simp only [forall₂_congr_mem hagree]
  · exact h value (fun items hitems => htuple ⟨items, hitems⟩) result
termination_by sizeOf value
decreasing_by
  subst hitems
  have hlt := List.sizeOf_lt_of_mem hitem
  simp only [tuple.sizeOf_spec]
  omega

end Value

/-! ## Keys -/

namespace Selector

/-- Two selectors that stay apart in a chain: keys join the keys before them. -/
def Apart : Selector → Selector → Prop
  | .keyed _, .keyed _ => False
  | _, _ => True

theorem append_ne_nil (selector : Selector) (chain : List Selector) : append selector chain ≠ [] := by
  unfold append
  split
  · simp
  · split <;> simp
  · simp

/-- Keys that join a chain in two steps join it as all of them at once. -/
theorem append_keyed_append (keys more : List Value) (chain : List Selector) :
    append (.keyed more) (append (.keyed keys) chain) = append (.keyed (keys ++ more)) chain := by
  induction chain with
  | nil => rfl
  | cons first rest ih =>
    cases rest with
    | nil =>
      cases first with
      | keyed before =>
        show [Selector.keyed (before ++ keys ++ more)] = [Selector.keyed (before ++ (keys ++ more))]
        rw [List.append_assoc]
      | indexed | generic | custom => rfl
    | cons second rest =>
      obtain ⟨next, others, hnext⟩ := List.exists_cons_of_ne_nil (append_ne_nil (.keyed keys) (second :: rest))
      show append (.keyed more) (first :: append (.keyed keys) (second :: rest)) =
        first :: append (.keyed (keys ++ more)) (second :: rest)
      rw [← ih, hnext]
      rfl

end Selector

namespace Value

/-- One key after the other. -/
theorem selectEachKey_cons (key : Value) (keys : List Value) (value : Value) :
    selectEachKey (key :: keys) value = (value.selectKey key).bind (selectEachKey keys) := by
  rw [selectEachKey]
  cases value.selectKey key <;> rfl

theorem selectEachKey_append (keys more : List Value) (value : Value) :
    selectEachKey (keys ++ more) value = (selectEachKey keys value).bind (selectEachKey more) := by
  induction keys generalizing value with
  | nil => rfl
  | cons key keys ih =>
    rw [List.cons_append, selectEachKey_cons, selectEachKey_cons]
    cases value.selectKey key with
    | error error => rfl
    | ok value => exact ih value

theorem elementwise_selectKey (key : Value) : Elementwise fun value => value.selectKey key :=
  elementwise_mapElements _

theorem elementwise_selectEachKey (keys : List Value) : Elementwise (selectEachKey keys) := by
  induction keys with
  | nil => exact elementwise_ok
  | cons key keys ih =>
    have hcons : selectEachKey (key :: keys) = fun value => (value.selectKey key).bind (selectEachKey keys) :=
      funext (selectEachKey_cons key keys)
    rw [hcons]
    exact (elementwise_selectKey key).bind ih

/-- A qualified value takes keys one after the other as it takes them all at once. -/
theorem selectEachKey_qualified {keys : List Value} (hne : keys ≠ []) (source : Value)
    (chain : List Selector) :
    selectEachKey keys (.qualified source chain) =
      .ok (.qualified source (Selector.append (.keyed keys) chain)) := by
  induction keys generalizing chain with
  | nil => exact absurd rfl hne
  | cons key keys ih =>
    have hkey : selectKey (.qualified source chain) key =
        .ok (.qualified source (Selector.append (.keyed [key]) chain)) := by
      rw [selectKey, mapElements]
      simp
    rw [selectEachKey_cons, hkey]
    cases keys with
    | nil => rfl
    | cons next keys =>
      show selectEachKey (next :: keys) (.qualified source (Selector.append (.keyed [key]) chain)) = _
      rw [ih (List.cons_ne_nil next keys), Selector.append_keyed_append]
      rfl

/-- Selecting by keys is selecting by one key after the other. -/
theorem selectKeys_eq {keys : List Value} (hne : keys ≠ []) (value : Value) :
    value.selectKeys keys = selectEachKey keys value := by
  cases value with
  | qualified source chain => exact (selectEachKey_qualified hne source chain).symm
  | _ => rfl

/-! ## The two paths of a selector -/

variable {custom : CustomSelection} {selector : Selector}

theorem elementwise_select (custom : CustomSelection) (selector : Selector) :
    Elementwise (Value.select custom selector) :=
  elementwise_mapElements _

theorem elementwise_apply (hmade : selector.Made) (hcustom : ∀ own, selector ≠ .custom own) :
    Elementwise (selector.apply custom) := by
  cases selector with
  | indexed index => exact elementwise_mapElements _
  | keyed keys =>
    have hkeys : Selector.apply custom (.keyed keys) = selectEachKey keys :=
      funext (selectKeys_eq (Selector.made_keyed_iff.1 hmade))
    rw [hkeys]
    exact elementwise_selectEachKey keys
  | generic rules => exact elementwise_mapElements _
  | custom own => exact absurd rfl (hcustom own)

/-- But for tuples, selecting is applying the selector. -/
theorem select_eq_apply (hcustom : ∀ own, selector ≠ .custom own) {value : Value}
    (h : ∀ items, value ≠ .tuple items) : value.select custom selector = selector.apply custom value := by
  rw [select, mapElements_of_ne_tuple h]
  cases value with
  | qualified source chain =>
    -- A qualified value takes every selector into its chain, whichever way it comes.
    cases selector with
    | indexed index =>
      rw [Selector.apply, selectIndex, mapElements_of_ne_tuple h]
    | keyed keys => rfl
    | generic rules =>
      rw [Selector.apply, selectRules, mapElements_of_ne_tuple h]
    | custom own => exact absurd rfl (hcustom own)
  | _ => rfl

theorem select_eq_ok_iff_apply (hmade : selector.Made) (hcustom : ∀ own, selector ≠ .custom own)
    (value result : Value) :
    value.select custom selector = .ok result ↔ selector.apply custom value = .ok result := by
  refine (elementwise_select custom selector).agree (elementwise_apply hmade hcustom) ?_ value result
  intro value htuple result
  rw [select_eq_apply hcustom htuple]

theorem select_keyed_eq_ok_iff {keys : List Value} (hne : keys ≠ []) (value result : Value) :
    value.select custom (.keyed keys) = .ok result ↔ selectEachKey keys value = .ok result := by
  rw [← selectKeys_eq hne]
  exact select_eq_ok_iff_apply (Selector.made_keyed_iff.2 hne) (by simp) value result

/-- Selecting by keys that were joined is selecting by the first of them and then by the others. -/
theorem select_keyed_append_eq_ok_iff {keys more : List Value} (hkeys : keys ≠ []) (hmore : more ≠ [])
    (value result : Value) :
    value.select custom (.keyed (keys ++ more)) = .ok result ↔
      ∃ between, value.select custom (.keyed keys) = .ok between ∧
        between.select custom (.keyed more) = .ok result := by
  rw [select_keyed_eq_ok_iff (List.append_ne_nil_of_left_ne_nil hkeys more), selectEachKey_append,
    bind_eq_ok_iff]
  simp only [select_keyed_eq_ok_iff hkeys, select_keyed_eq_ok_iff hmore]

/-- **The ways to select agree.**  Selecting by an index, by keys or by rules gives what applying the
selector gives, and fails where that fails, however tuples, lists, dictionaries and qualified values are
nested.  Selecting by keys in two steps is selecting by all of them. -/
theorem ways_agree (custom : CustomSelection) (value : Value) :
    (∀ selector : Selector, selector.Made → (∀ own, selector ≠ .custom own) → ∀ result,
      value.select custom selector = .ok result ↔ selector.apply custom value = .ok result) ∧
    ∀ keys more, keys ≠ [] → more ≠ [] → ∀ result,
      value.selectKeys (keys ++ more) = .ok result ↔
        ∃ between, value.selectKeys keys = .ok between ∧ between.selectKeys more = .ok result := by
  constructor
  · intro selector hmade hcustom result
    exact select_eq_ok_iff_apply hmade hcustom value result
  · intro keys more hkeys hmore result
    simp only [selectKeys_eq hkeys, selectKeys_eq hmore,
      selectKeys_eq (List.append_ne_nil_of_left_ne_nil hkeys more)]
    rw [selectEachKey_append, bind_eq_ok_iff]

/-- Two keys on a tuple of a dictionary, whose first key has a tuple, and a qualified value. -/
theorem ways_agree_nested :
    let custom : CustomSelection := fun _ value => .ok value
    let found := Value.tuple [.dictionary [("b", .nil)], .qualified (.string "x") []]
    let value := Value.tuple [.dictionary [("a", found)],
      .qualified (.string "y") [.keyed [.string "k"]]]
    let keys : List Value := [.string "a", .string "b"]
    let selected := Value.tuple [.tuple [.nil, .qualified (.string "x") [.keyed [.string "b"]]],
      .qualified (.string "y") [.keyed [.string "k", .string "a", .string "b"]]]
    (Selector.keyed keys).Made ∧ value.select custom (.keyed keys) = .ok selected ∧
      value.selectKeys keys = .ok selected := by
  intro custom found value keys selected
  have hmade : (Selector.keyed keys).Made := Selector.made_keyed_iff.2 (by simp [keys])
  obtain ⟨hpaths, hsteps⟩ := ways_agree custom value
  refine ⟨hmade, (hpaths _ hmade (by simp) selected).2 ?_, ?_⟩
  · cbv
  · refine (hsteps [.string "a"] [.string "b"] (by simp) (by simp) selected).2 ⟨_, rfl, ?_⟩
    cbv

/-- The errors can differ: one way the first element fails at the second key, the other way the second
element fails at the first key. -/
example :
    let value := Value.tuple [.dictionary [("a", .nil)], .dictionary []]
    let selector := Selector.keyed [.string "a", .string "b"]
    let custom : CustomSelection := fun _ value => .ok value
    value.select custom selector = .error .notKeySelectable ∧
      selector.apply custom value = .error (.unknownKey "a") := by
  constructor <;> rfl

end Value

end Parlance
