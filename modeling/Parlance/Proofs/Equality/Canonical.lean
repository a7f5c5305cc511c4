import Mathlib.Data.List.Sort
import Mathlib.Data.String.Basic
import Parlance.Value.Equality

/-!
# Canonical forms

Equality looks past three things: the sign of a zero, the order of a dictionary, and what a custom
selector holds.  The canonical form of a value fixes all three, so values that equality cannot tell
apart become one and the same.

A map has a key once, and a NaN is not equal to itself.  On values where that is so, equality is
having one canonical form.

    distinct keys → sortEntries a = sortEntries b ↔ a.Perm b                    (sortEntries_eq_iff)
    distinct keys → a.Perm b ↔ a and b find the same                         (perm_iff_findEntry_eq)
    no NaN → a.equals b ↔ a.canonical = b.canonical                     (equals_iff_canonical_eq)
    no NaN → dictionaries are equal ↔ every key has equal values, or none    (dictionary_equals_iff)
-/

namespace Parlance

/-! ## Numbers -/

namespace Binary64

/-- A number with the zero of negative sign replaced by the other one. -/
def canonical (x : Binary64) : Binary64 := if x.isZero then ⟨0⟩ else x

theorem equals_iff_canonical_eq {x y : Binary64} (hx : x.isNaN = false) (hy : y.isNaN = false) :
    x.equals y = true ↔ x.canonical = y.canonical := by
  have hzero : isZero ⟨0⟩ = true := by decide
  have hbits : x.bits = y.bits ↔ x = y := by
    cases x
    cases y
    simp
  have hequals : x.equals y = true ↔ x = y ∨ x.isZero = true ∧ y.isZero = true := by
    simp [equals, hx, hy, hbits]
  rw [hequals]
  unfold canonical
  by_cases hxz : x.isZero = true <;> by_cases hyz : y.isZero = true
  · simp [hxz, hyz]
  · have hne : x ≠ y := fun h => hyz (h ▸ hxz)
    have hne' : (⟨0⟩ : Binary64) ≠ y := fun h => hyz (h ▸ hzero)
    simp [hxz, hyz, hne, hne']
  · have hne : x ≠ y := fun h => hxz (h ▸ hyz)
    have hne' : x ≠ (⟨0⟩ : Binary64) := fun h => hxz (h ▸ hzero)
    simp [hxz, hyz, hne, hne']
  · simp [hxz, hyz]

end Binary64

/-! ## Dictionaries -/

/-- No key occurs twice. -/
def DistinctKeys (entries : List (String × Value)) : Prop := (entries.map Prod.fst).Nodup

/-- The entries in the order of their keys. -/
def sortEntries (entries : List (String × Value)) : List (String × Value) :=
  entries.mergeSort fun a b => decide (a.1 ≤ b.1)

section Entries

variable {entries others : List (String × Value)} {key : String} {value : Value}

theorem DistinctKeys.nodup (h : DistinctKeys entries) : entries.Nodup := List.Nodup.of_map _ h

theorem mem_of_findEntry (h : findEntry key entries = some value) : (key, value) ∈ entries := by
  induction entries with
  | nil => cases h
  | cons entry rest ih =>
    rw [findEntry] at h
    split at h
    · rename_i hkey
      cases h
      rw [← hkey]
      exact List.mem_cons_self
    · exact List.mem_cons_of_mem _ (ih h)

theorem findEntry_eq_some_iff (hdistinct : DistinctKeys entries) :
    findEntry key entries = some value ↔ (key, value) ∈ entries := by
  refine ⟨mem_of_findEntry, fun hmem => ?_⟩
  induction entries with
  | nil => cases hmem
  | cons entry rest ih =>
    obtain ⟨hnew, hrest⟩ := List.nodup_cons.1 hdistinct
    rw [findEntry]
    rcases List.mem_cons.1 hmem with rfl | hmem
    · rw [if_pos rfl]
    · have hne : entry.1 ≠ key := fun hkey => hnew (hkey ▸ List.mem_map_of_mem hmem)
      rw [if_neg hne]
      exact ih hrest hmem

/-- Entries that find the same are the same, in whatever order. -/
theorem perm_iff_findEntry_eq (ha : DistinctKeys entries) (hb : DistinctKeys others) :
    entries.Perm others ↔ ∀ key, findEntry key entries = findEntry key others := by
  have hsame : (∀ key, findEntry key entries = findEntry key others) ↔
      ∀ entry, entry ∈ entries ↔ entry ∈ others := by
    rw [Prod.forall]
    exact forall_congr' fun key => by
      rw [Option.ext_iff]
      exact forall_congr' fun value => by rw [findEntry_eq_some_iff ha, findEntry_eq_some_iff hb]
  rw [hsame, List.perm_ext_iff_of_nodup ha.nodup hb.nodup]

theorem sortEntries_perm (entries : List (String × Value)) : (sortEntries entries).Perm entries :=
  List.mergeSort_perm _ _

theorem sortEntries_sorted (entries : List (String × Value)) :
    (sortEntries entries).Pairwise fun a b => a.1 ≤ b.1 := by
  have h : (sortEntries entries).Pairwise fun a b => decide (a.1 ≤ b.1) = true := by
    refine List.pairwise_mergeSort (fun a b c hab hbc => ?_) (fun a b => ?_) entries
    · exact decide_eq_true (le_trans (of_decide_eq_true hab) (of_decide_eq_true hbc))
    · simpa only [Bool.or_eq_true, decide_eq_true_eq] using le_total a.1 b.1
  exact h.imp of_decide_eq_true

theorem sortEntries_eq_iff (ha : DistinctKeys entries) :
    sortEntries entries = sortEntries others ↔ entries.Perm others := by
  constructor
  · intro h
    exact (sortEntries_perm entries).symm.trans (h ▸ sortEntries_perm others)
  · intro h
    have hperm : (sortEntries entries).Perm (sortEntries others) :=
      (sortEntries_perm entries).trans (h.trans (sortEntries_perm others).symm)
    -- Keys that are neither above nor below each other are one key, and it has one value.
    refine hperm.eq_of_pairwise (fun a b hamem hbmem hab hba => ?_) (sortEntries_sorted entries)
      (sortEntries_sorted others)
    have hkey : a.1 = b.1 := le_antisymm hab hba
    have hfirst := (findEntry_eq_some_iff ha).2 ((sortEntries_perm entries).mem_iff.1 hamem)
    have hsecond := (findEntry_eq_some_iff ha).2
      (h.mem_iff.2 ((sortEntries_perm others).mem_iff.1 hbmem))
    rw [hkey, hsecond] at hfirst
    exact Prod.ext hkey (Option.some.inj hfirst).symm

theorem DistinctKeys.sort (h : DistinctKeys entries) : DistinctKeys (sortEntries entries) :=
  ((sortEntries_perm entries).map Prod.fst).nodup_iff.2 h

@[simp] theorem findEntry_sortEntries (h : DistinctKeys entries) :
    findEntry key (sortEntries entries) = findEntry key entries :=
  (perm_iff_findEntry_eq h.sort h).1 (sortEntries_perm entries) key

/-- As many entries, all of them among the others, are the others. -/
theorem length_eq_and_subset_iff_perm {α : Type} {first second : List α} (h : first.Nodup) :
    first.length = second.length ∧ first ⊆ second ↔ first.Perm second := by
  constructor
  · rintro ⟨hlength, hsubset⟩
    exact (List.subperm_of_subset h hsubset).perm_of_length_le hlength.ge
  · intro hperm
    exact ⟨hperm.length_eq, hperm.subset⟩

end Entries

/-! ## Canonical forms -/

mutual

/-- The canonical form of a value. -/
def Value.canonical : Value → Value
  | .real x => .real x.canonical
  | .list items => .list (Value.allCanonical items)
  | .dictionary entries => .dictionary (sortEntries (Value.entriesCanonical entries))
  | .tuple items => .tuple (Value.allCanonical items)
  | .qualified source chain => .qualified (Value.canonical source) (Selector.allCanonical chain)
  | value => value

def Value.allCanonical : List Value → List Value
  | [] => []
  | item :: rest => Value.canonical item :: Value.allCanonical rest

def Value.entriesCanonical : List (String × Value) → List (String × Value)
  | [] => []
  | (key, value) :: rest => (key, Value.canonical value) :: Value.entriesCanonical rest

/-- The canonical form of a selector. -/
def Selector.canonical : Selector → Selector
  | .indexed index => .indexed (Value.canonical index)
  | .keyed keys => .keyed (Value.allCanonical keys)
  | .generic rules => .generic (Value.allCanonical rules)
  | .custom selector => .custom ⟨selector.identity, "", []⟩

def Selector.allCanonical : List Selector → List Selector
  | [] => []
  | selector :: rest => Selector.canonical selector :: Selector.allCanonical rest

end

/-- An entry with the canonical form of its value. -/
def canonicalEntry (entry : String × Value) : String × Value := (entry.1, entry.2.canonical)

theorem DistinctKeys.canonical {entries : List (String × Value)} (h : DistinctKeys entries) :
    DistinctKeys (entries.map canonicalEntry) := by
  unfold DistinctKeys
  rw [List.map_map]
  exact h

theorem findEntry_canonical (key : String) (entries : List (String × Value)) :
    findEntry key (entries.map canonicalEntry) = (findEntry key entries).map Value.canonical := by
  induction entries with
  | nil => rfl
  | cons entry rest ih =>
    rw [List.map_cons, canonicalEntry, findEntry, findEntry, ih]
    split <;> rfl

namespace Value

variable (items : List Value) (entries : List (String × Value))

theorem allCanonical_eq_map : allCanonical items = items.map canonical := by
  induction items with
  | nil => rfl
  | cons item rest ih => exact congrArg (item.canonical :: ·) ih

theorem entriesCanonical_eq_map : entriesCanonical entries = entries.map canonicalEntry := by
  induction entries with
  | nil => rfl
  | cons entry rest ih => exact congrArg (canonicalEntry entry :: ·) ih

@[simp] theorem canonical_nil : canonical .nil = .nil := rfl

@[simp] theorem canonical_boolean (value : Bool) : canonical (.boolean value) = .boolean value := rfl

@[simp] theorem canonical_integer (value : Int64) : canonical (.integer value) = .integer value := rfl

@[simp] theorem canonical_real (x : Binary64) : canonical (.real x) = .real x.canonical := rfl

@[simp] theorem canonical_string (text : String) : canonical (.string text) = .string text := rfl

@[simp] theorem canonical_list : canonical (.list items) = .list (items.map canonical) :=
  congrArg Value.list (allCanonical_eq_map items)

@[simp] theorem canonical_dictionary :
    canonical (.dictionary entries) = .dictionary (sortEntries (entries.map canonicalEntry)) :=
  congrArg (fun entries => Value.dictionary (sortEntries entries)) (entriesCanonical_eq_map entries)

@[simp] theorem canonical_tuple : canonical (.tuple items) = .tuple (items.map canonical) :=
  congrArg Value.tuple (allCanonical_eq_map items)

@[simp] theorem canonical_script (script : Script) (text : Option String) :
    canonical (.script script text) = .script script text := rfl

@[simp] theorem canonical_command (command : Command) :
    canonical (.command command) = .command command := rfl

end Value

namespace Selector

theorem allCanonical_eq_map (chain : List Selector) :
    allCanonical chain = chain.map canonical := by
  induction chain with
  | nil => rfl
  | cons selector rest ih => exact congrArg (selector.canonical :: ·) ih

@[simp] theorem canonical_indexed (index : Value) :
    canonical (.indexed index) = .indexed index.canonical := rfl

@[simp] theorem canonical_keyed (keys : List Value) :
    canonical (.keyed keys) = .keyed (keys.map Value.canonical) :=
  congrArg Selector.keyed (Value.allCanonical_eq_map keys)

@[simp] theorem canonical_generic (rules : List Value) :
    canonical (.generic rules) = .generic (rules.map Value.canonical) :=
  congrArg Selector.generic (Value.allCanonical_eq_map rules)

@[simp] theorem canonical_custom (selector : CustomSelector) :
    canonical (.custom selector) = .custom ⟨selector.identity, "", []⟩ := rfl

end Selector

@[simp] theorem Value.canonical_qualified (source : Value) (chain : List Selector) :
    canonical (.qualified source chain) =
      .qualified source.canonical (chain.map Selector.canonical) :=
  congrArg (Value.qualified source.canonical) (Selector.allCanonical_eq_map chain)

/-! ## What values are made of -/

section Every

variable (real : Binary64 → Prop) (custom : CustomSelector → Prop)

mutual

/-- Values with only some reals and some custom selectors inside.  Whatever is inside, a dictionary is
a map: it has no key twice. -/
inductive Value.Every : Value → Prop
  | nil : Value.Every .nil
  | boolean (value : Bool) : Value.Every (.boolean value)
  | integer (value : Int64) : Value.Every (.integer value)
  | real {x : Binary64} (h : real x) : Value.Every (.real x)
  | string (text : String) : Value.Every (.string text)
  | list {items : List Value} (h : ∀ item ∈ items, Value.Every item) : Value.Every (.list items)
  | dictionary {entries : List (String × Value)} (hdistinct : DistinctKeys entries)
      (h : ∀ entry ∈ entries, Value.Every entry.2) : Value.Every (.dictionary entries)
  | tuple {items : List Value} (h : ∀ item ∈ items, Value.Every item) : Value.Every (.tuple items)
  | script (script : Script) (text : Option String) : Value.Every (.script script text)
  | command (command : Command) : Value.Every (.command command)
  | qualified {source : Value} {chain : List Selector} (hsource : Value.Every source)
      (hchain : ∀ selector ∈ chain, Selector.Every selector) : Value.Every (.qualified source chain)

/-- Selectors with only some reals and some custom selectors inside. -/
inductive Selector.Every : Selector → Prop
  | indexed {index : Value} (h : Value.Every index) : Selector.Every (.indexed index)
  | keyed {keys : List Value} (h : ∀ key ∈ keys, Value.Every key) : Selector.Every (.keyed keys)
  | generic {rules : List Value} (h : ∀ rule ∈ rules, Value.Every rule) : Selector.Every (.generic rules)
  | custom {selector : CustomSelector} (h : custom selector) : Selector.Every (.custom selector)

end

end Every

section Parts

variable {real : Binary64 → Prop} {own : CustomSelector → Prop} {items : List Value}

theorem Value.Every.of_real {x : Binary64} (h : (Value.real x).Every real own) : real x := by
  cases h with
  | real h => exact h

theorem Value.Every.of_list (h : (Value.list items).Every real own) :
    ∀ item ∈ items, item.Every real own := by
  cases h with
  | list h => exact h

theorem Value.Every.of_dictionary {entries : List (String × Value)}
    (h : (Value.dictionary entries).Every real own) :
    DistinctKeys entries ∧ ∀ entry ∈ entries, entry.2.Every real own := by
  cases h with
  | dictionary hdistinct h => exact ⟨hdistinct, h⟩

theorem Value.Every.of_tuple (h : (Value.tuple items).Every real own) :
    ∀ item ∈ items, item.Every real own := by
  cases h with
  | tuple h => exact h

theorem Value.Every.of_qualified {source : Value} {chain : List Selector}
    (h : (Value.qualified source chain).Every real own) :
    source.Every real own ∧ ∀ selector ∈ chain, selector.Every real own := by
  cases h with
  | qualified hsource hchain => exact ⟨hsource, hchain⟩

theorem Selector.Every.of_indexed {index : Value} (h : (Selector.indexed index).Every real own) :
    index.Every real own := by
  cases h with
  | indexed h => exact h

theorem Selector.Every.of_keyed (h : (Selector.keyed items).Every real own) :
    ∀ key ∈ items, key.Every real own := by
  cases h with
  | keyed h => exact h

theorem Selector.Every.of_generic (h : (Selector.generic items).Every real own) :
    ∀ rule ∈ items, rule.Every real own := by
  cases h with
  | generic h => exact h

theorem Selector.Every.of_custom {selector : CustomSelector}
    (h : (Selector.custom selector).Every real own) : own selector := by
  cases h with
  | custom h => exact h

end Parts

mutual

/-- Fewer things inside are among more things inside. -/
theorem Value.Every.mono {real real' : Binary64 → Prop} {own own' : CustomSelector → Prop}
    (hreal : ∀ x, real x → real' x) (hown : ∀ selector, own selector → own' selector) :
    ∀ {value : Value}, value.Every real own → value.Every real' own'
  | _, .nil => .nil
  | _, .boolean value => .boolean value
  | _, .integer value => .integer value
  | _, .real h => .real (hreal _ h)
  | _, .string text => .string text
  | _, .list h => .list fun item hitem => Value.Every.mono hreal hown (h item hitem)
  | _, .dictionary hdistinct h =>
    .dictionary hdistinct fun entry hentry => Value.Every.mono hreal hown (h entry hentry)
  | _, .tuple h => .tuple fun item hitem => Value.Every.mono hreal hown (h item hitem)
  | _, .script script text => .script script text
  | _, .command command => .command command
  | _, .qualified hsource hchain =>
    .qualified (Value.Every.mono hreal hown hsource)
      fun selector hselector => Selector.Every.mono hreal hown (hchain selector hselector)

theorem Selector.Every.mono {real real' : Binary64 → Prop} {own own' : CustomSelector → Prop}
    (hreal : ∀ x, real x → real' x) (hown : ∀ selector, own selector → own' selector) :
    ∀ {selector : Selector}, selector.Every real own → selector.Every real' own'
  | _, .indexed h => .indexed (Value.Every.mono hreal hown h)
  | _, .keyed h => .keyed fun key hkey => Value.Every.mono hreal hown (h key hkey)
  | _, .generic h => .generic fun rule hrule => Value.Every.mono hreal hown (h rule hrule)
  | _, .custom h => .custom (hown _ h)

end

/-- Values without a NaN inside.  Their dictionaries have no key twice, as any map. -/
def Value.WithoutNaN (value : Value) : Prop := value.Every (fun x => x.isNaN = false) fun _ => True

/-- Selectors without a NaN inside.  Their dictionaries have no key twice, as any map. -/
def Selector.WithoutNaN (selector : Selector) : Prop :=
  selector.Every (fun x => x.isNaN = false) fun _ => True

/-! ## Equality -/

mutual

/-- Values without a NaN are equal when they have one canonical form. -/
theorem Value.equals_iff_canonical_eq : ∀ {a b : Value}, a.WithoutNaN → b.WithoutNaN →
    (a.equals b = true ↔ a.canonical = b.canonical)
  | .nil, b, _, _ => by cases b <;> simp [Value.equals]
  | .boolean _, b, _, _ => by cases b <;> simp [Value.equals]
  | .integer _, b, _, _ => by cases b <;> simp [Value.equals]
  | .string _, b, _, _ => by cases b <;> simp [Value.equals]
  | .script .., b, _, _ => by cases b <;> simp [Value.equals]
  | .command _, b, _, _ => by cases b <;> simp [Value.equals]
  | .real x, b, ha, hb => by
    cases b with
    | real y =>
      simp [Value.equals, Binary64.equals_iff_canonical_eq ha.of_real hb.of_real]
    | _ => simp [Value.equals]
  | .list items, b, ha, hb => by
    cases b with
    | list others =>
      simp [Value.equals, Value.allEqual_iff_canonical_eq ha.of_list hb.of_list]
    | _ => simp [Value.equals]
  | .tuple items, b, ha, hb => by
    cases b with
    | tuple others =>
      simp [Value.equals, Value.allEqual_iff_canonical_eq ha.of_tuple hb.of_tuple]
    | _ => simp [Value.equals]
  | .dictionary entries, b, ha, hb => by
    cases b with
    | dictionary others =>
      obtain ⟨hdistinct, ha⟩ := ha.of_dictionary
      obtain ⟨hdistinct', hb⟩ := hb.of_dictionary
      simp only [Value.equals, Bool.and_eq_true, beq_iff_eq, Value.canonical_dictionary,
        Value.dictionary.injEq, Value.entriesWithin_iff_subset ha hdistinct' hb,
        sortEntries_eq_iff hdistinct.canonical,
        ← length_eq_and_subset_iff_perm hdistinct.canonical.nodup, List.length_map]
    | _ => simp [Value.equals]
  | .qualified source chain, b, ha, hb => by
    cases b with
    | qualified source' chain' =>
      obtain ⟨hsource, hchain⟩ := ha.of_qualified
      obtain ⟨hsource', hchain'⟩ := hb.of_qualified
      simp [Value.equals, Value.equals_iff_canonical_eq hsource hsource',
        Selector.allEqual_iff_canonical_eq hchain hchain']
    | _ => simp [Value.equals]

theorem Value.allEqual_iff_canonical_eq : ∀ {as bs : List Value}, (∀ a ∈ as, a.WithoutNaN) →
    (∀ b ∈ bs, b.WithoutNaN) →
    (Value.allEqual as bs = true ↔ as.map Value.canonical = bs.map Value.canonical)
  | [], bs, _, _ => by cases bs <;> simp [Value.allEqual]
  | a :: as, bs, ha, hb => by
    cases bs with
    | nil => simp [Value.allEqual]
    | cons b bs =>
      obtain ⟨hfirst, hrest⟩ := List.forall_mem_cons.1 ha
      obtain ⟨hfirst', hrest'⟩ := List.forall_mem_cons.1 hb
      simp [Value.allEqual, Value.equals_iff_canonical_eq hfirst hfirst',
        Value.allEqual_iff_canonical_eq hrest hrest']

theorem Value.entriesWithin_iff_subset : ∀ {as bs : List (String × Value)},
    (∀ a ∈ as, a.2.WithoutNaN) → DistinctKeys bs → (∀ b ∈ bs, b.2.WithoutNaN) →
    (Value.entriesWithin as bs = true ↔ as.map canonicalEntry ⊆ bs.map canonicalEntry)
  | [], bs, _, _, _ => by simp [Value.entriesWithin]
  | (key, a) :: as, bs, ha, hdistinct, hb => by
    obtain ⟨hfirst, hrest⟩ := List.forall_mem_cons.1 ha
    have hmem : canonicalEntry (key, a) ∈ bs.map canonicalEntry ↔
        (findEntry key bs).map Value.canonical = some a.canonical := by
      rw [← findEntry_canonical, findEntry_eq_some_iff hdistinct.canonical]
      rfl
    rw [Value.entriesWithin, Bool.and_eq_true, Value.entriesWithin_iff_subset hrest hdistinct hb,
      List.map_cons, List.cons_subset, hmem]
    refine and_congr_left fun _ => ?_
    cases hfind : findEntry key bs with
    | none => simp
    | some b =>
      have hfound : b.WithoutNaN := hb _ (mem_of_findEntry hfind)
      simp [Value.equals_iff_canonical_eq hfirst hfound, eq_comm]

/-- Selectors without a NaN are equal when they have one canonical form. -/
theorem Selector.equals_iff_canonical_eq : ∀ {s t : Selector}, s.WithoutNaN → t.WithoutNaN →
    (s.equals t = true ↔ s.canonical = t.canonical)
  | .indexed a, t, hs, ht => by
    cases t with
    | indexed b =>
      simp [Selector.equals, Value.equals_iff_canonical_eq hs.of_indexed ht.of_indexed]
    | _ => simp [Selector.equals]
  | .keyed as, t, hs, ht => by
    cases t with
    | keyed bs =>
      simp [Selector.equals, Value.allEqual_iff_canonical_eq hs.of_keyed ht.of_keyed]
    | _ => simp [Selector.equals]
  | .generic as, t, hs, ht => by
    cases t with
    | generic bs =>
      simp [Selector.equals, Value.allEqual_iff_canonical_eq hs.of_generic ht.of_generic]
    | _ => simp [Selector.equals]
  | .custom a, t, _, _ => by cases t <;> simp [Selector.equals]

theorem Selector.allEqual_iff_canonical_eq : ∀ {ss ts : List Selector},
    (∀ s ∈ ss, s.WithoutNaN) → (∀ t ∈ ts, t.WithoutNaN) →
    (Selector.allEqual ss ts = true ↔ ss.map Selector.canonical = ts.map Selector.canonical)
  | [], ts, _, _ => by cases ts <;> simp [Selector.allEqual]
  | s :: ss, ts, hs, ht => by
    cases ts with
    | nil => simp [Selector.allEqual]
    | cons t ts =>
      obtain ⟨hfirst, hrest⟩ := List.forall_mem_cons.1 hs
      obtain ⟨hfirst', hrest'⟩ := List.forall_mem_cons.1 ht
      simp [Selector.allEqual, Selector.equals_iff_canonical_eq hfirst hfirst',
        Selector.allEqual_iff_canonical_eq hrest hrest']

end

theorem Value.equals_equivalence :
    Equivalence fun a b : { value : Value // value.WithoutNaN } => a.1.equals b.1 = true := by
  simp only [fun a b : { value : Value // value.WithoutNaN } => Value.equals_iff_canonical_eq a.2 b.2]
  exact ⟨fun _ => rfl, Eq.symm, Eq.trans⟩

theorem Selector.equals_equivalence :
    Equivalence fun s t : { selector : Selector // selector.WithoutNaN } => s.1.equals t.1 = true := by
  simp only [fun s t : { selector : Selector // selector.WithoutNaN } =>
    Selector.equals_iff_canonical_eq s.2 t.2]
  exact ⟨fun _ => rfl, Eq.symm, Eq.trans⟩

/-- Dictionaries are equal when every key is missing in both or has equal values in both. -/
theorem Value.dictionary_equals_iff {entries others : List (String × Value)}
    (hentries : (Value.dictionary entries).WithoutNaN) (hothers : (Value.dictionary others).WithoutNaN) :
    (Value.dictionary entries).equals (.dictionary others) = true ↔
      ∀ key, Option.Rel (fun a b => a.equals b = true) (findEntry key entries)
        (findEntry key others) := by
  obtain ⟨hdistinct, hvalues⟩ := hentries.of_dictionary
  obtain ⟨hdistinct', hvalues'⟩ := hothers.of_dictionary
  rw [Value.equals_iff_canonical_eq hentries hothers, Value.canonical_dictionary,
    Value.canonical_dictionary, Value.dictionary.injEq, sortEntries_eq_iff hdistinct.canonical,
    perm_iff_findEntry_eq hdistinct.canonical hdistinct'.canonical]
  refine forall_congr' fun key => ?_
  rw [findEntry_canonical, findEntry_canonical]
  cases hfirst : findEntry key entries <;> cases hsecond : findEntry key others
  · simp
  · simp
  · simp
  · rename_i a b
    have ha : a.WithoutNaN := hvalues _ (mem_of_findEntry hfirst)
    have hb : b.WithoutNaN := hvalues' _ (mem_of_findEntry hsecond)
    simp [Value.equals_iff_canonical_eq ha hb]

end Parlance
