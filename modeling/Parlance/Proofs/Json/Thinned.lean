import Parlance.Proofs.Json.RoundTrip

/-!
# Leaving out positions

`Thinned` removes some of the fields that say of a node that it has no position, at any depth.  What is
left has the same values in the same places otherwise, and stays plain.

    Thinned (.object ((key, value) :: fields)) other, with another key, keeps the field     (exists_cons)
    Thinned json other → json.Plain → other.Plain                                       (Thinned.plain)
-/

namespace Parlance

namespace Json

/-- Whether a value has no values within it. -/
def isLeaf : Json → Bool
  | .array _ | .object _ => false
  | _ => true

mutual

/-- A value without some of the positions that are null. -/
inductive Thinned : Json → Json → Prop
  | leaf {json : Json} (h : json.isLeaf = true) : Thinned json json
  | array {items others : List Json} (h : ThinnedItems items others) :
    Thinned (.array items) (.array others)
  | object {fields others : List (String × Json)} (h : ThinnedFields fields others) :
    Thinned (.object fields) (.object others)

inductive ThinnedItems : List Json → List Json → Prop
  | nil : ThinnedItems [] []
  | cons {item other : Json} {items others : List Json} (h : Thinned item other)
    (hrest : ThinnedItems items others) : ThinnedItems (item :: items) (other :: others)

inductive ThinnedFields : List (String × Json) → List (String × Json) → Prop
  | nil : ThinnedFields [] []
  | cons {key : String} {value other : Json} {fields others : List (String × Json)}
    (h : Thinned value other) (hrest : ThinnedFields fields others) :
    ThinnedFields ((key, value) :: fields) ((key, other) :: others)
  | drop {fields others : List (String × Json)} (hrest : ThinnedFields fields others) :
    ThinnedFields (("position", .null) :: fields) others

end

section Thinned

mutual

/-- Nothing need be left out. -/
theorem Thinned.refl (json : Json) : Thinned json json := by
  match json with
  | .array items => exact .array (ThinnedItems.refl items)
  | .object fields => exact .object (ThinnedFields.refl fields)
  | .null | .boolean _ | .number _ | .string _ | .brokenString _ | .brokenObject _ => exact .leaf rfl

theorem ThinnedItems.refl (items : List Json) : ThinnedItems items items := by
  match items with
  | [] => exact .nil
  | item :: items => exact .cons (Thinned.refl item) (ThinnedItems.refl items)

theorem ThinnedFields.refl (fields : List (String × Json)) : ThinnedFields fields fields := by
  match fields with
  | [] => exact .nil
  | (key, value) :: fields => exact .cons (Thinned.refl value) (ThinnedFields.refl fields)

end

mutual

/-- What is left of a plain value is plain. -/
theorem Thinned.plain {json other : Json} (h : Thinned json other) (hplain : json.Plain) :
    other.Plain := by
  cases h with
  | leaf => exact hplain
  | array h => exact ThinnedItems.plain h hplain
  | object h => exact ThinnedFields.plain h hplain

theorem ThinnedItems.plain {items others : List Json} (h : ThinnedItems items others)
    (hplain : AllPlain items) : AllPlain others := by
  cases h with
  | nil => exact hplain
  | cons h hrest => exact ⟨Thinned.plain h hplain.1, ThinnedItems.plain hrest hplain.2⟩

theorem ThinnedFields.plain {fields others : List (String × Json)} (h : ThinnedFields fields others)
    (hplain : FieldsPlain fields) : FieldsPlain others := by
  cases h with
  | nil => exact hplain
  | cons h hrest => exact ⟨Thinned.plain h hplain.1, ThinnedFields.plain hrest hplain.2⟩
  | drop hrest => exact ThinnedFields.plain hrest hplain.2

end

variable {json other value : Json} {key : String} {items : List Json}
  {fields others : List (String × Json)}

theorem Thinned.eq_of_isLeaf (h : Thinned json other) (hleaf : json.isLeaf = true) : other = json := by
  cases h with
  | leaf => rfl
  | array | object => cases hleaf

theorem Thinned.exists_items (h : Thinned (.array items) other) :
    ∃ others, other = .array others ∧ ThinnedItems items others := by
  cases h with
  | leaf h => cases h
  | array h => exact ⟨_, rfl, h⟩

theorem Thinned.exists_fields (h : Thinned (.object fields) other) :
    ∃ others, other = .object others ∧ ThinnedFields fields others := by
  cases h with
  | leaf h => cases h
  | object h => exact ⟨_, rfl, h⟩

/-- Only positions are left out. -/
theorem ThinnedFields.exists_cons (h : ThinnedFields ((key, value) :: fields) others)
    (hkey : key ≠ "position") :
    ∃ other rest, others = (key, other) :: rest ∧ Thinned value other ∧ ThinnedFields fields rest := by
  cases h with
  | cons h hrest => exact ⟨_, _, rfl, h, hrest⟩
  | drop => exact absurd rfl hkey

/-- Fields that hold no values within values stay as they are. -/
theorem ThinnedFields.eq_of_isLeaf (h : ThinnedFields fields others)
    (hfields : ∀ field ∈ fields, field.1 ≠ "position" ∧ field.2.isLeaf = true) : others = fields := by
  induction fields generalizing others with
  | nil =>
    cases h
    rfl
  | cons field fields ih =>
    obtain ⟨⟨hkey, hleaf⟩, hrest⟩ := List.forall_mem_cons.1 hfields
    obtain ⟨other, rest, rfl, hvalue, hothers⟩ := h.exists_cons hkey
    rw [hvalue.eq_of_isLeaf hleaf, ih hothers hrest]

/-- An object whose fields hold no values within values stays as it is. -/
theorem Thinned.eq_object (h : Thinned (.object fields) other)
    (hfields : ∀ field ∈ fields, field.1 ≠ "position" ∧ field.2.isLeaf = true) :
    other = .object fields := by
  obtain ⟨others, rfl, hothers⟩ := h.exists_fields
  rw [hothers.eq_of_isLeaf hfields]

/-- An object with a single field. -/
theorem Thinned.exists_single (h : Thinned (.object [(key, value)]) other) (hkey : key ≠ "position") :
    ∃ content, other = .object [(key, content)] ∧ Thinned value content := by
  obtain ⟨others, rfl, hothers⟩ := h.exists_fields
  obtain ⟨content, rest, rfl, hvalue, hrest⟩ := hothers.exists_cons hkey
  cases hrest
  exact ⟨content, rfl, hvalue⟩

end Thinned

end Json

end Parlance
