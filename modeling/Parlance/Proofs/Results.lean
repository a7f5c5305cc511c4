/-!
# Computations that can fail

What is known of the parts of a computation that did not fail.
-/

namespace Parlance

variable {ε α β : Type}

theorem bind_eq_ok {first : Except ε α} {next : α → Except ε β} {result : β}
    (h : (first >>= next) = .ok result) : ∃ value, first = .ok value ∧ next value = .ok result := by
  cases first with
  | error error => cases h
  | ok value => exact ⟨value, rfl, h⟩

theorem map_eq_ok {first : Except ε α} {f : α → β} {result : β} (h : first.map f = .ok result) :
    ∃ value, first = .ok value ∧ f value = result := by
  cases first with
  | error error => cases h
  | ok value =>
    cases h
    exact ⟨value, rfl, rfl⟩

theorem bind_eq_ok_iff {first : Except ε α} {next : α → Except ε β} {result : β} :
    first.bind next = .ok result ↔ ∃ value, first = .ok value ∧ next value = .ok result := by
  constructor
  · exact bind_eq_ok
  · rintro ⟨value, rfl, h⟩
    exact h

theorem map_eq_ok_iff {first : Except ε α} {f : α → β} {result : β} :
    first.map f = .ok result ↔ ∃ value, first = .ok value ∧ f value = result := by
  constructor
  · exact map_eq_ok
  · rintro ⟨value, rfl, rfl⟩
    rfl

theorem map_eq_error {first : Except ε α} {f : α → β} {error : ε} (h : first.map f = .error error) :
    first = .error error := by
  cases first with
  | error error =>
    cases h
    rfl
  | ok value => cases h

theorem bind_eq_error {first : Except ε α} {next : α → Except ε β} {error : ε}
    (h : (first >>= next) = .error error) :
    first = .error error ∨ ∃ value, first = .ok value ∧ next value = .error error := by
  cases first with
  | error error =>
    cases h
    exact .inl rfl
  | ok value => exact .inr ⟨value, rfl, h⟩

/-- What follows a computation that does not fail. -/
theorem exists_bind_ok {first : Except ε α} {next : α → Except ε β} (h : ∃ value, first = .ok value)
    (hnext : ∀ value, ∃ result, next value = .ok result) : ∃ result, (first >>= next) = .ok result := by
  obtain ⟨value, rfl⟩ := h
  exact hnext value

theorem exists_map_ok {first : Except ε α} (f : α → β) (h : ∃ value, first = .ok value) :
    ∃ result, first.map f = .ok result := by
  obtain ⟨value, rfl⟩ := h
  exact ⟨f value, rfl⟩

end Parlance
