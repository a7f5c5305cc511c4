import Parlance.Value.Display

/-!
# Texts of numbers

A number is written with digits, a point, a minus sign and letters, so it is safe as a bare literal.

    isLiteralSafe (Numeral.write value)                                      (isLiteralSafe_write)
    isLiteralSafe x.toText                                                  (isLiteralSafe_toText)
-/

namespace Parlance

/-- Characters of numbers. -/
def isNumeric (c : Char) : Bool := c.isAlphanum || c = '.' || c = '-'

/-- A text of characters of numbers is safe. -/
theorem isLiteralSafe_of_numeric {text : String} (hne : text ≠ "")
    (h : ∀ c ∈ text.toList, isNumeric c = true) : isLiteralSafe text = true := by
  unfold isLiteralSafe
  rw [Bool.and_eq_true]
  refine ⟨by simpa using hne, ?_⟩
  rw [Bool.not_eq_true', List.any_eq_false]
  intro c hc hends
  unfold endsLiteral at hends
  simp only [List.mem_cons, List.not_mem_nil, or_false, decide_eq_true_eq] at hends
  have hnumeric := h c hc
  revert hnumeric
  rcases hends with rfl | rfl | rfl | rfl | rfl | rfl | rfl | rfl | rfl | rfl | rfl | rfl | rfl | rfl |
    rfl | rfl <;> decide

theorem isNumeric_of_isDigit {c : Char} (h : c.isDigit = true) : isNumeric c = true := by
  unfold isNumeric Char.isAlphanum
  rw [h, Bool.or_true]
  rfl

theorem isNumeric_of_mem_repr {n : Nat} {c : Char} (h : c ∈ n.repr.toList) : isNumeric c = true := by
  rw [Nat.toList_repr] at h
  exact isNumeric_of_isDigit (Nat.isDigit_of_mem_toDigits (by decide) (by decide) h)

/-! ## Integers -/

theorem isLiteralSafe_write (value : Int64) : isLiteralSafe (Numeral.write value) = true := by
  unfold Numeral.write
  cases value.toInt with
  | ofNat n =>
    have htext : toString (Int.ofNat n) = n.repr := rfl
    rw [htext]
    exact isLiteralSafe_of_numeric Nat.repr_ne_empty fun c hc => isNumeric_of_mem_repr hc
  | negSucc n =>
    have htext : (toString (Int.negSucc n)).toList = '-' :: (n + 1).repr.toList := by
      show ("-" ++ (n + 1).repr).toList = _
      rw [String.toList_append]
      rfl
    refine isLiteralSafe_of_numeric (fun hempty => ?_) fun c hc => ?_
    · rw [hempty] at htext
      cases htext
    · rw [htext] at hc
      rcases List.mem_cons.1 hc with rfl | hc
      · rfl
      · exact isNumeric_of_mem_repr hc

/-! ## Reals -/

namespace Binary64

theorem Decimal.isNumeric_of_mem_positional {d : Decimal} {c : Char} (h : c ∈ d.positional) :
    isNumeric c = true := by
  have hdigits : ∀ c ∈ d.digits, isNumeric c = true := fun c hc => isNumeric_of_mem_repr hc
  have hzeros : ∀ n, ∀ c ∈ List.replicate n '0', isNumeric c = true := by
    intro n c hc
    rw [List.eq_of_mem_replicate hc]
    rfl
  unfold Decimal.positional at h
  dsimp only at h
  split at h
  · rcases List.mem_append.1 h with h | h
    · exact hdigits c h
    · exact hzeros _ c h
  · split at h
    · rcases List.mem_append.1 h with h | h
      · exact hdigits c (List.mem_of_mem_take h)
      · rcases List.mem_cons.1 h with rfl | h
        · rfl
        · exact hdigits c (List.mem_of_mem_drop h)
    · rcases List.mem_cons.1 h with rfl | h
      · rfl
      · rcases List.mem_cons.1 h with rfl | h
        · rfl
        · rcases List.mem_append.1 h with h | h
          · exact hzeros _ c h
          · exact hdigits c h

theorem Decimal.positional_ne_nil (d : Decimal) : d.positional ≠ [] := by
  have hdigits : d.digits ≠ [] := by
    show d.coefficient.repr.toList ≠ []
    exact fun h => Nat.repr_ne_empty (String.toList_eq_nil_iff.1 h)
  unfold Decimal.positional
  dsimp only
  split
  · exact fun h => hdigits (List.append_eq_nil_iff.1 h).1
  · split <;> simp

theorem isLiteralSafe_toText (x : Binary64) : isLiteralSafe x.toText = true := by
  have hinfinite : ['i', 'n', 'f'].all isNumeric = true := rfl
  unfold toText write
  split
  · decide
  · refine isLiteralSafe_of_numeric (fun hempty => ?_) fun c hc => ?_
    · have hnil := String.ofList_injective (hempty.trans String.ofList_nil.symm)
      have hbody := (List.append_eq_nil_iff.1 hnil).2
      split at hbody
      · cases hbody
      · exact Decimal.positional_ne_nil _ hbody
    · rw [String.toList_ofList] at hc
      rcases List.mem_append.1 hc with hc | hc
      · split at hc
        · rw [List.mem_singleton.1 hc]
          rfl
        · cases hc
      · split at hc
        · exact List.all_eq_true.1 hinfinite c hc
        · exact Decimal.isNumeric_of_mem_positional hc

end Binary64

end Parlance
