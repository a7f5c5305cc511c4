import Parlance.Token.Scanner

/-!
# Streams of tokens

A stream gives tokens one at a time and tells when it has none left.  A scanner is a stream over
text, a list of tokens is one over itself.  Every token taken brings a stream closer to its end,
so taking all of them is a total function.
-/

namespace Parlance

/-- A source of finitely many tokens. -/
class TokenStream (σ : Type) where
  /-- The next token and the stream after it. -/
  next : σ → Option (Token × σ)
  /-- Whether the stream is exhausted. -/
  atEnd : σ → Bool
  /-- A bound on the number of tokens left. -/
  remaining : σ → Nat
  remaining_next_lt : ∀ {stream after : σ} {token : Token},
    next stream = some (token, after) → remaining after < remaining stream

namespace TokenStream

instance : TokenStream Scanner where
  next := Scanner.next
  atEnd := Scanner.atEnd
  remaining := fun scanner => scanner.cursor.rest.length
  remaining_next_lt := Scanner.length_rest_next_lt

/-- The next token of a list of tokens. -/
def nextOfList : List Token → Option (Token × List Token)
  | [] => none
  | token :: rest => some (token, rest)

theorem length_nextOfList_lt {stream after : List Token} {token : Token}
    (h : nextOfList stream = some (token, after)) : after.length < stream.length := by
  cases stream with
  | nil => simp [nextOfList] at h
  | cons first rest =>
    simp only [nextOfList, Option.some.injEq, Prod.mk.injEq] at h
    obtain ⟨-, rfl⟩ := h
    exact Nat.lt_succ_self _

instance : TokenStream (List Token) where
  next := nextOfList
  atEnd := List.isEmpty
  remaining := List.length
  remaining_next_lt := length_nextOfList_lt

/-- Takes tokens until the stream says that it is exhausted. -/
def drain {σ : Type} [TokenStream σ] (stream : σ) : List Token :=
  if atEnd stream then []
  else
    match _h : next stream with
    | none => []
    | some (token, after) => token :: drain after
termination_by remaining stream
decreasing_by exact remaining_next_lt _h

/-- Takes tokens until there is none. -/
def collect {σ : Type} [TokenStream σ] (stream : σ) : List Token :=
  match _h : next stream with
  | none => []
  | some (token, after) => token :: collect after
termination_by remaining stream
decreasing_by exact remaining_next_lt _h

section

variable {σ : Type} [TokenStream σ] {stream after : σ} {token : Token}

theorem collect_of_next_eq_none (h : next stream = none) : collect stream = [] := by
  rw [collect]
  split
  · rfl
  · rename_i hnext
    rw [h] at hnext
    cases hnext

theorem collect_of_next_eq_some (h : next stream = some (token, after)) :
    collect stream = token :: collect after := by
  rw [collect]
  split
  · rename_i hnext
    rw [h] at hnext
    cases hnext
  · rename_i hnext
    rw [h] at hnext
    cases hnext
    rfl

end

end TokenStream

end Parlance
