import Parlance.Token.Stream

/-!
# Tokenizing with a token ahead

A tokenizer gives the tokens of its input one at a time, and can be started again on another input at any
moment.  It scans without a view of what follows, so a run of text ends before every backslash.  But a
backslash that ends the input is text, and text that meets text is one token: after text the tokenizer
scans on until it finds another token, and keeps that one for the next call.

    "ab\" is scanned as `ab`, `\` and merged to `ab\`
    "ab;" is scanned as `ab`, `;` and the `;` is pending
-/

namespace Parlance

/-- The first lexeme of the text `c :: rest` when text is not merged, and what follows it. -/
def Lexeme.scanned (c : Char) (rest : List Char) : Lexeme × List Char :=
  if isOrdinary c then run .text isOrdinary c rest else first c rest

/-- A token that goes on with another one. -/
def Token.join (token more : Token) : Token :=
  { token with sequence := token.sequence ++ more.sequence, literal := token.literal ++ more.literal }

/-- A tokenizer at work. -/
structure Tokenizer where
  /-- The input, once there is one. -/
  input : Option Cursor
  /-- The token scanned ahead while looking for text to merge. -/
  pending : Option Token

namespace Tokenizer

/-- A tokenizer without input. -/
def idle : Tokenizer := ⟨none, none⟩

/-- Starts on an input, whatever the tokenizer did before. -/
def begin (input : Cursor) (_tokenizer : Tokenizer) : Tokenizer := ⟨some input, none⟩

/-- Lets go of the input. -/
def finish (_tokenizer : Tokenizer) : Tokenizer := idle

/-- Whether no token is left. -/
def atEnd (tokenizer : Tokenizer) : Bool :=
  tokenizer.pending.isNone && tokenizer.input.all Cursor.atEnd

/-- The token under the cursor when text is not merged, and the cursor behind it. -/
def scan (cursor : Cursor) : Option (Token × Cursor) :=
  match cursor.rest with
  | [] => none
  | c :: rest =>
    let lexeme := (Lexeme.scanned c rest).1
    some (lexeme.toToken cursor.position, cursor.skip lexeme.sequence.length)

/-! ### Scanning goes on -/

theorem length_scanned_pos (c : Char) (rest : List Char) :
    0 < (Lexeme.scanned c rest).1.sequence.length := by
  unfold Lexeme.scanned
  split
  · exact Nat.succ_pos _
  · have hcover := congrArg List.length (Lexeme.sequence_append_first c rest)
    have hle := Lexeme.length_first_le c rest
    rw [List.length_append, List.length_cons] at hcover
    omega

theorem length_rest_scan_lt {cursor after : Cursor} {token : Token}
    (h : scan cursor = some (token, after)) : after.rest.length < cursor.rest.length := by
  unfold scan at h
  split at h
  · cases h
  · rename_i c rest hrest
    have hpos := length_scanned_pos c rest
    obtain ⟨-, rfl⟩ := Prod.mk.inj (Option.some.inj h)
    rw [Cursor.rest_skip, List.length_drop, hrest, List.length_cons]
    omega

/-! ### Tokens -/

/-- Text with the text that follows it, and the tokenizer behind it. -/
def merge (token : Token) (cursor : Cursor) : Token × Tokenizer :=
  match _h : scan cursor with
  | none => (token, ⟨some cursor, none⟩)
  | some (more, after) =>
    if more.kind = .text then merge (token.join more) after
    else (token, ⟨some after, some more⟩)
termination_by cursor.rest.length
decreasing_by exact length_rest_scan_lt _h

/-- A token that was scanned, text merged, and the tokenizer behind it. -/
def complete (token : Token) (input : Option Cursor) : Token × Tokenizer :=
  match input with
  | some cursor => if token.kind = .text then merge token cursor else (token, ⟨some cursor, none⟩)
  | none => (token, idle)

/-- The next token, and the tokenizer after it. -/
def next (tokenizer : Tokenizer) : Option (Token × Tokenizer) :=
  match tokenizer.pending, tokenizer.input with
  | some token, input => some (complete token input)
  | none, some cursor =>
    match scan cursor with
    | none => none
    | some (token, after) => some (complete token (some after))
  | none, none => none

/-- A bound on the number of tokens left. -/
def remaining (tokenizer : Tokenizer) : Nat :=
  tokenizer.pending.toList.length + (tokenizer.input.map fun cursor => cursor.rest.length).getD 0

theorem remaining_merge_le (token : Token) (cursor : Cursor) :
    (merge token cursor).2.remaining ≤ cursor.rest.length := by
  generalize hn : cursor.rest.length = n
  induction n using Nat.strongRecOn generalizing token cursor with
  | _ n ih =>
    rw [merge]
    split
    · simp [remaining, hn]
    · rename_i more after hscan
      have hlt := length_rest_scan_lt hscan
      rw [hn] at hlt
      split
      · exact Nat.le_trans (ih _ hlt _ after rfl) (Nat.le_of_lt hlt)
      · simp only [remaining, Option.toList_some, List.length_singleton, Option.map_some,
          Option.getD_some]
        omega

theorem remaining_complete_le (token : Token) (input : Option Cursor) :
    (complete token input).2.remaining ≤ (input.map fun cursor => cursor.rest.length).getD 0 := by
  unfold complete
  split
  · split
    · exact remaining_merge_le token _
    · simp [remaining]
  · simp [remaining, idle]

theorem remaining_next_lt {tokenizer after : Tokenizer} {token : Token}
    (h : tokenizer.next = some (token, after)) : after.remaining < tokenizer.remaining := by
  obtain ⟨input, pending⟩ := tokenizer
  cases pending with
  | some first =>
    have hle := remaining_complete_le first input
    obtain rfl := (congrArg Prod.snd (Option.some.inj h)).symm
    simp only [remaining, Option.toList_some, List.length_singleton] at hle ⊢
    omega
  | none =>
    cases input with
    | none => cases h
    | some cursor =>
      simp only [next] at h
      split at h
      · cases h
      · rename_i first behind hscan
        have hlt := length_rest_scan_lt hscan
        have hle := remaining_complete_le first (some behind)
        obtain rfl := (congrArg Prod.snd (Option.some.inj h)).symm
        simp only [remaining, Option.map_some, Option.getD_some, Option.toList_none,
          List.length_nil] at hle ⊢
        omega

instance : TokenStream Tokenizer where
  next := next
  atEnd := atEnd
  remaining := remaining
  remaining_next_lt := remaining_next_lt

/-- All tokens of a source at once, and the tokenizer after that. -/
def tokenize (source : String) (tokenizer : Tokenizer) : List Token × Tokenizer :=
  (TokenStream.collect (tokenizer.begin (.ofString source)), idle)

end Tokenizer

end Parlance
