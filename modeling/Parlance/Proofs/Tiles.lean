import Parlance.Proofs.Located
import Parlance.Script.Draft

/-!
# Drafts that cover their tokens

The morphemes of a word or a string cover its tokens without a gap: each goes from the token where it
stands up to the token where the next one does.  A literal has the literals of its tokens; a marker is
spelled as its tokens are, so that it can turn back into text.

    Tiles source draft.items i k → text = piece literal k n →
      Tiles source (draft.pushLiteral text (place of k) b).items i n                (Tiles.pushLiteral)
    Tiles source draft.items i n → Tiles source draft.settle.items i n                   (Tiles.settle)
    Tiles source items i n → i < n → the first of them stands at token i               (Tiles.position)
-/

namespace Parlance

/-- What a literal or a marker that is made of the tokens from number `i` up to number `j` says. -/
def Morpheme.Kind.Spells (source : String) (i j : Nat) : Morpheme.Kind → Prop
  | .literal text => text = piece Token.literal (tokenize source) i j
  | .marker _ _ text => text = piece Token.literal (tokenize source) i j ∧
      text = piece Token.sequence (tokenize source) i j
  | _ => True

/-- A morpheme that is made of the tokens from number `i` up to number `j`. -/
structure Morpheme.Spans (source : String) (morpheme : Morpheme) (i j : Nat) : Prop where
  lt : i < j
  position : ∃ token, (tokenize source)[i]? = some token ∧ morpheme.position = some token.position
  spells : morpheme.kind.Spells source i j
  located : morpheme.Located source

/-- Morphemes, the latest first, that cover the tokens from number `i` up to number `j`. -/
inductive Tiles (source : String) : List Morpheme → Nat → Nat → Prop
  | nil (i : Nat) : Tiles source [] i i
  | cons {morpheme : Morpheme} {before : List Morpheme} {i j k : Nat} (h : Tiles source before i j)
    (hlast : morpheme.Spans source j k) : Tiles source (morpheme :: before) i k

section Tiles

variable {source text : String} {token first : Token} {i j k n : Nat}

/-! ## Single morphemes -/

/-- A morpheme that neither text nor markers can grow. -/
theorem spans_of_standsAt {kind : Morpheme.Kind} (h : (tokenize source)[i]? = some first) (hij : i < j)
    (hstands : kind.StandsAt source first.position) (hspells : kind.Spells source i j)
    (hinside : kind.Inside source) : Morpheme.Spans source ⟨kind, some first.position⟩ i j :=
  ⟨hij, ⟨first, h, rfl⟩, hspells, ⟨first.position, rfl, hstands⟩, hinside⟩

theorem spans_literal (h : (tokenize source)[i]? = some first) (hij : i < j)
    (htext : text = piece Token.literal (tokenize source) i j) :
    Morpheme.Spans source ⟨.literal text, some first.position⟩ i j := by
  have hj : i + (j - i) = j := by omega
  have hpos : j - i ≠ 0 := by omega
  have hrun := List.take_append_drop (j - i) ((tokenize source).drop i)
  rw [List.drop_drop, hj] at hrun
  refine spans_of_standsAt h hij ?_ htext trivial
  refine ⟨(tokenize source).take i, ((tokenize source).drop i).take (j - i), (tokenize source).drop j,
    ?_, ?_, htext⟩
  · rw [List.append_assoc, hrun, List.take_append_drop]
  · rw [List.head?_take, if_neg hpos, List.head?_drop, h]
    rfl

theorem spans_marker {expands : Bool} {levels : Nat} (h : (tokenize source)[i]? = some first)
    (hij : i < j) (hliteral : text = piece Token.literal (tokenize source) i j)
    (hsequence : text = piece Token.sequence (tokenize source) i j) :
    Morpheme.Spans source ⟨.marker expands levels text, some first.position⟩ i j := by
  refine spans_of_standsAt h hij ?_ ⟨hliteral, hsequence⟩ trivial
  show text.toList <+: textAt source first.position
  rw [textAt_of_getElem h, left_eq_append (Nat.le_of_lt hij), hsequence]
  exact List.prefix_append _ _

/-- A marker grows by a token of a single character. -/
theorem Morpheme.Spans.growMarker {expands expands' : Bool} {levels levels' : Nat} {c : Char}
    {start : Option Position} (h : Morpheme.Spans source ⟨.marker expands levels text, start⟩ j n)
    (htoken : (tokenize source)[n]? = some token) (hkind : token.kind.sign? = some c) :
    Morpheme.Spans source ⟨.marker expands' levels' (text ++ String.ofList [c]), start⟩ j (n + 1) := by
  obtain ⟨hsequence, hliteral⟩ := spelled_sign htoken hkind
  obtain ⟨first, hfirst, hposition⟩ := h.position
  obtain rfl : start = some first.position := hposition
  obtain ⟨hliterals, hsequences⟩ := h.spells
  have hle := Nat.le_of_lt h.lt
  refine spans_marker hfirst (Nat.lt_succ_of_lt h.lt) ?_ ?_
  · rw [piece_succ hle htoken, hliteral, hsequence, ← hliterals]
  · rw [piece_succ hle htoken, hsequence, ← hsequences]

/-! ## Drafts -/

namespace Tiles

variable {items : List Morpheme} {draft : Draft}

theorem located (h : Tiles source items i n) : ∀ item ∈ items, item.Located source := by
  induction h with
  | nil => simp
  | cons _ hlast ih => exact List.forall_mem_cons.2 ⟨hlast.located, ih⟩

theorem allLocated (h : Tiles source draft.items i n) : Morpheme.AllLocated source draft.toList :=
  Morpheme.allLocated_iff.2 fun item hitem => h.located item (List.mem_reverse.1 hitem)

/-- The first of the morphemes stands where its tokens begin. -/
theorem position (h : Tiles source items i n) (hitems : items ≠ [])
    (htoken : (tokenize source)[i]? = some token) :
    items.getLast?.map Morpheme.position = some (some token.position) := by
  induction h with
  | nil => exact absurd rfl hitems
  | @cons item before i j k hbefore hlast ih =>
    cases before with
    | nil =>
      cases hbefore
      obtain ⟨first, hfirst, hposition⟩ := hlast.position
      cases hfirst.symm.trans htoken
      exact congrArg some hposition
    | cons second rest =>
      rw [List.getLast?_cons_cons]
      exact ih (List.cons_ne_nil _ _) htoken

theorem push {morpheme : Morpheme} (h : Tiles source draft.items i k)
    (hlast : morpheme.Spans source k n) : Tiles source (draft.push morpheme).items i n :=
  .cons h hlast

theorem pushLiteral (h : Tiles source draft.items i k) (hkn : k < n)
    (htoken : (tokenize source)[k]? = some token)
    (htext : text = piece Token.literal (tokenize source) k n) (extendsTarget : Bool) :
    Tiles source (draft.pushLiteral text (some token.position) extendsTarget).items i n := by
  have hadd : Tiles source (draft.addLiteral text (some token.position)).items i n :=
    .cons h (spans_literal htoken hkn htext)
  unfold Draft.pushLiteral
  split
  · rename_i value start before hitems
    split
    · rw [hitems] at h
      cases h with
      | @cons _ _ _ j _ hbefore hlast =>
        obtain ⟨first, hfirst, hposition⟩ := hlast.position
        obtain rfl : start = some first.position := hposition
        have hvalue : value = piece Token.literal (tokenize source) j k := hlast.spells
        refine .cons hbefore (spans_literal hfirst (Nat.lt_trans hlast.lt hkn) ?_)
        rw [hvalue, htext, piece_append (Nat.le_of_lt hlast.lt) (Nat.le_of_lt hkn)]
    · exact hadd
  · exact hadd

/-- A token that is text. -/
theorem pushToken (h : Tiles source draft.items i n) (htoken : (tokenize source)[n]? = some token)
    (extendsTarget : Bool) :
    Tiles source (draft.pushLiteral token.literal (some token.position) extendsTarget).items i (n + 1) :=
  h.pushLiteral (Nat.lt_succ_self n) htoken (piece_single htoken).symm extendsTarget

theorem pushDollar (h : Tiles source draft.items i n) (htoken : (tokenize source)[n]? = some token)
    (hkind : token.kind = .dollar) :
    Tiles source (draft.pushDollar (some token.position)).items i (n + 1) := by
  have hsign : token.kind.sign? = some '$' := by rw [hkind]; rfl
  obtain ⟨hsequence, hliteral⟩ := spelled_sign htoken hsign
  have hadd : Tiles source (draft.addMarker (some token.position)).items i (n + 1) := by
    refine .cons h (spans_marker htoken (Nat.lt_succ_self n) ?_ ?_)
    · rw [piece_single htoken, hliteral, hsequence]
    · rw [piece_single htoken, hsequence]
  unfold Draft.pushDollar
  split
  · rename_i expands levels text start before hitems
    split
    · rw [hitems] at h
      cases h with
      | cons hbefore hlast => exact .cons hbefore (hlast.growMarker htoken hsign)
    · exact hadd
  · exact hadd

theorem pushAsterisk (h : Tiles source draft.items i n) (htoken : (tokenize source)[n]? = some token)
    (hkind : token.kind = .asterisk) :
    Tiles source (draft.pushAsterisk token.literal (some token.position)).items i (n + 1) := by
  have hsign : token.kind.sign? = some '*' := by rw [hkind]; rfl
  unfold Draft.pushAsterisk
  split
  · rename_i levels marker start before hitems
    split
    · rw [hitems] at h
      cases h with
      | cons hbefore hlast => exact .cons hbefore (hlast.growMarker htoken hsign)
    · exact h.pushToken htoken true
  · exact h.pushToken htoken true

/-- A marker that turns back into text covers the same tokens. -/
theorem settle (h : Tiles source draft.items i n) : Tiles source draft.settle.items i n := by
  unfold Draft.settle
  split
  · split
    · rename_i expands levels text position before hitems
      rw [hitems] at h
      cases h with
      | @cons _ _ _ j _ hbefore hlast =>
        obtain ⟨first, hfirst, hposition⟩ := hlast.position
        obtain rfl : position = some first.position := hposition
        have hdraft : Tiles source (Draft.mk before .nothing).items i j := hbefore
        exact hdraft.pushLiteral hlast.lt hfirst hlast.spells.1 false
    · exact h
  · exact h

end Tiles

end Tiles

end Parlance
