import Parlance.Proofs.Lexemes.Growth
import Parlance.Proofs.Located
import Parlance.Proofs.Shifted

/-!
# Runs of quotes

Quotes that stand next to each other are one lexeme, whatever else stands around them.  A backslash
can take a quote away from its run; in a text without one, the lexemes that are `n` quotes are the
runs of exactly `n` quotes.

    rest does not start with a quote → lexemes (n quotes ++ rest) = .quotes n :: lexemes rest
                                                                          (lexemes_quotes_append)
    text does not end with a quote → lexemes (text ++ '"' :: rest) = lexemes text ++ lexemes ('"' :: rest)
                                                                           (lexemes_append_quote)
    .quotes n ∈ lexemes text ↔ HasRun n text                              (quotes_mem_lexemes_iff)
-/

namespace Parlance

/-- Whether a text has `n` quotes next to each other that no other quote stands next to. -/
def HasRun (n : Nat) (text : List Char) : Prop :=
  ∃ before after, text = before ++ (List.replicate n '"' ++ after) ∧
    before.getLast? ≠ some '"' ∧ after.head? ≠ some '"'

/-- A run begins at one of the places in the text. -/
theorem hasRun_iff {n : Nat} {text : List Char} :
    HasRun n text ↔ ∃ i < text.length + 1,
      text.drop i = List.replicate n '"' ++ text.drop (i + n) ∧
        (text.take i).getLast? ≠ some '"' ∧ (text.drop (i + n)).head? ≠ some '"' := by
  constructor
  · rintro ⟨before, after, rfl, hbefore, hafter⟩
    refine ⟨before.length, by rw [List.length_append]; omega, ?_⟩
    have hdrop : (before ++ (List.replicate n '"' ++ after)).drop (before.length + n) = after := by
      rw [← List.drop_drop, List.drop_left, List.drop_left' List.length_replicate]
    rw [hdrop, List.drop_left, List.take_left]
    exact ⟨rfl, hbefore, hafter⟩
  · rintro ⟨i, -, hdrop, hbefore, hafter⟩
    exact ⟨text.take i, text.drop (i + n), by rw [← hdrop, List.take_append_drop], hbefore, hafter⟩

instance (n : Nat) (text : List Char) : Decidable (HasRun n text) :=
  decidable_of_iff _ hasRun_iff.symm

namespace Lexeme

/-- The lexeme of `n` quotes. -/
def quotes (n : Nat) : Lexeme := verbatim .stringDelimiter (List.replicate n '"')

theorem runLength_quotes (n : Nat) (position : Position) :
    ((quotes n).toToken position).runLength = n :=
  utf8ByteSize_replicate n (by decide)

variable {lexeme : Lexeme} {rest : List Char} {n : Nat}

theorem cut_quotes (hn : 0 < n) (hrest : rest.head? ≠ some '"') : Cut (quotes n) rest := by
  refine cut_replicate rfl rfl hn fun c hc => ?_
  rw [beq_eq_false_iff_ne]
  rintro rfl
  exact hrest hc

/-- A string delimiter is a run of quotes. -/
theorem eq_quotes_of_cut (h : Cut lexeme rest) (hkind : lexeme.kind = .stringDelimiter) :
    ∃ n, 0 < n ∧ lexeme = quotes n := by
  cases h with
  | sign hsign =>
    cases hkind
    cases hsign
  | @run kind p c more _ hrun hall =>
    cases hkind
    cases hrun
    have hreplicate : c :: more = List.replicate (more.length + 1) '"' :=
      List.eq_replicate_iff.2 ⟨rfl, fun d hd => beq_iff_eq.1 (hall d hd)⟩
    exact ⟨more.length + 1, Nat.succ_pos _, congrArg (verbatim .stringDelimiter) hreplicate⟩
  | text => cases hkind
  | lastText => cases hkind
  | continuation => cases hkind
  | escape => cases hkind

/-- A string delimiter is known by its length. -/
theorem eq_quotes_of_runLength (h : Cut lexeme rest) {position : Position}
    (hkind : lexeme.kind = .stringDelimiter) (hlength : (lexeme.toToken position).runLength = n) :
    lexeme = quotes n := by
  obtain ⟨m, -, rfl⟩ := eq_quotes_of_cut h hkind
  rw [← hlength, runLength_quotes]

/-- What ends with no quote, and escapes nothing, can stand before a quote. -/
theorem Cut.quote (h : Cut lexeme []) (hslash : '\\' ∉ lexeme.sequence)
    (hlast : lexeme.sequence.getLast? ≠ some '"') (rest : List Char) : Cut lexeme ('"' :: rest) := by
  refine h.cons hslash rfl (by decide) (fun p hp => ?_) rest
  cases hkind : lexeme.kind with
  | whitespace | comment =>
    rw [hkind] at hp
    cases hp
    rfl
  | stringDelimiter =>
    obtain ⟨n, hn, rfl⟩ := eq_quotes_of_cut h hkind
    refine absurd ?_ hlast
    show (List.replicate n '"').getLast? = _
    rw [List.getLast?_replicate, if_neg (Nat.ne_of_gt hn)]
  | _ =>
    rw [hkind] at hp
    cases hp

/-- What ends with a quote, and escapes nothing, cannot stand before another. -/
theorem Cut.ne_quote (h : Cut lexeme rest) (hslash : '\\' ∉ lexeme.sequence)
    (hlast : lexeme.sequence.getLast? = some '"') : rest.head? ≠ some '"' := by
  have hmem := List.mem_of_getLast? hlast
  intro hhead
  cases h with
  | @sign kind c hkind =>
    rw [← List.mem_singleton.1 hmem] at hkind
    cases kind <;> cases hkind
  | run _ hrun hrest =>
    have hquote := hrun _ hmem
    rw [hrest _ hhead] at hquote
    cases hquote
  | text hrun => exact absurd (hrun _ hmem) (by decide)
  | lastText => cases hhead
  | continuation => exact absurd List.mem_cons_self hslash
  | escape => exact absurd List.mem_cons_self hslash

end Lexeme

open Lexeme (quotes)

variable {text rest : List Char} {n : Nat}

theorem lexemes_quotes_append (hn : 0 < n) (hrest : rest.head? ≠ some '"') :
    lexemes (List.replicate n '"' ++ rest) = quotes n :: lexemes rest :=
  lexemes_of_cut (Lexeme.cut_quotes hn hrest)

theorem lexemes_quotes (hn : 0 < n) : lexemes (List.replicate n '"') = [quotes n] := by
  have hquotes := lexemes_quotes_append hn (show ([] : List Char).head? ≠ some '"' by decide)
  rwa [List.append_nil, lexemes_nil] at hquotes

/-- A quote behind a text that does not end with one begins a lexeme. -/
theorem lexemes_append_quote (hslash : '\\' ∉ text) (hlast : text.getLast? ≠ some '"')
    (rest : List Char) : lexemes (text ++ '"' :: rest) = lexemes text ++ lexemes ('"' :: rest) := by
  refine lexemes_append_of_cut fun last hend hcut => ?_
  obtain ⟨init, hinit⟩ := List.getLast?_eq_some_iff.1 hend
  have htext : text = covered init ++ last.sequence := by
    rw [← covered_lexemes text, hinit, covered_append, covered_cons, covered_nil, List.append_nil]
  rw [htext] at hslash hlast
  rw [List.getLast?_append_of_ne_nil _ (Lexeme.sequence_ne_nil_of_cut hcut)] at hlast
  exact hcut.quote (fun hmem => hslash (List.mem_append_right _ hmem)) hlast rest

/-- A lexeme that begins with a quote does not stand behind a quote. -/
theorem getLast_ne_quote {first second : List Lexeme} (h : lexemes text = first ++ second)
    (hslash : '\\' ∉ text) (hsecond : (covered second).head? = some '"') :
    (covered first).getLast? ≠ some '"' := by
  rcases List.eq_nil_or_concat first with rfl | ⟨init, last, rfl⟩
  · exact fun hlast => by cases hlast
  rw [List.concat_eq_append] at h ⊢
  rw [List.append_assoc] at h
  have hcut := cut_of_split h
  have htext : text = covered init ++ (last.sequence ++ covered second) := by
    rw [← covered_lexemes text, h, covered_append, List.singleton_append, covered_cons]
  rw [covered_append, covered_cons, covered_nil, List.append_nil,
    List.getLast?_append_of_ne_nil _ (Lexeme.sequence_ne_nil_of_cut hcut)]
  intro hlast
  refine hcut.ne_quote (fun hmem => hslash ?_) hlast hsecond
  rw [htext]
  exact List.mem_append_right _ (List.mem_append_left _ hmem)

/-- The lexemes around a run of quotes. -/
theorem lexemes_of_run {before after : List Char} (hn : 0 < n) (hslash : '\\' ∉ before)
    (hbefore : before.getLast? ≠ some '"') (hafter : after.head? ≠ some '"') :
    lexemes (before ++ (List.replicate n '"' ++ after)) =
      lexemes before ++ quotes n :: lexemes after := by
  rw [← lexemes_quotes_append hn hafter]
  obtain ⟨m, rfl⟩ := Nat.exists_eq_succ_of_ne_zero (Nat.ne_of_gt hn)
  rw [List.replicate_succ, List.cons_append]
  exact lexemes_append_quote hslash hbefore _

/-- In a text without a backslash, the runs of `n` quotes are lexemes, and no others are. -/
theorem quotes_mem_lexemes_iff (hn : 0 < n) (hslash : '\\' ∉ text) :
    quotes n ∈ lexemes text ↔ HasRun n text := by
  constructor
  · intro hmem
    obtain ⟨first, second, hsplit⟩ := List.append_of_mem hmem
    have htext : text = covered first ++ (List.replicate n '"' ++ covered second) := by
      rw [← covered_lexemes text, hsplit, covered_append, covered_cons]
      rfl
    refine ⟨_, _, htext, getLast_ne_quote hsplit hslash ?_, ?_⟩
    · obtain ⟨m, rfl⟩ := Nat.exists_eq_succ_of_ne_zero (Nat.ne_of_gt hn)
      rfl
    · refine (cut_of_split hsplit).ne_quote (fun hback => ?_) ?_
      · cases List.eq_of_mem_replicate hback
      · show (List.replicate n '"').getLast? = some '"'
        rw [List.getLast?_replicate, if_neg (Nat.ne_of_gt hn)]
  · rintro ⟨before, after, rfl, hbefore, hafter⟩
    rw [lexemes_of_run hn (fun hmem => hslash (List.mem_append_left _ hmem)) hbefore hafter]
    exact List.mem_append_right _ List.mem_cons_self

end Parlance
