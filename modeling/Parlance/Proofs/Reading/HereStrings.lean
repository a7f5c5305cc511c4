import Parlance.Proofs.Lexemes.Quotes
import Parlance.Proofs.Reading.Single

/-!
# Here-strings

A here-string begins with three quotes or more and goes on over everything else until the next run of
as many quotes.  Runs are scanned before their lengths are compared, so quotes next to the delimiters
make them longer, and what stands between is taken as it is when it has no run of their length.

    body has no run of n quotes → reading .quotes n :: body leaves a here-string open  (readAll_here)
    and one more .quotes n makes it the only word, with the text of body           (readAll_hereString)
-/

namespace Parlance

/-- A text of quotes. -/
def quoteRun (n : Nat) : String := String.ofList (List.replicate n '"')

namespace Reader

open Lexeme (quotes)
open Parlance.Frame.Sentences (unread)

variable {reader : Reader} {body tail : List Lexeme} {n : Nat}

/-! ## What is read in a here-string -/

/-- The frame of a here-string that a text begins with. -/
def hereFrame (n : Nat) : Frame := .here ⟨.start, none, n, 1⟩

/-- Three quotes or more begin a here-string. -/
theorem next_openHere (hn : 3 ≤ n) : ∃ after, start.next (quotes n) = .ok after ∧
    after.stack = [hereFrame n, .sentences unread] := by
  have hlength : (start.reading (quotes n)).token.runLength = n := Lexeme.runLength_quotes n .start
  have hopen : Parser.openQuotes (start.reading (quotes n)) = hereFrame n := by
    unfold Parser.openQuotes
    rw [hlength]
    dsimp only
    split
    · omega
    · omega
    · rfl
  have hread : Parser.read (start.reading (quotes n)) start.stack =
      .ok [hereFrame n, .sentences unread] := by
    rw [← hopen]
    rfl
  exact ⟨_, next_of_read hread, rfl⟩

/-- Nothing but a run of its own length ends a here-string. -/
theorem next_here {item : Lexeme} (hcut : ∃ rest, Lexeme.Cut item rest) (hne : item ≠ quotes n)
    {below : List Frame} (hstack : reader.stack = hereFrame n :: below) :
    ∃ after, reader.next item = .ok after ∧ after.stack = hereFrame n :: below := by
  obtain ⟨rest, hcut⟩ := hcut
  have hother : ¬ ((reader.reading item).token.kind = .stringDelimiter ∧
      (reader.reading item).token.runLength = n) := by
    rintro ⟨hkind, hlength⟩
    exact hne (Lexeme.eq_quotes_of_runLength hcut hkind hlength)
  have hread : Parser.read (reader.reading item) reader.stack = .ok (hereFrame n :: below) := by
    rw [hstack]
    exact if_neg hother
  exact ⟨_, next_of_read hread, rfl⟩

/-- A here-string stays open without a run of its length. -/
theorem readAll_here (hn : 3 ≤ n) (hcut : ∀ item ∈ body, ∃ rest, Lexeme.Cut item rest)
    (hbody : quotes n ∉ body) : ∃ after, start.readAll (quotes n :: body) = .ok after ∧
      after.stack = [hereFrame n, .sentences unread] := by
  obtain ⟨opened, hopened, hstack⟩ := next_openHere hn
  obtain ⟨after, hafter, hlast⟩ := readAll_of_next
    (fun item hitem reader => next_here (hcut item hitem) fun heq => hbody (heq ▸ hitem)) hstack
  exact ⟨after, readAll_trans (readAll_single hopened) hafter, hlast⟩

/-- The first run of its length makes a here-string of what stands before that run. -/
theorem readAll_hereString (hn : 3 ≤ n) (hcut : ∀ item ∈ body, ∃ rest, Lexeme.Cut item rest)
    (hbody : quotes n ∉ body) : ∃ after, start.readAll (quotes n :: body ++ [quotes n]) = .ok after ∧
      after.stack = [.sentences (unread.single ⟨.hereString (String.ofList (covered body)) n, none⟩)] ∧
      after.latest = some .stringDelimiter := by
  obtain ⟨inside, hinside, hstack⟩ := readAll_here hn hcut hbody
  have hlog : inside.log = sequences (quotes n :: body) := by
    rw [log_of_readAll hinside]
    exact Array.empty_append
  have hbefore : (inside.reading (quotes n)).before = (quotes n :: body).length := by
    rw [before_reading, hlog, size_sequences]
  have htext : Parser.Reading.text (inside.reading (quotes n)).log 1
      (inside.reading (quotes n)).before = String.ofList (covered body) := by
    apply String.toList_injective
    rw [hbefore, String.toList_ofList]
    show (Parser.Reading.text (inside.log.push _) _ _).toList = _
    rw [hlog]
    exact text_sequences (Nat.succ_le_succ (Nat.zero_le _)) _
  have hread : Parser.read (inside.reading (quotes n)) inside.stack =
      .ok [.sentences (unread.single ⟨.hereString (String.ofList (covered body)) n, none⟩)] := by
    rw [hstack, ← htext]
    exact if_pos ⟨rfl, Lexeme.runLength_quotes n .start⟩
  exact ⟨_, readAll_trans hinside (readAll_single (next_of_read hread)), rfl, rfl⟩

/-! ## Texts -/

theorem exists_quotes (text : List Char) :
    ∃ k rest, text = List.replicate k '"' ++ rest ∧ rest.head? ≠ some '"' := by
  induction text with
  | nil => exact ⟨0, [], rfl, fun h => by cases h⟩
  | cons c text ih =>
    by_cases hc : c = '"'
    · obtain ⟨k, rest, rfl, hrest⟩ := ih
      exact ⟨k + 1, rest, by rw [hc]; rfl, hrest⟩
    · exact ⟨0, c :: text, rfl, fun h => hc (Option.some.inj h)⟩

/-- What a text that begins with quotes is when it is a single here-string: those quotes, no more of
them, and up to the next run of as many the text of the string. -/
theorem lexemes_of_hereString {text rest : List Char} (hn : 3 ≤ n)
    (h : start.parse (List.replicate n '"' ++ rest) =
      .ok (.single (.hereString (String.ofList text) n))) :
    rest.head? ≠ some '"' ∧ ∃ body tail, lexemes rest = body ++ quotes n :: tail ∧
      covered body = text ∧ quotes n ∉ body := by
  obtain ⟨k, rest, rfl, hrest⟩ := exists_quotes rest
  have hlexemes : lexemes (List.replicate n '"' ++ (List.replicate k '"' ++ rest)) =
      quotes (n + k) :: lexemes rest := by
    rw [← List.append_assoc, List.replicate_append_replicate]
    exact lexemes_quotes_append (by omega) hrest
  rw [parse, hlexemes] at h
  have hcut : ∀ item ∈ lexemes rest, ∃ after, Lexeme.Cut item after := fun _ => exists_cut_of_mem
  have hlong : 3 ≤ n + k := by omega
  by_cases hmem : quotes (n + k) ∈ lexemes rest
  · obtain ⟨body, tail, hsplit, hbody⟩ := List.eq_append_cons_of_mem hmem
    obtain ⟨after, hafter, hstack, -⟩ := readAll_hereString hlong
      (fun item hitem => hcut item (by rw [hsplit]; exact List.mem_append_left _ hitem)) hbody
    have hitems : quotes (n + k) :: lexemes rest =
        (quotes (n + k) :: body ++ [quotes (n + k)]) ++ tail := by
      rw [hsplit, List.append_assoc]
      rfl
    rw [hitems, readAll_append, hafter] at h
    have hkind := kind_of_single rfl hstack h
    obtain ⟨htext, hlength⟩ := Morpheme.Kind.hereString.inj hkind
    obtain rfl : k = 0 := by omega
    exact ⟨hrest, body, tail, hsplit, (String.ofList_injective htext).symm, hbody⟩
  · obtain ⟨after, hafter, hstack⟩ := readAll_here hlong hcut hmem
    rw [hafter] at h
    have hopen : after.close = .error .unmatchedHereStringDelimiter := by
      unfold close
      rw [hstack]
      rfl
    cases hopen.symm.trans h

/-- A text without a backslash between two runs of quotes. -/
theorem parse_quotes_iff {text : List Char} (hn : 3 ≤ n) (hslash : '\\' ∉ text) :
    start.parse (List.replicate n '"' ++ (text ++ List.replicate n '"')) =
        .ok (.single (.hereString (String.ofList text) n)) ↔
      text ≠ [] ∧ text.head? ≠ some '"' ∧ text.getLast? ≠ some '"' ∧ ¬ HasRun n text := by
  have hpos : 0 < n := by omega
  have hquotes : ∀ rest : List Char, (List.replicate n '"' ++ rest).head? = some '"' := by
    intro rest
    obtain ⟨m, rfl⟩ := Nat.exists_eq_succ_of_ne_zero (Nat.ne_of_gt hpos)
    rfl
  constructor
  · intro h
    obtain ⟨hhead, body, tail, hsplit, rfl, hbody⟩ := lexemes_of_hereString hn h
    have hne : covered body ≠ [] := by
      intro hnil
      rw [hnil] at hhead
      exact hhead (by simpa using hquotes [])
    have hbefore := (lexemes_of_split hsplit).1
    refine ⟨hne, ?_, ?_, ?_⟩
    · rwa [List.head?_append_of_ne_nil _ hne] at hhead
    · refine getLast_ne_quote hsplit (fun hmem => ?_) (hquotes _)
      rcases List.mem_append.1 hmem with hmem | hmem
      · exact hslash hmem
      · cases List.eq_of_mem_replicate hmem
    · rw [← quotes_mem_lexemes_iff hpos hslash, hbefore]
      exact hbody
  · rintro ⟨hne, hhead, hlast, hrun⟩
    rw [← quotes_mem_lexemes_iff hpos hslash] at hrun
    have hlexemes : lexemes (List.replicate n '"' ++ (text ++ List.replicate n '"')) =
        quotes n :: lexemes text ++ [quotes n] := by
      have hinside : lexemes (text ++ List.replicate n '"') = lexemes text ++ [quotes n] := by
        obtain ⟨m, rfl⟩ := Nat.exists_eq_succ_of_ne_zero (Nat.ne_of_gt hpos)
        rw [← lexemes_quotes hpos]
        exact lexemes_append_quote hslash hlast _
      rw [lexemes_quotes_append hpos (by rwa [List.head?_append_of_ne_nil _ hne]), hinside]
      rfl
    obtain ⟨after, hafter, hstack, hlatest⟩ :=
      readAll_hereString hn (fun _ => exists_cut_of_mem) hrun
    rw [covered_lexemes] at hstack
    rw [parse, hlexemes, hafter]
    exact close_single rfl hstack (by rw [hlatest]; decide)

end Reader

/-- **Here-strings are exact.**  Between two runs of `n` quotes, a text without a backslash is read as a
here-string of that text exactly when it is not empty, neither begins nor ends with a quote and has no
run of exactly `n` quotes. -/
theorem parse_hereString_iff {n : Nat} (hn : 3 ≤ n) {text : String} (hslash : '\\' ∉ text.toList)
    (options : Parser.Options) :
    (parse (quoteRun n ++ text ++ quoteRun n) options).map Script.erased =
        .ok (.single (.hereString text n)) ↔
      text ≠ "" ∧ text.toList.head? ≠ some '"' ∧ text.toList.getLast? ≠ some '"' ∧
        ¬ HasRun n text.toList := by
  have hsource : (quoteRun n ++ text ++ quoteRun n).toList =
      List.replicate n '"' ++ (text.toList ++ List.replicate n '"') := by
    simp only [quoteRun, String.toList_append, String.toList_ofList, List.append_assoc]
  have hiff := Reader.parse_quotes_iff hn hslash
  rw [String.ofList_toList] at hiff
  rw [erased_parse_eq_ok, hsource, hiff, ne_eq, ne_eq, String.toList_eq_nil_iff]

/-- Longer and shorter runs, a comment and brackets are text between three quotes. -/
theorem parse_hereString_runs :
    let text := "a \"\" #\x7b \"\"\"\" [b"
    '\\' ∉ text.toList ∧ (parse (quoteRun 3 ++ text ++ quoteRun 3) ⟨true⟩).map Script.erased =
      .ok (.single (.hereString text 3)) := by
  intro text
  have hslash : '\\' ∉ text.toList := by decide
  exact ⟨hslash, (parse_hereString_iff (by decide) hslash ⟨true⟩).2
    ⟨by decide, by decide, by decide, by decide⟩⟩

end Parlance
