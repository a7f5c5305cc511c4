import Mathlib
import Parlance.Proofs.Display.RoundTrip
import Parlance.Proofs.Lexemes.Growth

/-!
# Scripts in brackets

A text that is a script on its own is the same script in brackets, once a newline stands before the
closing bracket: the newline ends an open word, a line comment and an empty string exactly as the end
of the input does.

    r.close = .ok tree → r.next newline ends with the frame of tree        (exists_next_newline)
    start.readAll (lexemes text) = .ok r → r.close = .ok tree →
      Content enclosure (text ++ "\n") tree                                    (content_of_close)
-/

namespace Parlance

open Parlance.Frame (Stacked)

/-! ## Sentences that end twice -/

namespace Frame.Sentences

variable {frame after : Sentences}

/-- Nothing is left to close once a sentence was closed. -/
theorem closeSentence_of_closeSentence (h : frame.closeSentence = .ok after) :
    after.closeSentence = .ok after := by
  obtain ⟨closed, hclosed, hafter⟩ := map_eq_ok h
  have hword := Parser.word_of_closeWord hclosed
  have hends : ∀ ended : Sentences, ended.word = none → ended.words.isEmpty = true →
      ended.closeSentence = .ok ended := by
    intro ended hended hwords
    unfold closeSentence closeWord
    rw [hended]
    show Except.ok (if ended.words.isEmpty then ended else _) = _
    rw [if_pos hwords]
  by_cases hwords : closed.words.isEmpty = true
  · rw [if_pos hwords] at hafter
    subst hafter
    exact hends closed hword hwords
  · rw [if_neg hwords] at hafter
    subst hafter
    exact hends _ hword rfl

theorem finish_of_closeSentence {script : Script} (h : frame.closeSentence = .ok after)
    (hfinish : frame.finish = .ok script) : after.finish = .ok script := by
  unfold finish at hfinish ⊢
  rw [h] at hfinish
  rw [closeSentence_of_closeSentence h]
  exact hfinish

end Frame.Sentences

/-! ## A newline and the end of the input -/

namespace Reader

/-- The newline. -/
def newline : Lexeme := .verbatim .newline ['\n']

theorem lexemes_newline (rest : List Char) : lexemes ('\n' :: rest) = newline :: lexemes rest := by
  rw [lexemes_cons]
  rfl

variable {reader : Reader} {tree : Script}

/-- Sentences end at a newline. -/
theorem readInside_newline {reading : Parser.Reading} (hkind : reading.token.kind = .newline)
    {frame : Frame.Sentences} (hfinish : frame.finish = .ok tree) :
    ∃ after, Parser.readInside reading [.sentences frame] = .ok [.sentences after] ∧
      after.finish = .ok tree := by
  obtain ⟨after, hclose, -⟩ := map_eq_ok hfinish
  refine ⟨after, ?_, Frame.Sentences.finish_of_closeSentence hclose hfinish⟩
  show Parser.readInSentences reading frame [] = _
  unfold Parser.readInSentences
  simp only [hkind, hclose]
  rfl

/-- The text of a comment does not depend on the newline that ends it. -/
theorem lineComment_push (log : Array String) (last : String) (frame : Frame.LineComment) :
    Parser.lineComment (log.push last) log.size frame = Parser.lineComment log log.size frame := by
  have htext : Parser.Reading.text (log.push last) frame.textStart log.size =
      Parser.Reading.text log frame.textStart log.size := by
    unfold Parser.Reading.text
    rw [Array.extract_push]
    simp
  unfold Parser.lineComment
  rw [htext]

/-- Where the input can end, a newline ends all that is open but the whole script. -/
theorem exists_next_newline (h : reader.close = .ok tree) :
    ∃ after frame, reader.next newline = .ok after ∧ after.stack = [.sentences frame] ∧
      frame.finish = .ok tree := by
  obtain ⟨log, stack, latest⟩ := reader
  have hfinish : Parser.finish log stack = .ok tree := finish_of_close h
  obtain ⟨closed, hinner, hclosed⟩ := bind_eq_ok hfinish
  split at hclosed
  · rename_i frame
    have hkind : (reading newline ⟨log, stack, latest⟩).token.kind = .newline := rfl
    obtain ⟨after, hread, hafter⟩ := readInside_newline hkind hclosed
    refine ⟨⟨logged newline ⟨log, stack, latest⟩, [.sentences after], some .newline⟩, after,
      next_of_read ?_, rfl, hafter⟩
    unfold Parser.closeInnermost at hinner
    split at hinner
    · rename_i comment below
      have hbefore := before_reading newline ⟨log, .lineComment comment :: below, latest⟩
      unfold Parser.read
      dsimp only
      rw [if_neg (by rintro ⟨-, hkind⟩; cases hkind), if_pos hkind, hbefore]
      show (Frame.addMorpheme (Parser.lineComment (log.push _) log.size comment) below).bind _ = _
      rw [lineComment_push, hinner]
      exact hread
    · rename_i openedAt position below
      unfold Parser.read
      dsimp only
      rw [if_neg (by intro hkind; cases hkind), hinner]
      exact hread
    · cases hinner
      exact hread
  · cases hclosed

/-- A script is the content of brackets, with a newline behind it. -/
theorem content_of_close {enclosure : Frame.Enclosure} {text : List Char}
    (hangs : ∀ last, (lexemes text).getLast? = some last → ¬ last.Hangs)
    (hread : start.readAll (lexemes text) = .ok reader) (hclose : reader.close = .ok tree) :
    Content enclosure (text ++ ['\n']) tree := by
  obtain ⟨after, frame, hnext, hstack, hfinish⟩ := exists_next_newline hclose
  have hcovered : covered (lexemes text ++ [newline]) = text ++ ['\n'] := by
    rw [covered_append, covered_lexemes]
    rfl
  have hsettles : ∀ reading, Parser.Settles reading after.stack [.sentences frame] := by
    intro reading
    rw [hstack]
    exact .keep _
  refine content_of_readAll hcovered (fun rest => ?_) ?_ hsettles hfinish
  · rw [List.append_assoc, List.cons_append, List.nil_append, lexemes_append_newline hangs,
      lexemes_newline, List.append_assoc]
    rfl
  · rw [readAll_append, hread]
    show (reader.next newline).bind (readAll []) = _
    rw [hnext]
    rfl

/-- **Nesting is free of context.**  A text that is a script is that script between brackets of each
kind, with a newline behind it: the brackets are the one morpheme of the one word of the one sentence.
The text must not end with a backslash, which would escape the newline. -/
theorem parse_in_brackets {source : String} (h : Parlance.parse source ⟨false⟩ = .ok tree)
    (hends : endsOpen source = false) :
    let single (kind : Morpheme.Kind) : Script := ⟨[⟨[⟨[⟨kind, none⟩], none⟩], none⟩], none⟩
    Parlance.parse ("(" ++ (source ++ "\n") ++ ")") ⟨false⟩ = .ok (single (.tuple tree)) ∧
      Parlance.parse ("[" ++ (source ++ "\n") ++ "]") ⟨false⟩ = .ok (single (.expression tree)) ∧
      Parlance.parse ("\x7b" ++ (source ++ "\n") ++ "\x7d") ⟨false⟩ =
        .ok (single (.block tree (source ++ "\n"))) := by
  intro single
  obtain ⟨reader, hread, hclose⟩ := bind_eq_ok (parse_eq_ok.1 h)
  have hcontent : ∀ enclosure, Content enclosure (source ++ "\n").toList tree := by
    intro enclosure
    rw [String.toList_append]
    exact content_of_close (fun _ => not_hangs_of_endsOpen hends) hread hclose
  have hword : ∀ (enclosure : Frame.Enclosure) {display : String}, enclosure ≠ .root →
      display.toList = enclosure.opening :: (source ++ "\n").toList ++ [enclosure.closing] →
      Parlance.parse display ⟨false⟩ = .ok (single (enclosure.kind tree (source ++ "\n"))) := by
    intro enclosure display henclosure hdisplay
    exact parse_word (isWord_brackets henclosure hdisplay (hcontent enclosure))
  have hbracket : ("[" ++ (source ++ "\n") ++ "]").toList = '[' :: (source ++ "\n").toList ++ [']'] := by
    rw [String.toList_append, String.toList_append]
    rfl
  refine ⟨?_, ?_, ?_⟩
  · exact hword .tuple (by decide) (toList_parentheses _)
  · exact hword .expression (by decide) hbracket
  · exact hword .block (by decide) (toList_brace _)

/-- A text that ends within a line comment, behind an empty string. -/
theorem parse_in_brackets_comment :
    let single (kind : Morpheme.Kind) : Script := ⟨[⟨[⟨[⟨kind, none⟩], none⟩], none⟩], none⟩
    let word (kind : Morpheme.Kind) : Word := ⟨[⟨kind, none⟩], none⟩
    let source : String := "a \"\" # b)"
    let tree : Script :=
      ⟨[⟨[word (.literal "a"), word (.string []), word (.lineComment " b)" 1)], none⟩], none⟩
    Parlance.parse source ⟨false⟩ = .ok tree ∧ endsOpen source = false ∧
      Parlance.parse "(a \"\" # b)\n)" ⟨false⟩ = .ok (single (.tuple tree)) ∧
      Parlance.parse "[a \"\" # b)\n]" ⟨false⟩ = .ok (single (.expression tree)) ∧
      Parlance.parse "\x7ba \"\" # b)\n\x7d" ⟨false⟩ =
        .ok (single (.block tree "a \"\" # b)\n")) := by
  intro single word source tree
  have hparse : Parlance.parse source ⟨false⟩ = .ok tree := by
    cbv
  have hends : endsOpen source = false := by
    cbv
  exact ⟨hparse, hends, parse_in_brackets hparse hends⟩

end Reader

end Parlance
