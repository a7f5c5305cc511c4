import Parlance.Proofs.Reading.Erased
import Parlance.Proofs.Reading.Faithful
import Parlance.Proofs.Reading.Rooted

/-!
# Scripts of a single string

A string is a word of its own: nothing can be added to it.  So when the first word of a script is a
string, the script begins with that word whatever comes after it, and it is all of the script when
nothing does.

    (parse source options).map erased = .ok script ↔
      Reader.start.parse source.toList = .ok script                         (erased_parse_eq_ok)
    the first word is a string → no token changes that                          (lasting_begins)
-/

namespace Parlance

/-- The script of one word that is one morpheme, without positions. -/
def Script.single (kind : Morpheme.Kind) : Script := ⟨[⟨[⟨[⟨kind, none⟩], none⟩], none⟩], none⟩

/-- The script of a text, but for its positions, is what a reader makes of the text. -/
theorem erased_parse_eq_ok {source : String} {options : Parser.Options} {script : Script} :
    (parse source options).map Script.erased = .ok script ↔
      Reader.start.parse source.toList = .ok script := by
  rw [← Reader.parse_eq_ok, parse, parse, ← Parser.parseTokens_plain (tokenize source) (.start options)]
  rfl

namespace Frame.Sentences

/-- The sentences of a script of which nothing is read. -/
def unread : Sentences := .start .root .start none 0

/-- Finished sentences, the latest first, of which the first word is the morpheme. -/
def BeginWith (morpheme : Morpheme) (sentences : List Sentence) : Prop :=
  ∃ before words position place, sentences = before ++ [⟨⟨[morpheme], position⟩ :: words, place⟩]

/-- The first word is the morpheme, or the open word will be. -/
inductive Begins (morpheme : Morpheme) (frame : Sentences) : Prop
  | word {position : Option Position} (hsentences : frame.sentences = []) (hwords : frame.words = [])
    (hword : frame.word = some ⟨⟨[morpheme], .nothing⟩, position⟩)
  | words (before : List Word) (position : Option Position) (hsentences : frame.sentences = [])
    (hwords : frame.words = before ++ [⟨[morpheme], position⟩])
  | sentences (h : BeginWith morpheme frame.sentences)

variable {morpheme : Morpheme} {frame after : Sentences}

theorem begins_editWord (hstring : morpheme.kind.isString = true) {position : Option Position}
    {edit : Draft → Draft} (h : frame.editWord position edit = .ok after)
    (hbegins : frame.Begins morpheme) : after.Begins morpheme := by
  unfold editWord at h
  dsimp only at h
  split at h
  · cases h
  · rename_i hends
    cases h
    cases hbegins with
    | word _ _ hword =>
      rw [hword] at hends
      exact absurd hstring hends
    | words before position hsentences hwords => exact .words before position hsentences hwords
    | sentences hsentences => exact .sentences hsentences

theorem begins_closeWord (h : frame.closeWord = .ok after) (hbegins : frame.Begins morpheme) :
    after.Begins morpheme := by
  unfold closeWord at h
  split at h
  · cases h
    exact hbegins
  · rename_i morphemes position hopen
    dsimp only at h
    split at h
    · cases h
    · cases h
      cases hbegins with
      | word hsentences hwords hword =>
        obtain ⟨rfl, -⟩ := OpenWord.mk.inj (Option.some.inj (hopen.symm.trans hword))
        exact .words [] _ hsentences (by rw [hwords]; rfl)
      | words before position hsentences hwords =>
        exact .words (_ :: before) position hsentences (congrArg (List.cons _) hwords)
      | sentences hsentences => exact .sentences hsentences

/-- A sentence that ends leaves no word open, so the first word is in a finished sentence. -/
theorem beginWith_closeSentence (h : frame.closeSentence = .ok after)
    (hbegins : frame.Begins morpheme) : BeginWith morpheme after.sentences := by
  obtain ⟨closed, hclosed, rfl⟩ := map_eq_ok h
  cases begins_closeWord hclosed hbegins with
  | word _ _ hword =>
    rw [Parser.word_of_closeWord hclosed] at hword
    cases hword
  | words before position hsentences hwords =>
    refine ⟨[], before.reverse, position, closed.sentencePosition, ?_⟩
    rw [if_neg (by rw [hwords]; simp), hwords, hsentences, List.reverse_append]
    rfl
  | sentences hsentences =>
    split
    · exact hsentences
    · obtain ⟨before, words, position, place, hbefore⟩ := hsentences
      exact ⟨_ :: before, words, position, place, congrArg (List.cons _) hbefore⟩

/-- A string that is the first word stays the first word. -/
theorem lasting_begins (hstring : morpheme.kind.isString = true) : Lasting (Begins morpheme) where
  editWord _ h hbegins := begins_editWord hstring h hbegins
  closeWord h hbegins := begins_closeWord h hbegins
  closeSentence h hbegins := .sentences (beginWith_closeSentence h hbegins)

end Frame.Sentences

namespace Reader

open Parlance.Frame (Rooted Lasting)
open Parlance.Frame.Sentences (unread)

variable {reader after : Reader} {items : List Lexeme} {kind : Morpheme.Kind}

/-- A property that every lexeme carries on holds at the end, and every lexeme is read. -/
theorem readAll_of_next {P : Reader → Prop}
    (hnext : ∀ item ∈ items, ∀ reader, P reader → ∃ after, reader.next item = .ok after ∧ P after)
    (h : P reader) : ∃ after, reader.readAll items = .ok after ∧ P after := by
  induction items generalizing reader with
  | nil => exact ⟨reader, rfl, h⟩
  | cons item rest ih =>
    obtain ⟨middle, hitem, hmiddle⟩ := hnext item List.mem_cons_self reader h
    obtain ⟨after, hafter, hP⟩ := ih (fun item hitem => hnext item (List.mem_cons_of_mem _ hitem)) hmiddle
    exact ⟨after, by rw [readAll, hitem]; exact hafter, hP⟩

theorem rooted_of_readAll {P : Frame.Sentences → Prop} (hP : Lasting P)
    (h : reader.readAll items = .ok after) (hs : Rooted P reader.stack) : Rooted P after.stack := by
  induction items generalizing reader with
  | nil =>
    cases h
    exact hs
  | cons item rest ih =>
    obtain ⟨next, hnext, hrest⟩ := readAll_cons_eq_ok h
    exact ih hrest (Parser.rooted_of_read hP (next_eq_ok hnext).1 hs)

/-- A string that is all there is makes a script. -/
theorem close_single (hstring : kind.isString = true)
    (hstack : reader.stack = [.sentences (unread.single ⟨kind, none⟩)])
    (hlatest : reader.latest ≠ some .continuation) : reader.close = .ok (.single kind) := by
  have hunclosed : Parser.unclosedFrame [.sentences (unread.single ⟨kind, none⟩)] = none := rfl
  have hshape : Morpheme.shape [⟨kind, none⟩] ≠ .invalid := by
    cases kind <;> first | (cases hstring; done) | exact fun h => by cases h
  unfold close
  rw [hstack, hunclosed]
  dsimp only
  rw [if_neg hlatest]
  show (unread.single ⟨kind, none⟩).finish = _
  unfold Frame.Sentences.finish Frame.Sentences.closeSentence Frame.Sentences.closeWord
  exact congrArg (fun result => Except.map _ (Except.map _ result)) (if_neg hshape)

/-- A script that begins with a string has no other word when it is a single one. -/
theorem kind_of_single {other : Morpheme.Kind} (hstring : kind.isString = true)
    (hstack : reader.stack = [.sentences (unread.single ⟨kind, none⟩)])
    (h : (reader.readAll items).bind close = .ok (.single other)) : other = kind := by
  obtain ⟨after, hafter, hclose⟩ := bind_eq_ok h
  have hlasting : Lasting (Frame.Sentences.Begins ⟨kind, none⟩) :=
    Frame.Sentences.lasting_begins hstring
  have hstart : Rooted (Frame.Sentences.Begins ⟨kind, none⟩) reader.stack := by
    rw [hstack]
    exact .root rfl (.word rfl rfl rfl)
  obtain ⟨frame, hbegins, hfinish⟩ :=
    Parser.rooted_of_finish hlasting (finish_of_close hclose) (rooted_of_readAll hlasting hafter hstart)
  obtain ⟨closed, hclosed, hscript⟩ := map_eq_ok hfinish
  obtain ⟨before, words, position, place, hsentences⟩ :=
    Frame.Sentences.beginWith_closeSentence hclosed hbegins
  rw [hsentences, List.reverse_append] at hscript
  have hfirst := (List.cons.inj (Script.mk.inj hscript).1).1
  have hword := (List.cons.inj (Sentence.mk.inj hfirst).1).1
  have hmorpheme := (List.cons.inj (Word.mk.inj hword).1).1
  exact (Morpheme.mk.inj hmorpheme).1.symm

end Reader

end Parlance
