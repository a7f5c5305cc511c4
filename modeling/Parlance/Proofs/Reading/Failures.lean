import Parlance.Proofs.Reading.Final

/-!
# Failures that stay

An error that is not incomplete is recorded, and every later call answers with it until the parser begins
anew.  One call does not look at what is recorded: taking the tokens of a stream that has none.
Beginning anew forgets everything but the options, and so does an end that answers with a script.

    the error of a call is incomplete or recorded                               (failure_of_answer)
    p.failure = some e → a call that does not begin anew leaves p as it is     (answer_of_failure)
    (afterCalls calls p).options = p.options                                   (options_afterCalls)
-/

namespace Parlance

namespace Parser

/-! ## Calls -/

/-- A call to a parser. -/
inductive Call : Type 1 where
  | begin
  | push (token : Token)
  | feed {σ : Type} [TokenStream σ] (stream : σ)
  | close
  | parse (tokens : List Token)

namespace Call

/-- Whether the call makes the parser begin anew before anything else. -/
def begins : Call → Bool
  | .begin | .parse _ => true
  | _ => false

/-- Whether the call is to take the tokens of a stream that has none. -/
def exhausted : Call → Bool
  | @feed _ _ stream => (TokenStream.next stream).isNone
  | _ => false

/-- What a call answers, with the script if there is one, and the parser after it. -/
def answer (parser : Parser) : Call → Except ParseError (Option Script) × Parser
  | .begin => (.ok none, parser.begin)
  | .push token => (parser.push token).map (Except.map fun _ => none) id
  | @feed _ _ stream => (parser.feed stream).map (Except.map fun _ => none) id
  | .close => parser.close.map (Except.map some) id
  | .parse tokens => (parser.parseTokens tokens).map (Except.map some) id

end Call

/-- The parser after some calls. -/
def afterCalls : List Call → Parser → Parser
  | [], parser => parser
  | call :: rest, parser => afterCalls rest (call.answer parser).2

/-- What some calls answer, one after the other. -/
def answers : List Call → Parser → List (Except ParseError (Option Script))
  | [], _ => []
  | call :: rest, parser => (call.answer parser).1 :: answers rest (call.answer parser).2

variable {parser : Parser} {failure : ParseError}

/-! ## Errors are recorded -/

theorem failure_of_feed {tokens : List Token} (h : (parser.feed tokens).1 = .error failure) :
    (parser.feed tokens).2.failure = some failure := by
  obtain ⟨hrun, hfailure⟩ := feed_tokens tokens parser
  rw [hrun]
  exact hfailure failure h

/-- A close answers with a script and begins anew, or leaves the parser with an error that it knew of or
that more input could repair, or records its error. -/
theorem close_cases (parser : Parser) :
    (∃ script, parser.close = (.ok script, start parser.options)) ∨
    (∃ error, parser.close = (.error error, parser) ∧
      (parser.failure = some error ∨ error.isIncomplete = true)) ∨
    ∃ error, parser.close = (.error error, { parser with failure := some error }) := by
  unfold close
  split
  · rename_i known hknown
    exact .inr (.inl ⟨known, rfl, .inl hknown⟩)
  · split
    · rename_i error hunclosed
      exact .inr (.inl ⟨error, rfl, .inr (isIncomplete_of_unclosed hunclosed)⟩)
    · split
      · rename_i script hfinish
        exact .inl ⟨script, rfl⟩
      · exact .inr (.inr ⟨_, rfl⟩)

/-- Reading a list of tokens ends at one that is refused, or with a close. -/
theorem parseTokens_cases (tokens : List Token) (parser : Parser) :
    (∃ error, parser.parseTokens tokens = (.error error, (parser.begin.feed tokens).2) ∧
      (parser.begin.feed tokens).2.failure = some error) ∨
    parser.parseTokens tokens = (parser.begin.feed tokens).2.close := by
  have hfed := fun error => @failure_of_feed parser.begin error tokens
  unfold parseTokens
  rcases hfeed : parser.begin.feed tokens with ⟨answer, fed⟩
  rw [hfeed] at hfed
  cases answer with
  | error found => exact .inl ⟨found, rfl, hfed found rfl⟩
  | ok => exact .inr rfl

theorem failure_of_close (h : parser.close.1 = .error failure) (hfinal : failure.isIncomplete = false) :
    parser.close.2.failure = some failure := by
  rcases close_cases parser with ⟨script, hclose⟩ | ⟨error, hclose, hknown⟩ | ⟨error, hclose⟩
  · rw [hclose] at h
    cases h
  · rw [hclose] at h ⊢
    cases h
    exact hknown.resolve_right (by rw [hfinal]; exact Bool.false_ne_true)
  · rw [hclose] at h ⊢
    cases h
    rfl

theorem failure_of_parseTokens {tokens : List Token} (h : (parser.parseTokens tokens).1 = .error failure)
    (hfinal : failure.isIncomplete = false) : (parser.parseTokens tokens).2.failure = some failure := by
  rcases parseTokens_cases tokens parser with ⟨error, hparse, hfailure⟩ | hparse
  · rw [hparse] at h ⊢
    cases h
    exact hfailure
  · rw [hparse] at h ⊢
    exact failure_of_close h hfinal

/-- An error that a call answers with is recorded, unless more input could repair it. -/
theorem failure_of_answer {call : Call} (h : (call.answer parser).1 = .error failure)
    (hfinal : failure.isIncomplete = false) : (call.answer parser).2.failure = some failure := by
  cases call with
  | begin => cases h
  | push token => exact failure_of_push (Prod.ext (map_eq_error h) rfl)
  | feed stream =>
    have hfeed := map_eq_error h
    show (parser.feed stream).2.failure = some failure
    rw [feed_collect] at hfeed ⊢
    exact failure_of_feed hfeed
  | close => exact failure_of_close (map_eq_error h) hfinal
  | parse tokens => exact failure_of_parseTokens (map_eq_error h) hfinal

/-! ## Recorded errors stay -/

/-- A parser that failed takes no token. -/
theorem feed_of_failure {σ : Type} [TokenStream σ] (h : parser.failure = some failure) (stream : σ) :
    parser.feed stream =
      (if (TokenStream.next stream).isNone then .ok () else .error failure, parser) := by
  rw [feed_collect]
  rcases hnext : TokenStream.next stream with - | ⟨token, rest⟩
  · rw [TokenStream.collect_of_next_eq_none hnext]
    exact feed_nil parser
  · rw [TokenStream.collect_of_next_eq_some hnext]
    exact feed_cons_of_error (push_of_failure h token)

theorem answer_of_failure (h : parser.failure = some failure) {call : Call} (hbegins : ¬ call.begins) :
    call.answer parser = (if call.exhausted then .ok none else .error failure, parser) := by
  cases call with
  | begin | parse => exact absurd rfl hbegins
  | push token =>
    show (parser.push token).map _ _ = _
    rw [push_of_failure h]
    rfl
  | feed stream =>
    show (parser.feed stream).map _ _ = _
    rw [feed_of_failure h, Call.exhausted, Prod.map, apply_ite (Except.map _)]
    rfl
  | close =>
    show parser.close.map _ _ = _
    rw [close_of_failure h]
    rfl

theorem answers_of_failure (h : parser.failure = some failure) {calls : List Call}
    (hbegins : ∀ call ∈ calls, ¬ call.begins) :
    answers calls parser = calls.map fun call => if call.exhausted then .ok none else .error failure := by
  induction calls with
  | nil => rfl
  | cons call rest ih =>
    rw [answers, List.map_cons, answer_of_failure h (hbegins call List.mem_cons_self),
      ih fun next hnext => hbegins next (List.mem_cons_of_mem call hnext)]

/-! ## Options stay -/

theorem options_push (token : Token) : (parser.push token).2.options = parser.options := by
  unfold push
  split
  · rfl
  · dsimp only
    split <;> rfl

theorem options_feed {σ : Type} [TokenStream σ] (stream : σ) :
    (parser.feed stream).2.options = parser.options := by
  rw [feed_collect, (feed_tokens _ _).1]
  generalize TokenStream.collect stream = tokens
  induction tokens generalizing parser with
  | nil => rfl
  | cons token rest ih => exact (@ih (parser.push token).2).trans (options_push token)

theorem options_close : parser.close.2.options = parser.options := by
  rcases close_cases parser with ⟨script, hclose⟩ | ⟨error, hclose, -⟩ | ⟨error, hclose⟩ <;>
    exact congrArg (fun outcome => outcome.2.options) hclose

theorem options_parseTokens (tokens : List Token) :
    (parser.parseTokens tokens).2.options = parser.options := by
  have hfed : (parser.begin.feed tokens).2.options = parser.options := options_feed tokens
  rcases parseTokens_cases tokens parser with ⟨error, hparse, -⟩ | hparse
  · rw [hparse]
    exact hfed
  · rw [hparse]
    exact options_close.trans hfed

theorem options_answer (call : Call) : (call.answer parser).2.options = parser.options := by
  cases call with
  | begin => rfl
  | push token => exact options_push token
  | feed stream => exact options_feed stream
  | close => exact options_close
  | parse tokens => exact options_parseTokens tokens

theorem options_afterCalls (calls : List Call) : (afterCalls calls parser).options = parser.options := by
  induction calls generalizing parser with
  | nil => rfl
  | cons call rest ih => exact ih.trans (options_answer call)

/-! ## Beginning anew -/

theorem close_of_script {script : Script} (h : parser.close.1 = .ok script) :
    parser.close.2 = start parser.options := by
  rcases close_cases parser with ⟨found, hclose⟩ | ⟨error, hclose, -⟩ | ⟨error, hclose⟩
  · rw [hclose]
  · rw [hclose] at h
    cases h
  · rw [hclose] at h
    cases h

/-- A parser that answered with a script is a new one with its options. -/
theorem answer_of_script {call : Call} {script : Script}
    (h : (call.answer parser).1 = .ok (some script)) :
    (call.answer parser).2 = start parser.options := by
  cases call with
  | begin => cases h
  | push token =>
    obtain ⟨-, -, hnone⟩ := map_eq_ok h
    cases hnone
  | feed stream =>
    obtain ⟨-, -, hnone⟩ := map_eq_ok h
    cases hnone
  | close =>
    obtain ⟨found, hclose, -⟩ := map_eq_ok h
    exact close_of_script hclose
  | parse tokens =>
    have hparse : ∃ found, (parser.parseTokens tokens).1 = .ok found := by
      obtain ⟨found, hparse, -⟩ := map_eq_ok h
      exact ⟨found, hparse⟩
    obtain ⟨found, hparse⟩ := hparse
    show (parser.parseTokens tokens).2 = _
    rcases parseTokens_cases tokens parser with ⟨error, hrefused, -⟩ | hclose
    · rw [hrefused] at hparse
      cases hparse
    · rw [hclose] at hparse ⊢
      rw [close_of_script hparse, options_feed]
      rfl

/-- **Failures stay until the parser begins anew.**  After any calls, an error that more input could not
repair is what every later call answers with, in any order and number, but for the taking of tokens from a
stream that has none.  After a call to begin, and after an answer with a script, the parser answers
whatever calls follow as a new one. -/
theorem answers_until_begin (options : Options) (before : List Call) :
    let parser := afterCalls before (start options)
    (∀ (call : Call) (failure : ParseError) (later : List Call), (call.answer parser).1 = .error failure →
      failure.isIncomplete = false → (∀ next ∈ later, ¬ next.begins) →
      answers later (call.answer parser).2 =
        later.map fun next => if next.exhausted then .ok none else .error failure) ∧
    ∀ (call : Call) (later : List Call),
      call = .begin ∨ (∃ script, (call.answer parser).1 = .ok (some script)) →
      answers later (call.answer parser).2 = answers later (start options) := by
  intro parser
  have hoptions : parser.options = options := options_afterCalls before
  refine ⟨fun call failure later herror hfinal hlater => ?_, fun call later hanew => ?_⟩
  · exact answers_of_failure (failure_of_answer herror hfinal) hlater
  · have hstart : (call.answer parser).2 = start options := by
      rcases hanew with rfl | ⟨script, hscript⟩
      · exact congrArg start hoptions
      · rw [answer_of_script hscript, hoptions]
    rw [hstart]

/-- `a)` is refused for good; `a` alone is a script, after which the parser is a new one. -/
theorem answers_until_begin_refused :
    let word : Token := ⟨.text, .start, "a", "a"⟩
    let closing : Token := ⟨.closeTuple, ⟨1, 0, 1⟩, ")", ")"⟩
    let parser := afterCalls [.push word] (start ⟨false⟩)
    let failure : ParseError := ⟨.unmatchedRight .parenthesis, ⟨1, 0, 1⟩⟩
    let script : Script := ⟨[⟨[⟨[⟨.literal "a", none⟩], none⟩], none⟩], none⟩
    (Call.answer parser (.push closing)).1 = .error failure ∧ failure.isIncomplete = false ∧
      answers [.close, .push word, .feed [word], .close] (Call.answer parser (.push closing)).2 =
        [.error failure, .error failure, .error failure, .error failure] ∧
      (Call.answer parser .close).1 = .ok (some script) ∧
      answers [.push closing, .begin, .close] (Call.answer parser .close).2 =
        answers [.push closing, .begin, .close] (start ⟨false⟩) := by
  intro word closing parser failure script
  obtain ⟨hstays, hanew⟩ := answers_until_begin ⟨false⟩ [.push word]
  have herror : (Call.answer parser (.push closing)).1 = .error failure := rfl
  have hscript : (Call.answer parser .close).1 = .ok (some script) := rfl
  refine ⟨herror, rfl, ?_, hscript, hanew .close _ (.inr ⟨script, hscript⟩)⟩
  exact hstays (.push closing) failure [.close, .push word, .feed [word], .close] herror rfl
    (by simp [Call.begins])

/-- A parser that refused `)` takes a stream without tokens, and then answers with the error again. -/
theorem answers_exhausted :
    let closing : Token := ⟨.closeTuple, .start, ")", ")"⟩
    let failure : ParseError := ⟨.unmatchedRight .parenthesis, .start⟩
    failure.isIncomplete = false ∧ (∀ next ∈ [Call.feed ([] : List Token), .close], ¬ next.begins) ∧
      answers [.push closing, .feed ([] : List Token), .close] (start ⟨false⟩) =
        [.error failure, .ok none, .error failure] := by
  intro closing failure
  refine ⟨rfl, by simp [Call.begins], ?_⟩
  simp only [answers, Call.answer, feed_nil]
  rfl

end Parser

end Parlance
