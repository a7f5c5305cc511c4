import Parlance.Dialect.Commands
import Parlance.Proofs.Suspension.Stale

/-!
# Suspension is transparent

What a program does after a command yielded is what it would have done if the command had been ok at
once: with what it comes to after any number of resumptions, or, if it cannot resume and the program
is that of a script, with the value the embedder answered.  The runs leave the same machine or give
the same answers, run the same commands and leave the same state.
                                                                        (runOn_of_suspended)
-/

namespace Parlance

variable {σ τ : Type}

open Machine

namespace Host.Alike

variable {R : σ → τ → Prop} {host : Host σ} {other : Host τ} {env : σ} {state : τ}

theorem dispatches (h : Alike R host other) (hR : R env state) {program : Program}
    {machine : Machine} {command : Command} {args : List Value}
    (hd : Dispatches host program machine env command args) :
    Dispatches other program machine state command args := by
  refine ⟨hd.sentence, hd.words, ?_⟩
  have hresolve : host.resolveCommand env = other.resolveCommand state :=
    funext fun name => h.resolveCommand hR name
  rw [← hresolve]
  exact hd.name

/-- Machines run again and again on either host answer the same. -/
theorem answers (h : Alike R host other) (program : Program) (replies : List (Option Outcome))
    (stop : Stop) (hR : R env state) :
    Agree R (Machine.answers host program replies (stop, env))
      (Machine.answers other program replies (stop, state)) := by
  induction replies generalizing stop env state with
  | nil => exact ⟨rfl, hR⟩
  | cons reply rest ih =>
    obtain ⟨next, after, after', hfirst, hsecond, hafter⟩ :=
      (h.reexecute program (stop.machine.reply reply) hR).pairs
    obtain ⟨others, last, last', hothers, hothers', hlast⟩ := (ih next hafter).pairs
    rw [Machine.answers, Machine.answers, hfirst, hsecond, hothers, hothers']
    exact ⟨rfl, hlast⟩

end Host.Alike

namespace Machine

theorem Reached.recording {host : Host σ} {program : Program} {machine : Machine}
    (h : Reached host program machine) : Reached host.recording program machine := by
  induction h with
  | start => exact .start
  | @step machine instruction env _ hat ih =>
    have hstart : env = ((env, []) : σ × List Call).1 := rfl
    obtain ⟨hsame, -⟩ := host.alike_recording.step program instruction
      { machine with pc := machine.pc + 1 } hstart
    rw [hsame]
    exact ih.step (env, []) hat
  | withResult result _ ih => exact ih.withResult result

variable {host : Host σ} {program : Program} {machine : Machine} {env after : σ} {command : Command}
  {args : List Value} {result : Outcome}

/-- With a prepared answer, the program goes on from it at once. -/
theorem Dispatches.runOn_answering (h : Dispatches host program machine env command args)
    {answer : Outcome} (hok : answer.isOk) (final : σ) :
    runOn host.answering program machine (env, some (answer, final)) =
      runOn host.answering program (machine.dispatched command answer) (final, none) := by
  have hdispatch : Dispatches host.answering program machine (env, some (answer, final)) command args :=
    ⟨h.sentence, h.words, h.name⟩
  exact hdispatch.runOn_of_ok rfl hok

/-- The machine behind a command that yielded is reached with any result in its place. -/
theorem Reached.dispatched (hreached : Reached host program machine)
    (h : Dispatches host program machine env command args)
    (hexecute : host.execute command args env = (.ok result, after))
    (hyield : result.code = .yielding) (answer : Outcome) :
    Reached host program (machine.dispatched command answer) := by
  have hstopped := hreached.runOn env
  rw [h.runOn_of_yielding hexecute hyield] at hstopped
  exact hstopped.withResult answer

/-- A yielded result that nothing resumes is stale where its value as an ok result is not. -/
theorem stale_dispatched (hresume : host.resume command = none) {reply : Outcome}
    (hreply : reply.code = .yielding) :
    Stale host ((machine.dispatched command result).withResult reply)
      (machine.dispatched command (.ok reply.value)) := by
  show Stale host ((machine.dispatched command (.ok reply.value)).withResult reply) _
  exact .stale hreply rfl rfl rfl hresume

/-- A command that yielded stops the program.  Once its resumption is ok, the program does what it
does when the command is ok at once; so it does in the program of a script when the command cannot
resume and the program is run again from a yielded result. -/
theorem runOn_of_suspended (h : Dispatches host program machine env command args)
    (hexecute : host.execute command args env = (.ok result, after))
    (hyield : result.code = .yielding) (calls : List Call) :
    let called := calls ++ [⟨command, args⟩]
    ∃ stop, runOn host.recording program machine (env, calls) = (stop, after, called) ∧
      stop.outcome = result ∧
      (∀ resume replies answer final, host.resume command = some resume →
        Resumed resume replies result after answer final →
        reexecute host.recording program replies (stop, after, called) =
            runOn host.recording program (machine.dispatched command answer) (final, called) ∧
          runOn host.recording.answering program machine
              ((env, calls), some (answer, final, called)) =
            runOn host.recording.answering program (machine.dispatched command answer)
              ((final, called), none) ∧
          Host.Agree (fun state prepared => prepared = (state, none))
            (reexecute host.recording program replies (stop, after, called))
            (runOn host.recording.answering program machine
              ((env, calls), some (answer, final, called)))) ∧
      (∀ source tree reply replies, Program.ofScript source tree = .ok program →
        Reached host program machine → host.resume command = none → reply.code = .yielding →
        Host.Agree (fun state prepared => prepared = (state, none))
          (answers host.recording program replies
            ((stop.machine.withResult reply).execute host.recording program (after, called)))
          (answers host.recording.answering program replies
            (runOn host.recording.answering program machine
              ((env, calls), some (.ok reply.value, after, called))))) := by
  intro called
  have hdispatch : Dispatches host.recording program machine (env, calls) command args :=
    host.alike_recording.dispatches rfl h
  have hcall : host.recording.execute command args (env, calls) = (.ok result, after, called) := by
    simp only [Host.recording, hexecute]
    rfl
  have halike := host.recording.alike_answering
  refine ⟨⟨machine.dispatched command result, none⟩, hdispatch.runOn_of_yielding hcall hyield, rfl,
    ?_, ?_⟩
  · intro resume replies answer final hresume hresumed
    have hrecording := hresumed.recording called
    have hresume' : host.recording.resume command = some (Host.beside resume) := by
      simp only [Host.recording, hresume, Option.map_some]
    have hfirst := reexecute_resumed program hresume' hrecording (machine.dispatched command result)
      rfl rfl
    have hsecond := hdispatch.runOn_answering hresumed.answer_ok (final, called)
    refine ⟨hfirst, hsecond, ?_⟩
    rw [hfirst, hsecond]
    exact halike.runOn program (machine.dispatched command answer) rfl
  · intro source tree reply replies hcompiled hreached hresume hreply
    have hresume' : host.recording.resume command = none := by
      simp only [Host.recording, hresume, Option.map_none]
    have hclosed := closed_ofScript hcompiled
    have hanswered := hreached.recording.dispatched hdispatch hcall hyield (.ok reply.value)
    obtain ⟨stop, stop', state, hfirst, hsecond, hstops⟩ :=
      execute_of_stale (stale_dispatched hresume' hreply) hclosed hanswered (after, called)
    have hnext := hanswered.execute (after, called)
    rw [hsecond] at hnext
    rw [execute_of_isOk rfl] at hsecond
    obtain ⟨stop'', state', prepared, hplain, hprepared, hstate⟩ :=
      (halike.runOn program (machine.dispatched command (.ok reply.value))
        (rfl : ((after, called), none) = ((after, called), none))).pairs
    rw [hsecond] at hplain
    cases hplain
    rw [hfirst, hdispatch.runOn_answering rfl (after, called), hprepared,
      answers_of_stale hclosed replies state hstops hnext]
    exact halike.answers program replies stop' hstate

/-- `ask x`, which resumes from `bob`, and `yield x`, which is answered by `bob`. -/
theorem runOn_of_suspended_ask_yield :
    let host := Dialect.host ⟨.generic, none, none, ⟨false⟩⟩ 1
    let words (verb : String) : List Value := [.string verb, .string "x"]
    let tree (verb : String) : Script :=
      ⟨[⟨[⟨[⟨.literal verb, none⟩], none⟩, ⟨[⟨.literal "x", none⟩], none⟩], none⟩], none⟩
    let ops : List OpCode :=
      [.openFrame, .pushConstant, .pushConstant, .closeFrame, .evaluateSentence, .pushResult]
    let program (verb : String) : Program :=
      ⟨ops.map fun op => ⟨op, none⟩, (words verb).toArray, none⟩
    let machine (verb : String) : Machine := ⟨[.tuple (words verb)], [], 4, 2, none, .nil⟩
    let bob : Outcome := .yielding (.string "bob")
    Host.Agree (fun state prepared => prepared = (state, none))
      (reexecute host.recording (program "ask") [some bob]
        (runOn host.recording (program "ask") (machine "ask") (.empty, [])))
      (runOn host.recording.answering (program "ask") (machine "ask")
        ((.empty, []), some (.ok (.string "answer:bob"), .empty, [⟨⟨"ask"⟩, words "ask"⟩]))) ∧
    Program.ofScript none (tree "yield") = .ok (program "yield") ∧
    ∃ stop, runOn host.recording (program "yield") (machine "yield") (.empty, []) =
        (stop, .empty, [⟨⟨"yield"⟩, words "yield"⟩]) ∧
      Host.Agree (fun state prepared => prepared = (state, none))
        (answers host.recording (program "yield") [none] ((withResult bob stop.machine).execute
          host.recording (program "yield") (.empty, [⟨⟨"yield"⟩, words "yield"⟩])))
        (answers host.recording.answering (program "yield") [none]
          (runOn host.recording.answering (program "yield") (machine "yield")
            ((.empty, []), some (.ok (.string "bob"), .empty, [⟨⟨"yield"⟩, words "yield"⟩])))) := by
  intro host words tree ops program machine bob
  have hask : Dispatches host (program "ask") (machine "ask") .empty ⟨"ask"⟩ (words "ask") :=
    ⟨⟨none, rfl⟩, rfl, rfl⟩
  have hdispatch : Dispatches host (program "yield") (machine "yield") .empty ⟨"yield"⟩ (words "yield") :=
    ⟨⟨none, rfl⟩, rfl, rfl⟩
  refine ⟨?_, rfl, ?_⟩
  · obtain ⟨stop, hstop, -, hresumes, -⟩ := runOn_of_suspended hask rfl rfl []
    rw [hstop]
    exact (hresumes _ _ _ _ rfl (.last rfl rfl rfl)).2.2
  · obtain ⟨stop, hstop, -, -, hanswers⟩ := runOn_of_suspended hdispatch rfl rfl []
    let initial : Dialect.Workspace := .empty
    have hstart : Reached host (program "yield") .start := .start
    have hat : ∀ (n : Nat) (op : OpCode), ops[n]? = some op →
        (program "yield").code[n]? = some (Instruction.mk op none) := by
      intro n op hop
      show (ops.map fun op => Instruction.mk op none)[n]? = _
      rw [List.getElem?_map, hop]
      rfl
    have hopen := hstart.step initial (hat 0 .openFrame rfl)
    have hverb := hopen.step initial (hat 1 .pushConstant rfl)
    have hword := hverb.step initial (hat 2 .pushConstant rfl)
    have hreached : Reached host (program "yield") (machine "yield") :=
      hword.step initial (hat 3 .closeFrame rfl)
    exact ⟨stop, hstop, hanswers none (tree "yield") bob [none] rfl hreached rfl rfl⟩

end Machine

end Parlance
