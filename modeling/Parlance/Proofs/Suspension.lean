import Parlance.Proofs.Calls

/-!
# Commands that yield and resume

A command that yields stops the program; running the machine again resumes the command, for as long
as it yields again, with an answer of the embedder in place of its result each time.  Once it is ok,
the program goes on as if the command had answered so at once.

What the command had answered at once is said by a host with a prepared answer.

    Resumed resume replies result env answer after →
      reexecute host p replies (⟨m, none⟩, env) = runOn host p (m.withResult answer) after
                                                                                (reexecute_resumed)
-/

namespace Parlance

variable {σ : Type}

/-! ## Prepared answers -/

namespace Host

/-- The host, where an answer can be prepared for the next command that is run: what the command
comes to, and the state that it leaves. -/
def answering (host : Host σ) : Host (σ × Option (Outcome × σ)) where
  lookup state := host.lookup state.1
  findCommand state := host.findCommand state.1
  makeSelector rules state :=
    let (selector, env) := host.makeSelector rules state.1
    (selector, env, state.2)
  applyCustom := host.applyCustom
  execute command args state :=
    match state.2 with
    | some (outcome, env) => (.ok outcome, env, none)
    | none =>
      let (outcome, env) := host.execute command args state.1
      (outcome, env, none)
  resume command := (host.resume command).map beside

/-- The host acts as it does when no answer is prepared. -/
theorem alike_answering (host : Host σ) :
    Alike (fun env state => state = (env, none)) host host.answering where
  lookup h := by subst h; rfl
  findCommand h := by subst h; rfl
  makeSelector rules h := by subst h; exact ⟨rfl, rfl⟩
  applyCustom := rfl
  execute command args h := by subst h; exact ⟨rfl, rfl⟩
  resume command := by
    cases hr : host.resume command with
    | none => exact .inl ⟨rfl, by simp [answering, hr]⟩
    | some resume =>
      refine .inr ⟨resume, beside resume, rfl, by simp only [answering, hr, Option.map_some], ?_⟩
      rintro env state result rfl
      exact ⟨rfl, rfl⟩

end Host

namespace Machine

/-! ## Running a machine again -/

/-- The machine after the embedder replaced its result, if it did. -/
def reply (machine : Machine) : Option Outcome → Machine
  | none => machine
  | some result => machine.withResult result

/-- Runs a stopped machine again, once after each reply. -/
def reexecute (host : Host σ) (program : Program) : List (Option Outcome) → Stop × σ → Stop × σ
  | [], run => run
  | reply :: rest, (stop, env) =>
    reexecute host program rest ((stop.machine.reply reply).execute host program env)

/-- The answers of a stopped machine, the first one and one more after each reply. -/
def answers (host : Host σ) (program : Program) :
    List (Option Outcome) → Stop × σ → List Outcome × σ
  | [], (stop, env) => ([stop.outcome], env)
  | reply :: rest, (stop, env) =>
    let (others, env) :=
      answers host program rest ((stop.machine.reply reply).execute host program env)
    (stop.outcome :: others, env)

/-! ## Sentences that run a command -/

/-- Where the machine stands, a sentence runs a command on some arguments. -/
structure Dispatches (host : Host σ) (program : Program) (machine : Machine) (env : σ)
    (command : Command) (args : List Value) : Prop where
  sentence : ∃ position, program.code[machine.pc]? = some ⟨.evaluateSentence, position⟩
  words : machine.pop.1.asValues = .ok args
  /-- The first argument names the command. -/
  name : args.head?.map (host.resolveCommand env) = some (.ok command)

/-- The machine after a sentence ran a command, with what the command came to. -/
def dispatched (machine : Machine) (command : Command) (result : Outcome) : Machine :=
  { machine.pop.2 with pc := machine.pc + 1, command := some command, result := result }

section Dispatch

variable {host : Host σ} {program : Program} {machine : Machine} {env after : σ} {command : Command}
  {args : List Value} {result : Outcome}

theorem pop_pc (machine : Machine) (pc : Nat) :
    ({ machine with pc := pc } : Machine).pop = (machine.pop.1, { machine.pop.2 with pc := pc }) := by
  obtain ⟨_ | ⟨value, frame⟩, outer, _, cc, command, result⟩ := machine <;> rfl

/-- Running on from a sentence runs its command first. -/
theorem Dispatches.runOn_eq (h : Dispatches host program machine env command args)
    (hexecute : host.execute command args env = (.ok result, after)) :
    ∃ position, runOn host program machine env =
      match accept program position args command result
        { machine.pop.2 with pc := machine.pc + 1 } with
      | .error stop => (stop, after)
      | .ok next => run host program (program.code.drop (machine.pc + 1)) next after := by
  obtain ⟨⟨position, hcode⟩, hwords, hname⟩ := h
  obtain ⟨hlt, hat⟩ := List.getElem?_eq_some_iff.1 hcode
  refine ⟨position, ?_⟩
  cases args with
  | nil => cases hname
  | cons name args =>
    have hname : host.resolveCommand env name = .ok command := by simpa using hname
    rw [runOn, List.drop_eq_getElem_cons hlt, hat, run]
    simp only [step, pop_pc, evaluate, hwords, hname, hexecute]
    cases accept program position (name :: args) command result
      { machine.pop.2 with pc := machine.pc + 1 } <;> rfl

/-- A command that yields stops the program behind its sentence. -/
theorem Dispatches.runOn_of_yielding (h : Dispatches host program machine env command args)
    (hexecute : host.execute command args env = (.ok result, after))
    (hyield : result.code = .yielding) :
    runOn host program machine env = (⟨machine.dispatched command result, none⟩, after) := by
  obtain ⟨position, hrun⟩ := h.runOn_eq hexecute
  simpa [accept, Outcome.isOk, Outcome.isError, hyield, stopWith, dispatched] using hrun

/-- A command that is ok lets the program go on behind its sentence. -/
theorem Dispatches.runOn_of_ok (h : Dispatches host program machine env command args)
    (hexecute : host.execute command args env = (.ok result, after)) (hok : result.isOk) :
    runOn host program machine env =
      runOn host program (machine.dispatched command result) after := by
  obtain ⟨position, hrun⟩ := h.runOn_eq hexecute
  simpa [accept, hok, dispatched, runOn] using hrun

end Dispatch

/-! ## Resuming -/

/-- A command that yielded `result` resumes once after each reply, yields again and again, and comes
to `answer` at last. -/
inductive Resumed (resume : Outcome → σ → Except Crash Outcome × σ) :
    List (Option Outcome) → Outcome → σ → Outcome → σ → Prop
  | last {reply : Option Outcome} {result answer : Outcome} {env after : σ}
    (hreply : (reply.getD result).code = .yielding)
    (hresume : resume (reply.getD result) env = (.ok answer, after)) (hok : answer.isOk) :
    Resumed resume [reply] result env answer after
  | again {reply : Option Outcome} {replies : List (Option Outcome)} {result next answer : Outcome}
    {env between after : σ} (hreply : (reply.getD result).code = .yielding)
    (hresume : resume (reply.getD result) env = (.ok next, between)) (hyield : next.code = .yielding)
    (hrest : Resumed resume replies next between answer after) :
    Resumed resume (reply :: replies) result env answer after

section Resume

variable {resume : Outcome → σ → Except Crash Outcome × σ} {replies : List (Option Outcome)}
  {result answer : Outcome} {env after : σ}

theorem Resumed.answer_ok (h : Resumed resume replies result env answer after) : answer.isOk := by
  induction h with
  | last _ _ hok => exact hok
  | again _ _ _ _ ih => exact ih

/-- Writing down calls does not change how a command resumes. -/
theorem Resumed.recording (h : Resumed resume replies result env answer after) (calls : List Call) :
    Resumed (Host.beside resume) replies result (env, calls) answer (after, calls) := by
  induction h with
  | last hreply hresume hok => exact .last hreply (by simp only [Host.beside, hresume]) hok
  | again hreply hresume hyield _ ih =>
    exact .again hreply (by simp only [Host.beside, hresume]) hyield ih

theorem result_reply (machine : Machine) (reply : Option Outcome) :
    (machine.reply reply).result = reply.getD machine.result := by
  cases reply <;> rfl

theorem command_reply (machine : Machine) (reply : Option Outcome) :
    (machine.reply reply).command = machine.command := by
  cases reply <;> rfl

theorem withResult_reply (machine : Machine) (reply : Option Outcome) (result : Outcome) :
    (machine.reply reply).withResult result = machine.withResult result := by
  cases reply <;> rfl

/-- One more run of a machine whose command resumes, after a reply. -/
theorem execute_reply {host : Host σ} (program : Program) {machine : Machine} {command : Command}
    {reply : Option Outcome} (hcommand : machine.command = some command)
    (hresume : host.resume command = some resume)
    (hyield : (reply.getD machine.result).code = .yielding)
    (houtcome : resume (reply.getD machine.result) env = (.ok answer, after)) :
    (machine.reply reply).execute host program env =
      if answer.isOk then runOn host program (machine.withResult answer) after
      else (⟨machine.withResult answer, none⟩, after) := by
  rw [← withResult_reply machine reply answer]
  simp only [execute, result_reply, command_reply, hyield, hcommand, Option.bind_some, hresume,
    houtcome, if_true, withResult]

/-- A machine whose command resumes until it is ok goes on from the answer. -/
theorem reexecute_resumed {host : Host σ} (program : Program) {command : Command}
    (hresume : host.resume command = some resume)
    (h : Resumed resume replies result env answer after) (machine : Machine)
    (hcommand : machine.command = some command) (hresult : machine.result = result) :
    reexecute host program replies (⟨machine, none⟩, env) =
      runOn host program (machine.withResult answer) after := by
  induction h generalizing machine with
  | last hreply houtcome hok =>
    subst hresult
    rw [reexecute, execute_reply program hcommand hresume hreply houtcome, if_pos hok, reexecute]
  | @again _ _ _ next _ _ _ _ hreply houtcome hyield _ ih =>
    subst hresult
    have hstop : ¬ next.isOk := by simp [Outcome.isOk, hyield]
    rw [reexecute, execute_reply program hcommand hresume hreply houtcome, if_neg hstop]
    exact ih (machine.withResult next) hcommand rfl

end Resume

end Machine

end Parlance
