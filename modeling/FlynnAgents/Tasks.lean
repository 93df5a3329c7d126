-- The tasks of the runtimes that share a run. A task runs until it awaits,
-- and then another may run. The application answers the awaits in any order,
-- the process may die at any moment, and the run may be opened again.
import FlynnAgents.PhaseFits

namespace FlynnAgents

open Relational Programs

/-- What a task runs. -/
inductive Job where
  | step (objective : String) (grants : Option (List String))
  | recover

def Job.prog (rt : Runtime) : Job → Flow Exn (Option StepResult)
  | .step objective grants => do
    let result ← rt.step objective grants
    return some result
  | .recover => Runtime.recover

/-- A task: its runtime, what is left of its program, whether it waits for an
answer, and whether its process is alive. -/
structure Task where
  runtime : Nat
  prog : Flow Exn (Option StepResult)
  waiting : Bool := false
  alive : Bool := true

/-- The run and the tasks on it, oldest first. `running` is the task that has
the event loop, and `locks` are the runtimes whose lock is held. -/
structure Process where
  store : SQLiteRun
  tasks : List Task := []
  running : Option Nat := none
  locks : List Nat := []

/-- One turn: a task begins, the running one makes its next request, an await
is answered, the process dies, the run is opened, the application ends it. -/
inductive Turn where
  | begin (runtime : Nat) (job : Job)
  | resume (clock : Clock) (reply : (a : Ask) → a.Answer)
  | answer (task : Nat) (reply : (a : Ask) → a.Answer)
  | die
  | openRun (clock : Clock)
  | finish (clock : Clock) (text : Dyn String)

/-- What an observer sees of a turn: a tool starts, or a task that waits for
its lock is cancelled. -/
inductive Note where
  | quiet
  | executes (task : Nat) (operationId : String) (tool : Tool)
  | refuses (task : Nat) (error : Exn)

def Ask.started (task : Nat) : Ask → Note
  | .execute operationId tool _ => .executes task operationId tool
  | _ => .quiet

def Ask.answered (task : Nat) : (a : Ask) → a.Answer → Note
  | .acquire, .error e => .refuses task e
  | _, _ => .quiet

/-- The lock of a runtime is given to one task at a time. -/
def Ask.given (locks : List Nat) (runtime : Nat) : (a : Ask) → a.Answer → Bool
  | .acquire, .ok _ => decide (runtime ∉ locks)
  | _, _ => true

def Ask.locks (locks : List Nat) (runtime : Nat) : (a : Ask) → a.Answer → List Nat
  | .acquire, .ok _ => runtime :: locks
  | .release, _ => locks.erase runtime
  | _, _ => locks

namespace Process

/-- The running task makes its next request, or gives up the event loop. -/
def resume (s : Process) (k : Nat) (task : Task) (clock : Clock) (reply : (a : Ask) → a.Answer) :
    Note × Process :=
  match task.prog with
  | .ret _ => (.quiet, { s with running := none })
  | .ask (.store call) next =>
    (.quiet, { s with
      store := (exec ⟨clock, call⟩ s.store).2
      tasks := s.tasks.set k { task with prog := next (call.answer clock s.store) } })
  | .ask (.ask a) next =>
    if a.awaits then
      (a.started k, { s with
        tasks := s.tasks.set k { task with waiting := true }
        running := none })
    else
      (.quiet, { s with
        tasks := s.tasks.set k { task with prog := next (reply a) }
        locks := a.locks s.locks task.runtime (reply a) })

/-- The await of a task is answered, and the task runs on. -/
def answer (s : Process) (k : Nat) (task : Task) (reply : (a : Ask) → a.Answer) :
    Note × Process :=
  match task.prog with
  | .ask (.ask a) next =>
    if a.given s.locks task.runtime (reply a) then
      (a.answered k (reply a), { s with
        tasks := s.tasks.set k { task with prog := next (reply a), waiting := false }
        running := some k
        locks := a.locks s.locks task.runtime (reply a) })
    else (.quiet, s)
  | _ => (.quiet, s)

/-- One turn. A turn that cannot happen changes nothing. -/
def step (runtimes : Nat → Runtime) (turn : Turn) (s : Process) : Note × Process :=
  match turn with
  | .begin runtime job =>
    if s.running = none ∧ s.store.handle.isSome = true then
      (.quiet, { s with
        tasks := s.tasks ++ [{ runtime, prog := job.prog (runtimes runtime) }]
        running := some s.tasks.length })
    else (.quiet, s)
  | .resume clock reply =>
    match s.running with
    | none => (.quiet, s)
    | some k =>
      match s.tasks[k]? with
      | none => (.quiet, s)
      | some task => s.resume k task clock reply
  | .answer k reply =>
    match s.tasks[k]? with
    | none => (.quiet, s)
    | some task =>
      if s.running = none ∧ task.alive = true ∧ task.waiting = true then s.answer k task reply
      else (.quiet, s)
  | .die =>
    (.quiet, {
      store := { s.store with closed := true }
      tasks := s.tasks.map fun task => { task with alive := false }
      running := none
      locks := [] })
  | .openRun clock => (.quiet, { s with store := (exec ⟨clock, .openRun⟩ s.store).2 })
  | .finish clock text =>
    if s.running = none then
      (.quiet, { s with store := (exec ⟨clock, .finish text⟩ s.store).2 })
    else (.quiet, s)

/-- The state after a list of turns. -/
abbrev after (runtimes : Nat → Runtime) (s : Process) (turns : List Turn) : Process :=
  Machines.after (step runtimes) s turns

/-- The notes of a list of turns. -/
abbrev log (runtimes : Nat → Runtime) (s : Process) (turns : List Turn) : List Note :=
  Machines.log (step runtimes) s turns

end Process

/-- The operation whose tool starts. -/
def Note.operation : Note → Option String
  | .executes _ operationId _ => some operationId
  | _ => none

/-- The operations whose tools were started. -/
def startedTools (notes : List Note) : List String := notes.filterMap Note.operation

/-! ## A sample -/

/-- A runtime with one tool and no guards. -/
def sampleRuntime : Runtime where
  tools := ⟨[{ name := "act" }], by simp, by simp⟩
  grants := ["act"]
  guards := []
  guardsDistinct := List.nodup_nil
  plansOutput := false
  preparesRequest := false
  notifies := false

/-- An application that answers without a raise. -/
def sampleReply : (a : Ask) → a.Answer
  | .acquire => .ok ()
  | .release => ()
  | .setRejected _ => ()
  | .prepareRequest request => .ok request
  | .planOutput _ _ => .ok .other
  | .newId => "op"
  | .appendEvent _ => ()
  | .notify _ => .ok ()
  | .generate _ _ => .ok (.typed ⟨.typed ⟨"act", "\x7b\x7d"⟩, .typed .scripted⟩)
  | .validate _ _ => .ok ()
  | .check _ _ _ _ => .ok .other
  | .execute _ _ _ => .ok (.typed "done")
  | .evaluate candidate => .ok (.typed {
      candidate
      evaluator := .typed "evaluator"
      scope := .typed "scope"
      verdict := .typed .failed
      reason := .typed "reason" })
  | .expired _ => false

/-- A run without a wall-time limit. -/
abbrev sampleStore : SQLiteRun := sampleRun (sampleLimits none none (by decide))

theorem create_sampleStore :
    SQLiteRun.create 0 ⟨0, 0⟩ (.typed "run") (.typed "draft") (sampleLimits none none (by decide))
      none = .ok sampleStore := create_sample _

/-- The first task makes its next request, and gets its answer. -/
def sampleRound : List Turn := [.resume ⟨0, 0⟩ sampleReply, .answer 0 sampleReply]

def sampleRounds (n : Nat) : List Turn := (List.replicate n sampleRound).flatten

/-- The first rounds of a step. -/
def sampleTurns (rounds : Nat) : List Turn :=
  .begin 0 (.step "goal" none) :: sampleRounds rounds

end FlynnAgents
