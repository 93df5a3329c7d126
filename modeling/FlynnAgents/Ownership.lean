-- Who may write to the file of a run. Any number of processes create and open
-- it, fork, close and die, in any order. The constructor locks the open file
-- description, a fork copies the objects, and a transaction asks for the
-- process id that the object was made under.
import FlynnAgents.StoreSteps
import FlynnAgents.Lib.Flock

namespace FlynnAgents

open Flocks

/-! ## The host -/

/-- What `create` was given, past its checks. -/
structure Creation where
  runId : String
  initialState : String
  initialObservation : Option String
  limits : RunLimits
  named : blank runId = false

/-- How far a call of `create` or `open` has come: the file is open, it is
locked, `__init__` is over, the schema is committed. -/
inductive Construction where
  | opened
  | locked
  | connected
  | created
  deriving DecidableEq, Repr

/-- A call of `create`, or of `open`, that has not ended. -/
structure Build where
  pid : Nat
  description : Nat
  creation : Option Creation
  stage : Construction

/-- The point that `_bind_clock` is called at. -/
def Build.due (b : Build) : Construction := if b.creation.isSome then .created else .connected

/-- A `SQLiteRun` in the memory of the process `pid`. -/
structure RunObject where
  pid : Nat
  description : Nat
  ownerPid : Nat
  closed : Bool
  handle : Handle

/-- The path of a run and the processes: the file, and what is committed in it,
whether a journal lies beside it that has to be rolled back, the descriptors of
it, and what the live processes have in memory. -/
structure Host where
  file : Option (Option Tables) := none
  journal : Bool := false
  locks : Descriptors Nat := {}
  builds : List Build := []
  objects : List RunObject := []
  alive : List Nat := []

/-- One thing that happens. A process is named by its id, and what it has by
the description. It may end inside a COMMIT. -/
inductive Deed where
  | spawn (pid : Nat)
  | openFile (pid : Nat) (creation : Option Creation)
  | flock (pid description : Nat)
  | connect (pid description : Nat) (fails : Bool)
  | commitSchema (pid description : Nat) (now : Option ℚ)
  | bind (pid description : Nat) (clock : Clock)
  | call (pid description : Nat) (timed : Timed)
  | close (pid description : Nat)
  | fork (pid child : Nat)
  | exit (pid : Nat) (committing : Bool)

/-- What the processes are told: a constructor raised or returned, a call was
answered by the file, or by the object alone. -/
inductive Report where
  | nothing
  | refused (pid : Nat) (error : Exn)
  | ready (pid description : Nat)
  | answered (pid description : Nat) (entry : Entry)
  | aside (pid description : Nat) (entry : Entry)

def Report.entry : Report → Option Entry
  | .answered _ _ e => some e
  | _ => none

def ownedError : Exn :=
  contractError "Run has a live owner; inspect read-only or wait for release"

def inheritedError : Exn :=
  contractError "Inherited SQLite owner cannot write; open a new run after fork"

/-- The calls of a live object that are no `close`. -/
def Call.ofObject : Call → Bool
  | .close | .openRun => false
  | _ => true

/-- What the call answers without the database: it raises `closedError` where it
would come to it. -/
def RunObject.offline (o : RunObject) (i : Timed) (db : Tables) : Except Exn i.call.Result :=
  i.call.answer i.clock ⟨db, o.handle, true⟩

/-- The call comes to the database. -/
def RunObject.asks (o : RunObject) (i : Timed) (db : Tables) : Bool :=
  match o.offline i db with
  | .error e => decide (e = closedError)
  | .ok _ => false

/-- A call that does not reach the file: the object is closed, or another
process made it. The checks that come before a transaction raise first. -/
def RunObject.alone (o : RunObject) (i : Timed) (db : Tables) : Entry :=
  ⟨i.clock, i.call, (o.offline i db).mapError fun e =>
    if e = closedError ∧ i.call.mutates = true ∧ o.ownerPid ≠ o.pid then inheritedError else e⟩

namespace Host

def build? (w : Host) (pid d : Nat) : Option Build :=
  w.builds.find? fun b => decide (b.pid = pid ∧ b.description = d)

def object? (w : Host) (pid d : Nat) : Option RunObject :=
  w.objects.find? fun o => decide (o.pid = pid ∧ o.description = d)

/-- The constructor goes on. -/
def advance (w : Host) (pid d : Nat) (stage : Construction) : Host :=
  { w with builds := w.builds.map fun b =>
      if b.pid = pid ∧ b.description = d then { b with stage } else b }

/-- The constructor raises, and closes its descriptor. -/
def abandon (w : Host) (pid d : Nat) : Host :=
  { w with
    builds := w.builds.filter fun b => decide (¬ (b.pid = pid ∧ b.description = d))
    locks := w.locks.closed pid d }

/-- `os.open`: `create` makes the file, and `open` needs it. -/
def openFile (w : Host) (pid : Nat) (creation : Option Creation) : Report × Host :=
  if pid ∉ w.alive then (.nothing, w)
  else if creation.isSome = true ∧ w.file.isSome = true then
    (.refused pid (otherError "FileExistsError" "File exists"), w)
  else if creation.isSome = false ∧ w.file.isSome = false then
    (.refused pid (otherError "FileNotFoundError" "No such file or directory"), w)
  else
    (.nothing, { w with
      file := some w.file.join
      locks := w.locks.opened pid
      builds := ⟨pid, w.locks.next, creation, .opened⟩ :: w.builds })

/-- `fcntl.flock` -/
def flock (w : Host) (b : Build) : Report × Host :=
  if b.stage ≠ .opened then (.nothing, w)
  else if w.locks.grants b.description then
    (.nothing, { w.advance b.pid b.description .locked with
      locks := w.locks.locked b.description })
  else (.refused b.pid ownedError, w.abandon b.pid b.description)

/-- `sqlite3.connect` and the rest of `__init__`, whose pragmas read the file: SQLite
rolls back a journal that it finds then. -/
def connect (w : Host) (b : Build) (fails : Bool) : Report × Host :=
  if b.stage ≠ .locked then (.nothing, w)
  else if fails then
    (.refused b.pid (otherError "OperationalError" "unable to open database file"),
      w.abandon b.pid b.description)
  else (.nothing, { w.advance b.pid b.description .connected with journal := false })

/-- The transaction of `create`. -/
def commitSchema (w : Host) (b : Build) (now : Option ℚ) : Report × Host :=
  match b.creation with
  | none => (.nothing, w)
  | some c =>
    if b.stage ≠ .connected then (.nothing, w)
    else match now with
      | none => (.refused b.pid (otherError "OperationalError" "disk I/O error"),
          w.abandon b.pid b.description)
      | some now => (.nothing, { w.advance b.pid b.description .created with
          file := some (some (Tables.fresh
            (createdRow now c.runId c.initialState c.limits c.initialObservation))) })

/-- The schema check of `open`. A file without a committed schema has version 0. -/
def unsupported (t : Option Tables) : Option Exn :=
  let app := (t.map Tables.applicationId).getD 0
  let version := (t.map Tables.userVersion).getD 0
  if app ≠ APPLICATION_ID ∨ version ≠ SCHEMA_VERSION then
    some (contractError ("Unsupported Flynn database application/schema " ++ toString app ++ "/" ++
      toString version ++ "; archive old evidence and create a new schema-5 run"))
  else none

/-- The end of `create` and of `open`: the clock that is bound. -/
def bound (w : Host) (b : Build) (clock : Clock) : Except Exn Handle :=
  match w.file.join with
  | none => .error ((unsupported none).getD closedError)
  | some t =>
    match if b.creation.isSome then none else unsupported (some t) with
    | some e => .error e
    | none => bindClock t clock

/-- `_bind_clock`, after the checks of `open` -/
def bind (w : Host) (b : Build) (clock : Clock) : Report × Host :=
  if b.stage ≠ b.due then (.nothing, w)
  else match w.bound b clock with
    | .error e => (.refused b.pid e, w.abandon b.pid b.description)
    | .ok handle => (.ready b.pid b.description, { w with
        builds := w.builds.filter fun q =>
          decide (¬ (q.pid = b.pid ∧ q.description = b.description))
        objects := w.objects ++ [⟨b.pid, b.description, b.pid, false, handle⟩] })

/-- A method of an object. A transaction begins in the owner process only. -/
def call (w : Host) (o : RunObject) (i : Timed) : Report × Host :=
  match w.file.join with
  | none => (.nothing, w)
  | some db =>
    if i.call.ofObject = false then (.nothing, w)
    else if o.closed = false ∧ (i.call.mutates = true → o.ownerPid = o.pid) then
      (.answered o.pid o.description (exec i ⟨db, o.handle, false⟩).1,
        { w with
          file := some (some (exec i ⟨db, o.handle, false⟩).2.db)
          journal := w.journal && !o.asks i db })
    else (.aside o.pid o.description (o.alone i db), w)

/-- `close` -/
def close (w : Host) (o : RunObject) : Host :=
  if o.closed then w
  else { w with
    locks := w.locks.closed o.pid o.description
    objects := w.objects.map fun q =>
      if q.pid = o.pid ∧ q.description = o.description then { q with closed := true } else q }

/-- `os.fork` -/
def fork (w : Host) (pid child : Nat) : Host :=
  if pid ∈ w.alive ∧ child ∉ w.alive then
    { w with
      locks := w.locks.forked pid child
      objects := w.objects ++
        (w.objects.filter fun o => decide (o.pid = pid)).map fun o => { o with pid := child }
      alive := child :: w.alive }
  else w

/-- The process has a connection that it may write by: it made an object that is
open, or it is about to commit the schema. -/
def writing (w : Host) (pid : Nat) : Bool :=
  w.objects.any (fun o => decide (o.pid = pid ∧ o.ownerPid = pid ∧ o.closed = false)) ||
    w.builds.any fun b => decide (b.pid = pid ∧ b.creation.isSome = true ∧ b.stage = .connected)

/-- The process ends, or is killed. Inside a COMMIT it leaves the journal of its
transaction. -/
def exit (w : Host) (pid : Nat) (committing : Bool) : Host :=
  { w with
    journal := w.journal || (committing && w.writing pid)
    locks := w.locks.exited pid
    builds := w.builds.filter fun b => decide (b.pid ≠ pid)
    objects := w.objects.filter fun o => decide (o.pid ≠ pid)
    alive := w.alive.filter fun p => decide (p ≠ pid) }

/-- One deed. What a process does not have it cannot use. -/
def step (deed : Deed) (w : Host) : Report × Host :=
  match deed with
  | .spawn pid => (.nothing, if pid ∈ w.alive then w else { w with alive := pid :: w.alive })
  | .openFile pid creation => w.openFile pid creation
  | .flock pid d => ((w.build? pid d).map w.flock).getD (.nothing, w)
  | .connect pid d fails => ((w.build? pid d).map fun b => w.connect b fails).getD (.nothing, w)
  | .commitSchema pid d now =>
    ((w.build? pid d).map fun b => w.commitSchema b now).getD (.nothing, w)
  | .bind pid d clock => ((w.build? pid d).map fun b => w.bind b clock).getD (.nothing, w)
  | .call pid d timed => ((w.object? pid d).map fun o => w.call o timed).getD (.nothing, w)
  | .close pid d => (.nothing, ((w.object? pid d).map w.close).getD w)
  | .fork pid child => (.nothing, w.fork pid child)
  | .exit pid committing => (.nothing, w.exit pid committing)

/-- The host after a list of deeds. -/
abbrev after (w : Host) (deeds : List Deed) : Host := Machines.after step w deeds

abbrev log (w : Host) (deeds : List Deed) : List Report := Machines.log step w deeds

end Host

end FlynnAgents
