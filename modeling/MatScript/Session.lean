import MatScript.Run
import MatScript.Script.Parse
import MatScript.Typing

/-! Sessions: a line count, a checker and a machine that live through several scripts. -/
namespace MatScript

/-- Why a script did not come to its end, by stage. -/
inductive Failure where
  | reading (e : Parse.Error)
  | typing (stop : Typing.Stop)
  | running (stop : Run.Stop)

/-- The diagnostic of a fault in a script; other failures have none. -/
def Failure.diagnostic? : Failure → Option Diagnostic
  | reading (.unexpected t) => some (.unexpected t)
  | reading .unexpectedEnd => some .unexpectedEnd
  | reading (.illegal c line) => some (.illegal c line)
  | typing (.fault f) => some f.diagnostic
  | _ => none

structure Session where
  /-- The line that the next text starts on. -/
  line : Nat := 1
  policy : Typing.Policy := .raising
  typing : Typing.State := {}
  machine : Machine := {}

namespace Session

/-- What is done with a script that was read. -/
structure Stages where
  check : Bool := true
  run : Bool := true

/-- Count lines from the start again. -/
def resetLine (s : Session) : Session := { s with line := 1 }

def resetMachine (s : Session) : Session := { s with machine := {} }

/-- A new checker. It goes on with the types that are known. -/
def resetChecker (s : Session) (policy : Typing.Policy) : Session :=
  { s with policy, typing := { s.typing with faults := #[] } }

/-- Check a script. -/
def check (s : Session) (script : Stmt) : Except Typing.Stop Ty × Session :=
  match script.check s.policy s.typing with
  | .ok t st => (.ok t, { s with typing := st })
  | .error stop st => (.error stop, { s with typing := st })

/-- Run a computation on the machine, whose earlier output is dropped. -/
def onMachine (s : Session) (r : Run Value) : Except Run.Stop Value × Session :=
  match r { s.machine with output := "" } with
  | .ok v m => (.ok v, { s with machine := m })
  | .error stop m => (.error stop, { s with machine := m })

/-- Check and run a script that was read, as asked. The value is that of the run, if there is
one. -/
def perform (s : Session) (fuel : Nat) (stages : Stages) (script : Stmt) :
    Except Failure (Option Value) × Session :=
  let (checked, s) := if stages.check then s.check script else (.ok .none, s)
  match checked with
  | .error stop => (.error (.typing stop), s)
  | .ok _ =>
    if stages.run then
      match s.onMachine (script.run fuel) with
      | (.ok v, s) => (.ok (some v), s)
      | (.error stop, s) => (.error (.running stop), s)
    else (.ok none, s)

/-- Read, check and run a text. -/
def run (s : Session) (fuel : Nat) (stages : Stages) (text : String) :
    Except Failure (Option Value) × Session :=
  let s := { s with machine := { s.machine with output := "" } }
  let parsed := Script.parse s.line text
  let s := { s with line := parsed.line }
  match parsed.script with
  | .error e => (.error (.reading e), s)
  | .ok script => s.perform fuel stages script

/-- Which statements a trace runs: those without faults, all, or none. -/
inductive TraceMode where
  | typed | all | never
  deriving DecidableEq, Repr, Inhabited

/-- What a trace records of a statement: the faults that it adds, how its run ended if it was run,
and the session after it. -/
structure Step where
  statement : Stmt
  faults : List Typing.Fault
  result : Option (Except Run.Stop Value)
  session : Session

/-- Check and run one statement by itself. -/
def step (s : Session) (fuel : Nat) (mode : TraceMode) (statement : Stmt) :
    Except Typing.Stop Step :=
  match s.check statement with
  | (.error stop, _) => .error stop
  | (.ok _, t) =>
    let faults := t.typing.faults.toList.drop s.typing.faults.size
    if mode = .all ∨ (mode = .typed ∧ faults = []) then
      let (result, t) := t.onMachine (statement.exec fuel)
      .ok ⟨statement, faults, some result, t⟩
    else .ok ⟨statement, faults, none, t⟩

/-- Take statements one by one, whatever comes of each. -/
def trace (s : Session) (fuel : Nat) (mode : TraceMode) : List Stmt → Except Typing.Stop (List Step)
  | [] => .ok []
  | statement :: rest => do
    let step ← s.step fuel mode statement
    return step :: (← step.session.trace fuel mode rest)

end Session

end MatScript
