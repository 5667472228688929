import MatScript.Script.Outline
import MatScript.Session
import MatScript.Table
import MatScript.Text.Codes

/-! The commands: each takes a script through some of the stages and shows what comes of it. -/
namespace MatScript

inductive Command where
  /-- Show the tokens as a table. -/
  | table
  | parse
  /-- Show the outline. -/
  | outline
  | check
  | run
  deriving DecidableEq, Repr, Inhabited

/-- What a command writes and how it ends. A failure that is no fault of the script is kept. -/
structure Report where
  exit : Nat := 0
  out : String := ""
  err : String := ""
  failure : Option Failure := none

/-- A line of a command's own output, which is never coloured. -/
def Report.line (s : String) : String := Text.dropCodes s ++ "\n"

/-- A fault of the script is a message; any other failure breaks the command off. -/
def Report.ofFailure (out : String) (f : Failure) : Report :=
  match f.diagnostic? with
  | some d => { out, err := line d.text }
  | none => { exit := 1, out, failure := some f }

namespace Command

def tokenCell : Lexeme → Cell
  | .int n => .int n
  | .float x => .float x
  | l => .text (Text.dropCodes l.valueText)

def tokenRow (t : Token) : List Cell :=
  [.int t.line, .int t.column, .text t.lexeme.typeName, tokenCell t.lexeme]

/-- Show the tokens of a text. -/
def showTokens (text : String) : Report :=
  let scan := Token.scan 1 text
  match scan.ending with
  | .illegal c => .ofFailure "" (.reading (.illegal c scan.line))
  | .tooLong digits => .ofFailure "" (.reading (.tooLong digits))
  | .finished =>
    match Table.render ["row", "col", "type", "value"] (scan.tokens.map tokenRow) with
    | .ok t => { out := Report.line t }
    | .error e => .ofFailure "" (.running (.failed e))

/-- Show the outline of a script. -/
def showOutline (script : Stmt) : Report :=
  match (script.outline .plain).render with
  | .ok t => { out := Report.line t }
  | .error what => .ofFailure "" (.running (.failed (.gap what)))

/-- Show how the run of a script ended. A value other than none is shown after the output. -/
def showRun (result : Except Failure (Option Value)) (m : Machine) : Report :=
  match result with
  | .error f => .ofFailure m.output f
  | .ok none | .ok (some .none) => { out := m.output }
  | .ok (some v) =>
    match v.display m.store with
    | .ok t => { out := m.output ++ Report.line ("Execution returned: " ++ t) }
    | .error e => .ofFailure m.output (.running (.failed e))

/-- Carry out a command on a text, with the types that earlier commands have left. A check goes on
with the picked one of several differing types of items. -/
def perform (pick : List Ty → Nat) (table : Scopes Ty) (fuel : Nat) (c : Command) (text : String) :
    Report × Scopes Ty :=
  let text := String.ofList (Text.unifyNewlines text.toList)
  let session (policy : Typing.Policy) : Session := { policy, typing := { table } }
  match c with
  | .table => (showTokens text, table)
  | .parse =>
    match (Script.parse 1 text).script with
    | .ok _ => ({}, table)
    | .error e => (.ofFailure "" (.reading e), table)
  | .outline =>
    match (Script.parse 1 text).script with
    | .ok script => (showOutline script, table)
    | .error e => (.ofFailure "" (.reading e), table)
  | .check =>
    let (result, s) := (session { collect := true, pick }).run fuel ⟨true, false⟩ text
    match result with
    | .ok _ =>
      let messages := s.typing.faults.toList.map fun f => Report.line f.diagnostic.text
      ({ err := String.join messages }, s.typing.table)
    | .error f => (.ofFailure "" f, s.typing.table)
  | .run =>
    let (result, s) := (session .raising).run fuel ⟨true, true⟩ text
    (showRun result s.machine, s.typing.table)

/-- Carry out a command on a text. -/
def report (pick : List Ty → Nat) (fuel : Nat) (c : Command) (text : String) : Report :=
  (c.perform pick .empty fuel text).1

end Command

end MatScript
