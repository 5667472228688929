import MatScript.Operation
import MatScript.Scopes

/-! Running scripts. A machine holds the names in scope, the elements of stored arrays and what has
been printed. A scope that is left by a jump or an error stays in memory. The limit to nesting that
a bounded stack sets is left out: scripts are run however deep they are nested. -/
namespace MatScript

structure Machine where
  memory : Scopes Value := .empty
  store : Store := #[]
  output : String := ""
  deriving Inhabited

namespace Run

/-- Why a statement did not end normally. A jump may carry a note. -/
inductive Stop where
  | breakLoop (note : String)
  | continueLoop (note : String)
  | giveBack (value : Value)
  | failed (e : RunError)
  /-- A loop took more rounds than it was allowed to. -/
  | outOfFuel

end Run

/-- A computation on a machine, which is kept however the computation ends. -/
abbrev Run := EStateM Run.Stop Machine

namespace Machine

/-- Bind a name. The elements of an array move to the store. -/
def bind (m : Machine) (id : String) (v : Value) : Machine :=
  match v, m with
  | .array t, ⟨memory, store, output⟩ =>
    let (t, store) := t.share store
    ⟨memory.set id (.array t), store, output⟩
  | _, ⟨memory, store, output⟩ => ⟨memory.set id v, store, output⟩

/-- A name that is not bound has no value. -/
def lookup (m : Machine) (id : String) : Value := (m.memory.get? id).getD .none

/-- Change stored elements. -/
def change (m : Machine) (p : Patch) : Machine :=
  match m with
  | ⟨memory, store, output⟩ => ⟨memory, p.apply store, output⟩

def push (m : Machine) (scope : String) : Machine := { m with memory := m.memory.push scope }

def pop (m : Machine) : Machine := { m with memory := m.memory.pop }

end Machine

namespace Run

def fail {α : Type} (e : RunError) : Run α := throw (.failed e)

/-- A computation that looks at the store and may fail. -/
def ofStore {α : Type} (f : Store → Except RunError α) : Run α := fun m =>
  match f m.store with
  | .ok a => .ok a m
  | .error e => .error (.failed e) m

def lookup (id : String) : Run Value := fun m => .ok (m.lookup id) m

def bind (id : String) (v : Value) : Run Unit := fun m => .ok () (m.bind id v)

def change (p : Patch) : Run Unit := fun m => .ok () (m.change p)

/-- The texts of values with blanks between them. -/
def displayAll (vs : List Value) : Run String :=
  ofStore fun store => do return " ".intercalate (← vs.mapM (·.display store))

/-- Print values on a line. -/
def print (vs : List Value) : Run Unit := fun m =>
  let (text, failure) := Value.line m.store vs
  let m := { m with output := m.output ++ text }
  match failure with
  | none => .ok () m
  | some e => .error (.failed e) m

/-- Run inside a scope of its own. Only a normal end removes a scope, the innermost one. -/
def within {α : Type} (scope : String) (body : Run α) : Run Unit := fun m =>
  match body (m.push scope) with
  | .ok _ m => .ok () m.pop
  | .error stop m => .error stop m

/-- Whether a loop goes on after a round. -/
inductive Round where
  | next
  | leave

/-- One round of a loop, inside a scope of its own. A jump that belongs to the loop ends the round,
and the innermost scope is removed. -/
def round {α : Type} (scope : String) (body : Run α) : Run Round := fun m =>
  match body (m.push scope) with
  | .ok _ m | .error (.continueLoop _) m => .ok .next m.pop
  | .error (.breakLoop _) m => .ok .leave m.pop
  | .error stop m => .error stop m

/-- Repeat rounds while a condition holds, at most `fuel` times. -/
def repeatWhile (condition : Run Bool) (body : Run Round) : Nat → Run Unit
  | 0 => throw .outOfFuel
  | fuel + 1 => fun m =>
    match condition m with
    | .error stop m => .error stop m
    | .ok false m => .ok () m
    | .ok true m =>
      match body m with
      | .error stop m => .error stop m
      | .ok .leave m => .ok () m
      | .ok .next m => repeatWhile condition body fuel m

/-- A round for each of the `count` positions from `i` on. -/
def repeatFrom (body : Nat → Run Round) : (count i : Nat) → Run Unit
  | 0, _ => return ()
  | count + 1, i => fun m =>
    match body i m with
    | .error stop m => .error stop m
    | .ok .leave m => .ok () m
    | .ok .next m => repeatFrom body count (i + 1) m

/-- Perform an operation: jump, print or compute. -/
def perform (op : Operation) (arguments : List Value) : Run Value :=
  match op with
  | .breakLoop => do throw (.breakLoop (← displayAll arguments))
  | .continueLoop => do throw (.continueLoop (← displayAll arguments))
  | .giveBack =>
    match arguments with
    | [v] => throw (.giveBack v)
    | [] => fail (.wrongArguments
        "ReturnInterruption.__init__() missing 1 required positional argument: 'value'")
    | args => fail (.wrongArguments
        s!"ReturnInterruption.__init__() takes 2 positional arguments but {args.length + 1} were given")
  | .print => do
    print arguments
    return .none
  | op => ofStore fun store => op.compute store arguments

/-- Perform the operation with a name. -/
def apply (name : String) (arguments : List Value) : Run Value :=
  match Operation.ofName? name with
  | some op => perform op arguments
  | none => fail (.unknownOperation name)

end Run

open Run

mutual

/-- The value of an expression. -/
def Expr.eval : Expr → Run Value
  | .constant _ value => return .ofConstant value
  | .vector _ items => do
    let vs ← Expr.evalAll items
    ofStore fun store => Value.vector store vs
  | .range _ start stop => do
    let a ← start.eval
    let b ← stop.eval
    ofStore fun _ => do return .range (← a.integer) (← b.integer)
  | .operator _ symbol operands => do apply symbol (← Expr.evalAll operands)
  | .call _ function arguments => do apply function (← Expr.evalAll arguments)
  | .name _ id => lookup id
  | .element _ id _ indices _ => do
    let array ← lookup id
    let vs ← Expr.evalAll indices
    ofStore fun store => do array.index store (← Value.vector store vs)
  | .gap _ what => fail (.gap what)

def Expr.evalAll : List Expr → Run (List Value)
  | [] => return []
  | e :: es => do
    let v ← e.eval
    return v :: (← Expr.evalAll es)

end

namespace Run

/-- The vector of the values of indices. -/
def evalIndices (indices : List Expr) : Run Value := do
  let vs ← Expr.evalAll indices
  ofStore fun store => Value.vector store vs

/-- Assign a value to a name or to a part of an array; other targets are passed over. -/
def assign (target value : Expr) : Run Unit :=
  match target with
  | .name _ id => do bind id (← value.eval)
  | .element _ id _ indices _ => do
    let array ← lookup id
    let selector ← evalIndices indices
    let v ← value.eval
    change (← ofStore fun store => array.patch store selector v)
  | _ => return ()

/-- Apply the operation with the first character of `symbol` as its name to the old value of a
target and a new one, and assign the result. -/
def update (symbol : String) (target value : Expr) : Run Unit := do
  let v ← value.eval
  let name := (symbol.take 1).toString
  match target with
  | .name _ id => do bind id (← apply name [← lookup id, v])
  | .element _ id _ indices _ => do
    let array ← lookup id
    let selector ← evalIndices indices
    match Operation.ofName? name with
    | none => fail (.unknownOperation name)
    | some op =>
      let old ← ofStore fun store => array.index store selector
      let new ← perform op [old, v]
      change (← ofStore fun store => array.patch store selector new)
  | _ => return ()

/-- Whether a condition holds. -/
def test (condition : Expr) : Run Bool := do
  let v ← condition.eval
  ofStore fun store => v.truth store

end Run

mutual

/-- Run a statement. Loops with a condition take at most `fuel` rounds each. -/
def Stmt.exec (fuel : Nat) : Stmt → Run Value
  | .block _ body => do
    within "program" (Stmt.execAll fuel body)
    return .none
  | .assign _ target value => do
    Run.assign target value
    return .none
  | .update _ symbol target value => do
    Run.update symbol target value
    return .none
  | .instruction _ name arguments => do apply name (← Expr.evalAll arguments)
  | .whileLoop _ condition body => do
    repeatWhile (test condition) (round "while" (body.exec fuel)) fuel
    return .none
  | .forLoop _ id _ range body => do
    let v ← range.eval
    let (count, item) ← ofStore fun _ => v.items
    repeatFrom (fun i => round "for" (do
      bind id (item (← get).store i)
      body.exec fuel)) count 0
    return .none
  | .ifThen _ condition yes => do
    if ← test condition then within "then" (yes.exec fuel)
    return .none
  | .ifElse _ condition yes no => do
    if ← test condition then within "then" (yes.exec fuel)
    else within "else" (no.exec fuel)
    return .none
  | .expr e => e.eval

def Stmt.execAll (fuel : Nat) : List Stmt → Run Unit
  | [] => return ()
  | s :: ss => fun m =>
    match s.exec fuel m with
    | .ok _ m => Stmt.execAll fuel ss m
    | .error stop m => .error stop m

end

/-- Run a script to its value, which is the one given back, if one is. -/
def Stmt.run (fuel : Nat) (s : Stmt) : Run Value := fun m =>
  match s.exec fuel m with
  | .error (.giveBack v) m => .ok v m
  | result => result

end MatScript
