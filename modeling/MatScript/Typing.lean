import MatScript.Diagnostic
import MatScript.Scopes
import MatScript.Ty

/-! Type checking. One body of rules serves two uses: to stop at the first fault, and to collect
all of them. A scope that is left by a fault stays on the table. The limit to nesting that a
bounded stack sets is left out: scripts are checked however deep they are nested. -/
namespace MatScript

namespace Typing

/-- A fault in the types of a script. -/
structure Fault where
  span : Span
  message : String
  deriving DecidableEq, Repr, Inhabited

def Fault.diagnostic (f : Fault) : Diagnostic := .typing f.span.first f.message

/-- Whether faults are collected, and which of several differing element types a vector goes on
with. -/
structure Policy where
  collect : Bool
  pick : List Ty → Nat := fun _ => 0

def Policy.raising : Policy := { collect := false }
def Policy.collecting : Policy := { collect := true }

/-- The types of the names in scope, and the faults collected so far. -/
structure State where
  table : Scopes Ty := .empty
  faults : Array Fault := #[]
  deriving Inhabited

/-- Why a check stopped. -/
inductive Stop where
  | fault (f : Fault)
  | gap (what : Gap)
  | unknownOperator (symbol : String)
  | missingOperand

abbrev Check := EStateM Stop State

/-- Report a fault: collect it, or stop. -/
def report (p : Policy) (span : Span) (message : String) : Check Unit := fun st =>
  if p.collect then .ok () { st with faults := st.faults.push ⟨span, message⟩ }
  else .error (.fault ⟨span, message⟩) st

/-- Report a fault in an expression, which then has no type. -/
def reject (p : Policy) (span : Span) (message : String) : Check Ty := do
  report p span message
  return .none

def getTable : Check (Scopes Ty) := fun st => .ok st.table st

def setType (id : String) (t : Ty) : Check Unit := fun st =>
  .ok () { st with table := st.table.set id t }

/-- Check inside a scope of its own. Only a normal end removes a scope, the innermost one. -/
def within (name : String) (body : Check Unit) : Check Unit := fun st =>
  match body { st with table := st.table.push name } with
  | .ok () st => .ok () { st with table := st.table.pop }
  | .error stop st => .error stop st

/-- The types of a list, each once, in the order of their first occurrence. -/
def distinct (ts : List Ty) : List Ty :=
  ts.foldl (fun seen t => if seen.contains t then seen else seen ++ [t]) []

/-- The type of a vector with items of these types. -/
def vectorType (p : Policy) (span : Span) (ts : List Ty) : Check Ty :=
  match distinct ts with
  | [] => return .emptyVector
  | t :: rest => do
    if rest ≠ [] then
      report p span s!"All elements in vector have to have the same type, {rest.length + 1} different types found"
    let item := (t :: rest).getD (p.pick (t :: rest)) t
    return ⟨item.base, some (ts.length : Int) :: item.shape⟩

/-- The dimension that two operands of a dotted operator give together: the first unless it is
unknown or zero. -/
def mergeDim : Option Int → Option Int → Option Int
  | none, d => d
  | some n, d => if n = 0 then d else some n

/-- Report every dimension, counted from `i`, in which two shapes are known to differ. -/
def matchDims (p : Policy) (span : Span) (symbol : String) :
    Nat → List (Option Int) → List (Option Int) → Check Unit
  | i, some a :: as, some b :: bs => do
    if a ≠ b then
      report p span s!"Operator {symbol} is not applicable for types with different sizes of dimensions (dimension {i}: {a} and {b})"
    matchDims p span symbol (i + 1) as bs
  | i, _ :: as, _ :: bs => matchDims p span symbol (i + 1) as bs
  | _, _, _ => return ()

/-- The type of a dotted operator's result. The base types follow the table of the operator
without the dot. -/
def dottedType (p : Policy) (span : Span) (symbol : String) (op : ScalarOperator) (a b : Ty) :
    Check Ty :=
  match op.result? [⟨a.base, []⟩, ⟨b.base, []⟩] with
  | none =>
    reject p span s!"Operator {symbol} is not applicable for types {a.display} and {b.display}"
  | some result => do
    if a.shape.length ≠ b.shape.length then
      reject p span s!"Operator {symbol} is not applicable for types with different number of dimensions ({a.shape.length} and {b.shape.length})"
    else
      matchDims p span symbol 1 a.shape b.shape
      return ⟨result.base, List.zipWith mergeDim a.shape b.shape⟩

/-- The operator that a dotted operator applies to each pair of elements. -/
def dotted? (symbol : String) : Option ScalarOperator :=
  if symbol = ".+" then some .add
  else if symbol = ".-" then some .subtract
  else if symbol = ".*" then some .multiply
  else if symbol = "./" then some .divide
  else none

/-- Only matrices can be transposed. -/
def transposedType (p : Policy) (span : Span) (t : Ty) : Check Ty :=
  if t.shape.length ≠ 2 then
    reject p span "Transposition can be performed only on 2d matrices"
  else return ⟨t.base, t.shape.reverse⟩

/-- The type of an operator's result. -/
def operatorType (p : Policy) (span : Span) (symbol : String) (ts : List Ty) : Check Ty :=
  match ScalarOperator.ofSymbol? symbol with
  | some op =>
    match op.result? ts with
    | some t => return t
    | none =>
      reject p span s!"Operator {symbol} not applicable for types {Ty.displayTuple ts}"
  | none =>
    if symbol = "==" ∨ symbol = "!=" then return .bool
    else if symbol = "'" then
      match ts with
      | t :: _ => transposedType p span t
      | [] => throw .missingOperand
    else match dotted? symbol with
      | some op =>
        match ts with
        | a :: b :: _ => dottedType p span symbol op a b
        | _ => throw .missingOperand
      | none => reject p span s!"Unexpected operator {symbol}"

/-- Report every argument, counted from `i`, that is not an integer. -/
def integerArguments (p : Policy) (span : Span) (function : String) : Nat → List Ty → Check Unit
  | _, [] => return ()
  | i, t :: ts => do
    if t ≠ .int then
      report p span s!"Function {function} expects integers as arguments, while argument number {i} is of type {t.display}"
    integerArguments p span function (i + 1) ts

/-- The type of a function's result: an array with one unknown dimension for each argument. -/
def callType (p : Policy) (span : Span) (function : String) (ts : List Ty) : Check Ty := do
  if function = "eye" ∧ ts.length ≠ 2 then
    report p span s!"Function eye expects exactly two arguments, while {ts.length} were found"
  integerArguments p span function 1 ts
  return ⟨some .float, List.replicate ts.length none⟩

/-- The type of a name, which has to be in scope. -/
def nameType (p : Policy) (span : Span) (id : String) : Check Ty := do
  match (← getTable).get? id with
  | some t => return t
  | none => reject p span s!"Variable {id} is not defined"

/-- The type of what `count` indices of the given type select from an array. -/
def elementType (p : Policy) (span : Span) (array index : Ty) (count : Nat) : Check Ty :=
  if index.base ≠ some .int ∨ index.shape.length ≠ 1 then
    reject p span "Selector has to be a list of integers"
  else if array.shape.length < count then
    reject p span "Selector has more arguments than variable has dimensions"
  else return ⟨array.base, array.shape.drop count⟩

/-- Report a type that differs from the one required. -/
def require (p : Policy) (span : Span) (t required : Ty) (message : String) : Check Unit :=
  if t = required then return () else report p span message

end Typing

open Typing

mutual

/-- The type of an expression. -/
def Expr.check (p : Policy) : Expr → Check Ty
  | .constant _ value => return .ofConstant value
  | .vector span items => do vectorType p span (← Expr.checkAll p items)
  | .range span start stop => do
    require p span (← start.check p) .int "First element in range has to be a integer"
    require p span (← stop.check p) .int "Second element in range has to be a integer"
    return .int
  | .operator span symbol operands => do
    operatorType p span symbol (← Expr.checkAll p operands)
  | .call span function arguments => do
    callType p span function (← Expr.checkAll p arguments)
  | .name span id => nameType p span id
  | .element span id idSpan indices indexSpan => do
    let array ← nameType p idSpan id
    let index ← vectorType p indexSpan (← Expr.checkAll p indices)
    elementType p span array index indices.length
  | .gap _ what => throw (.gap what)

def Expr.checkAll (p : Policy) : List Expr → Check (List Ty)
  | [] => return []
  | e :: es => do
    let t ← e.check p
    return t :: (← Expr.checkAll p es)

end

namespace Typing

/-- Assigning to a name gives it the type of the value; what is assigned to a part of an array has
to have the type of that part. -/
def checkAssign (p : Policy) (span : Span) (target value : Expr) : Check Unit :=
  match target with
  | .name _ id => do setType id (← value.check p)
  | .element .. => do
    let t ← target.check p
    let v ← value.check p
    require p span v t s!"Cannot assign value of type {v.display} to index of type {t.display}"
  | _ => return ()

/-- An operator-assignment applies the operator to the old value and assigns the result. -/
def checkUpdate (p : Policy) (span : Span) (symbol : String) (target value : Expr) :
    Check Unit := do
  let t ← target.check p
  let v ← value.check p
  let key := (symbol.dropEnd 1).toString
  match ScalarOperator.ofSymbol? key with
  | none => throw (.unknownOperator key)
  | some op =>
    match op.result? [t, v] with
    | none =>
      report p span s!"Operator {symbol} is not applicable for types {t.display} and {v.display}"
    | some result =>
      match target with
      | .name _ id => setType id result
      | .element .. =>
        require p span result t
          s!"Cannot assign value of type {result.display} to index of type {t.display}"
      | _ => return ()

/-- Instructions that leave a loop or start its next round stand inside one. -/
def checkInstruction (p : Policy) (span : Span) (name : String) (arguments : List Expr) :
    Check Unit := do
  if name = "break" ∨ name = "continue" then
    if ¬(← getTable).hasScope "loop" then
      report p span s!"Instruction {name} has to be inside a loop"
  discard (Expr.checkAll p arguments)

end Typing

mutual

/-- Check a statement. Only an expression in the place of a statement has a type. -/
def Stmt.check (p : Policy) : Stmt → Check Ty
  | .block _ body => do
    within "program" (Stmt.checkAll p body)
    return .none
  | .assign span target value => do
    checkAssign p span target value
    return .none
  | .update span symbol target value => do
    checkUpdate p span symbol target value
    return .none
  | .instruction span name arguments => do
    checkInstruction p span name arguments
    return .none
  | .whileLoop span condition body => do
    require p span (← condition.check p) .bool
      "Condition in while statement has to evaluate to boolean"
    within "loop" (discard (body.check p))
    return .none
  | .forLoop _ id _ range body => do
    setType id (← range.check p)
    within "loop" (discard (body.check p))
    return .none
  | .ifThen span condition yes => do
    require p span (← condition.check p) .bool
      "Condition in if statement has to evaluate to boolean"
    within "then" (discard (yes.check p))
    return .none
  | .ifElse span condition yes no => do
    require p span (← condition.check p) .bool
      "Condition in if statement has to evaluate to boolean"
    within "then" (discard (yes.check p))
    within "else" (discard (no.check p))
    return .none
  | .expr e => e.check p

def Stmt.checkAll (p : Policy) : List Stmt → Check Unit
  | [] => return ()
  | s :: ss => do
    discard (s.check p)
    Stmt.checkAll p ss

end

end MatScript
