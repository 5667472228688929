import MatScript.Script

/-! Types of values: a base type and a shape. A scalar has the empty shape; a dimension may be
unknown. -/
namespace MatScript

inductive BaseType where
  | bool | text | int | float
  /-- The type of the constant that stands for no value. -/
  | nothing
  deriving DecidableEq, Repr, Inhabited

def BaseType.display : BaseType → String
  | bool => "bool"
  | text => "str"
  | int => "int"
  | float => "float"
  | nothing => "NoneType"

/-- A type without a base type is that of a fault or of an empty vector. -/
structure Ty where
  base : Option BaseType
  shape : List (Option Int) := []
  deriving DecidableEq, Repr, Inhabited

namespace Ty

def none : Ty := ⟨.none, []⟩
def bool : Ty := ⟨some .bool, []⟩
def text : Ty := ⟨some .text, []⟩
def int : Ty := ⟨some .int, []⟩
def float : Ty := ⟨some .float, []⟩
def emptyVector : Ty := ⟨.none, [some 0]⟩

def isScalar (t : Ty) : Bool := t.shape.length < 1
def isVector (t : Ty) : Bool := t.shape.length == 1
def isMatrix (t : Ty) : Bool := 1 < t.shape.length

def displayDim : Option Int → String
  | some d => toString d
  | .none => "*"

/-- The base type, and the dimensions in brackets unless it is a scalar. -/
def display (t : Ty) : String :=
  let base := match t.base with
    | some b => b.display
    | .none => "None"
  if t.isScalar then base
  else base ++ "[" ++ ",".intercalate (t.shape.map displayDim) ++ "]"

/-- A list of types in round brackets. A single one is followed by a comma. -/
def displayTuple : List Ty → String
  | [t] => "(" ++ t.display ++ ",)"
  | ts => "(" ++ ", ".intercalate (ts.map display) ++ ")"

def ofConstant : Constant → Ty
  | .none => ⟨some .nothing, []⟩
  | .bool _ => bool
  | .int _ => int
  | .float _ => float
  | .text _ => text

end Ty

/-- The operators that have a table of operand types. -/
inductive ScalarOperator where
  | negate | add | subtract | multiply | divide | order
  deriving DecidableEq, Repr, Inhabited

namespace ScalarOperator

/-- The operator that a symbol stands for. -/
def ofSymbol? (symbol : String) : Option ScalarOperator :=
  if symbol = "u-" then some negate
  else if symbol = "+" then some add
  else if symbol = "-" then some subtract
  else if symbol = "*" then some multiply
  else if symbol = "/" then some divide
  else if symbol = ">" ∨ symbol = "<" ∨ symbol = ">=" ∨ symbol = "<=" then some order
  else none

/-- The type of sums, differences and products of numbers. -/
def joined : BaseType → BaseType → BaseType
  | .float, _ => .float
  | _, .float => .float
  | _, _ => .int

/-- The result of an operator on two base types, if it can be applied to them. -/
def binary? (op : ScalarOperator) (a b : BaseType) : Option BaseType :=
  if a = .nothing ∨ b = .nothing then none
  else if a = .text ∨ b = .text then if op = add then some .text else none
  else match op with
    | negate => none
    | add | subtract | multiply => some (joined a b)
    | divide => some .float
    | order => some .bool

/-- The result of an operator on one base type. -/
def unary? (op : ScalarOperator) (a : BaseType) : Option BaseType :=
  match op, a with
  | negate, .bool | negate, .int => some .int
  | negate, .float => some .float
  | _, _ => none

/-- The type of an operator's result, if it can be applied to operands of these types. -/
def result? (op : ScalarOperator) : List Ty → Option Ty
  | [⟨some a, []⟩] => (op.unary? a).map (⟨some ·, []⟩)
  | [⟨some a, []⟩, ⟨some b, []⟩] => (op.binary? a b).map (⟨some ·, []⟩)
  | _ => none

end ScalarOperator

end MatScript
