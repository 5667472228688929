import MatScript.Number.Read
import MatScript.Tensor.Text

/-! The values that scripts compute with. Plain numbers are unbounded integers and floats; an
element taken from an array, or computed element-wise, keeps the kind it has there. -/
namespace MatScript

inductive Value where
  /-- The value of a name that is not bound, and of a statement. -/
  | none
  | bool (b : Bool)
  | int (n : Int)
  | float (x : Float)
  | text (s : String)
  /-- The integers from `start` up to `stop`, without it. -/
  | range (start stop : Int)
  | elem (e : Elem)
  | array (t : Tensor)
  deriving Inhabited

/-- A plain number. -/
inductive Plain where
  | int (n : Int)
  | float (x : Float)

namespace Value

def ofConstant : Constant → Value
  | .none => none
  | .bool b => bool b
  | .int n => int n
  | .float x => float x
  | .text s => text s

/-- The name of a value's type in messages. -/
def typeName : Value → String
  | none => "NoneType"
  | bool _ => "bool"
  | int _ => "int"
  | float _ => "float"
  | text _ => "str"
  | range _ _ => "range"
  | elem (.bool _) => "numpy.bool"
  | elem (.int _) => "numpy.int64"
  | elem (.float _) => "numpy.float64"
  | elem (.text _) => "numpy.str_"
  | array _ => "numpy.ndarray"

/-- A truth value counts as a number. -/
def plain? : Value → Option Plain
  | bool b => some (.int (if b then 1 else 0))
  | int n => some (.int n)
  | float x => some (.float x)
  | _ => Option.none

/-- A text, plain or from an array. -/
def text? : Value → Option String
  | text s => some s
  | elem (.text s) => some s
  | _ => Option.none

/-- Values that operators work on element by element. -/
def isElementwise : Value → Bool
  | elem _ | array _ => true
  | _ => false

/-- How many integers a range has. -/
def rangeLength (start stop : Int) : Nat := (stop - start).toNat

/-- The least number with too many digits to be written. -/
def digitLimit : Nat := Nat.pow 10 Token.maxDigits

def intText (n : Int) : Except RunError String :=
  if digitLimit ≤ n.natAbs then .error .tooManyDigitsToWrite else .ok (toString n)

/-- The text of a value as it is printed. -/
def display (store : Store) : Value → Except RunError String
  | none => .ok "None"
  | bool b => .ok (truthText b)
  | int n => intText n
  | float x => .ok (Number.floatText x)
  | text s => .ok s
  | range start stop => do return "range(" ++ (← intText start) ++ ", " ++ (← intText stop) ++ ")"
  | elem e => .ok e.display
  | array t => .ok (t.text store)

/-- The line of values with blanks between them. It breaks off before the first value that cannot be
written, and says why. -/
def line (store : Store) : List Value → String × Option RunError
  | [] => ("\n", Option.none)
  | v :: vs =>
    match v.display store with
    | .error e => ("", some e)
    | .ok t =>
      let (rest, failure) := line store vs
      (t ++ (if vs.isEmpty then rest else " " ++ rest), failure)

/-- Whether a value counts as true. An array has to have at most one element. -/
def truth (store : Store) : Value → Except RunError Bool
  | none => .ok false
  | bool b => .ok b
  | int n => .ok (n ≠ 0)
  | float x => .ok (x != 0)
  | text s => .ok (s ≠ "")
  | range start stop => .ok (start < stop)
  | elem e => .ok e.truth
  | array t =>
    match t.elements store with
    | [] => .ok false
    | [e] => .ok e.truth
    | _ => .error .ambiguousTruth

end Value

end MatScript
