import MatScript.Number.Text

/-! The elements of arrays. All elements of an array are of one kind: truth values, integers of 64
bits that wrap around, floats, or texts up to a width. -/
namespace MatScript

inductive Kind where
  | bool
  | int
  | float
  | text (width : Nat)
  deriving DecidableEq, Repr, Inhabited

namespace Kind

/-- The name of a kind in messages. -/
def display : Kind → String
  | bool => "bool"
  | int => "int64"
  | float => "float64"
  | text width => "<U" ++ toString width

/-- The width that every element has as a text. -/
def textWidth : Kind → Nat
  | bool => 5
  | int => 21
  | float => 32
  | text width => width

/-- The least kind that holds the elements of both. -/
def join : Kind → Kind → Kind
  | bool, bool => bool
  | text v, k | k, text v => text (max v k.textWidth)
  | float, _ | _, float => float
  | _, _ => int

def isText : Kind → Bool
  | text _ => true
  | _ => false

end Kind

/-- What an array keeps of a text: null characters at its end are lost. -/
def cellText (s : String) : String :=
  String.ofList (s.toList.reverse.dropWhile (· = '\x00')).reverse

inductive Elem where
  | bool (b : Bool)
  | int (n : Int64)
  | float (x : Float)
  | text (s : String)
  deriving Inhabited

/-- The float nearest to an integer of 64 bits. -/
def floatOfWord (n : Int64) : Float := Number.ofRatio (n.toInt < 0) n.toInt.natAbs 1

/-- The integers of 64 bits are those from `-wordBound` on that are less than `wordBound`. -/
def wordBound : Int := 0x8000000000000000

/-- The integer part of a float as 64 bits. A float without one, or whose integer part is out of
range, gives the least integer. -/
def wordOfFloat (x : Float) : Int64 :=
  match Number.decode? x with
  | some b =>
    let n := b.truncate
    if -wordBound ≤ n ∧ n < wordBound then .ofInt n else .ofInt (-wordBound)
  | none => .ofInt (-wordBound)

/-- An integer as 64 bits, if it is in range. -/
def wordOfInt? (n : Int) : Option Int64 :=
  if -wordBound ≤ n ∧ n < wordBound then some (.ofInt n) else none

def truthText (b : Bool) : String := if b then "True" else "False"

namespace Elem

def kind : Elem → Kind
  | bool _ => .bool
  | int _ => .int
  | float _ => .float
  | text s => .text (max 1 s.length)

def display : Elem → String
  | bool b => truthText b
  | int n => toString n.toInt
  | float x => Number.floatText x
  | text s => s

def truth : Elem → Bool
  | bool b => b
  | int n => n ≠ 0
  | float x => x != 0
  | text s => s ≠ ""

def toWord : Elem → Int64
  | bool b => if b then 1 else 0
  | int n => n
  | float x => wordOfFloat x
  | text _ => 0

def toFloat : Elem → Float
  | bool b => if b then 1 else 0
  | int n => floatOfWord n
  | float x => x
  | text _ => 0

def negate : Elem → Elem
  | bool b => bool b
  | int n => int (-n)
  | float x => float (-x)
  | text s => text s

end Elem

/-- The operators of arithmetic. -/
inductive Arith where
  | add | subtract | multiply | divide
  deriving DecidableEq, Repr, Inhabited

/-- The operators of comparison. -/
inductive Comparison where
  | equal | unequal | greater | less | greaterEqual | lessEqual
  deriving DecidableEq, Repr, Inhabited

namespace Arith

def symbol : Arith → String
  | add => "+"
  | subtract => "-"
  | multiply => "*"
  | divide => "/"

/-- The name of the element-wise operation in messages. -/
def elementName : Arith → String
  | add => "add"
  | subtract => "subtract"
  | multiply => "multiply"
  | divide => "divide"

/-- The result on floats. A division by zero gives an infinity or is undefined. -/
def onFloats : Arith → Float → Float → Float
  | add, x, y => x + y
  | subtract, x, y => x - y
  | multiply, x, y => x * y
  | divide, x, y => x / y

/-- The result on integers of 64 bits, which wraps around. -/
def onWords : Arith → Int64 → Int64 → Int64
  | add, x, y => x + y
  | subtract, x, y => x - y
  | multiply, x, y => x * y
  | divide, x, y => x / y

/-- The result on unbounded integers. -/
def onInts : Arith → Int → Int → Int
  | add, x, y => x + y
  | subtract, x, y => x - y
  | multiply, x, y => x * y
  | divide, x, y => x / y

/-- The result on two elements, of the given kind. A sum of truth values is their disjunction, a
product their conjunction. -/
def onElements (op : Arith) (k : Kind) (x y : Elem) : Elem :=
  match k with
  | .bool => .bool (if op = multiply then x.truth && y.truth else x.truth || y.truth)
  | .int => .int (op.onWords x.toWord y.toWord)
  | .float => .float (op.onFloats x.toFloat y.toFloat)
  | .text _ => .text (x.display ++ y.display)

end Arith

namespace Comparison

def symbol : Comparison → String
  | equal => "=="
  | unequal => "!="
  | greater => ">"
  | less => "<"
  | greaterEqual => ">="
  | lessEqual => "<="

def elementName : Comparison → String
  | equal => "equal"
  | unequal => "not_equal"
  | greater => "greater"
  | less => "less"
  | greaterEqual => "greater_equal"
  | lessEqual => "less_equal"

/-- Whether a comparison holds for operands in the given order; without an order only inequality
does. -/
def holds : Comparison → Option Ordering → Bool
  | equal, o => o = some .eq
  | unequal, o => o ≠ some .eq
  | greater, o => o = some .gt
  | less, o => o = some .lt
  | greaterEqual, o => o = some .gt || o = some .eq
  | lessEqual, o => o = some .lt || o = some .eq

def isEquality : Comparison → Bool
  | equal | unequal => true
  | _ => false

end Comparison

/-- The order of two floats; an undefined one has none. -/
def compareFloats? (x y : Float) : Option Ordering :=
  if x < y then some .lt else if x == y then some .eq else if y < x then some .gt else none

/-- The order of two texts, by code points. -/
def compareTexts (s t : String) : Ordering := compare s t

namespace Elem

/-- The order of two elements. Numbers of different kinds are compared as floats if one of them is
one; a text and a number have no order. -/
def compare? : Elem → Elem → Option Ordering
  | text s, text t => some (compareTexts s t)
  | text _, _ | _, text _ => none
  | float x, y => compareFloats? x y.toFloat
  | x, float y => compareFloats? x.toFloat y
  | x, y => some (compare x.toWord.toInt y.toWord.toInt)

end Elem

end MatScript
