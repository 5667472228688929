import MatScript.Diagnostic
import MatScript.Element
import MatScript.Text.Quoted

/-! What can go wrong while a script runs. -/
namespace MatScript

/-- The most axes that an array may have. -/
def maxAxes : Nat := 64

/-- The classes of errors. A class of its own is for arrays of elements that no kind holds, which
are left out here. -/
inductive ErrorClass where
  | type | value | index | key | overflow | zeroDivision | unsupported | beyondKinds
  deriving DecidableEq, Repr, Inhabited

/-- The causes of errors. -/
inductive RunError where
  /-- A gap in the script. -/
  | gap (what : Gap)
  /-- No operation has this name. -/
  | unknownOperation (name : String)
  /-- An operation that got a wrong number of arguments; what it expects is its own wording. -/
  | wrongArguments (message : String)
  | divisionByZero
  | floatDivisionByZero
  | tooLargeForFloat
  | quotientTooLarge
  | tooLargeForWord
  | tooLargeForIndex
  | infiniteToInt
  | undefinedToInt
  /-- An integer of too many digits to be written. -/
  | tooManyDigitsToWrite
  | tooManyDigitsToRead (digits : Nat)
  | noInt (text : String)
  | noFloat (text : String)
  | unsupportedOperands (symbol left right : String)
  | badNegation (operand : String)
  | noOrder (symbol left right : String)
  | repeatedBy (type : String)
  /-- No element-wise operation for these kinds. -/
  | noLoop (operation left right : String)
  | booleanSubtract
  | booleanNegative
  | broadcast (left right : List Nat)
  | broadcastInto (source target : List Nat)
  /-- A value that does not fit what truth values select. -/
  | broadcastSelected (source target : List Nat)
  | ambiguousTruth
  /-- Items of different shapes, which agree in the given one. -/
  | ragged (shape : List Nat)
  /-- Items with so many axes that their vector would have too many. -/
  | tooManyAxes
  /-- More axes asked for than an array may have. -/
  | tooManyLengths (count : Nat)
  /-- Items that need elements of another kind: integers of more than 64 bits, or no value. -/
  | noKind
  | sequenceElement
  | negativeDimension
  | dimensionTooLarge
  | arrayTooBig
  | notIndexable (type : String)
  | notAssignable (type : String)
  | textIndex
  | rangeIndex
  | scalarIndex
  | noIndex
  | tooManyIndices (dimensions count : Nat)
  /-- Truth values that select an array of too many axes. -/
  | tooManySelected (count : Nat)
  | outOfBounds (index : Int) (axis size : Nat)
  | notIterable (type : String)
  | noIteration
  | notInteger (type : String)
  | integerRequired
  | notScalarIndex

namespace RunError

def errorClass : RunError → ErrorClass
  | gap _ => .unsupported
  | noKind => .beyondKinds
  | unknownOperation _ => .key
  | divisionByZero | floatDivisionByZero => .zeroDivision
  | tooLargeForFloat | quotientTooLarge | tooLargeForWord | tooLargeForIndex | infiniteToInt =>
    .overflow
  | undefinedToInt | tooManyDigitsToWrite | tooManyDigitsToRead _ | noInt _ | noFloat _
  | broadcast _ _ | broadcastInto _ _ | broadcastSelected _ _ | ambiguousTruth | ragged _
  | tooManyAxes | tooManyLengths _ | sequenceElement | negativeDimension | dimensionTooLarge
  | arrayTooBig => .value
  | scalarIndex | noIndex | tooManyIndices _ _ | tooManySelected _ | outOfBounds _ _ _ => .index
  | wrongArguments _ | unsupportedOperands _ _ _ | badNegation _ | noOrder _ _ _ | repeatedBy _
  | noLoop _ _ _ | booleanSubtract | booleanNegative | notIndexable _ | notAssignable _
  | textIndex | rangeIndex | notIterable _ | noIteration | notInteger _ | integerRequired
  | notScalarIndex => .type

/-- A shape in round brackets; a single length is followed by a comma. -/
def tuple (separator : String) : List Nat → String
  | [n] => "(" ++ toString n ++ ",)"
  | ns => "(" ++ separator.intercalate (ns.map toString) ++ ")"

/-- The name of a gap in messages. -/
def gapName : Gap → String
  | .anyNode => "Node"
  | .expression => "Expression"
  | .statement => "Statement"
  | .target => "Variable"

/-- What a stage says of a gap. -/
def gapMessage (stage : String) (what : Gap) : String :=
  s!"There is no {stage} implemented for <class 'compiler.parser.AST.{gapName what}'>"

def message : RunError → String
  | gap what => gapMessage "execution" what
  | unknownOperation name => Text.quoted name
  | wrongArguments message => message
  | divisionByZero => "division by zero"
  | floatDivisionByZero => "float division by zero"
  | tooLargeForFloat => "int too large to convert to float"
  | quotientTooLarge => "integer division result too large for a float"
  | tooLargeForWord => "Python int too large to convert to C long"
  | tooLargeForIndex => "cannot fit 'int' into an index-sized integer"
  | infiniteToInt => "cannot convert float infinity to integer"
  | undefinedToInt => "cannot convert float NaN to integer"
  | tooManyDigitsToWrite =>
    s!"Exceeds the limit ({Token.maxDigits} digits) for integer string conversion; use sys.set_int_max_str_digits() to increase the limit"
  | tooManyDigitsToRead digits => tooManyDigits digits
  | noInt text => "invalid literal for int() with base 10: " ++ Text.quoted text
  | noFloat text => "could not convert string to float: " ++ Text.quoted text
  | unsupportedOperands symbol left right =>
    s!"unsupported operand type(s) for {symbol}: '{left}' and '{right}'"
  | badNegation operand => s!"bad operand type for unary -: '{operand}'"
  | noOrder symbol left right =>
    s!"'{symbol}' not supported between instances of '{left}' and '{right}'"
  | repeatedBy type => s!"can't multiply sequence by non-int of type '{type}'"
  | noLoop operation left right =>
    s!"ufunc '{operation}' did not contain a loop with signature matching types (dtype('{left}'), dtype('{right}')) -> None"
  | booleanSubtract =>
    "numpy boolean subtract, the `-` operator, is not supported, use the bitwise_xor, the `^` operator, or the logical_xor function instead."
  | booleanNegative =>
    "The numpy boolean negative, the `-` operator, is not supported, use the `~` operator or the logical_not function instead."
  | broadcast left right =>
    "operands could not be broadcast together with shapes "
      ++ tuple "," left ++ " " ++ tuple "," right ++ " "
  | broadcastInto source target =>
    "could not broadcast input array from shape "
      ++ tuple "," source ++ " into shape " ++ tuple "," target
  | broadcastSelected source target =>
    "shape mismatch: value array of shape " ++ tuple "," source
      ++ " could not be broadcast to indexing result of shape " ++ tuple "," target
  | ambiguousTruth =>
    "The truth value of an array with more than one element is ambiguous. Use a.any() or a.all()"
  | ragged shape =>
    s!"setting an array element with a sequence. The requested array has an inhomogeneous shape after {shape.length} dimensions. The detected shape was "
      ++ tuple ", " shape ++ " + inhomogeneous part."
  | tooManyAxes =>
    s!"setting an array element with a sequence. The requested array would exceed the maximum number of dimension of {maxAxes}."
  | tooManyLengths count =>
    s!"maximum supported dimension for an ndarray is currently {maxAxes}, found {count}"
  | noKind => "no kind of elements holds the items of the vector"
  | sequenceElement => "setting an array element with a sequence."
  | negativeDimension => "negative dimensions are not allowed"
  | dimensionTooLarge => "Maximum allowed dimension exceeded"
  | arrayTooBig =>
    "array is too big; `arr.size * arr.dtype.itemsize` is larger than the maximum possible size."
  | notIndexable type => s!"'{type}' object is not subscriptable"
  | notAssignable type => s!"'{type}' object does not support item assignment"
  | textIndex => "string indices must be integers, not 'tuple'"
  | rangeIndex => "range indices must be integers or slices, not tuple"
  | scalarIndex => "invalid index to scalar variable."
  | noIndex =>
    "only integers, slices (`:`), ellipsis (`...`), numpy.newaxis (`None`) and integer or boolean arrays are valid indices"
  | tooManyIndices dimensions count =>
    s!"too many indices for array: array is {dimensions}-dimensional, but {count} were indexed"
  | tooManySelected count =>
    s!"number of dimensions must be within [0, {maxAxes}], indexing result would have {count}"
  | outOfBounds index axis size =>
    s!"index {index} is out of bounds for axis {axis} with size {size}"
  | notIterable type => s!"'{type}' object is not iterable"
  | noIteration => "iteration over a 0-d array"
  | notInteger type => s!"'{type}' object cannot be interpreted as an integer"
  | integerRequired => "an integer is required"
  | notScalarIndex => "only integer scalar arrays can be converted to a scalar index"

end RunError

end MatScript
