import MatScript.Value.Array

/-! The operations that operators, functions and instructions stand for, by name. -/
namespace MatScript

inductive Operation where
  | negate
  | arith (op : Arith)
  | compare (c : Comparison)
  /-- An arithmetic operator applied element by element. -/
  | dotted (op : Arith)
  | transpose
  | eye
  | zeros
  | ones
  | breakLoop
  | continueLoop
  | giveBack
  | print
  deriving DecidableEq, Repr, Inhabited

namespace Operation

/-- All operations with their names. -/
def table : List (String × Operation) :=
  [("u-", negate), ("+", arith .add), ("-", arith .subtract), ("*", arith .multiply),
    ("/", arith .divide), ("==", compare .equal), ("!=", compare .unequal),
    (">", compare .greater), ("<", compare .less), (">=", compare .greaterEqual),
    ("<=", compare .lessEqual), (".+", dotted .add), (".-", dotted .subtract),
    (".*", dotted .multiply), ("./", dotted .divide), ("'", transpose), ("eye", eye),
    ("zeros", zeros), ("ones", ones), ("break", breakLoop), ("continue", continueLoop),
    ("return", giveBack), ("print", print)]

def ofName? (name : String) : Option Operation := table.lookup name

/-- The wording for a wrong number of arguments. -/
def expected (name : String) (least count : Nat) : RunError :=
  .wrongArguments s!"{name} expected {least} arguments, got {count}"

/-- The value of an operation that only computes. -/
def compute (store : Store) (op : Operation) (arguments : List Value) : Except RunError Value :=
  match op, arguments with
  | negate, [a] => a.negate store
  | negate, args =>
    .error (.wrongArguments s!"_operator.neg() takes exactly one argument ({args.length} given)")
  | arith op, [a, b] => a.arith store op b
  | arith op, args => .error (expected op.elementName 2 args.length)
  | compare c, [a, b] => a.compare store c b
  | compare c, args => .error (expected c.elementName 2 args.length)
  | dotted op, [a, b] => a.elementArith store op b
  | dotted op, args =>
    .error (.wrongArguments
      s!"{op.elementName}() takes from 2 to 3 positional arguments but {args.length} were given")
  | transpose, a :: _ => a.transpose
  | transpose, [] =>
    .error (.wrongArguments "transpose() missing 1 required positional argument: 'a'")
  | eye, [n] => Value.identity store n n (.int 0)
  | eye, [m, n] => Value.identity store m n (.int 0)
  | eye, m :: n :: k :: _ => Value.identity store m n k
  | eye, [] => .error (.wrongArguments "eye() missing 1 required positional argument: 'N'")
  | zeros, dimensions => Value.filled store 0 dimensions
  | ones, dimensions => Value.filled store 1 dimensions
  | _, _ => .ok .none

end Operation

end MatScript
