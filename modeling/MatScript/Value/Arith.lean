import MatScript.Value

/-! Arithmetic and comparison of values: exact on plain numbers, element by element as soon as an
element or an array takes part. -/
namespace MatScript

/-- The float nearest to an integer, which has to be in range. -/
def floatOfInt (n : Int) : Except RunError Float :=
  match Number.ofInt? n with
  | some x => .ok x
  | none => .error .tooLargeForFloat

def Plain.toFloat : Plain → Except RunError Float
  | .int n => floatOfInt n
  | .float x => .ok x

/-- Arithmetic on integers. A quotient is a float. -/
def Arith.onPlainInts (op : Arith) (a b : Int) : Except RunError Value :=
  if op = .divide then
    if b = 0 then .error .divisionByZero
    else match Number.divInt? a b with
      | some x => .ok (.float x)
      | none => .error .quotientTooLarge
  else .ok (.int (op.onInts a b))

/-- Arithmetic on plain numbers. -/
def Arith.onPlain (op : Arith) (a b : Plain) : Except RunError Value :=
  match a, b with
  | .int m, .int n => op.onPlainInts m n
  | _, _ => do
    let x ← a.toFloat
    let y ← b.toFloat
    if op = .divide ∧ y == 0 then .error .floatDivisionByZero
    else .ok (.float (op.onFloats x y))

/-- The order of two plain numbers, which is exact. -/
def Plain.compare? : Plain → Plain → Option Ordering
  | .int m, .int n => some (compare m n)
  | .int m, .float y => Number.compareInt? m y
  | .float x, .int n => (Number.compareInt? n x).map Ordering.swap
  | .float x, .float y => compareFloats? x y

/-- What an operand is used for, beside an operand of some kind. -/
inductive Use where
  | arith (op : Arith)
  | comparison

/-- A plain integer beside elements of a kind. One that is out of range is refused, or compares
like an infinity, unless it takes part as a float. -/
def Use.element (use : Use) (other : Kind) (n : Int) : Except RunError Elem :=
  match wordOfInt? n with
  | some w => .ok (.int w)
  | none =>
    match use, other with
    | .arith .divide, _ | _, .float => do return .float (← floatOfInt n)
    | .comparison, _ => .ok (.float (Number.ofRatio (n < 0) (Nat.pow 2 1024) 1))
    | .arith _, _ => .error .tooLargeForWord

/-- An array without axes. -/
def Tensor.ofElem (e : Elem) : Tensor := .ofElements e.kind [] [e]

/-- The integers of a range as an array. -/
def Tensor.ofRange (start stop : Int) : Tensor :=
  let n := Value.rangeLength start stop
  .ofElements .int [n] ((List.range n).map fun i : Nat => .int (.ofInt (start + i)))

namespace Value

/-- The kind that a value has as an element or array. -/
def kind? (store : Store) : Value → Option Kind
  | none => Option.none
  | bool _ => some .bool
  | int _ => some .int
  | float _ => some .float
  | text s => some (.text (max 1 s.length))
  | range _ _ => some .int
  | elem e => some e.kind
  | array t => some (t.kind store)

/-- A value as an array, beside elements of a kind. -/
def toTensor (use : Use) (other : Kind) : Value → Except RunError Tensor
  | none => .error (.notIterable "NoneType")
  | bool b => .ok (.ofElem (.bool b))
  | int n => do return .ofElem (← use.element other n)
  | float x => .ok (.ofElem (.float x))
  | text s => .ok (.ofElements (.text (max 1 s.length)) [] [.text (cellText s)])
  | range start stop => .ok (.ofRange start stop)
  | elem e => .ok (.ofElem e)
  | array t => .ok t

/-- The name of the type that a value's elements have outside of arrays. -/
def elementTypeName (store : Store) (v : Value) : String :=
  match v.kind? store with
  | Option.none => "NoneType"
  | some .bool => "bool"
  | some .int => "int"
  | some .float => "float"
  | some (.text _) => "str"

end Value

/-- The kind of an element-wise result. -/
def Arith.resultKind (op : Arith) (a b : Kind) : Except RunError Kind :=
  match a, b with
  | .text v, .text w =>
    if op = .add then .ok (.text (v + w))
    else .error (.noLoop op.elementName a.display b.display)
  | .text _, _ | _, .text _ => .error (.noLoop op.elementName a.display b.display)
  | .bool, .bool =>
    match op with
    | .subtract => .error .booleanSubtract
    | .divide => .ok .float
    | _ => .ok .bool
  | _, _ => .ok (if op = .divide then .float else a.join b)

/-- Combine two arrays element by element, both stretched to a common shape. A result without axes
is an element. -/
def Tensor.combine (store : Store) (kind : Kind) (f : Elem → Elem → Elem) (a b : Tensor) :
    Except RunError Value :=
  let joined := do
    let shape ← joinShapes? a.shape b.shape
    let x ← a.layout.stretch? shape
    let y ← b.layout.stretch? shape
    return (shape, x, y)
  match joined with
  | none => .error (.broadcast a.shape b.shape)
  | some (shape, x, y) =>
    let elements := List.zipWith f
      (Tensor.elements store { a with layout := x }) (Tensor.elements store { b with layout := y })
    match shape, elements with
    | [], [e] => .ok (.elem e)
    | _, _ => .ok (.array (.ofElements kind shape elements))

namespace Value

/-- Arithmetic element by element. -/
def elementArith (store : Store) (op : Arith) (a b : Value) : Except RunError Value :=
  match a.kind? store, b.kind? store with
  | some j, some k => do
    let kind ← op.resultKind j k
    Tensor.combine store kind (op.onElements kind)
      (← a.toTensor (.arith op) k) (← b.toTensor (.arith op) j)
  | _, _ =>
    .error (.unsupportedOperands op.symbol (a.elementTypeName store) (b.elementTypeName store))

/-- Comparison element by element. A text and a number are never equal and have no order. -/
def elementCompare (store : Store) (c : Comparison) (a b : Value) : Except RunError Value :=
  match a.kind? store, b.kind? store with
  | some j, some k =>
    if j.isText != k.isText ∧ !c.isEquality then
      .error (.noLoop c.elementName j.display k.display)
    else do
      Tensor.combine store .bool (fun x y => .bool (c.holds (x.compare? y)))
        (← a.toTensor .comparison k) (← b.toTensor .comparison j)
  | _, _ =>
    if c.isEquality then
      match a, b with
      | array t, _ | _, array t =>
        .ok (.array (.fill t.shape (.bool (c.holds Option.none))))
      | _, _ => .ok (.bool (c.holds Option.none))
    else .error (.noOrder c.symbol (a.elementTypeName store) (b.elementTypeName store))

/-- A text written several times. -/
def repeatText (s : String) (n : Int) : Except RunError Value :=
  if wordBound ≤ n ∨ n < -wordBound then .error .tooLargeForIndex
  else .ok (.text (String.join (List.replicate n.toNat s)))

/-- A product with a text repeats it. -/
def multiplyText (s : String) (v : Value) : Except RunError Value :=
  match v with
  | bool b => repeatText s (if b then 1 else 0)
  | int n => repeatText s n
  | elem (.int n) => repeatText s n.toInt
  | elem (.bool _) => .error .integerRequired
  | elem _ => .error (.notInteger v.typeName)
  | _ => .error (.repeatedBy v.typeName)

/-- Arithmetic on any two values. A sum with a text joins the texts of both. -/
def arith (store : Store) (op : Arith) (a b : Value) : Except RunError Value :=
  if op = .add ∧ (a.text?.isSome ∨ b.text?.isSome) then do
    return .text ((← a.display store) ++ (← b.display store))
  else match a, b, op with
    | text s, elem (.text t), .multiply | elem (.text s), text t, .multiply =>
      .error (.noLoop op.elementName (Elem.text s).kind.display (Elem.text t).kind.display)
    | text s, elem _, .multiply => multiplyText s b
    | elem _, text s, .multiply => multiplyText s a
    | _, _, _ =>
      if a.isElementwise ∨ b.isElementwise then elementArith store op a b
      else match a.plain?, b.plain? with
        | some x, some y => op.onPlain x y
        | _, _ =>
          match a, b, op with
          | text s, _, .multiply => multiplyText s b
          | _, text s, .multiply => multiplyText s a
          | _, _, _ => .error (.unsupportedOperands op.symbol a.typeName b.typeName)

/-- Equality of values that are neither numbers nor texts. -/
def sameOther : Value → Value → Bool
  | none, none => true
  | range a b, range c d =>
    let m := rangeLength a b
    m = rangeLength c d && (m = 0 || a = c)
  | _, _ => false

/-- Comparison of any two values. -/
def compare (store : Store) (c : Comparison) (a b : Value) : Except RunError Value :=
  match a, b with
  | array _, _ | _, array _ => elementCompare store c a b
  | _, _ =>
    match a.text?, b.text? with
    | some s, some t => .ok (.bool (c.holds (some (compareTexts s t))))
    | some _, Option.none | Option.none, some _ =>
      if c.isEquality then .ok (.bool (c.holds Option.none))
      else .error (.noOrder c.symbol a.typeName b.typeName)
    | Option.none, Option.none =>
      if a.isElementwise ∨ b.isElementwise then elementCompare store c a b
      else match a.plain?, b.plain? with
        | some x, some y => .ok (.bool (c.holds (x.compare? y)))
        | _, _ =>
          if c.isEquality then
            .ok (.bool (c.holds (if sameOther a b then some .eq else Option.none)))
          else .error (.noOrder c.symbol a.typeName b.typeName)

/-- The negation of an element; a truth value has none. -/
def negateKind (kind : Kind) : Except RunError (Elem → Elem) :=
  match kind with
  | .bool => .error .booleanNegative
  | .text _ => .error (.badNegation "str")
  | _ => .ok Elem.negate

/-- The negation of any value. -/
def negate (store : Store) : Value → Except RunError Value
  | bool b => .ok (int (if b then -1 else 0))
  | int n => .ok (int (-n))
  | float x => .ok (float (-x))
  | elem e => do return .elem ((← negateKind e.kind) e)
  | array t => do
    let f ← negateKind (t.kind store)
    let elements := (t.elements store).map f
    match t.shape, elements with
    | [], [e] => return .elem e
    | shape, _ => return .array (.ofElements (t.kind store) shape elements)
  | v => .error (.badNegation v.typeName)

end Value

end MatScript
