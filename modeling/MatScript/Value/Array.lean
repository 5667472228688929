import MatScript.Value.Arith

/-! Values as arrays: vectors of values, arrays of zeros and ones, elements and parts of arrays,
and their assignment. -/
namespace MatScript

/-- An element as one of another kind. -/
def Elem.cast (kind : Kind) (e : Elem) : Except RunError Elem :=
  match kind with
  | .bool => .ok (.bool e.truth)
  | .int =>
    match e with
    | .text s =>
      match Number.readInt? s with
      | some n =>
        match wordOfInt? n with
        | some w => .ok (.int w)
        | none => .error .tooLargeForWord
      | none => .error (.noInt s)
    | _ => .ok (.int e.toWord)
  | .float =>
    match e with
    | .text s =>
      match Number.readFloat? s with
      | some x => .ok (.float x)
      | none => .error (.noFloat s)
    | _ => .ok (.float e.toFloat)
  | .text width => .ok (.text (cellText (String.ofList (e.display.toList.take width))))

/-- A float as 64 bits, which has to have an integer part in range. -/
def wordOfPlainFloat (x : Float) : Except RunError Int64 :=
  match Number.decode? x with
  | none => .error (if x.isNaN then .undefinedToInt else .infiniteToInt)
  | some b =>
    match wordOfInt? b.truncate with
    | some w => .ok w
    | none => .error .tooLargeForWord

/-- The shape that all shapes of a list start with. -/
def commonShape : List (List Nat) → List Nat
  | [] => []
  | s :: rest => rest.foldl shared s
where
  shared : List Nat → List Nat → List Nat
    | m :: ms, n :: ns => if m = n then m :: shared ms ns else []
    | _, _ => []

/-- What the items of a vector ask for of its elements. -/
inductive Demand where
  | kind (k : Kind)
  /-- The 64 bits of integers without a sign. -/
  | unsigned
  /-- Something that no kind of elements holds. -/
  | other

namespace Demand

def ofInt (n : Int) : Demand :=
  if -wordBound ≤ n ∧ n < wordBound then kind .int
  else if 0 ≤ n ∧ n < 2 * wordBound then unsigned
  else other

/-- What two items ask for together. Integers with a sign and others without one are floats. -/
def join : Demand → Demand → Demand
  | other, _ | _, other => other
  | kind j, kind k => kind (j.join k)
  | unsigned, unsigned | unsigned, kind .bool | kind .bool, unsigned => unsigned
  | unsigned, kind (.text width) | kind (.text width), unsigned => kind (.text (max width 20))
  | unsigned, kind _ | kind _, unsigned => kind .float

end Demand

namespace Value

/-- The shape of a value as an item of a vector. -/
def itemShape : Value → List Nat
  | array t => t.shape
  | range start stop => [rangeLength start stop]
  | _ => []

/-- What an item of a vector asks for. An item without elements asks for nothing. -/
def demand? (store : Store) : Value → Option Demand
  | none => some .other
  | int n => some (.ofInt n)
  | range start stop =>
    if start < stop then some ((Demand.ofInt start).join (.ofInt (stop - 1))) else Option.none
  | v => (v.kind? store).map .kind

/-- An integer as an element of a kind that holds it. -/
def intAs (kind : Kind) (n : Int) : Except RunError Elem :=
  match kind with
  | .text width => .ok (.text (String.ofList ((toString n).toList.take width)))
  | _ => do (← Use.element (.arith .add) kind n).cast kind

/-- The elements of a value as those of an array of some kind. -/
def elementsAs (store : Store) (kind : Kind) (v : Value) : Except RunError (List Elem) :=
  match v with
  | int n => do return [← intAs kind n]
  | range start stop =>
    (List.range (rangeLength start stop)).mapM fun i : Nat => intAs kind (start + i)
  | _ => do
    let t ← v.toTensor (.arith .add) kind
    (t.elements store).mapM (Elem.cast kind)

/-- The vector of some values. They have to have one shape; their elements take the kind that all of
them ask for. Where shapes differ, some item has an axis more than they have in common. -/
def vector (store : Store) (items : List Value) : Except RunError Value :=
  let shapes := items.map itemShape
  let shape := commonShape shapes
  let ragged := shapes.any (· ≠ shape)
  if maxAxes ≤ shape.length + ragged.toNat then .error .tooManyAxes
  else if ragged then .error (.ragged (items.length :: shape))
  else match items.filterMap (demand? store) with
    | [] => .ok (.array (.ofElements .float (items.length :: shape) []))
    | d :: ds =>
      match ds.foldl Demand.join d with
      | .kind kind => do
        let elements ← items.mapM (elementsAs store kind)
        return .array (.ofElements kind (items.length :: shape) elements.flatten)
      | _ => .error .noKind

/-- The length of an axis. -/
def dimension (store : Store) (v : Value) : Except RunError Int :=
  match v with
  | int n => if (wordOfInt? n).isSome then .ok n else .error .dimensionTooLarge
  | elem (.int n) => .ok n.toInt
  | bool _ | elem (.bool _) => .error .integerRequired
  | array t =>
    match t.shape, t.first store with
    | [], .int n => .ok n.toInt
    | _, _ => .error .notScalarIndex
  | _ => .error (.notInteger v.typeName)

/-- The most bytes that an array may take; a float takes eight. -/
def maxBytes : Nat := Nat.pow 2 63 - 1

/-- The shape with the given lengths. Axes are looked at in turn, empty ones are passed over. -/
def shapeOf (bytes : Nat) : List Int → Except RunError (List Nat)
  | [] => .ok []
  | n :: rest =>
    if n = 0 then do return 0 :: (← shapeOf bytes rest)
    else if n < 0 then .error .negativeDimension
    else if maxBytes < bytes * n.toNat then .error .arrayTooBig
    else do return n.toNat :: (← shapeOf (bytes * n.toNat) rest)

/-- An array of the given shape with one float everywhere. -/
def filled (store : Store) (x : Float) (dimensions : List Value) : Except RunError Value :=
  if maxAxes < dimensions.length then .error (.tooManyLengths dimensions.length)
  else do
    let lengths ← dimensions.mapM (dimension store)
    return .array (.fill (← shapeOf 8 lengths) (.float x))

/-- An integer given as a value. -/
def integer (v : Value) : Except RunError Int :=
  match v with
  | bool b => .ok (if b then 1 else 0)
  | int n => .ok n
  | elem (.int n) => .ok n.toInt
  | _ => .error (.notInteger v.typeName)

/-- The matrix with ones on a diagonal, which starts `diagonal` columns to the right of the first
element, and zeros elsewhere. -/
def identity (store : Store) (rows columns diagonal : Value) : Except RunError Value := do
  let m ← dimension store rows
  let n ← dimension store columns
  let shape ← shapeOf 8 [m, n]
  let k ← integer diagonal
  let row (i : Nat) : List Elem :=
    (List.range n.toNat).map fun j : Nat => .float (if (j : Int) = i + k then 1 else 0)
  return .array (.ofElements .float shape ((List.range m.toNat).flatMap row))

/-- All axes in reverse order. -/
def transpose (v : Value) : Except RunError Value := do
  return .array (← v.toTensor (.arith .add) .int).transpose

/-- The items of a vector as indices. -/
def indices (store : Store) (v : Value) : Except RunError (List Int) :=
  match v with
  | array t =>
    match t.shape with
    | [_] => (t.elements store).mapM fun
      | .int n => .ok n.toInt
      | _ => .error .noIndex
    | [] => .error .noIteration
    | _ => .error .noIndex
  | _ => .error (.notIterable v.typeName)

/-- Truth values as indices: whether all of them are true. -/
def mask? (store : Store) (v : Value) : Option Bool :=
  match v with
  | array t =>
    match t.shape, t.kind store with
    | [_], .bool => some ((t.elements store).all Elem.truth)
    | _, _ => Option.none
  | _ => Option.none

/-- An array without axes as its element. -/
def ofTensor (store : Store) (t : Tensor) : Value :=
  if t.layout.axes.isEmpty then elem (t.first store) else array t

/-- The part that truth values select: a new array with one more axis, which has the whole array as
its only item, or no item. -/
def masked (store : Store) (t : Tensor) (all : Bool) : Except RunError Value := do
  let part ← t.mask all
  return array (.ofElements (t.kind store) part.shape (part.elements store))

/-- The element or part of an array that a vector of indices selects. -/
def part (store : Store) (t : Tensor) (selector : Value) : Except RunError Value :=
  match selector.mask? store with
  | some all => masked store t all
  | Option.none => do
    let part ← t.select (← indices store selector)
    return ofTensor store part

/-- The element or part of a value that a vector of indices selects. -/
def index (store : Store) (v selector : Value) : Except RunError Value :=
  match v with
  | array t => part store t selector
  | text _ | elem (.text _) => .error .textIndex
  | range _ _ => .error .rangeIndex
  | elem e =>
    match selector.mask? store with
    | some all => masked store (.ofElem e) all
    | Option.none => .error .scalarIndex
  | _ => .error (.notIndexable v.typeName)

/-- A value as an element of some kind. A text is cut to the width, a float to its integer part. -/
def toElement (store : Store) (kind : Kind) (v : Value) : Except RunError Elem :=
  match v, kind with
  | elem e, _ => e.cast kind
  | array t, .bool => do return .bool (← (array t).truth store)
  | array t, _ =>
    match t.elements store, kind with
    | [_], .text _ => if t.shape = [] then (t.first store).cast kind else .error .sequenceElement
    | [e], _ => e.cast kind
    | _, _ => .error .sequenceElement
  | _, .bool => do return .bool (← v.truth store)
  | float x, .int => do return .int (← wordOfPlainFloat x)
  | int n, .float => do return .float (← floatOfInt n)
  | none, .float => .ok (.float (0 / 0))
  | none, .int => .error (.notInteger "NoneType")
  | range _ _, _ => .error .sequenceElement
  | _, .text width => do
    return .text (cellText (String.ofList ((← v.display store).toList.take width)))
  | _, _ => do ((← v.toTensor (.arith .add) kind).first store).cast kind

/-- The elements that a value puts into a part of an array with the given shape, or why it does not
fit there. -/
def spread (store : Store) (kind : Kind) (shape : List Nat)
    (refusal : List Nat → List Nat → RunError) (v : Value) : Except RunError (List Elem) :=
  let put (t : Tensor) : Except RunError (List Elem) :=
    let layout := { t.layout with axes := Layout.dropUnits shape.length t.layout.axes }
    match layout.stretch? shape with
    | some l => (Tensor.elements store { t with layout := l }).mapM (Elem.cast kind)
    | Option.none => .error (refusal layout.shape shape)
  match v with
  | array t => put t
  | range start stop => put (.ofRange start stop)
  | _ => do
    let e ← v.toElement store kind
    return List.replicate (shape.foldr (· * ·) 1) e

/-- The part of an array that a vector of indices points at. -/
def place (store : Store) (t : Tensor) (selector : Value) : Except RunError Tensor :=
  match selector.mask? store with
  | some all => t.mask all
  | Option.none => do t.select (← indices store selector)

/-- The error for a value of one shape where a vector of indices points at a part of another. -/
def misfit (store : Store) (selector : Value) : List Nat → List Nat → RunError :=
  if (selector.mask? store).isSome then .broadcastSelected else .broadcastInto

/-- What a value changes in the store when it is put where a vector of indices points in an
array. -/
def patch (store : Store) (v selector value : Value) : Except RunError Patch :=
  match v with
  | array t => do
    let part ← place store t selector
    let kind := t.kind store
    let elements ←
      if part.layout.axes.isEmpty then do pure [← value.toElement store kind]
      else value.spread store kind part.shape (misfit store selector)
    match part.source with
    | .stored i => return ⟨i, part.layout.offsets.zip elements⟩
    | .own _ => return ⟨0, []⟩
  | _ => .error (.notAssignable v.typeName)

/-- How many items a value has to loop over, and the item at a position. The items of an array are
looked up when their turn comes. -/
def items (v : Value) : Except RunError (Nat × (Store → Nat → Value)) :=
  match v with
  | range start stop => .ok (rangeLength start stop, fun _ i => int (start + i))
  | text s | elem (.text s) =>
    let cs := s.toList.toArray
    .ok (cs.size, fun _ i => text (String.singleton (cs.getD i ' ')))
  | array t =>
    match t.shape with
    | [] => .error .noIteration
    | n :: _ => .ok (n, fun store i => ofTensor store (t.sub i))
  | _ => .error (.notIterable v.typeName)

end Value

end MatScript
