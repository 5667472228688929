import MatScript.RunError

/-! Arrays. An array sees its elements through a layout: an offset and, for each axis, a length
and a stride. The elements are its own, or in a store where several arrays may see the same ones,
so that a part or the transposition of a stored array shares its elements. -/
namespace MatScript

structure Axis where
  length : Nat
  stride : Nat
  deriving DecidableEq, Repr, Inhabited

structure Layout where
  offset : Nat
  axes : List Axis
  deriving DecidableEq, Repr, Inhabited

namespace Layout

def shape (l : Layout) : List Nat := l.axes.map Axis.length

def size (l : Layout) : Nat := l.shape.foldr (· * ·) 1

/-- Axes of the given lengths over elements in row-major order. -/
def rowMajor : List Nat → List Axis
  | [] => []
  | n :: rest => ⟨n, rest.foldr (· * ·) 1⟩ :: rowMajor rest

def ofShape (shape : List Nat) : Layout := ⟨0, rowMajor shape⟩

/-- The offsets that axes reach from `offset`, in row-major order. -/
def offsetsFrom : List Axis → Nat → List Nat
  | [], offset => [offset]
  | a :: rest, offset =>
    (List.range a.length).flatMap fun i => offsetsFrom rest (offset + i * a.stride)

def offsets (l : Layout) : List Nat := offsetsFrom l.axes l.offset

/-- All axes in reverse order. -/
def transpose (l : Layout) : Layout := { l with axes := l.axes.reverse }

/-- The part at position `i` of the first axis. -/
def sub (l : Layout) (i : Nat) : Layout :=
  match l.axes with
  | [] => l
  | a :: rest => ⟨l.offset + i * a.stride, rest⟩

/-- An axis stretched to a length: an axis of length one shows its item again and again. -/
def stretchAxis? (a : Axis) (n : Nat) : Option Axis :=
  if a.length = n then some a else if a.length = 1 then some ⟨n, 0⟩ else none

/-- Axes, last first, stretched to lengths, last first. -/
def stretchAxes? : List Axis → List Nat → Option (List Axis)
  | [], ns => some (ns.map (⟨·, 0⟩))
  | _ :: _, [] => none
  | a :: as, n :: ns => do return (← stretchAxis? a n) :: (← stretchAxes? as ns)

/-- The layout stretched to a shape. Missing axes are added at the front. -/
def stretch? (l : Layout) (shape : List Nat) : Option Layout :=
  (stretchAxes? l.axes.reverse shape.reverse).map fun axes => { l with axes := axes.reverse }

/-- Drop leading axes of length one while there are more than `n`. -/
def dropUnits (n : Nat) : List Axis → List Axis
  | a :: rest => if n < rest.length + 1 ∧ a.length = 1 then dropUnits n rest else a :: rest
  | [] => []

end Layout

/-- The common length of two axes: equal, or one of them one. -/
def joinLength? (m n : Nat) : Option Nat :=
  if m = n then some m else if m = 1 then some n else if n = 1 then some m else none

/-- The common shape of two shapes, both last axis first. -/
def joinReversed? : List Nat → List Nat → Option (List Nat)
  | [], ns => some ns
  | ms, [] => some ms
  | m :: ms, n :: ns => do return (← joinLength? m n) :: (← joinReversed? ms ns)

/-- The shape that two shapes can both be stretched to. -/
def joinShapes? (a b : List Nat) : Option (List Nat) :=
  (joinReversed? a.reverse b.reverse).map List.reverse

/-- Elements of one kind. -/
structure Cells where
  kind : Kind
  data : Array Elem
  deriving Inhabited

/-- Where the elements of an array are. -/
inductive Source where
  | own (cells : Cells)
  | stored (index : Nat)
  deriving Inhabited

structure Tensor where
  source : Source
  layout : Layout
  deriving Inhabited

/-- The elements that arrays share. -/
abbrev Store := Array Cells

namespace Tensor

/-- An array with elements of its own, in row-major order. -/
def ofElements (kind : Kind) (shape : List Nat) (elements : List Elem) : Tensor :=
  ⟨.own ⟨kind, elements.toArray⟩, .ofShape shape⟩

def fill (shape : List Nat) (x : Elem) : Tensor :=
  ofElements x.kind shape (List.replicate (shape.foldr (· * ·) 1) x)

def shape (t : Tensor) : List Nat := t.layout.shape

def size (t : Tensor) : Nat := t.layout.size

def cells (store : Store) (t : Tensor) : Cells :=
  match t.source with
  | .own cells => cells
  | .stored i => store.getD i default

def kind (store : Store) (t : Tensor) : Kind := (t.cells store).kind

/-- The elements in row-major order. -/
def elements (store : Store) (t : Tensor) : List Elem :=
  let data := (t.cells store).data
  t.layout.offsets.map (data.getD · default)

/-- The first element. -/
def first (store : Store) (t : Tensor) : Elem := (t.cells store).data.getD t.layout.offset default

def transpose (t : Tensor) : Tensor := { t with layout := t.layout.transpose }

/-- The part at position `i` of the first axis. -/
def sub (t : Tensor) (i : Nat) : Tensor := { t with layout := t.layout.sub i }

/-- Move the elements of an array to the store. -/
def share (store : Store) (t : Tensor) : Tensor × Store :=
  match t.source with
  | .own cells => ({ t with source := .stored store.size }, store.push cells)
  | .stored _ => (t, store)

/-- The part that indices select, counted from the given axis. A negative index counts from the
end. -/
def selectFrom (axis : Nat) (l : Layout) : List Int → Except RunError Layout
  | [] => .ok l
  | i :: rest =>
    match l.axes with
    | [] => .ok l
    | a :: _ =>
      let n : Int := a.length
      if i < -n ∨ n ≤ i then .error (.outOfBounds i axis a.length)
      else selectFrom (axis + 1) (l.sub (if i < 0 then i + n else i).toNat) rest

/-- The part of an array that indices select. -/
def select (t : Tensor) (indices : List Int) : Except RunError Tensor :=
  if t.layout.axes.length < indices.length then
    .error (.tooManyIndices t.layout.axes.length indices.length)
  else do return { t with layout := ← selectFrom 0 t.layout indices }

/-- The whole of an array as the only item of a first axis, or that axis without items. -/
def mask (t : Tensor) (all : Bool) : Except RunError Tensor :=
  let axes := ⟨all.toNat, 0⟩ :: t.layout.axes
  if maxAxes < axes.length then .error (.tooManySelected axes.length)
  else .ok { t with layout := { t.layout with axes } }

end Tensor

/-- New elements, with their offsets, for the elements that the store has at `index`. -/
structure Patch where
  index : Nat
  items : List (Nat × Elem)

/-- Replace elements, given with their offsets. -/
def Cells.write (cells : Cells) (items : List (Nat × Elem)) : Cells :=
  { cells with data := items.foldl (fun data item => data.setIfInBounds item.1 item.2) cells.data }

def Patch.apply (p : Patch) (store : Store) : Store := store.modify p.index (·.write p.items)

end MatScript
