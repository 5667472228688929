import MatScript.Tensor
import MatScript.Text.Blank

/-! The text of an array: its elements in brackets, aligned in columns, on lines of limited width.
Of a large array only the items at the ends of each axis are shown. -/
namespace MatScript

namespace Tensor

/-- How arrays are written: the width of a line, the size from which on an array is summarised,
and how many items are shown at each end of a summarised axis. -/
structure Page where
  width : Nat
  threshold : Nat
  edge : Nat

def page : Page := ⟨75, 1000, 3⟩

def padLeft (n : Nat) (cs : List Char) : List Char := List.replicate (n - cs.length) ' ' ++ cs

def padRight (n : Nat) (cs : List Char) : List Char := cs ++ List.replicate (n - cs.length) ' '

def maxLength (words : List (List Char)) : Nat := words.foldl (fun n w => max n w.length) 0

/-- The most digits after the point. -/
def precision : Nat := 8

def signChars (x : Float) : List Char := if Number.isNegative x then ['-'] else []

/-- The digits of a finite float before the point, with its sign, and after it. -/
def positionalParts (x : Float) (b : Number.Binary) : List Char × List Char :=
  let d := if b.mantissa = 0 then ⟨0, 0⟩
    else
      let d := b.shortest
      if d.exponent < -(precision : Int) then (b.fixed precision).trim else d
  let (whole, fraction) := if d.digits = 0 then (['0'], []) else d.parts
  (signChars x ++ whole, fraction)

/-- The digits after the first one and the exponent of a finite float in at most `precision` digits
after the point. -/
def scientificDigits (b : Number.Binary) : Number.Decimal :=
  if b.mantissa = 0 then ⟨0, 0⟩
  else
    let d := b.shortest
    if precision + 1 < d.chars.length then (b.significant (precision + 1)).trim else d

/-- How the floats of an array are written. `right` counts what follows the point. -/
structure FloatStyle where
  scientific : Bool
  left : Nat
  right : Nat
  fraction : Nat
  exponent : Nat

/-- Floats are written with an exponent if they are large, small or far apart. -/
def isWide (magnitudes : List Float) : Bool :=
  match magnitudes with
  | [] => false
  | x :: rest =>
    let most := rest.foldl (fun a b => if a < b then b else a) x
    let least := rest.foldl (fun a b => if b < a then b else a) x
    most ≥ 1e8 || least < 1e-4 || most / least > 1000

/-- The style that fits all the floats given. -/
def floatStyle (xs : List Float) : FloatStyle :=
  let finite := xs.filterMap fun x => (Number.decode? x).map (x, ·)
  let magnitudes := (finite.filter (·.2.mantissa ≠ 0)).map fun p => p.1.abs
  let style : FloatStyle :=
    if finite.isEmpty then ⟨false, 0, 0, 0, 0⟩
    else if isWide magnitudes then
      let ds := finite.map fun p => scientificDigits p.2
      let left := maxLength (finite.map fun p => '0' :: signChars p.1)
      let fraction := ds.foldl (fun n d => max n (d.chars.length - 1)) 0
      let exponent := ds.foldl (fun n d => max n (Number.exponentChars 2 (d.point - 1)).length) 0 - 1
      ⟨true, left, exponent + 2 + fraction, fraction, exponent⟩
    else
      let parts := finite.map fun p => positionalParts p.1 p.2
      let right := maxLength (parts.map Prod.snd)
      ⟨false, maxLength (parts.map Prod.fst), right, right, 0⟩
  if finite.length = xs.length then style
  else
    let infinity := if xs.any fun x => x.isInf && x < 0 then 4 else 3
    { style with left := max style.left (infinity - (style.right + 1)) }

/-- A float in a given style. -/
def FloatStyle.word (style : FloatStyle) (x : Float) : List Char :=
  match Number.decode? x with
  | none => padLeft (style.left + style.right + 1) (Number.floatText x).toList
  | some b =>
    if style.scientific then
      let d := if b.mantissa = 0 then ⟨0, 0⟩ else b.significant (style.fraction + 1)
      let digits := d.chars.drop 1 ++ List.replicate style.fraction '0'
      padLeft style.left (signChars x ++ d.chars.take 1) ++ '.' :: digits.take style.fraction
        ++ 'e' :: Number.exponentChars style.exponent (d.point - 1)
    else
      let (whole, fraction) := positionalParts x b
      padLeft style.left whole ++ '.' :: padRight style.right fraction

/-- How an element is written beside the given ones. -/
def word (kind : Kind) (shown : List Elem) : Elem → List Char :=
  match kind with
  | .bool => fun e => padLeft 5 e.display.toList
  | .int =>
    let width := maxLength (shown.map fun e => e.display.toList)
    fun e => padLeft width e.display.toList
  | .float =>
    let style := floatStyle (shown.map Elem.toFloat)
    fun e => style.word e.toFloat
  | .text _ => fun e => (Text.quoted e.display).toList

/-- The positions shown of an axis of length `n`; `none` stands for those left out. -/
def positions (summary : Bool) (n : Nat) : List (Option Nat) :=
  if summary ∧ 2 * page.edge < n then
    (List.range page.edge).map some ++ none ::
      (List.range page.edge).map fun i => some (n - page.edge + i)
  else (List.range n).map some

/-- The offsets of the elements shown. -/
def shownOffsets (summary : Bool) : List Axis → Nat → List Nat
  | [], offset => [offset]
  | a :: rest, offset =>
    (positions summary a.length).flatMap fun
      | some i => shownOffsets summary rest (offset + i * a.stride)
      | none => []

/-- Words on lines of at most `width` characters, if a word is not longer; lines but the first
start after `indent` blanks, and all but the last end with their last word. `line` is the line
written so far. -/
def wrap (indent width : Nat) (line : List Char) : List (List Char) → List Char
  | [] => line
  | w :: rest =>
    let blank := if rest.isEmpty then [] else [' ']
    if width < line.length + w.length ∧ indent < line.length then
      Text.trimRight line ++
        '\n' :: wrap indent width (List.replicate indent ' ' ++ w ++ blank) rest
    else wrap indent width (line ++ w ++ blank) rest

/-- The text of the part of an array below `depth` axes that starts at `offset`. -/
def part (summary : Bool) (write : Nat → List Char) (depth : Nat) :
    List Axis → Nat → List Char
  | [], offset => write offset
  | [a], offset =>
    let indent := depth + 1
    let words := (positions summary a.length).map fun
      | some i => write (offset + i * a.stride)
      | none => "...".toList
    let row := wrap indent (page.width - indent) (List.replicate indent ' ') words
    '[' :: row.drop indent ++ [']']
  | a :: b :: rest, offset =>
    let parts := (positions summary a.length).map fun
      | some i => part summary write (depth + 1) (b :: rest) (offset + i * a.stride)
      | none => "...".toList
    let gap := List.replicate (rest.length + 1) '\n' ++ List.replicate (depth + 1) ' '
    '[' :: gap.intercalate parts ++ [']']

/-- The text of an array. One without axes is written like its element. -/
def text (store : Store) (t : Tensor) : String :=
  let cells := t.cells store
  let axes := t.layout.axes
  let element (i : Nat) : Elem := cells.data.getD i default
  if axes.isEmpty then (element t.layout.offset).display
  else if t.size = 0 then "[]"
  else
    let summary := decide (page.threshold < t.size)
    let shown := (shownOffsets summary axes t.layout.offset).map element
    let write := word cells.kind shown
    String.ofList (part summary (fun i => write (element i)) 0 axes t.layout.offset)

end Tensor

end MatScript
