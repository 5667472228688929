import MatScript.Number.Text
import MatScript.Text.Lines
import MatScript.Value.Arith

/-! Tables with a frame, whose columns are aligned by what they hold. -/
namespace MatScript

/-- What a table has in a cell. -/
inductive Cell where
  | int (n : Int)
  | float (x : Float)
  | text (s : String)
  deriving Inhabited

/-- What a column holds, from the most special to the most general. -/
inductive ColumnType where
  | truth | int | float | text
  deriving DecidableEq, Repr, Inhabited

namespace ColumnType

def rank : ColumnType → Nat
  | truth => 0
  | int => 1
  | float => 2
  | text => 3

/-- The more general of two. -/
def join (a b : ColumnType) : ColumnType := if a.rank < b.rank then b else a

def isNumeric : ColumnType → Bool
  | int | float => true
  | _ => false

end ColumnType

/-- The integer that a text spells with at most as many digits as can be read. -/
def shortInt? (s : String) : Option Int :=
  (Number.readInt? s).filter fun n => n.natAbs < Value.digitLimit

/-- The float that a text spells. An infinity and what is no number are spelt in one way only. -/
def plainFloat? (s : String) : Option Float :=
  (Number.readFloat? s).filter fun x =>
    (Number.decode? x).isSome || ["inf", "-inf", "nan"].contains s.toLower

namespace Cell

/-- A text that spells a number counts as one. -/
def columnType : Cell → ColumnType
  | int _ => .int
  | float _ => .float
  | text s =>
    if s = "True" ∨ s = "False" then .truth
    else if (shortInt? s).isSome then .int
    else if (plainFloat? s).isSome then .float
    else .text

def plainText : Cell → String
  | int n => toString n
  | float x => Number.floatText x
  | text s => s

def toFloat : Cell → Except RunError Float
  | int n => floatOfInt n
  | float x => .ok x
  | text s =>
    match Number.readFloat? s with
    | some x => .ok x
    | none => .error (.noFloat s)

/-- The text of a cell in a column. -/
def textIn (type : ColumnType) (c : Cell) : Except RunError String :=
  match type with
  | .float => do return Number.generalText (← c.toFloat)
  | _ => .ok c.plainText

end Cell

namespace Table

/-- How many characters a number has after its point or, without one, after its exponent's mark. -/
def decimals? (s : List Char) : Option Nat :=
  if (shortInt? (String.ofList s)).isSome ∨ (plainFloat? (String.ofList s)).isNone then none
  else
    let tail := s.reverse.takeWhile (· ≠ '.')
    if tail.length < s.length then some tail.length
    else
      let tail := s.reverse.takeWhile fun c => c ≠ 'e' && c ≠ 'E'
      if tail.length < s.length then some tail.length else none

/-- Add blanks so that the points of numbers stand under each other. -/
def alignPoints (cells : List (List Char)) : List (List Char) :=
  let places (s : List Char) : Nat := ((decimals? s).map (· + 1)).getD 0
  let most := (cells.map places).foldl max 0
  cells.map fun s => s ++ List.replicate (most - places s) ' '

def padLeft (width : Nat) (s : List Char) : List Char := List.replicate (width - s.length) ' ' ++ s

def padRight (width : Nat) (s : List Char) : List Char := s ++ List.replicate (width - s.length) ' '

/-- A column: its head, the lines of each of its cells, and their common width. -/
structure Column where
  width : Nat
  head : List Char
  cells : List (List (List Char))

/-- A column is at least two characters wider than its head. -/
def headMargin : Nat := 2

/-- Lay out a column. Numbers stand to the right, anything else to the left and without the blanks
around it. Cells may have several lines in a table that has such cells at all. -/
def Column.layOut (multiline : Bool) (head : String) (cells : List Cell) :
    Except RunError Column := do
  let type := (cells.map Cell.columnType).foldl ColumnType.join .truth
  let texts := (← cells.mapM (Cell.textIn type)).map String.toList
  let numeric := type.isNumeric && !cells.isEmpty
  let texts := if numeric then alignPoints texts else texts.map Text.trim
  let breadth (s : List Char) : Nat := if multiline then Text.breadth s else s.length
  let width := (texts.map breadth).foldl max (head.length + headMargin)
  let pad := if numeric then padLeft width else padRight width
  let lines (s : List Char) : List (List Char) :=
    if multiline then (Text.lines s).map pad else [pad s]
  return ⟨width, pad head.toList, texts.map lines⟩

/-- The characters of a rule: at its start, within it, at a column's edge and at its end. -/
structure Rule where
  first : Char
  fill : Char
  edge : Char
  last : Char

def Rule.draw (r : Rule) (widths : List Nat) : List Char :=
  let runs := widths.map fun w => List.replicate (w + 2) r.fill
  r.first :: [r.edge].intercalate runs ++ [r.last]

def top : Rule := ⟨'╒', '═', '╤', '╕'⟩
def underHead : Rule := ⟨'╞', '═', '╪', '╡'⟩
def betweenRows : Rule := ⟨'├', '─', '┼', '┤'⟩
def bottom : Rule := ⟨'╘', '═', '╧', '╛'⟩

/-- A line of cells, with a blank on each side of every cell. -/
def drawLine (cells : List (List Char)) : List Char :=
  '│' :: ['│'].intercalate (cells.map fun s => ' ' :: s ++ [' ']) ++ ['│']

/-- The lines of a row, whose cells are filled up with blank lines. -/
def drawRow (columns : List Column) (row : Nat) : List (List Char) :=
  let cells := columns.map fun c => (c.width, c.cells.getD row [])
  let height := (cells.map fun c => c.2.length).foldl max 0
  (List.range height).map fun i : Nat =>
    drawLine (cells.map fun c => c.2.getD i (List.replicate c.1 ' '))

/-- The text of a table, with newlines between its lines. -/
def render (heads : List String) (rows : List (List Cell)) : Except RunError String := do
  let multiline := rows.any fun row => row.any fun c => Text.hasBreak c.plainText.toList
  let column (i : Nat) (head : String) : Except RunError Column :=
    Column.layOut multiline head (rows.filterMap (·[i]?))
  let columns ← heads.zipIdx.mapM fun (head, i) => column i head
  let widths := columns.map Column.width
  let drawn := (List.range rows.length).map (drawRow columns)
  let body := [betweenRows.draw widths].intercalate drawn
  let lines := top.draw widths :: drawLine (columns.map Column.head) :: underHead.draw widths
    :: body ++ [bottom.draw widths]
  return String.ofList (['\n'].intercalate lines)

end Table

end MatScript
