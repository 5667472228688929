/-! Lines of a text. -/
namespace MatScript.Text

/-- Every way to end a line becomes a newline. -/
def unifyNewlines : List Char → List Char
  | '\r' :: '\n' :: rest => '\n' :: unifyNewlines rest
  | '\r' :: rest => '\n' :: unifyNewlines rest
  | c :: rest => c :: unifyNewlines rest
  | [] => []

def isLineEnd (c : Char) : Bool :=
  let n := c.toNat
  (0x0a ≤ n && n ≤ 0x0d) || (0x1c ≤ n && n ≤ 0x1e) || n = 0x85 || n = 0x2028 || n = 0x2029

/-- The lines of a text, without their ends, after the reversed start of the first. -/
def linesFrom (start : List Char) : List Char → List (List Char)
  | [] => if start.isEmpty then [] else [start.reverse]
  | '\r' :: '\n' :: rest => start.reverse :: linesFrom [] rest
  | c :: rest =>
    if isLineEnd c then start.reverse :: linesFrom [] rest else linesFrom (c :: start) rest

/-- The lines of a text, without their ends. -/
def lines (cs : List Char) : List (List Char) := linesFrom [] cs

/-- Whether a text has a newline or a carriage return. -/
def hasBreak (cs : List Char) : Bool := cs.any fun c => c = '\n' || c = '\r'

/-- The most characters between newlines or carriage returns. -/
def breadth (cs : List Char) : Nat :=
  let (run, most) := cs.foldl
    (fun (run, most) c => if c = '\n' ∨ c = '\r' then (0, max run most) else (run + 1, most))
    (0, 0)
  max run most

end MatScript.Text
