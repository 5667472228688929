import MatScript.Script
import MatScript.Number.Text

/-! The outline of a script: one line for each node, its children below it and further in. The limit
to nesting that a bounded stack sets is left out: scripts are outlined however deep they are
nested. -/
namespace MatScript

/-- A labelled tree, in which some nodes may be gaps. -/
inductive Outline where
  | node (label : String) (children : List Outline)
  | gap (what : Gap)
  deriving Inhabited

namespace Outline

/-- A gap has no label. -/
def label : Outline → Except Gap String
  | node l _ => .ok l
  | gap what => .error what

def children : Outline → List Outline
  | node _ cs => cs
  | gap _ => []

/-- The labels of the nodes directly below. -/
def childLabels (o : Outline) : Except Gap (List String) :=
  match o with
  | node _ cs => cs.mapM label
  | gap what => .error what

/-- A label of several lines, each under the one before. -/
def hang (margin label : String) : String := label.replace "\n" ("⏎\n" ++ margin)

mutual

/-- The lines under a node whose own children are drawn after `margin`. -/
def lines (margin : String) : Outline → Except Gap (List String)
  | node _ cs => linesAll margin cs
  | gap what => .error what

/-- The lines of a list of siblings, the last of which is drawn with a corner. -/
def linesAll (margin : String) : List Outline → Except Gap (List String)
  | [] => .ok []
  | c :: rest => do
    let (mark, inner) := if rest.isEmpty then ("└── ", "    ") else ("├── ", "│   ")
    let inner := margin ++ inner
    let line := margin ++ mark ++ hang inner (← c.label)
    return line :: (← lines inner c) ++ (← linesAll margin rest)

end

/-- The whole outline, every line ended by a newline. -/
def render (o : Outline) : Except Gap String := do
  return "\n".intercalate ((← o.label) :: (← o.lines "") ++ [""])

end Outline

/-- How the lines of a node are shown after its name. -/
structure SpanStyle where
  before : String
  after : String

namespace SpanStyle

def plain : SpanStyle := ⟨"", ""⟩

/-- Dark grey on a terminal of 256 colours. -/
def grey : SpanStyle := ⟨"\x1b[38;5;237m", "\x1b[0m"⟩

def render (style : SpanStyle) (s : Span) : String :=
  style.before ++ s!" [{s.first}-{s.last}]" ++ style.after

end SpanStyle

namespace Constant

def display : Constant → String
  | none => "None"
  | bool b => if b then "True" else "False"
  | int n => toString n
  | float x => Number.floatText x
  | text s => s

end Constant

/-- The label of a node: its name and its lines. -/
def outlineLabel (style : SpanStyle) (name : String) (s : Span) : String :=
  name ++ " " ++ style.render s

mutual

/-- The outline of an expression. Indices have a node of their own. -/
def Expr.outline (style : SpanStyle) : Expr → Outline
  | .constant s value => .node (outlineLabel style value.display s) []
  | .vector s items => .node (outlineLabel style "VECTOR" s) (Expr.outlineAll style items)
  | .range s start stop =>
    .node (outlineLabel style "RANGE" s) [start.outline style, stop.outline style]
  | .operator s symbol operands =>
    .node (outlineLabel style symbol s) (Expr.outlineAll style operands)
  | .call s function arguments =>
    .node (outlineLabel style function s) (Expr.outlineAll style arguments)
  | .name s id => .node (outlineLabel style id s) []
  | .element s id _ indices indexSpan =>
    .node (outlineLabel style id s)
      [.node (outlineLabel style "SELECTOR" indexSpan) (Expr.outlineAll style indices)]
  | .gap _ what => .gap what

def Expr.outlineAll (style : SpanStyle) : List Expr → List Outline
  | [] => []
  | e :: es => e.outline style :: Expr.outlineAll style es

end

mutual

/-- The outline of a statement. The branches of an `if` have a node of their own. -/
def Stmt.outline (style : SpanStyle) : Stmt → Outline
  | .block s body => .node (outlineLabel style "┐" s) (Stmt.outlineAll style body)
  | .assign s target value =>
    .node (outlineLabel style "=" s) [target.outline style, value.outline style]
  | .update s symbol target value =>
    .node (outlineLabel style symbol s) [target.outline style, value.outline style]
  | .instruction s name arguments =>
    .node (outlineLabel style name s) (Expr.outlineAll style arguments)
  | .whileLoop s condition body =>
    .node (outlineLabel style "WHILE" s) [condition.outline style, body.outline style]
  | .forLoop s id idSpan range body =>
    .node (outlineLabel style "FOR" s)
      [.node (outlineLabel style id idSpan) [], range.outline style, body.outline style]
  | .ifThen s condition yes =>
    .node (outlineLabel style "IF" s)
      [condition.outline style, .node (outlineLabel style "THEN" yes.span) [yes.outline style]]
  | .ifElse s condition yes no =>
    .node (outlineLabel style "IF" s)
      [condition.outline style, .node (outlineLabel style "THEN" yes.span) [yes.outline style],
        .node (outlineLabel style "ELSE" no.span) [no.outline style]]
  | .expr e => e.outline style

def Stmt.outlineAll (style : SpanStyle) : List Stmt → List Outline
  | [] => []
  | t :: ts => t.outline style :: Stmt.outlineAll style ts

end

end MatScript
