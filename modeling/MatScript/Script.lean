/-! Scripts as trees of expressions and statements. Operators, functions and instructions are kept
by name; each stage that works on a tree says which names it knows. -/
namespace MatScript

/-- The first and the last line that a part of a script stands on. -/
structure Span where
  first : Nat
  last : Nat
  deriving DecidableEq, Repr, Inhabited

/-- The value of a constant. -/
inductive Constant where
  | none
  | bool (b : Bool)
  | int (n : Int)
  | float (x : Float)
  | text (s : String)
  deriving Inhabited

/-- A place in a tree that is left open: any node, an expression, a statement or a variable. No
stage can work on it. -/
inductive Gap where
  | anyNode | expression | statement | target
  deriving DecidableEq, Repr, Inhabited

inductive Expr where
  | constant (span : Span) (value : Constant)
  | vector (span : Span) (items : List Expr)
  | range (span : Span) (start stop : Expr)
  | operator (span : Span) (symbol : String) (operands : List Expr)
  | call (span : Span) (function : String) (arguments : List Expr)
  | name (span : Span) (id : String)
  /-- An element or a part of the array `id`, with the spans of that name and of the indices. -/
  | element (span : Span) (id : String) (idSpan : Span) (indices : List Expr) (indexSpan : Span)
  | gap (span : Span) (what : Gap)
  deriving Inhabited

inductive Stmt where
  | block (span : Span) (body : List Stmt)
  | assign (span : Span) (target value : Expr)
  | update (span : Span) (symbol : String) (target value : Expr)
  | instruction (span : Span) (name : String) (arguments : List Expr)
  | whileLoop (span : Span) (condition : Expr) (body : Stmt)
  | forLoop (span : Span) (id : String) (idSpan : Span) (range : Expr) (body : Stmt)
  | ifThen (span : Span) (condition : Expr) (yes : Stmt)
  | ifElse (span : Span) (condition : Expr) (yes no : Stmt)
  /-- An expression in the place of a statement. -/
  | expr (e : Expr)
  deriving Inhabited

def Expr.span : Expr → Span
  | constant s _ | vector s _ | range s _ _ | operator s _ _ | call s _ _ | name s _
  | element s _ _ _ _ | gap s _ => s

def Stmt.span : Stmt → Span
  | block s _ | assign s _ _ | update s _ _ _ | instruction s _ _ | whileLoop s _ _
  | forLoop s _ _ _ _ | ifThen s _ _ | ifElse s _ _ _ => s
  | expr e => e.span

mutual

/-- The same expression with every span replaced. The name that an element is taken from keeps
its own. -/
def Expr.withSpan (s : Span) : Expr → Expr
  | .constant _ value => .constant s value
  | .vector _ items => .vector s (Expr.withSpanAll s items)
  | .range _ start stop => .range s (start.withSpan s) (stop.withSpan s)
  | .operator _ symbol operands => .operator s symbol (Expr.withSpanAll s operands)
  | .call _ function arguments => .call s function (Expr.withSpanAll s arguments)
  | .name _ id => .name s id
  | .element _ id idSpan indices _ => .element s id idSpan (Expr.withSpanAll s indices) s
  | .gap _ what => .gap s what

def Expr.withSpanAll (s : Span) : List Expr → List Expr
  | [] => []
  | e :: es => e.withSpan s :: Expr.withSpanAll s es

end

mutual

def Stmt.withSpan (s : Span) : Stmt → Stmt
  | .block _ body => .block s (Stmt.withSpanAll s body)
  | .assign _ target value => .assign s (target.withSpan s) (value.withSpan s)
  | .update _ symbol target value => .update s symbol (target.withSpan s) (value.withSpan s)
  | .instruction _ name arguments => .instruction s name (Expr.withSpanAll s arguments)
  | .whileLoop _ condition body => .whileLoop s (condition.withSpan s) (body.withSpan s)
  | .forLoop _ id _ range body => .forLoop s id s (range.withSpan s) (body.withSpan s)
  | .ifThen _ condition yes => .ifThen s (condition.withSpan s) (yes.withSpan s)
  | .ifElse _ condition yes no =>
    .ifElse s (condition.withSpan s) (yes.withSpan s) (no.withSpan s)
  | .expr e => .expr (e.withSpan s)

def Stmt.withSpanAll (s : Span) : List Stmt → List Stmt
  | [] => []
  | t :: ts => t.withSpan s :: Stmt.withSpanAll s ts

end

end MatScript
