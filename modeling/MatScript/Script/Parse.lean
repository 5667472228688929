import MatScript.Script
import MatScript.Token.Scan

/-! Parsing, token by token. The parser keeps a stack of the constructs that are still open; every
token either fits what is open or is refused, so a script is refused at the first token that no
script could have there. -/
namespace MatScript

namespace Symbol

/-- How tightly an operator between two operands binds: comparisons, which do not chain, then
sums, then products. -/
def level? : Symbol → Option Nat
  | equals | notEquals | greater | less | greaterEqual | lessEqual => some 0
  | plus | minus | dotPlus | dotMinus => some 1
  | times | divide | dotTimes | dotDivide => some 2
  | _ => none

def isAssignment : Symbol → Bool
  | assign | assignPlus | assignMinus | assignTimes | assignDivide => true
  | _ => false

end Symbol

namespace Parse

/-- A construct that is still open, with the line of its first token. Lists hold what has been
read so far, the last item first. -/
inductive Frame where
  | negate (line : Nat)
  | binary (symbol : Symbol) (left : Expr)
  | vector (line : Nat) (items : List Expr)
  | element (id : String) (idLine line : Nat) (isTarget : Bool) (items : List Expr)
  | call (function : Keyword) (line : Nat) (items : List Expr)
  | assign (target : Expr) (symbol : Symbol)
  | print (line : Nat) (items : List Expr)
  | result (line : Nat)
  | whileCondition (line : Nat)
  | ifCondition (line : Nat)
  | rangeStart (line : Nat) (id : String)
  | rangeStop (line : Nat) (id : String) (start : Expr)
  | whileBody (line : Nat) (condition : Expr)
  | forBody (line : Nat) (id : String) (range : Expr)
  | thenBranch (line : Nat) (condition : Expr)
  | elseBranch (line : Nat) (condition : Expr) (yes : Stmt)
  | block (line : Nat) (first : Option Nat) (body : List Stmt)

/-- What the next token may be. -/
inductive Mode where
  /-- A statement starts, or the list of statements around it ends. -/
  | statement
  /-- An operand starts. -/
  | operand
  /-- An operand has been read: an operator follows, or the expression ends. -/
  | operator (left : Expr)
  /-- A name has been read: indices may follow. -/
  | word (id : String) (line : Nat) (isTarget : Bool)
  /-- The left side of an assignment has been read. -/
  | target (e : Expr)
  /-- A round bracket opens the construct. -/
  | opening (frame : Frame)
  | loopName (line : Nat)
  | loopAssign (line : Nat) (id : String)
  /-- The end of an instruction without arguments. -/
  | jump (line : Nat) (keyword : Keyword)
  /-- A first branch has been read: `else` may follow. -/
  | choice (yes : Stmt) (span : Span)

/-- The statements read so far with the line of their first token, the open constructs, innermost
first, and what may follow. -/
structure State where
  first : Option Nat := none
  body : List Stmt := []
  stack : List Frame := []
  mode : Mode := .statement

/-- Complete the operators that bind at least as tightly as `level`. -/
def closeOperators (level : Nat) : List Frame → Expr → Expr × List Frame
  | [], e => (e, [])
  | frame :: rest, e =>
    match frame with
    | .negate line => closeOperators level rest (.operator ⟨line, e.span.last⟩ "u-" [e])
    | .binary symbol left =>
      if level ≤ symbol.level?.getD 0 then
        closeOperators level rest
          (.operator ⟨left.span.first, e.span.last⟩ symbol.spelling [left, e])
      else (e, frame :: rest)
    | _ => (e, frame :: rest)

namespace State

/-- Add a complete statement to the innermost construct. Loops and second branches end with it; a
first branch ends with it only if no `else` can follow. -/
def finish (st : State) (final : Bool) (s : Stmt) (span : Span) : List Frame → State
  | [] =>
    { first := some (st.first.getD span.first), body := s :: st.body, stack := [],
      mode := .statement }
  | frame :: rest =>
    match frame with
    | .whileBody line condition =>
      let span := ⟨line, span.last⟩
      finish st final (.whileLoop span condition s) span rest
    | .forBody line id range =>
      let span := ⟨line, span.last⟩
      finish st final (.forLoop span id span range s) span rest
    | .elseBranch line condition yes =>
      let span := ⟨line, span.last⟩
      finish st final (.ifElse span condition yes s) span rest
    | .thenBranch line condition =>
      if final then
        let span := ⟨line, span.last⟩
        finish st final (.ifThen span condition s) span rest
      else { st with stack := frame :: rest, mode := .choice s span }
    | .block line first body =>
      { st with
        stack := .block line (some (first.getD span.first)) (s :: body) :: rest
        mode := .statement }
    | _ => { st with stack := frame :: rest, mode := .statement }

/-- The construct on top replaced, and what may follow. -/
def goOn (st : State) (stack : List Frame) (mode : Mode) : Option State :=
  some { st with stack, mode }

/-- A token where a statement starts or a list of statements ends. -/
def feedStatement (st : State) (t : Token) : Option State :=
  match t.lexeme with
  | .name id => st.goOn st.stack (.word id t.line true)
  | .symbol .curlyLeft => st.goOn (.block t.line none [] :: st.stack) .statement
  | .symbol .curlyRight =>
    match st.stack with
    | .block line first body :: rest =>
      some (st.finish false (.block ⟨first.getD t.line, t.line⟩ body.reverse) ⟨line, t.line⟩ rest)
    | _ => none
  | .keyword .print => st.goOn (.print t.line [] :: st.stack) .operand
  | .keyword .break => st.goOn st.stack (.jump t.line .break)
  | .keyword .continue => st.goOn st.stack (.jump t.line .continue)
  | .keyword .return => st.goOn (.result t.line :: st.stack) .operand
  | .keyword .while => st.goOn st.stack (.opening (.whileCondition t.line))
  | .keyword .if => st.goOn st.stack (.opening (.ifCondition t.line))
  | .keyword .for => st.goOn st.stack (.loopName t.line)
  | _ => none

/-- A token where an operand starts. -/
def feedOperand (st : State) (t : Token) : Option State :=
  let constant (value : Constant) := st.goOn st.stack (.operator (.constant ⟨t.line, t.line⟩ value))
  match t.lexeme with
  | .int n => constant (.int n)
  | .float x => constant (.float x)
  | .text s => constant (.text s)
  | .keyword .true => constant (.bool true)
  | .keyword .false => constant (.bool false)
  | .keyword .eye => st.goOn st.stack (.opening (.call .eye t.line []))
  | .keyword .zeros => st.goOn st.stack (.opening (.call .zeros t.line []))
  | .keyword .ones => st.goOn st.stack (.opening (.call .ones t.line []))
  | .symbol .minus => st.goOn (.negate t.line :: st.stack) .operand
  | .symbol .squareLeft => st.goOn (.vector t.line [] :: st.stack) .operand
  | .name id => st.goOn st.stack (.word id t.line false)
  | _ => none

/-- A token that ends the expression `e`, which is complete, in the construct on top. -/
def feedEnd (st : State) (stack : List Frame) (e : Expr) (t : Token) : Option State :=
  match stack with
  | .vector line items :: rest =>
    match t.lexeme with
    | .symbol .comma => st.goOn (.vector line (e :: items) :: rest) .operand
    | .symbol .squareRight =>
      st.goOn rest (.operator (.vector ⟨line, t.line⟩ (e :: items).reverse))
    | _ => none
  | .element id idLine line isTarget items :: rest =>
    match t.lexeme with
    | .symbol .comma => st.goOn (.element id idLine line isTarget (e :: items) :: rest) .operand
    | .symbol .squareRight =>
      let element := .element ⟨idLine, t.line⟩ id ⟨idLine, idLine⟩ (e :: items).reverse
        ⟨line, t.line⟩
      st.goOn rest (if isTarget then .target element else .operator element)
    | _ => none
  | .call function line items :: rest =>
    match t.lexeme with
    | .symbol .comma => st.goOn (.call function line (e :: items) :: rest) .operand
    | .symbol .roundRight =>
      st.goOn rest (.operator (.call ⟨line, t.line⟩ function.spelling (e :: items).reverse))
    | _ => none
  | .assign target symbol :: rest =>
    match t.lexeme with
    | .symbol .semicolon =>
      let span := ⟨target.span.first, t.line⟩
      let s := if symbol = .assign then .assign span target e
        else .update span symbol.spelling target e
      some (st.finish false s span rest)
    | _ => none
  | .print line items :: rest =>
    match t.lexeme with
    | .symbol .comma => st.goOn (.print line (e :: items) :: rest) .operand
    | .symbol .semicolon =>
      let span := ⟨line, t.line⟩
      some (st.finish false
        (.instruction span Keyword.print.spelling (e :: items).reverse) span rest)
    | _ => none
  | .result line :: rest =>
    match t.lexeme with
    | .symbol .semicolon =>
      let span := ⟨line, t.line⟩
      some (st.finish false (.instruction span Keyword.return.spelling [e]) span rest)
    | _ => none
  | .whileCondition line :: rest =>
    match t.lexeme with
    | .symbol .roundRight => st.goOn (.whileBody line e :: rest) .statement
    | _ => none
  | .ifCondition line :: rest =>
    match t.lexeme with
    | .symbol .roundRight => st.goOn (.thenBranch line e :: rest) .statement
    | _ => none
  | .rangeStart line id :: rest =>
    match t.lexeme with
    | .symbol .colon => st.goOn (.rangeStop line id e :: rest) .operand
    | _ => none
  | .rangeStop line id start :: rest =>
    let range := .range ⟨start.span.first, e.span.last⟩ start e
    feedStatement { st with stack := .forBody line id range :: rest } t
  | _ => none

/-- A token after the operand `e`. -/
def feedOperator (st : State) (e : Expr) (t : Token) : Option State :=
  let close : Option State :=
    let (e, stack) := closeOperators 0 st.stack e
    st.feedEnd stack e t
  match t.lexeme with
  | .symbol .apostrophe =>
    st.goOn st.stack
      (.operator (.operator ⟨e.span.first, t.line⟩ Symbol.apostrophe.spelling [e]))
  | .symbol symbol =>
    match symbol.level? with
    | none => close
    | some level =>
      match closeOperators (max level 1) st.stack e with
      | (e, .binary symbol' left :: rest) =>
        if level = 0 then none
        else st.goOn (.binary symbol e :: .binary symbol' left :: rest) .operand
      | (e, stack) => st.goOn (.binary symbol e :: stack) .operand
  | _ => close

/-- A token after the left side of an assignment. -/
def feedTarget (st : State) (e : Expr) (t : Token) : Option State :=
  match t.lexeme with
  | .symbol symbol =>
    if symbol.isAssignment then st.goOn (.assign e symbol :: st.stack) .operand else none
  | _ => none

/-- Take one more token, unless it does not fit. -/
def feed (st : State) (t : Token) : Option State :=
  match st.mode with
  | .statement => st.feedStatement t
  | .operand => st.feedOperand t
  | .operator e => st.feedOperator e t
  | .word id line isTarget =>
    match t.lexeme with
    | .symbol .squareLeft => st.goOn (.element id line t.line isTarget [] :: st.stack) .operand
    | _ =>
      let e := .name ⟨line, line⟩ id
      if isTarget then st.feedTarget e t else st.feedOperator e t
  | .target e => st.feedTarget e t
  | .opening frame =>
    match t.lexeme with
    | .symbol .roundLeft => st.goOn (frame :: st.stack) .operand
    | _ => none
  | .loopName line =>
    match t.lexeme with
    | .name id => st.goOn st.stack (.loopAssign line id)
    | _ => none
  | .loopAssign line id =>
    match t.lexeme with
    | .symbol .assign => st.goOn (.rangeStart line id :: st.stack) .operand
    | _ => none
  | .jump line keyword =>
    match t.lexeme with
    | .symbol .semicolon =>
      let span := ⟨line, t.line⟩
      some (st.finish false (.instruction span keyword.spelling []) span st.stack)
    | _ => none
  | .choice yes span =>
    match t.lexeme, st.stack with
    | .keyword .else, .thenBranch line condition :: rest =>
      st.goOn (.elseBranch line condition yes :: rest) .statement
    | _, stack => (st.finish true yes span stack).feedStatement t

/-- Take all tokens, up to the first that does not fit. -/
def feedAll (st : State) : List Token → Except Token State
  | [] => .ok st
  | t :: ts =>
    match st.feed t with
    | none => .error t
    | some st => st.feedAll ts

/-- The whole script, if nothing is open, that ends on the given line. -/
def script? (st : State) (line : Nat) : Option Stmt :=
  let st := match st.mode with
    | .choice yes span => st.finish true yes span st.stack
    | _ => st
  match st.mode, st.stack with
  | .statement, [] => some (.block ⟨st.first.getD line, line⟩ st.body.reverse)
  | _, _ => none

end State

/-- Why a text is not a script. -/
inductive Error where
  | unexpected (t : Token)
  | unexpectedEnd
  | illegal (c : Char) (line : Nat)
  | tooLong (digits : Nat)

/-- The outcome of parsing, and the line that reading has reached. -/
structure Outcome where
  script : Except Error Stmt
  line : Nat

/-- Parse the tokens of a scan. Tokens are read one by one: one that does not fit is reported
before a fault further on in the text. -/
def ofScan (scan : Token.Scan) : Outcome :=
  match ({} : State).feedAll scan.tokens with
  | .error t => ⟨.error (.unexpected t), t.line⟩
  | .ok st =>
    let script := match scan.ending with
      | .illegal c => .error (.illegal c scan.line)
      | .tooLong digits => .error (.tooLong digits)
      | .finished =>
        match st.script? scan.line with
        | some s => .ok s
        | none => .error .unexpectedEnd
    ⟨script, scan.line⟩

end Parse

/-- Parse a text whose first line has the given number. -/
def Script.parse (line : Nat) (text : String) : Parse.Outcome := Parse.ofScan (Token.scan line text)

end MatScript
