import Mathlib
import MatScript.Script.Parse

/-! The grammar of scripts: how a tree is written as lexemes, and the trees in normal form, which
are those that a script without round brackets around operands can express. -/
namespace MatScript

namespace Symbol

def all : List Symbol :=
  [plus, minus, times, divide, dotPlus, dotMinus, dotTimes, dotDivide, equals, notEquals, greater,
    less, greaterEqual, lessEqual, assign, assignPlus, assignMinus, assignTimes, assignDivide,
    semicolon, comma, apostrophe, colon, roundLeft, roundRight, squareLeft, squareRight, curlyLeft,
    curlyRight]

/-- The symbol that a text spells. -/
def ofSpelling? (text : String) : Option Symbol := all.find? (·.spelling = text)

@[simp] lemma ofSpelling?_spelling (s : Symbol) : ofSpelling? s.spelling = some s := by
  cases s <;> decide

lemma spelling_ne_negation (s : Symbol) : s.spelling ≠ "u-" := by
  cases s <;> decide

lemma level?_le_two {s : Symbol} {k : Nat} (h : s.level? = some k) : k ≤ 2 := by
  cases s <;> simp [level?] at h <;> omega

end Symbol

namespace Keyword

@[simp] lemma ofName?_spelling (k : Keyword) : ofName? k.spelling = some k := by
  cases k <;> decide

/-- The functions that make a matrix. -/
def MakesMatrix (k : Keyword) : Prop := k = eye ∨ k = zeros ∨ k = ones

/-- The instructions that leave a round of a loop. -/
def LeavesRound (k : Keyword) : Prop := k = .break ∨ k = .continue

end Keyword

/-! ## Trees without their lines -/

mutual

/-- The same expression with every span erased. -/
def Expr.bare : Expr → Expr
  | .constant _ value => .constant default value
  | .vector _ items => .vector default (Expr.bareAll items)
  | .range _ start stop => .range default start.bare stop.bare
  | .operator _ symbol operands => .operator default symbol (Expr.bareAll operands)
  | .call _ function arguments => .call default function (Expr.bareAll arguments)
  | .name _ id => .name default id
  | .element _ id _ indices _ => .element default id default (Expr.bareAll indices) default
  | .gap _ what => .gap default what

def Expr.bareAll : List Expr → List Expr
  | [] => []
  | e :: es => e.bare :: Expr.bareAll es

end

mutual

/-- The same statement with every span erased. -/
def Stmt.bare : Stmt → Stmt
  | .block _ body => .block default (Stmt.bareAll body)
  | .assign _ target value => .assign default target.bare value.bare
  | .update _ symbol target value => .update default symbol target.bare value.bare
  | .instruction _ name arguments => .instruction default name (Expr.bareAll arguments)
  | .whileLoop _ condition body => .whileLoop default condition.bare body.bare
  | .forLoop _ id _ range body => .forLoop default id default range.bare body.bare
  | .ifThen _ condition yes => .ifThen default condition.bare yes.bare
  | .ifElse _ condition yes no => .ifElse default condition.bare yes.bare no.bare
  | .expr e => .expr e.bare

def Stmt.bareAll : List Stmt → List Stmt
  | [] => []
  | s :: ss => s.bare :: Stmt.bareAll ss

end

lemma Expr.bareAll_eq_map (es : List Expr) : Expr.bareAll es = es.map Expr.bare := by
  induction es with
  | nil => rfl
  | cons e es ih => rw [Expr.bareAll, ih, List.map_cons]

lemma Stmt.bareAll_eq_map (ss : List Stmt) : Stmt.bareAll ss = ss.map Stmt.bare := by
  induction ss with
  | nil => rfl
  | cons s ss ih => rw [Stmt.bareAll, ih, List.map_cons]

/-! ## Lexemes of a tree -/

namespace Lexeme

/-- The lexeme of an operator given by its spelling. -/
def ofSymbol (text : String) : List Lexeme := (Symbol.ofSpelling? text).toList.map .symbol

/-- The lexeme of a function or an instruction given by its name. -/
def ofWordName (word : String) : List Lexeme := (Keyword.ofName? word).toList.map .keyword

/-- Items with commas between them. -/
def separated (items : List (List Lexeme)) : List Lexeme := [symbol .comma].intercalate items

/-- An operator with its operands. The sign in front of an operand has a name of its own. -/
def ofOperator (symbol : String) : List (List Lexeme) → List Lexeme
  | [operand] =>
    if symbol = "u-" then .symbol .minus :: operand else operand ++ ofSymbol symbol
  | [left, right] => left ++ ofSymbol symbol ++ right
  | _ => []

@[simp] lemma ofSymbol_spelling (s : Symbol) : ofSymbol s.spelling = [.symbol s] := by
  simp [ofSymbol]

@[simp] lemma ofWordName_spelling (k : Keyword) : ofWordName k.spelling = [.keyword k] := by
  simp [ofWordName]

end Lexeme

def Constant.lexemes : Constant → List Lexeme
  | .none => []
  | .bool b => [.keyword (if b then .true else .false)]
  | .int n => [.int n.toNat]
  | .float x => [.float x]
  | .text s => [.text s]

mutual

/-- The lexemes of an expression as it stands in a script. -/
def Expr.lexemes : Expr → List Lexeme
  | .constant _ value => value.lexemes
  | .vector _ items =>
    .symbol .squareLeft :: Lexeme.separated (Expr.lexemesAll items) ++ [.symbol .squareRight]
  | .range _ start stop => start.lexemes ++ .symbol .colon :: stop.lexemes
  | .operator _ symbol operands => Lexeme.ofOperator symbol (Expr.lexemesAll operands)
  | .call _ function arguments =>
    Lexeme.ofWordName function ++ .symbol .roundLeft ::
      Lexeme.separated (Expr.lexemesAll arguments) ++ [.symbol .roundRight]
  | .name _ id => [.name id]
  | .element _ id _ indices _ =>
    .name id :: .symbol .squareLeft :: Lexeme.separated (Expr.lexemesAll indices) ++
      [.symbol .squareRight]
  | .gap _ _ => []

def Expr.lexemesAll : List Expr → List (List Lexeme)
  | [] => []
  | e :: es => e.lexemes :: Expr.lexemesAll es

end

mutual

/-- The lexemes of a statement as it stands in a script. Blocks are in curly brackets. -/
def Stmt.lexemes : Stmt → List Lexeme
  | .block _ body => .symbol .curlyLeft :: Stmt.lexemesAll body ++ [.symbol .curlyRight]
  | .assign _ target value =>
    target.lexemes ++ .symbol .assign :: value.lexemes ++ [.symbol .semicolon]
  | .update _ symbol target value =>
    target.lexemes ++ Lexeme.ofSymbol symbol ++ value.lexemes ++ [.symbol .semicolon]
  | .instruction _ name arguments =>
    Lexeme.ofWordName name ++ Lexeme.separated (Expr.lexemesAll arguments) ++ [.symbol .semicolon]
  | .whileLoop _ condition body =>
    .keyword .while :: .symbol .roundLeft :: condition.lexemes ++ .symbol .roundRight :: body.lexemes
  | .forLoop _ id _ range body =>
    .keyword .for :: .name id :: .symbol .assign :: range.lexemes ++ body.lexemes
  | .ifThen _ condition yes =>
    .keyword .if :: .symbol .roundLeft :: condition.lexemes ++ .symbol .roundRight :: yes.lexemes
  | .ifElse _ condition yes no =>
    .keyword .if :: .symbol .roundLeft :: condition.lexemes ++ .symbol .roundRight :: yes.lexemes ++
      .keyword .else :: no.lexemes
  | .expr e => e.lexemes

def Stmt.lexemesAll : List Stmt → List Lexeme
  | [] => []
  | s :: ss => s.lexemes ++ Stmt.lexemesAll ss

end

/-- The lexemes of a whole script: the outermost block has no brackets. -/
def Stmt.scriptLexemes : Stmt → List Lexeme
  | .block _ body => Stmt.lexemesAll body
  | s => s.lexemes

lemma Expr.lexemesAll_eq_map (es : List Expr) : Expr.lexemesAll es = es.map Expr.lexemes := by
  induction es with
  | nil => rfl
  | cons e es ih => rw [Expr.lexemesAll, ih, List.map_cons]

lemma Stmt.lexemesAll_append (ss us : List Stmt) :
    Stmt.lexemesAll (ss ++ us) = Stmt.lexemesAll ss ++ Stmt.lexemesAll us := by
  induction ss with
  | nil => rfl
  | cons s ss ih => rw [List.cons_append, Stmt.lexemesAll, Stmt.lexemesAll, ih, List.append_assoc]

/-! ## Normal form -/

/-- How tightly an operator binds: comparisons, sums, products, the sign, transposition. -/
def operatorLevel (symbol : String) : Nat :=
  if symbol = "u-" then 3 else ((Symbol.ofSpelling? symbol).bind Symbol.level?).getD 4

/-- How tightly an expression holds together; what is no operator does so most. -/
def Expr.level : Expr → Nat
  | .operator _ symbol _ => operatorLevel symbol
  | _ => 5

/-- Whether operands of the given levels need no brackets. Comparisons do not chain, sums and
products group to the left. -/
def OperandsFit (symbol : String) : List Nat → Prop
  | [operand] => symbol = "u-" ∧ 3 ≤ operand ∨ symbol = Symbol.apostrophe.spelling ∧ 4 ≤ operand
  | [left, right] =>
    ∃ s k, symbol = Symbol.spelling s ∧ s.level? = some k ∧ max k 1 ≤ left ∧ k < right
  | _ => False

def Constant.Normal : Constant → Prop
  | .none => False
  | .int n => 0 ≤ n
  | _ => True

mutual

/-- The expressions that can be written. -/
def Expr.Normal : Expr → Prop
  | .constant _ value => value.Normal
  | .vector _ items => items ≠ [] ∧ Expr.NormalAll items
  | .operator _ symbol operands =>
    OperandsFit symbol (operands.map Expr.level) ∧ Expr.NormalAll operands
  | .call _ function arguments =>
    (∃ k : Keyword, k.MakesMatrix ∧ function = k.spelling) ∧ arguments ≠ [] ∧
      Expr.NormalAll arguments
  | .name _ _ => True
  | .element _ _ _ indices _ => indices ≠ [] ∧ Expr.NormalAll indices
  | .range _ _ _ | .gap _ _ => False

def Expr.NormalAll : List Expr → Prop
  | [] => True
  | e :: es => e.Normal ∧ Expr.NormalAll es

end

/-- The left side of an assignment. -/
def Expr.IsTarget : Expr → Prop
  | .name _ _ | .element _ _ _ _ _ => True
  | _ => False

/-- The numbers that a `for` loop runs over. -/
def Expr.NormalRange : Expr → Prop
  | .range _ start stop => start.Normal ∧ stop.Normal
  | _ => False

/-- Whether an instruction takes this many arguments. -/
def ArgumentsFit (name : String) (count : Nat) : Prop :=
  name = Keyword.print.spelling ∧ 0 < count ∨ name = Keyword.return.spelling ∧ count = 1 ∨
    (∃ k : Keyword, k.LeavesRound ∧ name = k.spelling) ∧ count = 0

/-- Whether a statement ends with a choice that an `else` could go on. -/
def Stmt.endsOpen : Stmt → Bool
  | .ifThen _ _ _ => true
  | .ifElse _ _ _ no => no.endsOpen
  | .whileLoop _ _ body | .forLoop _ _ _ _ body => body.endsOpen
  | _ => false

mutual

/-- The statements that can be written. -/
def Stmt.Normal : Stmt → Prop
  | .block _ body => Stmt.NormalAll body
  | .assign _ target value => target.IsTarget ∧ target.Normal ∧ value.Normal
  | .update _ symbol target value =>
    (∃ s : Symbol, s.isAssignment ∧ s ≠ .assign ∧ symbol = s.spelling) ∧ target.IsTarget ∧
      target.Normal ∧ value.Normal
  | .instruction _ name arguments =>
    ArgumentsFit name arguments.length ∧ Expr.NormalAll arguments
  | .whileLoop _ condition body => condition.Normal ∧ body.Normal
  | .forLoop _ _ _ range body => range.NormalRange ∧ body.Normal
  | .ifThen _ condition yes => condition.Normal ∧ yes.Normal
  | .ifElse _ condition yes no =>
    condition.Normal ∧ yes.Normal ∧ yes.endsOpen = false ∧ no.Normal
  | .expr _ => False

def Stmt.NormalAll : List Stmt → Prop
  | [] => True
  | s :: ss => s.Normal ∧ Stmt.NormalAll ss

end

/-- A whole script is a block of normal statements. -/
def Stmt.NormalScript : Stmt → Prop
  | .block _ body => Stmt.NormalAll body
  | _ => False

lemma Stmt.NormalScript.normal {s : Stmt} (h : s.NormalScript) : s.Normal := by
  cases s with
  | block _ _ => exact h
  | _ => exact h.elim

lemma Expr.normalAll_iff {es : List Expr} : Expr.NormalAll es ↔ ∀ e ∈ es, e.Normal := by
  induction es with
  | nil => simp [Expr.NormalAll]
  | cons e es ih => simp [Expr.NormalAll, ih]

lemma Stmt.normalAll_iff {ss : List Stmt} : Stmt.NormalAll ss ↔ ∀ s ∈ ss, s.Normal := by
  induction ss with
  | nil => simp [Stmt.NormalAll]
  | cons s ss ih => simp [Stmt.NormalAll, ih]

lemma Expr.NormalAll.reverse {es : List Expr} (h : Expr.NormalAll es) :
    Expr.NormalAll es.reverse :=
  Expr.normalAll_iff.2 fun e he => Expr.normalAll_iff.1 h e (List.mem_reverse.1 he)

lemma Stmt.NormalAll.reverse {ss : List Stmt} (h : Stmt.NormalAll ss) :
    Stmt.NormalAll ss.reverse :=
  Stmt.normalAll_iff.2 fun s hs => Stmt.normalAll_iff.1 h s (List.mem_reverse.1 hs)

/-! ## What does not depend on lines -/

@[simp] lemma Expr.level_bare (e : Expr) : e.bare.level = e.level := by
  cases e <;> rfl

lemma Expr.isTarget_bare {e : Expr} : e.bare.IsTarget ↔ e.IsTarget := by
  cases e <;> exact Iff.rfl

mutual

lemma Expr.lexemes_bare : ∀ e : Expr, e.bare.lexemes = e.lexemes
  | .constant _ _ | .name _ _ | .gap _ _ => rfl
  | .vector _ items => by rw [Expr.bare, Expr.lexemes, Expr.lexemes, Expr.lexemesAll_bare items]
  | .range _ start stop => by
    rw [Expr.bare, Expr.lexemes, Expr.lexemes, start.lexemes_bare, stop.lexemes_bare]
  | .operator _ _ operands => by
    rw [Expr.bare, Expr.lexemes, Expr.lexemes, Expr.lexemesAll_bare operands]
  | .call _ _ arguments => by
    rw [Expr.bare, Expr.lexemes, Expr.lexemes, Expr.lexemesAll_bare arguments]
  | .element _ _ _ indices _ => by
    rw [Expr.bare, Expr.lexemes, Expr.lexemes, Expr.lexemesAll_bare indices]

lemma Expr.lexemesAll_bare :
    ∀ es : List Expr, Expr.lexemesAll (Expr.bareAll es) = Expr.lexemesAll es
  | [] => rfl
  | e :: es => by
    rw [Expr.bareAll, Expr.lexemesAll, Expr.lexemesAll, e.lexemes_bare, Expr.lexemesAll_bare es]

end

lemma Expr.map_level_bareAll (es : List Expr) :
    (Expr.bareAll es).map Expr.level = es.map Expr.level := by
  induction es with
  | nil => rfl
  | cons e es ih => rw [Expr.bareAll, List.map_cons, List.map_cons, ih, e.level_bare]

lemma Expr.length_bareAll (es : List Expr) : (Expr.bareAll es).length = es.length := by
  rw [Expr.bareAll_eq_map, List.length_map]

lemma Expr.bareAll_ne_nil {es : List Expr} : Expr.bareAll es ≠ [] ↔ es ≠ [] := by
  rw [Expr.bareAll_eq_map, Ne, List.map_eq_nil_iff]

mutual

lemma Expr.normal_bare : ∀ e : Expr, e.bare.Normal ↔ e.Normal
  | .constant _ _ | .name _ _ | .gap _ _ | .range _ _ _ => Iff.rfl
  | .vector _ items => by
    rw [Expr.bare, Expr.Normal, Expr.Normal, Expr.normalAll_bare items, Expr.bareAll_ne_nil]
  | .operator _ _ operands => by
    rw [Expr.bare, Expr.Normal, Expr.Normal, Expr.normalAll_bare operands, Expr.map_level_bareAll]
  | .call _ _ arguments => by
    rw [Expr.bare, Expr.Normal, Expr.Normal, Expr.normalAll_bare arguments, Expr.bareAll_ne_nil]
  | .element _ _ _ indices _ => by
    rw [Expr.bare, Expr.Normal, Expr.Normal, Expr.normalAll_bare indices, Expr.bareAll_ne_nil]

lemma Expr.normalAll_bare :
    ∀ es : List Expr, Expr.NormalAll (Expr.bareAll es) ↔ Expr.NormalAll es
  | [] => Iff.rfl
  | e :: es => by
    rw [Expr.bareAll, Expr.NormalAll, Expr.NormalAll, e.normal_bare, Expr.normalAll_bare es]

end

lemma Expr.normalRange_bare {e : Expr} : e.bare.NormalRange ↔ e.NormalRange := by
  cases e with
  | range _ start stop =>
    rw [Expr.bare, Expr.NormalRange, Expr.NormalRange, start.normal_bare, stop.normal_bare]
  | _ => exact Iff.rfl

mutual

lemma Stmt.lexemes_bare : ∀ s : Stmt, s.bare.lexemes = s.lexemes
  | .block _ body => by rw [Stmt.bare, Stmt.lexemes, Stmt.lexemes, Stmt.lexemesAll_bare body]
  | .assign _ target value | .update _ _ target value => by
    rw [Stmt.bare, Stmt.lexemes, Stmt.lexemes, target.lexemes_bare, value.lexemes_bare]
  | .instruction _ _ arguments => by
    rw [Stmt.bare, Stmt.lexemes, Stmt.lexemes, Expr.lexemesAll_bare arguments]
  | .whileLoop _ condition body | .forLoop _ _ _ condition body | .ifThen _ condition body => by
    rw [Stmt.bare, Stmt.lexemes, Stmt.lexemes, condition.lexemes_bare, body.lexemes_bare]
  | .ifElse _ condition yes no => by
    rw [Stmt.bare, Stmt.lexemes, Stmt.lexemes, condition.lexemes_bare, yes.lexemes_bare,
      no.lexemes_bare]
  | .expr e => e.lexemes_bare

lemma Stmt.lexemesAll_bare :
    ∀ ss : List Stmt, Stmt.lexemesAll (Stmt.bareAll ss) = Stmt.lexemesAll ss
  | [] => rfl
  | s :: ss => by
    rw [Stmt.bareAll, Stmt.lexemesAll, Stmt.lexemesAll, s.lexemes_bare, Stmt.lexemesAll_bare ss]

end

lemma Stmt.endsOpen_bare : ∀ s : Stmt, s.bare.endsOpen = s.endsOpen
  | .block _ _ | .assign _ _ _ | .update _ _ _ _ | .instruction _ _ _ | .ifThen _ _ _
  | .expr _ => rfl
  | .whileLoop _ _ body | .forLoop _ _ _ _ body => body.endsOpen_bare
  | .ifElse _ _ _ no => no.endsOpen_bare

mutual

lemma Stmt.normal_bare : ∀ s : Stmt, s.bare.Normal ↔ s.Normal
  | .block _ body => by rw [Stmt.bare, Stmt.Normal, Stmt.Normal, Stmt.normalAll_bare body]
  | .assign _ target value | .update _ _ target value => by
    rw [Stmt.bare, Stmt.Normal, Stmt.Normal, Expr.isTarget_bare, target.normal_bare,
      value.normal_bare]
  | .instruction _ _ arguments => by
    rw [Stmt.bare, Stmt.Normal, Stmt.Normal, Expr.normalAll_bare arguments, Expr.length_bareAll]
  | .whileLoop _ condition body | .ifThen _ condition body => by
    rw [Stmt.bare, Stmt.Normal, Stmt.Normal, condition.normal_bare, body.normal_bare]
  | .forLoop _ _ _ range body => by
    rw [Stmt.bare, Stmt.Normal, Stmt.Normal, Expr.normalRange_bare, body.normal_bare]
  | .ifElse _ condition yes no => by
    rw [Stmt.bare, Stmt.Normal, Stmt.Normal, condition.normal_bare, yes.normal_bare,
      yes.endsOpen_bare, no.normal_bare]
  | .expr _ => Iff.rfl

lemma Stmt.normalAll_bare :
    ∀ ss : List Stmt, Stmt.NormalAll (Stmt.bareAll ss) ↔ Stmt.NormalAll ss
  | [] => Iff.rfl
  | s :: ss => by
    rw [Stmt.bareAll, Stmt.NormalAll, Stmt.NormalAll, s.normal_bare, Stmt.normalAll_bare ss]

end

lemma Stmt.scriptLexemes_bare (s : Stmt) : s.bare.scriptLexemes = s.scriptLexemes := by
  cases s with
  | block _ body => exact Stmt.lexemesAll_bare body
  | _ => exact Stmt.lexemes_bare _

lemma Stmt.normalScript_bare (s : Stmt) : s.bare.NormalScript ↔ s.NormalScript := by
  cases s with
  | block _ body => exact Stmt.normalAll_bare body
  | _ => exact Iff.rfl

end MatScript
