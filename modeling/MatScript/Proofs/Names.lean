import Mathlib
import MatScript.Script

/-! The names that occur in a script, and its other words. A `for` loop is seen as the binder of its
name in its body. -/
namespace MatScript

mutual

/-- The names that an expression reads. -/
def Expr.names : Expr → List String
  | .constant _ _ => []
  | .vector _ items => Expr.namesAll items
  | .range _ start stop => start.names ++ stop.names
  | .operator _ _ operands => Expr.namesAll operands
  | .call _ _ arguments => Expr.namesAll arguments
  | .name _ id => [id]
  | .element _ id _ indices _ => id :: Expr.namesAll indices
  | .gap _ _ => []

def Expr.namesAll : List Expr → List String
  | [] => []
  | e :: es => e.names ++ Expr.namesAll es

end

mutual

/-- The names that occur in a statement outside the bodies of `for` loops over them. -/
def Stmt.freeNames : Stmt → List String
  | .block _ body => Stmt.freeNamesAll body
  | .assign _ target value => target.names ++ value.names
  | .update _ _ target value => target.names ++ value.names
  | .instruction _ _ arguments => Expr.namesAll arguments
  | .whileLoop _ condition body => condition.names ++ body.freeNames
  | .forLoop _ id _ range body => range.names ++ body.freeNames.filter (· ≠ id)
  | .ifThen _ condition yes => condition.names ++ yes.freeNames
  | .ifElse _ condition yes no => condition.names ++ (yes.freeNames ++ no.freeNames)
  | .expr e => e.names

def Stmt.freeNamesAll : List Stmt → List String
  | [] => []
  | s :: ss => s.freeNames ++ Stmt.freeNamesAll ss

end

mutual

/-- The names that `for` loops of a statement are over. -/
def Stmt.loopNames : Stmt → List String
  | .block _ body => Stmt.loopNamesAll body
  | .assign _ _ _ => []
  | .update _ _ _ _ => []
  | .instruction _ _ _ => []
  | .whileLoop _ _ body => body.loopNames
  | .forLoop _ id _ _ body => id :: body.loopNames
  | .ifThen _ _ yes => yes.loopNames
  | .ifElse _ _ yes no => yes.loopNames ++ no.loopNames
  | .expr _ => []

def Stmt.loopNamesAll : List Stmt → List String
  | [] => []
  | s :: ss => s.loopNames ++ Stmt.loopNamesAll ss

end

/-- The name that an assignment to a target gives a value; a part of an array is no name. -/
def Expr.assignedNames : Expr → List String
  | .name _ id => [id]
  | _ => []

mutual

/-- The names that a statement assigns, with an operator or without, or that its `for` loops are
over. -/
def Stmt.assignedNames : Stmt → List String
  | .block _ body => Stmt.assignedNamesAll body
  | .assign _ target _ => target.assignedNames
  | .update _ _ target _ => target.assignedNames
  | .instruction _ _ _ => []
  | .whileLoop _ _ body => body.assignedNames
  | .forLoop _ id _ _ body => id :: body.assignedNames
  | .ifThen _ _ yes => yes.assignedNames
  | .ifElse _ _ yes no => yes.assignedNames ++ no.assignedNames
  | .expr _ => []

def Stmt.assignedNamesAll : List Stmt → List String
  | [] => []
  | s :: ss => s.assignedNames ++ Stmt.assignedNamesAll ss

end

mutual

/-- The words of an expression: its names, operators and functions. -/
def Expr.words : Expr → List String
  | .constant _ _ => []
  | .vector _ items => Expr.wordsAll items
  | .range _ start stop => start.words ++ stop.words
  | .operator _ symbol operands => symbol :: Expr.wordsAll operands
  | .call _ function arguments => function :: Expr.wordsAll arguments
  | .name _ id => [id]
  | .element _ id _ indices _ => id :: Expr.wordsAll indices
  | .gap _ _ => []

def Expr.wordsAll : List Expr → List String
  | [] => []
  | e :: es => e.words ++ Expr.wordsAll es

end

mutual

/-- The words of a statement: those of its expressions, and its operators and instructions. -/
def Stmt.words : Stmt → List String
  | .block _ body => Stmt.wordsAll body
  | .assign _ target value => target.words ++ value.words
  | .update _ symbol target value => symbol :: (target.words ++ value.words)
  | .instruction _ name arguments => name :: Expr.wordsAll arguments
  | .whileLoop _ condition body => condition.words ++ body.words
  | .forLoop _ _ _ range body => range.words ++ body.words
  | .ifThen _ condition yes => condition.words ++ yes.words
  | .ifElse _ condition yes no => condition.words ++ (yes.words ++ no.words)
  | .expr e => e.words

def Stmt.wordsAll : List Stmt → List String
  | [] => []
  | s :: ss => s.words ++ Stmt.wordsAll ss

end

/-- A name that a `for` loop is over occurs only inside bodies of `for` loops over it. -/
def Stmt.LoopNamesLocal (s : Stmt) : Prop := ∀ x ∈ s.loopNames, x ∉ s.freeNames

instance (s : Stmt) : Decidable s.LoopNamesLocal :=
  inferInstanceAs (Decidable (∀ x ∈ s.loopNames, x ∉ s.freeNames))

/-- Of the names that loops of a script are over, only those in `inside` are among `free`. -/
def FreeFit (loops inside free : List String) : Prop := ∀ x ∈ free, x ∈ loops → x ∈ inside

/-- A part of a script whose `for` loops are over `loops`, inside the bodies of loops over
`inside`. -/
structure Stmt.Fits (loops inside : List String) (s : Stmt) : Prop where
  named : ∀ x ∈ s.loopNames, x ∈ loops
  free : FreeFit loops inside s.freeNames

structure Stmt.FitsAll (loops inside : List String) (ss : List Stmt) : Prop where
  named : ∀ x ∈ Stmt.loopNamesAll ss, x ∈ loops
  free : FreeFit loops inside (Stmt.freeNamesAll ss)

lemma Stmt.LoopNamesLocal.fits {s : Stmt} (h : s.LoopNamesLocal) : s.Fits s.loopNames [] :=
  ⟨fun _ hx => hx, fun x hx hl => absurd hx (h x hl)⟩

section

variable {loops inside : List String} {span : Span}

lemma FreeFit.append {xs ys : List String} (h : FreeFit loops inside (xs ++ ys)) :
    FreeFit loops inside xs ∧ FreeFit loops inside ys :=
  ⟨fun x hx => h x (List.mem_append_left _ hx), fun x hx => h x (List.mem_append_right _ hx)⟩

namespace Stmt

lemma Fits.block {body : List Stmt} (h : (Stmt.block span body).Fits loops inside) :
    FitsAll loops inside body :=
  ⟨by simpa only [loopNames] using h.named, by simpa only [freeNames] using h.free⟩

lemma Fits.whileLoop {condition : Expr} {body : Stmt}
    (h : (Stmt.whileLoop span condition body).Fits loops inside) :
    FreeFit loops inside condition.names ∧ body.Fits loops inside := by
  obtain ⟨hl, hf⟩ := h
  rw [freeNames] at hf
  rw [loopNames] at hl
  exact ⟨hf.append.1, hl, hf.append.2⟩

/-- The body of a loop may use the name that the loop is over. -/
lemma Fits.forLoop {id : String} {idSpan : Span} {range : Expr} {body : Stmt}
    (h : (Stmt.forLoop span id idSpan range body).Fits loops inside) :
    id ∈ loops ∧ FreeFit loops inside range.names ∧ body.Fits loops (id :: inside) := by
  obtain ⟨hl, hf⟩ := h
  rw [freeNames] at hf
  rw [loopNames] at hl
  refine ⟨hl id (List.mem_cons_self ..), hf.append.1, fun x hx => hl x (List.mem_cons_of_mem _ hx), ?_⟩
  intro x hx hloop
  by_cases hid : x = id
  · simp [hid]
  · exact List.mem_cons_of_mem _ (hf.append.2 x (by simp [hx, hid]) hloop)

lemma Fits.ifThen {condition : Expr} {yes : Stmt}
    (h : (Stmt.ifThen span condition yes).Fits loops inside) :
    FreeFit loops inside condition.names ∧ yes.Fits loops inside := by
  obtain ⟨hl, hf⟩ := h
  rw [freeNames] at hf
  rw [loopNames] at hl
  exact ⟨hf.append.1, hl, hf.append.2⟩

lemma Fits.ifElse {condition : Expr} {yes no : Stmt}
    (h : (Stmt.ifElse span condition yes no).Fits loops inside) :
    FreeFit loops inside condition.names ∧ yes.Fits loops inside ∧ no.Fits loops inside := by
  obtain ⟨hl, hf⟩ := h
  rw [freeNames] at hf
  rw [loopNames] at hl
  obtain ⟨hy, hn⟩ := hf.append.2.append
  exact ⟨hf.append.1, ⟨fun x hx => hl x (List.mem_append_left _ hx), hy⟩,
    ⟨fun x hx => hl x (List.mem_append_right _ hx), hn⟩⟩

lemma FitsAll.cons {s : Stmt} {ss : List Stmt} (h : FitsAll loops inside (s :: ss)) :
    s.Fits loops inside ∧ FitsAll loops inside ss := by
  obtain ⟨hl, hf⟩ := h
  rw [freeNamesAll] at hf
  rw [loopNamesAll] at hl
  exact ⟨⟨fun x hx => hl x (List.mem_append_left _ hx), hf.append.1⟩,
    ⟨fun x hx => hl x (List.mem_append_right _ hx), hf.append.2⟩⟩

end Stmt

end

end MatScript
