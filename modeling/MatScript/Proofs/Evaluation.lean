import MatScript.Proofs.Checking

/-! What a check and a run have to do with each other at each place of a script: the state in which
the check comes to a part of it, the types that it gives to names, and the expressions that a run
evaluates, each with its place and the machine that it is evaluated on. -/
namespace MatScript

open Typing Run

/-- A place in a tree: the positions of the parts that lead to it. -/
abbrev Path := List Nat

/-! ## Places in a check -/

/-- A part of a script. -/
inductive Part where
  | expr (e : Expr)
  | stmt (s : Stmt)

/-- The parts of an expression, in the order in which they are checked and evaluated. -/
def Expr.children : Expr → List Expr
  | .constant _ _ | .name _ _ | .gap _ _ => []
  | .vector _ items => items
  | .range _ start stop => [start, stop]
  | .operator _ _ operands => operands
  | .call _ _ arguments => arguments
  | .element _ id idSpan indices indexSpan => [.name idSpan id, .vector indexSpan indices]

namespace Part

def check : Part → Check Ty
  | expr e => e.check .raising
  | stmt s => s.check .raising

/-- Parts that are checked one after another, each with the state before it. -/
def threaded (st : Typing.State) : List Part → List (Typing.State × Part)
  | [] => []
  | part :: rest => (st, part) :: threaded (stateAfter (part.check st)) rest

end Part

/-- The state after the header of a `for` loop, in which its name has the type of the range. -/
def Typing.State.header (st : Typing.State) (id : String) (range : Expr) : Typing.State :=
  match range.check .raising st with
  | .ok t st => st.set id t
  | .error _ st => st

/-- The parts of a statement, each with the state in which it is checked. -/
def Stmt.parts (st : Typing.State) : Stmt → List (Typing.State × Part)
  | .block _ body => Part.threaded (st.push "program") (body.map .stmt)
  | .assign _ target value | .update _ _ target value =>
    Part.threaded st [.expr target, .expr value]
  | .instruction _ _ arguments => Part.threaded st (arguments.map .expr)
  | .whileLoop _ condition body =>
    [(st, .expr condition), ((stateAfter (condition.check .raising st)).push "loop", .stmt body)]
  | .forLoop _ id _ range body =>
    [(st, .expr range), ((st.header id range).push "loop", .stmt body)]
  | .ifThen _ condition yes =>
    [(st, .expr condition), ((stateAfter (condition.check .raising st)).push "then", .stmt yes)]
  | .ifElse _ condition yes no =>
    let first := (stateAfter (condition.check .raising st)).push "then"
    let second := (stateAfter (yes.check .raising first)).pop.push "else"
    [(st, .expr condition), (first, .stmt yes), (second, .stmt no)]
  | .expr e => [(st, .expr e)]

namespace Part

def parts (st : Typing.State) : Part → List (Typing.State × Part)
  | expr e => threaded st (e.children.map .expr)
  | stmt s => s.parts st

/-- The part at a place, with the state in which the check comes to it. -/
def at? (st : Typing.State) (part : Part) : Path → Option (Typing.State × Part)
  | [] => some (st, part)
  | i :: path => (part.parts st)[i]?.bind fun (st, part) => part.at? st path

end Part

/-! ## Types given to names -/

/-- The name that an assignment binds, with the type that it has after it. -/
def Typing.State.bound (st : Typing.State) : Expr → List (String × Ty)
  | .name _ id => (st.table.get? id).toList.map fun t => (id, t)
  | _ => []

mutual

/-- The names that a statement binds, each with the type that the check gives to it there. -/
def Stmt.bindings (st : Typing.State) : Stmt → List (String × Ty)
  | .block _ body => Stmt.bindingsAll (st.push "program") body
  | .assign span target value =>
    (stateAfter ((Stmt.assign span target value).check .raising st)).bound target
  | .update span symbol target value =>
    (stateAfter ((Stmt.update span symbol target value).check .raising st)).bound target
  | .instruction _ _ _ => []
  | .whileLoop _ condition body =>
    body.bindings ((stateAfter (condition.check .raising st)).push "loop")
  | .forLoop _ id idSpan range body =>
    (st.header id range).bound (.name idSpan id) ++ body.bindings ((st.header id range).push "loop")
  | .ifThen _ condition yes =>
    yes.bindings ((stateAfter (condition.check .raising st)).push "then")
  | .ifElse _ condition yes no =>
    let first := (stateAfter (condition.check .raising st)).push "then"
    let second := (stateAfter (yes.check .raising first)).pop.push "else"
    yes.bindings first ++ no.bindings second
  | .expr _ => []

def Stmt.bindingsAll (st : Typing.State) : List Stmt → List (String × Ty)
  | [] => []
  | s :: ss => s.bindings st ++ Stmt.bindingsAll (stateAfter (s.check .raising st)) ss

end

/-- Wherever a script binds a name, it is checked with one and the same type. -/
def Stmt.OneTypePerName (s : Stmt) : Prop :=
  ∀ b ∈ s.bindings {}, ∀ c ∈ s.bindings {}, b.1 = c.1 → b.2 = c.2

instance (s : Stmt) : Decidable s.OneTypePerName :=
  inferInstanceAs (Decidable (∀ b ∈ s.bindings {}, ∀ c ∈ s.bindings {}, b.1 = c.1 → b.2 = c.2))

/-! ## Evaluations of a run -/

/-- An expression that is evaluated during a run. -/
structure Evaluation where
  path : Path
  expr : Expr
  machine : Machine

namespace Evaluation

/-- The same evaluation, seen from the tree whose part at a position it belongs to. -/
def under (i : Nat) (ev : Evaluation) : Evaluation := { ev with path := i :: ev.path }

/-- The evaluations in the parts of a tree, from the given position on. -/
def underFrom : Nat → List (List Evaluation) → List Evaluation
  | _, [] => []
  | i, evs :: rest => evs.map (under i) ++ underFrom (i + 1) rest

end Evaluation

open Evaluation

mutual

/-- The evaluations while an expression is evaluated: its own, then those of its parts. -/
def Expr.evaluations : Expr → Machine → List Evaluation
  | .constant span value, m => [⟨[], .constant span value, m⟩]
  | .vector span items, m =>
    ⟨[], .vector span items, m⟩ :: underFrom 0 (Expr.evaluationsAll items m)
  | .range span start stop, m =>
    ⟨[], .range span start stop, m⟩ :: underFrom 0 (start.evaluations m ::
      match start.eval m with
      | .ok _ m => [stop.evaluations m]
      | .error _ _ => [])
  | .operator span symbol operands, m =>
    ⟨[], .operator span symbol operands, m⟩ :: underFrom 0 (Expr.evaluationsAll operands m)
  | .call span function arguments, m =>
    ⟨[], .call span function arguments, m⟩ :: underFrom 0 (Expr.evaluationsAll arguments m)
  | .name span id, m => [⟨[], .name span id, m⟩]
  | .element span id idSpan indices indexSpan, m =>
    ⟨[], .element span id idSpan indices indexSpan, m⟩ :: underFrom 0
      [[⟨[], .name idSpan id, m⟩],
        ⟨[], .vector indexSpan indices, m⟩ :: underFrom 0 (Expr.evaluationsAll indices m)]
  | .gap span what, m => [⟨[], .gap span what, m⟩]

/-- The evaluations for each expression of a list, up to the first that fails. -/
def Expr.evaluationsAll : List Expr → Machine → List (List Evaluation)
  | [], _ => []
  | e :: es, m => e.evaluations m ::
    match e.eval m with
    | .ok _ m => Expr.evaluationsAll es m
    | .error _ _ => []

end

/-- The evaluations when the old value of a target is looked up: a name's own, or those of the
parts of an element. -/
def Expr.targetEvaluations (m : Machine) : Expr → List Evaluation
  | .name span id => (Expr.name span id).evaluations m
  | .element span id idSpan indices indexSpan =>
    ((Expr.element span id idSpan indices indexSpan).evaluations m).tail
  | _ => []

/-- The evaluations of a loop with a condition, given those of the condition and of a round. -/
def Run.evaluationsWhile (condition : Run Bool) (body : Run Round)
    (first second : Machine → List Evaluation) : Nat → Machine → List Evaluation
  | 0, _ => []
  | fuel + 1, m => first m ++
    match condition m with
    | .ok true m => second m ++
      match body m with
      | .ok .next m => evaluationsWhile condition body first second fuel m
      | _ => []
    | _ => []

/-- The evaluations of a round for each of the `count` positions from `i` on. -/
def Run.evaluationsFrom (body : Nat → Run Round) (second : Nat → Machine → List Evaluation) :
    (count i : Nat) → Machine → List Evaluation
  | 0, _, _ => []
  | count + 1, i, m => second i m ++
    match body i m with
    | .ok .next m => evaluationsFrom body second count (i + 1) m
    | _ => []

mutual

/-- The evaluations while a statement runs, in their order. -/
def Stmt.evaluations (fuel : Nat) : Stmt → Machine → List Evaluation
  | .block _ body, m => underFrom 0 (Stmt.evaluationsAll fuel body (m.push "program"))
  | .assign _ target value, m =>
    match target with
    | .name _ _ => (value.evaluations m).map (under 1)
    | .element _ _ _ indices _ => (target.targetEvaluations m).map (under 0) ++
      match evalIndices indices m with
      | .ok _ m => (value.evaluations m).map (under 1)
      | .error _ _ => []
    | _ => []
  | .update _ _ target value, m => (value.evaluations m).map (under 1) ++
    match value.eval m with
    | .ok _ m => (target.targetEvaluations m).map (under 0)
    | .error _ _ => []
  | .instruction _ _ arguments, m => underFrom 0 (Expr.evaluationsAll arguments m)
  | .whileLoop _ condition body, m =>
    evaluationsWhile (test condition) (round "while" (body.exec fuel))
      (fun m => (condition.evaluations m).map (under 0))
      (fun m => (body.evaluations fuel (m.push "while")).map (under 1)) fuel m
  | .forLoop _ id _ range body, m => (range.evaluations m).map (under 0) ++
    match range.eval m with
    | .ok v m =>
      match v.items with
      | .ok (count, item) =>
        evaluationsFrom
          (fun i => round "for" (do
            bind id (item (← get).store i)
            body.exec fuel))
          (fun i m =>
            (body.evaluations fuel ((m.push "for").bind id (item m.store i))).map (under 1))
          count 0 m
      | .error _ => []
    | .error _ _ => []
  | .ifThen _ condition yes, m => (condition.evaluations m).map (under 0) ++
    match test condition m with
    | .ok true m => (yes.evaluations fuel (m.push "then")).map (under 1)
    | _ => []
  | .ifElse _ condition yes no, m => (condition.evaluations m).map (under 0) ++
    match test condition m with
    | .ok true m => (yes.evaluations fuel (m.push "then")).map (under 1)
    | .ok false m => (no.evaluations fuel (m.push "else")).map (under 2)
    | .error _ _ => []
  | .expr e, m => (e.evaluations m).map (under 0)

/-- The evaluations for each statement of a list, up to the first that does not end normally. -/
def Stmt.evaluationsAll (fuel : Nat) : List Stmt → Machine → List (List Evaluation)
  | [], _ => []
  | s :: ss, m => s.evaluations fuel m ::
    match s.exec fuel m with
    | .ok _ m => Stmt.evaluationsAll fuel ss m
    | .error _ _ => []

end

end MatScript
