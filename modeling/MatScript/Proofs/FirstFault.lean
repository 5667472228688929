import MatScript.Proofs.Checking
import MatScript.Proofs.ParseSound

/-! Checking under the two policies. Up to the first fault a collecting check does what a raising
one does, whichever types vectors of differing types go on with; what it makes up after a fault is
seen by no other check. -/
namespace MatScript

namespace Typing

variable {α β : Type}

/-- Collect the faults, with the given choice among differing element types. -/
abbrev Policy.collectingBy (pick : List Ty → Nat) : Policy := ⟨true, pick⟩

/-- Stop at the first fault, with the given choice among differing element types. -/
abbrev Policy.raisingBy (pick : List Ty → Nat) : Policy := ⟨false, pick⟩

/-- How a raising check ends, given the faults that a collecting one adds to those it has, and how
that one ends. -/
def EndsAtFirst (result : EStateM.Result Stop State α) (a : α) (table : Scopes Ty)
    (old : Array Fault) : List Fault → Prop
  | [] => result = .ok a ⟨table, old⟩
  | f :: _ => ∃ st, result = .error (.fault f) st

/-- The collecting check `c` comes to its end from every table, with a result as `Q` says, and the
raising check `r` ends like it or stops at the first fault that it adds. -/
def Mirrors (Q : α → Prop) (c r : Check α) : Prop :=
  ∀ table old, ∃ a table' new, Q a ∧
    c ⟨table, old⟩ = .ok a ⟨table', old ++ List.toArray new⟩ ∧
    EndsAtFirst (r ⟨table, old⟩) a table' old new

section

variable {Q : α → Prop} {Q' : β → Prop} {pick pick' : List Ty → Nat}

lemma mirrors_pure {a : α} (ha : Q a) : Mirrors Q (pure a) (pure a) :=
  fun table old => ⟨a, table, [], ha, by simp, rfl⟩

/-- What comes after a check that adds a fault is not reached by the raising one. -/
lemma Mirrors.bind {c r : Check α} {f g : α → Check β} (h : Mirrors Q c r)
    (hf : ∀ a, Q a → Mirrors Q' (f a) (g a)) : Mirrors Q' (c >>= f) (r >>= g) := by
  intro table old
  obtain ⟨a, table₁, new₁, ha, hc, hr⟩ := h table old
  obtain ⟨b, table₂, new₂, hb, hfa, hga⟩ := hf a ha table₁ (old ++ List.toArray new₁)
  refine ⟨b, table₂, new₁ ++ new₂, hb, ?_, ?_⟩
  · rw [bind_ok hc, hfa]
    simp
  · cases new₁ with
    | nil =>
      rw [Array.append_empty] at hga
      rw [bind_ok hr]
      exact hga
    | cons fault rest =>
      obtain ⟨st, hst⟩ := hr
      exact ⟨st, bind_error hst g⟩

lemma Mirrors.discard {c r : Check α} (h : Mirrors Q c r) :
    Mirrors (fun _ => True) (discard c) (discard r) :=
  h.bind fun _ _ => mirrors_pure trivial

lemma Mirrors.ite {c c' r r' : Check α} (b : Prop) [Decidable b] (h : Mirrors Q c r)
    (h' : Mirrors Q c' r') : Mirrors Q (if b then c else c') (if b then r else r') := by
  split
  · exact h
  · exact h'

/-- A fault, after which the collecting check goes on with a result of its own. -/
lemma mirrors_fault {a a' : α} (ha : Q a) (span : Span) (message : String) :
    Mirrors Q (do report (.collectingBy pick) span message; pure a)
      (do report (.raisingBy pick') span message; pure a') := by
  intro table old
  refine ⟨a, table, [⟨span, message⟩], ha, ?_, ⟨table, old⟩, rfl⟩
  rw [← Array.push_eq_append]
  rfl

lemma mirrors_report (span : Span) (message : String) :
    Mirrors (fun _ => True) (report (.collectingBy pick) span message)
      (report (.raisingBy pick') span message) := by
  have h : Mirrors (fun _ => True) (do report (.collectingBy pick) span message; pure ())
      (do report (.raisingBy pick') span message; pure ()) := mirrors_fault trivial span message
  exact h

lemma mirrors_reject (span : Span) (message : String) :
    Mirrors (fun _ => True) (reject (.collectingBy pick) span message)
      (reject (.raisingBy pick') span message) :=
  mirrors_fault trivial span message

lemma mirrors_require (span : Span) (t required : Ty) (message : String) :
    Mirrors (fun _ => True) (require (.collectingBy pick) span t required message)
      (require (.raisingBy pick') span t required message) :=
  .ite _ (mirrors_pure trivial) (mirrors_report span message)

lemma mirrors_getTable : Mirrors (fun _ => True) getTable getTable :=
  fun table old => ⟨table, table, [], trivial, by rw [Array.append_empty]; rfl, rfl⟩

lemma mirrors_setType (id : String) (t : Ty) :
    Mirrors (fun _ => True) (setType id t) (setType id t) := fun table old =>
  ⟨(), table.set id t, [], trivial, by rw [Array.append_empty]; rfl, rfl⟩

lemma Mirrors.within {c r : Check Unit} (h : Mirrors (fun _ => True) c r) (name : String) :
    Mirrors (fun _ => True) (within name c) (within name r) := by
  intro table old
  obtain ⟨a, table', new, -, hc, hr⟩ := h (table.push name) old
  refine ⟨(), table'.pop, new, trivial, ?_, ?_⟩
  · unfold Typing.within
    rw [hc]
  · unfold Typing.within
    cases new with
    | nil =>
      rw [hr]
      rfl
    | cons fault rest =>
      obtain ⟨st, hst⟩ := hr
      exact ⟨st, by rw [hst]⟩

/-! ## Rules for the parts of an expression -/

/-- Items of one type leave no choice. -/
lemma mirrors_vectorType (span : Span) (ts : List Ty) :
    Mirrors (fun _ => True) (vectorType (.collectingBy pick) span ts)
      (vectorType (.raisingBy pick') span ts) := by
  unfold vectorType
  cases distinct ts with
  | nil => exact mirrors_pure trivial
  | cons t rest =>
    cases rest with
    | nil =>
      have hpick : ∀ i, [t].getD i t = t := by
        intro i
        cases i <;> simp
      simp only [ne_eq, not_true_eq_false, if_false, hpick]
      exact mirrors_pure trivial
    | cons u rest =>
      dsimp only
      rw [if_pos (List.cons_ne_nil u rest), if_pos (List.cons_ne_nil u rest)]
      exact mirrors_fault trivial _ _

lemma mirrors_matchDims (span : Span) (symbol : String) (i : Nat) (as bs : List (Option Int)) :
    Mirrors (fun _ => True) (matchDims (.collectingBy pick) span symbol i as bs)
      (matchDims (.raisingBy pick') span symbol i as bs) := by
  induction as generalizing i bs with
  | nil => cases bs <;> exact mirrors_pure trivial
  | cons a as ih =>
    cases bs with
    | nil => cases a <;> exact mirrors_pure trivial
    | cons b bs =>
      cases a with
      | none => exact ih _ _
      | some a =>
        cases b with
        | none => exact ih _ _
        | some b => exact .ite _ ((mirrors_report _ _).bind fun _ _ => ih _ _) (ih _ _)

lemma mirrors_dottedType (span : Span) (symbol : String) (op : ScalarOperator) (a b : Ty) :
    Mirrors (fun _ => True) (dottedType (.collectingBy pick) span symbol op a b)
      (dottedType (.raisingBy pick') span symbol op a b) := by
  unfold dottedType
  split
  · exact mirrors_reject _ _
  · refine .ite _ (mirrors_reject _ _) ?_
    exact (mirrors_matchDims _ _ _ _ _).bind fun _ _ => mirrors_pure trivial

/-- An operator with as many operands as a script can give it. -/
lemma mirrors_operatorType (span : Span) {symbol : String} {ts : List Ty} (hts : ts ≠ [])
    (htwo : dotted? symbol ≠ none → ts.length = 2) :
    Mirrors (fun _ => True) (operatorType (.collectingBy pick) span symbol ts)
      (operatorType (.raisingBy pick') span symbol ts) := by
  unfold operatorType
  split
  · split
    · exact mirrors_pure trivial
    · exact mirrors_reject _ _
  · refine .ite _ (mirrors_pure trivial) (.ite _ ?_ ?_)
    · cases ts with
      | nil => exact absurd rfl hts
      | cons t ts => exact .ite _ (mirrors_reject _ _) (mirrors_pure trivial)
    · cases hdot : dotted? symbol with
      | none => exact mirrors_reject _ _
      | some op =>
        obtain ⟨a, b, rfl⟩ := List.length_eq_two.1 (htwo (by simp [hdot]))
        exact mirrors_dottedType _ _ _ _ _

lemma mirrors_integerArguments (span : Span) (function : String) (i : Nat) (ts : List Ty) :
    Mirrors (fun _ => True) (integerArguments (.collectingBy pick) span function i ts)
      (integerArguments (.raisingBy pick') span function i ts) := by
  induction ts generalizing i with
  | nil => exact mirrors_pure trivial
  | cons t ts ih => exact .ite _ ((mirrors_report _ _).bind fun _ _ => ih _) (ih _)

lemma mirrors_callType (span : Span) (function : String) (ts : List Ty) :
    Mirrors (fun _ => True) (callType (.collectingBy pick) span function ts)
      (callType (.raisingBy pick') span function ts) := by
  have hrest : Mirrors (fun _ => True)
      (do integerArguments (.collectingBy pick) span function 1 ts
          return (⟨some .float, List.replicate ts.length none⟩ : Ty))
      (do integerArguments (.raisingBy pick') span function 1 ts
          return (⟨some .float, List.replicate ts.length none⟩ : Ty)) :=
    (mirrors_integerArguments _ _ _ _).bind fun _ _ => mirrors_pure trivial
  exact .ite _ ((mirrors_report _ _).bind fun _ _ => hrest) hrest

lemma mirrors_nameType (span : Span) (id : String) :
    Mirrors (fun _ => True) (nameType (.collectingBy pick) span id)
      (nameType (.raisingBy pick') span id) := by
  refine mirrors_getTable.bind fun table _ => ?_
  cases table.get? id with
  | none => exact mirrors_reject _ _
  | some t => exact mirrors_pure trivial

lemma mirrors_elementType (span : Span) (array index : Ty) (count : Nat) :
    Mirrors (fun _ => True) (elementType (.collectingBy pick) span array index count)
      (elementType (.raisingBy pick') span array index count) :=
  .ite _ (mirrors_reject _ _) (.ite _ (mirrors_reject _ _) (mirrors_pure trivial))

end

end Typing

open Typing

/-! ## Expressions and statements -/

/-- A dotted operator has two operands. -/
lemma length_of_dotted {symbol : String} {levels : List Nat} (h : OperandsFit symbol levels)
    (hdot : dotted? symbol ≠ none) : levels.length = 2 := by
  match levels with
  | [_, _] => rfl
  | [_] =>
    rcases h with ⟨rfl, -⟩ | ⟨rfl, -⟩
    · exact absurd (by decide) hdot
    · exact absurd (by decide) hdot
  | [] | _ :: _ :: _ :: _ => exact h.elim

lemma ne_nil_of_operandsFit {symbol : String} {levels : List Nat} (h : OperandsFit symbol levels) :
    levels ≠ [] := by
  rintro rfl
  exact h

/-- The operators that can be written. -/
lemma operator_of_operandsFit {symbol : String} {levels : List Nat} (h : OperandsFit symbol levels) :
    symbol = "u-" ∨ symbol = Symbol.apostrophe.spelling ∨
      ∃ s : Symbol, s.level?.isSome = true ∧ symbol = s.spelling := by
  unfold OperandsFit at h
  split at h
  · rcases h with ⟨h, -⟩ | ⟨h, -⟩
    · exact .inl h
    · exact .inr (.inl h)
  · obtain ⟨s, k, h, hk, -⟩ := h
    exact .inr (.inr ⟨s, Option.isSome_of_eq_some hk, h⟩)
  · exact h.elim

mutual

/-- On an expression that can be written the two policies agree up to the first fault. -/
theorem Expr.mirrors (pick pick' : List Ty → Nat) : (e : Expr) → e.Normal →
    Mirrors (fun _ => True) (e.check (.collectingBy pick)) (e.check (.raisingBy pick'))
  | .constant _ _, _ => by simpa only [Expr.check] using mirrors_pure trivial
  | .vector _ items, h => by
    simp only [Expr.check]
    exact (Expr.mirrors_all pick pick' items h.2).bind fun _ _ => mirrors_vectorType _ _
  | .operator _ symbol operands, h => by
    simp only [Expr.check]
    refine (Expr.mirrors_all pick pick' operands h.2).bind fun ts hts => ?_
    have hlength : (operands.map Expr.level).length = ts.length := by rw [List.length_map, hts]
    refine mirrors_operatorType _ ?_ fun hdot => hlength ▸ length_of_dotted h.1 hdot
    intro hnil
    rw [hnil, List.length_nil, List.length_eq_zero_iff] at hlength
    exact ne_nil_of_operandsFit h.1 hlength
  | .call _ _ arguments, h => by
    simp only [Expr.check]
    exact (Expr.mirrors_all pick pick' arguments h.2.2).bind fun _ _ => mirrors_callType _ _ _
  | .name _ _, _ => by simpa only [Expr.check] using mirrors_nameType _ _
  | .element _ _ _ indices _, h => by
    simp only [Expr.check]
    refine (mirrors_nameType _ _).bind fun _ _ => ?_
    refine (Expr.mirrors_all pick pick' indices h.2).bind fun _ _ => ?_
    exact (mirrors_vectorType _ _).bind fun _ _ => mirrors_elementType _ _ _ _
  | .range _ _ _, h | .gap _ _, h => h.elim

theorem Expr.mirrors_all (pick pick' : List Ty → Nat) : (es : List Expr) → Expr.NormalAll es →
    Mirrors (fun ts => ts.length = es.length) (Expr.checkAll (.collectingBy pick) es)
      (Expr.checkAll (.raisingBy pick') es)
  | [], _ => by
    simp only [Expr.checkAll]
    exact mirrors_pure rfl
  | e :: es, h => by
    simp only [Expr.checkAll]
    refine (Expr.mirrors pick pick' e h.1).bind fun t _ => ?_
    refine (Expr.mirrors_all pick pick' es h.2).bind fun ts hts => mirrors_pure ?_
    rw [List.length_cons, List.length_cons, hts]

end

section

variable {pick pick' : List Ty → Nat}

lemma Expr.mirrors_range {e : Expr} (h : e.NormalRange) :
    Mirrors (fun _ => True) (e.check (.collectingBy pick)) (e.check (.raisingBy pick')) := by
  cases e with
  | range _ start stop =>
    simp only [Expr.check]
    refine (start.mirrors pick pick' h.1).bind fun _ _ => (mirrors_require _ _ _ _).bind fun _ _ => ?_
    refine (stop.mirrors pick pick' h.2).bind fun _ _ => (mirrors_require _ _ _ _).bind fun _ _ => ?_
    exact mirrors_pure trivial
  | _ => exact h.elim

lemma mirrors_checkAssign (span : Span) {target value : Expr} (ht : target.Normal)
    (hv : value.Normal) :
    Mirrors (fun _ => True) (checkAssign (.collectingBy pick) span target value)
      (checkAssign (.raisingBy pick') span target value) := by
  cases target with
  | name _ id => exact (value.mirrors pick pick' hv).bind fun _ _ => mirrors_setType _ _
  | element elementSpan id idSpan indices indexSpan =>
    refine (Expr.mirrors pick pick' (.element elementSpan id idSpan indices indexSpan) ht).bind
      fun _ _ => ?_
    exact (value.mirrors pick pick' hv).bind fun _ _ => mirrors_require _ _ _ _
  | _ => exact mirrors_pure trivial

/-- The operator of an operator-assignment has a table of types. -/
lemma exists_operator_of_assignment {s : Symbol} (h : s.isAssignment) (hs : s ≠ .assign) :
    ∃ op, ScalarOperator.ofSymbol? (s.spelling.dropEnd 1).toString = some op := by
  cases s with
  | assign => exact absurd rfl hs
  | assignPlus => exact ⟨.add, by cbv⟩
  | assignMinus => exact ⟨.subtract, by cbv⟩
  | assignTimes => exact ⟨.multiply, by cbv⟩
  | assignDivide => exact ⟨.divide, by cbv⟩
  | _ => exact absurd h (by decide)

lemma mirrors_checkUpdate (span : Span) {s : Symbol} (hs : s.isAssignment) (hne : s ≠ .assign)
    {target value : Expr} (ht : target.Normal) (hv : value.Normal) :
    Mirrors (fun _ => True) (checkUpdate (.collectingBy pick) span s.spelling target value)
      (checkUpdate (.raisingBy pick') span s.spelling target value) := by
  obtain ⟨op, hop⟩ := exists_operator_of_assignment hs hne
  unfold checkUpdate
  refine (target.mirrors pick pick' ht).bind fun t _ => (value.mirrors pick pick' hv).bind fun v _ => ?_
  simp only [hop]
  cases op.result? [t, v] with
  | none => exact mirrors_report _ _
  | some result =>
    cases target with
    | name _ id => exact mirrors_setType _ _
    | element _ _ _ _ _ => exact mirrors_require _ _ _ _
    | _ => exact mirrors_pure trivial

lemma mirrors_checkInstruction (span : Span) (name : String) {arguments : List Expr}
    (h : Expr.NormalAll arguments) :
    Mirrors (fun _ => True) (checkInstruction (.collectingBy pick) span name arguments)
      (checkInstruction (.raisingBy pick') span name arguments) := by
  have hrest := (Expr.mirrors_all pick pick' arguments h).discard
  refine .ite _ (mirrors_getTable.bind fun table _ => .ite _ ?_ hrest) hrest
  exact (mirrors_report _ _).bind fun _ _ => hrest

/-- A condition, and what is checked after it. -/
lemma mirrors_condition {α : Type} {Q : α → Prop} {condition : Expr} (h : condition.Normal)
    (span : Span) (message : String) {c r : Check α} (hrest : Mirrors Q c r) :
    Mirrors Q
      (do require (.collectingBy pick) span (← condition.check (.collectingBy pick)) .bool message; c)
      (do require (.raisingBy pick') span (← condition.check (.raisingBy pick')) .bool message; r) :=
  (condition.mirrors pick pick' h).bind fun _ _ => (mirrors_require _ _ _ _).bind fun _ _ => hrest

end

mutual

/-- On a statement that can be written the two policies agree up to the first fault. -/
theorem Stmt.mirrors (pick pick' : List Ty → Nat) : (s : Stmt) → s.Normal →
    Mirrors (fun _ => True) (s.check (.collectingBy pick)) (s.check (.raisingBy pick'))
  | .block _ body, h => by
    simp only [Stmt.check]
    exact ((Stmt.mirrors_all pick pick' body h).within _).bind fun _ _ => mirrors_pure trivial
  | .assign _ _ _, h => by
    simp only [Stmt.check]
    exact (mirrors_checkAssign _ h.2.1 h.2.2).bind fun _ _ => mirrors_pure trivial
  | .update _ _ _ _, h => by
    obtain ⟨⟨s, hs, hne, rfl⟩, -, ht, hv⟩ := h
    simp only [Stmt.check]
    exact (mirrors_checkUpdate _ hs hne ht hv).bind fun _ _ => mirrors_pure trivial
  | .instruction _ _ _, h => by
    simp only [Stmt.check]
    exact (mirrors_checkInstruction _ _ h.2).bind fun _ _ => mirrors_pure trivial
  | .whileLoop _ condition body, h => by
    simp only [Stmt.check]
    refine mirrors_condition h.1 _ _ ?_
    exact ((Stmt.mirrors pick pick' body h.2).discard.within _).bind fun _ _ => mirrors_pure trivial
  | .forLoop _ _ _ range body, h => by
    simp only [Stmt.check]
    refine (Expr.mirrors_range h.1).bind fun _ _ => (mirrors_setType _ _).bind fun _ _ => ?_
    exact ((Stmt.mirrors pick pick' body h.2).discard.within _).bind fun _ _ => mirrors_pure trivial
  | .ifThen _ condition yes, h => by
    simp only [Stmt.check]
    refine mirrors_condition h.1 _ _ ?_
    exact ((Stmt.mirrors pick pick' yes h.2).discard.within _).bind fun _ _ => mirrors_pure trivial
  | .ifElse _ condition yes no, h => by
    simp only [Stmt.check]
    refine mirrors_condition h.1 _ _ ?_
    refine ((Stmt.mirrors pick pick' yes h.2.1).discard.within _).bind fun _ _ => ?_
    exact ((Stmt.mirrors pick pick' no h.2.2.2).discard.within _).bind fun _ _ => mirrors_pure trivial
  | .expr _, h => h.elim

theorem Stmt.mirrors_all (pick pick' : List Ty → Nat) : (ss : List Stmt) → Stmt.NormalAll ss →
    Mirrors (fun _ => True) (Stmt.checkAll (.collectingBy pick) ss)
      (Stmt.checkAll (.raisingBy pick') ss)
  | [], _ => by simpa only [Stmt.checkAll] using mirrors_pure trivial
  | s :: ss, h => by
    simp only [Stmt.checkAll]
    exact (Stmt.mirrors pick pick' s h.1).discard.bind fun _ _ => Stmt.mirrors_all pick pick' ss h.2

end

/-- A vector of two types, and a jump outside of loops. -/
def mixedText : String := "x = [1, \"a\"]; break;"

def mixedScript : Stmt :=
  let at1 : Span := ⟨1, 1⟩
  .block at1 [
    .assign at1 (.name at1 "x")
      (.vector at1 [.constant at1 (.int 1), .constant at1 (.text "a")]),
    .instruction at1 "break" []]

end MatScript
