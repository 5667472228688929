import MatScript.Proofs.FirstFault
import MatScript.Proofs.Reporting

/-! The check knows every operator that can be written: whatever else it reports of a script, it
never calls an operator unexpected. -/
namespace MatScript

namespace Typing

/-! ## Familiar messages -/

/-- A message about something else than an operator that the check does not know. -/
def Familiar (message : String) : Prop := ¬"Unexpected operator".toList <+: message.toList

lemma familiar_of_head {message : String} {c : Char} (hm : message.toList.head? = some c)
    (hc : c ≠ 'U') : Familiar message := by
  intro hprefix
  obtain ⟨cs, hcs⟩ := List.head?_eq_some_iff.1 hm
  have hfirst : "Unexpected operator".toList = 'U' :: "nexpected operator".toList := by decide
  rw [hcs, hfirst] at hprefix
  exact hc (List.cons_prefix_cons.1 hprefix).1.symm

/-- What is said of a script without its words is familiar. -/
lemma Complaint.familiar {message : String} (h : Complaint (fun _ => False) message) :
    Familiar message := by
  cases h with
  | mixedItems _ => exact familiar_of_head (c := 'A') (by simp [toString]) (by decide)
  | noMatrix => exact familiar_of_head (c := 'T') (by simp) (by decide)
  | wrongCount _ => exact familiar_of_head (c := 'F') (by simp [toString]) (by decide)
  | noSelector | longSelector | rangeStop => exact familiar_of_head (c := 'S') (by simp) (by decide)
  | rangeStart => exact familiar_of_head (c := 'F') (by simp) (by decide)
  | wrongElement _ _ => exact familiar_of_head (c := 'C') (by simp [toString]) (by decide)
  | whileCondition | ifCondition => exact familiar_of_head (c := 'C') (by simp) (by decide)
  | unequalDims hs _ _ _ | unequalRanks hs _ _ | wrongPair hs _ _ | wrongOperands hs _
  | unknownOperator hs | wrongArgument hs _ _ | undefinedName hs => exact hs.elim

/-- From one state to the other only familiar faults were added. -/
def AddsFamiliar (st st' : State) : Prop := ∀ f ∈ st'.faults, f ∈ st.faults ∨ Familiar f.message

lemma addsFamiliar_push {st : State} {f : Fault} (hf : Familiar f.message) :
    AddsFamiliar st { st with faults := st.faults.push f } := by
  intro g hg
  rcases Array.mem_push.1 hg with hg | rfl
  · exact .inl hg
  · exact .inr hf

lemma follows_familiar (p : Policy) :
    Follows (fun _ => False) (fun _ => True) AddsFamiliar p where
  refl _ _ hf := .inl hf
  trans h h' f hf := (h' f hf).elim (h f) .inr
  report _ _ _ hm := addsFamiliar_push (hm.elim Complaint.familiar fun ⟨_, hname, _⟩ => hname.elim)
  set _ _ _ _ _ hf := .inl hf
  push _ _ _ hf := .inl hf
  pop h := h

lemma tracks_familiar (p : Policy) : Tracks (fun _ => False) AddsFamiliar p :=
  (follows_familiar p).tracks

section

variable {p : Policy} (span : Span)

lemma familiar_report {message : String} (hm : Familiar message) :
    Moves AddsFamiliar (report p span message) := by
  intro st
  unfold report
  split
  · exact addsFamiliar_push hm
  · exact (follows_familiar p).refl st

lemma familiar_reject {message : String} (hm : Familiar message) :
    Moves AddsFamiliar (reject p span message) :=
  (tracks_familiar p).bind (familiar_report span hm) fun _ => (tracks_familiar p).pure _

lemma familiar_nameType (id : String) : Moves AddsFamiliar (nameType p span id) := by
  intro st
  rw [nameType_apply]
  split
  · exact (follows_familiar p).refl st
  · exact familiar_reject span (familiar_of_head (c := 'V') (by simp [toString]) (by decide)) st

/-! ## Operators and functions -/

lemma familiar_matchDims (symbol : String) (i : Nat) (as bs : List (Option Int)) :
    Moves AddsFamiliar (matchDims p span symbol i as bs) := by
  have h := tracks_familiar p
  induction as generalizing i bs with
  | nil => cases bs <;> exact h.pure _
  | cons a as ih =>
    cases bs with
    | nil => cases a <;> exact h.pure _
    | cons b bs =>
      cases a with
      | none => exact ih _ _
      | some a =>
        cases b with
        | none => exact ih _ _
        | some b =>
          unfold matchDims
          dsimp only
          split
          · refine h.bind (familiar_report span ?_) fun _ => ih _ _
            exact familiar_of_head (c := 'O') (by simp [toString]) (by decide)
          · exact ih _ _

lemma familiar_dottedType (symbol : String) (op : ScalarOperator) (a b : Ty) :
    Moves AddsFamiliar (dottedType p span symbol op a b) := by
  have h := tracks_familiar p
  unfold dottedType
  split
  · exact familiar_reject span (familiar_of_head (c := 'O') (by simp [toString]) (by decide))
  · split
    · exact familiar_reject span (familiar_of_head (c := 'O') (by simp [toString]) (by decide))
    · exact h.bind (familiar_matchDims span symbol 1 _ _) fun _ => h.pure _

/-- The operators that the check knows. -/
def Known (symbol : String) : Prop :=
  (ScalarOperator.ofSymbol? symbol).isSome ∨ symbol = "==" ∨ symbol = "!=" ∨ symbol = "'" ∨
    (dotted? symbol).isSome

instance (symbol : String) : Decidable (Known symbol) := inferInstanceAs (Decidable (_ ∨ _))

lemma familiar_operatorType {symbol : String} (hs : Known symbol) (ts : List Ty) :
    Moves AddsFamiliar (operatorType p span symbol ts) := by
  have h := tracks_familiar p
  unfold operatorType
  split
  · split
    · exact h.pure _
    · exact familiar_reject span (familiar_of_head (c := 'O') (by simp [toString]) (by decide))
  · next hscalar =>
    split
    · exact h.pure _
    · next hequality =>
      split
      · split
        · exact h.moves (.ite _ (.reject .noMatrix) (.pure _))
        · exact h.moves (.throw _)
      · next htranspose =>
        split
        · split
          · exact familiar_dottedType span symbol _ _ _
          · exact h.moves (.throw _)
        · next hdotted => simp_all [Known]

lemma familiar_integerArguments (function : String) (i : Nat) (ts : List Ty) :
    Moves AddsFamiliar (integerArguments p span function i ts) := by
  have h := tracks_familiar p
  induction ts generalizing i with
  | nil => exact h.pure _
  | cons t ts ih =>
    unfold integerArguments
    dsimp only
    split
    · refine h.bind (familiar_report span ?_) fun _ => ih _
      exact familiar_of_head (c := 'F') (by simp [toString]) (by decide)
    · exact ih _

lemma familiar_callType (function : String) (ts : List Ty) :
    Moves AddsFamiliar (callType p span function ts) := by
  have h := tracks_familiar p
  have hrest : Moves AddsFamiliar (do
      integerArguments p span function 1 ts
      return (⟨some .float, List.replicate ts.length none⟩ : Ty)) :=
    h.bind (familiar_integerArguments span function 1 ts) fun _ => h.pure _
  unfold callType
  dsimp only
  split
  · exact h.bind (h.moves (.report (.wrongCount _))) fun _ => hrest
  · exact hrest

end

end Typing

open Typing

lemma known_of_operandsFit {symbol : String} {levels : List Nat} (h : OperandsFit symbol levels) :
    Known symbol := by
  rcases operator_of_operandsFit h with rfl | rfl | ⟨s, hs, rfl⟩
  · decide
  · decide
  · revert hs
    cases s <;> decide

/-! ## Expressions -/

mutual

theorem Expr.familiar (p : Policy) : (e : Expr) → e.Normal → Moves AddsFamiliar (e.check p)
  | .constant _ _, _ => by simpa only [Expr.check] using (tracks_familiar p).pure _
  | .vector _ items, hn => by
    simp only [Expr.check]
    exact (tracks_familiar p).bind (Expr.familiar_all p items hn.2) fun _ =>
      (tracks_familiar p).moves (.vectorType _ _)
  | .operator span _ operands, hn => by
    simp only [Expr.check]
    exact (tracks_familiar p).bind (Expr.familiar_all p operands hn.2) fun _ =>
      familiar_operatorType span (known_of_operandsFit hn.1) _
  | .call span function arguments, hn => by
    simp only [Expr.check]
    exact (tracks_familiar p).bind (Expr.familiar_all p arguments hn.2.2) fun _ =>
      familiar_callType span function _
  | .name span id, _ => by simpa only [Expr.check] using familiar_nameType span id
  | .element _ id idSpan indices _, hn => by
    simp only [Expr.check]
    refine (tracks_familiar p).bind (familiar_nameType idSpan id) fun _ => ?_
    refine (tracks_familiar p).bind (Expr.familiar_all p indices hn.2) fun _ => ?_
    exact (tracks_familiar p).bind ((tracks_familiar p).moves (.vectorType _ _)) fun _ =>
      (tracks_familiar p).moves (.elementType _ _ _ _)
  | .range _ _ _, hn | .gap _ _, hn => hn.elim

theorem Expr.familiar_all (p : Policy) : (es : List Expr) → Expr.NormalAll es →
    Moves AddsFamiliar (Expr.checkAll p es)
  | [], _ => by simpa only [Expr.checkAll] using (tracks_familiar p).pure _
  | e :: es, hn => by
    simp only [Expr.checkAll]
    exact (tracks_familiar p).bind (e.familiar p hn.1) fun _ =>
      (tracks_familiar p).bind (Expr.familiar_all p es hn.2) fun _ => (tracks_familiar p).pure _

end

lemma Expr.NormalRange.familiar {range : Expr} (hn : range.NormalRange) (p : Policy) :
    Moves AddsFamiliar (range.check p) := by
  have h := tracks_familiar p
  cases range with
  | range _ start stop =>
    simp only [Expr.check]
    refine h.bind (start.familiar p hn.1) fun _ => ?_
    refine h.bind (h.moves (.require _ _ .rangeStart)) fun _ => ?_
    refine h.bind (stop.familiar p hn.2) fun _ => ?_
    exact h.bind (h.moves (.require _ _ .rangeStop)) fun _ => h.pure _
  | _ => exact hn.elim

/-! ## Statements -/

namespace Typing

variable {p : Policy} (span : Span) {target value : Expr}

lemma familiar_checkAssign (ht : target.Normal) (hv : value.Normal) :
    Moves AddsFamiliar (checkAssign p span target value) := by
  have h := follows_familiar p
  unfold checkAssign
  split
  · exact h.tracks.bind (value.familiar p hv) fun _ => h.moves_setType trivial _
  · refine h.tracks.bind (Expr.familiar p _ ht) fun _ => ?_
    refine h.tracks.bind (value.familiar p hv) fun _ => ?_
    exact h.tracks.moves (.require _ _ (.wrongElement _ _))
  · exact h.tracks.pure _

lemma familiar_checkUpdate (symbol : String) (ht : target.Normal) (hv : value.Normal) :
    Moves AddsFamiliar (checkUpdate p span symbol target value) := by
  have h := follows_familiar p
  unfold checkUpdate
  refine h.tracks.bind (target.familiar p ht) fun _ => ?_
  refine h.tracks.bind (value.familiar p hv) fun _ => ?_
  dsimp only
  split
  · exact h.tracks.moves (.throw _)
  · split
    · exact familiar_report span (familiar_of_head (c := 'O') (by simp [toString]) (by decide))
    · split
      · exact h.moves_setType trivial _
      · exact h.tracks.moves (.require _ _ (.wrongElement _ _))
      · exact h.tracks.pure _

lemma familiar_checkInstruction (name : String) {arguments : List Expr}
    (hn : Expr.NormalAll arguments) :
    Moves AddsFamiliar (checkInstruction p span name arguments) := by
  have h := follows_familiar p
  have hrest := h.tracks.discard (Expr.familiar_all p arguments hn)
  unfold checkInstruction
  split
  · refine h.tracks.bind h.refl fun table => ?_
    dsimp only
    split
    · refine h.tracks.bind (familiar_report span ?_) fun _ => hrest
      exact familiar_of_head (c := 'I') (by simp [toString]) (by decide)
    · exact hrest
  · exact hrest

lemma familiar_condition {condition : Expr} (hn : condition.Normal) {message : String}
    (hm : Complaint (fun _ => False) message) {rest : Check Ty} (hrest : Moves AddsFamiliar rest) :
    Moves AddsFamiliar (do require p span (← condition.check p) .bool message; rest) :=
  (tracks_familiar p).bind (condition.familiar p hn) fun _ =>
    (tracks_familiar p).bind ((tracks_familiar p).moves (.require _ _ hm)) fun _ => hrest

end Typing

mutual

/-- The check of a statement that can be written adds familiar faults only. -/
theorem Stmt.familiar (p : Policy) : (s : Stmt) → s.Normal → Moves AddsFamiliar (s.check p)
  | .block _ body, hn => by
    simp only [Stmt.check]
    exact (tracks_familiar p).bind ((follows_familiar p).within (Stmt.familiar_all p body hn))
      fun _ => (tracks_familiar p).pure _
  | .assign span _ _, hn => by
    simp only [Stmt.check]
    exact (tracks_familiar p).bind (familiar_checkAssign span hn.2.1 hn.2.2) fun _ =>
      (tracks_familiar p).pure _
  | .update span symbol _ _, hn => by
    simp only [Stmt.check]
    exact (tracks_familiar p).bind (familiar_checkUpdate span symbol hn.2.2.1 hn.2.2.2) fun _ =>
      (tracks_familiar p).pure _
  | .instruction span name _, hn => by
    simp only [Stmt.check]
    exact (tracks_familiar p).bind (familiar_checkInstruction span name hn.2) fun _ =>
      (tracks_familiar p).pure _
  | .whileLoop span _ body, hn => by
    simp only [Stmt.check]
    refine familiar_condition span hn.1 .whileCondition ?_
    exact (follows_familiar p).body (body.familiar p hn.2) ((tracks_familiar p).pure _)
  | .forLoop _ _ _ range body, hn => by
    simp only [Stmt.check]
    refine (tracks_familiar p).bind (hn.1.familiar p) fun _ => ?_
    refine (tracks_familiar p).bind ((follows_familiar p).moves_setType trivial _) fun _ => ?_
    exact (follows_familiar p).body (body.familiar p hn.2) ((tracks_familiar p).pure _)
  | .ifThen span _ yes, hn => by
    simp only [Stmt.check]
    refine familiar_condition span hn.1 .ifCondition ?_
    exact (follows_familiar p).body (yes.familiar p hn.2) ((tracks_familiar p).pure _)
  | .ifElse span _ yes no, hn => by
    simp only [Stmt.check]
    refine familiar_condition span hn.1 .ifCondition ?_
    refine (follows_familiar p).body (yes.familiar p hn.2.1) ?_
    exact (follows_familiar p).body (no.familiar p hn.2.2.2) ((tracks_familiar p).pure _)
  | .expr _, hn => hn.elim

theorem Stmt.familiar_all (p : Policy) : (ss : List Stmt) → Stmt.NormalAll ss →
    Moves AddsFamiliar (Stmt.checkAll p ss)
  | [], _ => by simpa only [Stmt.checkAll] using (tracks_familiar p).pure _
  | s :: ss, hn => by
    simp only [Stmt.checkAll]
    refine (tracks_familiar p).bind ((tracks_familiar p).discard (s.familiar p hn.1)) fun _ => ?_
    exact Stmt.familiar_all p ss hn.2

end

end MatScript
