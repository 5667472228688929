import MatScript.Proofs.Ending
import MatScript.Proofs.Names
import MatScript.Proofs.Scopes
import MatScript.Typing

/-! What a check that comes to its end says. An expression leaves the table as it is and reads only
names in it; a statement changes the types of names and adds names to the innermost scope. -/
namespace MatScript

namespace Typing

variable {α β : Type} {p : Policy} {st st' : State}

/-- The state inside a new scope. -/
def State.push (st : State) (name : String) : State := { st with table := st.table.push name }

/-- The state after the innermost scope is left. -/
def State.pop (st : State) : State := { st with table := st.table.pop }

/-- The state with a type given to a name. -/
def State.set (st : State) (id : String) (t : Ty) : State := { st with table := st.table.set id t }

/-- The state with a type given to the target of an assignment, if that is a name. -/
def State.assign (st : State) (target : Expr) (t : Ty) : State :=
  match target with
  | .name _ id => st.set id t
  | _ => st

@[simp] lemma State.table_push (name : String) : (st.push name).table = st.table.push name := rfl

@[simp] lemma State.table_pop : st.pop.table = st.table.pop := rfl

@[simp] lemma State.table_set (id : String) (t : Ty) : (st.set id t).table = st.table.set id t := rfl

lemma within_eq_ok {name : String} {body : Check Unit} {u : Unit} :
    within name body st = .ok u st' ↔ ∃ st₁, body (st.push name) = .ok () st₁ ∧ st' = st₁.pop := by
  have hpush : body { st with table := st.table.push name } = body (st.push name) := rfl
  unfold within
  rw [hpush]
  cases body (st.push name) with
  | ok _ st₁ => simp [State.pop, eq_comm]
  | error e st₁ => simp

lemma within_discard_bind {name : String} {body : Check α} {rest : Check β} {b : β}
    (h : (do within name (discard body); rest) st = .ok b st') :
    ∃ a st₁, body (st.push name) = .ok a st₁ ∧ rest st₁.pop = .ok b st' := by
  obtain ⟨_, _, h₁, h⟩ := bind_eq_ok.mp h
  obtain ⟨st₁, h₂, rfl⟩ := within_eq_ok.mp h₁
  obtain ⟨a, ha⟩ := discard_eq_ok.mp h₂
  exact ⟨a, st₁, ha, h⟩

lemma setType_eq_ok {id : String} {t : Ty} {u : Unit} :
    setType id t st = .ok u st' ↔ st' = st.set id t := by
  change EStateM.Result.ok () (st.set id t) = _ ↔ _
  simp [eq_comm]

/-- The checks that leave the table as it is. -/
def KeepsTable (c : Check α) : Prop := ∀ st a st', c st = .ok a st' → st'.table = st.table

lemma keepsTable_pure (a : α) : KeepsTable (pure a) := by
  intro st b st' h
  cases h
  rfl

lemma keepsTable_throw (e : Stop) : KeepsTable (throw e : Check α) := by
  intro st a st' h
  cases h

lemma KeepsTable.bind {c : Check α} {f : α → Check β} (hc : KeepsTable c)
    (hf : ∀ a, KeepsTable (f a)) : KeepsTable (c >>= f) := by
  intro st b st' h
  obtain ⟨a, st₁, h₁, h₂⟩ := bind_eq_ok.mp h
  exact (hf a _ _ _ h₂).trans (hc _ _ _ h₁)

lemma KeepsTable.ite {c d : Check α} (b : Prop) [Decidable b] (hc : KeepsTable c)
    (hd : KeepsTable d) : KeepsTable (if b then c else d) := by
  split
  · exact hc
  · exact hd

lemma keepsTable_report (span : Span) (message : String) : KeepsTable (report p span message) := by
  intro st a st' h
  unfold report at h
  split at h
  · cases h
    rfl
  · cases h

lemma keepsTable_reject (span : Span) (message : String) : KeepsTable (reject p span message) :=
  (keepsTable_report span message).bind fun _ => keepsTable_pure _

lemma keepsTable_require (span : Span) (t required : Ty) (message : String) :
    KeepsTable (require p span t required message) :=
  .ite _ (keepsTable_pure _) (keepsTable_report span message)

lemma keepsTable_vectorType (span : Span) (ts : List Ty) : KeepsTable (vectorType p span ts) := by
  unfold vectorType
  split
  · exact keepsTable_pure _
  · exact .ite _ ((keepsTable_report _ _).bind fun _ => keepsTable_pure _) (keepsTable_pure _)

lemma keepsTable_matchDims (span : Span) (symbol : String) (i : Nat) (as bs : List (Option Int)) :
    KeepsTable (matchDims p span symbol i as bs) := by
  induction as generalizing i bs with
  | nil => cases bs <;> exact keepsTable_pure _
  | cons a as ih =>
    cases bs with
    | nil => cases a <;> exact keepsTable_pure _
    | cons b bs =>
      cases a with
      | none => exact ih _ _
      | some a =>
        cases b with
        | none => exact ih _ _
        | some b => exact .ite _ ((keepsTable_report _ _).bind fun _ => ih _ _) (ih _ _)

lemma keepsTable_dottedType (span : Span) (symbol : String) (op : ScalarOperator) (a b : Ty) :
    KeepsTable (dottedType p span symbol op a b) := by
  unfold dottedType
  split
  · exact keepsTable_reject _ _
  · refine .ite _ (keepsTable_reject _ _) ?_
    exact (keepsTable_matchDims _ _ _ _ _).bind fun _ => keepsTable_pure _

lemma keepsTable_operatorType (span : Span) (symbol : String) (ts : List Ty) :
    KeepsTable (operatorType p span symbol ts) := by
  unfold operatorType
  split
  · split
    · exact keepsTable_pure _
    · exact keepsTable_reject _ _
  · refine .ite _ (keepsTable_pure _) (.ite _ ?_ ?_)
    · split
      · exact .ite _ (keepsTable_reject _ _) (keepsTable_pure _)
      · exact keepsTable_throw _
    · split
      · split
        · exact keepsTable_dottedType _ _ _ _ _
        · exact keepsTable_throw _
      · exact keepsTable_reject _ _

lemma keepsTable_integerArguments (span : Span) (function : String) (i : Nat) (ts : List Ty) :
    KeepsTable (integerArguments p span function i ts) := by
  induction ts generalizing i with
  | nil => exact keepsTable_pure _
  | cons t ts ih => exact .ite _ ((keepsTable_report _ _).bind fun _ => ih _) (ih _)

lemma keepsTable_callType (span : Span) (function : String) (ts : List Ty) :
    KeepsTable (callType p span function ts) := by
  have hrest : KeepsTable (do
      integerArguments p span function 1 ts
      return (⟨some .float, List.replicate ts.length none⟩ : Ty)) :=
    (keepsTable_integerArguments _ _ _ _).bind fun _ => keepsTable_pure _
  exact .ite _ ((keepsTable_report _ _).bind fun _ => hrest) hrest

lemma nameType_apply (span : Span) (id : String) : nameType p span id st =
    match st.table.get? id with
    | some t => .ok t st
    | none => reject p span s!"Variable {id} is not defined" st := by
  unfold nameType
  rw [bind_ok (show getTable st = .ok st.table st from rfl)]
  cases st.table.get? id <;> rfl

lemma keepsTable_nameType (span : Span) (id : String) : KeepsTable (nameType p span id) := by
  intro st t st' h
  rw [nameType_apply] at h
  split at h
  · cases h
    rfl
  · exact keepsTable_reject _ _ _ _ _ h

lemma keepsTable_elementType (span : Span) (array index : Ty) (count : Nat) :
    KeepsTable (elementType p span array index count) :=
  .ite _ (keepsTable_reject _ _) (.ite _ (keepsTable_reject _ _) (keepsTable_pure _))

end Typing

open Typing

mutual

/-- Checking an expression leaves the table as it is. -/
theorem Expr.keepsTable (p : Policy) : (e : Expr) → KeepsTable (e.check p)
  | .constant _ _ => by simpa only [Expr.check] using keepsTable_pure _
  | .vector _ items => by
    simpa only [Expr.check] using (Expr.keepsTable_all p items).bind fun _ => keepsTable_vectorType _ _
  | .range _ start stop => by
    simp only [Expr.check]
    refine (start.keepsTable p).bind fun _ => (keepsTable_require _ _ _ _).bind fun _ => ?_
    exact (stop.keepsTable p).bind fun _ => (keepsTable_require _ _ _ _).bind fun _ => keepsTable_pure _
  | .operator _ _ operands => by
    simpa only [Expr.check] using (Expr.keepsTable_all p operands).bind fun _ => keepsTable_operatorType _ _ _
  | .call _ _ arguments => by
    simpa only [Expr.check] using (Expr.keepsTable_all p arguments).bind fun _ => keepsTable_callType _ _ _
  | .name _ _ => by simpa only [Expr.check] using keepsTable_nameType _ _
  | .element _ _ _ indices _ => by
    simp only [Expr.check]
    refine (keepsTable_nameType _ _).bind fun _ => (Expr.keepsTable_all p indices).bind fun _ => ?_
    exact (keepsTable_vectorType _ _).bind fun _ => keepsTable_elementType _ _ _ _
  | .gap _ _ => by simpa only [Expr.check] using keepsTable_throw _

theorem Expr.keepsTable_all (p : Policy) : (es : List Expr) → KeepsTable (Expr.checkAll p es)
  | [] => by simpa only [Expr.checkAll] using keepsTable_pure _
  | e :: es => by
    simp only [Expr.checkAll]
    exact (e.keepsTable p).bind fun _ => (Expr.keepsTable_all p es).bind fun _ => keepsTable_pure _

end

namespace Typing

variable {α β : Type} {p : Policy} {st st' : State}

lemma report_raising (span : Span) (message : String) :
    report .raising span message st = .error (.fault ⟨span, message⟩) st := rfl

lemma reject_raising (span : Span) (message : String) :
    reject .raising span message st = .error (.fault ⟨span, message⟩) st := rfl

lemma require_raising {span : Span} {t required : Ty} {message : String} {u : Unit} :
    require .raising span t required message st = .ok u st' ↔ t = required ∧ st' = st := by
  unfold require
  split
  · next h => simp [h, eq_comm]
  · next h => simp [h, report_raising]

/-- A condition is of type `bool`; the rest is checked in the state that it leaves. -/
lemma condition_raising {span : Span} {condition : Expr} {message : String} {rest : Check α} {a : α}
    (h : (do require .raising span (← condition.check .raising) .bool message; rest) st = .ok a st') :
    ∃ st₁, condition.check .raising st = .ok .bool st₁ ∧ rest st₁ = .ok a st' := by
  obtain ⟨t, st₁, h₁, h⟩ := bind_eq_ok.mp h
  obtain ⟨_, _, h₂, h⟩ := bind_eq_ok.mp h
  obtain ⟨rfl, rfl⟩ := require_raising.mp h₂
  exact ⟨_, h₁, h⟩

lemma nameType_raising {span : Span} {id : String} {t : Ty} :
    nameType .raising span id st = .ok t st' ↔ st.table.get? id = some t ∧ st' = st := by
  rw [nameType_apply]
  cases st.table.get? id with
  | some t' => simp [eq_comm]
  | none => simp [reject_raising]

end Typing

mutual

/-- All names of an accepted expression are in the table. -/
theorem Expr.names_of_check {st st' : State} {t : Ty} : (e : Expr) →
    e.check .raising st = .ok t st' → ∀ x ∈ e.names, st.table.contains x = true
  | .constant _ _, _ => by simp [Expr.names]
  | .vector _ items, h => by
    simp only [Expr.check] at h
    obtain ⟨ts, st₁, h₁, -⟩ := bind_eq_ok.mp h
    simpa only [Expr.names] using Expr.namesAll_of_check items h₁
  | .range _ start stop, h => by
    simp only [Expr.check] at h
    obtain ⟨a, st₁, h₁, h⟩ := bind_eq_ok.mp h
    obtain ⟨_, st₂, h₂, h⟩ := bind_eq_ok.mp h
    obtain ⟨b, st₃, h₃, h⟩ := bind_eq_ok.mp h
    have hstart := Expr.names_of_check start h₁
    have hstop := Expr.names_of_check stop h₃
    rw [keepsTable_require _ _ _ _ _ _ _ h₂, start.keepsTable _ _ _ _ h₁] at hstop
    intro x hx
    rw [Expr.names, List.mem_append] at hx
    exact hx.elim (hstart x) (hstop x)
  | .operator _ _ operands, h => by
    simp only [Expr.check] at h
    obtain ⟨ts, st₁, h₁, -⟩ := bind_eq_ok.mp h
    simpa only [Expr.names] using Expr.namesAll_of_check operands h₁
  | .call _ _ arguments, h => by
    simp only [Expr.check] at h
    obtain ⟨ts, st₁, h₁, -⟩ := bind_eq_ok.mp h
    simpa only [Expr.names] using Expr.namesAll_of_check arguments h₁
  | .name _ id, h => by
    simp only [Expr.check] at h
    have hid := (nameType_raising.mp h).1
    simpa [Expr.names] using Scopes.contains_of_get? hid
  | .element _ id _ indices _, h => by
    simp only [Expr.check] at h
    obtain ⟨a, st₁, h₁, h⟩ := bind_eq_ok.mp h
    obtain ⟨ts, st₂, h₂, -⟩ := bind_eq_ok.mp h
    obtain ⟨hid, rfl⟩ := nameType_raising.mp h₁
    have hindices := Expr.namesAll_of_check indices h₂
    intro x hx
    rw [Expr.names, List.mem_cons] at hx
    rcases hx with rfl | hx
    · exact Scopes.contains_of_get? hid
    · exact hindices x hx
  | .gap _ _, _ => by simp [Expr.names]

theorem Expr.namesAll_of_check {st st' : State} {ts : List Ty} : (es : List Expr) →
    Expr.checkAll .raising es st = .ok ts st' → ∀ x ∈ Expr.namesAll es, st.table.contains x = true
  | [], _ => by simp [Expr.namesAll]
  | e :: es, h => by
    simp only [Expr.checkAll] at h
    obtain ⟨t, st₁, h₁, h⟩ := bind_eq_ok.mp h
    obtain ⟨us, st₂, h₂, -⟩ := bind_eq_ok.mp h
    have he := Expr.names_of_check e h₁
    have hes := Expr.namesAll_of_check es h₂
    rw [e.keepsTable _ _ _ _ h₁] at hes
    intro x hx
    rw [Expr.namesAll, List.mem_append] at hx
    exact hx.elim (he x) (hes x)

end

namespace Typing

variable {α β : Type} {p : Policy}

/-- The checks that keep all scopes and add names to the innermost one only. -/
def WidensTable (c : Check α) : Prop := ∀ st a st', c st = .ok a st' → st.table.Widens st'.table

lemma KeepsTable.widens {c : Check α} (h : KeepsTable c) : WidensTable c := by
  intro st a st' hc
  rw [h _ _ _ hc]
  exact .refl _

lemma WidensTable.bind {c : Check α} {f : α → Check β} (hc : WidensTable c)
    (hf : ∀ a, WidensTable (f a)) : WidensTable (c >>= f) := by
  intro st b st' h
  obtain ⟨a, st₁, h₁, h₂⟩ := bind_eq_ok.mp h
  exact (hc _ _ _ h₁).trans (hf a _ _ _ h₂)

lemma WidensTable.discard {c : Check α} (hc : WidensTable c) : WidensTable (discard c) := by
  intro st a st' h
  obtain ⟨b, hb⟩ := discard_eq_ok.mp h
  exact hc _ _ _ hb

lemma widensTable_setType (id : String) (t : Ty) : WidensTable (setType id t) := by
  intro st a st' h
  obtain rfl := setType_eq_ok.mp h
  exact Scopes.widens_set st.table id t

lemma WidensTable.within {name : String} {body : Check Unit} (h : WidensTable body) :
    WidensTable (within name body) := by
  intro st a st' hw
  obtain ⟨st₁, h₁, rfl⟩ := within_eq_ok.mp hw
  exact (h _ _ _ h₁).pop.widens

lemma widensTable_checkAssign (span : Span) (target value : Expr) :
    WidensTable (checkAssign p span target value) := by
  unfold checkAssign
  split
  · exact (value.keepsTable p).widens.bind fun _ => widensTable_setType _ _
  · refine KeepsTable.widens ((Expr.keepsTable p _).bind fun _ => ?_)
    exact (value.keepsTable p).bind fun _ => keepsTable_require _ _ _ _
  · exact (keepsTable_pure _).widens

lemma widensTable_checkUpdate (span : Span) (symbol : String) (target value : Expr) :
    WidensTable (checkUpdate p span symbol target value) := by
  unfold checkUpdate
  refine (target.keepsTable p).widens.bind fun _ => (value.keepsTable p).widens.bind fun _ => ?_
  dsimp only
  cases ScalarOperator.ofSymbol? _ with
  | none => exact (keepsTable_throw _).widens
  | some op =>
    dsimp only
    cases op.result? _ with
    | none => exact (keepsTable_report _ _).widens
    | some result =>
      dsimp only
      split
      · exact widensTable_setType _ _
      · exact (keepsTable_require _ _ _ _).widens
      · exact (keepsTable_pure _).widens

lemma keepsTable_checkInstruction (span : Span) (name : String) (arguments : List Expr) :
    KeepsTable (checkInstruction p span name arguments) := by
  have hrest : KeepsTable (discard (Expr.checkAll p arguments)) := by
    intro st a st' h
    obtain ⟨ts, hts⟩ := discard_eq_ok.mp h
    exact Expr.keepsTable_all p arguments _ _ _ hts
  have hget : KeepsTable getTable := by
    intro st a st' h
    cases h
    rfl
  refine .ite _ (hget.bind fun _ => .ite _ ?_ hrest) hrest
  exact (keepsTable_report _ _).bind fun _ => hrest

end Typing

mutual

/-- A statement adds names to the innermost scope only, and leaves every scope that it opens. -/
theorem Stmt.widensTable (p : Policy) : (s : Stmt) → WidensTable (s.check p)
  | .block _ body => by
    simp only [Stmt.check]
    exact (Stmt.widensTable_all p body).within.bind fun _ => (keepsTable_pure _).widens
  | .assign _ _ _ => by
    simp only [Stmt.check]
    exact (widensTable_checkAssign _ _ _).bind fun _ => (keepsTable_pure _).widens
  | .update _ _ _ _ => by
    simp only [Stmt.check]
    exact (widensTable_checkUpdate _ _ _ _).bind fun _ => (keepsTable_pure _).widens
  | .instruction _ _ _ => by
    simp only [Stmt.check]
    exact ((keepsTable_checkInstruction _ _ _).bind fun _ => keepsTable_pure _).widens
  | .whileLoop _ condition body => by
    simp only [Stmt.check]
    refine (condition.keepsTable p).widens.bind fun _ => (keepsTable_require _ _ _ _).widens.bind fun _ => ?_
    exact (body.widensTable p).discard.within.bind fun _ => (keepsTable_pure _).widens
  | .forLoop _ _ _ range body => by
    simp only [Stmt.check]
    refine (range.keepsTable p).widens.bind fun _ => (widensTable_setType _ _).bind fun _ => ?_
    exact (body.widensTable p).discard.within.bind fun _ => (keepsTable_pure _).widens
  | .ifThen _ condition yes => by
    simp only [Stmt.check]
    refine (condition.keepsTable p).widens.bind fun _ => (keepsTable_require _ _ _ _).widens.bind fun _ => ?_
    exact (yes.widensTable p).discard.within.bind fun _ => (keepsTable_pure _).widens
  | .ifElse _ condition yes no => by
    simp only [Stmt.check]
    refine (condition.keepsTable p).widens.bind fun _ => (keepsTable_require _ _ _ _).widens.bind fun _ => ?_
    refine (yes.widensTable p).discard.within.bind fun _ => ?_
    exact (no.widensTable p).discard.within.bind fun _ => (keepsTable_pure _).widens
  | .expr e => by
    simp only [Stmt.check]
    exact (e.keepsTable p).widens

theorem Stmt.widensTable_all (p : Policy) : (ss : List Stmt) → WidensTable (Stmt.checkAll p ss)
  | [] => by simpa only [Stmt.checkAll] using (keepsTable_pure _).widens
  | s :: ss => by
    simp only [Stmt.checkAll]
    exact (s.widensTable p).discard.bind fun _ => Stmt.widensTable_all p ss

end

/-! Statements, one lemma for each kind: what its check consists of. -/

namespace Stmt

variable {p : Policy} {st st' : State} {t : Ty} {span : Span}

lemma check_block {body : List Stmt} (h : (block span body).check p st = .ok t st') :
    ∃ st₁, checkAll p body (st.push "program") = .ok () st₁ ∧ st' = st₁.pop := by
  simp only [Stmt.check] at h
  obtain ⟨_, st₁, h₁, h⟩ := bind_eq_ok.mp h
  cases h
  exact within_eq_ok.mp h₁

lemma check_assign {target value : Expr} (h : (assign span target value).check p st = .ok t st') :
    checkAssign p span target value st = .ok () st' := by
  simp only [Stmt.check] at h
  obtain ⟨_, st₁, h₁, h⟩ := bind_eq_ok.mp h
  cases h
  exact h₁

lemma check_update {symbol : String} {target value : Expr}
    (h : (update span symbol target value).check p st = .ok t st') :
    checkUpdate p span symbol target value st = .ok () st' := by
  simp only [Stmt.check] at h
  obtain ⟨_, st₁, h₁, h⟩ := bind_eq_ok.mp h
  cases h
  exact h₁

lemma checkAssign_name {nameSpan : Span} {id : String} {value : Expr} {u : Unit}
    (h : checkAssign p span (.name nameSpan id) value st = .ok u st') :
    ∃ t st₁, value.check p st = .ok t st₁ ∧ st' = st₁.set id t := by
  obtain ⟨t, st₁, h₁, h₂⟩ := bind_eq_ok.mp h
  exact ⟨t, st₁, h₁, setType_eq_ok.mp h₂⟩

lemma checkAssign_element {elementSpan idSpan indexSpan : Span} {id : String} {indices : List Expr}
    {value : Expr} {u : Unit}
    (h : checkAssign .raising span (.element elementSpan id idSpan indices indexSpan) value st = .ok u st') :
    ∃ t st₁, (Expr.element elementSpan id idSpan indices indexSpan).check .raising st = .ok t st₁ ∧
      value.check .raising st₁ = .ok t st' := by
  obtain ⟨t, st₁, h₁, h⟩ := bind_eq_ok.mp h
  obtain ⟨v, st₂, h₂, h₃⟩ := bind_eq_ok.mp h
  obtain ⟨rfl, rfl⟩ := require_raising.mp h₃
  exact ⟨v, st₁, h₁, h₂⟩

lemma checkUpdate_raising {symbol : String} {target value : Expr} {u : Unit}
    (h : checkUpdate .raising span symbol target value st = .ok u st') :
    ∃ t st₁ v st₂ op result, target.check .raising st = .ok t st₁ ∧
      value.check .raising st₁ = .ok v st₂ ∧
      ScalarOperator.ofSymbol? (symbol.dropEnd 1).toString = some op ∧
      op.result? [t, v] = some result ∧ st' = st₂.assign target result := by
  unfold checkUpdate at h
  obtain ⟨t, st₁, h₁, h⟩ := bind_eq_ok.mp h
  obtain ⟨v, st₂, h₂, h⟩ := bind_eq_ok.mp h
  cases hop : ScalarOperator.ofSymbol? (symbol.dropEnd 1).toString with
  | none => rw [hop] at h; cases h
  | some op =>
    rw [hop] at h
    dsimp only at h
    cases hr : op.result? [t, v] with
    | none => rw [hr] at h; cases h
    | some result =>
      rw [hr] at h
      refine ⟨t, st₁, v, st₂, op, result, h₁, h₂, rfl, hr, ?_⟩
      cases target with
      | name _ id => exact setType_eq_ok.mp h
      | element _ _ _ _ _ => exact (require_raising.mp h).2
      | _ => cases h; rfl

lemma check_instruction {name : String} {arguments : List Expr}
    (h : (instruction span name arguments).check .raising st = .ok t st') :
    (name = "break" ∨ name = "continue" → st.table.hasScope "loop" = true) ∧
      ∃ ts, Expr.checkAll .raising arguments st = .ok ts st' := by
  simp only [Stmt.check] at h
  obtain ⟨_, st₁, h₁, h⟩ := bind_eq_ok.mp h
  cases h
  unfold checkInstruction at h₁
  by_cases hn : name = "break" ∨ name = "continue"
  · rw [if_pos hn] at h₁
    rw [bind_ok (show getTable st = .ok st.table st from rfl)] at h₁
    by_cases hl : st.table.hasScope "loop" = true
    · rw [if_neg (not_not.mpr hl)] at h₁
      exact ⟨fun _ => hl, discard_eq_ok.mp h₁⟩
    · rw [if_pos hl] at h₁
      exact absurd h₁ (by rw [bind_error (report_raising _ _)]; simp)
  · rw [if_neg hn] at h₁
    exact ⟨fun hb => absurd hb hn, discard_eq_ok.mp h₁⟩

lemma check_whileLoop {condition : Expr} {body : Stmt}
    (h : (whileLoop span condition body).check .raising st = .ok t st') :
    ∃ st₁ st₂ t₂, condition.check .raising st = .ok .bool st₁ ∧
      body.check .raising (st₁.push "loop") = .ok t₂ st₂ ∧ st' = st₂.pop := by
  simp only [Stmt.check] at h
  obtain ⟨st₁, h₁, h⟩ := condition_raising h
  obtain ⟨t₂, st₂, h₂, h⟩ := within_discard_bind h
  cases h
  exact ⟨st₁, st₂, t₂, h₁, h₂, rfl⟩

lemma check_forLoop {id : String} {idSpan : Span} {range : Expr} {body : Stmt}
    (h : (forLoop span id idSpan range body).check p st = .ok t st') :
    ∃ t₁ st₁ st₂ t₂, range.check p st = .ok t₁ st₁ ∧
      body.check p ((st₁.set id t₁).push "loop") = .ok t₂ st₂ ∧ st' = st₂.pop := by
  simp only [Stmt.check] at h
  obtain ⟨t₁, st₁, h₁, h⟩ := bind_eq_ok.mp h
  obtain ⟨_, _, h₂, h⟩ := bind_eq_ok.mp h
  obtain rfl := setType_eq_ok.mp h₂
  obtain ⟨t₂, st₂, h₃, h⟩ := within_discard_bind h
  cases h
  exact ⟨t₁, st₁, st₂, t₂, h₁, h₃, rfl⟩

lemma check_ifThen {condition : Expr} {yes : Stmt}
    (h : (ifThen span condition yes).check .raising st = .ok t st') :
    ∃ st₁ st₂ t₂, condition.check .raising st = .ok .bool st₁ ∧
      yes.check .raising (st₁.push "then") = .ok t₂ st₂ ∧ st' = st₂.pop := by
  simp only [Stmt.check] at h
  obtain ⟨st₁, h₁, h⟩ := condition_raising h
  obtain ⟨t₂, st₂, h₂, h⟩ := within_discard_bind h
  cases h
  exact ⟨st₁, st₂, t₂, h₁, h₂, rfl⟩

lemma check_ifElse {condition : Expr} {yes no : Stmt}
    (h : (ifElse span condition yes no).check .raising st = .ok t st') :
    ∃ st₁ st₂ t₂ st₃ t₃, condition.check .raising st = .ok .bool st₁ ∧
      yes.check .raising (st₁.push "then") = .ok t₂ st₂ ∧
      no.check .raising (st₂.pop.push "else") = .ok t₃ st₃ ∧ st' = st₃.pop := by
  simp only [Stmt.check] at h
  obtain ⟨st₁, h₁, h⟩ := condition_raising h
  obtain ⟨t₂, st₂, h₂, h⟩ := within_discard_bind h
  obtain ⟨t₃, st₃, h₃, h⟩ := within_discard_bind h
  cases h
  exact ⟨st₁, st₂, t₂, st₃, t₃, h₁, h₂, h₃, rfl⟩

lemma checkAll_cons {s : Stmt} {ss : List Stmt} (h : checkAll p (s :: ss) st = .ok () st') :
    ∃ t₁ st₁, s.check p st = .ok t₁ st₁ ∧ checkAll p ss st₁ = .ok () st' := by
  simp only [checkAll] at h
  obtain ⟨_, st₁, h₁, h⟩ := bind_eq_ok.mp h
  obtain ⟨t₁, h₂⟩ := discard_eq_ok.mp h₁
  exact ⟨t₁, st₁, h₂, h⟩

end Stmt

/-- The names in a table that may be read inside the bodies of loops over `inside`: a name that
loops are over is bound only there. -/
def Readable (loops inside : List String) (table : Scopes Ty) (x : String) : Prop :=
  table.contains x = true ∧ (x ∈ loops → x ∈ inside)

section

variable {loops inside : List String} {st st' : Typing.State}

lemma readable_of_check {e : Expr} {t : Ty} (hc : e.check .raising st = .ok t st')
    (hf : FreeFit loops inside e.names) : ∀ x ∈ e.names, Readable loops inside st.table x :=
  fun x hx => ⟨e.names_of_check hc x hx, hf x hx⟩

lemma readable_of_checkAll {es : List Expr} {ts : List Ty}
    (hc : Expr.checkAll .raising es st = .ok ts st') (hf : FreeFit loops inside (Expr.namesAll es)) :
    ∀ x ∈ Expr.namesAll es, Readable loops inside st.table x :=
  fun x hx => ⟨Expr.namesAll_of_check es hc x hx, hf x hx⟩

lemma Readable.of_set {table : Scopes Ty} {id x : String} {t : Ty}
    (h : Readable loops inside (table.set id t) x) : x = id ∨ Readable loops inside table x := by
  by_cases hid : x = id
  · exact .inl hid
  · exact .inr ⟨by simpa [hid] using h.1, h.2⟩

/-- After a scope is left, the names of the table are those it had before. -/
lemma readable_pop {st₁ : Typing.State} {name : String}
    (h : (st.table.push name).Widens st₁.table) :
    Readable loops inside st₁.pop.table = Readable loops inside st.table := by
  funext x
  simp only [Readable, State.table_pop, h.pop.contains x]

lemma readable_push (name : String) :
    Readable loops inside (st.push name).table = Readable loops inside st.table := by
  funext x
  simp only [Readable, State.table_push, Scopes.contains_push]

lemma Readable.mono {table table' : Scopes Ty} (h : table.Grows table') {x : String}
    (hx : Readable loops inside table x) : Readable loops inside table' x :=
  ⟨h.contains hx.1, hx.2⟩

/-- In the body of a `for` loop its name may be read, too. -/
lemma readable_in_forLoop {id name x : String} {t : Ty} :
    Readable loops (id :: inside) ((st.set id t).push name).table x ↔
      x = id ∨ Readable loops inside st.table x := by
  rw [readable_push, State.table_set]
  by_cases hid : x = id
  · simp [Readable, hid]
  · simp [Readable, hid]

/-- The names of the loops around the body of a `for` loop are in the table that it is checked with,
if those around the loop are in the table before it. -/
lemma contains_in_forLoop {id name : String} {t : Ty}
    (hin : ∀ x ∈ inside, st.table.contains x = true) :
    ∀ x ∈ id :: inside, ((st.set id t).push name).table.contains x = true := by
  intro x hx
  rcases List.mem_cons.mp hx with rfl | hx
  · simp
  · simp [hin x hx]

/-- After a `for` loop the names that may be read are those before it: where its name may be read,
an outer loop over the same name has put it into the table. -/
lemma readable_after_forLoop {st₁ : Typing.State} {id name : String} {t : Ty} (hid : id ∈ loops)
    (hin : ∀ x ∈ inside, st.table.contains x = true)
    (hw : ((st.set id t).table.push name).Widens st₁.table) :
    Readable loops inside st₁.pop.table = Readable loops inside st.table := by
  rw [readable_pop hw, State.table_set]
  funext x
  apply propext
  constructor
  · intro hx
    rcases hx.of_set with rfl | hx'
    · exact ⟨hin x (hx.2 hid), hx.2⟩
    · exact hx'
  · exact fun hx => hx.mono (Scopes.grows_set _ _ _)

end

end MatScript
