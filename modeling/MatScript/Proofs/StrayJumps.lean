import MatScript.Proofs.FirstFault
import MatScript.Proofs.Reporting
import MatScript.Proofs.ValueErrors

/-! Jumps and loops. The check looks for a scope of the name `loop` on the table, a run for a loop
that catches the jump; both come down to where a jump stands in the script. A jump is reported
exactly if it stands in the body of no loop, and a script in which none does ends with no jump: if
it stops, then for its values, with a value given back or in a loop of too many rounds. -/
namespace MatScript

open Typing Run

/-! ## Stray jumps and their faults -/

mutual

/-- The jumps of a statement that stand in the body of no loop, in the order of the script. -/
def Stmt.strayJumps : Stmt → List (Span × String)
  | .block _ body => Stmt.strayJumpsAll body
  | .instruction span name _ => if name = "break" ∨ name = "continue" then [(span, name)] else []
  | .ifThen _ _ yes => yes.strayJumps
  | .ifElse _ _ yes no => yes.strayJumps ++ no.strayJumps
  | .whileLoop _ _ _ | .forLoop _ _ _ _ _ => []
  | .assign _ _ _ | .update _ _ _ _ | .expr _ => []

def Stmt.strayJumpsAll : List Stmt → List (Span × String)
  | [] => []
  | s :: ss => s.strayJumps ++ Stmt.strayJumpsAll ss

end

namespace Typing

/-- The fault that reports a jump. -/
def strayFault (jump : Span × String) : Fault :=
  ⟨jump.1, s!"Instruction {jump.2} has to be inside a loop"⟩

lemma isStray_strayFault (jump : Span × String) : (strayFault jump).isStray = true := by
  have hmessage : (strayFault jump).message.toList =
      "Instruction ".toList ++ (jump.2.toList ++ " has to be inside a loop".toList) := by
    simp [strayFault, toString, String.toList_append]
  rw [Fault.isStray, hmessage, Bool.and_eq_true, List.isPrefixOf_iff_prefix,
    List.isSuffixOf_iff_suffix, ← List.append_assoc]
  exact ⟨⟨_, (List.append_assoc ..).symm⟩, ⟨_, rfl⟩⟩

/-- The faults collected so far that report a jump. -/
def State.strays (st : State) : List Fault := st.faults.toList.filter Fault.isStray

/-- No jump was reported from one state to the other. -/
def SameStrays (st st' : State) : Prop := st'.strays = st.strays

/-- A fault of another message is passed over. -/
lemma tracks_strays (p : Policy) : Tracks (fun _ => True) SameStrays p where
  refl _ := rfl
  trans h h' := h'.trans h
  report _ f _ hm := by simp [SameStrays, State.strays, hm.isStray f.span]

end Typing

/-! ## What a statement reports -/

namespace Typing

/-- The faults for jumps, which are reported outside of loops only. -/
def strayFaults (inLoop : Bool) (jumps : List (Span × String)) : List Fault :=
  if inLoop then [] else jumps.map strayFault

@[simp] lemma strayFaults_nil (inLoop : Bool) : strayFaults inLoop [] = [] := by cases inLoop <;> rfl

lemma strayFaults_append (inLoop : Bool) (as bs : List (Span × String)) :
    strayFaults inLoop (as ++ bs) = strayFaults inLoop as ++ strayFaults inLoop bs := by
  cases inLoop with
  | true => rfl
  | false => exact List.map_append

/-- The checks that report these jumps, in order, when they are made inside or outside of loops. -/
def AddsStrays {α : Type} (inLoop : Bool) (fs : List Fault) (c : Check α) : Prop :=
  ∀ st a st', st.table.hasScope "loop" = inLoop → c st = .ok a st' → st'.strays = st.strays ++ fs

section

variable {α β : Type} {p : Policy} {inLoop : Bool} {fs gs : List Fault}

lemma Moves.adds {c : Check α} (h : Moves SameStrays c) : AddsStrays inLoop [] c :=
  fun _ _ _ _ hc => (h.ok hc).trans (List.append_nil _).symm

/-- A first check that leaves every scope that it opens does not change where the second is made. -/
lemma AddsStrays.bind {c : Check α} {f : α → Check β} (hc : AddsStrays inLoop fs c)
    (hw : WidensTable c) (hf : ∀ a, AddsStrays inLoop gs (f a)) :
    AddsStrays inLoop (fs ++ gs) (c >>= f) := by
  intro st b st' hloop h
  obtain ⟨a, st₁, h₁, h₂⟩ := bind_eq_ok.mp h
  have hloop₁ := ((hw _ _ _ h₁).hasScope "loop").trans hloop
  rw [hf a _ _ _ hloop₁ h₂, hc _ _ _ hloop h₁, List.append_assoc]

lemma Moves.bind_adds {c : Check α} {f : α → Check β} (hc : Moves SameStrays c)
    (hw : WidensTable c) (hf : ∀ a, AddsStrays inLoop gs (f a)) : AddsStrays inLoop gs (c >>= f) :=
  AddsStrays.bind hc.adds hw hf

lemma AddsStrays.then_pure {c : Check α} (hc : AddsStrays inLoop fs c) (b : β) :
    AddsStrays inLoop fs (c >>= fun _ => pure b) := by
  intro st b' st' hloop h
  obtain ⟨a, st₁, h₁, h₂⟩ := bind_eq_ok.mp h
  cases h₂
  exact hc _ _ _ hloop h₁

lemma AddsStrays.discard {c : Check α} (hc : AddsStrays inLoop fs c) :
    AddsStrays inLoop fs (discard c) := by
  intro st u st' hloop h
  obtain ⟨a, ha⟩ := discard_eq_ok.mp h
  exact hc _ _ _ hloop ha

lemma AddsStrays.within {name : String} {inner : Bool} {c : Check Unit} (hc : AddsStrays inner fs c)
    (hname : (name == "loop" || inLoop) = inner) : AddsStrays inLoop fs (within name c) := by
  intro st u st' hloop h
  obtain ⟨st₁, h₁, rfl⟩ := within_eq_ok.mp h
  refine hc (st.push name) () st₁ ?_ h₁
  rw [State.table_push, Scopes.hasScope_push, hloop, hname]

lemma moves_setType (id : String) (t : Ty) : Moves SameStrays (setType id t) := fun _ => rfl

/-- A report that is made adds its fault. -/
lemma strays_report (jump : Span × String) {st st' : State} {u : Unit}
    (h : report p jump.1 (strayFault jump).message st = .ok u st') :
    st'.strays = st.strays ++ [strayFault jump] := by
  unfold report at h
  split at h
  · cases h
    have hstray : Fault.isStray ⟨jump.1, (strayFault jump).message⟩ = true := isStray_strayFault jump
    simp only [State.strays, Array.toList_push, List.filter_append, List.filter_cons, hstray, if_true]
    rfl
  · cases h

/-- A jump is reported unless a scope of a loop is on the table. -/
lemma addsStrays_checkInstruction (span : Span) (name : String) (arguments : List Expr) :
    AddsStrays inLoop (strayFaults inLoop (Stmt.instruction span name arguments).strayJumps)
      (checkInstruction p span name arguments) := by
  have hrest : Moves SameStrays (discard (Expr.checkAll p arguments)) :=
    (tracks_strays p).discard (Expr.moves_all (tracks_strays p) arguments fun _ _ => trivial)
  intro st u st' hloop h
  unfold checkInstruction at h
  by_cases hjump : name = "break" ∨ name = "continue"
  · rw [if_pos hjump, bind_ok (show getTable st = .ok st.table st from rfl), hloop] at h
    rw [Stmt.strayJumps, if_pos hjump]
    cases inLoop with
    | true => exact hrest.adds _ _ _ hloop h
    | false =>
      obtain ⟨_, st₁, h₁, h₂⟩ := bind_eq_ok.mp h
      rw [hrest.ok h₂]
      exact strays_report (span, name) h₁
  · rw [if_neg hjump] at h
    rw [Stmt.strayJumps, if_neg hjump, strayFaults_nil]
    exact hrest.adds _ _ _ hloop h

/-- A condition, and what is reported after it. -/
lemma addsStrays_condition {condition : Expr} {span : Span} {message : String} {rest : Check α}
    (hm : Complaint (fun _ => True) message) (hrest : AddsStrays inLoop fs rest) :
    AddsStrays inLoop fs (do require p span (← condition.check p) .bool message; rest) := by
  have h := tracks_strays p
  refine (condition.moves h fun _ _ => trivial).bind_adds (condition.keepsTable p).widens fun _ => ?_
  exact (h.moves (.require _ _ hm)).bind_adds (keepsTable_require _ _ _ _).widens fun _ => hrest

end

end Typing

mutual

/-- A statement reports its stray jumps, in order, unless it stands in a loop. -/
theorem Stmt.addsStrays (p : Policy) (inLoop : Bool) : (s : Stmt) →
    AddsStrays inLoop (strayFaults inLoop s.strayJumps) (s.check p)
  | .block _ body => by
    simp only [Stmt.check, Stmt.strayJumps]
    exact ((Stmt.addsStrays_all p inLoop body).within (by simp)).then_pure _
  | .assign _ _ _ => by
    simp only [Stmt.check, Stmt.strayJumps, strayFaults_nil]
    refine ((tracks_strays p).checkAssign ?_ ?_ (fun id _ => moves_setType id) _).adds.then_pure _
    · exact fun _ _ => trivial
    · exact fun _ _ => trivial
  | .update _ _ _ _ => by
    simp only [Stmt.check, Stmt.strayJumps, strayFaults_nil]
    refine ((tracks_strays p).checkUpdate ?_ ?_ (fun id _ => moves_setType id) _ trivial).adds.then_pure _
    · exact fun _ _ => trivial
    · exact fun _ _ => trivial
  | .instruction _ _ _ => by
    simp only [Stmt.check]
    exact (addsStrays_checkInstruction _ _ _).then_pure _
  | .whileLoop _ condition body => by
    simp only [Stmt.check, Stmt.strayJumps, strayFaults_nil]
    refine addsStrays_condition .whileCondition ?_
    exact ((Stmt.addsStrays p true body).discard.within (by simp)).then_pure _
  | .forLoop _ _ _ range body => by
    simp only [Stmt.check, Stmt.strayJumps, strayFaults_nil]
    refine (range.moves (tracks_strays p) fun _ _ => trivial).bind_adds (range.keepsTable p).widens
      fun _ => ?_
    refine (moves_setType _ _).bind_adds (widensTable_setType _ _) fun _ => ?_
    exact ((Stmt.addsStrays p true body).discard.within (by simp)).then_pure _
  | .ifThen _ condition yes => by
    simp only [Stmt.check, Stmt.strayJumps]
    refine addsStrays_condition .ifCondition ?_
    exact ((Stmt.addsStrays p inLoop yes).discard.within (by simp)).then_pure _
  | .ifElse _ condition yes no => by
    simp only [Stmt.check, Stmt.strayJumps, strayFaults_append]
    refine addsStrays_condition .ifCondition ?_
    refine AddsStrays.bind ((Stmt.addsStrays p inLoop yes).discard.within (by simp))
      (yes.widensTable p).discard.within fun _ => ?_
    exact ((Stmt.addsStrays p inLoop no).discard.within (by simp)).then_pure _
  | .expr e => by
    simp only [Stmt.check, Stmt.strayJumps, strayFaults_nil]
    exact (e.moves (tracks_strays p) fun _ _ => trivial).adds

theorem Stmt.addsStrays_all (p : Policy) (inLoop : Bool) : (ss : List Stmt) →
    AddsStrays inLoop (strayFaults inLoop (Stmt.strayJumpsAll ss)) (Stmt.checkAll p ss)
  | [] => by
    simp only [Stmt.checkAll, Stmt.strayJumpsAll, strayFaults_nil]
    exact ((tracks_strays p).pure _).adds
  | s :: ss => by
    simp only [Stmt.checkAll, Stmt.strayJumpsAll, strayFaults_append]
    exact (Stmt.addsStrays p inLoop s).discard.bind (s.widensTable p).discard fun _ =>
      Stmt.addsStrays_all p inLoop ss

end

/-- On a new table the faults that report jumps are those of the stray ones, in order. -/
lemma Stmt.strays_of_check {p : Policy} {s : Stmt} {t : Ty} {st : Typing.State}
    (h : s.check p {} = .ok t st) : st.strays = s.strayJumps.map strayFault :=
  s.addsStrays p false {} t st rfl h

/-- An accepted script has no stray jump. -/
lemma Stmt.strayJumps_of_raising {pick : List Ty → Nat} {s : Stmt} {t : Ty} {st : Typing.State}
    (hn : s.Normal) (h : s.check (.raisingBy pick) {} = .ok t st) : s.strayJumps = [] := by
  obtain ⟨t', table, new, -, -, hr⟩ := s.mirrors pick pick hn .empty #[]
  have hnone : st.faults = #[] := by
    cases new with
    | nil =>
      cases h.symm.trans hr
      rfl
    | cons f rest =>
      obtain ⟨st', hst'⟩ := hr
      cases h.symm.trans hst'
  have hstrays := Stmt.strays_of_check h
  rw [State.strays, hnone] at hstrays
  exact List.map_eq_nil_iff.mp hstrays.symm

/-! ## How runs stop -/

/-- The operations that only compute. -/
def Operation.computes : Operation → Bool
  | breakLoop | continueLoop | giveBack | print => false
  | _ => true

namespace Run

/-- An error that comes of values. -/
def Stop.OfValues : Stop → Prop
  | .failed e => e.ofValues = true
  | _ => False

/-- The ways in which a script may stop: errors that come of values, loops that take too many rounds,
a value given back, and jumps, if no loop catches them. -/
def Stop.Expected (jumps : Prop) : Stop → Prop
  | .breakLoop _ | .continueLoop _ => jumps
  | .failed e => e.ofValues = true
  | .giveBack _ | .outOfFuel => True

variable {α : Type} {jumps jumps' : Prop}

/-- Where more jumps may be expected, the same stops are. -/
lemma Stops.mono {r : Run α} (h : Stops (Stop.Expected jumps) r) (himp : jumps → jumps') :
    Stops (Stop.Expected jumps') r := by
  refine h.imp fun stop hstop => ?_
  cases stop with
  | breakLoop _ | continueLoop _ => exact himp hstop
  | giveBack _ | failed _ | outOfFuel => exact hstop

lemma Stops.expected {r : Run α} (h : Stops Stop.OfValues r) : Stops (Stop.Expected jumps) r := by
  refine h.imp fun stop hstop => ?_
  cases stop with
  | failed e => exact hstop
  | _ => exact hstop.elim

lemma stops_ofStore_of_failsByValues {f : Store → Except RunError α}
    (h : ∀ store, FailsByValues (f store)) : Stops Stop.OfValues (ofStore f) :=
  stops_ofStore fun store e he => h store e he

lemma stops_displayAll (vs : List Value) : Stops Stop.OfValues (displayAll vs) := by
  refine stops_ofStore_of_failsByValues fun store => ?_
  exact (FailsByValues.mapM (Value.failsByValues_display store) vs).bind fun _ => .ok _

lemma stops_perform {op : Operation} (h : op.computes = true) (arguments : List Value) :
    Stops Stop.OfValues (perform op arguments) := by
  cases op with
  | breakLoop | continueLoop | giveBack | print => cases h
  | _ => exact stops_ofStore_of_failsByValues fun store => Operation.failsByValues_compute store _ _

lemma stops_apply {name : String} (h : (Operation.ofName? name).map Operation.computes = some true)
    (arguments : List Value) : Stops Stop.OfValues (apply name arguments) := by
  obtain ⟨op, hop, hcomputes⟩ := Option.map_eq_some_iff.1 h
  simp only [apply, hop]
  exact stops_perform hcomputes arguments

lemma stops_print (vs : List Value) : Stops Stop.OfValues (print vs) := by
  refine fun m => (ends_print vs m).imp (fun _ _ _ => trivial) ?_
  rintro stop m' ⟨-, v, -, e, he, rfl⟩
  exact Value.failsByValues_display m.store v e he

/-- An instruction prints, gives a value back or jumps. -/
lemma stops_instruction {name : String} {count : Nat} (h : ArgumentsFit name count)
    (arguments : List Value) :
    Stops (Stop.Expected (name = "break" ∨ name = "continue")) (apply name arguments) := by
  rcases h with ⟨rfl, -⟩ | ⟨rfl, -⟩ | ⟨⟨k, rfl | rfl, rfl⟩, -⟩
  · exact ((stops_print arguments).bind fun _ => stops_pure _).expected
  · intro m
    match arguments with
    | [v] => trivial
    | [] => exact rfl
    | v :: w :: vs => exact rfl
  · exact (stops_displayAll arguments).expected.bind fun _ => stops_throw (.inl rfl)
  · exact (stops_displayAll arguments).expected.bind fun _ => stops_throw (.inr rfl)

/-- A round catches every jump of its body. -/
lemma Stops.round {scope : String} {body : Run α} (h : Stops (Stop.Expected jumps) body) :
    Stops (Stop.Expected jumps') (round scope body) := by
  intro m
  have hbody := h (m.push scope)
  unfold Run.round
  cases hx : body (m.push scope) with
  | ok a m' => trivial
  | error stop m' =>
    rw [hx] at hbody
    cases stop with
    | breakLoop _ | continueLoop _ => trivial
    | giveBack _ | failed _ | outOfFuel => exact hbody

end Run

/-- An operator that can be written computes. -/
lemma computes_of_operandsFit {symbol : String} {levels : List Nat}
    (h : OperandsFit symbol levels) :
    (Operation.ofName? symbol).map Operation.computes = some true := by
  rcases operator_of_operandsFit h with rfl | rfl | ⟨s, hs, rfl⟩
  · decide
  · decide
  · revert hs
    cases s <;> decide

mutual

/-- The value of an expression that can be written fails for values only. -/
theorem Expr.stops : (e : Expr) → e.Normal → Stops Stop.OfValues e.eval
  | .constant _ _, _ => by simpa only [Expr.eval] using stops_pure _
  | .vector _ items, h => by
    simp only [Expr.eval]
    refine (Expr.stops_all items h.2).bind fun vs => ?_
    exact stops_ofStore_of_failsByValues fun store => Value.failsByValues_vector store vs
  | .operator _ _ operands, h => by
    simp only [Expr.eval]
    exact (Expr.stops_all operands h.2).bind fun _ => stops_apply (computes_of_operandsFit h.1) _
  | .call _ _ arguments, h => by
    obtain ⟨⟨k, hk, rfl⟩, -, hargs⟩ := h
    simp only [Expr.eval]
    refine (Expr.stops_all arguments hargs).bind fun _ => stops_apply ?_ _
    rcases hk with rfl | rfl | rfl <;> decide
  | .name _ _, _ => by simpa only [Expr.eval] using stops_lookup _
  | .element _ _ _ indices _, h => by
    simp only [Expr.eval]
    refine (stops_lookup _).bind fun array => (Expr.stops_all indices h.2).bind fun vs => ?_
    refine stops_ofStore_of_failsByValues fun store => ?_
    exact (Value.failsByValues_vector store vs).bind (Value.failsByValues_index store array)
  | .range _ _ _, h | .gap _ _, h => h.elim

theorem Expr.stops_all : (es : List Expr) → Expr.NormalAll es →
    Stops Stop.OfValues (Expr.evalAll es)
  | [], _ => by simpa only [Expr.evalAll] using stops_pure _
  | e :: es, h => by
    simp only [Expr.evalAll]
    exact (e.stops h.1).bind fun _ => (Expr.stops_all es h.2).bind fun _ => stops_pure _

end

lemma Expr.stops_range {e : Expr} (h : e.NormalRange) : Stops Stop.OfValues e.eval := by
  cases e with
  | range _ start stop =>
    simp only [Expr.eval]
    refine (start.stops h.1).bind fun a => (stop.stops h.2).bind fun b => ?_
    refine stops_ofStore_of_failsByValues fun _ => ?_
    exact (Value.failsByValues_integer a).bind fun _ =>
      (Value.failsByValues_integer b).bind fun _ => .ok _
  | _ => exact h.elim

namespace Run

lemma stops_test {condition : Expr} (h : condition.Normal) : Stops Stop.OfValues (test condition) :=
  (condition.stops h).bind fun v =>
    stops_ofStore_of_failsByValues fun store => Value.failsByValues_truth store v

lemma stops_evalIndices {indices : List Expr} (h : Expr.NormalAll indices) :
    Stops Stop.OfValues (evalIndices indices) :=
  (Expr.stops_all indices h).bind fun vs =>
    stops_ofStore_of_failsByValues fun store => Value.failsByValues_vector store vs

/-- Putting a value into a part of an array. -/
lemma stops_change_patch (array selector v : Value) : Stops Stop.OfValues (do
    change (← ofStore fun store => array.patch store selector v)) := by
  refine Stops.bind (stops_ofStore_of_failsByValues fun store => ?_) fun _ => stops_change _
  exact Value.failsByValues_patch store array selector v

lemma stops_assign {target value : Expr} (ht : target.Normal) (hv : value.Normal) :
    Stops Stop.OfValues (assign target value) := by
  cases target with
  | name _ id => exact (value.stops hv).bind fun _ => stops_bind _ _
  | element _ id _ indices _ =>
    refine (stops_lookup _).bind fun _ => (stops_evalIndices ht.2).bind fun _ => ?_
    exact (value.stops hv).bind fun _ => stops_change_patch _ _ _
  | _ => exact stops_pure _

/-- The operation of an operator-assignment only computes. -/
lemma exists_arith_of_assignment {s : Symbol} (h : s.isAssignment) (hs : s ≠ .assign) :
    ∃ op, Operation.ofName? (s.spelling.take 1).toString = some (.arith op) := by
  cases s with
  | assign => exact absurd rfl hs
  | assignPlus => exact ⟨.add, by cbv⟩
  | assignMinus => exact ⟨.subtract, by cbv⟩
  | assignTimes => exact ⟨.multiply, by cbv⟩
  | assignDivide => exact ⟨.divide, by cbv⟩
  | _ => exact absurd h (by decide)

lemma stops_update {s : Symbol} (hs : s.isAssignment) (hne : s ≠ .assign) {target value : Expr}
    (ht : target.Normal) (hv : value.Normal) :
    Stops Stop.OfValues (update s.spelling target value) := by
  obtain ⟨op, hop⟩ := exists_arith_of_assignment hs hne
  unfold update
  generalize (s.spelling.take 1).toString = name at hop ⊢
  refine (value.stops hv).bind fun v => ?_
  cases target with
  | name _ id =>
    refine (stops_lookup _).bind fun _ => Stops.bind ?_ fun _ => stops_bind _ _
    exact stops_apply (by rw [hop]; rfl) _
  | element _ id _ indices _ =>
    refine (stops_lookup _).bind fun array => (stops_evalIndices ht.2).bind fun selector => ?_
    rw [hop]
    refine Stops.bind (stops_ofStore_of_failsByValues fun store => ?_) fun old => ?_
    · exact Value.failsByValues_index store array selector
    exact (stops_perform rfl _).bind fun new => stops_change_patch array selector new
  | _ => exact stops_pure _

end Run

mutual

/-- A statement stops in one of the expected ways, and with a jump only if one of its own stands in
the body of no loop. -/
theorem Stmt.stops (fuel : Nat) : (s : Stmt) → s.Normal →
    Stops (Stop.Expected (s.strayJumps ≠ [])) (s.exec fuel)
  | .block _ body, hn => by
    simp only [Stmt.exec]
    exact (Stmt.stops_all fuel body hn).within.bind fun _ => stops_pure _
  | .assign _ _ _, hn => by
    simp only [Stmt.exec]
    exact ((stops_assign hn.2.1 hn.2.2).bind fun _ => stops_pure _).expected
  | .update _ _ _ _, hn => by
    obtain ⟨⟨s, hs, hne, rfl⟩, -, ht, hv⟩ := hn
    simp only [Stmt.exec]
    exact ((stops_update hs hne ht hv).bind fun _ => stops_pure _).expected
  | .instruction _ name arguments, hn => by
    simp only [Stmt.exec]
    refine (Expr.stops_all arguments hn.2).expected.bind fun vs => ?_
    refine (stops_instruction hn.1 vs).mono fun hjump => ?_
    simp [Stmt.strayJumps, hjump]
  | .whileLoop _ condition body, hn => by
    simp only [Stmt.exec]
    refine Stops.bind ?_ fun _ => stops_pure _
    refine Stops.repeatWhile (stops_test hn.1).expected ?_ trivial fuel
    exact (Stmt.stops fuel body hn.2).round
  | .forLoop _ id _ range body, hn => by
    simp only [Stmt.exec]
    refine (Expr.stops_range hn.1).expected.bind fun v => ?_
    refine Stops.bind (stops_ofStore_of_failsByValues fun _ => ?_).expected fun items => ?_
    · exact Value.failsByValues_items v
    refine Stops.bind (Stops.repeatFrom (fun i => ?_) _ _) fun _ => stops_pure _
    have hget : Stops (Stop.Expected (body.strayJumps ≠ [])) (get : Run Machine) := fun _ => trivial
    exact (hget.bind fun m => (stops_bind id _).bind fun _ => Stmt.stops fuel body hn.2).round
  | .ifThen _ condition yes, hn => by
    simp only [Stmt.exec]
    refine (stops_test hn.1).expected.bind fun b => ?_
    cases b with
    | false => exact stops_pure _
    | true => exact (Stmt.stops fuel yes hn.2).within.bind fun _ => stops_pure _
  | .ifElse _ condition yes no, hn => by
    simp only [Stmt.exec]
    refine (stops_test hn.1).expected.bind fun b => ?_
    cases b with
    | false =>
      refine Stops.bind ((Stmt.stops fuel no hn.2.2.2).within.mono ?_) fun _ => stops_pure _
      exact List.append_ne_nil_of_right_ne_nil _
    | true =>
      refine Stops.bind ((Stmt.stops fuel yes hn.2.1).within.mono ?_) fun _ => stops_pure _
      exact fun h => List.append_ne_nil_of_left_ne_nil h _
  | .expr _, hn => hn.elim

theorem Stmt.stops_all (fuel : Nat) : (ss : List Stmt) → Stmt.NormalAll ss →
    Stops (Stop.Expected (Stmt.strayJumpsAll ss ≠ [])) (Stmt.execAll fuel ss)
  | [], _ => by simpa only [Stmt.execAll] using stops_pure _
  | s :: ss, hn => by
    intro m
    have hfirst := (Stmt.stops fuel s hn.1).mono
      (fun h => List.append_ne_nil_of_left_ne_nil h (Stmt.strayJumpsAll ss)) m
    have hrest := (Stmt.stops_all fuel ss hn.2).mono
      (List.append_ne_nil_of_right_ne_nil s.strayJumps)
    simp only [Stmt.execAll]
    cases hx : s.exec fuel m with
    | ok v m₁ => exact hrest m₁
    | error stop m₁ =>
      rw [hx] at hfirst
      exact hfirst

end

namespace Run

def Stop.isJump : Stop → Bool
  | .breakLoop _ | .continueLoop _ => true
  | _ => false

/-- The computations that end with no jump. -/
def NoJump {α : Type} (r : Run α) : Prop :=
  ∀ m, Ends (r m) (fun _ _ => True) fun stop _ => stop.isJump = false

end Run

/-- A statement without stray jumps ends with no jump, whatever machine it runs on. -/
lemma Stmt.noJump (fuel : Nat) (s : Stmt) (hn : s.Normal) (hs : s.strayJumps = []) :
    NoJump (s.exec fuel) := by
  refine (s.stops fuel hn).imp fun stop hstop => ?_
  cases stop with
  | breakLoop _ | continueLoop _ => exact absurd hs hstop
  | _ => rfl

/-- Jumps are confined to loops. A collecting check of a script on a new table reports, of all
faults with such a message, one for each `break` or `continue` that stands in the body of no loop,
in the order of the script. So a script that a raising check accepts ends with no jump, on whatever
machine it runs. -/
theorem Script.jumps_confined {line : Nat} {text : String} {s : Stmt}
    (hp : (Script.parse line text).script = .ok s) :
    (∀ pick, ∃ t st, s.check (.collectingBy pick) {} = .ok t st ∧
      st.faults.toList.filter Fault.isStray = s.strayJumps.map strayFault) ∧
    ∀ pick t st, s.check (.raisingBy pick) {} = .ok t st → ∀ fuel m note m',
      s.exec fuel m ≠ .error (.breakLoop note) m' ∧
        s.exec fuel m ≠ .error (.continueLoop note) m' := by
  have hn := (Parse.normal_of_script hp).1.normal
  refine ⟨fun pick => ?_, fun pick t st hc fuel m note m' => ?_⟩
  · obtain ⟨t, table, new, -, hc, -⟩ := s.mirrors pick pick hn .empty #[]
    exact ⟨t, _, hc, Stmt.strays_of_check hc⟩
  · have hends := s.noJump fuel hn (Stmt.strayJumps_of_raising hn hc) m
    constructor
    · intro hx
      rw [hx] at hends
      cases hends
    · intro hx
      rw [hx] at hends
      cases hends

/-- Two stray jumps with another fault between them, and a jump that belongs to a loop. -/
def strayText : String :=
  "if (true) \x7b break; print x; continue; \x7d while (true) \x7b if (true) break; \x7d"

/-- The loop alone, with its jump. -/
def leavingText : String := "while (true) \x7b if (true) break; \x7d"

def leavingLoop : Stmt :=
  let at1 : Span := ⟨1, 1⟩
  let yes : Expr := .constant at1 (.bool true)
  .whileLoop at1 yes (.block at1 [.ifThen at1 yes (.instruction at1 "break" [])])

def strayScript : Stmt :=
  let at1 : Span := ⟨1, 1⟩
  .block at1 [
    .ifThen at1 (.constant at1 (.bool true)) (.block at1 [
      .instruction at1 "break" [],
      .instruction at1 "print" [.name at1 "x"],
      .instruction at1 "continue" []]),
    leavingLoop]

theorem jumps_confined_strayText :
    (Script.parse 1 strayText).script = .ok strayScript ∧
    (∃ t st, strayScript.check .collecting {} = .ok t st ∧ st.faults.size = 3 ∧
      st.faults.toList.filter Fault.isStray =
        [⟨⟨1, 1⟩, "Instruction break has to be inside a loop"⟩,
          ⟨⟨1, 1⟩, "Instruction continue has to be inside a loop"⟩]) ∧
    (Script.parse 1 leavingText).script = .ok (.block ⟨1, 1⟩ [leavingLoop]) ∧
    (Stmt.block ⟨1, 1⟩ [leavingLoop]).check .raising {} = .ok .none {} ∧
    ∀ fuel m note m', (Stmt.block ⟨1, 1⟩ [leavingLoop]).exec fuel m ≠ .error (.breakLoop note) m' ∧
      (Stmt.block ⟨1, 1⟩ [leavingLoop]).exec fuel m ≠ .error (.continueLoop note) m' := by
  have hp : (Script.parse 1 strayText).script = .ok strayScript := by cbv
  have hp' : (Script.parse 1 leavingText).script = .ok (.block ⟨1, 1⟩ [leavingLoop]) := by cbv
  have hc : strayScript.check .collecting {} = .ok .none ⟨.empty,
      #[⟨⟨1, 1⟩, "Instruction break has to be inside a loop"⟩,
        ⟨⟨1, 1⟩, "Variable x is not defined"⟩,
        ⟨⟨1, 1⟩, "Instruction continue has to be inside a loop"⟩]⟩ := by cbv
  have hc' : (Stmt.block ⟨1, 1⟩ [leavingLoop]).check .raising {} = .ok .none {} := by cbv
  obtain ⟨t, st, hst, hfaults⟩ := (Script.jumps_confined hp).1 fun _ => 0
  cases hc.symm.trans hst
  exact ⟨hp, ⟨_, _, hc, rfl, hfaults⟩, hp', hc', (Script.jumps_confined hp').2 _ _ _ hc'⟩

end MatScript
