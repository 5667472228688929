import MatScript.Proofs.TypeSoundness
import MatScript.Proofs.TypedExpressions

/-! Runs in step with the check. The check goes through a script once, from top to bottom, and does
not join the types that different ways through it leave. Where all ways that meet agree, as far as a
discipline follows types, and operators and items of vectors are admitted by it, a run keeps in step
with the check, whichever branches it takes and however many rounds its loops make. -/
namespace MatScript

open Typing Run Evaluation

/-! ## Ways that meet -/

namespace Scopes

/-- Every name of the first table is in the second, and as much as is seen of their types is equal. -/
def agreesBy {κ : Type} [DecidableEq κ] (view : Ty → κ) (s t : Scopes Ty) : Bool :=
  s.toList.all fun scope => scope.bindings.all fun b =>
    decide ((t.get? b.1).map view = (s.get? b.1).map view)

lemma exists_get?_of_agreesBy {κ : Type} [DecidableEq κ] {view : Ty → κ} {s t : Scopes Ty}
    (h : s.agreesBy view t = true) {x : String} {u : Ty} (hx : s.get? x = some u) :
    ∃ w, t.get? x = some w ∧ view w = view u := by
  obtain ⟨scope, hscope, hu⟩ := List.exists_of_findSome?_eq_some hx
  have hmem : (x, u) ∈ scope.bindings := by
    obtain ⟨before, after, heq, -⟩ := List.lookup_eq_some_iff.1 hu
    rw [heq]
    simp
  have hall := List.all_eq_true.1 (List.all_eq_true.1 h scope hscope) (x, u) hmem
  rw [decide_eq_true_eq, hx] at hall
  exact Option.map_eq_some_iff.1 hall

end Scopes

mutual

/-- The condition holds of the statement and of all statements in it. It may look at the table with
which the innermost loop starts and at the state in which the check comes to a statement. -/
def Stmt.everywhere (P : Scopes Ty → Typing.State → Stmt → Bool) (entry : Scopes Ty)
    (st : Typing.State) (s : Stmt) : Bool :=
  P entry st s &&
    match s with
    | .block _ body => Stmt.everywhereAll P entry (st.push "program") body
    | .whileLoop _ condition body =>
      body.everywhere P st.table ((stateAfter (condition.check .raising st)).push "loop")
    | .forLoop _ id _ range body => body.everywhere P st.table ((st.header id range).push "loop")
    | .ifThen _ condition yes =>
      yes.everywhere P entry ((stateAfter (condition.check .raising st)).push "then")
    | .ifElse _ condition yes no =>
      let first := (stateAfter (condition.check .raising st)).push "then"
      let second := (stateAfter (yes.check .raising first)).pop.push "else"
      yes.everywhere P entry first && no.everywhere P entry second
    | _ => true

def Stmt.everywhereAll (P : Scopes Ty → Typing.State → Stmt → Bool) (entry : Scopes Ty)
    (st : Typing.State) : List Stmt → Bool
  | [] => true
  | s :: ss => s.everywhere P entry st &&
    Stmt.everywhereAll P entry (stateAfter (s.check .raising st)) ss

end

/-- A branch or the rounds of a loop leave each name with the type that it had before, and so does
what comes before a jump to the end of a round or of a loop, as far as types are seen. -/
def Stmt.joinsAgreeBy {κ : Type} [DecidableEq κ] (view : Ty → κ) (entry : Scopes Ty)
    (st : Typing.State) : Stmt → Bool
  | .block _ _ | .assign _ _ _ | .update _ _ _ _ | .expr _ => true
  | .instruction _ name _ =>
    decide (name = "break" ∨ name = "continue" → entry.agreesBy view st.table)
  | .ifElse span condition yes no =>
    st.table.agreesBy view (stateAfter ((Stmt.ifThen span condition yes).check .raising st)).table &&
      st.table.agreesBy view
        (stateAfter ((Stmt.ifElse span condition yes no).check .raising st)).table
  | s => st.table.agreesBy view (stateAfter (s.check .raising st)).table

/-- The operators of the statement itself are admitted; an operator-assignment applies its operator
to the target and the value. -/
def Stmt.passes (admits : String → List Ty → Bool) (st : Typing.State) : Stmt → Bool
  | .block _ _ => true
  | .assign _ target value => target.passes admits st && value.passes admits st
  | .update span symbol target value =>
    (Expr.operator span (symbol.dropEnd 1).toString [target, value]).passes admits st
  | .instruction _ _ arguments => Expr.passesAll admits st arguments
  | .whileLoop _ e _ | .forLoop _ _ _ e _ | .ifThen _ e _ | .ifElse _ e _ _ | .expr e =>
    e.passes admits st

/-! ## The scopes of the table -/

mutual

/-- What opening a scope, leaving it and giving a type to a name keep, a check keeps. -/
theorem Stmt.invariant_of_check {I : Scopes Ty → Prop} (hpush : ∀ s name, I s → I (s.push name))
    (hpop : ∀ s, I s → I s.pop) (hset : ∀ s id t, I s → I (s.set id t)) : (s : Stmt) →
    ∀ {st st' : Typing.State} {t : Ty}, s.check .raising st = .ok t st' → I st.table → I st'.table
  | .block _ body, st, st', t, hc, h => by
    obtain ⟨st₁, hbody, rfl⟩ := Stmt.check_block hc
    exact hpop _ (Stmt.invariant_of_checkAll hpush hpop hset body hbody (hpush _ _ h))
  | .assign _ target value, st, st', t, hc, h => by
    have hc := Stmt.check_assign hc
    cases target with
    | name _ id =>
      obtain ⟨t₁, st₁, hv, rfl⟩ := Stmt.checkAssign_name hc
      refine hset _ _ _ ?_
      rwa [value.keepsTable _ _ _ _ hv]
    | element _ _ _ _ _ =>
      obtain ⟨t₁, st₁, ht, hv⟩ := Stmt.checkAssign_element hc
      rwa [value.keepsTable _ _ _ _ hv, Expr.keepsTable _ _ _ _ _ ht]
    | _ =>
      cases hc
      exact h
  | .update _ symbol target value, st, st', t, hc, h => by
    obtain ⟨t₁, st₁, t₂, st₂, op, result, ht, hv, -, -, rfl⟩ :=
      Stmt.checkUpdate_raising (Stmt.check_update hc)
    have hst₂ : I st₂.table := by
      rwa [value.keepsTable _ _ _ _ hv, target.keepsTable _ _ _ _ ht]
    cases target with
    | name _ id => exact hset _ _ _ hst₂
    | _ => exact hst₂
  | .instruction _ _ arguments, st, st', t, hc, h => by
    obtain ⟨-, ts, hts⟩ := Stmt.check_instruction hc
    rwa [Expr.keepsTable_all _ _ _ _ _ hts]
  | .whileLoop _ condition body, st, st', t, hc, h => by
    obtain ⟨st₁, st₂, t₂, hcond, hbody, rfl⟩ := Stmt.check_whileLoop hc
    rw [← condition.keepsTable _ _ _ _ hcond] at h
    exact hpop _ (Stmt.invariant_of_check hpush hpop hset body hbody (hpush _ _ h))
  | .forLoop _ id _ range body, st, st', t, hc, h => by
    obtain ⟨t₁, st₁, st₂, t₂, hrange, hbody, rfl⟩ := Stmt.check_forLoop hc
    rw [← range.keepsTable _ _ _ _ hrange] at h
    exact hpop _ (Stmt.invariant_of_check hpush hpop hset body hbody (hpush _ _ (hset _ _ _ h)))
  | .ifThen _ condition yes, st, st', t, hc, h => by
    obtain ⟨st₁, st₂, t₂, hcond, hy, rfl⟩ := Stmt.check_ifThen hc
    rw [← condition.keepsTable _ _ _ _ hcond] at h
    exact hpop _ (Stmt.invariant_of_check hpush hpop hset yes hy (hpush _ _ h))
  | .ifElse _ condition yes no, st, st', t, hc, h => by
    obtain ⟨st₁, st₂, t₂, st₃, t₃, hcond, hy, hn, rfl⟩ := Stmt.check_ifElse hc
    rw [← condition.keepsTable _ _ _ _ hcond] at h
    have hyes := hpop _ (Stmt.invariant_of_check hpush hpop hset yes hy (hpush _ _ h))
    exact hpop _ (Stmt.invariant_of_check hpush hpop hset no hn (hpush _ _ hyes))
  | .expr e, st, st', t, hc, h => by
    simp only [Stmt.check] at hc
    rwa [e.keepsTable _ _ _ _ hc]

theorem Stmt.invariant_of_checkAll {I : Scopes Ty → Prop} (hpush : ∀ s name, I s → I (s.push name))
    (hpop : ∀ s, I s → I s.pop) (hset : ∀ s id t, I s → I (s.set id t)) : (ss : List Stmt) →
    ∀ {st st' : Typing.State}, Stmt.checkAll .raising ss st = .ok () st' → I st.table → I st'.table
  | [], st, st', hc, h => by
    simp only [Stmt.checkAll] at hc
    cases hc
    exact h
  | s :: ss, st, st', hc, h => by
    obtain ⟨t₁, st₁, hs, hss⟩ := Stmt.checkAll_cons hc
    exact Stmt.invariant_of_checkAll hpush hpop hset ss hss
      (Stmt.invariant_of_check hpush hpop hset s hs h)

end

/-! ## Runs in step with the check -/

namespace Discipline

/-- The names have values of the types in the table, and no name is bound in two scopes. -/
structure InStep (D : Discipline) (names : String → Prop) (table : Scopes Ty) (m : Machine) :
    Prop where
  fits : D.Fits names table m
  separate : m.memory.Separate

/-- At a jump, the machine is in step with the table with which the loop starts. -/
def StopsInStep (D : Discipline) (names : String → Prop) (entry : Scopes Ty) :
    Run.Stop → Machine → Prop
  | .breakLoop _, m | .continueLoop _, m => D.InStep names entry m
  | _, _ => True

end Discipline

section

variable {D : Discipline} {α : Type} {names names' : String → Prop}
  {table table' table₀ entry : Scopes Ty} {m m' : Machine} {t : Ty}

lemma stopsInStep_of_failsOn {stop : Run.Stop} (h : FailsOn m stop m') :
    D.StopsInStep names entry stop m' := by
  obtain ⟨-, e, rfl⟩ := h
  exact trivial

/-- A value as it is bound has the type that it had before. -/
lemma Machine.typed_stored {store : Store} {v : Value} (hv : v.Typed store t) :
    (stored store v).1.Typed (stored store v).2 t ∧ Store.Keeps store (stored store v).2 := by
  cases v with
  | array a =>
    obtain ⟨source, layout⟩ := a
    cases source with
    | stored i => exact ⟨hv, .refl store⟩
    | own cells =>
      refine ⟨?_, .push store cells⟩
      -- the elements have moved to the end of the store
      have hcells : Tensor.cells (store.push cells) ⟨.stored store.size, layout⟩ = cells := by
        simp [Tensor.cells, Array.getD]
      have hkind : Tensor.kind (store.push cells) ⟨.stored store.size, layout⟩ =
          Tensor.kind store ⟨.own cells, layout⟩ := by
        rw [Tensor.kind, hcells]
        rfl
      have helements : Tensor.elements (store.push cells) ⟨.stored store.size, layout⟩ =
          Tensor.elements store ⟨.own cells, layout⟩ := by
        rw [Tensor.elements, hcells]
        rfl
      have hu : Tensor.Uniform (store.push cells) ⟨.stored store.size, layout⟩ := by
        refine ⟨fun i hi => ?_, fun e he => ?_⟩
        · cases hi
          simp
        · rw [helements] at he
          rw [hkind]
          exact (hv.uniform _ rfl).elements e he
      cases hv.hasType with
      | scalar hb => cases hb
      | array hne hs =>
        rw [← hkind]
        exact Value.Typed.array (a := ⟨.stored store.size, layout⟩) hs hne hu
  | _ => exact ⟨hv, .refl store⟩

namespace Discipline.InStep

lemma of_table (h : D.InStep names table m) (hnames : ∀ x, names' x → names x)
    (ht : ∀ x t, names' x → table'.get? x = some t →
      ∃ u, table.get? x = some u ∧ D.view u = D.view t) : D.InStep names' table' m := by
  refine ⟨fun x t hx hget => ?_, h.separate⟩
  obtain ⟨u, hu, hview⟩ := ht x t hx hget
  obtain ⟨v, hv, w, hw, hvt⟩ := h.fits x u (hnames x hx) hu
  exact ⟨v, hv, w, hw.trans hview, hvt⟩

lemma of_get? (h : D.InStep names table m) (hnames : ∀ x, names' x → names x)
    (ht : ∀ x t, names' x → table'.get? x = some t → table.get? x = some t) :
    D.InStep names' table' m :=
  h.of_table hnames fun x t hx hget => ⟨t, ht x t hx hget, rfl⟩

/-- A table that agrees with the one before, and has no other names. -/
lemma agree (h : D.InStep names table m) (hagree : table.agreesBy D.view table' = true)
    (hsub : ∀ x t, names x → table'.get? x = some t → ∃ u, table.get? x = some u) :
    D.InStep names table' m := by
  refine h.of_table (fun _ hx => hx) fun x t hx ht => ?_
  obtain ⟨u, hu⟩ := hsub x t hx ht
  obtain ⟨w, hw, hview⟩ := Scopes.exists_get?_of_agreesBy hagree hu
  cases hw.symm.trans ht
  exact ⟨u, hu, hview.symm⟩

/-- Back to a table whose names have the same types. -/
lemma back (h : D.InStep names table' m) (hagree : table.agreesBy D.view table' = true) :
    D.InStep names table m :=
  h.of_table (fun _ hx => hx) fun _ _ _ ht => Scopes.exists_get?_of_agreesBy hagree ht

lemma keep (h : D.InStep names table m) (hm : m'.memory = m.memory)
    (hk : Store.Keeps m.store m'.store) : D.InStep names table m' := by
  refine ⟨fun x t hx ht => ?_, by rw [hm]; exact h.separate⟩
  obtain ⟨v, hv, u, hu, hvt⟩ := h.fits x t hx ht
  exact ⟨v, by rw [hm]; exact hv, u, hu, hk.typed hvt⟩

/-- A name is bound to a value of some type. -/
lemma bind (h : D.InStep names table m) {v : Value} (hv : D.Typed m.store v t) {id : String}
    (hnames : ∀ x, names' x → x = id ∨ names x) :
    D.InStep names' (table.set id t) (m.bind id v) := by
  obtain ⟨u, hview, hv⟩ := hv
  obtain ⟨hstored, hkeeps⟩ := Machine.typed_stored hv
  rw [Machine.bind_eq]
  refine ⟨fun x u' hx hu => ?_, h.separate.set _ _⟩
  rw [Scopes.get?_set] at hu ⊢
  by_cases hid : x = id
  · rw [if_pos hid] at hu ⊢
    cases hu
    exact ⟨_, rfl, u, hview, hstored⟩
  · rw [if_neg hid] at hu ⊢
    obtain ⟨w, hw, w', hw', hwt⟩ := h.fits x u' ((hnames x hx).resolve_left hid) hu
    exact ⟨w, hw, w', hw', hkeeps.typed hwt⟩

lemma pushTable (h : D.InStep names table m) (name : String) :
    D.InStep names (table.push name) m :=
  h.of_get? (fun _ hx => hx) fun x t _ ht => by rwa [Scopes.get?_push] at ht

lemma pushMemory (h : D.InStep names table m) (scope : String) :
    D.InStep names table (m.push scope) := by
  refine ⟨fun x t hx ht => ?_, h.separate.push scope⟩
  obtain ⟨v, hv, hvt⟩ := h.fits x t hx ht
  exact ⟨v, by rw [Machine.memory_push, Scopes.get?_push, hv], hvt⟩

/-- The scope of a branch or round is left: no name that was bound before it is lost. -/
lemma pop {scope : String} (h : D.InStep names table m') (h₀ : D.InStep names table₀ m)
    (hev : (m.push scope).memory.Evolves m'.memory)
    (hsub : ∀ x t, names x → table.get? x = some t → ∃ u, table₀.get? x = some u) :
    D.InStep names table m'.pop := by
  refine ⟨fun x t hx ht => ?_, h.separate.pop⟩
  obtain ⟨v, hv, hvt⟩ := h.fits x t hx ht
  obtain ⟨u, hu⟩ := hsub x t hx ht
  obtain ⟨w, hw, -⟩ := h₀.fits x u hx hu
  have hbound : m'.memory.pop.contains x = true :=
    hev.pop.grows.contains (Scopes.contains_of_get? hw)
  exact ⟨v, by rw [Machine.memory_pop, h.separate.get?_pop hbound, hv], hvt⟩

end Discipline.InStep

/-- After a scope is left, the names of a table are those it had before. -/
lemma exists_get?_of_widens {name : String} (hw : (table.push name).Widens table') (x : String)
    (t : Ty) (ht : table'.pop.get? x = some t) : ∃ u, table.get? x = some u := by
  rw [← Option.isSome_iff_exists, Scopes.get?_isSome, ← hw.pop.contains x]
  exact Scopes.contains_of_get? ht

lemma Scopes.Separate.get?_of_pop {s : Scopes α} (h : s.Separate) {x : String} {a : α}
    (hx : s.pop.get? x = some a) : s.get? x = some a := by
  rwa [← h.get?_pop (Scopes.contains_of_get? hx)]

namespace Run

/-- A branch or block, whose scope is left in the table and in memory. -/
lemma inStep_within {scope name : String} {body : Run α} (h : D.InStep names table m)
    (hev : Evolves body) (hw : (table.push name).Widens table') (hsep : table'.Separate)
    (hbody : Ends (body (m.push scope)) (fun _ => D.InStep names table') (D.StopsInStep names entry)) :
    Ends (within scope body m) (fun _ => D.InStep names table'.pop) (D.StopsInStep names entry) := by
  have hm := hev (m.push scope)
  unfold within
  cases hx : body (m.push scope) with
  | ok a m' =>
    rw [hx] at hbody hm
    have hpop : D.InStep names table'.pop m' :=
      hbody.of_get? (fun _ hx => hx) fun x t _ ht => hsep.get?_of_pop ht
    exact hpop.pop h hm fun x t _ ht => exists_get?_of_widens hw x t ht
  | error stop m' =>
    rw [hx] at hbody
    exact hbody

/-- A round of a loop: its end and its jumps are in step with the table before it. -/
lemma inStep_round {scope : String} {body : Run α} (h : D.InStep names table m)
    (hev : Evolves body) (hnames : ∀ x, names x → names' x) (hsep : table'.Separate)
    (hagree : table.agreesBy D.view table'.pop = true)
    (hbody : Ends (body (m.push scope)) (fun _ => D.InStep names' table')
      (D.StopsInStep names' table)) :
    Ends (round scope body m) (fun _ => D.InStep names table) (D.StopsInStep names entry) := by
  have hm := hev (m.push scope)
  have hpop : ∀ m', D.InStep names table m' → (m.push scope).memory.Evolves m'.memory →
      D.InStep names table m'.pop := fun m' h' hm => h'.pop h hm fun x t _ ht => ⟨t, ht⟩
  unfold round
  cases hx : body (m.push scope) with
  | ok a m' =>
    rw [hx] at hbody hm
    refine hpop m' (hbody.of_table hnames fun x t _ ht => ?_) hm
    obtain ⟨w, hw, hview⟩ := Scopes.exists_get?_of_agreesBy hagree ht
    exact ⟨w, hsep.get?_of_pop hw, hview⟩
  | error stop m' =>
    rw [hx] at hbody hm
    cases stop with
    | breakLoop _ | continueLoop _ =>
      exact hpop m' (Discipline.InStep.of_get? hbody hnames fun _ _ _ ht => ht) hm
    | giveBack _ | failed _ | outOfFuel => exact trivial

end Run

lemma Ends.inStep {r : EStateM.Result Run.Stop Machine α} {Q : α → Machine → Prop}
    (h : Ends r Q (FailsOn m)) : Ends r Q (D.StopsInStep names entry) :=
  h.imp (fun _ _ h => h) fun _ _ => stopsInStep_of_failsOn

/-- What is assigned to a part of an array takes the kind of the array. -/
lemma Discipline.InStep.change (h : D.InStep names table m) {array : Value} (selector v : Value) :
    Ends ((ofStore (fun store => array.patch store selector v) >>= Run.change) m)
      (fun _ => D.InStep names table) (D.StopsInStep names entry) := by
  refine Ends.bind (ends_ofStore_keep fun p hp => keeps_of_patch hp).inStep fun p m' hp => ?_
  obtain rfl := hp.1.symm
  exact h.keep rfl hp.2

end

/-! ## Statements -/

/-- What running a checked statement can do: end or jump in step with the check, or stop. The names
that it evaluates have values of their types. -/
structure TypedStmt (D : Discipline) (names : String → Prop) (entry : Scopes Ty) (fuel : Nat)
    (st : Typing.State) (m : Machine) (s : Stmt) (st' : Typing.State) : Prop where
  ends : Ends (s.exec fuel m) (fun _ => D.InStep names st'.table) (D.StopsInStep names entry)
  evaluations : ∀ ev ∈ s.evaluations fuel m, ev.Placed D.Seen st (.stmt s)

structure TypedStmts (D : Discipline) (names : String → Prop) (entry : Scopes Ty) (fuel : Nat)
    (st : Typing.State) (m : Machine) (ss : List Stmt) (st' : Typing.State) : Prop where
  ends : Ends (Stmt.execAll fuel ss m) (fun _ => D.InStep names st'.table) (D.StopsInStep names entry)
  evaluations :
    PlacedParts D.Seen (Part.threaded st (ss.map .stmt)) (Stmt.evaluationsAll fuel ss m)

section

variable {D : Discipline} {names : String → Prop} {entry : Scopes Ty} {st st' : Typing.State}
  {m : Machine} {t : Ty} {span : Span} {fuel : Nat}

lemma Discipline.InStep.typed {e : Expr} (h : D.InStep names st.table m) (hn : e.Normal)
    (hx : e.passes D.admits st = true) (hc : e.check .raising st = .ok t st')
    (hf : ∀ x ∈ e.names, names x) : TypedExpr D st m e t st' :=
  e.typed hn hx hc (h.fits.mono hf)

lemma Expr.mem_evaluations_of_target {ev : Evaluation} (e : Expr)
    (h : ev ∈ e.targetEvaluations m) : ev ∈ e.evaluations m := by
  cases e with
  | name _ _ => exact h
  | element _ _ _ _ _ => exact List.mem_of_mem_tail h
  | _ => cases h

/-- A target is no vector itself. -/
lemma Expr.regular_of_target {e : Expr} (h : e.IsTarget) (hr : D.Regular (e.targetEvaluations m)) :
    D.Regular (e.evaluations m) := by
  cases e with
  | name _ _ => exact hr
  | element _ _ _ _ _ => exact Discipline.regular_cons.2 ⟨fun _ _ _ _ he => (nomatch he), hr⟩
  | _ => exact h.elim

lemma Run.assign_element {elementSpan idSpan indexSpan : Span} {id : String} {indices : List Expr}
    (value : Expr) : assign (.element elementSpan id idSpan indices indexSpan) value = (do
      let array ← lookup id
      let selector ← evalIndices indices
      let v ← value.eval
      let p ← ofStore fun store => array.patch store selector v
      change p) := rfl

/-- An assignment to a part of an array changes elements only. -/
lemma inStep_assign_element {elementSpan idSpan indexSpan : Span} {id : String}
    {indices : List Expr} {value : Expr} {table : Scopes Ty} (h : D.InStep names table m)
    (hindices : Ends (evalIndices indices m) (fun _ m' => m' = m) (FailsOn m))
    (hvalue : ∀ selector, evalIndices indices m = .ok selector m →
      Ends (value.eval m) (D.TypedOn m t) (FailsOn m)) :
    Ends (assign (.element elementSpan id idSpan indices indexSpan) value m)
      (fun _ => D.InStep names table) (D.StopsInStep names entry) := by
  rw [assign_element, bind_ok (show lookup id m = .ok (m.lookup id) m from rfl)]
  refine hindices.self.inStep.bind fun selector m' hm' => ?_
  obtain ⟨heval, hm'⟩ := hm'
  obtain rfl := hm'.symm
  refine (hvalue selector heval).inStep.bind fun v m' hv => ?_
  obtain rfl := hv.1.symm
  exact h.change selector v

lemma typed_assign_name {nameSpan : Span} {id : String} {value : Expr}
    (h : D.InStep names st.table m) (hn : value.Normal) (hx : value.passes D.admits st = true)
    (hc : (Stmt.assign span (.name nameSpan id) value).check .raising st = .ok t st')
    (hf : ∀ x ∈ value.names, names x)
    (hr : D.Regular ((Stmt.assign span (.name nameSpan id) value).evaluations fuel m)) :
    TypedStmt D names entry fuel st m (.assign span (.name nameSpan id) value) st' := by
  obtain ⟨t₁, st₁, hv, rfl⟩ := Stmt.checkAssign_name (Stmt.check_assign hc)
  have hvalue := h.typed hn hx hv hf
  obtain rfl := hvalue.state_eq.symm
  simp only [Stmt.evaluations, Discipline.regular_map_under] at hr
  constructor
  · simp only [Stmt.exec]
    refine Ends.bind ((hvalue.ends hr).inStep.bind fun v m' hv => ?_) fun _ _ h => h
    obtain ⟨rfl, hvt⟩ := hv
    exact h.bind hvt fun _ hx => .inr hx
  · refine placed_map_under (hvalue.evaluations hr) (i := 1) ?_
    change some (stateAfter ((Expr.name nameSpan id).check .raising st), Part.expr value) = _
    rw [stateAfter_check_name]

/-- The indices are evaluated before the value, in the machine that the statement starts with. -/
lemma typed_assign_element {elementSpan idSpan indexSpan : Span} {id : String}
    {indices : List Expr} {value : Expr} (h : D.InStep names st.table m)
    (hnt : (Expr.element elementSpan id idSpan indices indexSpan).Normal) (hnv : value.Normal)
    (hxt : (Expr.element elementSpan id idSpan indices indexSpan).passes D.admits st = true)
    (hxv : value.passes D.admits st = true)
    (hc : (Stmt.assign span (.element elementSpan id idSpan indices indexSpan) value).check
      .raising st = .ok t st')
    (hft : ∀ x ∈ (Expr.element elementSpan id idSpan indices indexSpan).names, names x)
    (hfv : ∀ x ∈ value.names, names x)
    (hr : D.Regular ((Stmt.assign span (.element elementSpan id idSpan indices indexSpan)
      value).evaluations fuel m)) :
    TypedStmt D names entry fuel st m
      (.assign span (.element elementSpan id idSpan indices indexSpan) value) st' := by
  obtain ⟨t₁, st₁, htc, hv⟩ := Stmt.checkAssign_element (Stmt.check_assign hc)
  have htarget := h.typed hnt hxt htc hft
  simp only [Stmt.evaluations, Discipline.regular_append, Discipline.regular_map_under] at hr
  have hregular : D.Regular ((Expr.element elementSpan id idSpan indices indexSpan).evaluations m) :=
    Expr.regular_of_target trivial hr.1
  have hindices :=
    Expr.ends_indices hnt hxt htc (h.fits.mono hft) (Expr.regularParts_indices hregular)
  obtain rfl := htarget.state_eq.symm
  have hvalue := h.typed hnv hxv hv hfv
  obtain rfl := hvalue.state_eq.symm
  have hrv : ∀ selector, evalIndices indices m = .ok selector m →
      D.Regular (value.evaluations m) := by
    intro selector heval
    simpa only [heval, Discipline.regular_map_under] using hr.2
  constructor
  · simp only [Stmt.exec]
    refine Ends.bind (inStep_assign_element (t := t₁) h hindices fun selector heval => ?_) fun _ _ h => h
    exact hvalue.ends (hrv selector heval)
  · intro ev hev
    simp only [Stmt.evaluations, List.mem_append] at hev
    rcases hev with hev | hev
    · refine placed_map_under (fun ev hev => ?_) (i := 0) rfl ev hev
      exact htarget.evaluations hregular ev (Expr.mem_evaluations_of_target _ hev)
    · split at hev
      · next selector m' hsel =>
        rw [hsel] at hindices
        obtain rfl : m' = m := hindices
        refine placed_map_under (hvalue.evaluations (hrv selector hsel)) (i := 1) ?_ ev hev
        change some (stateAfter (Expr.check _ _ st), Part.expr value) = _
        rw [htc, stateAfter_ok]
      · cases hev

lemma typed_assign {target value : Expr} (h : D.InStep names st.table m)
    (hn : (Stmt.assign span target value).Normal)
    (hx : (Stmt.assign span target value).passes D.admits st = true)
    (hc : (Stmt.assign span target value).check .raising st = .ok t st')
    (hf : ∀ x ∈ target.names ++ value.names, names x)
    (hr : D.Regular ((Stmt.assign span target value).evaluations fuel m)) :
    TypedStmt D names entry fuel st m (.assign span target value) st' := by
  obtain ⟨ht, hnt, hnv⟩ := hn
  simp only [Stmt.passes, Bool.and_eq_true] at hx
  have hft : ∀ x ∈ target.names, names x := fun x hx => hf x (List.mem_append_left _ hx)
  have hfv : ∀ x ∈ value.names, names x := fun x hx => hf x (List.mem_append_right _ hx)
  cases target with
  | name nameSpan id => exact typed_assign_name h hnv hx.2 hc hfv hr
  | element elementSpan id idSpan indices indexSpan =>
    exact typed_assign_element h hnt hnv hx.1 hx.2 hc hft hfv hr
  | _ => exact ht.elim

lemma Run.update_element {elementSpan idSpan indexSpan : Span} {symbol id : String}
    {indices : List Expr} {op : Operation} (value : Expr)
    (hop : Operation.ofName? (symbol.take 1).toString = some op) :
    update symbol (.element elementSpan id idSpan indices indexSpan) value = (do
      let v ← value.eval
      let array ← lookup id
      let selector ← evalIndices indices
      let old ← ofStore fun store => array.index store selector
      let new ← perform op [old, v]
      let p ← ofStore fun store => array.patch store selector new
      change p) := by
  simp only [update, hop]

/-- The operators with a table compute. -/
lemma ends_perform_of_symbol {symbol : String} {op : ScalarOperator}
    (h : ScalarOperator.ofSymbol? symbol = some op) :
    ∃ operation, Operation.ofName? symbol = some operation ∧
      ∀ (vs : List Value) (m : Machine),
        Ends (perform operation vs m) (fun _ m' => m' = m) (FailsOn m) := by
  have hcompute : ∀ (operation : Operation) (vs : List Value) (m : Machine),
      Ends (ofStore (fun store => operation.compute store vs) m) (fun _ m' => m' = m) (FailsOn m) :=
    fun operation vs m =>
      (ends_ofStore_keep fun _ _ => trivial).imp (fun _ _ h => h.1) fun _ _ h => h
  rcases operation_of_symbol h with ⟨-, hname⟩ | ⟨f, -, hname⟩ | ⟨-, c, hname⟩
  · exact ⟨_, hname, hcompute .negate⟩
  · exact ⟨_, hname, hcompute (.arith f)⟩
  · exact ⟨_, hname, hcompute (.compare c)⟩

lemma inStep_update_name {nameSpan : Span} {symbol id : String} {value : Expr}
    {op : ScalarOperator} {t₁ t₂ : Ty} (h : D.InStep names st.table m)
    (hop : ScalarOperator.ofSymbol? (symbol.take 1).toString = some op)
    (hr : op.result? [t₁, t₂] = some t)
    (hadmits : D.admits (symbol.take 1).toString [t₁, t₂] = true)
    (hlookup : Ends (lookup id m) (D.TypedOn m t₁) (FailsOn m))
    (hvalue : Ends (value.eval m) (D.TypedOn m t₂) (FailsOn m)) :
    Ends (update symbol (.name nameSpan id) value m) (fun _ => D.InStep names (st.set id t).table)
      (D.StopsInStep names entry) := by
  rw [update_name]
  generalize (symbol.take 1).toString = name at hop hadmits
  refine hvalue.inStep.bind fun v m' hv => ?_
  obtain rfl := hv.1.symm
  refine hlookup.inStep.bind fun old m' hold => ?_
  obtain rfl := hold.1.symm
  have happly := D.operator (.table hop hr) (by simp) (fun _ => rfl) hadmits
    (.cons hold.2 (.cons hv.2 .nil))
  refine Ends.bind happly.inStep fun new m' hnew => ?_
  obtain rfl := hnew.1.symm
  exact h.bind hnew.2 fun _ hx => .inr hx

lemma inStep_update_element {elementSpan idSpan indexSpan : Span} {symbol id : String}
    {indices : List Expr} {value : Expr} {table : Scopes Ty} {op : ScalarOperator}
    (h : D.InStep names table m)
    (hop : ScalarOperator.ofSymbol? (symbol.take 1).toString = some op)
    (hvalue : Ends (value.eval m) (D.TypedOn m t) (FailsOn m))
    (hindices : ∀ v, value.eval m = .ok v m →
      Ends (evalIndices indices m) (fun _ m' => m' = m) (FailsOn m)) :
    Ends (update symbol (.element elementSpan id idSpan indices indexSpan) value m)
      (fun _ => D.InStep names table) (D.StopsInStep names entry) := by
  obtain ⟨operation, hname, hperform⟩ := ends_perform_of_symbol hop
  rw [update_element value hname]
  refine hvalue.self.inStep.bind fun v m' hv => ?_
  obtain ⟨heval, hm', -⟩ := hv
  obtain rfl := hm'.symm
  rw [bind_ok (show lookup id m = .ok (m.lookup id) m from rfl)]
  refine (hindices v heval).inStep.bind fun selector m' hm' => ?_
  obtain rfl := hm'.symm
  refine Ends.bind (ends_ofStore_keep fun _ _ => trivial).inStep fun old m' hm' => ?_
  obtain rfl := hm'.1.symm
  refine (hperform [old, v] m).inStep.bind fun new m' hm' => ?_
  obtain rfl := hm'.symm
  exact h.change selector new

lemma typed_update {symbol : String} {target value : Expr} (h : D.InStep names st.table m)
    (hn : (Stmt.update span symbol target value).Normal)
    (hx : (Stmt.update span symbol target value).passes D.admits st = true)
    (hc : (Stmt.update span symbol target value).check .raising st = .ok t st')
    (hf : ∀ x ∈ target.names ++ value.names, names x)
    (hr : D.Regular ((Stmt.update span symbol target value).evaluations fuel m)) :
    TypedStmt D names entry fuel st m (.update span symbol target value) st' := by
  obtain ⟨⟨s, hassign, hne, hsymbol⟩, ht, hnt, hnv⟩ := hn
  obtain ⟨t₁, st₁, t₂, st₂, op, result, hold, hv, hop, hresult, rfl⟩ :=
    Stmt.checkUpdate_raising (Stmt.check_update hc)
  have hft : ∀ x ∈ target.names, names x := fun x hx => hf x (List.mem_append_left _ hx)
  have hfv : ∀ x ∈ value.names, names x := fun x hx => hf x (List.mem_append_right _ hx)
  have hchecks : Expr.checkAll .raising [target, value] st = .ok [t₁, t₂] st₂ := by
    simp only [Expr.checkAll]
    rw [bind_ok hold, bind_ok (show _ = EStateM.Result.ok [t₂] st₂ by rw [bind_ok hv]; rfl)]
    rfl
  simp only [Stmt.passes, Expr.passes, Expr.passesAll, hchecks, Bool.and_eq_true,
    and_true] at hx
  obtain ⟨⟨hxt, hxv⟩, hadmits⟩ := hx
  have htarget := h.typed hnt hxt hold hft
  obtain rfl := htarget.state_eq.symm
  have hvalue := h.typed hnv hxv hv hfv
  obtain rfl := hvalue.state_eq.symm
  have hsame : (symbol.take 1).toString = (symbol.dropEnd 1).toString := by
    rw [hsymbol, take_eq_dropEnd hassign hne]
  rw [← hsame] at hop hadmits
  simp only [Stmt.evaluations, Discipline.regular_append, Discipline.regular_map_under] at hr
  have hends := hvalue.ends hr.1
  have hrt : ∀ v, value.eval m = .ok v m → D.Regular (target.evaluations m) := by
    intro v heval
    simp only [heval, Discipline.regular_map_under] at hr
    exact Expr.regular_of_target ht hr.2
  constructor
  · simp only [Stmt.exec]
    refine Ends.bind ?_ fun _ _ h => h
    cases target with
    | name nameSpan id =>
      have hname : D.Regular ((Expr.name nameSpan id).evaluations m) :=
        Discipline.regular_cons.2 ⟨fun _ _ _ _ he => (by cases he), Discipline.regular_nil⟩
      have hlookup := htarget.ends hname
      simp only [Expr.eval] at hlookup
      exact inStep_update_name h hop hresult hadmits hlookup hends
    | element elementSpan id idSpan indices indexSpan =>
      refine inStep_update_element h hop hends fun v heval => ?_
      exact Expr.ends_indices hnt hxt hold (h.fits.mono hft) (Expr.regularParts_indices (hrt v heval))
    | _ => exact ht.elim
  · intro ev hev
    simp only [Stmt.evaluations, List.mem_append] at hev
    rcases hev with hev | hev
    · refine placed_map_under (hvalue.evaluations hr.1) (i := 1) ?_ ev hev
      change some (stateAfter (target.check .raising st), Part.expr value) = _
      rw [hold, stateAfter_ok]
    · split at hev
      · next v m' hv =>
        rw [hv] at hends
        obtain rfl := hends.1
        refine placed_map_under (fun ev hev => ?_) (i := 0) rfl ev hev
        exact htarget.evaluations (hrt v hv) ev (target.mem_evaluations_of_target hev)
      · cases hev

/-- An instruction prints, gives back a value or jumps. -/
lemma inStep_instruction {name : String} {vs : List Value} {table : Scopes Ty}
    (hfit : ArgumentsFit name vs.length) (h : D.InStep names table m)
    (hjump : name = "break" ∨ name = "continue" → D.InStep names entry m) :
    Ends (apply name vs m) (fun _ => D.InStep names table) (D.StopsInStep names entry) := by
  have hdisplay : Ends (displayAll vs m) (fun _ m' => m' = m) (D.StopsInStep names entry) :=
    (ends_ofStore_keep fun _ _ => trivial).imp (fun _ _ h => h.1) fun _ _ =>
      stopsInStep_of_failsOn
  rcases hfit with ⟨rfl, -⟩ | ⟨rfl, hone⟩ | ⟨⟨k, hk, rfl⟩, -⟩
  · rw [apply_eq_perform (show Operation.ofName? Keyword.print.spelling = some .print by decide)]
    refine Ends.bind ((ends_print vs m).imp ?_ ?_) fun _ _ h => h
    · rintro - m' ⟨text, rfl⟩
      exact h.keep rfl (.refl _)
    · rintro stop m' ⟨-, v, -, e, -, rfl⟩
      trivial
  · obtain ⟨v, rfl⟩ := List.length_eq_one_iff.1 hone
    rw [apply_eq_perform (show Operation.ofName? Keyword.return.spelling = some .giveBack by decide)]
    exact trivial
  · rcases hk with rfl | rfl
    · rw [apply_eq_perform
        (show Operation.ofName? Keyword.break.spelling = some .breakLoop by decide)]
      refine hdisplay.bind fun note m' hm' => ?_
      obtain rfl := hm'.symm
      exact hjump (.inl rfl)
    · rw [apply_eq_perform
        (show Operation.ofName? Keyword.continue.spelling = some .continueLoop by decide)]
      refine hdisplay.bind fun note m' hm' => ?_
      obtain rfl := hm'.symm
      exact hjump (.inr rfl)

lemma typed_instruction {name : String} {arguments : List Expr} (h : D.InStep names st.table m)
    (hn : (Stmt.instruction span name arguments).Normal)
    (hj : (Stmt.instruction span name arguments).joinsAgreeBy D.view entry st = true)
    (hx : (Stmt.instruction span name arguments).passes D.admits st = true)
    (hc : (Stmt.instruction span name arguments).check .raising st = .ok t st')
    (hf : ∀ x ∈ Expr.namesAll arguments, names x)
    (hr : D.Regular ((Stmt.instruction span name arguments).evaluations fuel m)) :
    TypedStmt D names entry fuel st m (.instruction span name arguments) st' := by
  obtain ⟨-, ts, hts⟩ := Stmt.check_instruction hc
  have hall := Expr.typed_all arguments hn.2 hx hts (h.fits.mono hf)
  obtain rfl := hall.state_eq.symm
  simp only [Stmt.joinsAgreeBy, decide_eq_true_eq] at hj
  simp only [Stmt.evaluations, Discipline.regular_underFrom] at hr
  constructor
  · simp only [Stmt.exec]
    refine (hall.ends hr).inStep.bind fun vs m' hvs => ?_
    obtain ⟨hm', hvs⟩ := hvs
    obtain rfl := hm'.symm
    have hlength : vs.length = arguments.length := hvs.length_eq.trans (Expr.length_checkAll hts)
    refine inStep_instruction (hlength ▸ hn.1) h fun hname => ?_
    exact h.back (hj hname)
  · exact PlacedParts.under (.stmt (.instruction span name arguments)) (hall.evaluations hr)

/-- A loop with a condition, if a round keeps in step with the table before the loop. -/
lemma typed_whileLoop {condition : Expr} {body : Stmt} {st₁ : Typing.State}
    (hcond : ∀ m, D.InStep names st.table m → TypedExpr D st m condition .bool st)
    (hrun : ∀ m, D.InStep names st.table m → D.Regular (body.evaluations fuel (m.push "while")) →
      TypedStmt D names st.table fuel (st.push "loop") (m.push "while") body st₁)
    (hc : condition.check .raising st = .ok .bool st)
    (hw : (st.table.push "loop").Widens st₁.table) (hsep : st₁.table.Separate)
    (hagree : st.table.agreesBy D.view st₁.pop.table = true) (h : D.InStep names st.table m)
    (hr : D.Regular ((Stmt.whileLoop span condition body).evaluations fuel m)) :
    TypedStmt D names entry fuel st m (.whileLoop span condition body) st₁.pop := by
  simp only [Stmt.evaluations] at hr
  have htest : ∀ m, D.InStep names st.table m → D.Regular ((condition.evaluations m).map (under 0)) →
      Ends (test condition m) (fun _ => D.InStep names st.table) (D.StopsInStep names entry) ∧
        ∀ ev ∈ (condition.evaluations m).map (under 0),
          ev.Placed D.Seen st (.stmt (.whileLoop span condition body)) := by
    intro m h hr
    have hr := Discipline.regular_map_under.1 hr
    refine ⟨?_, placed_map_under ((hcond m h).evaluations hr) rfl⟩
    exact ((hcond m h).ends_test hr).inStep.imp (fun _ _ hm => hm ▸ h) fun _ _ h => h
  have hround : ∀ m, D.InStep names st.table m →
      D.Regular ((body.evaluations fuel (m.push "while")).map (under 1)) →
      Ends (round "while" (body.exec fuel) m) (fun _ => D.InStep names st.table)
          (D.StopsInStep names entry) ∧
        ∀ ev ∈ (body.evaluations fuel (m.push "while")).map (under 1),
          ev.Placed D.Seen st (.stmt (.whileLoop span condition body)) := by
    intro m h hr
    have hbody := hrun m h (Discipline.regular_map_under.1 hr)
    refine ⟨?_, placed_map_under hbody.evaluations ?_⟩
    · exact inStep_round h (body.evolves_exec fuel) (fun _ hx => hx) hsep hagree hbody.ends
    · simp only [Part.parts, Stmt.parts, hc, stateAfter_ok]
      rfl
  obtain ⟨hends, hevs⟩ := ends_evaluationsWhile htest hround (fun _ _ => trivial) fuel m h hr
  refine ⟨?_, hevs⟩
  simp only [Stmt.exec]
  refine Ends.bind hends fun _ m' h => ?_
  exact h.agree hagree fun x t _ ht => exists_get?_of_widens hw x t ht

/-- A loop over a range, if a round, in which its name is bound, keeps in step with the table before
the loop. -/
lemma typed_forLoop {names' : String → Prop} {id : String} {idSpan : Span} {range : Expr}
    {body : Stmt} {st₁ : Typing.State}
    (hrange : D.Regular (range.evaluations m) →
      Ends (range.eval m) (fun v m' => m' = m ∧ ∃ a b, v = .range a b) (FailsOn m) ∧
      ∀ ev ∈ range.evaluations m, ev.Placed D.Seen st (.expr range))
    (hrun : ∀ (n : Int) (m : Machine), D.InStep names st.table m →
      D.Regular (body.evaluations fuel ((m.push "for").bind id (.int n))) →
      TypedStmt D names' st.table fuel ((st.set id .int).push "loop")
        ((m.push "for").bind id (.int n)) body st₁)
    (hc : range.check .raising st = .ok .int st) (hnames : ∀ x, names x → names' x)
    (hsep : st₁.table.Separate) (hagree : st.table.agreesBy D.view st₁.pop.table = true)
    (hsub : ∀ x t, names x → st₁.pop.table.get? x = some t → ∃ u, st.table.get? x = some u)
    (h : D.InStep names st.table m)
    (hr : D.Regular ((Stmt.forLoop span id idSpan range body).evaluations fuel m)) :
    TypedStmt D names entry fuel st m (.forLoop span id idSpan range body) st₁.pop := by
  simp only [Stmt.evaluations, Discipline.regular_append, Discipline.regular_map_under] at hr
  obtain ⟨hends, hevs⟩ := hrange hr.1
  have hround : ∀ (a : Int) (i : Nat) (m : Machine), D.InStep names st.table m →
      D.Regular ((body.evaluations fuel ((m.push "for").bind id (.int (a + i)))).map (under 1)) →
      Ends (round "for" (do
          Run.bind id ((fun (_ : Store) (i : Nat) => Value.int (a + i)) (← get).store i)
          body.exec fuel) m) (fun _ => D.InStep names st.table) (D.StopsInStep names entry) ∧
        ∀ ev ∈ (body.evaluations fuel ((m.push "for").bind id (.int (a + i)))).map (under 1),
          ev.Placed D.Seen st (.stmt (.forLoop span id idSpan range body)) := by
    intro a i m h hr
    have hbody := hrun (a + i) m h (Discipline.regular_map_under.1 hr)
    refine ⟨?_, placed_map_under hbody.evaluations ?_⟩
    · exact inStep_round h ((body.evolves_exec fuel).bindItem id (fun _ i => .int (a + i)) i)
        hnames hsep hagree hbody.ends
    · simp only [Part.parts, Stmt.parts, State.header_eq hc]
      rfl
  constructor
  · simp only [Stmt.exec]
    refine hends.self.inStep.bind ?_
    rintro v m' ⟨heval, hm', a, b, rfl⟩
    obtain rfl := hm'.symm
    rw [heval] at hr
    rw [bind_ok (show ofStore (fun _ => (Value.range a b).items) m = .ok _ m from rfl)]
    have hloop := ends_evaluationsFrom (hround a) _ 0 m h hr.2
    exact Ends.bind hloop.1 fun _ m' h => h.agree hagree hsub
  · intro ev hev
    simp only [Stmt.evaluations, List.mem_append] at hev
    rcases hev with hev | hev
    · exact placed_map_under hevs (i := 0) rfl ev hev
    · split at hev
      · next v m' hv =>
        rw [hv] at hends hr
        obtain ⟨hm', a, b, rfl⟩ := hends
        obtain rfl := hm'.symm
        exact (ends_evaluationsFrom (hround a) _ 0 m h hr.2).2 ev hev
      · cases hev

lemma typed_ifThen {condition : Expr} {yes : Stmt} {st₁ : Typing.State}
    (hcond : TypedExpr D st m condition .bool st)
    (hyes : D.Regular (yes.evaluations fuel (m.push "then")) →
      TypedStmt D names entry fuel (st.push "then") (m.push "then") yes st₁)
    (hc : condition.check .raising st = .ok .bool st)
    (hw : (st.table.push "then").Widens st₁.table) (hsep : st₁.table.Separate)
    (hagree : st.table.agreesBy D.view st₁.pop.table = true) (h : D.InStep names st.table m)
    (hr : D.Regular ((Stmt.ifThen span condition yes).evaluations fuel m)) :
    TypedStmt D names entry fuel st m (.ifThen span condition yes) st₁.pop := by
  simp only [Stmt.evaluations, Discipline.regular_append, Discipline.regular_map_under] at hr
  have htest := hcond.ends_test hr.1
  have htrue : test condition m = .ok true m →
      TypedStmt D names entry fuel (st.push "then") (m.push "then") yes st₁ := by
    intro hx
    rw [hx] at hr
    exact hyes (Discipline.regular_map_under.1 hr.2)
  constructor
  · simp only [Stmt.exec]
    refine htest.self.inStep.bind fun b m' hm' => ?_
    obtain ⟨hx, hm'⟩ := hm'
    obtain rfl := hm'.symm
    cases b with
    | false => exact h.agree hagree fun x t _ ht => exists_get?_of_widens hw x t ht
    | true =>
      exact Ends.bind (inStep_within h (yes.evolves_exec fuel) hw hsep (htrue hx).ends)
        fun _ _ h => h
  · intro ev hev
    simp only [Stmt.evaluations, List.mem_append] at hev
    rcases hev with hev | hev
    · exact placed_map_under (hcond.evaluations hr.1) (i := 0) rfl ev hev
    · split at hev
      · next m' hx =>
        rw [hx] at htest
        obtain rfl : m' = m := htest
        refine placed_map_under (htrue hx).evaluations (i := 1) ?_ ev hev
        simp only [Part.parts, Stmt.parts, hc, stateAfter_ok]
        rfl
      · cases hev

/-- A choice between two branches. Each of them is run on what was there before, though the second
is checked after the first. -/
lemma typed_ifElse {condition : Expr} {yes no : Stmt} {st₁ st₂ : Typing.State}
    (hcond : TypedExpr D st m condition .bool st)
    (hyes : D.Regular (yes.evaluations fuel (m.push "then")) →
      TypedStmt D names entry fuel (st.push "then") (m.push "then") yes st₁)
    (hno : D.Regular (no.evaluations fuel (m.push "else")) →
      TypedStmt D names entry fuel (st₁.pop.push "else") (m.push "else") no st₂)
    (hc : condition.check .raising st = .ok .bool st)
    (hcy : yes.check .raising (st.push "then") = .ok t st₁)
    (hwy : (st.table.push "then").Widens st₁.table)
    (hwn : (st₁.pop.table.push "else").Widens st₂.table)
    (hsep₁ : st₁.table.Separate) (hsep₂ : st₂.table.Separate)
    (hagree₁ : st.table.agreesBy D.view st₁.pop.table = true)
    (hagree₂ : st.table.agreesBy D.view st₂.pop.table = true) (h : D.InStep names st.table m)
    (hr : D.Regular ((Stmt.ifElse span condition yes no).evaluations fuel m)) :
    TypedStmt D names entry fuel st m (.ifElse span condition yes no) st₂.pop := by
  simp only [Stmt.evaluations, Discipline.regular_append, Discipline.regular_map_under] at hr
  have htest := hcond.ends_test hr.1
  have htrue : test condition m = .ok true m →
      TypedStmt D names entry fuel (st.push "then") (m.push "then") yes st₁ := by
    intro hx
    rw [hx] at hr
    exact hyes (Discipline.regular_map_under.1 hr.2)
  have hfalse : test condition m = .ok false m →
      TypedStmt D names entry fuel (st₁.pop.push "else") (m.push "else") no st₂ := by
    intro hx
    rw [hx] at hr
    exact hno (Discipline.regular_map_under.1 hr.2)
  have h₁ : D.InStep names st₁.pop.table m :=
    h.agree hagree₁ fun x t _ ht => exists_get?_of_widens hwy x t ht
  have hsub : ∀ x t, names x → st₂.pop.table.get? x = some t → ∃ u, st.table.get? x = some u := by
    intro x t _ ht
    obtain ⟨u, hu⟩ := exists_get?_of_widens hwn x t ht
    exact exists_get?_of_widens hwy x u hu
  constructor
  · simp only [Stmt.exec]
    refine htest.self.inStep.bind fun b m' hm' => ?_
    obtain ⟨hx, hm'⟩ := hm'
    obtain rfl := hm'.symm
    cases b with
    | false =>
      exact Ends.bind (inStep_within h₁ (no.evolves_exec fuel) hwn hsep₂ (hfalse hx).ends)
        fun _ _ h => h
    | true =>
      refine Ends.bind (inStep_within h (yes.evolves_exec fuel) hwy hsep₁ (htrue hx).ends)
        fun _ m' h => ?_
      exact (Discipline.InStep.back h hagree₁).agree hagree₂ hsub
  · intro ev hev
    simp only [Stmt.evaluations, List.mem_append] at hev
    rcases hev with hev | hev
    · exact placed_map_under (hcond.evaluations hr.1) (i := 0) rfl ev hev
    · split at hev
      · next m' hx =>
        rw [hx] at htest
        obtain rfl : m' = m := htest
        refine placed_map_under (htrue hx).evaluations (i := 1) ?_ ev hev
        simp only [Part.parts, Stmt.parts, hc, stateAfter_ok]
        rfl
      · next m' hx =>
        rw [hx] at htest
        obtain rfl : m' = m := htest
        refine placed_map_under (hfalse hx).evaluations (i := 2) ?_ ev hev
        simp only [Part.parts, Stmt.parts, hc, hcy, stateAfter_ok]
        rfl
      · cases hev

end

/-- A name that loops are over may be used inside loops over it only. -/
def Usable (loops inside : List String) (x : String) : Prop := x ∈ loops → x ∈ inside

lemma Stmt.separate_of_check {s : Stmt} {st st' : Typing.State} {t : Ty}
    (hc : s.check .raising st = .ok t st') (h : st.table.Separate) : st'.table.Separate :=
  s.invariant_of_check (fun _ name h => h.push name) (fun _ h => h.pop)
    (fun _ id t h => h.set id t) hc h

lemma Stmt.check_ifThen_eq {span : Span} {condition : Expr} {yes : Stmt}
    {st st₁ st₂ : Typing.State} {t : Ty} (hcond : condition.check .raising st = .ok .bool st₁)
    (hy : yes.check .raising (st₁.push "then") = .ok t st₂) :
    (Stmt.ifThen span condition yes).check .raising st = .ok .none st₂.pop := by
  have hwithin : Typing.within "then" (discard (yes.check .raising)) st₁ = .ok () st₂.pop :=
    within_eq_ok.2 ⟨st₂, discard_eq_ok.2 ⟨t, hy⟩, rfl⟩
  have hbool : require .raising span Ty.bool .bool
      "Condition in if statement has to evaluate to boolean" st₁ = .ok () st₁ :=
    require_raising.2 ⟨rfl, rfl⟩
  simp only [Stmt.check]
  rw [bind_ok hcond, bind_ok hbool, bind_ok hwithin]
  rfl

/-- An accepted statement keeps in step with its check, wherever it stands, if ways that meet agree,
operators are admitted, and so are the items of vectors when it runs. -/
def Stmt.KeepsStep (D : Discipline) (loops : List String) (fuel : Nat) (s : Stmt) : Prop :=
  ∀ ⦃inside : List String⦄ ⦃entry : Scopes Ty⦄ ⦃st st' : Typing.State⦄ ⦃t : Ty⦄ ⦃m : Machine⦄,
    s.Normal → s.check .raising st = .ok t st' → s.Fits loops inside →
    (∀ x ∈ inside, st.table.contains x = true) → s.everywhere (joinsAgreeBy D.view) entry st = true →
    s.everywhere (fun _ => passes D.admits) entry st = true → st.table.Separate →
    D.InStep (Usable loops inside) st.table m → D.Regular (s.evaluations fuel m) →
    TypedStmt D (Usable loops inside) entry fuel st m s st'

/-- The same for statements one after another. -/
def Stmt.KeepStep (D : Discipline) (loops : List String) (fuel : Nat) (ss : List Stmt) : Prop :=
  ∀ ⦃inside : List String⦄ ⦃entry : Scopes Ty⦄ ⦃st st' : Typing.State⦄ ⦃m : Machine⦄,
    Stmt.NormalAll ss → Stmt.checkAll .raising ss st = .ok () st' → Stmt.FitsAll loops inside ss →
    (∀ x ∈ inside, st.table.contains x = true) →
    Stmt.everywhereAll (joinsAgreeBy D.view) entry st ss = true →
    Stmt.everywhereAll (fun _ => passes D.admits) entry st ss = true → st.table.Separate →
    D.InStep (Usable loops inside) st.table m → D.RegularParts (Stmt.evaluationsAll fuel ss m) →
    TypedStmts D (Usable loops inside) entry fuel st m ss st'

namespace Stmt

variable {D : Discipline} {loops : List String} {fuel : Nat} {span : Span}

lemma keepsStep_block {body : List Stmt} (ih : Stmt.KeepStep D loops fuel body) :
    (Stmt.block span body).KeepsStep D loops fuel := by
  intro inside entry st st' t m hn hc hf hin hj hx hsep h hr
  obtain ⟨st₁, hbody, rfl⟩ := Stmt.check_block hc
  simp only [Stmt.everywhere, Bool.and_eq_true] at hj hx
  simp only [Stmt.evaluations, Discipline.regular_underFrom] at hr
  have hall := ih hn hbody hf.block (by simpa using hin) hj.2 hx.2 (hsep.push _)
    ((h.pushTable _).pushMemory "program") hr
  have hsep₁ : st₁.table.Separate :=
    Stmt.invariant_of_checkAll (fun _ name h => h.push name) (fun _ h => h.pop)
      (fun _ id t h => h.set id t) body hbody (hsep.push _)
  constructor
  · simp only [Stmt.exec]
    exact Ends.bind (inStep_within h (Stmt.evolves_execAll fuel body)
      (Stmt.widensTable_all _ body _ _ _ hbody) hsep₁ hall.ends) fun _ _ h => h
  · exact PlacedParts.under _ hall.evaluations

lemma keepsStep_whileLoop {condition : Expr} {body : Stmt} (ih : body.KeepsStep D loops fuel) :
    (Stmt.whileLoop span condition body).KeepsStep D loops fuel := by
  intro inside entry st st' t m hn hc hf hin hj hx hsep h hr
  have hcheck := hc
  obtain ⟨st₁, st₂, t₂, hcond, hbody, rfl⟩ := Stmt.check_whileLoop hc
  simp only [Stmt.everywhere, Stmt.joinsAgreeBy, Stmt.passes, hcheck, hcond, stateAfter_ok,
    Bool.and_eq_true] at hj hx
  have htyped : ∀ m, D.InStep (Usable loops inside) st.table m →
      TypedExpr D st m condition .bool st₁ := fun m h =>
    h.typed hn.1 hx.1 hcond hf.whileLoop.1
  obtain rfl := (htyped m h).state_eq.symm
  refine typed_whileLoop htyped (fun m h => ?_) hcond (body.widensTable _ _ _ _ hbody)
    (Stmt.separate_of_check hbody (hsep.push _)) hj.1 h hr
  exact ih hn.2 hbody hf.whileLoop.2 (by simpa using hin) hj.2 hx.2 (hsep.push _)
    ((h.pushTable _).pushMemory _)

/-- In the body of a loop over a range, its name is bound to an integer. -/
lemma keepsStep_forLoop {id : String} {idSpan : Span} {range : Expr} {body : Stmt}
    (ih : body.KeepsStep D loops fuel) :
    (Stmt.forLoop span id idSpan range body).KeepsStep D loops fuel := by
  intro inside entry st st' t m hn hc hf hin hj hx hsep h hr
  have hcheck := hc
  obtain ⟨t₁, st₁, st₂, t₂, hrange, hbody, rfl⟩ := Stmt.check_forLoop hc
  obtain ⟨hid, hfrange, hfbody⟩ := hf.forLoop
  simp only [Stmt.everywhere, Stmt.joinsAgreeBy, Stmt.passes, hcheck, State.header_eq hrange,
    stateAfter_ok, Bool.and_eq_true] at hj hx
  obtain ⟨rfl, hst₁, hnumbers⟩ := range.typed_range hn.1 hx.1 hrange (h.fits.mono hfrange)
  obtain rfl := hst₁.symm
  have hwiden := body.widensTable _ _ _ _ hbody
  have hsep' : ((st.set id .int).push "loop").table.Separate := (hsep.set _ _).push _
  have hnames : ∀ x, Usable loops inside x → Usable loops (id :: inside) x :=
    fun x hx hloop => List.mem_cons_of_mem _ (hx hloop)
  refine typed_forLoop hnumbers (fun n m h => ?_) hrange hnames
    (Stmt.separate_of_check hbody hsep') hj.1 (fun x t hx ht => ?_) h hr
  · refine ih hn.2 hbody hfbody (contains_in_forLoop hin) hj.2 hx.2 hsep' ?_
    have hint : D.Typed (m.push "for").store (.int n) .int := .of_typed (.scalar rfl)
    refine Discipline.InStep.pushTable ((h.pushMemory "for").bind hint fun x hx => ?_) _
    by_cases hxid : x = id
    · exact .inl hxid
    · exact .inr fun hloop => (List.mem_cons.1 (hx hloop)).resolve_left hxid
  · have hread : Readable loops inside st₂.pop.table x := ⟨Scopes.contains_of_get? ht, hx⟩
    rw [readable_after_forLoop hid hin hwiden] at hread
    rw [← Option.isSome_iff_exists, Scopes.get?_isSome]
    exact hread.1

lemma keepsStep_ifThen {condition : Expr} {yes : Stmt} (ih : yes.KeepsStep D loops fuel) :
    (Stmt.ifThen span condition yes).KeepsStep D loops fuel := by
  intro inside entry st st' t m hn hc hf hin hj hx hsep h hr
  have hcheck := hc
  obtain ⟨st₁, st₂, t₂, hcond, hy, rfl⟩ := Stmt.check_ifThen hc
  simp only [Stmt.everywhere, Stmt.joinsAgreeBy, Stmt.passes, hcheck, hcond, stateAfter_ok,
    Bool.and_eq_true] at hj hx
  have htyped := h.typed hn.1 hx.1 hcond hf.ifThen.1
  obtain rfl := htyped.state_eq.symm
  refine typed_ifThen htyped ?_ hcond (yes.widensTable _ _ _ _ hy)
    (Stmt.separate_of_check hy (hsep.push _)) hj.1 h hr
  exact ih hn.2 hy hf.ifThen.2 (by simpa using hin) hj.2 hx.2 (hsep.push _)
    ((h.pushTable _).pushMemory _)

/-- The second branch is run on what was there before the first, so the table after the first has to
agree with that before it. -/
lemma keepsStep_ifElse {condition : Expr} {yes no : Stmt} (ihYes : yes.KeepsStep D loops fuel)
    (ihNo : no.KeepsStep D loops fuel) :
    (Stmt.ifElse span condition yes no).KeepsStep D loops fuel := by
  intro inside entry st st' t m hn hc hf hin hj hx hsep h hr
  have hcheck := hc
  obtain ⟨st₁, st₂, t₂, st₃, t₃, hcond, hy, hno, rfl⟩ := Stmt.check_ifElse hc
  obtain ⟨hncond, hnyes, -, hnno⟩ := hn
  simp only [Stmt.everywhere, Stmt.joinsAgreeBy, Stmt.passes, hcheck,
    Stmt.check_ifThen_eq hcond hy, hcond, hy, stateAfter_ok, Bool.and_eq_true] at hj hx
  have htyped := h.typed hncond hx.1 hcond hf.ifElse.1
  obtain rfl := htyped.state_eq.symm
  have hwy := yes.widensTable _ _ _ _ hy
  have hsep₁ := Stmt.separate_of_check hy (hsep.push "then")
  have hsep₂ := Stmt.separate_of_check hno (hsep₁.pop.push "else")
  have h₁ : D.InStep (Usable loops inside) st₂.pop.table m :=
    h.agree hj.1.1 fun x t _ ht => exists_get?_of_widens hwy x t ht
  refine typed_ifElse htyped ?_ ?_ hcond hy hwy (no.widensTable _ _ _ _ hno) hsep₁ hsep₂ hj.1.1
    hj.1.2 h hr
  · exact ihYes hnyes hy hf.ifElse.2.1 (by simpa using hin) hj.2.1 hx.2.1 (hsep.push _)
      ((h.pushTable _).pushMemory _)
  · refine ihNo hnno hno hf.ifElse.2.2 (fun x hx => ?_) hj.2.2 hx.2.2 (hsep₁.pop.push _)
      ((h₁.pushTable _).pushMemory _)
    simp [hwy.pop.contains x, hin x hx]

lemma keepStep_cons {s : Stmt} {ss : List Stmt} (ih : s.KeepsStep D loops fuel)
    (ihs : Stmt.KeepStep D loops fuel ss) : Stmt.KeepStep D loops fuel (s :: ss) := by
  intro inside entry st st' m hn hc hf hin hj hx hsep h hr
  obtain ⟨t₁, st₁, hcs, hcss⟩ := Stmt.checkAll_cons hc
  simp only [Stmt.everywhereAll, hcs, stateAfter_ok, Bool.and_eq_true] at hj hx
  simp only [Stmt.evaluationsAll, Discipline.regularParts_cons] at hr
  have hw := s.widensTable _ _ _ _ hcs
  have hhead := ih hn.1 hcs hf.cons.1 hin hj.1 hx.1 hsep h hr.1
  have hrest : ∀ m, D.InStep (Usable loops inside) st₁.table m →
      D.RegularParts (Stmt.evaluationsAll fuel ss m) →
      TypedStmts D (Usable loops inside) entry fuel st₁ m ss st' := fun m h =>
    ihs hn.2 hcss hf.cons.2 (fun x hx => hw.grows.contains (hin x hx)) hj.2 hx.2
      (Stmt.separate_of_check hcs hsep) h
  have hends := hhead.ends
  constructor
  · simp only [Stmt.execAll]
    cases hx : s.exec fuel m with
    | ok v m₁ =>
      rw [hx] at hends hr
      exact (hrest m₁ hends hr.2).ends
    | error stop m₁ =>
      rw [hx] at hends
      exact hends
  · simp only [List.map_cons, Part.threaded, Stmt.evaluationsAll]
    refine PlacedParts.cons hhead.evaluations ?_
    rw [show stateAfter (Part.check (.stmt s) st) = st₁ by rw [Part.check, hcs, stateAfter_ok]]
    cases hx : s.exec fuel m with
    | ok v m₁ =>
      rw [hx] at hends hr
      exact (hrest m₁ hends hr.2).evaluations
    | error stop m₁ => exact placedParts_nil _

end Stmt

mutual

/-- A run keeps in step with the check. -/
theorem Stmt.inStep (D : Discipline) (loops : List String) (fuel : Nat) :
    (s : Stmt) → s.KeepsStep D loops fuel
  | .block _ body => keepsStep_block (Stmt.inStep_all D loops fuel body)
  | .assign _ _ _ => by
    intro inside entry st st' t m hn hc hf hin hj hx hsep h hr
    simp only [Stmt.everywhere, Bool.and_true] at hx
    exact typed_assign h hn hx hc hf.free hr
  | .update _ _ _ _ => by
    intro inside entry st st' t m hn hc hf hin hj hx hsep h hr
    simp only [Stmt.everywhere, Bool.and_true] at hx
    exact typed_update h hn hx hc hf.free hr
  | .instruction _ _ _ => by
    intro inside entry st st' t m hn hc hf hin hj hx hsep h hr
    simp only [Stmt.everywhere, Bool.and_true] at hj hx
    exact typed_instruction h hn hj hx hc hf.free hr
  | .whileLoop _ _ body => keepsStep_whileLoop (Stmt.inStep D loops fuel body)
  | .forLoop _ _ _ _ body => keepsStep_forLoop (Stmt.inStep D loops fuel body)
  | .ifThen _ _ yes => keepsStep_ifThen (Stmt.inStep D loops fuel yes)
  | .ifElse _ _ yes no =>
    keepsStep_ifElse (Stmt.inStep D loops fuel yes) (Stmt.inStep D loops fuel no)
  | .expr _ => fun _ _ _ _ _ _ hn => hn.elim

theorem Stmt.inStep_all (D : Discipline) (loops : List String) (fuel : Nat) :
    (ss : List Stmt) → Stmt.KeepStep D loops fuel ss
  | [] => by
    intro inside entry st st' m hn hc hf hin hj hx hsep h hr
    simp only [Stmt.checkAll] at hc
    cases hc
    refine ⟨?_, placedParts_nil _⟩
    simp only [Stmt.execAll]
    exact h
  | s :: ss => keepStep_cons (Stmt.inStep D loops fuel s) (Stmt.inStep_all D loops fuel ss)

end

end MatScript
