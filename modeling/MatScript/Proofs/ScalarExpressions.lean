import MatScript.Proofs.Evaluation
import MatScript.Proofs.Leaving
import MatScript.Proofs.ParseSound
import MatScript.Proofs.ScalarOperators

/-! Scalar scripts, which make and use no arrays. Where each name has one type, in the table of an
accepted script and in memory, an expression evaluates to a value of exactly the type that the check
gives to it, and so do all its parts. -/
namespace MatScript

open Typing Run Evaluation

/-! ## Scalar scripts -/

mutual

/-- No part of the expression makes or uses an array. -/
def Expr.isScalar : Expr → Bool
  | .constant _ _ | .name _ _ | .gap _ _ => true
  | .operator _ symbol operands =>
    !(["'", ".+", ".-", ".*", "./"].contains symbol) && Expr.isScalarAll operands
  | .range _ start stop => start.isScalar && stop.isScalar
  | .vector _ _ | .call _ _ _ | .element _ _ _ _ _ => false

def Expr.isScalarAll : List Expr → Bool
  | [] => true
  | e :: es => e.isScalar && Expr.isScalarAll es

end

mutual

/-- No part of the statement makes or uses an array. -/
def Stmt.isScalar : Stmt → Bool
  | .block _ body => Stmt.isScalarAll body
  | .assign _ target value | .update _ _ target value => target.isScalar && value.isScalar
  | .instruction _ _ arguments => Expr.isScalarAll arguments
  | .whileLoop _ condition body | .forLoop _ _ _ condition body | .ifThen _ condition body =>
    condition.isScalar && body.isScalar
  | .ifElse _ condition yes no => condition.isScalar && (yes.isScalar && no.isScalar)
  | .expr e => e.isScalar

def Stmt.isScalarAll : List Stmt → Bool
  | [] => true
  | s :: ss => s.isScalar && Stmt.isScalarAll ss

end

/-- The numbers of a `for` loop, which are no scalar. -/
def Expr.isRange : Expr → Bool
  | .range _ _ _ => true
  | _ => false

/-- A name that is evaluated is bound, and a value has exactly the type that the check, starting
with the part in the given state, computes for the expression at that place. -/
structure Evaluation.Sound (st : Typing.State) (part : Part) (ev : Evaluation) : Prop where
  bound : ∀ span id, ev.expr = .name span id → ev.machine.memory.contains id = true
  typed : ev.expr.isRange = false → ∀ v m, ev.expr.eval ev.machine = .ok v m →
    ∃ st₁ t st₂, part.at? st ev.path = some (st₁, .expr ev.expr) ∧
      ev.expr.check .raising st₁ = .ok t st₂ ∧ v.scalarType? = some t

namespace Evaluation

variable {st st₁ : Typing.State} {part part₁ : Part} {ev : Evaluation}

lemma Sound.under {i : Nat} (hev : ev.Sound st₁ part₁)
    (h : (part.parts st)[i]? = some (st₁, part₁)) : (ev.under i).Sound st part := by
  refine ⟨hev.bound, fun hr v m hv => ?_⟩
  obtain ⟨st₂, t, st₃, hat, hcheck, hty⟩ := hev.typed hr v m hv
  refine ⟨st₂, t, st₃, ?_, hcheck, hty⟩
  change (part.parts st)[i]?.bind (fun p => p.2.at? p.1 ev.path) = _
  rw [h]
  exact hat

/-- Each list of evaluations belongs to the part at its position. -/
def SoundParts (parts : List (Typing.State × Part)) (evs : List (List Evaluation)) : Prop :=
  ∀ (i : Nat) (es : List Evaluation), evs[i]? = some es →
    ∃ p : Typing.State × Part, parts[i]? = some p ∧ ∀ ev ∈ es, ev.Sound p.1 p.2

lemma soundParts_nil (parts : List (Typing.State × Part)) : SoundParts parts [] :=
  fun _ _ h => nomatch h

lemma SoundParts.cons {parts : List (Typing.State × Part)} {es : List Evaluation}
    {evs : List (List Evaluation)} (h : ∀ ev ∈ es, ev.Sound st part) (hs : SoundParts parts evs) :
    SoundParts ((st, part) :: parts) (es :: evs) := by
  intro i es' hi
  cases i with
  | zero =>
    cases hi
    exact ⟨(st, part), rfl, h⟩
  | succ i => exact hs i es' hi

lemma mem_underFrom {i : Nat} {evs : List (List Evaluation)} (h : ev ∈ underFrom i evs) :
    ∃ (j : Nat) (es : List Evaluation) (ev' : Evaluation),
      evs[j]? = some es ∧ ev' ∈ es ∧ ev = ev'.under (i + j) := by
  induction evs generalizing i with
  | nil => cases h
  | cons es evs ih =>
    rw [underFrom, List.mem_append] at h
    rcases h with h | h
    · obtain ⟨ev', hev', rfl⟩ := List.mem_map.1 h
      exact ⟨0, es, ev', rfl, hev', rfl⟩
    · obtain ⟨j, es', ev', hj, hev', rfl⟩ := ih h
      exact ⟨j + 1, es', ev', hj, hev', by rw [Nat.add_assoc, Nat.add_comm 1 j]⟩

lemma SoundParts.under {evs : List (List Evaluation)} (h : SoundParts (part.parts st) evs) :
    ∀ ev ∈ underFrom 0 evs, ev.Sound st part := by
  intro ev hev
  obtain ⟨j, es, ev', hj, hev', rfl⟩ := mem_underFrom hev
  obtain ⟨p, hp, hes⟩ := h j es hj
  rw [Nat.zero_add]
  exact (hes ev' hev').under hp

end Evaluation

/-! ## The table of types -/

/-- Every name of the table has its type. -/
def TableTyped (types : String → Ty) (st : Typing.State) : Prop :=
  st.table.All fun x t => t = types x

/-- The names are bound with their types. -/
def BoundTyped (types : String → Ty) (bs : List (String × Ty)) : Prop := ∀ b ∈ bs, b.2 = types b.1

section

variable {types : String → Ty}

lemma BoundTyped.append {bs cs : List (String × Ty)} (h : BoundTyped types (bs ++ cs)) :
    BoundTyped types bs ∧ BoundTyped types cs :=
  ⟨fun b hb => h b (List.mem_append_left _ hb), fun b hb => h b (List.mem_append_right _ hb)⟩

lemma boundTyped_set {st : Typing.State} {span : Span} {id : String} {t : Ty}
    (h : BoundTyped types ((st.set id t).bound (.name span id))) : t = types id := by
  refine h (id, t) ?_
  simp [State.bound]

lemma TableTyped.of_table_eq {st st' : Typing.State} (h : TableTyped types st)
    (heq : st'.table = st.table) : TableTyped types st' := by
  rw [TableTyped, heq]
  exact h

lemma TableTyped.assign {st : Typing.State} (h : TableTyped types st) {target : Expr} {t : Ty}
    (hb : BoundTyped types ((st.assign target t).bound target)) :
    TableTyped types (st.assign target t) := by
  cases target with
  | name span id => exact Scopes.All.set h (boundTyped_set hb)
  | _ => exact h

lemma Typing.State.header_eq {st st₁ : Typing.State} {id : String} {range : Expr} {t : Ty}
    (h : range.check .raising st = .ok t st₁) : st.header id range = st₁.set id t := by
  rw [State.header, h]

mutual

/-- A check that binds each name with its type leaves a table of these types. -/
theorem Stmt.tableTyped_of_check : (s : Stmt) → ∀ {st st' : Typing.State} {t : Ty},
    s.check .raising st = .ok t st' → BoundTyped types (s.bindings st) → TableTyped types st →
      TableTyped types st'
  | .block _ body, st, st', t, hc, hb, h => by
    obtain ⟨st₁, hbody, rfl⟩ := Stmt.check_block hc
    exact Scopes.All.pop (Stmt.tableTyped_of_checkAll body hbody hb (Scopes.All.push h _))
  | .assign span target value, st, st', t, hc, hb, h => by
    simp only [Stmt.bindings, hc, stateAfter_ok] at hb
    have hc := Stmt.check_assign hc
    cases target with
    | name _ id =>
      obtain ⟨t₁, st₁, hv, rfl⟩ := Stmt.checkAssign_name hc
      exact Scopes.All.set (h.of_table_eq (value.keepsTable _ _ _ _ hv)) (boundTyped_set hb)
    | element _ _ _ _ _ =>
      obtain ⟨t₁, st₁, ht, hv⟩ := Stmt.checkAssign_element hc
      exact h.of_table_eq ((value.keepsTable _ _ _ _ hv).trans (Expr.keepsTable _ _ _ _ _ ht))
    | _ =>
      cases hc
      exact h
  | .update span symbol target value, st, st', t, hc, hb, h => by
    simp only [Stmt.bindings, hc, stateAfter_ok] at hb
    obtain ⟨t₁, st₁, v, st₂, op, result, ht, hv, -, -, rfl⟩ :=
      Stmt.checkUpdate_raising (Stmt.check_update hc)
    have htable := (value.keepsTable _ _ _ _ hv).trans (target.keepsTable _ _ _ _ ht)
    exact (h.of_table_eq htable).assign hb
  | .instruction _ _ arguments, st, st', t, hc, _, h => by
    obtain ⟨-, ts, hts⟩ := Stmt.check_instruction hc
    exact h.of_table_eq (Expr.keepsTable_all _ _ _ _ _ hts)
  | .whileLoop _ condition body, st, st', t, hc, hb, h => by
    obtain ⟨st₁, st₂, t₂, hcond, hbody, rfl⟩ := Stmt.check_whileLoop hc
    simp only [Stmt.bindings, hcond, stateAfter_ok] at hb
    have h₁ := h.of_table_eq (condition.keepsTable _ _ _ _ hcond)
    exact Scopes.All.pop (Stmt.tableTyped_of_check body hbody hb (Scopes.All.push h₁ _))
  | .forLoop _ id idSpan range body, st, st', t, hc, hb, h => by
    obtain ⟨t₁, st₁, st₂, t₂, hrange, hbody, rfl⟩ := Stmt.check_forLoop hc
    simp only [Stmt.bindings, State.header_eq hrange] at hb
    have h₁ := h.of_table_eq (range.keepsTable _ _ _ _ hrange)
    have h₂ : TableTyped types (st₁.set id t₁) := Scopes.All.set h₁ (boundTyped_set hb.append.1)
    exact Scopes.All.pop (Stmt.tableTyped_of_check body hbody hb.append.2 (Scopes.All.push h₂ _))
  | .ifThen _ condition yes, st, st', t, hc, hb, h => by
    obtain ⟨st₁, st₂, t₂, hcond, hy, rfl⟩ := Stmt.check_ifThen hc
    simp only [Stmt.bindings, hcond, stateAfter_ok] at hb
    have h₁ := h.of_table_eq (condition.keepsTable _ _ _ _ hcond)
    exact Scopes.All.pop (Stmt.tableTyped_of_check yes hy hb (Scopes.All.push h₁ _))
  | .ifElse _ condition yes no, st, st', t, hc, hb, h => by
    obtain ⟨st₁, st₂, t₂, st₃, t₃, hcond, hy, hn, rfl⟩ := Stmt.check_ifElse hc
    simp only [Stmt.bindings, hcond, hy, stateAfter_ok] at hb
    have h₁ := h.of_table_eq (condition.keepsTable _ _ _ _ hcond)
    have h₂ := Stmt.tableTyped_of_check yes hy hb.append.1 (Scopes.All.push h₁ _)
    have h₃ : TableTyped types st₂.pop := Scopes.All.pop h₂
    exact Scopes.All.pop (Stmt.tableTyped_of_check no hn hb.append.2 (Scopes.All.push h₃ _))
  | .expr e, st, st', t, hc, _, h => by
    simp only [Stmt.check] at hc
    exact h.of_table_eq (e.keepsTable _ _ _ _ hc)

theorem Stmt.tableTyped_of_checkAll : (ss : List Stmt) → ∀ {st st' : Typing.State},
    Stmt.checkAll .raising ss st = .ok () st' → BoundTyped types (Stmt.bindingsAll st ss) →
      TableTyped types st → TableTyped types st'
  | [], st, st', hc, _, h => by
    simp only [Stmt.checkAll] at hc
    cases hc
    exact h
  | s :: ss, st, st', hc, hb, h => by
    obtain ⟨t₁, st₁, hs, hss⟩ := Stmt.checkAll_cons hc
    simp only [Stmt.bindingsAll, hs, stateAfter_ok] at hb
    exact Stmt.tableTyped_of_checkAll ss hss hb.append.2
      (Stmt.tableTyped_of_check s hs hb.append.1 h)

end

end

/-! ## Expressions -/

/-- Every name in memory has a value of its type. -/
def MemoryTyped (types : String → Ty) (m : Machine) : Prop :=
  m.memory.All fun x v => v.scalarType? = some (types x)

/-- The types that a table gives, and the values in memory, are those of the names. -/
structure Typed (types : String → Ty) (st : Typing.State) (m : Machine) : Prop where
  table : TableTyped types st
  memory : MemoryTyped types m

lemma operatorType_raising {span : Span} {symbol : String} {ts : List Ty} {t : Ty}
    {st st' : Typing.State} (h : operatorType .raising span symbol ts st = .ok t st')
    (hs : ["'", ".+", ".-", ".*", "./"].contains symbol = false) :
    st' = st ∧ ((∃ op, ScalarOperator.ofSymbol? symbol = some op ∧ op.result? ts = some t) ∨
      (symbol = "==" ∨ symbol = "!=") ∧ t = .bool) := by
  unfold operatorType at h
  cases hop : ScalarOperator.ofSymbol? symbol with
  | some op =>
    rw [hop] at h
    dsimp only at h
    cases hr : op.result? ts with
    | none => rw [hr] at h; cases h
    | some t' =>
      rw [hr] at h
      cases h
      exact ⟨rfl, .inl ⟨op, rfl, hr⟩⟩
  | none =>
    rw [hop] at h
    dsimp only at h
    split at h
    · next heq =>
      cases h
      exact ⟨rfl, .inr ⟨heq, rfl⟩⟩
    · -- Neither a transposition nor a dotted operator is left.
      simp only [List.contains_cons, List.contains_nil, Bool.or_false, Bool.or_eq_false_iff,
        beq_eq_false_iff_ne] at hs
      obtain ⟨hap, hadd, hsub, hmul, hdiv⟩ := hs
      rw [if_neg hap] at h
      simp only [dotted?, if_neg hadd, if_neg hsub, if_neg hmul, if_neg hdiv] at h
      cases h

lemma Expr.length_checkAll {p : Policy} {es : List Expr} {ts : List Ty} {st st' : Typing.State}
    (h : Expr.checkAll p es st = .ok ts st') : ts.length = es.length := by
  induction es generalizing ts st with
  | nil =>
    simp only [Expr.checkAll] at h
    cases h
    rfl
  | cons e es ih =>
    simp only [Expr.checkAll] at h
    obtain ⟨t, st₁, -, h⟩ := bind_eq_ok.mp h
    obtain ⟨us, st₂, hus, h⟩ := bind_eq_ok.mp h
    cases h
    rw [List.length_cons, List.length_cons, ih hus]

/-- A comparison for equality has two operands. -/
lemma length_of_equality {symbol : String} {operands : List Expr}
    (h : OperandsFit symbol (operands.map Expr.level)) (heq : symbol = "==" ∨ symbol = "!=") :
    operands.length = 2 := by
  match operands with
  | [_, _] => rfl
  | [_] => rcases heq with rfl | rfl <;> rcases h with ⟨h, -⟩ | ⟨h, -⟩ <;>
    exact absurd h (by decide)
  | [] | _ :: _ :: _ :: _ => exact h.elim

/-- What evaluating a checked expression can do: give a value of its type, or fail for an arithmetic
reason. Neither the check nor the run leaves a trace. -/
structure SoundExpr (st : Typing.State) (m : Machine) (e : Expr) (t : Ty) (st' : Typing.State) :
    Prop where
  state_eq : st' = st
  ends : Ends (e.eval m) (ValueOn m t) (FailedOn m)
  evaluations : ∀ ev ∈ e.evaluations m, ev.Sound st (.expr e)

structure SoundExprs (st : Typing.State) (m : Machine) (es : List Expr) (ts : List Ty)
    (st' : Typing.State) : Prop where
  state_eq : st' = st
  ends : Ends (Expr.evalAll es m) (fun vs m' => m' = m ∧ Fit vs ts) (FailedOn m)
  evaluations : SoundParts (Part.threaded st (es.map .expr)) (Expr.evaluationsAll es m)

section

variable {types : String → Ty} {st st' : Typing.State} {m : Machine} {t : Ty}

/-- The evaluation of a checked expression itself. -/
lemma sound_self {e : Expr} (hc : e.check .raising st = .ok t st')
    (he : Ends (e.eval m) (ValueOn m t) (FailedOn m))
    (hb : ∀ span id, e = .name span id → m.memory.contains id = true) :
    Evaluation.Sound st (.expr e) ⟨[], e, m⟩ := by
  refine ⟨hb, fun _ v m' hv => ⟨st, t, st', rfl, hc, ?_⟩⟩
  rw [hv] at he
  exact he.2

/-- A name in the table and in memory has a value of its type. -/
lemma Typed.lookup (h : Typed types st m) {id : String} (ht : st.table.get? id = some t)
    (hb : m.memory.contains id = true) : (m.lookup id).scalarType? = some t := by
  rw [← Scopes.get?_isSome, Option.isSome_iff_exists] at hb
  obtain ⟨v, hv⟩ := hb
  rw [Machine.lookup, hv, Scopes.All.get? h.table ht]
  exact Scopes.All.get? h.memory hv

mutual

/-- Accepted scalar expressions are sound. -/
theorem Expr.sound (h : Typed types st m) : (e : Expr) → ∀ {t : Ty} {st' : Typing.State},
    e.isScalar = true → e.Normal → e.check .raising st = .ok t st' →
    (∀ x ∈ e.names, m.memory.contains x = true) → SoundExpr st m e t st'
  | .constant span value, t, st', _, hn, hc, _ => by
    have hc' := hc
    simp only [Expr.check] at hc
    cases hc
    have hends : Ends ((Expr.constant span value).eval m) (ValueOn m (.ofConstant value))
        (FailedOn m) := by
      simp only [Expr.eval]
      cases value with
      | none => exact hn.elim
      | _ => exact ⟨rfl, rfl⟩
    refine ⟨rfl, hends, fun ev hev => ?_⟩
    obtain rfl := List.mem_singleton.1 hev
    exact sound_self hc' hends fun _ _ hname => nomatch hname
  | .name span id, t, st', _, _, hc, hb => by
    have hc' := hc
    simp only [Expr.check] at hc
    obtain ⟨hid, rfl⟩ := nameType_raising.mp hc
    have hbound : m.memory.contains id = true := hb id (List.mem_singleton.2 rfl)
    have hends : Ends ((Expr.name span id).eval m) (ValueOn m t) (FailedOn m) := by
      simp only [Expr.eval]
      exact ⟨rfl, h.lookup hid hbound⟩
    refine ⟨rfl, hends, fun ev hev => ?_⟩
    obtain rfl := List.mem_singleton.1 hev
    exact sound_self hc' hends fun _ _ hname => by cases hname; exact hbound
  | .operator span symbol operands, t, st', hs, hn, hc, hb => by
    have hc' := hc
    simp only [Expr.isScalar, Bool.and_eq_true, Bool.not_eq_true'] at hs
    simp only [Expr.check] at hc
    obtain ⟨ts, st₁, hts, hop⟩ := bind_eq_ok.mp hc
    have hall := Expr.sound_all h operands hs.2 hn.2 hts (by simpa only [Expr.names] using hb)
    obtain rfl := hall.state_eq.symm
    obtain ⟨hst, hresult⟩ := operatorType_raising hop hs.1
    obtain rfl := hst.symm
    have hends : Ends ((Expr.operator span symbol operands).eval m) (ValueOn m t) (FailedOn m) := by
      simp only [Expr.eval]
      refine hall.ends.bind fun vs m' hvs => ?_
      obtain ⟨rfl, hfit⟩ := hvs
      rcases hresult with ⟨op, hop, hr⟩ | ⟨heq, rfl⟩
      · exact ends_apply hop hr hfit
      · have htwo := (Expr.length_checkAll hts).trans (length_of_equality hn.1 heq)
        obtain ⟨ta, tb, rfl⟩ := List.length_eq_two.1 htwo
        obtain ⟨a, rest, ha, hrest, rfl⟩ := List.forall₂_cons_right_iff.1 hfit
        obtain ⟨b, rest', hb, hrest', rfl⟩ := List.forall₂_cons_right_iff.1 hrest
        obtain rfl := List.forall₂_nil_right_iff.1 hrest'
        exact ends_equality heq ha hb
    refine ⟨rfl, hends, fun ev hev => ?_⟩
    simp only [Expr.evaluations, List.mem_cons] at hev
    rcases hev with rfl | hev
    · exact sound_self hc' hends fun _ _ hname => nomatch hname
    · have hparts : SoundParts ((Part.expr (.operator span symbol operands)).parts st)
          (Expr.evaluationsAll operands m) := hall.evaluations
      exact hparts.under ev hev
  | .range _ _ _, _, _, _, hn, _, _ | .gap _ _, _, _, _, hn, _, _ => hn.elim
  | .vector _ _, _, _, hs, _, _, _ | .call _ _ _, _, _, hs, _, _, _
  | .element _ _ _ _ _, _, _, hs, _, _, _ => nomatch hs

theorem Expr.sound_all (h : Typed types st m) : (es : List Expr) →
    ∀ {ts : List Ty} {st' : Typing.State}, Expr.isScalarAll es = true → Expr.NormalAll es →
    Expr.checkAll .raising es st = .ok ts st' →
    (∀ x ∈ Expr.namesAll es, m.memory.contains x = true) → SoundExprs st m es ts st'
  | [], ts, st', _, _, hc, _ => by
    simp only [Expr.checkAll] at hc
    cases hc
    refine ⟨rfl, ?_, soundParts_nil _⟩
    simp only [Expr.evalAll]
    exact ⟨rfl, .nil⟩
  | e :: es, ts, st', hs, hn, hc, hb => by
    simp only [Expr.isScalarAll, Bool.and_eq_true] at hs
    simp only [Expr.checkAll] at hc
    obtain ⟨t, st₁, ht, hc⟩ := bind_eq_ok.mp hc
    obtain ⟨us, st₂, hus, hc⟩ := bind_eq_ok.mp hc
    cases hc
    simp only [Expr.namesAll, List.mem_append] at hb
    have hhead := Expr.sound h e hs.1 hn.1 ht fun x hx => hb x (.inl hx)
    obtain rfl := hhead.state_eq.symm
    have hrest := Expr.sound_all h es hs.2 hn.2 hus fun x hx => hb x (.inr hx)
    refine ⟨hrest.state_eq, ?_, ?_⟩
    · simp only [Expr.evalAll]
      refine hhead.ends.bind fun v m' hv => ?_
      obtain ⟨rfl, hvt⟩ := hv
      refine hrest.ends.bind fun vs m' hvs => ?_
      obtain ⟨rfl, hfit⟩ := hvs
      exact ⟨rfl, .cons hvt hfit⟩
    · simp only [List.map_cons, Part.threaded, Expr.evaluationsAll]
      refine SoundParts.cons hhead.evaluations ?_
      have hstate : stateAfter (Part.check (.expr e) st) = st := by
        rw [Part.check, ht, stateAfter_ok]
      rw [hstate]
      have hends := hhead.ends
      split
      · next v m' hv =>
        rw [hv] at hends
        obtain rfl := hends.1
        exact hrest.evaluations
      · exact soundParts_nil _

end

/-- A condition holds or does not, or fails for an arithmetic reason. -/
lemma ends_test {e : Expr} (he : SoundExpr st m e .bool st') :
    Ends (test e m) (fun _ m' => m' = m) (FailedOn m) := by
  refine he.ends.bind fun v m' hv => ?_
  obtain ⟨rfl, hv⟩ := hv
  cases v with
  | bool b => exact rfl
  | _ => cases hv

/-- The range of a loop is made of integers, and its bounds are sound. -/
lemma Expr.sound_range (h : Typed types st m) {range : Expr} (hs : range.isScalar = true)
    (hn : range.NormalRange) (hc : range.check .raising st = .ok t st')
    (hb : ∀ x ∈ range.names, m.memory.contains x = true) :
    t = .int ∧ st' = st ∧
      Ends (range.eval m) (fun v m' => m' = m ∧ ∃ a b, v = .range a b) (FailedOn m) ∧
      ∀ ev ∈ range.evaluations m, ev.Sound st (.expr range) := by
  cases range with
  | range span start stop =>
    simp only [Expr.isScalar, Bool.and_eq_true] at hs
    simp only [Expr.names, List.mem_append] at hb
    simp only [Expr.check] at hc
    obtain ⟨ta, st₁, ha, hc⟩ := bind_eq_ok.mp hc
    obtain ⟨_, _, hra, hc⟩ := bind_eq_ok.mp hc
    obtain ⟨tb, st₂, hstop, hc⟩ := bind_eq_ok.mp hc
    obtain ⟨_, _, hrb, hc⟩ := bind_eq_ok.mp hc
    cases hc
    obtain ⟨rfl, rfl⟩ := require_raising.mp hra
    obtain ⟨rfl, rfl⟩ := require_raising.mp hrb
    have hfirst := start.sound h hs.1 hn.1 ha fun x hx => hb x (.inl hx)
    obtain rfl := hfirst.state_eq.symm
    have hsecond := stop.sound h hs.2 hn.2 hstop fun x hx => hb x (.inr hx)
    refine ⟨rfl, hsecond.state_eq, ?_, fun ev hev => ?_⟩
    · simp only [Expr.eval]
      refine hfirst.ends.bind fun a m' hva => ?_
      obtain ⟨rfl, hva⟩ := hva
      refine hsecond.ends.bind fun b m' hvb => ?_
      obtain ⟨rfl, hvb⟩ := hvb
      cases a <;> cases hva
      cases b <;> cases hvb
      exact ⟨rfl, _, _, rfl⟩
    · simp only [Expr.evaluations, List.mem_cons] at hev
      rcases hev with rfl | hev
      · exact ⟨fun _ _ hname => (nomatch hname), fun hr => nomatch hr⟩
      · refine SoundParts.under ?_ ev hev
        refine SoundParts.cons hfirst.evaluations ?_
        have hstate : stateAfter (Part.check (.expr start) st) = st := by
          rw [Part.check, ha, stateAfter_ok]
        have hends := hfirst.ends
        rw [hstate]
        split
        · next v m' hv =>
          rw [hv] at hends
          obtain rfl := hends.1
          exact SoundParts.cons hsecond.evaluations (soundParts_nil _)
        · exact soundParts_nil _
  | _ => exact hn.elim

end

end MatScript
