import MatScript.Proofs.ArrayOperators
import MatScript.Proofs.ScalarExpressions

/-! Expressions over arrays. Where memory has, for each name of an accepted expression, a value of
the type that the table gives to it, the expression has a value of the type that the check computes,
or it fails. The operators for which the check computes another type than that of the value are
left out: see `exactResult`. -/
namespace MatScript

open Typing Run Evaluation

/-! ## Exact operators -/

/-- Whether the check computes the type of the operator's value. Arrays compared for equality give
an array and not the one truth value of the check, a sum or product of truth values that come from
arrays is a truth value and not an integer, and an axis of length one may be stretched. -/
def exactResult (symbol : String) : List Ty → Bool
  | [a, b] =>
    match (ScalarOperator.ofSymbol? symbol).or (dotted? symbol) with
    | some op =>
      decide (op = .add ∨ op = .multiply → ¬(a.base = some .bool ∧ b.base = some .bool)) &&
        (List.zipWith stretches a.shape b.shape).all (!·)
    | none => a.isScalar && b.isScalar
  | _ => true

mutual

/-- Every operator of the expression, checked in the given state, is exact. -/
def Expr.isExact (st : Typing.State) : Expr → Bool
  | .constant _ _ | .name _ _ | .gap _ _ => true
  | .vector _ items | .call _ _ items | .element _ _ _ items _ => Expr.isExactAll st items
  | .range _ start stop => start.isExact st && stop.isExact st
  | .operator _ symbol operands => Expr.isExactAll st operands &&
    match Expr.checkAll .raising operands st with
    | .ok ts _ => exactResult symbol ts
    | .error _ _ => false

def Expr.isExactAll (st : Typing.State) : List Expr → Bool
  | [] => true
  | e :: es => e.isExact st && Expr.isExactAll st es

end

/-! ## What the rules of an accepted expression say -/

section

variable {span : Span} {symbol : String} {ts : List Ty} {a b t : Ty} {st st' : Typing.State}

lemma mem_distinct {u : Ty} : u ∈ distinct ts ↔ u ∈ ts := by
  have hfold : ∀ (ts seen : List Ty),
      u ∈ ts.foldl (fun seen t => if seen.contains t then seen else seen ++ [t]) seen ↔
        u ∈ seen ∨ u ∈ ts := by
    intro ts
    induction ts with
    | nil => simp
    | cons t ts ih =>
      intro seen
      rw [List.foldl_cons, ih, List.mem_cons]
      by_cases ht : seen.contains t = true
      · have hmem : u = t → u ∈ seen := fun h => h ▸ (by simpa using ht)
        rw [if_pos ht]
        tauto
      · rw [if_neg ht, List.mem_append, List.mem_singleton, or_assoc]
  exact (hfold ts []).trans (by simp)

/-- The items of an accepted vector are of one type. -/
lemma vectorType_raising (h : vectorType .raising span ts st = .ok t st') (hne : ts ≠ []) :
    st' = st ∧ ∃ u, (∀ v ∈ ts, v = u) ∧ t = ⟨u.base, some (ts.length : Int) :: u.shape⟩ := by
  unfold vectorType at h
  obtain ⟨u, hu⟩ := List.exists_mem_of_ne_nil ts hne
  have hmem := mem_distinct.2 hu
  cases hd : distinct ts with
  | nil =>
    rw [hd] at hmem
    cases hmem
  | cons v rest =>
    rw [hd] at h
    cases rest with
    | nil =>
      cases h
      refine ⟨rfl, v, fun w hw => ?_, rfl⟩
      have hw := mem_distinct.2 hw
      rw [hd] at hw
      exact List.mem_singleton.1 hw
    | cons w rest => cases h

/-- Known dimensions of operands are equal. -/
lemma matchDims_raising {i : Nat} {xs ys : List (Option Int)} {u : Unit}
    (h : matchDims .raising span symbol i xs ys st = .ok u st') (hlen : xs.length = ys.length) :
    st' = st ∧ List.Forall₂ (fun x y => ∀ i ∈ x, ∀ j ∈ y, i = j) xs ys := by
  induction xs generalizing i ys with
  | nil =>
    obtain rfl := List.length_eq_zero_iff.1 hlen.symm
    cases h
    exact ⟨rfl, .nil⟩
  | cons x xs ih =>
    cases ys with
    | nil => cases hlen
    | cons y ys =>
      have hlen' : xs.length = ys.length := Nat.succ.inj hlen
      cases x with
      | none =>
        obtain ⟨hst, hrest⟩ := ih h hlen'
        exact ⟨hst, .cons (fun i hi => nomatch hi) hrest⟩
      | some n =>
        cases y with
        | none =>
          obtain ⟨hst, hrest⟩ := ih h hlen'
          exact ⟨hst, .cons (fun i _ j hj => nomatch hj) hrest⟩
        | some k =>
          by_cases hnk : n = k
          · subst hnk
            simp only [matchDims, ne_eq, not_true_eq_false, if_false] at h
            obtain ⟨hst, hrest⟩ := ih h hlen'
            refine ⟨hst, .cons ?_ hrest⟩
            rintro i ⟨⟩ j ⟨⟩
            rfl
          · simp only [matchDims, ne_eq, hnk, not_false_eq_true, if_true] at h
            rw [bind_error (report_raising _ _)] at h
            cases h

lemma result?_two {op : ScalarOperator} (h : op.result? [⟨a.base, []⟩, ⟨b.base, []⟩] = some t) :
    ∃ A B R, a.base = some A ∧ b.base = some B ∧ op.binary? A B = some R ∧ t = ⟨some R, []⟩ := by
  cases hA : a.base with
  | none =>
    rw [hA] at h
    cases h
  | some A =>
    cases hB : b.base with
    | none =>
      rw [hA, hB] at h
      cases h
    | some B =>
      rw [hA, hB] at h
      obtain ⟨R, hR, rfl⟩ := Option.map_eq_some_iff.1 h
      exact ⟨A, B, R, rfl, rfl, hR, rfl⟩

/-- What the operands of an accepted dotted operator have in common. -/
lemma dottedType_raising {op : ScalarOperator}
    (h : dottedType .raising span symbol op a b st = .ok t st') :
    st' = st ∧ ∃ A B R, a.base = some A ∧ b.base = some B ∧ op.binary? A B = some R ∧
      List.Forall₂ (fun x y => ∀ i ∈ x, ∀ j ∈ y, i = j) a.shape b.shape ∧
      t = ⟨some R, List.zipWith mergeDim a.shape b.shape⟩ := by
  unfold dottedType at h
  cases hr : op.result? [⟨a.base, []⟩, ⟨b.base, []⟩] with
  | none =>
    rw [hr] at h
    cases h
  | some r =>
    rw [hr] at h
    dsimp only at h
    obtain ⟨A, B, R, hA, hB, hR, rfl⟩ := result?_two hr
    split at h
    · cases h
    · next hlen =>
      obtain ⟨_, st₁, hdims, h⟩ := bind_eq_ok.mp h
      cases h
      obtain ⟨rfl, hfit⟩ := matchDims_raising hdims (not_not.1 hlen)
      exact ⟨rfl, A, B, R, hA, hB, hR, hfit, rfl⟩

/-- The four kinds of operators that are accepted. -/
inductive OperatorRule (symbol : String) : List Ty → Ty → Prop
  | table {op : ScalarOperator} {ts : List Ty} {t : Ty}
    (hop : ScalarOperator.ofSymbol? symbol = some op) (hr : op.result? ts = some t) :
    OperatorRule symbol ts t
  | equality {ts : List Ty} (hs : symbol = "==" ∨ symbol = "!=") : OperatorRule symbol ts .bool
  | transposition {a : Ty} {rest : List Ty} (hs : symbol = "'") (ha : a.shape.length = 2) :
    OperatorRule symbol (a :: rest) ⟨a.base, a.shape.reverse⟩
  | dotted {op : ScalarOperator} {a b : Ty} {rest : List Ty} {A B R : BaseType}
    (hop : dotted? symbol = some op) (hs : ScalarOperator.ofSymbol? symbol = none)
    (ha : a.base = some A) (hb : b.base = some B) (hr : op.binary? A B = some R)
    (hdims : List.Forall₂ (fun x y => ∀ i ∈ x, ∀ j ∈ y, i = j) a.shape b.shape) :
    OperatorRule symbol (a :: b :: rest) ⟨some R, List.zipWith mergeDim a.shape b.shape⟩

lemma operatorRule_of_raising (h : operatorType .raising span symbol ts st = .ok t st') :
    st' = st ∧ OperatorRule symbol ts t := by
  unfold operatorType at h
  cases hop : ScalarOperator.ofSymbol? symbol with
  | some op =>
    rw [hop] at h
    dsimp only at h
    cases hr : op.result? ts with
    | none =>
      rw [hr] at h
      cases h
    | some t' =>
      rw [hr] at h
      cases h
      exact ⟨rfl, .table hop hr⟩
  | none =>
    rw [hop] at h
    dsimp only at h
    split at h
    · next hs =>
      cases h
      exact ⟨rfl, .equality hs⟩
    · split at h
      · next hs =>
        cases ts with
        | nil => cases h
        | cons a rest =>
          simp only [transposedType] at h
          split at h
          · cases h
          · next hlen =>
            cases h
            exact ⟨rfl, .transposition hs (not_not.1 hlen)⟩
      · cases hdot : dotted? symbol with
        | none =>
          rw [hdot] at h
          cases h
        | some op =>
          rw [hdot] at h
          match ts, h with
          | a :: b :: rest, h =>
            obtain ⟨hst, A, B, R, hA, hB, hR, hdims, rfl⟩ := dottedType_raising h
            exact ⟨hst, .dotted hdot hop hA hB hR hdims⟩

lemma integerArguments_raising {function : String} {i : Nat} {u : Unit}
    (h : integerArguments .raising span function i ts st = .ok u st') : st' = st := by
  induction ts generalizing i with
  | nil =>
    cases h
    rfl
  | cons t ts ih =>
    by_cases ht : t = .int
    · simp only [integerArguments, ht, ne_eq, not_true_eq_false, if_false] at h
      exact ih h
    · simp only [integerArguments, ht, ne_eq, not_false_eq_true, if_true] at h
      rw [bind_error (report_raising _ _)] at h
      cases h

lemma callType_raising {function : String} (h : callType .raising span function ts st = .ok t st') :
    st' = st ∧ (function = "eye" → ts.length = 2) ∧
      t = ⟨some .float, List.replicate ts.length none⟩ := by
  unfold callType at h
  split at h
  · rw [bind_error (report_raising _ _)] at h
    cases h
  · next heye =>
    obtain ⟨_, st₁, hints, h⟩ := bind_eq_ok.mp h
    cases h
    obtain rfl := integerArguments_raising hints
    exact ⟨rfl, fun hf => by_contra fun hne => heye ⟨hf, hne⟩, rfl⟩

lemma elementType_raising {count : Nat} (h : elementType .raising span a b count st = .ok t st') :
    st' = st ∧ b.base = some .int ∧ b.shape.length = 1 ∧ t = ⟨a.base, a.shape.drop count⟩ := by
  unfold elementType at h
  split at h
  · cases h
  · next hindex =>
    rw [not_or, not_not, not_not] at hindex
    split at h
    · cases h
    · cases h
      exact ⟨rfl, hindex.1, hindex.2, rfl⟩

end

/-! ## Operators and functions at work -/

namespace Run

/-- The machine is as before, and the value has the type. -/
def TypedOn (m : Machine) (t : Ty) (v : Value) (m' : Machine) : Prop :=
  m' = m ∧ v.Typed m.store t

/-- The machine is as before, and something has failed. -/
def FailsOn (m : Machine) (stop : Stop) (m' : Machine) : Prop := m' = m ∧ ∃ e, stop = .failed e

/-- A value of each of the types, in order. -/
def TypedAll (store : Store) (vs : List Value) (ts : List Ty) : Prop :=
  List.Forall₂ (fun v t => v.Typed store t) vs ts

variable {m : Machine} {vs : List Value} {ts : List Ty} {t : Ty} {symbol : String}

/-- What only looks at the store leaves the machine as it is. -/
lemma ends_ofStore_keep {α : Type} {f : Store → Except RunError α} {Q : α → Prop}
    (h : ∀ a, f m.store = .ok a → Q a) :
    Ends (ofStore f m) (fun a m' => m' = m ∧ Q a) (FailsOn m) := by
  unfold ofStore
  cases hf : f m.store with
  | ok a => exact ⟨rfl, h a hf⟩
  | error e => exact ⟨rfl, e, rfl⟩

/-- An operation that only computes. -/
lemma ends_perform {op : Operation} {Q : Value → Prop} (hname : Operation.ofName? symbol = some op)
    (hop : ∀ vs, perform op vs = ofStore fun store => op.compute store vs)
    (h : ∀ v, op.compute m.store vs = .ok v → Q v) :
    Ends (apply symbol vs m) (fun v m' => m' = m ∧ Q v) (FailsOn m) := by
  rw [apply_eq_perform hname, hop]
  exact ends_ofStore_keep h

/-- What a table of base types is asked about are scalars. -/
lemma scalars_of_result? {op : ScalarOperator} (h : op.result? ts = some t) :
    (∃ A R, ts = [⟨some A, []⟩] ∧ op.unary? A = some R ∧ t = ⟨some R, []⟩) ∨
      ∃ A B R, ts = [⟨some A, []⟩, ⟨some B, []⟩] ∧ op.binary? A B = some R ∧ t = ⟨some R, []⟩ := by
  unfold ScalarOperator.result? at h
  split at h
  · next A =>
    obtain ⟨R, hR, rfl⟩ := Option.map_eq_some_iff.1 h
    exact .inl ⟨A, R, rfl, hR, rfl⟩
  · next A B =>
    obtain ⟨R, hR, rfl⟩ := Option.map_eq_some_iff.1 h
    exact .inr ⟨A, B, R, rfl, hR, rfl⟩
  · cases h

lemma forall₂_singleton_right {α β : Type} {R : α → β → Prop} {xs : List α} {b : β}
    (h : List.Forall₂ R xs [b]) : ∃ x, xs = [x] ∧ R x b := by
  obtain ⟨x, rest, hx, hrest, rfl⟩ := List.forall₂_cons_right_iff.1 h
  obtain rfl := List.forall₂_nil_right_iff.1 hrest
  exact ⟨x, rfl, hx⟩

lemma forall₂_pair_right {α β : Type} {R : α → β → Prop} {xs : List α} {b c : β}
    (h : List.Forall₂ R xs [b, c]) : ∃ x y, xs = [x, y] ∧ R x b ∧ R y c := by
  obtain ⟨x, rest, hx, hrest, rfl⟩ := List.forall₂_cons_right_iff.1 h
  obtain ⟨y, rfl, hy⟩ := forall₂_singleton_right hrest
  exact ⟨x, y, rfl, hx, hy⟩

/-- Where sums and products of two truth values are excluded, so they are for the operation. -/
lemma not_bools {op : ScalarOperator} {f : Arith} {a b : Ty} {A B : BaseType}
    (h : op = .add ∨ op = .multiply → ¬(a.base = some .bool ∧ b.base = some .bool))
    (hf : op.arith? = some f) (ha : a.base = some A) (hb : b.base = some B) :
    f = .add ∨ f = .multiply → ¬(A = .bool ∧ B = .bool) := by
  rintro hadd ⟨rfl, rfl⟩
  refine h ?_ ⟨ha, hb⟩
  rcases hadd with rfl | rfl
  · cases op <;> cases hf
    exact .inl rfl
  · cases op <;> cases hf
    exact .inr rfl

lemma exactResult_spec {op : ScalarOperator} {a b : Ty}
    (hop : (ScalarOperator.ofSymbol? symbol).or (dotted? symbol) = some op)
    (hx : exactResult symbol [a, b] = true) :
    (op = .add ∨ op = .multiply → ¬(a.base = some .bool ∧ b.base = some .bool)) ∧
      (List.zipWith stretches a.shape b.shape).all (!·) = true := by
  simpa only [exactResult, hop, Bool.and_eq_true, decide_eq_true_eq] using hx

/-- An operator with a table. -/
lemma ends_table {op : ScalarOperator} (hop : ScalarOperator.ofSymbol? symbol = some op)
    (hr : op.result? ts = some t) (hx : exactResult symbol ts = true)
    (hvs : TypedAll m.store vs ts) : Ends (apply symbol vs m) (TypedOn m t) (FailsOn m) := by
  rcases operation_of_symbol hop with ⟨rfl, hname⟩ | ⟨f, hf, hname⟩ | ⟨rfl, c, hname⟩ <;>
    rcases scalars_of_result? hr with ⟨A, R, rfl, hR, rfl⟩ | ⟨A, B, R, rfl, hR, rfl⟩
  · obtain ⟨a, rfl, ha⟩ := forall₂_singleton_right hvs
    exact ends_perform hname (fun _ => rfl) fun v hv =>
      .scalar (base_negate (ha.base?_eq rfl) hR hv)
  · cases A <;> cases B <;> cases hR
  · cases op <;> cases hf <;> cases A <;> cases hR
  · obtain ⟨a, b, rfl, ha, hb⟩ := forall₂_pair_right hvs
    have hbools := (exactResult_spec (by rw [hop]; rfl) hx).1
    refine ends_perform hname (fun _ => rfl) fun v hv => .scalar ?_
    exact base_arith hf (ha.base?_eq rfl) (hb.base?_eq rfl) hR (not_bools hbools hf rfl rfl) hv
  · cases A <;> cases hR
  · obtain ⟨a, b, rfl, ha, hb⟩ := forall₂_pair_right hvs
    have hbool : R = .bool := by
      cases A <;> cases B <;> cases hR <;> rfl
    refine ends_perform hname (fun _ => rfl) fun v hv => .scalar ?_
    rw [hbool]
    exact base_compare (ha.base?_eq rfl) (hb.base?_eq rfl) hv

lemma operation_of_equality (hs : symbol = "==" ∨ symbol = "!=") :
    ∃ c, Operation.ofName? symbol = some (.compare c) := by
  rcases hs with rfl | rfl
  · exact ⟨.equal, by decide⟩
  · exact ⟨.unequal, by decide⟩

lemma scalarOperator_of_equality (hs : symbol = "==" ∨ symbol = "!=") :
    (ScalarOperator.ofSymbol? symbol).or (dotted? symbol) = none := by
  rcases hs with rfl | rfl <;> decide

/-- Scalars compared for equality. -/
lemma ends_equality_typed (hs : symbol = "==" ∨ symbol = "!=") (htwo : ts.length = 2)
    (hx : exactResult symbol ts = true) (hvs : TypedAll m.store vs ts) :
    Ends (apply symbol vs m) (TypedOn m .bool) (FailsOn m) := by
  obtain ⟨c, hname⟩ := operation_of_equality hs
  obtain ⟨ta, tb, rfl⟩ := List.length_eq_two.1 htwo
  obtain ⟨a, b, rfl, ha, hb⟩ := forall₂_pair_right hvs
  simp only [exactResult, scalarOperator_of_equality hs, Bool.and_eq_true, Ty.isScalar,
    decide_eq_true_eq, Nat.lt_one_iff, List.length_eq_zero_iff] at hx
  obtain ⟨A, hA⟩ := ha.exists_base
  obtain ⟨B, hB⟩ := hb.exists_base
  refine ends_perform hname (fun _ => rfl) fun v hv => .scalar ?_
  exact base_compare ((ha.base?_eq hx.1).trans hA) ((hb.base?_eq hx.2).trans hB) hv

lemma operation_of_dotted {op : ScalarOperator} (h : dotted? symbol = some op) :
    ∃ f, op.arith? = some f ∧ Operation.ofName? symbol = some (.dotted f) := by
  unfold dotted? at h
  split at h
  · next hs => subst hs; cases h; exact ⟨.add, rfl, by decide⟩
  split at h
  · next hs => subst hs; cases h; exact ⟨.subtract, rfl, by decide⟩
  split at h
  · next hs => subst hs; cases h; exact ⟨.multiply, rfl, by decide⟩
  split at h
  · next hs => subst hs; cases h; exact ⟨.divide, rfl, by decide⟩
  · cases h

/-- Dimensions that are not known to differ, of which none is stretched. -/
lemma dimsFit_of_not_stretched {xs ys : List (Option Int)}
    (hdims : List.Forall₂ (fun x y => ∀ i ∈ x, ∀ j ∈ y, i = j) xs ys)
    (h : (List.zipWith stretches xs ys).all (!·) = true) : List.Forall₂ DimsFit xs ys := by
  induction hdims with
  | nil => exact .nil
  | cons hxy _ ih =>
    rw [List.zipWith_cons_cons, List.all_cons, Bool.and_eq_true, Bool.not_eq_true'] at h
    exact .cons ⟨hxy, h.1⟩ (ih h.2)

lemma length_le_two_of_operandsFit {levels : List Nat} (h : OperandsFit symbol levels) :
    levels.length ≤ 2 := by
  match levels with
  | [] | [_] | [_, _] => simp
  | _ :: _ :: _ :: _ => exact h.elim

/-- An operator that is accepted and exact gives a value of the type that the check computes. -/
lemma ends_operator (hrule : OperatorRule symbol ts t) (hlen : ts.length ≤ 2)
    (htwo : symbol = "==" ∨ symbol = "!=" → ts.length = 2) (hx : exactResult symbol ts = true)
    (hvs : TypedAll m.store vs ts) : Ends (apply symbol vs m) (TypedOn m t) (FailsOn m) := by
  cases hrule with
  | table hop hr => exact ends_table hop hr hx hvs
  | equality hs => exact ends_equality_typed hs (htwo hs) hx hvs
  | @transposition u rest hs hmatrix =>
    subst hs
    obtain ⟨a, vs, ha, -, rfl⟩ := List.forall₂_cons_right_iff.1 hvs
    have hname : Operation.ofName? "'" = some .transpose := by decide
    refine ends_perform hname (fun _ => rfl) fun v hv => ?_
    obtain ⟨A, hA⟩ := ha.exists_base
    obtain ⟨_, dims⟩ := u
    cases hA
    refine typed_transpose ha ?_ hv
    rintro rfl
    cases hmatrix
  | @dotted op ta tb rest A B R hop hs hA hB hr hdims =>
    obtain rfl : rest = [] := by
      rw [List.length_cons, List.length_cons] at hlen
      exact List.length_eq_zero_iff.1 (by omega)
    obtain ⟨f, hf, hname⟩ := operation_of_dotted hop
    obtain ⟨a, b, rfl, ha, hb⟩ := forall₂_pair_right hvs
    obtain ⟨hbools, hstretch⟩ := exactResult_spec (by rw [hs, hop]; rfl) hx
    refine ends_perform hname (fun _ => rfl) fun v hv => ?_
    obtain ⟨_, xs⟩ := ta
    obtain ⟨_, ys⟩ := tb
    cases hA
    cases hB
    exact typed_elementArith hf ha hb hr (not_bools hbools hf rfl rfl)
      (dimsFit_of_not_stretched hdims hstretch) hv

/-- A function gives an array with an axis for each argument. -/
lemma ends_call {k : Keyword} (hk : k.MakesMatrix) (hne : vs ≠ [])
    (heye : k.spelling = "eye" → vs.length = 2) :
    Ends (apply k.spelling vs m)
      (TypedOn m ⟨some .float, List.replicate vs.length none⟩) (FailsOn m) := by
  rcases hk with rfl | rfl | rfl
  · have hname : Operation.ofName? Keyword.eye.spelling = some .eye := by decide
    obtain ⟨a, b, rfl⟩ := List.length_eq_two.1 (heye rfl)
    exact ends_perform hname (fun _ => rfl) fun v hv => typed_identity hv
  · have hname : Operation.ofName? Keyword.zeros.spelling = some .zeros := by decide
    exact ends_perform hname (fun _ => rfl) fun v hv => typed_filled hne hv
  · have hname : Operation.ofName? Keyword.ones.spelling = some .ones := by decide
    exact ends_perform hname (fun _ => rfl) fun v hv => typed_filled hne hv

end Run

/-! ## Evaluations at their places -/

namespace Evaluation

/-- The check comes to the place of the evaluation, and the property holds of the state in which it
comes there, the expression and the machine. -/
def Placed (P : Typing.State → Expr → Machine → Prop) (st : Typing.State) (part : Part)
    (ev : Evaluation) : Prop :=
  ∃ st₁, part.at? st ev.path = some (st₁, .expr ev.expr) ∧ P st₁ ev.expr ev.machine

/-- Each list of evaluations belongs to the part at its position. -/
def PlacedParts (P : Typing.State → Expr → Machine → Prop) (parts : List (Typing.State × Part))
    (evs : List (List Evaluation)) : Prop :=
  ∀ (i : Nat) (es : List Evaluation), evs[i]? = some es →
    ∃ p : Typing.State × Part, parts[i]? = some p ∧ ∀ ev ∈ es, ev.Placed P p.1 p.2

variable {P : Typing.State → Expr → Machine → Prop} {st st₁ : Typing.State} {part part₁ : Part}
  {ev : Evaluation} {parts : List (Typing.State × Part)} {es : List Evaluation}
  {evs : List (List Evaluation)}

lemma Placed.under {i : Nat} (hev : ev.Placed P st₁ part₁)
    (h : (part.parts st)[i]? = some (st₁, part₁)) : (ev.under i).Placed P st part := by
  obtain ⟨st₂, hat, hP⟩ := hev
  refine ⟨st₂, ?_, hP⟩
  change (part.parts st)[i]?.bind (fun p => p.2.at? p.1 ev.path) = _
  rw [h]
  exact hat

lemma placed_map_under {i : Nat} (hes : ∀ ev ∈ es, ev.Placed P st₁ part₁)
    (h : (part.parts st)[i]? = some (st₁, part₁)) :
    ∀ ev ∈ es.map (under i), ev.Placed P st part := by
  intro ev hev
  obtain ⟨ev', hev', rfl⟩ := List.mem_map.1 hev
  exact (hes ev' hev').under h

lemma placedParts_nil (parts : List (Typing.State × Part)) : PlacedParts P parts [] :=
  fun _ _ h => nomatch h

lemma PlacedParts.cons (h : ∀ ev ∈ es, ev.Placed P st part) (hs : PlacedParts P parts evs) :
    PlacedParts P ((st, part) :: parts) (es :: evs) := by
  intro i es' hi
  cases i with
  | zero =>
    cases hi
    exact ⟨(st, part), rfl, h⟩
  | succ i => exact hs i es' hi

lemma PlacedParts.under (part : Part) (h : PlacedParts P (part.parts st) evs) :
    ∀ ev ∈ underFrom 0 evs, ev.Placed P st part := by
  intro ev hev
  obtain ⟨j, es, ev', hj, hev', rfl⟩ := mem_underFrom hev
  obtain ⟨p, hp, hes⟩ := h j es hj
  rw [Nat.zero_add]
  exact (hes ev' hev').under hp

end Evaluation

/-! ## Disciplines -/

/-- The value has the type up to what is seen of it. -/
def Value.TypedUpTo {κ : Type} (view : Ty → κ) (store : Store) (v : Value) (t : Ty) : Prop :=
  ∃ u, view u = view t ∧ v.Typed store u

lemma Value.TypedUpTo.of_typed {κ : Type} {view : Ty → κ} {store : Store} {v : Value} {t : Ty}
    (h : v.Typed store t) : v.TypedUpTo view store t := ⟨t, rfl, h⟩

/-- How much of the types is followed along a run, and which operators and items of vectors are
admitted for it. Vectors of admitted items, elements and admitted operators give values that have, up
to the view, the type that the check computes, if that is so for the values that they are made from. -/
structure Discipline where
  View : Type
  [decidableEq : DecidableEq View]
  view : Ty → View
  admits : String → List Ty → Bool
  /-- What may be put into a vector. -/
  items : List Value → Prop
  vector : ∀ {store : Store} {vs : List Value} {t : Ty} {v : Value}, vs ≠ [] → items vs →
    (∀ w ∈ vs, w.TypedUpTo view store t) → Value.vector store vs = .ok v →
    v.TypedUpTo view store ⟨t.base, some (vs.length : Int) :: t.shape⟩
  element : ∀ {store : Store} {a i v : Value} {vs : List Value} {t : Ty},
    a.TypedUpTo view store t → vs ≠ [] → (∀ w ∈ vs, w.TypedUpTo view store .int) →
    Value.vector store vs = .ok i → a.index store i = .ok v →
    v.TypedUpTo view store ⟨t.base, t.shape.drop vs.length⟩
  operator : ∀ {m : Machine} {symbol : String} {ts : List Ty} {t : Ty} {vs : List Value},
    OperatorRule symbol ts t → ts.length ≤ 2 → (symbol = "==" ∨ symbol = "!=" → ts.length = 2) →
    admits symbol ts = true → List.Forall₂ (·.TypedUpTo view m.store ·) vs ts →
    Ends (apply symbol vs m) (fun v m' => m' = m ∧ v.TypedUpTo view m.store t) (FailsOn m)

attribute [instance] Discipline.decidableEq

namespace Discipline

variable (D : Discipline)

/-- A vector is made from items that are admitted, if all of them have values. -/
def Allows (ev : Evaluation) : Prop :=
  ∀ span items vs m, ev.expr = .vector span items → Expr.evalAll items ev.machine = .ok vs m →
    D.items vs

/-- All vectors are made from admitted items. -/
def Regular (evs : List Evaluation) : Prop := ∀ ev ∈ evs, D.Allows ev

def RegularParts (parts : List (List Evaluation)) : Prop := ∀ evs ∈ parts, D.Regular evs

variable {D : Discipline} {ev : Evaluation} {evs evs' : List Evaluation}
  {parts : List (List Evaluation)}

@[simp] lemma regular_nil : D.Regular [] := by simp [Regular]

@[simp] lemma regular_cons : D.Regular (ev :: evs) ↔ D.Allows ev ∧ D.Regular evs :=
  List.forall_mem_cons

@[simp] lemma regular_append : D.Regular (evs ++ evs') ↔ D.Regular evs ∧ D.Regular evs' :=
  List.forall_mem_append

@[simp] lemma regular_map_under {i : Nat} : D.Regular (evs.map (under i)) ↔ D.Regular evs :=
  List.forall_mem_map

@[simp] lemma regularParts_nil : D.RegularParts [] := by simp [RegularParts]

@[simp] lemma regularParts_cons : D.RegularParts (evs :: parts) ↔ D.Regular evs ∧ D.RegularParts parts :=
  List.forall_mem_cons

@[simp] lemma regular_underFrom {i : Nat} :
    D.Regular (underFrom i parts) ↔ D.RegularParts parts := by
  induction parts generalizing i with
  | nil => simp [underFrom]
  | cons evs parts ih => simp [underFrom, ih]

end Discipline

lemma Value.typedUpTo_id {store : Store} {v : Value} {t : Ty} :
    v.TypedUpTo id store t ↔ v.Typed store t := by
  constructor
  · rintro ⟨u, rfl, h⟩
    exact h
  · exact .of_typed

/-- The integers among the values have 64 bits. -/
def WordsOnly (vs : List Value) : Prop := ∀ n, .int n ∈ vs → FitsWord n

/-- All of a type is followed, all operators are exact, and vectors are made from integers of 64
bits. -/
def Discipline.exact : Discipline where
  View := Ty
  view := id
  admits := exactResult
  items := WordsOnly
  vector := by
    intro store vs t v hne hfit hvs hv
    simp only [Value.typedUpTo_id] at hvs ⊢
    obtain ⟨w, hw⟩ := List.exists_mem_of_ne_nil vs hne
    obtain ⟨A, hA⟩ := (hvs w hw).exists_base
    obtain ⟨_, dims⟩ := t
    cases hA
    exact typed_vector hvs hfit hne hv
  element := by
    intro store a i v vs t ha hne hvs hi hv
    simp only [Value.typedUpTo_id] at ha hvs ⊢
    obtain ⟨A, hA⟩ := ha.exists_base
    obtain ⟨_, dims⟩ := t
    cases hA
    have hints : ∀ w ∈ vs, ∃ B dims, (B = .bool ↔ False) ∧ w.Typed store ⟨some B, dims⟩ :=
      fun w hw => ⟨.int, [], by decide, hvs w hw⟩
    obtain ⟨B, hB, hi⟩ := bool_vector hints hne hi
    obtain ⟨w, hw⟩ := List.exists_mem_of_ne_nil vs hne
    exact typed_index ha (hi w hw [] (hvs w hw).itemShape) (by simpa using hB) hv
  operator := by
    intro m symbol ts t vs hrule hlen htwo hx hvs
    simp only [Value.typedUpTo_id] at hvs ⊢
    exact ends_operator hrule hlen htwo hx hvs

mutual

/-- Every operator of the expression, checked in the given state, is admitted. -/
def Expr.passes (admits : String → List Ty → Bool) (st : Typing.State) : Expr → Bool
  | .constant _ _ | .name _ _ | .gap _ _ => true
  | .vector _ items | .call _ _ items | .element _ _ _ items _ => Expr.passesAll admits st items
  | .range _ start stop => start.passes admits st && stop.passes admits st
  | .operator _ symbol operands => Expr.passesAll admits st operands &&
    match Expr.checkAll .raising operands st with
    | .ok ts _ => admits symbol ts
    | .error _ _ => false

def Expr.passesAll (admits : String → List Ty → Bool) (st : Typing.State) : List Expr → Bool
  | [] => true
  | e :: es => e.passes admits st && Expr.passesAll admits st es

end

mutual

theorem Expr.isExact_eq (st : Typing.State) : (e : Expr) → e.isExact st = e.passes exactResult st
  | .constant _ _ | .name _ _ | .gap _ _ => by simp only [Expr.isExact, Expr.passes]
  | .vector _ items | .call _ _ items | .element _ _ _ items _ => by
    simp only [Expr.isExact, Expr.passes, Expr.isExactAll_eq st items]
  | .range _ start stop => by
    simp only [Expr.isExact, Expr.passes, Expr.isExact_eq st start, Expr.isExact_eq st stop]
  | .operator _ symbol operands => by
    simp only [Expr.isExact, Expr.passes, Expr.isExactAll_eq st operands]

theorem Expr.isExactAll_eq (st : Typing.State) :
    (es : List Expr) → Expr.isExactAll st es = Expr.passesAll exactResult st es
  | [] => by simp only [Expr.isExactAll, Expr.passesAll]
  | e :: es => by
    simp only [Expr.isExactAll, Expr.passesAll, Expr.isExact_eq st e, Expr.isExactAll_eq st es]

end

/-! ## Expressions -/

namespace Discipline

variable (D : Discipline)

/-- The value has the type, as far as it is followed. -/
def Typed (store : Store) (v : Value) (t : Ty) : Prop := v.TypedUpTo D.view store t

def TypedOn (m : Machine) (t : Ty) (v : Value) (m' : Machine) : Prop := m' = m ∧ D.Typed m.store v t

/-- The names have values of the types that the table gives to them. -/
def Fits (names : String → Prop) (table : Scopes Ty) (m : Machine) : Prop :=
  ∀ x t, names x → table.get? x = some t → ∃ v, m.memory.get? x = some v ∧ D.Typed m.store v t

/-- The expression is accepted, and it has a value of its type or fails. -/
def Seen (st : Typing.State) (e : Expr) (m : Machine) : Prop :=
  e.Normal → ∃ t, e.check .raising st = .ok t st ∧ Ends (e.eval m) (D.TypedOn m t) (FailsOn m)

end Discipline

/-- What evaluating a checked expression can do, if all vectors on the way are made from admitted
items: give a value of its type, or fail. Neither the check nor the run leaves a trace, and so it is
for all that is evaluated on the way. -/
structure TypedExpr (D : Discipline) (st : Typing.State) (m : Machine) (e : Expr) (t : Ty)
    (st' : Typing.State) : Prop where
  state_eq : st' = st
  ends : D.Regular (e.evaluations m) → Ends (e.eval m) (D.TypedOn m t) (FailsOn m)
  evaluations : D.Regular (e.evaluations m) →
    ∀ ev ∈ e.evaluations m, ev.Placed D.Seen st (.expr e)

structure TypedExprs (D : Discipline) (st : Typing.State) (m : Machine) (es : List Expr)
    (ts : List Ty) (st' : Typing.State) : Prop where
  state_eq : st' = st
  ends : D.RegularParts (Expr.evaluationsAll es m) → Ends (Expr.evalAll es m)
    (fun vs m' => m' = m ∧ List.Forall₂ (D.Typed m.store) vs ts) (FailsOn m)
  evaluations : D.RegularParts (Expr.evaluationsAll es m) →
    PlacedParts D.Seen (Part.threaded st (es.map .expr)) (Expr.evaluationsAll es m)

section

variable {D : Discipline} {st st' : Typing.State} {m : Machine} {t : Ty}

lemma Expr.ne_nil_of_checkAll {p : Policy} {es : List Expr} {ts : List Ty}
    (h : Expr.checkAll p es st = .ok ts st') (hne : es ≠ []) : ts ≠ [] := by
  rintro rfl
  exact hne (List.length_eq_zero_iff.1 (Expr.length_checkAll h).symm)

/-- The evaluation of an expression itself. -/
lemma Discipline.seen_self {e : Expr} (hc : e.check .raising st = .ok t st)
    (hends : Ends (e.eval m) (D.TypedOn m t) (FailsOn m)) :
    Placed D.Seen st (.expr e) ⟨[], e, m⟩ := ⟨st, rfl, fun _ => ⟨t, hc, hends⟩⟩

lemma Discipline.ends_name {span : Span} {id : String} {v : Value} (hv : m.memory.get? id = some v)
    (hvt : D.Typed m.store v t) :
    Ends ((Expr.name span id).eval m) (D.TypedOn m t) (FailsOn m) := by
  simp only [Expr.eval]
  refine ⟨rfl, ?_⟩
  rwa [Machine.lookup, hv]

lemma forall_of_forall₂ {α β : Type} {R : α → β → Prop} {xs : List α} {ys : List β} {b : β}
    (h : List.Forall₂ R xs ys) (hb : ∀ y ∈ ys, y = b) : ∀ x ∈ xs, R x b := by
  induction h with
  | nil => simp
  | cons hxy _ ih =>
    rw [List.forall_mem_cons] at hb ⊢
    exact ⟨hb.1 ▸ hxy, ih hb.2⟩

/-- The vector of values of the types that an accepted vector has. -/
lemma Discipline.typed_vector {ts : List Ty} {span : Span} {store : Store} {vs : List Value}
    {v : Value} (hc : vectorType .raising span ts st = .ok t st') (hne : ts ≠ [])
    (hitems : D.items vs) (hvs : List.Forall₂ (D.Typed store) vs ts)
    (hv : Value.vector store vs = .ok v) : D.Typed store v t := by
  obtain ⟨-, u, hu, rfl⟩ := vectorType_raising hc hne
  rw [← hvs.length_eq]
  refine D.vector ?_ hitems (forall_of_forall₂ hvs hu) hv
  rintro rfl
  exact hne (List.forall₂_nil_left_iff.1 hvs)

/-- The part of an array that accepted indices select. -/
lemma Discipline.typed_element {ts : List Ty} {span indexSpan : Span} {store : Store}
    {vs : List Value} {st₁ : Typing.State} {ta ti : Ty} {a i v : Value}
    (hvec : vectorType .raising indexSpan ts st = .ok ti st₁) (hne : ts ≠ [])
    (hc : elementType .raising span ta ti ts.length st₁ = .ok t st') (ha : D.Typed store a ta)
    (hvs : List.Forall₂ (D.Typed store) vs ts) (hi : Value.vector store vs = .ok i)
    (hv : a.index store i = .ok v) : D.Typed store v t := by
  obtain ⟨-, u, hu, rfl⟩ := vectorType_raising hvec hne
  obtain ⟨-, hint, hone, rfl⟩ := elementType_raising hc
  obtain rfl : u = .int := by
    obtain ⟨_, rest⟩ := u
    cases hint
    obtain rfl : rest = [] := List.length_eq_zero_iff.1 (Nat.succ.inj hone)
    rfl
  rw [← hvs.length_eq]
  refine D.element ha ?_ (forall_of_forall₂ hvs hu) hi hv
  rintro rfl
  exact hne (List.forall₂_nil_left_iff.1 hvs)

lemma Expr.regularParts_indices {span idSpan indexSpan : Span} {id : String} {indices : List Expr}
    (hr : D.Regular ((Expr.element span id idSpan indices indexSpan).evaluations m)) :
    D.RegularParts (Expr.evaluationsAll indices m) := by
  simp only [Expr.evaluations, Discipline.regular_cons, Discipline.regular_underFrom,
    Discipline.regularParts_cons] at hr
  exact hr.2.2.1.2

/-- The vector of what its items give. -/
lemma TypedExprs.ends_vector {items : List Expr} {ts : List Ty} {span span' : Span}
    (hall : TypedExprs D st m items ts st) (hc : vectorType .raising span' ts st = .ok t st')
    (hne : ts ≠ []) (hr : D.Regular ((Expr.vector span items).evaluations m)) :
    Ends ((Expr.vector span items).eval m) (D.TypedOn m t) (FailsOn m) := by
  simp only [Expr.evaluations, Discipline.regular_cons, Discipline.regular_underFrom] at hr
  simp only [Expr.eval]
  refine (hall.ends hr.2).self.bind fun vs m' hvs => ?_
  obtain ⟨heval, rfl, hvs⟩ := hvs
  have hitems := hr.1 _ _ _ _ rfl heval
  exact ends_ofStore_keep fun v hv => Discipline.typed_vector hc hne hitems hvs hv

/-- An accepted expression that has a value of its type or fails, if all that is evaluated on the
way stands where it is accepted, too. -/
lemma TypedExpr.of_ends {e : Expr} {evs : List Evaluation} (hc : e.check .raising st = .ok t st)
    (hends : D.Regular (e.evaluations m) → Ends (e.eval m) (D.TypedOn m t) (FailsOn m))
    (heq : e.evaluations m = ⟨[], e, m⟩ :: evs)
    (hevs : D.Regular evs → ∀ ev ∈ evs, ev.Placed D.Seen st (.expr e)) :
    TypedExpr D st m e t st := by
  refine ⟨rfl, hends, fun hr ev hev => ?_⟩
  have hself := hends hr
  rw [heq] at hev hr
  rcases List.mem_cons.1 hev with rfl | hev
  · exact Discipline.seen_self hc hself
  · exact hevs (Discipline.regular_cons.1 hr).2 ev hev

/-- The evaluations of the parts of an expression stand where they are accepted. -/
lemma TypedExprs.placed {es : List Expr} {ts : List Ty} (hall : TypedExprs D st m es ts st')
    (part : Part) (hparts : part.parts st = Part.threaded st (es.map .expr))
    (hr : D.Regular (underFrom 0 (Expr.evaluationsAll es m))) :
    ∀ ev ∈ underFrom 0 (Expr.evaluationsAll es m), ev.Placed D.Seen st part := by
  refine PlacedParts.under part ?_
  rw [hparts]
  exact hall.evaluations (Discipline.regular_underFrom.1 hr)

lemma Discipline.typed_name {span : Span} {id : String} {v : Value}
    (hid : nameType .raising span id st = .ok t st) (hv : m.memory.get? id = some v)
    (hvt : D.Typed m.store v t) : TypedExpr D st m (.name span id) t st :=
  .of_ends (by rwa [Expr.check]) (fun _ => Discipline.ends_name hv hvt) rfl (by simp)

namespace TypedExprs

variable {ts : List Ty} {span : Span}

lemma vector {items : List Expr} (hall : TypedExprs D st m items ts st)
    (hts : Expr.checkAll .raising items st = .ok ts st) (hne : items ≠ [])
    (hvec : vectorType .raising span ts st = .ok t st') :
    TypedExpr D st m (.vector span items) t st' := by
  have htypes := Expr.ne_nil_of_checkAll hts hne
  obtain rfl := (vectorType_raising hvec htypes).1.symm
  refine .of_ends ?_ (hall.ends_vector hvec htypes) rfl (hall.placed (.expr (.vector span items)) rfl)
  rw [Expr.check, bind_ok hts, hvec]

lemma operator {symbol : String} {operands : List Expr} (hall : TypedExprs D st m operands ts st)
    (hts : Expr.checkAll .raising operands st = .ok ts st)
    (hfit : OperandsFit symbol (operands.map Expr.level)) (hx : D.admits symbol ts = true)
    (hop : operatorType .raising span symbol ts st = .ok t st') :
    TypedExpr D st m (.operator span symbol operands) t st' := by
  obtain ⟨hst, hrule⟩ := operatorRule_of_raising hop
  obtain rfl := hst.symm
  have hlen := Expr.length_checkAll hts
  have hends : D.RegularParts (Expr.evaluationsAll operands m) →
      Ends ((Expr.operator span symbol operands).eval m) (D.TypedOn m t) (FailsOn m) := by
    intro hr
    simp only [Expr.eval]
    refine (hall.ends hr).bind fun vs m' hvs => ?_
    obtain ⟨rfl, hvs⟩ := hvs
    refine D.operator hrule ?_ (fun heq => hlen.trans (length_of_equality hfit heq)) hx hvs
    rw [hlen, ← List.length_map Expr.level]
    exact length_le_two_of_operandsFit hfit
  refine .of_ends ?_ (fun hr => hends ?_) rfl
    (hall.placed (.expr (.operator span symbol operands)) rfl)
  · rw [Expr.check, bind_ok hts, hop]
  · simp only [Expr.evaluations, Discipline.regular_cons, Discipline.regular_underFrom] at hr
    exact hr.2

lemma call {k : Keyword} {arguments : List Expr} (hall : TypedExprs D st m arguments ts st)
    (hts : Expr.checkAll .raising arguments st = .ok ts st) (hk : k.MakesMatrix)
    (hne : arguments ≠ []) (hcall : callType .raising span k.spelling ts st = .ok t st') :
    TypedExpr D st m (.call span k.spelling arguments) t st' := by
  obtain ⟨hst, heye, rfl⟩ := callType_raising hcall
  obtain rfl := hst.symm
  have hends : D.RegularParts (Expr.evaluationsAll arguments m) →
      Ends ((Expr.call span k.spelling arguments).eval m)
        (D.TypedOn m ⟨some .float, List.replicate ts.length none⟩) (FailsOn m) := by
    intro hr
    simp only [Expr.eval]
    refine (hall.ends hr).bind fun vs m' hvs => ?_
    obtain ⟨rfl, hvs⟩ := hvs
    have hlen := hvs.length_eq
    rw [← hlen] at heye ⊢
    refine (ends_call hk ?_ heye).imp (fun v m' hv => ⟨hv.1, .of_typed hv.2⟩) fun _ _ h => h
    rintro rfl
    exact Expr.ne_nil_of_checkAll hts hne (List.length_eq_zero_iff.1 hlen.symm)
  refine .of_ends ?_ (fun hr => hends ?_) rfl
    (hall.placed (.expr (.call span k.spelling arguments)) rfl)
  · rw [Expr.check, bind_ok hts, hcall]
  · simp only [Expr.evaluations, Discipline.regular_cons, Discipline.regular_underFrom] at hr
    exact hr.2

/-- An element or a part of an array: its name and the vector of its indices are evaluated, too. -/
lemma element {id : String} {idSpan indexSpan : Span} {indices : List Expr} {ta ti : Ty}
    {st₁ : Typing.State} {a : Value} (hall : TypedExprs D st m indices ts st)
    (hts : Expr.checkAll .raising indices st = .ok ts st) (hne : indices ≠ [])
    (hid : nameType .raising idSpan id st = .ok ta st) (ha : m.memory.get? id = some a)
    (hta : D.Typed m.store a ta) (hvec : vectorType .raising indexSpan ts st = .ok ti st₁)
    (helem : elementType .raising span ta ti indices.length st₁ = .ok t st') :
    TypedExpr D st m (.element span id idSpan indices indexSpan) t st' := by
  have hvector := hall.vector hts hne hvec
  have hname := Discipline.typed_name hid ha hta
  have htypes := Expr.ne_nil_of_checkAll hts hne
  obtain rfl := hvector.state_eq.symm
  obtain rfl := (elementType_raising helem).1.symm
  have hends : D.Regular ((Expr.element span id idSpan indices indexSpan).evaluations m) →
      Ends ((Expr.element span id idSpan indices indexSpan).eval m) (D.TypedOn m t)
        (FailsOn m) := by
    intro hr
    simp only [Expr.eval]
    rw [bind_ok (show lookup id m = .ok (m.lookup id) m from rfl)]
    refine (hall.ends (Expr.regularParts_indices hr)).bind fun vs m' hvs => ?_
    obtain ⟨rfl, hvs⟩ := hvs
    refine ends_ofStore_keep fun w hw => ?_
    obtain ⟨i, hi, hw⟩ := except_bind_eq_ok.1 hw
    rw [Machine.lookup, ha] at hw
    rw [← Expr.length_checkAll hts] at helem
    exact Discipline.typed_element hvec htypes helem hta hvs hi hw
  refine .of_ends ?_ hends rfl fun hr =>
    PlacedParts.under (.expr (.element span id idSpan indices indexSpan)) ?_
  · rw [Expr.check, bind_ok hid, bind_ok hts, bind_ok hvec, helem]
  · simp only [Discipline.regular_underFrom, Discipline.regularParts_cons] at hr
    refine PlacedParts.cons (hname.evaluations hr.1) ?_
    rw [show stateAfter (Part.check (.expr (.name idSpan id)) st) = st by
      rw [Part.check, Expr.check, hid, stateAfter_ok]]
    exact PlacedParts.cons (hvector.evaluations hr.2.1) (placedParts_nil _)

lemma nil : TypedExprs D st m [] [] st where
  state_eq := rfl
  ends _ := by
    simp only [Expr.evalAll]
    exact ⟨rfl, .nil⟩
  evaluations _ := placedParts_nil _

/-- The rest of a list is evaluated if its first expression has a value. -/
lemma cons {e : Expr} {es : List Expr} {t : Ty} {ts : List Ty} (he : TypedExpr D st m e t st)
    (hc : e.check .raising st = .ok t st) (hes : TypedExprs D st m es ts st') :
    TypedExprs D st m (e :: es) (t :: ts) st' := by
  refine ⟨hes.state_eq, fun hr => ?_, fun hr => ?_⟩
  · simp only [Expr.evaluationsAll, Discipline.regularParts_cons] at hr
    simp only [Expr.evalAll]
    refine (he.ends hr.1).self.bind fun v m' hv => ?_
    obtain ⟨heval, rfl, hvt⟩ := hv
    rw [heval] at hr
    refine (hes.ends hr.2).bind fun vs m' hvs => ?_
    obtain ⟨rfl, hvs⟩ := hvs
    exact ⟨rfl, .cons hvt hvs⟩
  · simp only [Expr.evaluationsAll, Discipline.regularParts_cons] at hr
    simp only [List.map_cons, Part.threaded, Expr.evaluationsAll]
    refine PlacedParts.cons (he.evaluations hr.1) ?_
    rw [show stateAfter (Part.check (.expr e) st) = st by rw [Part.check, hc, stateAfter_ok]]
    have hends := he.ends hr.1
    cases hv : e.eval m with
    | ok v m' =>
      rw [hv] at hends hr
      obtain rfl := hends.1
      exact hes.evaluations hr.2
    | error stop m' => exact placedParts_nil _

end TypedExprs

lemma Discipline.Fits.mono {names names' : String → Prop} {table : Scopes Ty}
    (h : D.Fits names table m) (hsub : ∀ x, names' x → names x) : D.Fits names' table m :=
  fun x t hx ht => h x t (hsub x hx) ht

mutual

/-- Accepted expressions with admitted operators have values of their types. -/
theorem Expr.typed : (e : Expr) → ∀ {t : Ty} {st' : Typing.State}, e.Normal →
    e.passes D.admits st = true → e.check .raising st = .ok t st' →
    D.Fits (· ∈ e.names) st.table m → TypedExpr D st m e t st'
  | .constant span value, t, st', hn, hx, hc, h => by
    have hc' := hc
    simp only [Expr.check] at hc'
    cases hc'
    have hends : Ends ((Expr.constant span value).eval m) (D.TypedOn m (.ofConstant value))
        (FailsOn m) := by
      simp only [Expr.eval]
      refine ⟨rfl, .of_typed ?_⟩
      cases value with
      | none => exact hn.elim
      | _ => exact .scalar rfl
    exact .of_ends hc (fun _ => hends) rfl (by simp)
  | .name span id, t, st', hn, hx, hc, h => by
    simp only [Expr.check] at hc
    obtain ⟨hid, rfl⟩ := nameType_raising.mp hc
    obtain ⟨v, hv, hvt⟩ := h id t (List.mem_singleton.2 rfl) hid
    exact Discipline.typed_name hc hv hvt
  | .vector span items, t, st', hn, hx, hc, h => by
    simp only [Expr.passes] at hx
    simp only [Expr.check] at hc
    simp only [Expr.names] at h
    obtain ⟨ts, st₁, hts, hvec⟩ := bind_eq_ok.mp hc
    have hall := Expr.typed_all items hn.2 hx hts h
    obtain rfl := hall.state_eq.symm
    exact hall.vector hts hn.1 hvec
  | .operator span symbol operands, t, st', hn, hx, hc, h => by
    simp only [Expr.check] at hc
    simp only [Expr.names] at h
    obtain ⟨ts, st₁, hts, hop⟩ := bind_eq_ok.mp hc
    simp only [Expr.passes, hts, Bool.and_eq_true] at hx
    have hall := Expr.typed_all operands hn.2 hx.1 hts h
    obtain rfl := hall.state_eq.symm
    exact hall.operator hts hn.1 hx.2 hop
  | .call span function arguments, t, st', hn, hx, hc, h => by
    obtain ⟨⟨k, hk, rfl⟩, hne, hna⟩ := hn
    simp only [Expr.passes] at hx
    simp only [Expr.check] at hc
    simp only [Expr.names] at h
    obtain ⟨ts, st₁, hts, hcall⟩ := bind_eq_ok.mp hc
    have hall := Expr.typed_all arguments hna hx hts h
    obtain rfl := hall.state_eq.symm
    exact hall.call hts hk hne hcall
  | .element span id idSpan indices indexSpan, t, st', hn, hx, hc, h => by
    simp only [Expr.passes] at hx
    simp only [Expr.check] at hc
    simp only [Expr.names] at h
    obtain ⟨ta, st₁, hid, hc⟩ := bind_eq_ok.mp hc
    obtain ⟨ts, st₂, hts, hc⟩ := bind_eq_ok.mp hc
    obtain ⟨ti, st₃, hvec, helem⟩ := bind_eq_ok.mp hc
    obtain ⟨hget, hst₁⟩ := nameType_raising.mp hid
    obtain rfl := hst₁.symm
    obtain ⟨a, ha, hta⟩ := h id ta List.mem_cons_self hget
    have hall := Expr.typed_all indices hn.2 hx hts (h.mono fun x hx => List.mem_cons_of_mem _ hx)
    obtain rfl := hall.state_eq.symm
    exact hall.element hts hn.1 hid ha hta hvec helem
  | .range _ _ _, _, _, hn, _, _, _ | .gap _ _, _, _, hn, _, _, _ => hn.elim

theorem Expr.typed_all : (es : List Expr) → ∀ {ts : List Ty} {st' : Typing.State},
    Expr.NormalAll es → Expr.passesAll D.admits st es = true →
    Expr.checkAll .raising es st = .ok ts st' → D.Fits (· ∈ Expr.namesAll es) st.table m →
    TypedExprs D st m es ts st'
  | [], ts, st', _, _, hc, _ => by
    simp only [Expr.checkAll] at hc
    cases hc
    exact .nil
  | e :: es, ts, st', hn, hx, hc, h => by
    simp only [Expr.passesAll, Bool.and_eq_true] at hx
    simp only [Expr.checkAll] at hc
    obtain ⟨t, st₁, ht, hc⟩ := bind_eq_ok.mp hc
    obtain ⟨us, st₂, hus, hc⟩ := bind_eq_ok.mp hc
    cases hc
    simp only [Expr.namesAll, List.mem_append] at h
    have hhead := Expr.typed e hn.1 hx.1 ht (h.mono fun x hx => .inl hx)
    obtain rfl := hhead.state_eq.symm
    have hrest := Expr.typed_all es hn.2 hx.2 hus (h.mono fun x hx => .inr hx)
    exact .cons hhead ht hrest

end

/-- A condition leaves all as it is. -/
lemma TypedExpr.ends_test {e : Expr} (he : TypedExpr D st m e t st')
    (hr : D.Regular (e.evaluations m)) : Ends (test e m) (fun _ m' => m' = m) (FailsOn m) := by
  refine (he.ends hr).bind fun v m' hv => ?_
  obtain ⟨rfl, -⟩ := hv
  exact (ends_ofStore_keep fun _ _ => trivial).imp (fun _ _ h => h.1) fun _ _ h => h

/-- The indices of an accepted element. -/
lemma Expr.ends_indices {span idSpan indexSpan : Span} {id : String} {indices : List Expr}
    (hn : (Expr.element span id idSpan indices indexSpan).Normal)
    (hx : (Expr.element span id idSpan indices indexSpan).passes D.admits st = true)
    (hc : (Expr.element span id idSpan indices indexSpan).check .raising st = .ok t st')
    (h : D.Fits (· ∈ (Expr.element span id idSpan indices indexSpan).names) st.table m)
    (hr : D.RegularParts (Expr.evaluationsAll indices m)) :
    Ends (evalIndices indices m) (fun _ m' => m' = m) (FailsOn m) := by
  simp only [Expr.passes] at hx
  simp only [Expr.check] at hc
  simp only [Expr.names] at h
  obtain ⟨ta, st₁, hid, hc⟩ := bind_eq_ok.mp hc
  obtain ⟨ts, st₂, hts, -⟩ := bind_eq_ok.mp hc
  obtain rfl := (nameType_raising.mp hid).2.symm
  have hall := Expr.typed_all indices hn.2 hx hts (h.mono fun x hx => List.mem_cons_of_mem _ hx)
  refine (hall.ends hr).bind fun vs m' hvs => ?_
  obtain ⟨rfl, -⟩ := hvs
  exact (ends_ofStore_keep fun _ _ => trivial).imp (fun _ _ h => h.1) fun _ _ h => h

/-- The ends of a range are evaluated as a list is. -/
lemma Expr.evaluations_range (span : Span) (start stop : Expr) (m : Machine) :
    (Expr.range span start stop).evaluations m =
      ⟨[], .range span start stop, m⟩ :: underFrom 0 (Expr.evaluationsAll [start, stop] m) := by
  simp only [Expr.evaluations, Expr.evaluationsAll]
  cases start.eval m with
  | ok _ m' =>
    dsimp only
    cases stop.eval m' <;> rfl
  | error _ _ => rfl

/-- The numbers of a loop. -/
lemma Expr.typed_range {range : Expr} (hn : range.NormalRange)
    (hx : range.passes D.admits st = true) (hc : range.check .raising st = .ok t st')
    (h : D.Fits (· ∈ range.names) st.table m) :
    t = .int ∧ st' = st ∧ (D.Regular (range.evaluations m) →
      Ends (range.eval m) (fun v m' => m' = m ∧ ∃ a b, v = .range a b) (FailsOn m) ∧
      ∀ ev ∈ range.evaluations m, ev.Placed D.Seen st (.expr range)) := by
  cases range with
  | range span start stop =>
    simp only [Expr.passes, Bool.and_eq_true] at hx
    simp only [Expr.names, List.mem_append] at h
    simp only [Expr.check] at hc
    obtain ⟨ta, st₁, ha, hc⟩ := bind_eq_ok.mp hc
    obtain ⟨_, _, hra, hc⟩ := bind_eq_ok.mp hc
    obtain ⟨tb, st₂, hb, hc⟩ := bind_eq_ok.mp hc
    obtain ⟨_, _, hrb, hc⟩ := bind_eq_ok.mp hc
    cases hc
    obtain ⟨rfl, rfl⟩ := require_raising.mp hra
    obtain ⟨rfl, rfl⟩ := require_raising.mp hrb
    have hfirst := start.typed hn.1 hx.1 ha (h.mono fun x hx => .inl hx)
    obtain rfl := hfirst.state_eq.symm
    have hsecond := stop.typed hn.2 hx.2 hb (h.mono fun x hx => .inr hx)
    obtain rfl := hsecond.state_eq.symm
    have hboth : TypedExprs D st m [start, stop] [.int, .int] st :=
      .cons hfirst ha (.cons hsecond hb .nil)
    refine ⟨rfl, rfl, fun hr => ?_⟩
    rw [Expr.evaluations_range, Discipline.regular_cons, Discipline.regular_underFrom] at hr
    refine ⟨?_, fun ev hev => ?_⟩
    · simp only [Expr.evaluationsAll, Discipline.regularParts_cons] at hr
      simp only [Expr.eval]
      refine (hfirst.ends hr.2.1).self.bind fun a m' hva => ?_
      obtain ⟨heval, rfl, -⟩ := hva
      simp only [heval, Discipline.regularParts_cons] at hr
      refine (hsecond.ends hr.2.2.1).bind fun b m' hvb => ?_
      obtain ⟨rfl, -⟩ := hvb
      refine ends_ofStore_keep fun v hv => ?_
      obtain ⟨i, -, hv⟩ := except_bind_eq_ok.1 hv
      obtain ⟨j, -, hv⟩ := except_bind_eq_ok.1 hv
      cases hv
      exact ⟨i, j, rfl⟩
    · rw [Expr.evaluations_range, List.mem_cons] at hev
      rcases hev with rfl | hev
      · exact ⟨st, rfl, fun hn => hn.elim⟩
      · exact PlacedParts.under (.expr (.range span start stop)) (hboth.evaluations hr.2) ev hev
  | _ => exact hn.elim

end

end MatScript
