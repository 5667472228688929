import MatScript.Proofs.InStep

/-! Conditions are single truth values. Of the types along a run only an outline is followed here: how
many axes a value has, and whether it holds truth values. That is enough for conditions: where ways
that meet agree on the outlines of names, and arrays are not compared for equality, the value of a
condition is one truth value, so that a branch can be taken. -/
namespace MatScript

open Typing Run Evaluation

/-! ## Outlines -/

/-- The number of axes, and whether the values are truth values. -/
def Ty.outline (t : Ty) : Nat × Bool := (t.shape.length, t.base = some .bool)

/-- Whether the check computes the outline of the operator's value. Arrays compared for equality give
an array, and sums and products of truth values may be truth values. -/
def outlineResult (symbol : String) : List Ty → Bool
  | [a, b] =>
    match (ScalarOperator.ofSymbol? symbol).or (dotted? symbol) with
    | some op => decide (op = .add ∨ op = .multiply → ¬(a.base = some .bool ∧ b.base = some .bool))
    | none => a.isScalar && b.isScalar
  | _ => true

section

variable {store : Store} {a b v : Value} {A B : BaseType} {t u : Ty} {f : Arith}

lemma Ty.outline_eq {dims : List (Option Int)} (h : u.outline = Ty.outline ⟨some A, dims⟩) :
    u.shape.length = dims.length ∧ (u.base = some .bool ↔ A = .bool) := by
  simpa [outline] using h

lemma Ty.outline_congr {xs ys : List (Option Int)} (hlen : xs.length = ys.length)
    (hbool : A = .bool ↔ B = .bool) :
    Ty.outline ⟨some A, xs⟩ = Ty.outline ⟨some B, ys⟩ := by
  simp [outline, hlen, hbool]

/-- A value with the outline of a scalar. -/
lemma Value.TypedUpTo.exists_base (h : v.TypedUpTo Ty.outline store ⟨some A, []⟩) :
    ∃ B, v.base? = some B ∧ (B = .bool ↔ A = .bool) := by
  obtain ⟨u, hu, hv⟩ := h
  obtain ⟨hlen, hbool⟩ := Ty.outline_eq hu
  have hbase := hv.base?_eq (List.length_eq_zero_iff.1 hlen)
  obtain ⟨B, hB⟩ := hv.exists_base
  rw [hB] at hbase hbool
  exact ⟨B, hbase, by simpa using hbool⟩

lemma Value.TypedUpTo.scalar (h : v.base? = some B) (hbool : B = .bool ↔ A = .bool) :
    v.TypedUpTo Ty.outline store ⟨some A, []⟩ :=
  ⟨⟨some B, []⟩, Ty.outline_congr rfl hbool, .scalar h⟩

/-! ## Operators -/

lemma Value.base?_ne_nothing (h : a.base? = some A) : A ≠ .nothing := by
  cases a with
  | elem e =>
    cases h
    cases e <;> exact fun h => nomatch h
  | _ => cases h <;> exact fun h => nomatch h

lemma Value.base_multiplyText {s : String} (h : multiplyText s a = .ok v) :
    v.base? = some .text := by
  have hrepeat : ∀ {n : Int}, repeatText s n = .ok v → v.base? = some .text := by
    intro n h
    unfold repeatText at h
    split at h
    · cases h
    · cases h
      rfl
  cases a with
  | bool _ | int _ => exact hrepeat h
  | elem e =>
    cases e with
    | int n => exact hrepeat h
    | _ => cases h
  | _ => cases h

/-- An array has no sums of texts with numbers, and no other arithmetic on texts. -/
lemma Arith.add_of_resultKind {j k kind : Kind} (h : f.resultKind j k = .ok kind)
    (ht : j.base = .text ∨ k.base = .text) : f = .add := by
  cases f with
  | add => rfl
  | _ => cases j <;> cases k <;> first | cases h; done | (rcases ht with ht | ht <;> cases ht)

lemma Value.plain?_of_text (h : a.base? = some .text) : a.plain? = Option.none := by
  cases a with
  | text _ | elem _ => rfl
  | _ => cases h

/-- With a text, arithmetic gives a text. -/
lemma base_arith_text (ha : a.base? = some A) (hb : b.base? = some B) (ht : A = .text ∨ B = .text)
    (h : a.arith store f b = .ok v) : v.base? = some .text := by
  unfold Value.arith at h
  have htext : a.text?.isSome ∨ b.text?.isSome := by
    rcases ht with rfl | rfl
    · exact .inl (text?_isSome_of_base? ha)
    · exact .inr (text?_isSome_of_base? hb)
  split at h
  · obtain ⟨_, -, h⟩ := except_bind_eq_ok.1 h
    obtain ⟨_, -, h⟩ := except_bind_eq_ok.1 h
    cases h
    rfl
  · next hadd =>
    have hne : f ≠ .add := fun hf => hadd ⟨hf, htext⟩
    split at h
    · cases h
    · cases h
    · exact Value.base_multiplyText h
    · exact Value.base_multiplyText h
    · split at h
      · -- element by element there is no arithmetic on texts but the sum
        obtain ⟨j, hj, hjA⟩ := (Value.Typed.scalar ha : a.Typed store ⟨some A, []⟩).kind?
        obtain ⟨k, hk, hkB⟩ := (Value.Typed.scalar hb : b.Typed store ⟨some B, []⟩).kind?
        unfold Value.elementArith at h
        simp only [hj, hk] at h
        obtain ⟨kind, hkind, -⟩ := except_bind_eq_ok.1 h
        rw [← hjA, ← hkB] at ht
        exact absurd (Arith.add_of_resultKind hkind ht) hne
      · split at h
        · next x y hx hy =>
          rcases ht with rfl | rfl
          · cases hx.symm.trans (Value.plain?_of_text ha)
          · cases hy.symm.trans (Value.plain?_of_text hb)
        · split at h
          · exact Value.base_multiplyText h
          · exact Value.base_multiplyText h
          · cases h

/-- Arithmetic on scalars gives no truth value, sums and products of two truth values apart. -/
lemma base_arith_ne_bool (ha : a.base? = some A) (hb : b.base? = some B)
    (hbools : f = .add ∨ f = .multiply → ¬(A = .bool ∧ B = .bool))
    (h : a.arith store f b = .ok v) : ∃ C, v.base? = some C ∧ C ≠ .bool := by
  by_cases ht : A = .text ∨ B = .text
  · exact ⟨.text, base_arith_text ha hb ht h, by decide⟩
  · have hA := Value.base?_ne_nothing ha
    have hB := Value.base?_ne_nothing hb
    obtain ⟨op, hf⟩ : ∃ op, ScalarOperator.arith? op = some f := by
      cases f
      exacts [⟨.add, rfl⟩, ⟨.subtract, rfl⟩, ⟨.multiply, rfl⟩, ⟨.divide, rfl⟩]
    obtain ⟨R, hr, hR⟩ : ∃ R, op.binary? A B = some R ∧ R ≠ .bool := by
      cases op <;> cases hf <;> cases A <;> cases B <;> first
        | exact ⟨_, rfl, by decide⟩
        | exact absurd rfl hA
        | exact absurd rfl hB
        | exact absurd (.inl rfl) ht
        | exact absurd (.inr rfl) ht
    exact ⟨R, base_arith hf ha hb hr hbools h, hR⟩

lemma base_negate_ne_bool (ha : a.base? = some A) (h : a.negate store = .ok v) :
    ∃ C, v.base? = some C ∧ C ≠ .bool := by
  cases hr : ScalarOperator.negate.unary? A with
  | some R =>
    refine ⟨R, base_negate ha hr h, ?_⟩
    cases A <;> cases hr <;> decide
  | none =>
    cases a with
    | elem e => cases e <;> cases ha <;> first | cases hr; done | cases h
    | text _ => cases h
    | _ => cases ha <;> cases hr

lemma Arith.base_resultKind_ne_bool {j k kind : Kind} (h : f.resultKind j k = .ok kind)
    (hbools : f = .add ∨ f = .multiply → ¬(j.base = .bool ∧ k.base = .bool)) :
    kind.base ≠ .bool := by
  cases f <;> cases j <;> cases k <;> cases h <;>
    first | (intro h; cases h; done) | exact absurd ⟨rfl, rfl⟩ (hbools (by simp))

/-- Arithmetic element by element keeps the number of axes, and gives no truth values but sums and
products of them. -/
lemma outline_elementArith {xs ys : List (Option Int)} (ha : a.Typed store ⟨some A, xs⟩)
    (hb : b.Typed store ⟨some B, ys⟩) (hlen : xs.length = ys.length)
    (hbools : f = .add ∨ f = .multiply → ¬(A = .bool ∧ B = .bool))
    (h : a.elementArith store f b = .ok v) :
    ∃ C, C ≠ .bool ∧ v.Typed store ⟨some C, List.replicate xs.length none⟩ := by
  obtain ⟨j, hj, rfl⟩ := ha.kind?
  obtain ⟨k, hk, rfl⟩ := hb.kind?
  unfold Value.elementArith at h
  simp only [hj, hk] at h
  obtain ⟨kind, hkind, h⟩ := except_bind_eq_ok.1 h
  obtain ⟨x, hx, h⟩ := except_bind_eq_ok.1 h
  obtain ⟨y, hy, h⟩ := except_bind_eq_ok.1 h
  refine ⟨kind.base, Arith.base_resultKind_ne_bool hkind hbools, ?_⟩
  refine typed_combine (f.base_onElements kind) h fun s hs => ?_
  rw [Value.shape_toTensor hx, Value.shape_toTensor hy] at hs
  have hxs : a.itemShape.length = xs.length := ha.itemShape.length_eq
  have hys : b.itemShape.length = ys.length := hb.itemShape.length_eq
  have hs' : s.length = xs.length := by
    have hzip := (joinShapes?_spec hs (by omega)).length_eq
    rw [List.length_zip] at hzip
    omega
  rw [← hs']
  exact shapeFits_unknown s

/-- A vector of values of one outline. -/
lemma outline_vector {vs : List Value} (hne : vs ≠ [])
    (hvs : ∀ w ∈ vs, w.TypedUpTo Ty.outline store t) (h : Value.vector store vs = .ok v) :
    ∃ C dims, (C = .bool ↔ t.base = some .bool) ∧ dims.length = t.shape.length ∧
      v.Typed store ⟨some C, some (vs.length : Int) :: dims⟩ := by
  have hbool : ∀ w ∈ vs, ∃ B dims, (B = .bool ↔ t.base = some .bool) ∧
      w.Typed store ⟨some B, dims⟩ := by
    intro w hw
    obtain ⟨⟨_, dims⟩, hu, hwt⟩ := hvs w hw
    obtain ⟨A, hA⟩ := hwt.exists_base
    cases hA
    exact ⟨A, dims, ((Ty.outline_eq hu.symm).2).symm, hwt⟩
  obtain ⟨C, hC, hv⟩ := bool_vector hbool hne h
  obtain ⟨w, hw⟩ := List.exists_mem_of_ne_nil vs hne
  obtain ⟨u, hu, hwt⟩ := hvs w hw
  exact ⟨C, u.shape, hC, congrArg Prod.fst hu, hv w hw u.shape hwt.itemShape⟩

end

namespace Run

variable {m : Machine} {symbol : String} {ts : List Ty} {t : Ty} {vs : List Value}

/-- The table of base types gives no truth values, comparisons apart. -/
lemma ne_bool_of_binary? {op : ScalarOperator} {f : Arith} {A B R : BaseType}
    (hf : op.arith? = some f) (h : op.binary? A B = some R) : R ≠ .bool := by
  cases op <;> cases hf <;> cases A <;> cases B <;> cases h <;> decide

lemma outlineResult_spec {op : ScalarOperator} {a b : Ty}
    (hop : (ScalarOperator.ofSymbol? symbol).or (dotted? symbol) = some op)
    (hx : outlineResult symbol [a, b] = true) :
    op = .add ∨ op = .multiply → ¬(a.base = some .bool ∧ b.base = some .bool) := by
  simpa only [outlineResult, hop, decide_eq_true_eq] using hx

/-- An operator with a table gives a value of the outline in the table. -/
lemma ends_outline_table {op : ScalarOperator} (hop : ScalarOperator.ofSymbol? symbol = some op)
    (hr : op.result? ts = some t) (hx : outlineResult symbol ts = true)
    (hvs : List.Forall₂ (·.TypedUpTo Ty.outline m.store ·) vs ts) :
    Ends (apply symbol vs m) (fun v m' => m' = m ∧ v.TypedUpTo Ty.outline m.store t) (FailsOn m) := by
  rcases operation_of_symbol hop with ⟨rfl, hname⟩ | ⟨f, hf, hname⟩ | ⟨rfl, c, hname⟩ <;>
    rcases scalars_of_result? hr with ⟨A, R, rfl, hR, rfl⟩ | ⟨A, B, R, rfl, hR, rfl⟩
  · obtain ⟨a, rfl, ha⟩ := forall₂_singleton_right hvs
    obtain ⟨A', ha, -⟩ := ha.exists_base
    have hbool : R ≠ .bool := by
      cases A <;> cases hR <;> decide
    refine ends_perform hname (fun _ => rfl) fun v hv => ?_
    obtain ⟨C, hC, hCbool⟩ := base_negate_ne_bool ha hv
    exact .scalar hC (iff_of_false hCbool hbool)
  · cases A <;> cases B <;> cases hR
  · cases op <;> cases hf <;> cases A <;> cases hR
  · obtain ⟨a, b, rfl, ha, hb⟩ := forall₂_pair_right hvs
    obtain ⟨A', ha, hA⟩ := ha.exists_base
    obtain ⟨B', hb, hB⟩ := hb.exists_base
    have hbools := not_bools (outlineResult_spec (by rw [hop]; rfl) hx) hf rfl rfl
    rw [← hA, ← hB] at hbools
    refine ends_perform hname (fun _ => rfl) fun v hv => ?_
    obtain ⟨C, hC, hCbool⟩ := base_arith_ne_bool ha hb hbools hv
    exact .scalar hC (iff_of_false hCbool (ne_bool_of_binary? hf hR))
  · cases A <;> cases hR
  · obtain ⟨a, b, rfl, ha, hb⟩ := forall₂_pair_right hvs
    obtain ⟨A', ha, -⟩ := ha.exists_base
    obtain ⟨B', hb, -⟩ := hb.exists_base
    have hbool : R = .bool := by
      cases A <;> cases B <;> cases hR <;> rfl
    refine ends_perform hname (fun _ => rfl) fun v hv => ?_
    exact .scalar (base_compare ha hb hv) (iff_of_true rfl hbool)

/-- An operator that is accepted and admitted gives a value of the outline that the check
computes. -/
lemma ends_outline_operator (hrule : OperatorRule symbol ts t) (hlen : ts.length ≤ 2)
    (htwo : symbol = "==" ∨ symbol = "!=" → ts.length = 2) (hx : outlineResult symbol ts = true)
    (hvs : List.Forall₂ (·.TypedUpTo Ty.outline m.store ·) vs ts) :
    Ends (apply symbol vs m) (fun v m' => m' = m ∧ v.TypedUpTo Ty.outline m.store t) (FailsOn m) := by
  cases hrule with
  | table hop hr => exact ends_outline_table hop hr hx hvs
  | equality hs =>
    obtain ⟨c, hname⟩ := operation_of_equality hs
    obtain ⟨⟨A, xs⟩, ⟨B, ys⟩, rfl⟩ := List.length_eq_two.1 (htwo hs)
    obtain ⟨a, b, rfl, ⟨u, hu, ha⟩, ⟨w, hw, hb⟩⟩ := forall₂_pair_right hvs
    simp only [outlineResult, scalarOperator_of_equality hs, Bool.and_eq_true, Ty.isScalar,
      decide_eq_true_eq, Nat.lt_one_iff] at hx
    have hushape := List.length_eq_zero_iff.1 ((congrArg Prod.fst hu).trans hx.1)
    have hwshape := List.length_eq_zero_iff.1 ((congrArg Prod.fst hw).trans hx.2)
    obtain ⟨A', hA⟩ := ha.exists_base
    obtain ⟨B', hB⟩ := hb.exists_base
    refine ends_perform hname (fun _ => rfl) fun v hv => ?_
    exact .scalar (base_compare ((ha.base?_eq hushape).trans hA) ((hb.base?_eq hwshape).trans hB) hv)
      Iff.rfl
  | @transposition t₁ rest hs hmatrix =>
    subst hs
    obtain ⟨a, vs, ⟨⟨_, dims⟩, hu, ha⟩, -, rfl⟩ := List.forall₂_cons_right_iff.1 hvs
    have hname : Operation.ofName? "'" = some .transpose := by decide
    refine ends_perform hname (fun _ => rfl) fun v hv => ?_
    obtain ⟨A, hA⟩ := ha.exists_base
    cases hA
    simp only [Ty.outline, Prod.mk.injEq] at hu
    refine ⟨_, ?_, typed_transpose ha ?_ hv⟩
    · simp only [Ty.outline, List.length_reverse, hu.1, hu.2]
    · rintro rfl
      rw [← hu.1] at hmatrix
      cases hmatrix
  | @dotted op ta tb rest A B R hop hs hA hB hr hdims =>
    obtain rfl : rest = [] := by
      rw [List.length_cons, List.length_cons] at hlen
      exact List.length_eq_zero_iff.1 (by omega)
    obtain ⟨f, hf, hname⟩ := operation_of_dotted hop
    obtain ⟨a, b, rfl, ⟨⟨_, xs⟩, hu, ha⟩, ⟨⟨_, ys⟩, hw, hb⟩⟩ := forall₂_pair_right hvs
    obtain ⟨A', hA'⟩ := ha.exists_base
    obtain ⟨B', hB'⟩ := hb.exists_base
    cases hA'
    cases hB'
    have hbools := outlineResult_spec (by rw [hs, hop]; rfl) hx
    simp only [Ty.outline, Prod.mk.injEq, decide_eq_decide] at hu hw
    rw [← hu.2, ← hw.2] at hbools
    refine ends_perform hname (fun _ => rfl) fun v hv => ?_
    have hlen := hdims.length_eq
    obtain ⟨C, hC, hv⟩ := outline_elementArith ha hb (by rw [hu.1, hw.1, hlen])
      (not_bools (a := ⟨some A', xs⟩) (b := ⟨some B', ys⟩) hbools hf rfl rfl) hv
    refine ⟨_, Ty.outline_congr ?_ (iff_of_false hC (ne_bool_of_binary? hf hr)), hv⟩
    rw [List.length_replicate, List.length_zipWith, hu.1, ← hlen, Nat.min_self]

end Run

/-- Only the outlines of types are followed. -/
def Discipline.outlines : Discipline where
  View := Nat × Bool
  view := Ty.outline
  admits := outlineResult
  items := fun _ => True
  vector := by
    intro store vs t v hne _ hvs hv
    obtain ⟨C, dims, hC, hlen, hv⟩ := outline_vector hne hvs hv
    refine ⟨_, ?_, hv⟩
    simp [Ty.outline, hlen, hC]
  element := by
    intro store a i v vs t ha hne hvs hi hv
    obtain ⟨⟨_, dims⟩, hu, ha⟩ := ha
    obtain ⟨A, hA⟩ := ha.exists_base
    cases hA
    obtain ⟨C, rest, hC, hrest, hi⟩ := outline_vector hne hvs hi
    obtain rfl := List.length_eq_zero_iff.1 hrest
    have hne : C ≠ .bool := fun h => nomatch hC.1 h
    refine ⟨_, ?_, typed_index ha hi hne hv⟩
    simp only [Ty.outline, Prod.mk.injEq, List.length_drop] at hu ⊢
    exact ⟨by rw [hu.1], hu.2⟩
  operator := ends_outline_operator

/-! ## Accepted statements at their places -/

/-- A statement that can be written, and that the check accepts in the state. -/
def Stmt.Accepted (st : Typing.State) (s : Stmt) : Prop :=
  s.Normal ∧ ∃ t st', s.check .raising st = .ok t st'

/-- The condition of a choice or of a loop. -/
def Stmt.condition? : Stmt → Option Expr
  | .whileLoop _ condition _ | .ifThen _ condition _ | .ifElse _ condition _ _ => some condition
  | _ => none

section

variable {st st' st₁ : Typing.State} {s c : Stmt} {t : Ty} {path : Path}

lemma Part.at?_append (part : Part) (path path' : Path) :
    part.at? st (path ++ path') = (part.at? st path).bind fun p => p.2.at? p.1 path' := by
  induction path generalizing part st with
  | nil => rfl
  | cons i path ih =>
    simp only [List.cons_append, Part.at?, Option.bind_assoc]
    congr 1
    funext p
    exact ih p.2

lemma Part.not_mem_threaded_expr {es : List Expr} :
    (st₁, Part.stmt c) ∉ Part.threaded st (es.map .expr) := by
  induction es generalizing st with
  | nil => simp [Part.threaded]
  | cons e es ih => simpa [Part.threaded] using ih

/-- There are no statements in expressions. -/
lemma Part.at?_expr_ne_stmt {e : Expr} : (Part.expr e).at? st path ≠ some (st₁, .stmt c) := by
  induction path generalizing e st with
  | nil => simp [Part.at?]
  | cons i path ih =>
    intro h
    obtain ⟨⟨st₂, part⟩, hi, h⟩ := Option.bind_eq_some_iff.1 h
    have hmem := List.mem_of_getElem? hi
    cases part with
    | expr e' => exact ih h
    | stmt s => exact Part.not_mem_threaded_expr hmem

lemma Stmt.accepted_of_mem_threaded {ss : List Stmt} (hn : Stmt.NormalAll ss)
    (hc : Stmt.checkAll .raising ss st = .ok () st')
    (h : (st₁, Part.stmt c) ∈ Part.threaded st (ss.map .stmt)) : c.Accepted st₁ := by
  induction ss generalizing st with
  | nil => cases h
  | cons s ss ih =>
    obtain ⟨t, st₂, hs, hss⟩ := Stmt.checkAll_cons hc
    rw [List.map_cons, Part.threaded, List.mem_cons] at h
    rcases h with h | h
    · cases h
      exact ⟨hn.1, t, st₂, hs⟩
    · rw [show Part.check (.stmt s) st = s.check .raising st from rfl, hs, stateAfter_ok] at h
      exact ih hn.2 hss h

/-- The statements in an accepted one are accepted, each in the state in which the check comes to
it. -/
lemma Stmt.Accepted.of_mem_parts (hs : s.Accepted st) (h : (st₁, Part.stmt c) ∈ s.parts st) :
    c.Accepted st₁ := by
  obtain ⟨hn, t, st', hc⟩ := hs
  cases s with
  | block _ body =>
    obtain ⟨st₂, hbody, -⟩ := Stmt.check_block hc
    exact Stmt.accepted_of_mem_threaded hn hbody h
  | assign _ target value | update _ _ target value =>
    have hpair : (st₁, Part.stmt c) ∈ Part.threaded st ([target, value].map .expr) := h
    exact absurd hpair Part.not_mem_threaded_expr
  | instruction _ _ arguments => exact absurd h Part.not_mem_threaded_expr
  | whileLoop _ condition body =>
    obtain ⟨st₂, st₃, t₃, hcond, hbody, -⟩ := Stmt.check_whileLoop hc
    simp only [Stmt.parts, hcond, stateAfter_ok] at h
    rcases List.mem_pair.1 h with h | h
    · cases h
    · cases h
      exact ⟨hn.2, t₃, st₃, hbody⟩
  | forLoop _ id _ range body =>
    obtain ⟨t₂, st₂, st₃, t₃, hrange, hbody, -⟩ := Stmt.check_forLoop hc
    simp only [Stmt.parts, State.header_eq hrange] at h
    rcases List.mem_pair.1 h with h | h
    · cases h
    · cases h
      exact ⟨hn.2, t₃, st₃, hbody⟩
  | ifThen _ condition yes =>
    obtain ⟨st₂, st₃, t₃, hcond, hyes, -⟩ := Stmt.check_ifThen hc
    simp only [Stmt.parts, hcond, stateAfter_ok] at h
    rcases List.mem_pair.1 h with h | h
    · cases h
    · cases h
      exact ⟨hn.2, t₃, st₃, hyes⟩
  | ifElse _ condition yes no =>
    obtain ⟨st₂, st₃, t₃, st₄, t₄, hcond, hyes, hno, -⟩ := Stmt.check_ifElse hc
    simp only [Stmt.parts, hcond, hyes, stateAfter_ok] at h
    rcases List.mem_cons.1 h with h | h
    · cases h
    rcases List.mem_pair.1 h with h | h
    · cases h
      exact ⟨hn.2.1, t₃, st₃, hyes⟩
    · cases h
      exact ⟨hn.2.2.2, t₄, st₄, hno⟩
  | expr _ => exact hn.elim

lemma Stmt.Accepted.at (hs : s.Accepted st) (h : (Part.stmt s).at? st path = some (st₁, .stmt c)) :
    c.Accepted st₁ := by
  induction path generalizing s st with
  | nil =>
    cases h
    exact hs
  | cons i path ih =>
    obtain ⟨⟨st₂, part⟩, hi, h⟩ := Option.bind_eq_some_iff.1 h
    have hmem : (st₂, part) ∈ s.parts st := List.mem_of_getElem? hi
    cases part with
    | expr e => exact absurd h Part.at?_expr_ne_stmt
    | stmt s' => exact ih (hs.of_mem_parts hmem) h

/-- A condition is the first part of its statement, and it is checked to be a truth value. -/
lemma Stmt.Accepted.condition {e : Expr} (hs : s.Accepted st) (he : s.condition? = some e) :
    e.Normal ∧ (∃ st', e.check .raising st = .ok .bool st') ∧
      (Part.stmt s).at? st [0] = some (st, .expr e) := by
  obtain ⟨hn, t, st', hc⟩ := hs
  cases s with
  | whileLoop _ condition body =>
    obtain ⟨st₂, st₃, t₃, hcond, -, -⟩ := Stmt.check_whileLoop hc
    cases he
    exact ⟨hn.1, ⟨st₂, hcond⟩, rfl⟩
  | ifThen _ condition yes =>
    obtain ⟨st₂, st₃, t₃, hcond, -, -⟩ := Stmt.check_ifThen hc
    cases he
    exact ⟨hn.1, ⟨st₂, hcond⟩, rfl⟩
  | ifElse _ condition yes no =>
    obtain ⟨st₂, st₃, t₃, st₄, t₄, hcond, -, -, -⟩ := Stmt.check_ifElse hc
    cases he
    exact ⟨hn.1, ⟨st₂, hcond⟩, rfl⟩
  | _ => cases he

end

/-! ## Scripts -/

/-- Ways through the script that meet agree on the outlines of names. -/
def Stmt.OutlinesAgree (s : Stmt) : Prop :=
  s.everywhere (Stmt.joinsAgreeBy Ty.outline) .empty {} = true

/-- The operators of the script have values of the outlines that the check computes. -/
def Stmt.OutlinedOperators (s : Stmt) : Prop :=
  s.everywhere (fun _ => Stmt.passes outlineResult) .empty {} = true

/-- A value with the outline of a truth value is one. -/
lemma Value.TypedUpTo.single {store : Store} {v : Value} (h : v.TypedUpTo Ty.outline store .bool) :
    ∃ b, (v = .bool b ∨ v = .elem (.bool b)) ∧ v.truth store = .ok b := by
  obtain ⟨B, hB, hbool⟩ := h.exists_base
  obtain rfl := hbool.2 rfl
  cases v with
  | bool b => exact ⟨b, .inl rfl, rfl⟩
  | elem e =>
    cases e with
    | bool b => exact ⟨b, .inr rfl, rfl⟩
    | _ => cases hB
  | _ => cases hB

/-- Halves a name that starts as an integer, leaves the loop by a jump, and chooses by an element of an
array. -/
def halvesText : String :=
  "x = 8; while (x > 1) \x7b x = x / 2; if (x == 3) break; \x7d b = [true, false]; if (b[1]) print x; else print b;"

def halvesScript : Stmt :=
  let at1 : Span := ⟨1, 1⟩
  let x : Expr := .name at1 "x"
  let b : Expr := .name at1 "b"
  let int (k : Int) : Expr := .constant at1 (.int k)
  .block at1 [
    .assign at1 x (int 8),
    .whileLoop at1 (.operator at1 ">" [x, int 1])
      (.block at1 [
        .assign at1 x (.operator at1 "/" [x, int 2]),
        .ifThen at1 (.operator at1 "==" [x, int 3]) (.instruction at1 "break" [])]),
    .assign at1 b (.vector at1 [.constant at1 (.bool true), .constant at1 (.bool false)]),
    .ifElse at1 (.element at1 "b" at1 [int 1] at1) (.instruction at1 "print" [x])
      (.instruction at1 "print" [b])]

lemma parse_halvesText : (Script.parse 1 halvesText).script = .ok halvesScript := by
  set_option maxRecDepth 4000 in cbv

/-- A run comes to a condition that has a value, by which no branch can be taken. -/
def Stmt.Undecided (s : Stmt) (fuel : Nat) : Prop :=
  ∃ ev ∈ s.evaluations fuel {}, ∃ path st₁ c e v m stop m', ev.path = path ++ [0] ∧
    (Part.stmt s).at? {} path = some (st₁, .stmt c) ∧ c.condition? = some e ∧
    e.eval ev.machine = .ok v m ∧ Run.test e ev.machine = .error stop m'

/-- The value of a condition is found, but not whether it holds. -/
def Expr.isUndecided (e : Expr) (m : Machine) : Bool :=
  match e.eval m, Run.test e m with
  | .ok _ _, .error _ _ => true
  | _, _ => false

def Evaluation.isUndecided (s : Stmt) (ev : Evaluation) : Bool :=
  decide (ev.path = ev.path.dropLast ++ [0]) &&
    match (Part.stmt s).at? {} ev.path.dropLast with
    | some (_, .stmt c) => c.condition?.any (·.isUndecided ev.machine)
    | _ => false

lemma Stmt.undecided_of_any {s : Stmt} {fuel : Nat}
    (h : (s.evaluations fuel {}).any (·.isUndecided s) = true) : s.Undecided fuel := by
  obtain ⟨ev, hev, h⟩ := List.any_eq_true.1 h
  unfold Evaluation.isUndecided at h
  rw [Bool.and_eq_true, decide_eq_true_eq] at h
  obtain ⟨hpath, h⟩ := h
  split at h
  · next st c hat =>
    rw [Option.any_eq_true] at h
    obtain ⟨e, he, h⟩ := h
    unfold Expr.isUndecided at h
    split at h
    · next v m stop m' hv htest =>
      exact ⟨ev, hev, _, st, c, e, v, m, stop, m', hpath, hat, he, hv, htest⟩
    · cases h
  · cases h

/-- The text is that of an accepted script, a run of which comes to such a condition. -/
def Script.Undecided (text : String) : Prop :=
  ∃ s t st, (Script.parse 1 text).script = .ok s ∧ s.check .raising {} = .ok t st ∧ s.Undecided 0

def Script.isUndecided (text : String) : Bool :=
  match (Script.parse 1 text).script with
  | .ok s =>
    match s.check .raising {} with
    | .ok _ _ => (s.evaluations 0 {}).any (·.isUndecided s)
    | .error _ _ => false
  | .error _ => false

lemma Script.undecided_of_isUndecided {text : String} (h : Script.isUndecided text = true) :
    Script.Undecided text := by
  unfold Script.isUndecided at h
  split at h
  · next s hs =>
    split at h
    · next t st hc => exact ⟨s, t, st, hs, hc, Stmt.undecided_of_any h⟩
    · cases h
  · cases h

/-- Arrays compared for equality, a branch that is not taken, a second round, and a sum of truth values
as an index. -/
def undecidedTexts : List String :=
  ["if ([1, 2] == [1, 2]) print 1;", "x = [1, 2]; if (false) x = true; if (x) print 1;",
    "x = true; for i = 0:2 \x7b if (x) print 1; x = [1, 2]; \x7d",
    "x = [true, false]; if (x[x[0] + x[1]]) print 1;"]

end MatScript
