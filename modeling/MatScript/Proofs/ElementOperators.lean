import MatScript.Proofs.FloatQuotients
import MatScript.Proofs.TypedExpressions

/-! Operators with a dot on scalars. The check types them by the tables of the operators without one.
On plain scalars the two ways to compute give the same value, of the type in the table, except where
arrays have another arithmetic: on truth values, on a text beside another value, and on integers
that are no floats. -/
namespace MatScript

open Run Number

/-- An element as a plain scalar. -/
def Elem.plain : Elem → Value
  | bool b => .bool b
  | int n => .int n.toInt
  | float x => .float x
  | text s => .text s

/-- A plain scalar as an element. -/
def Value.element : Value → Elem
  | .bool b => .bool b
  | .int n => .int (.ofInt n)
  | .float x => .float x
  | .text s => .text (cellText s)
  | _ => default

namespace Arith

/-- The integers that arithmetic on two scalars starts from and leads to have 64 bits, and no
divisor is zero. -/
structure InRange (f : Arith) (a b : Value) : Prop where
  left : ∀ n, a = .int n → FitsWord n
  right : ∀ n, b = .int n → FitsWord n
  result : f ≠ .divide → ∀ x y, a.plain? = some (.int x) → b.plain? = some (.int y) →
    FitsWord (f.onInts x y)
  divisor : f = .divide → ∀ store, b.truth store = .ok true

/-- The base types for which arrays have the arithmetic of the tables. A text is only joined with a
text, and truth values are not numbers unless they are divided. -/
def FollowsTable (f : Arith) (A B : BaseType) : Prop :=
  (A = .text ↔ B = .text) ∧ ¬(A = .bool ∧ B = .bool ∧ f ≠ .divide)

/-- An array keeps the operands as they are: no text ends with a null character, and integers that
are divided are floats. -/
structure Exact (f : Arith) (a b : Value) : Prop where
  texts : ∀ s, a = .text s ∨ b = .text s → s.toList.getLast? ≠ some '\x00'
  quotient : f = .divide → ∀ x y, a.plain? = some (.int x) → b.plain? = some (.int y) →
    IsFloat x ∧ IsFloat y

end Arith

section

variable {a b v : Value} {A B R : BaseType} {f : Arith} {p q : Plain} {x y : Int}

/-! ## Plain scalars as elements -/

lemma toTensor_int (use : Use) (k : Kind) (h : FitsWord x) :
    (Value.int x).toTensor use k = .ok (.ofElem (.int (.ofInt x))) := by
  have hword : wordOfInt? x = some (.ofInt x) := if_pos h
  simp only [Value.toTensor, Use.element, hword]
  rfl

lemma toTensor_element (store : Store) (use : Use) (k : Kind) (ha : a.baseType? = some A)
    (hfit : ∀ n, a = .int n → FitsWord n) : ∃ j, a.kind? store = some j ∧ j.base = A ∧
      a.toTensor use k = .ok (.ofElements j [] [a.element]) := by
  cases a with
  | bool _ | float _ | text _ =>
    cases ha
    exact ⟨_, rfl, rfl, rfl⟩
  | int n =>
    cases ha
    exact ⟨.int, rfl, rfl, toTensor_int use k (hfit n rfl)⟩
  | _ => cases ha

/-- On plain scalars an operator with a dot works on them as elements. -/
lemma elementArith_plain (store : Store) (h : f.InRange a b) (ha : a.baseType? = some A)
    (hb : b.baseType? = some B) :
    ∃ j k, j.base = A ∧ k.base = B ∧ a.elementArith store f b =
      (f.resultKind j k).map fun kind => .elem (f.onElements kind a.element b.element) := by
  obtain ⟨j, hj, hjA, -⟩ := toTensor_element store (.arith f) .int ha h.left
  obtain ⟨k, hk, hkB, hbt⟩ := toTensor_element store (.arith f) j hb h.right
  obtain ⟨j', hj', -, hat⟩ := toTensor_element store (.arith f) k ha h.left
  cases hj.symm.trans hj'
  refine ⟨j, k, hjA, hkB, ?_⟩
  unfold Value.elementArith
  simp only [hj, hk, hat, hbt]
  cases f.resultKind j k <;> rfl

/-- The result of an operator with a dot has the type in the table exactly for these base types. -/
lemma resultKind_base_iff {op : ScalarOperator} (hf : op.arith? = some f) {j k : Kind}
    (hR : op.binary? j.base k.base = some R) :
    (∃ kind, f.resultKind j k = .ok kind ∧ kind.base = R) ↔ f.FollowsTable j.base k.base := by
  unfold Arith.FollowsTable
  cases op <;> cases hf <;> cases j <;> cases k <;> cases hR <;>
    simp [Arith.resultKind, Kind.base, Kind.join, ScalarOperator.joined]

lemma resultKind_numbers {j k : Kind} (h : f.FollowsTable j.base k.base) (hj : j.base ≠ .text) :
    f.resultKind j k =
      .ok (if f = .divide ∨ j.base = .float ∨ k.base = .float then .float else .int) := by
  obtain ⟨htext, hbool⟩ := h
  cases j <;> cases k <;> simp_all [Arith.resultKind, Kind.base, Kind.join]

/-! ## Numbers -/

lemma FitsWord.natAbs_le (h : FitsWord x) : x.natAbs ≤ 2 ^ 63 := by
  unfold FitsWord wordBound at h
  omega

lemma FitsWord.toInt_ofInt (h : FitsWord x) : (Int64.ofInt x).toInt = x :=
  Int64.toInt_ofInt_of_le h.1 h.2

/-- A number that is no float is a truth value or an integer. -/
lemma plain?_eq_int (h : a.plain? = some (.int x)) :
    (∃ t : Bool, a = .bool t ∧ x = if t then 1 else 0) ∨ a = .int x := by
  cases a with
  | bool t =>
    cases h
    exact .inl ⟨t, rfl, rfl⟩
  | int n =>
    cases h
    exact .inr rfl
  | _ => cases h

lemma fitsWord_plain (h : ∀ n, a = .int n → FitsWord n) (hx : a.plain? = some (.int x)) :
    FitsWord x := by
  rcases plain?_eq_int hx with ⟨t, rfl, rfl⟩ | rfl
  · cases t <;> decide
  · exact h x rfl

lemma toWord_element (hx : a.plain? = some (.int x)) : a.element.toWord = .ofInt x := by
  rcases plain?_eq_int hx with ⟨t, rfl, rfl⟩ | rfl
  · cases t <;> rfl
  · rfl

lemma toFloat_element (h : ∀ n, a = .int n → FitsWord n) (hx : a.plain? = some (.int x)) :
    a.element.toFloat = ofRatio (x < 0) x.natAbs 1 := by
  rcases plain?_eq_int hx with ⟨t, rfl, rfl⟩ | rfl
  · cases t with
    | false => exact (ofRatio_zero false 1).symm
    | true => rfl
  · change floatOfWord (.ofInt x) = _
    rw [floatOfWord, (h x rfl).toInt_ofInt]

lemma toFloat_plain (h : ∀ n, a = .int n → FitsWord n) (hp : a.plain? = some p) :
    p.toFloat = .ok a.element.toFloat := by
  cases p with
  | int x =>
    have hfinite := nearestBits_ne_infinityBits Nat.one_pos (fitsWord_plain h hp).natAbs_le (by decide)
    rw [toFloat_element h hp, Plain.toFloat, floatOfInt, ofInt?, if_neg hfinite]
  | float x =>
    cases a <;> cases hp
    rfl

lemma ne_zero_of_truth {store : Store} (hx : a.plain? = some (.int x))
    (ht : a.truth store = .ok true) : x ≠ 0 := by
  rcases plain?_eq_int hx with ⟨t, rfl, rfl⟩ | rfl
  · cases ht
    decide
  · simpa [Value.truth] using ht

lemma toFloat_ne_zero {store : Store} (h : ∀ n, a = .int n → FitsWord n) (hp : a.plain? = some p)
    (ht : a.truth store = .ok true) : (a.element.toFloat == 0) = false := by
  cases p with
  | int x =>
    have hx := ne_zero_of_truth hp ht
    rw [toFloat_element h hp]
    exact ofRatio_ne_zero _ (Int.natAbs_pos.2 hx) Nat.one_pos (fitsWord_plain h hp).natAbs_le
      (by decide)
  | float x =>
    cases a <;> cases hp
    have hx : (x == 0) = false := by simpa [Value.truth, bne] using ht
    exact hx

/-- Arithmetic with a float is arithmetic on the nearest floats. -/
lemma onPlain_floats (h : f.InRange a b) (hp : a.plain? = some p) (hq : b.plain? = some q)
    (hfloat : ∀ m n, ¬(p = .int m ∧ q = .int n)) :
    f.onPlain p q = .ok (.float (f.onFloats a.element.toFloat b.element.toFloat)) := by
  rw [f.onPlain_of_float hfloat, toFloat_plain h.left hp, toFloat_plain h.right hq]
  refine if_neg ?_
  rintro ⟨hdiv, hzero⟩
  rw [toFloat_ne_zero h.right hq (h.divisor hdiv #[])] at hzero
  cases hzero

/-- A quotient of integers is the nearest float. -/
lemma divide_ints (h : Arith.divide.InRange a b) (hx : a.plain? = some (.int x))
    (hy : b.plain? = some (.int y)) : Arith.divide.onPlain (.int x) (.int y) =
      .ok (.float (ofRatio (decide (x < 0) != decide (y < 0)) x.natAbs y.natAbs)) := by
  have hzero : y ≠ 0 := ne_zero_of_truth hy (h.divisor rfl #[])
  have hfinite := nearestBits_ne_infinityBits (Int.natAbs_pos.2 hzero)
    (fitsWord_plain h.left hx).natAbs_le (fitsWord_plain h.right hy).natAbs_le
  simp only [Arith.onPlain, Arith.onPlainInts, if_pos, if_neg hzero, divInt?, if_neg hfinite]

lemma toInt_onWords (hf : f ≠ .divide) (h : FitsWord (f.onInts x y)) :
    (f.onWords (.ofInt x) (.ofInt y)).toInt = f.onInts x y := by
  have hword : f.onWords (.ofInt x) (.ofInt y) = .ofInt (f.onInts x y) := by
    cases f with
    | add => exact (Int64.ofInt_add x y).symm
    | subtract => exact (Int64.ofInt_sub x y).symm
    | multiply => exact (Int64.ofInt_mul x y).symm
    | divide => exact absurd rfl hf
  rw [hword, h.toInt_ofInt]

lemma onPlain_ok (h : f.InRange a b) (hp : a.plain? = some p) (hq : b.plain? = some q) :
    ∃ v, f.onPlain p q = .ok v := by
  by_cases hints : ∃ m n, p = .int m ∧ q = .int n
  · obtain ⟨m, n, rfl, rfl⟩ := hints
    by_cases hf : f = .divide
    · subst hf
      exact ⟨_, divide_ints h hp hq⟩
    · exact ⟨.int (f.onInts m n), if_neg hf⟩
  · simp only [not_exists] at hints
    exact ⟨_, onPlain_floats h hp hq hints⟩

/-- Numbers and the same numbers as elements have the same results. -/
lemma onPlain_eq_onElements (h : f.InRange a b) (hx : f.Exact a b) (ha : a.baseType? = some A)
    (hb : b.baseType? = some B) (hA : A ≠ .text) (hB : B ≠ .text) (hp : a.plain? = some p)
    (hq : b.plain? = some q) :
    f.onPlain p q = .ok (f.onElements (if f = .divide ∨ A = .float ∨ B = .float then .float
      else .int) a.element b.element).plain := by
  by_cases hints : ∃ m n, p = .int m ∧ q = .int n
  · obtain ⟨m, n, rfl, rfl⟩ := hints
    have hAf : A ≠ .float := by
      rintro rfl
      cases a <;> cases ha
      cases hp
    have hBf : B ≠ .float := by
      rintro rfl
      cases b <;> cases hb
      cases hq
    by_cases hf : f = .divide
    · subst hf
      obtain ⟨hm, hn⟩ := hx.quotient rfl m n hp hq
      rw [divide_ints h hp hq, if_pos (.inl rfl)]
      simp only [Arith.onElements, Elem.plain, Arith.onFloats, toFloat_element h.left hp,
        toFloat_element h.right hq]
      rw [div_ofRatio hm hn (fitsWord_plain h.left hp).natAbs_le
        (fitsWord_plain h.right hq).natAbs_le (ne_zero_of_truth hq (h.divisor rfl #[]))]
    · rw [if_neg (by simp [hf, hAf, hBf])]
      simp only [Arith.onElements, Elem.plain, toWord_element hp, toWord_element hq,
        toInt_onWords hf (h.result hf m n hp hq)]
      exact if_neg hf
  · simp only [not_exists] at hints
    have hfloat : A = .float ∨ B = .float := by
      rcases Value.plain?_of_baseType? ha hA with ⟨hAf, -⟩ | ⟨-, m, hm⟩
      · exact .inl hAf
      rcases Value.plain?_of_baseType? hb hB with ⟨hBf, -⟩ | ⟨-, n, hn⟩
      · exact .inr hBf
      · exact absurd ⟨Option.some.inj (hp.symm.trans hm), Option.some.inj (hq.symm.trans hn)⟩
          (hints m n)
    rw [onPlain_floats h hp hq hints, if_pos (.inr hfloat)]
    rfl

/-! ## Texts -/

lemma FitsWord.natAbs_lt_digitLimit (h : FitsWord x) : x.natAbs < Value.digitLimit := by
  have hdigits : 19 ≤ Token.maxDigits := by decide
  unfold Value.digitLimit
  -- the limit itself is too large to be computed
  generalize Token.maxDigits = k at hdigits ⊢
  calc
    x.natAbs ≤ 2 ^ 63 := h.natAbs_le
    _ < 10 ^ 19 := by decide
    _ ≤ Nat.pow 10 k := Nat.pow_le_pow_right (by decide) hdigits

lemma display_ok (store : Store) (ha : a.baseType? = some A) (h : ∀ n, a = .int n → FitsWord n) :
    ∃ s, a.display store = .ok s := by
  cases a with
  | int n =>
    rw [Value.display, Value.intText, if_neg (h n rfl).natAbs_lt_digitLimit.not_ge]
    exact ⟨_, rfl⟩
  | bool _ | float _ | text _ => exact ⟨_, rfl⟩
  | _ => cases ha

lemma cellText_eq_self {s : String} (h : s.toList.getLast? ≠ some '\x00') : cellText s = s := by
  have hkept : s.toList.reverse.dropWhile (· = '\x00') = s.toList.reverse := by
    rw [List.getLast?_eq_head?_reverse] at h
    cases hr : s.toList.reverse with
    | nil => rfl
    | cons c cs =>
      rw [hr] at h
      exact List.dropWhile_cons_of_neg (by simpa using h)
  rw [cellText, hkept, List.reverse_reverse, String.ofList_toList]

/-- Plain scalars that the table admits have a result. -/
lemma arith_ok {op : ScalarOperator} (store : Store) (hf : op.arith? = some f) (h : f.InRange a b)
    (ha : a.baseType? = some A) (hb : b.baseType? = some B) (hR : op.binary? A B = some R) :
    ∃ v, a.arith store f b = .ok v ∧ v.baseType? = some R := by
  have hv : ∃ v, a.arith store f b = .ok v := by
    rcases binary?_eq_some hR with ⟨ht, rfl, rfl⟩ | ⟨hA, hB⟩
    · cases hf
      have htext : a.text?.isSome ∨ b.text?.isSome := by
        rcases ht with rfl | rfl
        · exact .inl (text?_isSome ha)
        · exact .inr (text?_isSome hb)
      obtain ⟨s, hs⟩ := display_ok store ha h.left
      obtain ⟨t, ht⟩ := display_ok store hb h.right
      unfold Value.arith
      rw [if_pos ⟨rfl, htext⟩, hs, ht]
      exact ⟨.text (s ++ t), rfl⟩
    · obtain ⟨p, hp⟩ := a.exists_plain? ha hA
      obtain ⟨q, hq⟩ := b.exists_plain? hb hB
      rw [arith_of_plain f hp hq]
      exact onPlain_ok h hp hq
  obtain ⟨v, hv⟩ := hv
  have hgives : Gives (a.arith store f b) ⟨some R, []⟩ := gives_arith hf ha hb hR
  rw [hv] at hgives
  obtain ⟨C, hC, hty, -⟩ := Value.scalarType?_eq_some hgives
  cases hty
  exact ⟨v, hv, hC⟩

/-- Plain scalars that arrays keep have the same result with a dot. -/
lemma arith_eq_onElements {op : ScalarOperator} (store : Store) (hf : op.arith? = some f)
    (h : f.InRange a b) (hx : f.Exact a b) {j k : Kind} (ha : a.baseType? = some j.base)
    (hb : b.baseType? = some k.base) (hR : op.binary? j.base k.base = some R)
    (hfollows : f.FollowsTable j.base k.base) :
    ∃ kind, f.resultKind j k = .ok kind ∧
      a.arith store f b = .ok (f.onElements kind a.element b.element).plain := by
  by_cases hj : j.base = .text
  · have hk := hfollows.1.1 hj
    obtain ⟨-, rfl, -⟩ | ⟨hj', -⟩ := binary?_eq_some hR
    · cases hf
      rw [hj] at ha
      rw [hk] at hb
      cases a <;> cases ha
      cases b <;> cases hb
      next s t =>
        cases j <;> cases hj
        cases k <;> cases hk
        refine ⟨_, rfl, ?_⟩
        simp only [Value.element, cellText_eq_self (hx.texts s (.inl rfl)),
          cellText_eq_self (hx.texts t (.inr rfl))]
        rfl
    · exact absurd hj hj'
  · have hk : k.base ≠ .text := fun hk => hj (hfollows.1.2 hk)
    obtain ⟨p, hp⟩ := a.exists_plain? ha hj
    obtain ⟨q, hq⟩ := b.exists_plain? hb hk
    refine ⟨_, resultKind_numbers hfollows hj, ?_⟩
    rw [arith_of_plain f hp hq]
    exact onPlain_eq_onElements h hx ha hb hj hk hp hq

lemma eval_operator {span : Span} {symbol : String} {es : List Expr} {vs : List Value}
    {m m' : Machine} (h : Expr.evalAll es m = .ok vs m') :
    (Expr.operator span symbol es).eval m = apply symbol vs m' := by
  rw [Expr.eval]
  change EStateM.bind (Expr.evalAll es) (apply symbol) m = _
  rw [EStateM.bind, h]

lemma apply_arith (f : Arith) (m : Machine) :
    apply f.symbol [a, b] m = ofStore (fun store => a.arith store f b) m := by
  have hname : Operation.ofName? f.symbol = some (.arith f) := by cases f <;> decide
  rw [apply_eq_perform hname]
  rfl

lemma apply_dotted (f : Arith) (m : Machine) :
    apply ("." ++ f.symbol) [a, b] m = ofStore (fun store => a.elementArith store f b) m := by
  have hname : Operation.ofName? ("." ++ f.symbol) = some (.dotted f) := by cases f <;> decide
  rw [apply_eq_perform hname]
  rfl

end

/-! ## Both operators -/

/-- Take two scalars of 64 bits that the table of an operator admits. The operator gives a value of
the type in the table. With a dot it does so exactly if arrays follow the table for these base types,
and if arrays keep the operands, that is the same value. -/
theorem Expr.dotted_extends_plain {op : ScalarOperator} {f : Arith} (hf : op.arith? = some f)
    {a b : Value} {A B R : BaseType} (ha : a.baseType? = some A) (hb : b.baseType? = some B)
    (hR : op.binary? A B = some R) (h : f.InRange a b) {d e : Expr} {m m' : Machine}
    (he : Expr.evalAll [d, e] m = .ok [a, b] m') (span : Span) :
    ∃ v, (Expr.operator span f.symbol [d, e]).eval m = .ok v m' ∧ v.baseType? = some R ∧
      ((∃ x, (Expr.operator span ("." ++ f.symbol) [d, e]).eval m = .ok (.elem x) m' ∧
        x.base = R) ↔ f.FollowsTable A B) ∧
      (f.FollowsTable A B → f.Exact a b → ∃ x,
        (Expr.operator span ("." ++ f.symbol) [d, e]).eval m = .ok (.elem x) m' ∧ x.plain = v) := by
  obtain ⟨v, hv, hvR⟩ := arith_ok m'.store hf h ha hb hR
  obtain ⟨j, k, rfl, rfl, hdot⟩ := elementArith_plain m'.store h ha hb
  -- with a dot the result is the element of the kind that the two kinds give, if there is one
  have heval : (Expr.operator span ("." ++ f.symbol) [d, e]).eval m =
      ofStore (fun _ => (f.resultKind j k).map fun kind =>
        .elem (f.onElements kind a.element b.element)) m' := by
    rw [eval_operator he, apply_dotted, ofStore, ofStore, hdot]
  refine ⟨v, ?_, hvR, ?_, fun hfollows hexact => ?_⟩
  · rw [eval_operator he, apply_arith, ofStore, hv]
  · rw [heval, ← resultKind_base_iff hf hR, ofStore]
    cases hkind : f.resultKind j k with
    | error e =>
      constructor
      · rintro ⟨x, hx, -⟩
        cases hx
      · rintro ⟨kind, hok, -⟩
        cases hok
    | ok kind =>
      constructor
      · rintro ⟨x, hx, hbase⟩
        cases hx
        exact ⟨kind, rfl, (f.base_onElements kind _ _).symm.trans hbase⟩
      · rintro ⟨kind', hok, hbase⟩
        cases hok
        exact ⟨_, rfl, (f.base_onElements kind _ _).trans hbase⟩
  · obtain ⟨kind, hkind, hplain⟩ := arith_eq_onElements m'.store hf h hexact ha hb hR hfollows
    rw [heval, ofStore, hkind]
    cases hv.symm.trans hplain
    exact ⟨_, rfl, rfl⟩

/-- An operator between two constants. -/
def Expr.onConstants (symbol : String) (a b : Constant) : Expr :=
  .operator ⟨1, 1⟩ symbol [.constant ⟨1, 1⟩ a, .constant ⟨1, 1⟩ b]

theorem dotted_seven_halves :
    Arith.divide.InRange (.int 7) (.int 2) ∧ Arith.divide.Exact (.int 7) (.int 2) ∧
      ∃ v x, (Expr.onConstants "/" (.int 7) (.int 2)).eval {} = .ok v {} ∧
        v.baseType? = some .float ∧
        (Expr.onConstants "./" (.int 7) (.int 2)).eval {} = .ok (.elem x) {} ∧ x.plain = v := by
  have hrange : Arith.divide.InRange (.int 7) (.int 2) :=
    ⟨by rintro n ⟨⟩; decide, by rintro n ⟨⟩; decide, fun h => absurd rfl h, fun _ _ => rfl⟩
  have hexact : Arith.divide.Exact (.int 7) (.int 2) := by
    constructor
    · rintro s (h | h) <;> cases h
    · rintro - x y ⟨⟩ ⟨⟩
      exact ⟨⟨7, 0, by decide⟩, ⟨2, 0, by decide⟩⟩
  have hop : ScalarOperator.divide.arith? = some .divide := rfl
  have heval : Expr.evalAll [.constant ⟨1, 1⟩ (.int 7), .constant ⟨1, 1⟩ (.int 2)] {} =
    .ok [.int 7, .int 2] {} := rfl
  obtain ⟨v, hv, hbase, -, hsame⟩ :=
    Expr.dotted_extends_plain hop rfl rfl rfl hrange heval ⟨1, 1⟩
  obtain ⟨x, hx, hplain⟩ := hsame (by simp [Arith.FollowsTable]) hexact
  exact ⟨hrange, hexact, v, x, hv, hbase, hx, hplain⟩

/-- Pairs that the tables admit: a text is not joined with a truth value, the sum of two truths is a
truth, a quotient of integers that are no floats is rounded more than once, and a null character at
the end of a text is lost. -/
theorem dotted_differs :
    (ScalarOperator.add.binary? .text .bool = some .text ∧
      (Expr.onConstants "+" (.text "a") (.bool true)).eval {} = .ok (.text "aTrue") {} ∧
      (Expr.onConstants ".+" (.text "a") (.bool true)).eval {} =
        .error (.failed (.noLoop "add" "<U1" "bool")) {}) ∧
    (ScalarOperator.add.binary? .bool .bool = some .int ∧
      (Expr.onConstants "+" (.bool true) (.bool true)).eval {} = .ok (.int 2) {} ∧
      (Expr.onConstants ".+" (.bool true) (.bool true)).eval {} = .ok (.elem (.bool true)) {}) ∧
    (∃ x y, (Expr.onConstants "/" (.int 9007199254740993) (.int 3)).eval {} = .ok (.float x) {} ∧
      (Expr.onConstants "./" (.int 9007199254740993) (.int 3)).eval {} =
        .ok (.elem (.float y)) {} ∧ (x == y) = false) ∧
    (Expr.onConstants "+" (.text "a\x00") (.text "b")).eval {} = .ok (.text "a\x00b") {} ∧
      (Expr.onConstants ".+" (.text "a\x00") (.text "b")).eval {} = .ok (.elem (.text "ab")) {} :=
  ⟨⟨rfl, rfl, rfl⟩, ⟨rfl, rfl, rfl⟩, ⟨_, _, rfl, rfl, by decide +kernel⟩, rfl, rfl⟩

end MatScript
