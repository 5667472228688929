import Mathlib
import MatScript.Proofs.Blind
import MatScript.Typing

/-! Scalar values and the operators on them: an operator that the table of types admits gives a
value of the type in the table, or fails for an arithmetic reason. -/
namespace MatScript

/-- The base type of a plain value. -/
def Value.baseType? : Value → Option BaseType
  | bool _ => some .bool
  | int _ => some .int
  | float _ => some .float
  | text _ => some .text
  | _ => Option.none

/-- The type of a scalar, which is exactly that of its representation. -/
def Value.scalarType? (v : Value) : Option Ty := v.baseType?.map fun b => ⟨some b, []⟩

/-- The errors of arithmetic: a division by zero, a number out of range, or one with too many
digits to be written. -/
def RunError.IsArithmetic (e : RunError) : Prop :=
  e.errorClass = .zeroDivision ∨ e.errorClass = .overflow ∨ e = .tooManyDigitsToWrite

/-- A computation gives a value of the type, or fails for an arithmetic reason. -/
def Gives (r : Except RunError Value) (t : Ty) : Prop :=
  match r with
  | .ok v => v.scalarType? = some t
  | .error e => e.IsArithmetic

/-- A computation fails at most for an arithmetic reason. -/
def Computes {α : Type} (r : Except RunError α) : Prop := ∀ e, r = .error e → e.IsArithmetic

namespace Value

variable {a b : Value} {A B : BaseType} {t u : Ty}

lemma scalarType?_eq_some (h : a.scalarType? = some t) :
    ∃ A, a.baseType? = some A ∧ t = ⟨some A, []⟩ ∧ A ≠ .nothing := by
  cases a <;> cases h <;> exact ⟨_, rfl, rfl, by decide⟩

/-- A scalar that is no text is a plain number, an integer unless it is a float. -/
lemma plain?_of_baseType? (h : a.baseType? = some A) (ht : A ≠ .text) :
    (A = .float ∧ ∃ x, a.plain? = some (.float x)) ∨ (A ≠ .float ∧ ∃ n, a.plain? = some (.int n)) := by
  cases a with
  | bool b => cases h; exact .inr ⟨by decide, _, rfl⟩
  | int n => cases h; exact .inr ⟨by decide, _, rfl⟩
  | float x => cases h; exact .inl ⟨rfl, _, rfl⟩
  | text s => cases h; exact absurd rfl ht
  | _ => cases h

lemma exists_plain? (a : Value) (h : a.baseType? = some A) (ht : A ≠ .text) :
    ∃ x, a.plain? = some x := by
  rcases plain?_of_baseType? h ht with ⟨-, x, hx⟩ | ⟨-, n, hx⟩
  · exact ⟨_, hx⟩
  · exact ⟨_, hx⟩

lemma computes_display (h : a.baseType? = some A) (store : Store) : Computes (a.display store) := by
  cases a with
  | int n =>
    intro e he
    rw [display, intText] at he
    split at he
    · cases he
      exact .inr (.inr rfl)
    · cases he
  | bool _ | float _ | text _ => intro e he; cases he
  | _ => cases h

end Value

section

variable {a b : Value} {A B R : BaseType} {x y : Plain} {store : Store}

lemma computes_toFloat (x : Plain) : Computes x.toFloat := by
  intro e he
  cases x with
  | int n =>
    rw [Plain.toFloat, floatOfInt] at he
    split at he
    · cases he
    · cases he
      exact .inr (.inl rfl)
  | float x => cases he

/-- Arithmetic on integers gives an integer, a quotient apart. -/
lemma gives_onPlainInts (op : Arith) (m n : Int) :
    Gives (op.onPlainInts m n) (if op = .divide then .float else .int) := by
  unfold Arith.onPlainInts
  by_cases hop : op = .divide
  · rw [if_pos hop, if_pos hop]
    split
    · exact .inl rfl
    · split
      · rfl
      · exact .inr (.inl rfl)
  · rw [if_neg hop, if_neg hop]
    rfl

lemma Arith.onPlain_of_float (op : Arith) (h : ∀ m n, ¬(x = .int m ∧ y = .int n)) :
    op.onPlain x y = (do
      let x ← x.toFloat
      let y ← y.toFloat
      if op = .divide ∧ y == 0 then .error .floatDivisionByZero
      else .ok (.float (op.onFloats x y))) := by
  unfold Arith.onPlain
  split
  · next m n => exact absurd ⟨rfl, rfl⟩ (h m n)
  · rfl

lemma gives_float_onPlain (op : Arith) (h : ∀ m n, ¬(x = .int m ∧ y = .int n)) :
    Gives (op.onPlain x y) .float := by
  rw [op.onPlain_of_float h]
  cases hx : x.toFloat with
  | error e => exact computes_toFloat x e hx
  | ok x' =>
    cases hy : y.toFloat with
    | error e => exact computes_toFloat y e hy
    | ok y' =>
      change Gives (if op = .divide ∧ y' == 0 then .error .floatDivisionByZero
        else .ok (.float (op.onFloats x' y'))) .float
      split
      · exact .inl rfl
      · rfl

lemma arith_of_plain (op : Arith) (ha : a.plain? = some x) (hb : b.plain? = some y) :
    a.arith store op b = op.onPlain x y := by
  cases a <;> cases ha <;> cases b <;> cases hb <;>
    simp [Value.arith, Value.text?, Value.isElementwise, Value.plain?]

lemma text?_isSome (h : a.baseType? = some .text) : a.text?.isSome = true := by
  cases a <;> cases h
  rfl

/-- A sum with a text joins the texts of both. -/
lemma gives_join (ha : a.baseType? = some A) (hb : b.baseType? = some B)
    (ht : A = .text ∨ B = .text) : Gives (a.arith store .add b) .text := by
  have htext : a.text?.isSome ∨ b.text?.isSome := by
    rcases ht with rfl | rfl
    · exact .inl (text?_isSome ha)
    · exact .inr (text?_isSome hb)
  unfold Value.arith
  rw [if_pos ⟨rfl, htext⟩]
  cases hx : a.display store with
  | error e => exact Value.computes_display ha store e hx
  | ok s =>
    cases hy : b.display store with
    | error e => exact Value.computes_display hb store e hy
    | ok s' => rfl

/-- The arithmetic that an operator with a table stands for. -/
def ScalarOperator.arith? : ScalarOperator → Option Arith
  | add => some .add
  | subtract => some .subtract
  | multiply => some .multiply
  | divide => some .divide
  | negate | order => none

lemma binary?_eq_some {op : ScalarOperator} (h : op.binary? A B = some R) :
    (A = .text ∨ B = .text) ∧ op = .add ∧ R = .text ∨ A ≠ .text ∧ B ≠ .text := by
  unfold ScalarOperator.binary? at h
  split at h
  · cases h
  · split at h
    · next ht =>
      split at h
      · next hadd =>
        cases h
        exact .inl ⟨ht, hadd, rfl⟩
      · cases h
    · next ht => exact .inr ⟨fun hA => ht (.inl hA), fun hB => ht (.inr hB)⟩

/-- The result of arithmetic on numbers is a float if an operand is one or if it is a quotient. -/
lemma binary?_numbers {op : ScalarOperator} {f : Arith} (hf : op.arith? = some f) (hA : A ≠ .text)
    (hB : B ≠ .text) (hr : op.binary? A B = some R) :
    R = if f = .divide ∨ A = .float ∨ B = .float then .float else .int := by
  cases op <;> cases hf <;> cases A <;> cases B <;> cases hr <;> first | rfl | contradiction

lemma gives_arith {op : ScalarOperator} {f : Arith} (hf : op.arith? = some f)
    (ha : a.baseType? = some A) (hb : b.baseType? = some B) (hr : op.binary? A B = some R) :
    Gives (a.arith store f b) ⟨some R, []⟩ := by
  rcases binary?_eq_some hr with ⟨ht, rfl, rfl⟩ | ⟨hA, hB⟩
  · cases hf
    exact gives_join ha hb ht
  · rw [binary?_numbers hf hA hB hr]
    rcases Value.plain?_of_baseType? ha hA with ⟨hAf, x, hx⟩ | ⟨hAf, m, hx⟩
    · obtain ⟨y, hy⟩ := b.exists_plain? hb hB
      rw [arith_of_plain f hx hy, if_pos (.inr (.inl hAf))]
      exact gives_float_onPlain f fun m n h => nomatch h.1
    · rcases Value.plain?_of_baseType? hb hB with ⟨hBf, y, hy⟩ | ⟨hBf, n, hy⟩
      · rw [arith_of_plain f hx hy, if_pos (.inr (.inr hBf))]
        exact gives_float_onPlain f fun m n h => nomatch h.2
      · rw [arith_of_plain f hx hy]
        have hints := gives_onPlainInts f m n
        by_cases hdiv : f = .divide
        · rw [if_pos hdiv] at hints
          rw [if_pos (.inl hdiv)]
          exact hints
        · rw [if_neg hdiv] at hints
          rw [if_neg (by simp [hdiv, hAf, hBf])]
          exact hints

/-- Numbers have an order. -/
lemma gives_compare (c : Comparison) (ha : a.plain? = some x) (hb : b.plain? = some y) :
    Gives (a.compare store c b) .bool := by
  cases a <;> cases ha <;> cases b <;> cases hb <;> rfl

lemma gives_order (c : Comparison) (ha : a.baseType? = some A) (hb : b.baseType? = some B)
    (hr : ScalarOperator.order.binary? A B = some R) :
    Gives (a.compare store c b) ⟨some R, []⟩ := by
  rcases binary?_eq_some hr with ⟨-, hop, -⟩ | ⟨hA, hB⟩
  · cases hop
  · have hbool : R = .bool := by cases A <;> cases B <;> cases hr <;> rfl
    rw [hbool]
    obtain ⟨x, hx⟩ := a.exists_plain? ha hA
    obtain ⟨y, hy⟩ := b.exists_plain? hb hB
    exact gives_compare c hx hy

/-- Any two scalars can be compared for equality. -/
lemma gives_equality {c : Comparison} (hc : c.isEquality = true) (ha : a.baseType? = some A)
    (hb : b.baseType? = some B) : Gives (a.compare store c b) .bool := by
  cases a <;> cases ha <;> cases b <;> cases hb <;>
    simp [Value.compare, Value.text?, Value.plain?, Value.isElementwise, hc, Gives,
      Value.scalarType?, Value.baseType?, Ty.bool]

lemma gives_negate (ha : a.baseType? = some A) (hr : ScalarOperator.negate.unary? A = some R) :
    Gives (a.negate store) ⟨some R, []⟩ := by
  cases a <;> cases ha <;> cases hr <;> rfl

/-- A value of each of the types, in order. -/
def Fit (vs : List Value) (ts : List Ty) : Prop :=
  List.Forall₂ (fun v t => v.scalarType? = some t) vs ts

/-- The operation of an operator with a table. -/
lemma operation_of_symbol {symbol : String} {op : ScalarOperator}
    (h : ScalarOperator.ofSymbol? symbol = some op) :
    op = .negate ∧ Operation.ofName? symbol = some .negate ∨
      (∃ f, op.arith? = some f ∧ Operation.ofName? symbol = some (.arith f)) ∨
      op = .order ∧ ∃ c, Operation.ofName? symbol = some (.compare c) := by
  unfold ScalarOperator.ofSymbol? at h
  split at h
  · next hs => subst hs; cases h; exact .inl ⟨rfl, by decide⟩
  split at h
  · next hs => subst hs; cases h; exact .inr (.inl ⟨.add, rfl, by decide⟩)
  split at h
  · next hs => subst hs; cases h; exact .inr (.inl ⟨.subtract, rfl, by decide⟩)
  split at h
  · next hs => subst hs; cases h; exact .inr (.inl ⟨.multiply, rfl, by decide⟩)
  split at h
  · next hs => subst hs; cases h; exact .inr (.inl ⟨.divide, rfl, by decide⟩)
  split at h
  · next hs =>
    cases h
    rcases hs with rfl | rfl | rfl | rfl
    · exact .inr (.inr ⟨rfl, .greater, by decide⟩)
    · exact .inr (.inr ⟨rfl, .less, by decide⟩)
    · exact .inr (.inr ⟨rfl, .greaterEqual, by decide⟩)
    · exact .inr (.inr ⟨rfl, .lessEqual, by decide⟩)
  · cases h

/-- What the table gives for two operands, and for one. -/
lemma result?_eq_some {op : ScalarOperator} {vs : List Value} {ts : List Ty} {t : Ty}
    (hfit : Fit vs ts) (h : op.result? ts = some t) :
    (∃ a A R, vs = [a] ∧ a.baseType? = some A ∧ op.unary? A = some R ∧ t = ⟨some R, []⟩) ∨
      ∃ a b A B R, vs = [a, b] ∧ a.baseType? = some A ∧ b.baseType? = some B ∧
        op.binary? A B = some R ∧ t = ⟨some R, []⟩ := by
  unfold ScalarOperator.result? at h
  split at h
  · next A =>
    obtain ⟨R, hR, rfl⟩ := Option.map_eq_some_iff.1 h
    obtain ⟨a, rest, ha, hrest, rfl⟩ := List.forall₂_cons_right_iff.1 hfit
    obtain rfl := List.forall₂_nil_right_iff.1 hrest
    obtain ⟨A', hA', hty, -⟩ := Value.scalarType?_eq_some ha
    cases hty
    exact .inl ⟨a, A, R, rfl, hA', hR, rfl⟩
  · next A B =>
    obtain ⟨R, hR, rfl⟩ := Option.map_eq_some_iff.1 h
    obtain ⟨a, rest, ha, hrest, rfl⟩ := List.forall₂_cons_right_iff.1 hfit
    obtain ⟨b, rest', hb, hrest', rfl⟩ := List.forall₂_cons_right_iff.1 hrest
    obtain rfl := List.forall₂_nil_right_iff.1 hrest'
    obtain ⟨A', hA', hty, -⟩ := Value.scalarType?_eq_some ha
    obtain ⟨B', hB', hty', -⟩ := Value.scalarType?_eq_some hb
    cases hty
    cases hty'
    exact .inr ⟨a, b, A, B, R, rfl, hA', hB', hR, rfl⟩
  · cases h

end

namespace Run

/-- The machine is as before, and the reason is arithmetic. -/
def FailedOn (m : Machine) (stop : Stop) (m' : Machine) : Prop :=
  m' = m ∧ ∃ e, stop = .failed e ∧ e.IsArithmetic

/-- The machine is as before, and the value has the type. -/
def ValueOn (m : Machine) (t : Ty) (v : Value) (m' : Machine) : Prop :=
  m' = m ∧ v.scalarType? = some t

variable {m : Machine} {vs : List Value} {ts : List Ty} {t : Ty} {symbol : String}

lemma ends_ofStore {f : Store → Except RunError Value} (h : Gives (f m.store) t) :
    Ends (ofStore f m) (ValueOn m t) (FailedOn m) := by
  unfold ofStore
  cases hf : f m.store with
  | ok v =>
    rw [hf] at h
    exact ⟨rfl, h⟩
  | error e =>
    rw [hf] at h
    exact ⟨rfl, e, rfl, h⟩

lemma apply_eq_perform {op : Operation} (h : Operation.ofName? symbol = some op) :
    apply symbol vs = perform op vs := by
  rw [apply, h]

/-- An operator that its table admits for the types of the operands gives a value of the type in the
table. -/
lemma ends_apply {op : ScalarOperator} (hop : ScalarOperator.ofSymbol? symbol = some op)
    (hr : op.result? ts = some t) (hfit : Fit vs ts) :
    Ends (apply symbol vs m) (ValueOn m t) (FailedOn m) := by
  rcases operation_of_symbol hop with ⟨rfl, hname⟩ | ⟨f, hf, hname⟩ | ⟨rfl, c, hname⟩ <;>
    rcases result?_eq_some hfit hr with ⟨a, A, R, rfl, ha, hR, rfl⟩ |
      ⟨a, b, A, B, R, rfl, ha, hb, hR, rfl⟩ <;> rw [apply_eq_perform hname]
  · exact ends_ofStore (f := fun store => Operation.negate.compute store [a]) (gives_negate ha hR)
  · cases A <;> cases B <;> cases hR
  · cases op <;> cases hf <;> cases A <;> cases hR
  · exact ends_ofStore (f := fun store => (Operation.arith f).compute store [a, b])
      (gives_arith hf ha hb hR)
  · cases A <;> cases hR
  · exact ends_ofStore (f := fun store => (Operation.compare c).compute store [a, b])
      (gives_order c ha hb hR)

/-- The comparisons for equality are not in the table. -/
lemma ends_equality (hs : symbol = "==" ∨ symbol = "!=") {a b : Value} {u : Ty}
    (ha : a.scalarType? = some t) (hb : b.scalarType? = some u) :
    Ends (apply symbol [a, b] m) (ValueOn m .bool) (FailedOn m) := by
  obtain ⟨A, hA, -, -⟩ := Value.scalarType?_eq_some ha
  obtain ⟨B, hB, -, -⟩ := Value.scalarType?_eq_some hb
  obtain ⟨c, hc, hname⟩ :
      ∃ c, Comparison.isEquality c = true ∧ Operation.ofName? symbol = some (.compare c) := by
    rcases hs with rfl | rfl
    · exact ⟨.equal, rfl, by decide⟩
    · exact ⟨.unequal, rfl, by decide⟩
  rw [apply_eq_perform hname]
  exact ends_ofStore (f := fun store => (Operation.compare c).compute store [a, b])
    (gives_equality hc hA hB)

/-- The text of a scalar can be written, unless a number has too many digits. -/
lemma computes_display_of_fit (hfit : Fit vs ts) {v : Value} (hv : v ∈ vs) :
    Computes (v.display m.store) := by
  induction hfit with
  | nil => cases hv
  | cons hw hrest ih =>
    rcases List.mem_cons.1 hv with rfl | hv
    · obtain ⟨A, hA, -, -⟩ := Value.scalarType?_eq_some hw
      exact Value.computes_display hA m.store
    · exact ih hv

end Run

end MatScript
