import MatScript.Proofs.ControlFlow
import MatScript.Proofs.Reporting

/-! Operator-assignment. The statement `target op= value` is checked and run by rules of its own. It
is accepted where `target = target op value` is, with the same table after it, and it changes memory
in the same way, although the two evaluate their parts in a different order. -/
namespace MatScript

open Typing Run

/-- The statement `target op= value`. -/
def Stmt.short (span : Span) (op : Arith) (target value : Expr) : Stmt :=
  .update span (op.symbol ++ "=") target value

/-- The statement `target = target op value`. -/
def Stmt.long (span opSpan : Span) (op : Arith) (target value : Expr) : Stmt :=
  .assign span target (.operator opSpan op.symbol [target, value])

/-- The check and the machine find one operator by the symbol and by the sign of the assignment. -/
lemma Arith.exists_operator (op : Arith) :
    ∃ rule : ScalarOperator, ScalarOperator.ofSymbol? op.symbol = some rule ∧
      ScalarOperator.ofSymbol? ((op.symbol ++ "=").dropEnd 1).toString = some rule := by
  cases op with
  | add => exact ⟨.add, by decide, by cbv⟩
  | subtract => exact ⟨.subtract, by decide, by cbv⟩
  | multiply => exact ⟨.multiply, by decide, by cbv⟩
  | divide => exact ⟨.divide, by decide, by cbv⟩

lemma Arith.ofName?_symbol (op : Arith) : Operation.ofName? op.symbol = some (.arith op) := by
  cases op <;> decide

lemma Arith.take_symbol (op : Arith) : ((op.symbol ++ "=").take 1).toString = op.symbol := by
  cases op <;> cbv

lemma then_pure_eq_ok {ε σ α : Type} {c : EStateM ε σ Unit} {a b : α} {st st' : σ} :
    (c >>= fun _ => pure a) st = .ok b st' ↔ c st = .ok () st' ∧ b = a := by
  rw [bind_eq_ok]
  constructor
  · rintro ⟨_, st₁, hc, hp⟩
    cases hp
    exact ⟨hc, rfl⟩
  · rintro ⟨hc, rfl⟩
    exact ⟨(), st', hc, rfl⟩

/-! ## Checks -/

namespace Typing

variable {st st' : State}

/-- An operation on two operands is accepted if both are and the operator has a result for them. -/
lemma check_operation {span : Span} {op : Arith} {rule : ScalarOperator} {a b : Expr} {r : Ty}
    (hrule : ScalarOperator.ofSymbol? op.symbol = some rule) :
    (Expr.operator span op.symbol [a, b]).check .raising st = .ok r st ↔
      ∃ t u, a.check .raising st = .ok t st ∧ b.check .raising st = .ok u st ∧
        rule.result? [t, u] = some r := by
  have hresult : ∀ ts, operatorType .raising span op.symbol ts st = .ok r st ↔
      rule.result? ts = some r := by
    intro ts
    unfold operatorType
    rw [hrule]
    dsimp only
    cases rule.result? ts with
    | none => simp [reject_raising]
    | some u => simp
  simp only [Expr.check, Expr.checkAll, bind_assoc, pure_bind, bind_check_eq_ok, hresult]
  constructor
  · rintro ⟨t, ht, u, hu, hr⟩
    exact ⟨t, u, ht, hu, hr⟩
  · rintro ⟨t, u, ht, hu, hr⟩
    exact ⟨t, ht, u, hu, hr⟩

/-- An operator-assignment is accepted if both sides are, the operator has a result for them, and
the target takes it: a name any, an element one of its own type. -/
lemma checkUpdate_eq_ok {span : Span} {op : Arith} {rule : ScalarOperator} {target value : Expr}
    (hrule : ScalarOperator.ofSymbol? ((op.symbol ++ "=").dropEnd 1).toString = some rule) :
    checkUpdate .raising span (op.symbol ++ "=") target value st = .ok () st' ↔
      ∃ t u r, target.check .raising st = .ok t st ∧ value.check .raising st = .ok u st ∧
        rule.result? [t, u] = some r ∧ st' = st.assign target r ∧
        match target with
        | .element _ _ _ _ _ => r = t
        | _ => True := by
  unfold checkUpdate
  generalize ((op.symbol ++ "=").dropEnd 1).toString = key at hrule ⊢
  simp only [bind_check_eq_ok, hrule]
  constructor
  · rintro ⟨t, ht, u, hu, h⟩
    cases hr : rule.result? [t, u] with
    | none =>
      rw [hr] at h
      cases h
    | some r =>
      rw [hr] at h
      refine ⟨t, u, r, ht, hu, hr, ?_⟩
      cases target with
      | name _ id => exact ⟨setType_eq_ok.mp h, trivial⟩
      | element _ _ _ _ _ => exact (require_raising.mp h).symm
      | _ =>
        cases h
        exact ⟨rfl, trivial⟩
  · rintro ⟨t, u, r, ht, hu, hr, rfl, hsame⟩
    refine ⟨t, ht, u, hu, ?_⟩
    rw [hr]
    cases target with
    | name _ id => exact setType_eq_ok.mpr rfl
    | element _ _ _ _ _ => exact require_raising.mpr ⟨hsame, rfl⟩
    | _ => rfl

end Typing

/-- The two forms are accepted alike, and leave the same types. -/
theorem Stmt.check_short_iff {span span' opSpan : Span} {op : Arith} {target value : Expr}
    (ht : target.IsTarget) {st st' : Typing.State} {t : Ty} :
    (Stmt.short span op target value).check .raising st = .ok t st' ↔
      (Stmt.long span' opSpan op target value).check .raising st = .ok t st' := by
  obtain ⟨rule, hsymbol, hsign⟩ := op.exists_operator
  simp only [Stmt.short, Stmt.long, Stmt.check, then_pure_eq_ok, checkUpdate_eq_ok hsign]
  refine and_congr_left fun _ => ?_
  cases target with
  | name nameSpan id =>
    rw [checkAssign, bind_check_eq_ok]
    simp only [check_operation hsymbol, setType_eq_ok, and_true, State.assign]
    constructor
    · rintro ⟨a, b, r, ha, hb, hr, rfl⟩
      exact ⟨r, ⟨a, b, ha, hb, hr⟩, rfl⟩
    · rintro ⟨r, ⟨a, b, ha, hb, hr⟩, rfl⟩
      exact ⟨a, b, r, ha, hb, hr, rfl⟩
  | element elementSpan id idSpan indices indexSpan =>
    rw [checkAssign]
    simp only [bind_check_eq_ok, check_operation hsymbol, require_raising, State.assign]
    constructor
    · rintro ⟨a, b, r, ha, hb, hr, rfl, rfl⟩
      exact ⟨r, ha, r, ⟨r, b, ha, hb, hr⟩, rfl, rfl⟩
    · rintro ⟨a, ha, r, ⟨a', b, ha', hb, hr⟩, rfl, rfl⟩
      obtain ⟨rfl, -⟩ := EStateM.Result.ok.inj (ha.symm.trans ha')
      exact ⟨r, b, r, ha, hb, hr, rfl, rfl⟩
  | _ => exact ht.elim

/-! ## Runs -/

/-- The machines differ at most in what they have printed. -/
structure Machine.Alike (m n : Machine) : Prop where
  memory : m.memory = n.memory
  store : m.store = n.store

namespace Machine.Alike

variable {m n o : Machine}

lemma refl (m : Machine) : m.Alike m := ⟨rfl, rfl⟩

lemma symm (h : m.Alike n) : n.Alike m := ⟨h.memory.symm, h.store.symm⟩

lemma trans (h : m.Alike n) (h' : n.Alike o) : m.Alike o :=
  ⟨h.memory.trans h'.memory, h.store.trans h'.store⟩

lemma change (h : m.Alike n) (p : Patch) : (m.change p).Alike (n.change p) :=
  ⟨h.memory, congrArg p.apply h.store⟩

end Machine.Alike

namespace Run

variable {α β : Type} {m n : Machine}

/-- The computations that change at most the output, and do not look at it. -/
class OnlyPrints (r : Run α) : Prop where
  alike : ∀ m n : Machine, m.Alike n → EndAlike (r m) (r n)
    (fun _ m' n' => m.Alike m' ∧ m.Alike n') fun _ m' n' => m.Alike m' ∧ m.Alike n'

instance (a : α) : OnlyPrints (pure a) := ⟨fun m _ h => ⟨rfl, .refl m, h⟩⟩

instance (e : Stop) : OnlyPrints (throw e : Run α) := ⟨fun m _ h => ⟨rfl, .refl m, h⟩⟩

instance (e : RunError) : OnlyPrints (fail e : Run α) := inferInstanceAs (OnlyPrints (throw _))

instance {r : Run α} {f : α → Run β} [hr : OnlyPrints r] [hf : ∀ a, OnlyPrints (f a)] :
    OnlyPrints (r >>= f) := by
  refine ⟨fun m n h => (hr.alike m n h).bind fun a m' n' h' => ?_⟩
  have hrest := (hf a).alike m' n' (h'.1.symm.trans h'.2)
  exact hrest.imp (fun _ _ _ h'' => ⟨h'.1.trans h''.1, h'.1.trans h''.2⟩)
    fun _ _ _ h'' => ⟨h'.1.trans h''.1, h'.1.trans h''.2⟩

instance (f : Store → Except RunError α) : OnlyPrints (ofStore f) := by
  refine ⟨fun m n h => ?_⟩
  unfold ofStore
  rw [← h.store]
  cases f m.store with
  | ok a => exact ⟨rfl, .refl m, h⟩
  | error e => exact ⟨rfl, .refl m, h⟩

instance (id : String) : OnlyPrints (lookup id) := by
  refine ⟨fun m n h => ⟨?_, .refl m, h⟩⟩
  simp only [Machine.lookup, h.memory]

instance (vs : List Value) : OnlyPrints (displayAll vs) := inferInstanceAs (OnlyPrints (ofStore _))

instance (vs : List Value) : OnlyPrints (print vs) := by
  refine ⟨fun m n h => ?_⟩
  unfold print
  rw [← h.store]
  obtain ⟨text, failure⟩ := Value.line m.store vs
  cases failure with
  | none => exact ⟨rfl, ⟨rfl, rfl⟩, ⟨h.memory, rfl⟩⟩
  | some e => exact ⟨rfl, ⟨rfl, rfl⟩, ⟨h.memory, rfl⟩⟩

instance (op : Operation) (arguments : List Value) : OnlyPrints (perform op arguments) := by
  unfold perform
  split
  · infer_instance
  · infer_instance
  · split <;> infer_instance
  · infer_instance
  · infer_instance

instance (name : String) (arguments : List Value) : OnlyPrints (apply name arguments) := by
  unfold apply
  split <;> infer_instance

end Run

mutual

/-- Evaluation changes at most the output, and does not look at it. -/
instance Expr.onlyPrints : (e : Expr) → OnlyPrints e.eval
  | .constant _ _ => by
    simp only [Expr.eval]
    infer_instance
  | .vector _ items => by
    simp only [Expr.eval]
    have := Expr.onlyPrints_all items
    infer_instance
  | .range _ start stop => by
    simp only [Expr.eval]
    have := start.onlyPrints
    have := stop.onlyPrints
    infer_instance
  | .operator _ _ operands => by
    simp only [Expr.eval]
    have := Expr.onlyPrints_all operands
    infer_instance
  | .call _ _ arguments => by
    simp only [Expr.eval]
    have := Expr.onlyPrints_all arguments
    infer_instance
  | .name _ id => by
    simp only [Expr.eval]
    infer_instance
  | .element _ _ _ indices _ => by
    simp only [Expr.eval]
    have := Expr.onlyPrints_all indices
    infer_instance
  | .gap _ _ => by
    simp only [Expr.eval]
    infer_instance

instance Expr.onlyPrints_all : (es : List Expr) → OnlyPrints (Expr.evalAll es)
  | [] => by
    simp only [Expr.evalAll]
    infer_instance
  | e :: es => by
    simp only [Expr.evalAll]
    have := e.onlyPrints
    have := Expr.onlyPrints_all es
    infer_instance

end

namespace Run

variable {α β : Type} {m n : Machine}

instance (indices : List Expr) : OnlyPrints (evalIndices indices) := by
  unfold evalIndices
  infer_instance

/-- The result of a computation that ends normally on a machine. -/
def Yields (r : Run α) (m : Machine) (a : α) : Prop := ∃ m', r m = .ok a m'

lemma Yields.unique {r : Run α} {a b : α} (ha : Yields r m a) (hb : Yields r m b) : a = b := by
  obtain ⟨m₁, h₁⟩ := ha
  obtain ⟨m₂, h₂⟩ := hb
  exact (EStateM.Result.ok.inj (h₁.symm.trans h₂)).1

lemma yields_ofStore {f : Store → Except RunError α} {a : α} :
    Yields (ofStore f) m a ↔ f m.store = .ok a := by
  unfold Yields ofStore
  cases f m.store with
  | ok b => simp
  | error e => simp

lemma yields_lookup {id : String} {v : Value} : Yields (lookup id) m v ↔ v = m.lookup id := by
  constructor
  · rintro ⟨m', h⟩
    cases h
    rfl
  · rintro rfl
    exact ⟨m, rfl⟩

/-- A computation that only prints yields the same on machines that differ in the output, and leaves
such a machine. -/
lemma OnlyPrints.ok {r : Run α} (hr : OnlyPrints r) (h : m.Alike n) {a : α} {m' : Machine}
    (hm : r m = .ok a m') : ∃ n', r n = .ok a n' ∧ m.Alike m' ∧ m.Alike n' := by
  have halike := hr.alike m n h
  rw [hm] at halike
  cases hn : r n with
  | ok b n' =>
    rw [hn] at halike
    obtain ⟨rfl, h'⟩ := halike
    exact ⟨n', rfl, h'⟩
  | error e n' =>
    rw [hn] at halike
    exact halike.elim

lemma yields_bind {r : Run α} {f : α → Run β} {b : β} [hr : OnlyPrints r]
    [hf : ∀ a, OnlyPrints (f a)] :
    Yields (r >>= f) m b ↔ ∃ a, Yields r m a ∧ Yields (f a) m b := by
  constructor
  · rintro ⟨m', h⟩
    obtain ⟨a, m₁, h₁, h₂⟩ := bind_eq_ok.mp h
    obtain ⟨-, -, halike, -⟩ := hr.ok (.refl m) h₁
    obtain ⟨m₂, h₃, -⟩ := (hf a).ok halike.symm h₂
    exact ⟨a, ⟨m₁, h₁⟩, m₂, h₃⟩
  · rintro ⟨a, ⟨m₁, h₁⟩, m₂, h₂⟩
    obtain ⟨-, -, halike, -⟩ := hr.ok (.refl m) h₁
    obtain ⟨m₃, h₃, -⟩ := (hf a).ok halike h₂
    exact ⟨m₃, bind_eq_ok.mpr ⟨a, m₁, h₁, h₃⟩⟩

/-- Elements are changed by the patch that was computed, if one was. -/
lemma change_eq_ok {r : Run Patch} [hr : OnlyPrints r] {m' : Machine}
    (h : (r >>= change) m = .ok () m') : ∃ p, Yields r m p ∧ (m.change p).Alike m' := by
  obtain ⟨p, m₁, h₁, h₂⟩ := bind_eq_ok.mp h
  cases h₂
  obtain ⟨-, -, halike, -⟩ := hr.ok (.refl m) h₁
  exact ⟨p, ⟨m₁, h₁⟩, halike.change p⟩

lemma Yields.change {r : Run Patch} {p : Patch} (h : Yields r m p) :
    ∃ m', (r >>= Run.change) m = .ok () m' := by
  obtain ⟨m₁, h₁⟩ := h
  exact ⟨m₁.change p, bind_eq_ok.mpr ⟨p, m₁, h₁, rfl⟩⟩

/-- Two computations of the same patch change memory in the same way, if they change it. -/
lemma alike_of_patches {r r' : Run Patch} [OnlyPrints r] [OnlyPrints r']
    (h : ∀ p, Yields r m p ↔ Yields r' m p) :
    ((∃ m', (r >>= change) m = .ok () m') ↔ ∃ m', (r' >>= change) m = .ok () m') ∧
      ∀ m₁ m₂, (r >>= change) m = .ok () m₁ → (r' >>= change) m = .ok () m₂ → m₁.Alike m₂ := by
  refine ⟨⟨?_, ?_⟩, ?_⟩
  · rintro ⟨m', hm⟩
    obtain ⟨p, hp, -⟩ := change_eq_ok hm
    exact ((h p).mp hp).change
  · rintro ⟨m', hm⟩
    obtain ⟨p, hp, -⟩ := change_eq_ok hm
    exact ((h p).mpr hp).change
  · intro m₁ m₂ h₁ h₂
    obtain ⟨p, hp, halike⟩ := change_eq_ok h₁
    obtain ⟨q, hq, halike'⟩ := change_eq_ok h₂
    obtain rfl := hp.unique ((h q).mpr hq)
    exact halike.symm.trans halike'

/-! Both forms of an assignment to an element compute one patch. -/

/-- The new elements, with the value evaluated first. -/
def shortPatch (op : Arith) (id : String) (indices : List Expr) (value : Expr) : Run Patch := do
  let v ← value.eval
  let array ← lookup id
  let selector ← evalIndices indices
  let old ← ofStore fun store => array.index store selector
  let new ← ofStore fun store => old.arith store op v
  ofStore fun store => array.patch store selector new

/-- The new elements, with the indices evaluated twice: for the target and for the operation. -/
def longPatch (op : Arith) (id : String) (indices : List Expr) (value : Expr) : Run Patch := do
  let array ← lookup id
  let selector ← evalIndices indices
  let operand ← lookup id
  let again ← evalIndices indices
  let old ← ofStore fun store => operand.index store again
  let v ← value.eval
  let new ← ofStore fun store => old.arith store op v
  ofStore fun store => array.patch store selector new

section

variable {op : Arith} {id : String} {indices : List Expr} {value : Expr}

instance : OnlyPrints (shortPatch op id indices value) := by
  unfold shortPatch
  infer_instance

instance : OnlyPrints (longPatch op id indices value) := by
  unfold longPatch
  infer_instance

/-- Neither the order nor the second evaluation of the indices matters to the patch. -/
lemma yields_shortPatch_iff (op : Arith) (id : String) (indices : List Expr) (value : Expr)
    (p : Patch) :
    Yields (shortPatch op id indices value) m p ↔ Yields (longPatch op id indices value) m p := by
  simp only [shortPatch, longPatch, yields_bind, yields_lookup, yields_ofStore, exists_eq_left]
  constructor
  · rintro ⟨v, hv, selector, hselector, old, hold, new, hnew, hp⟩
    exact ⟨selector, hselector, selector, hselector, old, hold, v, hv, new, hnew, hp⟩
  · rintro ⟨selector, hselector, again, hagain, old, hold, v, hv, new, hnew, hp⟩
    obtain rfl := hselector.unique hagain
    exact ⟨v, hv, selector, hselector, old, hold, new, hnew, hp⟩

lemma ofStore_bind {f : Store → Except RunError α} {g : α → Store → Except RunError β} :
    (ofStore f >>= fun a => ofStore (g a)) = ofStore fun store => f store >>= (g · store) := by
  funext m
  cases hf : f m.store with
  | ok a =>
    rw [bind_ok (ofStore_ok hf)]
    simp only [ofStore, hf]
    rfl
  | error e =>
    rw [bind_error (ofStore_error hf)]
    simp only [ofStore, hf]
    rfl

variable {elementSpan idSpan indexSpan opSpan : Span}

lemma eval_element : (Expr.element elementSpan id idSpan indices indexSpan).eval = (do
    let array ← lookup id
    let selector ← evalIndices indices
    ofStore fun store => array.index store selector) := by
  simp only [Expr.eval, evalIndices, bind_assoc, ofStore_bind]

lemma update_short :
    update (op.symbol ++ "=") (.element elementSpan id idSpan indices indexSpan) value =
      shortPatch op id indices value >>= change := by
  rw [update_element value ((congrArg _ op.take_symbol).trans op.ofName?_symbol), shortPatch]
  simp only [bind_assoc]
  rfl

lemma assign_long : assign (.element elementSpan id idSpan indices indexSpan)
    (.operator opSpan op.symbol [.element elementSpan id idSpan indices indexSpan, value]) =
    longPatch op id indices value >>= change := by
  rw [assign_element, longPatch, Expr.eval]
  simp only [Expr.evalAll, eval_element, apply_eq_perform op.ofName?_symbol, bind_assoc, pure_bind]
  rfl

end

/-- A name is bound to the same value by both forms, with the same effects on the way. -/
lemma update_eq_assign (opSpan : Span) {op : Arith} {nameSpan : Span} {id : String} {value : Expr} :
    update (op.symbol ++ "=") (.name nameSpan id) value =
      assign (.name nameSpan id) (.operator opSpan op.symbol [.name nameSpan id, value]) := by
  rw [update_name, op.take_symbol]
  simp only [assign, Expr.eval, Expr.evalAll, bind_assoc, pure_bind]
  funext m
  rw [bind_ok (show lookup id m = .ok (m.lookup id) m from rfl)]
  cases hv : value.eval m with
  | ok v m' =>
    obtain ⟨-, -, halike, -⟩ := value.onlyPrints.ok (.refl m) hv
    have hlookup : lookup id m' = .ok (m.lookup id) m' := by
      simp only [Run.lookup, Machine.lookup, halike.memory]
    rw [bind_ok hv, bind_ok hv, bind_ok hlookup]
  | error stop m' => rw [bind_error hv, bind_error hv]

lemma exists_error_iff {r : Run α} :
    (∃ stop m', r m = .error stop m') ↔ ¬ ∃ a m', r m = .ok a m' := by
  cases r m with
  | ok a m' => simp
  | error stop m' => simp

end Run

/-- For an element the two forms end normally on the same machines, and change memory alike. -/
lemma Stmt.exec_short_element {span span' opSpan elementSpan idSpan indexSpan : Span} {op : Arith}
    {target value : Expr} {id : String} {indices : List Expr}
    (ht : target = .element elementSpan id idSpan indices indexSpan) (fuel : Nat) (m : Machine) :
    ((∃ v m', (Stmt.short span op target value).exec fuel m = .ok v m') ↔
      ∃ v m', (Stmt.long span' opSpan op target value).exec fuel m = .ok v m') ∧
    ∀ v w m₁ m₂, (Stmt.short span op target value).exec fuel m = .ok v m₁ →
      (Stmt.long span' opSpan op target value).exec fuel m = .ok w m₂ → v = w ∧ m₁.Alike m₂ := by
  obtain ⟨hends, halike⟩ := alike_of_patches (m := m) (yields_shortPatch_iff op id indices value)
  subst ht
  simp only [Stmt.short, Stmt.long, Stmt.exec, then_pure_eq_ok, update_short, assign_long]
  refine ⟨?_, ?_⟩
  · simpa using hends
  · rintro v w m₁ m₂ ⟨h₁, rfl⟩ ⟨h₂, rfl⟩
    exact ⟨rfl, halike _ _ h₁ h₂⟩

/-- An operator-assignment means what it abbreviates. The check accepts both forms or none, with the
same types after them. For a name the two runs are the same; for an element both stop with an error
or both end with the same memory. -/
theorem Stmt.short_abbreviates_long (span span' opSpan : Span) (op : Arith) (target value : Expr)
    (ht : target.IsTarget) :
    (∀ st st' t, (Stmt.short span op target value).check .raising st = .ok t st' ↔
      (Stmt.long span' opSpan op target value).check .raising st = .ok t st') ∧
    ∀ fuel m,
      (∀ nameSpan id, target = .name nameSpan id →
        (Stmt.short span op target value).exec fuel m =
          (Stmt.long span' opSpan op target value).exec fuel m) ∧
      ((∃ stop m', (Stmt.short span op target value).exec fuel m = .error stop m') ↔
        ∃ stop m', (Stmt.long span' opSpan op target value).exec fuel m = .error stop m') ∧
      ∀ v w m₁ m₂, (Stmt.short span op target value).exec fuel m = .ok v m₁ →
        (Stmt.long span' opSpan op target value).exec fuel m = .ok w m₂ →
        v = w ∧ m₁.memory = m₂.memory ∧ m₁.store = m₂.store := by
  refine ⟨fun st st' t => check_short_iff ht, fun fuel m => ?_⟩
  cases target with
  | name nameSpan id =>
    have heq : (Stmt.short span op (.name nameSpan id) value).exec fuel m =
        (Stmt.long span' opSpan op (.name nameSpan id) value).exec fuel m := by
      simp only [Stmt.short, Stmt.long, Stmt.exec, update_eq_assign opSpan]
    refine ⟨fun _ _ _ => heq, by rw [heq], fun v w m₁ m₂ h₁ h₂ => ?_⟩
    rw [heq, h₂] at h₁
    cases h₁
    exact ⟨rfl, rfl, rfl⟩
  | element elementSpan id idSpan indices indexSpan =>
    obtain ⟨hends, halike⟩ := exec_short_element rfl fuel m
    refine ⟨fun _ _ h => (by cases h), ?_, fun v w m₁ m₂ h₁ h₂ => ?_⟩
    · rw [exists_error_iff, exists_error_iff, hends]
    · obtain ⟨hvalue, hmachine⟩ := halike v w m₁ m₂ h₁ h₂
      exact ⟨hvalue, hmachine.memory, hmachine.store⟩
  | _ => exact ht.elim

/-- The statement `a = [1, 2]`. -/
def Stmt.makePair : Stmt := .assign default (.name default "a")
  (.vector default [.constant default (.int 1), .constant default (.int 2)])

def Typing.pairTypes : Typing.State := stateAfter (Stmt.makePair.check .raising {})

def Run.pairMachine : Machine := stateAfter (Stmt.makePair.exec 0 {})

/-- The element `a[0]`. -/
def Expr.firstOfPair : Expr := .element default "a" default [.constant default (.int 0)] default

/-- After `a = [1, 2]` both forms of `a[0] += a[0]` are accepted, and write the same elements. -/
theorem Stmt.short_abbreviates_long_pair : Expr.firstOfPair.IsTarget ∧
    (Stmt.long default default .add .firstOfPair .firstOfPair).check .raising pairTypes =
      .ok .none pairTypes ∧
    ∃ m₁ m₂, (Stmt.short default .add .firstOfPair .firstOfPair).exec 0 pairMachine = .ok .none m₁ ∧
      (Stmt.long default default .add .firstOfPair .firstOfPair).exec 0 pairMachine = .ok .none m₂ ∧
      Expr.firstOfPair.eval m₁ = .ok (.elem (.int 2)) m₁ ∧
      m₁.memory = m₂.memory ∧ m₁.store = m₂.store := by
  obtain ⟨hcheck, hrun⟩ := Stmt.short_abbreviates_long default default default .add
    Expr.firstOfPair Expr.firstOfPair trivial
  refine ⟨trivial, (hcheck _ _ _).mp (by cbv), _, _, rfl, rfl, rfl, ?_⟩
  exact ((hrun 0 pairMachine).2.2 _ _ _ _ rfl rfl).2

end MatScript
