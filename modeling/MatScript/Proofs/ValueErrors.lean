import MatScript.Proofs.Ending

/-! What computing with values fails for. Every error comes of the values at hand: of their types,
sizes and shapes. None says that a script has a gap or that a name has no operation. -/
namespace MatScript

/-- Errors that come of values. -/
@[simp] def RunError.ofValues : RunError → Bool
  | gap _ | unknownOperation _ => false
  | _ => true

lemma RunError.ofValues_iff {e : RunError} :
    e.ofValues = true ↔ e.errorClass ≠ .unsupported ∧ e.errorClass ≠ .key := by
  cases e <;> simp [errorClass]

/-- A computation that fails for its values only. -/
def FailsByValues {α : Type} (x : Except RunError α) : Prop := ∀ e, x = .error e → e.ofValues = true

namespace FailsByValues

variable {α β : Type}

@[simp] lemma ok (a : α) : FailsByValues (.ok a) := fun _ h => nomatch h

@[simp] lemma error_iff {e : RunError} :
    FailsByValues (.error e : Except RunError α) ↔ e.ofValues = true :=
  ⟨fun h => h e rfl, fun h _ he => Except.error.inj he ▸ h⟩

lemma bind {x : Except RunError α} {f : α → Except RunError β} (hx : FailsByValues x)
    (hf : ∀ a, FailsByValues (f a)) : FailsByValues (x >>= f) := by
  cases x with
  | ok a => exact hf a
  | error e => exact error_iff.2 (hx e rfl)

lemma mapM {f : α → Except RunError β} (hf : ∀ a, FailsByValues (f a)) (as : List α) :
    FailsByValues (as.mapM f) := by
  induction as with
  | nil => exact .ok _
  | cons a as ih =>
    rw [List.mapM_cons]
    exact (hf a).bind fun _ => ih.bind fun _ => .ok _

end FailsByValues

/-! ## Numbers and elements -/

lemma failsByValues_floatOfInt (n : Int) : FailsByValues (floatOfInt n) := by
  unfold floatOfInt
  split <;> simp

lemma Plain.failsByValues_toFloat (a : Plain) : FailsByValues a.toFloat := by
  cases a with
  | int n => exact failsByValues_floatOfInt n
  | float x => exact .ok x

lemma Arith.failsByValues_onPlain (op : Arith) (a b : Plain) : FailsByValues (op.onPlain a b) := by
  unfold Arith.onPlain
  split
  · unfold Arith.onPlainInts
    repeat' split
    all_goals simp
  · refine a.failsByValues_toFloat.bind fun _ => b.failsByValues_toFloat.bind fun _ => ?_
    split <;> simp

lemma Use.failsByValues_element (use : Use) (other : Kind) (n : Int) :
    FailsByValues (use.element other n) := by
  have hfloat : FailsByValues (do return Elem.float (← floatOfInt n)) :=
    (failsByValues_floatOfInt n).bind fun _ => .ok _
  unfold Use.element
  split
  · exact .ok _
  · split
    · exact hfloat
    · exact hfloat
    · exact .ok _
    · simp

lemma Arith.failsByValues_resultKind (op : Arith) (a b : Kind) :
    FailsByValues (op.resultKind a b) := by
  unfold Arith.resultKind
  repeat' split
  all_goals simp

lemma Elem.failsByValues_cast (kind : Kind) (e : Elem) : FailsByValues (e.cast kind) := by
  unfold Elem.cast
  repeat' split
  all_goals simp

lemma failsByValues_wordOfPlainFloat (x : Float) : FailsByValues (wordOfPlainFloat x) := by
  unfold wordOfPlainFloat
  repeat' split
  all_goals simp

/-! ## Arrays -/

lemma Tensor.failsByValues_combine (store : Store) (kind : Kind) (f : Elem → Elem → Elem)
    (a b : Tensor) : FailsByValues (Tensor.combine store kind f a b) := by
  unfold Tensor.combine
  dsimp only
  repeat' split
  all_goals simp

lemma Tensor.failsByValues_selectFrom (axis : Nat) (l : Layout) (indices : List Int) :
    FailsByValues (Tensor.selectFrom axis l indices) := by
  induction indices generalizing axis l with
  | nil => exact .ok _
  | cons i rest ih =>
    unfold Tensor.selectFrom
    split
    · exact .ok _
    · dsimp only
      split
      · simp
      · exact ih _ _

lemma Tensor.failsByValues_select (t : Tensor) (indices : List Int) :
    FailsByValues (t.select indices) := by
  unfold Tensor.select
  split
  · simp
  · exact (Tensor.failsByValues_selectFrom _ _ _).bind fun _ => .ok _

lemma Tensor.failsByValues_mask (t : Tensor) (all : Bool) : FailsByValues (t.mask all) := by
  unfold Tensor.mask
  dsimp only
  split <;> simp

namespace Value

/-! ## Single values -/

variable (store : Store)

lemma failsByValues_intText (n : Int) : FailsByValues (intText n) := by
  unfold intText
  split <;> simp

lemma failsByValues_display (v : Value) : FailsByValues (v.display store) := by
  cases v with
  | int n => exact failsByValues_intText n
  | range start stop =>
    exact (failsByValues_intText start).bind fun _ =>
      (failsByValues_intText stop).bind fun _ => .ok _
  | _ => exact .ok _

lemma failsByValues_truth (v : Value) : FailsByValues (v.truth store) := by
  unfold truth
  repeat' split
  all_goals simp

lemma failsByValues_integer (v : Value) : FailsByValues v.integer := by
  unfold integer
  split <;> simp

lemma failsByValues_items (v : Value) : FailsByValues v.items := by
  unfold items
  repeat' split
  all_goals simp

lemma failsByValues_toTensor (use : Use) (other : Kind) (v : Value) :
    FailsByValues (v.toTensor use other) := by
  cases v with
  | none => simp [toTensor]
  | int n => exact (use.failsByValues_element other n).bind fun _ => .ok _
  | _ => exact .ok _

lemma failsByValues_negateKind (kind : Kind) : FailsByValues (negateKind kind) := by
  unfold negateKind
  split <;> simp

lemma failsByValues_negate (v : Value) : FailsByValues (v.negate store) := by
  cases v with
  | elem e => exact (failsByValues_negateKind _).bind fun _ => .ok _
  | array t =>
    refine (failsByValues_negateKind _).bind fun _ => ?_
    dsimp only
    split <;> exact .ok _
  | _ => simp [negate]

/-! ## Operators -/

lemma failsByValues_elementArith (op : Arith) (a b : Value) :
    FailsByValues (a.elementArith store op b) := by
  unfold elementArith
  split
  · refine (op.failsByValues_resultKind _ _).bind fun _ => ?_
    refine (failsByValues_toTensor _ _ a).bind fun _ => ?_
    refine (failsByValues_toTensor _ _ b).bind fun _ => ?_
    exact Tensor.failsByValues_combine _ _ _ _ _
  · simp

lemma failsByValues_elementCompare (c : Comparison) (a b : Value) :
    FailsByValues (a.elementCompare store c b) := by
  unfold elementCompare
  split
  · split
    · simp
    · refine (failsByValues_toTensor _ _ a).bind fun _ => ?_
      refine (failsByValues_toTensor _ _ b).bind fun _ => ?_
      exact Tensor.failsByValues_combine _ _ _ _ _
  · repeat' split
    all_goals simp

lemma failsByValues_multiplyText (s : String) (v : Value) : FailsByValues (multiplyText s v) := by
  have hrepeat (n : Int) : FailsByValues (repeatText s n) := by
    unfold repeatText
    split <;> simp
  unfold multiplyText
  split <;> simp [hrepeat]

lemma failsByValues_arith (op : Arith) (a b : Value) : FailsByValues (a.arith store op b) := by
  unfold arith
  split
  · exact (failsByValues_display _ a).bind fun _ => (failsByValues_display _ b).bind fun _ => .ok _
  · repeat' split
    all_goals
      simp [failsByValues_multiplyText, failsByValues_elementArith, Arith.failsByValues_onPlain]

lemma failsByValues_compare (c : Comparison) (a b : Value) :
    FailsByValues (a.compare store c b) := by
  unfold Value.compare
  repeat' split
  all_goals simp [failsByValues_elementCompare]

/-! ## Values as arrays -/

lemma failsByValues_intAs (kind : Kind) (n : Int) : FailsByValues (intAs kind n) := by
  unfold intAs
  split
  · exact .ok _
  · exact (Use.failsByValues_element _ _ n).bind fun _ => Elem.failsByValues_cast _ _

lemma failsByValues_elementsAs (kind : Kind) (v : Value) :
    FailsByValues (v.elementsAs store kind) := by
  unfold elementsAs
  split
  · exact (failsByValues_intAs kind _).bind fun _ => .ok _
  · exact .mapM (fun i => failsByValues_intAs kind _) _
  · exact (failsByValues_toTensor _ _ _).bind fun _ => .mapM (Elem.failsByValues_cast kind) _

lemma failsByValues_vector (items : List Value) : FailsByValues (vector store items) := by
  unfold vector
  dsimp only
  split
  · simp
  split
  · simp
  · split
    · exact .ok _
    · split
      · exact (FailsByValues.mapM (failsByValues_elementsAs store _) _).bind fun _ => .ok _
      · simp

lemma failsByValues_dimension (v : Value) : FailsByValues (v.dimension store) := by
  unfold dimension
  repeat' split
  all_goals simp

lemma failsByValues_shapeOf (bytes : Nat) (lengths : List Int) :
    FailsByValues (shapeOf bytes lengths) := by
  induction lengths generalizing bytes with
  | nil => exact .ok _
  | cons n rest ih =>
    have hnext (k bytes : Nat) : FailsByValues (do return k :: (← shapeOf bytes rest)) :=
      (ih bytes).bind fun _ => .ok _
    unfold shapeOf
    split
    · exact hnext _ _
    split
    · simp
    split
    · simp
    · exact hnext _ _

lemma failsByValues_filled (x : Float) (dimensions : List Value) :
    FailsByValues (filled store x dimensions) := by
  unfold filled
  split
  · simp
  refine (FailsByValues.mapM (failsByValues_dimension store) _).bind fun _ => ?_
  exact (failsByValues_shapeOf _ _).bind fun _ => .ok _

lemma failsByValues_identity (rows columns diagonal : Value) :
    FailsByValues (identity store rows columns diagonal) := by
  refine (failsByValues_dimension _ rows).bind fun _ => ?_
  refine (failsByValues_dimension _ columns).bind fun _ => ?_
  exact (failsByValues_shapeOf _ _).bind fun _ =>
    (failsByValues_integer diagonal).bind fun _ => .ok _

lemma failsByValues_transpose (v : Value) : FailsByValues v.transpose :=
  (failsByValues_toTensor _ _ v).bind fun _ => .ok _

lemma failsByValues_indices (v : Value) : FailsByValues (v.indices store) := by
  unfold indices
  split
  · split
    · refine .mapM (fun e => ?_) _
      split <;> simp
    · simp
    · simp
  · simp

lemma failsByValues_masked (t : Tensor) (all : Bool) : FailsByValues (masked store t all) :=
  (t.failsByValues_mask all).bind fun _ => .ok _

lemma failsByValues_index (v selector : Value) : FailsByValues (v.index store selector) := by
  unfold index
  split
  · unfold part
    split
    · exact failsByValues_masked store _ _
    · exact (failsByValues_indices _ selector).bind fun _ =>
        (Tensor.failsByValues_select _ _).bind fun _ => .ok _
  · simp
  · simp
  · simp
  · split
    · exact failsByValues_masked store _ _
    · simp
  · simp

lemma failsByValues_toElement (kind : Kind) (v : Value) :
    FailsByValues (v.toElement store kind) := by
  unfold toElement
  split
  · exact Elem.failsByValues_cast _ _
  · exact (failsByValues_truth _ _).bind fun _ => .ok _
  · repeat' split
    all_goals simp [Elem.failsByValues_cast]
  · exact (failsByValues_truth _ v).bind fun _ => .ok _
  · exact (failsByValues_wordOfPlainFloat _).bind fun _ => .ok _
  · exact (failsByValues_floatOfInt _).bind fun _ => .ok _
  · exact .ok _
  · simp
  · simp
  · exact (failsByValues_display _ v).bind fun _ => .ok _
  · exact (failsByValues_toTensor _ _ v).bind fun _ => Elem.failsByValues_cast _ _

lemma failsByValues_place (t : Tensor) (selector : Value) :
    FailsByValues (place store t selector) := by
  unfold place
  split
  · exact t.failsByValues_mask _
  · exact (failsByValues_indices _ selector).bind fun _ => Tensor.failsByValues_select _ _

lemma ofValues_misfit (selector : Value) (shape target : List Nat) :
    (misfit store selector shape target).ofValues = true := by
  unfold misfit
  split <;> rfl

lemma failsByValues_spread (kind : Kind) (shape : List Nat) (selector v : Value) :
    FailsByValues (v.spread store kind shape (misfit store selector)) := by
  unfold spread
  dsimp only
  split
  · split
    · exact .mapM (Elem.failsByValues_cast kind) _
    · exact FailsByValues.error_iff.2 (ofValues_misfit _ _ _ _)
  · split
    · exact .mapM (Elem.failsByValues_cast kind) _
    · exact FailsByValues.error_iff.2 (ofValues_misfit _ _ _ _)
  · exact (failsByValues_toElement _ _ v).bind fun _ => .ok _

lemma failsByValues_patch (v selector value : Value) :
    FailsByValues (v.patch store selector value) := by
  unfold patch
  split
  · refine (failsByValues_place _ _ selector).bind fun part => ?_
    dsimp only
    split
    · refine (failsByValues_toElement _ _ value).bind fun _ => (FailsByValues.ok _).bind fun _ => ?_
      split <;> exact .ok _
    · refine (failsByValues_spread _ _ _ selector value).bind fun _ => ?_
      split <;> exact .ok _
  · simp

end Value

/-- Operations that only compute fail for their arguments only. -/
theorem Operation.failsByValues_compute (store : Store) (op : Operation) (arguments : List Value) :
    FailsByValues (op.compute store arguments) := by
  unfold Operation.compute
  split
  all_goals simp [expected, Value.failsByValues_negate, Value.failsByValues_arith,
    Value.failsByValues_compare, Value.failsByValues_elementArith, Value.failsByValues_transpose,
    Value.failsByValues_identity, Value.failsByValues_filled]

end MatScript
