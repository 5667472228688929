import MatScript.Proofs.Layouts
import MatScript.Proofs.Leaving
import MatScript.Proofs.ScalarOperators

/-! The types of values, arrays included. A value has a base type and a shape; a type may leave
dimensions open. An operation that the types of its operands admit gives a value of the type that
the check computes for it. -/
namespace MatScript

def Kind.base : Kind → BaseType
  | bool => .bool
  | int => .int
  | float => .float
  | text _ => .text

def Elem.base : Elem → BaseType
  | bool _ => .bool
  | int _ => .int
  | float _ => .float
  | text _ => .text

@[simp] lemma Elem.base_kind (e : Elem) : e.kind.base = e.base := by cases e <;> rfl

/-- The base type of a scalar, be it plain or an element of an array. -/
def Value.base? : Value → Option BaseType
  | elem e => some e.base
  | v => v.baseType?

/-- The lengths of the axes are as the dimensions say, where they are known. -/
def ShapeFits (shape : List Nat) (dims : List (Option Int)) : Prop :=
  List.Forall₂ (fun (n : Nat) (d : Option Int) => ∀ k ∈ d, (n : Int) = k) shape dims

/-- The value has the type. Where elements are shared, the store knows their kind. -/
inductive Value.HasType (store : Store) : Value → Ty → Prop
  | scalar {v : Value} {b : BaseType} (h : v.base? = some b) : HasType store v ⟨some b, []⟩
  | array {a : Tensor} {dims : List (Option Int)} (hne : dims ≠ []) (h : ShapeFits a.shape dims) :
    HasType store (.array a) ⟨some (a.kind store).base, dims⟩

instance (shape : List Nat) (dims : List (Option Int)) : Decidable (ShapeFits shape dims) :=
  inferInstanceAs (Decidable
    (List.Forall₂ (fun (n : Nat) (d : Option Int) => ∀ k ∈ d, (n : Int) = k) shape dims))

/-- Whether the value has the type. -/
def Value.hasType (store : Store) : Value → Ty → Bool
  | .array a, ⟨some b, d :: dims⟩ =>
    decide ((a.kind store).base = b) && decide (ShapeFits a.shape (d :: dims))
  | v, ⟨some b, []⟩ => decide (v.base? = some b)
  | _, _ => false

lemma Value.hasType_iff {store : Store} {v : Value} {t : Ty} :
    v.hasType store t = true ↔ v.HasType store t := by
  constructor
  · intro h
    unfold hasType at h
    split at h
    · next a b d dims =>
      simp only [Bool.and_eq_true, decide_eq_true_eq] at h
      obtain ⟨rfl, hs⟩ := h
      exact .array (List.cons_ne_nil _ _) hs
    · exact .scalar (of_decide_eq_true h)
    · cases h
  · intro h
    cases h with
    | @scalar v b h => cases v <;> simpa [hasType] using h
    | @array a dims hne hs =>
      cases dims with
      | nil => exact absurd rfl hne
      | cons d dims => simp [hasType, hs]

/-- The elements that an array sees are there, and of its kind. -/
structure Tensor.Uniform (store : Store) (a : Tensor) : Prop where
  stored : ∀ i, a.source = .stored i → i < store.size
  elements : ∀ e ∈ a.elements store, e.base = (a.kind store).base

/-- The value has the type, and if it is an array, its elements are of its kind. -/
structure Value.Typed (store : Store) (v : Value) (t : Ty) : Prop where
  hasType : v.HasType store t
  uniform : ∀ a, v = .array a → a.Uniform store

namespace Value

variable {store : Store} {v : Value} {b : BaseType} {t : Ty} {d : Option Int}
  {dims : List (Option Int)}

lemma Typed.scalar (h : v.base? = some b) : v.Typed store ⟨some b, []⟩ := by
  refine ⟨.scalar h, ?_⟩
  rintro a rfl
  cases h

lemma Typed.exists_base (h : v.Typed store t) : ∃ b, t.base = some b := by
  cases h.hasType with
  | scalar _ => exact ⟨_, rfl⟩
  | array _ _ => exact ⟨_, rfl⟩

/-- A value of a type without dimensions is a scalar. -/
lemma Typed.base?_eq (h : v.Typed store t) (ht : t.shape = []) : v.base? = t.base := by
  cases h.hasType with
  | scalar hb => exact hb
  | array hne _ => exact absurd ht hne

/-- A value of a type with dimensions is an array. -/
lemma Typed.exists_array (h : v.Typed store ⟨some b, d :: dims⟩) :
    ∃ a, v = .array a ∧ (a.kind store).base = b ∧ ShapeFits a.shape (d :: dims) ∧
      a.Uniform store := by
  cases h.hasType with
  | array hne hs => exact ⟨_, rfl, rfl, hs, h.uniform _ rfl⟩

lemma Typed.array {a : Tensor} (hs : ShapeFits a.shape dims) (hne : dims ≠ [])
    (hu : a.Uniform store) : (Value.array a).Typed store ⟨some (a.kind store).base, dims⟩ := by
  refine ⟨.array hne hs, ?_⟩
  rintro a' ⟨⟩
  exact hu

/-- An array made from elements of one kind. -/
lemma typed_ofElements {kind : Kind} {shape : List Nat} {xs : List Elem}
    (hlen : xs.length = shape.foldr (· * ·) 1) (hxs : ∀ e ∈ xs, e.base = kind.base)
    (hs : ShapeFits shape dims) (hne : dims ≠ []) :
    (Value.array (.ofElements kind shape xs)).Typed store ⟨some kind.base, dims⟩ := by
  have hshape : ShapeFits (Tensor.ofElements kind shape xs).shape dims := by
    rw [show (Tensor.ofElements kind shape xs).shape = shape from Layout.shape_ofShape shape]
    exact hs
  refine Typed.array (a := .ofElements kind shape xs) hshape hne ⟨?_, ?_⟩
  · intro i hi
    cases hi
  · rw [Tensor.elements_ofElements hlen]
    exact hxs

end Value

/-! ## Changes of the store -/

/-- Elements of the first store are in the second, of the same kind; one that has been replaced is
of that kind, too. -/
structure Store.Keeps (store store' : Store) : Prop where
  size_le : store.size ≤ store'.size
  kind_eq : ∀ i < store.size, (store'.getD i default).kind = (store.getD i default).kind
  element : ∀ i < store.size, ∀ o,
    (store'.getD i default).data.getD o default = (store.getD i default).data.getD o default ∨
      ((store'.getD i default).data.getD o default).base = (store.getD i default).kind.base

/-- An element of patched cells is an old one, or of the kind of the new ones. -/
lemma Cells.write_element {cells : Cells} {items : List (Nat × Elem)} {b : BaseType}
    (h : ∀ item ∈ items, item.2.base = b) (o : Nat) :
    (cells.write items).data.getD o default = cells.data.getD o default ∨
      ((cells.write items).data.getD o default).base = b := by
  unfold write
  generalize cells.data = data
  induction items generalizing data with
  | nil => exact .inl rfl
  | cons item items ih =>
    rcases ih (fun i hi => h i (List.mem_cons_of_mem _ hi)) (data.setIfInBounds item.1 item.2)
      with hsame | hnew
    · rw [List.foldl_cons, hsame]
      by_cases ho : item.1 = o ∧ o < data.size
      · right
        obtain ⟨rfl, hlt⟩ := ho
        simpa [Array.getD, hlt] using h item List.mem_cons_self
      · left
        rw [not_and'] at ho
        by_cases hlt : o < data.size
        · simp [Array.getD, hlt, ho hlt]
        · simp [Array.getD, hlt]
    · exact .inr hnew

namespace Store.Keeps

variable {store store' : Store}

lemma kind (h : Store.Keeps store store') {a : Tensor} (ha : a.Uniform store) :
    a.kind store' = a.kind store := by
  obtain ⟨source, layout⟩ := a
  cases source with
  | own cells => rfl
  | stored i => exact h.kind_eq i (ha.stored i rfl)

lemma uniform (h : Store.Keeps store store') {a : Tensor} (ha : a.Uniform store) :
    a.Uniform store' := by
  refine ⟨fun i hi => (ha.stored i hi).trans_le h.size_le, fun e he => ?_⟩
  rw [h.kind ha]
  obtain ⟨o, ho, rfl⟩ := List.mem_map.1 he
  have hold := ha.elements _ (List.mem_map_of_mem ho)
  obtain ⟨source, layout⟩ := a
  cases source with
  | own cells => exact hold
  | stored i =>
    rcases h.element i (ha.stored i rfl) o with hsame | hnew
    · change ((store'.getD i default).data.getD o default).base = _
      rw [hsame]
      exact hold
    · exact hnew

lemma typed (h : Store.Keeps store store') {v : Value} {t : Ty} (hv : v.Typed store t) :
    v.Typed store' t := by
  refine ⟨?_, fun a ha => h.uniform (hv.uniform a ha)⟩
  cases hv.hasType with
  | scalar hb => exact .scalar hb
  | array hne hs =>
    rw [← h.kind (hv.uniform _ rfl)]
    exact .array hne hs

lemma refl (store : Store) : Store.Keeps store store :=
  ⟨Nat.le_refl _, fun _ _ => rfl, fun _ _ _ => .inl rfl⟩

lemma push (store : Store) (cells : Cells) : Store.Keeps store (store.push cells) := by
  have hsame : ∀ i < store.size, (store.push cells).getD i default = store.getD i default := by
    intro i hi
    simp [Array.getD, hi, Nat.lt_succ_of_lt hi, Array.getElem_push_lt]
  refine ⟨by simp, fun i hi => by rw [hsame i hi], fun i hi o => .inl (by rw [hsame i hi])⟩

/-- A part of the elements at an index is replaced by elements of their kind. -/
lemma patch {p : Patch} (h : ∀ item ∈ p.items, item.2.base = (store.getD p.index default).kind.base) :
    Store.Keeps store (p.apply store) := by
  have hcells : ∀ i < store.size, (p.apply store).getD i default =
      if p.index = i then (store.getD i default).write p.items else store.getD i default := by
    intro i hi
    simp [Patch.apply, Array.getD, hi, Array.getElem_modify]
  refine ⟨by simp [Patch.apply], fun i hi => ?_, fun i hi o => ?_⟩
  · rw [hcells i hi]
    by_cases heq : p.index = i
    · rw [if_pos heq]
      rfl
    · rw [if_neg heq]
  · rw [hcells i hi]
    by_cases heq : p.index = i
    · rw [if_pos heq]
      rw [heq] at h
      exact Cells.write_element h o
    · rw [if_neg heq]
      exact .inl rfl

end Store.Keeps

end MatScript
