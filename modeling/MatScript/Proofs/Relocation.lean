import MatScript.Proofs.Ending
import MatScript.Proofs.Scopes
import MatScript.Run

/-! The place of arrays in the store cannot be seen. A machine whose store has other elements in
front, and whose arrays are looked up that much further on, takes the same steps. -/
namespace MatScript

/-! ## Values in memory changed by a function -/

namespace Scope

variable {α β : Type} (f : α → β)

def map (s : Scope α) : Scope β := ⟨s.name, s.bindings.map fun b => (b.1, f b.2)⟩

lemma get?_map (s : Scope α) (key : String) : (s.map f).get? key = (s.get? key).map f := by
  suffices h : ∀ bs : List (String × α), (bs.map fun b => (b.1, f b.2)).lookup key =
      (bs.lookup key).map f from h s.bindings
  intro bs
  induction bs with
  | nil => rfl
  | cons b bs ih =>
    rw [List.map_cons, List.lookup_cons, List.lookup_cons]
    cases key == b.1 with
    | true => rfl
    | false => exact ih

lemma contains_map (s : Scope α) (key : String) : (s.map f).contains key = s.contains key := by
  rw [contains, get?_map, Option.isSome_map, contains]

lemma insert_map (s : Scope α) (key : String) (v : α) :
    (s.map f).insert key (f v) = (s.insert key v).map f := by
  suffices h : ∀ bs : List (String × α), insertBinding key (f v) (bs.map fun b => (b.1, f b.2)) =
      (insertBinding key v bs).map fun b => (b.1, f b.2) by
    simp only [insert, map, h]
  intro bs
  induction bs with
  | nil => rfl
  | cons b bs ih =>
    obtain ⟨k, w⟩ := b
    simp only [List.map_cons, insertBinding]
    split
    · rfl
    · rw [ih, List.map_cons]

end Scope

namespace Scopes

variable {α β : Type} (f : α → β)

lemma map_eq (s : Scopes α) : s.map f = ⟨s.inner.map (Scope.map f), s.base.map f⟩ := rfl

lemma get?_map (s : Scopes α) (key : String) : (s.map f).get? key = (s.get? key).map f := by
  have h : ∀ l : List (Scope α), (l.map (Scope.map f)).findSome? (·.get? key) =
      (l.findSome? (·.get? key)).map f := by
    intro l
    induction l with
    | nil => rfl
    | cons s l ih =>
      rw [List.map_cons, List.findSome?_cons, List.findSome?_cons, Scope.get?_map]
      cases s.get? key with
      | none => exact ih
      | some v => rfl
  have := h s.toList
  rwa [toList, List.map_append] at this

lemma assignIn?_map (key : String) (v : α) (l : List (Scope α)) :
    assignIn? key (f v) (l.map (Scope.map f)) =
      (assignIn? key v l).map (List.map (Scope.map f)) := by
  induction l with
  | nil => rfl
  | cons s l ih =>
    simp only [List.map_cons, assignIn?, Scope.contains_map]
    split
    · simp [Scope.insert_map]
    · rw [ih, Option.map_map, Option.map_map]
      rfl

lemma set_map (s : Scopes α) (key : String) (v : α) :
    (s.map f).set key (f v) = (s.set key v).map f := by
  obtain ⟨inner, base⟩ := s
  unfold set
  simp only [map_eq, assignIn?_map, Scope.contains_map]
  cases assignIn? key v inner with
  | some l => rfl
  | none =>
    simp only [Option.map_none]
    split
    · simp only [Scope.insert_map]
    · cases inner with
      | nil => simp only [List.map_nil, Scope.insert_map]
      | cons scope rest => simp only [List.map_cons, Scope.insert_map]

lemma pop_map (s : Scopes α) : (s.map f).pop = s.pop.map f := by
  simp only [map_eq, pop, List.map_tail]

end Scopes

/-! ## Arrays further on in the store -/

section

variable {ε α α' β β' : Type} {x : Except ε α} {f : α → Except ε β} {g : β → β'}

lemma bind_eq_map_bind {f' : α → Except ε β'} (h : ∀ a, f' a = (f a).map g) :
    x >>= f' = (x >>= f).map g := by
  cases x with
  | ok a => exact h a
  | error e => rfl

lemma map_bind_congr {γ : Type} {f' : α → Except ε γ} {g' : γ → β'}
    (h : ∀ a, (f' a).map g' = (f a).map g) : (x >>= f').map g' = (x >>= f).map g := by
  cases x with
  | ok a => exact h a
  | error e => rfl

lemma map_bind_eq_map_bind {k : α → α'} {f' : α' → Except ε β'} (h : ∀ a, f' (k a) = (f a).map g) :
    x.map k >>= f' = (x >>= f).map g := by
  cases x with
  | ok a => exact h a
  | error e => rfl

end

def Source.shift (k : Nat) : Source → Source
  | .own cells => .own cells
  | .stored i => .stored (i + k)

def Tensor.shift (k : Nat) (t : Tensor) : Tensor := { t with source := t.source.shift k }

/-- The value with its elements `k` places further on in the store. -/
def Value.shift (k : Nat) : Value → Value
  | .array t => .array (t.shift k)
  | v => v

namespace Tensor

variable (k : Nat) (pre store : Store) (t : Tensor)

@[simp] lemma layout_shift : (t.shift k).layout = t.layout := rfl

@[simp] lemma shape_shift : (t.shift k).shape = t.shape := rfl

@[simp] lemma sub_shift (i : Nat) : (t.shift k).sub i = (t.sub i).shift k := rfl

@[simp] lemma cells_shift : (t.shift pre.size).cells (pre ++ store) = t.cells store := by
  obtain ⟨source, layout⟩ := t
  cases source with
  | own cells => rfl
  | stored i =>
    simp only [shift, Source.shift, cells, Array.getD_eq_getD_getElem?]
    rw [Array.getElem?_append_right (by omega), Nat.add_sub_cancel]

@[simp] lemma kind_shift : (t.shift pre.size).kind (pre ++ store) = t.kind store := by simp [kind]

@[simp] lemma elements_shift : (t.shift pre.size).elements (pre ++ store) = t.elements store := by
  simp [elements]

@[simp] lemma first_shift : (t.shift pre.size).first (pre ++ store) = t.first store := by
  simp [first]

@[simp] lemma text_shift : (t.shift pre.size).text (pre ++ store) = t.text store := by
  unfold text
  rw [cells_shift]
  rfl

/-- The elements seen through another layout. -/
lemma elements_layout_shift (l : Layout) :
    Tensor.elements (pre ++ store) { t.shift pre.size with layout := l } =
      Tensor.elements store { t with layout := l } :=
  elements_shift pre store { t with layout := l }

lemma select_shift (indices : List Int) :
    (t.shift k).select indices = (t.select indices).map (shift k) := by
  unfold select
  rw [layout_shift]
  split
  · rfl
  · cases selectFrom 0 t.layout indices <;> rfl

lemma mask_shift (all : Bool) : (t.shift k).mask all = (t.mask all).map (shift k) := by
  unfold mask
  rw [layout_shift]
  dsimp only
  split <;> rfl

lemma share_shift : (t.shift pre.size).share (pre ++ store) =
    ((t.share store).1.shift pre.size, pre ++ (t.share store).2) := by
  obtain ⟨source, layout⟩ := t
  cases source with
  | own cells =>
    simp only [share, shift, Source.shift, Array.size_append, Nat.add_comm, Array.push_append]
  | stored i => rfl

end Tensor

namespace Value

variable (k : Nat) (pre store : Store) (v : Value)

@[simp] lemma shift_array (t : Tensor) : (array t).shift k = array (t.shift k) := rfl

@[simp] lemma plain?_shift : (v.shift k).plain? = v.plain? := by cases v <;> rfl

@[simp] lemma text?_shift : (v.shift k).text? = v.text? := by cases v <;> rfl

@[simp] lemma isElementwise_shift : (v.shift k).isElementwise = v.isElementwise := by
  cases v <;> rfl

@[simp] lemma itemShape_shift : (v.shift k).itemShape = v.itemShape := by cases v <;> rfl

@[simp] lemma integer_shift : (v.shift k).integer = v.integer := by cases v <;> rfl

@[simp] lemma kind?_shift : (v.shift pre.size).kind? (pre ++ store) = v.kind? store := by
  cases v <;> simp [shift, kind?]

@[simp] lemma demand?_shift : (v.shift pre.size).demand? (pre ++ store) = v.demand? store := by
  cases v <;> simp [shift, demand?, kind?]

@[simp] lemma elementTypeName_shift :
    (v.shift pre.size).elementTypeName (pre ++ store) = v.elementTypeName store := by
  simp [elementTypeName]

@[simp] lemma display_shift : (v.shift pre.size).display (pre ++ store) = v.display store := by
  cases v <;> simp [shift, display]

@[simp] lemma line_shift (vs : List Value) :
    line (pre ++ store) (vs.map (shift pre.size)) = line store vs := by
  induction vs with
  | nil => rfl
  | cons v vs ih => simp [line, ih]

@[simp] lemma truth_shift : (v.shift pre.size).truth (pre ++ store) = v.truth store := by
  cases v <;> simp [shift, truth]

@[simp] lemma dimension_shift : (v.shift pre.size).dimension (pre ++ store) = v.dimension store := by
  cases v with
  | array t => simp [shift, dimension]
  | elem e => cases e <;> rfl
  | _ => rfl

@[simp] lemma indices_shift : (v.shift pre.size).indices (pre ++ store) = v.indices store := by
  cases v with
  | array t => simp [shift, indices]
  | _ => rfl

@[simp] lemma mask?_shift : (v.shift pre.size).mask? (pre ++ store) = v.mask? store := by
  cases v with
  | array t => simp [shift, mask?]
  | _ => rfl

lemma toTensor_shift (use : Use) (other : Kind) :
    (v.shift k).toTensor use other = (v.toTensor use other).map (Tensor.shift k) := by
  cases v with
  | int n =>
    simp only [shift, toTensor]
    cases use.element other n <;> rfl
  | _ => rfl

lemma ofTensor_shift (t : Tensor) :
    ofTensor (pre ++ store) (t.shift pre.size) = (ofTensor store t).shift pre.size := by
  unfold ofTensor
  rw [Tensor.layout_shift, Tensor.first_shift]
  split <;> rfl

/-- A result with elements of its own is the same wherever arrays are in the store. -/
lemma combine_shift (kind : Kind) (f : Elem → Elem → Elem) (a b : Tensor) :
    Tensor.combine (pre ++ store) kind f (a.shift pre.size) (b.shift pre.size) =
      (Tensor.combine store kind f a b).map (shift pre.size) := by
  unfold Tensor.combine
  simp only [Tensor.shape_shift, Tensor.layout_shift, Tensor.elements_layout_shift]
  split
  · rfl
  · split <;> rfl

lemma elementArith_shift (op : Arith) (w : Value) :
    (v.shift pre.size).elementArith (pre ++ store) op (w.shift pre.size) =
      (v.elementArith store op w).map (shift pre.size) := by
  unfold elementArith
  simp only [kind?_shift, toTensor_shift, elementTypeName_shift]
  split
  · refine bind_eq_map_bind fun kind => map_bind_eq_map_bind fun a => ?_
    exact map_bind_eq_map_bind fun b => combine_shift pre store _ _ a b
  · rfl

lemma elementCompare_shift (c : Comparison) (w : Value) :
    (v.shift pre.size).elementCompare (pre ++ store) c (w.shift pre.size) =
      (v.elementCompare store c w).map (shift pre.size) := by
  unfold elementCompare
  simp only [kind?_shift, toTensor_shift, elementTypeName_shift]
  split
  · split
    · rfl
    · refine map_bind_eq_map_bind fun a => ?_
      exact map_bind_eq_map_bind fun b => combine_shift pre store _ _ a b
  · split
    · cases v <;> cases w <;> rfl
    · rfl

/-- Plain numbers and texts are in no store. -/
lemma onPlain_shift (op : Arith) (x y : Plain) : (op.onPlain x y).map (shift k) = op.onPlain x y := by
  have hints : ∀ m n, (op.onPlainInts m n).map (shift k) = op.onPlainInts m n := by
    intro m n
    unfold Arith.onPlainInts
    split
    · split
      · rfl
      · split <;> rfl
    · rfl
  unfold Arith.onPlain
  split
  · exact hints _ _
  · cases x.toFloat with
    | error e => rfl
    | ok x =>
      cases y.toFloat with
      | error e => rfl
      | ok y =>
        change Except.map _ (if _ then _ else _) = if _ then _ else _
        split <;> rfl

lemma multiplyText_shift (s : String) :
    multiplyText s (v.shift k) = (multiplyText s v).map (shift k) := by
  have hrepeat : ∀ n, repeatText s n = (repeatText s n).map (shift k) := by
    intro n
    unfold repeatText
    split <;> rfl
  cases v with
  | bool b => exact hrepeat _
  | int n => exact hrepeat n
  | elem e =>
    cases e with
    | int n => exact hrepeat _
    | _ => rfl
  | _ => rfl

lemma shift_eq_or : v.shift k = v ∨ ∃ t, v = array t := by
  cases v with
  | array t => exact .inr ⟨t, rfl⟩
  | _ => exact .inl rfl

lemma arith_shift (op : Arith) (w : Value) :
    (v.shift pre.size).arith (pre ++ store) op (w.shift pre.size) =
      (v.arith store op w).map (shift pre.size) := by
  have helement := elementArith_shift pre store v op w
  unfold arith
  simp only [text?_shift, display_shift, isElementwise_shift, plain?_shift]
  split
  · exact bind_eq_map_bind fun a => bind_eq_map_bind fun b => rfl
  · rcases v.shift_eq_or pre.size with hv | ⟨t, rfl⟩
    · rcases w.shift_eq_or pre.size with hw | ⟨u, rfl⟩
      · have hleft := fun s => multiplyText_shift pre.size v s
        have hright := fun s => multiplyText_shift pre.size w s
        rw [hv, hw] at helement ⊢
        rw [hv] at hleft
        rw [hw] at hright
        split
        · rfl
        · rfl
        · exact hright _
        · exact hleft _
        · split
          · exact helement
          · split
            · exact (onPlain_shift pre.size op _ _).symm
            · split
              · exact hright _
              · exact hleft _
              · rfl
      · cases v with
        | elem e => cases e <;> exact helement
        | _ => exact helement
    · exact helement

lemma compare_shift (c : Comparison) (w : Value) :
    (v.shift pre.size).compare (pre ++ store) c (w.shift pre.size) =
      (v.compare store c w).map (shift pre.size) := by
  have helement := elementCompare_shift pre store v c w
  rcases v.shift_eq_or pre.size with hv | ⟨t, rfl⟩
  · rcases w.shift_eq_or pre.size with hw | ⟨u, rfl⟩
    · rw [hv, hw] at helement ⊢
      unfold compare
      split
      · exact helement
      · exact helement
      · split
        · rfl
        · split <;> rfl
        · split <;> rfl
        · split
          · exact helement
          · split
            · rfl
            · split <;> rfl
    · cases v <;> exact helement
  · exact helement

lemma negate_shift : (v.shift pre.size).negate (pre ++ store) =
    (v.negate store).map (shift pre.size) := by
  cases v with
  | elem e => exact bind_eq_map_bind fun f => rfl
  | array t =>
    simp only [shift, negate, Tensor.kind_shift, Tensor.elements_shift, Tensor.shape_shift]
    refine bind_eq_map_bind fun f => ?_
    split <;> rfl
  | _ => rfl

lemma elementsAs_shift (kind : Kind) :
    (v.shift pre.size).elementsAs (pre ++ store) kind = v.elementsAs store kind := by
  cases v with
  | array t => exact congrArg (List.mapM (Elem.cast kind)) (Tensor.elements_shift pre store t)
  | _ => rfl

lemma vector_shift (items : List Value) :
    vector (pre ++ store) (items.map (shift pre.size)) =
      (vector store items).map (shift pre.size) := by
  have hshapes : (items.map (shift pre.size)).map itemShape = items.map itemShape := by
    simp [Function.comp_def]
  have hdemands : (items.map (shift pre.size)).filterMap (demand? (pre ++ store)) =
      items.filterMap (demand? store) := by
    simp [List.filterMap_map]
  have helements : ∀ kind, (items.map (shift pre.size)).mapM (elementsAs (pre ++ store) kind) =
      items.mapM (elementsAs store kind) := by
    intro kind
    simp [List.mapM_map, Function.comp_def, elementsAs_shift]
  unfold vector
  simp only [hshapes, hdemands, helements, List.length_map]
  split
  · rfl
  · split
    · rfl
    · split
      · rfl
      · split
        · exact bind_eq_map_bind fun elements => rfl
        · rfl

lemma filled_shift (x : Float) (dimensions : List Value) :
    filled (pre ++ store) x (dimensions.map (shift pre.size)) =
      (filled store x dimensions).map (shift pre.size) := by
  unfold filled
  rw [List.mapM_map, List.length_map]
  simp only [Function.comp_def, dimension_shift]
  split
  · rfl
  · exact bind_eq_map_bind fun lengths => bind_eq_map_bind fun shape => rfl

lemma identity_shift (rows columns diagonal : Value) :
    identity (pre ++ store) (rows.shift pre.size) (columns.shift pre.size)
        (diagonal.shift pre.size) =
      (identity store rows columns diagonal).map (shift pre.size) := by
  unfold identity
  simp only [dimension_shift, integer_shift]
  refine bind_eq_map_bind fun m => bind_eq_map_bind fun n => ?_
  exact bind_eq_map_bind fun shape => bind_eq_map_bind fun k => rfl

lemma transpose_shift : (v.shift k).transpose = v.transpose.map (shift k) := by
  unfold transpose
  rw [toTensor_shift]
  exact map_bind_eq_map_bind fun t => rfl

lemma masked_shift (t : Tensor) (all : Bool) :
    masked (pre ++ store) (t.shift pre.size) all = (masked store t all).map (shift pre.size) := by
  unfold masked
  rw [Tensor.mask_shift, Tensor.kind_shift]
  refine map_bind_eq_map_bind fun part => ?_
  rw [Tensor.elements_shift, Tensor.shape_shift]
  rfl

lemma part_shift (t : Tensor) (selector : Value) :
    part (pre ++ store) (t.shift pre.size) (selector.shift pre.size) =
      (part store t selector).map (shift pre.size) := by
  unfold part
  rw [mask?_shift, indices_shift]
  split
  · exact masked_shift pre store t _
  · refine bind_eq_map_bind fun is => ?_
    rw [Tensor.select_shift]
    exact map_bind_eq_map_bind fun part => congrArg Except.ok (ofTensor_shift pre store part)

lemma index_shift (selector : Value) :
    (v.shift pre.size).index (pre ++ store) (selector.shift pre.size) =
      (v.index store selector).map (shift pre.size) := by
  have hmasked : ∀ e all, masked (pre ++ store) (.ofElem e) all =
      (masked store (.ofElem e) all).map (shift pre.size) := fun e all =>
    masked_shift pre store (.ofElem e) all
  cases v with
  | array t => exact part_shift pre store t selector
  | elem e =>
    cases e with
    | text s => rfl
    | _ =>
      change index (pre ++ store) (elem _) (selector.shift pre.size) = _
      simp only [index, mask?_shift]
      cases selector.mask? store with
      | some all => exact hmasked _ all
      | none => rfl
  | _ => rfl

lemma toElement_shift (kind : Kind) :
    (v.shift pre.size).toElement (pre ++ store) kind = v.toElement store kind := by
  cases v with
  | array t =>
    have htruth := truth_shift pre store (array t)
    cases kind with
    | bool => simp only [shift_array, toElement] at htruth ⊢; rw [htruth]
    | _ => simp [toElement]
  | int n =>
    cases kind with
    | int =>
      simp only [shift, toElement, toTensor]
      cases (Use.arith .add).element .int n <;> rfl
    | _ => rfl
  | _ => cases kind <;> rfl

lemma spread_shift (kind : Kind) (shape : List Nat) (refusal : List Nat → List Nat → RunError) :
    (v.shift pre.size).spread (pre ++ store) kind shape refusal =
      v.spread store kind shape refusal := by
  have helement := toElement_shift pre store v kind
  cases v with
  | array t =>
    simp only [shift_array, spread, Tensor.layout_shift, Tensor.elements_layout_shift]
  | range start stop => rfl
  | _ => exact congrArg (fun x => x >>= _) helement

lemma place_shift (t : Tensor) (selector : Value) :
    place (pre ++ store) (t.shift pre.size) (selector.shift pre.size) =
      (place store t selector).map (Tensor.shift pre.size) := by
  unfold place
  rw [mask?_shift, indices_shift]
  split
  · exact Tensor.mask_shift pre.size t _
  · exact bind_eq_map_bind fun is => Tensor.select_shift pre.size t is

lemma misfit_shift (selector : Value) :
    misfit (pre ++ store) (selector.shift pre.size) = misfit store selector := by
  rw [misfit, mask?_shift, misfit]

lemma items_shift :
    (∃ e, v.items = .error e ∧ (v.shift pre.size).items = .error e) ∨
    ∃ n item item', v.items = .ok (n, item) ∧ (v.shift pre.size).items = .ok (n, item') ∧
      ∀ store i, item' (pre ++ store) i = (item store i).shift pre.size := by
  cases v with
  | range start stop => exact .inr ⟨_, _, _, rfl, rfl, fun _ _ => rfl⟩
  | text s => exact .inr ⟨_, _, _, rfl, rfl, fun _ _ => rfl⟩
  | elem e =>
    cases e with
    | text s => exact .inr ⟨_, _, _, rfl, rfl, fun _ _ => rfl⟩
    | _ => exact .inl ⟨_, rfl, rfl⟩
  | array t =>
    simp only [shift_array, items, Tensor.shape_shift]
    cases t.shape with
    | nil => exact .inl ⟨_, rfl, rfl⟩
    | cons n rest =>
      refine .inr ⟨_, _, _, rfl, rfl, fun store i => ?_⟩
      rw [Tensor.sub_shift, ofTensor_shift]
  | _ => exact .inl ⟨_, rfl, rfl⟩

end Value

namespace Patch

variable (pre store : Store)

lemma apply_nil (i : Nat) : (⟨i, []⟩ : Patch).apply store = store := by
  unfold apply
  apply Array.ext_getElem?
  intro j
  rw [Array.getElem?_modify]
  split
  · cases store[j]? <;> rfl
  · rfl

lemma apply_append (i : Nat) (items : List (Nat × Elem)) :
    (⟨i + pre.size, items⟩ : Patch).apply (pre ++ store) =
      pre ++ (⟨i, items⟩ : Patch).apply store := by
  unfold apply
  apply Array.ext_getElem?
  intro j
  simp only [Array.getElem?_modify, Array.getElem?_append]
  by_cases hj : j < pre.size
  · rw [if_neg (by omega), if_pos hj, if_pos hj]
  · rw [if_neg hj, if_neg hj]
    by_cases hi : i = j - pre.size
    · rw [if_pos (by omega), if_pos hi]
    · rw [if_neg (by omega), if_neg hi]

end Patch

/-- The store after a patch has the other elements in front. -/
lemma Value.patch_shift (pre store : Store) (v selector value : Value) :
    ((v.shift pre.size).patch (pre ++ store) (selector.shift pre.size)
        (value.shift pre.size)).map (·.apply (pre ++ store)) =
      (v.patch store selector value).map fun p => pre ++ p.apply store := by
  have hstored := Patch.apply_append pre store
  -- elements of an array's own are not in the store, and their patch changes nothing
  have hown : (⟨0, []⟩ : Patch).apply (pre ++ store) = pre ++ (⟨0, []⟩ : Patch).apply store := by
    rw [Patch.apply_nil, Patch.apply_nil]
  cases v with
  | array t =>
    simp only [shift_array, patch, place_shift, misfit_shift, Tensor.kind_shift, toElement_shift,
      spread_shift]
    cases place store t selector with
    | error e => rfl
    | ok part =>
      obtain ⟨source, layout⟩ := part
      change Except.map _ (if layout.axes.isEmpty then _ else _) =
        Except.map _ (if layout.axes.isEmpty then _ else _)
      cases source with
      | own cells =>
        split
        · exact map_bind_congr fun _ => congrArg Except.ok hown
        · exact map_bind_congr fun _ => congrArg Except.ok hown
      | stored i =>
        split
        · exact map_bind_congr fun _ => congrArg Except.ok (hstored i _)
        · exact map_bind_congr fun _ => congrArg Except.ok (hstored i _)
  | _ => rfl

lemma Operation.compute_shift (pre store : Store) (op : Operation) (arguments : List Value) :
    op.compute (pre ++ store) (arguments.map (Value.shift pre.size)) =
      (op.compute store arguments).map (Value.shift pre.size) := by
  cases op with
  | negate =>
    rcases arguments with _ | ⟨a, _ | ⟨b, rest⟩⟩
    · rfl
    · exact Value.negate_shift pre store a
    · simp [compute, Except.map]
  | arith op =>
    rcases arguments with _ | ⟨a, _ | ⟨b, _ | ⟨c, rest⟩⟩⟩
    · rfl
    · rfl
    · exact Value.arith_shift pre store a op b
    · simp [compute, Except.map]
  | compare c =>
    rcases arguments with _ | ⟨a, _ | ⟨b, _ | ⟨c, rest⟩⟩⟩
    · rfl
    · rfl
    · exact Value.compare_shift pre store a c b
    · simp [compute, Except.map]
  | dotted op =>
    rcases arguments with _ | ⟨a, _ | ⟨b, _ | ⟨c, rest⟩⟩⟩
    · rfl
    · rfl
    · exact Value.elementArith_shift pre store a op b
    · simp [compute, Except.map]
  | transpose =>
    rcases arguments with _ | ⟨a, rest⟩
    · rfl
    · exact Value.transpose_shift pre.size a
  | eye =>
    rcases arguments with _ | ⟨a, _ | ⟨b, _ | ⟨c, rest⟩⟩⟩
    · rfl
    · exact Value.identity_shift pre store a a (.int 0)
    · exact Value.identity_shift pre store a b (.int 0)
    · exact Value.identity_shift pre store a b c
  | zeros => exact Value.filled_shift pre store 0 arguments
  | ones => exact Value.filled_shift pre store 1 arguments
  | _ => rfl

/-! ## Machines -/

/-- The machine with other elements in front of its store. -/
def Machine.shift (pre : Store) (m : Machine) : Machine :=
  ⟨m.memory.map (Value.shift pre.size), pre ++ m.store, m.output⟩

namespace Machine

variable (pre : Store) (m : Machine)

lemma lookup_shift (id : String) : (m.shift pre).lookup id = (m.lookup id).shift pre.size := by
  simp only [lookup, shift, Scopes.get?_map]
  cases m.memory.get? id <;> rfl

lemma bind_shift (id : String) (v : Value) :
    (m.shift pre).bind id (v.shift pre.size) = (m.bind id v).shift pre := by
  obtain ⟨memory, store, output⟩ := m
  cases v with
  | array t =>
    simp only [bind, shift, Value.shift_array, Tensor.share_shift]
    rw [← Scopes.set_map, Value.shift_array]
  | _ =>
    simp only [bind, shift, Value.shift]
    rw [← Scopes.set_map]
    rfl

lemma push_shift (name : String) : (m.shift pre).push name = (m.push name).shift pre := rfl

lemma pop_shift : (m.shift pre).pop = m.pop.shift pre := by
  simp only [pop, shift, Scopes.pop_map]

end Machine

end MatScript
