import Mathlib
import MatScript.Tensor

/-! Which elements arrays see. A part of an array and its transposition see no others than the
array; an array made from a list of elements sees that list. -/
namespace MatScript

namespace Layout

variable {axes : List Axis} {shape : List Nat}

/-- How far from the start the element at some positions is. -/
def reach (positions : List Nat) (axes : List Axis) : Nat :=
  (List.zipWith (fun i a => i * a.stride) positions axes).sum

/-- The offsets are those of all positions along the axes. -/
lemma mem_offsetsFrom {o base : Nat} : o ∈ offsetsFrom axes base ↔
    ∃ positions, List.Forall₂ (fun i a => i < Axis.length a) positions axes ∧
      o = base + reach positions axes := by
  induction axes generalizing base with
  | nil => simp [offsetsFrom, reach]
  | cons a rest ih =>
    simp only [offsetsFrom, List.mem_flatMap, List.mem_range, ih]
    constructor
    · rintro ⟨i, hi, positions, hp, rfl⟩
      refine ⟨i :: positions, .cons hi hp, ?_⟩
      simp only [reach, List.zipWith_cons_cons, List.sum_cons]
      omega
    · rintro ⟨positions, hp, rfl⟩
      obtain ⟨i, positions, hi, hrest, rfl⟩ := List.forall₂_cons_right_iff.1 hp
      refine ⟨i, hi, positions, hrest, ?_⟩
      simp only [reach, List.zipWith_cons_cons, List.sum_cons]
      omega

lemma reach_reverse {positions : List Nat} (h : positions.length = axes.length) :
    reach positions.reverse axes.reverse = reach positions axes := by
  rw [reach, reach, ← List.reverse_zipWith h, List.sum_reverse]

lemma offsets_transpose_subset (l : Layout) : l.transpose.offsets ⊆ l.offsets := by
  intro o ho
  obtain ⟨positions, hp, rfl⟩ := mem_offsetsFrom.1 ho
  have hlen : positions.reverse.length = l.axes.length := by
    rw [List.length_reverse, hp.length_eq, transpose, List.length_reverse]
  refine mem_offsetsFrom.2 ⟨positions.reverse, ?_, ?_⟩
  · have hr := List.rel_reverse hp
    rwa [transpose, List.reverse_reverse] at hr
  · rw [← reach_reverse hlen, List.reverse_reverse]
    rfl

lemma offsets_sub_subset {l : Layout} {a : Axis} {rest : List Axis} (h : l.axes = a :: rest)
    {i : Nat} (hi : i < a.length) : (l.sub i).offsets ⊆ l.offsets := by
  intro o ho
  rw [offsets, h, offsetsFrom, List.mem_flatMap]
  refine ⟨i, List.mem_range.2 hi, ?_⟩
  rwa [offsets, sub, h] at ho

lemma length_offsetsFrom (base : Nat) :
    (offsetsFrom axes base).length = (axes.map Axis.length).foldr (· * ·) 1 := by
  induction axes generalizing base with
  | nil => rfl
  | cons a rest ih => simp [offsetsFrom, List.length_flatMap, ih]

lemma length_offsets (l : Layout) : l.offsets.length = l.shape.foldr (· * ·) 1 :=
  length_offsetsFrom l.offset

lemma range_mul_flatMap (n p base : Nat) :
    ((List.range n).flatMap fun i => (List.range p).map (base + i * p + ·)) =
      (List.range (n * p)).map (base + ·) := by
  induction n with
  | zero => simp
  | succ n ih =>
    rw [List.range_succ, List.flatMap_append, ih, Nat.succ_mul, List.range_add]
    simp [Nat.add_assoc]

/-- Elements in row-major order are seen one after another. -/
lemma offsetsFrom_rowMajor (base : Nat) : offsetsFrom (rowMajor shape) base =
    (List.range (shape.foldr (· * ·) 1)).map (base + ·) := by
  induction shape generalizing base with
  | nil => simp [rowMajor, offsetsFrom]
  | cons n rest ih =>
    simp only [rowMajor, offsetsFrom, ih, List.foldr_cons]
    exact range_mul_flatMap n _ base

@[simp] lemma shape_ofShape (shape : List Nat) : (ofShape shape).shape = shape := by
  change (rowMajor shape).map Axis.length = shape
  induction shape with
  | nil => rfl
  | cons n rest ih => rw [rowMajor, List.map_cons, ih]

lemma lengths_stretchAxes? {as bs : List Axis} {ns : List Nat} (h : stretchAxes? as ns = some bs) :
    bs.map Axis.length = ns := by
  induction as generalizing ns bs with
  | nil =>
    cases h
    simp [Function.comp_def]
  | cons a as ih =>
    cases ns with
    | nil => cases h
    | cons n ns =>
      simp only [stretchAxes?, Option.bind_eq_bind, Option.bind_eq_some_iff] at h
      obtain ⟨b, hb, bs', hbs, h⟩ := h
      cases h
      have hn : b.length = n := by
        unfold stretchAxis? at hb
        split at hb
        · next hlen =>
          cases hb
          exact hlen
        · split at hb
          · cases hb
            rfl
          · cases hb
      rw [List.map_cons, hn, ih hbs]

lemma shape_stretch? {l l' : Layout} (h : l.stretch? shape = some l') : l'.shape = shape := by
  obtain ⟨axes, haxes, rfl⟩ := Option.map_eq_some_iff.1 h
  rw [Layout.shape, List.map_reverse, lengths_stretchAxes? haxes, List.reverse_reverse]

end Layout

/-- Shapes of one length are joined axis by axis. -/
lemma joinShapes?_spec {a b s : List Nat} (h : joinShapes? a b = some s)
    (hlen : a.length = b.length) :
    List.Forall₂ (fun p n => joinLength? p.1 p.2 = some n) (a.zip b) s := by
  have hrev : ∀ {xs ys zs : List Nat}, joinReversed? xs ys = some zs → xs.length = ys.length →
      List.Forall₂ (fun p n => joinLength? p.1 p.2 = some n) (xs.zip ys) zs := by
    intro xs
    induction xs with
    | nil =>
      intro ys zs h hl
      obtain rfl := List.length_eq_zero_iff.1 hl.symm
      cases h
      exact .nil
    | cons x xs ih =>
      intro ys zs h hl
      cases ys with
      | nil => cases hl
      | cons y ys =>
        simp only [joinReversed?, Option.bind_eq_bind, Option.bind_eq_some_iff] at h
        obtain ⟨n, hn, ns, hns, h⟩ := h
        cases h
        exact .cons hn (ih hns (Nat.succ.inj hl))
  obtain ⟨zs, hzs, rfl⟩ := Option.map_eq_some_iff.1 h
  have hz := List.rel_reverse (hrev hzs (by simpa using hlen))
  have hzip : (a.reverse.zip b.reverse).reverse = a.zip b := by
    rw [List.zip, List.reverse_zipWith (by simpa using hlen), List.reverse_reverse,
      List.reverse_reverse]
  rwa [hzip] at hz

namespace Tensor

variable {store : Store}

/-- An array made from a list of elements sees that list. -/
lemma elements_ofElements {kind : Kind} {shape : List Nat} {xs : List Elem}
    (h : xs.length = shape.foldr (· * ·) 1) : (ofElements kind shape xs).elements store = xs := by
  have hoffsets : (ofElements kind shape xs).layout.offsets = List.range xs.length := by
    rw [h]
    exact (Layout.offsetsFrom_rowMajor 0).trans (by simp)
  rw [elements, hoffsets]
  refine List.ext_getElem (by simp) fun i hi hi' => ?_
  simp [ofElements, cells, Array.getD, hi']

lemma length_elements (t : Tensor) : (t.elements store).length = t.shape.foldr (· * ·) 1 := by
  rw [elements, List.length_map]
  exact t.layout.length_offsets

/-- An array without axes sees its first element only. -/
lemma elements_of_axes_nil {t : Tensor} (h : t.layout.axes = []) :
    t.elements store = [t.first store] := by
  simp [elements, first, Layout.offsets, h, Layout.offsetsFrom]

/-- An array sees only elements of another one, if it is laid out over the same elements and its
offsets are among those of the other. -/
lemma elements_subset {t t' : Tensor} (hs : t'.source = t.source)
    (ho : t'.layout.offsets ⊆ t.layout.offsets) : t'.elements store ⊆ t.elements store := by
  have hcells : t'.cells store = t.cells store := by simp only [cells, hs]
  simp only [elements, hcells]
  exact List.map_subset _ ho

lemma selectFrom_spec {axis : Nat} {l l' : Layout} {indices : List Int}
    (h : selectFrom axis l indices = .ok l') (hlen : indices.length ≤ l.axes.length) :
    l'.axes = l.axes.drop indices.length ∧ l'.offsets ⊆ l.offsets := by
  induction indices generalizing axis l with
  | nil =>
    cases h
    exact ⟨rfl, List.Subset.refl _⟩
  | cons i rest ih =>
    obtain ⟨offset, axes⟩ := l
    cases axes with
    | nil => exact absurd hlen (by simp)
    | cons a axes =>
      simp only [selectFrom] at h
      split at h
      · cases h
      · next hbounds =>
        obtain ⟨haxes, hsub⟩ := ih h (Nat.le_of_succ_le_succ hlen)
        refine ⟨haxes, fun o ho => Layout.offsets_sub_subset rfl ?_ (hsub ho)⟩
        split <;> omega

/-- What indices select has the remaining axes and sees only elements of the array. -/
lemma select_spec {t part : Tensor} {indices : List Int} (h : t.select indices = .ok part) :
    part.source = t.source ∧ indices.length ≤ t.layout.axes.length ∧
      part.layout.axes = t.layout.axes.drop indices.length ∧
      part.elements store ⊆ t.elements store := by
  unfold select at h
  split at h
  · cases h
  · next hlen =>
    have hle : indices.length ≤ t.layout.axes.length := Nat.not_lt.1 hlen
    cases hsel : selectFrom 0 t.layout indices with
    | error e =>
      rw [hsel] at h
      cases h
    | ok l =>
      rw [hsel] at h
      cases h
      obtain ⟨haxes, hsub⟩ := selectFrom_spec hsel hle
      exact ⟨rfl, hle, haxes, elements_subset rfl hsub⟩

end Tensor

end MatScript
