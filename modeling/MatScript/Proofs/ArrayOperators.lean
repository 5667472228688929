import MatScript.Proofs.TypedValues

/-! Operators on arrays and on elements of arrays. Where the check admits the types of the
operands, a result has the type that it computes, with two reservations: sums and products of truth
values stay truth values element by element, and an axis of length one is stretched to an axis of
another length, if the check does not know that length. -/
namespace MatScript

lemma except_bind_eq_ok {ε α β : Type} {x : Except ε α} {f : α → Except ε β} {b : β} :
    (x >>= f) = .ok b ↔ ∃ a, x = .ok a ∧ f a = .ok b := by
  cases x with
  | error e => simp [bind, Except.bind]
  | ok a => simp [bind, Except.bind]

lemma forall₂_of_mapM {ε α β : Type} {f : α → Except ε β} {xs : List α} {ys : List β}
    (h : xs.mapM f = .ok ys) : List.Forall₂ (fun x y => f x = .ok y) xs ys := by
  induction xs generalizing ys with
  | nil =>
    cases h
    exact .nil
  | cons x xs ih =>
    rw [List.mapM_cons] at h
    obtain ⟨y, hy, h⟩ := except_bind_eq_ok.1 h
    obtain ⟨zs, hzs, h⟩ := except_bind_eq_ok.1 h
    cases h
    exact .cons hy (ih hzs)

section

variable {store : Store} {v a b : Value} {A B R : BaseType} {t : Ty} {dims : List (Option Int)}

/-! ## Values as arrays -/

namespace Value

lemma shape_toTensor {use : Use} {other : Kind} {x : Tensor} (h : v.toTensor use other = .ok x) :
    x.shape = v.itemShape := by
  cases v with
  | none => cases h
  | int n =>
    obtain ⟨e, -, he⟩ := except_bind_eq_ok.1 h
    cases he
    rfl
  | _ =>
    cases h
    rfl

lemma Typed.kind? (h : v.Typed store ⟨some A, dims⟩) :
    ∃ k, v.kind? store = some k ∧ k.base = A := by
  cases h.hasType with
  | scalar hb =>
    cases v with
    | elem e =>
      cases hb
      exact ⟨_, rfl, e.base_kind⟩
    | none | range _ _ | array _ => cases hb
    | _ =>
      cases hb
      exact ⟨_, rfl, rfl⟩
  | array _ _ => exact ⟨_, rfl, rfl⟩

lemma Typed.itemShape (h : v.Typed store t) : ShapeFits v.itemShape t.shape := by
  cases h.hasType with
  | scalar hb =>
    cases v with
    | range _ _ | array _ => cases hb
    | _ => exact .nil
  | array _ hs => exact hs

end Value

lemma Elem.base_of_cast {kind : Kind} {e e' : Elem} (h : e.cast kind = .ok e') :
    e'.base = kind.base := by
  unfold cast at h
  cases kind with
  | bool | text _ =>
    cases h
    rfl
  | int =>
    dsimp only at h
    split at h
    · split at h
      · split at h
        · cases h
          rfl
        · cases h
      · cases h
    · cases h
      rfl
  | float =>
    dsimp only at h
    split at h
    · split at h
      · cases h
        rfl
      · cases h
    · cases h
      rfl

/-! ## Element by element -/

lemma Arith.base_onElements (op : Arith) (k : Kind) (x y : Elem) :
    (op.onElements k x y).base = k.base := by cases k <;> rfl

/-- The kind of an element-wise result has the base type of the table, sums and products of truth
values apart. -/
lemma Arith.base_resultKind {op : ScalarOperator} {f : Arith} (hf : op.arith? = some f)
    {j k kind : Kind} (h : f.resultKind j k = .ok kind) (hr : op.binary? j.base k.base = some R)
    (hexact : f = .add ∨ f = .multiply → ¬(j.base = .bool ∧ k.base = .bool)) : kind.base = R := by
  cases op <;> cases hf <;> cases j <;> cases k <;> cases hr <;> cases h <;>
    first | rfl | exact absurd ⟨rfl, rfl⟩ (hexact (by simp))

/-- Combined arrays are stretched to the joined shape; without axes they give an element. -/
lemma typed_combine {kind : Kind} {f : Elem → Elem → Elem} {x y : Tensor}
    (hf : ∀ e e', (f e e').base = kind.base) (h : Tensor.combine store kind f x y = .ok v)
    (hs : ∀ s, joinShapes? x.shape y.shape = some s → ShapeFits s dims) :
    v.Typed store ⟨some kind.base, dims⟩ := by
  unfold Tensor.combine at h
  dsimp only at h
  split at h
  · cases h
  · next s x' y' hjoin =>
    simp only [Option.bind_eq_bind, Option.bind_eq_some_iff] at hjoin
    obtain ⟨s', hs', l, hl, l', hl', hjoin⟩ := hjoin
    cases hjoin
    have hfits := hs s hs'
    have hlen : (List.zipWith f (Tensor.elements store { x with layout := x' })
        (Tensor.elements store { y with layout := y' })).length = s.foldr (· * ·) 1 := by
      rw [List.length_zipWith, Tensor.length_elements, Tensor.length_elements]
      simp only [Tensor.shape, Layout.shape_stretch? hl, Layout.shape_stretch? hl', Nat.min_self]
    have hbase : ∀ e ∈ List.zipWith f (Tensor.elements store { x with layout := x' })
        (Tensor.elements store { y with layout := y' }), e.base = kind.base := by
      intro e he
      rw [← List.map_uncurry_zip_eq_zipWith] at he
      obtain ⟨p, -, rfl⟩ := List.mem_map.1 he
      exact hf p.1 p.2
    generalize List.zipWith f (Tensor.elements store { x with layout := x' })
      (Tensor.elements store { y with layout := y' }) = xs at h hlen hbase
    cases s with
    | nil =>
      obtain ⟨e, rfl⟩ := List.length_eq_one_iff.1 hlen
      cases h
      cases hfits
      exact .scalar (congrArg some (hbase e List.mem_cons_self))
    | cons n s =>
      cases h
      refine Value.typed_ofElements hlen hbase hfits ?_
      rintro rfl
      cases hfits

/-- A dimension known to be one beside an unknown one: an axis of length one is stretched to any
length. -/
def stretches : Option Int → Option Int → Bool
  | some n, Option.none | Option.none, some n => n = 1
  | _, _ => false

/-- Two dimensions that are not known to differ, and none of them is stretched to a length that the
check does not know. -/
def DimsFit (x y : Option Int) : Prop := (∀ i ∈ x, ∀ j ∈ y, i = j) ∧ stretches x y = false

lemma joined_eq_mergeDim {m n k : Nat} {x y : Option Int} (hm : ∀ i ∈ x, (m : Int) = i)
    (hn : ∀ j ∈ y, (n : Int) = j) (hxy : DimsFit x y) (h : joinLength? m n = some k) :
    ∀ i ∈ Typing.mergeDim x y, (k : Int) = i := by
  obtain ⟨hsame, hstretch⟩ := hxy
  intro i hi
  unfold joinLength? at h
  cases x with
  | none =>
    -- the second dimension is the known one
    obtain rfl : y = some i := hi
    have hi := hn i rfl
    have hone : i ≠ 1 := by simpa [stretches] using hstretch
    grind
  | some j =>
    have hj := hm j rfl
    cases y with
    | none =>
      have hone : j ≠ 1 := by simpa [stretches] using hstretch
      grind [Typing.mergeDim]
    | some j' =>
      have hj' := hn j' rfl
      have heq := hsame j rfl j' rfl
      grind [Typing.mergeDim]

lemma ShapeFits.join {as bs s : List Nat} {xs ys : List (Option Int)} (ha : ShapeFits as xs)
    (hb : ShapeFits bs ys) (hxy : List.Forall₂ DimsFit xs ys) (h : joinShapes? as bs = some s) :
    ShapeFits s (List.zipWith Typing.mergeDim xs ys) := by
  have hlen : as.length = bs.length :=
    ha.length_eq.trans (hxy.length_eq.trans hb.length_eq.symm)
  have hspec := joinShapes?_spec h hlen
  clear h hlen
  induction hxy generalizing as bs s with
  | nil =>
    cases ha
    cases hspec
    exact .nil
  | cons hd _ ih =>
    obtain ⟨m, as, hm, has, rfl⟩ := List.forall₂_cons_right_iff.1 ha
    obtain ⟨n, bs, hn, hbs, rfl⟩ := List.forall₂_cons_right_iff.1 hb
    obtain ⟨k, s, hk, hs, rfl⟩ := List.forall₂_cons_left_iff.1 hspec
    exact .cons (joined_eq_mergeDim hm hn hd hk) (ih has hbs hs)

/-- Arithmetic element by element follows the table of its operator. -/
lemma typed_elementArith {op : ScalarOperator} {f : Arith} {xs ys : List (Option Int)}
    (hf : op.arith? = some f) (ha : a.Typed store ⟨some A, xs⟩) (hb : b.Typed store ⟨some B, ys⟩)
    (hr : op.binary? A B = some R)
    (hexact : f = .add ∨ f = .multiply → ¬(A = .bool ∧ B = .bool))
    (hxy : List.Forall₂ DimsFit xs ys) (h : a.elementArith store f b = .ok v) :
    v.Typed store ⟨some R, List.zipWith Typing.mergeDim xs ys⟩ := by
  obtain ⟨j, hj, rfl⟩ := ha.kind?
  obtain ⟨k, hk, rfl⟩ := hb.kind?
  unfold Value.elementArith at h
  simp only [hj, hk] at h
  obtain ⟨kind, hkind, h⟩ := except_bind_eq_ok.1 h
  obtain ⟨x, hx, h⟩ := except_bind_eq_ok.1 h
  obtain ⟨y, hy, h⟩ := except_bind_eq_ok.1 h
  obtain rfl := Arith.base_resultKind hf hkind hr hexact
  refine typed_combine (f.base_onElements kind) h fun s hs => ?_
  rw [Value.shape_toTensor hx, Value.shape_toTensor hy] at hs
  exact ha.itemShape.join hb.itemShape hxy hs

/-! ## Scalars -/

lemma Value.baseType?_of_base? (h : a.base? = some A) (he : a.isElementwise = false) :
    a.baseType? = some A := by
  cases a with
  | elem _ => cases he
  | _ => exact h

lemma text?_isSome_of_base? (h : a.base? = some .text) : a.text?.isSome = true := by
  cases a with
  | elem e =>
    cases e with
    | text s => rfl
    | _ => cases h
  | text s => rfl
  | _ => cases h

lemma Value.base?_of_scalarType? (h : a.scalarType? = some ⟨some A, []⟩) : a.base? = some A := by
  cases a <;> cases h <;> rfl

/-- With an element that is no text, arithmetic goes element by element. -/
lemma arith_of_isElementwise {op : Arith} (ha : a.base? = some A) (hb : b.base? = some B)
    (hA : A ≠ .text) (hB : B ≠ .text) (he : a.isElementwise = true ∨ b.isElementwise = true) :
    a.arith store op b = a.elementArith store op b := by
  have htext : ∀ {v : Value} {C : BaseType}, v.base? = some C → C ≠ .text → v.text? = Option.none := by
    intro v C hv hC
    cases v with
    | elem e =>
      cases e with
      | text s =>
        cases hv
        exact absurd rfl hC
      | _ => rfl
    | text s =>
      cases hv
      exact absurd rfl hC
    | _ => rfl
  have hta := htext ha hA
  have htb := htext hb hB
  unfold Value.arith
  rw [if_neg (by simp [hta, htb])]
  split
  · cases hta
  · cases htb
  · cases hta
  · cases htb
  · rw [if_pos he]

lemma base_arith {op : ScalarOperator} {f : Arith} (hf : op.arith? = some f)
    (ha : a.base? = some A) (hb : b.base? = some B) (hr : op.binary? A B = some R)
    (hexact : f = .add ∨ f = .multiply → ¬(A = .bool ∧ B = .bool))
    (h : a.arith store f b = .ok v) : v.base? = some R := by
  rcases binary?_eq_some hr with ⟨ht, rfl, rfl⟩ | ⟨hA, hB⟩
  · -- a sum with a text joins the texts of both
    cases hf
    have htext : a.text?.isSome ∨ b.text?.isSome := by
      rcases ht with rfl | rfl
      · exact .inl (text?_isSome_of_base? ha)
      · exact .inr (text?_isSome_of_base? hb)
    unfold Value.arith at h
    rw [if_pos ⟨rfl, htext⟩] at h
    obtain ⟨_, -, h⟩ := except_bind_eq_ok.1 h
    obtain ⟨_, -, h⟩ := except_bind_eq_ok.1 h
    cases h
    rfl
  · by_cases he : a.isElementwise = true ∨ b.isElementwise = true
    · rw [arith_of_isElementwise ha hb hA hB he] at h
      exact (typed_elementArith hf (.scalar ha) (.scalar hb) hr hexact .nil h).base?_eq rfl
    · simp only [not_or, Bool.not_eq_true] at he
      have hgives : Gives (a.arith store f b) ⟨some R, []⟩ :=
        gives_arith hf (Value.baseType?_of_base? ha he.1) (Value.baseType?_of_base? hb he.2) hr
      rw [h] at hgives
      exact Value.base?_of_scalarType? hgives

lemma base_elementCompare {c : Comparison} (ha : a.base? = some A) (hb : b.base? = some B)
    (h : a.elementCompare store c b = .ok v) : v.base? = some .bool := by
  have hta : a.Typed store ⟨some A, []⟩ := .scalar ha
  have htb : b.Typed store ⟨some B, []⟩ := .scalar hb
  obtain ⟨j, hj, -⟩ := hta.kind?
  obtain ⟨k, hk, -⟩ := htb.kind?
  unfold Value.elementCompare at h
  simp only [hj, hk] at h
  split at h
  · cases h
  · obtain ⟨x, hx, h⟩ := except_bind_eq_ok.1 h
    obtain ⟨y, hy, h⟩ := except_bind_eq_ok.1 h
    have hv : v.Typed store ⟨some .bool, []⟩ := by
      refine typed_combine (fun _ _ => rfl) h fun s hs => ?_
      rw [Value.shape_toTensor hx, Value.shape_toTensor hy] at hs
      exact hta.itemShape.join htb.itemShape .nil hs
    exact hv.base?_eq rfl

/-- Scalars compare to one truth value. -/
lemma base_compare {c : Comparison} (ha : a.base? = some A) (hb : b.base? = some B)
    (h : a.compare store c b = .ok v) : v.base? = some .bool := by
  unfold Value.compare at h
  split at h
  · cases ha
  · cases hb
  · split at h
    · cases h
      rfl
    · split at h
      · cases h
        rfl
      · cases h
    · split at h
      · cases h
        rfl
      · cases h
    · split at h
      · exact base_elementCompare ha hb h
      · split at h
        · cases h
          rfl
        · split at h
          · cases h
            rfl
          · cases h

lemma base_negate (ha : a.base? = some A) (hr : ScalarOperator.negate.unary? A = some R)
    (h : a.negate store = .ok v) : v.base? = some R := by
  by_cases he : a.isElementwise = true
  · cases a with
    | elem e => cases e <;> cases ha <;> cases hr <;> cases h <;> rfl
    | array x => cases ha
    | _ => cases he
  · have hgives : Gives (a.negate store) ⟨some R, []⟩ :=
      gives_negate (Value.baseType?_of_base? ha (by simpa using he)) hr
    rw [h] at hgives
    exact Value.base?_of_scalarType? hgives

/-! ## Vectors and matrices -/

lemma Kind.base_join {j k : Kind} (hj : j.base = A) (hk : k.base = A) : (j.join k).base = A := by
  subst hj
  cases j <;> cases k <;> first | rfl | cases hk

/-- Kinds that are all of truth values or all of others. -/
lemma Kind.bool_join {p : Prop} {j k : Kind} (hj : j.base = .bool ↔ p) (hk : k.base = .bool ↔ p) :
    (j.join k).base = .bool ↔ p := by
  cases j <;> cases k <;> simp_all [Kind.join, Kind.base]

/-- An integer of 64 bits. -/
def FitsWord (n : Int) : Prop := -wordBound ≤ n ∧ n < wordBound

instance (n : Int) : Decidable (FitsWord n) := inferInstanceAs (Decidable (_ ∧ _))

namespace Demand

/-- The base type of the elements, if some kind holds them or they are integers without a sign. -/
def base? : Demand → Option BaseType
  | kind k => some k.base
  | unsigned => some .int
  | other => none

lemma base?_ofInt {n : Int} (h : (ofInt n).base? = some A) : A = .int := by
  unfold ofInt at h
  split at h
  · cases h
    rfl
  · split at h
    · cases h
      rfl
    · cases h

/-- What joining two demands keeps, joining many keeps. -/
lemma foldl_join {P : Demand → Prop} (hP : ∀ {d e : Demand}, P d → P e → P (d.join e)) {d : Demand}
    {ds : List Demand} (hd : P d) (hds : ∀ e ∈ ds, P e) : P (ds.foldl Demand.join d) := by
  induction ds generalizing d with
  | nil => exact hd
  | cons e ds ih =>
    rw [List.foldl_cons]
    exact ih (hP hd (hds e List.mem_cons_self)) fun i hi => hds i (List.mem_cons_of_mem _ hi)

/-- Kinds of one base type ask together for a kind of this base type. -/
lemma kind_join {d e : Demand} (hd : ∃ k, d = .kind k ∧ k.base = A)
    (he : ∃ k, e = .kind k ∧ k.base = A) : ∃ k, d.join e = .kind k ∧ k.base = A := by
  obtain ⟨j, rfl, hj⟩ := hd
  obtain ⟨k, rfl, hk⟩ := he
  exact ⟨j.join k, rfl, Kind.base_join hj hk⟩

lemma bool_join {p : Prop} {d e : Demand} (hd : ∀ A ∈ d.base?, A = .bool ↔ p)
    (he : ∀ A ∈ e.base?, A = .bool ↔ p) : ∀ A ∈ (d.join e).base?, A = .bool ↔ p := by
  cases d with
  | other => exact fun A hA => nomatch hA
  | kind j =>
    cases e with
    | other => exact fun A hA => nomatch hA
    | kind k =>
      rintro _ ⟨⟩
      exact Kind.bool_join (hd _ rfl) (he _ rfl)
    | unsigned => cases j <;> simp_all [join, base?, Kind.base]
  | unsigned =>
    cases e with
    | other => exact fun A hA => nomatch hA
    | kind k => cases k <;> simp_all [join, base?, Kind.base]
    | unsigned => exact hd

end Demand

/-- A value of a type asks for elements of its base type, or it is an integer with more than 64
bits. -/
lemma Value.Typed.demand? (h : v.Typed store ⟨some A, dims⟩) :
    (∃ k, v.demand? store = some (.kind k) ∧ k.base = A) ∨
      ∃ n, v = .int n ∧ ¬FitsWord n ∧ A = .int := by
  obtain ⟨k, hk, hbase⟩ := h.kind?
  by_cases hint : ∃ n, v = .int n
  · obtain ⟨n, rfl⟩ := hint
    cases hk
    by_cases hn : FitsWord n
    · exact .inl ⟨.int, congrArg some (if_pos hn), hbase⟩
    · exact .inr ⟨n, rfl, hn, hbase.symm⟩
  · refine .inl ⟨k, ?_, hbase⟩
    cases v with
    | int n => exact absurd ⟨n, rfl⟩ hint
    | none => cases hk
    | range i j => cases h.hasType with | scalar hb => cases hb
    | _ => exact congrArg (Option.map Demand.kind) hk

lemma Value.Typed.exists_demand? (h : v.Typed store t) : ∃ d, v.demand? store = some d := by
  obtain ⟨_, dims⟩ := t
  obtain ⟨A, hA⟩ := h.exists_base
  cases hA
  rcases h.demand? with ⟨k, hk, -⟩ | ⟨n, rfl, -, -⟩
  · exact ⟨_, hk⟩
  · exact ⟨_, rfl⟩

lemma base_of_mapM_cast {kind : Kind} {xs ys : List Elem} (h : xs.mapM (Elem.cast kind) = .ok ys) :
    ys.length = xs.length ∧ ∀ e ∈ ys, e.base = kind.base := by
  have hall := forall₂_of_mapM h
  refine ⟨hall.length_eq.symm, fun e he => ?_⟩
  obtain ⟨i, hi, rfl⟩ := List.getElem_of_mem he
  exact Elem.base_of_cast (hall.get (hall.length_eq ▸ hi) hi)

lemma base_of_intAs {kind : Kind} {n : Int} {e : Elem} (h : Value.intAs kind n = .ok e) :
    e.base = kind.base := by
  unfold Value.intAs at h
  split at h
  · cases h
    rfl
  · obtain ⟨e', -, h⟩ := except_bind_eq_ok.1 h
    exact Elem.base_of_cast h

lemma elementsAs_spec {kind : Kind} {xs : List Elem} (h : v.elementsAs store kind = .ok xs) :
    xs.length = v.itemShape.foldr (· * ·) 1 ∧ ∀ e ∈ xs, e.base = kind.base := by
  unfold Value.elementsAs at h
  split at h
  · obtain ⟨e, he, h⟩ := except_bind_eq_ok.1 h
    cases h
    exact ⟨rfl, List.forall_mem_singleton.2 (base_of_intAs he)⟩
  · next i j =>
    have hall := forall₂_of_mapM h
    have hlen : xs.length = Value.rangeLength i j := by rw [← hall.length_eq, List.length_range]
    refine ⟨by simpa [Value.itemShape] using hlen, fun e he => ?_⟩
    obtain ⟨k, hk, rfl⟩ := List.getElem_of_mem he
    exact base_of_intAs (hall.get (hall.length_eq ▸ hk) hk)
  · obtain ⟨x, hx, h⟩ := except_bind_eq_ok.1 h
    obtain ⟨hlen, hbase⟩ := base_of_mapM_cast h
    rw [Tensor.length_elements, Value.shape_toTensor hx] at hlen
    exact ⟨hlen, hbase⟩

/-- The elements of items of one shape, one after another. -/
lemma elementsAll_spec {kind : Kind} {vs : List Value} {yss : List (List Elem)} {shape : List Nat}
    (h : vs.mapM (Value.elementsAs store kind) = .ok yss) (hs : ∀ w ∈ vs, w.itemShape = shape) :
    yss.flatten.length = vs.length * shape.foldr (· * ·) 1 ∧
      ∀ e ∈ yss.flatten, e.base = kind.base := by
  have hall := forall₂_of_mapM h
  have hitems : ∀ ys ∈ yss, ys.length = shape.foldr (· * ·) 1 ∧ ∀ e ∈ ys, e.base = kind.base := by
    intro ys hys
    obtain ⟨i, hi, rfl⟩ := List.getElem_of_mem hys
    have hi' : i < vs.length := hall.length_eq ▸ hi
    have hspec := elementsAs_spec (hall.get hi' hi)
    rwa [hs _ (List.get_mem vs ⟨i, hi'⟩)] at hspec
  constructor
  · have hlengths : ∀ n ∈ yss.map List.length, n = shape.foldr (· * ·) 1 := by
      intro n hn
      obtain ⟨ys, hys, rfl⟩ := List.mem_map.1 hn
      exact (hitems ys hys).1
    rw [List.length_flatten, List.sum_eq_card_nsmul _ _ hlengths, List.length_map, hall.length_eq,
      smul_eq_mul]
  · intro e he
    obtain ⟨ys, hys, he⟩ := List.mem_flatten.1 he
    exact (hitems ys hys).2 e he

/-- A vector of values has one axis more than they have, and the kind that they ask for together. -/
lemma vector_spec {vs : List Value} (hvs : ∀ w ∈ vs, ∃ t, w.Typed store t) (hne : vs ≠ [])
    (h : Value.vector store vs = .ok v) :
    ∃ d ds kind, vs.filterMap (Value.demand? store) = d :: ds ∧
      ds.foldl Demand.join d = .kind kind ∧
      ∀ w ∈ vs, ∀ dims, ShapeFits w.itemShape dims →
        v.Typed store ⟨some kind.base, some (vs.length : Int) :: dims⟩ := by
  unfold Value.vector at h
  dsimp only at h
  split at h
  · cases h
  split at h
  · cases h
  · next hsame =>
    generalize commonShape (vs.map Value.itemShape) = shape at h hsame
    have hshape : ∀ w ∈ vs, w.itemShape = shape := by
      intro w hw
      by_contra hne
      exact hsame (List.any_eq_true.2 ⟨_, List.mem_map_of_mem hw, by simpa using hne⟩)
    split at h
    · next hnil =>
      obtain ⟨w, hw⟩ := List.exists_mem_of_ne_nil vs hne
      obtain ⟨t, ht⟩ := hvs w hw
      obtain ⟨d, hd⟩ := ht.exists_demand?
      have hmem := List.mem_filterMap.2 ⟨w, hw, hd⟩
      rw [hnil] at hmem
      cases hmem
    · next d ds hcons =>
      split at h
      · next kind hkind =>
        obtain ⟨yss, hyss, h⟩ := except_bind_eq_ok.1 h
        cases h
        refine ⟨d, ds, kind, hcons, hkind, fun w hw dims hdims => ?_⟩
        obtain ⟨hlen, helements⟩ := elementsAll_spec hyss hshape
        refine Value.typed_ofElements hlen helements (.cons ?_ ?_) (List.cons_ne_nil _ _)
        · rintro n ⟨⟩
          rfl
        · rwa [← hshape w hw]
      · cases h

/-- A vector holds truth values if its items are truth values, and others if they are not. -/
lemma bool_vector {p : Prop} {vs : List Value}
    (hvs : ∀ w ∈ vs, ∃ B dims, (B = .bool ↔ p) ∧ w.Typed store ⟨some B, dims⟩) (hne : vs ≠ [])
    (h : Value.vector store vs = .ok v) :
    ∃ C, (C = .bool ↔ p) ∧ ∀ w ∈ vs, ∀ dims, ShapeFits w.itemShape dims →
      v.Typed store ⟨some C, some (vs.length : Int) :: dims⟩ := by
  have htyped : ∀ w ∈ vs, ∃ t, w.Typed store t := by
    intro w hw
    obtain ⟨B, dims, -, ht⟩ := hvs w hw
    exact ⟨_, ht⟩
  obtain ⟨d, ds, kind, hds, hkind, hv⟩ := vector_spec htyped hne h
  have hbool : ∀ e ∈ d :: ds, ∀ A ∈ e.base?, A = .bool ↔ p := by
    intro e he A hA
    rw [← hds] at he
    obtain ⟨w, hw, hew⟩ := List.mem_filterMap.1 he
    obtain ⟨B, dims, hB, ht⟩ := hvs w hw
    rcases ht.demand? with ⟨k, hk, rfl⟩ | ⟨n, rfl, -, rfl⟩
    · cases hew.symm.trans hk
      cases hA
      exact hB
    · cases hew
      rwa [Demand.base?_ofInt hA]
  rw [List.forall_mem_cons] at hbool
  have hjoin := Demand.foldl_join Demand.bool_join hbool.1 hbool.2
  rw [hkind] at hjoin
  exact ⟨kind.base, hjoin _ rfl, hv⟩

/-- Values of one base type ask together for a kind of this base type, if their integers have 64
bits. -/
lemma kind_of_demands {vs : List Value} {d : Demand} {ds : List Demand}
    (hvs : ∀ w ∈ vs, ∃ dims, w.Typed store ⟨some A, dims⟩) (hfit : ∀ n, .int n ∈ vs → FitsWord n)
    (hds : vs.filterMap (Value.demand? store) = d :: ds) :
    ∃ k, ds.foldl Demand.join d = .kind k ∧ k.base = A := by
  have hkinds : ∀ e ∈ d :: ds, ∃ k, e = .kind k ∧ k.base = A := by
    intro e he
    rw [← hds] at he
    obtain ⟨w, hw, hew⟩ := List.mem_filterMap.1 he
    obtain ⟨dims, ht⟩ := hvs w hw
    rcases ht.demand? with ⟨k, hk, hbase⟩ | ⟨n, rfl, hn, -⟩
    · exact ⟨k, Option.some.inj (hew.symm.trans hk), hbase⟩
    · exact absurd (hfit n hw) hn
  rw [List.forall_mem_cons] at hkinds
  exact Demand.foldl_join Demand.kind_join hkinds.1 hkinds.2

/-- A vector of values of one type, the integers among which have 64 bits. -/
lemma typed_vector {vs : List Value} (hvs : ∀ w ∈ vs, w.Typed store ⟨some A, dims⟩)
    (hfit : ∀ n, .int n ∈ vs → FitsWord n) (hne : vs ≠ []) (h : Value.vector store vs = .ok v) :
    v.Typed store ⟨some A, some (vs.length : Int) :: dims⟩ := by
  obtain ⟨d, ds, kind, hds, hkind, hv⟩ := vector_spec (fun w hw => ⟨_, hvs w hw⟩) hne h
  obtain ⟨k, hk, rfl⟩ := kind_of_demands (fun w hw => ⟨_, hvs w hw⟩) hfit hds
  cases hkind.symm.trans hk
  obtain ⟨w, hw⟩ := List.exists_mem_of_ne_nil vs hne
  exact hv w hw dims (hvs w hw).itemShape

lemma length_shapeOf {bytes : Nat} {ns : List Int} {shape : List Nat}
    (h : Value.shapeOf bytes ns = .ok shape) : shape = ns.map Int.toNat := by
  induction ns generalizing bytes shape with
  | nil =>
    cases h
    rfl
  | cons n ns ih =>
    simp only [Value.shapeOf] at h
    split at h
    · next hzero =>
      obtain ⟨rest, hrest, h⟩ := except_bind_eq_ok.1 h
      cases h
      simp [ih hrest, hzero]
    · split at h
      · cases h
      · split at h
        · cases h
        · obtain ⟨rest, hrest, h⟩ := except_bind_eq_ok.1 h
          cases h
          rw [ih hrest, List.map_cons]

lemma shapeFits_unknown (shape : List Nat) :
    ShapeFits shape (List.replicate shape.length Option.none) := by
  induction shape with
  | nil => exact .nil
  | cons n shape ih => exact .cons (fun k hk => nomatch hk) ih

lemma typed_filled {x : Float} {vs : List Value} (hne : vs ≠ [])
    (h : Value.filled store x vs = .ok v) :
    v.Typed store ⟨some .float, List.replicate vs.length Option.none⟩ := by
  unfold Value.filled at h
  split at h
  · cases h
  obtain ⟨ns, hns, h⟩ := except_bind_eq_ok.1 h
  obtain ⟨shape, hshape, h⟩ := except_bind_eq_ok.1 h
  cases h
  have hlen : vs.length = shape.length := by
    rw [length_shapeOf hshape, List.length_map, (forall₂_of_mapM hns).length_eq]
  rw [hlen]
  refine Value.typed_ofElements (by simp) (fun e he => ?_) (shapeFits_unknown shape) ?_
  · rw [List.eq_of_mem_replicate he]
    rfl
  · rw [← hlen, Ne, List.replicate_eq_nil_iff, List.length_eq_zero_iff]
    exact hne

lemma typed_identity {k : Value} (h : Value.identity store a b k = .ok v) :
    v.Typed store ⟨some .float, [Option.none, Option.none]⟩ := by
  obtain ⟨m, -, h⟩ := except_bind_eq_ok.1 h
  obtain ⟨n, -, h⟩ := except_bind_eq_ok.1 h
  obtain ⟨shape, hshape, h⟩ := except_bind_eq_ok.1 h
  obtain ⟨i, -, h⟩ := except_bind_eq_ok.1 h
  cases h
  obtain rfl := length_shapeOf hshape
  refine Value.typed_ofElements ?_ (fun e he => ?_) (shapeFits_unknown [m.toNat, n.toNat])
    (List.cons_ne_nil _ _)
  · simp [List.length_flatMap]
  · obtain ⟨r, -, he⟩ := List.mem_flatMap.1 he
    obtain ⟨c, -, rfl⟩ := List.mem_map.1 he
    rfl

/-- The axes of an array in reverse order. -/
lemma typed_transpose (ha : a.Typed store ⟨some A, dims⟩) (hne : dims ≠ [])
    (h : a.transpose = .ok v) : v.Typed store ⟨some A, dims.reverse⟩ := by
  cases dims with
  | nil => exact absurd rfl hne
  | cons d dims =>
    obtain ⟨x, rfl, rfl, hs, hu⟩ := ha.exists_array
    cases h
    have hsub : x.transpose.elements store ⊆ x.elements store :=
      Tensor.elements_subset rfl x.layout.offsets_transpose_subset
    have hshape : x.transpose.shape = x.shape.reverse := by
      simp [Tensor.shape, Tensor.transpose, Layout.shape, Layout.transpose]
    refine Value.Typed.array ?_ (by simp) ⟨hu.stored, fun e he => hu.elements e (hsub he)⟩
    rw [hshape]
    exact List.rel_reverse hs

/-! ## Parts of arrays -/

lemma length_indices {n : Int} {is : List Int} (hs : a.Typed store ⟨some A, [some n]⟩)
    (h : a.indices store = .ok is) : (is.length : Int) = n := by
  obtain ⟨x, rfl, -, hshape, -⟩ := hs.exists_array
  obtain ⟨k, rest, hk, hrest, hx⟩ := List.forall₂_cons_right_iff.1 hshape
  obtain rfl := List.forall₂_nil_right_iff.1 hrest
  simp only [Value.indices, hx] at h
  rw [← (forall₂_of_mapM h).length_eq, Tensor.length_elements, hx]
  simpa using hk n rfl

/-- Numbers do not select as truth values do. -/
lemma mask?_of_typed (hb : b.Typed store ⟨some B, dims⟩) (hB : B ≠ .bool) :
    b.mask? store = Option.none := by
  unfold Value.mask?
  split
  · split
    · next hkind =>
      refine absurd ?_ hB
      obtain ⟨k, hk, hbase⟩ := hb.kind?
      cases (congrArg some hkind).symm.trans hk
      exact hbase.symm
    · rfl
  · rfl

/-- A part of an array as a value: an array, or without axes one element. -/
lemma typed_ofTensor {part : Tensor} (hshape : ShapeFits part.shape dims)
    (hu : part.Uniform store) :
    (Value.ofTensor store part).Typed store ⟨some (part.kind store).base, dims⟩ := by
  unfold Value.ofTensor
  split
  · next hempty =>
    have hnil : part.layout.axes = [] := List.isEmpty_iff.1 hempty
    have hfirst : part.first store ∈ part.elements store := by
      rw [Tensor.elements_of_axes_nil hnil]
      exact List.mem_singleton.2 rfl
    rw [ShapeFits, Tensor.shape, Layout.shape, hnil] at hshape
    obtain rfl := List.forall₂_nil_left_iff.1 hshape
    exact .scalar (congrArg some (hu.elements _ hfirst))
  · next hempty =>
    refine .array hshape ?_ hu
    rintro rfl
    have hnil := List.forall₂_nil_right_iff.1 hshape
    rw [Tensor.shape, Layout.shape, List.map_eq_nil_iff] at hnil
    exact hempty (by rw [hnil]; rfl)

/-- The part that indices select. -/
lemma typed_index {n : Nat} (ha : a.Typed store ⟨some A, dims⟩)
    (hb : b.Typed store ⟨some B, [some (n : Int)]⟩) (hB : B ≠ .bool)
    (h : a.index store b = .ok v) : v.Typed store ⟨some A, dims.drop n⟩ := by
  have hmask : b.mask? store = Option.none := mask?_of_typed hb hB
  cases dims with
  | nil =>
    have hbase := ha.base?_eq rfl
    cases a with
    | elem e => cases e <;> simp [Value.index, hmask] at h
    | array x => cases hbase
    | _ => cases h
  | cons d dims =>
    obtain ⟨x, rfl, rfl, hs, hu⟩ := ha.exists_array
    simp only [Value.index, Value.part, hmask] at h
    obtain ⟨is, his, h⟩ := except_bind_eq_ok.1 h
    obtain ⟨part, hpart, h⟩ := except_bind_eq_ok.1 h
    cases h
    obtain rfl : is.length = n := by exact_mod_cast length_indices hb his
    have hspec : part.source = x.source ∧ is.length ≤ x.layout.axes.length ∧
        part.layout.axes = x.layout.axes.drop is.length ∧ part.elements store ⊆ x.elements store :=
      Tensor.select_spec hpart
    obtain ⟨hsource, -, haxes, hsub⟩ := hspec
    have hkind : part.kind store = x.kind store := by
      simp only [Tensor.kind, Tensor.cells, hsource]
    have hshape : ShapeFits part.shape ((d :: dims).drop is.length) := by
      have hdrop : part.shape = x.shape.drop is.length := by
        rw [Tensor.shape, Layout.shape, haxes, List.map_drop]
        rfl
      rw [hdrop]
      exact List.forall₂_drop _ hs
    rw [← hkind]
    refine typed_ofTensor hshape ⟨fun i hi => hu.stored i (hsource ▸ hi), fun e he => ?_⟩
    rw [hkind]
    exact hu.elements e (hsub he)

lemma base_toElement {kind : Kind} {e : Elem} (h : v.toElement store kind = .ok e) :
    e.base = kind.base := by
  unfold Value.toElement at h
  split at h
  · exact Elem.base_of_cast h
  · obtain ⟨b, -, h⟩ := except_bind_eq_ok.1 h
    cases h
    rfl
  · split at h
    · split at h
      · exact Elem.base_of_cast h
      · cases h
    · exact Elem.base_of_cast h
    · cases h
  · obtain ⟨b, -, h⟩ := except_bind_eq_ok.1 h
    cases h
    rfl
  · obtain ⟨w, -, h⟩ := except_bind_eq_ok.1 h
    cases h
    rfl
  · obtain ⟨x, -, h⟩ := except_bind_eq_ok.1 h
    cases h
    rfl
  · cases h
    rfl
  · cases h
  · cases h
  · obtain ⟨s, -, h⟩ := except_bind_eq_ok.1 h
    cases h
    rfl
  · obtain ⟨x, -, h⟩ := except_bind_eq_ok.1 h
    exact Elem.base_of_cast h

lemma base_spread {kind : Kind} {shape : List Nat} {refusal : List Nat → List Nat → RunError}
    {xs : List Elem} (h : v.spread store kind shape refusal = .ok xs) : ∀ e ∈ xs, e.base = kind.base := by
  unfold Value.spread at h
  dsimp only at h
  split at h
  · split at h
    · exact (base_of_mapM_cast h).2
    · cases h
  · split at h
    · exact (base_of_mapM_cast h).2
    · cases h
  · obtain ⟨e, he, h⟩ := except_bind_eq_ok.1 h
    cases h
    intro e' he'
    rw [List.eq_of_mem_replicate he']
    exact base_toElement he

lemma source_of_place {x part : Tensor} (h : Value.place store x b = .ok part) :
    part.source = x.source := by
  unfold Value.place at h
  split at h
  · unfold Tensor.mask at h
    dsimp only at h
    split at h
    · cases h
    · cases h
      rfl
  · obtain ⟨is, -, h⟩ := except_bind_eq_ok.1 h
    exact (@Tensor.select_spec store _ _ _ h).1

/-- What is assigned to a part of an array is converted to the kind of the array. An array that is
not stored is not changed. -/
lemma patch_spec {x : Tensor} {p : Patch} (h : (Value.array x).patch store b v = .ok p) :
    p.items = [] ∨ x.source = .stored p.index ∧
      ∀ item ∈ p.items, item.2.base = (x.kind store).base := by
  obtain ⟨part, hpart, h⟩ := except_bind_eq_ok.1 h
  have hsource : part.source = x.source := source_of_place hpart
  cases hpart' : part.source with
  | stored i =>
    right
    obtain ⟨xs, hbase, rfl⟩ : ∃ xs, (∀ e ∈ xs, Elem.base e = (x.kind store).base) ∧
        ⟨i, part.layout.offsets.zip xs⟩ = p := by
      simp only [hpart'] at h
      split at h
      · obtain ⟨e, he, h⟩ := except_bind_eq_ok.1 h
        cases h
        refine ⟨[e], fun e' he' => ?_, rfl⟩
        rw [List.mem_singleton.1 he']
        exact base_toElement he
      · obtain ⟨xs, hxs, h⟩ := except_bind_eq_ok.1 h
        cases h
        exact ⟨xs, base_spread hxs, rfl⟩
    exact ⟨hsource.symm.trans hpart', fun item hitem => hbase _ (List.of_mem_zip hitem).2⟩
  | own cells =>
    left
    simp only [hpart'] at h
    split at h
    all_goals
      obtain ⟨_, -, h⟩ := except_bind_eq_ok.1 h
      cases h
      rfl

lemma keeps_of_patch {p : Patch} (h : a.patch store b v = .ok p) :
    Store.Keeps store (p.apply store) := by
  cases a with
  | array x =>
    refine .patch fun item hitem => ?_
    rcases patch_spec h with hnone | ⟨hsource, hbase⟩
    · rw [hnone] at hitem
      cases hitem
    · have hkind : x.kind store = (store.getD p.index default).kind := by
        simp only [Tensor.kind, Tensor.cells, hsource]
      rw [← hkind]
      exact hbase item hitem
  | _ => cases h

end

end MatScript
