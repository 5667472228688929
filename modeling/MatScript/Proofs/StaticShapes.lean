import MatScript.Proofs.ElementOperators

/-! Static shapes. Where all dimensions are known, the check of vectors, transpositions, element-wise
arithmetic and selections computes the shapes that they have at run time, and none of them fails
otherwise than by an index out of bounds or by a vector with more axes than an array can have. -/
namespace MatScript

open Typing Run

/-- A type of numbers, with known dimensions. -/
def Ty.IsNumeric (t : Ty) : Prop :=
  (t.base = some .int ∨ t.base = some .float) ∧ ∀ d ∈ t.shape, d.isSome

/-- A number or an array of numbers of the type. A plain integer has 64 bits. -/
structure Value.Numeric (store : Store) (v : Value) (t : Ty) : Prop where
  typed : v.Typed store t
  numeric : t.IsNumeric
  fits : ∀ n, v = .int n → FitsWord n

/-! ## Shapes -/

lemma mapM_ok {ε α β : Type} {f : α → Except ε β} {xs : List α} (h : ∀ x ∈ xs, ∃ y, f x = .ok y) :
    ∃ ys, xs.mapM f = .ok ys := by
  induction xs with
  | nil => exact ⟨[], rfl⟩
  | cons x xs ih =>
    rw [List.forall_mem_cons] at h
    obtain ⟨y, hy⟩ := h.1
    obtain ⟨ys, hys⟩ := ih h.2
    rw [List.mapM_cons, hy, hys]
    exact ⟨y :: ys, rfl⟩

lemma commonShape_shared_self (s : List Nat) : commonShape.shared s s = s := by
  induction s with
  | nil => rfl
  | cons n s ih => simp [commonShape.shared, ih]

/-- Shapes that are all equal have that shape in common. -/
lemma commonShape_of_eq {s : List Nat} {shapes : List (List Nat)} (hne : shapes ≠ [])
    (h : ∀ r ∈ shapes, r = s) : commonShape shapes = s := by
  cases shapes with
  | nil => exact absurd rfl hne
  | cons r rest =>
    rw [List.forall_mem_cons] at h
    obtain ⟨rfl, h⟩ := h
    rw [commonShape]
    induction rest with
    | nil => rfl
    | cons r' rest ih =>
      rw [List.forall_mem_cons] at h
      rw [List.foldl_cons, h.1, commonShape_shared_self]
      exact ih (by simp) h.2

lemma joinShapes?_self (s : List Nat) : joinShapes? s s = some s := by
  have hreversed : ∀ s : List Nat, joinReversed? s s = some s := by
    intro s
    induction s with
    | nil => rfl
    | cons n s ih => simp [joinReversed?, joinLength?, ih]
  simp [joinShapes?, hreversed]

lemma Layout.stretch?_self (l : Layout) : l.stretch? l.shape = some l := by
  have haxes : ∀ axes : List Axis, stretchAxes? axes (axes.map Axis.length) = some axes := by
    intro axes
    induction axes with
    | nil => rfl
    | cons a axes ih => simp [stretchAxes?, stretchAxis?, ih]
  rw [stretch?, shape, ← List.map_reverse, haxes]
  simp

/-- Known dimensions are the lengths of the axes. -/
lemma ShapeFits.dims_eq {s : List Nat} {dims : List (Option Int)} (h : ShapeFits s dims)
    (hknown : ∀ d ∈ dims, d.isSome) : dims = s.map fun n : Nat => some (n : Int) := by
  induction h with
  | nil => rfl
  | cons hd _ ih =>
    rw [List.forall_mem_cons] at hknown
    obtain ⟨k, rfl⟩ := Option.isSome_iff_exists.1 hknown.1
    rw [List.map_cons, hd k rfl, ← ih hknown.2]

/-- Known dimensions that are not known to differ are equal. -/
lemma dims_eq_of_known {xs ys : List (Option Int)}
    (h : List.Forall₂ (fun x y => ∀ i ∈ x, ∀ j ∈ y, i = j) xs ys) (hx : ∀ d ∈ xs, d.isSome)
    (hy : ∀ d ∈ ys, d.isSome) : xs = ys := by
  induction h with
  | nil => rfl
  | cons hd _ ih =>
    rw [List.forall_mem_cons] at hx hy
    obtain ⟨i, rfl⟩ := Option.isSome_iff_exists.1 hx.1
    obtain ⟨j, rfl⟩ := Option.isSome_iff_exists.1 hy.1
    rw [hd i rfl j rfl, ih hx.2 hy.2]

lemma zipWith_mergeDim_self (dims : List (Option Int)) : List.zipWith mergeDim dims dims = dims := by
  induction dims with
  | nil => rfl
  | cons d dims ih =>
    cases d with
    | none => rw [List.zipWith_cons_cons, ih, mergeDim]
    | some n =>
      have hmerge : mergeDim (some n) (some n) = some n := ite_self (some n)
      rw [List.zipWith_cons_cons, ih, hmerge]

lemma dimsFit_self {dims : List (Option Int)} (h : ∀ d ∈ dims, d.isSome) :
    List.Forall₂ DimsFit dims dims := by
  refine List.forall₂_same.2 fun d hd => ?_
  obtain ⟨n, rfl⟩ := Option.isSome_iff_exists.1 (h d hd)
  refine ⟨?_, rfl⟩
  rintro i ⟨⟩ j ⟨⟩
  rfl

section

variable {store : Store} {a b v : Value} {A B R : BaseType} {f : Arith} {t u : Ty}

/-! ## Numbers and arrays of numbers -/

lemma isElementwise_of_combine {kind : Kind} {g : Elem → Elem → Elem} {x y : Tensor}
    (h : Tensor.combine store kind g x y = .ok v) : v.isElementwise = true := by
  unfold Tensor.combine at h
  dsimp only at h
  split at h
  · cases h
  · split at h <;> cases h <;> rfl

lemma combine_ok (store : Store) (kind : Kind) (g : Elem → Elem → Elem) {x y : Tensor}
    (h : x.shape = y.shape) : ∃ v, Tensor.combine store kind g x y = .ok v := by
  have hx : x.layout.stretch? x.shape = some x.layout := x.layout.stretch?_self
  have hy : y.layout.stretch? x.shape = some y.layout := h ▸ y.layout.stretch?_self
  unfold Tensor.combine
  simp only [← h, joinShapes?_self, hx, hy, Option.bind_eq_bind, Option.bind_some, Option.pure_def]
  split <;> exact ⟨_, rfl⟩

lemma Elem.cast_ok (kind : Kind) {e : Elem} (h : e.base ≠ .text) : ∃ e', e.cast kind = .ok e' := by
  cases e with
  | text s => exact absurd rfl h
  | _ => cases kind <;> exact ⟨_, rfl⟩

lemma intAs_ok (kind : Kind) {n : Int} (h : FitsWord n) : ∃ e, Value.intAs kind n = .ok e := by
  have hword : wordOfInt? n = some (.ofInt n) := if_pos h
  unfold Value.intAs
  split
  · exact ⟨_, rfl⟩
  · simp only [Use.element, hword]
    exact Elem.cast_ok kind (by simp [Elem.base])

/-- An index that is out of bounds is the only obstacle to a selection with few enough indices. -/
lemma Tensor.select_error {x : Tensor} {is : List Int} {e : RunError}
    (hlen : is.length ≤ x.layout.axes.length) (h : x.select is = .error e) :
    ∃ i axis n, e = .outOfBounds i axis n := by
  have hfrom : ∀ (is : List Int) (axis : Nat) (l : Layout), selectFrom axis l is = .error e →
      ∃ i axis n, e = .outOfBounds i axis n := by
    intro is
    induction is with
    | nil =>
      intro axis l h
      cases h
    | cons i is ih =>
      intro axis l h
      unfold selectFrom at h
      split at h
      · cases h
      · dsimp only at h
        split at h
        · cases h
          exact ⟨_, _, _, rfl⟩
        · exact ih _ _ h
  rw [select, if_neg hlen.not_gt] at h
  cases hl : selectFrom 0 x.layout is with
  | ok l =>
    rw [hl] at h
    cases h
  | error e' =>
    rw [hl] at h
    cases h
    exact hfrom is 0 x.layout hl

namespace Value.Numeric

lemma of_isElementwise (h : v.Typed store t) (ht : t.IsNumeric) (hv : v.isElementwise = true) :
    v.Numeric store t := by
  refine ⟨h, ht, ?_⟩
  rintro n rfl
  cases hv

lemma int {n : Int} (h : FitsWord n) : (Value.int n).Numeric store .int := by
  refine ⟨.scalar rfl, ⟨.inl rfl, by rintro d ⟨⟩⟩, ?_⟩
  rintro m ⟨⟩
  exact h

lemma float (x : Float) : (Value.float x).Numeric store .float := by
  refine ⟨.scalar rfl, ⟨.inr rfl, by rintro d ⟨⟩⟩, ?_⟩
  rintro m ⟨⟩

/-- The shape in the type is that of the value. -/
lemma shape_eq (h : v.Numeric store t) : t.shape = v.itemShape.map fun n : Nat => some (n : Int) :=
  h.typed.itemShape.dims_eq h.numeric.2

lemma itemShape_eq (ha : a.Numeric store t) (hb : b.Numeric store u) (h : t.shape = u.shape) :
    a.itemShape = b.itemShape := by
  have heq := ha.shape_eq.symm.trans (h.trans hb.shape_eq)
  refine List.map_injective_iff.2 (fun m n h => ?_) heq
  simpa using h

lemma exists_base (h : v.Numeric store t) : ∃ A, t.base = some A ∧ A ≠ .text ∧ A ≠ .bool := by
  rcases h.numeric.1 with hA | hA
  · exact ⟨.int, hA, by decide, by decide⟩
  · exact ⟨.float, hA, by decide, by decide⟩

/-- As an array it has elements of the base type. -/
lemma toTensor (h : v.Numeric store t) (use : Use) (k : Kind) :
    ∃ x, v.toTensor use k = .ok x ∧ ∀ e ∈ x.elements store, some e.base = t.base := by
  cases h.typed.hasType with
  | scalar hb =>
    cases v with
    | int n =>
      cases hb
      refine ⟨_, toTensor_int use k (h.fits n rfl), fun e he => ?_⟩
      obtain rfl := List.mem_singleton.1 he
      rfl
    | bool _ | float _ | text _ | elem _ =>
      cases hb
      refine ⟨_, rfl, fun e he => ?_⟩
      obtain rfl := List.mem_singleton.1 he
      rfl
    | _ => cases hb
  | array _ _ => exact ⟨_, rfl, fun e he => congrArg some ((h.typed.uniform _ rfl).elements e he)⟩

lemma elementsAs_ok (h : v.Numeric store t) (kind : Kind) :
    ∃ xs, v.elementsAs store kind = .ok xs := by
  unfold Value.elementsAs
  split
  · next n =>
    obtain ⟨e, he⟩ := intAs_ok kind (h.fits n rfl)
    rw [he]
    exact ⟨_, rfl⟩
  · cases h.typed.hasType with
    | scalar hb => cases hb
  · obtain ⟨x, hx, hbase⟩ := h.toTensor (.arith .add) kind
    obtain ⟨A, hA, htext, -⟩ := h.exists_base
    rw [hx]
    refine mapM_ok fun e he => Elem.cast_ok kind fun hcontra => htext ?_
    exact Option.some.inj (hA.symm.trans ((hbase e he).symm.trans (congrArg some hcontra)))

/-- A vector of values of one type takes their shape. -/
lemma commonShape_items {vs : List Value} (hvs : ∀ w ∈ vs, w.Numeric store u) (hne : vs ≠ []) :
    (commonShape (vs.map Value.itemShape)).length = u.shape.length ∧
      (vs.map Value.itemShape).any (· ≠ commonShape (vs.map Value.itemShape)) = false := by
  obtain ⟨w, hw⟩ := List.exists_mem_of_ne_nil vs hne
  have hshapes : ∀ s ∈ vs.map Value.itemShape, s = w.itemShape := by
    intro s hs
    obtain ⟨w', hw', rfl⟩ := List.mem_map.1 hs
    exact (hvs w' hw').itemShape_eq (hvs w hw) rfl
  rw [commonShape_of_eq (by simpa using hne) hshapes, (hvs w hw).shape_eq, List.length_map]
  refine ⟨rfl, List.any_eq_false.2 fun s hs => ?_⟩
  simpa using hshapes s hs

lemma vector_tooManyAxes {vs : List Value} (hvs : ∀ w ∈ vs, w.Numeric store u) (hne : vs ≠ [])
    (h : maxAxes ≤ u.shape.length) : Value.vector store vs = .error .tooManyAxes := by
  obtain ⟨hlen, hragged⟩ := commonShape_items hvs hne
  unfold Value.vector
  simp only [hragged, hlen]
  exact if_pos h

lemma vector_ok {vs : List Value} (hvs : ∀ w ∈ vs, w.Numeric store u) (hne : vs ≠ [])
    (h : u.shape.length < maxAxes) : ∃ v, Value.vector store vs = .ok v ∧
      v.Numeric store ⟨u.base, some (vs.length : Int) :: u.shape⟩ := by
  obtain ⟨w, hw⟩ := List.exists_mem_of_ne_nil vs hne
  obtain ⟨A, hA, -, -⟩ := (hvs w hw).exists_base
  obtain ⟨base, dims⟩ := u
  cases hA
  have hfit : ∀ n, .int n ∈ vs → FitsWord n := fun n hn => (hvs _ hn).fits n rfl
  have hok : ∃ v, Value.vector store vs = .ok v := by
    obtain ⟨hlen, hragged⟩ := commonShape_items hvs hne
    unfold Value.vector
    simp only [hragged, hlen]
    rw [if_neg (by simpa using h), if_neg (by decide)]
    split
    · exact ⟨_, rfl⟩
    · next d ds hds =>
      obtain ⟨kind, hkind, -⟩ := kind_of_demands (fun w hw => ⟨_, (hvs w hw).typed⟩) hfit hds
      obtain ⟨xss, hxss⟩ := mapM_ok fun w hw => (hvs w hw).elementsAs_ok kind
      simp only [hkind, hxss]
      exact ⟨_, rfl⟩
  obtain ⟨v, hv⟩ := hok
  have htyped := typed_vector (fun w hw => (hvs w hw).typed) hfit hne hv
  refine ⟨v, hv, htyped, ⟨(hvs w hw).numeric.1, ?_⟩, ?_⟩
  · rw [List.forall_mem_cons]
    exact ⟨rfl, (hvs w hw).numeric.2⟩
  · rintro n rfl
    cases htyped.hasType

/-- Arrays of one shape are combined element by element. -/
lemma elementArith {op : ScalarOperator} {dims : List (Option Int)}
    (ha : a.Numeric store ⟨some A, dims⟩) (hf : op.arith? = some f) (hb : b.Numeric store ⟨some B, dims⟩)
    (hR : op.binary? A B = some R) :
    ∃ v, a.elementArith store f b = .ok v ∧ v.Numeric store ⟨some R, dims⟩ := by
  obtain ⟨_, ⟨⟩, hA, hA'⟩ := ha.exists_base
  obtain ⟨_, ⟨⟩, hB, -⟩ := hb.exists_base
  have hok : ∃ v, a.elementArith store f b = .ok v ∧ v.isElementwise = true := by
    obtain ⟨j, hj, rfl⟩ := ha.typed.kind?
    obtain ⟨k, hk, rfl⟩ := hb.typed.kind?
    obtain ⟨x, hx, -⟩ := ha.toTensor (.arith f) k
    obtain ⟨y, hy, -⟩ := hb.toTensor (.arith f) j
    have hfollows : f.FollowsTable j.base k.base := ⟨by simp [hA, hB], fun h => hA' h.1⟩
    have hshape : x.shape = y.shape := by
      rw [Value.shape_toTensor hx, Value.shape_toTensor hy]
      exact ha.itemShape_eq hb rfl
    unfold Value.elementArith
    simp only [hj, hk, resultKind_numbers hfollows hA, hx, hy]
    obtain ⟨v, hv⟩ := combine_ok store _ (f.onElements _) hshape
    exact ⟨v, hv, isElementwise_of_combine hv⟩
  obtain ⟨v, hv, helem⟩ := hok
  have htyped := typed_elementArith hf ha.typed hb.typed hR (fun _ h => hA' h.1)
    (dimsFit_self ha.numeric.2) hv
  rw [zipWith_mergeDim_self] at htyped
  refine ⟨v, hv, of_isElementwise htyped ⟨?_, ha.numeric.2⟩ helem⟩
  rw [binary?_numbers hf hA hB hR]
  split
  · exact .inr rfl
  · exact .inl rfl

/-- A matrix can be transposed. -/
lemma transpose (h : v.Numeric store t) (hne : t.shape ≠ []) :
    ∃ w, v.transpose = .ok w ∧ w.Numeric store ⟨t.base, t.shape.reverse⟩ := by
  obtain ⟨x, hx, -⟩ := h.toTensor (.arith .add) .int
  obtain ⟨A, hA, -, -⟩ := h.exists_base
  obtain ⟨base, dims⟩ := t
  cases hA
  have hw : v.transpose = .ok (.array x.transpose) := by
    rw [Value.transpose, hx]
    rfl
  refine ⟨_, hw, of_isElementwise (typed_transpose h.typed hne hw) ⟨h.numeric.1, ?_⟩ rfl⟩
  simpa using h.numeric.2

/-- A vector of integers can be used as indices. -/
lemma indices_ok {n : Int} (h : v.Numeric store ⟨some .int, [some n]⟩) :
    ∃ is, v.indices store = .ok is := by
  obtain ⟨x, rfl, hkind, hshape, huniform⟩ := h.typed.exists_array
  obtain ⟨k, rest, -, hrest, hx⟩ := List.forall₂_cons_right_iff.1 hshape
  obtain rfl := List.forall₂_nil_right_iff.1 hrest
  simp only [Value.indices, hx]
  refine mapM_ok fun e he => ?_
  have hbase := (huniform.elements e he).trans hkind
  cases e <;> cases hbase
  exact ⟨_, rfl⟩

/-- Integers select a part of an array, unless one of them is out of bounds. -/
lemma index {vs : List Value} (ha : a.Numeric store t) (hvs : ∀ w ∈ vs, w.Numeric store .int)
    (hne : vs ≠ []) (hlen : vs.length ≤ t.shape.length) :
    ∃ i, Value.vector store vs = .ok i ∧
      ((∃ v, a.index store i = .ok v ∧ v.Numeric store ⟨t.base, t.shape.drop vs.length⟩) ∨
        ∃ j axis n, a.index store i = .error (.outOfBounds j axis n)) := by
  obtain ⟨i, hi, hvec⟩ := vector_ok hvs hne (by decide)
  refine ⟨i, hi, ?_⟩
  obtain ⟨A, hA, -, -⟩ := ha.exists_base
  obtain ⟨base, dims⟩ := t
  cases hA
  cases dims with
  | nil => exact absurd (List.length_eq_zero_iff.1 (Nat.le_zero.1 hlen)) hne
  | cons d dims =>
    obtain ⟨x, rfl, -, hshape, -⟩ := ha.typed.exists_array
    obtain ⟨is, his⟩ := hvec.indices_ok
    have hcount : is.length = vs.length := by exact_mod_cast length_indices hvec.typed his
    have hfew : is.length ≤ x.layout.axes.length := by
      have haxes : x.layout.axes.length = (d :: dims).length := by
        rw [← hshape.length_eq, Tensor.shape, Layout.shape, List.length_map]
      rw [hcount, haxes]
      exact hlen
    have hmask : i.mask? store = Option.none := mask?_of_typed hvec.typed (by decide)
    have hindex : (Value.array x).index store i = (x.select is).map (Value.ofTensor store) := by
      simp only [Value.index, Value.part, hmask, his]
      change (x.select is >>= fun part => pure (Value.ofTensor store part)) = _
      cases x.select is <;> rfl
    cases hselect : x.select is with
    | error e =>
      obtain ⟨j, axis, n, rfl⟩ := Tensor.select_error hfew hselect
      rw [hselect] at hindex
      exact .inr ⟨j, axis, n, hindex⟩
    | ok part =>
      rw [hselect] at hindex
      refine .inl ⟨_, hindex, of_isElementwise ?_ ⟨ha.numeric.1, ?_⟩ ?_⟩
      · exact typed_index ha.typed hvec.typed (by decide) hindex
      · exact fun d hd => ha.numeric.2 d (List.mem_of_mem_drop hd)
      · unfold Value.ofTensor
        split <;> rfl

end Value.Numeric

end

/-! ## Expressions -/

/-- Expressions of constants, names with a property, vectors, transpositions, arithmetic element by
element and selections. -/
inductive Expr.IsNumeric (P : String → Prop) : Expr → Prop
  | int {span : Span} {n : Int} (h : FitsWord n) : IsNumeric P (.constant span (.int n))
  | float {span : Span} {x : Float} : IsNumeric P (.constant span (.float x))
  | name {span : Span} {id : String} (h : P id) : IsNumeric P (.name span id)
  | vector {span : Span} {items : List Expr} (hne : items ≠ []) (h : ∀ e ∈ items, IsNumeric P e) :
    IsNumeric P (.vector span items)
  | transpose {span : Span} {e : Expr} (h : IsNumeric P e) : IsNumeric P (.operator span "'" [e])
  | dotted {span : Span} {d e : Expr} (f : Arith) (hd : IsNumeric P d) (he : IsNumeric P e) :
    IsNumeric P (.operator span ("." ++ f.symbol) [d, e])
  | element {span idSpan indexSpan : Span} {id : String} {indices : List Expr} (hid : P id)
    (h : ∀ e ∈ indices, IsNumeric P e) : IsNumeric P (.element span id idSpan indices indexSpan)

/-- If the table has a type for the name, it is one of numbers with known dimensions, and the value
in memory is of that type. -/
def Machine.Holds (m : Machine) (table : Scopes Ty) (id : String) : Prop :=
  ∀ t, table.get? id = some t → (m.lookup id).Numeric m.store t

/-- The evaluation fails: of a selection because an index is out of bounds, or of a vector because
its type has more dimensions than an array can have. -/
def Evaluation.Refused (st : Typing.State) (ev : Evaluation) (error : RunError) : Prop :=
  ev.expr.eval ev.machine = .error (.failed error) ev.machine ∧
    ((∃ span id idSpan indices indexSpan i axis n,
      ev.expr = .element span id idSpan indices indexSpan ∧ error = .outOfBounds i axis n) ∨
    ∃ span items t, ev.expr = .vector span items ∧ ev.expr.check .raising st = .ok t st ∧
      maxAxes < t.shape.length ∧ error = .tooManyAxes)

open Evaluation

section

variable {st st' : Typing.State} {m : Machine} {t : Ty}

/-- An error in one of the evaluations, which leaves all as it is. -/
def RefusedIn (st : Typing.State) (m : Machine) (evs : List Evaluation)
    (stop : Run.Stop) (m' : Machine) : Prop :=
  m' = m ∧ ∃ error, stop = .failed error ∧ ∃ ev ∈ evs, ev.Refused st error

/-- The place of an evaluation in the tree does not matter. -/
lemma RefusedIn.mono {evs evs' : List Evaluation} {stop : Run.Stop} {m' : Machine}
    (h : RefusedIn st m evs stop m')
    (hsub : ∀ ev ∈ evs, ∃ ev' ∈ evs', ev'.expr = ev.expr ∧ ev'.machine = ev.machine) :
    RefusedIn st m evs' stop m' := by
  obtain ⟨hm, error, hstop, ev, hev, hrefused⟩ := h
  obtain ⟨ev', hev', hexpr, hmachine⟩ := hsub ev hev
  refine ⟨hm, error, hstop, ev', hev', ?_⟩
  unfold Refused
  rwa [hexpr, hmachine]

lemma exists_under {evs evs' : List Evaluation} {i : Nat} (h : evs.map (under i) ⊆ evs') :
    ∀ ev ∈ evs, ∃ ev' ∈ evs', ev'.expr = ev.expr ∧ ev'.machine = ev.machine :=
  fun ev hev => ⟨ev.under i, h (List.mem_map_of_mem hev), rfl, rfl⟩

/-- If the expression is accepted, its value is of the type, or it fails in one of its parts. -/
def Expr.Shaped (st : Typing.State) (m : Machine) (e : Expr) : Prop :=
  ∀ t st', e.check .raising st = .ok t st' → st' = st ∧
    Ends (e.eval m) (fun v m' => m' = m ∧ v.Numeric m.store t) (RefusedIn st m (e.evaluations m))

/-- What holds of each expression of a list. -/
lemma Expr.shaped_all {es : List Expr} (h : ∀ e ∈ es, e.Shaped st m) {ts : List Ty}
    (hc : Expr.checkAll .raising es st = .ok ts st') (k : Nat) : st' = st ∧
      Ends (Expr.evalAll es m) (fun vs m' => m' = m ∧ List.Forall₂ (Value.Numeric m.store) vs ts)
        (RefusedIn st m (underFrom k (Expr.evaluationsAll es m))) := by
  induction es generalizing ts k with
  | nil =>
    simp only [Expr.checkAll] at hc
    cases hc
    refine ⟨rfl, ?_⟩
    simp only [Expr.evalAll]
    exact ⟨rfl, .nil⟩
  | cons e es ih =>
    rw [List.forall_mem_cons] at h
    simp only [Expr.checkAll] at hc
    obtain ⟨t, st₁, ht, hc⟩ := bind_eq_ok.mp hc
    obtain ⟨us, st₂, hus, hc⟩ := bind_eq_ok.mp hc
    cases hc
    obtain ⟨rfl, hhead⟩ := h.1 t st₁ ht
    obtain ⟨hst, htail⟩ := ih h.2 hus (k + 1)
    refine ⟨hst, ?_⟩
    simp only [Expr.evalAll, Expr.evaluationsAll, underFrom]
    cases hv : e.eval m with
    | error stop m' =>
      rw [hv] at hhead
      rw [bind_error hv]
      exact RefusedIn.mono hhead (exists_under (List.subset_append_left _ _))
    | ok v m' =>
      rw [hv] at hhead
      obtain ⟨rfl, hvt⟩ := hhead
      rw [bind_ok hv]
      refine Ends.bind (Q := fun vs m'' => m'' = m' ∧ List.Forall₂ (Value.Numeric m'.store) vs us)
        (htail.imp (fun _ _ h => h) fun stop m'' h => ?_) ?_
      · exact h.mono fun ev hev => ⟨ev, List.mem_append_right _ hev, rfl, rfl⟩
      · rintro vs m'' ⟨rfl, hvs⟩
        exact ⟨rfl, .cons hvt hvs⟩

lemma Expr.shaped_constant {span : Span} {value : Constant}
    (h : (Value.ofConstant value).Numeric m.store (.ofConstant value)) :
    (Expr.constant span value).Shaped st m := by
  intro t st' hc
  simp only [Expr.check] at hc
  cases hc
  refine ⟨rfl, ?_⟩
  simp only [Expr.eval]
  exact ⟨rfl, h⟩

lemma Expr.shaped_vector {span : Span} {items : List Expr} (hne : items ≠ [])
    (h : ∀ e ∈ items, e.Shaped st m) : (Expr.vector span items).Shaped st m := by
  intro t st' hc
  have hc' := hc
  simp only [Expr.check] at hc'
  obtain ⟨ts, st₁, hts, hvec⟩ := bind_eq_ok.mp hc'
  obtain ⟨hst, hall⟩ := Expr.shaped_all h hts 0
  obtain rfl := hst.symm
  obtain ⟨rfl, u, hu, rfl⟩ := vectorType_raising hvec (Expr.ne_nil_of_checkAll hts hne)
  refine ⟨rfl, ?_⟩
  have heval : (Expr.vector span items).eval m = (Expr.evalAll items >>= fun vs =>
      ofStore fun store => Value.vector store vs) m := by rw [Expr.eval]
  cases hitems : Expr.evalAll items m with
  | error stop m' =>
    rw [hitems] at hall
    rw [heval, bind_error hitems]
    simp only [Expr.evaluations]
    exact RefusedIn.mono hall fun ev hev => ⟨ev, List.mem_cons_of_mem _ hev, rfl, rfl⟩
  | ok vs m' =>
    rw [hitems] at hall
    obtain ⟨rfl, hvs⟩ := hall
    have hvsne : vs ≠ [] := by
      rintro rfl
      exact Expr.ne_nil_of_checkAll hts hne (List.forall₂_nil_left_iff.1 hvs)
    rw [bind_ok hitems] at heval
    rcases le_or_gt maxAxes u.shape.length with haxes | haxes
    · have hv := Value.Numeric.vector_tooManyAxes (forall_of_forall₂ hvs hu) hvsne haxes
      rw [ofStore_error hv] at heval
      rw [heval]
      refine ⟨rfl, _, rfl, ⟨[], .vector span items, m'⟩, ?_, heval, .inr ?_⟩
      · simp only [Expr.evaluations]
        exact List.mem_cons_self
      · exact ⟨span, items, _, rfl, hc, Nat.lt_succ_of_le haxes, rfl⟩
    · obtain ⟨v, hv, hnum⟩ := Value.Numeric.vector_ok (forall_of_forall₂ hvs hu) hvsne haxes
      rw [heval, ofStore_ok hv, ← hvs.length_eq]
      exact ⟨rfl, hnum⟩

/-- An operator that computes what the check says of values of the types of its operands. -/
lemma Expr.shaped_operator {span : Span} {symbol : String} {operands : List Expr}
    (h : ∀ e ∈ operands, e.Shaped st m)
    (hop : ∀ ts t st', ts.length = operands.length →
      operatorType .raising span symbol ts st = .ok t st' → st' = st ∧
        ∀ vs, List.Forall₂ (Value.Numeric m.store) vs ts →
          ∃ v, apply symbol vs m = .ok v m ∧ v.Numeric m.store t) :
    (Expr.operator span symbol operands).Shaped st m := by
  intro t st' hc
  simp only [Expr.check] at hc
  obtain ⟨ts, st₁, hts, hc⟩ := bind_eq_ok.mp hc
  obtain ⟨hst, hall⟩ := Expr.shaped_all h hts 0
  obtain rfl := hst.symm
  obtain ⟨rfl, happly⟩ := hop ts t st' (Expr.length_checkAll hts) hc
  refine ⟨rfl, ?_⟩
  simp only [Expr.eval, Expr.evaluations]
  refine Ends.bind (hall.imp (fun _ _ h => h) fun stop m' h => ?_) ?_
  · exact h.mono fun ev hev => ⟨ev, List.mem_cons_of_mem _ hev, rfl, rfl⟩
  · rintro vs m' ⟨rfl, hvs⟩
    obtain ⟨v, hv, hnum⟩ := happly vs hvs
    rw [hv]
    exact ⟨rfl, hnum⟩

lemma Expr.shaped_transpose {span : Span} {e : Expr} (h : e.Shaped st m) :
    (Expr.operator span "'" [e]).Shaped st m := by
  refine Expr.shaped_operator (List.forall_mem_singleton.2 h) fun ts t st' hlen hc => ?_
  obtain ⟨u, rfl⟩ := List.length_eq_one_iff.1 hlen
  change transposedType .raising span u st = .ok t st' at hc
  unfold transposedType at hc
  split at hc
  · cases hc
  · next htwo =>
    cases hc
    refine ⟨rfl, fun vs hvs => ?_⟩
    obtain ⟨v, rfl, hv⟩ := forall₂_singleton_right hvs
    have hne : u.shape ≠ [] := by
      intro hnil
      rw [hnil] at htwo
      exact htwo (by decide)
    obtain ⟨w, hw, hnum⟩ := hv.transpose hne
    refine ⟨w, ?_, hnum⟩
    rw [apply_eq_perform (show Operation.ofName? "'" = some .transpose by decide)]
    change ofStore (fun _ => v.transpose) m = _
    rw [ofStore_ok hw]

lemma Expr.shaped_dotted {span : Span} {d e : Expr} (f : Arith) (hd : d.Shaped st m)
    (he : e.Shaped st m) : (Expr.operator span ("." ++ f.symbol) [d, e]).Shaped st m := by
  have hall : ∀ e' ∈ [d, e], e'.Shaped st m := by simp [hd, he]
  refine Expr.shaped_operator hall fun ts t st' hlen hc => ?_
  obtain ⟨a, b, rfl⟩ := List.length_eq_two.1 hlen
  obtain ⟨op, hf, htype⟩ : ∃ op, op.arith? = some f ∧
      operatorType .raising span ("." ++ f.symbol) [a, b] =
        dottedType .raising span ("." ++ f.symbol) op a b := by
    cases f with
    | add => exact ⟨.add, rfl, rfl⟩
    | subtract => exact ⟨.subtract, rfl, rfl⟩
    | multiply => exact ⟨.multiply, rfl, rfl⟩
    | divide => exact ⟨.divide, rfl, rfl⟩
  rw [htype] at hc
  obtain ⟨rfl, A, B, R, hA, hB, hR, hdims, rfl⟩ := dottedType_raising hc
  refine ⟨rfl, fun vs hvs => ?_⟩
  obtain ⟨v, w, rfl, hv, hw⟩ := forall₂_pair_right hvs
  have hshape : a.shape = b.shape := dims_eq_of_known hdims hv.numeric.2 hw.numeric.2
  obtain ⟨_, dims⟩ := a
  obtain ⟨_, dims'⟩ := b
  cases hA
  cases hB
  cases hshape
  rw [zipWith_mergeDim_self]
  obtain ⟨r, hr, hnum⟩ := hv.elementArith hf hw hR
  refine ⟨r, ?_, hnum⟩
  rw [apply_dotted, ofStore_ok hr]

/-- An accepted selection has indices, no more of them than the array has dimensions, and they are
integers. -/
lemma elementType_indices {span indexSpan : Span} {ta ti : Ty} {ts : List Ty} {st₁ : Typing.State}
    (hvec : vectorType .raising indexSpan ts st = .ok ti st₁)
    (hc : elementType .raising span ta ti ts.length st₁ = .ok t st') :
    st' = st ∧ ts ≠ [] ∧ ts.length ≤ ta.shape.length ∧ (∀ u ∈ ts, u = .int) ∧
      t = ⟨ta.base, ta.shape.drop ts.length⟩ := by
  have hcount : ts.length ≤ ta.shape.length := by
    by_contra hmore
    unfold elementType at hc
    rw [if_pos (Nat.not_le.1 hmore)] at hc
    split at hc <;> cases hc
  obtain ⟨rfl, hint, hone, rfl⟩ := elementType_raising hc
  have hne : ts ≠ [] := by
    rintro rfl
    cases hvec
    cases hint
  obtain ⟨rfl, u, hu, rfl⟩ := vectorType_raising hvec hne
  refine ⟨rfl, hne, hcount, fun v hv => ?_, rfl⟩
  rw [hu v hv]
  obtain ⟨_, rest⟩ := u
  cases hint
  obtain rfl : rest = [] := List.length_eq_zero_iff.1 (Nat.succ.inj hone)
  rfl

lemma Expr.shaped_element {span idSpan indexSpan : Span} {id : String} {indices : List Expr}
    (hid : m.Holds st.table id) (h : ∀ e ∈ indices, e.Shaped st m) :
    (Expr.element span id idSpan indices indexSpan).Shaped st m := by
  intro t st' hc
  simp only [Expr.check] at hc
  obtain ⟨ta, st₁, hname, hc⟩ := bind_eq_ok.mp hc
  obtain ⟨ts, st₂, hts, hc⟩ := bind_eq_ok.mp hc
  obtain ⟨ti, st₃, hvec, helem⟩ := bind_eq_ok.mp hc
  obtain ⟨hget, hst⟩ := nameType_raising.mp hname
  obtain rfl := hst.symm
  obtain ⟨hst, hall⟩ := Expr.shaped_all h hts 0
  obtain rfl := hst.symm
  rw [← Expr.length_checkAll hts] at helem
  obtain ⟨rfl, hne, hcount, hints, rfl⟩ := elementType_indices hvec helem
  refine ⟨rfl, ?_⟩
  have heval : (Expr.element span id idSpan indices indexSpan).eval m =
      (Expr.evalAll indices >>= fun vs => ofStore fun store => do
        (m.lookup id).index store (← Value.vector store vs)) m := by
    rw [Expr.eval, bind_ok (show lookup id m = .ok (m.lookup id) m from rfl)]
  cases hindices : Expr.evalAll indices m with
  | error stop m' =>
    rw [hindices] at hall
    rw [heval, bind_error hindices]
    refine RefusedIn.mono hall fun ev hev => ⟨ev.under 1, ?_, rfl, rfl⟩
    simp only [Expr.evaluations, underFrom]
    refine List.mem_cons_of_mem _ (List.mem_append_right _ (List.mem_append_left _ ?_))
    exact List.mem_map_of_mem (List.mem_cons_of_mem _ hev)
  | ok vs m' =>
    rw [hindices] at hall
    obtain ⟨rfl, hvs⟩ := hall
    have hvsne : vs ≠ [] := by
      rintro rfl
      exact hne (List.forall₂_nil_left_iff.1 hvs)
    rw [← hvs.length_eq] at hcount ⊢
    obtain ⟨i, hi, hpart⟩ := (hid ta hget).index (forall_of_forall₂ hvs hints) hvsne hcount
    have hindex : (do (m'.lookup id).index m'.store (← Value.vector m'.store vs)) =
        (m'.lookup id).index m'.store i := by
      rw [hi]
      rfl
    rw [bind_ok hindices] at heval
    rcases hpart with ⟨v, hv, hnum⟩ | ⟨j, axis, n, hv⟩
    · rw [heval, ofStore_ok (hindex.trans hv)]
      exact ⟨rfl, hnum⟩
    · rw [ofStore_error (hindex.trans hv)] at heval
      rw [heval]
      refine ⟨rfl, _, rfl, ⟨[], .element span id idSpan indices indexSpan, m'⟩, ?_, heval, .inl ?_⟩
      · simp only [Expr.evaluations]
        exact List.mem_cons_self
      · exact ⟨span, id, idSpan, indices, indexSpan, j, axis, n, rfl, rfl⟩

/-- Each kind of expression keeps to the types of its parts. -/
lemma Expr.IsNumeric.shaped {e : Expr} (h : e.IsNumeric (m.Holds st.table)) : e.Shaped st m := by
  induction h with
  | int hn => exact Expr.shaped_constant (.int hn)
  | float => exact Expr.shaped_constant (.float _)
  | name hid =>
    intro t st' hc
    simp only [Expr.check] at hc
    obtain ⟨hget, rfl⟩ := nameType_raising.mp hc
    refine ⟨rfl, ?_⟩
    simp only [Expr.eval]
    exact ⟨rfl, hid t hget⟩
  | vector hne _ ih => exact Expr.shaped_vector hne ih
  | transpose _ ih => exact Expr.shaped_transpose ih
  | dotted f _ _ ihd ihe => exact Expr.shaped_dotted f ihd ihe
  | element hid _ ih => exact Expr.shaped_element hid ih

end

/-- The rows of a matrix in reverse order, as columns. -/
def reversedRows : Expr :=
  let row (i : Int) : Expr := .element ⟨1, 1⟩ "a" ⟨1, 1⟩ [.constant ⟨1, 1⟩ (.int i)] ⟨1, 1⟩
  .operator ⟨1, 1⟩ "'" [.vector ⟨1, 1⟩ [row 1, row 0]]

def rowsTable : Typing.State := { table := Scopes.set .empty "a" ⟨some .int, [some 2, some 3]⟩ }

def rowsMatrix : Tensor := .ofElements .int [2, 3] ((List.range 6).map fun i => .int (.ofNat i))

def rowsMachine : Machine := Machine.bind {} "a" (.array rowsMatrix)

/-- A number in brackets. -/
def Expr.nested : Nat → Expr
  | 0 => .constant ⟨1, 1⟩ (.int 1)
  | n + 1 => .vector ⟨1, 1⟩ [nested n]

lemma Expr.check_nested (n : Nat) (st : Typing.State) : (Expr.nested n).check .raising st =
    .ok ⟨some .int, List.replicate n (some 1)⟩ st := by
  induction n with
  | zero => rfl
  | succ n ih =>
    have hitems : Expr.checkAll .raising [Expr.nested n] st =
        .ok [⟨some .int, List.replicate n (some 1)⟩] st := by
      rw [Expr.checkAll, bind_ok ih]
      rfl
    rw [Expr.nested, Expr.check, bind_ok hitems]
    rfl

/-- As many brackets as an array can have axes, or fewer, make an array. -/
lemma Expr.evalAll_nested {n : Nat} (h : n ≤ maxAxes) (m : Machine) :
    ∃ v, Expr.evalAll [Expr.nested n] m = .ok [v] m ∧
      v.Numeric m.store ⟨some .int, List.replicate n (some 1)⟩ := by
  induction n with
  | zero => exact ⟨.int 1, rfl, .int (by decide)⟩
  | succ n ih =>
    obtain ⟨v, hv, hnum⟩ := ih (Nat.le_of_succ_le h)
    obtain ⟨w, hw, hnum⟩ := Value.Numeric.vector_ok (List.forall_mem_singleton.2 hnum)
      (List.cons_ne_nil _ _) (by simpa using h)
    refine ⟨w, ?_, hnum⟩
    have heval : (Expr.nested (n + 1)).eval m = .ok w m := by
      rw [Expr.nested, Expr.eval, bind_ok hv, ofStore_ok hw]
    rw [Expr.evalAll, bind_ok heval]
    rfl

end MatScript
