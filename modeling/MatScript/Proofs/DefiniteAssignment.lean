import MatScript.Proofs.TypeSoundness

/-! Definite assignment. The table of an accepted script and the memory of its runs agree on the
names that are bound, but for the names of `for` loops: the check goes on with such a name after
the loop, a run loses it with the scope of its last round. Every other name that is evaluated is
bound, and so is the name of a loop inside the bodies of loops over it. -/
namespace MatScript

open Typing Run Evaluation

mutual

/-- The names of the `for` loops whose bodies a place of a statement stands in. -/
def Stmt.loopsAround : Stmt → Path → List String
  | .block _ body, i :: path => Stmt.loopsAroundAll body i path
  | .whileLoop _ _ body, 1 :: path => body.loopsAround path
  | .forLoop _ id _ _ body, 1 :: path => id :: body.loopsAround path
  | .ifThen _ _ yes, 1 :: path => yes.loopsAround path
  | .ifElse _ _ yes _, 1 :: path => yes.loopsAround path
  | .ifElse _ _ _ no, 2 :: path => no.loopsAround path
  | _, _ => []

/-- The same for a place in the statement at a position of a list. -/
def Stmt.loopsAroundAll : List Stmt → Nat → Path → List String
  | [], _, _ => []
  | s :: _, 0, path => s.loopsAround path
  | _ :: ss, i + 1, path => Stmt.loopsAroundAll ss i path

end

/-- A name that is evaluated at a place where it may be read is bound. -/
def Evaluation.Found (mayRead : Path → String → Prop) (ev : Evaluation) : Prop :=
  ∀ span id, ev.expr = .name span id → mayRead ev.path id → ev.machine.memory.contains id = true

lemma Evaluation.found_map_under {A B : Path → String → Prop} {i : Nat} {evs : List Evaluation}
    (h : ∀ ev ∈ evs, ev.Found A) (hAB : ∀ path x, B (i :: path) x → A path x) :
    ∀ ev ∈ evs.map (under i), ev.Found B := by
  intro ev hev
  obtain ⟨ev', hev', rfl⟩ := List.mem_map.1 hev
  exact fun span id hid hread => h ev' hev' span id hid (hAB _ _ hread)

/-! ## Expressions -/

lemma Expr.memory_eval {e : Expr} {m m' : Machine} {v : Value} (h : e.eval m = .ok v m') :
    m'.memory = m.memory := by
  have hm := Blind.memory_after (fun _ => e.blind fun _ _ => rfl) m
  rwa [h] at hm

/-- An evaluation on the memory of `m`, if of a name, then of one of `names`. -/
def Evaluation.Reads (m : Machine) (names : List String) (ev : Evaluation) : Prop :=
  ev.machine.memory = m.memory ∧ ∀ span id, ev.expr = .name span id → id ∈ names

namespace Evaluation

variable {m m' : Machine} {xs ys : List String} {ev : Evaluation}

lemma Reads.mono (h : ev.Reads m xs) (hsub : ∀ x ∈ xs, x ∈ ys) : ev.Reads m ys :=
  ⟨h.1, fun span id hid => hsub id (h.2 span id hid)⟩

lemma Reads.of_memory (h : ev.Reads m' xs) (hm : m'.memory = m.memory) : ev.Reads m xs :=
  ⟨h.1.trans hm, h.2⟩

lemma reads_underFrom {evs : List (List Evaluation)} (h : ∀ es ∈ evs, ∀ ev ∈ es, ev.Reads m xs)
    {i : Nat} : ∀ ev ∈ underFrom i evs, ev.Reads m xs := by
  intro ev hev
  obtain ⟨j, es, ev', hj, hev', rfl⟩ := mem_underFrom hev
  exact h es (List.mem_of_getElem? hj) ev' hev'

end Evaluation

mutual

/-- While an expression is evaluated memory stays as it is, and only its names are read. -/
theorem Expr.reads : (e : Expr) → ∀ m, ∀ ev ∈ e.evaluations m, ev.Reads m e.names
  | .constant _ _, m, ev, hev | .gap _ _, m, ev, hev => by
    obtain rfl := List.mem_singleton.1 hev
    exact ⟨rfl, fun _ _ h => nomatch h⟩
  | .name span id, m, ev, hev => by
    obtain rfl := List.mem_singleton.1 hev
    refine ⟨rfl, fun _ _ h => ?_⟩
    cases h
    exact List.mem_singleton.2 rfl
  | .vector _ items, m, ev, hev | .operator _ _ items, m, ev, hev | .call _ _ items, m, ev, hev => by
    simp only [Expr.evaluations, List.mem_cons] at hev
    rcases hev with rfl | hev
    · exact ⟨rfl, fun _ _ h => nomatch h⟩
    · exact reads_underFrom (Expr.reads_all items m) ev hev
  | .range _ start stop, m, ev, hev => by
    simp only [Expr.evaluations, List.mem_cons] at hev
    rcases hev with rfl | hev
    · exact ⟨rfl, fun _ _ h => nomatch h⟩
    · refine reads_underFrom (fun es hes => ?_) ev hev
      rcases List.mem_cons.1 hes with rfl | hes
      · exact fun ev hev => (start.reads m ev hev).mono fun x hx => List.mem_append_left _ hx
      · split at hes
        · next v m' hv =>
          obtain rfl := List.mem_singleton.1 hes
          exact fun ev hev => ((stop.reads m' ev hev).of_memory (Expr.memory_eval hv)).mono
            fun x hx => List.mem_append_right _ hx
        · cases hes
  | .element _ id idSpan indices indexSpan, m, ev, hev => by
    simp only [Expr.evaluations, List.mem_cons] at hev
    rcases hev with rfl | hev
    · exact ⟨rfl, fun _ _ h => nomatch h⟩
    · refine reads_underFrom (fun es hes => ?_) ev hev
      rcases List.mem_cons.1 hes with rfl | hes
      · intro ev hev
        obtain rfl := List.mem_singleton.1 hev
        refine ⟨rfl, fun _ _ h => ?_⟩
        cases h
        exact List.mem_cons_self
      · obtain rfl := List.mem_singleton.1 hes
        intro ev hev
        rcases List.mem_cons.1 hev with rfl | hev
        · exact ⟨rfl, fun _ _ h => nomatch h⟩
        · exact (reads_underFrom (Expr.reads_all indices m) ev hev).mono fun x hx =>
            List.mem_cons_of_mem _ hx

theorem Expr.reads_all : (es : List Expr) → ∀ m, ∀ evs ∈ Expr.evaluationsAll es m,
    ∀ ev ∈ evs, ev.Reads m (Expr.namesAll es)
  | [], _, evs, hevs => nomatch hevs
  | e :: es, m, evs, hevs => by
    simp only [Expr.evaluationsAll, List.mem_cons] at hevs
    rcases hevs with rfl | hevs
    · exact fun ev hev => (e.reads m ev hev).mono fun x hx => List.mem_append_left _ hx
    · split at hevs
      · next v m' hv =>
        exact fun ev hev => ((Expr.reads_all es m' evs hevs ev hev).of_memory
          (Expr.memory_eval hv)).mono fun x hx => List.mem_append_right _ hx
      · cases hevs

end

lemma Expr.reads_target (e : Expr) (m : Machine) :
    ∀ ev ∈ e.targetEvaluations m, ev.Reads m e.names := by
  intro ev hev
  cases e with
  | name span id => exact (Expr.name span id).reads m ev hev
  | element span id idSpan indices indexSpan =>
    exact (Expr.element span id idSpan indices indexSpan).reads m ev (List.mem_of_mem_tail hev)
  | _ => cases hev

/-! ## Statements -/

/-- The names that may be read are in memory. -/
def Bound (loops inside : List String) (st : Typing.State) (m : Machine) : Prop :=
  ∀ x, Readable loops inside st.table x → m.memory.contains x = true

/-- At a place of a statement that stands inside loops over `inside`, the name of a loop may be
read only in the bodies of loops over it. -/
def Stmt.MayRead (loops inside : List String) (s : Stmt) (path : Path) (x : String) : Prop :=
  x ∈ loops → x ∈ inside ∨ x ∈ s.loopsAround path

section

variable {loops inside : List String} {st st' st₁ : Typing.State} {m m' : Machine} {t : Ty}
  {fuel : Nat} {s : Stmt}

namespace Bound

lemma evolve (h : Bound loops inside st m) (hev : m.memory.Evolves m'.memory) :
    Bound loops inside st m' :=
  fun x hx => hev.grows.contains (h x hx)

lemma of_memory (h : Bound loops inside st m) (hm : m'.memory = m.memory) :
    Bound loops inside st m' := by
  intro x hx
  rw [hm]
  exact h x hx

lemma of_readable (h : Bound loops inside st m)
    (heq : Readable loops inside st'.table = Readable loops inside st.table) :
    Bound loops inside st' m := by
  rw [Bound, heq]
  exact h

lemma of_table (h : Bound loops inside st m) (heq : st'.table = st.table) :
    Bound loops inside st' m :=
  h.of_readable (by rw [heq])

lemma push (h : Bound loops inside st m) (name scope : String) :
    Bound loops inside (st.push name) (m.push scope) :=
  (h.of_readable (readable_push name)).evolve (.push _ _)

lemma set (h : Bound loops inside st m) (id : String) (v : Value) :
    Bound loops inside (st.set id t) (m.bind id v) := by
  intro x hx
  rw [Machine.memory_bind, Scopes.contains_set]
  rcases hx.of_set with rfl | hx
  · simp
  · simp [h x hx]

/-- In the body of a `for` loop its name is bound, too. -/
lemma header (h : Bound loops inside st m) (id name scope : String) (v : Value) :
    Bound loops (id :: inside) ((st.set id t).push name) ((m.push scope).bind id v) := by
  intro x hx
  rw [Machine.memory_bind, Scopes.contains_set, Machine.memory_push, Scopes.contains_push]
  rcases readable_in_forLoop.mp hx with rfl | hx
  · simp
  · simp [h x hx]

end Bound

/-- Names that are read in memory are found, if the check has found them in the table. -/
lemma Evaluation.Reads.found {names : List String} {ev : Evaluation} (h : Bound loops inside st m)
    (hr : ev.Reads m names) (hnames : ∀ x ∈ names, st.table.contains x = true) :
    ev.Found fun _ x => x ∈ loops → x ∈ inside := by
  intro span id hid hread
  rw [hr.1]
  exact h id ⟨hnames id (hr.2 span id hid), hread⟩

lemma Expr.found {e : Expr} (h : Bound loops inside st m) (hc : e.check .raising st = .ok t st') :
    ∀ ev ∈ e.evaluations m, ev.Found fun _ x => x ∈ loops → x ∈ inside :=
  fun ev hev => (e.reads m ev hev).found h (e.names_of_check hc)

/-- What stands in no body of a statement is inside no more loops than the statement. -/
lemma Stmt.MayRead.of_loopsAround {path : Path} (hpath : s.loopsAround path = []) {x : String}
    (h : s.MayRead loops inside path x) : x ∈ loops → x ∈ inside := by
  intro hx
  have hor := h hx
  rwa [hpath, or_iff_left List.not_mem_nil] at hor

/-- After an assignment to a name, that name is bound. -/
lemma Bound.of_assign {nameSpan span : Span} {id : String} {value : Expr} {u : Unit}
    (h : Bound loops inside st m)
    (hc : checkAssign .raising span (.name nameSpan id) value st = .ok () st')
    (hx : Run.assign (.name nameSpan id) value m = .ok u m') : Bound loops inside st' m' := by
  obtain ⟨t₁, st₁, hv, rfl⟩ := Stmt.checkAssign_name hc
  obtain ⟨v, m₁, hval, hbind⟩ := bind_eq_ok.mp hx
  cases hbind
  have hm : Bound loops inside st₁ m₁ :=
    (h.of_memory (Expr.memory_eval hval)).of_table (value.keepsTable _ _ _ _ hv)
  exact hm.set id v

/-- An operator-assignment to a name binds it again. -/
lemma Bound.of_update {nameSpan span : Span} {symbol id : String} {value : Expr} {u : Unit}
    (h : Bound loops inside st m) (hev : m.memory.Evolves m'.memory)
    (hc : checkUpdate .raising span symbol (.name nameSpan id) value st = .ok () st')
    (hx : Run.update symbol (.name nameSpan id) value m = .ok u m') : Bound loops inside st' m' := by
  obtain ⟨t₁, st₁, t₂, st₂, op, result, hold, hv, -, -, rfl⟩ := Stmt.checkUpdate_raising hc
  have htable := (value.keepsTable _ _ _ _ hv).trans (Expr.keepsTable _ _ _ _ _ hold)
  rw [Run.update_name] at hx
  obtain ⟨v, m₁, -, hx⟩ := bind_eq_ok.mp hx
  obtain ⟨old, m₂, -, hx⟩ := bind_eq_ok.mp hx
  obtain ⟨new, m₃, -, hbind⟩ := bind_eq_ok.mp hx
  cases hbind
  intro x hxr
  rcases Readable.of_set hxr with rfl | hxr
  · simp
  · rw [htable] at hxr
    exact hev.grows.contains (h x hxr)

/-- After a statement that has been checked, the names that may then be read are bound: those it
binds itself, and those that were there before. -/
lemma Stmt.bound_exec (hloops : ∀ x ∈ s.loopNames, x ∈ loops)
    (hin : ∀ x ∈ inside, st.table.contains x = true) (hc : s.check .raising st = .ok t st')
    (h : Bound loops inside st m) {v : Value} (hx : s.exec fuel m = .ok v m') :
    Bound loops inside st' m' := by
  have hev : m.memory.Evolves m'.memory := by
    have hs := s.evolves_exec fuel m
    rwa [hx] at hs
  cases s with
  | block _ body =>
    obtain ⟨st₁, hbody, rfl⟩ := Stmt.check_block hc
    exact (h.evolve hev).of_readable (readable_pop (Stmt.widensTable_all _ body _ _ _ hbody))
  | assign _ target value =>
    have hc := Stmt.check_assign hc
    cases target with
    | name _ id =>
      simp only [Stmt.exec] at hx
      obtain ⟨_, _, hx, hret⟩ := bind_eq_ok.mp hx
      cases hret
      exact h.of_assign hc hx
    | element _ _ _ _ _ =>
      obtain ⟨t₁, st₁, ht, hv⟩ := Stmt.checkAssign_element hc
      exact (h.evolve hev).of_table
        ((value.keepsTable _ _ _ _ hv).trans (Expr.keepsTable _ _ _ _ _ ht))
    | _ =>
      cases hc
      exact h.evolve hev
  | update _ symbol target value =>
    have hc := Stmt.check_update hc
    cases target with
    | name _ id =>
      simp only [Stmt.exec] at hx
      obtain ⟨_, _, hx, hret⟩ := bind_eq_ok.mp hx
      cases hret
      exact h.of_update hev hc hx
    | _ =>
      obtain ⟨t₁, st₁, t₂, st₂, op, result, hold, hv, -, -, rfl⟩ := Stmt.checkUpdate_raising hc
      exact (h.evolve hev).of_table
        ((value.keepsTable _ _ _ _ hv).trans (Expr.keepsTable _ _ _ _ _ hold))
  | instruction _ _ arguments =>
    obtain ⟨-, ts, hts⟩ := Stmt.check_instruction hc
    exact (h.evolve hev).of_table (Expr.keepsTable_all _ _ _ _ _ hts)
  | whileLoop _ condition body =>
    obtain ⟨st₁, st₂, t₂, hcond, hbody, rfl⟩ := Stmt.check_whileLoop hc
    exact ((h.evolve hev).of_table (condition.keepsTable _ _ _ _ hcond)).of_readable
      (readable_pop (body.widensTable _ _ _ _ hbody))
  | forLoop _ id _ range body =>
    obtain ⟨t₁, st₁, st₂, t₂, hrange, hbody, rfl⟩ := Stmt.check_forLoop hc
    have htable := range.keepsTable _ _ _ _ hrange
    refine ((h.evolve hev).of_table htable).of_readable ?_
    refine readable_after_forLoop (hloops id List.mem_cons_self) ?_ (body.widensTable _ _ _ _ hbody)
    rwa [htable]
  | ifThen _ condition yes =>
    obtain ⟨st₁, st₂, t₂, hcond, hy, rfl⟩ := Stmt.check_ifThen hc
    exact ((h.evolve hev).of_table (condition.keepsTable _ _ _ _ hcond)).of_readable
      (readable_pop (yes.widensTable _ _ _ _ hy))
  | ifElse _ condition yes no =>
    obtain ⟨st₁, st₂, t₂, st₃, t₃, hcond, hy, hn, rfl⟩ := Stmt.check_ifElse hc
    exact (((h.evolve hev).of_table (condition.keepsTable _ _ _ _ hcond)).of_readable
      (readable_pop (yes.widensTable _ _ _ _ hy))).of_readable
        (readable_pop (no.widensTable _ _ _ _ hn))
  | expr e =>
    simp only [Stmt.check] at hc
    exact (h.evolve hev).of_table (e.keepsTable _ _ _ _ hc)

lemma Run.memory_evalIndices {indices : List Expr} {v : Value}
    (h : evalIndices indices m = .ok v m') : m'.memory = m.memory := by
  have hm := Blind.memory_after (fun _ => blind_evalIndices indices fun _ _ => rfl) m
  rwa [h] at hm

lemma Run.memory_test {condition : Expr} {b : Bool} (h : test condition m = .ok b m') :
    m'.memory = m.memory := by
  have hm := Blind.memory_after (fun _ => blind_test condition fun _ _ => rfl) m
  rwa [h] at hm

/-- The expressions that an assignment evaluates. -/
lemma found_assign {span : Span} {target value : Expr} (h : Bound loops inside st m)
    (hc : (Stmt.assign span target value).check .raising st = .ok t st') :
    ∀ ev ∈ (Stmt.assign span target value).evaluations fuel m,
      ev.Found ((Stmt.assign span target value).MayRead loops inside) := by
  have hc := Stmt.check_assign hc
  intro ev hev
  cases target with
  | name _ id =>
    obtain ⟨t₁, st₁, hv, rfl⟩ := Stmt.checkAssign_name hc
    exact found_map_under (Expr.found h hv) (fun _ _ hr => hr.of_loopsAround rfl) ev hev
  | element span id idSpan indices indexSpan =>
    obtain ⟨t₁, st₁, ht, hv⟩ := Stmt.checkAssign_element hc
    simp only [Stmt.evaluations, List.mem_append] at hev
    rcases hev with hev | hev
    · refine found_map_under (fun ev hev => ?_) (fun _ _ hr => hr.of_loopsAround rfl) ev hev
      exact (Expr.reads_target _ m ev hev).found h (Expr.names_of_check _ ht)
    · split at hev
      · next v m' hindices =>
        have hm := (h.of_memory (memory_evalIndices hindices)).of_table
          (Expr.keepsTable _ _ _ _ _ ht)
        exact found_map_under (Expr.found hm hv) (fun _ _ hr => hr.of_loopsAround rfl) ev hev
      · cases hev
  | _ => cases hev

lemma found_update {span : Span} {symbol : String} {target value : Expr}
    (h : Bound loops inside st m)
    (hc : (Stmt.update span symbol target value).check .raising st = .ok t st') :
    ∀ ev ∈ (Stmt.update span symbol target value).evaluations fuel m,
      ev.Found ((Stmt.update span symbol target value).MayRead loops inside) := by
  obtain ⟨t₁, st₁, t₂, st₂, op, result, hold, hv, -, -, rfl⟩ :=
    Stmt.checkUpdate_raising (Stmt.check_update hc)
  intro ev hev
  simp only [Stmt.evaluations, List.mem_append] at hev
  rcases hev with hev | hev
  · have hm := h.of_table (target.keepsTable _ _ _ _ hold)
    exact found_map_under (Expr.found hm hv) (fun _ _ hr => hr.of_loopsAround rfl) ev hev
  · split at hev
    · next v m' hval =>
      refine found_map_under (fun ev hev => ?_) (fun _ _ hr => hr.of_loopsAround rfl) ev hev
      exact (target.reads_target m' ev hev).found (h.of_memory (Expr.memory_eval hval))
        (target.names_of_check hold)
    · cases hev

/-- The rounds of a loop keep the names that may be read before it. -/
lemma Bound.round {body : Run Value} {scope : String} (hev : Evolves body)
    (h : Bound loops inside st m) :
    Ends (Run.round scope body m) (fun _ => Bound loops inside st) fun _ _ => True := by
  have hround : Evolves (Run.round scope body) := by
    rw [← roundBy_keep]
    exact hev.roundBy
  have hm := hround m
  cases hx : Run.round scope body m with
  | ok r m' =>
    rw [hx] at hm
    exact h.evolve hm
  | error stop m' => exact trivial

lemma Bound.test {condition : Expr} (h : Bound loops inside st m) :
    Ends (Run.test condition m) (fun _ => Bound loops inside st) fun _ _ => True := by
  cases hx : Run.test condition m with
  | ok b m' => exact h.of_memory (memory_test hx)
  | error stop m' => exact trivial

lemma found_whileLoop {span : Span} {condition : Expr} {body : Stmt}
    (hbody : ∀ m, Bound loops inside st m → ∀ ev ∈ body.evaluations fuel (m.push "while"),
      ev.Found (body.MayRead loops inside))
    (hc : condition.check .raising st = .ok t st') (h : Bound loops inside st m) :
    ∀ ev ∈ (Stmt.whileLoop span condition body).evaluations fuel m,
      ev.Found ((Stmt.whileLoop span condition body).MayRead loops inside) := by
  refine mem_evaluationsWhile (J := Bound loops inside st) (E := fun _ _ => True)
    (fun m h => h.test) (fun m h => h.round (body.evolves_exec fuel)) (fun m h => ?_)
    (fun m h => ?_) fuel m h
  · exact found_map_under (Expr.found h hc) fun _ _ hr => hr.of_loopsAround rfl
  · exact found_map_under (hbody m h) fun _ _ hr => hr

/-- A loop over a range. In its body, its name is one of those the body stands inside of. -/
lemma found_forLoop {span idSpan : Span} {id : String} {range : Expr} {body : Stmt}
    (hbody : ∀ m v, Bound loops inside st m →
      ∀ ev ∈ body.evaluations fuel ((m.push "for").bind id v),
        ev.Found (body.MayRead loops (id :: inside)))
    (hc : range.check .raising st = .ok t st') (h : Bound loops inside st m) :
    ∀ ev ∈ (Stmt.forLoop span id idSpan range body).evaluations fuel m,
      ev.Found ((Stmt.forLoop span id idSpan range body).MayRead loops inside) := by
  intro ev hev
  simp only [Stmt.evaluations, List.mem_append] at hev
  rcases hev with hev | hev
  · exact found_map_under (Expr.found h hc) (fun _ _ hr => hr.of_loopsAround rfl) ev hev
  · split at hev
    · next v m' hv =>
      split at hev
      · next count item _ =>
        refine mem_evaluationsFrom (J := Bound loops inside st) (E := fun _ _ => True)
          (fun i m h => h.round ((body.evolves_exec fuel).bindItem id item i)) (fun i m h => ?_)
          count 0 m' (h.of_memory (Expr.memory_eval hv)) ev hev
        refine found_map_under (hbody m _ h) fun path x hr hx => ?_
        rcases hr hx with hr | hr
        · exact .inl (List.mem_cons_of_mem _ hr)
        · rcases List.mem_cons.mp hr with rfl | hr
          · exact .inl List.mem_cons_self
          · exact .inr hr
      · cases hev
    · cases hev

lemma found_ifThen {span : Span} {condition : Expr} {yes : Stmt}
    (hyes : ∀ m, Bound loops inside st m → ∀ ev ∈ yes.evaluations fuel (m.push "then"),
      ev.Found (yes.MayRead loops inside))
    (hc : condition.check .raising st = .ok t st') (h : Bound loops inside st m) :
    ∀ ev ∈ (Stmt.ifThen span condition yes).evaluations fuel m,
      ev.Found ((Stmt.ifThen span condition yes).MayRead loops inside) := by
  intro ev hev
  simp only [Stmt.evaluations, List.mem_append] at hev
  rcases hev with hev | hev
  · exact found_map_under (Expr.found h hc) (fun _ _ hr => hr.of_loopsAround rfl) ev hev
  · split at hev
    · next m' hx =>
      exact found_map_under (hyes m' (h.of_memory (memory_test hx))) (fun _ _ hr => hr) ev hev
    · cases hev

lemma found_ifElse {span : Span} {condition : Expr} {yes no : Stmt}
    (hyes : ∀ m, Bound loops inside st m → ∀ ev ∈ yes.evaluations fuel (m.push "then"),
      ev.Found (yes.MayRead loops inside))
    (hno : ∀ m, Bound loops inside st m → ∀ ev ∈ no.evaluations fuel (m.push "else"),
      ev.Found (no.MayRead loops inside))
    (hc : condition.check .raising st = .ok t st') (h : Bound loops inside st m) :
    ∀ ev ∈ (Stmt.ifElse span condition yes no).evaluations fuel m,
      ev.Found ((Stmt.ifElse span condition yes no).MayRead loops inside) := by
  intro ev hev
  simp only [Stmt.evaluations, List.mem_append] at hev
  rcases hev with hev | hev
  · exact found_map_under (Expr.found h hc) (fun _ _ hr => hr.of_loopsAround rfl) ev hev
  · split at hev
    · next m' hx =>
      exact found_map_under (hyes m' (h.of_memory (memory_test hx))) (fun _ _ hr => hr) ev hev
    · next m' hx =>
      exact found_map_under (hno m' (h.of_memory (memory_test hx))) (fun _ _ hr => hr) ev hev
    · cases hev

end

mutual

/-- Wherever an accepted statement evaluates a name that may be read there, it finds it bound. -/
theorem Stmt.found (loops : List String) (fuel : Nat) : (s : Stmt) →
    ∀ {inside : List String} {st st' : Typing.State} {t : Ty} {m : Machine},
      (∀ x ∈ s.loopNames, x ∈ loops) → (∀ x ∈ inside, st.table.contains x = true) →
      s.check .raising st = .ok t st' → Bound loops inside st m →
      ∀ ev ∈ s.evaluations fuel m, ev.Found (s.MayRead loops inside)
  | .block _ body, inside, st, st', t, m, hl, hin, hc, h => by
    obtain ⟨st₁, hbody, rfl⟩ := Stmt.check_block hc
    intro ev hev
    obtain ⟨j, es, ev', hj, hev', rfl⟩ := mem_underFrom hev
    have hall := Stmt.found_all loops fuel body hl (by simpa using hin) hbody (h.push _ _) j es hj
    rw [Nat.zero_add]
    exact hall ev' hev'
  | .assign _ _ _, inside, st, st', t, m, hl, hin, hc, h => found_assign h hc
  | .update _ _ _ _, inside, st, st', t, m, hl, hin, hc, h => found_update h hc
  | .instruction _ _ arguments, inside, st, st', t, m, hl, hin, hc, h => by
    obtain ⟨-, ts, hts⟩ := Stmt.check_instruction hc
    intro ev hev
    have hr := reads_underFrom (Expr.reads_all arguments m) ev hev
    have hfound := hr.found h (Expr.namesAll_of_check arguments hts)
    exact fun span id hid hread =>
      hfound span id hid (hread.of_loopsAround (by cases ev.path <;> rfl))
  | .whileLoop _ condition body, inside, st, st', t, m, hl, hin, hc, h => by
    obtain ⟨st₁, st₂, t₂, hcond, hbody, rfl⟩ := Stmt.check_whileLoop hc
    have htable := condition.keepsTable _ _ _ _ hcond
    refine found_whileLoop (fun m h => ?_) hcond h
    exact Stmt.found loops fuel body hl (by simpa [htable] using hin) hbody
      ((h.of_table htable).push _ _)
  | .forLoop _ id _ range body, inside, st, st', t, m, hl, hin, hc, h => by
    obtain ⟨t₁, st₁, st₂, t₂, hrange, hbody, rfl⟩ := Stmt.check_forLoop hc
    have htable := range.keepsTable _ _ _ _ hrange
    refine found_forLoop (fun m v h => ?_) hrange h
    rw [← htable] at hin
    exact Stmt.found loops fuel body (fun x hx => hl x (List.mem_cons_of_mem _ hx))
      (contains_in_forLoop hin) hbody ((h.of_table htable).header id _ _ v)
  | .ifThen _ condition yes, inside, st, st', t, m, hl, hin, hc, h => by
    obtain ⟨st₁, st₂, t₂, hcond, hy, rfl⟩ := Stmt.check_ifThen hc
    have htable := condition.keepsTable _ _ _ _ hcond
    refine found_ifThen (fun m h => ?_) hcond h
    exact Stmt.found loops fuel yes hl (by simpa [htable] using hin) hy
      ((h.of_table htable).push _ _)
  | .ifElse _ condition yes no, inside, st, st', t, m, hl, hin, hc, h => by
    obtain ⟨st₁, st₂, t₂, st₃, t₃, hcond, hy, hn, rfl⟩ := Stmt.check_ifElse hc
    have htable := condition.keepsTable _ _ _ _ hcond
    have hwy := yes.widensTable _ _ _ _ hy
    refine found_ifElse (fun m h => ?_) (fun m h => ?_) hcond h
    · exact Stmt.found loops fuel yes (fun x hx => hl x (List.mem_append_left _ hx))
        (by simpa [htable] using hin) hy ((h.of_table htable).push _ _)
    · have hm := (h.of_table htable).of_readable (readable_pop hwy)
      refine Stmt.found loops fuel no (fun x hx => hl x (List.mem_append_right _ hx))
        (fun x hx => ?_) hn (hm.push _ _)
      simp [hwy.pop.contains x, htable, hin x hx]
  | .expr e, inside, st, st', t, m, hl, hin, hc, h => by
    simp only [Stmt.check] at hc
    exact found_map_under (Expr.found h hc) fun _ _ hr => hr.of_loopsAround rfl

theorem Stmt.found_all (loops : List String) (fuel : Nat) : (ss : List Stmt) →
    ∀ {inside : List String} {st st' : Typing.State} {m : Machine},
      (∀ x ∈ Stmt.loopNamesAll ss, x ∈ loops) → (∀ x ∈ inside, st.table.contains x = true) →
      Stmt.checkAll .raising ss st = .ok () st' → Bound loops inside st m →
      ∀ (j : Nat) (es : List Evaluation), (Stmt.evaluationsAll fuel ss m)[j]? = some es →
        ∀ ev ∈ es, ev.Found fun path x =>
          x ∈ loops → x ∈ inside ∨ x ∈ Stmt.loopsAroundAll ss j path
  | [], inside, st, st', m, hl, hin, hc, h, j, es, hj => nomatch hj
  | s :: ss, inside, st, st', m, hl, hin, hc, h, j, es, hj => by
    obtain ⟨t₁, st₁, hcs, hcss⟩ := Stmt.checkAll_cons hc
    have hls : ∀ x ∈ s.loopNames, x ∈ loops := fun x hx => hl x (List.mem_append_left _ hx)
    simp only [Stmt.evaluationsAll] at hj
    cases j with
    | zero =>
      cases hj
      exact Stmt.found loops fuel s hls hin hcs h
    | succ j =>
      rw [List.getElem?_cons_succ] at hj
      split at hj
      · next v m₁ hx =>
        exact Stmt.found_all loops fuel ss (fun x hx => hl x (List.mem_append_right _ hx))
          (fun x hx => (s.widensTable _ _ _ _ hcs).grows.contains (hin x hx)) hcss
          (Stmt.bound_exec hls hin hcs h hx) j es hj
      · cases hj

end

/-! ## Scripts -/

/-- Definite assignment. Every name that a run of an accepted script evaluates is bound, unless it
is the name of a `for` loop and stands outside the bodies of the loops over it. -/
theorem Stmt.found_of_check {s : Stmt} {t : Ty} {st : Typing.State}
    (hc : s.check .raising {} = .ok t st) (fuel : Nat) :
    ∀ ev ∈ s.evaluations fuel {}, ∀ span id, ev.expr = .name span id →
      (id ∈ s.loopNames → id ∈ s.loopsAround ev.path) →
      ev.machine.memory.contains id = true := by
  have hbound : Bound s.loopNames [] {} {} := fun x hx => absurd hx.1 (by simp)
  intro ev hev span id hid hread
  exact s.found s.loopNames fuel (fun _ hx => hx) (by simp) hc hbound ev hev span id hid
    fun hx => .inr (hread hx)

/-- Adds up numbers and prints the sum, and the last number, which is not there any more. -/
def addingText : String := "n = 0; for i = 0:2 \x7b n += i; \x7d print n, i;"

def addingScript : Stmt :=
  let at1 : Span := ⟨1, 1⟩
  let i : Expr := .name at1 "i"
  let n : Expr := .name at1 "n"
  let int (k : Int) : Expr := .constant at1 (.int k)
  .block at1 [
    .assign at1 n (int 0),
    .forLoop at1 "i" at1 (.range at1 (int 0) (int 2)) (.block at1 [.update at1 "+=" n i]),
    .instruction at1 "print" [n, i]]

theorem found_addingScript : addingScript.check .raising {} = .ok .none {} ∧
    ∀ fuel, ∀ ev ∈ addingScript.evaluations fuel {}, ∀ span id, ev.expr = .name span id →
      (id ∈ addingScript.loopNames → id ∈ addingScript.loopsAround ev.path) →
      ev.machine.memory.contains id = true := by
  have hc : addingScript.check .raising {} = .ok .none {} := by cbv
  exact ⟨hc, Stmt.found_of_check hc⟩

/-- A name that is evaluated without being bound. -/
def Evaluation.isLost (ev : Evaluation) : Bool :=
  match ev.expr with
  | .name _ id => !ev.machine.memory.contains id
  | _ => false

lemma Evaluation.exists_of_isLost {ev : Evaluation} (h : ev.isLost = true) :
    ∃ span id, ev.expr = .name span id ∧ ev.machine.memory.contains id = false := by
  unfold isLost at h
  split at h
  · next span id hid => exact ⟨span, id, hid, by simpa using h⟩
  · cases h

/-- The script is accepted, and the name of its loop is read after the loop without being bound. -/
theorem exists_lost_addingScript :
    (Script.parse 1 addingText).script = .ok addingScript ∧
    addingScript.check .raising {} = .ok .none {} ∧
    ∃ ev ∈ addingScript.evaluations 0 {}, ∃ span id, ev.expr = .name span id ∧
      ev.machine.memory.contains id = false := by
  have hp : (Script.parse 1 addingText).script = .ok addingScript := by cbv
  have hc : addingScript.check .raising {} = .ok .none {} := by cbv
  have hlost : (addingScript.evaluations 0 {}).any Evaluation.isLost = true := by decide +kernel
  obtain ⟨ev, hev, hl⟩ := List.any_eq_true.1 hlost
  exact ⟨hp, hc, ev, hev, Evaluation.exists_of_isLost hl⟩

end MatScript
