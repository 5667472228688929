import MatScript.Proofs.Leaving
import MatScript.Proofs.ParseSound
import MatScript.Proofs.ScalarExpressions

/-! Type soundness of the scalar language. A script without arrays that is accepted, in which each
name is bound with one type, finds every name bound and every value of the type that the check gave
to its expression, although scopes that are left by a jump stay in memory. -/
namespace MatScript

open Typing Run Evaluation

/-! ## How sound statements end -/

/-- The reasons for which a sound statement may stop; a jump has to stand in a loop. -/
def Run.Stop.Sound (inLoop : Bool) : Run.Stop → Prop
  | .breakLoop _ | .continueLoop _ => inLoop = true
  | .giveBack _ | .outOfFuel => True
  | .failed e => e.IsArithmetic

/-- A sound reason, and a memory in which each name has a value of its type. -/
structure StopsSound (types : String → Ty) (inLoop : Bool) (stop : Run.Stop) (m : Machine) : Prop where
  reason : stop.Sound inLoop
  memory : MemoryTyped types m

/-- Each name in memory has a value of its type, and the names that may be read are there. -/
structure Ready (types : String → Ty) (names : String → Prop) (m : Machine) : Prop where
  memory : MemoryTyped types m
  bound : ∀ x, names x → m.memory.contains x = true

section

variable {α : Type} {types : String → Ty} {names : String → Prop} {inLoop : Bool} {m m' : Machine}

lemma stopsSound_of_failedOn (hm : MemoryTyped types m) {stop : Run.Stop} (h : FailedOn m stop m') :
    StopsSound types inLoop stop m' := by
  obtain ⟨rfl, e, rfl, he⟩ := h
  exact ⟨he, hm⟩

lemma MemoryTyped.push (h : MemoryTyped types m) (scope : String) :
    MemoryTyped types (m.push scope) := Scopes.All.push h scope

lemma MemoryTyped.pop (h : MemoryTyped types m) : MemoryTyped types m.pop := Scopes.All.pop h

lemma MemoryTyped.bind (h : MemoryTyped types m) {id : String} {v : Value}
    (hv : v.scalarType? = some (types id)) : MemoryTyped types (m.bind id v) := by
  unfold MemoryTyped
  rw [Machine.memory_bind]
  refine Scopes.All.set h ?_
  cases v with
  | array _ => cases hv
  | _ => exact hv

namespace Ready

/-- Names are not lost while memory evolves. -/
lemma evolve (h : Ready types names m) (hm : MemoryTyped types m')
    (hev : m.memory.Evolves m'.memory) : Ready types names m' :=
  ⟨hm, fun x hx => hev.grows.contains (h.bound x hx)⟩

lemma push (h : Ready types names m) (scope : String) : Ready types names (m.push scope) :=
  h.evolve (h.memory.push scope) (.push _ _)

lemma bind (h : Ready types names m) {id : String} {v : Value}
    (hv : v.scalarType? = some (types id)) :
    Ready types (fun x => x = id ∨ names x) (m.bind id v) := by
  refine ⟨h.memory.bind hv, fun x hx => ?_⟩
  rw [Machine.memory_bind, Scopes.contains_set]
  rcases hx with rfl | hx
  · simp
  · simp [h.bound x hx]

end Ready

namespace Run

lemma ends_within {scope : String} {body : Run α} (h : Ready types names m) (hb : Evolves body)
    (hbody : Ends (body (m.push scope)) (fun _ m' => MemoryTyped types m')
      (StopsSound types inLoop)) :
    Ends (within scope body m) (fun _ m' => Ready types names m') (StopsSound types inLoop) := by
  have hev := hb (m.push scope)
  unfold within
  cases hx : body (m.push scope) with
  | ok a m' =>
    rw [hx] at hbody hev
    exact h.evolve hbody.pop hev.pop
  | error stop m' =>
    rw [hx] at hbody
    exact hbody

/-- A round catches the jumps that belong to its loop. -/
lemma ends_round {scope : String} {body : Run α} (h : Ready types names m) (hb : Evolves body)
    (hbody : Ends (body (m.push scope)) (fun _ m' => MemoryTyped types m')
      (StopsSound types true)) :
    Ends (round scope body m) (fun _ m' => Ready types names m') (StopsSound types inLoop) := by
  have hev := hb (m.push scope)
  unfold round
  cases hx : body (m.push scope) with
  | ok a m' =>
    rw [hx] at hbody hev
    exact h.evolve hbody.pop hev.pop
  | error stop m' =>
    rw [hx] at hbody hev
    cases stop with
    | breakLoop _ | continueLoop _ => exact h.evolve hbody.memory.pop hev.pop
    | giveBack _ | failed _ | outOfFuel => exact ⟨hbody.reason, hbody.memory⟩

/-! Loops: what a condition and a round keep holds wherever something is evaluated in the loop, as long
as what is evaluated is as it should be. -/

section

variable {J : Machine → Prop} {E : Run.Stop → Machine → Prop} {P R : Evaluation → Prop}

lemma ends_evaluationsWhile {c : Run Bool} {b : Run Round}
    {first second : Machine → List Evaluation}
    (hc : ∀ m, J m → (∀ ev ∈ first m, R ev) → Ends (c m) (fun _ => J) E ∧ ∀ ev ∈ first m, P ev)
    (hb : ∀ m, J m → (∀ ev ∈ second m, R ev) → Ends (b m) (fun _ => J) E ∧ ∀ ev ∈ second m, P ev)
    (hfuel : ∀ m, J m → E .outOfFuel m) (fuel : Nat) :
    ∀ m, J m → (∀ ev ∈ evaluationsWhile c b first second fuel m, R ev) →
      Ends (repeatWhile c b fuel m) (fun _ => J) E ∧
        ∀ ev ∈ evaluationsWhile c b first second fuel m, P ev := by
  induction fuel with
  | zero => exact fun m h _ => ⟨hfuel m h, List.forall_mem_nil _⟩
  | succ fuel ih =>
    intro m h hr
    rw [evaluationsWhile, List.forall_mem_append] at hr ⊢
    obtain ⟨hcond, hfirst⟩ := hc m h hr.1
    unfold repeatWhile
    cases hx : c m with
    | error stop m₁ =>
      rw [hx] at hcond
      exact ⟨hcond, hfirst, List.forall_mem_nil _⟩
    | ok go m₁ =>
      rw [hx] at hcond hr
      cases go with
      | false => exact ⟨hcond, hfirst, List.forall_mem_nil _⟩
      | true =>
        dsimp only at hr ⊢
        rw [List.forall_mem_append] at hr ⊢
        obtain ⟨hround, hsecond⟩ := hb m₁ hcond hr.2.1
        cases hy : b m₁ with
        | error stop m₂ =>
          rw [hy] at hround
          exact ⟨hround, hfirst, hsecond, List.forall_mem_nil _⟩
        | ok r m₂ =>
          rw [hy] at hround hr
          cases r with
          | leave => exact ⟨hround, hfirst, hsecond, List.forall_mem_nil _⟩
          | next =>
            obtain ⟨hends, hrest⟩ := ih m₂ hround hr.2.2
            exact ⟨hends, hfirst, hsecond, hrest⟩

lemma ends_evaluationsFrom {b : Nat → Run Round} {second : Nat → Machine → List Evaluation}
    (hb : ∀ i m, J m → (∀ ev ∈ second i m, R ev) →
      Ends (b i m) (fun _ => J) E ∧ ∀ ev ∈ second i m, P ev) (count i : Nat) :
    ∀ m, J m → (∀ ev ∈ evaluationsFrom b second count i m, R ev) →
      Ends (repeatFrom b count i m) (fun _ => J) E ∧
        ∀ ev ∈ evaluationsFrom b second count i m, P ev := by
  induction count generalizing i with
  | zero => exact fun m h _ => ⟨h, List.forall_mem_nil _⟩
  | succ count ih =>
    intro m h hr
    rw [evaluationsFrom, List.forall_mem_append] at hr ⊢
    obtain ⟨hround, hsecond⟩ := hb i m h hr.1
    unfold repeatFrom
    cases hy : b i m with
    | error stop m₁ =>
      rw [hy] at hround
      exact ⟨hround, hsecond, List.forall_mem_nil _⟩
    | ok r m₁ =>
      rw [hy] at hround hr
      cases r with
      | leave => exact ⟨hround, hsecond, List.forall_mem_nil _⟩
      | next =>
        obtain ⟨hends, hrest⟩ := ih (i + 1) m₁ hround hr.2
        exact ⟨hends, hsecond, hrest⟩

lemma mem_evaluationsWhile {c : Run Bool} {b : Run Round} {first second : Machine → List Evaluation}
    (hc : ∀ m, J m → Ends (c m) (fun _ => J) E) (hb : ∀ m, J m → Ends (b m) (fun _ => J) E)
    (hfirst : ∀ m, J m → ∀ ev ∈ first m, P ev) (hsecond : ∀ m, J m → ∀ ev ∈ second m, P ev)
    (fuel : Nat) (m : Machine) (h : J m) : ∀ ev ∈ evaluationsWhile c b first second fuel m, P ev := by
  have hends := ends_evaluationsWhile (E := fun _ _ => True) (R := fun _ => True)
    (fun m h _ => ⟨(hc m h).imp (fun _ _ h => h) fun _ _ _ => trivial, hfirst m h⟩)
    (fun m h _ => ⟨(hb m h).imp (fun _ _ h => h) fun _ _ _ => trivial, hsecond m h⟩)
    (fun _ _ => trivial) fuel m h fun _ _ => trivial
  exact hends.2

lemma mem_evaluationsFrom {b : Nat → Run Round} {second : Nat → Machine → List Evaluation}
    (hb : ∀ i m, J m → Ends (b i m) (fun _ => J) E)
    (hsecond : ∀ i m, J m → ∀ ev ∈ second i m, P ev) (count i : Nat) (m : Machine) (h : J m) :
    ∀ ev ∈ evaluationsFrom b second count i m, P ev := by
  have hends := ends_evaluationsFrom (R := fun _ => True) (fun i m h _ => ⟨hb i m h, hsecond i m h⟩)
    count i m h fun _ _ => trivial
  exact hends.2

end

end Run

end

/-! ## Statements -/

/-- What running a checked statement can do: end with every name in place and of its type, or stop
for a sound reason. What it evaluates is sound. -/
structure SoundStmt (types : String → Ty) (loops inside : List String) (fuel : Nat)
    (st : Typing.State) (m : Machine) (s : Stmt) (st' : Typing.State) : Prop where
  ends : Ends (s.exec fuel m) (fun _ => Ready types (Readable loops inside st'.table))
    (StopsSound types (st.table.hasScope "loop"))
  evaluations : ∀ ev ∈ s.evaluations fuel m, ev.Sound st (.stmt s)

structure SoundStmts (types : String → Ty) (loops inside : List String) (fuel : Nat)
    (st : Typing.State) (m : Machine) (ss : List Stmt) (st' : Typing.State) : Prop where
  ends : Ends (Stmt.execAll fuel ss m) (fun _ => Ready types (Readable loops inside st'.table))
    (StopsSound types (st.table.hasScope "loop"))
  evaluations : SoundParts (Part.threaded st (ss.map .stmt)) (Stmt.evaluationsAll fuel ss m)

lemma Evaluation.sound_map_under {st st₁ : Typing.State} {part part₁ : Part} {i : Nat}
    {evs : List Evaluation} (hs : ∀ ev ∈ evs, ev.Sound st₁ part₁)
    (h : (part.parts st)[i]? = some (st₁, part₁)) : ∀ ev ∈ evs.map (under i), ev.Sound st part := by
  intro ev hev
  obtain ⟨ev', hev', rfl⟩ := List.mem_map.1 hev
  exact (hs ev' hev').under h

section

variable {types : String → Ty} {loops inside : List String} {st st' : Typing.State} {m : Machine}
  {t : Ty} {span : Span} {fuel : Nat}

lemma Expr.sound_of_ready {e : Expr} (hst : TableTyped types st)
    (h : Ready types (Readable loops inside st.table) m) (hs : e.isScalar = true) (hn : e.Normal)
    (hc : e.check .raising st = .ok t st') (hf : FreeFit loops inside e.names) :
    SoundExpr st m e t st' :=
  e.sound ⟨hst, h.memory⟩ hs hn hc fun x hx => h.bound x (readable_of_check hc hf x hx)

lemma SoundExpr.stops {e : Expr} {inLoop : Bool} (he : SoundExpr st m e t st')
    (hm : MemoryTyped types m) : Ends (e.eval m) (ValueOn m t) (StopsSound types inLoop) :=
  he.ends.imp (fun _ _ h => h) fun _ _ h => stopsSound_of_failedOn hm h

/-- The left side of a scalar assignment is a name. -/
lemma exists_name_of_isTarget {target : Expr} (ht : target.IsTarget) (hs : target.isScalar = true) :
    ∃ nameSpan id, target = .name nameSpan id := by
  cases target with
  | name nameSpan id => exact ⟨nameSpan, id, rfl⟩
  | element _ _ _ _ _ => cases hs
  | _ => exact ht.elim

/-- A name leaves the state of a check as it is, be it in the table or not. -/
lemma stateAfter_check_name (id : String) :
    stateAfter ((Expr.name span id).check .raising st) = st := by
  simp only [Expr.check, nameType_apply]
  cases st.table.get? id <;> rfl

/-- Assigning a value of its type to a name. -/
lemma Ready.set {id : String} {v : Value} (h : Ready types (Readable loops inside st.table) m)
    (hv : v.scalarType? = some (types id)) :
    Ready types (Readable loops inside (st.set id t).table) (m.bind id v) := by
  have hbind := h.bind hv
  exact ⟨hbind.memory, fun x hx => hbind.bound x hx.of_set⟩

lemma sound_assign {target value : Expr} (hst : TableTyped types st)
    (h : Ready types (Readable loops inside st.table) m)
    (hs : (Stmt.assign span target value).isScalar = true)
    (hn : (Stmt.assign span target value).Normal)
    (hc : (Stmt.assign span target value).check .raising st = .ok t st')
    (hf : (Stmt.assign span target value).Fits loops inside)
    (hb : BoundTyped types ((Stmt.assign span target value).bindings st)) :
    SoundStmt types loops inside fuel st m (.assign span target value) st' := by
  simp only [Stmt.isScalar, Bool.and_eq_true] at hs
  simp only [Stmt.bindings, hc, stateAfter_ok] at hb
  obtain ⟨ht, -, hnv⟩ := hn
  obtain ⟨nameSpan, id, rfl⟩ := exists_name_of_isTarget ht hs.1
  obtain ⟨t₁, st₁, hv, rfl⟩ := Stmt.checkAssign_name (Stmt.check_assign hc)
  have hvalue := value.sound_of_ready hst h hs.2 hnv hv hf.free.append.2
  obtain rfl := hvalue.state_eq.symm
  obtain rfl : t₁ = types id := boundTyped_set hb
  constructor
  · simp only [Stmt.exec]
    refine Ends.bind ?_ fun _ _ h => h
    refine (hvalue.stops h.memory).bind fun v m' hv => ?_
    obtain ⟨rfl, hv⟩ := hv
    exact h.set hv
  · refine Evaluation.sound_map_under hvalue.evaluations (i := 1) ?_
    change some (stateAfter ((Expr.name nameSpan id).check .raising st), Part.expr value) = _
    rw [stateAfter_check_name]

/-- The operator of an operator-assignment is its symbol without the sign of equality. -/
lemma take_eq_dropEnd {s : Symbol} (h : s.isAssignment) (hs : s ≠ .assign) :
    (s.spelling.take 1).toString = (s.spelling.dropEnd 1).toString := by
  cases s <;> first | exact absurd rfl hs | exact absurd h (by decide) | cbv

lemma Run.update_name (symbol : String) (nameSpan : Span) (id : String) (value : Expr) :
    update symbol (.name nameSpan id) value = (do
      let v ← value.eval
      let old ← lookup id
      let new ← apply (symbol.take 1).toString [old, v]
      bind id new) := rfl

lemma sound_update {symbol : String} {target value : Expr} (hst : TableTyped types st)
    (h : Ready types (Readable loops inside st.table) m)
    (hs : (Stmt.update span symbol target value).isScalar = true)
    (hn : (Stmt.update span symbol target value).Normal)
    (hc : (Stmt.update span symbol target value).check .raising st = .ok t st')
    (hf : (Stmt.update span symbol target value).Fits loops inside)
    (hb : BoundTyped types ((Stmt.update span symbol target value).bindings st)) :
    SoundStmt types loops inside fuel st m (.update span symbol target value) st' := by
  simp only [Stmt.isScalar, Bool.and_eq_true] at hs
  simp only [Stmt.bindings, hc, stateAfter_ok] at hb
  obtain ⟨⟨s, hassign, hne, hsymbol⟩, ht, hnt, hnv⟩ := hn
  obtain ⟨nameSpan, id, rfl⟩ := exists_name_of_isTarget ht hs.1
  obtain ⟨t₁, st₁, t₂, st₂, op, result, hold, hv, hop, hr, rfl⟩ :=
    Stmt.checkUpdate_raising (Stmt.check_update hc)
  have htarget := Expr.sound_of_ready hst h hs.1 hnt hold hf.free.append.1
  obtain rfl := htarget.state_eq.symm
  have hvalue := value.sound_of_ready hst h hs.2 hnv hv hf.free.append.2
  obtain rfl := hvalue.state_eq.symm
  obtain rfl : result = types id := boundTyped_set hb
  rw [hsymbol, ← take_eq_dropEnd hassign hne, ← hsymbol] at hop
  have hlookup : (m.lookup id).scalarType? = some t₁ := by
    have hends := htarget.ends
    simp only [Expr.eval] at hends
    exact hends.2
  constructor
  · simp only [Stmt.exec, update_name]
    generalize (symbol.take 1).toString = name at hop
    refine Ends.bind ?_ fun _ _ h => h
    refine (hvalue.stops h.memory).bind fun v m' hv => ?_
    obtain ⟨hm', hv⟩ := hv
    obtain rfl := hm'.symm
    rw [bind_ok (show lookup id m = .ok (m.lookup id) m from rfl)]
    have happly : Ends (apply name [m.lookup id, v] m) (ValueOn m (types id)) (FailedOn m) :=
      ends_apply hop hr (.cons hlookup (.cons hv .nil))
    refine (happly.imp (fun _ _ h => h) fun _ _ => stopsSound_of_failedOn h.memory).bind
      fun new m' hnew => ?_
    obtain rfl := hnew.1.symm
    exact h.set hnew.2
  · intro ev hev
    simp only [Stmt.evaluations, List.mem_append] at hev
    rcases hev with hev | hev
    · refine Evaluation.sound_map_under hvalue.evaluations (i := 1) ?_ ev hev
      change some (stateAfter ((Expr.name nameSpan id).check .raising st), Part.expr value) = _
      rw [stateAfter_check_name]
    · have hends := hvalue.ends
      split at hev
      · next v m' hv =>
        rw [hv] at hends
        obtain rfl := hends.1
        exact Evaluation.sound_map_under htarget.evaluations (i := 0) rfl ev hev
      · cases hev

/-- An instruction prints, gives back a value or jumps, a jump only inside a loop. -/
lemma ends_instruction {name : String} {vs : List Value} {ts : List Ty} {names : String → Prop}
    {inLoop : Bool} (hfit : ArgumentsFit name vs.length) (hvs : Fit vs ts)
    (hloop : name = "break" ∨ name = "continue" → inLoop = true) (h : Ready types names m) :
    Ends (apply name vs m) (fun _ => Ready types names) (StopsSound types inLoop) := by
  rcases hfit with ⟨rfl, -⟩ | ⟨rfl, hone⟩ | ⟨⟨k, hk, rfl⟩, hnone⟩
  · rw [apply_eq_perform (show Operation.ofName? Keyword.print.spelling = some .print by decide)]
    refine Ends.bind ((ends_print vs m).imp ?_ ?_) fun _ _ h => h
    · rintro - m' ⟨text, rfl⟩
      exact ⟨h.memory, h.bound⟩
    · rintro stop m' ⟨⟨text, rfl⟩, v, hv, e, he, rfl⟩
      exact ⟨computes_display_of_fit hvs hv e he, h.memory⟩
  · obtain ⟨v, rfl⟩ := List.length_eq_one_iff.1 hone
    rw [apply_eq_perform (show Operation.ofName? Keyword.return.spelling = some .giveBack by decide)]
    exact ⟨trivial, h.memory⟩
  · obtain rfl := List.length_eq_zero_iff.1 hnone
    rcases hk with rfl | rfl
    · rw [apply_eq_perform
        (show Operation.ofName? Keyword.break.spelling = some .breakLoop by decide)]
      exact ⟨hloop (.inl rfl), h.memory⟩
    · rw [apply_eq_perform
        (show Operation.ofName? Keyword.continue.spelling = some .continueLoop by decide)]
      exact ⟨hloop (.inr rfl), h.memory⟩

lemma sound_instruction {name : String} {arguments : List Expr} (hst : TableTyped types st)
    (h : Ready types (Readable loops inside st.table) m)
    (hs : (Stmt.instruction span name arguments).isScalar = true)
    (hn : (Stmt.instruction span name arguments).Normal)
    (hc : (Stmt.instruction span name arguments).check .raising st = .ok t st')
    (hf : (Stmt.instruction span name arguments).Fits loops inside) :
    SoundStmt types loops inside fuel st m (.instruction span name arguments) st' := by
  simp only [Stmt.isScalar] at hs
  obtain ⟨hloop, ts, hts⟩ := Stmt.check_instruction hc
  have hall := Expr.sound_all ⟨hst, h.memory⟩ arguments hs hn.2 hts fun x hx =>
    h.bound x (readable_of_checkAll hts hf.free x hx)
  obtain rfl := hall.state_eq.symm
  constructor
  · simp only [Stmt.exec]
    refine Ends.bind (hall.ends.imp (fun _ _ h => h) fun _ _ => stopsSound_of_failedOn h.memory)
      fun vs m' hvs => ?_
    obtain ⟨hm', hfit⟩ := hvs
    obtain rfl := hm'.symm
    have hlength : vs.length = arguments.length :=
      hfit.length_eq.trans (Expr.length_checkAll hts)
    exact ends_instruction (hlength ▸ hn.1) hfit hloop h
  · have hparts : SoundParts ((Part.stmt (.instruction span name arguments)).parts st)
        (Expr.evaluationsAll arguments m) := hall.evaluations
    exact hparts.under

/-- A condition leaves all as it is. -/
lemma SoundExpr.ready_test {condition : Expr} {names : String → Prop} {inLoop : Bool}
    (hc : SoundExpr st m condition .bool st') (h : Ready types names m) :
    Ends (test condition m) (fun _ m' => m' = m) (StopsSound types inLoop) :=
  (ends_test hc).imp (fun _ _ h => h) fun _ _ => stopsSound_of_failedOn h.memory

/-- A branch, which runs in a scope of its own that is no loop. -/
lemma SoundStmt.within {s : Stmt} {st₁ : Typing.State} {name scope : String}
    (hs : SoundStmt types loops inside fuel (st.push name) (m.push scope) s st₁)
    (hname : (name == "loop") = false) (h : Ready types (Readable loops inside st.table) m) :
    Ends (within scope (s.exec fuel) m) (fun _ => Ready types (Readable loops inside st.table))
      (StopsSound types (st.table.hasScope "loop")) := by
  refine ends_within h (s.evolves_exec fuel) (hs.ends.imp (fun _ _ h => h.memory) ?_)
  intro stop m' hstop
  rw [State.table_push, Scopes.hasScope_push, hname, Bool.false_or] at hstop
  exact hstop

/-- A round of a loop, after something that only binds names. -/
lemma SoundStmt.round {s : Stmt} {st₁ : Typing.State} {body : Run Value} {n : Machine}
    {names : String → Prop} {scope : String} {inLoop : Bool}
    (hs : SoundStmt types loops inside fuel (st.push "loop") n s st₁)
    (hbody : body (m.push scope) = s.exec fuel n) (hev : Evolves body) (h : Ready types names m) :
    Ends (round scope body m) (fun _ => Ready types names) (StopsSound types inLoop) := by
  refine ends_round h hev ?_
  rw [hbody]
  refine hs.ends.imp (fun _ _ h => h.memory) fun stop m' hstop => ?_
  rw [State.table_push, Scopes.hasScope_push] at hstop
  exact hstop

/-- A loop with a condition, if its body is sound in the scope of a round. -/
lemma sound_whileLoop {condition : Expr} {body : Stmt} {st₁ : Typing.State}
    (hcond : ∀ m, Ready types (Readable loops inside st.table) m →
      SoundExpr st m condition .bool st)
    (hrun : ∀ m, Ready types (Readable loops inside st.table) m →
      SoundStmt types loops inside fuel (st.push "loop") (m.push "while") body st₁)
    (hc : condition.check .raising st = .ok .bool st)
    (hw : (st.table.push "loop").Widens st₁.table)
    (h : Ready types (Readable loops inside st.table) m) :
    SoundStmt types loops inside fuel st m (.whileLoop span condition body) st₁.pop := by
  have htest : ∀ m, Ready types (Readable loops inside st.table) m → Ends (test condition m)
      (fun _ => Ready types (Readable loops inside st.table))
      (StopsSound types (st.table.hasScope "loop")) := fun m h =>
    ((hcond m h).ready_test h).imp (fun _ _ hm => hm ▸ h) fun _ _ h => h
  have hround : ∀ m, Ready types (Readable loops inside st.table) m →
      Ends (round "while" (body.exec fuel) m)
        (fun _ => Ready types (Readable loops inside st.table))
        (StopsSound types (st.table.hasScope "loop")) := fun m h =>
    (hrun m h).round rfl (body.evolves_exec fuel) h
  constructor
  · simp only [Stmt.exec]
    rw [readable_pop hw]
    refine Ends.bind (ends_repeatWhile htest hround ?_ fuel m h) fun _ _ h => h
    exact fun m h => ⟨trivial, h.memory⟩
  · refine mem_evaluationsWhile htest hround (fun m h => ?_) (fun m h => ?_) fuel m h
    · exact sound_map_under (hcond m h).evaluations rfl
    · refine sound_map_under (hrun m h).evaluations ?_
      simp only [Part.parts, Stmt.parts, hc, stateAfter_ok]
      rfl

/-- A loop over a range, if its body is sound after an integer is bound to its name. -/
lemma sound_forLoop {id : String} {idSpan : Span} {range : Expr} {body : Stmt}
    {st₁ : Typing.State}
    (hends : Ends (range.eval m) (fun v m' => m' = m ∧ ∃ a b, v = .range a b) (FailedOn m))
    (hevs : ∀ ev ∈ range.evaluations m, ev.Sound st (.expr range))
    (hrun : ∀ (n : Int) (m : Machine), Ready types (Readable loops inside st.table) m →
      SoundStmt types loops (id :: inside) fuel ((st.set id .int).push "loop")
        ((m.push "for").bind id (.int n)) body st₁)
    (hc : range.check .raising st = .ok .int st)
    (hnames : Readable loops inside st₁.pop.table = Readable loops inside st.table)
    (h : Ready types (Readable loops inside st.table) m) :
    SoundStmt types loops inside fuel st m (.forLoop span id idSpan range body) st₁.pop := by
  have hround : ∀ (a : Int) (i : Nat) (m : Machine),
      Ready types (Readable loops inside st.table) m →
      Ends (round "for" (do
          Run.bind id ((fun (_ : Store) (i : Nat) => Value.int (a + i)) (← get).store i)
          body.exec fuel) m)
        (fun _ => Ready types (Readable loops inside st.table))
        (StopsSound types (st.table.hasScope "loop")) := fun a i m h =>
    (hrun (a + i) m h).round rfl
      ((body.evolves_exec fuel).bindItem id (fun _ i => .int (a + i)) i) h
  constructor
  · simp only [Stmt.exec]
    rw [hnames]
    refine Ends.bind (hends.imp (fun _ _ h => h) fun _ _ => stopsSound_of_failedOn h.memory) ?_
    rintro v m' ⟨hm', a, b, rfl⟩
    obtain rfl := hm'.symm
    rw [bind_ok (show ofStore (fun _ => (Value.range a b).items) m = .ok _ m from rfl)]
    exact Ends.bind (ends_repeatFrom (hround a) _ 0 m h) fun _ _ h => h
  · intro ev hev
    simp only [Stmt.evaluations, List.mem_append] at hev
    rcases hev with hev | hev
    · exact sound_map_under hevs (i := 0) rfl ev hev
    · split at hev
      · next v m' hv =>
        rw [hv] at hends
        obtain ⟨hm', a, b, rfl⟩ := hends
        obtain rfl := hm'.symm
        refine mem_evaluationsFrom (hround a) (fun i m h => ?_) _ 0 m h ev hev
        refine sound_map_under (hrun (a + i) m h).evaluations ?_
        simp only [Part.parts, Stmt.parts, State.header_eq hc]
        rfl
      · cases hev

lemma sound_ifThen {condition : Expr} {yes : Stmt} {st₁ : Typing.State}
    (hcond : SoundExpr st m condition .bool st)
    (hyes : SoundStmt types loops inside fuel (st.push "then") (m.push "then") yes st₁)
    (hc : condition.check .raising st = .ok .bool st)
    (hw : (st.table.push "then").Widens st₁.table)
    (h : Ready types (Readable loops inside st.table) m) :
    SoundStmt types loops inside fuel st m (.ifThen span condition yes) st₁.pop := by
  constructor
  · simp only [Stmt.exec]
    rw [readable_pop hw]
    refine Ends.bind (hcond.ready_test h) fun b m' hm' => ?_
    obtain rfl := hm'.symm
    cases b with
    | false => exact h
    | true => exact Ends.bind (hyes.within rfl h) fun _ _ h => h
  · intro ev hev
    have htest := ends_test hcond
    simp only [Stmt.evaluations, List.mem_append] at hev
    rcases hev with hev | hev
    · exact sound_map_under hcond.evaluations (i := 0) rfl ev hev
    · split at hev
      · next m' hx =>
        rw [hx] at htest
        obtain rfl := htest.symm
        refine sound_map_under hyes.evaluations (i := 1) ?_ ev hev
        simp only [Part.parts, Stmt.parts, hc, stateAfter_ok]
        rfl
      · cases hev

/-- A choice between two branches; the second is checked with the types that the first has left. -/
lemma sound_ifElse {condition : Expr} {yes no : Stmt} {st₁ st₂ : Typing.State} {t : Ty}
    (hcond : SoundExpr st m condition .bool st)
    (hyes : SoundStmt types loops inside fuel (st.push "then") (m.push "then") yes st₁)
    (hno : SoundStmt types loops inside fuel (st₁.pop.push "else") (m.push "else") no st₂)
    (hc : condition.check .raising st = .ok .bool st)
    (hcy : yes.check .raising (st.push "then") = .ok t st₁)
    (hw : (st₁.pop.table.push "else").Widens st₂.table)
    (h : Ready types (Readable loops inside st.table) m) :
    SoundStmt types loops inside fuel st m (.ifElse span condition yes no) st₂.pop := by
  have hwy := yes.widensTable _ _ _ _ hcy
  have hnames : Readable loops inside st₁.pop.table = Readable loops inside st.table :=
    readable_pop hwy
  have hloop : st₁.pop.table.hasScope "loop" = st.table.hasScope "loop" :=
    hwy.pop.widens.hasScope "loop"
  constructor
  · simp only [Stmt.exec]
    rw [readable_pop hw, hnames]
    refine Ends.bind (hcond.ready_test h) fun b m' hm' => ?_
    obtain rfl := hm'.symm
    cases b with
    | false =>
      have hrun := hno.within rfl (by rw [hnames]; exact h)
      rw [hnames, hloop] at hrun
      exact Ends.bind hrun fun _ _ h => h
    | true => exact Ends.bind (hyes.within rfl h) fun _ _ h => h
  · intro ev hev
    have htest := ends_test hcond
    simp only [Stmt.evaluations, List.mem_append] at hev
    rcases hev with hev | hev
    · exact sound_map_under hcond.evaluations (i := 0) rfl ev hev
    · split at hev
      · next m' hx =>
        rw [hx] at htest
        obtain rfl := htest.symm
        refine sound_map_under hyes.evaluations (i := 1) ?_ ev hev
        simp only [Part.parts, Stmt.parts, hc, stateAfter_ok]
        rfl
      · next m' hx =>
        rw [hx] at htest
        obtain rfl := htest.symm
        refine sound_map_under hno.evaluations (i := 2) ?_ ev hev
        simp only [Part.parts, Stmt.parts, hc, hcy, stateAfter_ok]
        rfl
      · cases hev

end

mutual

/-- Accepted scalar statements are sound, if each name is bound with its type and the names of
`for` loops occur in their bodies only. -/
theorem Stmt.sound (types : String → Ty) (loops : List String) (fuel : Nat) : (s : Stmt) →
    ∀ {inside : List String} {st st' : Typing.State} {t : Ty} {m : Machine},
      s.isScalar = true → s.Normal → s.check .raising st = .ok t st' → s.Fits loops inside →
      (∀ x ∈ inside, st.table.contains x = true) → BoundTyped types (s.bindings st) →
      TableTyped types st → Ready types (Readable loops inside st.table) m →
      SoundStmt types loops inside fuel st m s st'
  | .block _ body, inside, st, st', t, m, hs, hn, hc, hf, hin, hb, hst, h => by
    obtain ⟨st₁, hbody, rfl⟩ := Stmt.check_block hc
    have hall := Stmt.sound_all types loops fuel body hs hn hbody hf.block (by simpa using hin) hb
      (Scopes.All.push hst _) (by rw [readable_push]; exact h.push "program")
    constructor
    · simp only [Stmt.exec]
      rw [readable_pop (Stmt.widensTable_all _ body _ _ _ hbody)]
      refine Ends.bind (ends_within h (Stmt.evolves_execAll fuel body) ?_) fun _ _ h => h
      exact hall.ends.imp (fun _ _ h => h.memory) fun _ _ h => h
    · exact SoundParts.under hall.evaluations
  | .assign _ target value, inside, st, st', t, m, hs, hn, hc, hf, hin, hb, hst, h =>
    sound_assign hst h hs hn hc hf hb
  | .update _ symbol target value, inside, st, st', t, m, hs, hn, hc, hf, hin, hb, hst, h =>
    sound_update hst h hs hn hc hf hb
  | .instruction _ name arguments, inside, st, st', t, m, hs, hn, hc, hf, hin, hb, hst, h =>
    sound_instruction hst h hs hn hc hf
  | .whileLoop _ condition body, inside, st, st', t, m, hs, hn, hc, hf, hin, hb, hst, h => by
    obtain ⟨st₁, st₂, t₂, hcond, hbody, rfl⟩ := Stmt.check_whileLoop hc
    simp only [Stmt.isScalar, Bool.and_eq_true] at hs
    simp only [Stmt.bindings, hcond, stateAfter_ok] at hb
    have hsound : ∀ m, Ready types (Readable loops inside st.table) m →
        SoundExpr st m condition .bool st₁ := fun m h =>
      condition.sound_of_ready hst h hs.1 hn.1 hcond hf.whileLoop.1
    obtain rfl := (hsound m h).state_eq.symm
    refine sound_whileLoop hsound (fun m h => ?_) hcond (body.widensTable _ _ _ _ hbody) h
    exact Stmt.sound types loops fuel body hs.2 hn.2 hbody hf.whileLoop.2 (by simpa using hin) hb
      (Scopes.All.push hst _) (by rw [readable_push]; exact h.push "while")
  | .forLoop _ id _ range body, inside, st, st', t, m, hs, hn, hc, hf, hin, hb, hst, h => by
    obtain ⟨t₁, st₁, st₂, t₂, hrange, hbody, rfl⟩ := Stmt.check_forLoop hc
    obtain ⟨hid, hfrange, hfbody⟩ := hf.forLoop
    simp only [Stmt.isScalar, Bool.and_eq_true] at hs
    simp only [Stmt.bindings, State.header_eq hrange] at hb
    obtain ⟨rfl, hst₁, hends, hevs⟩ := range.sound_range ⟨hst, h.memory⟩ hs.1 hn.1 hrange fun x hx =>
      h.bound x (readable_of_check hrange hfrange x hx)
    obtain rfl := hst₁.symm
    have hty : Ty.int = types id := boundTyped_set hb.append.1
    refine sound_forLoop hends hevs (fun n m h => ?_) hrange
      (readable_after_forLoop hid hin (body.widensTable _ _ _ _ hbody)) h
    refine Stmt.sound types loops fuel body hs.2 hn.2 hbody hfbody (contains_in_forLoop hin)
      hb.append.2 (Scopes.All.push (Scopes.All.set hst hty) _) ?_
    have hbind : Ready types (fun x => x = id ∨ Readable loops inside st.table x)
        ((m.push "for").bind id (.int n)) := (h.push "for").bind (congrArg some hty)
    exact ⟨hbind.memory, fun x hx => hbind.bound x (readable_in_forLoop.mp hx)⟩
  | .ifThen _ condition yes, inside, st, st', t, m, hs, hn, hc, hf, hin, hb, hst, h => by
    obtain ⟨st₁, st₂, t₂, hcond, hy, rfl⟩ := Stmt.check_ifThen hc
    simp only [Stmt.isScalar, Bool.and_eq_true] at hs
    simp only [Stmt.bindings, hcond, stateAfter_ok] at hb
    have hsound := condition.sound_of_ready hst h hs.1 hn.1 hcond hf.ifThen.1
    obtain rfl := hsound.state_eq.symm
    refine sound_ifThen hsound ?_ hcond (yes.widensTable _ _ _ _ hy) h
    exact Stmt.sound types loops fuel yes hs.2 hn.2 hy hf.ifThen.2 (by simpa using hin) hb
      (Scopes.All.push hst _) (by rw [readable_push]; exact h.push "then")
  | .ifElse _ condition yes no, inside, st, st', t, m, hs, hn, hc, hf, hin, hb, hst, h => by
    obtain ⟨st₁, st₂, t₂, st₃, t₃, hcond, hy, hno, rfl⟩ := Stmt.check_ifElse hc
    obtain ⟨hncond, hnyes, -, hnno⟩ := hn
    simp only [Stmt.isScalar, Bool.and_eq_true] at hs
    simp only [Stmt.bindings, hcond, hy, stateAfter_ok] at hb
    have hsound := condition.sound_of_ready hst h hs.1 hncond hcond hf.ifElse.1
    obtain rfl := hsound.state_eq.symm
    have hkeys := (yes.widensTable _ _ _ _ hy).pop
    have hst₂ : TableTyped types st₂.pop := Scopes.All.pop
      (Stmt.tableTyped_of_check yes hy hb.append.1 (Scopes.All.push hst _))
    refine sound_ifElse hsound ?_ ?_ hcond hy (no.widensTable _ _ _ _ hno) h
    · exact Stmt.sound types loops fuel yes hs.2.1 hnyes hy hf.ifElse.2.1 (by simpa using hin)
        hb.append.1 (Scopes.All.push hst _) (by rw [readable_push]; exact h.push "then")
    · refine Stmt.sound types loops fuel no hs.2.2 hnno hno hf.ifElse.2.2 (fun x hx => ?_)
        hb.append.2 (Scopes.All.push hst₂ _) ?_
      · simp [hkeys.contains x, hin x hx]
      · rw [readable_push, readable_pop (yes.widensTable _ _ _ _ hy)]
        exact h.push "else"
  | .expr _, _, _, _, _, _, _, hn, _, _, _, _, _, _ => hn.elim

theorem Stmt.sound_all (types : String → Ty) (loops : List String) (fuel : Nat) : (ss : List Stmt) →
    ∀ {inside : List String} {st st' : Typing.State} {m : Machine},
      Stmt.isScalarAll ss = true → Stmt.NormalAll ss → Stmt.checkAll .raising ss st = .ok () st' →
      Stmt.FitsAll loops inside ss → (∀ x ∈ inside, st.table.contains x = true) →
      BoundTyped types (Stmt.bindingsAll st ss) → TableTyped types st →
      Ready types (Readable loops inside st.table) m →
      SoundStmts types loops inside fuel st m ss st'
  | [], inside, st, st', m, hs, hn, hc, hf, hin, hb, hst, h => by
    simp only [Stmt.checkAll] at hc
    cases hc
    refine ⟨?_, soundParts_nil _⟩
    simp only [Stmt.execAll]
    exact h
  | s :: ss, inside, st, st', m, hs, hn, hc, hf, hin, hb, hst, h => by
    obtain ⟨t₁, st₁, hcs, hcss⟩ := Stmt.checkAll_cons hc
    simp only [Stmt.isScalarAll, Bool.and_eq_true] at hs
    simp only [Stmt.bindingsAll, hcs, stateAfter_ok] at hb
    have hw := s.widensTable _ _ _ _ hcs
    have hhead := Stmt.sound types loops fuel s hs.1 hn.1 hcs hf.cons.1 hin hb.append.1 hst h
    have hrest : ∀ m, Ready types (Readable loops inside st₁.table) m →
        SoundStmts types loops inside fuel st₁ m ss st' := fun m h =>
      Stmt.sound_all types loops fuel ss hs.2 hn.2 hcss hf.cons.2
        (fun x hx => hw.grows.contains (hin x hx)) hb.append.2
        (Stmt.tableTyped_of_check s hcs hb.append.1 hst) h
    have hends := hhead.ends
    constructor
    · simp only [Stmt.execAll]
      cases hx : s.exec fuel m with
      | ok v m₁ =>
        rw [hx] at hends
        have hall := (hrest m₁ hends).ends
        rw [hw.hasScope "loop"] at hall
        exact hall
      | error stop m₁ =>
        rw [hx] at hends
        exact hends
    · simp only [List.map_cons, Part.threaded, Stmt.evaluationsAll]
      refine SoundParts.cons hhead.evaluations ?_
      rw [show stateAfter (Part.check (.stmt s) st) = st₁ by rw [Part.check, hcs, stateAfter_ok]]
      split
      · next v m₁ hx =>
        rw [hx] at hends
        exact (hrest m₁ hends).evaluations
      · exact soundParts_nil _

end

/-! ## Scripts -/

/-- The type with which a name is first bound. -/
def firstType (bs : List (String × Ty)) (x : String) : Ty := (bs.lookup x).getD .none

lemma Stmt.OneTypePerName.boundTyped {s : Stmt} (h : s.OneTypePerName) :
    BoundTyped (firstType (s.bindings {})) (s.bindings {}) := by
  intro b hb
  unfold firstType
  cases hl : (s.bindings {}).lookup b.1 with
  | none =>
    have hne := List.lookup_eq_none_iff.1 hl b hb
    simp at hne
  | some t =>
    obtain ⟨l₁, l₂, heq, -⟩ := List.lookup_eq_some_iff.1 hl
    exact h b hb (b.1, t) (by rw [heq]; simp) rfl

/-- Type soundness of the scalar language. Take a script without arrays that is accepted, in which
each name is bound with one type, and whose loop names occur only in bodies of loops over them. A
run of it that ends fails at most for an arithmetic reason. Every name that it evaluates is bound,
and every value has exactly the type that the check gives to its expression. -/
theorem Script.typeSound_of_parse {line : Nat} {text : String} {s : Stmt} {t : Ty}
    {st : Typing.State} (hp : (Script.parse line text).script = .ok s) (hs : s.isScalar = true)
    (hc : s.check .raising {} = .ok t st) (hone : s.OneTypePerName) (hl : s.LoopNamesLocal)
    (fuel : Nat) :
    (∀ stop m, s.run fuel {} = .error stop m →
      stop = .outOfFuel ∨ ∃ e, stop = .failed e ∧ e.IsArithmetic) ∧
    ∀ ev ∈ s.evaluations fuel {}, ev.Sound {} (.stmt s) := by
  have hready : Ready (firstType (s.bindings {}))
      (Readable s.loopNames [] ({} : Typing.State).table) {} :=
    ⟨Scopes.All.empty, fun x hx => absurd hx.1 (by simp)⟩
  have hsound := s.sound (firstType (s.bindings {})) s.loopNames fuel hs
    (Parse.normal_of_script hp).1.normal hc hl.fits (by simp) hone.boundTyped Scopes.All.empty hready
  refine ⟨fun stop m hrun => ?_, hsound.evaluations⟩
  have hends := hsound.ends
  unfold Stmt.run at hrun
  cases hx : s.exec fuel {} with
  | ok v m' =>
    rw [hx] at hrun
    cases hrun
  | error stop' m' =>
    rw [hx] at hrun hends
    have hreason := hends.reason
    cases stop' with
    | giveBack v => cases hrun
    | breakLoop _ | continueLoop _ => cases hreason
    | failed e =>
      cases hrun
      exact .inr ⟨e, rfl, hreason⟩
    | outOfFuel =>
      cases hrun
      exact .inl rfl

/-- Adds up numbers, with a jump out of two scopes and one out of a loop without end. -/
def countingText : String :=
  "n = 0; for i = 0:4 \x7b if (i == 1) continue; n += i; \x7d while (true) break;"

def countingScript : Stmt :=
  let at1 : Span := ⟨1, 1⟩
  let i : Expr := .name at1 "i"
  let n : Expr := .name at1 "n"
  let int (k : Int) : Expr := .constant at1 (.int k)
  .block at1 [
    .assign at1 n (int 0),
    .forLoop at1 "i" at1 (.range at1 (int 0) (int 4)) (.block at1 [
      .ifThen at1 (.operator at1 "==" [i, int 1]) (.instruction at1 "continue" []),
      .update at1 "+=" n i]),
    .whileLoop at1 (.constant at1 (.bool true)) (.instruction at1 "break" [])]

theorem typeSound_countingScript :
    (Script.parse 1 countingText).script = .ok countingScript ∧ countingScript.isScalar = true ∧
    countingScript.check .raising {} = .ok .none {} ∧ countingScript.OneTypePerName ∧
    countingScript.LoopNamesLocal ∧
    ∀ fuel, (∀ stop m, countingScript.run fuel {} = .error stop m →
        stop = .outOfFuel ∨ ∃ e, stop = .failed e ∧ e.IsArithmetic) ∧
      ∀ ev ∈ countingScript.evaluations fuel {}, ev.Sound {} (.stmt countingScript) := by
  have hp : (Script.parse 1 countingText).script = .ok countingScript := by cbv
  have hs : countingScript.isScalar = true := by decide
  have hc : countingScript.check .raising {} = .ok .none {} := by cbv
  have hbindings : countingScript.bindings {} = [("n", .int), ("i", .int), ("n", .int)] := by cbv
  have hone : countingScript.OneTypePerName := by
    rw [Stmt.OneTypePerName, hbindings]
    decide
  have hl : countingScript.LoopNamesLocal := by decide
  exact ⟨hp, hs, hc, hone, hl, Script.typeSound_of_parse hp hs hc hone hl⟩

end MatScript
