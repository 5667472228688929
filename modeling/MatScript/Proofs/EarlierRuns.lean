import MatScript.Proofs.LeftScopes
import MatScript.Proofs.Relocation
import MatScript.Session

/-! Runs after other runs. What earlier runs leave on a machine, scopes that were not left, names in
them and elements of arrays, cannot be seen by an accepted script: it reads only names that it has
bound, and does not see where in the store its arrays are. -/
namespace MatScript

open Run Typing

/-! ## A run on a machine with other elements in front of its store -/

def Run.Stop.shift (k : Nat) : Run.Stop → Run.Stop
  | .giveBack v => .giveBack (v.shift k)
  | stop => stop

namespace Run

variable {α β : Type} (pre : Store)

def shiftEnd (f : α → α) : EStateM.Result Stop Machine α → EStateM.Result Stop Machine α
  | .ok a m => .ok (f a) (m.shift pre)
  | .error stop m => .error (stop.shift pre.size) (m.shift pre)

/-- On a machine with other elements in front, `r'` does what `r` does, with results changed by
`f`. -/
def Shifts (f : α → α) (r r' : Run α) : Prop := ∀ m, r' (m.shift pre) = shiftEnd pre f (r m)

variable {pre} {f : α → α} {g : β → β} {r r' : Run α}

lemma Shifts.ok (h : Shifts pre f r r') {m m' : Machine} {a : α} (hm : r m = .ok a m') :
    r' (m.shift pre) = .ok (f a) (m'.shift pre) := by rw [h m, hm, shiftEnd]

lemma Shifts.error (h : Shifts pre f r r') {m m' : Machine} {stop : Stop}
    (hm : r m = .error stop m') :
    r' (m.shift pre) = .error (stop.shift pre.size) (m'.shift pre) := by rw [h m, hm, shiftEnd]

lemma shifts_pure (a : α) : Shifts pre f (pure a) (pure (f a)) := fun _ => rfl

lemma shifts_throw (stop : Stop) :
    Shifts pre f (throw stop) (throw (stop.shift pre.size)) := fun _ => rfl

lemma shifts_fail (e : RunError) : Shifts pre f (fail e) (fail e) := fun _ => rfl

lemma Shifts.bind {c c' : α → Run β} (h : Shifts pre f r r')
    (hc : ∀ a, Shifts pre g (c a) (c' (f a))) : Shifts pre g (r >>= c) (r' >>= c') := by
  intro m
  cases hm : r m with
  | ok a m' => rw [bind_ok hm, bind_ok (h.ok hm), hc a m']
  | error stop m' => rw [bind_error hm, bind_error (h.error hm), shiftEnd]

lemma shifts_ofStore {x x' : Store → Except RunError α}
    (h : ∀ store, x' (pre ++ store) = (x store).map f) :
    Shifts pre f (ofStore x) (ofStore x') := by
  intro m
  have hm : x' (m.shift pre).store = (x m.store).map f := h m.store
  unfold ofStore
  rw [hm]
  cases x m.store with
  | ok a => rfl
  | error e => rfl

lemma ofStore_pure (a : α) : (ofStore fun _ => .ok a) = (pure a : Run α) := rfl

lemma shifts_lookup (id : String) :
    Shifts pre (Value.shift pre.size) (lookup id) (lookup id) := by
  intro m
  simp only [lookup, Machine.lookup_shift, shiftEnd]

lemma shifts_bind (name : String) (v : Value) :
    Shifts pre id (Run.bind name v) (Run.bind name (v.shift pre.size)) := by
  intro m
  simp only [Run.bind, Machine.bind_shift, shiftEnd, id_eq]

/-- A patch is made and applied to one store. -/
lemma ofStore_change (x : Store → Except RunError Patch) (m : Machine) :
    (ofStore x >>= change) m =
      match (x m.store).map (·.apply m.store) with
      | .ok store => .ok () { m with store }
      | .error e => .error (.failed e) m := by
  cases hx : x m.store with
  | ok p =>
    rw [bind_ok (ofStore_ok hx)]
    rfl
  | error e =>
    rw [bind_error (ofStore_error hx)]
    rfl

lemma shifts_change (array selector v : Value) :
    Shifts pre id (do change (← ofStore fun store => array.patch store selector v))
      (do change (← ofStore fun store => (array.shift pre.size).patch store
        (selector.shift pre.size) (v.shift pre.size))) := by
  intro m
  rw [ofStore_change, ofStore_change]
  simp only [Machine.shift, Value.patch_shift]
  cases array.patch m.store selector v with
  | ok p => rfl
  | error e => rfl

lemma shifts_displayAll (vs : List Value) :
    Shifts pre id (displayAll vs) (displayAll (vs.map (Value.shift pre.size))) := by
  refine shifts_ofStore fun store => ?_
  rw [List.mapM_map]
  simp only [Function.comp_def, Value.display_shift]
  exact bind_eq_map_bind fun texts => rfl

lemma shifts_print (vs : List Value) :
    Shifts pre id (print vs) (print (vs.map (Value.shift pre.size))) := by
  intro m
  unfold print
  simp only [Machine.shift, Value.line_shift]
  obtain ⟨text, failure⟩ := Value.line m.store vs
  cases failure with
  | none => rfl
  | some e => rfl

lemma shifts_perform (op : Operation) (arguments : List Value) :
    Shifts pre (Value.shift pre.size) (perform op arguments)
      (perform op (arguments.map (Value.shift pre.size))) := by
  have hcompute : Shifts pre (Value.shift pre.size)
      (ofStore fun store => op.compute store arguments)
      (ofStore fun store => op.compute store (arguments.map (Value.shift pre.size))) :=
    shifts_ofStore fun store => Operation.compute_shift pre store op arguments
  cases op with
  | breakLoop => exact (shifts_displayAll arguments).bind fun _ => shifts_throw _
  | continueLoop => exact (shifts_displayAll arguments).bind fun _ => shifts_throw _
  | giveBack =>
    rcases arguments with _ | ⟨v, _ | ⟨w, rest⟩⟩
    · exact shifts_throw _
    · exact shifts_throw _
    · simp only [List.map_cons, perform, List.length_cons, List.length_map]
      exact shifts_fail _
  | print => exact (shifts_print arguments).bind fun _ => shifts_pure _
  | _ => exact hcompute

lemma shifts_apply (name : String) (arguments : List Value) :
    Shifts pre (Value.shift pre.size) (apply name arguments)
      (apply name (arguments.map (Value.shift pre.size))) := by
  unfold apply
  split
  · exact shifts_perform _ _
  · exact shifts_fail _

end Run

mutual

theorem Expr.shifts {pre : Store} : (e : Expr) →
    Shifts pre (Value.shift pre.size) e.eval e.eval
  | .constant _ value => by
    simp only [Expr.eval]
    cases value <;> exact shifts_pure _
  | .vector _ items => by
    simp only [Expr.eval]
    refine (Expr.shifts_all items).bind fun vs => shifts_ofStore fun store => ?_
    exact Value.vector_shift pre store vs
  | .range _ start stop => by
    simp only [Expr.eval]
    refine start.shifts.bind fun a => stop.shifts.bind fun b => shifts_ofStore fun store => ?_
    simp only [Value.integer_shift]
    exact bind_eq_map_bind fun m => bind_eq_map_bind fun n => rfl
  | .operator _ _ operands => by
    simp only [Expr.eval]
    exact (Expr.shifts_all operands).bind fun vs => shifts_apply _ vs
  | .call _ _ arguments => by
    simp only [Expr.eval]
    exact (Expr.shifts_all arguments).bind fun vs => shifts_apply _ vs
  | .name _ id => by simpa only [Expr.eval] using shifts_lookup id
  | .element _ id _ indices _ => by
    simp only [Expr.eval]
    refine (shifts_lookup id).bind fun array => (Expr.shifts_all indices).bind fun vs => ?_
    refine shifts_ofStore fun store => ?_
    rw [Value.vector_shift]
    exact map_bind_eq_map_bind fun selector => Value.index_shift pre store array selector
  | .gap _ _ => by simpa only [Expr.eval] using shifts_fail _

theorem Expr.shifts_all {pre : Store} : (es : List Expr) →
    Shifts pre (List.map (Value.shift pre.size)) (Expr.evalAll es) (Expr.evalAll es)
  | [] => by
    simp only [Expr.evalAll]
    exact shifts_pure []
  | e :: es => by
    simp only [Expr.evalAll]
    exact e.shifts.bind fun v => (Expr.shifts_all es).bind fun vs => shifts_pure (v :: vs)

end

namespace Run

variable {pre : Store}

lemma shifts_evalIndices (indices : List Expr) :
    Shifts pre (Value.shift pre.size) (evalIndices indices) (evalIndices indices) := by
  refine (Expr.shifts_all indices).bind fun vs => shifts_ofStore fun store => ?_
  exact Value.vector_shift pre store vs

lemma shifts_assign (target value : Expr) :
    Shifts pre id (assign target value) (assign target value) := by
  cases target with
  | name _ name => exact value.shifts.bind fun v => shifts_bind name v
  | element _ name _ indices _ =>
    refine (shifts_lookup name).bind fun array => (shifts_evalIndices indices).bind fun selector => ?_
    exact value.shifts.bind fun v => shifts_change array selector v
  | _ => exact shifts_pure ()

lemma shifts_update (symbol : String) (target value : Expr) :
    Shifts pre id (update symbol target value) (update symbol target value) := by
  unfold update
  refine value.shifts.bind fun v => ?_
  dsimp only
  cases target with
  | name _ name =>
    refine (shifts_lookup name).bind fun old => (shifts_apply _ [old, v]).bind fun new => ?_
    exact shifts_bind name new
  | element _ name _ indices _ =>
    refine (shifts_lookup name).bind fun array => (shifts_evalIndices indices).bind fun selector => ?_
    split
    · exact shifts_fail _
    · have hindex := fun store => Value.index_shift pre store array selector
      refine (shifts_ofStore hindex).bind fun old => (shifts_perform _ [old, v]).bind fun new => ?_
      exact shifts_change array selector new
  | _ => exact shifts_pure ()

lemma shifts_test (condition : Expr) : Shifts pre id (test condition) (test condition) := by
  refine condition.shifts.bind fun v => shifts_ofStore fun store => ?_
  rw [Value.truth_shift]
  cases v.truth store <;> rfl

section

variable {α : Type} {f : α → α} {r r' : Run α}

lemma Shifts.within (h : Shifts pre f r r') (scope : String) :
    Shifts pre id (within scope r) (within scope r') := by
  intro m
  unfold Run.within
  rw [Machine.push_shift]
  cases hm : r (m.push scope) with
  | ok a m' =>
    rw [h.ok hm]
    exact congrArg _ (Machine.pop_shift pre m')
  | error stop m' => rw [h.error hm, shiftEnd]

lemma Shifts.round (h : Shifts pre f r r') (scope : String) :
    Shifts pre id (round scope r) (round scope r') := by
  intro m
  unfold Run.round
  rw [Machine.push_shift]
  cases hm : r (m.push scope) with
  | ok a m' =>
    rw [h.ok hm]
    exact congrArg _ (Machine.pop_shift pre m')
  | error stop m' =>
    rw [h.error hm]
    cases stop with
    | breakLoop note => exact congrArg _ (Machine.pop_shift pre m')
    | continueLoop note => exact congrArg _ (Machine.pop_shift pre m')
    | _ => rfl

lemma shifts_repeatWhile {c c' : Run Bool} {b b' : Run Round} (hc : Shifts pre id c c')
    (hb : Shifts pre id b b') (fuel : Nat) :
    Shifts pre id (repeatWhile c b fuel) (repeatWhile c' b' fuel) := by
  induction fuel with
  | zero => exact shifts_throw .outOfFuel
  | succ fuel ih =>
    intro m
    unfold repeatWhile
    cases hm : c m with
    | error stop m₁ => rw [hc.error hm, shiftEnd]
    | ok yes m₁ =>
      rw [hc.ok hm]
      cases yes with
      | false => rfl
      | true =>
        dsimp only [id_eq]
        cases hm₁ : b m₁ with
        | error stop m₂ => rw [hb.error hm₁, shiftEnd]
        | ok after m₂ =>
          rw [hb.ok hm₁]
          cases after with
          | leave => rfl
          | next => exact ih m₂

lemma shifts_repeatFrom {b b' : Nat → Run Round} (hb : ∀ i, Shifts pre id (b i) (b' i))
    (count i : Nat) : Shifts pre id (repeatFrom b count i) (repeatFrom b' count i) := by
  induction count generalizing i with
  | zero => exact shifts_pure ()
  | succ count ih =>
    intro m
    unfold repeatFrom
    cases hm : b i m with
    | error stop m₁ => rw [(hb i).error hm, shiftEnd]
    | ok after m₁ =>
      rw [(hb i).ok hm]
      cases after with
      | leave => rfl
      | next => exact ih (i + 1) m₁

end

end Run

/-- The item of a loop is looked up when its turn comes, on either machine. -/
lemma Run.shifts_bindItem {α : Type} {pre : Store} {f : α → α} {r r' : Run α} (name : String)
    (i : Nat) {item item' : Store → Nat → Value}
    (h : ∀ store i, item' (pre ++ store) i = (item store i).shift pre.size)
    (hr : Shifts pre f r r') :
    Shifts pre f (do Run.bind name (item (← get).store i); r)
      (do Run.bind name (item' (← get).store i); r') := by
  intro m
  have hbind : Shifts pre f (do Run.bind name (item m.store i); r)
      (do Run.bind name ((item m.store i).shift pre.size); r') :=
    (shifts_bind name _).bind fun _ => hr
  rw [← h] at hbind
  exact hbind m

mutual

/-- A statement takes the same steps on a machine with other elements in front of its store. -/
theorem Stmt.shifts {pre : Store} (fuel : Nat) : (s : Stmt) →
    Shifts pre (Value.shift pre.size) (s.exec fuel) (s.exec fuel)
  | .block _ body => by
    simp only [Stmt.exec]
    exact ((Stmt.shifts_all fuel body).within _).bind fun _ => shifts_pure Value.none
  | .assign _ target value => by
    simp only [Stmt.exec]
    exact (shifts_assign target value).bind fun _ => shifts_pure Value.none
  | .update _ symbol target value => by
    simp only [Stmt.exec]
    exact (shifts_update symbol target value).bind fun _ => shifts_pure Value.none
  | .instruction _ name arguments => by
    simp only [Stmt.exec]
    exact (Expr.shifts_all arguments).bind fun vs => shifts_apply name vs
  | .whileLoop _ condition body => by
    simp only [Stmt.exec]
    refine (shifts_repeatWhile (shifts_test condition) ((Stmt.shifts fuel body).round _) fuel).bind ?_
    exact fun _ => shifts_pure Value.none
  | .forLoop _ name _ range body => by
    simp only [Stmt.exec]
    refine range.shifts.bind fun v => ?_
    rcases v.items_shift pre with ⟨e, hv, hv'⟩ | ⟨count, item, item', hv, hv', hitem⟩
    · rw [hv, hv']
      exact fun _ => rfl
    · rw [hv, hv', ofStore_pure, ofStore_pure, pure_bind, pure_bind]
      refine Shifts.bind (shifts_repeatFrom (fun i => ?_) count 0) fun _ => shifts_pure Value.none
      exact (shifts_bindItem name i hitem (Stmt.shifts fuel body)).round "for"
  | .ifThen _ condition yes => by
    simp only [Stmt.exec]
    refine (shifts_test condition).bind fun b => ?_
    cases b with
    | true => exact ((Stmt.shifts fuel yes).within _).bind fun _ => shifts_pure Value.none
    | false => exact shifts_pure Value.none
  | .ifElse _ condition yes no => by
    simp only [Stmt.exec]
    refine (shifts_test condition).bind fun b => ?_
    cases b with
    | true => exact ((Stmt.shifts fuel yes).within _).bind fun _ => shifts_pure Value.none
    | false => exact ((Stmt.shifts fuel no).within _).bind fun _ => shifts_pure Value.none
  | .expr e => by simpa only [Stmt.exec] using e.shifts

theorem Stmt.shifts_all {pre : Store} (fuel : Nat) : (ss : List Stmt) →
    Shifts pre id (Stmt.execAll fuel ss) (Stmt.execAll fuel ss)
  | [] => by
    simp only [Stmt.execAll]
    exact shifts_pure ()
  | s :: ss => by
    intro m
    simp only [Stmt.execAll]
    cases hm : s.exec fuel m with
    | ok v m' =>
      rw [(Stmt.shifts fuel s).ok hm]
      exact Stmt.shifts_all fuel ss m'
    | error stop m' => rw [(Stmt.shifts fuel s).error hm, shiftEnd]

end

/-! ## What is seen of a run -/

/-- The value with elements of its own, which is what can be seen of it. -/
def Value.detach (store : Store) : Value → Value
  | .array t => .array (.ofElements (t.kind store) t.shape (t.elements store))
  | v => v

lemma Value.detach_shift (pre store : Store) (v : Value) :
    (v.shift pre.size).detach (pre ++ store) = v.detach store := by
  cases v <;> simp [shift, detach]

/-- What a run shows: its value or why it stopped, and what it has printed. -/
def Run.shown : EStateM.Result Run.Stop Machine Value → Except Run.Stop Value × String
  | .ok v m => (.ok (v.detach m.store), m.output)
  | .error stop m => (.error stop, m.output)

/-- Machines that agree, one of them moved, show the same for a value, and for a stop. -/
lemma Agree.shown_eq {V : String → Prop} {m n : Machine} {pre : Store} (h : Agree V m (n.shift pre)) :
    (∀ v, shown (.ok (v.shift pre.size) m) = shown (.ok v n)) ∧
      ∀ stop, shown (.error stop m) = shown (.error stop n) := by
  have hstore : m.store = pre ++ n.store := h.store
  have houtput : m.output = n.output := h.output
  refine ⟨fun v => ?_, fun stop => ?_⟩
  · simp only [shown, hstore, houtput, Value.detach_shift]
  · simp only [shown, houtput]

/-- An accepted script shows the same on a machine with scopes, names and elements left on it. -/
lemma Stmt.shown_run {s : Stmt} {t : Ty} {st : Typing.State}
    (hc : s.check .raising {} = .ok t st) (hl : s.LoopNamesLocal) (fuel : Nat) {m : Machine}
    (hm : m.memory.Separate) (hout : m.output = "") :
    shown (s.run fuel m) = shown (s.run fuel {}) := by
  -- the machine agrees with a new one whose store has the elements that are left in front
  have hagree : Agree (Readable s.loopNames [] Scopes.empty) m (({} : Machine).shift m.store) := by
    refine ⟨?_, hout, fun x hx => absurd hx.1 (by simp), hm, Scopes.separate_empty⟩
    exact Array.append_empty.symm
  have hrun := s.runs_agree .keep .keep fuel s.loopNames hc hl.fits (by simp) hagree
  rw [Stmt.execBy_keep, (Stmt.shifts fuel s) {}] at hrun
  unfold Stmt.run
  cases hx : s.exec fuel m with
  | ok v m' =>
    cases hy : s.exec fuel {} with
    | ok w n =>
      rw [hx, hy] at hrun
      obtain ⟨rfl, h⟩ := hrun
      exact h.shown_eq.1 w
    | error stop n =>
      rw [hx, hy] at hrun
      exact hrun.elim
  | error stop m' =>
    cases hy : s.exec fuel {} with
    | ok w n =>
      rw [hx, hy] at hrun
      exact hrun.elim
    | error stop' n =>
      rw [hx, hy] at hrun
      obtain ⟨rfl, h⟩ := hrun
      cases stop' with
      | giveBack v => exact h.shown_eq.1 v
      | _ => exact h.shown_eq.2 _

/-! ## Runs of a session -/

namespace Session

/-- What a run of a session shows. -/
def shown (r : Except Run.Stop Value × Session) : Except Run.Stop Value × String :=
  (r.1.map (Value.detach r.2.machine.store), r.2.machine.output)

/-- The session after runs of scripts on its machine, each with its own limit of rounds. -/
def afterRuns (s : Session) (runs : List (Nat × Stmt)) : Session :=
  runs.foldl (fun s r => (s.onMachine (r.2.run r.1)).2) s

lemma shown_onMachine (s : Session) (r : Run Value) :
    shown (s.onMachine r) = Run.shown (r { s.machine with output := "" }) := by
  unfold onMachine
  cases r { s.machine with output := "" } with
  | ok v m => rfl
  | error stop m => rfl

/-- However a run ends, no name is left in two scopes. -/
lemma separate_onMachine {s : Session} (fuel : Nat) (q : Stmt) (h : s.machine.memory.Separate) :
    (s.onMachine (q.run fuel)).2.machine.memory.Separate := by
  have hevolves := q.evolves_exec fuel { s.machine with output := "" }
  unfold onMachine Stmt.run
  cases hx : q.exec fuel { s.machine with output := "" } with
  | ok v m =>
    rw [hx] at hevolves
    exact hevolves.separate h
  | error stop m =>
    rw [hx] at hevolves
    cases stop <;> exact hevolves.separate h

lemma separate_afterRuns (runs : List (Nat × Stmt)) {s : Session}
    (h : s.machine.memory.Separate) : (s.afterRuns runs).machine.memory.Separate := by
  induction runs generalizing s with
  | nil => exact h
  | cons r runs ih => exact ih (separate_onMachine r.1 r.2 h)

end Session

/-- Runs on one machine do not influence each other: after whatever runs, and however they ended,
an accepted script whose loop names occur only in bodies of loops over them prints the same, and
gives back the same value or stops for the same reason, as on a new machine. -/
theorem Session.shown_after_runs {q : Stmt} {t : Ty} {st : Typing.State}
    (hc : q.check .raising {} = .ok t st) (hl : q.LoopNamesLocal) (history : List (Nat × Stmt))
    (fuel : Nat) :
    shown ((({} : Session).afterRuns history).onMachine (q.run fuel)) =
      shown (({} : Session).onMachine (q.run fuel)) := by
  rw [shown_onMachine, shown_onMachine]
  have hseparate := separate_afterRuns history (s := {}) Scopes.separate_empty
  exact Stmt.shown_run hc hl fuel hseparate rfl

/-- A return from two scopes that have names, one of them bound to an array, and a division by
zero. -/
def brokenRuns : List (Nat × Stmt) :=
  let at1 : Span := ⟨1, 1⟩
  let x : Expr := .name at1 "x"
  let int (k : Int) : Expr := .constant at1 (.int k)
  [(0, .block at1 [
      .assign at1 x (.vector at1 [int 1, int 2]),
      .block at1 [
        .assign at1 (.name at1 "y") (int 3),
        .instruction at1 "return" [x]]]),
    (0, .block at1 [.instruction at1 "print" [.operator at1 "/" [int 1, int 0]]])]

/-- The script `x = [5, 6]; x[0] = 7; print x[1]; return x;`. -/
def vectorScript : Stmt :=
  let at1 : Span := ⟨1, 1⟩
  let x : Expr := .name at1 "x"
  let int (k : Int) : Expr := .constant at1 (.int k)
  .block at1 [
    .assign at1 x (.vector at1 [int 5, int 6]),
    .assign at1 (.element at1 "x" at1 [int 0] at1) (int 7),
    .instruction at1 "print" [.element at1 "x" at1 [int 1] at1],
    .instruction at1 "return" [x]]

/-- The name `x` is bound on the machine, to elements in its store, when the script starts. -/
theorem Session.shown_after_runs_brokenRuns :
    vectorScript.check .raising {} = .ok .none {} ∧ vectorScript.LoopNamesLocal ∧
    (({} : Session).afterRuns brokenRuns).machine.memory.contains "x" = true ∧
    (({} : Session).afterRuns brokenRuns).machine.store.size = 1 ∧
    shown ((({} : Session).afterRuns brokenRuns).onMachine (vectorScript.run 0)) =
      (.ok (.array (.ofElements .int [2] [.int 7, .int 6])), "6\n") := by
  have hc : vectorScript.check .raising {} = .ok .none {} := by cbv
  have hl : vectorScript.LoopNamesLocal := by decide
  exact ⟨hc, hl, by rfl, by rfl, (Session.shown_after_runs hc hl brokenRuns 0).trans (by rfl)⟩

end MatScript
