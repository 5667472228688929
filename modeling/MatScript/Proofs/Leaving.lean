import MatScript.Proofs.Blind
import MatScript.Proofs.Scopes
import MatScript.Run

/-! Runs under either rule for a scope that is left by a jump or an error: it stays in memory, as
in `Stmt.exec`, or it is removed. Under both rules memory only grows while a statement runs. -/
namespace MatScript

namespace Run

/-- What becomes of a scope whose body does not end normally. -/
inductive Leaving where
  | keep
  | remove

/-- The machine after a scope is left by a jump or an error. -/
def Leaving.after (d : Leaving) (m : Machine) : Machine :=
  match d with
  | .keep => m
  | .remove => m.pop

/-- Run inside a scope of its own, which is left by the given rule. -/
def withinBy {α : Type} (d : Leaving) (scope : String) (body : Run α) : Run Unit := fun m =>
  match body (m.push scope) with
  | .ok _ m => .ok () m.pop
  | .error stop m => .error stop (d.after m)

/-- One round of a loop, inside a scope of its own, which is left by the given rule. -/
def roundBy {α : Type} (d : Leaving) (scope : String) (body : Run α) : Run Round := fun m =>
  match body (m.push scope) with
  | .ok _ m | .error (.continueLoop _) m => .ok .next m.pop
  | .error (.breakLoop _) m => .ok .leave m.pop
  | .error stop m => .error stop (d.after m)

end Run

open Run

mutual

/-- Run a statement, with the given rule for scopes. -/
def Stmt.execBy (d : Leaving) (fuel : Nat) : Stmt → Run Value
  | .block _ body => do
    withinBy d "program" (Stmt.execAllBy d fuel body)
    return .none
  | .assign _ target value => do
    Run.assign target value
    return .none
  | .update _ symbol target value => do
    Run.update symbol target value
    return .none
  | .instruction _ name arguments => do apply name (← Expr.evalAll arguments)
  | .whileLoop _ condition body => do
    repeatWhile (test condition) (roundBy d "while" (body.execBy d fuel)) fuel
    return .none
  | .forLoop _ id _ range body => do
    let v ← range.eval
    let (count, item) ← ofStore fun _ => v.items
    repeatFrom (fun i => roundBy d "for" (do
      bind id (item (← get).store i)
      body.execBy d fuel)) count 0
    return .none
  | .ifThen _ condition yes => do
    if ← test condition then withinBy d "then" (yes.execBy d fuel)
    return .none
  | .ifElse _ condition yes no => do
    if ← test condition then withinBy d "then" (yes.execBy d fuel)
    else withinBy d "else" (no.execBy d fuel)
    return .none
  | .expr e => e.eval

def Stmt.execAllBy (d : Leaving) (fuel : Nat) : List Stmt → Run Unit
  | [] => return ()
  | s :: ss => fun m =>
    match s.execBy d fuel m with
    | .ok _ m => Stmt.execAllBy d fuel ss m
    | .error stop m => .error stop m

end

/-- Run a script to its value, with the given rule for scopes. -/
def Stmt.runBy (d : Leaving) (fuel : Nat) (s : Stmt) : Run Value := fun m =>
  match s.execBy d fuel m with
  | .error (.giveBack v) m => .ok v m
  | result => result

lemma Run.withinBy_keep {α : Type} (scope : String) (body : Run α) :
    withinBy .keep scope body = within scope body := by
  funext m
  unfold withinBy within
  cases body (m.push scope) <;> rfl

lemma Run.roundBy_keep {α : Type} (scope : String) (body : Run α) :
    roundBy .keep scope body = round scope body := by
  funext m
  unfold roundBy round
  cases body (m.push scope) with
  | ok a m => rfl
  | error stop m => cases stop <;> rfl

mutual

/-- A scope that stays in memory is the rule of every run. -/
theorem Stmt.execBy_keep (fuel : Nat) : (s : Stmt) → s.execBy .keep fuel = s.exec fuel
  | .block _ body => by
    simp only [Stmt.execBy, Stmt.exec, withinBy_keep, Stmt.execAllBy_keep fuel body]
  | .assign _ _ _ => by simp only [Stmt.execBy, Stmt.exec]
  | .update _ _ _ _ => by simp only [Stmt.execBy, Stmt.exec]
  | .instruction _ _ _ => by simp only [Stmt.execBy, Stmt.exec]
  | .whileLoop _ _ body => by
    simp only [Stmt.execBy, Stmt.exec, roundBy_keep, Stmt.execBy_keep fuel body]
  | .forLoop _ _ _ _ body => by
    simp only [Stmt.execBy, Stmt.exec, roundBy_keep, Stmt.execBy_keep fuel body]
  | .ifThen _ _ yes => by
    simp only [Stmt.execBy, Stmt.exec, withinBy_keep, Stmt.execBy_keep fuel yes]
  | .ifElse _ _ yes no => by
    simp only [Stmt.execBy, Stmt.exec, withinBy_keep, Stmt.execBy_keep fuel yes,
      Stmt.execBy_keep fuel no]
  | .expr _ => by simp only [Stmt.execBy, Stmt.exec]

theorem Stmt.execAllBy_keep (fuel : Nat) : (ss : List Stmt) →
    Stmt.execAllBy .keep fuel ss = Stmt.execAll fuel ss
  | [] => by simp only [Stmt.execAllBy, Stmt.execAll]
  | s :: ss => by
    funext m
    have hs := Stmt.execBy_keep fuel s
    have hss := Stmt.execAllBy_keep fuel ss
    cases hx : s.exec fuel m <;> simp only [Stmt.execAllBy, Stmt.execAll, hs, hss, hx]

end

theorem Stmt.runBy_keep (fuel : Nat) (s : Stmt) : s.runBy .keep fuel = s.run fuel := by
  funext m
  cases hx : s.exec fuel m with
  | ok v m' => simp only [Stmt.runBy, Stmt.run, Stmt.execBy_keep, hx]
  | error stop m' => cases stop <;> simp only [Stmt.runBy, Stmt.run, Stmt.execBy_keep, hx]

namespace Machine

@[simp] lemma memory_push (m : Machine) (scope : String) :
    (m.push scope).memory = m.memory.push scope := rfl

@[simp] lemma memory_pop (m : Machine) : m.pop.memory = m.memory.pop := rfl

@[simp] lemma memory_change (m : Machine) (p : Patch) : (m.change p).memory = m.memory := rfl

/-- A value as it is bound, and the store with the elements of an array moved to it. -/
def stored (store : Store) : Value → Value × Store
  | .array t => (.array (t.share store).1, (t.share store).2)
  | v => (v, store)

lemma bind_eq (m : Machine) (id : String) (v : Value) :
    m.bind id v = ⟨m.memory.set id (stored m.store v).1, (stored m.store v).2, m.output⟩ := by
  obtain ⟨memory, store, output⟩ := m
  cases v <;> rfl

@[simp] lemma memory_bind (m : Machine) (id : String) (v : Value) :
    (m.bind id v).memory = m.memory.set id (stored m.store v).1 := by rw [bind_eq]

end Machine

namespace Run

variable {α β : Type}

/-- The computations under which memory evolves, however they end. -/
def Evolves (r : Run α) : Prop := ∀ m : Machine, m.memory.Evolves (stateAfter (r m)).memory

lemma evolves_iff_ends {r : Run α} : Evolves r ↔ ∀ m : Machine,
    Ends (r m) (fun _ m' => m.memory.Evolves m'.memory) fun _ m' => m.memory.Evolves m'.memory := by
  refine forall_congr' fun m => ?_
  cases r m <;> rfl

lemma Blind.evolves {r : Run α} (h : ∀ M, Blind M M r) : Evolves r := by
  intro m
  rw [Blind.memory_after h m]
  exact .refl _

lemma evolves_pure (a : α) : Evolves (pure a) := Blind.evolves fun _ => blind_pure a

lemma Evolves.bind {r : Run α} {f : α → Run β} (hr : Evolves r) (hf : ∀ a, Evolves (f a)) :
    Evolves (r >>= f) := by
  intro m
  have hm := hr m
  cases h : r m with
  | ok a m' =>
    rw [h, stateAfter_ok] at hm
    rw [bind_ok h]
    exact hm.trans (hf a m')
  | error e m' =>
    rw [h] at hm
    rw [bind_error h]
    exact hm

end Run

lemma Expr.evolves (e : Expr) : Evolves e.eval := Blind.evolves fun _ => e.blind fun _ _ => rfl

namespace Run

variable {α β : Type}

lemma evolves_change (p : Patch) : Evolves (change p) := fun _ => .refl _

lemma evolves_bind (id : String) (v : Value) : Evolves (bind id v) := by
  intro m
  change m.memory.Evolves (m.bind id v).memory
  rw [Machine.memory_bind]
  exact .set _ _ _

/-- The start of a round of a `for` loop: the item at a position is bound, then the body runs. -/
lemma bindItem_apply (id : String) (item : Store → Nat → Value) (i : Nat) (body : Run α) (m : Machine) :
    (do
      bind id (item (← get).store i)
      body) m = body (m.bind id (item m.store i)) := rfl

lemma Evolves.bindItem {body : Run α} (h : Evolves body) (id : String) (item : Store → Nat → Value)
    (i : Nat) : Evolves (do
      Run.bind id (item (← get).store i)
      body) := by
  intro m
  rw [bindItem_apply]
  exact (evolves_bind id _ m).trans (h _)

lemma evolves_assign (target value : Expr) : Evolves (assign target value) := by
  unfold assign
  split
  · exact value.evolves.bind fun _ => evolves_bind _ _
  · refine (Blind.evolves fun _ => blind_lookup rfl).bind fun _ => ?_
    refine (Blind.evolves fun _ => blind_evalIndices _ fun _ _ => rfl).bind fun _ => ?_
    refine value.evolves.bind fun _ => (Blind.evolves fun _ => blind_ofStore _).bind fun _ => ?_
    exact evolves_change _
  · exact evolves_pure _

lemma evolves_update (symbol : String) (target value : Expr) :
    Evolves (update symbol target value) := by
  unfold update
  refine value.evolves.bind fun _ => ?_
  dsimp only
  split
  · refine (Blind.evolves fun _ => blind_lookup rfl).bind fun _ => ?_
    exact (Blind.evolves fun _ => blind_apply _ _).bind fun _ => evolves_bind _ _
  · refine (Blind.evolves fun _ => blind_lookup rfl).bind fun _ => ?_
    refine (Blind.evolves fun _ => blind_evalIndices _ fun _ _ => rfl).bind fun _ => ?_
    split
    · exact Blind.evolves fun _ => blind_throw _
    · refine (Blind.evolves fun _ => blind_ofStore _).bind fun _ => ?_
      refine (Blind.evolves fun _ => blind_perform _ _).bind fun _ => ?_
      exact (Blind.evolves fun _ => blind_ofStore _).bind fun _ => evolves_change _
  · exact evolves_pure _

lemma Leaving.evolves_after (d : Leaving) {m m' : Machine} {scope : String}
    (h : (m.memory.push scope).Evolves m'.memory) : m.memory.Evolves (d.after m').memory := by
  cases d with
  | keep => exact (Scopes.Evolves.push _ scope).trans h
  | remove => exact h.pop

lemma Evolves.withinBy {d : Leaving} {scope : String} {body : Run α} (h : Evolves body) :
    Evolves (withinBy d scope body) := by
  intro m
  have hm := h (m.push scope)
  unfold Run.withinBy
  cases hb : body (m.push scope) with
  | ok a m' => rw [hb] at hm; exact hm.pop
  | error stop m' => rw [hb] at hm; exact d.evolves_after hm

lemma Evolves.roundBy {d : Leaving} {scope : String} {body : Run α} (h : Evolves body) :
    Evolves (roundBy d scope body) := by
  intro m
  have hm := h (m.push scope)
  unfold Run.roundBy
  cases hb : body (m.push scope) with
  | ok a m' => rw [hb] at hm; exact hm.pop
  | error stop m' =>
    rw [hb] at hm
    cases stop with
    | breakLoop _ => exact hm.pop
    | continueLoop _ => exact hm.pop
    | giveBack _ => exact d.evolves_after hm
    | failed _ => exact d.evolves_after hm
    | outOfFuel => exact d.evolves_after hm

lemma Evolves.repeatWhile {condition : Run Bool} {body : Run Round} (hc : Evolves condition)
    (hb : Evolves body) (fuel : Nat) : Evolves (repeatWhile condition body fuel) := by
  rw [evolves_iff_ends]
  intro m
  refine ends_repeatWhile (J := fun m' => m.memory.Evolves m'.memory) (fun m' h => ?_)
    (fun m' h => ?_) (fun _ h => h) fuel m (.refl _)
  · exact (evolves_iff_ends.mp hc m').imp (fun _ _ h' => h.trans h') fun _ _ h' => h.trans h'
  · exact (evolves_iff_ends.mp hb m').imp (fun _ _ h' => h.trans h') fun _ _ h' => h.trans h'

lemma Evolves.repeatFrom {body : Nat → Run Round} (hb : ∀ i, Evolves (body i)) (count i : Nat) :
    Evolves (repeatFrom body count i) := by
  rw [evolves_iff_ends]
  intro m
  refine ends_repeatFrom (J := fun m' => m.memory.Evolves m'.memory) (fun i m' h => ?_) count i m
    (.refl _)
  exact (evolves_iff_ends.mp (hb i) m').imp (fun _ _ h' => h.trans h') fun _ _ h' => h.trans h'

lemma evolves_test (condition : Expr) : Evolves (test condition) :=
  condition.evolves.bind fun _ => Blind.evolves fun _ => blind_ofStore _

end Run

mutual

/-- While a statement runs, no scope and no name that was there before is lost, and no name comes
to be bound in two scopes. -/
theorem Stmt.evolves (d : Leaving) (fuel : Nat) : (s : Stmt) → Evolves (s.execBy d fuel)
  | .block _ body => by
    simp only [Stmt.execBy]
    exact (Stmt.evolves_all d fuel body).withinBy.bind fun _ => evolves_pure _
  | .assign _ target value => by
    simp only [Stmt.execBy]
    exact (evolves_assign target value).bind fun _ => evolves_pure _
  | .update _ symbol target value => by
    simp only [Stmt.execBy]
    exact (evolves_update symbol target value).bind fun _ => evolves_pure _
  | .instruction _ name arguments => by
    simp only [Stmt.execBy]
    exact Blind.evolves fun _ => (Expr.blind_all arguments fun _ _ => rfl).bind fun _ => blind_apply _ _
  | .whileLoop _ condition body => by
    simp only [Stmt.execBy]
    have hbody : Evolves (roundBy d "while" (body.execBy d fuel)) := (body.evolves d fuel).roundBy
    exact ((evolves_test condition).repeatWhile hbody fuel).bind fun _ =>
      evolves_pure _
  | .forLoop _ id _ range body => by
    simp only [Stmt.execBy]
    refine range.evolves.bind fun v => (Blind.evolves fun _ => blind_ofStore _).bind fun items => ?_
    refine (Evolves.repeatFrom (fun i => Evolves.roundBy ?_) _ _).bind fun _ => evolves_pure _
    exact (body.evolves d fuel).bindItem id _ i
  | .ifThen _ condition yes => by
    simp only [Stmt.execBy]
    refine (evolves_test condition).bind fun b => ?_
    cases b with
    | false => exact evolves_pure _
    | true => exact (yes.evolves d fuel).withinBy.bind fun _ => evolves_pure _
  | .ifElse _ condition yes no => by
    simp only [Stmt.execBy]
    refine (evolves_test condition).bind fun b => ?_
    cases b with
    | false => exact (no.evolves d fuel).withinBy.bind fun _ => evolves_pure _
    | true => exact (yes.evolves d fuel).withinBy.bind fun _ => evolves_pure _
  | .expr e => by
    simp only [Stmt.execBy]
    exact e.evolves

theorem Stmt.evolves_all (d : Leaving) (fuel : Nat) : (ss : List Stmt) →
    Evolves (Stmt.execAllBy d fuel ss)
  | [] => by simpa only [Stmt.execAllBy] using evolves_pure _
  | s :: ss => by
    intro m
    have hm := s.evolves d fuel m
    simp only [Stmt.execAllBy]
    cases h : s.execBy d fuel m with
    | ok v m₁ =>
      rw [h, stateAfter_ok] at hm
      exact hm.trans (Stmt.evolves_all d fuel ss m₁)
    | error stop m₁ =>
      rw [h] at hm
      exact hm

end

lemma Stmt.evolves_exec (fuel : Nat) (s : Stmt) : Evolves (s.exec fuel) := by
  rw [← Stmt.execBy_keep]
  exact s.evolves .keep fuel

lemma Stmt.evolves_execAll (fuel : Nat) (ss : List Stmt) : Evolves (Stmt.execAll fuel ss) := by
  rw [← Stmt.execAllBy_keep]
  exact Stmt.evolves_all .keep fuel ss

end MatScript
