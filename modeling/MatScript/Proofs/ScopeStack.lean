import MatScript.Proofs.Leaving
import MatScript.Proofs.ScopeTables
import MatScript.Proofs.StrayJumps

/-! The stack of scopes of a run. However a statement ends, the scopes that were there before it lie
at the bottom of the stack, under the same names and with all their keys, so no removal ever comes
to the global scope. After a normal end there may be more scopes than before: a jump passes the
blocks and branches between it and its loop without removing their scopes, and the loop removes one
scope only. -/
namespace MatScript

open Run

/-! ## Scopes below others -/

namespace Scopes

variable {α : Type} {s t u : Scopes α}

lemma Grows.length_le (h : s.Grows t) : s.toList.length ≤ t.toList.length := by
  obtain ⟨n, hn⟩ := h
  have hlen := hn.length_eq
  rw [List.length_drop] at hlen
  omega

/-- The scopes that were there are the first ones, counted from the global one. -/
lemma Grows.outermostFirst (h : s.Grows t) :
    List.Forall₂ Scope.Covers s.outermostFirst (t.outermostFirst.take s.toList.length) := by
  obtain ⟨n, hn⟩ := h
  have htake : (t.toList.drop n).reverse = t.toList.reverse.take s.toList.length := by
    rw [List.reverse_drop, hn.length_eq, List.length_drop]
  have hrev := List.rel_reverse hn
  rwa [htake] at hrev

lemma Widens.length_eq (h : s.Widens t) : t.toList.length = s.toList.length := by
  obtain ⟨a, as, b, bs, hs, ht, -, hl⟩ := h
  rw [hs, ht, List.length_cons, List.length_cons, hl.length_eq]

lemma length_pop (s : Scopes α) : s.pop.toList.length = max 1 (s.toList.length - 1) := by
  obtain ⟨inner, base⟩ := s
  cases inner with
  | nil => rfl
  | cons a rest => simp [pop, toList]

/-- Without its innermost scope, too, a stack is the other one but for keys of the innermost. -/
lemma Widens.pop_pop (h : s.Widens t) : s.pop.Widens t.pop := by
  have hlen := h.length_eq
  obtain ⟨inner, base⟩ := s
  obtain ⟨inner', base'⟩ := t
  cases inner with
  | nil =>
    obtain rfl : inner' = [] := by simpa [toList] using hlen
    exact h
  | cons a as =>
    cases inner' with
    | nil => simp [toList] at hlen
    | cons b bs =>
      obtain ⟨c, cs, d, ds, hs, ht, -, hl⟩ := h
      obtain ⟨rfl, rfl⟩ := List.cons.inj hs
      obtain ⟨rfl, rfl⟩ := List.cons.inj ht
      exact SameKeys.widens hl

/-- The stack `t` has `count` scopes more than `s`, and without them it is `s`, but that the
innermost scope may have gained keys. -/
def WidensUnder (count : Nat) (s t : Scopes α) : Prop :=
  t.toList.length = s.toList.length + count ∧ s.Widens (pop^[count] t)

namespace WidensUnder

variable {j k : Nat} {name : String}

lemma refl (s : Scopes α) : s.WidensUnder 0 s := ⟨rfl, .refl s⟩

lemma of_widens (h : s.Widens t) : s.WidensUnder 0 t := ⟨h.length_eq, h⟩

lemma trans (h : s.WidensUnder j t) (h' : t.WidensUnder k u) : s.WidensUnder (j + k) u := by
  have hpops : ∀ n, (pop^[n] t).Widens (pop^[n] (pop^[k] u)) := by
    intro n
    induction n with
    | zero => exact h'.2
    | succ n ih =>
      rw [Function.iterate_succ_apply', Function.iterate_succ_apply']
      exact ih.pop_pop
  refine ⟨by rw [h'.1, h.1, Nat.add_assoc], ?_⟩
  rw [Function.iterate_add_apply]
  exact h.2.trans (hpops j)

/-- A scope whose body leaves others over it: the innermost of them all is removed. -/
lemma pop (h : (s.push name).WidensUnder k t) : s.WidensUnder k t.pop := by
  have hlen := h.1
  have hpos : 0 < s.toList.length := List.length_pos_of_ne_nil s.toList_ne_nil
  rw [toList_push, List.length_cons] at hlen
  refine ⟨?_, ?_⟩
  · rw [length_pop]
    omega
  · rw [← Function.iterate_succ_apply, Function.iterate_succ_apply']
    exact h.2.pop.widens

/-- A scope that is not removed lies over the others. -/
lemma keep (h : (s.push name).WidensUnder k t) : s.WidensUnder (k + 1) t := by
  have hlen := h.1
  rw [toList_push, List.length_cons] at hlen
  refine ⟨by omega, ?_⟩
  rw [Function.iterate_succ_apply']
  exact h.2.pop.widens

end WidensUnder

end Scopes

/-! ## Removals that may be refused -/

namespace Run

variable {α : Type}

/-- Remove the innermost scope and go on with a result. To remove the global scope is refused, and
the run stops. -/
def leaveOr (refusal : Stop) (result : α) : Run α := fun m =>
  match m.memory.pop? with
  | some memory => .ok result { m with memory }
  | none => .error refusal m

/-- Run inside a scope of its own, whose removal may be refused. -/
def withinOr (refusal : Stop) (scope : String) (body : Run α) : Run Unit := fun m =>
  match body (m.push scope) with
  | .ok _ m => leaveOr refusal () m
  | .error stop m => .error stop m

/-- One round of a loop, inside a scope of its own, whose removal may be refused. -/
def roundOr (refusal : Stop) (scope : String) (body : Run α) : Run Round := fun m =>
  match body (m.push scope) with
  | .ok _ m | .error (.continueLoop _) m => leaveOr refusal .next m
  | .error (.breakLoop _) m => leaveOr refusal .leave m
  | .error stop m => .error stop m

end Run

mutual

/-- Run a statement, where every removal of a scope may be refused. -/
def Stmt.execOr (refusal : Stop) (fuel : Nat) : Stmt → Run Value
  | .block _ body => do
    withinOr refusal "program" (Stmt.execAllOr refusal fuel body)
    return .none
  | .assign _ target value => do
    Run.assign target value
    return .none
  | .update _ symbol target value => do
    Run.update symbol target value
    return .none
  | .instruction _ name arguments => do apply name (← Expr.evalAll arguments)
  | .whileLoop _ condition body => do
    repeatWhile (test condition) (roundOr refusal "while" (body.execOr refusal fuel)) fuel
    return .none
  | .forLoop _ id _ range body => do
    let v ← range.eval
    let (count, item) ← ofStore fun _ => v.items
    repeatFrom (fun i => roundOr refusal "for" (do
      bind id (item (← get).store i)
      body.execOr refusal fuel)) count 0
    return .none
  | .ifThen _ condition yes => do
    if ← test condition then withinOr refusal "then" (yes.execOr refusal fuel)
    return .none
  | .ifElse _ condition yes no => do
    if ← test condition then withinOr refusal "then" (yes.execOr refusal fuel)
    else withinOr refusal "else" (no.execOr refusal fuel)
    return .none
  | .expr e => e.eval

def Stmt.execAllOr (refusal : Stop) (fuel : Nat) : List Stmt → Run Unit
  | [] => return ()
  | s :: ss => fun m =>
    match s.execOr refusal fuel m with
    | .ok _ m => Stmt.execAllOr refusal fuel ss m
    | .error stop m => .error stop m

end

namespace Run

variable {α : Type} {refusal : Stop} {scope : String} {body : Run α}

/-- Over what has grown from a scope of its own, a removal is not refused. -/
lemma leaveOr_eq {m m' : Machine} (h : (m.memory.push scope).Evolves m'.memory) (a : α) :
    leaveOr refusal a m' = .ok a m'.pop := by
  obtain ⟨⟨inner, base⟩, store, output⟩ := m'
  cases inner with
  | nil =>
    have hlen := h.grows.length_le
    simp [Scopes.toList, Scopes.push] at hlen
  | cons a rest => rfl

lemma withinOr_eq (h : Evolves body) : withinOr refusal scope body = within scope body := by
  funext m
  have hm := h (m.push scope)
  unfold withinOr within
  cases hb : body (m.push scope) with
  | ok a m' =>
    rw [hb] at hm
    exact leaveOr_eq hm ()
  | error stop m' => rfl

lemma roundOr_eq (h : Evolves body) : roundOr refusal scope body = round scope body := by
  funext m
  have hm := h (m.push scope)
  unfold roundOr round
  cases hb : body (m.push scope) with
  | ok a m' =>
    rw [hb] at hm
    exact leaveOr_eq hm Round.next
  | error stop m' =>
    rw [hb] at hm
    cases stop with
    | breakLoop _ | continueLoop _ => exact leaveOr_eq hm _
    | giveBack _ | failed _ | outOfFuel => rfl

end Run

mutual

/-- No removal of a scope is refused. -/
theorem Stmt.execOr_eq (refusal : Stop) (fuel : Nat) : (s : Stmt) →
    s.execOr refusal fuel = s.exec fuel
  | .block _ body => by
    simp only [Stmt.execOr, Stmt.exec, Stmt.execAllOr_eq refusal fuel body,
      withinOr_eq (Stmt.evolves_execAll fuel body)]
  | .assign _ _ _ | .update _ _ _ _ | .instruction _ _ _ | .expr _ => by
    simp only [Stmt.execOr, Stmt.exec]
  | .whileLoop _ _ body => by
    simp only [Stmt.execOr, Stmt.exec, Stmt.execOr_eq refusal fuel body,
      roundOr_eq (body.evolves_exec fuel)]
  | .forLoop _ id _ _ body => by
    simp only [Stmt.execOr, Stmt.exec, Stmt.execOr_eq refusal fuel body,
      roundOr_eq ((body.evolves_exec fuel).bindItem id _ _)]
  | .ifThen _ _ yes => by
    simp only [Stmt.execOr, Stmt.exec, Stmt.execOr_eq refusal fuel yes,
      withinOr_eq (yes.evolves_exec fuel)]
  | .ifElse _ _ yes no => by
    simp only [Stmt.execOr, Stmt.exec, Stmt.execOr_eq refusal fuel yes,
      Stmt.execOr_eq refusal fuel no, withinOr_eq (yes.evolves_exec fuel),
      withinOr_eq (no.evolves_exec fuel)]

theorem Stmt.execAllOr_eq (refusal : Stop) (fuel : Nat) : (ss : List Stmt) →
    Stmt.execAllOr refusal fuel ss = Stmt.execAll fuel ss
  | [] => by simp only [Stmt.execAllOr, Stmt.execAll]
  | s :: ss => by
    funext m
    have hs := Stmt.execOr_eq refusal fuel s
    have hss := Stmt.execAllOr_eq refusal fuel ss
    cases hx : s.exec fuel m <;> simp only [Stmt.execAllOr, Stmt.execAll, hs, hss, hx]

end

/-- A run never loses a scope or a name. However a statement ends, there are at least as many scopes
as before; from the global one on they have the names they had and all their keys; each name that
was bound is bound; and no removal of a scope was refused, whatever a refusal would have been. -/
theorem Stmt.scopes_kept (fuel : Nat) (s : Stmt) (m : Machine) :
    let after := (stateAfter (s.exec fuel m)).memory
    m.memory.toList.length ≤ after.toList.length ∧
    List.Forall₂ Scope.Covers m.memory.outermostFirst
      (after.outermostFirst.take m.memory.toList.length) ∧
    (∀ k, m.memory.contains k = true → after.contains k = true) ∧
    ∀ refusal, s.execOr refusal fuel m = s.exec fuel m := by
  have hgrows := (s.evolves_exec fuel m).grows
  refine ⟨hgrows.length_le, hgrows.outermostFirst, fun k hk => hgrows.contains hk,
    fun refusal => ?_⟩
  rw [s.execOr_eq refusal fuel]

/-! ## Scopes that jumps leave behind -/

mutual

/-- For each jump of a statement that stands in no loop of it, the number of its blocks and branches
around the jump. -/
def Stmt.jumpDepths : Stmt → List Nat
  | .block _ body => (Stmt.jumpDepthsAll body).map (· + 1)
  | .instruction _ name _ => if name = "break" ∨ name = "continue" then [0] else []
  | .ifThen _ _ yes => yes.jumpDepths.map (· + 1)
  | .ifElse _ _ yes no => (yes.jumpDepths ++ no.jumpDepths).map (· + 1)
  | .whileLoop _ _ _ | .forLoop _ _ _ _ _ => []
  | .assign _ _ _ | .update _ _ _ _ | .expr _ => []

def Stmt.jumpDepthsAll : List Stmt → List Nat
  | [] => []
  | s :: ss => s.jumpDepths ++ Stmt.jumpDepthsAll ss

end

mutual

/-- For each jump in a loop of a statement, the number of blocks and branches between the two. -/
def Stmt.loopJumpDepths : Stmt → List Nat
  | .block _ body => Stmt.loopJumpDepthsAll body
  | .whileLoop _ _ body | .forLoop _ _ _ _ body => body.jumpDepths ++ body.loopJumpDepths
  | .ifThen _ _ yes => yes.loopJumpDepths
  | .ifElse _ _ yes no => yes.loopJumpDepths ++ no.loopJumpDepths
  | .assign _ _ _ | .update _ _ _ _ | .instruction _ _ _ | .expr _ => []

def Stmt.loopJumpDepthsAll : List Stmt → List Nat
  | [] => []
  | s :: ss => s.loopJumpDepths ++ Stmt.loopJumpDepthsAll ss

end

/-- The sums of any of these numbers, each as often as one likes. -/
def sumsOf (depths : List Nat) : AddSubmonoid Nat := AddSubmonoid.closure {d | d ∈ depths}

lemma sumsOf_mono {ds es : List Nat} (h : ds ⊆ es) : sumsOf ds ≤ sumsOf es :=
  AddSubmonoid.closure_mono fun _ hd => h hd

lemma mem_sumsOf {ds : List Nat} {d : Nat} (h : d ∈ ds) : d ∈ sumsOf ds :=
  AddSubmonoid.subset_closure h

lemma eq_zero_of_mem_sumsOf {ds : List Nat} (h : ∀ d ∈ ds, d = 0) {k : Nat} (hk : k ∈ sumsOf ds) :
    k = 0 := by
  have hbot : sumsOf ds ≤ ⊥ := AddSubmonoid.closure_le.2 fun d hd => h d hd
  exact AddSubmonoid.mem_bot.1 (hbot hk)

namespace Run

variable {α β : Type} {caught jumps caught' jumps' : List Nat}

/-- The computations that leave, over the scopes that were there, after a normal end a number of
scopes that is a sum of some of `caught`, and after a jump one of `jumps` more than such a
number. -/
def Leaves (caught jumps : List Nat) (r : Run α) : Prop :=
  ∀ m : Machine, Ends (r m)
    (fun _ m' => ∃ k ∈ sumsOf caught, m.memory.WidensUnder k m'.memory)
    fun stop m' => stop.isJump = true →
      ∃ k ∈ sumsOf caught, ∃ d ∈ jumps, m.memory.WidensUnder (k + d) m'.memory

lemma Leaves.mono {r : Run α} (h : Leaves caught jumps r) (hcaught : caught ⊆ caught')
    (hjumps : jumps ⊆ jumps') : Leaves caught' jumps' r := by
  refine fun m => (h m).imp ?_ ?_
  · rintro a m' ⟨k, hk, hm⟩
    exact ⟨k, sumsOf_mono hcaught hk, hm⟩
  · rintro stop m' hstop hjump
    obtain ⟨k, hk, d, hd, hm⟩ := hstop hjump
    exact ⟨k, sumsOf_mono hcaught hk, d, hjumps hd, hm⟩

/-- The same, counted from an earlier machine. -/
lemma Leaves.after {r : Run α} (h : Leaves caught jumps r) {m m' : Machine}
    (hm : ∃ k ∈ sumsOf caught, m.memory.WidensUnder k m'.memory) :
    Ends (r m') (fun _ m'' => ∃ k ∈ sumsOf caught, m.memory.WidensUnder k m''.memory)
      fun stop m'' => stop.isJump = true →
        ∃ k ∈ sumsOf caught, ∃ d ∈ jumps, m.memory.WidensUnder (k + d) m''.memory := by
  obtain ⟨j, hj, hm⟩ := hm
  refine (h m').imp ?_ ?_
  · rintro b m'' ⟨k, hk, hm'⟩
    exact ⟨j + k, add_mem hj hk, hm.trans hm'⟩
  · rintro stop m'' hstop hjump
    obtain ⟨k, hk, d, hd, hm'⟩ := hstop hjump
    refine ⟨j + k, add_mem hj hk, d, hd, ?_⟩
    rw [Nat.add_assoc]
    exact hm.trans hm'

lemma Leaves.bind {r : Run α} {f : α → Run β} (hr : Leaves caught jumps r)
    (hf : ∀ a, Leaves caught jumps (f a)) : Leaves caught jumps (r >>= f) :=
  fun m => (hr m).bind fun a _ hm => (hf a).after hm

/-- A computation that leaves memory as it is, and jumps only if a jump from here is expected. -/
lemma Blind.leaves {r : Run α} (h : ∀ M, Blind M M r)
    (hstops : Stops (Stop.Expected (0 ∈ jumps)) r) : Leaves caught jumps r := by
  intro m
  have hm : m.memory.WidensUnder 0 (stateAfter (r m)).memory := by
    rw [Blind.memory_after h m]
    exact .refl _
  have hstop := hstops m
  cases hr : r m with
  | ok a m' =>
    rw [hr] at hm
    exact ⟨0, zero_mem _, hm⟩
  | error stop m' =>
    rw [hr] at hm hstop
    intro hjump
    cases stop with
    | breakLoop _ | continueLoop _ => exact ⟨0, zero_mem _, 0, hstop, hm⟩
    | giveBack _ | failed _ | outOfFuel => cases hjump

lemma leaves_pure (a : α) : Leaves caught jumps (pure a) :=
  Blind.leaves (fun _ => blind_pure a) (stops_pure a)

/-- A name is added to the innermost scope, or changed. -/
lemma leaves_bind (id : String) (v : Value) : Leaves caught jumps (Run.bind id v) := by
  intro m
  refine ⟨0, zero_mem _, .of_widens ?_⟩
  rw [Machine.memory_bind]
  exact Scopes.widens_set _ _ _

/-- A jump out of a block or branch leaves its scope behind. -/
lemma Leaves.within {scope : String} {body : Run α} (h : Leaves caught jumps body) :
    Leaves caught (jumps.map (· + 1)) (within scope body) := by
  intro m
  have hbody := h (m.push scope)
  unfold Run.within
  cases hb : body (m.push scope) with
  | ok a m' =>
    rw [hb] at hbody
    obtain ⟨k, hk, hm⟩ := hbody
    exact ⟨k, hk, hm.pop⟩
  | error stop m' =>
    rw [hb] at hbody
    intro hjump
    obtain ⟨k, hk, d, hd, hm⟩ := hbody hjump
    exact ⟨k, hk, d + 1, List.mem_map_of_mem hd, hm.keep⟩

/-- A round catches the jumps of its body, and removes one scope. -/
lemma Leaves.round {scope : String} {body : Run α} (h : Leaves caught jumps body) :
    Leaves (jumps ++ caught) jumps' (round scope body) := by
  intro m
  have hbody := h (m.push scope)
  unfold Run.round
  have hcaught : sumsOf caught ≤ sumsOf (jumps ++ caught) := sumsOf_mono (by simp)
  cases hb : body (m.push scope) with
  | ok a m' =>
    rw [hb] at hbody
    obtain ⟨k, hk, hm⟩ := hbody
    exact ⟨k, hcaught hk, hm.pop⟩
  | error stop m' =>
    rw [hb] at hbody
    cases stop with
    | breakLoop _ | continueLoop _ =>
      obtain ⟨k, hk, d, hd, hm⟩ := hbody rfl
      exact ⟨k + d, add_mem (hcaught hk) (mem_sumsOf (by simp [hd])), hm.pop⟩
    | giveBack _ | failed _ | outOfFuel => exact fun hjump => nomatch hjump

lemma Leaves.repeatWhile {c : Run Bool} {b : Run Round} (hc : Leaves caught jumps c)
    (hb : Leaves caught jumps b) (fuel : Nat) :
    Leaves caught jumps (repeatWhile c b fuel) := fun m =>
  ends_repeatWhile (J := fun m' => ∃ k ∈ sumsOf caught, m.memory.WidensUnder k m'.memory)
    (fun _ h => hc.after h) (fun _ h => hb.after h) (fun _ _ h => nomatch h) fuel m
    ⟨0, zero_mem _, .refl _⟩

lemma Leaves.repeatFrom {b : Nat → Run Round} (hb : ∀ i, Leaves caught jumps (b i))
    (count i : Nat) : Leaves caught jumps (repeatFrom b count i) := fun m =>
  ends_repeatFrom (J := fun m' => ∃ k ∈ sumsOf caught, m.memory.WidensUnder k m'.memory)
    (fun i _ h => (hb i).after h) count i m ⟨0, zero_mem _, .refl _⟩

end Run

lemma Expr.leaves {caught jumps : List Nat} {e : Expr} (h : e.Normal) :
    Leaves caught jumps e.eval :=
  Blind.leaves (fun _ => e.blind fun _ _ => rfl) (e.stops h).expected

namespace Run

variable {caught jumps : List Nat} {M N : Scopes Value}

lemma blind_change (p : Patch) : Blind M N (change p) :=
  fun _ _ h => ⟨rfl, h.left, h.right, congrArg p.apply h.store, h.output⟩

lemma leaves_test {condition : Expr} (h : condition.Normal) :
    Leaves caught jumps (test condition) :=
  Blind.leaves (fun _ => blind_test condition fun _ _ => rfl) (stops_test h).expected

lemma leaves_assign {target value : Expr} (ht : target.Normal) (hv : value.Normal) :
    Leaves caught jumps (assign target value) := by
  have hstops := stops_assign ht hv
  cases target with
  | name _ id => exact (Expr.leaves hv).bind fun _ => leaves_bind _ _
  | element _ id _ indices _ =>
    refine Blind.leaves (fun _ => ?_) hstops.expected
    refine (blind_lookup rfl).bind fun _ => (blind_evalIndices _ fun _ _ => rfl).bind fun _ => ?_
    exact (value.blind fun _ _ => rfl).bind fun _ => (blind_ofStore _).bind fun _ => blind_change _
  | _ => exact leaves_pure _

lemma leaves_update {s : Symbol} (hs : s.isAssignment) (hne : s ≠ .assign) {target value : Expr}
    (ht : target.Normal) (hv : value.Normal) :
    Leaves caught jumps (update s.spelling target value) := by
  have hstops := stops_update hs hne ht hv
  cases target with
  | name _ id =>
    obtain ⟨op, hop⟩ := exists_arith_of_assignment hs hne
    refine (Expr.leaves hv).bind fun v => ?_
    refine (Blind.leaves (fun _ => blind_lookup rfl) (stops_lookup _)).bind fun old => ?_
    refine (Blind.leaves (fun _ => blind_apply _ _) ?_).bind fun _ => leaves_bind _ _
    exact (stops_apply (by rw [hop]; rfl) _).expected
  | element _ id _ indices _ =>
    refine Blind.leaves (fun _ => ?_) hstops.expected
    refine (value.blind fun _ _ => rfl).bind fun _ => (blind_lookup rfl).bind fun _ => ?_
    refine (blind_evalIndices _ fun _ _ => rfl).bind fun _ => ?_
    split
    · exact blind_throw _
    · refine (blind_ofStore _).bind fun _ => (blind_perform _ _).bind fun _ => ?_
      exact (blind_ofStore _).bind fun _ => blind_change _
  | _ => exact (Expr.leaves hv).bind fun _ => leaves_pure _

/-- A round of a `for` gives its name a value before the body runs. -/
lemma Leaves.forRound {body : Run Value} (h : Leaves caught jumps body) (id : String)
    (item : Store → Nat → Value) (i : Nat) : Leaves caught jumps (do
      Run.bind id (item (← get).store i)
      body) := by
  intro m
  rw [bindItem_apply]
  have hbind : Leaves caught jumps (Run.bind id (item m.store i)) := leaves_bind _ _
  exact h.after (hbind m)

end Run

mutual

/-- What a statement leaves behind. -/
theorem Stmt.leaves (fuel : Nat) : (s : Stmt) → s.Normal →
    Leaves s.loopJumpDepths s.jumpDepths (s.exec fuel)
  | .block _ body, hn => by
    simp only [Stmt.exec, Stmt.loopJumpDepths, Stmt.jumpDepths]
    exact (Stmt.leaves_all fuel body hn).within.bind fun _ => leaves_pure _
  | .assign _ _ _, hn => by
    simp only [Stmt.exec]
    exact (leaves_assign hn.2.1 hn.2.2).bind fun _ => leaves_pure _
  | .update _ _ _ _, hn => by
    obtain ⟨⟨s, hs, hne, rfl⟩, -, ht, hv⟩ := hn
    simp only [Stmt.exec]
    exact (leaves_update hs hne ht hv).bind fun _ => leaves_pure _
  | .instruction _ name arguments, hn => by
    simp only [Stmt.exec]
    refine Blind.leaves (fun _ => ?_) ?_
    · exact (Expr.blind_all arguments fun _ _ => rfl).bind fun _ => blind_apply _ _
    · refine (Expr.stops_all arguments hn.2).expected.bind fun vs => ?_
      refine (stops_instruction hn.1 vs).mono fun hjump => ?_
      simp [Stmt.jumpDepths, hjump]
  | .whileLoop _ condition body, hn => by
    simp only [Stmt.exec, Stmt.loopJumpDepths]
    have hround : Leaves (body.jumpDepths ++ body.loopJumpDepths) []
        (round "while" (body.exec fuel)) := (Stmt.leaves fuel body hn.2).round
    exact ((leaves_test hn.1).repeatWhile hround fuel).bind fun _ => leaves_pure _
  | .forLoop _ id _ range body, hn => by
    simp only [Stmt.exec, Stmt.loopJumpDepths]
    refine (Blind.leaves (fun _ => range.blind fun _ _ => rfl)
      (Expr.stops_range hn.1).expected).bind fun v => ?_
    refine (Blind.leaves (fun _ => blind_ofStore _)
      (stops_ofStore_of_failsByValues fun _ => Value.failsByValues_items v).expected).bind
      fun items => ?_
    refine (Leaves.repeatFrom (fun i => ?_) _ _).bind fun _ => leaves_pure _
    exact ((Stmt.leaves fuel body hn.2).forRound id _ i).round
  | .ifThen _ condition yes, hn => by
    simp only [Stmt.exec, Stmt.loopJumpDepths, Stmt.jumpDepths]
    refine (leaves_test hn.1).bind fun b => ?_
    cases b with
    | false => exact leaves_pure _
    | true => exact (Stmt.leaves fuel yes hn.2).within.bind fun _ => leaves_pure _
  | .ifElse _ condition yes no, hn => by
    simp only [Stmt.exec, Stmt.loopJumpDepths, Stmt.jumpDepths, List.map_append]
    refine (leaves_test hn.1).bind fun b => ?_
    cases b with
    | false =>
      exact ((Stmt.leaves fuel no hn.2.2.2).within.mono (by simp) (by simp)).bind fun _ =>
        leaves_pure _
    | true =>
      exact ((Stmt.leaves fuel yes hn.2.1).within.mono (by simp) (by simp)).bind fun _ =>
        leaves_pure _
  | .expr _, hn => hn.elim

theorem Stmt.leaves_all (fuel : Nat) : (ss : List Stmt) → Stmt.NormalAll ss →
    Leaves (Stmt.loopJumpDepthsAll ss) (Stmt.jumpDepthsAll ss) (Stmt.execAll fuel ss)
  | [], _ => by simpa only [Stmt.execAll] using leaves_pure _
  | s :: ss, hn => by
    simp only [Stmt.loopJumpDepthsAll, Stmt.jumpDepthsAll]
    intro m
    have hfirst := (Stmt.leaves fuel s hn.1).mono
      (List.subset_append_left _ (Stmt.loopJumpDepthsAll ss))
      (List.subset_append_left _ (Stmt.jumpDepthsAll ss)) m
    have hrest := (Stmt.leaves_all fuel ss hn.2).mono (List.subset_append_right s.loopJumpDepths _)
      (List.subset_append_right s.jumpDepths _)
    simp only [Stmt.execAll]
    cases hx : s.exec fuel m with
    | ok v m₁ =>
      rw [hx] at hfirst
      exact hrest.after hfirst
    | error stop m₁ =>
      rw [hx] at hfirst
      exact hfirst

end

/-- The scopes after a statement that can be written and ends normally. Over those that were there
lie as many more as its jumps have passed blocks and branches on their way to their loops, which is
a sum of such depths, and only the innermost of those that were there may have gained names. So if
every jump is by itself the body of its loop, the stack is as high as before, the scopes have the
names they had, and no name of a block, a branch or a round is left. -/
theorem Stmt.scopes_after_ok {s : Stmt} (hn : s.Normal) {fuel : Nat} {m m' : Machine} {v : Value}
    (hx : s.exec fuel m = .ok v m') :
    (∃ count ∈ sumsOf s.loopJumpDepths, m.memory.WidensUnder count m'.memory) ∧
    ((∀ d ∈ s.loopJumpDepths, d = 0) →
      m'.memory.toList.map (·.name) = m.memory.toList.map (·.name) ∧
      m.memory.Widens m'.memory) := by
  have hleaves := s.leaves fuel hn m
  rw [hx] at hleaves
  refine ⟨hleaves, fun hzero => ?_⟩
  obtain ⟨count, hcount, hm⟩ := hleaves
  obtain rfl := eq_zero_of_mem_sumsOf hzero hcount
  exact ⟨hm.2.map_name_eq, hm.2⟩

/-- Goes on to the next round from inside a block, and does nothing else. -/
def idleText : String := "for i = 0:3 \x7b continue; \x7d"

def idleScript : Stmt :=
  let at1 : Span := ⟨1, 1⟩
  let int (k : Int) : Expr := .constant at1 (.int k)
  .block at1 [
    .forLoop at1 "i" at1 (.range at1 (int 0) (int 3)) (.block at1 [.instruction at1 "continue" []])]

/-- Jumps that are the whole body of their loop, inside a loop without jumps. -/
def directText : String := "x = 0; while (x < 2) \x7b for i = 0:3 continue; x += 1; \x7d"

def directScript : Stmt :=
  let at1 : Span := ⟨1, 1⟩
  let x : Expr := .name at1 "x"
  let int (k : Int) : Expr := .constant at1 (.int k)
  .block at1 [
    .assign at1 x (int 0),
    .whileLoop at1 (.operator at1 "<" [x, int 2]) (.block at1 [
      .forLoop at1 "i" at1 (.range at1 (int 0) (int 3)) (.instruction at1 "continue" []),
      .update at1 "+=" x (int 1)])]

theorem scopes_after_directScript :
    (Script.parse 1 directText).script = .ok directScript ∧ directScript.loopJumpDepths = [0] ∧
    (∃ m, directScript.exec 3 {} = .ok .none m ∧ ({} : Machine).memory.Widens m.memory) ∧
    (Script.parse 1 idleText).script = .ok idleScript ∧ idleScript.loopJumpDepths = [1] ∧
    ∃ m, idleScript.exec 0 {} = .ok .none m ∧
      ∃ count ∈ sumsOf [1], ({} : Machine).memory.WidensUnder count m.memory := by
  have hp : (Script.parse 1 directText).script = .ok directScript := by cbv
  have hp' : (Script.parse 1 idleText).script = .ok idleScript := by cbv
  have hx : directScript.exec 3 {} = .ok .none (stateAfter (directScript.exec 3 {})) := by cbv
  have hx' : idleScript.exec 0 {} = .ok .none (stateAfter (idleScript.exec 0 {})) := by cbv
  have hzero : ∀ d ∈ directScript.loopJumpDepths, d = 0 := by decide
  have hdirect := Stmt.scopes_after_ok (Parse.normal_of_script hp).1.normal hx
  have hidle := Stmt.scopes_after_ok (Parse.normal_of_script hp').1.normal hx'
  exact ⟨hp, rfl, ⟨_, hx, (hdirect.2 hzero).2⟩, hp', rfl, _, hx', hidle.1⟩

/-- The loop ends normally and leaves behind the scope of each round, the first of them with the
name of the loop. At the end of the script the innermost one is removed in place of the script's
own. -/
theorem scopes_left_idleScript :
    (Script.parse 1 idleText).script = .ok idleScript ∧
    ({} : Machine).memory.outermostFirst.map (·.name) = ["global"] ∧
    ∃ m, idleScript.exec 0 {} = .ok .none m ∧
      m.memory.outermostFirst.map (·.name) = ["global", "program", "for", "for"] ∧
      m.memory.contains "i" = true := by
  have hx : idleScript.exec 0 {} = .ok .none (stateAfter (idleScript.exec 0 {})) := by cbv
  exact ⟨by cbv, rfl, _, hx, by cbv, by cbv⟩

end MatScript
