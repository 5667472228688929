import MatScript.Proofs.Scopes
import MatScript.Scopes.Action

/-! Tables of scopes under any sequence of operations. Operations may remove scopes that others
opened, fail, or leave scopes behind; still the global scope stays at the bottom, and no key is
bound in two scopes, since assignment looks for the key in all of them. -/
namespace MatScript

namespace Scopes

variable {α : Type} {s t u : Scopes α}

/-- All scopes, the global one first. -/
def outermostFirst (s : Scopes α) : List (Scope α) := s.toList.reverse

lemma map_name_eq_of_covers {l l' : List (Scope α)} (h : List.Forall₂ Scope.Covers l l') :
    l'.map (·.name) = l.map (·.name) := by
  induction h with
  | nil => rfl
  | cons hab _ ih => rw [List.map_cons, List.map_cons, ih, hab.1]

lemma Widens.map_name_eq (h : s.Widens t) : t.toList.map (·.name) = s.toList.map (·.name) := by
  obtain ⟨a, as, b, bs, hs, ht, hab, hl⟩ := h
  rw [hs, ht]
  exact map_name_eq_of_covers (.cons hab (hl.imp fun _ _ h => h.covers))

/-! ## What a removal does -/

lemma pop?_eq_some_iff : t.pop? = some u ↔ t.toList = t.current :: u.toList := by
  obtain ⟨inner, base⟩ := t
  obtain ⟨inner', base'⟩ := u
  cases inner with
  | nil => simp [pop?, toList, current]
  | cons a rest => simp [pop?, toList, current]

/-- The keys of the scope that is removed are bound nowhere else, and all others are found as
before. -/
lemma Separate.get?_of_pop? (h : t.Separate) (hp : t.pop? = some u) (k : String) :
    u.get? k = if t.current.contains k then none else t.get? k := by
  have hlist := pop?_eq_some_iff.1 hp
  unfold Separate at h
  rw [hlist, List.pairwise_cons] at h
  unfold get?
  rw [hlist, List.findSome?_cons]
  cases hk : t.current.contains k with
  | true => exact findSome?_get?_eq_none fun b hb => h.1 b hb k hk
  | false =>
    have hnone : t.current.get? k = none := by simpa [Scope.contains] using hk
    rw [hnone, if_neg Bool.false_ne_true]

/-! ## What every operation keeps -/

/-- What operations make of a table: its global scope keeps its name and its keys, and no key comes
to be bound twice. -/
structure Follows (s t : Scopes α) : Prop where
  base : s.base.Covers t.base
  separate : s.Separate → t.Separate

namespace Follows

lemma refl (s : Scopes α) : s.Follows s := ⟨.refl _, id⟩

lemma trans (h : s.Follows t) (h' : t.Follows u) : s.Follows u :=
  ⟨h.base.trans h'.base, h'.separate ∘ h.separate⟩

lemma push (s : Scopes α) (name : String) : s.Follows (s.push name) :=
  ⟨.refl _, fun h => h.push name⟩

lemma popReply (s : Scopes α) : s.Follows s.popReply.2 := by
  obtain ⟨inner, base⟩ := s
  cases inner with
  | nil => exact refl _
  | cons a rest => exact ⟨.refl _, Separate.pop⟩

lemma set (s : Scopes α) (key : String) (v : α) : s.Follows (s.set key v) := by
  refine ⟨?_, fun h => h.set key v⟩
  unfold Scopes.set
  split
  · exact .refl _
  · split
    · exact Scope.covers_insert _ _ _
    · split
      · exact Scope.covers_insert _ _ _
      · exact .refl _

end Follows

mutual

/-- One operation, with all that is done inside it. -/
theorem follows_perform (t : Scopes α) : (a : Action α) → t.Follows (t.perform a).table
  | .push name => .push t name
  | .pop => .popReply t
  | .set key value => .set t key value
  | .get _ | .contains _ | .hasScope _ | .current | .parent | .base => .refl t
  | .within name body failure => by
    have hbody := (Follows.push t name).trans (follows_performAll (t.push name) body)
    cases failure with
    | some message => exact hbody
    | none => exact hbody.trans (.popReply _)

/-- A sequence of operations. -/
theorem follows_performAll (t : Scopes α) : (actions : List (Action α)) →
    t.Follows (t.performAll actions).2
  | [] => .refl t
  | a :: rest => (follows_perform t a).trans (follows_performAll _ rest)

end

lemma performAll_append (t : Scopes α) (actions later : List (Action α)) :
    (t.performAll (actions ++ later)).2 = ((t.performAll actions).2.performAll later).2 := by
  induction actions generalizing t with
  | nil => rfl
  | cons a rest ih => exact ih _

/-- The table that operations lead to from a new one. -/
def reached (actions : List (Action α)) : Scopes α := ((empty : Scopes α).performAll actions).2

/-- A table is a stack of disjoint scopes, whatever operations led to it, failing ones and those
inside scopes of their own among them. The first scope is the global one, and stays so, with all
its keys, under whatever comes later. No key is bound in two scopes. An assignment gives its key the
value, leaves all other keys as they are, and renames no scope. And the removal of a scope makes its
keys undefined, and no others. -/
theorem reached_disjoint (actions : List (Action α)) :
    let t := reached actions
    (t.outermostFirst.head? = some t.base ∧ t.base.name = "global" ∧
      ∀ later, t.base.Covers (reached (actions ++ later)).base) ∧
    t.Separate ∧
    (∀ k v, (t.set k v).get? k = some v ∧
      (∀ j, j ≠ k → (t.set k v).get? j = t.get? j ∧ (t.set k v).contains j = t.contains j) ∧
      (t.set k v).toList.map (·.name) = t.toList.map (·.name)) ∧
    ∀ u, t.pop? = some u → ∀ k,
      if t.current.contains k then u.get? k = none ∧ u.contains k = false
      else u.get? k = t.get? k ∧ u.contains k = t.contains k := by
  intro t
  have hfollows : (empty : Scopes α).Follows t := follows_performAll empty actions
  have hseparate : t.Separate := hfollows.separate separate_empty
  refine ⟨⟨?_, hfollows.base.1, fun later => ?_⟩, hseparate, fun k v => ⟨?_, fun j hj => ?_, ?_⟩,
    fun u hu k => ?_⟩
  · simp [outermostFirst, toList]
  · rw [reached, performAll_append]
    exact (follows_performAll t later).base
  · simp
  · simp [hj]
  · exact (widens_set t k v).map_name_eq
  · have hget := hseparate.get?_of_pop? hu k
    rw [← get?_isSome, ← get?_isSome, hget]
    cases t.current.contains k with
    | true => exact ⟨rfl, rfl⟩
    | false => exact ⟨rfl, rfl⟩

/-- The body of a scope removes its own scope and the one around it, fails to remove the global one,
opens another, and is left by a failure. -/
def tangledActions : List (Action Nat) :=
  [.push "a", .set "x" 1,
    .within "b" [.set "y" 2, .pop, .pop, .pop, .push "c", .set "z" 3] (some "failure"),
    .set "x" 4]

theorem reached_disjoint_tangledActions :
    (reached tangledActions).outermostFirst.map (fun s => (s.name, s.bindings)) =
      [("global", []), ("c", [("z", 3), ("x", 4)])] ∧
    ((reached tangledActions).set "y" 5).get? "y" = some 5 ∧
    ((reached tangledActions).set "y" 5).get? "z" = (reached tangledActions).get? "z" ∧
    ∃ u, (reached tangledActions).pop? = some u ∧ u.get? "x" = none ∧ u.contains "x" = false := by
  obtain ⟨-, -, hset, hpop⟩ := reached_disjoint tangledActions
  obtain ⟨hvalue, hothers, -⟩ := hset "y" 5
  exact ⟨rfl, hvalue, (hothers "z" (by decide)).1, _, rfl, hpop _ rfl "x"⟩

end Scopes

end MatScript
