import MatScript.Proofs.Ending
import MatScript.Proofs.Names
import MatScript.Run

/-! What a computation sees of memory. Evaluation looks names up, and changes nothing in memory. -/
namespace MatScript

open Run

/-- The machines have one store and one output, and these memories. -/
structure Beside (M N : Scopes Value) (m n : Machine) : Prop where
  left : m.memory = M
  right : n.memory = N
  store : m.store = n.store
  output : m.output = n.output

namespace Run

variable {α β : Type} {M N : Scopes Value}

/-- The computations that end alike beside the two memories, and change neither. -/
def Blind (M N : Scopes Value) (r : Run α) : Prop :=
  ∀ m n, Beside M N m n → EndAlike (r m) (r n) (fun _ => Beside M N) (fun _ => Beside M N)

lemma blind_pure (a : α) : Blind M N (pure a) := fun _ _ h => ⟨rfl, h⟩

lemma blind_throw (e : Stop) : Blind M N (throw e : Run α) := fun _ _ h => ⟨rfl, h⟩

lemma Blind.bind {r : Run α} {f : α → Run β} (hr : Blind M N r) (hf : ∀ a, Blind M N (f a)) :
    Blind M N (r >>= f) :=
  fun m n h => (hr m n h).bind fun a m n h => hf a m n h

lemma ofStore_ok {f : Store → Except RunError α} {m : Machine} {a : α} (h : f m.store = .ok a) :
    ofStore f m = .ok a m := by
  rw [ofStore, h]

lemma ofStore_error {f : Store → Except RunError α} {m : Machine} {e : RunError}
    (h : f m.store = .error e) : ofStore f m = .error (.failed e) m := by
  rw [ofStore, h]

lemma blind_ofStore (f : Store → Except RunError α) : Blind M N (ofStore f) := by
  intro m n h
  unfold ofStore
  rw [h.store]
  cases f n.store with
  | ok a => exact ⟨rfl, h⟩
  | error e => exact ⟨rfl, h⟩

lemma blind_lookup {id : String} (hid : M.get? id = N.get? id) : Blind M N (lookup id) := by
  intro m n h
  refine ⟨?_, h⟩
  simp only [Machine.lookup, h.left, h.right, hid]

lemma blind_print (vs : List Value) : Blind M N (print vs) := by
  intro m n h
  unfold print
  rw [h.store]
  obtain ⟨text, failure⟩ := Value.line n.store vs
  cases failure with
  | none => exact ⟨rfl, h.left, h.right, rfl, congrArg (· ++ text) h.output⟩
  | some e => exact ⟨rfl, h.left, h.right, rfl, congrArg (· ++ text) h.output⟩

lemma blind_perform (op : Operation) (arguments : List Value) :
    Blind M N (perform op arguments) := by
  unfold perform
  split
  · exact (blind_ofStore _).bind fun _ => blind_throw _
  · exact (blind_ofStore _).bind fun _ => blind_throw _
  · split <;> exact blind_throw _
  · exact (blind_print _).bind fun _ => blind_pure _
  · exact blind_ofStore _

lemma blind_apply (name : String) (arguments : List Value) : Blind M N (apply name arguments) := by
  unfold apply
  split
  · exact blind_perform _ _
  · exact blind_throw _

end Run

mutual

/-- Evaluation depends on memory through the names of the expression only. -/
theorem Expr.blind {M N : Scopes Value} : (e : Expr) → (∀ x ∈ e.names, M.get? x = N.get? x) →
    Blind M N e.eval
  | .constant _ _, _ => by simpa only [Expr.eval] using blind_pure _
  | .vector _ items, h => by
    simp only [Expr.eval]
    exact (Expr.blind_all items (by simpa only [Expr.names] using h)).bind fun _ => blind_ofStore _
  | .range _ start stop, h => by
    simp only [Expr.names, List.mem_append] at h
    simp only [Expr.eval]
    refine (start.blind fun x hx => h x (.inl hx)).bind fun _ => ?_
    exact (stop.blind fun x hx => h x (.inr hx)).bind fun _ => blind_ofStore _
  | .operator _ _ operands, h => by
    simp only [Expr.eval]
    exact (Expr.blind_all operands (by simpa only [Expr.names] using h)).bind fun _ => blind_apply _ _
  | .call _ _ arguments, h => by
    simp only [Expr.eval]
    exact (Expr.blind_all arguments (by simpa only [Expr.names] using h)).bind fun _ => blind_apply _ _
  | .name _ id, h => by
    simp only [Expr.eval]
    exact blind_lookup (h id (by simp [Expr.names]))
  | .element _ id _ indices _, h => by
    simp only [Expr.names, List.mem_cons] at h
    simp only [Expr.eval]
    refine (blind_lookup (h id (.inl rfl))).bind fun _ => ?_
    exact (Expr.blind_all indices fun x hx => h x (.inr hx)).bind fun _ => blind_ofStore _
  | .gap _ _, _ => by simpa only [Expr.eval, fail] using blind_throw _

theorem Expr.blind_all {M N : Scopes Value} : (es : List Expr) →
    (∀ x ∈ Expr.namesAll es, M.get? x = N.get? x) → Blind M N (Expr.evalAll es)
  | [], _ => by simpa only [Expr.evalAll] using blind_pure _
  | e :: es, h => by
    simp only [Expr.namesAll, List.mem_append] at h
    simp only [Expr.evalAll]
    refine (e.blind fun x hx => h x (.inl hx)).bind fun _ => ?_
    exact (Expr.blind_all es fun x hx => h x (.inr hx)).bind fun _ => blind_pure _

end

namespace Run

variable {α : Type} {M N : Scopes Value}

lemma blind_evalIndices (indices : List Expr) (h : ∀ x ∈ Expr.namesAll indices, M.get? x = N.get? x) :
    Blind M N (evalIndices indices) := (Expr.blind_all indices h).bind fun _ => blind_ofStore _

lemma blind_test (condition : Expr) (h : ∀ x ∈ condition.names, M.get? x = N.get? x) :
    Blind M N (test condition) := (condition.blind h).bind fun _ => blind_ofStore _

/-- A computation that is blind for what lies in memory leaves memory as it is, however it ends. -/
lemma Blind.memory_after {r : Run α} (h : ∀ M, Blind M M r) (m : Machine) :
    (stateAfter (r m)).memory = m.memory := by
  have hm := h m.memory m m ⟨rfl, rfl, rfl, rfl⟩
  cases hr : r m with
  | ok a m' => rw [hr] at hm; exact hm.2.left
  | error e m' => rw [hr] at hm; exact hm.2.left

end Run

end MatScript
