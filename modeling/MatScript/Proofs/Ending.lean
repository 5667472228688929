import Mathlib
import MatScript.Run

/-! How computations with a state end: with a result or with an error, and in which state. -/
namespace MatScript

variable {ε σ τ α β : Type}

lemma bind_ok {x : EStateM ε σ α} {s t : σ} {a : α} (h : x s = .ok a t) (f : α → EStateM ε σ β) :
    (x >>= f) s = f a t := by
  change EStateM.bind x f s = _
  simp only [EStateM.bind, h]

lemma bind_error {x : EStateM ε σ α} {s t : σ} {e : ε} (h : x s = .error e t)
    (f : α → EStateM ε σ β) : (x >>= f) s = .error e t := by
  change EStateM.bind x f s = _
  simp only [EStateM.bind, h]

lemma bind_eq_ok {x : EStateM ε σ α} {f : α → EStateM ε σ β} {s s' : σ} {b : β} :
    (x >>= f) s = .ok b s' ↔ ∃ a t, x s = .ok a t ∧ f a t = .ok b s' := by
  cases h : x s with
  | ok a t => rw [bind_ok h]; simp
  | error e t => rw [bind_error h]; simp

@[simp] lemma pure_apply (a : α) (s : σ) : (pure a : EStateM ε σ α) s = .ok a s := rfl

@[simp] lemma throw_apply (e : ε) (s : σ) : (throw e : EStateM ε σ α) s = .error e s := rfl

lemma discard_eq_ok {x : EStateM ε σ α} {s s' : σ} {u : PUnit} :
    (discard x) s = .ok u s' ↔ ∃ a, x s = .ok a s' := by
  change EStateM.map _ x s = _ ↔ _
  simp only [EStateM.map]
  cases x s with
  | ok a t => simp
  | error e t => simp

/-- The state that a computation ends in, however it ends. -/
def stateAfter : EStateM.Result ε σ α → σ
  | .ok _ s => s
  | .error _ s => s

@[simp] lemma stateAfter_ok (a : α) (s : σ) : stateAfter (.ok a s : EStateM.Result ε σ α) = s := rfl

@[simp] lemma stateAfter_error (e : ε) (s : σ) :
    stateAfter (.error e s : EStateM.Result ε σ α) = s := rfl

/-- What holds of the result and the state after a normal end, and of the error and the state after
any other. -/
def Ends (r : EStateM.Result ε σ α) (Q : α → σ → Prop) (E : ε → σ → Prop) : Prop :=
  match r with
  | .ok a s => Q a s
  | .error e s => E e s

lemma Ends.imp {r : EStateM.Result ε σ α} {Q Q' : α → σ → Prop} {E E' : ε → σ → Prop}
    (h : Ends r Q E) (hQ : ∀ a s, Q a s → Q' a s) (hE : ∀ e s, E e s → E' e s) : Ends r Q' E' := by
  cases r with
  | ok a s => exact hQ a s h
  | error e s => exact hE e s h

/-- After a normal end, the result and the state are those that the computation gives. -/
lemma Ends.self {r : EStateM.Result ε σ α} {Q : α → σ → Prop} {E : ε → σ → Prop} (h : Ends r Q E) :
    Ends r (fun a s => r = .ok a s ∧ Q a s) E := by
  cases r with
  | ok a s => exact ⟨rfl, h⟩
  | error e s => exact h

lemma Ends.bind {x : EStateM ε σ α} {f : α → EStateM ε σ β} {s : σ} {Q : α → σ → Prop}
    {Q' : β → σ → Prop} {E : ε → σ → Prop} (h : Ends (x s) Q E)
    (hf : ∀ a t, Q a t → Ends (f a t) Q' E) : Ends ((x >>= f) s) Q' E := by
  cases hx : x s with
  | ok a t => rw [hx] at h; rw [bind_ok hx]; exact hf a t h
  | error e t => rw [hx] at h; rw [bind_error hx]; exact h

/-- Two computations end alike: with the same result or the same error, in states that fit
together. -/
def EndAlike (x : EStateM.Result ε σ α) (y : EStateM.Result ε τ α) (Q : α → σ → τ → Prop)
    (E : ε → σ → τ → Prop) : Prop :=
  match x, y with
  | .ok a s, .ok b t => a = b ∧ Q a s t
  | .error e s, .error e' t => e = e' ∧ E e s t
  | _, _ => False

namespace EndAlike

variable {x : EStateM.Result ε σ α} {y : EStateM.Result ε τ α}

lemma imp {Q Q' : α → σ → τ → Prop} {E E' : ε → σ → τ → Prop} (h : EndAlike x y Q E)
    (hQ : ∀ a s t, Q a s t → Q' a s t) (hE : ∀ e s t, E e s t → E' e s t) : EndAlike x y Q' E' := by
  cases x <;> cases y
  · exact ⟨h.1, hQ _ _ _ h.2⟩
  · exact h
  · exact h
  · exact ⟨h.1, hE _ _ _ h.2⟩

/-- Computations that end alike do so together with what is computed after them. -/
lemma bind {x : EStateM ε σ α} {y : EStateM ε τ α} {f : α → EStateM ε σ β} {g : α → EStateM ε τ β}
    {s : σ} {t : τ} {Q : α → σ → τ → Prop} {Q' : β → σ → τ → Prop} {E : ε → σ → τ → Prop}
    (h : EndAlike (x s) (y t) Q E)
    (hf : ∀ a s t, Q a s t → EndAlike (f a s) (g a t) Q' E) :
    EndAlike ((x >>= f) s) ((y >>= g) t) Q' E := by
  cases hx : x s <;> cases hy : y t <;> rw [hx, hy] at h
  · obtain ⟨rfl, hq⟩ := h
    rw [bind_ok hx, bind_ok hy]
    exact hf _ _ _ hq
  · exact h.elim
  · exact h.elim
  · rw [bind_error hx, bind_error hy]
    exact h

end EndAlike

/-! ## Loops -/

namespace Run

variable {J : Machine → Prop} {E : Stop → Machine → Prop}

/-- What a condition and a round keep, a loop of any number of rounds keeps. -/
lemma ends_repeatWhile {c : Run Bool} {b : Run Round} (hc : ∀ m, J m → Ends (c m) (fun _ => J) E)
    (hb : ∀ m, J m → Ends (b m) (fun _ => J) E) (hfuel : ∀ m, J m → E .outOfFuel m) (fuel : Nat) :
    ∀ m, J m → Ends (repeatWhile c b fuel m) (fun _ => J) E := by
  induction fuel with
  | zero => exact hfuel
  | succ fuel ih =>
    intro m h
    have hcond := hc m h
    unfold repeatWhile
    cases hx : c m with
    | error stop m₁ => rw [hx] at hcond; exact hcond
    | ok go m₁ =>
      rw [hx] at hcond
      cases go with
      | false => exact hcond
      | true =>
        have hround := hb m₁ hcond
        dsimp only
        cases hy : b m₁ with
        | error stop m₂ => rw [hy] at hround; exact hround
        | ok r m₂ =>
          rw [hy] at hround
          cases r with
          | leave => exact hround
          | next => exact ih m₂ hround

/-- What a round keeps at every position, a loop over positions keeps. -/
lemma ends_repeatFrom {b : Nat → Run Round} (hb : ∀ i m, J m → Ends (b i m) (fun _ => J) E)
    (count i : Nat) : ∀ m, J m → Ends (repeatFrom b count i m) (fun _ => J) E := by
  induction count generalizing i with
  | zero => exact fun m h => h
  | succ count ih =>
    intro m h
    have hround := hb i m h
    unfold repeatFrom
    cases hy : b i m with
    | error stop m₁ => rw [hy] at hround; exact hround
    | ok r m₁ =>
      rw [hy] at hround
      cases r with
      | leave => exact hround
      | next => exact ih (i + 1) m₁ hround

/-! ## Lines -/

/-- A line breaks off only at a value that cannot be written. -/
lemma display_of_line_eq_some {store : Store} {vs : List Value} {e : RunError}
    (h : (Value.line store vs).2 = some e) : ∃ v ∈ vs, v.display store = .error e := by
  induction vs with
  | nil => cases h
  | cons v vs ih =>
    unfold Value.line at h
    cases hv : v.display store with
    | error e' =>
      rw [hv] at h
      cases h
      exact ⟨v, by simp, hv⟩
    | ok text =>
      rw [hv] at h
      obtain ⟨w, hw, he⟩ := ih h
      exact ⟨w, by simp [hw], he⟩

/-- The machines differ in that the second one has printed more. -/
def PrintedMore (m m' : Machine) : Prop := ∃ text, m' = { m with output := m.output ++ text }

/-- Printing does nothing else, and fails only at a value that cannot be written. -/
lemma ends_print (vs : List Value) (m : Machine) :
    Ends (print vs m) (fun _ => PrintedMore m) fun stop m' => PrintedMore m m' ∧
      ∃ v ∈ vs, ∃ e, v.display m.store = .error e ∧ stop = .failed e := by
  unfold print
  rcases hline : Value.line m.store vs with ⟨text, failure⟩
  cases failure with
  | none => exact ⟨text, rfl⟩
  | some e =>
    obtain ⟨v, hv, he⟩ := display_of_line_eq_some (congrArg Prod.snd hline)
    exact ⟨⟨text, rfl⟩, v, hv, e, he, rfl⟩

/-! ## Ways to stop -/

variable {P : Stop → Prop}

/-- The computations that stop, on whatever machine they run, only in ways that have the property. -/
def Stops (P : Stop → Prop) (r : Run α) : Prop :=
  ∀ m, Ends (r m) (fun _ _ => True) fun stop _ => P stop

lemma stops_pure (a : α) : Stops P (pure a) := fun _ => trivial

lemma stops_throw {stop : Stop} (h : P stop) : Stops P (throw stop : Run α) := fun _ => h

lemma Stops.imp {Q : Stop → Prop} {r : Run α} (h : Stops P r) (hPQ : ∀ stop, P stop → Q stop) :
    Stops Q r := fun m => (h m).imp (fun _ _ => id) fun stop _ => hPQ stop

lemma Stops.bind {r : Run α} {f : α → Run β} (hr : Stops P r) (hf : ∀ a, Stops P (f a)) :
    Stops P (r >>= f) := fun m => (hr m).bind fun a m' _ => hf a m'

lemma stops_ofStore {f : Store → Except RunError α}
    (h : ∀ store e, f store = .error e → P (.failed e)) : Stops P (ofStore f) := by
  intro m
  unfold ofStore
  cases hf : f m.store with
  | ok a => trivial
  | error e => exact h m.store e hf

lemma stops_lookup (id : String) : Stops P (lookup id) := fun _ => trivial

lemma stops_bind (id : String) (v : Value) : Stops P (Run.bind id v) := fun _ => trivial

lemma stops_change (p : Patch) : Stops P (change p) := fun _ => trivial

lemma Stops.within {scope : String} {body : Run α} (h : Stops P body) :
    Stops P (within scope body) := by
  intro m
  have hbody := h (m.push scope)
  unfold Run.within
  cases hx : body (m.push scope) with
  | ok a m' => trivial
  | error stop m' =>
    rw [hx] at hbody
    exact hbody

lemma Stops.repeatWhile {c : Run Bool} {b : Run Round} (hc : Stops P c) (hb : Stops P b)
    (hfuel : P .outOfFuel) (fuel : Nat) : Stops P (repeatWhile c b fuel) := fun m =>
  ends_repeatWhile (J := fun _ => True) (fun m _ => hc m) (fun m _ => hb m) (fun _ _ => hfuel) fuel m
    trivial

lemma Stops.repeatFrom {b : Nat → Run Round} (hb : ∀ i, Stops P (b i)) (count i : Nat) :
    Stops P (repeatFrom b count i) := fun m =>
  ends_repeatFrom (J := fun _ => True) (fun i m _ => hb i m) count i m trivial

end Run

end MatScript
