import MatScript.Proofs.InStep

/-! The types of the check along control flow. Where all ways that meet agree on the types of names,
operators are exact and vectors are made from integers of 64 bits, a run keeps in step with the check:
whichever branches it takes and however many rounds its loops make, each name that it evaluates has a
value of the type that the check has for it there. -/
namespace MatScript

open Typing Run Evaluation

/-! ## Ways that meet -/

namespace Scopes

/-- Every name of the first table has the same type in the second. -/
def agreesWith (s t : Scopes Ty) : Bool :=
  s.toList.all fun scope => scope.bindings.all fun b => decide (t.get? b.1 = s.get? b.1)

lemma agreesWith_eq : agreesWith = agreesBy Discipline.exact.view := by
  funext s t
  simp only [agreesWith, agreesBy, Discipline.exact, Option.map_id, id_eq]

end Scopes

/-- A branch or the rounds of a loop leave each name with the type that it had before, and so does
what comes before a jump to the end of a round or of a loop. -/
def Stmt.joinsAgree (entry : Scopes Ty) (st : Typing.State) : Stmt → Bool
  | .block _ _ | .assign _ _ _ | .update _ _ _ _ | .expr _ => true
  | .instruction _ name _ => decide (name = "break" ∨ name = "continue" → entry.agreesWith st.table)
  | .ifElse span condition yes no =>
    st.table.agreesWith (stateAfter ((Stmt.ifThen span condition yes).check .raising st)).table &&
      st.table.agreesWith (stateAfter ((Stmt.ifElse span condition yes no).check .raising st)).table
  | s => st.table.agreesWith (stateAfter (s.check .raising st)).table

/-- The operators of the statement itself are exact; an operator-assignment applies its operator to
the target and the value. -/
def Stmt.isExact (st : Typing.State) : Stmt → Bool
  | .block _ _ => true
  | .assign _ target value => target.isExact st && value.isExact st
  | .update span symbol target value =>
    (Expr.operator span (symbol.dropEnd 1).toString [target, value]).isExact st
  | .instruction _ _ arguments => Expr.isExactAll st arguments
  | .whileLoop _ e _ | .forLoop _ _ _ e _ | .ifThen _ e _ | .ifElse _ e _ _ | .expr e => e.isExact st

/-- Ways through the script that meet agree on the types of names. -/
def Stmt.JoinsAgree (s : Stmt) : Prop := s.everywhere Stmt.joinsAgree .empty {} = true

/-- All operators of the script are exact. -/
def Stmt.ExactOperators (s : Stmt) : Prop :=
  s.everywhere (fun _ st s => s.isExact st) .empty {} = true

/-- The integers that a run puts into vectors have 64 bits. -/
def Stmt.ItemsFit (s : Stmt) (fuel : Nat) : Prop :=
  ∀ ev ∈ s.evaluations fuel {}, ∀ span items vs m, ev.expr = .vector span items →
    Expr.evalAll items ev.machine = .ok vs m → ∀ n, .int n ∈ vs → FitsWord n

def Value.fitsVector : Value → Bool
  | .int n => decide (FitsWord n)
  | _ => true

def Evaluation.itemsFit (ev : Evaluation) : Bool :=
  match ev.expr with
  | .vector _ items =>
    match Expr.evalAll items ev.machine with
    | .ok vs _ => vs.all Value.fitsVector
    | .error _ _ => true
  | _ => true

lemma Stmt.itemsFit_of_all {s : Stmt} {fuel : Nat}
    (h : (s.evaluations fuel {}).all Evaluation.itemsFit = true) : s.ItemsFit fuel := by
  intro ev hev span items vs m hexpr heval n hn
  have hfit := List.all_eq_true.1 h ev hev
  simp only [Evaluation.itemsFit, hexpr, heval] at hfit
  exact of_decide_eq_true (List.all_eq_true.1 hfit (.int n) hn)

lemma Stmt.joinsAgree_eq : Stmt.joinsAgree = Stmt.joinsAgreeBy Discipline.exact.view := by
  funext entry st s
  cases s <;> simp only [joinsAgree, joinsAgreeBy, Scopes.agreesWith_eq]

lemma Stmt.isExact_eq : Stmt.isExact = Stmt.passes Discipline.exact.admits := by
  funext st s
  cases s <;>
    simp only [isExact, passes, Expr.isExact_eq, Expr.isExactAll_eq, Discipline.exact]

/-- A name that is seen by the exact discipline is bound to a value of its type. -/
lemma Discipline.exact_seen_name {st : Typing.State} {m : Machine} {span : Span} {id : String}
    (h : Discipline.exact.Seen st (.name span id) m) :
    ∃ t v, st.table.get? id = some t ∧ m.memory.get? id = some v ∧ v.Typed m.store t := by
  obtain ⟨t, hc, hends⟩ := h trivial
  simp only [Expr.check] at hc
  simp only [Expr.eval] at hends
  have hv : (m.lookup id).Typed m.store t := Value.typedUpTo_id.1 hends.2
  refine ⟨t, m.lookup id, (nameType_raising.mp hc).1, ?_, hv⟩
  unfold Machine.lookup at hv ⊢
  cases hget : m.memory.get? id with
  | some v => rfl
  | none =>
    -- what stands for an unbound name has no type
    rw [hget] at hv
    cases hv.hasType with
    | scalar hb => cases hb

/-! ## Scripts -/

/-- Types survive control flow. Take a script that is accepted, whose loop names occur only in bodies
of loops over them, in which ways that meet agree and operators are exact. Whichever branches a run
of it takes and however many rounds its loops make, if the integers that it puts into vectors have 64
bits, each name that it evaluates is bound to a value of the type that the check computes for it at
that place. -/
theorem Script.valuesTyped_of_parse {line : Nat} {text : String} {s : Stmt} {t : Ty}
    {st : Typing.State} (hp : (Script.parse line text).script = .ok s)
    (hc : s.check .raising {} = .ok t st) (hl : s.LoopNamesLocal) (hj : s.JoinsAgree)
    (hx : s.ExactOperators) (fuel : Nat) (hw : s.ItemsFit fuel) :
    ∀ ev ∈ s.evaluations fuel {}, ∀ span id, ev.expr = .name span id →
      ∃ st₁ t₁ st₂ v, (Part.stmt s).at? {} ev.path = some (st₁, .expr ev.expr) ∧
        ev.expr.check .raising st₁ = .ok t₁ st₂ ∧ ev.machine.memory.get? id = some v ∧
        v.HasType ev.machine.store t₁ := by
  have hstart : Discipline.exact.InStep (Usable s.loopNames []) ({} : Typing.State).table {} :=
    ⟨fun _ _ _ ht => (nomatch ht), Scopes.separate_empty⟩
  rw [Stmt.JoinsAgree, Stmt.joinsAgree_eq] at hj
  rw [Stmt.ExactOperators, Stmt.isExact_eq] at hx
  have htyped := s.inStep .exact s.loopNames fuel (Parse.normal_of_script hp).1.normal hc hl.fits
    (by simp) hj hx Scopes.separate_empty hstart hw
  intro ev hev span id hid
  obtain ⟨st₁, hat, hseen⟩ := htyped.evaluations ev hev
  rw [hid] at hseen
  obtain ⟨t₁, v, ht, hv, hvt⟩ := Discipline.exact_seen_name hseen
  refine ⟨st₁, t₁, st₁, v, hat, ?_, hv, hvt.hasType⟩
  rw [hid, Expr.check]
  exact nameType_raising.2 ⟨ht, rfl⟩

/-- Fills an array in a loop that is left by a jump out of two scopes, and turns it in another. -/
def fillingText : String :=
  "a = zeros(2, 2); for i = 0:2 if (i == 1) break; else a[i, 0] += i; while (a[0, 1] > 0) a = a'; print a;"

def fillingScript : Stmt :=
  let at1 : Span := ⟨1, 1⟩
  let a : Expr := .name at1 "a"
  let i : Expr := .name at1 "i"
  let int (k : Int) : Expr := .constant at1 (.int k)
  let element (j k : Expr) : Expr := .element at1 "a" at1 [j, k] at1
  .block at1 [
    .assign at1 a (.call at1 "zeros" [int 2, int 2]),
    .forLoop at1 "i" at1 (.range at1 (int 0) (int 2))
      (.ifElse at1 (.operator at1 "==" [i, int 1]) (.instruction at1 "break" [])
        (.update at1 "+=" (element i (int 0)) i)),
    .whileLoop at1 (.operator at1 ">" [element (int 0) (int 1), int 0])
      (.assign at1 a (.operator at1 "'" [a])),
    .instruction at1 "print" [a]]

lemma parse_fillingText : (Script.parse 1 fillingText).script = .ok fillingScript := by
  set_option maxRecDepth 4000 in cbv

theorem valuesTyped_fillingScript :
    (Script.parse 1 fillingText).script = .ok fillingScript ∧
    fillingScript.check .raising {} = .ok .none {} ∧ fillingScript.LoopNamesLocal ∧
    fillingScript.JoinsAgree ∧ fillingScript.ExactOperators ∧ fillingScript.ItemsFit 4 ∧
    ∀ ev ∈ fillingScript.evaluations 4 {}, ∀ span id, ev.expr = .name span id →
      ∃ st₁ t₁ st₂ v, (Part.stmt fillingScript).at? {} ev.path = some (st₁, .expr ev.expr) ∧
        ev.expr.check .raising st₁ = .ok t₁ st₂ ∧ ev.machine.memory.get? id = some v ∧
        v.HasType ev.machine.store t₁ := by
  have hp := parse_fillingText
  have hc : fillingScript.check .raising {} = .ok .none {} := by cbv
  have hl : fillingScript.LoopNamesLocal := by decide
  have hj : fillingScript.JoinsAgree := by
    unfold Stmt.JoinsAgree
    decide +kernel
  have hx : fillingScript.ExactOperators := by
    unfold Stmt.ExactOperators
    decide +kernel
  have hw : fillingScript.ItemsFit 4 := Stmt.itemsFit_of_all (by decide +kernel)
  exact ⟨hp, hc, hl, hj, hx, hw, Script.valuesTyped_of_parse hp hc hl hj hx 4 hw⟩

/-- A run finds a value for a name that is not of the type that the check computes for it there. -/
def Stmt.Mistypes (s : Stmt) (fuel : Nat) : Prop :=
  ∃ ev ∈ s.evaluations fuel {}, ∃ span id st₁ t₁ st₂ v, ev.expr = .name span id ∧
    (Part.stmt s).at? {} ev.path = some (st₁, .expr ev.expr) ∧
    ev.expr.check .raising st₁ = .ok t₁ st₂ ∧ ev.machine.memory.get? id = some v ∧
    ¬v.HasType ev.machine.store t₁

def Evaluation.isMistyped (s : Stmt) (ev : Evaluation) : Bool :=
  match ev.expr, (Part.stmt s).at? {} ev.path with
  | .name span id, some (st, .expr (.name span' id')) =>
    decide (span' = span ∧ id' = id) &&
      match st.table.get? id, ev.machine.memory.get? id with
      | some t, some v => !v.hasType ev.machine.store t
      | _, _ => false
  | _, _ => false

lemma Stmt.mistypes_of_any {s : Stmt} {fuel : Nat}
    (h : (s.evaluations fuel {}).any (·.isMistyped s) = true) : s.Mistypes fuel := by
  obtain ⟨ev, hev, h⟩ := List.any_eq_true.1 h
  unfold Evaluation.isMistyped at h
  split at h
  · next span id st span' id' hid hat =>
    rw [Bool.and_eq_true, decide_eq_true_eq] at h
    obtain ⟨⟨rfl, rfl⟩, h⟩ := h
    split at h
    · next t v ht hv =>
      refine ⟨ev, hev, span', id', st, t, st, v, hid, by rw [hid, hat], ?_, hv, ?_⟩
      · rw [hid, Expr.check]
        exact nameType_raising.2 ⟨ht, rfl⟩
      · rw [← Value.hasType_iff]
        simpa using h
    · cases h
  · cases h

/-- The text is that of an accepted script, a run of which finds a value of another type. -/
def Script.Mistypes (text : String) : Prop :=
  ∃ s t st, (Script.parse 1 text).script = .ok s ∧ s.check .raising {} = .ok t st ∧ s.Mistypes 0

def Script.isMistyped (text : String) : Bool :=
  match (Script.parse 1 text).script with
  | .ok s =>
    match s.check .raising {} with
    | .ok _ _ => (s.evaluations 0 {}).any (·.isMistyped s)
    | .error _ _ => false
  | .error _ => false

lemma Script.mistypes_of_isMistyped {text : String} (h : Script.isMistyped text = true) :
    Script.Mistypes text := by
  unfold Script.isMistyped at h
  split at h
  · next s hs =>
    split at h
    · next t st hc => exact ⟨s, t, st, hs, hc, Stmt.mistypes_of_any h⟩
    · cases h
  · cases h

/-- A branch that is not taken, a second round, the name of a loop after it, arrays compared for
equality, a sum of truth values from an array, a stretched axis, and an integer with more than 64
bits in a vector. -/
def mistypedTexts : List String :=
  ["x = 1; if (false) x = \"a\"; print x;", "x = 1; for i = 0:2 \x7b y = x; x = \"a\"; print y; \x7d",
    "for i = 0:2 \x7b \x7d y = i; print y;", "x = [1, 2] == [1, 2]; print x;",
    "x = [true, false]; y = x[0] + x[1]; print y;", "x = [1] .+ zeros(3); print x;",
    "x = [9223372036854775808, 1]; print x;"]

/-- Each of the conditions is needed. -/
theorem mistypes_mistypedTexts : mistypedTexts.Forall Script.Mistypes := by
  have hall : ∀ text ∈ mistypedTexts, Script.isMistyped text = true := by decide +kernel
  rw [List.forall_iff_forall_mem]
  intro text htext
  exact Script.mistypes_of_isMistyped (hall text htext)

end MatScript
