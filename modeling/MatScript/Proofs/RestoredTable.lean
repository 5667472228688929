import MatScript.Proofs.SharedTable

/-! A collecting check comes to its end on every table and gives the table back. The scopes that it
enters are left again, so every new name goes with its scope; of the names that were bound before,
those that the script assigns may have other types afterwards. -/
namespace MatScript

open Typing

namespace Scope

variable {α : Type} {names : String → Prop}

/-- The two scopes have one name and, the given names apart, the same bindings. -/
def SameOff (names : String → Prop) (s t : Scope α) : Prop :=
  t.name = s.name ∧ ∀ k, ¬names k → t.get? k = s.get? k

lemma SameOff.refl (s : Scope α) : s.SameOff names s := ⟨rfl, fun _ _ => rfl⟩

lemma SameOff.trans {s t u : Scope α} (h : s.SameOff names t) (h' : t.SameOff names u) :
    s.SameOff names u :=
  ⟨h'.1.trans h.1, fun k hk => (h'.2 k hk).trans (h.2 k hk)⟩

lemma sameOff_insert (s : Scope α) {key : String} (hkey : names key) (v : α) :
    s.SameOff names (s.insert key v) := by
  refine ⟨rfl, fun k hk => ?_⟩
  have hne : k ≠ key := by
    rintro rfl
    exact hk hkey
  rw [get?_insert, if_neg hne]

end Scope

/-- Bindings of names that a check does not assign stay as they are, in whatever scope. -/
lemma Typing.follows_sameOff (names : String → Prop) (p : Policy) :
    Follows (fun _ => True) names
      (fun st st' => st.table.Carries (Scope.SameOff names) st'.table) p where
  refl st := .refl .refl st.table
  trans h h' := h.trans (fun _ _ _ => .trans) h'
  report st _ _ _ := .refl .refl st.table
  set st _ t hid := .set .refl (fun a => a.sameOff_insert hid t) st.table
  push st name := .push .refl st.table name
  pop h := h.pop

/-- What may become of a scope when the names are assigned: it has the name and the keys that it
had, and another value only for a key among the names. -/
structure Scope.Reassigned {α : Type} (names : List String) (s t : Scope α) : Prop where
  name_eq : t.name = s.name
  contains_eq : ∀ k, t.contains k = s.contains k
  changed : ∀ k, t.get? k ≠ s.get? k → s.contains k = true ∧ k ∈ names

lemma Scope.SameKeys.reassigned {α : Type} {names : List String} {s t : Scope α}
    (h : s.SameKeys t) (hoff : s.SameOff (· ∈ names) t) : s.Reassigned names t := by
  refine ⟨h.1, h.2, fun k hk => ⟨?_, ?_⟩⟩
  · by_contra hno
    have hs : s.get? k = none := by simpa [Scope.contains] using hno
    have ht : t.get? k = none := by simpa [Scope.contains, hs] using h.2 k
    exact hk (ht.trans hs.symm)
  · by_contra hno
    exact hk (hoff.2 k hno)

lemma Stmt.type_of_block {span : Span} {body : List Stmt} {p : Policy} {st st' : Typing.State}
    {t : Ty} (h : (Stmt.block span body).check p st = .ok t st') : t = .none := by
  simp only [Stmt.check] at h
  obtain ⟨_, st₁, -, h⟩ := bind_eq_ok.mp h
  cases h
  rfl

/-- A block leaves the scopes around it with their names and keys, and only what it assigns can have
another type. -/
lemma Stmt.reassigned_of_block {span : Span} {body : List Stmt} {p : Policy} {st st' : Typing.State}
    {t : Ty} (h : (Stmt.block span body).check p st = .ok t st') :
    List.Forall₂ (Scope.Reassigned (Stmt.block span body).assignedNames) st.table.toList
      st'.table.toList := by
  have hmoves := (Stmt.block span body).moves (follows_sameOff _ p) (fun _ _ => trivial) fun _ hx =>
    hx
  have hoff := hmoves.ok h
  obtain ⟨st₁, hbody, rfl⟩ := Stmt.check_block h
  have hkeys : st.table.SameKeys st₁.pop.table := (Stmt.widensTable_all p body _ _ _ hbody).pop
  exact hkeys.mp (fun _ _ hk ho => hk.reassigned ho) (hoff.forall₂ hkeys.length_eq.symm)

/-- A table inside of a loop, with a name in each scope. -/
def loopTable : Scopes Ty := ⟨[⟨"loop", [("y", .text)]⟩], ⟨"global", [("x", .int)]⟩⟩

/-- The script gives both names other types, and two new names to scopes of its own; a vector of two
types and a range that does not end at an integer are faults. -/
def retypingText : String := "x = true; z = [1, \"a\"]; for i = 0:z y = i; break;"

def retypingScript : Stmt :=
  let at1 : Span := ⟨1, 1⟩
  .block at1 [
    .assign at1 (.name at1 "x") (.constant at1 (.bool true)),
    .assign at1 (.name at1 "z")
      (.vector at1 [.constant at1 (.int 1), .constant at1 (.text "a")]),
    .forLoop at1 "i" at1 (.range at1 (.constant at1 (.int 0)) (.name at1 "z"))
      (.assign at1 (.name at1 "y") (.name at1 "i")),
    .instruction at1 "break" []]

end MatScript
